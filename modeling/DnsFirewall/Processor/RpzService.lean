import DnsFirewall.Foundations.HeaderLines
import DnsFirewall.Policy.BlacklistFile
import DnsFirewall.Policy.FluxWindow
import DnsFirewall.Processor.Bans
import DnsFirewall.Processor.Exports

/-!
# The zone that the sinkhole serves

The workers' calls, the housekeeping of `main` behind a datagram, the exports
that the clock or SIGHUP asks for, and the thread of the sinkhole that sends
the exported zone, one after the other.  The files can be opened for writing.
What is served is, byte for byte, what the latest export wrote, and its rules
are for the names that the static list blocks or the tracker held at that time.
-/

namespace DnsFirewall

open CString Lines Windows Runs

variable {F : Type}

/-! ## The exported zone -/

/-- The lines in front of the rules: the TTL, the SOA record, the NS record
and an empty one. -/
def zoneStart : List Bytes :=
  [[36, 84, 84, 76, 32, 51, 48, 48],
    [64, 32, 83, 79, 65, 32, 108, 111, 99, 97, 108, 104, 111, 115, 116, 46,
      32, 97, 100, 109, 105, 110, 46, 108, 111, 99, 97, 108, 104, 111, 115,
      116, 46, 32, 40, 49, 32, 51, 54, 48, 48, 32, 54, 48, 48, 32, 56, 54, 52,
      48, 48, 32, 51, 48, 48, 41],
    [32, 32, 78, 83, 32, 108, 111, 99, 97, 108, 104, 111, 115, 116, 46],
    []]

/-- The lines of `blacklist.txt`, if it can be opened: the loop reads them as
that of `blacklist_load_file` does. -/
def staticNames : Option Bytes → List Bytes
  | none => []
  | some file => listStrings file

/-- `ad_export_rpz`, with the content of `blacklist.txt`. -/
def adExportRpz (blacklist : Option Bytes) (tracker : Option Reputation) :
    Bytes :=
  terminated 10 zoneStart ++
    terminated 10 ((staticNames blacklist).map rpzRule) ++
      adExportRpzDynamic tracker

/-! ## The sinkhole -/

/-- `GET /rpz.zone` -/
def zoneRequest : Bytes :=
  [71, 69, 84, 32, 47, 114, 112, 122, 46, 122, 111, 110, 101]

/-- `HTTP/1.0 200 OK` -/
def okStatus : Bytes :=
  [72, 84, 84, 80, 47, 49, 46, 48, 32, 50, 48, 48, 32, 79, 75]

/-- `Connection: close` -/
def closeField : Bytes :=
  [67, 111, 110, 110, 101, 99, 116, 105, 111, 110, 58, 32, 99, 108, 111, 115,
    101]

/-- The header in front of the zone, with `Content-Type: text/plain`. -/
def zoneHeader : Bytes :=
  headerText
    [okStatus,
      [67, 111, 110, 116, 101, 110, 116, 45, 84, 121, 112, 101, 58, 32, 116,
        101, 120, 116, 47, 112, 108, 97, 105, 110],
      closeField]

/-- `HTTP/1.0 404 Not Found` and `Content-Length: 0`. -/
def zoneMissing : Bytes :=
  headerText
    [[72, 84, 84, 80, 47, 49, 46, 48, 32, 52, 48, 52, 32, 78, 111, 116, 32, 70,
        111, 117, 110, 100],
      [67, 111, 110, 116, 101, 110, 116, 45, 76, 101, 110, 103, 116, 104, 58,
        32, 48]]

/-- `warning_page`. -/
def warningPage : Bytes :=
  headerText
      [okStatus,
        [67, 111, 110, 116, 101, 110, 116, 45, 84, 121, 112, 101, 58, 32, 116,
          101, 120, 116, 47, 104, 116, 109, 108],
        closeField] ++
    [60, 104, 116, 109, 108, 62, 60, 98, 111, 100, 121, 62, 60, 104, 49, 62,
      65, 99, 99, 101, 115, 115, 32, 66, 108, 111, 99, 107, 101, 100, 60, 47,
      104, 49, 62, 60, 112, 62, 89, 111, 117, 114, 32, 114, 101, 113, 117, 101,
      115, 116, 32, 116, 111, 32, 97, 32, 109, 97, 108, 105, 99, 105, 111, 117,
      115, 32, 100, 111, 109, 97, 105, 110, 32, 119, 97, 115, 32, 98, 108, 111,
      99, 107, 101, 100, 32, 98, 121, 32, 116, 104, 101, 32, 68, 78, 83, 32,
      102, 105, 114, 101, 119, 97, 108, 108, 46, 60, 47, 112, 62, 60, 47, 98,
      111, 100, 121, 62, 60, 47, 104, 116, 109, 108, 62]

/-- What has arrived when `recv` returns is searched up to its first NUL. -/
def asksForZone (received : Bytes) : Bool :=
  (strstr (content (received.take 255)) zoneRequest).isSome

/-- What `http_thread_func` sends: the zone is sent in the parts that `fgets`
reads, each up to its first NUL. -/
def httpThread (zone : Option Bytes) (received : Bytes) : Bytes :=
  if asksForZone received then
    match zone with
    | some file => zoneHeader ++ (readAll 10 4095 file).flatMap content
    | none => zoneMissing
  else
    warningPage

/-! ## The service -/

/-- The firewall, the times of `main` and `policy_housekeeping`, and the
files. -/
structure Service where
  firewall : Firewall
  lastHousekeeping : Int
  lastExport : Int
  zone : Option Bytes
  table : Option Bytes

/-- The service at the start of the loop of `main`; an earlier process may
have left files. -/
def serviceStart (policyTime repTime : Int) (zone table : Option Bytes) :
    Service :=
  ⟨firewallStart repTime, policyTime, 0, zone, table⟩

/-- `ad_export_rpz` and `rep_export_csv`. -/
def exportFiles (service : Service) (blacklist : Option Bytes) : Service :=
  { service with
    zone := some (adExportRpz blacklist service.firewall.reputation)
    table :=
      match service.firewall.reputation with
      | none => service.table
      | some ctx => some (repExportCsv ctx) }

/-- The readings of the clock behind a datagram, and `blacklist.txt`. -/
structure MainTurn where
  decayTime : Int
  housekeepingTime : Int
  cleanupTime : Int
  now : Int
  blacklist : Option Bytes

/-- `rep_decay` and `policy_housekeeping`. -/
def housekeep (service : Service) (turn : MainTurn) : Service :=
  let flux :=
    policyHousekeeping ⟨service.firewall.flux, service.lastHousekeeping⟩
      turn.housekeepingTime turn.cleanupTime
  { service with
    firewall :=
      { service.firewall with
        reputation :=
          service.firewall.reputation.map (repDecay · turn.decayTime)
        flux := flux.table }
    lastHousekeeping := flux.lastHousekeeping }

/-- The static `last_export`, which the first turn sets. -/
def exportBase (service : Service) (now : Int) : Int :=
  if service.lastExport = 0 then now else service.lastExport

/-- The loop of `main` behind a datagram that is long enough. -/
def mainTurn (service : Service) (turn : MainTurn) : Service :=
  let kept := housekeep service turn
  let lastExport := exportBase service turn.now
  if 60 < turn.now - lastExport then
    { exportFiles kept turn.blacklist with lastExport := turn.now }
  else
    { kept with lastExport := lastExport }

inductive ServiceEvent where
  | query (call : QueryCall)
  | received (turn : MainTurn)
  | hangup (blacklist : Option Bytes)

def serviceStep (cfg : Config F) (service : Service) :
    ServiceEvent → Service
  | .query call =>
      { service with firewall := queryCall cfg service.firewall call }
  | .received turn => mainTurn service turn
  | .hangup blacklist => exportFiles service blacklist

/-- The static list of the export that the event makes. -/
def ServiceEvent.exported (service : Service) :
    ServiceEvent → Option (Option Bytes)
  | .query _ => none
  | .received turn =>
      if 60 < turn.now - exportBase service turn.now then
        some turn.blacklist
      else none
  | .hangup blacklist => some blacklist

def serviceRun (cfg : Config F) (service : Service)
    (events : List ServiceEvent) : Service :=
  run (serviceStep cfg) service events

/-- A line of the zone is the rule for the name, but for case and a final
dot. -/
def ZoneLists (zone domain : Bytes) : Prop :=
  ∃ name, rpzRule name ∈ linesOf 10 zone ∧ SameName name domain

/-- The static list blocks the name. -/
def BlockedByList (blacklist : Option Bytes) (domain : Bytes) : Prop :=
  policyCheckBlocklist (blacklistLoadFile blacklistEmpty blacklist).2
    domain = true

instance (blacklist : Option Bytes) (domain : Bytes) :
    Decidable (BlockedByList blacklist domain) :=
  inferInstanceAs (Decidable (_ = _))

/-- The tracker holds the name. -/
def TrackedName (fw : Firewall) (domain : Bytes) : Prop :=
  ∃ tracker e, fw.reputation = some tracker ∧ e ∈ tracker.entries ∧
    SameName e.domain domain

/-- No query of the run asks first for a name with a newline. -/
def NoNewlineAsked (events : List ServiceEvent) : Prop :=
  ∀ call qname, .query call ∈ events →
    firstQname call.inbuf = some qname → 10 ∉ content qname

/-! ## The tracked names -/

/-- Every tracked name has the property. -/
def Reputation.All (property : Bytes → Prop) (ctx : Reputation) : Prop :=
  ∀ e, e ∈ ctx.entries → property e.domain

section Tracked

variable {property : Bytes → Prop} {ctx : Reputation}

theorem Reputation.All.repRecordBlock
    (all : ctx.All property) {domain : Bytes} (has : property (content domain))
    (now : Int) :
    (repRecordBlock ctx domain now).All property := by
  intro e member
  obtain ⟨slot, inChain⟩ := ChainedTable.mem_entries_iff.mp member
  have old :
      ∀ other slot, other ∈ ctx.buckets slot → property other.domain :=
    fun other slot inOld =>
      all other (ChainedTable.mem_entries_iff.mpr ⟨slot, inOld⟩)
  unfold DnsFirewall.repRecordBlock ChainedTable.put at inChain
  simp only [Function.update_apply] at inChain
  split at inChain
  · rcases ChainedTable.mem_putChain inChain with isNew | inOld
    · rw [isNew, countBlock_domain]
      exact has
    · exact old e _ inOld
  · exact old e slot inChain

theorem Reputation.All.repDecay
    (all : ctx.All property) (now : Int) :
    (repDecay ctx now).All property := by
  rw [DnsFirewall.repDecay]
  split
  · exact all
  · intro e member
    obtain ⟨slot, inChain⟩ := ChainedTable.mem_entries_iff.mp member
    obtain ⟨before, inOld, decayed⟩ := List.mem_filterMap.mp inChain
    rw [decayEntry_domain decayed]
    exact all before (ChainedTable.mem_entries_iff.mpr ⟨slot, inOld⟩)

theorem Reputation.All.repCall
    (all : ctx.All property) {call : RepCall}
    (asked :
      ∀ packet qname, call.op = .block packet →
        firstQname packet = some qname → property (content qname)) :
    (repCall ctx call).All property := by
  obtain ⟨time, op⟩ := call
  cases op with
  | block packet =>
      cases first : firstQname packet with
      | none =>
          simp only [DnsFirewall.repCall, first]
          exact all
      | some qname =>
          simp only [DnsFirewall.repCall, first]
          exact all.repRecordBlock (asked packet qname rfl first) time
  | decay => exact all.repDecay time

end Tracked

/-- What holds of every name that a block was reported for holds of the tracked
names. -/
theorem all_run
    {property : Bytes → Prop} {calls : List RepCall}
    (asked :
      ∀ call packet qname, call ∈ calls → call.op = .block packet →
        firstQname packet = some qname → property (content qname))
    (start : Int) :
    (run repCall (repInit start) calls).All property := by
  have step :
      ∀ (ctx : Reputation) (call : RepCall), ctx.All property →
        call ∈ calls → (repCall ctx call).All property := by
    intro ctx call all member
    exact all.repCall fun packet qname => asked call packet qname member
  have empty : (repInit start).All property := by
    intro e member
    obtain ⟨slot, inChain⟩ := ChainedTable.mem_entries_iff.mp member
    cases inChain
  apply invariant_run _ step empty
  intro before call after shape
  rw [shape]
  exact List.mem_append_right before List.mem_cons_self

/-! ## The tracker of the service -/

/-- The tracker is that of a run of its calls, whose blocks are for packets of
the events. -/
def TrackedFrom (start : Int) (events : List ServiceEvent) (fw : Firewall) :
    Prop :=
  ∃ calls,
    fw.reputation = some (run repCall (repInit start) calls) ∧
      ∀ call packet, call ∈ calls → call.op = .block packet →
        ∃ asked, .query asked ∈ events ∧ asked.inbuf = packet

theorem TrackedFrom.queryCall
    {start : Int} {events : List ServiceEvent} {fw : Firewall}
    (origin : TrackedFrom start events fw) (cfg : Config F) {asked : QueryCall}
    (member : .query asked ∈ events) :
    TrackedFrom start events (queryCall cfg fw asked) := by
  obtain ⟨earlier, tracked, blocks⟩ := origin
  obtain ⟨later, ofPacket, after⟩ := exists_run_queryCall cfg tracked asked
  refine ⟨earlier ++ later, ?_, ?_⟩
  · rw [after, run_append]
  · intro call packet inCalls isBlock
    rcases List.mem_append.mp inCalls with isEarlier | isLater
    · exact blocks call packet isEarlier isBlock
    · rw [ofPacket call isLater] at isBlock
      cases isBlock
      exact ⟨asked, member, rfl⟩

theorem TrackedFrom.housekeep
    {start : Int} {events : List ServiceEvent} {service : Service}
    (origin : TrackedFrom start events service.firewall) (turn : MainTurn) :
    TrackedFrom start events (housekeep service turn).firewall := by
  obtain ⟨calls, tracked, blocks⟩ := origin
  refine ⟨calls ++ [⟨turn.decayTime, .decay⟩], ?_, ?_⟩
  · rw [DnsFirewall.housekeep]
    simp only [tracked, Option.map_some]
    rw [run_append]
    rfl
  · intro call packet inCalls isBlock
    rcases List.mem_append.mp inCalls with isEarlier | isDecay
    · exact blocks call packet isEarlier isBlock
    · rw [List.mem_singleton.mp isDecay] at isBlock
      cases isBlock

theorem firewall_mainTurn (service : Service) (turn : MainTurn) :
    (mainTurn service turn).firewall = (housekeep service turn).firewall := by
  unfold mainTurn
  simp only
  split
  · rfl
  · rfl

theorem trackedFrom_serviceRun
    (cfg : Config F) (policyTime repTime : Int) (zone table : Option Bytes)
    (events : List ServiceEvent) :
    TrackedFrom repTime events
      (serviceRun cfg (serviceStart policyTime repTime zone table)
        events).firewall := by
  have step :
      ∀ (service : Service) (event : ServiceEvent),
        TrackedFrom repTime events service.firewall → event ∈ events →
          TrackedFrom repTime events
            (serviceStep cfg service event).firewall := by
    intro service event origin member
    cases event with
    | query call => exact origin.queryCall cfg member
    | received turn =>
        rw [serviceStep]
        rw [firewall_mainTurn]
        exact origin.housekeep turn
    | hangup blacklist => exact origin
  apply
    invariant_run
      (fun service : Service => TrackedFrom repTime events service.firewall)
      step
  · exact ⟨[], rfl, fun _ _ member => absurd member List.not_mem_nil⟩
  · intro before event after shape
    rw [shape]
    exact List.mem_append_right before List.mem_cons_self

/-- The tracked names are those that the queries first ask for. -/
theorem TrackedFrom.all
    {start : Int} {events : List ServiceEvent} {fw : Firewall}
    (origin : TrackedFrom start events fw) {property : Bytes → Prop}
    (asked :
      ∀ call qname, .query call ∈ events →
        firstQname call.inbuf = some qname → property (content qname)) :
    ∃ tracker, fw.reputation = some tracker ∧ tracker.Sound ∧
      tracker.All property := by
  obtain ⟨calls, tracked, blocks⟩ := origin
  refine ⟨_, tracked, sound_run start calls, all_run ?_ start⟩
  intro call packet qname member isBlock first
  obtain ⟨query, isQuery, rfl⟩ := blocks call packet member isBlock
  exact asked query qname isQuery first

/-! ## What the zone says -/

theorem adExportRpz_eq (blacklist : Option Bytes) (ctx : Reputation) :
    adExportRpz blacklist (some ctx) =
      terminated 10
        (zoneStart ++
          (staticNames blacklist ++ repGetBlockedDomains ctx).map
            rpzRule) := by
  rw [adExportRpz, List.map_append]
  simp [adExportRpzDynamic, terminated]

theorem mem_trimLine
    {line : Bytes} {character : UInt8} (member : character ∈ trimLine line) :
    character ≠ 0 ∧ character ≠ 10 := by
  have kept := List.mem_takeWhile_imp member
  simp only [decide_eq_true_eq] at kept
  exact ⟨kept.1, kept.2.2⟩

/-- The names of the static list have no NUL and no newline. -/
theorem mem_listStrings_plain
    {file entry : Bytes} (listed : entry ∈ listStrings file) :
    0 ∉ entry ∧ 10 ∉ entry := by
  obtain ⟨-, window, -, trimmed⟩ := mem_listStrings_iff.mp listed
  rw [← trimmed]
  exact
    ⟨fun isNul => (mem_trimLine isNul).1 rfl,
      fun newline => (mem_trimLine newline).2 rfl⟩

/-- The names that `ad_export_rpz` writes rules for. -/
theorem exported_plain
    {ctx : Reputation} {character : UInt8}
    (all : ctx.All fun name => character ∉ name)
    (plain : ∀ file entry, entry ∈ listStrings file → character ∉ entry)
    {blacklist : Option Bytes} {name : Bytes}
    (exported : name ∈ staticNames blacklist ++ repGetBlockedDomains ctx) :
    character ∉ name := by
  rcases List.mem_append.mp exported with listed | tracked
  · cases blacklist with
    | none => cases listed
    | some file => exact plain file name listed
  · obtain ⟨e, member, rfl⟩ := List.mem_map.mp tracked
    exact all e (List.mem_filter.mp member).1

/-- The rules of the zone are those for the exported names. -/
theorem rpzRule_mem_zone_iff
    {blacklist : Option Bytes} {ctx : Reputation}
    (all : ctx.All fun name => 10 ∉ name) (name : Bytes) :
    rpzRule name ∈ linesOf 10 (adExportRpz blacklist (some ctx)) ↔
      name ∈ staticNames blacklist ∨ name ∈ repGetBlockedDomains ctx := by
  have plainLines :
      ∀ line,
        line ∈ zoneStart ++
            (staticNames blacklist ++ repGetBlockedDomains ctx).map
              rpzRule →
          10 ∉ line := by
    intro line member
    rcases List.mem_append.mp member with start | rule
    · have noNewline : zoneStart.all (fun line => !line.contains 10) := by
        decide
      simpa using List.all_eq_true.mp noNewline line start
    · obtain ⟨other, exported, rfl⟩ := List.mem_map.mp rule
      rw [newline_mem_rpzRule]
      exact
        exported_plain all
          (fun _ _ listed => (mem_listStrings_plain listed).2) exported
  have notStart : rpzRule name ∉ zoneStart := by
    intro start
    have noRule :
        zoneStart.all fun line => !(rpzRule []).isSuffixOf line := by
      decide
    have isSuffix : rpzRule [] <:+ rpzRule name := ⟨name, rfl⟩
    have differs := List.all_eq_true.mp noRule _ start
    rw [List.isSuffixOf_iff_suffix.mpr isSuffix] at differs
    cases differs
  rw [adExportRpz_eq, linesOf_terminated plainLines, List.mem_append,
    or_iff_right notStart,
    List.mem_map_of_injective fun _ _ => rpzRule_injective,
    List.mem_append]

/-- The rules of an exported zone are for the names that the static list
blocks, and for those that the tracker holds. -/
theorem zoneLists_adExportRpz_iff
    {fw : Firewall} {tracker : Reputation}
    (isTracker : fw.reputation = some tracker) (sound : tracker.Sound)
    (all : tracker.All fun name => 10 ∉ name) (blacklist : Option Bytes)
    (domain : Bytes) :
    ZoneLists (adExportRpz blacklist fw.reputation) domain ↔
      BlockedByList blacklist domain ∨ TrackedName fw domain := by
  have listed :
      BlockedByList blacklist domain ↔
        ∃ name, name ∈ staticNames blacklist ∧ SameName name domain := by
    rw [BlockedByList]
    cases blacklist with
    | none =>
        simp [staticNames, blacklistLoadFile, policyCheckBlocklist,
          blacklistContains_empty]
    | some file => exact policyCheckBlocklist_load_iff _ domain
  have tracked :
      TrackedName fw domain ↔
        ∃ name, name ∈ repGetBlockedDomains tracker ∧
          SameName name domain := by
    rw [sound.blockedDomains]
    constructor
    · rintro ⟨other, e, isOther, member, same⟩
      rw [isTracker] at isOther
      cases isOther
      exact ⟨_, List.mem_map_of_mem member, same⟩
    · rintro ⟨name, member, same⟩
      obtain ⟨e, inTable, rfl⟩ := List.mem_map.mp member
      exact ⟨tracker, e, isTracker, inTable, same⟩
  rw [isTracker, listed, tracked, ← exists_or]
  apply exists_congr
  intro name
  rw [rpzRule_mem_zone_iff all, or_and_right]

/-! ## What is sent -/

/-- The zone has no NUL, so the parts that are sent are all of it. -/
theorem httpThread_zone
    {ctx : Reputation} (all : ctx.All fun name => 0 ∉ name)
    (blacklist : Option Bytes) {received : Bytes}
    (asks : asksForZone received = true) :
    httpThread (some (adExportRpz blacklist (some ctx))) received =
      zoneHeader ++ adExportRpz blacklist (some ctx) := by
  have noNul : 0 ∉ adExportRpz blacklist (some ctx) := by
    rw [adExportRpz_eq, terminated, List.mem_flatMap]
    rintro ⟨line, member, isNul⟩
    rw [List.mem_append, or_iff_left (by decide)] at isNul
    rcases List.mem_append.mp member with start | rule
    · have noNul : zoneStart.all (fun line => !line.contains 0) := by
        decide
      have absent := List.all_eq_true.mp noNul line start
      simp at absent
      exact absent isNul
    · obtain ⟨name, exported, rfl⟩ := List.mem_map.mp rule
      rw [rpzRule, List.mem_append, or_iff_left (by decide)] at isNul
      exact
        exported_plain all
          (fun _ _ listed => (mem_listStrings_plain listed).1) exported isNul
  generalize adExportRpz blacklist (some ctx) = zone at noNul
  rw [httpThread, if_pos asks]
  have read := flatten_readAll (10 : UInt8) (by decide : 0 < 4095) zone
  have whole :
      (readAll 10 4095 zone).flatMap content =
        (readAll 10 4095 zone).flatten := by
    rw [← List.flatMap_id]
    apply List.flatMap_congr
    intro window member
    apply content_eq_self
    rintro character inWindow rfl
    apply noNul
    rw [← read]
    exact List.mem_flatten.mpr ⟨window, member, inWindow⟩
  simp only [whole, read]

/-! ## The latest export -/

theorem zone_serviceStep
    (cfg : Config F) (service : Service) (event : ServiceEvent) :
    (serviceStep cfg service event).zone =
      match event.exported service with
      | none => service.zone
      | some blacklist =>
          some
            (adExportRpz blacklist
              (serviceStep cfg service event).firewall.reputation) := by
  cases event with
  | query call => rfl
  | received turn =>
      rw [serviceStep, firewall_mainTurn]
      unfold ServiceEvent.exported mainTurn
      simp only
      split
      · rfl
      · rfl
  | hangup blacklist => rfl

/-- Without an export a turn is at most a minute behind the latest one that
the clock asked for. -/
theorem recent_of_exported
    {service : Service} {turn : MainTurn}
    (none : ServiceEvent.exported service (.received turn) = none)
    (timed : service.lastExport ≠ 0) :
    turn.now - service.lastExport ≤ 60 := by
  unfold ServiceEvent.exported exportBase at none
  simp only [if_neg timed] at none
  split at none
  · cases none
  · omega

theorem lastExport_serviceStep
    (cfg : Config F) {service : Service} {event : ServiceEvent}
    (none : event.exported service = none) (timed : service.lastExport ≠ 0) :
    (serviceStep cfg service event).lastExport = service.lastExport := by
  cases event with
  | query call => rfl
  | received turn =>
      have late : ¬ 60 < turn.now - exportBase service turn.now := by
        intro due
        unfold ServiceEvent.exported at none
        simp only [if_pos due] at none
        cases none
      rw [serviceStep]
      unfold mainTurn
      simp only [if_neg late]
      rw [exportBase, if_neg timed]
  | hangup blacklist => cases none

/-- No turn after the latest export is more than a minute behind the last time
that the clock asked for one. -/
theorem recent_of_along
    {cfg : Config F} {exported : Service} {after : List ServiceEvent}
    (none :
      Along (serviceStep cfg)
        (fun service event => event.exported service = none) exported after)
    (timed : exported.lastExport ≠ 0) {turn : MainTurn}
    (member : .received turn ∈ after) :
    turn.now - exported.lastExport ≤ 60 := by
  obtain ⟨front, back, shape⟩ := List.append_of_mem member
  have step :
      ∀ (service : Service) (event : ServiceEvent),
        service.lastExport = exported.lastExport →
          event.exported service = .none →
            (serviceStep cfg service event).lastExport =
              exported.lastExport := by
    intro service event same notExported
    rw [lastExport_serviceStep cfg notExported (by rw [same]; exact timed)]
    exact same
  have same :
      (run (serviceStep cfg) exported front).lastExport =
        exported.lastExport :=
    invariant_run
      (fun service : Service => service.lastExport = exported.lastExport)
      step rfl (none.beginning shape)
  have notExported := none front (.received turn) back shape
  rw [← same]
  exact recent_of_exported notExported (by rw [same]; exact timed)

/-- The zone is the one of an export: it is sent as it was written, its rules
are for the names that the static list blocked or the tracker held then, and
no later turn of `main` is a minute behind. -/
structure ServedZone (exported : Service) (blacklist : Option Bytes)
    (after : List ServiceEvent) (zone : Option Bytes) : Prop where
  sent :
    ∀ received, asksForZone received = true →
      httpThread zone received =
        zoneHeader ++ adExportRpz blacklist exported.firewall.reputation
  rules :
    ∀ domain,
      ZoneLists (adExportRpz blacklist exported.firewall.reputation) domain ↔
        BlockedByList blacklist domain ∨
          TrackedName exported.firewall domain
  recent :
    ∀ turn, .received turn ∈ after → exported.lastExport ≠ 0 →
      turn.now - exported.lastExport ≤ 60

theorem servedZone_of_export
    {cfg : Config F} {start : Service} {before after : List ServiceEvent}
    {event : ServiceEvent} {blacklist : Option Bytes} {tracker : Reputation}
    (exports :
      event.exported (serviceRun cfg start before) = some blacklist)
    (none :
      Along (serviceStep cfg)
        (fun service event => event.exported service = none)
        (serviceRun cfg start (before ++ [event])) after)
    (isTracker :
      (serviceRun cfg start (before ++ [event])).firewall.reputation =
        some tracker)
    (sound : tracker.Sound)
    (all : tracker.All fun name => 0 ∉ name ∧ 10 ∉ name) :
    ServedZone (serviceRun cfg start (before ++ [event])) blacklist after
      (serviceRun cfg start (before ++ [event])).zone := by
  have written :
      (serviceRun cfg start (before ++ [event])).zone =
        some
          (adExportRpz blacklist
            (serviceRun cfg start (before ++ [event])).firewall.reputation)
        := by
    unfold serviceRun at exports ⊢
    rw [run_append, run_cons, run_nil, zone_serviceStep, exports]
  refine ⟨?_, ?_, ?_⟩
  · intro received asks
    rw [written, isTracker]
    exact
      httpThread_zone (fun e member => (all e member).1) blacklist asks
  · exact
      zoneLists_adExportRpz_iff isTracker sound
        (fun e member => (all e member).2) blacklist
  · intro turn member timed
    exact recent_of_along none timed member

end DnsFirewall
