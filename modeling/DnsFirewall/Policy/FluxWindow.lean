import DnsFirewall.Foundations.Runs
import DnsFirewall.Foundations.SlidingWindow
import DnsFirewall.Policy.Flux
import Mathlib.Data.List.Flatten

/-!
# The window of the fast-flux tracker

The tracker forgets an address in two places: in the entry of a domain before
each report for it, and in every entry when the table is cleaned.  Neither
forgets an address that was reported less than ten minutes before, so the
number of addresses it finds is that of the window.
-/

namespace DnsFirewall

open CString Runs SlidingWindow

inductive FluxCall where
  | detect (domain sinAddr : Bytes) (now : Int)
  | cleanup (now : Int)
  | housekeeping (now cleanupTime : Int)

/-- The readings of the clock in the call. -/
def FluxCall.times : FluxCall → List Int
  | .detect _ _ now => [now]
  | .cleanup now => [now]
  | .housekeeping now cleanupTime => [now, cleanupTime]

def fluxCall (fluxIpMax : Int) (state : FluxState) : FluxCall → FluxState
  | .detect domain sinAddr now =>
      { state with
        table := (fluxDetect fluxIpMax state.table domain sinAddr now).2 }
  | .cleanup now =>
      { state with table := fluxCleanup now state.table }
  | .housekeeping now cleanupTime =>
      policyHousekeeping state now cleanupTime

def FluxCall.report : FluxCall → Option (Report Bytes Bytes)
  | .detect domain sinAddr now => some ⟨content domain, sinAddr, now⟩
  | .cleanup _ => none
  | .housekeeping _ _ => none

/-- The reports of the calls, the latest first. -/
def fluxReports (calls : List FluxCall) : List (Report Bytes Bytes) :=
  (calls.filterMap FluxCall.report).reverse

def FluxCall.detects (name : Bytes) : FluxCall → Bool
  | .detect domain _ _ => decide (content domain = content name)
  | .cleanup _ => false
  | .housekeeping _ _ => false

/-! ## The table as a store -/

/-- The entry of the domain has the address with the time. -/
def FluxStored (table : List FluxEntry) (domain sinAddr : Bytes)
    (time : Int) : Prop :=
  ∃ e, e ∈ table ∧ e.domain = domain ∧ ⟨sinAddr, time⟩ ∈ e.ips

/-- One entry for a domain, and in it one time for an address. -/
structure FluxDistinct (table : List FluxEntry) : Prop where
  domains : (table.map FluxEntry.domain).Nodup
  addresses : ∀ e, e ∈ table → (e.ips.map FluxIp.sinAddr).Nodup

theorem fluxKeep_sublist (ips : List FluxIp) (now : Int) :
    (fluxKeep ips now).Sublist ips :=
  List.filter_sublist

theorem mem_fluxKeep_iff {ips : List FluxIp} {now : Int} {ip : FluxIp} :
    ip ∈ fluxKeep ips now ↔
      ip ∈ ips ∧ now - ip.timestamp < fluxWindowSec := by
  rw [fluxKeep, List.mem_filter, decide_eq_true_eq]

theorem nodup_fluxKeep
    {ips : List FluxIp} (distinct : (ips.map FluxIp.sinAddr).Nodup)
    (now : Int) :
    ((fluxKeep ips now).map FluxIp.sinAddr).Nodup :=
  distinct.sublist ((fluxKeep_sublist ips now).map _)

theorem map_sinAddr_fluxTouch
    (sinAddr : Bytes) (now : Int) (ips : List FluxIp) :
    (fluxTouch sinAddr now ips).map FluxIp.sinAddr =
      if sinAddr ∈ ips.map FluxIp.sinAddr then ips.map FluxIp.sinAddr
      else ips.map FluxIp.sinAddr ++ [sinAddr] := by
  induction ips with
  | nil => rfl
  | cons ip rest inductionHypothesis =>
      rw [fluxTouch]
      by_cases here : ip.sinAddr = sinAddr
      · subst here
        simp
      · have other : ¬ sinAddr = ip.sinAddr := fun same => here same.symm
        rw [if_neg here, List.map_cons, inductionHypothesis, List.map_cons]
        by_cases later : sinAddr ∈ rest.map FluxIp.sinAddr
        · rw [if_pos later, if_pos (List.mem_cons_of_mem _ later)]
        · rw [if_neg later, if_neg (by simp [other, later])]
          rfl

theorem nodup_fluxTouch
    {ips : List FluxIp} (distinct : (ips.map FluxIp.sinAddr).Nodup)
    (sinAddr : Bytes) (now : Int) :
    ((fluxTouch sinAddr now ips).map FluxIp.sinAddr).Nodup := by
  rw [map_sinAddr_fluxTouch]
  split
  · exact distinct
  · rename_i absent
    exact
      List.nodup_append.mpr
        ⟨distinct, List.nodup_singleton _, fun first isFirst second isSecond
          same => absent (by
            rw [← List.mem_singleton.mp isSecond, ← same]
            exact isFirst)⟩

/-! ## A report -/

theorem fluxUpdate_eq_none
    {domain sinAddr : Bytes} {now : Int} {table : List FluxEntry}
    (unknown : fluxUpdate domain sinAddr now table = none) :
    ∀ e, e ∈ table → e.domain ≠ domain := by
  induction table with
  | nil =>
      intro e member
      cases member
  | cons head rest inductionHypothesis =>
      rw [fluxUpdate] at unknown
      split at unknown
      · cases unknown
      · rename_i other
        split at unknown
        · rename_i absent
          intro e member
          rcases List.mem_cons.mp member with rfl | later
          · exact other
          · exact inductionHypothesis absent e later
        · cases unknown

theorem fluxUpdate_eq_some
    {domain sinAddr : Bytes} {now : Int} {table table' : List FluxEntry}
    {e : FluxEntry}
    (known : fluxUpdate domain sinAddr now table = some (e, table')) :
    ∃ before old after,
      table = before ++ old :: after ∧
        old.domain = domain ∧
        e = fluxAddIp old sinAddr now ∧
        table' = before ++ e :: after := by
  induction table generalizing table' with
  | nil => cases known
  | cons head rest inductionHypothesis =>
      rw [fluxUpdate] at known
      split at known
      · rename_i here
        cases known
        exact ⟨[], head, rest, rfl, here, rfl, rfl⟩
      · split at known
        · cases known
        · rename_i found
          cases known
          obtain ⟨before, old, after, rfl, isDomain, isAdded, rfl⟩ :=
            inductionHypothesis found
          exact
            ⟨head :: before, old, after, rfl, isDomain, isAdded, rfl⟩

/-- A report changes one entry, which is empty and at the front where the
domain had none. -/
theorem fluxDetect_cases
    (fluxIpMax : Int) (table : List FluxEntry) (domain sinAddr : Bytes)
    (now : Int) :
    ∃ before old after,
      old.domain = content domain ∧
        fluxDetect fluxIpMax table domain sinAddr now =
          (decide
              (fluxIpMax < (fluxAddIp old sinAddr now).ips.length),
            before ++ fluxAddIp old sinAddr now :: after) ∧
        (table = before ++ old :: after ∨
          before ++ old :: after = ⟨content domain, []⟩ :: table ∧
            ∀ e, e ∈ table → e.domain ≠ content domain) := by
  cases update : fluxUpdate (content domain) sinAddr now table with
  | none =>
      refine
        ⟨[], ⟨content domain, []⟩, table, rfl, ?_,
          Or.inr ⟨rfl, fluxUpdate_eq_none update⟩⟩
      rw [fluxDetect, update]
      rfl
  | some result =>
      obtain ⟨e, table'⟩ := result
      obtain ⟨before, old, after, rfl, isDomain, rfl, rfl⟩ :=
        fluxUpdate_eq_some update
      refine ⟨before, old, after, isDomain, ?_, Or.inl rfl⟩
      rw [fluxDetect, update]

theorem fluxStored_cons_empty_iff
    {table : List FluxEntry} {name domain sinAddr : Bytes} {time : Int} :
    FluxStored (⟨name, []⟩ :: table) domain sinAddr time ↔
      FluxStored table domain sinAddr time := by
  constructor
  · intro given
    obtain ⟨e, member, isDomain, stored⟩ := given
    rcases List.mem_cons.mp member with rfl | later
    · cases stored
    · exact ⟨e, later, isDomain, stored⟩
  · intro given
    obtain ⟨e, member, isDomain, stored⟩ := given
    exact ⟨e, List.mem_cons_of_mem _ member, isDomain, stored⟩

theorem FluxDistinct.open_entry
    {table : List FluxEntry} (distinct : FluxDistinct table)
    {domain : Bytes} (absent : ∀ e, e ∈ table → e.domain ≠ domain) :
    FluxDistinct (⟨domain, []⟩ :: table) where
  domains := by
    rw [List.map_cons, List.nodup_cons]
    refine ⟨?_, distinct.domains⟩
    intro member
    obtain ⟨e, isEntry, same⟩ := List.mem_map.mp member
    exact absent e isEntry same
  addresses e member := by
    rcases List.mem_cons.mp member with rfl | later
    · exact List.nodup_nil
    · exact distinct.addresses e later

/-- With one entry for a domain, an entry has all that is stored for it. -/
theorem fluxStored_entry_iff
    {before after : List FluxEntry} {entry : FluxEntry}
    (distinct : FluxDistinct (before ++ entry :: after))
    {domain sinAddr : Bytes} {time : Int} :
    FluxStored (before ++ entry :: after) domain sinAddr time ↔
      (domain = entry.domain ∧ ⟨sinAddr, time⟩ ∈ entry.ips) ∨
        domain ≠ entry.domain ∧
          FluxStored (before ++ after) domain sinAddr time := by
  have domains := distinct.domains
  rw [List.map_append, List.map_cons, List.nodup_middle,
    List.nodup_cons] at domains
  have elsewhere :
      ∀ e, e ∈ before ++ after → e.domain ≠ entry.domain := by
    intro e member same
    apply domains.1
    rw [← List.map_append, ← same]
    exact List.mem_map_of_mem member
  constructor
  · intro given
    obtain ⟨e, member, rfl, stored⟩ := given
    rcases List.mem_cons.mp (List.perm_middle.mem_iff.mp member) with
      rfl | other
    · exact Or.inl ⟨rfl, stored⟩
    · exact Or.inr ⟨elsewhere e other, e, other, rfl, stored⟩
  · intro given
    rcases given with ⟨rfl, stored⟩ | ⟨-, e, member, rfl, stored⟩
    · exact
        ⟨entry, List.mem_append_right _ List.mem_cons_self, rfl, stored⟩
    · exact
        ⟨e, List.perm_middle.mem_iff.mpr (List.mem_cons_of_mem _ member),
          rfl, stored⟩

theorem FluxDistinct.replace
    {before after : List FluxEntry} {old new : FluxEntry}
    (distinct : FluxDistinct (before ++ old :: after))
    (same : new.domain = old.domain)
    (addresses : (new.ips.map FluxIp.sinAddr).Nodup) :
    FluxDistinct (before ++ new :: after) where
  domains := by
    have domains := distinct.domains
    rw [List.map_append, List.map_cons] at domains ⊢
    rw [same]
    exact domains
  addresses e member := by
    rcases List.mem_cons.mp (List.perm_middle.mem_iff.mp member) with
      rfl | other
    · exact addresses
    · exact
        distinct.addresses e
          (List.perm_middle.mem_iff.mpr (List.mem_cons_of_mem _ other))

theorem mem_fluxAddIp_iff
    {e : FluxEntry} (distinct : (e.ips.map FluxIp.sinAddr).Nodup)
    {sinAddr item : Bytes} {now time : Int} :
    ⟨item, time⟩ ∈ (fluxAddIp e sinAddr now).ips ↔
      (item = sinAddr ∧ time = now) ∨
        item ≠ sinAddr ∧ ⟨item, time⟩ ∈ e.ips ∧
          now - time < fluxWindowSec := by
  have kept := nodup_fluxKeep distinct now
  show ⟨item, time⟩ ∈ fluxTouch sinAddr now (fluxKeep e.ips now) ↔ _
  rw [mem_fluxTouch_iff kept, mem_fluxKeep_iff, FluxIp.mk.injEq]
  exact or_congr Iff.rfl And.comm

/-- All that stays in the entry of a report is live. -/
theorem young_of_mem_fluxAddIp
    {e : FluxEntry} (distinct : (e.ips.map FluxIp.sinAddr).Nodup)
    {sinAddr item : Bytes} {now time : Int}
    (member : ⟨item, time⟩ ∈ (fluxAddIp e sinAddr now).ips) :
    now - time < fluxWindowSec := by
  rcases (mem_fluxAddIp_iff distinct).mp member with
    ⟨-, rfl⟩ | ⟨-, -, young⟩
  · rw [Int.sub_self]
    decide
  · exact young

section Report

variable {before after : List FluxEntry} {old : FluxEntry}
  {reports : List (Report Bytes Bytes)} {now : Int}

theorem fluxDistinct_fluxAddIp
    (distinct : FluxDistinct (before ++ old :: after))
    (sinAddr : Bytes) (now : Int) :
    FluxDistinct (before ++ fluxAddIp old sinAddr now :: after) := by
  have own := distinct.addresses old (by simp)
  have same : (fluxAddIp old sinAddr now).domain = old.domain := rfl
  exact
    distinct.replace same (nodup_fluxTouch (nodup_fluxKeep own now) _ _)

theorem tracks_fluxAddIp
    (distinct : FluxDistinct (before ++ old :: after))
    (tracks :
      Tracks fluxWindowSec (FluxStored (before ++ old :: after)) reports
        now)
    (sinAddr : Bytes) :
    Tracks fluxWindowSec
      (FluxStored (before ++ fluxAddIp old sinAddr now :: after))
      (⟨old.domain, sinAddr, now⟩ :: reports) now := by
  have own := distinct.addresses old (by simp)
  have next := fluxDistinct_fluxAddIp distinct sinAddr now
  have pruned :
      Tracks fluxWindowSec
        (fun domain item time =>
          FluxStored (before ++ old :: after) domain item time ∧
            (domain = old.domain → now - time < fluxWindowSec))
        reports now :=
    tracks.forget And.left fun stored young => ⟨stored, fun _ => young⟩
  apply pruned.report
  intro domain item time
  rw [fluxStored_entry_iff next, fluxStored_entry_iff distinct,
    mem_fluxAddIp_iff own]
  by_cases isDomain : domain = old.domain
  · subst isDomain
    have same : (fluxAddIp old sinAddr now).domain = old.domain := rfl
    rw [same]
    tauto
  · have other : ¬ domain = (fluxAddIp old sinAddr now).domain := isDomain
    tauto

theorem length_liveItems_fluxAddIp
    (distinct : FluxDistinct (before ++ old :: after))
    (tracks :
      Tracks fluxWindowSec (FluxStored (before ++ old :: after)) reports
        now)
    (sinAddr : Bytes) :
    (liveItems fluxWindowSec (⟨old.domain, sinAddr, now⟩ :: reports)
        old.domain now).length =
      (fluxAddIp old sinAddr now).ips.length := by
  have own := distinct.addresses old (by simp)
  have nextDistinct := fluxDistinct_fluxAddIp distinct sinAddr now
  have next := tracks_fluxAddIp distinct tracks sinAddr
  have addresses :=
    nextDistinct.addresses (fluxAddIp old sinAddr now) (by simp)
  have size :
      ((fluxAddIp old sinAddr now).ips.map FluxIp.sinAddr).length =
        (fluxAddIp old sinAddr now).ips.length :=
    List.length_map _
  rw [← size]
  apply length_liveItems addresses
  intro item
  constructor
  · intro member
    obtain ⟨ip, isIp, rfl⟩ := List.mem_map.mp member
    have stored :
        FluxStored (before ++ fluxAddIp old sinAddr now :: after)
          old.domain ip.sinAddr ip.timestamp :=
      ⟨fluxAddIp old sinAddr now, by simp, rfl, isIp⟩
    exact
      ⟨ip.timestamp, next.isLatest stored,
        young_of_mem_fluxAddIp own isIp⟩
  · intro given
    obtain ⟨time, seen, young⟩ := given
    have stored := next.keeps seen young
    rw [fluxStored_entry_iff nextDistinct] at stored
    rcases stored with ⟨-, isIp⟩ | ⟨other, -⟩
    · exact List.mem_map.mpr ⟨_, isIp, rfl⟩
    · exact absurd rfl other

end Report

/-- What the tracker knows is enough for the window. -/
structure FluxSound (table : List FluxEntry)
    (reports : List (Report Bytes Bytes)) (now : Int) : Prop where
  distinct : FluxDistinct table
  tracks : Tracks fluxWindowSec (FluxStored table) reports now

theorem FluxSound.open_entry
    {table : List FluxEntry} {reports : List (Report Bytes Bytes)}
    {now : Int} (sound : FluxSound table reports now) {domain : Bytes}
    (absent : ∀ e, e ∈ table → e.domain ≠ domain) :
    FluxSound (⟨domain, []⟩ :: table) reports now where
  distinct := sound.distinct.open_entry absent
  tracks :=
    sound.tracks.forget fluxStored_cons_empty_iff.mp
      fun stored _ => fluxStored_cons_empty_iff.mpr stored

theorem fluxDetect_sound
    {table : List FluxEntry} {reports : List (Report Bytes Bytes)}
    {now : Int} (sound : FluxSound table reports now) (fluxIpMax : Int)
    (domain sinAddr : Bytes) :
    let result := fluxDetect fluxIpMax table domain sinAddr now
    let reports := ⟨content domain, sinAddr, now⟩ :: reports
    FluxSound result.2 reports now ∧
      (result.1 = true ↔
        fluxIpMax <
          (liveItems fluxWindowSec reports (content domain) now).length) :=
    by
  obtain ⟨before, old, after, isDomain, result, shape⟩ :=
    fluxDetect_cases fluxIpMax table domain sinAddr now
  have opened : FluxSound (before ++ old :: after) reports now := by
    rcases shape with rfl | ⟨shape, absent⟩
    · exact sound
    · rw [shape]
      exact sound.open_entry absent
  rw [result, ← isDomain]
  refine
    ⟨⟨fluxDistinct_fluxAddIp opened.distinct sinAddr now,
      tracks_fluxAddIp opened.distinct opened.tracks sinAddr⟩, ?_⟩
  rw [length_liveItems_fluxAddIp opened.distinct opened.tracks sinAddr]
  exact decide_eq_true_iff

/-! ## Cleaning -/

theorem mem_fluxCleanup
    {now : Int} {table : List FluxEntry} {e : FluxEntry}
    (member : e ∈ fluxCleanup now table) :
    ∃ old, old ∈ table ∧ e = { old with ips := fluxKeep old.ips now } := by
  induction table with
  | nil => cases member
  | cons curr rest inductionHypothesis =>
      rw [fluxCleanup] at member
      split at member
      · obtain ⟨old, isOld, same⟩ := inductionHypothesis member
        exact ⟨old, List.mem_cons_of_mem _ isOld, same⟩
      · rcases List.mem_cons.mp member with rfl | later
        · exact ⟨curr, List.mem_cons_self, rfl⟩
        · obtain ⟨old, isOld, same⟩ := inductionHypothesis later
          exact ⟨old, List.mem_cons_of_mem _ isOld, same⟩

/-- An entry with a live address stays in the table. -/
theorem mem_fluxCleanup_of_kept
    {now : Int} {table : List FluxEntry} {e : FluxEntry} {ip : FluxIp}
    (member : e ∈ table) (kept : ip ∈ fluxKeep e.ips now) :
    { e with ips := fluxKeep e.ips now } ∈ fluxCleanup now table := by
  induction table with
  | nil => cases member
  | cons curr rest inductionHypothesis =>
      rw [fluxCleanup]
      rcases List.mem_cons.mp member with rfl | later
      · have filled : ¬ (fluxKeep e.ips now).length = 0 :=
          List.length_pos_of_mem kept |>.ne'
        rw [if_neg filled]
        exact List.mem_cons_self
      · split
        · exact inductionHypothesis later
        · exact List.mem_cons_of_mem _ (inductionHypothesis later)

theorem map_domain_fluxCleanup (now : Int) (table : List FluxEntry) :
    ((fluxCleanup now table).map FluxEntry.domain).Sublist
      (table.map FluxEntry.domain) := by
  induction table with
  | nil => exact List.Sublist.refl _
  | cons curr rest inductionHypothesis =>
      rw [fluxCleanup]
      split
      · exact inductionHypothesis.cons _
      · exact inductionHypothesis.cons_cons _

theorem fluxCleanup_sound
    {table : List FluxEntry} {reports : List (Report Bytes Bytes)}
    {now : Int} (sound : FluxSound table reports now) :
    FluxSound (fluxCleanup now table) reports now where
  distinct :=
    { domains :=
        sound.distinct.domains.sublist (map_domain_fluxCleanup now table)
      addresses := by
        intro e member
        obtain ⟨old, isOld, rfl⟩ := mem_fluxCleanup member
        exact nodup_fluxKeep (sound.distinct.addresses old isOld) now }
  tracks := by
    apply sound.tracks.forget
    · intro domain item time given
      obtain ⟨e, member, rfl, isIp⟩ := given
      obtain ⟨old, isOld, rfl⟩ := mem_fluxCleanup member
      exact ⟨old, isOld, rfl, (mem_fluxKeep_iff.mp isIp).1⟩
    · rintro domain item time ⟨e, member, rfl, isIp⟩ young
      have kept : ⟨item, time⟩ ∈ fluxKeep e.ips now :=
        mem_fluxKeep_iff.mpr ⟨isIp, young⟩
      exact ⟨_, mem_fluxCleanup_of_kept member kept, rfl, kept⟩

/-! ## Every sequence of calls -/

theorem fluxSound_later
    {table : List FluxEntry} {reports : List (Report Bytes Bytes)}
    {before now : Int} (sound : FluxSound table reports before)
    (ordered : before ≤ now) : FluxSound table reports now :=
  ⟨sound.distinct, sound.tracks.later ordered⟩

/-- A call ends at a moment that the later readings do not precede. -/
theorem fluxCall_sound
    {state : FluxState} {reports : List (Report Bytes Bytes)} {before : Int}
    (fluxIpMax : Int) (call : FluxCall) {rest : List Int}
    (sound : FluxSound state.table reports before)
    (clocked : (before :: (call.times ++ rest)).Pairwise (· ≤ ·)) :
    ∃ after,
      FluxSound (fluxCall fluxIpMax state call).table
          (call.report.toList ++ reports) after ∧
        (after :: rest).Pairwise (· ≤ ·) := by
  obtain ⟨first, clocked⟩ := List.pairwise_cons.mp clocked
  cases call with
  | detect domain sinAddr now =>
      have started := fluxSound_later sound (first now List.mem_cons_self)
      have next := (fluxDetect_sound started fluxIpMax domain sinAddr).1
      exact ⟨now, next, clocked⟩
  | cleanup now =>
      have started := fluxSound_later sound (first now List.mem_cons_self)
      exact ⟨now, fluxCleanup_sound started, clocked⟩
  | housekeeping now cleanupTime =>
      have reached : before ≤ cleanupTime :=
        first cleanupTime (List.mem_cons_of_mem now List.mem_cons_self)
      have started := fluxSound_later sound reached
      refine ⟨cleanupTime, ?_, (List.pairwise_cons.mp clocked).2⟩
      rw [fluxCall, policyHousekeeping]
      split
      · exact fluxCleanup_sound started
      · exact started

theorem fluxSound_run
    (fluxIpMax : Int) {now : Int} {calls : List FluxCall}
    {state : FluxState} {reports : List (Report Bytes Bytes)} {before : Int}
    (sound : FluxSound state.table reports before)
    (clocked :
      (before :: (calls.flatMap FluxCall.times ++ [now])).Pairwise
        (· ≤ ·)) :
    FluxSound (run (fluxCall fluxIpMax) state calls).table
      (fluxReports calls ++ reports) now := by
  induction calls generalizing state reports before with
  | nil =>
      have ordered := (List.pairwise_cons.mp clocked).1 now (by simp)
      exact fluxSound_later sound ordered
  | cons call later inductionHypothesis =>
      rw [List.flatMap_cons, List.append_assoc] at clocked
      obtain ⟨after, next, rest⟩ :=
        fluxCall_sound fluxIpMax call sound clocked
      have all := inductionHypothesis next rest
      have order :
          fluxReports (call :: later) ++ reports =
            fluxReports later ++ (call.report.toList ++ reports) := by
        rw [fluxReports, fluxReports, List.filterMap_cons]
        cases call.report <;> simp
      rw [order]
      exact all

theorem fluxSound_empty (start : Int) :
    FluxSound [] ([] : List (Report Bytes Bytes)) start where
  distinct := ⟨List.nodup_nil, fun _ member => by cases member⟩
  tracks :=
    { isLatest := by
        intro domain item time given
        obtain ⟨e, member, -⟩ := given
        cases member
      keeps := by
        intro domain item time seen
        cases seen }

theorem fluxSound_of_clocked
    (fluxIpMax lastHousekeeping : Int) {calls : List FluxCall} {now : Int}
    (clocked :
      (calls.flatMap FluxCall.times ++ [now]).Pairwise (· ≤ ·)) :
    FluxSound
      (run (fluxCall fluxIpMax) ⟨[], lastHousekeeping⟩ calls).table
      (fluxReports calls) now := by
  -- The empty table is sound at every moment, so also before the calls.
  obtain ⟨start, started⟩ :
      ∃ start : Int,
        (start :: (calls.flatMap FluxCall.times ++ [now])).Pairwise
          (· ≤ ·) := by
    cases times : calls.flatMap FluxCall.times ++ [now] with
    | nil => exact ⟨now, List.pairwise_singleton _ _⟩
    | cons time rest =>
        rw [times] at clocked
        refine ⟨time, List.pairwise_cons.mpr ⟨?_, clocked⟩⟩
        intro other member
        rcases List.mem_cons.mp member with rfl | isLater
        · exact Int.le_refl _
        · exact (List.pairwise_cons.mp clocked).1 other isLater
  have sound :=
    @fluxSound_run fluxIpMax now calls ⟨[], lastHousekeeping⟩ [] start
      (fluxSound_empty start) started
  rw [List.append_nil] at sound
  exact sound

/-- The reports for a domain are those of the calls for it. -/
theorem fluxReports_filter (calls : List FluxCall) (domain : Bytes) :
    fluxReports (calls.filter (FluxCall.detects domain)) =
      (fluxReports calls).filter fun report =>
        report.key = content domain := by
  rw [fluxReports, fluxReports, List.filter_reverse]
  congr 1
  induction calls with
  | nil => rfl
  | cons call later inductionHypothesis =>
      cases call with
      | cleanup now => exact inductionHypothesis
      | housekeeping now cleanupTime => exact inductionHypothesis
      | detect other sinAddr now =>
          by_cases same : content other = content domain
          · have isDetect :
                FluxCall.detects domain (.detect other sinAddr now) = true :=
              decide_eq_true same
            rw [List.filter_cons_of_pos isDetect, List.filterMap_cons,
              List.filterMap_cons, FluxCall.report]
            simp only
            rw [List.filter_cons_of_pos (by simpa using same),
              inductionHypothesis]
          · have notDetect :
                ¬ FluxCall.detects domain (.detect other sinAddr now) =
                  true :=
              fun isDetect => same (of_decide_eq_true isDetect)
            rw [List.filter_cons_of_neg notDetect, List.filterMap_cons,
              FluxCall.report]
            simp only
            rw [List.filter_cons_of_neg (by simpa using same),
              inductionHypothesis]

/-- A report finds the number of addresses that the window has, as if there
had been no calls but those for its own domain. -/
theorem fluxDetect_counts_window
    (fluxIpMax lastHousekeeping : Int) (calls : List FluxCall)
    (domain sinAddr : Bytes) (now : Int)
    (clocked :
      (calls.flatMap FluxCall.times ++ [now]).Pairwise (· ≤ ·)) :
    let result := fun calls : List FluxCall =>
      (fluxDetect fluxIpMax
        (run (fluxCall fluxIpMax) ⟨[], lastHousekeeping⟩ calls).table
        domain sinAddr now).1
    (result calls = true ↔
        fluxIpMax <
          (liveItems 600
            (⟨content domain, sinAddr, now⟩ :: fluxReports calls)
            (content domain) now).length) ∧
      result calls = result (calls.filter (FluxCall.detects domain)) := by
  intro result
  have counts :
      ∀ calls : List FluxCall,
        (calls.flatMap FluxCall.times ++ [now]).Pairwise (· ≤ ·) →
          (result calls = true ↔
            fluxIpMax <
              (liveItems 600
                (⟨content domain, sinAddr, now⟩ :: fluxReports calls)
                (content domain) now).length) := by
    intro calls clocked
    have sound :=
      fluxSound_of_clocked fluxIpMax lastHousekeeping clocked
    exact (fluxDetect_sound sound fluxIpMax domain sinAddr).2
  refine ⟨counts calls clocked, ?_⟩
  have ownClocked :
      ((calls.filter (FluxCall.detects domain)).flatMap FluxCall.times ++
          [now]).Pairwise (· ≤ ·) := by
    have own :
        (calls.filter (FluxCall.detects domain)).Sublist calls :=
      List.filter_sublist
    exact
      clocked.sublist
        ((own.flatMap FluxCall.times).append (List.Sublist.refl [now]))
  have ownReports :
      ⟨content domain, sinAddr, now⟩ ::
          fluxReports (calls.filter (FluxCall.detects domain)) =
        (⟨content domain, sinAddr, now⟩ :: fluxReports calls).filter
          fun report => report.key = content domain := by
    rw [List.filter_cons_of_pos (by simp), fluxReports_filter]
  have own := counts _ ownClocked
  rw [ownReports, liveItems_filter] at own
  exact Bool.eq_iff_iff.mpr ((counts calls clocked).trans own.symm)

/-- An address that comes back after its ten minutes counts again, and the one
that does not come back no longer does. -/
theorem fluxDetect_counts_window_return :
    (fluxDetect 1
      (run (fluxCall 1) ⟨[], 0⟩
        [.detect [97] [1, 1, 1, 1] 0, .detect [97] [2, 2, 2, 2] 1,
          .housekeeping 599 600]).table
      [97] [1, 1, 1, 1] 600).1 = true := by
  have counts :=
    (fluxDetect_counts_window 1 0
      [.detect [97] [1, 1, 1, 1] 0, .detect [97] [2, 2, 2, 2] 1,
        .housekeeping 599 600]
      [97] [1, 1, 1, 1] 600 (by decide)).1
  exact counts.mpr (by decide)

end DnsFirewall
