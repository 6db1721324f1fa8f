import DnsFirewall.Foundations.Decimal
import DnsFirewall.Foundations.Lines
import DnsFirewall.Processor.Upstream

/-!
# The exported files

`rep_export_csv` and the part of `ad_export_rpz` that lists the tracked
domains.  Both print the names as clients have sent them, so a name with a
newline in it writes lines of its own, and a tab shifts the fields of the CSV
file; without these characters the files read back as the table.
-/

namespace DnsFirewall

open CString Lines Runs

variable {F : Type}

/-! ## The files -/

/-- The text `printf` gives for `%d`. -/
def printInt (value : Int) : Bytes :=
  if value < 0 then 45 :: decimal value.natAbs else decimal value.natAbs

def csvLine (e : RepEntry) : Bytes :=
  e.domain ++ 9 :: printInt e.score

/-- The file that `rep_export_csv` writes. -/
def repExportCsv (ctx : Reputation) : Bytes :=
  terminated 10 (ctx.entries.map csvLine)

def repGetBlockedDomains (ctx : Reputation) : List Bytes :=
  (ctx.entries.filter fun e => 0 < e.score).map RepEntry.domain

/-- The domain with ` CNAME .` behind it. -/
def rpzRule (domain : Bytes) : Bytes :=
  domain ++ [32, 67, 78, 65, 77, 69, 32, 46]

/-- What `ad_export_rpz` writes behind the static blacklist. -/
def adExportRpzDynamic (tracker : Option Reputation) : Bytes :=
  match tracker with
  | none => []
  | some ctx => terminated 10 ((repGetBlockedDomains ctx).map rpzRule)

/-- Split at newlines and tabs, the CSV file is the table. -/
def CsvExact (ctx : Reputation) : Prop :=
  (linesOf 10 (repExportCsv ctx)).map (List.splitOn 9) =
    ctx.entries.map fun e => [e.domain, printInt e.score]

/-- The lines of the zone are the rules of the tracked domains, each once. -/
structure RpzExact (ctx : Reputation) : Prop where
  once : (linesOf 10 (adExportRpzDynamic (some ctx))).Nodup
  rules :
    ∀ line, line ∈ linesOf 10 (adExportRpzDynamic (some ctx)) ↔
      ∃ e, e ∈ ctx.entries ∧ line = rpzRule e.domain

/-! ## Reachable tables -/

/-- What happens to the tracker: a block for the first question of a packet,
or the housekeeping. -/
inductive RepOp where
  | block (packet : Bytes)
  | decay

structure RepCall where
  time : Int
  op : RepOp

/-- The name of the first question of a packet. -/
def firstQname (packet : Bytes) : Option Bytes :=
  match dnsParseMessage packet with
  | .error _ => none
  | .ok query => query.questions.head?.map DnsQuestion.qname

def repCall (ctx : Reputation) (call : RepCall) : Reputation :=
  match call.op with
  | .block packet =>
      match firstQname packet with
      | none => ctx
      | some qname => repRecordBlock ctx qname call.time
  | .decay => repDecay ctx call.time

theorem sound_run (start : Int) (calls : List RepCall) :
    (run repCall (repInit start) calls).Sound := by
  have step :
      ∀ (ctx : Reputation) (call : RepCall), ctx.Sound → True →
        (repCall ctx call).Sound := by
    rintro ctx ⟨time, op⟩ sound -
    cases op with
    | block packet =>
        cases first : firstQname packet with
        | none =>
            simp only [repCall, first]
            exact sound
        | some qname =>
            simp only [repCall, first]
            exact sound.repRecordBlock qname time
    | decay => exact sound.repDecay time
  exact
    invariant_run Reputation.Sound step (sound_repInit start)
      fun _ _ _ _ => trivial

/-! ## What the files say -/

theorem mem_printInt
    {value : Int} {character : UInt8} (member : character ∈ printInt value) :
    character = 45 ∨ IsDigit character := by
  unfold printInt at member
  split at member
  · rcases List.mem_cons.mp member with sign | digit
    · exact Or.inl sign
    · exact Or.inr (isDigit_of_mem_decimal digit)
  · exact Or.inr (isDigit_of_mem_decimal member)

theorem not_mem_printInt
    {character : UInt8} (below : character.toNat < 45) (value : Int) :
    character ∉ printInt value := by
  intro member
  rcases mem_printInt member with rfl | digit
  · exact absurd below (by decide)
  · unfold IsDigit at digit
    omega

theorem splitOn_csvLine
    {e : RepEntry} (noTab : 9 ∉ e.domain) :
    (csvLine e).splitOn 9 = [e.domain, printInt e.score] := by
  rw [csvLine]
  rw [List.splitOn_append_cons_self, List.splitOn_eq_singleton noTab,
    List.splitOn_eq_singleton (not_mem_printInt (by decide) e.score)]
  rfl

theorem newline_mem_csvLine {e : RepEntry} :
    10 ∈ csvLine e ↔ 10 ∈ e.domain := by
  rw [csvLine]
  have noDigit := @not_mem_printInt 10 (by decide) e.score
  simp [noDigit]

theorem csvExact_iff (ctx : Reputation) :
    CsvExact ctx ↔
      ∀ e, e ∈ ctx.entries → 9 ∉ e.domain ∧ 10 ∉ e.domain := by
  unfold CsvExact repExportCsv
  constructor
  · intro asTable
    have length := congrArg List.length asTable
    rw [List.length_map, List.length_map] at length
    have plain :=
      plain_of_length (by rw [length, List.length_map])
    have noNewline :
        ∀ line, line ∈ ctx.entries.map csvLine → 10 ∉ line := plain
    rw [linesOf_terminated noNewline, List.map_map] at asTable
    intro e member
    refine ⟨?_, ?_⟩
    · intro tab
      have fields := List.map_inj_left.mp asTable e member
      have two := congrArg List.length fields
      rw [Function.comp_apply, length_splitOn] at two
      unfold csvLine at two
      rw [List.count_append, List.count_cons_self] at two
      have positive := List.count_pos_iff.mpr tab
      simp only [List.length_cons, List.length_nil] at two
      omega
    · intro newline
      exact
        noNewline _ (List.mem_map_of_mem member)
          (newline_mem_csvLine.mpr newline)
  · intro plain
    rw [linesOf_terminated, List.map_map]
    · apply List.map_congr_left
      intro e member
      exact splitOn_csvLine (plain e member).1
    · intro line member
      obtain ⟨e, inTable, rfl⟩ := List.mem_map.mp member
      rw [newline_mem_csvLine]
      exact (plain e inTable).2

theorem newline_mem_rpzRule {domain : Bytes} :
    10 ∈ rpzRule domain ↔ 10 ∈ domain := by
  rw [rpzRule]
  simp

theorem rpzRule_injective {domain other : Bytes}
    (same : rpzRule domain = rpzRule other) : domain = other :=
  List.append_cancel_right same

/-- Every entry of a reachable table is blocked. -/
theorem Reputation.Sound.blockedDomains
    {ctx : Reputation} (sound : ctx.Sound) :
    repGetBlockedDomains ctx = ctx.entries.map RepEntry.domain := by
  rw [repGetBlockedDomains]
  rw [List.filter_eq_self.mpr]
  intro e member
  obtain ⟨i, inChain⟩ := ChainedTable.mem_entries_iff.mp member
  simpa using sound.positive i e inChain

theorem rpzExact_iff {ctx : Reputation} (sound : ctx.Sound) :
    RpzExact ctx ↔ ∀ e, e ∈ ctx.entries → 10 ∉ e.domain := by
  have distinct :
      ((ctx.entries.map RepEntry.domain).map rpzRule).Nodup :=
    sound.placed.nodup_entries.map fun _ _ => rpzRule_injective
  have isRule :
      ∀ line, line ∈ (ctx.entries.map RepEntry.domain).map rpzRule ↔
        ∃ e, e ∈ ctx.entries ∧ line = rpzRule e.domain := by
    intro line
    rw [List.map_map, List.mem_map]
    exact
      ⟨fun ⟨e, member, same⟩ => ⟨e, member, same.symm⟩,
        fun ⟨e, member, same⟩ => ⟨e, member, same.symm⟩⟩
  constructor
  · rintro ⟨once, rules⟩ e member newline
    unfold adExportRpzDynamic at once rules
    simp only [sound.blockedDomains] at once rules
    -- as many lines as rules, so no rule holds a newline
    have sameLines :=
      (List.perm_ext_iff_of_nodup once distinct).mpr fun line =>
        (rules line).trans (isRule line).symm
    exact
      plain_of_length sameLines.length_eq (rpzRule e.domain)
        (List.mem_map_of_mem (List.mem_map_of_mem member))
        (newline_mem_rpzRule.mpr newline)
  · intro plain
    have lines :
        linesOf 10 (adExportRpzDynamic (some ctx)) =
          (ctx.entries.map RepEntry.domain).map rpzRule := by
      unfold adExportRpzDynamic
      simp only [sound.blockedDomains]
      apply linesOf_terminated
      intro line member
      obtain ⟨e, inTable, rfl⟩ := (isRule line).mp member
      rw [newline_mem_rpzRule]
      exact plain e inTable
    refine ⟨?_, ?_⟩
    · rw [lines]
      exact distinct
    · rw [lines]
      exact isRule

/-- Both files of a reachable table read back as the table exactly when no
tracked domain contains a tab or a newline. -/
theorem exports_exact_iff (start : Int) (calls : List RepCall) :
    let ctx := run repCall (repInit start) calls
    CsvExact ctx ∧ RpzExact ctx ↔
      ∀ e, e ∈ ctx.entries → 9 ∉ e.domain ∧ 10 ∉ e.domain := by
  intro ctx
  rw [csvExact_iff ctx, rpzExact_iff (sound_run start calls)]
  constructor
  · exact fun both => both.1
  · exact fun plain => ⟨plain, fun e member => (plain e member).2⟩

def ExportsExact : Prop :=
  ∀ (start : Int) (calls : List RepCall),
    let ctx := run repCall (repInit start) calls
    CsvExact ctx ∧ RpzExact ctx

/-- A query for the name whose one label is `a`, a newline and `b`. -/
def queryNewline : Bytes :=
  [0, 1, 1, 0, 0, 1, 0, 0, 0, 0, 0, 0, 3, 97, 10, 98, 0, 0, 1, 0, 1]

theorem not_exportsExact : ¬ ExportsExact := by
  intro always
  obtain ⟨-, once, rules⟩ := always 0 [⟨0, .block queryNewline⟩]
  have torn :
      [97] ∈ linesOf 10
        (adExportRpzDynamic
          (some (run repCall (repInit 0) [⟨0, .block queryNewline⟩]))) := by
    decide +kernel
  obtain ⟨e, -, same⟩ := (rules [97]).mp torn
  have length := congrArg List.length same
  unfold rpzRule at length
  simp at length

/-! ## The tables of the firewall -/

theorem reputation_sendAnswer
    (env : Env) (tick : Nat) (fw : Firewall) (id : UInt16)
    (question : DnsQuestion) (outcome : Outcome) (log : List Event) :
    (sendAnswer env tick fw id question outcome log).state.reputation =
      fw.reputation := by
  cases outcome with
  | answer a => rfl
  | nxDomain a => rfl
  | failed => rfl
  | tooDeep => rfl
  | hung => rfl

theorem reputation_admittedState
    (env : Env) (fw : Firewall) (client : Option SockAddrIn) :
    (admittedState env fw client).reputation = fw.reputation := by
  rw [admittedState, rateLimit]
  split
  · rfl
  · rfl

theorem firstQname_of_asked
    {inbuf : Bytes} {query : DnsMessage} {question : DnsQuestion}
    {more : List DnsQuestion} (parsed : dnsParseMessage inbuf = .ok query)
    (asked : query.questions = question :: more) :
    firstQname inbuf = some question.qname := by
  rw [firstQname]
  rw [parsed]
  simp only [asked]
  rfl

/-- A block makes the tracker record the first question of the packet. -/
theorem reputation_blockedCall
    {env : Env} {fw : Firewall} {inbuf : Bytes} {query : DnsMessage}
    {question : DnsQuestion} {more : List DnsQuestion}
    {tracker : Reputation} (parsed : dnsParseMessage inbuf = .ok query)
    (asked : query.questions = question :: more)
    (tracked : fw.reputation = some tracker) (tick : Nat) (site : Site)
    (client : Option SockAddrIn) (resolution : Option (Outcome × Bool))
    (log : List Event) :
    (blockedCall env tick site fw client query question resolution
        log).state.reputation =
      some
        (run repCall tracker [⟨env.time (tick + 1), .block inbuf⟩]) := by
  have first := firstQname_of_asked parsed asked
  rw [run_cons, run_nil]
  rw [blockedCall, reportBlock]
  simp only [tracked, repCall, first, Option.map_some]

/-- A query changes the tracker by the calls of a run, if at all, and these are
blocks for its packet. -/
theorem exists_run_queryCall
    (cfg : Config F) {fw : Firewall} {tracker : Reputation}
    (tracked : fw.reputation = some tracker) (call : QueryCall) :
    ∃ calls : List RepCall,
      (∀ repCall, repCall ∈ calls → repCall.op = .block call.inbuf) ∧
        (queryCall cfg fw call).reputation =
          some (run repCall tracker calls) := by
  have admitted :
      (admittedState call.env fw call.client).reputation = some tracker := by
    rw [reputation_admittedState, tracked]
  have noCall :
      ∀ repCall : RepCall, repCall ∈ [] → repCall.op = .block call.inbuf :=
    fun _ => False.elim ∘ List.not_mem_nil
  have oneCall :
      ∀ (time : Int) (repCall : RepCall),
        repCall ∈ [(⟨time, .block call.inbuf⟩ : RepCall)] →
          repCall.op = .block call.inbuf := by
    intro time repCall member
    rw [List.mem_singleton.mp member]
  rw [queryCall, QueryCall.result]
  have branch :=
    branch_processDnsQuery call.env cfg fw call.inbuf call.client
  revert branch
  generalize processDnsQuery call.env cfg fw call.inbuf call.client = result
  intro branch
  cases branch with
  | unparsed parsed => exact ⟨[], noCall, tracked⟩
  | limited parsed dropped => exact ⟨[], noCall, admitted⟩
  | unasked parsed notLimited empty => exact ⟨[], noCall, admitted⟩
  | banned parsed notLimited asked quarantined =>
      exact ⟨[], noCall, admitted⟩
  | listed parsed notLimited asked free onList =>
      exact
        ⟨_, oneCall _,
          reputation_blockedCall parsed asked admitted _ _ _ _ _⟩
  | generated parsed notLimited asked free notListed isDga =>
      exact
        ⟨_, oneCall _,
          reputation_blockedCall parsed asked admitted _ _ _ _ _⟩
  | ruled passes action =>
      obtain ⟨more, asked⟩ := passes.asked
      refine
        ⟨_, oneCall _,
          reputation_blockedCall passes.parsed asked ?_ _ _ _ _ _⟩
      exact admitted
  | allowed passes action =>
      refine ⟨[], noCall, ?_⟩
      rw [reputation_sendAnswer]
      exact admitted

/-- The tracker of the firewall is one of the reachable tables after every run
of queries. -/
theorem tracker_reachable
    (cfg : Config F) (start : Int) (calls : List QueryCall) :
    ∃ repCalls,
      (run (queryCall cfg) (firewallStart start) calls).reputation =
        some (run repCall (repInit start) repCalls) := by
  have step :
      ∀ (fw : Firewall) (call : QueryCall),
        (∃ repCalls,
          fw.reputation = some (run repCall (repInit start) repCalls)) →
          True →
            ∃ repCalls,
              (queryCall cfg fw call).reputation =
                some (run repCall (repInit start) repCalls) := by
    rintro fw call ⟨earlier, tracked⟩ -
    obtain ⟨later, -, after⟩ := exists_run_queryCall cfg tracked call
    refine ⟨earlier ++ later, ?_⟩
    rw [after, run_append]
  exact
    @invariant_run _ _ (queryCall cfg) (fun _ _ => True)
      (fun fw : Firewall =>
        ∃ repCalls,
          fw.reputation = some (run repCall (repInit start) repCalls))
      step calls (firewallStart start) ⟨[], rfl⟩ fun _ _ _ _ => trivial

end DnsFirewall
