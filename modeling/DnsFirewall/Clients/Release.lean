import Mathlib.Data.List.Perm.Basic
import DnsFirewall.Clients.Quarantine
import DnsFirewall.Foundations.Runs

/-!
# Releasing a client

`ad_unquarantine` puts the last entry of the list in the place of the first
one that is the client's.  A client has an entry for every block from the fifth
in a minute on, and only one of them goes: the client is released exactly when
all its other entries have run out.
-/

namespace DnsFirewall

open Runs

/-- `ad_unquarantine`: the last entry takes the place of the first one of the
client. -/
def adUnquarantine (ctx : ActiveDefense) (ip : UInt32) : ActiveDefense :=
  match ctx.quarantined.findIdx? fun entry => entry.ip = ip,
      ctx.quarantined.getLast? with
  | some place, some last =>
      { ctx with quarantined := (ctx.quarantined.set place last).dropLast }
  | _, _ => ctx

/-- The calls that change the context. -/
inductive DefenseCall where
  | reportBlock (ip : UInt32)
  | unquarantine (ip : UInt32)
deriving DecidableEq, Repr

/-- A call at a reading of the clock. -/
def adStep (ctx : ActiveDefense) (call : Int × DefenseCall) : ActiveDefense :=
  match call with
  | (now, .reportBlock ip) => adReportBlock ctx ip now
  | (_, .unquarantine ip) => adUnquarantine ctx ip

/-- The entries of a client in the order of the array. -/
def entriesOf (ctx : ActiveDefense) (ip : UInt32) : List QuarantineEntry :=
  ctx.quarantined.filter fun entry => entry.ip = ip

/-- A release at a time lifts the quarantine: whatever is called from then on,
the client is not quarantined until it is reported again, and the release is
nothing to any other client. -/
structure Lifted (ctx : ActiveDefense) (ip : UInt32) (now : Int) : Prop where
  released :
    ∀ (calls : List (Int × DefenseCall)) (later : Int),
      (now :: calls.map Prod.fst ++ [later]).Pairwise (· ≤ ·) →
        (∀ call, call ∈ calls → call.2 ≠ .reportBlock ip) →
          adIsQuarantined (run adStep (adUnquarantine ctx ip) calls) ip
              later =
            false
  others :
    ∀ (other : UInt32) (later : Int), other ≠ ip →
      adIsQuarantined (adUnquarantine ctx ip) other later =
        adIsQuarantined ctx other later

/-- All entries of the client but the first have run out. -/
def OneLeft (ctx : ActiveDefense) (ip : UInt32) (now : Int) : Prop :=
  ∀ entry, entry ∈ (entriesOf ctx ip).tail → entry.bannedUntil ≤ now

/-- Where a call is a release, it meets the condition. -/
def AtRelease
    (condition : ActiveDefense → UInt32 → Int → Prop)
    (ctx : ActiveDefense) (call : Int × DefenseCall) : Prop :=
  ∀ ip, call.2 = .unquarantine ip → condition ctx ip call.1

/-! ## The last entry in the place of another -/

theorem dropLast_set_perm
    {α : Type} {entries : List α} {place : Nat} {last : α}
    (inside : place < entries.length) (ends : entries.getLast? = some last) :
    ((entries.set place last).dropLast).Perm (entries.eraseIdx place) := by
  obtain ⟨front, shape⟩ := List.getLast?_eq_some_iff.mp ends
  rw [shape, List.length_append, List.length_singleton] at inside
  rw [shape]
  by_cases before : place < front.length
  · rw [List.set_append_left _ _ before, List.dropLast_concat,
      List.eraseIdx_append_of_lt_length before]
    exact
      (List.set_perm_cons_eraseIdx before last).trans
        (List.perm_append_singleton last _).symm
  · have atEnd : place = front.length := by omega
    rw [atEnd, List.eraseIdx_append_of_length_le (Nat.le_refl _)]
    simp

theorem quarantined_adUnquarantine_perm (ctx : ActiveDefense) (ip : UInt32) :
    (adUnquarantine ctx ip).quarantined.Perm
      (ctx.quarantined.eraseP fun entry => entry.ip = ip) := by
  rw [adUnquarantine, List.eraseP_eq_eraseIdx]
  cases found : ctx.quarantined.findIdx? fun entry => entry.ip = ip with
  | none => exact List.Perm.refl _
  | some place =>
      have inside := (List.findIdx?_eq_some_iff_getElem.mp found).1
      cases ends : ctx.quarantined.getLast? with
      | none =>
          rw [List.getLast?_eq_none_iff.mp ends] at inside
          exact absurd inside (Nat.not_lt_zero _)
      | some last => exact dropLast_set_perm inside ends

theorem filter_eraseP_self {α : Type} (test : α → Bool) (entries : List α) :
    (entries.eraseP test).filter test = (entries.filter test).tail := by
  induction entries with
  | nil => rfl
  | cons entry entries inductionHypothesis =>
      cases here : test entry with
      | true =>
          rw [List.eraseP_cons_of_pos here, List.filter_cons_of_pos here,
            List.tail_cons]
      | false =>
          have skipped : ¬ test entry = true := by simp [here]
          rw [List.eraseP_cons_of_neg skipped,
            List.filter_cons_of_neg skipped,
            List.filter_cons_of_neg skipped, inductionHypothesis]

theorem filter_eraseP_other
    {α : Type} {test other : α → Bool}
    (apart : ∀ entry, test entry = true → other entry = false)
    (entries : List α) :
    (entries.eraseP test).filter other = entries.filter other := by
  induction entries with
  | nil => rfl
  | cons entry entries inductionHypothesis =>
      cases here : test entry with
      | true =>
          have skipped : ¬ other entry = true := by simp [apart entry here]
          rw [List.eraseP_cons_of_pos here, List.filter_cons_of_neg skipped]
      | false =>
          rw [List.eraseP_cons_of_neg (by simp [here]), List.filter_cons,
            List.filter_cons, inductionHypothesis]

/-- One entry of the client goes. -/
theorem entriesOf_adUnquarantine (ctx : ActiveDefense) (ip : UInt32) :
    (entriesOf (adUnquarantine ctx ip) ip).Perm (entriesOf ctx ip).tail := by
  have filtered :=
    (quarantined_adUnquarantine_perm ctx ip).filter fun entry =>
      decide (entry.ip = ip)
  rw [filter_eraseP_self] at filtered
  exact filtered

theorem entriesOf_adUnquarantine_other
    (ctx : ActiveDefense) {ip other : UInt32} (different : other ≠ ip) :
    (entriesOf (adUnquarantine ctx ip) other).Perm (entriesOf ctx other) := by
  have filtered :=
    (quarantined_adUnquarantine_perm ctx ip).filter fun entry =>
      decide (entry.ip = other)
  rw [filter_eraseP_other] at filtered
  · exact filtered
  · intro entry isClient
    have same : entry.ip = ip := by simpa using isClient
    rw [same]
    exact decide_eq_false (Ne.symm different)

/-! ## What is left of the client -/

theorem adIsQuarantined_eq_false_iff
    {ctx : ActiveDefense} {ip : UInt32} {now : Int} :
    adIsQuarantined ctx ip now = false ↔
      ∀ entry, entry ∈ entriesOf ctx ip → entry.bannedUntil ≤ now := by
  simp [adIsQuarantined, entriesOf, imp.swap]

/-- Clients with the same entries have the same status. -/
theorem adIsQuarantined_congr
    {ctx other : ActiveDefense} {ip : UInt32}
    (same : (entriesOf ctx ip).Perm (entriesOf other ip)) (now : Int) :
    adIsQuarantined ctx ip now = adIsQuarantined other ip now := by
  rw [Bool.eq_iff_iff, ← not_iff_not, Bool.not_eq_true, Bool.not_eq_true,
    adIsQuarantined_eq_false_iff, adIsQuarantined_eq_false_iff]
  exact forall_congr' fun entry => by rw [same.mem_iff]

/-- A call that is no report of the client brings it no entry. -/
theorem mem_entriesOf_of_adStep
    {ctx : ActiveDefense} {ip : UInt32} {call : Int × DefenseCall}
    (noReport : call.2 ≠ .reportBlock ip) {entry : QuarantineEntry}
    (member : entry ∈ entriesOf (adStep ctx call) ip) :
    entry ∈ entriesOf ctx ip := by
  obtain ⟨now, action⟩ := call
  cases action with
  | reportBlock other =>
      have different : other ≠ ip := by
        intro same
        exact noReport (congrArg DefenseCall.reportBlock same)
      rw [adStep, adReportBlock] at member
      split at member
      · rw [entriesOf, List.filter_append] at member
        rcases List.mem_append.mp member with before | added
        · exact before
        · simp [different] at added
      · exact member
  | unquarantine other =>
      rw [adStep] at member
      by_cases same : ip = other
      · subst same
        exact
          List.mem_of_mem_tail
            ((entriesOf_adUnquarantine ctx ip).mem_iff.mp member)
      · exact
          (entriesOf_adUnquarantine_other ctx same).mem_iff.mp member

/-- A client that is not quarantined stays so until it is reported. -/
theorem adIsQuarantined_run_eq_false
    {ctx : ActiveDefense} {ip : UInt32} {later : Int}
    {calls : List (Int × DefenseCall)}
    (noReport : ∀ call, call ∈ calls → call.2 ≠ .reportBlock ip)
    (free : adIsQuarantined ctx ip later = false) :
    adIsQuarantined (run adStep ctx calls) ip later = false := by
  have along :
      Along adStep (fun _ call => call.2 ≠ .reportBlock ip) ctx calls := by
    intro before call after shape
    apply noReport call
    rw [shape]
    exact List.mem_append_right before List.mem_cons_self
  refine
    invariant_run (fun state => adIsQuarantined state ip later = false)
      ?_ free along
  intro state call holds plain
  apply adIsQuarantined_eq_false_iff.mpr
  intro entry member
  exact
    adIsQuarantined_eq_false_iff.mp holds entry
      (mem_entriesOf_of_adStep plain member)

/-! ## Lifting -/

theorem lifted_iff_oneLeft
    (ctx : ActiveDefense) (ip : UInt32) (now : Int) :
    Lifted ctx ip now ↔ OneLeft ctx ip now := by
  have remaining := entriesOf_adUnquarantine ctx ip
  constructor
  · intro lifted entry member
    have atOnce : [now, now].Pairwise (· ≤ ·) := by simp
    have free :=
      lifted.released [] now atOnce (fun _ called => absurd called (by simp))
    exact
      adIsQuarantined_eq_false_iff.mp free entry
        (remaining.mem_iff.mpr member)
  · intro oneLeft
    refine ⟨?_, ?_⟩
    · intro calls later inOrder noReport
      have notBefore : now ≤ later :=
        (List.pairwise_cons.mp inOrder).1 later
          (List.mem_append_right _ List.mem_cons_self)
      apply adIsQuarantined_run_eq_false noReport
      apply adIsQuarantined_eq_false_iff.mpr
      intro entry member
      have out := oneLeft entry (remaining.mem_iff.mp member)
      exact out.trans notBefore
    · intro other later different
      exact
        adIsQuarantined_congr
          (entriesOf_adUnquarantine_other ctx different) later

/-- In every run, every release lifts the quarantine exactly when at every
release all entries of the client but the first have run out. -/
theorem lifted_along_iff (calls : List (Int × DefenseCall)) :
    Along adStep (AtRelease Lifted) adInit calls ↔
      Along adStep (AtRelease OneLeft) adInit calls := by
  have everywhere :
      ∀ ctx call, AtRelease Lifted ctx call ↔ AtRelease OneLeft ctx call := by
    intro ctx call
    apply forall_congr'
    intro ip
    exact imp_congr_right fun _ => lifted_iff_oneLeft ctx ip call.1
  constructor
  · intro along before call after shape
    exact (everywhere _ _).mp (along before call after shape)
  · intro along before call after shape
    exact (everywhere _ _).mpr (along before call after shape)

/-- Six blocks at once ban a client twice. -/
def bannedTwice : List (Int × DefenseCall) :=
  List.replicate 6 (0, .reportBlock 1) ++ [(0, .unquarantine 1)]

/-- Behind one release the client is still quarantined. -/
theorem not_lifted_bannedTwice :
    (bannedTwice.map Prod.fst).Pairwise (· ≤ ·) ∧
      ¬ Along adStep (AtRelease Lifted) adInit bannedTwice := by
  refine ⟨by decide, ?_⟩
  intro along
  have lifted :=
    along (List.replicate 6 (0, .reportBlock 1)) (0, .unquarantine 1) []
      rfl 1 rfl
  have free :=
    lifted.released [] 0 (by decide) (fun _ called => absurd called (by simp))
  exact absurd free (by decide)

end DnsFirewall
