import Mathlib.Data.Fin.Basic
import Mathlib.Data.Nat.ModEq
import Mathlib.Logic.Function.Basic

/-!
# Linear probing

A table of slots is searched from the home slot of a key onwards, around the
end of the table, up to the first slot that is empty or holds the key.  An
entry is reached exactly when every slot on the way to it is occupied by
another key; emptying a slot on that way hides the entry, and no other change
of the table does.
-/

namespace DnsFirewall.LinearProbing

variable {n : Nat} [NeZero n] {α κ : Type} [DecidableEq κ]

/-- The slot visited in the given pass from the home slot. -/
def slotAt (home : Fin n) (pass : Nat) : Fin n :=
  Fin.ofNat n (home.val + pass)

/-- The first pass, among those left from `pass` on, whose slot stops the
search. -/
def firstStop (stops : Fin n → Bool) (home : Fin n) :
    Nat → Nat → Option Nat
  | 0, _ => none
  | left + 1, pass =>
      if stops (slotAt home pass) then some pass
      else firstStop stops home left (pass + 1)

/-- Whether a slot ends the search for a key: it is empty or holds the key. -/
def stopsFor (keyOf : α → κ) (slots : Fin n → Option α) (key : κ)
    (slot : Fin n) : Bool :=
  match slots slot with
  | none => true
  | some entry => decide (keyOf entry = key)

/-- The pass in which the search for a key ends. -/
def probe (keyOf : α → κ) (slots : Fin n → Option α) (home : Fin n)
    (key : κ) : Option Nat :=
  firstStop (stopsFor keyOf slots key) home n 0

/-! ## Slots -/

theorem slotAt_val (home : Fin n) (pass : Nat) :
    (slotAt home pass).val = (home.val + pass) % n :=
  rfl

theorem slotAt_injective
    {home : Fin n} {first second : Nat}
    (firstInRound : first < n) (secondInRound : second < n)
    (same : slotAt home first = slotAt home second) :
    first = second := by
  have values : (home.val + first) % n = (home.val + second) % n := by
    rw [← slotAt_val, ← slotAt_val, same]
  have congruent : first % n = second % n :=
    Nat.ModEq.add_left_cancel' home.val values
  rwa [Nat.mod_eq_of_lt firstInRound, Nat.mod_eq_of_lt secondInRound]
    at congruent

theorem exists_slotAt (home slot : Fin n) :
    ∃ pass, pass < n ∧ slotAt home pass = slot := by
  have homeBound := home.isLt
  have slotBound := slot.isLt
  by_cases ahead : home.val ≤ slot.val
  · refine ⟨slot.val - home.val, by omega, Fin.ext ?_⟩
    rw [slotAt_val, Nat.mod_eq_of_lt (by omega)]
    omega
  · refine ⟨slot.val + n - home.val, by omega, Fin.ext ?_⟩
    have around :
        home.val + (slot.val + n - home.val) = slot.val + n := by
      omega
    rw [slotAt_val, around, Nat.add_mod_right, Nat.mod_eq_of_lt slotBound]

/-! ## The search -/

theorem firstStop_eq_some_iff
    {stops : Fin n → Bool} {home : Fin n} {found left pass : Nat} :
    firstStop stops home left pass = some found ↔
      pass ≤ found ∧ found < pass + left ∧
        stops (slotAt home found) = true ∧
          ∀ earlier, pass ≤ earlier → earlier < found →
            stops (slotAt home earlier) = false := by
  induction left generalizing pass with
  | zero =>
      simp only [firstStop, reduceCtorEq, Nat.add_zero, false_iff]
      omega
  | succ left inductionHypothesis =>
      rw [firstStop]
      cases stop : stops (slotAt home pass) with
      | true =>
          simp only [if_true, Option.some.injEq]
          constructor
          · intro same
            subst same
            exact ⟨Nat.le_refl _, by omega, stop, by omega⟩
          · intro given
            obtain ⟨lower, _, _, before⟩ := given
            by_contra different
            have passed :=
              before pass (Nat.le_refl pass) (by omega)
            rw [stop] at passed
            cases passed
      | false =>
          simp only [Bool.false_eq_true, if_false]
          rw [inductionHypothesis]
          constructor
          · intro given
            obtain ⟨lower, upper, stopFound, before⟩ := given
            refine ⟨by omega, by omega, stopFound, ?_⟩
            intro earlier from_pass to_found
            by_cases first : earlier = pass
            · rw [first]
              exact stop
            · exact before earlier (by omega) to_found
          · intro given
            obtain ⟨lower, upper, stopFound, before⟩ := given
            have notFirst : found ≠ pass := by
              intro same
              subst same
              rw [stop] at stopFound
              cases stopFound
            exact ⟨by omega, by omega, stopFound,
              fun earlier from_pass to_found =>
                before earlier (by omega) to_found⟩

theorem firstStop_eq_none_iff
    {stops : Fin n → Bool} {home : Fin n} {left pass : Nat} :
    firstStop stops home left pass = none ↔
      ∀ visited, pass ≤ visited → visited < pass + left →
        stops (slotAt home visited) = false := by
  induction left generalizing pass with
  | zero =>
      simp only [firstStop, Nat.add_zero, true_iff]
      omega
  | succ left inductionHypothesis =>
      rw [firstStop]
      cases stop : stops (slotAt home pass) with
      | true =>
          simp only [if_true, reduceCtorEq, false_iff]
          intro all
          have passed := all pass (Nat.le_refl pass) (by omega)
          rw [stop] at passed
          cases passed
      | false =>
          simp only [Bool.false_eq_true, if_false, inductionHypothesis]
          constructor
          · intro all visited lower upper
            by_cases first : visited = pass
            · rw [first]
              exact stop
            · exact all visited (by omega) (by omega)
          · intro all visited lower upper
            exact all visited (by omega) (by omega)

omit [NeZero n] in
theorem stopsFor_eq_false_iff
    {keyOf : α → κ} {slots : Fin n → Option α} {key : κ} {slot : Fin n} :
    stopsFor keyOf slots key slot = false ↔
      ∃ entry, slots slot = some entry ∧ keyOf entry ≠ key := by
  rw [stopsFor]
  cases slots slot with
  | none => simp
  | some entry => simp

omit [NeZero n] in
theorem stopsFor_eq_true_iff
    {keyOf : α → κ} {slots : Fin n → Option α} {key : κ} {slot : Fin n} :
    stopsFor keyOf slots key slot = true ↔
      slots slot = none ∨
        ∃ entry, slots slot = some entry ∧ keyOf entry = key := by
  rw [stopsFor]
  cases slots slot with
  | none => simp
  | some entry => simp

/-- The slots of the first `passes` passes are occupied by other keys. -/
def Crowded (keyOf : α → κ) (slots : Fin n → Option α) (home : Fin n)
    (key : κ) (passes : Nat) : Prop :=
  ∀ earlier, earlier < passes →
    ∃ entry, slots (slotAt home earlier) = some entry ∧ keyOf entry ≠ key

theorem probe_eq_some_iff
    {keyOf : α → κ} {slots : Fin n → Option α} {home : Fin n} {key : κ}
    {pass : Nat} :
    probe keyOf slots home key = some pass ↔
      pass < n ∧ stopsFor keyOf slots key (slotAt home pass) = true ∧
        Crowded keyOf slots home key pass := by
  rw [probe, Crowded]
  rw [firstStop_eq_some_iff]
  simp only [Nat.zero_le, true_and, Nat.zero_add, forall_const,
    stopsFor_eq_false_iff]

/-- The search fails to stop only in a table full of other keys. -/
theorem probe_eq_none_iff
    {keyOf : α → κ} {slots : Fin n → Option α} {home : Fin n} {key : κ} :
    probe keyOf slots home key = none ↔
      ∀ slot, ∃ entry, slots slot = some entry ∧ keyOf entry ≠ key := by
  rw [probe]
  rw [firstStop_eq_none_iff]
  simp only [Nat.zero_le, Nat.zero_add, forall_const,
    stopsFor_eq_false_iff]
  constructor
  · intro all slot
    obtain ⟨pass, inRound, rfl⟩ := exists_slotAt home slot
    exact all pass inRound
  · intro all visited _
    exact all (slotAt home visited)

/-! ## Reached entries -/

/-- The search for the key ends, in the given pass, at an entry of the key. -/
structure Reaches (keyOf : α → κ) (slots : Fin n → Option α)
    (home : Fin n) (key : κ) (pass : Nat) (entry : α) : Prop where
  inRound : pass < n
  holds : slots (slotAt home pass) = some entry
  isKey : keyOf entry = key
  crowded : Crowded keyOf slots home key pass

namespace Reaches

variable {keyOf : α → κ} {slots : Fin n → Option α} {home : Fin n}
  {key : κ} {pass : Nat} {entry : α}

theorem probe_eq
    (reached : Reaches keyOf slots home key pass entry) :
    probe keyOf slots home key = some pass :=
  probe_eq_some_iff.mpr
    ⟨reached.inRound,
      stopsFor_eq_true_iff.mpr
        (Or.inr ⟨entry, reached.holds, reached.isKey⟩),
      reached.crowded⟩

theorem of_probe
    (found : probe keyOf slots home key = some pass)
    (holds : slots (slotAt home pass) = some entry) :
    Reaches keyOf slots home key pass entry := by
  obtain ⟨inRound, stop, crowded⟩ := probe_eq_some_iff.mp found
  refine ⟨inRound, holds, ?_, crowded⟩
  rcases stopsFor_eq_true_iff.mp stop with empty | ⟨other, same, isKey⟩
  · rw [holds] at empty
    cases empty
  · rw [holds] at same
    cases same
    exact isKey

omit [DecidableEq κ] in
/-- Any change that keeps the slots up to the entry occupied by the same keys
keeps the entry reached. -/
theorem frame
    {changed : Fin n → Option α}
    (reached : Reaches keyOf slots home key pass entry)
    (kept : changed (slotAt home pass) = some entry)
    (others :
      ∀ earlier other, earlier < pass →
        slots (slotAt home earlier) = some other →
          ∃ replaced, changed (slotAt home earlier) = some replaced ∧
            keyOf replaced = keyOf other) :
    Reaches keyOf changed home key pass entry := by
  refine ⟨reached.inRound, kept, reached.isKey, ?_⟩
  intro earlier before
  obtain ⟨other, occupied, different⟩ := reached.crowded earlier before
  obtain ⟨replaced, stays, sameKey⟩ := others earlier other before occupied
  exact ⟨replaced, stays, by rw [sameKey]; exact different⟩

omit [DecidableEq κ] in
/-- Filling an empty slot hides nothing. -/
theorem fill
    {slot : Fin n} (newEntry : α)
    (reached : Reaches keyOf slots home key pass entry)
    (empty : slots slot = none) :
    Reaches keyOf (Function.update slots slot (some newEntry)) home key
      pass entry := by
  have elsewhere :
      ∀ visited other, slots (slotAt home visited) = some other →
        Function.update slots slot (some newEntry) (slotAt home visited) =
          some other := by
    intro visited other occupied
    have different : slotAt home visited ≠ slot := by
      intro same
      subst same
      rw [empty] at occupied
      cases occupied
    rw [Function.update_of_ne different, occupied]
  exact
    reached.frame (elsewhere pass entry reached.holds)
      fun earlier other _ occupied =>
        ⟨other, elsewhere earlier other occupied, rfl⟩

omit [DecidableEq κ] in
/-- Rewriting the entry of another key in place hides nothing. -/
theorem overwrite
    {slot : Fin n} {old newEntry : α}
    (reached : Reaches keyOf slots home key pass entry)
    (occupied : slots slot = some old)
    (sameKey : keyOf newEntry = keyOf old)
    (otherKey : keyOf old ≠ key) :
    Reaches keyOf (Function.update slots slot (some newEntry)) home key
      pass entry := by
  refine reached.frame ?_ ?_
  · have different : slotAt home pass ≠ slot := by
      intro same
      subst same
      rw [reached.holds] at occupied
      cases occupied
      exact otherKey reached.isKey
    rw [Function.update_of_ne different]
    exact reached.holds
  · intro earlier other _ holdsOther
    by_cases here : slotAt home earlier = slot
    · refine ⟨newEntry, ?_, ?_⟩
      · rw [here, Function.update_self]
      · rw [here, occupied] at holdsOther
        cases holdsOther
        exact sameKey
    · exact ⟨other, by rw [Function.update_of_ne here, holdsOther], rfl⟩

omit [DecidableEq κ] in
/-- Emptying slots hides nothing as long as none of them is on the way. -/
theorem clear
    {changed : Fin n → Option α}
    (reached : Reaches keyOf slots home key pass entry)
    (kept :
      ∀ visited, visited ≤ pass →
        changed (slotAt home visited) = slots (slotAt home visited)) :
    Reaches keyOf changed home key pass entry :=
  reached.frame (by rw [kept pass (Nat.le_refl pass), reached.holds])
    fun earlier other before occupied =>
      ⟨other, by rw [kept earlier (Nat.le_of_lt before), occupied], rfl⟩

omit [DecidableEq κ] in
/-- With an entry of another key written to one slot, an entry is reached from
the slots before it if each is that slot or occupied by another key. -/
theorem update_iff
    {slot : Fin n} {newEntry : α} (otherKey : keyOf newEntry ≠ key) :
    Reaches keyOf (Function.update slots slot (some newEntry)) home key
        pass entry ↔
      pass < n ∧ slotAt home pass ≠ slot ∧
        slots (slotAt home pass) = some entry ∧ keyOf entry = key ∧
          ∀ earlier, earlier < pass →
            slotAt home earlier = slot ∨
              ∃ other, slots (slotAt home earlier) = some other ∧
                keyOf other ≠ key := by
  constructor
  · intro reached
    have different : slotAt home pass ≠ slot := by
      intro same
      have written := reached.holds
      rw [same, Function.update_self, Option.some.injEq] at written
      exact otherKey (by rw [written]; exact reached.isKey)
    have occupied := reached.holds
    rw [Function.update_of_ne different] at occupied
    refine
      ⟨reached.inRound, different, occupied, reached.isKey, ?_⟩
    intro earlier before
    obtain ⟨other, holds, isOther⟩ := reached.crowded earlier before
    by_cases here : slotAt home earlier = slot
    · exact Or.inl here
    · rw [Function.update_of_ne here] at holds
      exact Or.inr ⟨other, holds, isOther⟩
  · intro given
    obtain ⟨inRound, different, occupied, isKey, passed⟩ := given
    refine ⟨inRound, ?_, isKey, ?_⟩
    · rw [Function.update_of_ne different]
      exact occupied
    · intro earlier before
      by_cases here : slotAt home earlier = slot
      · refine ⟨newEntry, ?_, otherKey⟩
        rw [here, Function.update_self]
      · rw [Function.update_of_ne here]
        exact (passed earlier before).resolve_left here

end Reaches

/-- An empty slot ends every search that comes by, there at the latest. -/
theorem probe_le_of_empty
    (keyOf : α → κ) {slots : Fin n → Option α} {home : Fin n} (key : κ)
    {pass : Nat} (empty : slots (slotAt home pass) = none) :
    ∃ stop, probe keyOf slots home key = some stop ∧ stop ≤ pass := by
  cases found : probe keyOf slots home key with
  | none =>
      obtain ⟨entry, occupied, _⟩ :=
        probe_eq_none_iff.mp found (slotAt home pass)
      rw [empty] at occupied
      cases occupied
  | some stop =>
      refine ⟨stop, rfl, ?_⟩
      obtain ⟨_, _, crowded⟩ := probe_eq_some_iff.mp found
      by_contra beyond
      obtain ⟨entry, occupied, _⟩ := crowded pass (by omega)
      rw [empty] at occupied
      cases occupied

end DnsFirewall.LinearProbing
