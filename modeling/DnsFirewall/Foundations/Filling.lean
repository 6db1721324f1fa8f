import DnsFirewall.Foundations.LinearProbing
import DnsFirewall.Foundations.Occupancy

/-!
# Filling a table by linear probing

An entry goes into the first empty slot from its home slot onwards.  As long as
a slot is empty the search for room ends, and as long as no key comes twice
every entry is found again and no other key is.
-/

namespace DnsFirewall.LinearProbing

open Occupancy

variable {n : Nat} [NeZero n] {α κ : Type}

/-- The pass in which the search for an empty slot ends, with fuel for as many
passes. -/
def roomFor (slots : Fin n → Option α) (home : Fin n) (fuel : Nat) :
    Option Nat :=
  firstStop (fun slot => (slots slot).isNone) home fuel 0

theorem roomFor_eq_some_iff
    {slots : Fin n → Option α} {home : Fin n} {fuel pass : Nat} :
    roomFor slots home fuel = some pass ↔
      pass < fuel ∧ slots (slotAt home pass) = none ∧
        ∀ earlier, earlier < pass →
          ∃ entry, slots (slotAt home earlier) = some entry := by
  rw [roomFor, firstStop_eq_some_iff]
  simp only [Nat.zero_le, true_and, Nat.zero_add, forall_const,
    Option.isNone_iff_eq_none, Option.isNone_eq_false_iff,
    Option.isSome_iff_exists]

theorem roomFor_mono
    {slots : Fin n → Option α} {home : Fin n} {fuel more pass : Nat}
    (found : roomFor slots home fuel = some pass) (enough : fuel ≤ more) :
    roomFor slots home more = some pass := by
  rw [roomFor_eq_some_iff] at found ⊢
  exact ⟨Nat.lt_of_lt_of_le found.1 enough, found.2⟩

theorem slotAt_add_round (home : Fin n) (pass : Nat) :
    slotAt home (pass + n) = slotAt home pass := by
  apply Fin.ext
  rw [slotAt_val, slotAt_val, ← Nat.add_assoc, Nat.add_mod_right]

/-- The search for room ends in the first round. -/
theorem roomFor_lt
    {slots : Fin n → Option α} {home : Fin n} {fuel pass : Nat}
    (found : roomFor slots home fuel = some pass) :
    pass < n := by
  obtain ⟨_, empty, before⟩ := roomFor_eq_some_iff.mp found
  by_contra around
  have positive : 0 < n := Nat.pos_of_neZero n
  have twice : pass - n + n = pass := Nat.sub_add_cancel (by omega)
  obtain ⟨entry, occupied⟩ := before (pass - n) (by omega)
  rw [← slotAt_add_round, twice, empty] at occupied
  cases occupied

/-- Fuel for one round is enough when a slot is empty. -/
theorem exists_roomFor
    {slots : Fin n → Option α} (empty : ∃ slot, slots slot = none)
    (home : Fin n) {fuel : Nat} (enough : n ≤ fuel) :
    ∃ pass, roomFor slots home fuel = some pass := by
  cases found : roomFor slots home fuel with
  | some pass => exact ⟨pass, rfl⟩
  | none =>
      obtain ⟨slot, isEmpty⟩ := empty
      obtain ⟨pass, inRound, visited⟩ := exists_slotAt home slot
      have passed :=
        firstStop_eq_none_iff.mp found pass (Nat.zero_le pass) (by omega)
      rw [visited, isEmpty] at passed
      cases passed

/-- Every entry is reached from its home slot, and the slots hold nothing
else. -/
structure Holds (keyOf : α → κ) (homeOf : κ → Fin n)
    (slots : Fin n → Option α) (entries : List α) : Prop where
  reached :
    ∀ entry, entry ∈ entries →
      ∃ pass,
        Reaches keyOf slots (homeOf (keyOf entry)) (keyOf entry) pass entry
  only : ∀ slot entry, slots slot = some entry → entry ∈ entries

variable {keyOf : α → κ} {homeOf : κ → Fin n} {slots : Fin n → Option α}

theorem holds_nil : Holds keyOf homeOf (fun _ => none) [] where
  reached := fun _ member => absurd member (List.not_mem_nil)
  only := fun _ _ occupied => by cases occupied

/-- Adding an entry with a new key in the first empty slot keeps all others
reachable. -/
theorem Holds.fill
    {entries : List α} (holds : Holds keyOf homeOf slots entries)
    {entry : α} {fuel pass : Nat}
    (fresh : ∀ other, other ∈ entries → keyOf other ≠ keyOf entry)
    (room : roomFor slots (homeOf (keyOf entry)) fuel = some pass) :
    Holds keyOf homeOf
      (Function.update slots (slotAt (homeOf (keyOf entry)) pass)
        (some entry))
      (entries ++ [entry]) where
  reached := by
    obtain ⟨_, empty, before⟩ := roomFor_eq_some_iff.mp room
    intro other member
    rcases List.mem_append.mp member with old | new
    · obtain ⟨otherPass, reached⟩ := holds.reached other old
      exact ⟨otherPass, reached.fill entry empty⟩
    · rw [List.mem_singleton] at new
      subst new
      refine ⟨pass, roomFor_lt room, Function.update_self .., rfl, ?_⟩
      intro earlier isBefore
      obtain ⟨occupant, occupied⟩ := before earlier isBefore
      refine ⟨occupant, ?_, fresh occupant (holds.only _ _ occupied)⟩
      have different :
          slotAt (homeOf (keyOf other)) earlier ≠
            slotAt (homeOf (keyOf other)) pass := by
        intro same
        rw [same, empty] at occupied
        cases occupied
      rw [Function.update_of_ne different, occupied]
  only := by
    intro slot other occupied
    by_cases here : slot = slotAt (homeOf (keyOf entry)) pass
    · rw [here, Function.update_self] at occupied
      cases occupied
      exact List.mem_append_right entries (List.mem_singleton_self entry)
    · rw [Function.update_of_ne here] at occupied
      exact List.mem_append_left [entry] (holds.only slot other occupied)

variable [DecidableEq κ]

/-- A key of an entry is found with the entry. -/
theorem Holds.probe_present
    {entries : List α} (holds : Holds keyOf homeOf slots entries)
    {entry : α} (member : entry ∈ entries) :
    ∃ pass,
      probe keyOf slots (homeOf (keyOf entry)) (keyOf entry) = some pass ∧
        slots (slotAt (homeOf (keyOf entry)) pass) = some entry := by
  obtain ⟨pass, reached⟩ := holds.reached entry member
  exact ⟨pass, reached.probe_eq, reached.holds⟩

/-- With an empty slot, the search for any other key ends at one. -/
theorem Holds.probe_absent
    {entries : List α} (holds : Holds keyOf homeOf slots entries)
    (empty : ∃ slot, slots slot = none) {key : κ}
    (absent : ∀ entry, entry ∈ entries → keyOf entry ≠ key) :
    ∃ pass,
      probe keyOf slots (homeOf key) key = some pass ∧
        slots (slotAt (homeOf key) pass) = none := by
  obtain ⟨slot, isEmpty⟩ := empty
  obtain ⟨emptyPass, _, visited⟩ := exists_slotAt (homeOf key) slot
  rw [← visited] at isEmpty
  obtain ⟨pass, found, _⟩ := probe_le_of_empty keyOf key isEmpty
  refine ⟨pass, found, ?_⟩
  obtain ⟨_, stop, _⟩ := probe_eq_some_iff.mp found
  rcases stopsFor_eq_true_iff.mp stop with isNone | occupied
  · exact isNone
  · obtain ⟨entry, holdsEntry, isKey⟩ := occupied
    exact absurd isKey (absent entry (holds.only _ _ holdsEntry))

end DnsFirewall.LinearProbing
