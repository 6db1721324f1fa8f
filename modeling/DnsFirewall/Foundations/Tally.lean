import Mathlib.Algebra.GroupWithZero.Nat
import Mathlib.Data.Fintype.Card
import Mathlib.Data.List.Dedup
import Mathlib.Data.List.Perm.Basic

/-!
# Tallies

Counters that keep their keys in the order in which these came first.
-/

namespace DnsFirewall.Tally

variable {κ : Type} [DecidableEq κ]

/-- Count one more of the key. -/
def add (key : κ) : List (κ × Nat) → List (κ × Nat)
  | [] => [(key, 1)]
  | (other, count) :: entries =>
      if other = key then (other, count + 1) :: entries
      else (other, count) :: add key entries

/-- Count the keys, in their order. -/
def update (entries : List (κ × Nat)) (keys : List κ) :
    List (κ × Nat) :=
  keys.foldl (fun entries key => add key entries) entries

/-- The entries, those with the largest counts first. -/
def mostCommon (entries : List (κ × Nat)) : List (κ × Nat) :=
  entries.mergeSort fun first second => decide (second.2 ≤ first.2)

/-- Every key that occurs has one entry, with the number of its occurrences.
-/
structure Tallies (entries : List (κ × Nat)) (keys : List κ) : Prop where
  nodup : (entries.map Prod.fst).Nodup
  mem_iff : ∀ key count,
    (key, count) ∈ entries ↔ 0 < count ∧ count = keys.count key
  total : (entries.map Prod.snd).sum = keys.length

theorem tallies_nil : Tallies ([] : List (κ × Nat)) [] where
  nodup := List.nodup_nil
  mem_iff := by
    intro key count
    simp only [List.not_mem_nil, List.count_nil, false_iff]
    omega
  total := rfl

theorem keys_add (key : κ) (entries : List (κ × Nat)) :
    (add key entries).map Prod.fst =
      if key ∈ entries.map Prod.fst then entries.map Prod.fst
      else entries.map Prod.fst ++ [key] := by
  induction entries with
  | nil => rfl
  | cons entry entries inductionHypothesis =>
      obtain ⟨other, count⟩ := entry
      rw [add]
      by_cases same : other = key
      · simp [same]
      · have others : ¬ key = other := fun isOther => same isOther.symm
        simp only [if_neg same, List.map_cons, inductionHypothesis,
          List.mem_cons, others, false_or]
        split
        · rfl
        · rfl

theorem sum_add (key : κ) (entries : List (κ × Nat)) :
    ((add key entries).map Prod.snd).sum =
      (entries.map Prod.snd).sum + 1 := by
  induction entries with
  | nil => rfl
  | cons entry entries inductionHypothesis =>
      obtain ⟨other, count⟩ := entry
      rw [add]
      split
      · simp only [List.map_cons, List.sum_cons]
        omega
      · simp only [List.map_cons, List.sum_cons, inductionHypothesis]
        omega

/-- The other entries stay. -/
theorem mem_add_of_ne
    {key other : κ} (differs : other ≠ key) (count : Nat)
    (entries : List (κ × Nat)) :
    (other, count) ∈ add key entries ↔ (other, count) ∈ entries := by
  induction entries with
  | nil => simp [add, differs]
  | cons entry entries inductionHypothesis =>
      obtain ⟨first, tally⟩ := entry
      rw [add]
      split
      · rename_i same
        subst same
        simp [differs]
      · simp only [List.mem_cons, inductionHypothesis]

/-- The entry of the key is raised, or made. -/
theorem mem_add_self
    {key : κ} {entries : List (κ × Nat)} {tally : Nat}
    (nodup : (entries.map Prod.fst).Nodup)
    (counted : ∀ count,
      (key, count) ∈ entries ↔ 0 < count ∧ count = tally)
    (count : Nat) :
    (key, count) ∈ add key entries ↔ count = tally + 1 := by
  induction entries with
  | nil =>
      have none : tally = 0 := by
        by_contra some
        exact
          List.not_mem_nil
            ((counted tally).mpr ⟨Nat.pos_of_ne_zero some, rfl⟩)
      simp [add, none]
  | cons entry entries inductionHypothesis =>
      obtain ⟨first, number⟩ := entry
      rw [List.map_cons, List.nodup_cons] at nodup
      rw [add]
      by_cases same : first = key
      · subst same
        have isTally : number = tally :=
          ((counted number).mp List.mem_cons_self).2
        have alone : (first, count) ∉ entries :=
          fun member => nodup.1 (List.mem_map.mpr ⟨_, member, rfl⟩)
        simp [isTally, alone]
      · rw [if_neg same]
        have notFirst : ∀ count, (key, count) ≠ (first, number) :=
          fun count isFirst => same (congrArg Prod.fst isFirst).symm
        simp only [List.mem_cons, notFirst, false_or] at counted ⊢
        exact inductionHypothesis nodup.2 counted

namespace Tallies

variable {entries : List (κ × Nat)} {keys : List κ}

theorem add
    (tallies : Tallies entries keys) (key : κ) :
    Tallies (Tally.add key entries) (keys ++ [key]) where
  nodup := by
    rw [keys_add]
    split
    · exact tallies.nodup
    · rename_i missing
      refine tallies.nodup.append (List.nodup_singleton key) ?_
      intro other member isKey
      rw [List.mem_singleton.mp isKey] at member
      exact missing member
  mem_iff := by
    intro other count
    by_cases same : other = key
    · subst same
      rw [mem_add_self tallies.nodup (tallies.mem_iff other),
        List.count_append, List.count_singleton_self]
      omega
    · rw [mem_add_of_ne same, tallies.mem_iff, List.count_append,
        List.count_singleton]
      simp [Ne.symm same]
  total := by
    rw [sum_add, tallies.total, List.length_append]
    rfl

theorem update
    (tallies : Tallies entries keys) (more : List κ) :
    Tallies (Tally.update entries more) (keys ++ more) := by
  induction more generalizing entries keys with
  | nil =>
      rw [List.append_nil]
      exact tallies
  | cons key more inductionHypothesis =>
      have next := inductionHypothesis (tallies.add key)
      rw [List.append_assoc] at next
      exact next

theorem perm
    {others : List (κ × Nat)} (tallies : Tallies entries keys)
    (same : others.Perm entries) :
    Tallies others keys where
  nodup := (same.map Prod.fst).nodup_iff.mpr tallies.nodup
  mem_iff := fun key count => same.mem_iff.trans (tallies.mem_iff key count)
  total := (same.map Prod.snd).sum_nat.trans tallies.total

theorem mostCommon (tallies : Tallies entries keys) :
    Tallies (Tally.mostCommon entries) keys :=
  tallies.perm (List.mergeSort_perm entries _)

/-- One entry for every gram that occurs. -/
theorem length_eq (tallies : Tallies entries keys) :
    entries.length = keys.dedup.length := by
  rw [← List.length_map Prod.fst]
  apply List.Perm.length_eq
  rw [List.perm_ext_iff_of_nodup tallies.nodup (List.nodup_dedup keys)]
  intro key
  rw [List.mem_dedup, List.mem_map]
  constructor
  · intro given
    obtain ⟨⟨_, count⟩, member, rfl⟩ := given
    obtain ⟨positive, isCount⟩ := (tallies.mem_iff _ _).mp member
    rw [isCount] at positive
    exact List.count_pos_iff.mp positive
  · intro member
    exact
      ⟨(key, keys.count key),
        (tallies.mem_iff _ _).mpr ⟨List.count_pos_iff.mpr member, rfl⟩, rfl⟩

omit [DecidableEq κ] in
/-- There are at most as many entries as codes for keys. -/
theorem length_le_card
    {β : Type} [Fintype β] (nodup : (entries.map Prod.fst).Nodup)
    {code : κ → β} (injective : Function.Injective code) :
    entries.length ≤ Fintype.card β := by
  rw [← List.length_map Prod.fst, ← List.length_map code]
  exact (nodup.map injective).length_le_card

end Tallies

end DnsFirewall.Tally
