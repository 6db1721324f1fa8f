import Mathlib.Data.Fintype.Card

/-!
# Occupied slots

How many slots of a table are occupied, and how filling, rewriting and
emptying one slot changes that number.
-/

namespace DnsFirewall.Occupancy

variable {n : Nat} {α : Type}

def occupied (slots : Fin n → Option α) : Finset (Fin n) :=
  Finset.univ.filter fun slot => (slots slot).isSome

theorem mem_occupied_iff {slots : Fin n → Option α} {slot : Fin n} :
    slot ∈ occupied slots ↔ ∃ entry, slots slot = some entry := by
  rw [occupied]
  rw [Finset.mem_filter, Option.isSome_iff_exists]
  simp only [Finset.mem_univ, true_and]

theorem not_mem_occupied_iff {slots : Fin n → Option α} {slot : Fin n} :
    slot ∉ occupied slots ↔ slots slot = none := by
  rw [mem_occupied_iff]
  cases slots slot with
  | none => simp
  | some entry => simp

theorem occupied_none : occupied (fun _ : Fin n => (none : Option α)) = ∅ := by
  apply Finset.eq_empty_of_forall_notMem
  intro slot
  exact not_mem_occupied_iff.mpr rfl

theorem occupied_update_some
    (slots : Fin n → Option α) (slot : Fin n) (entry : α) :
    occupied (Function.update slots slot (some entry)) =
      insert slot (occupied slots) := by
  ext other
  rw [Finset.mem_insert, mem_occupied_iff, mem_occupied_iff]
  by_cases here : other = slot
  · rw [here, Function.update_self]
    simp
  · rw [Function.update_of_ne here]
    simp only [here, false_or]

theorem occupied_update_none (slots : Fin n → Option α) (slot : Fin n) :
    occupied (Function.update slots slot none) =
      (occupied slots).erase slot := by
  ext other
  rw [Finset.mem_erase, mem_occupied_iff, mem_occupied_iff]
  by_cases here : other = slot
  · rw [here, Function.update_self]
    simp
  · rw [Function.update_of_ne here]
    simp only [ne_eq, here, not_false_eq_true, true_and]

theorem card_occupied_fill
    {slots : Fin n → Option α} {slot : Fin n} (entry : α)
    (unused : slots slot = none) :
    (occupied (Function.update slots slot (some entry))).card =
      (occupied slots).card + 1 := by
  rw [occupied_update_some]
  exact Finset.card_insert_of_notMem (not_mem_occupied_iff.mpr unused)

theorem card_occupied_overwrite
    {slots : Fin n → Option α} {slot : Fin n} {old : α} (entry : α)
    (used : slots slot = some old) :
    (occupied (Function.update slots slot (some entry))).card =
      (occupied slots).card := by
  rw [occupied_update_some,
    Finset.insert_eq_self.mpr (mem_occupied_iff.mpr ⟨old, used⟩)]

theorem card_occupied_empty
    {slots : Fin n → Option α} {slot : Fin n} {old : α}
    (used : slots slot = some old) :
    (occupied (Function.update slots slot none)).card =
      (occupied slots).card - 1 := by
  rw [occupied_update_none]
  exact Finset.card_erase_of_mem (mem_occupied_iff.mpr ⟨old, used⟩)

/-- Fewer slots are occupied than there are exactly when one is not. -/
theorem card_occupied_lt_iff {slots : Fin n → Option α} :
    (occupied slots).card < n ↔ ∃ slot, slots slot = none := by
  have size : (Finset.univ : Finset (Fin n)).card = n := Finset.card_fin n
  constructor
  · intro fewer
    by_contra none
    have all : occupied slots = Finset.univ := by
      apply Finset.eq_univ_of_forall
      intro slot
      by_contra notIn
      exact none ⟨slot, not_mem_occupied_iff.mp notIn⟩
    rw [all, size] at fewer
    omega
  · intro given
    obtain ⟨slot, unused⟩ := given
    have proper : occupied slots ⊂ Finset.univ := by
      refine ⟨Finset.subset_univ _, ?_⟩
      intro all
      exact
        not_mem_occupied_iff.mpr unused (all (Finset.mem_univ slot))
    have fewer := Finset.card_lt_card proper
    rwa [size] at fewer

end DnsFirewall.Occupancy
