import Mathlib.Algebra.BigOperators.Group.Finset.Piecewise
import Mathlib.Algebra.Order.BigOperators.Group.Finset
import Mathlib.Data.Fintype.Basic
import Mathlib.Logic.Function.Basic

/-!
# Totals over threads

Each thread is at a place, and each place has a weight.  When one thread goes
to another place, the total of the weights changes by its own.
-/

namespace DnsFirewall.Totals

variable {ω α : Type} [Fintype ω]

/-- The weights of the places of all threads. -/
def total (weight : α → Nat) (place : ω → α) : Nat :=
  ∑ thread, weight (place thread)

theorem total_update [DecidableEq ω]
    (weight : α → Nat) (place : ω → α) (thread : ω) (next : α) :
    total weight (Function.update place thread next) +
        weight (place thread) =
      total weight place + weight next := by
  have inside := Finset.mem_univ thread
  have rest :
      ∑ other ∈ Finset.univ.erase thread,
          weight (Function.update place thread next other) =
        ∑ other ∈ Finset.univ.erase thread, weight (place other) := by
    apply Finset.sum_congr rfl
    intro other isOther
    rw [Function.update_of_ne (Finset.ne_of_mem_erase isOther)]
  have after :=
    Finset.add_sum_erase _
      (fun other => weight (Function.update place thread next other)) inside
  have before :=
    Finset.add_sum_erase _ (fun other => weight (place other)) inside
  simp only [Function.update_self] at after
  rw [total, total]
  omega

/-- A sum in which one thread alone has a weight. -/
theorem total_eq_single
    {weight : α → Nat} {place : ω → α} (thread : ω)
    (zero : ∀ other, other ≠ thread → weight (place other) = 0) :
    total weight place = weight (place thread) :=
  Finset.sum_eq_single thread (fun other _ different => zero other different)
    fun outside => absurd (Finset.mem_univ thread) outside

theorem total_eq_zero
    {weight : α → Nat} {place : ω → α}
    (zero : ∀ thread, weight (place thread) = 0) :
    total weight place = 0 :=
  Finset.sum_eq_zero fun thread _ => zero thread

theorem total_le_card
    {weight : α → Nat} (light : ∀ place, weight place ≤ 1) (place : ω → α) :
    total weight place ≤ Fintype.card ω := by
  rw [← Finset.card_univ, Finset.card_eq_sum_ones]
  exact Finset.sum_le_sum fun thread _ => light (place thread)

end DnsFirewall.Totals
