import Mathlib.Algebra.Order.BigOperators.Group.List
import Mathlib.Analysis.SpecialFunctions.Log.Base

/-!
# Entropy of counts

The Shannon entropy, to a given base, of how often each of some things occurs.
It is not negative, and it is zero exactly when no more than one of them
occurs.
-/

namespace DnsFirewall.Entropy

/-- What a thing that occurs `count` times in `whole` adds to the entropy. -/
noncomputable def surprisal (base : ℝ) (whole count : Nat) : ℝ :=
  -((count / whole : ℝ) * Real.logb base (count / whole))

noncomputable def entropy (base : ℝ) (whole : Nat) (counts : List Nat) :
    ℝ :=
  (counts.map (surprisal base whole)).sum

theorem surprisal_zero (base : ℝ) (whole : Nat) :
    surprisal base whole 0 = 0 := by
  simp [surprisal]

theorem surprisal_self (base : ℝ) (whole : Nat) :
    surprisal base whole whole = 0 := by
  cases whole with
  | zero => exact surprisal_zero base 0
  | succ whole =>
      have one : ((whole + 1 : Nat) : ℝ) / (whole + 1 : Nat) = 1 :=
        div_self (Nat.cast_ne_zero.mpr (Nat.succ_ne_zero whole))
      rw [surprisal, one, Real.logb_one, mul_zero, neg_zero]

theorem surprisal_pos
    {base : ℝ} (large : 1 < base) {whole count : Nat}
    (positive : 0 < count) (partly : count < whole) :
    0 < surprisal base whole count := by
  have wholePositive : (0 : ℝ) < whole :=
    Nat.cast_pos.mpr (Nat.lt_trans positive partly)
  have share : (0 : ℝ) < count / whole :=
    div_pos (Nat.cast_pos.mpr positive) wholePositive
  have below : (count : ℝ) / whole < 1 :=
    (div_lt_one wholePositive).mpr (Nat.cast_lt.mpr partly)
  have negative : Real.logb base (count / whole) < 0 :=
    Real.logb_neg large share below
  rw [surprisal, neg_pos]
  exact mul_neg_of_pos_of_neg share negative

theorem surprisal_eq_zero_iff
    {base : ℝ} (large : 1 < base) {whole count : Nat}
    (bounded : count ≤ whole) :
    surprisal base whole count = 0 ↔ count = 0 ∨ count = whole := by
  constructor
  · intro zero
    by_contra inner
    rw [not_or] at inner
    have positive :=
      surprisal_pos large (Nat.pos_of_ne_zero inner.1)
        (Nat.lt_of_le_of_ne bounded inner.2)
    exact absurd zero positive.ne'
  · intro given
    rcases given with none | all
    · rw [none, surprisal_zero]
    · rw [all, surprisal_self]

theorem surprisal_nonneg
    {base : ℝ} (large : 1 < base) {whole count : Nat}
    (bounded : count ≤ whole) :
    0 ≤ surprisal base whole count := by
  by_cases edge : count = 0 ∨ count = whole
  · exact ((surprisal_eq_zero_iff large bounded).mpr edge).ge
  · rw [not_or] at edge
    exact
      (surprisal_pos large (Nat.pos_of_ne_zero edge.1)
        (Nat.lt_of_le_of_ne bounded edge.2)).le

theorem entropy_cons
    (base : ℝ) (whole count : Nat) (counts : List Nat) :
    entropy base whole (count :: counts) =
      surprisal base whole count + entropy base whole counts := by
  rw [entropy, List.map_cons, List.sum_cons, entropy]

theorem entropy_nonneg
    {base : ℝ} (large : 1 < base) {whole : Nat} {counts : List Nat}
    (bounded : ∀ count, count ∈ counts → count ≤ whole) :
    0 ≤ entropy base whole counts := by
  apply List.sum_nonneg
  intro term member
  obtain ⟨count, isCount, rfl⟩ := List.mem_map.mp member
  exact surprisal_nonneg large (bounded count isCount)

theorem entropy_eq_zero_iff
    {base : ℝ} (large : 1 < base) {whole : Nat} {counts : List Nat}
    (bounded : ∀ count, count ∈ counts → count ≤ whole) :
    entropy base whole counts = 0 ↔
      ∀ count, count ∈ counts → count = 0 ∨ count = whole := by
  induction counts with
  | nil => simp [entropy]
  | cons count counts inductionHypothesis =>
      have here := bounded count List.mem_cons_self
      have later : ∀ other, other ∈ counts → other ≤ whole :=
        fun other member =>
          bounded other (List.mem_cons_of_mem count member)
      rw [entropy_cons, List.forall_mem_cons,
        ← inductionHypothesis later, ← surprisal_eq_zero_iff large here]
      exact
        add_eq_zero_iff_of_nonneg (surprisal_nonneg large here)
          (entropy_nonneg large later)

end DnsFirewall.Entropy
