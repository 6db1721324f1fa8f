import Mathlib.Data.List.Basic

/-!
# Runs

A run folds a step function over a list of operations.  A property that every
step preserves, under a condition on the state before the step, holds after
every run whose steps all meet the condition.
-/

namespace DnsFirewall.Runs

variable {σ α : Type} (step : σ → α → σ)

def run (start : σ) (operations : List α) : σ :=
  operations.foldl step start

@[simp]
theorem run_nil (start : σ) :
    run step start [] = start :=
  rfl

@[simp]
theorem run_cons (start : σ) (operation : α) (operations : List α) :
    run step start (operation :: operations) =
      run step (step start operation) operations :=
  rfl

theorem run_append (start : σ) (first second : List α) :
    run step start (first ++ second) =
      run step (run step start first) second :=
  List.foldl_append

/-- A view of the states that follows steps follows runs. -/
theorem view_run
    {τ : Type} {other : τ → α → τ} (view : σ → τ)
    (follows :
      ∀ state operation,
        view (step state operation) = other (view state) operation)
    (operations : List α) (start : σ) :
    view (run step start operations) =
      run other (view start) operations := by
  induction operations generalizing start with
  | nil => rfl
  | cons operation operations inductionHypothesis =>
      rw [run_cons, run_cons, inductionHypothesis, follows]

/-- Every step of the run meets the condition on its state and operation. -/
def Along (condition : σ → α → Prop) (start : σ)
    (operations : List α) : Prop :=
  ∀ before operation after,
    operations = before ++ operation :: after →
      condition (run step start before) operation

variable {step}

theorem along_nil {condition : σ → α → Prop} {start : σ} :
    Along step condition start [] := by
  intro before operation after shape
  simp at shape

theorem along_cons_iff
    {condition : σ → α → Prop} {start : σ} {operation : α}
    {operations : List α} :
    Along step condition start (operation :: operations) ↔
      condition start operation ∧
        Along step condition (step start operation) operations := by
  constructor
  · intro along
    refine ⟨along [] operation operations rfl, ?_⟩
    intro before later after shape
    exact along (operation :: before) later after (by rw [shape]; rfl)
  · rintro ⟨head, tail⟩ before later after shape
    cases before with
    | nil =>
        cases shape
        exact head
    | cons first before =>
        cases shape
        exact tail before later after rfl

instance decidableAlong
    {condition : σ → α → Prop}
    [∀ state operation, Decidable (condition state operation)]
    (start : σ) :
    ∀ operations, Decidable (Along step condition start operations)
  | [] => isTrue along_nil
  | operation :: operations =>
      have :
          Decidable
            (Along step condition (step start operation) operations) :=
        decidableAlong (step start operation) operations
      decidable_of_iff
        (condition start operation ∧
          Along step condition (step start operation) operations)
        along_cons_iff.symm

/-- What holds along a run holds along each of its beginnings. -/
theorem Along.beginning
    {condition : σ → α → Prop} {start : σ} {operations before after : List α}
    (along : Along step condition start operations)
    (shape : operations = before ++ after) :
    Along step condition start before := by
  intro front operation back frontShape
  apply along front operation (back ++ after)
  rw [shape, frontShape, List.append_assoc, List.cons_append]

theorem invariant_run
    {condition : σ → α → Prop} (invariant : σ → Prop)
    (preserved :
      ∀ state operation, invariant state → condition state operation →
        invariant (step state operation))
    {operations : List α} {start : σ} (holds : invariant start)
    (along : Along step condition start operations) :
    invariant (run step start operations) := by
  induction operations generalizing start with
  | nil => exact holds
  | cons operation operations inductionHypothesis =>
      obtain ⟨head, tail⟩ := along_cons_iff.mp along
      have next := preserved start operation holds head
      rw [run_cons]
      exact inductionHypothesis next tail

/-- What only some steps change is, after a run, as at its start or as the
last of these steps has left it. -/
theorem last_run
    {τ : Type} {marked : σ → α → Prop} (view : σ → τ)
    (unchanged :
      ∀ state operation, ¬ marked state operation →
        view (step state operation) = view state)
    (operations : List α) (start : σ) :
    Along step (fun state operation => ¬ marked state operation) start
          operations ∧
        view (run step start operations) = view start ∨
      ∃ before operation after,
        operations = before ++ operation :: after ∧
          marked (run step start before) operation ∧
            Along step (fun state operation => ¬ marked state operation)
                (run step start (before ++ [operation])) after ∧
              view (run step start operations) =
                view (run step start (before ++ [operation])) := by
  induction operations generalizing start with
  | nil => exact Or.inl ⟨along_nil, rfl⟩
  | cons operation operations inductionHypothesis =>
      rcases inductionHypothesis (step start operation) with
        ⟨none, same⟩ | ⟨before, later, after, shape, isMarked, none, same⟩
      · by_cases isMarked : marked start operation
        · exact
            Or.inr ⟨[], operation, operations, rfl, isMarked, none, same⟩
        · refine Or.inl ⟨along_cons_iff.mpr ⟨isMarked, none⟩, ?_⟩
          rw [run_cons, same, unchanged start operation isMarked]
      · refine
          Or.inr
            ⟨operation :: before, later, after, ?_, isMarked, none, same⟩
        rw [shape, List.cons_append]

/-! ## Own steps -/

/-- A measure that each operation of its own lowers, and no other raises, is
used up by as many of them, whatever the others do in between. -/
theorem exists_wanted
    {wanted invariant : σ → Prop} {measure : σ → Nat} {own : α → Bool}
    (positive : ∀ state, invariant state → ¬ wanted state →
      0 < measure state)
    (lower :
      ∀ state operation, invariant state → ¬ wanted state →
        wanted (step state operation) ∨
          invariant (step state operation) ∧
            measure (step state operation) +
                (if own operation = true then 1 else 0) ≤
              measure state)
    {operations : List α} {start : σ} (holds : invariant start)
    (enough : measure start ≤ operations.countP own) :
    ∃ before after, operations = before ++ after ∧
      wanted (run step start before) := by
  induction operations generalizing start with
  | nil =>
      refine ⟨[], [], rfl, ?_⟩
      by_contra notYet
      exact absurd (positive start holds notYet) (Nat.not_lt.mpr enough)
  | cons operation operations inductionHypothesis =>
      by_cases already : wanted start
      · exact ⟨[], operation :: operations, rfl, already⟩
      · rcases lower start operation holds already with
          done | ⟨still, fewer⟩
        · exact ⟨[operation], operations, rfl, done⟩
        · rw [List.countP_cons] at enough
          obtain ⟨before, after, shape, reached⟩ :=
            inductionHypothesis still (by omega)
          refine ⟨operation :: before, after, ?_, reached⟩
          rw [shape, List.cons_append]

end DnsFirewall.Runs
