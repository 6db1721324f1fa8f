import Mathlib.Data.List.Basic

/-!
# Unwinding

A machine serves the operations of several parties.  When the operations of the
others leave the view of one party alone, and its own operations answer and act
by its view only, then what it is answered along a run does not depend on the
operations of the others.
-/

namespace DnsFirewall.Unwinding

variable {σ α ω ν : Type}

/-- The unwinding conditions for the party whose operations are `mine` and
which sees the state through `view`. -/
structure Unwinds (step : σ → α → σ) (answer : σ → α → ω)
    (mine : α → Bool) (view : σ → ν) : Prop where
  others :
    ∀ state operation, mine operation = false →
      view (step state operation) = view state
  answers :
    ∀ first second operation, mine operation = true →
      view first = view second →
        answer first operation = answer second operation
  steps :
    ∀ first second operation, mine operation = true →
      view first = view second →
        view (step first operation) = view (step second operation)

/-- What the party is answered along a run. -/
def answersOf (step : σ → α → σ) (answer : σ → α → ω) (mine : α → Bool) :
    σ → List α → List ω
  | _, [] => []
  | state, operation :: later =>
      if mine operation then
        answer state operation ::
          answersOf step answer mine (step state operation) later
      else
        answersOf step answer mine (step state operation) later

variable {step : σ → α → σ} {answer : σ → α → ω} {mine : α → Bool}

theorem answersOf_cons_mine
    {state : σ} {operation : α} (isMine : mine operation = true)
    (later : List α) :
    answersOf step answer mine state (operation :: later) =
      answer state operation ::
        answersOf step answer mine (step state operation) later := by
  rw [answersOf, if_pos isMine]

theorem answersOf_cons_other
    {state : σ} {operation : α} (isOther : mine operation = false)
    (later : List α) :
    answersOf step answer mine state (operation :: later) =
      answersOf step answer mine (step state operation) later := by
  rw [answersOf, isOther]
  exact if_neg Bool.false_ne_true

variable {view : σ → ν}

/-- The answers along a run are those along its operations of the party. -/
theorem answersOf_filter
    (unwinds : Unwinds step answer mine view) (operations : List α)
    {first second : σ} (alike : view first = view second) :
    answersOf step answer mine first operations =
      answersOf step answer mine second (operations.filter mine) := by
  induction operations generalizing first second with
  | nil => rfl
  | cons operation later inductionHypothesis =>
      cases isMine : mine operation with
      | true =>
          have answered :=
            unwinds.answers first second operation isMine alike
          have stepped :=
            unwinds.steps first second operation isMine alike
          rw [List.filter_cons_of_pos isMine,
            answersOf_cons_mine isMine, answersOf_cons_mine isMine,
            answered, inductionHypothesis stepped]
      | false =>
          have kept : view (step first operation) = view second :=
            (unwinds.others first operation isMine).trans alike
          have skipped : ¬ mine operation = true := by
            rw [isMine]
            exact Bool.false_ne_true
          rw [List.filter_cons_of_neg skipped,
            answersOf_cons_other isMine]
          exact inductionHypothesis kept

/-- Two runs with the same operations of the party give it the same
answers. -/
theorem answersOf_eq
    (unwinds : Unwinds step answer mine view) {first second : σ}
    (alike : view first = view second) {operations others : List α}
    (same : operations.filter mine = others.filter mine) :
    answersOf step answer mine first operations =
      answersOf step answer mine second others := by
  have left := answersOf_filter unwinds operations alike
  have right :=
    @answersOf_filter _ _ _ _ _ _ _ _ unwinds others second second rfl
  rw [left, right, same]

end DnsFirewall.Unwinding
