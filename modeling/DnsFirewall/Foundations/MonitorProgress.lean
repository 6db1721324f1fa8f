import DnsFirewall.Foundations.Monitor
import Mathlib.Algebra.Order.BigOperators.Ring.Finset

/-!
# Progress behind a condition variable

Each step that a thread takes on its own brings it nearer to sleep, so that
the threads come to rest when nothing more arrives.  They rest with an empty
queue, unless every worker has ended.
-/

namespace DnsFirewall.Monitors

open Runs Totals

variable {ω : Type} [DecidableEq ω] [Fintype ω]

def Place.cost : Place → Nat
  | .busy => 4
  | .outside => 3
  | .testing => 2
  | .waiting => 1
  | .asleep | .ended => 0

def Producer.cost (workers : Nat) : Producer → Nat
  | .idle => 0
  | .outside => 3 * workers + 7
  | .inside => 3 * workers + 6
  | .signalling => 3 * workers + 2
  | .leaving => 1

namespace Monitor

variable {capacity : Nat} {s : Monitor ω}

/-- Every step of a thread on its own makes this less. -/
def cost (s : Monitor ω) : Nat :=
  3 * s.items.toNat + total Place.cost s.place +
    s.producer.cost (Fintype.card ω)

theorem cost_moved_lt
    {worker : ω} {next : Place} (holder : Option (Holder ω)) {items : Int}
    (less :
      3 * items.toNat + next.cost <
        3 * s.items.toNat + (s.place worker).cost) :
    (s.moved worker next holder items).cost < s.cost := by
  have sum := total_update Place.cost s.place worker next
  rw [cost, cost, place_moved]
  show 3 * items.toNat + _ + s.producer.cost _ < _
  omega

/-- The worker has no step of its own. -/
def Stuck (s : Monitor ω) (worker : ω) : Prop :=
  match s.place worker with
  | .outside => s.holder ≠ none
  | .asleep | .ended => True
  | _ => False

/-- The producer has no step of its own. -/
def ProducerStuck (s : Monitor ω) (woken : ω → Bool) : Prop :=
  match s.producer with
  | .idle => True
  | .outside => s.holder ≠ none
  | .signalling => ¬ Wakes s.sleeps woken
  | _ => False

omit [Fintype ω] in
theorem moved_ne
    {worker : ω} {next : Place} {holder : Option (Holder ω)} {items : Int}
    (different : next ≠ s.place worker) :
    s.moved worker next holder items ≠ s := by
  intro same
  apply different
  have place := congrFun (congrArg Monitor.place same) worker
  rw [place_moved, Function.update_self] at place
  exact place

omit [Fintype ω] in
theorem work_eq_iff (worker : ω) : s.work worker = s ↔ s.Stuck worker := by
  rw [work, Stuck]
  cases place : s.place worker with
  | outside =>
      by_cases free : s.holder = none
      · rw [if_pos free]
        exact
          iff_of_false (moved_ne (by rw [place]; decide)) fun held =>
            held free
      · rw [if_neg free]
        exact iff_of_true rfl free
  | testing =>
      simp only [iff_false]
      split
      · split
        · exact moved_ne (by rw [place]; decide)
        · exact moved_ne (by rw [place]; decide)
      · exact moved_ne (by rw [place]; decide)
  | waiting => exact iff_of_false (moved_ne (by rw [place]; decide)) id
  | asleep => exact iff_of_true rfl trivial
  | busy => exact iff_of_false (moved_ne (by rw [place]; decide)) id
  | ended => exact iff_of_true rfl trivial

omit [DecidableEq ω] in
theorem produce_eq_iff (woken : ω → Bool) :
    s.produce capacity woken = s ↔ s.ProducerStuck woken := by
  have moves : ∀ {t : Monitor ω}, t.producer ≠ s.producer → t ≠ s := by
    intro t different same
    exact different (congrArg Monitor.producer same)
  rw [produce, ProducerStuck]
  cases place : s.producer with
  | idle => exact iff_of_true rfl trivial
  | outside =>
      by_cases free : s.holder = none
      · rw [if_pos free]
        exact
          iff_of_false (moves (by rw [place]; simp)) fun held =>
            held free
      · rw [if_neg free]
        exact iff_of_true rfl free
  | inside =>
      simp only [iff_false]
      split
      · exact moves (by rw [place]; simp)
      · exact moves (by rw [place]; simp)
  | signalling =>
      by_cases wakes : Wakes s.sleeps woken
      · rw [if_pos wakes]
        exact
          iff_of_false (moves (by rw [place]; simp)) fun asleep =>
            asleep wakes
      · rw [if_neg wakes]
        exact iff_of_true rfl wakes
  | leaving => exact iff_of_false (moves (by rw [place]; simp)) id

theorem cost_work_lt
    (nonneg : 0 ≤ s.items) {worker : ω} (free : ¬ s.Stuck worker) :
    (s.work worker).cost < s.cost := by
  rw [Stuck] at free
  rw [work]
  cases place : s.place worker with
  | outside =>
      simp only [place, not_not] at free
      simp only
      rw [if_pos free]
      exact cost_moved_lt _ (by rw [place]; simp [Place.cost])
  | testing =>
      simp only
      split
      · split
        · exact cost_moved_lt _ (by rw [place]; simp [Place.cost])
        · exact cost_moved_lt _ (by rw [place]; simp [Place.cost])
      · refine cost_moved_lt _ ?_
        rw [place]
        simp only [Place.cost]
        omega
  | waiting => exact cost_moved_lt _ (by rw [place]; simp [Place.cost])
  | busy => exact cost_moved_lt _ (by rw [place]; simp [Place.cost])
  | asleep => exact absurd trivial (by rw [place] at free; exact free)
  | ended => exact absurd trivial (by rw [place] at free; exact free)

theorem cost_roused_le (woken : Bool) (place : Place) :
    (place.roused woken).cost ≤ place.cost + 3 := by
  cases place with
  | asleep => cases woken <;> decide
  | _ => exact Nat.le_add_right _ _

omit [DecidableEq ω] in
theorem cost_produce_lt
    (nonneg : 0 ≤ s.items) {woken : ω → Bool}
    (free : ¬ s.ProducerStuck woken) :
    (s.produce capacity woken).cost < s.cost := by
  rw [ProducerStuck] at free
  rw [produce]
  cases place : s.producer with
  | idle => exact absurd trivial (by rw [place] at free; exact free)
  | outside =>
      simp only [place, not_not] at free
      simp only
      rw [if_pos free]
      simp [cost, place, Producer.cost]
  | inside =>
      simp only
      split
      · simp only [cost, place, Producer.cost]
        omega
      · simp only [cost, place, Producer.cost]
        omega
  | signalling =>
      have roused :
          (total Place.cost fun worker =>
              (s.place worker).roused (woken worker)) ≤
            ∑ worker, ((s.place worker).cost + 3) := by
        exact
          Finset.sum_le_sum fun worker _ =>
            cost_roused_le (woken worker) (s.place worker)
      rw [Finset.sum_add_distrib, Finset.sum_const, Finset.card_univ,
        nsmul_eq_mul, Nat.cast_id] at roused
      simp only [place, not_not] at free
      simp only
      rw [if_pos free]
      simp only [cost, place, Producer.cost]
      rw [total] at roused ⊢
      rw [total]
      omega
  | leaving => simp [cost, place, Producer.cost]

/-- A thread takes a step of its own. -/
def Steps (s : Monitor ω) : Action ω → Prop
  | .produce woken => ¬ s.ProducerStuck woken
  | .work worker => ¬ s.Stuck worker
  | _ => False

theorem cost_step_lt
    (nonneg : 0 ≤ s.items) {action : Action ω} (steps : s.Steps action) :
    (s.step capacity action).cost < s.cost := by
  cases action with
  | produce woken => exact cost_produce_lt nonneg steps
  | work worker => exact cost_work_lt nonneg steps
  | arrive => exact steps.elim
  | wake worker => exact steps.elim
  | stop => exact steps.elim
  | broadcast => exact steps.elim

/-- On their own the threads come to rest. -/
theorem length_le_cost
    {actions : List (Action ω)} (sound : s.Sound capacity)
    (along : Along (step capacity) Steps s actions) :
    actions.length + (run (step capacity) s actions).cost ≤ s.cost := by
  induction actions generalizing s with
  | nil => exact (Nat.zero_add _).le
  | cons action actions inductionHypothesis =>
      obtain ⟨head, tail⟩ := along_cons_iff.mp along
      have less : (s.step capacity action).cost < s.cost :=
        cost_step_lt sound.items_nonneg head
      have rest := inductionHypothesis (sound_step sound action) tail
      rw [run_cons, List.length_cons]
      omega

omit [DecidableEq ω] in
theorem cost_le (sound : s.Sound capacity) :
    s.cost ≤ 3 * capacity + 7 * Fintype.card ω + 7 := by
  have most := sound.items_le
  have places :
      total Place.cost s.place ≤ ∑ worker : ω, 4 := by
    apply Finset.sum_le_sum
    intro worker _
    cases s.place worker <;> decide
  have producer :
      s.producer.cost (Fintype.card ω) ≤ 3 * Fintype.card ω + 7 := by
    cases s.producer <;> simp only [Producer.cost] <;> omega
  rw [Finset.sum_const, Finset.card_univ, nsmul_eq_mul, Nat.cast_id]
    at places
  rw [cost]
  omega

/-- No thread can step on its own. -/
structure Rests (s : Monitor ω) : Prop where
  producer : ∀ woken, s.ProducerStuck woken
  worker : ∀ worker, s.Stuck worker

omit [DecidableEq ω] [Fintype ω] in
theorem Rests.not_locked (rests : s.Rests) (worker : ω) :
    (s.place worker).locked = false := by
  have stuck := rests.worker worker
  rw [Stuck] at stuck
  cases place : s.place worker with
  | testing =>
      rw [place] at stuck
      exact stuck.elim
  | waiting =>
      rw [place] at stuck
      exact stuck.elim
  | _ => rfl

omit [DecidableEq ω] in
theorem Rests.producer_idle (rests : s.Rests) (sound : s.Sound capacity) :
    s.producer = .idle ∧ s.holder = none := by
  have stuck := rests.producer fun _ => true
  have wakes : Wakes s.sleeps fun _ => true :=
    fun ⟨worker, slept⟩ => ⟨worker, slept, rfl⟩
  have own := sound.producer_locked
  have free : s.producer.locked = false → s.holder = none := by
    intro unlocked
    cases held : s.holder with
    | none => rfl
    | some holder =>
        cases holder with
        | producer =>
            rw [own.mpr held] at unlocked
            cases unlocked
        | worker worker =>
            have isLocked := (sound.worker_locked worker).mpr held
            rw [rests.not_locked worker] at isLocked
            cases isLocked
  rw [ProducerStuck] at stuck
  cases place : s.producer with
  | idle => exact ⟨rfl, free (by rw [place]; rfl)⟩
  | outside =>
      rw [place] at stuck
      exact absurd (free (by rw [place]; rfl)) stuck
  | inside =>
      rw [place] at stuck
      exact stuck.elim
  | signalling =>
      rw [place] at stuck
      exact absurd wakes stuck
  | leaving =>
      rw [place] at stuck
      exact stuck.elim

omit [DecidableEq ω] in
theorem Rests.place
    (rests : s.Rests) (sound : s.Sound capacity) (worker : ω) :
    s.place worker = .asleep ∨ s.place worker = .ended := by
  have stuck := rests.worker worker
  obtain ⟨-, free⟩ := rests.producer_idle sound
  rw [Stuck] at stuck
  cases place : s.place worker with
  | outside =>
      rw [place] at stuck
      exact absurd free stuck
  | asleep => exact Or.inl rfl
  | ended => exact Or.inr rfl
  | _ =>
      rw [place] at stuck
      exact stuck.elim

omit [DecidableEq ω] in
/-- At rest the queue is empty, unless every worker has ended. -/
theorem Rests.items_eq_zero
    (rests : s.Rests) (sound : s.Sound capacity) :
    s.items = 0 ∨ ∀ worker, s.place worker = .ended := by
  by_cases sleeps : ∃ worker, s.place worker = .asleep
  · obtain ⟨worker, slept⟩ := sleeps
    have served := sound.served worker slept
    have nobody : total Place.awake s.place = 0 := by
      apply total_eq_zero
      intro other
      rcases rests.place sound other with asleep | ended
      · rw [asleep]
        rfl
      · rw [ended]
        rfl
    rw [nobody, (rests.producer_idle sound).1] at served
    exact Or.inl (le_antisymm served sound.items_nonneg)
  · right
    intro worker
    exact
      (rests.place sound worker).resolve_left fun slept =>
        sleeps ⟨worker, slept⟩

end Monitor

end DnsFirewall.Monitors
