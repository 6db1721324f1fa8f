import DnsFirewall.Foundations.Runs
import DnsFirewall.Foundations.Totals
import Mathlib.Data.Nat.Cast.Order.Basic
import Mathlib.Logic.Function.Basic

/-!
# A queue behind a mutex and a condition variable

One producer puts items into a bounded queue and signals; any number of
workers take them and sleep on the condition while the queue is empty.  The
queue is read and written by the holder of the mutex alone, but the flag that
ends the service is cleared, and the sleepers are then woken, without it.
-/

namespace DnsFirewall.Monitors

open Runs Totals

/-- Where a worker is: in front of the lock, behind it with the test next,
behind it and about to wait, asleep, at work on an item, or gone. -/
inductive Place where
  | outside
  | testing
  | waiting
  | asleep
  | busy
  | ended
deriving DecidableEq, Repr

/-- Where the producer is: without an item, in front of the lock, behind it,
about to signal, and about to unlock. -/
inductive Producer where
  | idle
  | outside
  | inside
  | signalling
  | leaving
deriving DecidableEq, Repr

inductive Holder (ω : Type) where
  | producer
  | worker (worker : ω)
deriving DecidableEq, Repr

structure Monitor (ω : Type) where
  items : Int
  running : Bool
  broadcasted : Bool
  holder : Option (Holder ω)
  producer : Producer
  place : ω → Place

/-- The next step of a thread, the choice of who is woken by a signal, and a
wakeup without a signal. -/
inductive Action (ω : Type) where
  | arrive
  | produce (woken : ω → Bool)
  | work (worker : ω)
  | wake (worker : ω)
  | stop
  | broadcast

/-- What a signal and a broadcast do to a sleeper. -/
def Place.roused (woken : Bool) : Place → Place
  | .asleep => if woken = true then .outside else .asleep
  | place => place

variable {ω : Type}

theorem le_roused
    {weight : Place → Nat} (grows : weight .asleep < weight .outside)
    (place : Place) (woken : Bool) :
    weight place ≤ weight (place.roused woken) := by
  cases place with
  | asleep =>
      cases woken with
      | true => exact grows.le
      | false => exact le_refl _
  | outside => exact le_refl _
  | testing => exact le_refl _
  | waiting => exact le_refl _
  | busy => exact le_refl _
  | ended => exact le_refl _

/-- A total grows where a signal wakes somebody into a greater weight. -/
theorem total_roused [Fintype ω]
    {weight : Place → Nat} (grows : weight .asleep < weight .outside)
    {place : ω → Place} {woken : ω → Bool} {worker : ω}
    (slept : place worker = .asleep) (isWoken : woken worker = true) :
    total weight place + 1 ≤
      total weight fun other => (place other).roused (woken other) := by
  apply Nat.succ_le_of_lt
  apply Finset.sum_lt_sum
  · intro other _
    exact le_roused grows (place other) (woken other)
  · refine ⟨worker, Finset.mem_univ worker, ?_⟩
    simp only [slept, isWoken]
    exact grows


variable [DecidableEq ω] [Fintype ω]

/-- A signal wakes somebody if anybody sleeps. -/
def Wakes (place woken : ω → Bool) : Prop :=
  (∃ worker, place worker = true) →
    ∃ worker, place worker = true ∧ woken worker = true

instance (place woken : ω → Bool) : Decidable (Wakes place woken) :=
  inferInstanceAs (Decidable (_ → _))

namespace Monitor

def moved (s : Monitor ω) (worker : ω) (next : Place)
    (holder : Option (Holder ω)) (items : Int) : Monitor ω :=
  { s with place := Function.update s.place worker next, holder, items }

def sleeps (s : Monitor ω) (worker : ω) : Bool :=
  s.place worker = .asleep

def produce (capacity : Nat) (s : Monitor ω) (woken : ω → Bool) :
    Monitor ω :=
  match s.producer with
  | .idle => s
  | .outside =>
      if s.holder = none then
        { s with holder := some .producer, producer := .inside }
      else s
  | .inside =>
      if s.items < capacity then
        { s with items := s.items + 1, producer := .signalling }
      else
        { s with producer := .leaving }
  | .signalling =>
      if Wakes s.sleeps woken then
        { s with
          place := fun worker => (s.place worker).roused (woken worker)
          producer := .leaving }
      else s
  | .leaving => { s with holder := none, producer := .idle }

def work (s : Monitor ω) (worker : ω) : Monitor ω :=
  match s.place worker with
  | .outside =>
      if s.holder = none then
        s.moved worker .testing (some (.worker worker)) s.items
      else s
  | .testing =>
      if s.items = 0 then
        if s.running = true then s.moved worker .waiting s.holder s.items
        else s.moved worker .ended none s.items
      else s.moved worker .busy none (s.items - 1)
  | .waiting => s.moved worker .asleep none s.items
  | .asleep => s
  | .busy => s.moved worker .outside s.holder s.items
  | .ended => s

def step (capacity : Nat) (s : Monitor ω) : Action ω → Monitor ω
  | .arrive =>
      match s.producer with
      | .idle => { s with producer := .outside }
      | _ => s
  | .produce woken => s.produce capacity woken
  | .work worker => s.work worker
  | .wake worker =>
      match s.place worker with
      | .asleep => s.moved worker .outside s.holder s.items
      | _ => s
  | .stop => { s with running := false }
  | .broadcast =>
      if s.running = true then s
      else
        { s with
          broadcasted := true
          place := fun worker => (s.place worker).roused true }

end Monitor

def start (ω : Type) : Monitor ω where
  items := 0
  running := true
  broadcasted := false
  holder := none
  producer := .idle
  place := fun _ => .outside

/-! ## The invariant -/

def Place.locked : Place → Bool
  | .testing | .waiting => true
  | _ => false

def Producer.locked : Producer → Bool
  | .inside | .signalling | .leaving => true
  | _ => false

/-- The weight of a worker that will test the queue of its own accord. -/
def Place.awake : Place → Nat
  | .outside | .testing => 1
  | _ => 0

/-- The weight of a worker that sleeps or has decided to. -/
def Place.drowsy : Place → Nat
  | .waiting | .asleep => 1
  | _ => 0

def Producer.signals : Producer → Nat
  | .signalling => 1
  | _ => 0

namespace Monitor

/-- One thread is behind the lock; while somebody sleeps, each item has a
worker that will come for it or a signal on its way; and at most one worker
misses the broadcast. -/
structure Sound (capacity : Nat) (s : Monitor ω) : Prop where
  items_nonneg : 0 ≤ s.items
  items_le : s.items ≤ capacity
  producer_locked :
    s.producer.locked = true ↔ s.holder = some .producer
  worker_locked :
    ∀ worker,
      (s.place worker).locked = true ↔ s.holder = some (.worker worker)
  waiting_empty : ∀ worker, s.place worker = .waiting → s.items = 0
  served :
    ∀ worker, s.place worker = .asleep →
      s.items ≤ total Place.awake s.place + s.producer.signals
  ended_stopped : ∀ worker, s.place worker = .ended → s.running = false
  broadcasted_stopped : s.broadcasted = true → s.running = false
  late : s.broadcasted = true → total Place.drowsy s.place ≤ 1

variable {capacity : Nat} {s : Monitor ω}

omit [DecidableEq ω] in
theorem sound_start : (start ω).Sound capacity where
  items_nonneg := le_refl _
  items_le := Int.natCast_nonneg capacity
  producer_locked := by simp [start, Producer.locked]
  worker_locked := fun worker => by simp [start, Place.locked]
  waiting_empty := fun _ _ => rfl
  served := fun _ slept => by cases slept
  ended_stopped := fun _ ended => by cases ended
  broadcasted_stopped := fun broadcasted => by cases broadcasted
  late := fun broadcasted => by cases broadcasted

omit [DecidableEq ω] in
/-- Only one worker is behind the lock. -/
theorem Sound.locked_unique
    (sound : s.Sound capacity) {first second : ω}
    (firstLocked : (s.place first).locked = true)
    (secondLocked : (s.place second).locked = true) :
    first = second := by
  have holds := (sound.worker_locked first).mp firstLocked
  rw [(sound.worker_locked second).mp secondLocked] at holds
  cases holds
  rfl

/-- How a worker's step may change the holder of the mutex. -/
inductive Locks (s : Monitor ω) (worker : ω) (next : Place) :
    Option (Holder ω) → Prop where
  | takes :
      s.holder = none → next.locked = true →
        Locks s worker next (some (.worker worker))
  | keeps :
      (s.place worker).locked = next.locked → Locks s worker next s.holder
  | drops :
      (s.place worker).locked = true → next.locked = false →
        Locks s worker next none

/-- What a step of one worker keeps when it takes the place `next`. -/
structure Moves (s : Monitor ω) (worker : ω) (next : Place)
    (holder : Option (Holder ω)) (items : Int) : Prop where
  locks : Locks s worker next holder
  nonneg : 0 ≤ items
  le : items ≤ s.items
  emptied : items = s.items ∨ (s.place worker).locked = true
  waiting_empty : next = .waiting → items = 0
  served :
    items = 0 ∨
      items + (s.place worker).awake ≤ s.items + next.awake ∧
        next ≠ .asleep
  ended_stopped : next = .ended → s.running = false
  late : next.drowsy ≤ (s.place worker).drowsy ∨ s.running = true

theorem Locks.locked
    {worker : ω} {next : Place} {holder : Option (Holder ω)}
    (locks : Locks s worker next holder) (sound : s.Sound capacity) :
    (s.producer.locked = true ↔ holder = some .producer) ∧
      ∀ other,
        (Function.update s.place worker next other).locked = true ↔
          holder = some (.worker other) := by
  have producerLocked := sound.producer_locked
  have own := sound.worker_locked worker
  refine ⟨?_, fun other => ?_⟩
  · cases locks with
    | takes free isLocked => simpa [free] using producerLocked
    | keeps same => exact producerLocked
    | drops wasLocked isFree =>
        rw [own.mp wasLocked] at producerLocked
        simpa using producerLocked
  · have before := sound.worker_locked other
    by_cases same : other = worker
    · subst same
      rw [Function.update_self]
      cases locks with
      | takes free isLocked => simpa using isLocked
      | keeps same => rw [← same, own]
      | drops wasLocked isFree => simp [isFree]
    · rw [Function.update_of_ne same]
      cases locks with
      | takes free isLocked =>
          rw [free] at before
          simpa [Ne.symm same] using before
      | keeps same => exact before
      | drops wasLocked isFree =>
          rw [own.mp wasLocked] at before
          simpa [Ne.symm same] using before

omit [Fintype ω] in
theorem place_moved
    (s : Monitor ω) (worker : ω) (next : Place)
    (holder : Option (Holder ω)) (items : Int) :
    (s.moved worker next holder items).place =
      Function.update s.place worker next :=
  rfl

theorem Moves.sound
    {worker : ω} {next : Place} {holder : Option (Holder ω)} {items : Int}
    (moves : Moves s worker next holder items) (sound : s.Sound capacity) :
    (s.moved worker next holder items).Sound capacity where
  items_nonneg := moves.nonneg
  items_le := le_trans moves.le sound.items_le
  producer_locked := (moves.locks.locked sound).1
  worker_locked := (moves.locks.locked sound).2
  waiting_empty := by
    intro other waits
    by_cases same : other = worker
    · subst same
      rw [place_moved, Function.update_self] at waits
      exact moves.waiting_empty waits
    · rw [place_moved, Function.update_of_ne same] at waits
      have empty := sound.waiting_empty other waits
      rcases moves.emptied with kept | isLocked
      · exact kept.trans empty
      · have otherLocked : (s.place other).locked = true := by
          rw [waits]
          rfl
        exact absurd (sound.locked_unique otherLocked isLocked) same
  served := by
    intro other slept
    have sum := total_update Place.awake s.place worker next
    rw [place_moved] at slept ⊢
    show items ≤ _ + (s.producer.signals : Int)
    rcases moves.served with empty | ⟨balance, awake⟩
    · omega
    · by_cases same : other = worker
      · subst same
        rw [Function.update_self] at slept
        exact absurd slept awake
      · rw [Function.update_of_ne same] at slept
        have before := sound.served other slept
        omega
  ended_stopped := by
    intro other ended
    by_cases same : other = worker
    · subst same
      rw [place_moved, Function.update_self] at ended
      exact moves.ended_stopped ended
    · rw [place_moved, Function.update_of_ne same] at ended
      exact sound.ended_stopped other ended
  broadcasted_stopped := sound.broadcasted_stopped
  late := by
    intro broadcasted
    have before := sound.late broadcasted
    have stopped := sound.broadcasted_stopped broadcasted
    have sum := total_update Place.drowsy s.place worker next
    rw [place_moved]
    rcases moves.late with lighter | runs
    · omega
    · rw [stopped] at runs
      cases runs

/-! ## The steps -/

theorem sound_work (sound : s.Sound capacity) (worker : ω) :
    (s.work worker).Sound capacity := by
  rw [work]
  cases place : s.place worker with
  | outside =>
      simp only
      split
      · rename_i free
        have moves :
            Moves s worker .testing (some (.worker worker)) s.items := by
          constructor
          case locks => exact .takes free rfl
          case nonneg => exact sound.items_nonneg
          case le => exact le_refl _
          case emptied => exact Or.inl rfl
          case waiting_empty => exact nofun
          case served => simp [place, Place.awake]
          case ended_stopped => exact nofun
          case late => simp [place, Place.drowsy]
        exact moves.sound sound
      · exact sound
  | testing =>
      have isLocked : (s.place worker).locked = true := by
        rw [place]
        rfl
      simp only
      split
      · rename_i empty
        split
        · rename_i runs
          have moves : Moves s worker .waiting s.holder s.items := by
            constructor
            case locks => exact .keeps isLocked
            case nonneg => exact sound.items_nonneg
            case le => exact le_refl _
            case emptied => exact Or.inl rfl
            case waiting_empty => exact fun _ => empty
            case served => exact Or.inl empty
            case ended_stopped => exact nofun
            case late => exact Or.inr runs
          exact moves.sound sound
        · rename_i stopped
          have moves : Moves s worker .ended none s.items := by
            constructor
            case locks => exact .drops isLocked rfl
            case nonneg => exact sound.items_nonneg
            case le => exact le_refl _
            case emptied => exact Or.inl rfl
            case waiting_empty => exact nofun
            case served => exact Or.inl empty
            case ended_stopped => simpa using stopped
            case late => simp [place, Place.drowsy]
          exact moves.sound sound
      · rename_i filled
        have nonneg := sound.items_nonneg
        have moves : Moves s worker .busy none (s.items - 1) := by
          constructor
          case locks => exact .drops isLocked rfl
          case nonneg => omega
          case le => omega
          case emptied => exact Or.inr isLocked
          case waiting_empty => exact nofun
          case served => simp [place, Place.awake]
          case ended_stopped => exact nofun
          case late => simp [place, Place.drowsy]
        exact moves.sound sound
  | waiting =>
      have empty := sound.waiting_empty worker place
      have moves : Moves s worker .asleep none s.items := by
        constructor
        case locks => exact .drops (by rw [place]; rfl) rfl
        case nonneg => exact sound.items_nonneg
        case le => exact le_refl _
        case emptied => exact Or.inl rfl
        case waiting_empty => exact nofun
        case served => exact Or.inl empty
        case ended_stopped => exact nofun
        case late => simp [place, Place.drowsy]
      exact moves.sound sound
  | asleep => exact sound
  | busy =>
      have moves : Moves s worker .outside s.holder s.items := by
        constructor
        case locks => exact .keeps (by rw [place]; rfl)
        case nonneg => exact sound.items_nonneg
        case le => exact le_refl _
        case emptied => exact Or.inl rfl
        case waiting_empty => exact nofun
        case served => simp [place, Place.awake]
        case ended_stopped => exact nofun
        case late => simp [place, Place.drowsy]
      exact moves.sound sound
  | ended => exact sound

theorem sound_wake (sound : s.Sound capacity) {worker : ω}
    (place : s.place worker = .asleep) :
    (s.moved worker .outside s.holder s.items).Sound capacity := by
  have moves : Moves s worker .outside s.holder s.items := by
    constructor
    case locks => exact .keeps (by rw [place]; rfl)
    case nonneg => exact sound.items_nonneg
    case le => exact le_refl _
    case emptied => exact Or.inl rfl
    case waiting_empty => exact nofun
    case served => simp [place, Place.awake]
    case ended_stopped => exact nofun
    case late => simp [place, Place.drowsy]
  exact moves.sound sound

omit [DecidableEq ω] in
/-- A step of the producer alone, which leaves the workers where they are. -/
theorem sound_produced
    (sound : s.Sound capacity) {next : Producer}
    {holder : Option (Holder ω)} {items : Int}
    (own : next.locked = true ↔ holder = some .producer)
    (others : ∀ worker,
      holder = some (.worker worker) ↔ s.holder = some (.worker worker))
    (nonneg : 0 ≤ items) (le : items ≤ capacity)
    (kept : items = s.items ∨ s.holder = some .producer)
    (served :
      items + s.producer.signals ≤ s.items + next.signals) :
    Sound capacity { s with producer := next, holder, items } where
  items_nonneg := nonneg
  items_le := le
  producer_locked := own
  worker_locked := fun worker =>
    (sound.worker_locked worker).trans (others worker).symm
  waiting_empty := by
    intro worker waits
    have empty := sound.waiting_empty worker waits
    rcases kept with same | held
    · exact same.trans empty
    · have isLocked : (s.place worker).locked = true := by
        rw [show s.place worker = .waiting from waits]
        rfl
      have holds := (sound.worker_locked worker).mp isLocked
      rw [held] at holds
      cases holds
  served := by
    intro worker slept
    have before := sound.served worker slept
    show items ≤ total Place.awake s.place + (next.signals : Int)
    omega
  ended_stopped := sound.ended_stopped
  broadcasted_stopped := sound.broadcasted_stopped
  late := sound.late

theorem locked_roused (woken : Bool) (place : Place) :
    (place.roused woken).locked = place.locked := by
  cases place with
  | asleep => cases woken <;> rfl
  | _ => rfl

theorem eq_of_roused
    {woken : Bool} {place next : Place} (roused : place.roused woken = next)
    (elsewhere : next ≠ .outside) :
    place = next := by
  cases place with
  | asleep =>
      cases woken with
      | true => exact absurd roused.symm elsewhere
      | false => exact roused
  | _ => exact roused

theorem drowsy_roused_le (woken : Bool) (place : Place) :
    (place.roused woken).drowsy ≤ place.drowsy := by
  cases place with
  | asleep => cases woken <;> decide
  | _ => exact le_refl _

omit [DecidableEq ω] in
/-- A signal reaches a sleeper. -/
theorem sound_signal
    (sound : s.Sound capacity) (signals : s.producer = .signalling)
    {woken : ω → Bool} (wakes : Wakes s.sleeps woken) :
    Sound capacity
      { s with
        place := fun worker => (s.place worker).roused (woken worker)
        producer := .leaving } where
  items_nonneg := sound.items_nonneg
  items_le := sound.items_le
  producer_locked := by
    have own := sound.producer_locked
    rw [signals] at own
    exact own
  worker_locked := by
    intro worker
    rw [locked_roused]
    exact sound.worker_locked worker
  waiting_empty := fun worker waits =>
    sound.waiting_empty worker (eq_of_roused waits nofun)
  served := by
    intro worker slept
    have sleeps : s.place worker = .asleep := eq_of_roused slept nofun
    obtain ⟨other, otherSlept, isWoken⟩ :=
      wakes ⟨worker, decide_eq_true sleeps⟩
    have more :=
      @total_roused ω _ Place.awake (by decide) s.place woken other
        (of_decide_eq_true otherSlept) isWoken
    have before := sound.served worker sleeps
    rw [signals] at before
    simp only [Producer.signals] at before ⊢
    omega
  ended_stopped := fun worker ended =>
    sound.ended_stopped worker (eq_of_roused ended nofun)
  broadcasted_stopped := sound.broadcasted_stopped
  late := by
    intro broadcasted
    have fewer :
        (total Place.drowsy fun worker =>
            (s.place worker).roused (woken worker)) ≤
          total Place.drowsy s.place :=
      Finset.sum_le_sum fun worker _ => drowsy_roused_le _ _
    exact le_trans fewer (sound.late broadcasted)

omit [DecidableEq ω] in
/-- Behind the broadcast nobody sleeps, but one worker may be about to. -/
theorem sound_broadcast
    (sound : s.Sound capacity) (stopped : s.running = false) :
    Sound capacity
      { s with
        broadcasted := true
        place := fun worker => (s.place worker).roused true } where
  items_nonneg := sound.items_nonneg
  items_le := sound.items_le
  producer_locked := sound.producer_locked
  worker_locked := by
    intro worker
    rw [locked_roused]
    exact sound.worker_locked worker
  waiting_empty := fun worker waits =>
    sound.waiting_empty worker (eq_of_roused waits nofun)
  served := by
    intro worker slept
    have sleeps : s.place worker = .asleep := eq_of_roused slept nofun
    simp only [sleeps] at slept
    cases slept
  ended_stopped := fun _ _ => stopped
  broadcasted_stopped := fun _ => stopped
  late := by
    intro _
    by_cases late : ∃ worker, s.place worker = .waiting
    · obtain ⟨worker, waits⟩ := late
      have isLocked : (s.place worker).locked = true := by
        rw [waits]
        rfl
      have alone :
          (total Place.drowsy fun other => (s.place other).roused true) =
            ((s.place worker).roused true).drowsy := by
        apply total_eq_single worker
        intro other different
        cases place : s.place other with
        | waiting =>
            have otherLocked : (s.place other).locked = true := by
              rw [place]
              rfl
            exact
              absurd (sound.locked_unique otherLocked isLocked) different
        | _ => rfl
      rw [alone, waits]
      decide
    · have nobody :
          (total Place.drowsy fun worker =>
            (s.place worker).roused true) = 0 := by
        apply total_eq_zero
        intro worker
        cases place : s.place worker with
        | waiting => exact absurd ⟨worker, place⟩ late
        | _ => rfl
      rw [nobody]
      exact Nat.zero_le 1

omit [DecidableEq ω] in
theorem sound_produce (sound : s.Sound capacity) (woken : ω → Bool) :
    (s.produce capacity woken).Sound capacity := by
  have own := sound.producer_locked
  rw [produce]
  cases place : s.producer with
  | idle => exact sound
  | outside =>
      simp only
      split
      · rename_i free
        exact
          sound_produced sound (by simp [Producer.locked])
            (fun worker => by simp [free]) sound.items_nonneg sound.items_le
            (Or.inl rfl) (by simp [place, Producer.signals])
      · exact sound
  | inside =>
      rw [place] at own
      have held : s.holder = some .producer := own.mp rfl
      have nonneg := sound.items_nonneg
      simp only
      split
      · rename_i room
        exact
          sound_produced sound (by simp [Producer.locked, held])
            (fun worker => Iff.rfl) (by omega) (by omega)
            (Or.inr held) (by simp [place, Producer.signals])
      · exact
          sound_produced sound (by simp [Producer.locked, held])
            (fun worker => Iff.rfl) nonneg sound.items_le
            (Or.inl rfl) (by simp [place, Producer.signals])
  | signalling =>
      simp only
      split
      · rename_i wakes
        exact sound_signal sound place wakes
      · exact sound
  | leaving =>
      rw [place] at own
      have held : s.holder = some .producer := own.mp rfl
      exact
        sound_produced sound (by simp [Producer.locked])
          (fun worker => by simp [held]) sound.items_nonneg sound.items_le
          (Or.inl rfl) (by simp [place, Producer.signals])

theorem sound_step (sound : s.Sound capacity) (action : Action ω) :
    (s.step capacity action).Sound capacity := by
  cases action with
  | arrive =>
      rw [step]
      split
      · rename_i idle
        have own := sound.producer_locked
        rw [idle] at own
        exact
          sound_produced sound own (fun worker => Iff.rfl)
            sound.items_nonneg sound.items_le (Or.inl rfl)
            (by simp [idle, Producer.signals])
      · exact sound
  | produce woken => exact sound_produce sound woken
  | work worker => exact sound_work sound worker
  | wake worker =>
      rw [step]
      split
      · rename_i place
        exact sound_wake sound place
      · exact sound
  | stop =>
      exact
        { sound with
          ended_stopped := fun _ _ => rfl
          broadcasted_stopped := fun _ => rfl }
  | broadcast =>
      rw [step]
      split
      · exact sound
      · rename_i stopped
        exact sound_broadcast sound (by simpa using stopped)

end Monitor

end DnsFirewall.Monitors
