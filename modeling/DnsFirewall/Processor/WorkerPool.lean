import DnsFirewall.Foundations.MonitorProgress
import DnsFirewall.Processor.JobQueue

/-!
# The thread pool

The receiver and the workers in every order of their steps: the lock of the
mutex, the section behind it, the signal and the wait on the condition.  A
signal may wake more than one worker, and a worker may wake without a signal.
The end of the service clears its flag and wakes the workers without the
mutex.  A thread in front of a mutex that another one holds stays where it is,
and a worker that has taken a packet comes back: its `process_dns_query` is
taken to return.
-/

namespace DnsFirewall

open Runs

variable {ω : Type}

/-- A datagram that is long enough to be queued. -/
structure LongDatagram (gSock : Int) where
  datagram : Datagram
  queued : QueuedJob
  isQueued : datagram.queued gSock = some queued

def Datagram.long (gSock : Int) (datagram : Datagram) :
    Option (LongDatagram gSock) :=
  match found : datagram.queued gSock with
  | none => none
  | some queued => some ⟨datagram, queued, found⟩

/-- The receive loop of `main`: in front of `recvfrom`, in front of the lock,
behind it, about to signal, and about to unlock. -/
inductive ReceiverPlace (gSock : Int) where
  | receiving
  | locking (arrived : LongDatagram gSock)
  | storing (arrived : LongDatagram gSock)
  | signalling
  | unlocking

/-- `worker_thread`: in front of the lock, behind it, about to wait, waiting on
the condition, in `process_dns_query` with a job, and returned. -/
inductive WorkerPlace where
  | locking
  | testing
  | waits
  | asleep
  | processing (slot : JobSlot)
  | returned

structure Pool (gSock : Int) (ω : Type) where
  jobs : JobRun ω
  broadcasted : Bool
  mutex : Option (Monitors.Holder ω)
  receiver : ReceiverPlace gSock
  worker : ω → WorkerPlace

/-- A round of `recvfrom`, the next step of a thread with the choice of who is
woken by a signal, a wakeup without a signal, and the two steps of
`cleanup`. -/
inductive PoolAction (ω : Type) where
  | receive (arrived : Option Datagram)
  | receiver (woken : ω → Bool)
  | worker (worker : ω)
  | wakeup (worker : ω)
  | stop
  | broadcast

def WorkerPlace.roused (woken : Bool) : WorkerPlace → WorkerPlace
  | .asleep => if woken = true then .locking else .asleep
  | place => place

def WorkerPlace.isAsleep : WorkerPlace → Bool
  | .asleep => true
  | _ => false

namespace Pool

variable {gSock : Int} [DecidableEq ω] [Fintype ω]

def sleeps (pool : Pool gSock ω) (worker : ω) : Bool :=
  (pool.worker worker).isAsleep

def withWorker (pool : Pool gSock ω) (worker : ω) (place : WorkerPlace)
    (jobs : JobRun ω) (mutex : Option (Monitors.Holder ω)) : Pool gSock ω :=
  { pool with
    worker := Function.update pool.worker worker place
    jobs, mutex }

def receiverStep (pool : Pool gSock ω) (woken : ω → Bool) : Pool gSock ω :=
  match pool.receiver with
  | .receiving => pool
  | .locking arrived =>
      if pool.mutex = none then
        { pool with mutex := some .producer, receiver := .storing arrived }
      else pool
  | .storing arrived =>
      let jobs :=
        pool.jobs.next gSock (.receive (some arrived.datagram))
      if pool.jobs.queue.jobCount < jobQueueSize then
        { pool with jobs, receiver := .signalling }
      else
        { pool with jobs, receiver := .unlocking }
  | .signalling =>
      if Monitors.Wakes pool.sleeps woken then
        { pool with
          worker := fun worker =>
            (pool.worker worker).roused (woken worker)
          receiver := .unlocking }
      else pool
  | .unlocking => { pool with mutex := none, receiver := .receiving }

def workerStep (pool : Pool gSock ω) (worker : ω) : Pool gSock ω :=
  match pool.worker worker with
  | .locking =>
      if pool.mutex = none then
        pool.withWorker worker .testing pool.jobs (some (.worker worker))
      else pool
  | .testing =>
      let jobs := pool.jobs.next gSock (.work worker)
      match (jobStep gSock pool.jobs.queue (.work worker)).1 with
      | .waits _ => pool.withWorker worker .waits jobs pool.mutex
      | .took _ slot => pool.withWorker worker (.processing slot) jobs none
      | _ => pool.withWorker worker .returned jobs none
  | .waits => pool.withWorker worker .asleep pool.jobs none
  | .asleep => pool
  | .processing _ => pool.withWorker worker .locking pool.jobs pool.mutex
  | .returned => pool

def step (pool : Pool gSock ω) : PoolAction ω → Pool gSock ω
  | .receive arrived =>
      match pool.receiver, arrived.bind (Datagram.long gSock) with
      | .receiving, some arrived =>
          { pool with receiver := .locking arrived }
      | _, _ => pool
  | .receiver woken => pool.receiverStep woken
  | .worker worker => pool.workerStep worker
  | .wakeup worker =>
      match pool.worker worker with
      | .asleep => pool.withWorker worker .locking pool.jobs pool.mutex
      | _ => pool
  | .stop => { pool with jobs := pool.jobs.next gSock .cleanup }
  | .broadcast =>
      if pool.jobs.queue.gRunning = true then pool
      else
        { pool with
          broadcasted := true
          worker := fun worker => (pool.worker worker).roused true }

end Pool

def poolStart (gSock : Int) (ω : Type) : Pool gSock ω where
  jobs := ⟨[], jobStart⟩
  broadcasted := false
  mutex := none
  receiver := .receiving
  worker := fun _ => .locking

def poolRun (gSock : Int) [DecidableEq ω] [Fintype ω]
    (actions : List (PoolAction ω)) : Pool gSock ω :=
  run Pool.step (poolStart gSock ω) actions

/-! ## The pool as a monitor -/

def ReceiverPlace.place {gSock : Int} :
    ReceiverPlace gSock → Monitors.Producer
  | .receiving => .idle
  | .locking _ => .outside
  | .storing _ => .inside
  | .signalling => .signalling
  | .unlocking => .leaving

def WorkerPlace.place : WorkerPlace → Monitors.Place
  | .locking => .outside
  | .testing => .testing
  | .waits => .waiting
  | .asleep => .asleep
  | .processing _ => .busy
  | .returned => .ended

def PoolAction.action (gSock : Int) :
    PoolAction ω → Option (Monitors.Action ω)
  | .receive arrived =>
      (arrived.bind (Datagram.long gSock)).map fun _ => .arrive
  | .receiver woken => some (.produce woken)
  | .worker one => some (.work one)
  | .wakeup one => some (.wake one)
  | .stop => some .stop
  | .broadcast => some .broadcast

namespace Pool

variable {gSock : Int}

def monitor (pool : Pool gSock ω) : Monitors.Monitor ω where
  items := pool.jobs.queue.jobCount
  running := pool.jobs.queue.gRunning
  broadcasted := pool.broadcasted
  holder := pool.mutex
  producer := pool.receiver.place
  place := fun worker => (pool.worker worker).place

/-- Its queue is sound and in order, and so is the monitor. -/
structure Sound [Fintype ω] (pool : Pool gSock ω) : Prop where
  fifo : Fifo pool.jobs
  monitor : pool.monitor.Sound jobQueueSize

variable [DecidableEq ω]

/-- Where the jobs are those of the pool but for their number. -/
theorem monitor_withWorker
    (pool : Pool gSock ω) (worker : ω) (place : WorkerPlace)
    {jobs : JobRun ω} (mutex : Option (Monitors.Holder ω))
    (running : jobs.queue.gRunning = pool.jobs.queue.gRunning) :
    (pool.withWorker worker place jobs mutex).monitor =
      pool.monitor.moved worker place.place mutex jobs.queue.jobCount := by
  have places :
      (fun other =>
          (Function.update pool.worker worker place other).place) =
        Function.update (fun other => (pool.worker other).place) worker
          place.place := by
    funext other
    by_cases same : other = worker
    · subst same
      rw [Function.update_self, Function.update_self]
    · rw [Function.update_of_ne same, Function.update_of_ne same]
  rw [Monitors.Monitor.moved, monitor, monitor, withWorker]
  simp only [places, running]

theorem place_roused (woken : Bool) (place : WorkerPlace) :
    (place.roused woken).place = place.place.roused woken := by
  cases place with
  | asleep => cases woken <;> rfl
  | _ => rfl

omit [DecidableEq ω] in
theorem sleeps_monitor (pool : Pool gSock ω) :
    pool.monitor.sleeps = pool.sleeps := by
  funext worker
  show decide ((pool.worker worker).place = .asleep) =
    (pool.worker worker).isAsleep
  cases pool.worker worker <;> rfl

omit [DecidableEq ω] in
/-- The three ends of a worker's section. -/
theorem next_work (gSock : Int) (jobs : JobRun ω) (worker : ω) :
    (jobs.queue.jobCount = 0 ∧ jobs.queue.gRunning = true ∧
        (jobStep gSock jobs.queue (.work worker)).1 = .waits worker ∧
          (jobs.next gSock (.work worker)).queue = jobs.queue) ∨
      (jobs.queue.jobCount = 0 ∧ ¬ jobs.queue.gRunning = true ∧
        (jobStep gSock jobs.queue (.work worker)).1 = .ends worker ∧
          (jobs.next gSock (.work worker)).queue = jobs.queue) ∨
      (jobs.queue.jobCount ≠ 0 ∧
        (jobStep gSock jobs.queue (.work worker)).1 =
            .took worker jobs.queue.dequeue.1 ∧
          (jobs.next gSock (.work worker)).queue =
            jobs.queue.dequeue.2) := by
  rw [JobRun.next, jobStep]
  by_cases empty : jobs.queue.jobCount = 0
  · by_cases runs : jobs.queue.gRunning = true
    · simp [empty, runs]
    · simp [empty, runs]
  · simp [empty]

theorem monitor_workerStep (pool : Pool gSock ω) (worker : ω) :
    (pool.workerStep worker).monitor = pool.monitor.work worker := by
  have place :
      pool.monitor.place worker = (pool.worker worker).place :=
    rfl
  have items : pool.monitor.items = pool.jobs.queue.jobCount := rfl
  have running : pool.monitor.running = pool.jobs.queue.gRunning := rfl
  rw [workerStep, Monitors.Monitor.work, place, items, running]
  cases pool.worker worker with
  | locking =>
      simp only [WorkerPlace.place]
      rw [apply_ite monitor, monitor_withWorker _ _ _ _ rfl]
      rfl
  | testing =>
      simp only [WorkerPlace.place]
      obtain ⟨empty, runs, outcome, queue⟩ | ⟨empty, stops, outcome, queue⟩ |
          ⟨filled, outcome, queue⟩ :=
        next_work gSock pool.jobs worker
      · rw [outcome, if_pos empty, if_pos runs]
        simp only
        rw [monitor_withWorker _ _ _ _ (by rw [queue]), queue]
        rfl
      · rw [outcome, if_pos empty, if_neg stops]
        simp only
        rw [monitor_withWorker _ _ _ _ (by rw [queue]), queue]
        rfl
      · rw [outcome, if_neg filled]
        simp only
        rw [monitor_withWorker _ _ _ _ (by rw [queue]; rfl), queue]
        rfl
  | waits => exact monitor_withWorker pool worker .asleep none rfl
  | asleep => rfl
  | processing slot => exact monitor_withWorker pool worker .locking _ rfl
  | returned => rfl

omit [DecidableEq ω] in
theorem jobCount_receive
    (jobs : JobRun ω) (arrived : LongDatagram gSock) :
    (jobs.next gSock (.receive (some arrived.datagram))).queue =
      if jobs.queue.jobCount < jobQueueSize then
        jobs.queue.enqueue arrived.queued
      else jobs.queue := by
  rw [JobRun.next, jobStep]
  simp only [Option.bind_some, arrived.isQueued]
  split
  · rfl
  · rfl

variable [Fintype ω]

omit [DecidableEq ω] in
theorem monitor_receiverStep (pool : Pool gSock ω) (woken : ω → Bool) :
    (pool.receiverStep woken).monitor =
      pool.monitor.produce jobQueueSize woken := by
  have place : pool.monitor.producer = pool.receiver.place := rfl
  rw [receiverStep, Monitors.Monitor.produce, place]
  cases pool.receiver with
  | receiving => rfl
  | locking arrived =>
      simp only [ReceiverPlace.place]
      rw [apply_ite monitor]
      rfl
  | storing arrived =>
      have queue := jobCount_receive pool.jobs arrived
      simp only [ReceiverPlace.place]
      show _ = if pool.jobs.queue.jobCount < jobQueueSize then _ else _
      split
      · rename_i room
        rw [if_pos room] at queue
        rw [monitor]
        simp only [queue]
        rfl
      · rename_i full
        rw [if_neg full] at queue
        rw [monitor]
        simp only [queue]
        rfl
  | signalling =>
      simp only [ReceiverPlace.place]
      rw [sleeps_monitor, apply_ite monitor]
      congr 1
      rw [monitor, monitor]
      simp only [place_roused]
      rfl
  | unlocking => rfl

/-- Each step of the pool is a step of its monitor, or none. -/
theorem sound_monitor_step
    {pool : Pool gSock ω} (sound : pool.monitor.Sound jobQueueSize)
    (action : PoolAction ω) :
    (pool.step action).monitor.Sound jobQueueSize := by
  cases action with
  | receive arrived =>
      rw [step]
      split
      · rename_i receives _
        have idle : pool.monitor.producer = .idle :=
          congrArg ReceiverPlace.place receives
        have next := Monitors.Monitor.sound_step sound .arrive
        rw [Monitors.Monitor.step, idle] at next
        exact next
      · exact sound
  | receiver woken =>
      rw [step, monitor_receiverStep]
      exact Monitors.Monitor.sound_produce sound woken
  | worker worker =>
      rw [step, monitor_workerStep]
      exact Monitors.Monitor.sound_work sound worker
  | wakeup worker =>
      rw [step]
      split
      · rename_i slept
        have place : pool.monitor.place worker = .asleep :=
          congrArg WorkerPlace.place slept
        rw [monitor_withWorker pool worker .locking _ rfl]
        exact Monitors.Monitor.sound_wake sound place
      · exact sound
  | stop => exact Monitors.Monitor.sound_step sound .stop
  | broadcast =>
      have next := Monitors.Monitor.sound_step sound .broadcast
      rw [step]
      rw [Monitors.Monitor.step] at next
      split
      · exact sound
      · rename_i stopped
        have places :
            (fun worker => ((pool.worker worker).roused true).place) =
              fun worker => (pool.worker worker).place.roused true :=
          funext fun worker => place_roused true (pool.worker worker)
        rw [show pool.monitor.running = pool.jobs.queue.gRunning from rfl,
          if_neg stopped] at next
        rw [monitor]
        simp only [places]
        exact next

theorem fifo_step
    {pool : Pool gSock ω} (fifo : Fifo pool.jobs)
    (action : PoolAction ω) :
    Fifo (pool.step action).jobs := by
  cases action with
  | receive arrived =>
      rw [step]
      split
      · exact fifo
      · exact fifo
  | receiver woken =>
      rw [step, receiverStep]
      cases pool.receiver with
      | receiving => exact fifo
      | locking arrived =>
          simp only
          split
          · exact fifo
          · exact fifo
      | storing arrived =>
          have next :=
            fifo_next fifo gSock (.receive (some arrived.datagram))
          simp only
          split
          · exact next
          · exact next
      | signalling =>
          simp only
          split
          · exact fifo
          · exact fifo
      | unlocking => exact fifo
  | worker worker =>
      rw [step, workerStep]
      cases pool.worker worker with
      | locking =>
          simp only
          split
          · exact fifo
          · exact fifo
      | testing =>
          have next := fifo_next fifo gSock (.work worker)
          simp only
          split
          · exact next
          · exact next
          · exact next
      | _ => exact fifo
  | wakeup worker =>
      rw [step]
      split
      · exact fifo
      · exact fifo
  | stop => exact fifo_next fifo gSock .cleanup
  | broadcast =>
      rw [step]
      split
      · exact fifo
      · exact fifo

theorem sound_step
    {pool : Pool gSock ω} (sound : pool.Sound) (action : PoolAction ω) :
    (pool.step action).Sound :=
  ⟨fifo_step sound.fifo action, sound_monitor_step sound.monitor action⟩

theorem sound_poolRun (gSock : Int) (actions : List (PoolAction ω)) :
    (poolRun gSock actions).Sound := by
  have start : (poolStart gSock ω).Sound :=
    ⟨⟨sound_jobStart, rfl⟩, Monitors.Monitor.sound_start⟩
  exact
    @invariant_run _ _ step (fun _ _ => True) Sound
      (fun _ action sound _ => sound_step sound action) actions _ start
      (fun _ _ _ _ => trivial)

/-! ## The threads on their own -/

end Pool

/-- The step of a thread, which neither the network nor the end of the service
nor a wakeup without a signal brings about. -/
def PoolAction.isOwn : PoolAction ω → Bool
  | .receiver _ | .worker _ => true
  | _ => false

namespace Pool

variable {gSock : Int} [DecidableEq ω] [Fintype ω]

/-- A thread takes a step of its own. -/
def Advances (pool : Pool gSock ω) (action : PoolAction ω) : Prop :=
  action.isOwn = true ∧ pool.step action ≠ pool

/-- No thread can take a step of its own. -/
def AtRest (pool : Pool gSock ω) : Prop :=
  ∀ action, action.isOwn = true → pool.step action = pool

omit [Fintype ω] in
theorem workerStep_of_stuck
    {pool : Pool gSock ω} {worker : ω} (stuck : pool.monitor.Stuck worker) :
    pool.workerStep worker = pool := by
  have place :
      pool.monitor.place worker = (pool.worker worker).place :=
    rfl
  rw [Monitors.Monitor.Stuck, place] at stuck
  rw [workerStep]
  cases at_ : pool.worker worker with
  | locking =>
      rw [at_] at stuck
      exact if_neg stuck
  | asleep => rfl
  | returned => rfl
  | _ =>
      rw [at_] at stuck
      exact stuck.elim

omit [DecidableEq ω] in
theorem receiverStep_of_stuck
    {pool : Pool gSock ω} {woken : ω → Bool}
    (stuck : pool.monitor.ProducerStuck woken) :
    pool.receiverStep woken = pool := by
  have place : pool.monitor.producer = pool.receiver.place := rfl
  rw [Monitors.Monitor.ProducerStuck, place, sleeps_monitor] at stuck
  rw [receiverStep]
  cases at_ : pool.receiver with
  | receiving => rfl
  | locking arrived =>
      rw [at_] at stuck
      exact if_neg stuck
  | signalling =>
      rw [at_] at stuck
      exact if_neg stuck
  | _ =>
      rw [at_] at stuck
      exact stuck.elim

theorem AtRest.monitor {pool : Pool gSock ω} (rest : pool.AtRest) :
    pool.monitor.Rests where
  producer := by
    intro woken
    have stays := rest (.receiver woken) rfl
    have same := monitor_receiverStep pool woken
    rw [show pool.receiverStep woken = pool from stays] at same
    exact (Monitors.Monitor.produce_eq_iff woken).mp same.symm
  worker := by
    intro worker
    have stays := rest (.worker worker) rfl
    have same := monitor_workerStep pool worker
    rw [show pool.workerStep worker = pool from stays] at same
    exact (Monitors.Monitor.work_eq_iff worker).mp same.symm

theorem cost_lt_of_advances
    {pool : Pool gSock ω} (sound : pool.Sound) {action : PoolAction ω}
    (advances : pool.Advances action) :
    (pool.step action).monitor.cost < pool.monitor.cost := by
  have nonneg := sound.monitor.items_nonneg
  obtain ⟨own, changes⟩ := advances
  cases action with
  | receiver woken =>
      rw [step, monitor_receiverStep]
      exact
        Monitors.Monitor.cost_produce_lt nonneg fun stuck =>
          changes (receiverStep_of_stuck stuck)
  | worker worker =>
      rw [step, monitor_workerStep]
      exact
        Monitors.Monitor.cost_work_lt nonneg fun stuck =>
          changes (workerStep_of_stuck stuck)
  | _ => cases own

theorem length_le_cost
    {actions : List (PoolAction ω)} {pool : Pool gSock ω}
    (sound : pool.Sound) (along : Along step Advances pool actions) :
    actions.length ≤ pool.monitor.cost := by
  induction actions generalizing pool with
  | nil => exact Nat.zero_le _
  | cons action actions inductionHypothesis =>
      obtain ⟨head, tail⟩ := along_cons_iff.mp along
      have less := cost_lt_of_advances sound head
      have rest := inductionHypothesis (sound_step sound action) tail
      rw [List.length_cons]
      omega

/-- A worker that will come for the queue of its own accord. -/
def comes (pool : Pool gSock ω) (worker : ω) : Bool :=
  match pool.worker worker with
  | .locking | .testing => true
  | _ => false

def behindLock (pool : Pool gSock ω) : Monitors.Holder ω → Bool
  | .producer => pool.receiver.place.locked
  | .worker worker => (pool.worker worker).place.locked

omit [DecidableEq ω] in
theorem behindLock_iff
    {pool : Pool gSock ω} (sound : pool.Sound)
    (thread : Monitors.Holder ω) :
    pool.behindLock thread = true ↔ pool.mutex = some thread := by
  cases thread with
  | producer => exact sound.monitor.producer_locked
  | worker worker => exact sound.monitor.worker_locked worker

omit [DecidableEq ω] in
theorem total_awake (pool : Pool gSock ω) :
    Totals.total Monitors.Place.awake pool.monitor.place =
      (Finset.univ.filter fun worker => pool.comes worker = true).card := by
  rw [Finset.card_filter, Totals.total]
  apply Finset.sum_congr rfl
  intro worker _
  show (pool.worker worker).place.awake = _
  rw [comes]
  cases pool.worker worker <;> rfl

/-- A worker that sleeps on the condition or has decided to. -/
def drowsy (pool : Pool gSock ω) (worker : ω) : Bool :=
  match pool.worker worker with
  | .waits | .asleep => true
  | _ => false

omit [DecidableEq ω] in
theorem total_drowsy (pool : Pool gSock ω) :
    Totals.total Monitors.Place.drowsy pool.monitor.place =
      (Finset.univ.filter fun worker =>
        pool.drowsy worker = true).card := by
  rw [Finset.card_filter, Totals.total]
  apply Finset.sum_congr rfl
  intro worker _
  show (pool.worker worker).place.drowsy = _
  rw [drowsy]
  cases pool.worker worker <;> rfl

omit [DecidableEq ω] [Fintype ω] in
theorem place_eq_asleep_iff (pool : Pool gSock ω) (worker : ω) :
    pool.monitor.place worker = .asleep ↔
      pool.worker worker = .asleep := by
  show (pool.worker worker).place = _ ↔ _
  cases pool.worker worker <;> simp [WorkerPlace.place]

omit [DecidableEq ω] [Fintype ω] in
theorem place_eq_ended_iff (pool : Pool gSock ω) (worker : ω) :
    pool.monitor.place worker = .ended ↔
      pool.worker worker = .returned := by
  show (pool.worker worker).place = _ ↔ _
  cases pool.worker worker <;> simp [WorkerPlace.place]

omit [DecidableEq ω] in
theorem taken_eq_accepted
    {pool : Pool gSock ω} (sound : pool.Sound)
    (empty : pool.jobs.queue.jobCount = 0) :
    pool.jobs.taken = pool.jobs.accepted := by
  have waiting := length_waiting sound.fifo.sound
  rw [empty] at waiting
  have nothing : pool.jobs.queue.waiting = [] :=
    List.length_eq_zero_iff.mp (Int.ofNat.inj waiting)
  rw [sound.fifo.order, nothing, List.append_nil]

/-- Where no thread can step, every accepted packet has been taken, unless
every worker has returned. -/
theorem AtRest.taken_eq_accepted
    {pool : Pool gSock ω} (rest : pool.AtRest) (sound : pool.Sound) :
    pool.jobs.taken = pool.jobs.accepted ∨
      ∀ worker, pool.worker worker = .returned := by
  rcases rest.monitor.items_eq_zero sound.monitor with empty | ended
  · exact Or.inl (Pool.taken_eq_accepted sound empty)
  · right
    intro worker
    exact (place_eq_ended_iff pool worker).mp (ended worker)

end Pool

/-! ## Every order of steps -/

section EveryOrder

variable [DecidableEq ω] [Fintype ω]

/-- No packet is left in the queue for want of a wakeup: at most one thread is
behind the lock, while a worker sleeps each packet in the queue has a worker
that comes for it or a signal on its way, and when nothing more arrives the
threads come to rest, within so many steps, with all accepted packets taken in
their order. -/
theorem poolRun_serves (gSock : Int) (actions : List (PoolAction ω)) :
    let pool := poolRun gSock actions
    (∀ first second, pool.behindLock first = true →
        pool.behindLock second = true → first = second) ∧
      pool.jobs.taken <+: pool.jobs.accepted ∧
      (∀ worker, pool.worker worker = .asleep →
        pool.jobs.queue.jobCount ≤
          (Finset.univ.filter fun other => pool.comes other = true).card +
            pool.receiver.place.signals) ∧
      (∀ more, Along Pool.step Pool.Advances pool more →
        more.length ≤ 3 * 1024 + 7 * Fintype.card ω + 7) ∧
      (pool.AtRest → ∀ worker, pool.worker worker ≠ .returned →
        pool.jobs.taken = pool.jobs.accepted) := by
  intro pool
  have sound : pool.Sound := Pool.sound_poolRun gSock actions
  refine
    ⟨?_, ⟨pool.jobs.queue.waiting, sound.fifo.order.symm⟩, ?_, ?_, ?_⟩
  · intro first second isFirst isSecond
    have holds := (Pool.behindLock_iff sound first).mp isFirst
    rw [(Pool.behindLock_iff sound second).mp isSecond] at holds
    exact (Option.some.inj holds).symm
  · intro worker slept
    have served :=
      sound.monitor.served worker
        ((Pool.place_eq_asleep_iff pool worker).mpr slept)
    rw [Pool.total_awake] at served
    exact served
  · intro more along
    exact
      le_trans (Pool.length_le_cost sound along)
        (Monitors.Monitor.cost_le sound.monitor)
  · intro rest worker remains
    rcases rest.taken_eq_accepted sound with taken | returned
    · exact taken
    · exact absurd (returned worker) remains

/-- A worker that sleeps is not woken by the steps of the workers. -/
theorem asleep_run
    {gSock : Int} {pool : Pool gSock ω} {worker : ω}
    (slept : pool.worker worker = .asleep) (workers : List ω) :
    (run Pool.step pool (workers.map .worker)).worker worker =
      .asleep := by
  induction workers generalizing pool with
  | nil => exact slept
  | cons first workers inductionHypothesis =>
      apply inductionHypothesis
      have others :
          ∀ place jobs mutex, first ≠ worker →
            (pool.withWorker first place jobs mutex).worker worker =
              .asleep := by
        intro place jobs mutex different
        show Function.update pool.worker first place worker = _
        rw [Function.update_of_ne (Ne.symm different)]
        exact slept
      rw [Pool.step, Pool.workerStep]
      by_cases same : first = worker
      · rw [same, slept]
        exact slept
      · cases pool.worker first with
        | locking =>
            simp only
            split
            · exact others _ _ _ same
            · exact slept
        | testing =>
            simp only
            split
            · exact others _ _ _ same
            · exact others _ _ _ same
            · exact others _ _ _ same
        | waits => exact others _ _ _ same
        | asleep => exact slept
        | processing slot => exact others _ _ _ same
        | returned => exact slept

/-- The broadcast comes when the worker has tested the flag and does not wait
yet. -/
def missedBroadcast (worker : ω) : List (PoolAction ω) :=
  [.worker worker, .worker worker, .stop, .broadcast, .worker worker]

theorem poolRun_missedBroadcast (gSock : Int) (worker : ω) :
    (poolRun gSock (missedBroadcast worker)).broadcasted = true ∧
      (poolRun gSock (missedBroadcast worker)).worker worker = .asleep := by
  simp [poolRun, missedBroadcast, Pool.step, Pool.workerStep, poolStart,
    Pool.withWorker, jobStep, jobStart, JobRun.next, WorkerPlace.roused]

/-- The end of the service reaches all workers but one at most: after the
broadcast at most one of them sleeps, and when the threads have come to rest
the others have returned.  Any worker may be the one that sleeps on. -/
theorem poolRun_ends (gSock : Int) :
    (∀ actions : List (PoolAction ω),
      let pool := poolRun gSock actions
      (∀ worker, pool.worker worker = .returned →
          pool.jobs.queue.gRunning = false) ∧
        (pool.broadcasted = true →
          (Finset.univ.filter fun worker =>
              pool.drowsy worker = true).card ≤ 1 ∧
            (pool.AtRest → ∀ first second,
              pool.worker first ≠ .returned →
                pool.worker second ≠ .returned → first = second))) ∧
      ∀ worker : ω, ∃ actions,
        (poolRun gSock actions).broadcasted = true ∧
          ∀ workers : List ω,
            (run Pool.step (poolRun gSock actions)
              (workers.map .worker)).worker worker = .asleep := by
  refine ⟨fun actions => ⟨?_, ?_⟩, ?_⟩
  · have sound := Pool.sound_poolRun gSock actions
    intro worker returned
    exact
      sound.monitor.ended_stopped worker
        ((Pool.place_eq_ended_iff _ worker).mpr returned)
  · have sound := Pool.sound_poolRun gSock actions
    intro broadcasted
    have few := sound.monitor.late broadcasted
    rw [Pool.total_drowsy] at few
    refine ⟨few, fun rest => ?_⟩
    have asleep :
        ∀ worker, (poolRun gSock actions).worker worker ≠ .returned →
          worker ∈
            Finset.univ.filter fun worker =>
              (poolRun gSock actions).drowsy worker = true := by
      intro worker remains
      have slept :=
        (rest.monitor.place sound.monitor worker).resolve_right fun ended =>
          remains ((Pool.place_eq_ended_iff _ worker).mp ended)
      rw [Finset.mem_filter, Pool.drowsy,
        (Pool.place_eq_asleep_iff _ worker).mp slept]
      exact ⟨Finset.mem_univ worker, rfl⟩
    intro first second firstRemains secondRemains
    exact
      Finset.card_le_one.mp few first (asleep first firstRemains) second
        (asleep second secondRemains)
  · intro worker
    obtain ⟨broadcasted, slept⟩ := poolRun_missedBroadcast gSock worker
    exact ⟨missedBroadcast worker, broadcasted, asleep_run slept⟩

end EveryOrder

end DnsFirewall
