import DnsFirewall.Foundations.RingBuffer
import DnsFirewall.Foundations.Runs
import DnsFirewall.Processor.Transports

/-!
# The UDP job queue

The receiver puts each packet into a ring of 1024 jobs and the workers take
the jobs out, each within a section that holds the mutex of the queue.  In
whatever order the sections run, the workers take the accepted packets in the
order of their arrival.
-/

namespace DnsFirewall

open CString Runs RingBuffer

def jobQueueSize : Nat := 1024

/-- `udp_job_t` as a slot of the queue, which is used again and again and so
holds old bytes behind the packet. -/
structure JobSlot where
  buf : Bytes
  len : Nat
  client : SockAddrIn
  clientLen : UInt32
  sock : Int

structure JobState where
  jobQueue : Nat → JobSlot
  jobRead : Nat
  jobWrite : Nat
  jobCount : Int
  gRunning : Bool

/-- What arrives at the socket. -/
structure Datagram where
  bytes : Bytes
  client : SockAddrIn
  clientLen : UInt32

/-- A job with all that the slot says of it. -/
structure QueuedJob where
  job : UdpJob
  len : Nat
  clientLen : UInt32
  sock : Int

/-- What the receiver means to queue of a datagram, if not too short. -/
def Datagram.queued (gSock : Int) (datagram : Datagram) :
    Option QueuedJob :=
  (receiveDatagram datagram.bytes datagram.client).map fun job =>
    ⟨job, job.buf.length, datagram.clientLen, gSock⟩

/-- What a worker gets out of a slot. -/
def JobSlot.queued (slot : JobSlot) : QueuedJob :=
  ⟨⟨slot.buf.take slot.len, slot.client⟩, slot.len, slot.clientLen,
    slot.sock⟩

/-- `memcpy` of the packet and the assignments behind it. -/
def JobSlot.fill (queued : QueuedJob) (slot : JobSlot) : JobSlot where
  buf := queued.job.buf ++ slot.buf.drop queued.len
  len := queued.len
  client := queued.job.client
  clientLen := queued.clientLen
  sock := queued.sock

/-- The section of the receiver where the queue has room. -/
def JobState.enqueue (queued : QueuedJob) (state : JobState) : JobState :=
  { state with
    jobQueue :=
      Function.update state.jobQueue state.jobWrite
        ((state.jobQueue state.jobWrite).fill queued)
    jobWrite := (state.jobWrite + 1) % jobQueueSize
    jobCount := state.jobCount + 1 }

/-- The section of a worker that finds a job. -/
def JobState.dequeue (state : JobState) : JobSlot × JobState :=
  (state.jobQueue state.jobRead,
    { state with
      jobRead := (state.jobRead + 1) % jobQueueSize
      jobCount := state.jobCount - 1 })

/-- The steps that run one after the other: a round of the receiver, with
nothing where `recvfrom` fails, a section of one of the workers, and the end
of the service. -/
inductive JobStep (ω : Type) where
  | receive (arrived : Option Datagram)
  | work (worker : ω)
  | cleanup

inductive JobOutcome (ω : Type) where
  | skipped
  | dropped (queued : QueuedJob)
  | accepted (queued : QueuedJob)
  | waits (worker : ω)
  | ends (worker : ω)
  | took (worker : ω) (slot : JobSlot)
  | stopped

variable {ω : Type}

def jobStep (gSock : Int) (state : JobState) :
    JobStep ω → JobOutcome ω × JobState
  | .receive arrived =>
      match arrived.bind (Datagram.queued gSock) with
      | none => (.skipped, state)
      | some queued =>
          if state.jobCount < jobQueueSize then
            (.accepted queued, state.enqueue queued)
          else
            (.dropped queued, state)
  | .work worker =>
      if state.jobCount = 0 then
        if state.gRunning = true then (.waits worker, state)
        else (.ends worker, state)
      else
        let (slot, state) := state.dequeue
        (.took worker slot, state)
  | .cleanup => (.stopped, { state with gRunning := false })

/-- The queue of the program before its first packet. -/
def jobStart : JobState where
  jobQueue := fun _ =>
    ⟨List.replicate dnsMaxPacket 0, 0, ⟨0, 0⟩, 0, 0⟩
  jobRead := 0
  jobWrite := 0
  jobCount := 0
  gRunning := true

/-- The queue with the outcomes of the steps up to now, the latest last. -/
structure JobRun (ω : Type) where
  outcomes : List (JobOutcome ω)
  queue : JobState

def JobRun.next (gSock : Int) (run : JobRun ω) (step : JobStep ω) :
    JobRun ω :=
  let (outcome, queue) := jobStep gSock run.queue step
  ⟨run.outcomes ++ [outcome], queue⟩

def jobRun (gSock : Int) (steps : List (JobStep ω)) : JobRun ω :=
  run (JobRun.next gSock) ⟨[], jobStart⟩ steps

def JobOutcome.acceptedJob : JobOutcome ω → Option QueuedJob
  | .accepted queued => some queued
  | _ => none

def JobOutcome.takenJob : JobOutcome ω → Option QueuedJob
  | .took _ slot => some slot.queued
  | _ => none

/-- What the receiver has put into the queue, in the order of arrival. -/
def JobRun.accepted (run : JobRun ω) : List QueuedJob :=
  run.outcomes.filterMap JobOutcome.acceptedJob

/-- What the workers have taken, in the order of their sections. -/
def JobRun.taken (run : JobRun ω) : List QueuedJob :=
  run.outcomes.filterMap JobOutcome.takenJob

/-! ## The queue as a ring -/

def JobState.ring (state : JobState) : Ring JobSlot jobQueueSize where
  slots := state.jobQueue
  read := state.jobRead
  write := state.jobWrite
  count := state.jobCount

/-- The jobs that wait in the queue, the oldest first. -/
def JobState.waiting (state : JobState) : List QueuedJob :=
  state.ring.contents.map JobSlot.queued

/-- The accepted jobs are those taken and then those that wait. -/
structure Fifo (run : JobRun ω) : Prop where
  sound : run.queue.ring.Sound
  order : run.accepted = run.taken ++ run.queue.waiting

theorem sound_jobStart : jobStart.ring.Sound where
  read_lt := by decide
  count_nonneg := by decide
  count_le := by decide
  write_eq := by decide

theorem length_waiting {state : JobState} (sound : state.ring.Sound) :
    (state.waiting.length : Int) = state.jobCount := by
  rw [JobState.waiting, List.length_map]
  exact Ring.length_contents sound

/-! ## One step -/

theorem queued_len
    {gSock : Int} {datagram : Datagram} {queued : QueuedJob}
    (isQueued : datagram.queued gSock = some queued) :
    queued.len = queued.job.buf.length := by
  obtain ⟨job, -, rfl⟩ := Option.map_eq_some_iff.mp isQueued
  rfl

/-- A worker gets the packet, without the old bytes behind it. -/
theorem queued_fill
    {queued : QueuedJob} (ownLength : queued.len = queued.job.buf.length)
    (slot : JobSlot) :
    (slot.fill queued).queued = queued := by
  rw [JobSlot.fill, JobSlot.queued]
  simp only
  rw [ownLength, List.take_left, ← ownLength]

theorem sound_enqueue
    {state : JobState} (sound : state.ring.Sound)
    (room : state.jobCount < jobQueueSize) (queued : QueuedJob) :
    (state.enqueue queued).ring.Sound :=
  Ring.sound_push sound room (JobSlot.fill queued)

theorem waiting_enqueue
    {state : JobState} (sound : state.ring.Sound)
    (room : state.jobCount < jobQueueSize) {queued : QueuedJob}
    (ownLength : queued.len = queued.job.buf.length) :
    (state.enqueue queued).waiting = state.waiting ++ [queued] := by
  have contents := Ring.contents_push sound room (JobSlot.fill queued)
  have jobs := congrArg (List.map JobSlot.queued) contents
  rw [List.map_append, List.map_singleton, queued_fill ownLength] at jobs
  exact jobs

theorem sound_dequeue
    {state : JobState} (sound : state.ring.Sound)
    (filled : 0 < state.jobCount) :
    state.dequeue.2.ring.Sound :=
  Ring.sound_pop sound filled

theorem waiting_dequeue
    {state : JobState} (sound : state.ring.Sound)
    (filled : 0 < state.jobCount) :
    state.waiting =
      state.dequeue.1.queued :: state.dequeue.2.waiting := by
  have contents := Ring.contents_pop sound filled
  exact congrArg (List.map JobSlot.queued) contents

theorem accepted_next (gSock : Int) (run : JobRun ω) (step : JobStep ω) :
    (run.next gSock step).accepted =
      run.accepted ++
        (jobStep gSock run.queue step).1.acceptedJob.toList := by
  rw [JobRun.next, JobRun.accepted, List.filterMap_append, JobRun.accepted,
    List.filterMap_cons, List.filterMap_nil]
  cases (jobStep gSock run.queue step).1.acceptedJob <;> rfl

theorem taken_next (gSock : Int) (run : JobRun ω) (step : JobStep ω) :
    (run.next gSock step).taken =
      run.taken ++ (jobStep gSock run.queue step).1.takenJob.toList := by
  rw [JobRun.next, JobRun.taken, List.filterMap_append, JobRun.taken,
    List.filterMap_cons, List.filterMap_nil]
  cases (jobStep gSock run.queue step).1.takenJob <;> rfl

/-- What a step accepts joins the end of the queue, and what it takes comes
from the front. -/
theorem jobStep_fifo
    (gSock : Int) {state : JobState} (sound : state.ring.Sound)
    (step : JobStep ω) :
    (jobStep gSock state step).2.ring.Sound ∧
      state.waiting ++ (jobStep gSock state step).1.acceptedJob.toList =
        (jobStep gSock state step).1.takenJob.toList ++
          (jobStep gSock state step).2.waiting := by
  have same : state.waiting ++ [] = [] ++ state.waiting :=
    List.append_nil _
  cases step with
  | cleanup => exact ⟨⟨sound.1, sound.2, sound.3, sound.4⟩, same⟩
  | receive arrived =>
      rw [jobStep]
      split
      · exact ⟨sound, same⟩
      · rename_i queued found
        obtain ⟨datagram, -, isQueued⟩ := Option.bind_eq_some_iff.mp found
        split
        · rename_i room
          exact
            ⟨sound_enqueue sound room queued,
              (waiting_enqueue sound room (queued_len isQueued)).symm⟩
        · exact ⟨sound, same⟩
  | work worker =>
      have nonneg : 0 ≤ state.jobCount := sound.count_nonneg
      rw [jobStep]
      split
      · split
        · exact ⟨sound, same⟩
        · exact ⟨sound, same⟩
      · have filled : 0 < state.jobCount := by omega
        refine ⟨sound_dequeue sound filled, ?_⟩
        rw [waiting_dequeue sound filled]
        exact List.append_nil _

/-- Only a full queue makes the receiver drop a packet. -/
theorem jobStep_receive
    {gSock : Int} {datagram : Datagram} {queued : QueuedJob}
    (isQueued : datagram.queued gSock = some queued) {state : JobState}
    (sound : state.ring.Sound) :
    let outcome :=
      (jobStep gSock state (.receive (some datagram) : JobStep ω)).1
    outcome = .accepted queued ∨
      outcome = .dropped queued ∧ state.jobCount = jobQueueSize := by
  have most : state.jobCount ≤ jobQueueSize := sound.count_le
  have found : (some datagram).bind (Datagram.queued gSock) = some queued :=
    isQueued
  intro outcome
  by_cases room : state.jobCount < jobQueueSize
  · apply Or.inl
    show (jobStep gSock state _).1 = _
    rw [jobStep, found]
    simp only
    rw [if_pos room]
  · refine Or.inr ⟨?_, Int.le_antisymm most (Int.not_lt.mp room)⟩
    show (jobStep gSock state _).1 = _
    rw [jobStep, found]
    simp only
    rw [if_neg room]

/-- A worker that finds a job takes the one that waits longest. -/
theorem jobStep_work
    (gSock : Int) {state : JobState} (sound : state.ring.Sound)
    (filled : state.jobCount ≠ 0) (worker : ω) :
    ∃ slot later,
      (jobStep gSock state (.work worker)).1 = .took worker slot ∧
        state.waiting = slot.queued :: later := by
  have nonneg : 0 ≤ state.jobCount := sound.count_nonneg
  have positive : 0 < state.jobCount := by omega
  refine
    ⟨state.dequeue.1, state.dequeue.2.waiting, ?_,
      waiting_dequeue sound positive⟩
  rw [jobStep, if_neg filled]

/-! ## Every order of steps -/

theorem fifo_next
    {run : JobRun ω} (fifo : Fifo run) (gSock : Int) (step : JobStep ω) :
    Fifo (run.next gSock step) := by
  obtain ⟨sound, balance⟩ := jobStep_fifo gSock fifo.sound step
  refine ⟨sound, ?_⟩
  rw [accepted_next, taken_next, fifo.order, List.append_assoc, balance,
    List.append_assoc]
  rfl

theorem fifo_jobRun (gSock : Int) (steps : List (JobStep ω)) :
    Fifo (jobRun gSock steps) := by
  have start : Fifo (⟨[], jobStart⟩ : JobRun ω) := ⟨sound_jobStart, rfl⟩
  exact
    @invariant_run _ _ (JobRun.next gSock) (fun _ _ => True) Fifo
      (fun _ step fifo _ => fifo_next fifo gSock step) steps _ start
      (fun _ _ _ _ => trivial)

end DnsFirewall
