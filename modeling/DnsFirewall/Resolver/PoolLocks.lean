import DnsFirewall.Resolver.Borrowing

/-!
# The locks of the connection pool

Workers that forward over TCP at once.  The pool is opened behind its own
mutex by the first of them, and each slot has a mutex that a worker tries
before it uses the connection.  Each system call is a step, and the steps of
the workers come in any order.  Whatever the order, what happens on a
connection is one whole exchange after another.
-/

namespace DnsFirewall

open BigEndian CString Runs

/-- `tcp_conn_t` with the worker that holds its mutex. -/
structure PoolSlot (W : Type) where
  conn : TcpConn
  inUse : Bool
  lock : Option W

/-- Where a worker is in the TCP branch: before the test of
`pool_initialised`, in `init_tcp_pool`, in `borrow_tcp_conn` with a slot, and
in the exchange on the borrowed connection.  The connection as it was borrowed
and the outcome of its calls up to now are kept only to state what the
exchange does. -/
inductive PoolPhase where
  | idle
  | checking
  | locking
  | testing
  | opening (slot : Fin tcpPoolSize)
  | publishing
  | unlocking
  | trying (slot : Fin tcpPoolSize)
  | examining (slot : Fin tcpPoolSize)
  | reconnecting (slot : Fin tcpPoolSize)
  | releasing (slot : Fin tcpPoolSize)
  | sendingLength (slot : Fin tcpPoolSize) (borrowed : TcpConn)
  | sendingQuery (slot : Fin tcpPoolSize) (borrowed : TcpConn)
  | readingLength (slot : Fin tcpPoolSize) (borrowed : TcpConn)
  | readingReply (slot : Fin tcpPoolSize) (borrowed : TcpConn)
      (high low : UInt8) (arrived : Bytes)
  | closing (slot : Fin tcpPoolSize) (borrowed : TcpConn)
      (outcome : TcpOutcome)
  | returning (slot : Fin tcpPoolSize) (borrowed : TcpConn)
      (outcome : TcpOutcome) (reply : Option Bytes)

/-- A connection that has been borrowed and given back. -/
structure PoolUse (W : Type) where
  worker : W
  slot : Fin tcpPoolSize
  borrowed : TcpConn
  outcome : TcpOutcome
  reply : Option Bytes
  returned : TcpConn

inductive PoolEvent (W : Type) where
  | opened (slot : Fin tcpPoolSize) (conn : TcpConn)
  | used (use : PoolUse W)

structure PoolSystem (W : Type) where
  initialised : Bool
  fwdIp : Bytes
  poolLock : Option W
  slots : Fin tcpPoolSize → PoolSlot W
  phase : W → PoolPhase
  log : List (PoolEvent W)

/-- What the next system call of a worker meets: a new connection or none, the
success of a send, a connection that is reset, and what arrives until a read
gives up. -/
structure PoolAnswer where
  connected : Option Nat
  sent : Bool
  reset : Bool
  arrived : Bytes

/-- A query comes to a worker, or the worker takes its next step. -/
inductive PoolStep (W : Type) where
  | query (worker : W)
  | advance (worker : W) (answer : PoolAnswer)

/-- The slot after this one, round the pool. -/
def nextSlot (slot : Fin tcpPoolSize) : Fin tcpPoolSize :=
  slotOf (slot.val + 1)

/-- A connection to port 53 of the address in `ip`. -/
def connectedTo (ip : Bytes) (sock : Nat) : TcpConn :=
  ⟨some sock, ⟨(inetPton ip).getD 0, dnsPort⟩, []⟩

namespace PoolSystem

variable {W : Type} [DecidableEq W]

def goto (s : PoolSystem W) (worker : W) (phase : PoolPhase) :
    PoolSystem W :=
  { s with phase := Function.update s.phase worker phase }

/-- The worker writes a slot. -/
def put (s : PoolSystem W) (worker : W) (phase : PoolPhase)
    (slot : Fin tcpPoolSize) (after : PoolSlot W)
    (log : List (PoolEvent W)) : PoolSystem W :=
  { s with
    slots := Function.update s.slots slot after
    phase := Function.update s.phase worker phase
    log }

/-- The next step of a worker, with the address in `DNS_FORWARDER`. -/
def advance (ip : Bytes) (s : PoolSystem W) (worker : W)
    (answer : PoolAnswer) : PoolSystem W :=
  match s.phase worker with
  | .idle => s
  | .checking =>
      if s.initialised = true then s.goto worker (.trying (slotOf 0))
      else s.goto worker .locking
  | .locking =>
      if s.poolLock = none then
        { s.goto worker .testing with poolLock := some worker }
      else s
  | .testing =>
      if s.initialised = true then s.goto worker .unlocking
      else if inetPton ip = none then s.goto worker .unlocking
      else s.goto worker (.opening (slotOf 0))
  | .opening slot =>
      let conn :=
        (answer.connected.map (connectedTo ip)).getD ⟨none, ⟨0, 0⟩, []⟩
      s.put worker
        (if slot.val + 1 < tcpPoolSize then .opening (nextSlot slot)
          else .publishing)
        slot ⟨conn, false, none⟩ (.opened slot conn :: s.log)
  | .publishing =>
      { s.goto worker (.trying (slotOf 0)) with
        fwdIp := ip
        initialised := true
        poolLock := none }
  | .unlocking =>
      { s.goto worker (.trying (slotOf 0)) with poolLock := none }
  | .trying slot =>
      if (s.slots slot).lock = none then
        s.put worker (.examining slot) slot
          { s.slots slot with lock := some worker } s.log
      else s.goto worker (.trying (nextSlot slot))
  | .examining slot =>
      if (s.slots slot).conn.sock.isSome = true then
        s.put worker (.sendingLength slot (s.slots slot).conn) slot
          { s.slots slot with inUse := true } s.log
      else s.goto worker (.reconnecting slot)
  | .reconnecting slot =>
      match answer.connected with
      | some sock =>
          s.put worker (.sendingLength slot (connectedTo s.fwdIp sock)) slot
            { s.slots slot with
              conn := connectedTo s.fwdIp sock
              inUse := true }
            s.log
      | none => s.goto worker (.releasing slot)
  | .releasing slot =>
      s.put worker (.trying (nextSlot slot)) slot
        { s.slots slot with lock := none } s.log
  | .sendingLength slot borrowed =>
      if answer.sent = true then s.goto worker (.sendingQuery slot borrowed)
      else
        s.goto worker (.closing slot borrowed ⟨false, false, false, []⟩)
  | .sendingQuery slot borrowed =>
      if answer.sent = true then
        s.goto worker (.readingLength slot borrowed)
      else
        s.goto worker (.closing slot borrowed ⟨true, false, false, []⟩)
  | .readingLength slot borrowed =>
      let before := (s.slots slot).conn
      let outcome : TcpOutcome :=
        ⟨true, true, answer.reset, answer.arrived⟩
      match
        if answer.reset = true then []
        else before.pending ++ answer.arrived with
      | high :: low :: pending =>
          let rlen := (word16 high low).toNat
          s.put worker
            (if 0 < rlen ∧ rlen < ednsSize then
              .readingReply slot borrowed high low answer.arrived
            else .returning slot borrowed outcome none)
            slot
            { s.slots slot with conn := { before with pending } } s.log
      | pending =>
          s.put worker (.closing slot borrowed outcome) slot
            { s.slots slot with conn := { before with pending } } s.log
  | .readingReply slot borrowed high low arrived =>
      let before := (s.slots slot).conn
      let rlen := (word16 high low).toNat
      let pending := before.pending ++ answer.arrived
      let raw := pending.take rlen
      s.put worker
        (.returning slot borrowed
          ⟨true, true, false, arrived ++ answer.arrived⟩
          (if raw.length = rlen then some raw else none))
        slot
        { s.slots slot with
          conn := { before with pending := pending.drop rlen } }
        s.log
  | .closing slot borrowed outcome =>
      s.put worker (.returning slot borrowed outcome none) slot
        { s.slots slot with
          conn := ⟨none, (s.slots slot).conn.peer, []⟩ }
        s.log
  | .returning slot borrowed outcome reply =>
      s.put worker .idle slot
        { s.slots slot with inUse := false, lock := none }
        (.used
            ⟨worker, slot, borrowed, outcome, reply,
              (s.slots slot).conn⟩ ::
          s.log)

def step (ip : Bytes) (s : PoolSystem W) : PoolStep W → PoolSystem W
  | .query worker =>
      match s.phase worker with
      | .idle => s.goto worker .checking
      | _ => s
  | .advance worker answer => s.advance ip worker answer

end PoolSystem

/-- The static storage of the pool, before any query. -/
def poolSystemStart (W : Type) : PoolSystem W where
  initialised := false
  fwdIp := []
  poolLock := none
  slots := fun slot => ⟨tcpPoolStart.conns slot, false, none⟩
  phase := fun _ => .idle
  log := []

/-! ## The log -/

section Log

variable {W : Type}

/-- The connection of the slot as the last event on it left it. -/
def latest (slot : Fin tcpPoolSize) : List (PoolEvent W) → TcpConn
  | [] => tcpPoolStart.conns slot
  | .opened other conn :: log =>
      if other = slot then conn else latest slot log
  | .used use :: log =>
      if use.slot = slot then use.returned else latest slot log

/-- Each use of a connection is one whole exchange, on the connection as the
event before on the same slot left it, or on a new one in place of a closed
one. -/
def Serial : List (PoolEvent W) → Prop
  | [] => True
  | .opened _ _ :: log => Serial log
  | .used use :: log =>
      Reconnected (latest use.slot log) use.borrowed ∧
        (use.reply, use.returned) = exchangeOn use.borrowed use.outcome ∧
        Serial log

end Log

namespace PoolPhase

/-- The slot whose mutex the worker holds. -/
def slot : PoolPhase → Option (Fin tcpPoolSize)
  | .examining slot | .reconnecting slot | .releasing slot => some slot
  | .sendingLength slot _ | .sendingQuery slot _ => some slot
  | .readingLength slot _ | .readingReply slot _ _ _ _ => some slot
  | .closing slot _ _ | .returning slot _ _ _ => some slot
  | _ => none

/-- The worker is behind `pool_lock`. -/
def inside : PoolPhase → Bool
  | .testing | .opening _ | .publishing | .unlocking => true
  | _ => false

/-- The worker opens the pool. -/
def opens : PoolPhase → Bool
  | .opening _ | .publishing => true
  | _ => false

/-- The worker has done with the opening of the pool. -/
def borrows : PoolPhase → Bool
  | .unlocking | .trying _ => true
  | phase => phase.slot.isSome

/-- What a worker relies on in the slot that it holds, where `last` is the
connection that the event before has left there. -/
def Relies (last conn : TcpConn) (inUse : Bool) : PoolPhase → Prop
  | .examining _ | .releasing _ => inUse = false ∧ conn = last
  | .reconnecting _ =>
      inUse = false ∧ conn = last ∧ conn.sock.isSome = false
  | .sendingLength _ borrowed | .sendingQuery _ borrowed
  | .readingLength _ borrowed =>
      inUse = true ∧ Reconnected last borrowed ∧ conn = borrowed
  | .readingReply _ borrowed high low arrived =>
      inUse = true ∧ Reconnected last borrowed ∧
        (0 < (word16 high low).toNat ∧
          (word16 high low).toNat < ednsSize) ∧
        ∃ pending, conn = { borrowed with pending } ∧
          borrowed.pending ++ arrived = high :: low :: pending
  | .closing _ borrowed outcome =>
      inUse = true ∧ Reconnected last borrowed ∧
        conn.peer = borrowed.peer ∧
        exchangeOn borrowed outcome = (none, ⟨none, borrowed.peer, []⟩)
  | .returning _ borrowed outcome reply =>
      inUse = true ∧ Reconnected last borrowed ∧
        exchangeOn borrowed outcome = (reply, conn)
  | _ => True

end PoolPhase

namespace PoolSystem

variable {W : Type} [DecidableEq W] {ip : Bytes} {s : PoolSystem W}

/-- A mutex is held by the worker whose place says so, a worker relies on what
it finds in its slot, and a slot that nobody holds is as the last event left
it. -/
structure Sound (ip : Bytes) (s : PoolSystem W) : Prop where
  pool_held :
    ∀ worker, (s.phase worker).inside = true ↔ s.poolLock = some worker
  slot_held :
    ∀ worker slot,
      (s.phase worker).slot = some slot ↔
        (s.slots slot).lock = some worker
  opens :
    ∀ worker, (s.phase worker).opens = true →
      s.initialised = false ∧ inetPton ip ≠ none
  borrows :
    ∀ worker, (s.phase worker).borrows = true →
      s.initialised = true ∨ inetPton ip = none
  relies :
    ∀ worker slot, (s.phase worker).slot = some slot →
      (s.phase worker).Relies (latest slot s.log) (s.slots slot).conn
        (s.slots slot).inUse
  free :
    ∀ slot, (s.slots slot).lock = none →
      (s.slots slot).inUse = false ∧
        (s.slots slot).conn = latest slot s.log
  serial : Serial s.log

omit [DecidableEq W] in
theorem sound_start : (poolSystemStart W).Sound ip where
  pool_held := fun worker => by simp [poolSystemStart, PoolPhase.inside]
  slot_held := fun worker slot => by simp [poolSystemStart, PoolPhase.slot]
  opens := fun _ => nofun
  borrows := fun _ => nofun
  relies := fun _ _ => nofun
  free := fun _ _ => ⟨rfl, rfl⟩
  serial := trivial

omit [DecidableEq W] in
/-- While a worker opens the pool, nobody has a slot. -/
theorem Sound.lock_eq_none
    (sound : s.Sound ip) {worker : W}
    (opens : (s.phase worker).opens = true) (slot : Fin tcpPoolSize) :
    (s.slots slot).lock = none := by
  obtain ⟨closed, valid⟩ := sound.opens worker opens
  cases held : (s.slots slot).lock with
  | none => rfl
  | some other =>
      have holds := (sound.slot_held other slot).mpr held
      have borrows : (s.phase other).borrows = true := by
        cases phase : s.phase other <;> rw [phase] at holds <;>
          first | rfl | cases holds
      rcases sound.borrows other borrows with opened | invalid
      · rw [closed] at opened
        cases opened
      · exact absurd invalid valid

omit [DecidableEq W] in
/-- Only one worker opens the pool. -/
theorem Sound.opens_unique
    (sound : s.Sound ip) {first second : W}
    (firstOpens : (s.phase first).opens = true)
    (secondOpens : (s.phase second).opens = true) :
    first = second := by
  have inside :
      ∀ worker, (s.phase worker).opens = true →
        s.poolLock = some worker := by
    intro worker opens
    apply (sound.pool_held worker).mp
    cases phase : s.phase worker <;> rw [phase] at opens <;>
      first | rfl | cases opens
  have holds := inside first firstOpens
  rw [inside second secondOpens] at holds
  exact (Option.some.inj holds).symm

/-- A step of a worker that writes no slot. -/
theorem Sound.goto
    (sound : s.Sound ip) {worker : W} {next : PoolPhase}
    {poolLock : Option W} {initialised : Bool} {fwdIp : Bytes}
    (own : next.inside = true ↔ poolLock = some worker)
    (others : ∀ other, other ≠ worker →
      (poolLock = some other ↔ s.poolLock = some other))
    (kept : next.slot = (s.phase worker).slot)
    (opens : next.opens = true →
      initialised = false ∧ inetPton ip ≠ none)
    (borrows : next.borrows = true →
      initialised = true ∨ inetPton ip = none)
    (flag : initialised = s.initialised ∨
      initialised = true ∧ (s.phase worker).opens = true)
    (relies : ∀ slot, next.slot = some slot →
      next.Relies (latest slot s.log) (s.slots slot).conn
        (s.slots slot).inUse) :
    Sound ip
      { s.goto worker next with poolLock, initialised, fwdIp } where
  pool_held := by
    apply
      (Function.forall_update_iff s.phase fun other phase =>
        phase.inside = true ↔ poolLock = some other).mpr
    refine ⟨own, fun other different => ?_⟩
    rw [others other different]
    exact sound.pool_held other
  slot_held := by
    apply
      (Function.forall_update_iff s.phase fun other phase =>
        ∀ slot, phase.slot = some slot ↔
          (s.slots slot).lock = some other).mpr
    refine ⟨fun slot => ?_, fun other _ => sound.slot_held other⟩
    rw [kept]
    exact sound.slot_held worker slot
  opens := by
    apply
      (Function.forall_update_iff s.phase fun _ phase =>
        phase.opens = true → initialised = false ∧ inetPton ip ≠ none).mpr
    refine ⟨opens, fun other different otherOpens => ?_⟩
    rcases flag with unchanged | ⟨-, ownOpens⟩
    · rw [unchanged]
      exact sound.opens other otherOpens
    · exact absurd (sound.opens_unique otherOpens ownOpens) different
  borrows := by
    apply
      (Function.forall_update_iff s.phase fun _ phase =>
        phase.borrows = true →
          initialised = true ∨ inetPton ip = none).mpr
    refine ⟨borrows, fun other _ otherBorrows => ?_⟩
    rcases flag with unchanged | ⟨opened, -⟩
    · rw [unchanged]
      exact sound.borrows other otherBorrows
    · exact Or.inl opened
  relies := by
    apply
      (Function.forall_update_iff s.phase fun _ phase =>
        ∀ slot, phase.slot = some slot →
          phase.Relies (latest slot s.log) (s.slots slot).conn
            (s.slots slot).inUse).mpr
    exact ⟨relies, fun other _ => sound.relies other⟩
  free := sound.free
  serial := sound.serial

/-- A step of a worker that writes the slot it holds, or that nobody holds. -/
theorem Sound.put
    (sound : s.Sound ip) {worker : W} {next : PoolPhase}
    {slot : Fin tcpPoolSize} {after : PoolSlot W}
    {log : List (PoolEvent W)}
    (mine : ∀ other, (s.slots slot).lock = some other → other = worker)
    (kept : ∀ other, other ≠ slot → latest other log = latest other s.log)
    (inside : next.inside = (s.phase worker).inside)
    (had : ∀ other, (s.phase worker).slot = some other → other = slot)
    (held : next.slot = some slot ∧ after.lock = some worker ∨
      next.slot = none ∧ after.lock = none)
    (opens : next.opens = true → (s.phase worker).opens = true)
    (borrows : next.borrows = true → (s.phase worker).borrows = true)
    (relies : next.slot = some slot →
      next.Relies (latest slot log) after.conn after.inUse)
    (free : after.lock = none →
      after.inUse = false ∧ after.conn = latest slot log)
    (serial : Serial log) :
    (s.put worker next slot after log).Sound ip where
  pool_held := by
    apply
      (Function.forall_update_iff s.phase fun other phase =>
        phase.inside = true ↔ s.poolLock = some other).mpr
    refine ⟨?_, fun other _ => sound.pool_held other⟩
    rw [inside]
    exact sound.pool_held worker
  slot_held := by
    have locks :
        ∀ other one,
          ((s.put worker next slot after log).slots one).lock =
              some other ↔
            if one = slot then after.lock = some other
            else (s.slots one).lock = some other := by
      intro other one
      show (Function.update s.slots slot after one).lock = _ ↔ _
      by_cases same : one = slot
      · rw [same, Function.update_self, if_pos rfl]
      · rw [Function.update_of_ne same, if_neg same]
    apply
      (Function.forall_update_iff s.phase fun other phase =>
        ∀ one, phase.slot = some one ↔
          ((s.put worker next slot after log).slots one).lock =
            some other).mpr
    refine ⟨fun one => ?_, fun other different one => ?_⟩
    · rw [locks]
      by_cases same : one = slot
      · rw [if_pos same, same]
        rcases held with ⟨holds, locked⟩ | ⟨holds, locked⟩
        · exact iff_of_true holds locked
        · rw [holds, locked]
          exact iff_of_false nofun nofun
      · rw [if_neg same, ← sound.slot_held worker one]
        rcases held with ⟨holds, -⟩ | ⟨holds, -⟩
        · rw [holds]
          refine
            iff_of_false (fun isOne => same (Option.some.inj isOne).symm)
              fun hadOne => same (had one hadOne)
        · rw [holds]
          exact iff_of_false nofun fun hadOne => same (had one hadOne)
    · rw [locks, sound.slot_held other one]
      by_cases same : one = slot
      · rw [if_pos same, same]
        refine
          iff_of_false (fun lock => different (mine other lock)) ?_
        rcases held with ⟨-, locked⟩ | ⟨-, locked⟩
        · rw [locked]
          exact fun lock => different (Option.some.inj lock).symm
        · rw [locked]
          exact nofun
      · rw [if_neg same]
  opens := by
    apply
      (Function.forall_update_iff s.phase fun _ phase =>
        phase.opens = true →
          s.initialised = false ∧ inetPton ip ≠ none).mpr
    exact
      ⟨fun isOpening => sound.opens worker (opens isOpening),
        fun other _ => sound.opens other⟩
  borrows := by
    apply
      (Function.forall_update_iff s.phase fun _ phase =>
        phase.borrows = true →
          s.initialised = true ∨ inetPton ip = none).mpr
    exact
      ⟨fun borrowing => sound.borrows worker (borrows borrowing),
        fun other _ => sound.borrows other⟩
  relies := by
    have others :
        ∀ one, one ≠ slot →
          (s.put worker next slot after log).slots one = s.slots one :=
      fun one different => Function.update_of_ne different _ _
    have own : (s.put worker next slot after log).slots slot = after :=
      Function.update_self _ _ _
    apply
      (Function.forall_update_iff s.phase fun _ phase =>
        ∀ one, phase.slot = some one →
          phase.Relies (latest one log)
            ((s.put worker next slot after log).slots one).conn
            ((s.put worker next slot after log).slots one).inUse).mpr
    refine ⟨fun one holds => ?_, fun other different one holds => ?_⟩
    · have same : one = slot := by
        rcases held with ⟨isSlot, -⟩ | ⟨nothing, -⟩
        · rw [isSlot] at holds
          exact (Option.some.inj holds).symm
        · rw [nothing] at holds
          cases holds
      rw [same] at holds ⊢
      rw [own]
      exact relies holds
    · have elsewhere : one ≠ slot := by
        intro same
        rw [same] at holds
        exact different (mine other ((sound.slot_held other slot).mp holds))
      rw [others one elsewhere, kept one elsewhere]
      exact sound.relies other one holds
  free := by
    apply
      (Function.forall_update_iff s.slots fun one place =>
        place.lock = none →
          place.inUse = false ∧ place.conn = latest one log).mpr
    refine ⟨free, fun one elsewhere => ?_⟩
    rw [kept one elsewhere]
    exact sound.free one
  serial := serial

/-- A step that changes only where the worker is. -/
theorem Sound.move
    (sound : s.Sound ip) {worker : W} {next : PoolPhase}
    (inside : next.inside = (s.phase worker).inside)
    (kept : next.slot = (s.phase worker).slot)
    (opens : next.opens = true →
      s.initialised = false ∧ inetPton ip ≠ none)
    (borrows : next.borrows = true →
      s.initialised = true ∨ inetPton ip = none)
    (relies : ∀ slot, next.slot = some slot →
      next.Relies (latest slot s.log) (s.slots slot).conn
        (s.slots slot).inUse) :
    (s.goto worker next).Sound ip := by
  have own : next.inside = true ↔ s.poolLock = some worker := by
    rw [inside]
    exact sound.pool_held worker
  exact
    Sound.goto sound own (fun _ _ => Iff.rfl) kept opens borrows
      (Or.inl rfl) relies

/-! ## In front of the pool -/

theorem sound_checking
    (sound : s.Sound ip) {worker : W} (at_ : s.phase worker = .checking)
    (answer : PoolAnswer) :
    (s.advance ip worker answer).Sound ip := by
  rw [advance, at_]
  simp only
  split
  · rename_i opened
    exact
      sound.move (by rw [at_]; rfl) (by rw [at_]; rfl) nofun
        (fun _ => Or.inl opened) nofun
  · exact
      sound.move (by rw [at_]; rfl) (by rw [at_]; rfl) nofun nofun nofun

theorem sound_locking
    (sound : s.Sound ip) {worker : W} (at_ : s.phase worker = .locking)
    (answer : PoolAnswer) :
    (s.advance ip worker answer).Sound ip := by
  rw [advance, at_]
  simp only
  split
  · rename_i unlocked
    refine
      Sound.goto sound (iff_of_true rfl rfl) ?_ (by rw [at_]; rfl) nofun
        nofun (Or.inl rfl) nofun
    intro other different
    rw [unlocked]
    exact
      iff_of_false (fun lock => different (Option.some.inj lock).symm) nofun
  · exact sound

theorem sound_testing
    (sound : s.Sound ip) {worker : W} (at_ : s.phase worker = .testing)
    (answer : PoolAnswer) :
    (s.advance ip worker answer).Sound ip := by
  rw [advance, at_]
  simp only
  split
  · rename_i opened
    exact
      sound.move (by rw [at_]; rfl) (by rw [at_]; rfl) nofun
        (fun _ => Or.inl opened) nofun
  · rename_i closed
    split
    · rename_i invalid
      exact
        sound.move (by rw [at_]; rfl) (by rw [at_]; rfl) nofun
          (fun _ => Or.inr invalid) nofun
    · rename_i valid
      exact
        sound.move (by rw [at_]; rfl) (by rw [at_]; rfl)
          (fun _ => ⟨by simpa using closed, valid⟩) nofun nofun

omit [DecidableEq W] in
theorem latest_opened_ne
    {slot other : Fin tcpPoolSize} (different : other ≠ slot)
    (conn : TcpConn) (log : List (PoolEvent W)) :
    latest other (.opened slot conn :: log) = latest other log :=
  if_neg (Ne.symm different)

omit [DecidableEq W] in
theorem latest_used_ne
    {use : PoolUse W} {other : Fin tcpPoolSize}
    (different : other ≠ use.slot) (log : List (PoolEvent W)) :
    latest other (.used use :: log) = latest other log :=
  if_neg (Ne.symm different)

theorem sound_opening
    (sound : s.Sound ip) {worker : W} {slot : Fin tcpPoolSize}
    (at_ : s.phase worker = .opening slot) (answer : PoolAnswer) :
    (s.advance ip worker answer).Sound ip := by
  have opens : (s.phase worker).opens = true := by
    rw [at_]
    rfl
  have nobody := sound.lock_eq_none opens slot
  rw [advance, at_]
  simp only
  have next :
      ∀ next : PoolPhase, next.inside = true → next.slot = none →
        next.borrows = false →
        ∀ conn,
          (s.put worker next slot ⟨conn, false, none⟩
            (.opened slot conn :: s.log)).Sound ip := by
    intro next inside noSlot noBorrow conn
    apply Sound.put sound
    case mine =>
      intro other held
      rw [nobody] at held
      cases held
    case kept =>
      intro other different
      exact latest_opened_ne different conn s.log
    case inside =>
      rw [inside, at_]
      rfl
    case had =>
      rw [at_]
      exact nofun
    case held => exact Or.inr ⟨noSlot, rfl⟩
    case opens => exact fun _ => opens
    case borrows =>
      rw [noBorrow]
      exact nofun
    case relies =>
      rw [noSlot]
      exact nofun
    case free => exact fun _ => ⟨rfl, (if_pos rfl).symm⟩
    case serial => exact sound.serial
  split
  · exact next _ rfl rfl rfl _
  · exact next _ rfl rfl rfl _

theorem sound_publishing
    (sound : s.Sound ip) {worker : W}
    (at_ : s.phase worker = .publishing) (answer : PoolAnswer) :
    (s.advance ip worker answer).Sound ip := by
  have holds : s.poolLock = some worker :=
    (sound.pool_held worker).mp (by rw [at_]; rfl)
  rw [advance, at_]
  simp only
  refine
    Sound.goto sound (iff_of_false nofun nofun) ?_ (by rw [at_]; rfl)
      nofun (fun _ => Or.inl rfl) (Or.inr ⟨rfl, by rw [at_]; rfl⟩) nofun
  intro other different
  rw [holds]
  exact
    iff_of_false nofun fun lock => different (Option.some.inj lock).symm

theorem sound_unlocking
    (sound : s.Sound ip) {worker : W}
    (at_ : s.phase worker = .unlocking) (answer : PoolAnswer) :
    (s.advance ip worker answer).Sound ip := by
  have known := sound.borrows worker (by rw [at_]; rfl)
  have holds : s.poolLock = some worker :=
    (sound.pool_held worker).mp (by rw [at_]; rfl)
  rw [advance, at_]
  simp only
  refine
    Sound.goto sound (iff_of_false nofun nofun) ?_ (by rw [at_]; rfl)
      nofun (fun _ => known) (Or.inl rfl) nofun
  intro other different
  rw [holds]
  exact
    iff_of_false nofun fun lock => different (Option.some.inj lock).symm

/-! ## With a slot -/

theorem sound_trying
    (sound : s.Sound ip) {worker : W} {slot : Fin tcpPoolSize}
    (at_ : s.phase worker = .trying slot) (answer : PoolAnswer) :
    (s.advance ip worker answer).Sound ip := by
  have known := sound.borrows worker (by rw [at_]; rfl)
  rw [advance, at_]
  simp only
  split
  · rename_i unlocked
    apply Sound.put sound
    case mine =>
      intro other held
      rw [unlocked] at held
      cases held
    case kept => exact fun _ _ => rfl
    case inside => rw [at_]; rfl
    case had =>
      rw [at_]
      exact nofun
    case held => exact Or.inl ⟨rfl, rfl⟩
    case opens => exact nofun
    case borrows => exact fun _ => by rw [at_]; rfl
    case relies => exact fun _ => sound.free slot unlocked
    case free => exact nofun
    case serial => exact sound.serial
  · exact
      sound.move (by rw [at_]; rfl) (by rw [at_]; rfl) nofun
        (fun _ => known) nofun

/-- A step of the worker that holds the slot and keeps it, without a use of
the log. -/
theorem Sound.hold
    (sound : s.Sound ip) {worker : W} {slot : Fin tcpPoolSize}
    (holds : (s.phase worker).slot = some slot) {next : PoolPhase}
    (keeps : next.slot = some slot) {conn : TcpConn} {inUse : Bool}
    (relies : next.Relies (latest slot s.log) conn inUse) :
    (s.put worker next slot
        { s.slots slot with conn, inUse } s.log).Sound ip := by
  have lock := (sound.slot_held worker slot).mp holds
  have noInside :
      ∀ phase : PoolPhase, phase.slot = some slot →
        phase.inside = false ∧ phase.opens = false ∧
          phase.borrows = true := by
    intro phase isSome
    cases phase with
    | idle => cases isSome
    | checking => cases isSome
    | locking => cases isSome
    | testing => cases isSome
    | opening => cases isSome
    | publishing => cases isSome
    | unlocking => cases isSome
    | trying => cases isSome
    | _ => exact ⟨rfl, rfl, rfl⟩
  apply Sound.put sound
  case mine =>
    intro other held
    rw [lock] at held
    exact (Option.some.inj held).symm
  case kept => exact fun _ _ => rfl
  case inside => rw [(noInside _ keeps).1, (noInside _ holds).1]
  case had =>
    intro other hasOther
    rw [holds] at hasOther
    exact (Option.some.inj hasOther).symm
  case held => exact Or.inl ⟨keeps, lock⟩
  case opens =>
    rw [(noInside _ keeps).2.1]
    exact nofun
  case borrows => exact fun _ => (noInside _ holds).2.2
  case relies => exact fun _ => relies
  case free =>
    intro unlocked
    rw [show (s.slots slot).lock = none from unlocked] at lock
    cases lock
  case serial => exact sound.serial

/-- The same where the slot stays as it is. -/
theorem Sound.stay
    (sound : s.Sound ip) {worker : W} {slot : Fin tcpPoolSize}
    (holds : (s.phase worker).slot = some slot) {next : PoolPhase}
    (keeps : next.slot = some slot)
    (relies :
      next.Relies (latest slot s.log) (s.slots slot).conn
        (s.slots slot).inUse) :
    (s.goto worker next).Sound ip := by
  have same :
      s.put worker next slot (s.slots slot) s.log =
        s.goto worker next := by
    rw [PoolSystem.put, Function.update_eq_self]
    rfl
  rw [← same]
  exact sound.hold holds keeps relies

/-- The worker gives its slot back. -/
theorem Sound.release
    (sound : s.Sound ip) {worker : W} {slot : Fin tcpPoolSize}
    (holds : (s.phase worker).slot = some slot) {next : PoolPhase}
    (inside : next.inside = false) (leaves : next.slot = none)
    (opens : next.opens = false) {conn : TcpConn}
    {log : List (PoolEvent W)}
    (kept : ∀ other, other ≠ slot → latest other log = latest other s.log)
    (last : conn = latest slot log) (serial : Serial log) :
    (s.put worker next slot ⟨conn, false, none⟩ log).Sound ip := by
  have lock := (sound.slot_held worker slot).mp holds
  have phase :
      (s.phase worker).inside = false ∧
        (s.phase worker).borrows = true := by
    cases at_ : s.phase worker <;> rw [at_] at holds <;>
      first | exact ⟨rfl, rfl⟩ | cases holds
  apply Sound.put sound
  case mine =>
    intro other held
    rw [lock] at held
    exact (Option.some.inj held).symm
  case kept => exact kept
  case inside => rw [inside, phase.1]
  case had =>
    intro other hasOther
    rw [holds] at hasOther
    exact (Option.some.inj hasOther).symm
  case held => exact Or.inr ⟨leaves, rfl⟩
  case opens =>
    rw [opens]
    exact nofun
  case borrows => exact fun _ => phase.2
  case relies =>
    rw [leaves]
    exact nofun
  case free => exact fun _ => ⟨rfl, last⟩
  case serial => exact serial

theorem sound_examining
    (sound : s.Sound ip) {worker : W} {slot : Fin tcpPoolSize}
    (at_ : s.phase worker = .examining slot) (answer : PoolAnswer) :
    (s.advance ip worker answer).Sound ip := by
  have holds : (s.phase worker).slot = some slot := by
    rw [at_]
    rfl
  have relies := sound.relies worker slot holds
  rw [at_] at relies
  obtain ⟨unused, isLast⟩ := relies
  rw [advance, at_]
  simp only
  split
  · rename_i connected
    refine sound.hold holds rfl ⟨rfl, Or.inl ⟨isLast, ?_⟩, rfl⟩
    rw [← isLast]
    exact connected
  · rename_i closed
    exact sound.stay holds rfl ⟨unused, isLast, by simpa using closed⟩

theorem sound_reconnecting
    (sound : s.Sound ip) {worker : W} {slot : Fin tcpPoolSize}
    (at_ : s.phase worker = .reconnecting slot) (answer : PoolAnswer) :
    (s.advance ip worker answer).Sound ip := by
  have holds : (s.phase worker).slot = some slot := by
    rw [at_]
    rfl
  have relies := sound.relies worker slot holds
  rw [at_] at relies
  obtain ⟨unused, isLast, closed⟩ := relies
  rw [advance, at_]
  simp only
  split
  · rename_i sock _
    refine sound.hold holds rfl ⟨rfl, Or.inr ⟨?_, sock, _, rfl⟩, rfl⟩
    rw [← isLast]
    simpa using closed
  · exact sound.stay holds rfl ⟨unused, isLast⟩

theorem sound_releasing
    (sound : s.Sound ip) {worker : W} {slot : Fin tcpPoolSize}
    (at_ : s.phase worker = .releasing slot) (answer : PoolAnswer) :
    (s.advance ip worker answer).Sound ip := by
  have holds : (s.phase worker).slot = some slot := by
    rw [at_]
    rfl
  have relies := sound.relies worker slot holds
  rw [at_] at relies
  obtain ⟨unused, isLast⟩ := relies
  rw [advance, at_]
  simp only
  rw [unused]
  exact
    sound.release holds rfl rfl rfl (fun _ _ => rfl) isLast sound.serial

/-! ## With a connection -/

theorem exchangeOn_of_unsent
    {conn : TcpConn} {outcome : TcpOutcome}
    (unsent : outcome.lengthSent = false ∨ outcome.querySent = false) :
    exchangeOn conn outcome = (none, ⟨none, conn.peer, []⟩) := by
  rw [exchangeOn]
  exact if_pos unsent

theorem sound_sendingLength
    (sound : s.Sound ip) {worker : W} {slot : Fin tcpPoolSize}
    {borrowed : TcpConn} (at_ : s.phase worker = .sendingLength slot borrowed)
    (answer : PoolAnswer) :
    (s.advance ip worker answer).Sound ip := by
  have holds : (s.phase worker).slot = some slot := by
    rw [at_]
    rfl
  have relies := sound.relies worker slot holds
  rw [at_] at relies
  obtain ⟨inUse, reconnected, isConn⟩ := relies
  rw [advance, at_]
  simp only
  split
  · exact sound.stay holds rfl ⟨inUse, reconnected, isConn⟩
  · refine sound.stay holds rfl ⟨inUse, reconnected, ?_, ?_⟩
    · rw [isConn]
    · exact exchangeOn_of_unsent (Or.inl rfl)

theorem sound_sendingQuery
    (sound : s.Sound ip) {worker : W} {slot : Fin tcpPoolSize}
    {borrowed : TcpConn} (at_ : s.phase worker = .sendingQuery slot borrowed)
    (answer : PoolAnswer) :
    (s.advance ip worker answer).Sound ip := by
  have holds : (s.phase worker).slot = some slot := by
    rw [at_]
    rfl
  have relies := sound.relies worker slot holds
  rw [at_] at relies
  obtain ⟨inUse, reconnected, isConn⟩ := relies
  rw [advance, at_]
  simp only
  split
  · exact sound.stay holds rfl ⟨inUse, reconnected, isConn⟩
  · refine sound.stay holds rfl ⟨inUse, reconnected, ?_, ?_⟩
    · rw [isConn]
    · exact exchangeOn_of_unsent (Or.inr rfl)

theorem sound_readingLength
    (sound : s.Sound ip) {worker : W} {slot : Fin tcpPoolSize}
    {borrowed : TcpConn} (at_ : s.phase worker = .readingLength slot borrowed)
    (answer : PoolAnswer) :
    (s.advance ip worker answer).Sound ip := by
  have holds : (s.phase worker).slot = some slot := by
    rw [at_]
    rfl
  have relies := sound.relies worker slot holds
  rw [at_] at relies
  obtain ⟨inUse, reconnected, isConn⟩ := relies
  rw [advance, at_]
  simp only
  rw [isConn]
  split
  · rename_i high low pending stream
    have kept : answer.reset = false := by
      cases reset : answer.reset with
      | false => rfl
      | true =>
          rw [reset] at stream
          cases stream
    rw [kept] at stream
    have whole : borrowed.pending ++ answer.arrived = high :: low :: pending :=
      stream
    by_cases announced :
        0 < (word16 high low).toNat ∧ (word16 high low).toNat < ednsSize
    · rw [if_pos announced]
      exact
        sound.hold holds rfl
          ⟨inUse, reconnected, announced, pending, rfl, whole⟩
    · rw [if_neg announced]
      refine sound.hold holds rfl ⟨inUse, reconnected, ?_⟩
      simp only [exchangeOn, kept, Bool.true_eq_false, or_self, if_false,
        Bool.false_eq_true, whole, if_neg announced]
  · rename_i stream
    refine sound.hold holds rfl ⟨inUse, reconnected, rfl, ?_⟩
    simp only [exchangeOn, Bool.true_eq_false, or_self, if_false]

theorem sound_readingReply
    (sound : s.Sound ip) {worker : W} {slot : Fin tcpPoolSize}
    {borrowed : TcpConn} {high low : UInt8} {arrived : Bytes}
    (at_ : s.phase worker = .readingReply slot borrowed high low arrived)
    (answer : PoolAnswer) :
    (s.advance ip worker answer).Sound ip := by
  have holds : (s.phase worker).slot = some slot := by
    rw [at_]
    rfl
  have relies := sound.relies worker slot holds
  rw [at_] at relies
  obtain ⟨inUse, reconnected, announced, pending, isConn, stream⟩ := relies
  rw [advance, at_]
  simp only
  refine sound.hold holds rfl ⟨inUse, reconnected, ?_⟩
  have whole :
      borrowed.pending ++ (arrived ++ answer.arrived) =
        high :: low :: (pending ++ answer.arrived) := by
    rw [← List.append_assoc, stream]
    rfl
  simp only [exchangeOn, Bool.true_eq_false, or_self, if_false,
    Bool.false_eq_true, whole, if_pos announced, isConn]

theorem sound_closing
    (sound : s.Sound ip) {worker : W} {slot : Fin tcpPoolSize}
    {borrowed : TcpConn} {outcome : TcpOutcome}
    (at_ : s.phase worker = .closing slot borrowed outcome)
    (answer : PoolAnswer) :
    (s.advance ip worker answer).Sound ip := by
  have holds : (s.phase worker).slot = some slot := by
    rw [at_]
    rfl
  have relies := sound.relies worker slot holds
  rw [at_] at relies
  obtain ⟨inUse, reconnected, peer, fails⟩ := relies
  rw [advance, at_]
  simp only
  refine sound.hold holds rfl ⟨inUse, reconnected, ?_⟩
  rw [fails, peer]

theorem sound_returning
    (sound : s.Sound ip) {worker : W} {slot : Fin tcpPoolSize}
    {borrowed : TcpConn} {outcome : TcpOutcome} {reply : Option Bytes}
    (at_ : s.phase worker = .returning slot borrowed outcome reply)
    (answer : PoolAnswer) :
    (s.advance ip worker answer).Sound ip := by
  have holds : (s.phase worker).slot = some slot := by
    rw [at_]
    rfl
  have relies := sound.relies worker slot holds
  rw [at_] at relies
  obtain ⟨-, reconnected, whole⟩ := relies
  rw [advance, at_]
  simp only
  exact
    sound.release holds rfl rfl rfl
      (fun _ different => latest_used_ne different s.log)
      (if_pos rfl).symm ⟨reconnected, whole.symm, sound.serial⟩

theorem sound_step (sound : s.Sound ip) (action : PoolStep W) :
    (s.step ip action).Sound ip := by
  cases action with
  | query worker =>
      rw [step]
      split
      · rename_i at_
        exact
          sound.move (by rw [at_]; rfl) (by rw [at_]; rfl) nofun nofun nofun
      · exact sound
  | advance worker answer =>
      rw [step]
      cases at_ : s.phase worker with
      | idle =>
          rw [advance, at_]
          exact sound
      | checking => exact sound_checking sound at_ answer
      | locking => exact sound_locking sound at_ answer
      | testing => exact sound_testing sound at_ answer
      | opening slot => exact sound_opening sound at_ answer
      | publishing => exact sound_publishing sound at_ answer
      | unlocking => exact sound_unlocking sound at_ answer
      | trying slot => exact sound_trying sound at_ answer
      | examining slot => exact sound_examining sound at_ answer
      | reconnecting slot => exact sound_reconnecting sound at_ answer
      | releasing slot => exact sound_releasing sound at_ answer
      | sendingLength slot borrowed =>
          exact sound_sendingLength sound at_ answer
      | sendingQuery slot borrowed =>
          exact sound_sendingQuery sound at_ answer
      | readingLength slot borrowed =>
          exact sound_readingLength sound at_ answer
      | readingReply slot borrowed high low arrived =>
          exact sound_readingReply sound at_ answer
      | closing slot borrowed outcome => exact sound_closing sound at_ answer
      | returning slot borrowed outcome reply =>
          exact sound_returning sound at_ answer

end PoolSystem

end DnsFirewall
