import DnsFirewall.Foundations.Runs
import DnsFirewall.Resolver.Model

/-!
# The pooled connections

A connection to the forwarder carries replies behind their lengths.  A reply
that is too long for the buffer, or that does not arrive in time behind its
length, is left unread on the open connection, and the next query reads from
the middle of it.
-/

namespace DnsFirewall

open BigEndian CString Runs

/-! ## One connection -/

/-- What the TCP branch does with its connection: the reply it takes, and the
connection that it gives back. -/
def exchangeOn (conn : TcpConn) (outcome : TcpOutcome) :
    Option Bytes × TcpConn :=
  if outcome.lengthSent = false ∨ outcome.querySent = false then
    (none, ⟨none, conn.peer, []⟩)
  else
    match if outcome.reset then [] else conn.pending ++ outcome.arrived with
    | high :: low :: pending =>
        let rlen := (word16 high low).toNat
        if 0 < rlen ∧ rlen < ednsSize then
          let raw := pending.take rlen
          (if raw.length = rlen then some raw else none,
            { conn with pending := pending.drop rlen })
        else
          (none, { conn with pending })
    | _ => (none, ⟨none, conn.peer, []⟩)

/-- In the pool the exchange is that of the borrowed connection. -/
theorem tcpExchange_conns
    (env : Env) (i : Fin tcpPoolSize) (id : UInt16)
    (question : DnsQuestion) (w : World) :
    (tcpExchange env i id question w).1 =
        (exchangeOn (w.pool.conns i) (env.tcp w.ticks)).1 ∧
      (tcpExchange env i id question w).2.pool.conns =
        Function.update w.pool.conns i
          (exchangeOn (w.pool.conns i) (env.tcp w.ticks)).2 := by
  rw [tcpExchange, exchangeOn, World.setConn]
  simp only
  split
  · exact ⟨rfl, rfl⟩
  · generalize
      (if (env.tcp w.ticks).reset = true then []
        else (w.pool.conns i).pending ++ (env.tcp w.ticks).arrived) =
        stream
    rcases stream with _ | ⟨high, _ | ⟨low, pending⟩⟩
    · exact ⟨rfl, rfl⟩
    · exact ⟨rfl, rfl⟩
    · simp only
      split
      · exact ⟨rfl, rfl⟩
      · exact ⟨rfl, rfl⟩

/-- The connection that is borrowed is the pooled one, or a new one in its
place where that was closed. -/
def Reconnected (before after : TcpConn) : Prop :=
  (after = before ∧ before.sock.isSome = true) ∨
    (before.sock = none ∧
      ∃ sock peer, after = ⟨some sock, peer, []⟩)

theorem borrowPass_conns
    (env : Env) {slots : List (Fin tcpPoolSize)} {w after : World}
    {i : Fin tcpPoolSize}
    (borrowed : borrowPass env slots w = (some i, after)) :
    Reconnected (w.pool.conns i) (after.pool.conns i) ∧
      ∀ j, j ≠ i → after.pool.conns j = w.pool.conns j := by
  induction slots generalizing w with
  | nil => cases borrowed
  | cons slot rest inductionHypothesis =>
      unfold borrowPass at borrowed
      simp only at borrowed
      split at borrowed
      · have later := inductionHypothesis borrowed
        exact later
      · split at borrowed
        · rename_i connected
          cases borrowed
          exact ⟨Or.inl ⟨rfl, connected⟩, fun _ _ => rfl⟩
        · rename_i closed
          split at borrowed
          · have later := inductionHypothesis borrowed
            exact later
          · rename_i conn reconnected
            cases borrowed
            refine ⟨Or.inr ⟨?_, ?_⟩, ?_⟩
            · simpa using closed
            · unfold tcpConnect at reconnected
              split at reconnected
              · cases reconnected
              · cases reconnected
                exact ⟨_, _, Function.update_self _ _ _⟩
            · intro j other
              exact Function.update_of_ne other _ _

theorem borrowPass_none_conns
    (env : Env) {slots : List (Fin tcpPoolSize)} {w after : World}
    (borrowed : borrowPass env slots w = (none, after)) :
    after.pool.conns = w.pool.conns := by
  induction slots generalizing w with
  | nil =>
      cases borrowed
      rfl
  | cons slot rest inductionHypothesis =>
      unfold borrowPass at borrowed
      simp only at borrowed
      split at borrowed
      · have later := inductionHypothesis borrowed
        exact later
      · split at borrowed
        · cases borrowed
        · split at borrowed
          · have later := inductionHypothesis borrowed
            exact later
          · cases borrowed

/-- `borrow_tcp_conn` returns a connected slot and changes no other. -/
theorem borrowTcpConn_conns
    (env : Env) {passes : Nat} {w after : World} {i : Fin tcpPoolSize}
    (borrowed : borrowTcpConn env passes w = (some i, after)) :
    Reconnected (w.pool.conns i) (after.pool.conns i) ∧
      ∀ j, j ≠ i → after.pool.conns j = w.pool.conns j := by
  induction passes generalizing w with
  | zero => cases borrowed
  | succ passes inductionHypothesis =>
      unfold borrowTcpConn at borrowed
      split at borrowed
      · rename_i slot next pass
        cases borrowed
        exact borrowPass_conns env pass
      · rename_i next pass
        have kept := borrowPass_none_conns env pass
        have later := inductionHypothesis borrowed
        rw [kept] at later
        exact later

/-! ## The server -/

/-- A reply with its length in front of it. -/
def frame (reply : Bytes) : Bytes :=
  bytes16 reply.length.toUInt16 ++ reply

/-- A reply that a length of sixteen bits can announce. -/
structure ServerReply where
  bytes : Bytes
  nonempty : 0 < bytes.length
  short : bytes.length ≤ 65535

/-- One exchange: whether a new connection is made where one is needed, the
outcomes of the sends, whether the connection is reset, the reply that the
server gives to the query, and how many of the bytes that it owes arrive before
the reads give up. -/
structure Served where
  connects : Option Nat
  lengthSent : Bool
  querySent : Bool
  reset : Bool
  reply : ServerReply
  arrives : Nat

/-- The connection with the bytes that the server has given and that have not
arrived. -/
structure ServedConn where
  conn : TcpConn
  owed : Bytes

namespace ServedConn

/-- The connection after `borrow_tcp_conn`. -/
def borrowed (s : ServedConn) (x : Served) : Option ServedConn :=
  match s.conn.sock with
  | some _ => some s
  | none => x.connects.map fun sock => ⟨⟨some sock, s.conn.peer, []⟩, []⟩

/-- The bytes of the server on the way during the exchange. -/
def stream (s : ServedConn) (x : Served) : Bytes :=
  s.owed ++ frame x.reply.bytes

def outcome (s : ServedConn) (x : Served) : TcpOutcome where
  lengthSent := x.lengthSent
  querySent := x.querySent
  reset := x.reset
  arrived := (s.stream x).take x.arrives

/-- The exchange on a borrowed connection. -/
def exchange (s : ServedConn) (x : Served) : Option Bytes × ServedConn :=
  let (reply, conn) := exchangeOn s.conn (s.outcome x)
  (reply, ⟨conn, (s.stream x).drop x.arrives⟩)

/-- The reply that the TCP branch takes, and what it gives back; without a
connection the branch waits. -/
def serve (s : ServedConn) (x : Served) : Option Bytes × ServedConn :=
  match s.borrowed x with
  | none => (none, s)
  | some s => s.exchange x

def next (s : ServedConn) (x : Served) : ServedConn :=
  (s.serve x).2

/-- The socket is closed, or nothing of an earlier reply is left. -/
def InStep (s : ServedConn) : Prop :=
  s.conn.sock = none ∨ (s.conn.pending = [] ∧ s.owed = [])

/-- The exchange takes no reply but that of its own query, and gives the
connection back in step. -/
def KeepsStep (s : ServedConn) (x : Served) : Prop :=
  (∀ raw, (s.serve x).1 = some raw → raw = x.reply.bytes) ∧
    (s.next x).InStep

end ServedConn

/-- The exchange ends before the length of a reply, or with a whole reply that
fits the buffer. -/
def Served.Settled (x : Served) : Prop :=
  x.lengthSent = false ∨ x.querySent = false ∨ x.reset = true ∨
    x.arrives < 2 ∨
      (x.reply.bytes.length < ednsSize ∧
        x.reply.bytes.length + 2 ≤ x.arrives)

/-- There is no connection, or the exchange on it is settled. -/
def Undisturbing (s : ServedConn) (x : Served) : Prop :=
  s.borrowed x = none ∨ x.Settled

/-! ## One exchange -/

/-- The two bytes in front of a reply announce its length. -/
theorem exists_frame (reply : ServerReply) :
    ∃ high low, frame reply.bytes = high :: low :: reply.bytes ∧
      (word16 high low).toNat = reply.bytes.length := by
  refine ⟨_, _, rfl, ?_⟩
  have short := reply.short
  rw [word16_bytes16]
  simp
  omega

/-- An exchange that fails before it has a length closes the connection. -/
theorem exchangeOn_of_failed
    {conn : TcpConn} {outcome : TcpOutcome}
    (failed :
      outcome.lengthSent = false ∨ outcome.querySent = false ∨
        outcome.reset = true ∨
          (conn.pending ++ outcome.arrived).length < 2) :
    (exchangeOn conn outcome).1 = none ∧
      (exchangeOn conn outcome).2.sock = none := by
  rw [exchangeOn]
  by_cases unsent : outcome.lengthSent = false ∨ outcome.querySent = false
  · rw [if_pos unsent]
    exact ⟨rfl, rfl⟩
  rw [if_neg unsent]
  by_cases broken : outcome.reset = true
  · rw [if_pos broken]
    exact ⟨rfl, rfl⟩
  rw [if_neg broken]
  have short : (conn.pending ++ outcome.arrived).length < 2 := by
    rcases failed with isUnsent | isUnsent | isBroken | short
    · exact absurd (Or.inl isUnsent) unsent
    · exact absurd (Or.inr isUnsent) unsent
    · exact absurd isBroken broken
    · exact short
  generalize conn.pending ++ outcome.arrived = stream at short ⊢
  rcases stream with _ | ⟨high, _ | ⟨low, pending⟩⟩
  · exact ⟨rfl, rfl⟩
  · exact ⟨rfl, rfl⟩
  · simp only [List.length_cons] at short
    omega

/-- With nothing left of an earlier reply, the exchange works on what arrives
of its own. -/
theorem exchangeOn_of_answered
    {conn : TcpConn} {outcome : TcpOutcome} {reply : ServerReply}
    {arrives : Nat} (drained : conn.pending = [])
    (lengthSent : outcome.lengthSent = true)
    (querySent : outcome.querySent = true) (kept : outcome.reset = false)
    (arrived : outcome.arrived = (frame reply.bytes).take (arrives + 2)) :
    exchangeOn conn outcome =
      if reply.bytes.length < ednsSize then
        (if reply.bytes.length ≤ arrives then some reply.bytes else none,
          { conn with pending := [] })
      else
        (none, { conn with pending := reply.bytes.take arrives }) := by
  obtain ⟨high, low, isFrame, length⟩ := exists_frame reply
  have nonempty := reply.nonempty
  rw [exchangeOn]
  rw [lengthSent, querySent, kept, drained, arrived, isFrame]
  simp only [Bool.true_eq_false, or_self, if_false, Bool.false_eq_true,
    List.nil_append, List.take_succ_cons, length, nonempty, true_and]
  by_cases fits : reply.bytes.length < ednsSize
  · rw [if_pos fits, if_pos fits]
    have rest : (reply.bytes.take arrives).drop reply.bytes.length = [] :=
      List.drop_eq_nil_of_le (List.length_take_le' _ _)
    rw [rest]
    by_cases whole : reply.bytes.length ≤ arrives
    · rw [if_pos whole, List.take_of_length_le whole, List.take_length,
        if_pos rfl]
    · have cut :
          ((reply.bytes.take arrives).take reply.bytes.length).length ≠
            reply.bytes.length := by
        rw [List.length_take, List.length_take]
        omega
      rw [if_neg whole, if_neg cut]
  · rw [if_neg fits, if_neg fits]

namespace ServedConn

/-- A connection on which nothing of an earlier reply is left. -/
structure Drained (s : ServedConn) : Prop where
  connected : s.conn.sock.isSome = true
  read : s.conn.pending = []
  paid : s.owed = []

/-- The exchange gets as far as the length of the reply. -/
structure Announced (x : Served) (arrives : Nat) : Prop where
  lengthSent : x.lengthSent = true
  querySent : x.querySent = true
  kept : x.reset = false
  arrives : x.arrives = arrives + 2

theorem Drained.exchange_of_announced
    {s : ServedConn} (drained : s.Drained) {x : Served} {arrives : Nat}
    (announced : Announced x arrives) :
    s.exchange x =
      if x.reply.bytes.length < ednsSize then
        (if x.reply.bytes.length ≤ arrives then some x.reply.bytes
            else none,
          ⟨{ s.conn with pending := [] }, x.reply.bytes.drop arrives⟩)
      else
        (none,
          ⟨{ s.conn with pending := x.reply.bytes.take arrives },
            x.reply.bytes.drop arrives⟩) := by
  have stream : s.stream x = frame x.reply.bytes := by
    rw [ServedConn.stream]
    rw [drained.paid, List.nil_append]
  have left : (s.stream x).drop x.arrives = x.reply.bytes.drop arrives := by
    obtain ⟨high, low, isFrame, _⟩ := exists_frame x.reply
    rw [stream, isFrame, announced.arrives]
    rfl
  have result :=
    @exchangeOn_of_answered s.conn (s.outcome x) x.reply arrives
      drained.read announced.lengthSent announced.querySent announced.kept
      (by
        rw [ServedConn.outcome]
        rw [stream, announced.arrives])
  rw [ServedConn.exchange]
  by_cases fits : x.reply.bytes.length < ednsSize
  · rw [if_pos fits] at result
    rw [if_pos fits, result, left]
  · rw [if_neg fits] at result
    rw [if_neg fits, result, left]

/-- An exchange that does not get that far closes the connection. -/
theorem Drained.exchange_of_failed
    {s : ServedConn} (drained : s.Drained) {x : Served}
    (failed :
      x.lengthSent = false ∨ x.querySent = false ∨ x.reset = true ∨
        x.arrives < 2) :
    (s.exchange x).1 = none ∧ (s.exchange x).2.conn.sock = none := by
  apply exchangeOn_of_failed
  rcases failed with unsent | unsent | broken | few
  · exact Or.inl unsent
  · exact Or.inr (Or.inl unsent)
  · exact Or.inr (Or.inr (Or.inl broken))
  · refine Or.inr (Or.inr (Or.inr ?_))
    rw [ServedConn.outcome]
    rw [drained.read, List.nil_append, List.length_take]
    omega

theorem failed_or_announced (x : Served) :
    (x.lengthSent = false ∨ x.querySent = false ∨ x.reset = true ∨
        x.arrives < 2) ∨
      ∃ arrives, Announced x arrives := by
  by_cases failed :
      x.lengthSent = false ∨ x.querySent = false ∨ x.reset = true ∨
        x.arrives < 2
  · exact Or.inl failed
  · simp only [not_or, Bool.not_eq_false, Bool.not_eq_true, Nat.not_lt]
      at failed
    obtain ⟨lengthSent, querySent, kept, two⟩ := failed
    exact
      Or.inr
        ⟨x.arrives - 2, lengthSent, querySent, kept, by omega⟩

theorem Announced.settled_iff
    {x : Served} {arrives : Nat} (announced : Announced x arrives) :
    x.Settled ↔
      x.reply.bytes.length < ednsSize ∧ x.reply.bytes.length ≤ arrives := by
  rw [Served.Settled]
  rw [announced.lengthSent, announced.querySent, announced.kept,
    announced.arrives]
  simp only [Bool.true_eq_false, Bool.false_eq_true, false_or]
  omega

/-- On a drained connection an exchange keeps step exactly when it is settled.
-/
theorem Drained.keeps_iff
    {s : ServedConn} (drained : s.Drained) (x : Served) :
    ((∀ raw, (s.exchange x).1 = some raw → raw = x.reply.bytes) ∧
        (s.exchange x).2.InStep) ↔
      x.Settled := by
  rcases failed_or_announced x with failed | ⟨arrives, announced⟩
  · obtain ⟨takesNone, closes⟩ := drained.exchange_of_failed failed
    refine ⟨fun _ => ?_, fun _ => ⟨?_, Or.inl closes⟩⟩
    · rw [Served.Settled]
      rcases failed with unsent | unsent | broken | few
      · exact Or.inl unsent
      · exact Or.inr (Or.inl unsent)
      · exact Or.inr (Or.inr (Or.inl broken))
      · exact Or.inr (Or.inr (Or.inr (Or.inl few)))
    · intro raw taken
      rw [takesNone] at taken
      cases taken
  · have isOpen : s.conn.sock ≠ none := by
      intro closed
      have connected := drained.connected
      rw [closed] at connected
      cases connected
    rw [announced.settled_iff, drained.exchange_of_announced announced]
    rw [InStep]
    by_cases fits : x.reply.bytes.length < ednsSize
    · rw [if_pos fits]
      simp only [isOpen, false_or, true_and, List.drop_eq_nil_iff, fits]
      refine ⟨And.right, fun whole => ⟨?_, whole⟩⟩
      intro raw taken
      rw [if_pos whole] at taken
      exact (Option.some.inj taken).symm
    · rw [if_neg fits]
      simp only [isOpen, false_or, fits, false_and, iff_false]
      intro given
      obtain ⟨-, read, paid⟩ := given
      -- what is neither read nor owed would be the whole reply
      have all := List.take_append_drop arrives x.reply.bytes
      have nonempty := x.reply.nonempty
      rw [read, paid] at all
      rw [← all] at nonempty
      exact Nat.lt_irrefl 0 nonempty

/-- A connection in step is drained when it is borrowed. -/
theorem InStep.drained
    {s after : ServedConn} (inStep : s.InStep) {x : Served}
    (borrowed : s.borrowed x = some after) : after.Drained := by
  unfold ServedConn.borrowed at borrowed
  cases sock : s.conn.sock with
  | some descriptor =>
      simp only [sock] at borrowed
      cases borrowed
      rcases inStep with closed | ⟨read, paid⟩
      · rw [sock] at closed
        cases closed
      · exact ⟨by rw [sock]; rfl, read, paid⟩
  | none =>
      simp only [sock] at borrowed
      obtain ⟨descriptor, _, rfl⟩ := Option.map_eq_some_iff.mp borrowed
      exact ⟨rfl, rfl, rfl⟩

theorem InStep.keepsStep_iff_undisturbing
    {s : ServedConn} (inStep : s.InStep) (x : Served) :
    s.KeepsStep x ↔ Undisturbing s x := by
  rw [ServedConn.KeepsStep, Undisturbing, ServedConn.next, ServedConn.serve]
  cases borrowed : s.borrowed x with
  | none =>
      simp only [true_or, iff_true]
      refine ⟨?_, inStep⟩
      intro raw taken
      cases taken
  | some after =>
      simp only [reduceCtorEq, false_or]
      exact (inStep.drained borrowed).keeps_iff x

end ServedConn

/-! ## Runs -/

open ServedConn in
/-- Along a run on a connection that starts in step, every exchange takes only
the reply to its own query and gives the connection back in step, exactly when
every exchange is without a connection or settled. -/
theorem keepsStep_iff
    (start : ServedConn) (inStep : start.InStep) (history : List Served) :
    Along next KeepsStep start history ↔
      Along next Undisturbing start history := by
  induction history generalizing start with
  | nil => exact ⟨fun _ => along_nil, fun _ => along_nil⟩
  | cons x history inductionHypothesis =>
      rw [along_cons_iff, along_cons_iff]
      constructor
      · intro given
        obtain ⟨keeps, rest⟩ := given
        exact
          ⟨(inStep.keepsStep_iff_undisturbing x).mp keeps,
            (inductionHypothesis _ keeps.2).mp rest⟩
      · intro given
        obtain ⟨undisturbing, rest⟩ := given
        have keeps := (inStep.keepsStep_iff_undisturbing x).mpr undisturbing
        exact ⟨keeps, (inductionHypothesis _ keeps.2).mpr rest⟩

/-- A connection that `connect` has just made. -/
def newConn : ServedConn :=
  ⟨⟨some 5, ⟨16843009, dnsPort⟩, []⟩, []⟩

def shortReply : ServerReply where
  bytes := [0, 7, 129, 128, 0, 0, 0, 0, 0, 0, 0, 0]
  nonempty := by decide
  short := by decide

/-- The exchange with the given reply, all of which arrives. -/
def servedWith (reply : ServerReply) : Served :=
  ⟨none, true, true, false, reply, 4096⟩

def otherReply : ServerReply where
  bytes := [0, 8, 129, 131, 0, 0, 0, 0, 0, 0, 0, 0]
  nonempty := by decide
  short := by decide

/-- Two queries, each answered with its own reply. -/
theorem keepsStep_iff_twoReplies :
    Along ServedConn.next ServedConn.KeepsStep newConn
      [servedWith shortReply, servedWith otherReply] := by
  have settled :
      ∀ reply ∈ [shortReply, otherReply], (servedWith reply).Settled := by
    intro reply member
    refine Or.inr (Or.inr (Or.inr (Or.inr ?_)))
    rcases List.mem_pair.mp member with rfl | rfl
    · decide
    · decide
  have first := settled shortReply List.mem_cons_self
  have second :=
    settled otherReply (List.mem_cons_of_mem _ List.mem_cons_self)
  exact
    (keepsStep_iff newConn (Or.inr ⟨rfl, rfl⟩) _).mpr
      (along_cons_iff.mpr
        ⟨Or.inr first, along_cons_iff.mpr ⟨Or.inr second, along_nil⟩⟩)

/-- Every exchange would keep step. -/
def StaysInStep : Prop :=
  ∀ history : List Served,
    Along ServedConn.next ServedConn.KeepsStep newConn history

/-- A reply that is two bytes too long for the buffer and starts with the
length of an empty message and that message. -/
def longReply : ServerReply where
  bytes := [0, 12] ++ List.replicate 1232 0
  nonempty := by decide +kernel
  short := by decide +kernel

/-- The second query is answered with a message out of the first reply. -/
theorem not_staysInStep : ¬ StaysInStep := by
  intro stays
  have keeps :=
    stays [servedWith longReply, servedWith shortReply]
      [servedWith longReply] (servedWith shortReply) [] rfl
  have foreign :
      ((run ServedConn.next newConn [servedWith longReply]).serve
          (servedWith shortReply)).1 =
        some (List.replicate 12 0) := by
    decide +kernel
  exact absurd (keeps.1 _ foreign) (by decide +kernel)

end DnsFirewall
