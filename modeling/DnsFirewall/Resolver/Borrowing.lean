import DnsFirewall.Resolver.Framing

/-!
# When a connection is borrowed

`while (1)` in `borrow_tcp_conn` has no way out but a connection: the comment
above it promises `-1` on error, and no statement returns it.  The attempts of
the loop go round the four slots, one after the other, and the loop ends with
the first attempt that finds a free slot with a socket, or a free slot and a
forwarder that can be reached.
-/

namespace DnsFirewall

/-- The slot that attempt number `k` of the loop tries. -/
def slotOf (k : Nat) : Fin tcpPoolSize :=
  ⟨k % tcpPoolSize, Nat.mod_lt k (by decide)⟩

/-- At this tick the slot can be locked, and it holds a socket or a new one
can be connected. -/
def Usable (env : Env) (w : World) (tick : Nat) (i : Fin tcpPoolSize) :
    Prop :=
  env.lockFree tick = true ∧
    ((w.pool.conns i).sock.isSome = true ∨ (env.connect tick).isSome = true)

/-- What `borrow_tcp_conn` returns: a slot with a socket, which was there
before or has been connected now. -/
def Borrows (w : World) (i : Fin tcpPoolSize)
    (result : Option (Fin tcpPoolSize) × World) : Prop :=
  result.1 = some i ∧ (result.2.pool.conns i).sock.isSome = true ∧
    Reconnected (w.pool.conns i) (result.2.pool.conns i)

theorem tcpConnect_isSome (env : Env) (ip : CString.Bytes) (tick : Nat) :
    (tcpConnect env ip tick).isSome = (env.connect tick).isSome := by
  rw [tcpConnect]
  cases env.connect tick with
  | none => rfl
  | some sock => rfl

theorem Reconnected.sock_isSome
    {before after : TcpConn} (reconnected : Reconnected before after) :
    after.sock.isSome = true := by
  rcases reconnected with ⟨rfl, connected⟩ | ⟨-, sock, peer, rfl⟩
  · exact connected
  · rfl

theorem borrows_of_borrowed
    (env : Env) {slots : List (Fin tcpPoolSize)} {w after : World}
    {i : Fin tcpPoolSize}
    (borrowed : borrowPass env slots w = (some i, after)) :
    Borrows w i (some i, after) := by
  have reconnected := (borrowPass_conns env borrowed).1
  exact ⟨rfl, reconnected.sock_isSome, reconnected⟩

/-- The attempt on the first slot of a pass ends the loop or only takes
time. -/
theorem borrowPass_cons
    (env : Env) (i : Fin tcpPoolSize) (rest : List (Fin tcpPoolSize))
    (w : World) :
    (Usable env w w.ticks i ∧
        ∃ after, borrowPass env (i :: rest) w = (some i, after)) ∨
      (¬ Usable env w w.ticks i ∧
        borrowPass env (i :: rest) w =
          borrowPass env rest { w with ticks := w.ticks + 1 }) := by
  have connects := tcpConnect_isSome env w.pool.fwdIp w.ticks
  rw [Usable]
  rw [← connects, borrowPass]
  simp only
  cases free : env.lockFree w.ticks with
  | false =>
      exact Or.inr ⟨fun usable => Bool.false_ne_true usable.1, rfl⟩
  | true =>
      cases held : (w.pool.conns i).sock with
      | some sock =>
          refine Or.inl ⟨⟨rfl, Or.inl rfl⟩, ?_⟩
          simp
      | none =>
          cases tcpConnect env w.pool.fwdIp w.ticks with
          | some conn =>
              refine Or.inl ⟨⟨rfl, Or.inr rfl⟩, ?_⟩
              simp
          | none =>
              exact Or.inr ⟨by simp, by simp⟩

/-- A pass over slots that stand in order ends with its first usable one. -/
theorem borrowPass_cases
    (env : Env) (slots : List (Fin tcpPoolSize)) (start : Nat) (w : World)
    (inOrder : ∀ j i, slots[j]? = some i → i = slotOf (start + j)) :
    (∃ j, j < slots.length ∧
        Usable env w (w.ticks + j) (slotOf (start + j)) ∧
          ∃ after,
            borrowPass env slots w = (some (slotOf (start + j)), after)) ∨
      ((∀ j, j < slots.length →
          ¬ Usable env w (w.ticks + j) (slotOf (start + j))) ∧
        borrowPass env slots w =
          (none, { w with ticks := w.ticks + slots.length })) := by
  induction slots generalizing start w with
  | nil => exact Or.inr ⟨fun j inside => absurd inside (Nat.not_lt_zero j), rfl⟩
  | cons i rest inductionHypothesis =>
      obtain rfl : i = slotOf start := inOrder 0 i rfl
      rcases borrowPass_cons env (slotOf start) rest w with
        ⟨usable, after, borrowed⟩ | ⟨unusable, goesOn⟩
      · exact
          Or.inl ⟨0, Nat.succ_pos rest.length, usable, after, borrowed⟩
      · have later :=
          inductionHypothesis (start + 1) { w with ticks := w.ticks + 1 }
            (by
              intro j i member
              have place := inOrder (j + 1) i member
              rw [place]
              congr 1
              omega)
        have shifted :
            ∀ j,
              Usable env { w with ticks := w.ticks + 1 }
                  (w.ticks + 1 + j) (slotOf (start + 1 + j)) ↔
                Usable env w (w.ticks + (j + 1))
                  (slotOf (start + (j + 1))) := by
          intro j
          have tick : w.ticks + 1 + j = w.ticks + (j + 1) := by omega
          have place : start + 1 + j = start + (j + 1) := by omega
          rw [tick, place]
          exact Iff.rfl
        rw [goesOn]
        rcases later with
          ⟨j, inside, usable, after, borrowed⟩ | ⟨unusables, exhausted⟩
        · refine
            Or.inl
              ⟨j + 1, Nat.succ_lt_succ inside, (shifted j).mp usable,
                after, ?_⟩
          rw [borrowed]
          congr 3
          omega
        · refine Or.inr ⟨?_, ?_⟩
          · intro j inside
            cases j with
            | zero => exact unusable
            | succ j =>
                intro usable
                exact
                  unusables j (Nat.lt_of_succ_lt_succ inside)
                    ((shifted j).mpr usable)
          · rw [exhausted]
            simp only [List.length_cons]
            congr 2
            omega

theorem slotOf_add (k : Nat) : slotOf (tcpPoolSize + k) = slotOf k :=
  Fin.ext (Nat.add_mod_left tcpPoolSize k)

theorem finRange_inOrder
    (j : Nat) (i : Fin tcpPoolSize)
    (member : (List.finRange tcpPoolSize)[j]? = some i) :
    i = slotOf (0 + j) := by
  obtain ⟨inside, rfl⟩ := List.getElem?_eq_some_iff.mp member
  rw [List.length_finRange] at inside
  rw [List.getElem_finRange]
  apply Fin.ext
  simp only [slotOf, Nat.zero_add, Fin.val_cast]
  exact (Nat.mod_eq_of_lt inside).symm

/-- Some passes end with the first usable attempt, if they contain one. -/
theorem borrowTcpConn_cases (env : Env) (passes : Nat) (w : World) :
    (∃ k, Usable env w (w.ticks + k) (slotOf k) ∧
        ∃ i, Borrows w i (borrowTcpConn env passes w)) ∨
      ((∀ k, k < passes * tcpPoolSize →
          ¬ Usable env w (w.ticks + k) (slotOf k)) ∧
        (borrowTcpConn env passes w).1 = none) := by
  induction passes generalizing w with
  | zero =>
      refine Or.inr ⟨?_, rfl⟩
      intro k inside
      omega
  | succ passes inductionHypothesis =>
      have pass :=
        borrowPass_cases env (List.finRange tcpPoolSize) 0 w
          finRange_inOrder
      simp only [List.length_finRange, Nat.zero_add] at pass
      rw [borrowTcpConn]
      rcases pass with
        ⟨j, -, usable, after, borrowed⟩ | ⟨unusables, exhausted⟩
      · refine Or.inl ⟨j, usable, slotOf j, ?_⟩
        rw [borrowed]
        exact borrows_of_borrowed env borrowed
      · rw [exhausted]
        simp only
        have shifted :
            ∀ k,
              Usable env { w with ticks := w.ticks + tcpPoolSize }
                  (w.ticks + tcpPoolSize + k) (slotOf k) ↔
                Usable env w (w.ticks + (tcpPoolSize + k))
                  (slotOf (tcpPoolSize + k)) := by
          intro k
          rw [slotOf_add, ← Nat.add_assoc]
          exact Iff.rfl
        rcases inductionHypothesis { w with ticks := w.ticks + tcpPoolSize }
          with ⟨k, usable, i, borrows⟩ | ⟨laterUnusables, nothing⟩
        · exact
            Or.inl ⟨tcpPoolSize + k, (shifted k).mp usable, i, borrows⟩
        · refine Or.inr ⟨?_, nothing⟩
          intro k inside
          by_cases early : k < tcpPoolSize
          · exact unusables k early
          · obtain ⟨rest, rfl⟩ := Nat.exists_eq_add_of_le (Nat.not_lt.mp early)
            intro usable
            exact
              laterUnusables rest (by rw [Nat.succ_mul] at inside; omega)
                ((shifted rest).mpr usable)

/-- The loop comes to an end, with a connection, exactly when one of the
attempts that it would make meets a usable slot; it never gives up. -/
theorem borrowTcpConn_returns_iff (env : Env) (w : World) :
    (∃ passes i, Borrows w i (borrowTcpConn env passes w)) ↔
      ∃ k, Usable env w (w.ticks + k) (slotOf k) := by
  constructor
  · intro given
    obtain ⟨passes, i, borrows⟩ := given
    rcases borrowTcpConn_cases env passes w with
      ⟨k, usable, -⟩ | ⟨-, nothing⟩
    · exact ⟨k, usable⟩
    · rw [borrows.1] at nothing
      cases nothing
  · intro given
    obtain ⟨k, usable⟩ := given
    refine ⟨k + 1, ?_⟩
    rcases borrowTcpConn_cases env (k + 1) w with
      ⟨-, -, borrows⟩ | ⟨unusables, -⟩
    · exact borrows
    · exact
        absurd usable
          (unusables k (by
            rw [tcpPoolSize]
            omega))

/-- Every slot can be locked, and the forwarder refuses every connection. -/
def envRefusing : Env where
  time := fun _ => 0
  rand := fun _ => 0
  udp := fun _ => .noReply
  lockFree := fun _ => true
  connect := fun _ => none
  tcp := fun _ => ⟨false, false, false, []⟩
  passes := 1
  deadFrame := []

/-- An initialised pool whose connections have all been closed. -/
def closedPool : World :=
  ⟨cacheCreate cacheDefaultSize,
    ⟨true, localhostText, fun _ => ⟨none, ⟨0, 0⟩, []⟩⟩, 0, []⟩

/-- With four closed slots the loop never ends. -/
theorem borrowTcpConn_runs_on :
    ¬ ∀ (env : Env) (w : World),
      (∃ k, env.lockFree (w.ticks + k) = true) →
        ∃ passes i, Borrows w i (borrowTcpConn env passes w) := by
  intro returns
  obtain ⟨passes, i, borrows⟩ := returns envRefusing closedPool ⟨0, rfl⟩
  rcases borrowTcpConn_cases envRefusing passes closedPool with
    ⟨k, ⟨-, held | connected⟩, -⟩ | ⟨-, nothing⟩
  · cases held
  · cases connected
  · rw [borrows.1] at nothing
    cases nothing

end DnsFirewall
