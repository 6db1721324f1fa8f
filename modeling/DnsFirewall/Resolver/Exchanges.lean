import DnsFirewall.Resolver.Calls
import DnsFirewall.Resolver.Sharing

/-!
# The exchanges of a resolver call

A call of the resolver asks servers over UDP and over the pooled connections,
and in no other way, so that what these exchanges keep every step of a call
keeps.
-/

namespace DnsFirewall

open CString

/-- Every exchange of the process is as wanted. -/
inductive Proc.Exchanges
    (wanted : (World → Option (Option Bytes) × World) → Prop) :
    Proc → Prop where
  | done {outcome buffer} : Exchanges wanted (.done outcome buffer)
  | lookup {question next} (rest : ∀ found, Exchanges wanted (next found)) :
      Exchanges wanted (.lookup question next)
  | read {handle next} (rest : ∀ raw, Exchanges wanted (next raw)) :
      Exchanges wanted (.read handle next)
  | receive {exchange next} (isWanted : wanted exchange)
      (rest : ∀ reply, Exchanges wanted (next reply)) :
      Exchanges wanted (.receive exchange next)
  | note {event next} (rest : Exchanges wanted next) :
      Exchanges wanted (.note event next)
  | store {question raw resp ttl next}
      (rest : ∀ a, Exchanges wanted (next a)) :
      Exchanges wanted (.store question raw resp ttl next)

section Exchanges

variable {wanted : (World → Option (Option Bytes) × World) → Prop}

theorem Proc.Exchanges.andThen
    {p : Proc} (exchanges : p.Exchanges wanted)
    {next : Outcome → Option Handle → Proc}
    (rest : ∀ outcome buffer, (next outcome buffer).Exchanges wanted) :
    (p.andThen next).Exchanges wanted := by
  induction exchanges with
  | done => exact rest _ _
  | lookup _ inductionHypothesis => exact .lookup inductionHypothesis
  | read _ inductionHypothesis => exact .read inductionHypothesis
  | receive isWanted _ inductionHypothesis =>
      exact .receive isWanted inductionHypothesis
  | note _ inductionHypothesis => exact .note inductionHypothesis
  | store _ inductionHypothesis => exact .store inductionHypothesis

theorem exchanges_acceptSteps
    (question : DnsQuestion) (reply : Option Bytes) :
    (acceptSteps question reply).Exchanges wanted := by
  rw [acceptSteps]
  cases usableReply reply with
  | none => exact .done
  | some both => exact .store fun _ => .done

theorem exchanges_aliasSteps
    (outcome : Outcome) (buffer : Option Handle) :
    (aliasSteps outcome buffer).Exchanges wanted := by
  cases outcome with
  | _ => exact .done

theorem exchanges_referralSteps
    {others : Proc} (exchanges : others.Exchanges wanted)
    (outcome : Outcome) (buffer : Option Handle) :
    (referralSteps others outcome buffer).Exchanges wanted := by
  cases outcome with
  | answer a => exact .done
  | nxDomain a => exact .done
  | hung => exact .done
  | failed => exact exchanges
  | tooDeep => exact exchanges

variable {env : Env}
  (udp : ∀ ns question, wanted (udpReceive env ns question))
  (tcp : ∀ fwdIp question, wanted (tcpReceive env fwdIp question))

include udp

theorem exchanges_serverSteps
    {recurse : DnsQuestion → List NsRecord → Proc}
    (exchanges : ∀ question nsList,
      (recurse question nsList).Exchanges wanted)
    (question : DnsQuestion) (nsList rest : List NsRecord) :
    (serverSteps env recurse question nsList rest).Exchanges wanted := by
  induction rest with
  | nil => exact .done
  | cons ns rest inductionHypothesis =>
      apply Proc.Exchanges.receive (udp ns.addr question)
      intro reply
      cases usableReply reply with
      | none => exact inductionHypothesis
      | some both =>
          simp only
          split
          · split
            · exact .note ((exchanges _ _).andThen exchanges_aliasSteps)
            · exact .store fun _ => .done
          · split
            · split
              · exact inductionHypothesis
              · exact
                  .note
                    ((exchanges _ _).andThen
                      (exchanges_referralSteps inductionHypothesis))
            · split
              · exact .store fun _ => .done
              · exact inductionHypothesis

include tcp

theorem exchanges_missSteps
    (cfg : ResolverConfig) {recurse : DnsQuestion → List NsRecord → Proc}
    (exchanges : ∀ question nsList,
      (recurse question nsList).Exchanges wanted)
    (question : DnsQuestion) (nsList : List NsRecord) :
    (missSteps env cfg recurse question nsList).Exchanges wanted := by
  rw [missSteps]
  split
  · exact .receive (udp _ _) (exchanges_acceptSteps question)
  · split
    · split
      · exact .receive (tcp _ _) (exchanges_acceptSteps question)
      · split
        · exact .done
        · exact .receive (udp _ _) (exchanges_acceptSteps question)
    · exact exchanges_serverSteps udp exchanges question nsList nsList

theorem exchanges_resolveSteps
    (cfg : ResolverConfig) (levels : Nat) (question : DnsQuestion)
    (nsList : List NsRecord) :
    (resolveSteps env cfg levels question nsList).Exchanges wanted := by
  induction levels generalizing question nsList with
  | zero => exact .done
  | succ levels inductionHypothesis =>
      have missed :=
        exchanges_missSteps udp tcp cfg inductionHypothesis question nsList
      apply Proc.Exchanges.lookup
      intro found
      cases found with
      | none => exact missed
      | some handle =>
          apply Proc.Exchanges.read
          intro raw
          cases dnsParseMessage raw with
          | error failure => exact missed
          | ok message => exact .done

theorem exchanges_resolverSteps
    (cfg : ResolverConfig) (query : DnsMessage) :
    (resolverSteps env cfg query).Exchanges wanted := by
  rw [resolverSteps]
  cases query.questions with
  | nil => exact .done
  | cons question more => exact exchanges_resolveSteps udp tcp cfg _ _ _

end Exchanges

/-! ## The clock -/

/-- The exchange does not go back in time. -/
def GoesOn (exchange : World → Option (Option Bytes) × World) : Prop :=
  ∀ w, w.ticks ≤ (exchange w).2.ticks

theorem goesOn_udpReceive
    (env : Env) (ns : SockAddrIn) (question : DnsQuestion) :
    GoesOn (udpReceive env ns question) := by
  intro w
  show w.ticks ≤ (sendQuery env ns question w).2.ticks
  rw [sendQuery_ticks]
  exact Nat.le_succ _

theorem borrowPass_ticks_le
    (env : Env) (slots : List (Fin tcpPoolSize)) (w : World) :
    w.ticks ≤ (borrowPass env slots w).2.ticks := by
  induction slots generalizing w with
  | nil => exact le_refl _
  | cons slot rest inductionHypothesis =>
      have later := inductionHypothesis { w with ticks := w.ticks + 1 }
      have next : w.ticks ≤ w.ticks + 1 := Nat.le_succ _
      rw [borrowPass]
      simp only
      split
      · exact le_trans next later
      · split
        · exact next
        · split
          · exact le_trans next later
          · exact next

theorem borrowTcpConn_ticks_le (env : Env) (passes : Nat) (w : World) :
    w.ticks ≤ (borrowTcpConn env passes w).2.ticks := by
  induction passes generalizing w with
  | zero => exact le_refl _
  | succ passes inductionHypothesis =>
      have pass := borrowPass_ticks_le env (List.finRange tcpPoolSize) w
      rw [borrowTcpConn]
      cases result : borrowPass env (List.finRange tcpPoolSize) w with
      | mk found after =>
          rw [result] at pass
          cases found with
          | some i => exact pass
          | none => exact le_trans pass (inductionHypothesis after)

theorem goesOn_tcpReceive
    (env : Env) (fwdIp : Bytes) (question : DnsQuestion) :
    GoesOn (tcpReceive env fwdIp question) := by
  intro w
  have ready :
      w.ticks ≤
        (if w.pool.initialised then w
          else initTcpPool env fwdIp w).ticks := by
    split
    · exact le_refl _
    · rw [initTcpPool]
      split
      · exact le_refl _
      · exact Nat.le_add_right _ _
  rw [tcpReceive]
  generalize (if w.pool.initialised then w
    else initTcpPool env fwdIp w) = pooled at ready ⊢
  have borrowed :=
    borrowTcpConn_ticks_le env env.passes
      { pooled with ticks := pooled.ticks + 1 }
  have next : pooled.ticks ≤ pooled.ticks + 1 := Nat.le_succ _
  simp only
  cases result : borrowTcpConn env env.passes
      { pooled with ticks := pooled.ticks + 1 } with
  | mk found after =>
      rw [result] at borrowed
      have waited : w.ticks ≤ after.ticks :=
        le_trans ready (le_trans next borrowed)
      cases found with
      | none => exact waited
      | some i =>
          show w.ticks ≤
            (tcpExchange env i (randomId env pooled) question after).2.ticks
          rw [tcpExchange_ticks]
          exact le_trans waited (Nat.le_succ _)

theorem Storage.lookup_ticks
    (env : Env) (question : DnsQuestion) (s : Storage) :
    (s.lookup env question).2.world.ticks = s.world.ticks + 1 := by
  rw [Storage.lookup]
  simp only
  split
  · rfl
  · rfl

/-- A step of a call whose exchanges go on in time goes on in time, and so do
the rest of its exchanges. -/
theorem Proc.Exchanges.step
    {p : Proc} (exchanges : p.Exchanges GoesOn) (env : Env) (heap : Heap)
    (s : Storage) :
    (p.step env heap s).1.Exchanges GoesOn ∧
      s.world.ticks ≤ (p.step env heap s).2.world.ticks := by
  cases exchanges with
  | done => exact ⟨.done, le_refl _⟩
  | lookup rest =>
      refine ⟨rest _, ?_⟩
      show _ ≤ (s.lookup env _).2.world.ticks
      rw [Storage.lookup_ticks]
      exact Nat.le_succ _
  | read rest => exact ⟨rest _, le_refl _⟩
  | @receive exchange next goesOn rest =>
      have onward := goesOn s.world
      rw [Proc.step]
      cases result : exchange s.world with
      | mk reply world =>
          rw [result] at onward
          cases reply with
          | none => exact ⟨.done, onward⟩
          | some reply => exact ⟨rest reply, onward⟩
  | note rest => exact ⟨rest, le_refl _⟩
  | store rest => exact ⟨rest _, Nat.le_succ _⟩

end DnsFirewall
