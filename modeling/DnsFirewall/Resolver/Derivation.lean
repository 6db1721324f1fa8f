import DnsFirewall.Resolver.Model

/-!
# The runs of the resolver

`Resolves` lists once what a call of `resolve_internal` and its server loop
can do, with what each step does to the cache and the log.  Every property of
the resolver is an induction over it.
-/

namespace DnsFirewall

open CString

/-- The question was put to a server with the given result, or the query could
not be sent; the cache is as before. -/
structure Asked (question : DnsQuestion) (w : World)
    (reply : Option Bytes) (after : World) : Prop where
  cache : after.cache = w.cache
  log :
    (reply = none ∧ after.log = w.log) ∨
      ∃ server id,
        after.log =
          .exchange (exchangeOf server question id reply) :: w.log

theorem asked_sendQuery
    (env : Env) (ns : SockAddrIn) (question : DnsQuestion) (w : World) :
    Asked question w (sendQuery env ns question w).1
      (sendQuery env ns question w).2 := by
  rw [sendQuery]
  cases env.udp w.ticks with
  | notSent => exact ⟨rfl, Or.inl ⟨rfl, rfl⟩⟩
  | noReply => exact ⟨rfl, Or.inr ⟨ns, randomId env w, rfl⟩⟩
  | reply datagram => exact ⟨rfl, Or.inr ⟨ns, randomId env w, rfl⟩⟩

/-- The pool operations touch neither the cache nor the log. -/
theorem borrowPass_frame
    (env : Env) (slots : List (Fin tcpPoolSize)) (w : World) :
    (borrowPass env slots w).2.cache = w.cache ∧
      (borrowPass env slots w).2.log = w.log := by
  induction slots generalizing w with
  | nil => exact ⟨rfl, rfl⟩
  | cons i rest inductionHypothesis =>
      have later := inductionHypothesis { w with ticks := w.ticks + 1 }
      rw [borrowPass]
      simp only
      split
      · exact later
      · split
        · exact ⟨rfl, rfl⟩
        · split
          · exact later
          · exact ⟨rfl, rfl⟩

theorem borrowTcpConn_frame
    (env : Env) (passes : Nat) (w : World) :
    (borrowTcpConn env passes w).2.cache = w.cache ∧
      (borrowTcpConn env passes w).2.log = w.log := by
  induction passes generalizing w with
  | zero => exact ⟨rfl, rfl⟩
  | succ passes inductionHypothesis =>
      have pass :=
        borrowPass_frame env (List.finRange tcpPoolSize) w
      rw [borrowTcpConn]
      split
      · rename_i i next result
        rw [result] at pass
        exact pass
      · rename_i next result
        rw [result] at pass
        obtain ⟨sameCache, sameLog⟩ := inductionHypothesis next
        exact ⟨sameCache.trans pass.1, sameLog.trans pass.2⟩

theorem tcpExchange_ticks
    (env : Env) (i : Fin tcpPoolSize) (id : UInt16)
    (question : DnsQuestion) (w : World) :
    (tcpExchange env i id question w).2.ticks = w.ticks + 1 := by
  rw [tcpExchange]
  simp only
  split
  · rfl
  · split
    · split
      · rfl
      · rfl
    · rfl

theorem asked_tcpExchange
    (env : Env) (i : Fin tcpPoolSize) (id : UInt16)
    (question : DnsQuestion) (w : World) :
    Asked question w (tcpExchange env i id question w).1
      (tcpExchange env i id question w).2 := by
  rw [tcpExchange]
  simp only
  split
  · exact ⟨rfl, Or.inl ⟨rfl, rfl⟩⟩
  · split
    · split
      · exact ⟨rfl, Or.inr ⟨_, id, rfl⟩⟩
      · exact ⟨rfl, Or.inr ⟨_, id, rfl⟩⟩
    · exact ⟨rfl, Or.inr ⟨_, id, rfl⟩⟩

/-- A point in the resolution: a call with the levels left, or its server loop
with the servers left. -/
inductive Stage where
  | call (levels : Nat)
  | servers (levels : Nat) (left : List NsRecord)

/-- An outcome as the calling level returns it. -/
def passedOn : Outcome → Outcome
  | .nxDomain _ => .nxDomain none
  | outcome => outcome

/-- The outcome of a referral ends the server loop. -/
def Outcome.Settled : Outcome → Prop
  | .answer _ => True
  | .nxDomain _ => True
  | .hung => True
  | .failed => False
  | .tooDeep => False

instance : DecidablePred Outcome.Settled
  | .answer _ => .isTrue trivial
  | .nxDomain _ => .isTrue trivial
  | .hung => .isTrue trivial
  | .failed => .isFalse id
  | .tooDeep => .isFalse id

def World.note (w : World) (event : Event) : World :=
  { w with log := event :: w.log }

inductive Resolves (env : Env) (cfg : ResolverConfig) :
    Stage → DnsQuestion → List NsRecord → World → Outcome → World →
      Prop where
  | tooDeep {question nsList w} :
      Resolves env cfg (.call 0) question nsList w .tooDeep w
  | cached {levels question nsList w a after}
      (hit : checkCache env question w = (some a, after)) :
      Resolves env cfg (.call (levels + 1)) question nsList w
        (.answer a) after
  | notAsked {levels question nsList w missed outcome after}
      (miss : checkCache env question w = (none, missed))
      (ending : outcome = .failed ∨ outcome = .hung)
      (cache : after.cache = missed.cache)
      (log : after.log = missed.log) :
      Resolves env cfg (.call (levels + 1)) question nsList w outcome
        after
  | forwarded {levels question nsList w missed reply asked}
      (miss : checkCache env question w = (none, missed))
      (ask : Asked question missed reply asked) :
      Resolves env cfg (.call (levels + 1)) question nsList w
        (acceptForwarded env question reply asked).1
        (acceptForwarded env question reply asked).2
  | iterated {levels question nsList w missed outcome after}
      (miss : checkCache env question w = (none, missed))
      (loop :
        Resolves env cfg (.servers levels nsList) question nsList missed
          outcome after) :
      Resolves env cfg (.call (levels + 1)) question nsList w outcome
        after
  | exhausted {levels question nsList w} :
      Resolves env cfg (.servers levels []) question nsList w .failed w
  | passedOver {levels ns left question nsList w reply asked outcome after}
      (ask : Asked question w reply asked)
      (loop :
        Resolves env cfg (.servers levels left) question nsList asked
          outcome after) :
      Resolves env cfg (.servers levels (ns :: left)) question nsList w
        outcome after
  | aliased {levels ns left question nsList w reply asked raw resp first
        more cname outcome after}
      (ask : Asked question w reply asked)
      (usable : usableReply reply = some (raw, resp))
      (answers : resp.answers = first :: more)
      (target : aliasTarget raw first = some cname)
      (call :
        Resolves env cfg (.call levels) { question with qname := cname }
          nsList (asked.note (.believed .followedCname question raw))
          outcome after) :
      Resolves env cfg (.servers levels (ns :: left)) question nsList w
        (passedOn outcome) after
  | answered {levels ns left question nsList w reply asked raw resp first
        more}
      (ask : Asked question w reply asked)
      (usable : usableReply reply = some (raw, resp))
      (answers : resp.answers = first :: more) :
      Resolves env cfg (.servers levels (ns :: left)) question nsList w
        (.answer (storeReply env question raw resp first.ttl asked).1)
        (storeReply env question raw resp first.ttl asked).2
  | referred {levels ns left question nsList w reply asked raw resp
        outcome after}
      (ask : Asked question w reply asked)
      (usable : usableReply reply = some (raw, resp))
      (call :
        Resolves env cfg (.call levels) question (buildNsList resp raw)
          (asked.note (.believed .followedReferral question raw)) outcome
          after)
      (settled : outcome.Settled) :
      Resolves env cfg (.servers levels (ns :: left)) question nsList w
        (passedOn outcome) after
  | referredInVain {levels ns left question nsList w reply asked raw resp
        vain between outcome after}
      (ask : Asked question w reply asked)
      (usable : usableReply reply = some (raw, resp))
      (call :
        Resolves env cfg (.call levels) question (buildNsList resp raw)
          (asked.note (.believed .followedReferral question raw)) vain
          between)
      (notSettled : ¬ vain.Settled)
      (loop :
        Resolves env cfg (.servers levels left) question nsList between
          outcome after) :
      Resolves env cfg (.servers levels (ns :: left)) question nsList w
        outcome after
  | nameError {levels ns left question nsList w reply asked raw resp}
      (ask : Asked question w reply asked)
      (usable : usableReply reply = some (raw, resp))
      (noAnswers : resp.answers = []) :
      Resolves env cfg (.servers levels (ns :: left)) question nsList w
        (.nxDomain (some (storeReply env question raw resp 600 asked).1))
        (storeReply env question raw resp 600 asked).2

/-! ## Forwarding -/

/-- A forwarding branch accepts what it has received, or it has not asked. -/
def Forwarded (env : Env) (question : DnsQuestion) (w : World)
    (result : Outcome × World) : Prop :=
  (∃ reply asked,
      Asked question w reply asked ∧
        result = acceptForwarded env question reply asked) ∨
    ((result.1 = .failed ∨ result.1 = .hung) ∧
      result.2.cache = w.cache ∧ result.2.log = w.log)

theorem forwarded_forwardUdp
    (env : Env) (fwdIp : Bytes) (question : DnsQuestion) (w : World) :
    Forwarded env question w (forwardUdp env fwdIp question w) := by
  rw [forwardUdp]
  split
  · exact Or.inr ⟨Or.inl rfl, rfl, rfl⟩
  · exact Or.inl ⟨_, _, asked_sendQuery _ _ _ _, rfl⟩

theorem initTcpPool_frame (env : Env) (ip : Bytes) (w : World) :
    (initTcpPool env ip w).cache = w.cache ∧
      (initTcpPool env ip w).log = w.log := by
  rw [initTcpPool]
  split
  · exact ⟨rfl, rfl⟩
  · exact ⟨rfl, rfl⟩

theorem Asked.of_frame
    {question : DnsQuestion} {w before after : World}
    {reply : Option Bytes} (ask : Asked question before reply after)
    (cache : before.cache = w.cache) (log : before.log = w.log) :
    Asked question w reply after :=
  ⟨ask.cache.trans cache, by rw [← log]; exact ask.log⟩

theorem forwarded_forwardTcp
    (env : Env) (fwdIp : Bytes) (question : DnsQuestion) (w : World) :
    Forwarded env question w (forwardTcp env fwdIp question w) := by
  rw [forwardTcp]
  have ready :
      ∀ pooled : World,
        pooled =
            (if w.pool.initialised then w else initTcpPool env fwdIp w) →
          pooled.cache = w.cache ∧ pooled.log = w.log := by
    intro pooled same
    subst same
    split
    · exact ⟨rfl, rfl⟩
    · exact initTcpPool_frame env fwdIp w
  obtain ⟨readyCache, readyLog⟩ := ready _ rfl
  generalize
    (if w.pool.initialised then w else initTcpPool env fwdIp w) =
      pooled at readyCache readyLog ⊢
  have borrowed :=
    borrowTcpConn_frame env env.passes
      { pooled with ticks := pooled.ticks + 1 }
  simp only at borrowed ⊢
  split
  · rename_i after result
    rw [result] at borrowed
    exact
      Or.inr
        ⟨Or.inr rfl, borrowed.1.trans readyCache,
          borrowed.2.trans readyLog⟩
  · rename_i i after result
    rw [result] at borrowed
    have ask :=
      asked_tcpExchange env i (randomId env pooled) question after
    exact
      Or.inl
        ⟨_, _,
          ask.of_frame (borrowed.1.trans readyCache)
            (borrowed.2.trans readyLog),
          rfl⟩

theorem resolves_of_forwarded
    {env : Env} (cfg : ResolverConfig) {levels : Nat}
    {question : DnsQuestion} {nsList : List NsRecord} {w missed : World}
    {result : Outcome × World}
    (miss : checkCache env question w = (none, missed))
    (forwarded : Forwarded env question missed result) :
    Resolves env cfg (.call (levels + 1)) question nsList w result.1
      result.2 := by
  rcases forwarded with
    ⟨reply, asked, ask, rfl⟩ | ⟨ending, cache, log⟩
  · exact .forwarded miss ask
  · exact .notAsked miss ending cache log

/-! ## One server -/

/-- What the server loop makes of a reply: nothing, or an alias, an answer
with its lifetime, a referral to servers with addresses, or a name error. -/
inductive ReplyKind where
  | useless
  | cname (raw target : Bytes)
  | answer (raw : Bytes) (resp : DnsMessage) (ttl : UInt32)
  | referral (raw : Bytes) (resp : DnsMessage)
  | nameError (raw : Bytes) (resp : DnsMessage)

/-- The tests of the server loop, in their order. -/
def replyKind (reply : Option Bytes) : ReplyKind :=
  match usableReply reply with
  | none => .useless
  | some (raw, resp) =>
      match resp.answers with
      | first :: _ =>
          match aliasTarget raw first with
          | some target => .cname raw target
          | none => .answer raw resp first.ttl
      | [] =>
          if resp.authorities ≠ [] then
            if buildNsList resp raw = [] then .useless
            else .referral raw resp
          else if resp.header.flags &&& 0x0F = dnsRcodeNxdomain then
            .nameError raw resp
          else
            .useless

/-- What a reply must be for each of the uses that the loop makes of it. -/
def ReplyKind.Holds (reply : Option Bytes) : ReplyKind → Prop
  | .useless => True
  | .cname raw target =>
      ∃ resp first more,
        usableReply reply = some (raw, resp) ∧
          resp.answers = first :: more ∧ aliasTarget raw first = some target
  | .answer raw resp ttl =>
      ∃ first more,
        usableReply reply = some (raw, resp) ∧
          resp.answers = first :: more ∧ aliasTarget raw first = none ∧
            ttl = first.ttl
  | .referral raw resp =>
      usableReply reply = some (raw, resp) ∧ resp.answers = [] ∧
        buildNsList resp raw ≠ []
  | .nameError raw resp =>
      usableReply reply = some (raw, resp) ∧ resp.answers = [] ∧
        resp.authorities = [] ∧
          resp.header.flags &&& 0x0F = dnsRcodeNxdomain

theorem replyKind_holds (reply : Option Bytes) :
    (replyKind reply).Holds reply := by
  rw [replyKind]
  cases usable : usableReply reply with
  | none => trivial
  | some accepted =>
      obtain ⟨raw, resp⟩ := accepted
      simp only
      cases answers : resp.answers with
      | cons first more =>
          simp only
          cases target : aliasTarget raw first with
          | some cname => exact ⟨resp, first, more, usable, answers, target⟩
          | none => exact ⟨first, more, usable, answers, target, rfl⟩
      | nil =>
          simp only
          by_cases referral : resp.authorities ≠ []
          · rw [if_pos referral]
            by_cases empty : buildNsList resp raw = []
            · rw [if_pos empty]
              trivial
            · rw [if_neg empty]
              exact ⟨usable, answers, empty⟩
          · rw [if_neg referral]
            by_cases nxDomain :
              resp.header.flags &&& 0x0F = dnsRcodeNxdomain
            · rw [if_pos nxDomain]
              exact ⟨usable, answers, not_not.mp referral, nxDomain⟩
            · rw [if_neg nxDomain]
              trivial

/-- One pass of the server loop. -/
theorem tryServers_cons
    (env : Env)
    (recurse : DnsQuestion → List NsRecord → World → Outcome × World)
    (question : DnsQuestion) (nsList : List NsRecord) (ns : NsRecord)
    (rest : List NsRecord) (w : World) :
    tryServers env recurse question nsList (ns :: rest) w =
      match replyKind (sendQuery env ns.addr question w).1 with
      | .useless =>
          tryServers env recurse question nsList rest
            (sendQuery env ns.addr question w).2
      | .cname raw target =>
          let inner :=
            recurse { question with qname := target } nsList
              ((sendQuery env ns.addr question w).2.note
                (.believed .followedCname question raw))
          (passedOn inner.1, inner.2)
      | .answer raw resp ttl =>
          (.answer
              (storeReply env question raw resp ttl
                (sendQuery env ns.addr question w).2).1,
            (storeReply env question raw resp ttl
              (sendQuery env ns.addr question w).2).2)
      | .referral raw resp =>
          let inner :=
            recurse question (buildNsList resp raw)
              ((sendQuery env ns.addr question w).2.note
                (.believed .followedReferral question raw))
          if inner.1.Settled then (passedOn inner.1, inner.2)
          else tryServers env recurse question nsList rest inner.2
      | .nameError raw resp =>
          (.nxDomain
              (some
                (storeReply env question raw resp 600
                  (sendQuery env ns.addr question w).2).1),
            (storeReply env question raw resp 600
              (sendQuery env ns.addr question w).2).2) := by
  rw [tryServers]
  generalize sendQuery env ns.addr question w = sent
  obtain ⟨reply, asked⟩ := sent
  rw [replyKind]
  simp only
  cases usableReply reply with
  | none => rfl
  | some accepted =>
      obtain ⟨raw, resp⟩ := accepted
      simp only
      cases resp.answers with
      | cons first more =>
          simp only
          cases aliasTarget raw first with
          | none => rfl
          | some cname =>
              simp only [World.note]
              generalize
                recurse { question with qname := cname } nsList
                  { asked with
                    log :=
                      .believed .followedCname question raw ::
                        asked.log } = inner
              obtain ⟨outcome, after⟩ := inner
              cases outcome with
              | answer a | nxDomain a | failed | tooDeep | hung => rfl
      | nil =>
          simp only
          by_cases referral : resp.authorities ≠ []
          · rw [if_pos referral, if_pos referral]
            cases newNs : buildNsList resp raw with
            | nil => rfl
            | cons server servers =>
                rw [if_neg (List.cons_ne_nil server servers)]
                simp only [World.note, newNs]
                generalize
                  recurse question (server :: servers)
                    { asked with
                      log :=
                        .believed .followedReferral question raw ::
                          asked.log } = inner
                obtain ⟨outcome, after⟩ := inner
                cases outcome with
                | answer a | nxDomain a | failed | tooDeep | hung => rfl
          · rw [if_neg referral, if_neg referral]
            split
            · rfl
            · rfl

/-- The server loop follows the rules if the calls below it do. -/
theorem resolves_tryServers
    (env : Env) (cfg : ResolverConfig) (levels : Nat)
    (below :
      ∀ question nsList w,
        Resolves env cfg (.call levels) question nsList w
          (resolveInternal env cfg levels question nsList w).1
          (resolveInternal env cfg levels question nsList w).2)
    (question : DnsQuestion) (nsList left : List NsRecord) (w : World) :
    Resolves env cfg (.servers levels left) question nsList w
      (tryServers env (resolveInternal env cfg levels) question nsList
        left w).1
      (tryServers env (resolveInternal env cfg levels) question nsList
        left w).2 := by
  induction left generalizing w with
  | nil => exact .exhausted
  | cons ns left inductionHypothesis =>
      have ask := asked_sendQuery env ns.addr question w
      have holds := replyKind_holds (sendQuery env ns.addr question w).1
      rw [tryServers_cons]
      cases kind : replyKind (sendQuery env ns.addr question w).1 with
      | useless => exact .passedOver ask (inductionHypothesis _)
      | cname raw target =>
          rw [kind] at holds
          obtain ⟨resp, first, more, usable, answers, isTarget⟩ := holds
          exact .aliased ask usable answers isTarget (below _ _ _)
      | answer raw resp ttl =>
          rw [kind] at holds
          obtain ⟨first, more, usable, answers, -, rfl⟩ := holds
          exact .answered ask usable answers
      | referral raw resp =>
          rw [kind] at holds
          obtain ⟨usable, -, -⟩ := holds
          simp only
          split
          · rename_i settled
            exact .referred ask usable (below _ _ _) settled
          · rename_i notSettled
            exact
              .referredInVain ask usable (below _ _ _) notSettled
                (inductionHypothesis _)
      | nameError raw resp =>
          rw [kind] at holds
          exact .nameError ask holds.1 holds.2.1

theorem resolves_resolveInternal
    (env : Env) (cfg : ResolverConfig) (levels : Nat)
    (question : DnsQuestion) (nsList : List NsRecord) (w : World) :
    Resolves env cfg (.call levels) question nsList w
      (resolveInternal env cfg levels question nsList w).1
      (resolveInternal env cfg levels question nsList w).2 := by
  induction levels generalizing question nsList w with
  | zero => exact .tooDeep
  | succ levels inductionHypothesis =>
      rw [resolveInternal]
      cases checked : checkCache env question w with
      | mk hit missed =>
          cases hit with
          | some a => exact .cached checked
          | none =>
              simp only
              split
              · exact .forwarded checked (asked_sendQuery _ _ _ _)
              · split
                · split
                  · exact
                      resolves_of_forwarded cfg checked
                        (forwarded_forwardTcp env _ question missed)
                  · exact
                      resolves_of_forwarded cfg checked
                        (forwarded_forwardUdp env _ question missed)
                · exact .iterated checked
                    (resolves_tryServers env cfg levels inductionHypothesis
                      question nsList nsList missed)

end DnsFirewall
