import DnsFirewall.Resolver.Calls

/-!
# What a resolution asks for and keeps

Every query that a resolution sends is the packet of a question with a name
that fits, and goes to the forwarder of its zone where it has one; its reply
fits the receive buffer.  Every entry that a resolution adds to the cache is
the reply to such a query, under the key of the question that it asks.
-/

namespace DnsFirewall

open CString

/-- A name that fits a buffer of `DNS_MAX_NAME_LEN + 1` characters. -/
def DnsQuestion.Fits (question : DnsQuestion) : Prop :=
  question.qname.length ≤ dnsMaxNameLen

/-- A query as the resolver sends it, with a reply that fits the buffer. -/
structure Dispatched (cfg : ResolverConfig) (x : Exchange) : Prop where
  packet : x.query = queryPacket x.id x.question
  fits : x.question.Fits
  zone :
    ∀ addr, staticForwarderFor cfg x.question.qname = some addr →
      x.server = addr
  bounded : ∀ raw, x.reply = some raw → raw.length ≤ ednsSize

/-- If the query went to the server, then nothing or its response has come
back. -/
def Exchange.AnsweredBy (server : SockAddrIn)
    (serve : Bytes → Option Bytes) (x : Exchange) : Prop :=
  x.server = server →
    x.reply = none ∨
      ∃ response, serve x.query = some response ∧
        x.reply = some (response.take ednsSize)

/-- The packet is the reply of the exchange, and parses. -/
structure Exchange.Fetched (x : Exchange) (raw : Bytes) : Prop where
  reply : x.reply = some raw
  whole : 12 ≤ raw.length
  parsed : ∃ message, dnsParseMessage raw = .ok message

/-- From the first state to the second the resolver has sent queries and
stored replies to them. -/
structure Fetches (cfg : ResolverConfig) (w after : World) : Prop where
  grown : ∀ event, event ∈ w.log → event ∈ after.log
  sent :
    ∀ x, .exchange x ∈ after.log →
      .exchange x ∈ w.log ∨ Dispatched cfg x
  entries :
    ∀ slot entry, after.cache.entries slot = some entry →
      w.cache.entries slot = some entry ∨
        ∃ x, .exchange x ∈ after.log ∧
          entry.key = questionKey x.question ∧ x.Fetched entry.data

section Composition

variable {cfg : ResolverConfig} {w middle after : World}

theorem Fetches.of_frame
    (log : after.log = w.log)
    (kept :
      ∀ slot entry, after.cache.entries slot = some entry →
        w.cache.entries slot = some entry) :
    Fetches cfg w after := by
  refine ⟨?_, ?_, ?_⟩
  · intro event member
    rw [log]
    exact member
  · intro x member
    rw [log] at member
    exact Or.inl member
  · intro slot entry occupied
    exact Or.inl (kept slot entry occupied)

theorem Fetches.refl (w : World) : Fetches cfg w w :=
  .of_frame rfl fun _ _ occupied => occupied

theorem Fetches.trans
    (first : Fetches cfg w middle) (second : Fetches cfg middle after) :
    Fetches cfg w after := by
  refine ⟨?_, ?_, ?_⟩
  · intro event member
    exact second.grown event (first.grown event member)
  · intro x member
    rcases second.sent x member with earlier | dispatched
    · exact first.sent x earlier
    · exact Or.inr dispatched
  · intro slot entry occupied
    rcases second.entries slot entry occupied with before | fetched
    · rcases first.entries slot entry before with initial | fetched
      · exact Or.inl initial
      · obtain ⟨x, member, facts⟩ := fetched
        exact Or.inr ⟨x, second.grown _ member, facts⟩
    · exact Or.inr fetched

/-- To note the use of a packet is not to send anything. -/
theorem fetches_note (use : Use) (question : DnsQuestion) (raw : Bytes) :
    Fetches cfg w (w.note (.believed use question raw)) := by
  refine ⟨fun _ => List.mem_cons_of_mem _, ?_, fun _ _ => Or.inl⟩
  intro x member
  rcases List.mem_cons.mp member with isUse | earlier
  · cases isUse
  · exact Or.inl earlier

theorem fetches_checkCache
    {env : Env} {question : DnsQuestion} {found : Option Answer}
    (checked : checkCache env question w = (found, after)) :
    Fetches cfg w after := by
  apply Fetches.of_frame (checkCache_log checked)
  intro slot entry occupied
  rw [cache_of_checkCache checked] at occupied
  exact entries_of_cacheLookup occupied

/-- A question was put to a server: the queries of the log are as they should
be if this one is. -/
theorem Asked.fetches
    {question : DnsQuestion} {reply : Option Bytes}
    (ask : Asked question w reply after)
    (dispatched :
      ∀ server id,
        after.log =
            .exchange (exchangeOf server question id reply) :: w.log →
          Dispatched cfg (exchangeOf server question id reply)) :
    Fetches cfg w after := by
  have kept :
      ∀ slot entry, after.cache.entries slot = some entry →
        w.cache.entries slot = some entry := by
    intro slot entry occupied
    rw [ask.cache] at occupied
    exact occupied
  rcases ask.log with ⟨_, logged⟩ | ⟨server, id, logged⟩
  · exact .of_frame logged kept
  · refine ⟨?_, ?_, fun slot entry occupied =>
      Or.inl (kept slot entry occupied)⟩
    · intro event member
      rw [logged]
      exact List.mem_cons_of_mem _ member
    · intro x member
      rw [logged] at member
      rcases List.mem_cons.mp member with isThis | earlier
      · injection isThis with same
        rw [same]
        exact Or.inr (dispatched server id logged)
      · exact Or.inl earlier

/-- The log holds an exchange for the question with the reply. -/
theorem Asked.exists_exchange
    {question : DnsQuestion} {reply : Option Bytes} {raw : Bytes}
    {resp : DnsMessage} (ask : Asked question w reply after)
    (usable : usableReply reply = some (raw, resp)) :
    ∃ x, .exchange x ∈ after.log ∧ x.question = question ∧
      x.Fetched raw := by
  obtain ⟨isReply, long, parsed⟩ := usableReply_eq_some usable
  rcases ask.log with ⟨noReply, _⟩ | ⟨server, id, logged⟩
  · rw [isReply] at noReply
    cases noReply
  · refine ⟨exchangeOf server question id reply, ?_, rfl,
      isReply, long, resp, parsed⟩
    rw [logged]
    exact List.mem_cons_self

/-- The reply is stored under the question that was asked. -/
theorem Asked.fetches_storeReply
    {env : Env} {question : DnsQuestion} {reply : Option Bytes}
    {raw : Bytes} {resp : DnsMessage} (ttl : UInt32)
    (ask : Asked question w reply after)
    (usable : usableReply reply = some (raw, resp)) :
    Fetches cfg after (storeReply env question raw resp ttl after).2 := by
  refine ⟨?_, ?_, ?_⟩
  · intro event member
    exact List.mem_cons_of_mem _ (List.mem_cons_of_mem _ member)
  · intro x member
    rcases List.mem_cons.mp member with isUse | rest
    · cases isUse
    · rcases List.mem_cons.mp rest with isUse | earlier
      · cases isUse
      · exact Or.inl earlier
  · intro slot entry occupied
    rcases entries_of_cacheStore occupied with before | ⟨_, _, isNew⟩
    · exact Or.inl before
    · obtain ⟨x, member, isQuestion, fetched⟩ :=
        ask.exists_exchange usable
      right
      refine ⟨x, ?_, ?_, ?_⟩
      · exact List.mem_cons_of_mem _ (List.mem_cons_of_mem _ member)
      · rw [isNew, isQuestion]
        rfl
      · rw [isNew]
        exact fetched

theorem Asked.fetches_acceptForwarded
    {env : Env} {question : DnsQuestion} {reply : Option Bytes}
    (ask : Asked question w reply after) :
    Fetches cfg after (acceptForwarded env question reply after).2 := by
  rw [acceptForwarded]
  cases usable : usableReply reply with
  | none => exact .refl after
  | some accepted => exact ask.fetches_storeReply _ usable

end Composition

/-! ## One query -/

theorem dispatched_exchangeOf
    {cfg : ResolverConfig} {server : SockAddrIn} {question : DnsQuestion}
    {reply : Option Bytes} (id : UInt16) (fits : question.Fits)
    (zone :
      ∀ forwarder,
        staticForwarderFor cfg question.qname = some forwarder →
          server = forwarder)
    (bounded : ∀ raw, reply = some raw → raw.length ≤ ednsSize) :
    Dispatched cfg (exchangeOf server question id reply) := by
  refine ⟨?_, fits, zone, bounded⟩
  simp only [exchangeOf]

theorem fetches_sendQuery
    {cfg : ResolverConfig} (env : Env) {addr : SockAddrIn}
    {question : DnsQuestion} (w : World) (fits : question.Fits)
    (zone :
      ∀ forwarder,
        staticForwarderFor cfg question.qname = some forwarder →
          addr = forwarder) :
    Fetches cfg w (sendQuery env addr question w).2 := by
  rw [sendQuery]
  cases env.udp w.ticks with
  | notSent => exact .of_frame rfl fun _ _ occupied => occupied
  | noReply =>
      refine ⟨fun _ => List.mem_cons_of_mem _, ?_, fun _ _ => Or.inl⟩
      intro x member
      rcases List.mem_cons.mp member with isThis | earlier
      · injection isThis with same
        rw [same]
        apply Or.inr (dispatched_exchangeOf _ fits zone _)
        intro raw none
        cases none
      · exact Or.inl earlier
  | reply datagram =>
      refine ⟨fun _ => List.mem_cons_of_mem _, ?_, fun _ _ => Or.inl⟩
      intro x member
      rcases List.mem_cons.mp member with isThis | earlier
      · injection isThis with same
        rw [same]
        apply Or.inr (dispatched_exchangeOf _ fits zone _)
        intro raw isReply
        cases isReply
        exact List.length_take_le _ _
      · exact Or.inl earlier

/-- The TCP branch takes replies below the size of its buffer only. -/
theorem fetches_tcpExchange
    {cfg : ResolverConfig} (env : Env) (i : Fin tcpPoolSize) (id : UInt16)
    {question : DnsQuestion} (w : World) (fits : question.Fits)
    (noZone : staticForwarderFor cfg question.qname = none) :
    Fetches cfg w (tcpExchange env i id question w).2 := by
  have dispatched :
      ∀ server reply,
        (∀ raw, reply = some raw → raw.length ≤ ednsSize) →
          Dispatched cfg (exchangeOf server question id reply) := by
    intro server reply bounded
    apply dispatched_exchangeOf id fits _ bounded
    intro addr zone
    rw [noZone] at zone
    cases zone
  have sent :
      ∀ (server : SockAddrIn) (reply : Option Bytes) (after : World),
        (∀ raw, reply = some raw → raw.length ≤ ednsSize) →
          after.cache = w.cache →
            after.log =
                .exchange (exchangeOf server question id reply) :: w.log →
              Fetches cfg w after := by
    intro server reply after bounded cache log
    have ask : Asked question w reply after :=
      ⟨cache, Or.inr ⟨server, id, log⟩⟩
    apply ask.fetches
    intro other otherId logged
    rw [log] at logged
    injection logged with same _
    injection same with same
    rw [← same]
    exact dispatched server reply bounded
  unfold tcpExchange
  simp only
  split
  · exact .of_frame rfl fun _ _ occupied => occupied
  · split
    · split
      · rename_i fitsBuffer
        refine sent _ _ _ ?_ rfl rfl
        intro raw isReply
        split at isReply
        · cases isReply
          exact
            Nat.le_trans (List.length_take_le _ _)
              (Nat.le_of_lt fitsBuffer.2)
        · cases isReply
      · exact sent _ none _ (fun _ none => by cases none) rfl rfl
    · exact sent _ none _ (fun _ none => by cases none) rfl rfl

theorem fetches_forwardTcp
    {cfg : ResolverConfig} (env : Env) (fwdIp : Bytes)
    {question : DnsQuestion} (w : World) (fits : question.Fits)
    (noZone : staticForwarderFor cfg question.qname = none) :
    Fetches cfg w (forwardTcp env fwdIp question w).2 := by
  have ready :
      ∀ pooled : World,
        pooled =
            (if w.pool.initialised then w else initTcpPool env fwdIp w) →
          pooled.cache = w.cache ∧ pooled.log = w.log := by
    intro pooled same
    subst same
    split
    · exact ⟨rfl, rfl⟩
    · exact initTcpPool_frame env fwdIp w
  obtain ⟨readyCache, readyLog⟩ := ready _ rfl
  rw [forwardTcp]
  generalize
    (if w.pool.initialised then w else initTcpPool env fwdIp w) =
      pooled at readyCache readyLog ⊢
  have borrowed :=
    borrowTcpConn_frame env env.passes
      { pooled with ticks := pooled.ticks + 1 }
  simp only at borrowed ⊢
  split
  · rename_i after result
    rw [result] at borrowed
    apply Fetches.of_frame (borrowed.2.trans readyLog)
    intro slot entry occupied
    rw [← readyCache, ← borrowed.1]
    exact occupied
  · rename_i i after result
    rw [result] at borrowed
    have reached : Fetches cfg w after := by
      apply Fetches.of_frame (borrowed.2.trans readyLog)
      intro slot entry occupied
      rw [← readyCache, ← borrowed.1]
      exact occupied
    have ask := asked_tcpExchange env i (randomId env pooled) question after
    exact
      (reached.trans (fetches_tcpExchange env i _ after fits noZone)).trans
        ask.fetches_acceptForwarded

theorem fetches_forwardUdp
    {cfg : ResolverConfig} (env : Env) (fwdIp : Bytes)
    {question : DnsQuestion} (w : World) (fits : question.Fits)
    (noZone : staticForwarderFor cfg question.qname = none) :
    Fetches cfg w (forwardUdp env fwdIp question w).2 := by
  rw [forwardUdp]
  split
  · exact .refl w
  · rename_i sAddr address
    have asked :
        Fetches cfg w (sendQuery env ⟨sAddr, 53⟩ question w).2 := by
      apply fetches_sendQuery env w fits
      intro forwarder zone
      rw [noZone] at zone
      cases zone
    have ask := asked_sendQuery env ⟨sAddr, 53⟩ question w
    exact asked.trans ask.fetches_acceptForwarded

/-! ## Iteration -/

/-- The name of an alias is read into a buffer of the same size. -/
theorem fits_of_aliasTarget
    {raw target : Bytes} {first : DnsRr}
    (isTarget : aliasTarget raw first = some target)
    (question : DnsQuestion) :
    ({ question with qname := target } : DnsQuestion).Fits := by
  unfold aliasTarget decompressNameInRdata at isTarget
  split at isTarget
  · split at isTarget
    · cases isTarget
    · split at isTarget
      · cases isTarget
      · rename_i name stop read
        cases isTarget
        have bound := (readName_ok (by decide) read).1
        exact Nat.le_of_lt_succ bound
  · cases isTarget

theorem fetches_tryServers
    {env : Env} {cfg : ResolverConfig}
    {recurse : DnsQuestion → List NsRecord → World → Outcome × World}
    (below :
      ∀ question nsList w, question.Fits →
        Fetches cfg w (recurse question nsList w).2)
    {question : DnsQuestion} (fits : question.Fits)
    (noZone : staticForwarderFor cfg question.qname = none)
    (nsList left : List NsRecord) (w : World) :
    Fetches cfg w (tryServers env recurse question nsList left w).2 := by
  induction left generalizing w with
  | nil => exact .refl w
  | cons ns left inductionHypothesis =>
      have ask := asked_sendQuery env ns.addr question w
      have asked :
          Fetches cfg w (sendQuery env ns.addr question w).2 := by
        apply fetches_sendQuery env w fits
        intro forwarder zone
        rw [noZone] at zone
        cases zone
      have holds := replyKind_holds (sendQuery env ns.addr question w).1
      rw [tryServers_cons]
      cases kind : replyKind (sendQuery env ns.addr question w).1 with
      | useless => exact asked.trans (inductionHypothesis _)
      | cname raw target =>
          rw [kind] at holds
          obtain ⟨resp, first, more, _, _, isTarget⟩ := holds
          have targetFits := fits_of_aliasTarget isTarget question
          exact
            (asked.trans (fetches_note .followedCname question raw)).trans
              (below _ nsList _ targetFits)
      | answer raw resp ttl =>
          rw [kind] at holds
          obtain ⟨first, more, usable, _⟩ := holds
          exact asked.trans (ask.fetches_storeReply ttl usable)
      | referral raw resp =>
          have inner :=
            (asked.trans
                (fetches_note .followedReferral question raw)).trans
              (below question (buildNsList resp raw) _ fits)
          simp only
          split
          · exact inner
          · exact inner.trans (inductionHypothesis _)
      | nameError raw resp =>
          rw [kind] at holds
          exact asked.trans (ask.fetches_storeReply 600 holds.1)

theorem fetches_resolveInternal
    (env : Env) (cfg : ResolverConfig) (levels : Nat)
    {question : DnsQuestion} (fits : question.Fits)
    (nsList : List NsRecord) (w : World) :
    Fetches cfg w (resolveInternal env cfg levels question nsList w).2 := by
  induction levels generalizing question nsList w with
  | zero => exact .refl w
  | succ levels inductionHypothesis =>
      rw [resolveInternal]
      cases checked : checkCache env question w with
      | mk hit missed =>
          apply (fetches_checkCache checked).trans
          cases hit with
          | some a => exact .refl missed
          | none =>
              simp only
              cases zone : staticForwarderFor cfg question.qname with
              | some addr =>
                  have asked :
                      Fetches cfg missed
                        (sendQuery env addr question missed).2 := by
                    apply fetches_sendQuery env missed fits
                    intro forwarder alsoZone
                    rw [zone] at alsoZone
                    exact Option.some.inj alsoZone
                  have ask := asked_sendQuery env addr question missed
                  exact asked.trans ask.fetches_acceptForwarded
              | none =>
                  cases cfg.dnsForwarder with
                  | some fwdIp =>
                      simp only
                      split
                      · exact fetches_forwardTcp env fwdIp missed fits zone
                      · exact fetches_forwardUdp env fwdIp missed fits zone
                  | none =>
                      apply fetches_tryServers _ fits zone
                      intro other otherList otherWorld otherFits
                      exact
                        inductionHypothesis otherFits otherList otherWorld

theorem resolverQuestion_fits (question : DnsQuestion) :
    (resolverQuestion question).Fits :=
  List.length_take_le _ _

/-- The copy of a name that fits is the name. -/
theorem content_resolverQuestion
    {question : DnsQuestion} (fits : question.Fits) :
    content (resolverQuestion question).qname = content question.qname := by
  have bound : (content question.qname).length < dnsMaxNameLen + 1 :=
    Nat.lt_succ_of_le
      (Nat.le_trans (content_length_le question.qname) fits)
  rw [resolverQuestion, boundedCopy_eq_self bound, content_content]

/-- The zone of a name is that of its string. -/
theorem staticForwarderFor_of_content
    (cfg : ResolverConfig) {qname other : Bytes}
    (same : content qname = content other) :
    staticForwarderFor cfg qname = staticForwarderFor cfg other := by
  unfold staticForwarderFor inZone
  rw [same]

theorem fetches_resolverResolve
    (env : Env) (cfg : ResolverConfig) (query : DnsMessage) (w : World) :
    Fetches cfg w (resolverResolve env cfg query w).2 := by
  rw [resolverResolve]
  split
  · exact .refl w
  · exact
      fetches_resolveInternal env cfg _ (resolverQuestion_fits _) _ w

end DnsFirewall
