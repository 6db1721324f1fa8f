import DnsFirewall.Resolver.Model
import DnsFirewall.Wire.SectionHeap

/-!
# The messages of the resolver

`resolve_internal` with the section arrays of its messages.  Every level has
its own reply and its own message for the answer of the level below, and hands
on at most one of them to its caller.  No array is released twice, and what a
call leaves behind are the arrays of rejected packets and, when a lower level
reports that the name does not exist, those of the message that it had set.
-/

namespace DnsFirewall

open CString

/-! ## The resolver with its arrays -/

/-- What a call of the resolver leaves: how it ends, the pointers of the
message of its caller, and the state. -/
structure Resolved where
  outcome : Outcome
  final : SectionPointers
  world : World
  heap : ArrayHeap

/-- The reply, if `raw_len >= 12`. -/
def headedReply (reply : Option Bytes) : Option Bytes :=
  reply.filter fun raw => 12 ≤ raw.length

/-- The cache check; `stack` is what a message holds that was not set. -/
def checkCacheArrays (env : Env) (stack : SectionPointers)
    (question : DnsQuestion) (final : SectionPointers) (w : World)
    (h : ArrayHeap) : Option Answer × SectionPointers × World × ArrayHeap :=
  let (found, cache) :=
    cacheLookup w.cache question.qname question.qtype question.qclass
      (env.time w.ticks)
  let w := { w with cache, ticks := w.ticks + 1 }
  match found with
  | none => (none, final, w, h)
  | some raw =>
      match h.parse raw stack with
      | ((.error _, _), h) => (none, final, w, h)
      | ((.ok message, tmp), h) =>
          (some ⟨message, raw, question, .cached⟩, tmp, w, h)

def acceptForwardedArrays (env : Env) (stack : SectionPointers)
    (question : DnsQuestion) (reply : Option Bytes)
    (final : SectionPointers) (w : World) (h : ArrayHeap) : Resolved :=
  match headedReply reply with
  | none => ⟨.failed, final, w, h⟩
  | some raw =>
      match h.parse raw stack with
      | ((.error _, _), h) => ⟨.failed, final, w, h⟩
      | ((.ok message, resp), h) =>
          let (a, w) :=
            storeReply env question raw message (forwardedTtl message) w
          ⟨.answer a, resp, w, h⟩

def forwardTcpArrays (env : Env) (stack : SectionPointers)
    (fwdIp : Bytes) (question : DnsQuestion) (final : SectionPointers)
    (w : World) (h : ArrayHeap) : Resolved :=
  let w := if w.pool.initialised then w else initTcpPool env fwdIp w
  let id := randomId env w
  let w := { w with ticks := w.ticks + 1 }
  match borrowTcpConn env env.passes w with
  | (none, w) => ⟨.hung, final, w, h⟩
  | (some i, w) =>
      let (reply, w) := tcpExchange env i id question w
      acceptForwardedArrays env stack question reply final w h

def forwardUdpArrays (env : Env) (stack : SectionPointers)
    (fwdIp : Bytes) (question : DnsQuestion) (final : SectionPointers)
    (w : World) (h : ArrayHeap) : Resolved :=
  match inetPton fwdIp with
  | none => ⟨.failed, final, w, h⟩
  | some sAddr =>
      let (reply, w) := sendQuery env ⟨sAddr, 53⟩ question w
      acceptForwardedArrays env stack question reply final w h

/-- Behind the call for the target of a CNAME record: the reply is released,
and the answer handed on. -/
def followAlias (resp final : SectionPointers) (below : Resolved) :
    Resolved :=
  match below with
  | ⟨.answer a, cnameAnswer, w, h⟩ =>
      ⟨.answer a, cnameAnswer, w, h.freeMessage resp⟩
  | ⟨.nxDomain _, _, w, h⟩ =>
      ⟨.nxDomain none, final, w, h.freeMessage resp⟩
  | ⟨.hung, _, w, h⟩ => ⟨.hung, final, w, h⟩
  | ⟨outcome, _, w, h⟩ => ⟨outcome, final, w, h.freeMessage resp⟩

/-- Behind the call with the servers of a referral.  When the loop goes on, the
reply is released a second time, with the pointers cleared. -/
def followReferral (resp final : SectionPointers)
    (others : World → ArrayHeap → Resolved) (below : Resolved) :
    Resolved :=
  match below with
  | ⟨.answer a, subAnswer, w, h⟩ =>
      ⟨.answer a, subAnswer, w, h.freeMessage resp⟩
  | ⟨.nxDomain _, _, w, h⟩ =>
      ⟨.nxDomain none, final, w, h.freeMessage resp⟩
  | ⟨.hung, _, w, h⟩ => ⟨.hung, final, w, h⟩
  | ⟨_, _, w, h⟩ =>
      others w ((h.freeMessage resp).freeMessage fun _ => none)

/-- The server loop, from the servers left. -/
def tryServersArrays (env : Env) (stack : SectionPointers)
    (recurse : DnsQuestion → List NsRecord → SectionPointers → World →
      ArrayHeap → Resolved)
    (question : DnsQuestion) (nsList : List NsRecord)
    (final : SectionPointers) :
    List NsRecord → World → ArrayHeap → Resolved
  | [], w, h => ⟨.failed, final, w, h⟩
  | ns :: rest, w, h =>
      let others :=
        tryServersArrays env stack recurse question nsList final rest
      let (reply, w) := sendQuery env ns.addr question w
      match headedReply reply with
      | none => others w h
      | some raw =>
          match h.parse raw stack with
          | ((.error _, _), h) => others w h
          | ((.ok message, resp), h) =>
              match message.answers with
              | first :: _ =>
                  match aliasTarget raw first with
                  | some cname =>
                      let w :=
                        { w with
                          log :=
                            .believed .followedCname question raw ::
                              w.log }
                      followAlias resp final
                        (recurse { question with qname := cname } nsList
                          stack w h)
                  | none =>
                      let (a, w) :=
                        storeReply env question raw message first.ttl w
                      ⟨.answer a, resp, w, h⟩
              | [] =>
                  if message.authorities ≠ [] then
                    match buildNsList message raw with
                    | [] => others w (h.freeMessage resp)
                    | newNs =>
                        let w :=
                          { w with
                            log :=
                              .believed .followedReferral question raw ::
                                w.log }
                        followReferral resp final others
                          (recurse question newNs stack w h)
                  else if
                      message.header.flags &&& 0x0F = dnsRcodeNxdomain then
                    let (a, w) :=
                      storeReply env question raw message 600 w
                    ⟨.nxDomain (some a), resp, w, h⟩
                  else
                    others w (h.freeMessage resp)

/-- `resolve_internal`; the levels left are `MAX_RECURSION_DEPTH + 1 - depth`.
-/
def resolveInternalArrays (env : Env) (cfg : ResolverConfig)
    (stack : SectionPointers) :
    Nat → DnsQuestion → List NsRecord → SectionPointers → World →
      ArrayHeap → Resolved
  | 0, _, _, final, w, h => ⟨.tooDeep, final, w, h⟩
  | levels + 1, question, nsList, final, w, h =>
      match checkCacheArrays env stack question final w h with
      | (some a, tmp, w, h) => ⟨.answer a, tmp, w, h⟩
      | (none, final, w, h) =>
          match staticForwarderFor cfg question.qname with
          | some addr =>
              let (reply, w) := sendQuery env addr question w
              acceptForwardedArrays env stack question reply final w h
          | none =>
              match cfg.dnsForwarder with
              | some fwdIp =>
                  if useTcp cfg then
                    forwardTcpArrays env stack fwdIp question final w h
                  else
                    forwardUdpArrays env stack fwdIp question final w h
              | none =>
                  tryServersArrays env stack
                    (resolveInternalArrays env cfg stack levels) question
                    nsList final nsList w h

def resolverResolveArrays (env : Env) (cfg : ResolverConfig)
    (stack : SectionPointers) (query : DnsMessage)
    (final : SectionPointers) (w : World) (h : ArrayHeap) : Resolved :=
  match query.questions with
  | [] => ⟨.failed, final, w, h⟩
  | question :: _ =>
      resolveInternalArrays env cfg stack (maxRecursionDepth + 1)
        (resolverQuestion question) cfg.rootHints final w h

/-! ## The resolver without its arrays -/

/-- What the caller sees of a call, but for the arrays. -/
def Resolved.plain (r : Resolved) : Outcome × World :=
  (r.outcome, r.world)

theorem usableReply_eq_headedReply (reply : Option Bytes) :
    usableReply reply =
      match headedReply reply with
      | none => none
      | some raw =>
          match dnsParseMessage raw with
          | .error _ => none
          | .ok resp => some (raw, resp) := by
  cases reply with
  | none => rfl
  | some raw =>
      by_cases short : raw.length < 12
      · simp [usableReply, headedReply, Option.filter, short,
          Nat.not_le.mpr short]
      · have whole : headedReply (some raw) = some raw := by
          simp [headedReply, Option.filter, Nat.le_of_not_lt short]
        rw [whole]
        exact if_neg short

section Plain

variable (env : Env) (stack : SectionPointers)

/-- A parsed packet, by what the parser makes of it. -/
theorem parse_eq (h : ArrayHeap) (raw : Bytes) :
    h.parse raw stack =
      ((dnsParseMessage raw, (h.parse raw stack).1.2),
        (h.parse raw stack).2) := by
  rw [← h.parse_result raw stack]

theorem plain_acceptForwardedArrays
    (question : DnsQuestion) (reply : Option Bytes)
    (final : SectionPointers) (w : World) (h : ArrayHeap) :
    (acceptForwardedArrays env stack question reply final w h).plain =
      acceptForwarded env question reply w := by
  rw [acceptForwardedArrays, acceptForwarded, usableReply_eq_headedReply]
  cases headedReply reply with
  | none => rfl
  | some raw =>
      simp only
      rw [parse_eq]
      cases dnsParseMessage raw with
      | error failure => rfl
      | ok message => rfl

theorem plain_checkCacheArrays
    (question : DnsQuestion) (final : SectionPointers) (w : World)
    (h : ArrayHeap) :
    let found := checkCacheArrays env stack question final w h
    (found.1, found.2.2.1) = checkCache env question w := by
  simp only [checkCacheArrays, checkCache]
  cases cacheLookup w.cache question.qname question.qtype question.qclass
      (env.time w.ticks) with
  | mk found cache =>
      cases found with
      | none => rfl
      | some raw =>
          simp only
          rw [parse_eq]
          cases dnsParseMessage raw with
          | error failure => rfl
          | ok message => rfl

theorem plain_forwardTcpArrays
    (fwdIp : Bytes) (question : DnsQuestion) (final : SectionPointers)
    (w : World) (h : ArrayHeap) :
    (forwardTcpArrays env stack fwdIp question final w h).plain =
      forwardTcp env fwdIp question w := by
  rw [forwardTcpArrays, forwardTcp]
  generalize (if w.pool.initialised then w else initTcpPool env fwdIp w) = w
  simp only
  cases borrowTcpConn env env.passes { w with ticks := w.ticks + 1 } with
  | mk found after =>
      cases found with
      | none => rfl
      | some i => exact plain_acceptForwardedArrays env stack _ _ _ _ _

theorem plain_forwardUdpArrays
    (fwdIp : Bytes) (question : DnsQuestion) (final : SectionPointers)
    (w : World) (h : ArrayHeap) :
    (forwardUdpArrays env stack fwdIp question final w h).plain =
      forwardUdp env fwdIp question w := by
  rw [forwardUdpArrays, forwardUdp]
  cases inetPton fwdIp with
  | none => rfl
  | some sAddr => exact plain_acceptForwardedArrays env stack _ _ _ _ _

theorem plain_tryServersArrays
    {recurse : DnsQuestion → List NsRecord → SectionPointers → World →
      ArrayHeap → Resolved}
    {plain : DnsQuestion → List NsRecord → World → Outcome × World}
    (same : ∀ question nsList final w h,
      (recurse question nsList final w h).plain = plain question nsList w)
    (question : DnsQuestion) (nsList : List NsRecord)
    (final : SectionPointers) (servers : List NsRecord) (w : World)
    (h : ArrayHeap) :
    (tryServersArrays env stack recurse question nsList final servers w
        h).plain =
      tryServers env plain question nsList servers w := by
  induction servers generalizing w h with
  | nil => rfl
  | cons ns rest inductionHypothesis =>
      rw [tryServersArrays, tryServers]
      simp only [usableReply_eq_headedReply]
      cases headedReply (sendQuery env ns.addr question w).1 with
      | none => exact inductionHypothesis _ _
      | some raw =>
          simp only
          rw [parse_eq]
          cases dnsParseMessage raw with
          | error failure => exact inductionHypothesis _ _
          | ok message =>
              simp only
              generalize (h.parse raw stack).1.2 = resp
              generalize (h.parse raw stack).2 = h
              cases message.answers with
              | cons first more =>
                  simp only
                  cases aliasTarget raw first with
                  | none => rfl
                  | some cname =>
                      simp only
                      rw [← same _ _ stack _ h]
                      generalize recurse _ _ _ _ _ = below
                      obtain ⟨outcome, sub, after, heap⟩ := below
                      cases outcome <;> rfl
              | nil =>
                  simp only
                  split
                  · cases buildNsList message raw with
                    | nil => exact inductionHypothesis _ _
                    | cons first more =>
                        simp only
                        rw [← same _ _ stack _ h]
                        generalize recurse _ _ _ _ _ = below
                        obtain ⟨outcome, sub, after, heap⟩ := below
                        cases outcome with
                        | failed => exact inductionHypothesis _ _
                        | tooDeep => exact inductionHypothesis _ _
                        | answer a => rfl
                        | nxDomain a => rfl
                        | hung => rfl
                  · split
                    · rfl
                    · exact inductionHypothesis _ _

theorem plain_resolveInternalArrays
    (cfg : ResolverConfig) (levels : Nat) (question : DnsQuestion)
    (nsList : List NsRecord) (final : SectionPointers) (w : World)
    (h : ArrayHeap) :
    (resolveInternalArrays env cfg stack levels question nsList final w
        h).plain =
      resolveInternal env cfg levels question nsList w := by
  induction levels generalizing question nsList final w h with
  | zero => rfl
  | succ levels inductionHypothesis =>
      have checked := plain_checkCacheArrays env stack question final w h
      rw [resolveInternalArrays, resolveInternal, ← checked]
      obtain ⟨found, final, w, h⟩ :=
        checkCacheArrays env stack question final w h
      cases found with
      | some a => rfl
      | none =>
          simp only
          cases staticForwarderFor cfg question.qname with
          | some addr => exact plain_acceptForwardedArrays env stack _ _ _ _ _
          | none =>
              simp only
              cases cfg.dnsForwarder with
              | some fwdIp =>
                  simp only
                  split
                  · exact plain_forwardTcpArrays env stack _ _ _ _ _
                  · exact plain_forwardUdpArrays env stack _ _ _ _ _
              | none =>
                  exact
                    plain_tryServersArrays env stack inductionHypothesis _ _ _
                      _ _ _

theorem plain_resolverResolveArrays
    (cfg : ResolverConfig) (query : DnsMessage) (final : SectionPointers)
    (w : World) (h : ArrayHeap) :
    (resolverResolveArrays env cfg stack query final w h).plain =
      resolverResolve env cfg query w := by
  rw [resolverResolveArrays, resolverResolve]
  cases query.questions with
  | nil => rfl
  | cons question more =>
      exact plain_resolveInternalArrays env stack _ _ _ _ _ _ _

end Plain

/-! ## What a call leaves behind -/

/-- The arrays that the caller can release: those of its message, if the call
has set it. -/
def Outcome.held (final : SectionPointers) : Outcome → Multiset Address
  | .answer _ | .nxDomain (some _) => dnsFreeMessage final
  | _ => 0

/-- The arrays of the message that a lower level had set for `-3`: it is the
last one that was parsed. -/
def Outcome.dropped (reads : List Bytes) : Outcome → Nat
  | .nxDomain none => (reads.head?.map arraysOf).getD 0
  | _ => 0

theorem held_nxDomain_none (final : SectionPointers) :
    (Outcome.nxDomain none).held final = 0 :=
  rfl

theorem held_nxDomain_some (final : SectionPointers) (a : Answer) :
    (Outcome.nxDomain (some a)).held final = dnsFreeMessage final :=
  rfl

/-- What happened to the heap in a call that returns: these packets were
parsed, and besides what the caller holds these arrays stay. -/
structure Resolved.Books (r : Resolved) (h : ArrayHeap)
    (reads : List Bytes) (kept : Multiset Address) : Prop where
  since : ArrayHeap.Since h r.heap reads (r.outcome.held r.final + kept)
  count : kept.card = rejectedArrays reads + r.outcome.dropped reads
  absent : ∀ found, r.outcome = .nxDomain found →
    ∃ raw more, reads = raw :: more ∧
      (found.isSome → (dnsFreeMessage r.final).length = arraysOf raw)

/-- The call sets the message of the caller. -/
def Outcome.Sets : Outcome → Prop
  | .answer _ | .nxDomain (some _) => True
  | _ => False

/-- A call releases nothing that was not allocated, leaves the message of the
caller as it was if it does not set it, and unless it never returns, its books
are right. -/
structure Resolved.Balanced (r : Resolved) (final : SectionPointers)
    (h : ArrayHeap) : Prop where
  fresh : h.Fresh → r.heap.Fresh
  misfreed : r.heap.misfreed = h.misfreed
  unset : ¬ r.outcome.Sets → r.final = final
  returned : r.outcome ≠ .hung → ∃ reads kept, r.Books h reads kept

/-- The outcomes without a message of their own. -/
def Outcome.Unset (outcome : Outcome) : Prop :=
  outcome = .failed ∨ outcome = .tooDeep ∨ outcome = .hung

section Balance

variable {h : ArrayHeap} {raw : Bytes} {stack : SectionPointers}
  {message : DnsMessage}

theorem balanced_unset
    {outcome : Outcome} (unset : outcome.Unset) (final : SectionPointers)
    (w : World) (h : ArrayHeap) :
    Resolved.Balanced ⟨outcome, final, w, h⟩ final h := by
  refine ⟨id, rfl, fun _ => rfl, ?_⟩
  intro returns
  refine ⟨[], 0, ?_⟩
  rcases unset with rfl | rfl | rfl
  · exact ⟨ArrayHeap.Since.refl h, rfl, fun _ => nofun⟩
  · exact ⟨ArrayHeap.Since.refl h, rfl, fun _ => nofun⟩
  · exact absurd rfl returns

theorem Outcome.dropped_append
    {outcome : Outcome} {reads : List Bytes}
    (absent : ∀ found, outcome = .nxDomain found → reads ≠ [])
    (earlier : List Bytes) :
    outcome.dropped (reads ++ earlier) = outcome.dropped reads := by
  cases outcome with
  | nxDomain found =>
      cases found with
      | some a => rfl
      | none =>
          cases reads with
          | nil => exact absurd rfl (absent none rfl)
          | cons raw more => rfl
  | answer a => rfl
  | failed => rfl
  | tooDeep => rfl
  | hung => rfl

/-- Packets that were rejected before the call go into its books. -/
theorem Resolved.Balanced.of_since
    {r : Resolved} {after : ArrayHeap} {earlier : List Bytes}
    {lost : Multiset Address} {final : SectionPointers}
    (balanced : r.Balanced final after)
    (since : ArrayHeap.Since h after earlier lost)
    (count : lost.card = rejectedArrays earlier) :
    r.Balanced final h := by
  refine
    ⟨fun fresh => balanced.fresh (since.fresh fresh),
      balanced.misfreed.trans since.misfreed, balanced.unset, ?_⟩
  intro returns
  obtain ⟨reads, kept, books⟩ := balanced.returned returns
  refine ⟨reads ++ earlier, kept + lost, ?_, ?_, ?_⟩
  · rw [← Multiset.add_assoc]
    exact since.trans books.since
  · rw [Multiset.card_add, books.count, count, rejectedArrays_append,
      Outcome.dropped_append]
    · omega
    · intro found isAbsent
      obtain ⟨raw, more, shape, _⟩ := books.absent found isAbsent
      rw [shape]
      exact List.cons_ne_nil _ _
  · intro found isAbsent
    obtain ⟨raw, more, shape, held⟩ := books.absent found isAbsent
    exact ⟨raw, more ++ earlier, by rw [shape]; rfl, held⟩

/-- A packet that is rejected. -/
theorem Resolved.Balanced.of_rejected
    {r : Resolved} {failure : ReadError} {final : SectionPointers}
    (rejected : dnsParseMessage raw = .error failure)
    (balanced : r.Balanced final (h.parse raw stack).2) :
    r.Balanced final h := by
  obtain ⟨lost, since, count⟩ := h.exists_since_rejected stack rejected
  exact balanced.of_since since count

/-- A packet whose message is released again. -/
theorem since_released (long : 12 ≤ raw.length) :
    ArrayHeap.Since h
      ((h.parse raw stack).2.freeMessage (h.parse raw stack).1.2) [raw]
      0 := by
  have since := h.since_parse stack long
  rw [← Multiset.add_zero
    (dnsFreeMessage (h.parse raw stack).1.2 : Multiset Address)] at since
  exact since.freeMessage

/-- A packet whose message becomes that of the caller. -/
theorem balanced_handedOn
    (parsed : dnsParseMessage raw = .ok message) {outcome : Outcome}
    (a : Answer) (hands : outcome = .answer a ∨ outcome = .nxDomain (some a))
    (final : SectionPointers) (w : World) :
    Resolved.Balanced
      ⟨outcome, (h.parse raw stack).1.2, w, (h.parse raw stack).2⟩ final
      h := by
  have long := length_of_parsed parsed
  have since := h.since_parse stack long
  have length := h.parse_length stack long
  rw [← Multiset.add_zero
    (dnsFreeMessage (h.parse raw stack).1.2 : Multiset Address)] at since
  have sets : outcome.Sets := by
    rcases hands with rfl | rfl
    · trivial
    · trivial
  refine ⟨since.fresh, since.misfreed, fun unset => absurd sets unset, ?_⟩
  intro _
  refine ⟨[raw], 0, ?_, ?_, ?_⟩
  · rcases hands with rfl | rfl
    · exact since
    · exact since
  · rw [rejectedArrays_ok parsed]
    rcases hands with rfl | rfl
    · rfl
    · rfl
  · intro found isAbsent
    exact ⟨raw, [], rfl, fun _ => length⟩

/-- The reply is released behind the call of the level below. -/
theorem Resolved.Books.released
    {below : Resolved} {reads : List Bytes} {kept : Multiset Address}
    (parsed : dnsParseMessage raw = .ok message)
    (books : below.Books (h.parse raw stack).2 reads kept) :
    ArrayHeap.Since h
      (below.heap.freeMessage (h.parse raw stack).1.2) (reads ++ [raw])
      (below.outcome.held below.final + kept) := by
  have since :=
    (h.since_parse stack (length_of_parsed parsed)).trans books.since
  rw [Multiset.add_comm] at since
  exact since.freeMessage

theorem rejectedArrays_append_ok
    (parsed : dnsParseMessage raw = .ok message) (reads : List Bytes) :
    rejectedArrays (reads ++ [raw]) = rejectedArrays reads := by
  rw [rejectedArrays_append, rejectedArrays_ok parsed, Nat.add_zero]

/-- The answer of the level below is handed on. -/
theorem balanced_passedOn
    (parsed : dnsParseMessage raw = .ok message) {below : Resolved}
    (balanced : below.Balanced stack (h.parse raw stack).2) {a : Answer}
    (answers : below.outcome = .answer a) (final : SectionPointers) :
    Resolved.Balanced
      ⟨.answer a, below.final, below.world,
        below.heap.freeMessage (h.parse raw stack).1.2⟩
      final h := by
  obtain ⟨reads, kept, books⟩ :=
    balanced.returned (by rw [answers]; nofun)
  have since := books.released parsed
  rw [answers] at since
  refine
    ⟨since.fresh, since.misfreed, fun unset => absurd trivial unset,
      fun _ => ?_⟩
  refine ⟨reads ++ [raw], kept, since, ?_, fun _ => nofun⟩
  rw [books.count, answers, rejectedArrays_append_ok parsed]
  rfl

/-- The message that the level below has set for `-3` is dropped. -/
theorem balanced_dropped
    (parsed : dnsParseMessage raw = .ok message) {below : Resolved}
    (balanced : below.Balanced stack (h.parse raw stack).2)
    {found : Option Answer} (isAbsent : below.outcome = .nxDomain found)
    (final : SectionPointers) :
    Resolved.Balanced
      ⟨.nxDomain none, final, below.world,
        below.heap.freeMessage (h.parse raw stack).1.2⟩
      final h := by
  obtain ⟨reads, kept, books⟩ :=
    balanced.returned (by rw [isAbsent]; nofun)
  have since := books.released parsed
  obtain ⟨last, more, shape, held⟩ := books.absent found isAbsent
  have count := books.count
  rw [isAbsent] at since count
  refine ⟨since.fresh, since.misfreed, fun _ => rfl, fun _ => ?_⟩
  refine
    ⟨reads ++ [raw], (Outcome.nxDomain found).held below.final + kept, ?_,
      ?_, ?_⟩
  · rw [held_nxDomain_none, Multiset.zero_add]
    exact since
  · rw [rejectedArrays_append_ok parsed, Multiset.card_add, count, shape]
    cases found with
    | none =>
        rw [held_nxDomain_none, Multiset.card_zero, Nat.zero_add]
        rfl
    | some a =>
        rw [held_nxDomain_some, Multiset.coe_card, held rfl]
        exact Nat.add_comm _ _
  · intro other isOther
    cases isOther
    exact ⟨last, more ++ [raw], by rw [shape]; rfl, nofun⟩

/-- The level below has set nothing. -/
theorem exists_since_unset
    (parsed : dnsParseMessage raw = .ok message) {below : Resolved}
    (balanced : below.Balanced stack (h.parse raw stack).2)
    (unset : below.outcome = .failed ∨ below.outcome = .tooDeep) :
    ∃ reads lost,
      ArrayHeap.Since h
          (below.heap.freeMessage (h.parse raw stack).1.2) reads lost ∧
        lost.card = rejectedArrays reads := by
  obtain ⟨reads, kept, books⟩ :=
    balanced.returned (by rcases unset with is | is <;> rw [is] <;> nofun)
  have since := books.released parsed
  have holdsNone : below.outcome.held below.final = 0 := by
    rcases unset with is | is
    · rw [is]
      rfl
    · rw [is]
      rfl
  have dropsNone : below.outcome.dropped reads = 0 := by
    rcases unset with is | is
    · rw [is]
      rfl
    · rw [is]
      rfl
  rw [holdsNone, Multiset.zero_add] at since
  refine ⟨reads ++ [raw], kept, since, ?_⟩
  rw [rejectedArrays_append_ok parsed, books.count, dropsNone,
    Nat.add_zero]

/-- A level that never returns releases nothing any more. -/
theorem balanced_hung
    (parsed : dnsParseMessage raw = .ok message) {below : Resolved}
    (balanced : below.Balanced stack (h.parse raw stack).2)
    (final : SectionPointers) :
    Resolved.Balanced ⟨.hung, final, below.world, below.heap⟩ final h := by
  have since := h.since_parse stack (length_of_parsed parsed)
  exact
    ⟨fun fresh => balanced.fresh (since.fresh fresh),
      balanced.misfreed.trans since.misfreed, fun _ => rfl,
      fun returns => absurd rfl returns⟩

theorem balanced_followAlias
    (parsed : dnsParseMessage raw = .ok message) {below : Resolved}
    (balanced : below.Balanced stack (h.parse raw stack).2)
    (final : SectionPointers) :
    (followAlias (h.parse raw stack).1.2 final below).Balanced final
      h := by
  obtain ⟨outcome, sub, w, heap⟩ := below
  cases outcome with
  | answer a => exact balanced_passedOn parsed balanced rfl final
  | nxDomain found => exact balanced_dropped parsed balanced rfl final
  | hung => exact balanced_hung parsed balanced final
  | failed =>
      obtain ⟨reads, lost, since, count⟩ :=
        exists_since_unset parsed balanced (Or.inl rfl)
      exact
        (balanced_unset (Or.inl rfl) final w _).of_since since count
  | tooDeep =>
      obtain ⟨reads, lost, since, count⟩ :=
        exists_since_unset parsed balanced (Or.inr rfl)
      exact
        (balanced_unset (Or.inr (Or.inl rfl)) final w _).of_since since
          count

theorem balanced_followReferral
    (parsed : dnsParseMessage raw = .ok message) {below : Resolved}
    (balanced : below.Balanced stack (h.parse raw stack).2)
    (final : SectionPointers) {others : World → ArrayHeap → Resolved}
    (rest : ∀ w h, (others w h).Balanced final h) :
    (followReferral (h.parse raw stack).1.2 final others below).Balanced
      final h := by
  obtain ⟨outcome, sub, w, heap⟩ := below
  cases outcome with
  | answer a => exact balanced_passedOn parsed balanced rfl final
  | nxDomain found => exact balanced_dropped parsed balanced rfl final
  | hung => exact balanced_hung parsed balanced final
  | failed =>
      obtain ⟨reads, lost, since, count⟩ :=
        exists_since_unset parsed balanced (Or.inl rfl)
      exact (rest w _).of_since since count
  | tooDeep =>
      obtain ⟨reads, lost, since, count⟩ :=
        exists_since_unset parsed balanced (Or.inr rfl)
      exact (rest w _).of_since since count

end Balance

section Calls

variable (env : Env) (stack : SectionPointers)

theorem balanced_acceptForwardedArrays
    (question : DnsQuestion) (reply : Option Bytes)
    (final : SectionPointers) (w : World) (h : ArrayHeap) :
    (acceptForwardedArrays env stack question reply final w h).Balanced
      final h := by
  rw [acceptForwardedArrays]
  cases headedReply reply with
  | none => exact balanced_unset (Or.inl rfl) final w h
  | some raw =>
      simp only
      rw [parse_eq]
      cases parsed : dnsParseMessage raw with
      | error failure =>
          exact
            (balanced_unset (Or.inl rfl) final w _).of_rejected parsed
      | ok message =>
          exact balanced_handedOn parsed _ (Or.inl rfl) final _

theorem balanced_forwardTcpArrays
    (fwdIp : Bytes) (question : DnsQuestion) (final : SectionPointers)
    (w : World) (h : ArrayHeap) :
    (forwardTcpArrays env stack fwdIp question final w h).Balanced final
      h := by
  rw [forwardTcpArrays]
  generalize (if w.pool.initialised then w else initTcpPool env fwdIp w) = w
  simp only
  cases borrowTcpConn env env.passes { w with ticks := w.ticks + 1 } with
  | mk found after =>
      cases found with
      | none =>
          exact balanced_unset (Or.inr (Or.inr rfl)) final after h
      | some i => exact balanced_acceptForwardedArrays env stack _ _ _ _ _

theorem balanced_forwardUdpArrays
    (fwdIp : Bytes) (question : DnsQuestion) (final : SectionPointers)
    (w : World) (h : ArrayHeap) :
    (forwardUdpArrays env stack fwdIp question final w h).Balanced final
      h := by
  rw [forwardUdpArrays]
  cases inetPton fwdIp with
  | none => exact balanced_unset (Or.inl rfl) final w h
  | some sAddr => exact balanced_acceptForwardedArrays env stack _ _ _ _ _

/-- The loop keeps its books, if the level below does. -/
theorem balanced_tryServersArrays
    {recurse : DnsQuestion → List NsRecord → SectionPointers → World →
      ArrayHeap → Resolved}
    (below : ∀ question nsList final w h,
      (recurse question nsList final w h).Balanced final h)
    (question : DnsQuestion) (nsList : List NsRecord)
    (final : SectionPointers) (servers : List NsRecord) (w : World)
    (h : ArrayHeap) :
    (tryServersArrays env stack recurse question nsList final servers w
      h).Balanced final h := by
  induction servers generalizing w h with
  | nil => exact balanced_unset (Or.inl rfl) final w h
  | cons ns rest inductionHypothesis =>
      rw [tryServersArrays]
      simp only
      cases headedReply (sendQuery env ns.addr question w).1 with
      | none => exact inductionHypothesis _ _
      | some raw =>
          simp only
          rw [parse_eq]
          cases parsed : dnsParseMessage raw with
          | error failure =>
              exact (inductionHypothesis _ _).of_rejected parsed
          | ok message =>
              have goesOn :
                  ∀ w,
                    (tryServersArrays env stack recurse question nsList
                      final rest w
                      ((h.parse raw stack).2.freeMessage
                        (h.parse raw stack).1.2)).Balanced final h :=
                fun w =>
                  (inductionHypothesis w _).of_since
                    (since_released (length_of_parsed parsed))
                    (rejectedArrays_ok parsed).symm
              simp only
              cases message.answers with
              | cons first more =>
                  simp only
                  cases aliasTarget raw first with
                  | none =>
                      exact balanced_handedOn parsed _ (Or.inl rfl) final _
                  | some cname =>
                      exact balanced_followAlias parsed (below _ _ _ _ _) final
              | nil =>
                  simp only
                  split
                  · cases buildNsList message raw with
                    | nil => exact goesOn _
                    | cons first more =>
                        exact
                          balanced_followReferral parsed (below _ _ _ _ _)
                            final inductionHypothesis
                  · split
                    · exact balanced_handedOn parsed _ (Or.inr rfl) final _
                    · exact goesOn _

theorem balanced_resolveInternalArrays
    (cfg : ResolverConfig) (levels : Nat) (question : DnsQuestion)
    (nsList : List NsRecord) (final : SectionPointers) (w : World)
    (h : ArrayHeap) :
    (resolveInternalArrays env cfg stack levels question nsList final w
      h).Balanced final h := by
  induction levels generalizing question nsList final w h with
  | zero => exact balanced_unset (Or.inr (Or.inl rfl)) final w h
  | succ levels inductionHypothesis =>
      have rest :
          ∀ w h,
            (match staticForwarderFor cfg question.qname with
              | some addr =>
                  let (reply, w) := sendQuery env addr question w
                  acceptForwardedArrays env stack question reply final w h
              | none =>
                  match cfg.dnsForwarder with
                  | some fwdIp =>
                      if useTcp cfg then
                        forwardTcpArrays env stack fwdIp question final w h
                      else
                        forwardUdpArrays env stack fwdIp question final w h
                  | none =>
                      tryServersArrays env stack
                        (resolveInternalArrays env cfg stack levels)
                        question nsList final nsList w h).Balanced final
              h := by
        intro w h
        cases staticForwarderFor cfg question.qname with
        | some addr => exact balanced_acceptForwardedArrays env stack _ _ _ _ _
        | none =>
            cases cfg.dnsForwarder with
            | some fwdIp =>
                simp only
                split
                · exact balanced_forwardTcpArrays env stack _ _ _ _ _
                · exact balanced_forwardUdpArrays env stack _ _ _ _ _
            | none =>
                exact
                  balanced_tryServersArrays env stack inductionHypothesis _ _
                    _ _ _ _
      rw [resolveInternalArrays, checkCacheArrays]
      cases cacheLookup w.cache question.qname question.qtype
          question.qclass (env.time w.ticks) with
      | mk found cache =>
          cases found with
          | none => exact rest _ _
          | some raw =>
              simp only
              rw [parse_eq]
              cases parsed : dnsParseMessage raw with
              | error failure => exact (rest _ _).of_rejected parsed
              | ok message =>
                  exact balanced_handedOn parsed _ (Or.inl rfl) final _

theorem balanced_resolverResolveArrays
    (cfg : ResolverConfig) (query : DnsMessage) (final : SectionPointers)
    (w : World) (h : ArrayHeap) :
    (resolverResolveArrays env cfg stack query final w h).Balanced final
      h := by
  rw [resolverResolveArrays]
  cases query.questions with
  | nil => exact balanced_unset (Or.inl rfl) final w h
  | cons question more =>
      exact balanced_resolveInternalArrays env stack _ _ _ _ _ _ _

end Calls

end DnsFirewall
