import DnsFirewall.Foundations.Runs
import DnsFirewall.Processor.Replies
import DnsFirewall.Resolver.Ownership

/-!
# The messages of a query

`process_dns_query` with the section arrays of its query, its answer and the
message that the validation of DNSSEC parses.  Over any number of queries no
array is released twice, and as many arrays stay allocated as there were in the
packets that the parser rejects behind the first one, and in the messages that
the resolver drops.
-/

namespace DnsFirewall

open CString Runs

variable {F : Type}

/-! ## The call with its arrays -/

/-- The end of a call: only when it returns it has released these messages. -/
def finish (result : CallResult) (messages : List SectionPointers)
    (h : ArrayHeap) : CallResult × ArrayHeap :=
  match result.ending with
  | .returned | .freesUnset =>
      (result, messages.foldl ArrayHeap.freeMessage h)
  | .missingQuestion | .hung => (result, h)

/-- The messages that are released when `rc` is 0, or 0 or -3. -/
def releasedAnswer (outcome : Outcome) (answer : SectionPointers) :
    List SectionPointers :=
  match outcome with
  | .answer _ | .nxDomain _ => [answer]
  | .failed | .tooDeep | .hung => []

/-- The validation of the packet that is delivered; with `g_dnssec` it is
parsed once more, and what the parser rejects is not released. -/
def validateArrays (dnssec : Bool) (stack : SectionPointers)
    (outcome : Outcome) (effects : List Effect) (h : ArrayHeap) :
    ArrayHeap :=
  match dnssec, outcome, effects with
  | true, .answer _, [.respond .delivery raw] =>
      match h.parse raw stack with
      | ((.ok _, tmp), h) => h.freeMessage tmp
      | ((.error _, _), h) => h
  | _, _, _ => h

/-- The part of the call behind the checks made before resolution; the answer
starts with null pointers. -/
def resolveQueryArrays (env : Env) (cfg : Config F) (dnssec : Bool)
    (stack : SectionPointers) (fw : Firewall)
    (client : Option SockAddrIn) (message : DnsMessage)
    (question : DnsQuestion) (query : SectionPointers) (h : ArrayHeap) :
    CallResult × ArrayHeap :=
  let r :=
    resolverResolveArrays env cfg.resolver stack message (fun _ => none)
      ⟨fw.cache, fw.pool, 2, []⟩ h
  let w := r.world
  let fw := { fw with cache := w.cache, pool := w.pool }
  let tick := w.ticks + postCheckTicks r.outcome
  match postCheck env cfg message r.outcome w.ticks fw.flux with
  | none =>
      finish ⟨.missingQuestion, [], some (r.outcome, true), w.log, fw⟩ []
        r.heap
  | some (true, flux) =>
      finish
        (blockQuery env tick .dynamicRule { fw with flux } client message
          question.qname (some (r.outcome, false)) w.log)
        (query :: releasedAnswer r.outcome r.final) r.heap
  | some (false, flux) =>
      let result :=
        sendAnswer env tick { fw with flux } message.header.id question
          r.outcome w.log
      finish result (query :: releasedAnswer r.outcome r.final)
        (validateArrays dnssec stack r.outcome result.effects r.heap)

def processDnsQueryArrays (env : Env) (cfg : Config F) (dnssec : Bool)
    (stack : SectionPointers) (fw : Firewall) (inbuf : Bytes)
    (client : Option SockAddrIn) (h : ArrayHeap) :
    CallResult × ArrayHeap :=
  match h.parse inbuf stack with
  | ((.error _, query), h) =>
      finish
        ⟨if inbuf.length < 12 then .freesUnset else .returned,
          [.respond .parseError (errorResponse 0)], none, [], fw⟩
        [query] h
  | ((.ok message, query), h) =>
      match rateLimit env fw client with
      | (true, fw) =>
          finish ⟨.returned, [.dropped], none, [], fw⟩ [query] h
      | (false, fw) =>
          if isQuarantined env fw client = true then
            match sinkholeResponse message with
            | none => finish ⟨.missingQuestion, [], none, [], fw⟩ [] h
            | some buf =>
                finish
                  ⟨.returned, [.respond .quarantine buf], none, [], fw⟩
                  [query] h
          else
            match message.questions with
            | [] => finish ⟨.missingQuestion, [], none, [], fw⟩ [] h
            | question :: _ =>
                if policyCheckBlocklist cfg.policy.blacklist
                    question.qname = true then
                  finish
                    (blockQuery env 2 .blacklist fw client message
                      question.qname none [])
                    [query] h
                else if policyCheckPreresolve cfg.policy
                    question.qname = true then
                  finish
                    (blockQuery env 2 .dga fw client message
                      question.qname none [])
                    [query] h
                else
                  resolveQueryArrays env cfg dnssec stack fw client message
                    question query h

/-! ## The call without its arrays -/

@[simp]
theorem finish_fst
    (result : CallResult) (messages : List SectionPointers)
    (h : ArrayHeap) :
    (finish result messages h).1 = result := by
  rw [finish]
  split <;> rfl

theorem resolveQueryArrays_fst
    (env : Env) (cfg : Config F) (dnssec : Bool) (stack : SectionPointers)
    (fw : Firewall) (client : Option SockAddrIn) (message : DnsMessage)
    (question : DnsQuestion) (query : SectionPointers) (h : ArrayHeap) :
    (resolveQueryArrays env cfg dnssec stack fw client message question
        query h).1 =
      resolveQuery env cfg fw client message question := by
  rw [resolveQueryArrays, resolveQuery,
    ← plain_resolverResolveArrays env stack cfg.resolver message
      (fun _ => none) _ h]
  generalize resolverResolveArrays _ _ _ _ _ _ _ = r
  simp only [Resolved.plain]
  generalize postCheck _ _ _ _ _ _ = checked
  cases checked with
  | none => exact finish_fst _ _ _
  | some verdict =>
      obtain ⟨blocks, flux⟩ := verdict
      cases blocks with
      | true => exact finish_fst _ _ _
      | false => exact finish_fst _ _ _

/-- The arrays change nothing of what the call does. -/
theorem processDnsQueryArrays_fst
    (env : Env) (cfg : Config F) (dnssec : Bool) (stack : SectionPointers)
    (fw : Firewall) (inbuf : Bytes) (client : Option SockAddrIn)
    (h : ArrayHeap) :
    (processDnsQueryArrays env cfg dnssec stack fw inbuf client h).1 =
      processDnsQuery env cfg fw inbuf client := by
  rw [processDnsQueryArrays, processDnsQuery, parse_eq]
  cases dnsParseMessage inbuf with
  | error failure => exact finish_fst _ _ _
  | ok message =>
      simp only
      cases rateLimit env fw client with
      | mk dropped after =>
          cases dropped with
          | true => exact finish_fst _ _ _
          | false =>
              simp only
              split
              · cases sinkholeResponse message with
                | none => exact finish_fst _ _ _
                | some buf => exact finish_fst _ _ _
              · cases message.questions with
                | nil => exact finish_fst _ _ _
                | cons question more =>
                    simp only
                    split
                    · exact finish_fst _ _ _
                    · split
                      · exact finish_fst _ _ _
                      · exact resolveQueryArrays_fst _ _ _ _ _ _ _ _ _ _

/-! ## The books of a call -/

/-- The arrays of the message that the resolver has dropped. -/
def CallResult.dropped (result : CallResult) (reads : List Bytes) : Nat :=
  match result.resolution with
  | some (outcome, _) => outcome.dropped reads
  | none => 0

/-- Behind the query these packets were parsed, and the arrays that stay are
those of the rejected ones and of the dropped message. -/
structure CallResult.Books (result : CallResult) (inbuf : Bytes)
    (before after : ArrayHeap) (reads : List Bytes)
    (kept : Multiset Address) : Prop where
  since : ArrayHeap.Since before after (reads ++ [inbuf]) kept
  count : kept.card = rejectedArrays reads + result.dropped reads

/-- A call releases nothing that was not allocated, and when it returns, its
books are right. -/
structure CallResult.Balanced (result : CallResult) (inbuf : Bytes)
    (before after : ArrayHeap) : Prop where
  fresh : before.Fresh → after.Fresh
  misfreed : after.misfreed = before.misfreed
  returned : result.ending = .returned →
    ∃ reads kept, result.Books inbuf before after reads kept

section Books

variable {h : ArrayHeap} {inbuf : Bytes} {stack : SectionPointers}
  {env : Env} {cfg : Config F} {dnssec : Bool}

theorem balanced_ended
    {result : CallResult} {before after : ArrayHeap} {reads : List Bytes}
    {kept : Multiset Address}
    (since : ArrayHeap.Since before after reads kept)
    (ended : result.ending ≠ .returned) :
    result.Balanced inbuf before after :=
  ⟨since.fresh, since.misfreed, fun returns => absurd returns ended⟩

/-- A call that does not ask the resolver releases its query. -/
theorem balanced_released
    (long : 12 ≤ inbuf.length) {result : CallResult}
    (unresolved : result.resolution = none) :
    result.Balanced inbuf h
      (finish result [(h.parse inbuf stack).1.2]
        (h.parse inbuf stack).2).2 := by
  have parsed := h.since_parse stack long
  have released := @since_released h inbuf stack long
  rw [finish]
  cases ending : result.ending with
  | returned =>
      refine
        ⟨released.fresh, released.misfreed, fun _ => ⟨[], 0, released, ?_⟩⟩
      rw [CallResult.dropped, unresolved]
      rfl
  | freesUnset => exact balanced_ended released (by rw [ending]; nofun)
  | missingQuestion => exact balanced_ended parsed (by rw [ending]; nofun)
  | hung => exact balanced_ended parsed (by rw [ending]; nofun)

/-- The message of the answer is released, if the resolver has set it. -/
theorem since_releasedAnswer
    {before after : ArrayHeap} {reads : List Bytes}
    {kept : Multiset Address} {outcome : Outcome} {answer : SectionPointers}
    (unset : ¬ outcome.Sets → answer = fun _ => none)
    (since : ArrayHeap.Since before after reads
      (outcome.held answer + kept)) :
    ArrayHeap.Since before
      ((releasedAnswer outcome answer).foldl ArrayHeap.freeMessage after)
      reads kept := by
  cases outcome with
  | answer a => exact since.freeMessage
  | nxDomain found =>
      cases found with
      | some a => exact since.freeMessage
      | none =>
          rw [unset id]
          rw [held_nxDomain_none, Multiset.zero_add] at since
          exact since
  | failed => exact (Multiset.zero_add kept) ▸ since
  | tooDeep => exact (Multiset.zero_add kept) ▸ since
  | hung => exact (Multiset.zero_add kept) ▸ since

/-- The validation parses one packet at most, and only behind an answer. -/
theorem exists_since_validateArrays
    (dnssec : Bool) (stack : SectionPointers) (outcome : Outcome)
    (effects : List Effect) (h : ArrayHeap) :
    ∃ reads lost,
      ArrayHeap.Since h (validateArrays dnssec stack outcome effects h)
          reads lost ∧
        lost.card = rejectedArrays reads ∧
          (reads = [] ∨ ∃ a, outcome = .answer a) := by
  unfold validateArrays
  split
  · rename_i a raw
    rw [parse_eq]
    cases parsed : dnsParseMessage raw with
    | ok message =>
        exact
          ⟨[raw], 0, since_released (length_of_parsed parsed),
            (rejectedArrays_ok parsed).symm, Or.inr ⟨a, rfl⟩⟩
    | error failure =>
        obtain ⟨lost, since, count⟩ :=
          h.exists_since_rejected stack parsed
        exact ⟨[raw], lost, since, count, Or.inr ⟨a, rfl⟩⟩
  · exact ⟨[], 0, ArrayHeap.Since.refl h, rfl, Or.inl rfl⟩

theorem Outcome.dropped_validated
    {outcome : Outcome} {more : List Bytes}
    (validated : more = [] ∨ ∃ a, outcome = .answer a)
    (reads : List Bytes) :
    outcome.dropped (more ++ reads) = outcome.dropped reads := by
  rcases validated with rfl | ⟨a, rfl⟩
  · rfl
  · rfl

/-- Behind the resolver the call releases its query and the answer. -/
theorem balanced_resolved
    (long : 12 ≤ inbuf.length) {r : Resolved}
    (balanced : r.Balanced (fun _ => none) (h.parse inbuf stack).2)
    {result : CallResult} {passes : Bool}
    (resolved : result.resolution = some (r.outcome, passes))
    (ends : result.ending = .returned ∧ r.outcome ≠ .hung ∨
      result.ending = .missingQuestion ∨ result.ending = .hung)
    {after : ArrayHeap} {more : List Bytes} {lost : Multiset Address}
    (validated : ArrayHeap.Since r.heap after more lost)
    (rejected : lost.card = rejectedArrays more)
    (answers : more = [] ∨ ∃ a, r.outcome = .answer a) :
    result.Balanced inbuf h
      (finish result
        ((h.parse inbuf stack).1.2 :: releasedAnswer r.outcome r.final)
        after).2 := by
  have parsed := h.since_parse stack long
  have fresh : h.Fresh → after.Fresh :=
    fun start => validated.fresh (balanced.fresh (parsed.fresh start))
  have misfreed : after.misfreed = h.misfreed :=
    validated.misfreed.trans balanced.misfreed
  rw [finish]
  rcases ends with ⟨returns, comesBack⟩ | missing | hangs
  · obtain ⟨reads, kept, books⟩ := balanced.returned comesBack
    have since := (parsed.trans books.since).trans validated
    have order :
        lost + (r.outcome.held r.final + kept +
            (dnsFreeMessage (h.parse inbuf stack).1.2 : Multiset Address)) =
          (dnsFreeMessage (h.parse inbuf stack).1.2 : Multiset Address) +
            (r.outcome.held r.final + (lost + kept)) := by
      ac_rfl
    rw [order] at since
    have released := since_releasedAnswer balanced.unset since.freeMessage
    rw [returns]
    refine
      ⟨released.fresh, released.misfreed, fun _ =>
        ⟨more ++ reads, lost + kept, ?_, ?_⟩⟩
    · rw [List.append_assoc]
      exact released
    · rw [Multiset.card_add, rejected, books.count, rejectedArrays_append,
        CallResult.dropped, resolved]
      simp only
      rw [Outcome.dropped_validated answers, Nat.add_assoc]
  · rw [missing]
    refine ⟨fresh, misfreed, ?_⟩
    intro returns
    rw [missing] at returns
    cases returns
  · rw [hangs]
    refine ⟨fresh, misfreed, ?_⟩
    intro returns
    rw [hangs] at returns
    cases returns

theorem blockQuery_ends
    (env : Env) (tick : Nat) (site : Site) (fw : Firewall)
    (client : Option SockAddrIn) (query : DnsMessage) (qname : Bytes)
    (resolution : Option (Outcome × Bool)) (log : List Event) :
    let result :=
      blockQuery env tick site fw client query qname resolution log
    result.resolution = resolution ∧
      (result.ending = .returned ∨ result.ending = .missingQuestion) := by
  simp only [blockQuery]
  cases sinkholeResponse query with
  | none => exact ⟨rfl, Or.inr rfl⟩
  | some buf => exact ⟨rfl, Or.inl rfl⟩

theorem sendAnswer_ends
    (env : Env) (tick : Nat) (fw : Firewall) (id : UInt16)
    (question : DnsQuestion) (outcome : Outcome) (log : List Event) :
    let result := sendAnswer env tick fw id question outcome log
    result.resolution = some (outcome, true) ∧
      (result.ending = .returned ∧ outcome ≠ .hung ∨
        result.ending = .hung) := by
  cases outcome with
  | answer a => exact ⟨rfl, Or.inl ⟨rfl, nofun⟩⟩
  | nxDomain found => exact ⟨rfl, Or.inl ⟨rfl, nofun⟩⟩
  | failed => exact ⟨rfl, Or.inl ⟨rfl, nofun⟩⟩
  | tooDeep => exact ⟨rfl, Or.inl ⟨rfl, nofun⟩⟩
  | hung => exact ⟨rfl, Or.inr rfl⟩

/-- Only an answer is blocked behind the resolver. -/
theorem answer_of_blocked
    {env : Env} {cfg : Config F} {message : DnsMessage} {outcome : Outcome}
    {tick : Nat} {flux after : List FluxEntry}
    (blocks : postCheck env cfg message outcome tick flux =
      some (true, after)) :
    ∃ a, outcome = .answer a := by
  cases outcome with
  | answer a => exact ⟨a, rfl⟩
  | nxDomain found => cases blocks
  | failed => cases blocks
  | tooDeep => cases blocks
  | hung => cases blocks

theorem balanced_resolveQueryArrays
    (env : Env) (cfg : Config F) (dnssec : Bool) (fw : Firewall)
    (client : Option SockAddrIn) (message : DnsMessage)
    (question : DnsQuestion) (long : 12 ≤ inbuf.length) :
    let ended :=
      resolveQueryArrays env cfg dnssec stack fw client message question
        (h.parse inbuf stack).1.2 (h.parse inbuf stack).2
    ended.1.Balanced inbuf h ended.2 := by
  have balanced :=
    balanced_resolverResolveArrays env stack cfg.resolver message
      (fun _ => none) ⟨fw.cache, fw.pool, 2, []⟩ (h.parse inbuf stack).2
  have parsed := h.since_parse stack long
  simp only [resolveQueryArrays]
  revert balanced
  generalize resolverResolveArrays _ _ _ _ _ _ _ = r
  intro balanced
  have same := ArrayHeap.Since.refl r.heap
  cases checked :
      postCheck env cfg message r.outcome r.world.ticks fw.flux with
  | none =>
      exact
        ⟨fun fresh => balanced.fresh (parsed.fresh fresh),
          balanced.misfreed.trans parsed.misfreed, nofun⟩
  | some verdict =>
      obtain ⟨blocks, flux⟩ := verdict
      cases blocks with
      | true =>
          obtain ⟨a, isAnswer⟩ := answer_of_blocked checked
          simp only [finish_fst]
          obtain ⟨resolved, ends⟩ :=
            blockQuery_ends env
              (r.world.ticks + postCheckTicks r.outcome) .dynamicRule
              { fw with cache := r.world.cache, pool := r.world.pool, flux }
              client message question.qname (some (r.outcome, false))
              r.world.log
          refine
            balanced_resolved long balanced resolved ?_ same rfl
              (Or.inl rfl)
          rcases ends with returns | missing
          · exact Or.inl ⟨returns, by rw [isAnswer]; nofun⟩
          · exact Or.inr (Or.inl missing)
      | false =>
          simp only [finish_fst]
          obtain ⟨resolved, ends⟩ :=
            sendAnswer_ends env
              (r.world.ticks + postCheckTicks r.outcome)
              { fw with cache := r.world.cache, pool := r.world.pool, flux }
              message.header.id question r.outcome r.world.log
          obtain ⟨more, lost, validated, rejected, answers⟩ :=
            exists_since_validateArrays dnssec stack r.outcome _ r.heap
          refine
            balanced_resolved long balanced resolved ?_ validated rejected
              answers
          rcases ends with returns | hangs
          · exact Or.inl returns
          · exact Or.inr (Or.inr hangs)

/-- The books of a call are right. -/
theorem balanced_processDnsQueryArrays
    (env : Env) (cfg : Config F) (dnssec : Bool) (stack : SectionPointers)
    (fw : Firewall) {inbuf : Bytes} (long : 12 ≤ inbuf.length)
    (client : Option SockAddrIn) (h : ArrayHeap) :
    let ended :=
      processDnsQueryArrays env cfg dnssec stack fw inbuf client h
    ended.1.Balanced inbuf h ended.2 := by
  have parsed := h.since_parse stack long
  have released :
      ∀ result : CallResult, result.resolution = none →
        let ended :=
          finish result [(h.parse inbuf stack).1.2]
            (h.parse inbuf stack).2
        ended.1.Balanced inbuf h ended.2 := by
    intro result unresolved
    simp only [finish_fst]
    exact balanced_released long unresolved
  rw [processDnsQueryArrays, parse_eq]
  cases dnsParseMessage inbuf with
  | error failure => exact released _ rfl
  | ok message =>
      simp only
      cases rateLimit env fw client with
      | mk dropped after =>
          cases dropped with
          | true => exact released _ rfl
          | false =>
              simp only
              split
              · cases sinkholeResponse message with
                | none => exact balanced_ended parsed nofun
                | some buf => exact released _ rfl
              · cases message.questions with
                | nil => exact balanced_ended parsed nofun
                | cons question more =>
                    simp only
                    split
                    · exact released _ (blockQuery_ends _ _ _ _ _ _ _ _ _).1
                    · split
                      · exact
                          released _ (blockQuery_ends _ _ _ _ _ _ _ _ _).1
                      · exact
                          balanced_resolveQueryArrays env cfg dnssec after
                            client message question long

end Books

/-! ## Runs of queries -/

/-- A call of `process_dns_query`, with what its stack holds. -/
structure ArrayQuery where
  env : Env
  stack : SectionPointers
  inbuf : Bytes
  client : Option SockAddrIn

/-- The firewall with its arrays, and how many the calls have lost. -/
structure ArrayRun where
  firewall : Firewall
  heap : ArrayHeap
  lost : Nat

/-- The packets that were parsed between the heaps, but for the first one,
which is the query. -/
def newReads (before after : ArrayHeap) : List Bytes :=
  (after.parsed.take
    (after.parsed.length - before.parsed.length)).dropLast

def ArrayRun.step (cfg : Config F) (dnssec : Bool) (s : ArrayRun)
    (q : ArrayQuery) : ArrayRun :=
  let (result, heap) :=
    processDnsQueryArrays q.env cfg dnssec q.stack s.firewall q.inbuf
      q.client s.heap
  let reads := newReads s.heap heap
  { firewall := result.state
    heap
    lost := s.lost + (rejectedArrays reads + result.dropped reads) }

def arrayRunStart (fw : Firewall) : ArrayRun :=
  ⟨fw, ⟨0, 0, [], []⟩, 0⟩

/-- The query has its header, and the call returns. -/
def ArrayRun.Returns (cfg : Config F) (s : ArrayRun) (q : ArrayQuery) :
    Prop :=
  12 ≤ q.inbuf.length ∧
    (processDnsQuery q.env cfg s.firewall q.inbuf q.client).ending =
      .returned

/-- Nothing was released that was not allocated, every array has its own name,
and as many are allocated as were lost. -/
structure ArrayRun.Sound (s : ArrayRun) : Prop where
  fresh : s.heap.Fresh
  misfreed : s.heap.misfreed = []
  live : s.heap.live.card = s.lost

theorem newReads_eq
    {before after : ArrayHeap} {reads : List Bytes} {inbuf : Bytes}
    (parsed : after.parsed = reads ++ [inbuf] ++ before.parsed) :
    newReads before after = reads := by
  have size :
      after.parsed.length - before.parsed.length =
        (reads ++ [inbuf]).length := by
    rw [parsed, List.length_append, Nat.add_sub_cancel]
  rw [newReads, size, parsed, List.take_left', List.dropLast_concat]
  rfl

theorem sound_arrayRunStart (fw : Firewall) : (arrayRunStart fw).Sound where
  fresh := ⟨Multiset.nodup_zero, fun _ => nofun⟩
  misfreed := rfl
  live := rfl

theorem ArrayRun.Sound.step
    {s : ArrayRun} (sound : s.Sound) {cfg : Config F} (dnssec : Bool)
    {q : ArrayQuery} (returns : s.Returns cfg q) :
    (s.step cfg dnssec q).Sound := by
  obtain ⟨long, ends⟩ := returns
  have balanced :=
    balanced_processDnsQueryArrays q.env cfg dnssec q.stack s.firewall long
      q.client s.heap
  have plain :=
    processDnsQueryArrays_fst q.env cfg dnssec q.stack s.firewall q.inbuf
      q.client s.heap
  rw [← plain] at ends
  obtain ⟨reads, kept, books⟩ := balanced.returned ends
  have read := newReads_eq books.since.parsed
  refine
    ⟨balanced.fresh sound.fresh, balanced.misfreed.trans sound.misfreed, ?_⟩
  simp only [ArrayRun.step]
  rw [read, books.since.live, Multiset.card_add, books.count, sound.live,
    Nat.add_comm]

/-- In every run of queries that have their headers and whose calls return,
no array is released that is not allocated, so none twice, and as many arrays
stay allocated as were made for the packets that were rejected behind the
queries and for the messages that the resolver has dropped. -/
theorem sound_arrayRun
    (cfg : Config F) (dnssec : Bool) (fw : Firewall)
    (queries : List ArrayQuery)
    (returns : Along (ArrayRun.step cfg dnssec) (ArrayRun.Returns cfg)
      (arrayRunStart fw) queries) :
    (run (ArrayRun.step cfg dnssec) (arrayRunStart fw) queries).Sound :=
  invariant_run ArrayRun.Sound
    (fun _ _ sound returns => sound.step dnssec returns)
    (sound_arrayRunStart fw) returns

/-- A query to which the server replies with a header that announces a question
that is not there. -/
def cutOffQuery : ArrayQuery :=
  { env :=
      { envOffline with
        udp := fun _ => .reply [0, 0, 128, 0, 0, 1, 0, 0, 0, 0, 0, 0] }
    stack := fun _ => none
    inbuf := queryA
    client := some visitor }

/-- The array for the question of the reply stays allocated. -/
theorem sound_arrayRun_cutOff :
    let s :=
      run (ArrayRun.step configDefault true) (arrayRunStart (firewallStart 0))
        [cutOffQuery]
    s.heap.misfreed = [] ∧ s.heap.live.card = 1 := by
  intro s
  have returns :
      Along (ArrayRun.step configDefault true)
        (ArrayRun.Returns configDefault) (arrayRunStart (firewallStart 0))
        [cutOffQuery] := by
    refine along_cons_iff.mpr ⟨⟨by decide, by decide +kernel⟩, along_nil⟩
  have sound :=
    sound_arrayRun configDefault true (firewallStart 0) [cutOffQuery]
      returns
  refine ⟨sound.misfreed, sound.live.trans ?_⟩
  decide +kernel

end DnsFirewall
