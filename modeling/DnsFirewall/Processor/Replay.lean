import DnsFirewall.Dnssec.SignedResponse
import DnsFirewall.Processor.Provenance

/-!
# The replayed response

`replay_auth.py` sends the signed response to whoever asks it, and the firewall
forwards the names of `signed.test` to it.  What a client gets for such a name
is the signed response under the ID of its query, from the server or from the
cache, and the check in front of the delivery finds it secure exactly when the
trusted key accepts the signature of the script.
-/

namespace DnsFirewall

open CString BigEndian Runs

variable {F K : Type}

/-- The body of the loop in `replay_auth.py`. -/
def replayAuth (response datagram : Bytes) : Option Bytes :=
  let data := datagram.take 512
  if data = [] then none else some response

/-- The address that the server is bound to. -/
def replayServer : SockAddrIn := ⟨loopbackAddr, 5302⟩

/-- The verdict that `process_dns_query` prints in front of a delivery: if the
resolver has returned zero, there is a trusted key and the packet parses. -/
def deliveryVerdict (verify : K → Bytes → Bytes → Bool)
    (beyond : Nat → UInt8) (ctx : Option (DnssecCtx K)) (result : CallResult)
    (data : Bytes) : Option Verdict :=
  match ctx, result.resolution with
  | some ctx, some (.answer _, _) =>
      match dnsParseMessage data with
      | .ok tmp =>
          some
            (dnssecValidate verify (packetMemory data beyond) (some ctx) tmp)
      | .error _ => none
  | _, _ => none

/-! ## What the resolver returns -/

/-- For a name of a forwarded zone the resolver returns zero or -1. -/
theorem resolverResolve_of_zone
    {env : Env} {cfg : ResolverConfig} {query : DnsMessage}
    {question : DnsQuestion} {more : List DnsQuestion} {addr : SockAddrIn}
    (asked : query.questions = question :: more) (fits : question.Fits)
    (zone : staticForwarderFor cfg question.qname = some addr) (w : World) :
    (resolverResolve env cfg query w).1 = .failed ∨
      ∃ a, (resolverResolve env cfg query w).1 = .answer a := by
  have zoneCopied :
      staticForwarderFor cfg (resolverQuestion question).qname =
        some addr := by
    rw [staticForwarderFor_of_content cfg (content_resolverQuestion fits)]
    exact zone
  rw [resolverResolve, asked]
  simp only
  rw [resolveInternal]
  cases checkCache env (resolverQuestion question) w with
  | mk hit missed =>
      cases hit with
      | some a => exact Or.inr ⟨a, rfl⟩
      | none =>
          simp only [zoneCopied, acceptForwarded]
          cases usableReply
              (sendQuery env addr (resolverQuestion question) missed).1 with
          | none => exact Or.inl rfl
          | some accepted => exact Or.inr ⟨_, rfl⟩

section Call

variable {env : Env} {cfg : Config F} {fw : Firewall} {inbuf : Bytes}
  {client : Option SockAddrIn} {query : DnsMessage} {question : DnsQuestion}
  {more : List DnsQuestion} {addr : SockAddrIn} {data : Bytes}

/-- A delivery for such a name is one of an answer. -/
theorem resolution_of_delivery
    (parsed : dnsParseMessage inbuf = .ok query)
    (asked : query.questions = question :: more)
    (zone : staticForwarderFor cfg.resolver question.qname = some addr)
    (delivered :
      .respond .delivery data ∈
        (processDnsQuery env cfg fw inbuf client).effects) :
    ∃ a passed,
      (processDnsQuery env cfg fw inbuf client).resolution =
        some (.answer a, passed) := by
  have branch := branch_processDnsQuery env cfg fw inbuf client
  generalize processDnsQuery env cfg fw inbuf client = result
    at branch delivered ⊢
  cases branch with
  | unparsed _ => simp at delivered
  | limited _ _ => simp at delivered
  | unasked _ _ _ => simp at delivered
  | banned _ _ _ _ => simp at delivered
  | listed _ _ _ _ _ =>
      exact absurd delivered (delivery_not_mem_blockedCall (by decide) data)
  | generated _ _ _ _ _ _ =>
      exact absurd delivered (delivery_not_mem_blockedCall (by decide) data)
  | ruled _ _ =>
      exact absurd delivered (delivery_not_mem_blockedCall (by decide) data)
  | @allowed other first flux passes _ =>
      obtain ⟨others, alsoAsked⟩ := passes.asked
      obtain ⟨rfl, rfl, -⟩ :=
        same_question parsed asked passes.parsed alsoAsked
      have fits : first.Fits :=
        Nat.le_of_lt (qname_length_of_asked parsed asked)
      have returned :=
        @resolverResolve_of_zone env _ _ _ _ _ asked fits zone
          ⟨(admittedState env fw client).cache,
            (admittedState env fw client).pool, 2, []⟩
      rcases returned with failed | ⟨a, answered⟩
      · rw [resolution, failed] at delivered
        simp [sendAnswer] at delivered
      · refine ⟨a, true, ?_⟩
        rw [resolution, answered]
        rfl

end Call

/-! ## What is delivered -/

theorem response_length (run : SigningRun) : run.response.length = 665 := by
  have key := run.dnskeyRdata_length
  have signature := run.rrsigRdata_length
  rw [SigningRun.response, SigningRun.rrsigRr, SigningRun.dnskeyRr]
  simp only [List.length_append, key, signature]
  rfl

/-- What the resolver has received from the server. -/
theorem reply_of_replay
    {run : SigningRun} {x : Exchange} {raw : Bytes}
    (answered : x.AnsweredBy replayServer (replayAuth run.response))
    (toServer : x.server = replayServer) (isReply : x.reply = some raw) :
    raw = run.response := by
  rcases answered toServer with nothing | ⟨response, sent, received⟩
  · rw [isReply] at nothing
    cases nothing
  · rw [isReply] at received
    cases received
    rw [replayAuth] at sent
    split at sent
    · cases sent
    · cases sent
      apply List.take_of_length_le
      rw [response_length]
      decide

/-- In every run in which all queries to the server are answered by
`replay_auth.py` or not at all, what is delivered for a name that the resolver
forwards to it is the signed response under the ID of the query.  Its check
finds it secure exactly when the trusted key accepts the signature of the
script for the text that the script has signed. -/
theorem replayed_validates
    (script : SigningRun) (verify : K → Bytes → Bytes → Bool)
    (ctx : DnssecCtx K) (cfg : Config F) (now : Int)
    (calls : List QueryCall) (call : QueryCall)
    (served :
      ∀ x, ExchangedIn cfg (firewallStart now) (calls ++ [call]) x →
        x.AnsweredBy replayServer (replayAuth script.response))
    (query : DnsMessage) (question : DnsQuestion)
    (more : List DnsQuestion)
    (parsed : dnsParseMessage call.inbuf = .ok query)
    (asked : query.questions = question :: more)
    (zone :
      staticForwarderFor cfg.resolver question.qname = some replayServer)
    (data : Bytes)
    (delivered :
      .respond .delivery data ∈
        (call.result cfg
          (run (queryCall cfg) (firewallStart now) calls)).effects)
    (beyond : Nat → UInt8) :
    data = patchId query.header.id script.response ∧
      (deliveryVerdict verify beyond (some ctx)
            (call.result cfg
              (run (queryCall cfg) (firewallStart now) calls))
            data =
          some .secure ↔
        verify ctx.trustedKey script.toSign script.signature = true) := by
  have supplied := @supplied_run F cfg (firewallStart now) rfl calls
  obtain ⟨other, first, rest, x, raw, alsoParsed, alsoAsked, member, isKey,
    fetched, isReply⟩ := delivered_processDnsQuery supplied delivered
  obtain ⟨rfl, rfl, -⟩ :=
    same_question parsed asked alsoParsed alsoAsked
  have exchanged :
      ExchangedIn cfg (firewallStart now) (calls ++ [call]) x := by
    rcases member with earlier | here
    · exact earlier.append [call]
    · exact exchangedIn_last here
  have dispatched := exchanged.dispatched
  have fits : first.Fits :=
    Nat.le_of_lt (qname_length_of_asked parsed asked)
  have sameName := (sameAs_of_questionKey dispatched.fits fits isKey).name
  have toServer : x.server = replayServer := by
    rw [← staticForwarderFor_of_content cfg.resolver sameName] at zone
    exact dispatched.zone replayServer zone
  rw [reply_of_replay (served x exchanged) toServer fetched.reply]
    at isReply
  obtain ⟨a, passed, answered⟩ :
      ∃ a passed,
        (call.result cfg
            (run (queryCall cfg) (firewallStart now) calls)).resolution =
          some (.answer a, passed) :=
    resolution_of_delivery parsed asked zone delivered
  refine ⟨isReply, ?_⟩
  have verdict :
      deliveryVerdict verify beyond (some ctx)
          (call.result cfg
            (run (queryCall cfg) (firewallStart now) calls))
          data =
        some
          (dnssecValidate verify
            (packetMemory (script.message other.header.id).bytes beyond)
            (some ctx) (script.message other.header.id).parsed) := by
    unfold deliveryVerdict
    rw [answered, isReply, script.patchId_response]
    simp only
    rw [dnsParseMessage_bytes]
  rw [verdict, Option.some.injEq]
  exact script.dnssecValidate_message other.header.id beyond verify ctx

/-- A run of the script with a key that signs by the first 256 bytes. -/
def scriptOfPrefix : SigningRun where
  modulus := List.replicate 256 1
  sign := fun text => (text ++ List.replicate 256 0).take 256
  now := 86400
  modulusSize := List.length_replicate
  signatureSize := by
    intro text
    rw [List.length_take, List.length_append, List.length_replicate]
    omega
  begun := Nat.le_refl _
  inWord := by decide

/-- The check of a signature that is made again with the key. -/
def verifyAgain (sign : Bytes → Bytes) (text signature : Bytes) : Bool :=
  signature == sign text

/-- The question for the address of `www.signed.test.`. -/
def questionSigned : DnsQuestion :=
  ⟨wwwSignedTest.text, 1, 1⟩

def querySigned : Bytes :=
  [18, 52, 1, 0, 0, 1, 0, 0, 0, 0, 0, 0] ++ (nameWww ++ [0, 1, 0, 1])

def callSigned : QueryCall :=
  ⟨envAnswering scriptOfPrefix.response, querySigned, some visitor⟩

/-- The response is received, delivered and found secure. -/
theorem replayed_validates_once :
    deliveryVerdict verifyAgain (fun _ => 0) (some ⟨scriptOfPrefix.sign⟩)
        (callSigned.result configDefault
          (run (queryCall configDefault) (firewallStart 0) []))
        (patchId 4660 scriptOfPrefix.response) =
      some .secure := by
  have log :
      (callSigned.result configDefault (firewallStart 0)).log =
        [.believed .answered questionSigned scriptOfPrefix.response,
          .believed .stored questionSigned scriptOfPrefix.response,
          .exchange
            (exchangeOf replayServer questionSigned 0
              (some scriptOfPrefix.response))] := by
    decide +kernel
  have sent :
      replayAuth scriptOfPrefix.response (queryPacket 0 questionSigned) =
        some scriptOfPrefix.response := by
    decide +kernel
  have whole :
      scriptOfPrefix.response.take ednsSize = scriptOfPrefix.response := by
    decide +kernel
  have served :
      ∀ x,
        ExchangedIn configDefault (firewallStart 0) ([] ++ [callSigned])
            x →
          x.AnsweredBy replayServer (replayAuth scriptOfPrefix.response) := by
    intro x exchanged _
    have member := exchanged.single
    rw [log] at member
    simp only [List.mem_cons, reduceCtorEq, List.not_mem_nil, or_false,
      false_or, Event.exchange.injEq] at member
    rw [member]
    refine Or.inr ⟨scriptOfPrefix.response, ?_, ?_⟩
    · simp only [exchangeOf, sent]
    · simp only [exchangeOf, whole]
  exact
    (replayed_validates scriptOfPrefix verifyAgain ⟨scriptOfPrefix.sign⟩
      configDefault 0 [] callSigned served
      ⟨⟨4660, 256, 1, 0, 0, 0⟩, [questionSigned], [], [], []⟩
      questionSigned [] (by decide +kernel) rfl (by decide +kernel)
      (patchId 4660 scriptOfPrefix.response) (by decide +kernel)
      fun _ => 0).2.mpr (by decide +kernel)

end DnsFirewall
