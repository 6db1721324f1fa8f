import DnsFirewall.Processor.Provenance
import DnsFirewall.Processor.Sinkhole
import DnsFirewall.Wire.EchoedReplies

/-!
# The tunnel of the test zone

`auth_tunnel.py` answers for `tunnel.test` with four hundred bytes in a TXT
record.  The firewall forwards the names of the zone to it, and no client gets
these bytes: every reply of the server is blocked behind the resolver, when it
is received and whenever it is found in the cache again.
-/

namespace DnsFirewall

open CString BigEndian Runs

variable {F : Type}

/-! ## The server -/

/-- The `while` loop of `encode_txt`; every pass consumes a byte, so `fuel`
may be the length. -/
def encodeTxt : Nat → Bytes → Bytes
  | 0, _ => []
  | fuel + 1, data =>
      if data = [] then []
      else
        let chunk := data.take 255
        chunk.length.toUInt8 :: chunk ++ encodeTxt fuel (data.drop 255)

/-- `TXT_DATA`. -/
def txtData : Bytes := List.replicate 400 88

@[irreducible]
def txtRdata : Bytes := encodeTxt txtData.length txtData

/-- The body of the loop in `auth_tunnel.py`: the response to a datagram. -/
def authTunnel (datagram : Bytes) : Option Bytes :=
  let data := datagram.take 2048
  if data.length < 12 then none
  else
    let tid := data.take 2
    let q := data.drop 12
    let answer :=
      [0xC0, 0x0C] ++
        (bytes16 16 ++ (bytes16 1 ++ (bytes32 300 ++
          (bytes16 txtRdata.length.toUInt16 ++ txtRdata))))
    some
      (tid ++ (bytes16 0x8580 ++ ([0, 1, 0, 1, 0, 0, 0, 0] ++
        (q ++ answer))))

/-- The address that the server is bound to. -/
def tunnelServer : SockAddrIn := ⟨loopbackAddr, 5301⟩

def tunnelRecord : EchoedRecord :=
  ⟨dnsTypeTxt, 1, 300, txtRdata.length.toUInt16, txtRdata⟩

/-- If the query went to the server, then nothing or its response has come
back. -/
abbrev AnsweredByTunnel (x : Exchange) : Prop :=
  x.AnsweredBy tunnelServer authTunnel

theorem txtRdata_length : txtRdata.length = 402 := by
  decide +kernel

theorem responseHeader_append (id : UInt16) (rest : Bytes) :
    bytes16 id ++
        (bytes16 0x8580 ++ ([0, 1, 0, 1, 0, 0, 0, 0] ++ rest)) =
      headerBytes id 0x8580 1 1 0 0 ++ rest :=
  rfl

theorem authTunnel_of_legal
    (id : UInt16) {question : DnsQuestion} {name : LegalName}
    (isName : content question.qname = name.text) :
    authTunnel (queryPacket id question) =
      some
        (echoedReply id 0x8580 ⟨name, question.qtype, question.qclass⟩
          tunnelRecord) := by
  have length := name.encode_length
  have short : name.text.length ≤ 254 := name.fits
  have size :
      (QuestionSpec.mk name question.qtype question.qclass).encode.length =
        name.text.length + 5 := by
    simp only [QuestionSpec.encode, List.length_append, bytes16_length]
    omega
  unfold authTunnel echoedReply
  rw [queryPacket_of_legal id isName]
  generalize
    (QuestionSpec.mk name question.qtype question.qclass).encode = asked
      at size
  have whole : (headerBytes id 0 1 0 0 0 ++ asked).length ≤ 2048 := by
    rw [List.length_append, headerBytes_length]
    omega
  have tid : (headerBytes id 0 1 0 0 0 ++ asked).take 2 = bytes16 id := rfl
  have q : (headerBytes id 0 1 0 0 0 ++ asked).drop 12 = asked := rfl
  simp only [List.take_of_length_le whole, tid, q]
  rw [if_neg (by rw [List.length_append, headerBytes_length]; omega),
    responseHeader_append]
  rfl

theorem echoedReply_length
    (id flags : UInt16) (question : QuestionSpec) (record : EchoedRecord) :
    (echoedReply id flags question record).length =
      question.name.text.length + record.rdata.length + 29 := by
  have length := question.name.encode_length
  simp only [echoedReply, EchoedRecord.bytes, QuestionSpec.encode,
    List.length_append, headerBytes_length, bytes16_length,
    bytes32_length, List.length_cons, List.length_nil]
  omega

/-- What the resolver has received from the server for a legal name. -/
theorem reply_of_answeredByTunnel
    {cfg : ResolverConfig} {x : Exchange} {raw : Bytes} {name : LegalName}
    (answered : AnsweredByTunnel x) (dispatched : Dispatched cfg x)
    (toServer : x.server = tunnelServer) (isReply : x.reply = some raw)
    (isName : content x.question.qname = name.text) :
    raw =
      echoedReply x.id 0x8580 ⟨name, x.question.qtype, x.question.qclass⟩
        tunnelRecord := by
  rcases answered toServer with nothing | ⟨response, sent, received⟩
  · rw [isReply] at nothing
    cases nothing
  · rw [dispatched.packet, authTunnel_of_legal x.id isName] at sent
    cases sent
    rw [isReply] at received
    cases received
    apply List.take_of_length_le
    have short : name.text.length ≤ 254 := name.fits
    have data : tunnelRecord.rdata.length = 402 := by
      rw [tunnelRecord]
      exact txtRdata_length
    rw [echoedReply_length, data, ednsSize]
    simp only
    omega

/-! ## The check of its replies -/

/-- A reply that repeats the question is one under any ID. -/
theorem exists_id_of_samePacket
    {data : Bytes} {id flags : UInt16} {question : QuestionSpec}
    {record : EchoedRecord}
    (same : SamePacket data (echoedReply id flags question record)) :
    ∃ other, data = echoedReply other flags question record := by
  obtain ⟨long, behind⟩ := same
  match data, long with
  | high :: low :: rest, _ =>
      refine ⟨word16 high low, ?_⟩
      have isRest :
          rest = (echoedReply id flags question record).drop 2 := behind
      rw [isRest]
      unfold echoedReply headerBytes
      rw [bytes16_word16]
      rfl

theorem answers_of_samePacket
    {data : Bytes} {id flags : UInt16} {question : QuestionSpec}
    {message : DnsMessage}
    (same : SamePacket data (echoedReply id flags question tunnelRecord))
    (parsed : dnsParseMessage data = .ok message) :
    ∃ rr, message.answers = [rr] ∧ rr.type = dnsTypeTxt ∧
      200 < rr.rdlength := by
  obtain ⟨other, isEcho⟩ := exists_id_of_samePacket same
  rw [isEcho] at parsed
  obtain ⟨rr, answers, type, rdlength⟩ := answers_of_echoedReply parsed
  refine ⟨rr, answers, type, ?_⟩
  rw [rdlength, tunnelRecord]
  simp only [txtRdata_length]
  decide

/-- A TXT record of more than two hundred bytes is blocked, whatever it
holds. -/
theorem policyCheckPostResolve_of_txt
    (ctx : PolicyCtx F) {query response : DnsMessage}
    {question : DnsQuestion} {more : List DnsQuestion} {rr : DnsRr}
    (asked : query.questions = question :: more)
    (answers : response.answers = [rr]) (isTxt : rr.type = dnsTypeTxt)
    (long : 200 < rr.rdlength) (memory : Bytes) (clock : Nat → Int)
    (table : List FluxEntry) :
    policyCheckPostResolve ctx query response memory clock table =
      some (true, table) := by
  have first : query.questions.head? = some question := by
    rw [asked]
    rfl
  have noAddress : fluxAddress memory rr = none := by
    rw [fluxAddress]
    rw [isTxt]
    exact if_neg fun given => absurd given.1 (by decide)
  have untracked :
      fluxAnswers ctx.fluxIpMax memory clock 0 response.answers table =
        (false, table) := by
    rw [answers, fluxAnswers]
    rw [noAddress]
    rfl
  have suspected :
      tunnellingScore ctx query response memory = some true := by
    have filled : 0 < rr.rdlength := UInt16.lt_trans (by decide) long
    rw [tunnellingScore]
    simp only [first]
    split
    · rfl
    · rw [answers, List.any_cons, tunnellingRecord]
      rw [if_pos ⟨isTxt, filled⟩, if_pos long]
      rfl
  unfold policyCheckPostResolve
  simp only [first, untracked, suspected, ite_self]

theorem postCheck_of_txt
    {env : Env} {cfg : Config F} {query : DnsMessage}
    {question : DnsQuestion} {more : List DnsQuestion} {a : Answer}
    {rr : DnsRr} (asked : query.questions = question :: more)
    (answers : a.message.answers = [rr]) (isTxt : rr.type = dnsTypeTxt)
    (long : 200 < rr.rdlength) (tick : Nat) (flux : List FluxEntry) :
    postCheck env cfg query (.answer a) tick flux = some (true, flux) := by
  rw [postCheck]
  rw [if_neg (by rw [answers]; exact List.cons_ne_nil _ _)]
  exact
    policyCheckPostResolve_of_txt cfg.policy asked answers isTxt long _ _ _

/-! ## The resolution -/

/-- An exchange for the question went to the server, so its reply is one of
the server. -/
theorem fetched_fromTunnel
    {cfg : ResolverConfig} {x : Exchange} {raw : Bytes}
    {question : DnsQuestion} {name : LegalName}
    (answered : AnsweredByTunnel x) (dispatched : Dispatched cfg x)
    (fetched : x.Fetched raw)
    (sameName : content x.question.qname = content question.qname)
    (isName : content question.qname = name.text)
    (zone : staticForwarderFor cfg question.qname = some tunnelServer) :
    raw =
      echoedReply x.id 0x8580 ⟨name, x.question.qtype, x.question.qclass⟩
        tunnelRecord := by
  rw [← staticForwarderFor_of_content cfg sameName] at zone
  exact
    reply_of_answeredByTunnel answered dispatched
      (dispatched.zone tunnelServer zone) fetched.reply
      (sameName.trans isName)

/-- The resolution fails or ends with the TXT record of the server. -/
theorem resolverResolve_tunnelled
    {env : Env} {cfg : ResolverConfig} {query : DnsMessage}
    {question : DnsQuestion} {more : List DnsQuestion} {w : World}
    {name : LegalName} {history : Exchange → Prop}
    (asked : query.questions = question :: more) (fits : question.Fits)
    (isName : content question.qname = name.text)
    (zone : staticForwarderFor cfg question.qname = some tunnelServer)
    (supplied : Supplied history w.cache)
    (known :
      ∀ x, history x → Dispatched cfg x ∧ AnsweredByTunnel x)
    (logged :
      ∀ x, .exchange x ∈ (resolverResolve env cfg query w).2.log →
        Dispatched cfg x ∧ AnsweredByTunnel x) :
    (resolverResolve env cfg query w).1 = .failed ∨
      ∃ a rr, (resolverResolve env cfg query w).1 = .answer a ∧
        a.message.answers = [rr] ∧ rr.type = dnsTypeTxt ∧
          200 < rr.rdlength := by
  have copied := content_resolverQuestion fits
  have zoneCopied :
      staticForwarderFor cfg (resolverQuestion question).qname =
        some tunnelServer := by
    rw [staticForwarderFor_of_content cfg copied]
    exact zone
  rw [resolverResolve, asked] at logged ⊢
  simp only at logged ⊢
  rw [resolveInternal] at logged ⊢
  cases checked : checkCache env (resolverQuestion question) w with
  | mk hit missed =>
      rw [checked] at logged
      cases hit with
      | some a =>
          -- an entry of the question comes from an earlier exchange for it
          obtain ⟨found, _, _, _, parsed⟩ := checkCache_eq_some checked
          obtain ⟨pass, entry, held, _, isData⟩ := exists_holds_of_hit found
          obtain ⟨x, member, isKey, raw, fetched, same⟩ :=
            supplied _ entry held.holds
          obtain ⟨dispatched, answered⟩ := known x member
          have sameKey :
              questionKey x.question =
                questionKey (resolverQuestion question) := by
            rw [← isKey]
            exact held.isKey
          have sameName :=
            (sameAs_of_questionKey dispatched.fits
              (resolverQuestion_fits question) sameKey).name
          rw [fetched_fromTunnel answered dispatched fetched
            (sameName.trans copied) isName zone, isData] at same
          obtain ⟨rr, facts⟩ := answers_of_samePacket same parsed
          exact Or.inr ⟨a, rr, rfl, facts⟩
      | none =>
          simp only [zoneCopied] at logged ⊢
          have ask :=
            asked_sendQuery env tunnelServer (resolverQuestion question)
              missed
          generalize
            sendQuery env tunnelServer (resolverQuestion question) missed =
              sent at ask logged ⊢
          rw [acceptForwarded] at logged ⊢
          cases usable : usableReply sent.1 with
          | none => exact Or.inl rfl
          | some accepted =>
              obtain ⟨raw, resp⟩ := accepted
              obtain ⟨_, long, parsed⟩ := usableReply_eq_some usable
              obtain ⟨x, member, isQuestion, fetched⟩ :=
                ask.exists_exchange usable
              rw [usable] at logged
              obtain ⟨dispatched, answered⟩ :=
                logged x
                  (List.mem_cons_of_mem _ (List.mem_cons_of_mem _ member))
              have sameName :
                  content x.question.qname = content question.qname := by
                rw [isQuestion]
                exact copied
              have isReply :=
                fetched_fromTunnel answered dispatched fetched sameName
                  isName zone
              have same : SamePacket raw raw :=
                samePacket_self (Nat.le_trans (by decide) long)
              rw [isReply] at same parsed
              obtain ⟨rr, facts⟩ := answers_of_samePacket same parsed
              exact Or.inr ⟨_, rr, rfl, facts⟩

/-! ## The call -/

/-- A call for a name of the zone ends with a sinkhole packet or an error,
unless the packet is dropped. -/
theorem tunnelled_processDnsQuery
    {env : Env} {cfg : Config F} {fw : Firewall} {inbuf : Bytes}
    {client : Option SockAddrIn} {query : DnsMessage}
    {question : DnsQuestion} {more : List DnsQuestion}
    {history : Exchange → Prop} {site : Site} {data : Bytes}
    (parsed : dnsParseMessage inbuf = .ok query)
    (asked : query.questions = question :: more)
    (rebuildable : Rebuildable question.qname)
    (zone :
      staticForwarderFor cfg.resolver question.qname = some tunnelServer)
    (supplied : Supplied history fw.cache)
    (known :
      ∀ x, history x → Dispatched cfg.resolver x ∧ AnsweredByTunnel x)
    (logged :
      ∀ x, .exchange x ∈ (processDnsQuery env cfg fw inbuf client).log →
        AnsweredByTunnel x)
    (sent :
      .respond site data ∈
        (processDnsQuery env cfg fw inbuf client).effects) :
    site.isSinkhole = true ∨ site = .resolverFailure := by
  have branch := branch_processDnsQuery env cfg fw inbuf client
  generalize processDnsQuery env cfg fw inbuf client = result
    at branch logged sent
  have blocked :
      ∀ {tick : Nat} {place : Site} {state : Firewall}
        {other : DnsMessage} {first : DnsQuestion}
        {resolution : Option (Outcome × Bool)} {log : List Event},
        .respond site data ∈
            (blockedCall env tick place state client other first resolution
              log).effects →
          site = place := by
    intro tick place state other first resolution log member
    rcases List.mem_cons.mp member with here | told
    · cases here
      rfl
    · exact absurd told (respond_not_mem_blockReports _ _ _ _ _)
  cases branch with
  | unparsed failed =>
      rw [parsed] at failed
      cases failed
  | limited _ _ => simp at sent
  | unasked _ _ _ => simp at sent
  | banned _ _ _ _ =>
      simp only [List.mem_singleton] at sent
      cases sent
      exact Or.inl rfl
  | listed _ _ _ _ _ =>
      rw [blocked sent]
      exact Or.inl rfl
  | generated _ _ _ _ _ _ =>
      rw [blocked sent]
      exact Or.inl rfl
  | ruled _ _ =>
      rw [blocked sent]
      exact Or.inl rfl
  | @allowed other first flux passes action =>
      obtain ⟨others, alsoAsked⟩ := passes.asked
      obtain ⟨rfl, rfl, -⟩ :=
        same_question parsed asked passes.parsed alsoAsked
      have fits : first.Fits :=
        Nat.le_of_lt (qname_length_of_asked parsed asked)
      obtain ⟨name, isText⟩ :=
        exists_legalName
          (parsedName_of_dnsParseMessage parsed
            (by rw [asked]; exact List.mem_cons_self))
          rebuildable
      have isName : content first.qname = name.text := by
        rw [← isText, content_text]
      rw [log_sendAnswer] at logged
      rw [← cache_admittedState env fw client] at supplied
      have fetches :=
        fetches_resolution env cfg (admittedState env fw client) other
      have dispatched :
          ∀ x,
            .exchange x ∈
                (resolution env cfg (admittedState env fw client)
                  other).2.log →
              Dispatched cfg.resolver x ∧ AnsweredByTunnel x := by
        intro x member
        rcases fetches.sent x member with initial | isDispatched
        · cases initial
        · exact ⟨isDispatched, logged x member⟩
      rcases
        @resolverResolve_tunnelled env cfg.resolver other first more
          ⟨(admittedState env fw client).cache,
            (admittedState env fw client).pool, 2, []⟩
          name history asked fits isName zone supplied known dispatched with
        failed | ⟨a, rr, answered, answers, isTxt, long⟩
      · rw [resolution, failed] at sent
        simp only [sendAnswer, List.mem_singleton] at sent
        cases sent
        exact Or.inr rfl
      · -- the check behind the resolver would have blocked it
        have blocks :=
          @postCheck_of_txt F env cfg other first more a rr asked answers
            isTxt long
            (resolution env cfg (admittedState env fw client) other).2.ticks
            (admittedState env fw client).flux
        rw [checkedAction, resolution, answered] at action
        unfold resolution at blocks
        rw [blocks] at action
        cases action

/-! ## Runs -/

/-- In every run in which all queries to the server are answered by
`auth_tunnel.py` or not at all, no call for a name that the resolver forwards
to it delivers anything: the client gets a sinkhole packet or SERVFAIL. -/
theorem tunnelled_not_delivered
    (cfg : Config F) (now : Int) (calls : List QueryCall)
    (call : QueryCall)
    (served :
      ∀ x, ExchangedIn cfg (firewallStart now) (calls ++ [call]) x →
        AnsweredByTunnel x)
    (query : DnsMessage) (question : DnsQuestion)
    (more : List DnsQuestion)
    (parsed : dnsParseMessage call.inbuf = .ok query)
    (asked : query.questions = question :: more)
    (rebuildable : Rebuildable question.qname)
    (zone :
      staticForwarderFor cfg.resolver question.qname = some tunnelServer)
    (site : Site) (data : Bytes)
    (sent :
      .respond site data ∈
        (call.result cfg
          (run (queryCall cfg) (firewallStart now) calls)).effects) :
    site.isSinkhole = true ∨ site = .resolverFailure := by
  have supplied := @supplied_run F cfg (firewallStart now) rfl calls
  apply
    tunnelled_processDnsQuery parsed asked rebuildable zone supplied _ _ sent
  · intro x exchanged
    exact ⟨exchanged.dispatched, served x (exchanged.append [call])⟩
  · intro x member
    exact served x (exchangedIn_last member)

/-- The question for the TXT records of `tunnel.test.`. -/
def questionTunnel : DnsQuestion :=
  ⟨[116, 117, 110, 110, 101, 108, 46, 116, 101, 115, 116, 46], 16, 1⟩

def queryTunnel : Bytes :=
  [18, 52, 1, 0, 0, 1, 0, 0, 0, 0, 0, 0,
    6, 116, 117, 110, 110, 101, 108, 4, 116, 101, 115, 116, 0, 0, 16, 0, 1]

def replyTunnel : Bytes :=
  (authTunnel (queryPacket 0 questionTunnel)).getD []

def callTunnel : QueryCall :=
  ⟨envAnswering replyTunnel, queryTunnel, some visitor⟩

/-- The text of the server is received and blocked. -/
theorem tunnelled_not_delivered_once :
    Site.dynamicRule.isSinkhole = true ∨
      Site.dynamicRule = .resolverFailure := by
  have log :
      (callTunnel.result configDefault (firewallStart 0)).log =
        [.believed .answered questionTunnel replyTunnel,
          .believed .stored questionTunnel replyTunnel,
          .exchange
            (exchangeOf tunnelServer questionTunnel 0
              (some replyTunnel))] := by
    decide +kernel
  have response :
      authTunnel (queryPacket 0 questionTunnel) = some replyTunnel := by
    decide +kernel
  have whole : replyTunnel.take ednsSize = replyTunnel := by
    decide +kernel
  have served :
      ∀ x,
        ExchangedIn configDefault (firewallStart 0) ([] ++ [callTunnel])
            x →
          AnsweredByTunnel x := by
    intro x exchanged _
    have member := exchanged.single
    rw [log] at member
    simp only [List.mem_cons, reduceCtorEq, List.not_mem_nil, or_false,
      false_or, Event.exchange.injEq] at member
    rw [member]
    refine Or.inr ⟨replyTunnel, ?_, ?_⟩
    · simp only [exchangeOf, response]
    · simp only [exchangeOf, whole]
  exact
    tunnelled_not_delivered configDefault 0 [] callTunnel served
      ⟨⟨4660, 256, 1, 0, 0, 0⟩, [questionTunnel], [], [], []⟩
      questionTunnel [] (by decide +kernel) rfl
      ⟨by simp [questionTunnel], by decide, by decide, by decide⟩
      (by decide +kernel)
      .dynamicRule
      (sinkholePacket
        ⟨⟨4660, 256, 1, 0, 0, 0⟩, [questionTunnel], [], [], []⟩
        questionTunnel)
      (by decide +kernel)

end DnsFirewall
