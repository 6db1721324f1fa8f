import DnsFirewall.Foundations.Runs
import DnsFirewall.Processor.Branches
import DnsFirewall.Resolver.Trust
import DnsFirewall.Wire.RoundTrip

/-!
# The replies of a call

How often a call answers, whether it reads a question that is not there, and
what the packets look like that it builds itself.
-/

namespace DnsFirewall

open CString BigEndian

variable {F : Type}

/-- The number of calls of the response callback. -/
def responses (effects : List Effect) : Nat :=
  effects.countP fun effect =>
    match effect with
    | .respond _ _ => true
    | _ => false

theorem mem_blockReports_iff
    {fw : Firewall} {client : Option SockAddrIn} {qname : Bytes}
    {effect : Effect} :
    effect ∈ blockReports fw client qname ↔
      (∃ ip, checkedClient client = some ip ∧ effect = .reportBlock ip) ∨
        (fw.reputation.isSome = true ∧ effect = .recordBlock qname) := by
  rw [blockReports]
  rw [List.mem_append]
  cases checkedClient client with
  | none =>
      cases fw.reputation with
      | none => simp
      | some tracker => simp
  | some ip =>
      cases fw.reputation with
      | none => simp
      | some tracker => simp

theorem respond_not_mem_blockReports
    (fw : Firewall) (client : Option SockAddrIn) (qname : Bytes)
    (site : Site) (data : Bytes) :
    .respond site data ∉ blockReports fw client qname := by
  intro member
  rcases mem_blockReports_iff.mp member with ⟨_, _, same⟩ | ⟨_, same⟩
  · cases same
  · cases same

theorem responses_blockReports
    (fw : Firewall) (client : Option SockAddrIn) (qname : Bytes) :
    responses (blockReports fw client qname) = 0 := by
  rw [responses]
  rw [List.countP_eq_zero]
  intro effect member isResponse
  cases effect with
  | respond site data =>
      exact respond_not_mem_blockReports fw client qname site data member
  | dropped => cases isResponse
  | reportBlock ip => cases isResponse
  | recordBlock domain => cases isResponse

theorem responses_blockedCall
    (env : Env) (tick : Nat) (site : Site) (fw : Firewall)
    (client : Option SockAddrIn) (query : DnsMessage)
    (question : DnsQuestion) (resolution : Option (Outcome × Bool))
    (log : List Event) :
    responses
        (blockedCall env tick site fw client query question resolution
          log).effects = 1 := by
  have told := responses_blockReports fw client question.qname
  rw [responses] at told ⊢
  rw [blockedCall]
  rw [List.countP_cons_of_pos rfl, told]

theorem deliver_effect
    (c : Cache cacheDefaultSize) (question : DnsQuestion) (id : UInt16)
    (now : Int) :
    (deliver c question id now).1 =
        .respond .cacheMiss (errorResponse id) ∨
      ∃ raw,
        (deliver c question id now).1 =
          .respond .delivery (patchId id raw) := by
  rw [deliver]
  split
  · exact Or.inl rfl
  · rename_i raw after result
    exact Or.inr ⟨raw, rfl⟩

theorem responses_sendAnswer
    (env : Env) (tick : Nat) (fw : Firewall) (id : UInt16)
    (question : DnsQuestion) (outcome : Outcome) (log : List Event) :
    (sendAnswer env tick fw id question outcome log).ending = .hung ∨
      (sendAnswer env tick fw id question outcome log).ending =
          .returned ∧
        responses
          (sendAnswer env tick fw id question outcome log).effects = 1 := by
  have delivered :
      responses [(deliver fw.cache question id (env.time tick)).1] = 1 := by
    rcases deliver_effect fw.cache question id (env.time tick) with
      built | ⟨raw, sent⟩
    · rw [built]
      rfl
    · rw [sent]
      rfl
  cases outcome with
  | answer a => exact Or.inr ⟨rfl, delivered⟩
  | nxDomain a => exact Or.inr ⟨rfl, delivered⟩
  | failed => exact Or.inr ⟨rfl, rfl⟩
  | tooDeep => exact Or.inr ⟨rfl, rfl⟩
  | hung => exact Or.inl rfl

/-! ## Questions that are not there -/

/-- A call reads a missing question exactly when it gets a packet without
questions past the rate limiter. -/
theorem missingQuestion_iff
    (env : Env) (cfg : Config F) (fw : Firewall) (inbuf : Bytes)
    (client : Option SockAddrIn) :
    (processDnsQuery env cfg fw inbuf client).ending ≠ .missingQuestion ↔
      ∀ query, dnsParseMessage inbuf = .ok query →
        RateLimited env fw client ∨ query.questions ≠ [] := by
  have branch := branch_processDnsQuery env cfg fw inbuf client
  generalize processDnsQuery env cfg fw inbuf client = result at branch
  cases branch with
  | unparsed parsed =>
      refine ⟨fun _ => forall_parsed_of_error parsed, ?_⟩
      intro _ missing
      simp only at missing
      split at missing
      · cases missing
      · cases missing
  | limited parsed dropped =>
      rw [forall_parsed_iff parsed]
      exact ⟨fun _ => Or.inl dropped, fun _ missing => by cases missing⟩
  | unasked parsed admitted empty =>
      rw [forall_parsed_iff parsed]
      constructor
      · intro present
        exact absurd rfl present
      · intro given
        rcases given with dropped | nonempty
        · exact absurd dropped admitted
        · exact absurd empty nonempty
  | banned parsed _ asked _ =>
      rw [forall_parsed_iff parsed, asked]
      exact ⟨fun _ => Or.inr (List.cons_ne_nil _ _), fun _ missing => by
        cases missing⟩
  | listed parsed _ asked _ _ =>
      rw [forall_parsed_iff parsed, asked]
      exact ⟨fun _ => Or.inr (List.cons_ne_nil _ _), fun _ missing => by
        cases missing⟩
  | generated parsed _ asked _ _ _ =>
      rw [forall_parsed_iff parsed, asked]
      exact ⟨fun _ => Or.inr (List.cons_ne_nil _ _), fun _ missing => by
        cases missing⟩
  | ruled passes _ =>
      obtain ⟨more, asked⟩ := passes.asked
      rw [forall_parsed_iff passes.parsed, asked]
      exact ⟨fun _ => Or.inr (List.cons_ne_nil _ _), fun _ missing => by
        cases missing⟩
  | @allowed query question flux passes action =>
      obtain ⟨more, asked⟩ := passes.asked
      rw [forall_parsed_iff passes.parsed, asked]
      refine ⟨fun _ => Or.inr (List.cons_ne_nil _ _), ?_⟩
      intro _ missing
      rcases responses_sendAnswer env
          (checkedTick env cfg (admittedState env fw client) query)
          { resolvedState env cfg (admittedState env fw client) query with
            flux }
          query.header.id question
          (resolution env cfg (admittedState env fw client) query).1
          (resolution env cfg (admittedState env fw client) query).2.log
        with hung | ⟨returned, _⟩
      · rw [hung] at missing
        cases missing
      · rw [returned] at missing
        cases missing

def NoMissingQuestion : Prop :=
  ∀ (F : Type) (env : Env) (cfg : Config F) (fw : Firewall)
    (inbuf : Bytes) (client : Option SockAddrIn),
    12 ≤ inbuf.length →
      (processDnsQuery env cfg fw inbuf client).ending ≠ .missingQuestion

def envOffline : Env where
  time := fun _ => 0
  rand := fun _ => 0
  udp := fun _ => .notSent
  lockFree := fun _ => true
  connect := fun _ => none
  tcp := fun _ => ⟨false, false, false, []⟩
  passes := 1
  deadFrame := []

/-- Iterative mode, an empty blacklist and the default thresholds. -/
def configDefault : Config Rat where
  policy :=
    { blacklistLines := []
      scores := ⟨exactArithmetic fun _ => 0, none, mkRat 48 100⟩
      fluxIpMax := 500 }
  resolver := configIterative

def visitor : SockAddrIn := ⟨16909060, 5353⟩

def emptyQuery : Bytes := [18, 52, 1, 0, 0, 0, 0, 0, 0, 0, 0, 0]

theorem not_noMissingQuestion : ¬ NoMissingQuestion := by
  intro present
  have missing :
      (processDnsQuery envOffline configDefault (firewallStart 0)
        emptyQuery (some visitor)).ending = .missingQuestion := by
    decide +kernel
  exact
    present Rat envOffline configDefault (firewallStart 0) emptyQuery
      (some visitor) (by decide) missing

/-! ## One answer for every query -/

/-- The callback is called exactly once, unless the call never returns. -/
def AnsweredOnce (result : CallResult) : Prop :=
  result.ending = .hung ∨ responses result.effects = 1

/-- A call answers exactly once if and only if the packet does not parse, or
the rate limiter lets it through and it has a question. -/
theorem answeredOnce_iff
    (env : Env) (cfg : Config F) (fw : Firewall) (inbuf : Bytes)
    (client : Option SockAddrIn) :
    AnsweredOnce (processDnsQuery env cfg fw inbuf client) ↔
      ∀ query, dnsParseMessage inbuf = .ok query →
        ¬ RateLimited env fw client ∧ query.questions ≠ [] := by
  have branch := branch_processDnsQuery env cfg fw inbuf client
  generalize processDnsQuery env cfg fw inbuf client = result at branch
  cases branch with
  | unparsed parsed =>
      exact ⟨fun _ => forall_parsed_of_error parsed, fun _ => Or.inr rfl⟩
  | limited parsed dropped =>
      rw [forall_parsed_iff parsed]
      constructor
      · intro given
        rcases given with hung | once
        · cases hung
        · simp [responses] at once
      · intro condition
        exact absurd dropped condition.1
  | unasked parsed _ empty =>
      rw [forall_parsed_iff parsed]
      constructor
      · intro given
        rcases given with hung | once
        · cases hung
        · simp [responses] at once
      · intro condition
        exact absurd empty condition.2
  | banned parsed admitted asked _ =>
      rw [forall_parsed_iff parsed, asked]
      exact ⟨fun _ => ⟨admitted, List.cons_ne_nil _ _⟩,
        fun _ => Or.inr rfl⟩
  | listed parsed admitted asked _ _ =>
      rw [forall_parsed_iff parsed, asked]
      exact ⟨fun _ => ⟨admitted, List.cons_ne_nil _ _⟩,
        fun _ => Or.inr (responses_blockedCall _ _ _ _ _ _ _ _ _)⟩
  | generated parsed admitted asked _ _ _ =>
      rw [forall_parsed_iff parsed, asked]
      exact ⟨fun _ => ⟨admitted, List.cons_ne_nil _ _⟩,
        fun _ => Or.inr (responses_blockedCall _ _ _ _ _ _ _ _ _)⟩
  | ruled passes _ =>
      obtain ⟨more, asked⟩ := passes.asked
      rw [forall_parsed_iff passes.parsed, asked]
      exact ⟨fun _ => ⟨passes.admitted, List.cons_ne_nil _ _⟩,
        fun _ => Or.inr (responses_blockedCall _ _ _ _ _ _ _ _ _)⟩
  | allowed passes _ =>
      obtain ⟨more, asked⟩ := passes.asked
      rw [forall_parsed_iff passes.parsed, asked]
      refine ⟨fun _ => ⟨passes.admitted, List.cons_ne_nil _ _⟩, ?_⟩
      intro _
      rcases responses_sendAnswer _ _ _ _ _ _ _ with
        hung | ⟨_, once⟩
      · exact Or.inl hung
      · exact Or.inr once

def EveryQueryAnswered : Prop :=
  ∀ (F : Type) (env : Env) (cfg : Config F) (start : Int)
    (earlier : List (Bytes × Option SockAddrIn)) (inbuf : Bytes)
    (client : Option SockAddrIn),
    let fw :=
      Runs.run
        (fun fw call => (processDnsQuery env cfg fw call.1 call.2).state)
        (firewallStart start) earlier
    AnsweredOnce (processDnsQuery env cfg fw inbuf client)

def queryA : Bytes :=
  [18, 52, 1, 0, 0, 1, 0, 0, 0, 0, 0, 0, 1, 97, 0, 0, 1, 0, 1]

theorem not_everyQueryAnswered : ¬ EveryQueryAnswered := by
  intro answered
  have once :=
    answered Rat envOffline configDefault 0
      (List.replicate 20 (queryA, some visitor)) queryA (some visitor)
  have silent :
      (processDnsQuery envOffline configDefault
        (Runs.run
          (fun fw call =>
            (processDnsQuery envOffline configDefault fw call.1
              call.2).state)
          (firewallStart 0)
          (List.replicate 20 (queryA, some visitor)))
        queryA (some visitor)).effects = [.dropped] := by
    decide +kernel
  have returned :
      (processDnsQuery envOffline configDefault
        (Runs.run
          (fun fw call =>
            (processDnsQuery envOffline configDefault fw call.1
              call.2).state)
          (firewallStart 0)
          (List.replicate 20 (queryA, some visitor)))
        queryA (some visitor)).ending = .returned := by
    decide +kernel
  rcases once with hung | count
  · rw [returned] at hung
    cases hung
  · rw [silent] at count
    exact absurd count (by decide)

/-! ## What the local packets look like -/

/-- The response code that the source writes at a place: SERVFAIL on the three
failure branches, NOERROR on the four sinkhole branches. -/
def Site.rcode : Site → UInt16
  | .parseError => dnsRcodeServfail
  | .cacheMiss => dnsRcodeServfail
  | .resolverFailure => dnsRcodeServfail
  | .quarantine => dnsRcodeNoerror
  | .blacklist => dnsRcodeNoerror
  | .dga => dnsRcodeNoerror
  | .dynamicRule => dnsRcodeNoerror
  | .delivery => dnsRcodeNoerror

/-- The first twelve bytes of the packet are the header of a response with the
response code of the place, to a query that starts with the same two bytes. -/
def Recognisable (inbuf : Bytes) (site : Site) (data : Bytes) : Prop :=
  ∃ header, readHeader (data.take 12) = .ok header ∧
    bytes16 header.id = inbuf.take 2 ∧
      header.flags &&& dnsQrResponse = dnsQrResponse ∧
        header.flags &&& 0x0F = site.rcode

/-- The packet is a built header with the given flags. -/
def HasFlags (flags : UInt16) (data : Bytes) : Prop :=
  ∃ id qdcount ancount nscount arcount,
    data.take 12 = headerBytes id flags qdcount ancount nscount arcount

theorem readHeader_of_hasFlags
    {flags : UInt16} {data : Bytes} (built : HasFlags flags data) :
    ∃ header, readHeader (data.take 12) = .ok header ∧
      header.flags = flags := by
  obtain ⟨id, qdcount, ancount, nscount, arcount, front⟩ := built
  have read :=
    readHeader_headerBytes id flags qdcount ancount nscount arcount []
  rw [List.append_nil] at read
  rw [front]
  exact ⟨_, read, rfl⟩

theorem written_header
    {size : Nat} (room : 12 ≤ size)
    (id flags qdcount ancount nscount arcount : UInt16) :
    (dnsBuildResponseHeader (dnsBuilderInit (List.replicate size 0)) id
        flags qdcount ancount nscount arcount).2.written =
      headerBytes id flags qdcount ancount nscount arcount := by
  have fits :
      (dnsBuilderInit (List.replicate size 0)).pos + 12 ≤
        (dnsBuilderInit (List.replicate size 0)).buf.length := by
    simpa [dnsBuilderInit] using room
  rw [dnsBuildResponseHeader_of_le _ _ _ _ _ _ fits,
    DnsBuilder.written_put (by rw [headerBytes_length]; exact fits)]
  rfl

theorem written_header_pos
    {size : Nat} (room : 12 ≤ size)
    (id flags qdcount ancount nscount arcount : UInt16) :
    (dnsBuildResponseHeader (dnsBuilderInit (List.replicate size 0)) id
        flags qdcount ancount nscount arcount).2.pos = 12 := by
  have fits :
      (dnsBuilderInit (List.replicate size 0)).pos + 12 ≤
        (dnsBuilderInit (List.replicate size 0)).buf.length := by
    simpa [dnsBuilderInit] using room
  rw [dnsBuildResponseHeader_of_le _ _ _ _ _ _ fits,
    DnsBuilder.put_pos, headerBytes_length]
  rfl

/-- `htons` moves the QR bit of an error reply out of its place. -/
theorem errorResponse_hasFlags (id : UInt16) :
    HasFlags 0x0280 (errorResponse id) := by
  refine ⟨id, 0, 0, 0, 0, ?_⟩
  have flags : htons (dnsQrResponse ||| dnsRcodeServfail) = 0x0280 := by
    decide
  rw [errorResponse]
  simp only [flags]
  rw [written_header (Nat.le_refl 12)]
  exact List.take_of_length_le (by rw [headerBytes_length])

/-- So it does with a sinkhole reply, whatever is appended to its header. -/
theorem sinkholePacket_hasFlags
    (query : DnsMessage) (first : DnsQuestion) :
    HasFlags 0x0080 (sinkholePacket query first) := by
  have flags : htons (dnsQrResponse ||| dnsRcodeNoerror) = 0x0080 := by
    decide
  have appended :
      ∀ (questions : List DnsQuestion) (b : DnsBuilder),
        b.Extends
          (questions.foldl
            (fun b question =>
              (dnsBuildQuestion b question.qname question.qtype
                question.qclass).2)
            b) := by
    intro questions
    induction questions with
    | nil => exact fun b => .refl b
    | cons head tail inductionHypothesis =>
        intro b
        exact (extends_dnsBuildQuestion b _ _ _).trans
          (inductionHypothesis _)
  refine ⟨query.header.id, query.questions.length.toUInt16, 1, 0, 0, ?_⟩
  rw [sinkholePacket]
  simp only [flags]
  have pos :=
    written_header_pos (by decide : 12 ≤ 512) query.header.id 0x0080
      query.questions.length.toUInt16 1 0 0
  rw [DnsBuilder.Extends.written_take
    ((appended query.questions _).trans
      (extends_dnsBuildRr _ first.qname dnsTypeA dnsClassIn 300
        [0, 0, 0, 0] 4))
    (by rw [pos]),
    written_header (by decide)]
  exact List.take_of_length_le (by rw [headerBytes_length])

/-- Behind the resolver a packet is built only for a failure. -/
theorem respond_sendAnswer
    {env : Env} {tick : Nat} {fw : Firewall} {id : UInt16}
    {question : DnsQuestion} {outcome : Outcome} {log : List Event}
    {site : Site} {data : Bytes}
    (sent :
      .respond site data ∈
        (sendAnswer env tick fw id question outcome log).effects)
    (built : site ≠ .delivery) :
    data = errorResponse id := by
  have delivered :
      .respond site data ∈
          [(deliver fw.cache question id (env.time tick)).1] →
        data = errorResponse id := by
    intro member
    rw [List.mem_singleton] at member
    rcases deliver_effect fw.cache question id (env.time tick) with
      miss | ⟨raw, hit⟩
    · rw [miss] at member
      cases member
      rfl
    · rw [hit] at member
      cases member
      exact absurd rfl built
  cases outcome with
  | answer a => exact delivered sent
  | nxDomain a => exact delivered sent
  | failed =>
      cases List.mem_singleton.mp sent
      rfl
  | tooDeep =>
      cases List.mem_singleton.mp sent
      rfl
  | hung => cases sent

/-- A response is delivered from the cache or built here, with flags that
`htons` has swapped. -/
theorem respond_hasFlags
    {env : Env} {cfg : Config F} {fw : Firewall} {inbuf : Bytes}
    {client : Option SockAddrIn} {site : Site} {data : Bytes}
    (sent :
      .respond site data ∈
        (processDnsQuery env cfg fw inbuf client).effects)
    (built : site ≠ .delivery) :
    HasFlags 0x0280 data ∨ HasFlags 0x0080 data := by
  have branch := branch_processDnsQuery env cfg fw inbuf client
  generalize processDnsQuery env cfg fw inbuf client = result
    at branch sent
  have blocked :
      ∀ {tick : Nat} {place : Site} {state : Firewall}
        {query : DnsMessage} {question : DnsQuestion}
        {resolution : Option (Outcome × Bool)} {log : List Event},
        .respond site data ∈
            (blockedCall env tick place state client query question
              resolution log).effects →
          HasFlags 0x0080 data := by
    intro tick place state query question resolution log member
    rcases List.mem_cons.mp member with here | told
    · cases here
      exact sinkholePacket_hasFlags query question
    · exact absurd told (respond_not_mem_blockReports _ _ _ _ _)
  cases branch with
  | unparsed _ =>
      simp only [List.mem_singleton] at sent
      cases sent
      exact Or.inl (errorResponse_hasFlags 0)
  | limited _ _ => simp at sent
  | unasked _ _ _ => simp at sent
  | @banned query question more _ _ _ _ =>
      simp only [List.mem_singleton] at sent
      cases sent
      exact Or.inr (sinkholePacket_hasFlags query question)
  | listed _ _ _ _ _ => exact Or.inr (blocked sent)
  | generated _ _ _ _ _ _ => exact Or.inr (blocked sent)
  | ruled _ _ => exact Or.inr (blocked sent)
  | allowed _ _ =>
      rw [respond_sendAnswer sent built]
      exact Or.inl (errorResponse_hasFlags _)

/-- No packet that a call builds itself is recognisable as a response: its QR
bit is clear, and its response code reads as zero. -/
theorem local_reply_not_recognisable
    (env : Env) (cfg : Config F) (fw : Firewall) (inbuf : Bytes)
    (client : Option SockAddrIn) (site : Site) (data : Bytes)
    (sent :
      .respond site data ∈
        (processDnsQuery env cfg fw inbuf client).effects)
    (built : site ≠ .delivery) :
    ¬ Recognisable inbuf site data ∧
      ∃ header, readHeader (data.take 12) = .ok header ∧
        header.flags &&& dnsQrResponse = 0 ∧
          header.flags &&& 0x0F = 0 := by
  have clear :
      ∃ header, readHeader (data.take 12) = .ok header ∧
        header.flags &&& dnsQrResponse = 0 ∧
          header.flags &&& 0x0F = 0 := by
    rcases respond_hasFlags sent built with error | sinkhole
    · obtain ⟨header, read, flags⟩ := readHeader_of_hasFlags error
      refine ⟨header, read, ?_⟩
      rw [flags]
      decide
    · obtain ⟨header, read, flags⟩ := readHeader_of_hasFlags sinkhole
      refine ⟨header, read, ?_⟩
      rw [flags]
      decide
  refine ⟨?_, clear⟩
  intro given
  obtain ⟨header, read, _, response, _⟩ := given
  obtain ⟨other, alsoRead, noResponse, _⟩ := clear
  rw [read] at alsoRead
  cases alsoRead
  rw [noResponse] at response
  exact absurd response (by decide)

/-- A header that announces a question which is not there. -/
def cutQuery : Bytes := [18, 52, 1, 0, 0, 1, 0, 0, 0, 0, 0, 0]

theorem cutQuery_effects :
    (processDnsQuery envOffline configDefault (firewallStart 0) cutQuery
      (some visitor)).effects =
      [.respond .parseError
        [0, 0, 2, 128, 0, 0, 0, 0, 0, 0, 0, 0]] := by
  decide +kernel

theorem local_reply_not_recognisable_cutQuery :
    ¬ Recognisable cutQuery .parseError
      [0, 0, 2, 128, 0, 0, 0, 0, 0, 0, 0, 0] :=
  (local_reply_not_recognisable envOffline configDefault
    (firewallStart 0) cutQuery (some visitor) .parseError
    [0, 0, 2, 128, 0, 0, 0, 0, 0, 0, 0, 0]
    (by rw [cutQuery_effects]; exact List.mem_cons_self)
    (by decide)).1

def LocalRepliesRecognisable : Prop :=
  ∀ (F : Type) (env : Env) (cfg : Config F) (fw : Firewall)
    (inbuf : Bytes) (client : Option SockAddrIn) (site : Site)
    (data : Bytes),
    12 ≤ inbuf.length →
      .respond site data ∈
          (processDnsQuery env cfg fw inbuf client).effects →
        site ≠ .delivery → Recognisable inbuf site data

theorem not_localRepliesRecognisable : ¬ LocalRepliesRecognisable := by
  intro recognisable
  obtain ⟨header, read, sameId, _⟩ :=
    recognisable Rat envOffline configDefault (firewallStart 0) cutQuery
      (some visitor) .parseError [0, 0, 2, 128, 0, 0, 0, 0, 0, 0, 0, 0]
      (by decide)
      (by rw [cutQuery_effects]; exact List.mem_cons_self) (by decide)
  have zeros :
      readHeader
        (List.take 12 [0, 0, 2, 128, 0, 0, 0, 0, 0, 0, 0, 0]) =
        .ok ⟨0, 640, 0, 0, 0, 0⟩ := by
    decide
  rw [zeros] at read
  cases read
  exact absurd sameId (by decide)

end DnsFirewall
