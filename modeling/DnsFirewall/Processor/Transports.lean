import DnsFirewall.Processor.Replies

/-!
# The three transports

How a query packet reaches `process_dns_query` over UDP, TCP and DoH, and what
is decided about its client there.  UDP and DoH hand over the address of the
client, TCP does not.
-/

namespace DnsFirewall

open CString BigEndian

variable {F : Type}

/-- A query packet, of at most the size that the two length bytes of TCP can
announce. -/
structure QueryPacket where
  bytes : Bytes
  fits : bytes.length ≤ 65535

/-- `udp_job_t`, as far as `process_dns_query` gets it. -/
structure UdpJob where
  buf : Bytes
  client : SockAddrIn

/-- The job that the receive loop of `main` queues for a datagram. -/
def receiveDatagram (datagram : Bytes) (client : SockAddrIn) :
    Option UdpJob :=
  let inbuf := datagram.take dnsMaxPacket
  if inbuf.length < 12 then none else some ⟨inbuf, client⟩

/-- The body of the loop in `worker_thread`. -/
def workerThread (env : Env) (cfg : Config F) (fw : Firewall)
    (job : UdpJob) : CallResult :=
  processDnsQuery env cfg fw job.buf (some job.client)

/-- The body of the loop in `tcp_listener`, for the bytes the connection
receives. -/
def tcpListener (env : Env) (cfg : Config F) (fw : Firewall)
    (stream : Bytes) : Option CallResult :=
  match stream with
  | high :: low :: rest =>
      let len := (word16 high low).toNat
      if dnsMaxPacket < len then none
      else
        let inbuf := rest.take len
        if inbuf.length = len then
          some (processDnsQuery env cfg fw inbuf none)
        else
          none
  | _ => none

def dnsQueryMax : Nat := 512

/-- The address that `handle_connection` uses when `getpeername` fails. -/
def fallbackClient : SockAddrIn := ⟨2130706433, 0⟩

/-- `handle_connection` behind the HTTP parser, for the body of a POST request
and the result of `getpeername`. -/
def handleConnection (env : Env) (cfg : Config F) (fw : Firewall)
    (body : Bytes) (peer : Option SockAddrIn) : Option CallResult :=
  if 0 < body.length ∧ body.length ≤ dnsQueryMax then
    some
      (processDnsQuery env cfg fw body (some (peer.getD fallbackClient)))
  else
    none

def overUdp (env : Env) (cfg : Config F) (fw : Firewall)
    (packet : QueryPacket) (client : SockAddrIn) : Option CallResult :=
  (receiveDatagram packet.bytes client).map (workerThread env cfg fw)

/-- The packet over TCP, behind its length. -/
def overTcp (env : Env) (cfg : Config F) (fw : Firewall)
    (packet : QueryPacket) : Option CallResult :=
  tcpListener env cfg fw
    (bytes16 packet.bytes.length.toUInt16 ++ packet.bytes)

/-- The packet over DoH, from a client that `getpeername` knows. -/
def overDoh (env : Env) (cfg : Config F) (fw : Firewall)
    (packet : QueryPacket) (client : SockAddrIn) : Option CallResult :=
  handleConnection env cfg fw packet.bytes (some client)

/-! ## Decisions -/

/-- What is decided about a client: its packet is dropped by the rate limit,
answered by the quarantine sinkhole, and a block is reported against it. -/
structure Decisions where
  dropped : Bool
  sinkholed : Bool
  reported : Bool
deriving DecidableEq, Repr

def noDecisions : Decisions := ⟨false, false, false⟩

def decisionsOf (client : SockAddrIn) (effects : List Effect) :
    Decisions where
  dropped := effects.contains .dropped
  sinkholed :=
    effects.any fun effect =>
      match effect with
      | .respond .quarantine _ => true
      | _ => false
  reported := effects.contains (.reportBlock client.sAddr)

def decided (client : SockAddrIn) (result : Option CallResult) :
    Decisions :=
  match result with
  | none => noDecisions
  | some call => decisionsOf client call.effects

def Unresolved (result : Option CallResult) : Prop :=
  ∀ call, result = some call → call.resolution = none

/-- The decisions about the client are the same over the three transports, and
in quarantine it gets no name resolved over any of them. -/
def SamePolicies (env : Env) (cfg : Config F) (fw : Firewall)
    (packet : QueryPacket) (client : SockAddrIn) : Prop :=
  decided client (overUdp env cfg fw packet client) =
      decided client (overTcp env cfg fw packet) ∧
    decided client (overUdp env cfg fw packet client) =
        decided client (overDoh env cfg fw packet client) ∧
      (adIsQuarantined fw.defense client.sAddr (env.time 1) = true →
        Unresolved (overUdp env cfg fw packet client) ∧
          Unresolved (overTcp env cfg fw packet) ∧
            Unresolved (overDoh env cfg fw packet client))

/-- A policy blocks the query: its name is on the blacklist or looks
generated, or the answer to it is blocked. -/
def Blocked (env : Env) (cfg : Config F) (fw : Firewall)
    (query : DnsMessage) (question : DnsQuestion) : Prop :=
  policyCheckBlocklist cfg.policy.blacklist question.qname = true ∨
    policyCheckPreresolve cfg.policy question.qname = true ∨
      ∃ flux, checkedAction env cfg fw query = some (true, flux)

/-- Nothing about the client or its query calls for a decision. -/
def Unremarkable (env : Env) (cfg : Config F) (fw : Firewall)
    (inbuf : Bytes) (client : SockAddrIn) : Prop :=
  ∀ query, dnsParseMessage inbuf = .ok query →
    ¬ RateLimited env fw (some client) ∧
      ∀ question more, query.questions = question :: more →
        ¬ adIsQuarantined fw.defense client.sAddr (env.time 1) = true ∧
          ¬ Blocked env cfg (admittedState env fw (some client)) query
            question

/-! ## One call -/

theorem checkedClient_of_ne
    {client : SockAddrIn} (foreign : client.sAddr ≠ loopbackAddr) :
    checkedClient (some client) = some client.sAddr :=
  if_neg foreign

theorem admittedState_defense
    (env : Env) (fw : Firewall) (client : Option SockAddrIn) :
    (admittedState env fw client).defense = fw.defense := by
  rw [admittedState, rateLimit]
  split
  · rfl
  · rfl

theorem isQuarantined_of_ne
    {client : SockAddrIn} (foreign : client.sAddr ≠ loopbackAddr)
    (env : Env) (fw : Firewall) :
    isQuarantined env (admittedState env fw (some client))
        (some client) =
      adIsQuarantined fw.defense client.sAddr (env.time 1) := by
  rw [isQuarantined]
  rw [checkedClient_of_ne foreign]
  simp only
  rw [admittedState_defense]

theorem not_rateLimited_none (env : Env) (fw : Firewall) :
    ¬ RateLimited env fw none := by
  rw [RateLimited, rateLimit, checkedClient]
  simp

theorem not_isQuarantined_none (env : Env) (fw : Firewall) :
    ¬ isQuarantined env fw none = true := by
  rw [isQuarantined, checkedClient]
  simp

theorem decisionsOf_eq_none_iff
    {client : SockAddrIn} {effects : List Effect} :
    decisionsOf client effects = noDecisions ↔
      .dropped ∉ effects ∧
        (∀ data, .respond .quarantine data ∉ effects) ∧
          .reportBlock client.sAddr ∉ effects := by
  have sinkholed :
      (effects.any fun effect =>
          match effect with
          | .respond .quarantine _ => true
          | _ => false) = false ↔
        ∀ data, .respond .quarantine data ∉ effects := by
    rw [List.any_eq_false]
    constructor
    · intro none data member
      exact none _ member rfl
    · intro none effect member isSinkhole
      split at isSinkhole
      · exact none _ member
      · cases isSinkhole
  rw [decisionsOf, noDecisions]
  simp only [Decisions.mk.injEq, sinkholed, List.contains_eq_mem,
    decide_eq_false_iff_not]

theorem decisionsOf_blockedCall_iff
    {peer : SockAddrIn} {env : Env} {tick : Nat} {site : Site}
    (place : site ≠ .quarantine) {fw : Firewall}
    {client : Option SockAddrIn} {query : DnsMessage}
    {question : DnsQuestion} {resolution : Option (Outcome × Bool)}
    {log : List Event} :
    decisionsOf peer
        (blockedCall env tick site fw client query question resolution
          log).effects = noDecisions ↔
      checkedClient client ≠ some peer.sAddr := by
  rw [decisionsOf_eq_none_iff]
  rw [blockedCall]
  simp only [List.mem_cons, mem_blockReports_iff]
  constructor
  · rintro ⟨_, _, unreported⟩ isPeer
    exact unreported (Or.inr (Or.inl ⟨peer.sAddr, isPeer, rfl⟩))
  · intro notPeer
    refine ⟨?_, ?_, ?_⟩
    · intro given
      rcases given with same | ⟨_, _, same⟩ | ⟨_, same⟩
      · cases same
      · cases same
      · cases same
    · intro data given
      rcases given with same | ⟨_, _, same⟩ | ⟨_, same⟩
      · cases same
        exact place rfl
      · cases same
      · cases same
    · intro given
      rcases given with same | ⟨ip, isClient, same⟩ | ⟨_, same⟩
      · cases same
      · cases same
        exact notPeer isClient
      · cases same

theorem decisionsOf_sendAnswer
    (peer : SockAddrIn) (env : Env) (tick : Nat) (fw : Firewall)
    (id : UInt16) (question : DnsQuestion) (outcome : Outcome)
    (log : List Event) :
    decisionsOf peer
        (sendAnswer env tick fw id question outcome log).effects =
      noDecisions := by
  have delivered :
      decisionsOf peer
          [(deliver fw.cache question id (env.time tick)).1] =
        noDecisions := by
    rcases deliver_effect fw.cache question id (env.time tick) with
      miss | ⟨raw, hit⟩
    · rw [miss]
      rfl
    · rw [hit]
      rfl
  cases outcome with
  | answer a => exact delivered
  | nxDomain a => exact delivered
  | failed => rfl
  | tooDeep => rfl
  | hung => rfl

/-- A call without a client decides nothing about any client. -/
theorem decisionsOf_anonymous
    (env : Env) (cfg : Config F) (fw : Firewall) (inbuf : Bytes)
    (peer : SockAddrIn) :
    decisionsOf peer (processDnsQuery env cfg fw inbuf none).effects =
      noDecisions := by
  have branch := branch_processDnsQuery env cfg fw inbuf none
  generalize processDnsQuery env cfg fw inbuf none = result at branch
  have anonymous : checkedClient none ≠ some peer.sAddr := by
    intro same
    cases same
  cases branch with
  | unparsed _ => rfl
  | limited _ dropped =>
      exact absurd dropped (not_rateLimited_none env fw)
  | unasked _ _ _ => rfl
  | banned _ _ _ quarantined =>
      exact absurd quarantined (not_isQuarantined_none env _)
  | listed _ _ _ _ _ =>
      exact (decisionsOf_blockedCall_iff (by decide)).mpr anonymous
  | generated _ _ _ _ _ _ =>
      exact (decisionsOf_blockedCall_iff (by decide)).mpr anonymous
  | ruled _ _ =>
      exact (decisionsOf_blockedCall_iff (by decide)).mpr anonymous
  | allowed _ _ => exact decisionsOf_sendAnswer _ _ _ _ _ _ _ _

section Elsewhere

variable {client : SockAddrIn} (foreign : client.sAddr ≠ loopbackAddr)
variable {env : Env} {cfg : Config F} {fw : Firewall} {inbuf : Bytes}

include foreign

/-- A query that is blocked is reported, and is not unremarkable. -/
theorem decisionsOf_blocked_iff_unremarkable
    {tick : Nat} {site : Site} {state : Firewall} {query : DnsMessage}
    {question : DnsQuestion} {more : List DnsQuestion}
    {resolution : Option (Outcome × Bool)} {log : List Event}
    (place : site ≠ .quarantine)
    (parsed : dnsParseMessage inbuf = .ok query)
    (asked : query.questions = question :: more)
    (isBlocked :
      Blocked env cfg (admittedState env fw (some client)) query question) :
    decisionsOf client
        (blockedCall env tick site state (some client) query question
          resolution log).effects =
        noDecisions ↔
      Unremarkable env cfg fw inbuf client := by
  rw [decisionsOf_blockedCall_iff place]
  constructor
  · intro unreported
    exact absurd (checkedClient_of_ne foreign) unreported
  · intro unremarkable
    exact
      absurd isBlocked ((unremarkable query parsed).2 question more asked).2

/-- A query that no check stops and that no rule blocks is unremarkable. -/
theorem unremarkable_of_passes
    {query : DnsMessage} {question : DnsQuestion} {flux : List FluxEntry}
    (passes : Passes env cfg fw inbuf (some client) query question)
    (action :
      checkedAction env cfg (admittedState env fw (some client)) query =
        some (false, flux)) :
    Unremarkable env cfg fw inbuf client := by
  obtain ⟨more, asked⟩ := passes.asked
  refine (forall_parsed_iff passes.parsed).mpr ⟨passes.admitted, ?_⟩
  intro other others alsoAsked
  rw [asked] at alsoAsked
  cases alsoAsked
  have free := passes.free
  rw [isQuarantined_of_ne foreign env fw] at free
  refine ⟨free, ?_⟩
  intro given
  rcases given with onList | isDga | ⟨flux, block⟩
  · exact passes.notListed onList
  · exact passes.notDga isDga
  · rw [action] at block
    cases block

end Elsewhere

/-- A call for a client from elsewhere decides nothing about it exactly when
the query is unremarkable. -/
theorem decisionsOf_eq_none_iff_unremarkable
    {client : SockAddrIn} (foreign : client.sAddr ≠ loopbackAddr)
    (env : Env) (cfg : Config F) (fw : Firewall) (inbuf : Bytes) :
    decisionsOf client
        (processDnsQuery env cfg fw inbuf (some client)).effects =
        noDecisions ↔
      Unremarkable env cfg fw inbuf client := by
  have branch := branch_processDnsQuery env cfg fw inbuf (some client)
  generalize processDnsQuery env cfg fw inbuf (some client) = result
    at branch
  cases branch with
  | unparsed parsed =>
      exact ⟨fun _ => forall_parsed_of_error parsed, fun _ => rfl⟩
  | limited parsed dropped =>
      constructor
      · intro none
        cases none
      · intro unremarkable
        exact absurd dropped (unremarkable _ parsed).1
  | unasked parsed admitted empty =>
      refine ⟨fun _ => (forall_parsed_iff parsed).mpr ⟨admitted, ?_⟩,
        fun _ => rfl⟩
      intro question more asked
      rw [empty] at asked
      cases asked
  | banned parsed _ asked quarantined =>
      constructor
      · intro none
        cases none
      · intro unremarkable
        rw [isQuarantined_of_ne foreign env fw] at quarantined
        exact absurd quarantined ((unremarkable _ parsed).2 _ _ asked).1
  | listed parsed _ asked _ onList =>
      exact
        decisionsOf_blocked_iff_unremarkable foreign (by decide) parsed asked
          (Or.inl onList)
  | generated parsed _ asked _ _ isDga =>
      exact
        decisionsOf_blocked_iff_unremarkable foreign (by decide) parsed asked
          (Or.inr (Or.inl isDga))
  | ruled passes action =>
      obtain ⟨more, asked⟩ := passes.asked
      exact
        decisionsOf_blocked_iff_unremarkable foreign (by decide)
          passes.parsed asked (Or.inr (Or.inr ⟨_, action⟩))
  | allowed passes action =>
      exact
        iff_of_true (decisionsOf_sendAnswer _ _ _ _ _ _ _ _)
          (unremarkable_of_passes foreign passes action)

theorem resolution_of_no_question
    {inbuf : Bytes}
    (noQuestion :
      ∀ query, dnsParseMessage inbuf = .ok query → query.questions = [])
    (env : Env) (cfg : Config F) (fw : Firewall)
    (client : Option SockAddrIn) :
    (processDnsQuery env cfg fw inbuf client).resolution = none := by
  have branch := branch_processDnsQuery env cfg fw inbuf client
  generalize processDnsQuery env cfg fw inbuf client = result at branch
  have absent :
      ∀ {query : DnsMessage} {question : DnsQuestion}
        {more : List DnsQuestion},
        dnsParseMessage inbuf = .ok query →
          query.questions = question :: more → False := by
    intro query question more parsed asked
    rw [noQuestion query parsed] at asked
    cases asked
  cases branch with
  | unparsed _ => rfl
  | limited _ _ => rfl
  | unasked _ _ _ => rfl
  | banned _ _ _ _ => rfl
  | listed _ _ _ _ _ => rfl
  | generated _ _ _ _ _ _ => rfl
  | ruled passes _ =>
      obtain ⟨more, asked⟩ := passes.asked
      exact (absent passes.parsed asked).elim
  | allowed passes _ =>
      obtain ⟨more, asked⟩ := passes.asked
      exact (absent passes.parsed asked).elim

/-! ## The three transports compared -/

theorem overUdp_cases
    (env : Env) (cfg : Config F) (fw : Firewall) (packet : QueryPacket)
    (client : SockAddrIn) :
    (overUdp env cfg fw packet client = none ∧
        ∃ failure,
          dnsParseMessage (packet.bytes.take dnsMaxPacket) =
            .error failure) ∨
      overUdp env cfg fw packet client =
        some
          (processDnsQuery env cfg fw (packet.bytes.take dnsMaxPacket)
            (some client)) := by
  unfold overUdp receiveDatagram
  simp only
  by_cases short : (packet.bytes.take dnsMaxPacket).length < 12
  · rw [if_pos short]
    refine Or.inl ⟨rfl, .reject, ?_⟩
    rw [dnsParseMessage]
    rw [if_pos short]
  · rw [if_neg short]
    exact Or.inr rfl

/-- TCP hands the packet over without a client if it fits the buffer. -/
theorem overTcp_cases
    (env : Env) (cfg : Config F) (fw : Firewall) (packet : QueryPacket) :
    overTcp env cfg fw packet = none ∨
      (packet.bytes.length ≤ dnsMaxPacket ∧
        overTcp env cfg fw packet =
          some (processDnsQuery env cfg fw packet.bytes none)) := by
  have announced :
      packet.bytes.length.toUInt16.toNat = packet.bytes.length := by
    have fits := packet.fits
    exact toNat_toUInt16_of_le fits
  unfold overTcp tcpListener
  simp only [bytes16, List.cons_append, List.nil_append]
  rw [word16_bytes16, announced]
  by_cases long : dnsMaxPacket < packet.bytes.length
  · rw [if_pos long]
    exact Or.inl rfl
  · rw [if_neg long, List.take_length, if_pos rfl]
    exact Or.inr ⟨Nat.not_lt.mp long, rfl⟩

/-- DoH hands the packet over with its client if it fits the buffer. -/
theorem overDoh_cases
    (env : Env) (cfg : Config F) (fw : Firewall) (packet : QueryPacket)
    (client : SockAddrIn) :
    overDoh env cfg fw packet client = none ∨
      (packet.bytes.length ≤ dnsMaxPacket ∧
        overDoh env cfg fw packet client =
          some (processDnsQuery env cfg fw packet.bytes (some client))) := by
  rw [overDoh, handleConnection]
  split
  · rename_i fits
    exact Or.inr ⟨fits.2, rfl⟩
  · exact Or.inl rfl

theorem decided_overUdp_iff
    {client : SockAddrIn} (foreign : client.sAddr ≠ loopbackAddr)
    (env : Env) (cfg : Config F) (fw : Firewall) (packet : QueryPacket) :
    decided client (overUdp env cfg fw packet client) = noDecisions ↔
      Unremarkable env cfg fw (packet.bytes.take dnsMaxPacket) client := by
  rcases overUdp_cases env cfg fw packet client with
    ⟨nothing, failure, unparsed⟩ | handed
  · rw [nothing]
    exact ⟨fun _ => forall_parsed_of_error unparsed, fun _ => rfl⟩
  · rw [handed]
    exact decisionsOf_eq_none_iff_unremarkable foreign env cfg fw _

theorem decided_overTcp
    (env : Env) (cfg : Config F) (fw : Firewall) (packet : QueryPacket)
    (client : SockAddrIn) :
    decided client (overTcp env cfg fw packet) = noDecisions := by
  rcases overTcp_cases env cfg fw packet with nothing | ⟨_, handed⟩
  · rw [nothing]
    rfl
  · rw [handed]
    exact decisionsOf_anonymous env cfg fw _ client

theorem decided_overDoh
    {client : SockAddrIn} (foreign : client.sAddr ≠ loopbackAddr)
    {env : Env} {cfg : Config F} {fw : Firewall} {packet : QueryPacket}
    (unremarkable :
      Unremarkable env cfg fw (packet.bytes.take dnsMaxPacket) client) :
    decided client (overDoh env cfg fw packet client) = noDecisions := by
  rcases overDoh_cases env cfg fw packet client with
    nothing | ⟨fits, handed⟩
  · rw [nothing]
    rfl
  · rw [handed]
    rw [List.take_of_length_le fits] at unremarkable
    exact
      (decisionsOf_eq_none_iff_unremarkable foreign env cfg fw _).mpr
        unremarkable

/-- The exact condition under which the transports agree: nothing about the
client or its query calls for a decision over UDP. -/
theorem samePolicies_iff
    (env : Env) (cfg : Config F) (fw : Firewall) (packet : QueryPacket)
    (client : SockAddrIn) (foreign : client.sAddr ≠ loopbackAddr) :
    SamePolicies env cfg fw packet client ↔
      Unremarkable env cfg fw (packet.bytes.take dnsMaxPacket) client := by
  have udp := decided_overUdp_iff foreign env cfg fw packet
  have tcp := decided_overTcp env cfg fw packet client
  constructor
  · intro given
    obtain ⟨sameAsTcp, _, _⟩ := given
    exact udp.mp (sameAsTcp.trans tcp)
  · intro unremarkable
    have doh := decided_overDoh foreign unremarkable
    refine ⟨(udp.mpr unremarkable).trans tcp.symm,
      (udp.mpr unremarkable).trans doh.symm, fun quarantined => ?_⟩
    -- in quarantine only a query without questions is unremarkable
    have noQuestion :
        ∀ query,
          dnsParseMessage (packet.bytes.take dnsMaxPacket) = .ok query →
            query.questions = [] := by
      intro query parsed
      cases asked : query.questions with
      | nil => rfl
      | cons question more =>
          exact absurd quarantined
            ((unremarkable query parsed).2 question more asked).1
    have unresolved :
        ∀ (peer : Option SockAddrIn) (result : Option CallResult),
          (result = none ∨
            result =
              some
                (processDnsQuery env cfg fw
                  (packet.bytes.take dnsMaxPacket) peer)) →
            Unresolved result := by
      intro peer result shape call isCall
      rcases shape with nothing | handed
      · rw [nothing] at isCall
        cases isCall
      · rw [handed] at isCall
        cases isCall
        exact resolution_of_no_question noQuestion env cfg fw peer
    refine ⟨unresolved (some client) _ ?_, unresolved none _ ?_,
      unresolved (some client) _ ?_⟩
    · rcases overUdp_cases env cfg fw packet client with
        ⟨nothing, _⟩ | handed
      · exact Or.inl nothing
      · exact Or.inr handed
    · rcases overTcp_cases env cfg fw packet with
        nothing | ⟨fits, handed⟩
      · exact Or.inl nothing
      · rw [List.take_of_length_le fits]
        exact Or.inr handed
    · rcases overDoh_cases env cfg fw packet client with
        nothing | ⟨fits, handed⟩
      · exact Or.inl nothing
      · rw [List.take_of_length_le fits]
        exact Or.inr handed

def packetA : QueryPacket := ⟨queryA, by decide⟩

theorem samePolicies_first_query :
    SamePolicies envOffline configDefault (firewallStart 0) packetA
      visitor := by
  refine
    (samePolicies_iff envOffline configDefault (firewallStart 0) packetA
      visitor (by decide)).mpr ?_
  have quiet :
      decisionsOf visitor
        (processDnsQuery envOffline configDefault (firewallStart 0)
          (packetA.bytes.take dnsMaxPacket) (some visitor)).effects =
        noDecisions := by
    decide +kernel
  exact
    (decisionsOf_eq_none_iff_unremarkable (by decide) envOffline
      configDefault (firewallStart 0) _).mp quiet

/-- The transports would treat every client alike, in every state that a run
of queries over UDP reaches. -/
def TransportsAgree : Prop :=
  ∀ (F : Type) (env : Env) (cfg : Config F) (start : Int)
    (earlier : List UdpJob) (packet : QueryPacket) (client : SockAddrIn),
    client.sAddr ≠ loopbackAddr →
      SamePolicies env cfg
        (Runs.run (fun fw job => (workerThread env cfg fw job).state)
          (firewallStart start) earlier)
        packet client

/-- The default configuration with `a.` on the blacklist. -/
def configListingA : Config Rat :=
  { configDefault with
    policy := { configDefault.policy with blacklistLines := [[97, 46]] } }

/-- After five blocked queries the client is in quarantine, but not over
TCP. -/
theorem not_transportsAgree : ¬ TransportsAgree := by
  intro agree
  obtain ⟨sameAsTcp, _⟩ :=
    agree Rat envOffline configListingA 0
      (List.replicate 5 ⟨queryA, visitor⟩) packetA visitor (by decide)
  have udp :
      decided visitor
        (overUdp envOffline configListingA
          (Runs.run
            (fun fw job =>
              (workerThread envOffline configListingA fw job).state)
            (firewallStart 0) (List.replicate 5 ⟨queryA, visitor⟩))
          packetA visitor) =
        ⟨false, true, false⟩ := by
    decide +kernel
  have tcp :
      decided visitor
        (overTcp envOffline configListingA
          (Runs.run
            (fun fw job =>
              (workerThread envOffline configListingA fw job).state)
            (firewallStart 0) (List.replicate 5 ⟨queryA, visitor⟩))
          packetA) =
        noDecisions := by
    decide +kernel
  rw [udp, tcp] at sameAsTcp
  exact absurd sameAsTcp (by decide)

end DnsFirewall
