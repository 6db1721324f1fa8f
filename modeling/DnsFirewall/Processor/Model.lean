import DnsFirewall.Clients.Quarantine
import DnsFirewall.Clients.RateLimit
import DnsFirewall.Clients.Reputation
import DnsFirewall.Policy.Checks
import DnsFirewall.Resolver.Model

/-!
# Processing a query

`process_dns_query`.  A call returns what it did, in order: the packets it
handed to the response callback, each with the place in the source it comes
from, and what it told the other components.  Reading `questions[0]` of a
message without questions ends the call.  The validation of DNSSEC only prints
and is left out.
-/

namespace DnsFirewall

open CString BigEndian

def rlTableSize : Nat := 256

instance : NeZero rlTableSize :=
  ⟨by decide⟩

/-- What the firewall keeps between two queries; the limiter and the
reputation tracker may be missing. -/
structure Firewall where
  cache : Cache cacheDefaultSize
  pool : TcpPool
  flux : List FluxEntry
  limiter : Option (RateLimiter rlTableSize)
  defense : ActiveDefense
  reputation : Option Reputation

/-- What `main` sets up before the first query. -/
def firewallStart (now : Int) : Firewall where
  cache := cacheCreate cacheDefaultSize
  pool := tcpPoolStart
  flux := []
  limiter := some (rlCreate rlTableSize 20)
  defense := adInit
  reputation := some (repInit now)

structure Config (F : Type) where
  policy : PolicyCtx F
  resolver : ResolverConfig

/-- The places from which `process_dns_query` calls the response callback. -/
inductive Site where
  | parseError
  | quarantine
  | blacklist
  | dga
  | dynamicRule
  | delivery
  | cacheMiss
  | resolverFailure
deriving DecidableEq, Repr

inductive Effect where
  | dropped
  | respond (site : Site) (data : Bytes)
  | reportBlock (ip : UInt32)
  | recordBlock (domain : Bytes)
deriving DecidableEq, Repr

/-- How a call ends: it returns, it has read a question that is not there, it
has freed the pointers of a message that `dns_parse_message` had not cleared,
or the resolver never returns. -/
inductive Ending where
  | returned
  | missingQuestion
  | freesUnset
  | hung
deriving DecidableEq, Repr

/-- A call of `process_dns_query`.  `resolution` is what `resolver_resolve`
returned, if it was called, with whether the policy check behind it let the
answer pass. -/
structure CallResult where
  ending : Ending
  effects : List Effect
  resolution : Option (Outcome × Bool)
  log : List Event
  state : Firewall

/-- `htons` on a little-endian machine. -/
def htons (value : UInt16) : UInt16 :=
  (value >>> 8) ||| (value <<< 8)

/-! ## Packets built locally -/

/-- The packet of the three failure branches. -/
def errorResponse (id : UInt16) : Bytes :=
  let b := dnsBuilderInit (List.replicate 12 0)
  let (_, b) :=
    dnsBuildResponseHeader b id
      (htons (dnsQrResponse ||| dnsRcodeServfail)) 0 0 0 0
  b.written

/-- The packet of the four sinkhole branches, for a query with the given first
question.  The results of the builder calls are ignored there. -/
def sinkholePacket (query : DnsMessage) (first : DnsQuestion) : Bytes :=
  let b := dnsBuilderInit (List.replicate 512 0)
  let (_, b) :=
    dnsBuildResponseHeader b query.header.id
      (htons (dnsQrResponse ||| dnsRcodeNoerror))
      query.questions.length.toUInt16 1 0 0
  let b :=
    query.questions.foldl
      (fun b question =>
        (dnsBuildQuestion b question.qname question.qtype
          question.qclass).2)
      b
  let (_, b) :=
    dnsBuildRr b first.qname dnsTypeA dnsClassIn 300 [0, 0, 0, 0] 4
  b.written

/-- The sinkhole packet, unless the read of `questions[0]` fails. -/
def sinkholeResponse (query : DnsMessage) : Option Bytes :=
  query.questions.head?.map (sinkholePacket query)

/-! ## The client -/

/-- `htonl(INADDR_LOOPBACK)`. -/
def loopbackAddr : UInt32 := 16777343

/-- The address of the client when `client && !is_localhost`. -/
def checkedClient (client : Option SockAddrIn) : Option UInt32 :=
  match client with
  | none => none
  | some c => if c.sAddr = loopbackAddr then none else some c.sAddr

/-- The rate limit check: whether the packet is dropped. -/
def rateLimit (env : Env) (fw : Firewall) (client : Option SockAddrIn) :
    Bool × Firewall :=
  match checkedClient client, fw.limiter with
  | some ip, some limiter =>
      let (admitted, limiter) := rlCheck limiter ip (env.time 0)
      (!admitted, { fw with limiter := some limiter })
  | _, _ => (false, fw)

def isQuarantined (env : Env) (fw : Firewall)
    (client : Option SockAddrIn) : Bool :=
  match checkedClient client with
  | none => false
  | some ip => adIsQuarantined fw.defense ip (env.time 1)

/-- What a block branch tells the other components behind the callback. -/
def blockReports (fw : Firewall) (client : Option SockAddrIn)
    (qname : Bytes) : List Effect :=
  (match checkedClient client with
    | none => []
    | some ip => [.reportBlock ip]) ++
  (match fw.reputation with
    | none => []
    | some _ => [.recordBlock qname])

def reportBlock (env : Env) (tick : Nat) (fw : Firewall)
    (client : Option SockAddrIn) (qname : Bytes) : Firewall :=
  { fw with
    defense :=
      match checkedClient client with
      | none => fw.defense
      | some ip => adReportBlock fw.defense ip (env.time tick)
    reputation :=
      fw.reputation.map fun tracker =>
        repRecordBlock tracker qname (env.time (tick + 1)) }

/-- A block branch: the sinkhole packet and what is told about the block. -/
def blockQuery (env : Env) (tick : Nat) (site : Site) (fw : Firewall)
    (client : Option SockAddrIn) (query : DnsMessage) (qname : Bytes)
    (resolution : Option (Outcome × Bool)) (log : List Event) :
    CallResult :=
  match sinkholeResponse query with
  | none => ⟨.missingQuestion, [], resolution, log, fw⟩
  | some buf =>
      ⟨.returned, .respond site buf :: blockReports fw client qname,
        resolution, log, reportBlock env tick fw client qname⟩

/-! ## Delivery -/

/-- `raw[0]` and `raw[1]` set to the bytes of the ID. -/
def patchId (id : UInt16) (raw : Bytes) : Bytes :=
  if 2 ≤ raw.length then bytes16 id ++ raw.drop 2 else raw

/-- The cache after its data under the key has been changed in place. -/
def setCachedData (c : Cache cacheDefaultSize) (key data : Bytes) :
    Cache cacheDefaultSize :=
  match c.find key with
  | none => c
  | some pass =>
      match c.entries (c.slotOf key pass) with
      | none => c
      | some entry =>
          { c with
            entries :=
              Function.update c.entries (c.slotOf key pass)
                (some { entry with data }) }

/-- The delivery of the raw cached packet: the packet for the callback with
its site, and the cache. -/
def deliver (c : Cache cacheDefaultSize) (question : DnsQuestion)
    (id : UInt16) (now : Int) : Effect × Cache cacheDefaultSize :=
  match cacheLookup c question.qname question.qtype question.qclass now with
  | (none, c) => (.respond .cacheMiss (errorResponse id), c)
  | (some raw, c) =>
      let raw := patchId id raw
      (.respond .delivery raw,
        setCachedData c
          (buildKey question.qname question.qtype question.qclass) raw)

/-! ## The call -/

/-- The bytes that the RDATA pointers of an answer reach: the cached packet,
or what is left of the frame that held the reply. -/
def answerMemory (env : Env) (a : Answer) : Bytes :=
  match a.source with
  | .cached => a.raw
  | .received _ => env.deadFrame

/-- The policy check behind the resolver: whether the action is to block, and
the flux table. -/
def postCheck {F : Type} (env : Env) (cfg : Config F) (query : DnsMessage)
    (outcome : Outcome) (tick : Nat) (flux : List FluxEntry) :
    Option (Bool × List FluxEntry) :=
  match outcome with
  | .answer a =>
      if a.message.answers = [] then
        some (false, flux)
      else
        policyCheckPostResolve cfg.policy query a.message
          (answerMemory env a) (fun i => env.time (tick + i)) flux
  | _ => some (false, flux)

def postCheckTicks (outcome : Outcome) : Nat :=
  match outcome with
  | .answer a => a.message.answers.length
  | _ => 0

/-- The part of the call behind the policy check that allows the answer. -/
def sendAnswer (env : Env) (tick : Nat) (fw : Firewall)
    (id : UInt16) (question : DnsQuestion) (outcome : Outcome)
    (log : List Event) : CallResult :=
  match outcome with
  | .answer _ | .nxDomain _ =>
      let (response, cache) := deliver fw.cache question id (env.time tick)
      ⟨.returned, [response], some (outcome, true), log,
        { fw with cache }⟩
  | .failed | .tooDeep =>
      ⟨.returned, [.respond .resolverFailure (errorResponse id)],
        some (outcome, true), log, fw⟩
  | .hung => ⟨.hung, [], some (outcome, true), log, fw⟩

/-- The part of the call behind the checks made before resolution. -/
def resolveQuery {F : Type} (env : Env) (cfg : Config F) (fw : Firewall)
    (client : Option SockAddrIn) (query : DnsMessage)
    (question : DnsQuestion) : CallResult :=
  let (outcome, w) :=
    resolverResolve env cfg.resolver query ⟨fw.cache, fw.pool, 2, []⟩
  let fw := { fw with cache := w.cache, pool := w.pool }
  let tick := w.ticks + postCheckTicks outcome
  match postCheck env cfg query outcome w.ticks fw.flux with
  | none => ⟨.missingQuestion, [], some (outcome, true), w.log, fw⟩
  | some (true, flux) =>
      blockQuery env tick .dynamicRule { fw with flux } client query
        question.qname (some (outcome, false)) w.log
  | some (false, flux) =>
      sendAnswer env tick { fw with flux } query.header.id question
        outcome w.log

def processDnsQuery {F : Type} (env : Env) (cfg : Config F)
    (fw : Firewall) (inbuf : Bytes) (client : Option SockAddrIn) :
    CallResult :=
  match dnsParseMessage inbuf with
  | .error _ =>
      ⟨if inbuf.length < 12 then .freesUnset else .returned,
        [.respond .parseError (errorResponse 0)], none, [], fw⟩
  | .ok query =>
      match rateLimit env fw client with
      | (true, fw) => ⟨.returned, [.dropped], none, [], fw⟩
      | (false, fw) =>
          if isQuarantined env fw client = true then
            match sinkholeResponse query with
            | none => ⟨.missingQuestion, [], none, [], fw⟩
            | some buf =>
                ⟨.returned, [.respond .quarantine buf], none, [], fw⟩
          else
            match query.questions with
            | [] => ⟨.missingQuestion, [], none, [], fw⟩
            | question :: _ =>
                if policyCheckBlocklist cfg.policy.blacklist
                    question.qname = true then
                  blockQuery env 2 .blacklist fw client query
                    question.qname none []
                else if policyCheckPreresolve cfg.policy
                    question.qname = true then
                  blockQuery env 2 .dga fw client query question.qname
                    none []
                else
                  resolveQuery env cfg fw client query question

end DnsFirewall
