import DnsFirewall.Processor.Model

/-!
# The branches of a call

`Branch` lists the ways through `process_dns_query` once, each with its
conditions and its result.
-/

namespace DnsFirewall

open CString

variable {F : Type}

def admittedState (env : Env) (fw : Firewall)
    (client : Option SockAddrIn) : Firewall :=
  (rateLimit env fw client).2

/-- The rate limiter drops the packet of the client. -/
def RateLimited (env : Env) (fw : Firewall)
    (client : Option SockAddrIn) : Prop :=
  (rateLimit env fw client).1 = true

/-- The call of the resolver for a query that has passed every check. -/
def resolution (env : Env) (cfg : Config F) (fw : Firewall)
    (query : DnsMessage) : Outcome × World :=
  resolverResolve env cfg.resolver query ⟨fw.cache, fw.pool, 2, []⟩

def resolvedState (env : Env) (cfg : Config F) (fw : Firewall)
    (query : DnsMessage) : Firewall :=
  { fw with
    cache := (resolution env cfg fw query).2.cache
    pool := (resolution env cfg fw query).2.pool }

def checkedTick (env : Env) (cfg : Config F) (fw : Firewall)
    (query : DnsMessage) : Nat :=
  (resolution env cfg fw query).2.ticks +
    postCheckTicks (resolution env cfg fw query).1

def checkedAction (env : Env) (cfg : Config F) (fw : Firewall)
    (query : DnsMessage) : Option (Bool × List FluxEntry) :=
  postCheck env cfg query (resolution env cfg fw query).1
    (resolution env cfg fw query).2.ticks fw.flux

/-- A block of a query whose first question is there. -/
def blockedCall (env : Env) (tick : Nat) (site : Site) (fw : Firewall)
    (client : Option SockAddrIn) (query : DnsMessage)
    (question : DnsQuestion) (resolution : Option (Outcome × Bool))
    (log : List Event) : CallResult :=
  ⟨.returned,
    .respond site (sinkholePacket query question) ::
      blockReports fw client question.qname,
    resolution, log, reportBlock env tick fw client question.qname⟩

theorem sinkholeResponse_of_question
    {query : DnsMessage} {question : DnsQuestion}
    {more : List DnsQuestion} (asked : query.questions = question :: more) :
    sinkholeResponse query = some (sinkholePacket query question) := by
  rw [sinkholeResponse]
  rw [asked]
  rfl

theorem blockQuery_of_question
    {query : DnsMessage} {question : DnsQuestion}
    {more : List DnsQuestion} (asked : query.questions = question :: more)
    (env : Env) (tick : Nat) (site : Site) (fw : Firewall)
    (client : Option SockAddrIn) (resolution : Option (Outcome × Bool))
    (log : List Event) :
    blockQuery env tick site fw client query question.qname resolution
        log =
      blockedCall env tick site fw client query question resolution
        log := by
  rw [blockQuery, blockedCall]
  rw [sinkholeResponse_of_question asked]

/-- A packet has one message and one first question. -/
theorem same_question
    {inbuf : Bytes} {query other : DnsMessage}
    {question otherQuestion : DnsQuestion} {more rest : List DnsQuestion}
    (parsed : dnsParseMessage inbuf = .ok query)
    (asked : query.questions = question :: more)
    (alsoParsed : dnsParseMessage inbuf = .ok other)
    (alsoAsked : other.questions = otherQuestion :: rest) :
    other = query ∧ otherQuestion = question ∧ rest = more := by
  rw [parsed] at alsoParsed
  cases alsoParsed
  rw [asked] at alsoAsked
  cases alsoAsked
  exact ⟨rfl, rfl, rfl⟩

/-- The call passes every check made before resolution. -/
structure Passes (env : Env) (cfg : Config F) (fw : Firewall)
    (inbuf : Bytes) (client : Option SockAddrIn) (query : DnsMessage)
    (question : DnsQuestion) : Prop where
  parsed : dnsParseMessage inbuf = .ok query
  admitted : ¬ RateLimited env fw client
  free : ¬ isQuarantined env (admittedState env fw client) client = true
  asked : ∃ more, query.questions = question :: more
  notListed :
    ¬ policyCheckBlocklist cfg.policy.blacklist question.qname = true
  notDga : ¬ policyCheckPreresolve cfg.policy question.qname = true

/-- The ways through `process_dns_query`. -/
inductive Branch (env : Env) (cfg : Config F) (fw : Firewall)
    (inbuf : Bytes) (client : Option SockAddrIn) : CallResult → Prop where
  | unparsed {failure}
      (parsed : dnsParseMessage inbuf = .error failure) :
      Branch env cfg fw inbuf client
        ⟨if inbuf.length < 12 then .freesUnset else .returned,
          [.respond .parseError (errorResponse 0)], none, [], fw⟩
  | limited {query}
      (parsed : dnsParseMessage inbuf = .ok query)
      (dropped : RateLimited env fw client) :
      Branch env cfg fw inbuf client
        ⟨.returned, [.dropped], none, [], admittedState env fw client⟩
  | unasked {query}
      (parsed : dnsParseMessage inbuf = .ok query)
      (admitted : ¬ RateLimited env fw client)
      (empty : query.questions = []) :
      Branch env cfg fw inbuf client
        ⟨.missingQuestion, [], none, [], admittedState env fw client⟩
  | banned {query question more}
      (parsed : dnsParseMessage inbuf = .ok query)
      (admitted : ¬ RateLimited env fw client)
      (asked : query.questions = question :: more)
      (quarantined :
        isQuarantined env (admittedState env fw client) client = true) :
      Branch env cfg fw inbuf client
        ⟨.returned, [.respond .quarantine (sinkholePacket query question)],
          none, [], admittedState env fw client⟩
  | listed {query question more}
      (parsed : dnsParseMessage inbuf = .ok query)
      (admitted : ¬ RateLimited env fw client)
      (asked : query.questions = question :: more)
      (free :
        ¬ isQuarantined env (admittedState env fw client) client = true)
      (onList :
        policyCheckBlocklist cfg.policy.blacklist question.qname = true) :
      Branch env cfg fw inbuf client
        (blockedCall env 2 .blacklist (admittedState env fw client) client
          query question none [])
  | generated {query question more}
      (parsed : dnsParseMessage inbuf = .ok query)
      (admitted : ¬ RateLimited env fw client)
      (asked : query.questions = question :: more)
      (free :
        ¬ isQuarantined env (admittedState env fw client) client = true)
      (notListed :
        ¬ policyCheckBlocklist cfg.policy.blacklist question.qname = true)
      (isDga : policyCheckPreresolve cfg.policy question.qname = true) :
      Branch env cfg fw inbuf client
        (blockedCall env 2 .dga (admittedState env fw client) client query
          question none [])
  | ruled {query question flux}
      (passes : Passes env cfg fw inbuf client query question)
      (action :
        checkedAction env cfg (admittedState env fw client) query =
          some (true, flux)) :
      Branch env cfg fw inbuf client
        (blockedCall env
          (checkedTick env cfg (admittedState env fw client) query)
          .dynamicRule
          { resolvedState env cfg (admittedState env fw client) query with
            flux }
          client query question
          (some
            ((resolution env cfg (admittedState env fw client) query).1,
              false))
          (resolution env cfg (admittedState env fw client) query).2.log)
  | allowed {query question flux}
      (passes : Passes env cfg fw inbuf client query question)
      (action :
        checkedAction env cfg (admittedState env fw client) query =
          some (false, flux)) :
      Branch env cfg fw inbuf client
        (sendAnswer env
          (checkedTick env cfg (admittedState env fw client) query)
          { resolvedState env cfg (admittedState env fw client) query with
            flux }
          query.header.id question
          (resolution env cfg (admittedState env fw client) query).1
          (resolution env cfg (admittedState env fw client) query).2.log)

theorem exists_checkedAction
    (env : Env) (cfg : Config F) (fw : Firewall) {query : DnsMessage}
    {question : DnsQuestion} {more : List DnsQuestion}
    (asked : query.questions = question :: more) :
    ∃ action flux,
      checkedAction env cfg fw query = some (action, flux) := by
  unfold checkedAction postCheck
  split
  · split
    · exact ⟨false, _, rfl⟩
    · have first : query.questions.head? = some question := by
        rw [asked]
        rfl
      exact exists_policyCheckPostResolve cfg.policy first _ _ _ _
  · exact ⟨false, _, rfl⟩

theorem resolveQuery_of_block
    {env : Env} {cfg : Config F} {fw : Firewall} {query : DnsMessage}
    {question : DnsQuestion} {more : List DnsQuestion}
    {flux : List FluxEntry}
    (asked : query.questions = question :: more)
    (action : checkedAction env cfg fw query = some (true, flux))
    (client : Option SockAddrIn) :
    resolveQuery env cfg fw client query question =
      blockedCall env (checkedTick env cfg fw query) .dynamicRule
        { resolvedState env cfg fw query with flux } client query question
        (some ((resolution env cfg fw query).1, false))
        (resolution env cfg fw query).2.log := by
  unfold checkedAction resolution at action
  rw [resolveQuery]
  simp only [action]
  rw [blockQuery_of_question asked]
  rfl

theorem resolveQuery_of_allow
    {env : Env} {cfg : Config F} {fw : Firewall} {query : DnsMessage}
    {flux : List FluxEntry}
    (action : checkedAction env cfg fw query = some (false, flux))
    (client : Option SockAddrIn) (question : DnsQuestion) :
    resolveQuery env cfg fw client query question =
      sendAnswer env (checkedTick env cfg fw query)
        { resolvedState env cfg fw query with flux } query.header.id
        question (resolution env cfg fw query).1
        (resolution env cfg fw query).2.log := by
  unfold checkedAction resolution at action
  rw [resolveQuery]
  simp only [action]
  rfl

theorem branch_processDnsQuery
    (env : Env) (cfg : Config F) (fw : Firewall) (inbuf : Bytes)
    (client : Option SockAddrIn) :
    Branch env cfg fw inbuf client
      (processDnsQuery env cfg fw inbuf client) := by
  rw [processDnsQuery]
  cases parsed : dnsParseMessage inbuf with
  | error failure => exact .unparsed parsed
  | ok query =>
      simp only
      cases limit : rateLimit env fw client with
      | mk dropped after =>
          have isAfter : admittedState env fw client = after := by
            rw [admittedState]
            rw [limit]
          cases dropped with
          | true =>
              simp only
              rw [← isAfter]
              exact .limited parsed (by unfold RateLimited; rw [limit])
          | false =>
              have admitted : ¬ RateLimited env fw client := by
                rw [RateLimited]
                rw [limit]
                exact Bool.false_ne_true
              simp only
              rw [← isAfter]
              cases asked : query.questions with
              | nil =>
                  have noPacket : sinkholeResponse query = none := by
                    rw [sinkholeResponse]
                    rw [asked]
                    rfl
                  simp only [noPacket, ite_self]
                  exact .unasked parsed admitted asked
              | cons question more =>
                  simp only [sinkholeResponse_of_question asked,
                    blockQuery_of_question asked]
                  split
                  · rename_i quarantined
                    exact .banned parsed admitted asked quarantined
                  · rename_i free
                    split
                    · rename_i onList
                      exact .listed parsed admitted asked free onList
                    · rename_i notListed
                      split
                      · rename_i isDga
                        exact .generated parsed admitted asked free
                          notListed isDga
                      · rename_i notDga
                        have passes :
                            Passes env cfg fw inbuf client query
                              question :=
                          ⟨parsed, admitted, free, ⟨more, asked⟩,
                            notListed, notDga⟩
                        obtain ⟨action, flux, checked⟩ :=
                          exists_checkedAction env cfg
                            (admittedState env fw client) asked
                        cases action with
                        | true =>
                            rw [resolveQuery_of_block asked checked]
                            exact .ruled passes checked
                        | false =>
                            rw [resolveQuery_of_allow checked]
                            exact .allowed passes checked

end DnsFirewall
