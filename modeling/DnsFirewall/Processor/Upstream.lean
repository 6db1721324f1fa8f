import DnsFirewall.Processor.Replies
import DnsFirewall.Resolver.Upstream

/-!
# The blacklist and the queries sent upstream

The blacklist is checked against the name of the client only.  So a listed
name goes upstream only where the resolver has read it out of a CNAME record
of a reply it received in the same call, or where the packet does not spell
the name of the client as it was read.
-/

namespace DnsFirewall

open CString Runs

variable {F : Type}

/-- A query handed to `process_dns_query`, with the environment it meets. -/
structure QueryCall where
  env : Env
  inbuf : Bytes
  client : Option SockAddrIn

def QueryCall.result (cfg : Config F) (fw : Firewall) (call : QueryCall) :
    CallResult :=
  processDnsQuery call.env cfg fw call.inbuf call.client

def queryCall (cfg : Config F) (fw : Firewall) (call : QueryCall) :
    Firewall :=
  (call.result cfg fw).state

/-- The packet is built for the name of the client, which the builder does not
write as it was read: its text has a NUL, an empty label or too many labels. -/
def AsksRewritten (inbuf : Bytes) (x : Exchange) : Prop :=
  ∃ query question more asked,
    dnsParseMessage inbuf = .ok query ∧
      query.questions = question :: more ∧ ¬ Rebuildable question.qname ∧
        asked.qname = (resolverQuestion question).qname ∧
          x.query = queryPacket x.id asked

/-- The packet asks for an alias that is in the log. -/
def AsksAlias (log : List Event) (x : Exchange) : Prop :=
  ∃ asked, AliasSeen log asked.qname ∧ x.query = queryPacket x.id asked

/-- Every packet that asks for a listed name asks for an alias seen before it,
or for a name of the client that it does not spell as the client did. -/
def ListedOnlyAsAlias (lines : List Bytes) (inbuf : Bytes) :
    List Event → Prop
  | [] => True
  | .exchange x :: earlier =>
      (∀ name, AsksName x.query name → Listed lines name →
          AsksAlias earlier x ∨ AsksRewritten inbuf x) ∧
        ListedOnlyAsAlias lines inbuf earlier
  | .believed _ _ _ :: earlier => ListedOnlyAsAlias lines inbuf earlier

def ListedNeverAsked (lines : List Bytes) (log : List Event) : Prop :=
  ∀ x name, .exchange x ∈ log → AsksName x.query name →
    ¬ Listed lines name

/-! ## One call -/

theorem content_resolverQuestion_of_rebuildable
    {question : DnsQuestion} (parsed : ParsedName question.qname)
    (rebuildable : Rebuildable question.qname) :
    (resolverQuestion question).qname = question.qname ∧
      content question.qname = question.qname := by
  have whole := content_eq_self rebuildable.noNul
  have short : question.qname.length < dnsMaxNameLen + 1 :=
    Nat.lt_succ_of_lt parsed.short
  refine ⟨?_, whole⟩
  rw [resolverQuestion, whole]
  exact boundedCopy_eq_self short

theorem listedOnlyAsAlias_of_namesExplained
    {lines : List Bytes} {inbuf : Bytes} {query : DnsMessage}
    {question : DnsQuestion} {more : List DnsQuestion}
    (parsed : dnsParseMessage inbuf = .ok query)
    (asked : query.questions = question :: more)
    (notListed : ¬ Listed lines question.qname) :
    ∀ log : List Event,
      NamesExplained (resolverQuestion question).qname log →
        ListedOnlyAsAlias lines inbuf log
  | [], _ => trivial
  | .exchange x :: earlier, explained => by
      refine ⟨?_,
        listedOnlyAsAlias_of_namesExplained parsed asked notListed earlier
          explained.2⟩
      intro name asks listed
      obtain ⟨other, packet, isName | seen⟩ := explained.1
      · by_cases rebuildable : Rebuildable question.qname
        · -- what is written is the name that the blacklist was asked about
          have member : question ∈ query.questions := by
            rw [asked]
            exact List.mem_cons_self
          have isParsed := parsedName_of_dnsParseMessage parsed member
          obtain ⟨legal, text⟩ := exists_legalName isParsed rebuildable
          obtain ⟨copied, whole⟩ :=
            content_resolverQuestion_of_rebuildable isParsed rebuildable
          have isLegal : content other.qname = legal.text := by
            rw [isName, copied, whole, text]
          rw [packet] at asks
          rw [asksName_queryPacket isLegal asks, text] at listed
          exact absurd listed notListed
        · exact
            Or.inr
              ⟨query, question, more, other, parsed, asked, rebuildable,
                isName, packet⟩
      · exact Or.inl ⟨other, seen, packet⟩
  | .believed _ _ _ :: earlier, explained =>
      listedOnlyAsAlias_of_namesExplained parsed asked notListed earlier
        explained

theorem listedOnlyAsAlias_resolution
    {env : Env} {cfg : Config F} {fw : Firewall} {inbuf : Bytes}
    {query : DnsMessage} {question : DnsQuestion} {more : List DnsQuestion}
    (parsed : dnsParseMessage inbuf = .ok query)
    (asked : query.questions = question :: more)
    (notListed : ¬ Listed cfg.policy.blacklistLines question.qname) :
    ListedOnlyAsAlias cfg.policy.blacklistLines inbuf
      (resolution env cfg fw query).2.log := by
  apply listedOnlyAsAlias_of_namesExplained parsed asked notListed
  rw [resolution, resolverResolve]
  rw [asked]
  exact
    (resolves_resolveInternal env cfg.resolver (maxRecursionDepth + 1)
      (resolverQuestion question) cfg.resolver.rootHints
      _).namesExplained (Or.inl rfl) trivial

theorem log_sendAnswer
    (env : Env) (tick : Nat) (fw : Firewall) (id : UInt16)
    (question : DnsQuestion) (outcome : Outcome) (log : List Event) :
    (sendAnswer env tick fw id question outcome log).log = log := by
  cases outcome with
  | answer a => rfl
  | nxDomain a => rfl
  | failed => rfl
  | tooDeep => rfl
  | hung => rfl

theorem listedOnlyAsAlias_processDnsQuery
    (env : Env) (cfg : Config F) (fw : Firewall) (inbuf : Bytes)
    (client : Option SockAddrIn) :
    ListedOnlyAsAlias cfg.policy.blacklistLines inbuf
      (processDnsQuery env cfg fw inbuf client).log := by
  have branch := branch_processDnsQuery env cfg fw inbuf client
  generalize processDnsQuery env cfg fw inbuf client = result at branch
  have resolved :
      ∀ {query : DnsMessage} {question : DnsQuestion},
        Passes env cfg fw inbuf client query question →
          ListedOnlyAsAlias cfg.policy.blacklistLines inbuf
            (resolution env cfg (admittedState env fw client)
              query).2.log := by
    intro query question passes
    obtain ⟨more, asked⟩ := passes.asked
    refine listedOnlyAsAlias_resolution passes.parsed asked ?_
    intro listed
    exact passes.notListed
      ((policyCheckBlocklist_load_iff _ _).mpr listed)
  cases branch with
  | unparsed _ => exact trivial
  | limited _ _ => exact trivial
  | unasked _ _ _ => exact trivial
  | banned _ _ _ _ => exact trivial
  | listed _ _ _ _ _ => exact trivial
  | generated _ _ _ _ _ _ => exact trivial
  | ruled passes _ => exact resolved passes
  | allowed passes _ =>
      rw [log_sendAnswer]
      exact resolved passes

/-! ## Runs -/

/-- In every call of every run, a packet for a listed name is sent only for an
alias that an upstream reply received in that call has named before, or for a
name of the client that is not written as it was read. -/
theorem listedOnlyAsAlias_along
    (cfg : Config F) (start : Firewall) (calls : List QueryCall) :
    Along (queryCall cfg)
      (fun fw call =>
        ListedOnlyAsAlias cfg.policy.blacklistLines call.inbuf
          (call.result cfg fw).log)
      start calls := by
  intro before call after _
  exact listedOnlyAsAlias_processDnsQuery call.env cfg _ call.inbuf
    call.client

/-! ## A listed name that goes upstream -/

/-- No listed name would go upstream in any run. -/
def BlacklistHolds : Prop :=
  ∀ (F : Type) (cfg : Config F) (start : Firewall)
    (calls : List QueryCall),
    Along (queryCall cfg)
      (fun fw call =>
        ListedNeverAsked cfg.policy.blacklistLines
          (call.result cfg fw).log)
      start calls

def aliasPacket : Bytes :=
  [0, 0, 128, 0, 0, 0, 0, 1, 0, 0, 0, 0,
    0, 0, 5, 0, 1, 0, 0, 0, 60, 0, 3, 1, 98, 0]

/-- The default configuration with `b.` on the blacklist. -/
def configListingB : Config Rat :=
  { configDefault with
    policy := { configDefault.policy with blacklistLines := [[98, 46]] } }

/-- A client asks for `a.`, and every server answers with an alias. -/
def aliasCall : QueryCall :=
  ⟨envAnswering aliasPacket, queryA, some visitor⟩

theorem not_blacklistHolds : ¬ BlacklistHolds := by
  intro holds
  have neverAsked :=
    holds Rat configListingB (firewallStart 0) [aliasCall] [] aliasCall []
      rfl
  have asked :
      .exchange
          (exchangeOf ⟨1, 53⟩ ⟨[98, 46], dnsTypeA, dnsClassIn⟩ 0
            (some aliasPacket)) ∈
        (aliasCall.result configListingB (firewallStart 0)).log := by
    decide +kernel
  have read :
      readName (queryPacket 0 ⟨[98, 46], dnsTypeA, dnsClassIn⟩)
          dnsMaxNameLen 12 =
        .ok ([98, 46], 15) := by
    decide +kernel
  obtain ⟨labels, decodes, text, _⟩ := decodes_of_readName read
  have asks :
      AsksName (queryPacket 0 ⟨[98, 46], dnsTypeA, dnsClassIn⟩) [98, 46] :=
    ⟨labels, decodes, text⟩
  refine neverAsked _ [98, 46] asked ?_ ⟨[98, 46], List.mem_cons_self, rfl⟩
  rw [query_exchangeOf]
  exact asks

end DnsFirewall
