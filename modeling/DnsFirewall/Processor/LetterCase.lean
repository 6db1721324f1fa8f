import DnsFirewall.Processor.Respelling

/-!
# Queries for two spellings of a name

Two calls of `process_dns_query` in one state, for queries that differ in the
case of letters of the name, with datagrams from upstream that differ in the
spelling of names only.  The checks made before resolution and the tunnelling
score fold case.  The key of the cache, the search for glue and the entries of
the fast-flux tracker do not.  So the two calls are treated alike exactly when
the cache holds the same for both keys and, as far as it comes to that, the
spellings in the two replies flood the tracker alike, or, where lookups or
glue have told the resolutions apart, what they bring back is blocked alike.
-/

namespace DnsFirewall

open CString Runs

variable {F : Type}

/-- What is decided about a query. -/
inductive QueryVerdict where
  | dropped
  | quarantined
  | listed
  | generated
  | ruled
  | passed
deriving DecidableEq, Repr

def verdictOf : List Effect → QueryVerdict
  | .dropped :: _ => .dropped
  | .respond .quarantine _ :: _ => .quarantined
  | .respond .blacklist _ :: _ => .listed
  | .respond .dga _ :: _ => .generated
  | .respond .dynamicRule _ :: _ => .ruled
  | _ => .passed

/-- The check behind the resolver blocks the answer. -/
def PostBlocked (env : Env) (cfg : Config F) (query : DnsMessage)
    (outcome : Outcome) (tick : Nat) (flux : List FluxEntry) : Prop :=
  (postCheck env cfg query outcome tick flux).map Prod.fst = some true

instance (env : Env) (cfg : Config F) (query : DnsMessage)
    (outcome : Outcome) (tick : Nat) (flux : List FluxEntry) :
    Decidable (PostBlocked env cfg query outcome tick flux) :=
  inferInstanceAs (Decidable (_ = _))

instance (env : Env) (fw : Firewall) (client : Option SockAddrIn) :
    Decidable (RateLimited env fw client) :=
  inferInstanceAs (Decidable (_ = _))

/-! ## Two calls -/

/-- Two packets with one question each, which differ in the case of letters of
the name. -/
structure RespelledQuery (inbuf inbuf' : Bytes) (query query' : DnsMessage)
    (question question' : DnsQuestion) : Prop where
  parsed : dnsParseMessage inbuf = .ok query
  parsed' : dnsParseMessage inbuf' = .ok query'
  asked : query.questions = [question]
  asked' : query'.questions = [question']
  qname : foldedName question'.qname = foldedName question.qname
  qtype : question'.qtype = question.qtype
  qclass : question'.qclass = question.qclass

/-- Two calls for spellings of one name, with the same answers of the
environment but for the spelling of names. -/
structure TwoSpellings (env env' : Env) (fw : Firewall)
    (inbuf inbuf' : Bytes) (query query' : DnsMessage)
    (question question' : DnsQuestion) : Prop where
  spellings : RespelledQuery inbuf inbuf' query query' question question'
  upstream : RespelledUpstream env env' fw.pool

/-- The two calls decide alike, and where they get as far as the cache, they
hit or miss the same packet. -/
structure TreatedAlike (env env' : Env) (cfg : Config F) (fw : Firewall)
    (client : Option SockAddrIn) (inbuf inbuf' : Bytes)
    (query : DnsMessage) (question question' : DnsQuestion) : Prop where
  verdict :
    verdictOf (processDnsQuery env' cfg fw inbuf' client).effects =
      verdictOf (processDnsQuery env cfg fw inbuf client).effects
  cached :
    Passes env cfg fw inbuf client query question →
      (lookupQuestion fw.cache question' (env'.time 2)).1 =
        (lookupQuestion fw.cache question (env.time 2)).1

/-! ## The condition -/

/-- The query is blocked or dropped before the cache is looked at. -/
def StoppedEarly (env : Env) (cfg : Config F) (fw : Firewall)
    (client : Option SockAddrIn) (question : DnsQuestion) : Prop :=
  RateLimited env fw client ∨
    isQuarantined env (admittedState env fw client) client = true ∨
      policyCheckBlocklist cfg.policy.blacklist question.qname = true ∨
        policyCheckPreresolve cfg.policy question.qname = true

/-- The cache holds the data under the key of the question, and it has not
expired. -/
def LiveCopy (c : Cache cacheDefaultSize) (question : DnsQuestion)
    (now : Int) (data : Bytes) : Prop :=
  ∃ pass entry, c.Holds (questionKey question) pass entry ∧
    now ≤ entry.expiry ∧ entry.data = data

/-- The cache holds the same under the keys of both spellings. -/
def SameCopies (c : Cache cacheDefaultSize)
    (question question' : DnsQuestion) (now : Int) : Prop :=
  ∀ data, LiveCopy c question' now data ↔ LiveCopy c question now data

/-- The name or an answer looks like a tunnel, or the name looks generated
with its final dot. -/
def Suspected (env : Env) (cfg : Config F) (query : DnsMessage)
    (question : DnsQuestion) (a : Answer) : Prop :=
  aboveThreshold cfg.policy.scores question.qname = true ∨
    tunnellingScore cfg.policy query a.message (answerMemory env a) =
      some true

/-- The addresses in the answers flood the entry of a spelling. -/
def FloodedBy (env : Env) (cfg : Config F) (fw : Firewall) (a : Answer)
    (tick : Nat) : Prop :=
  Floods cfg.policy.fluxIpMax fw.flux
    (fluxReportsOf (answerMemory env a) (fun i => env.time (tick + i)) 0
      a.message.answers)

/-- Every lookup of the cache finds the same in the two resolutions, and the
search for glue compares alike in every two referrals. -/
def ComparedAlike (env env' : Env) (cfg : Config F) (fw : Firewall)
    (question question' : DnsQuestion) : Prop :=
  nameComparisons env' cfg.resolver (maxRecursionDepth + 1)
      (resolverQuestion question') cfg.resolver.rootHints
      ⟨fw.cache, fw.pool, 2, []⟩ =
    nameComparisons env cfg.resolver (maxRecursionDepth + 1)
      (resolverQuestion question) cfg.resolver.rootHints
      ⟨fw.cache, fw.pool, 2, []⟩

/-- The spellings in what comes back for the two queries flood the tracker
alike, unless it is blocked anyway. -/
def FloodAlike (env env' : Env) (cfg : Config F) (fw : Firewall)
    (query query' : DnsMessage) (question : DnsQuestion) : Prop :=
  ∀ a a', (resolution env cfg fw query).1 = .answer a →
    (resolution env' cfg fw query').1 = .answer a' →
      Suspected env cfg query question a ∨
        (FloodedBy env' cfg fw a' (resolution env cfg fw query).2.ticks ↔
          FloodedBy env cfg fw a (resolution env cfg fw query).2.ticks)

/-- The query brings an answer that is suspected or floods the tracker. -/
def BringsBlocked (env : Env) (cfg : Config F) (fw : Firewall)
    (query : DnsMessage) (question : DnsQuestion) : Prop :=
  ∃ a, (resolution env cfg fw query).1 = .answer a ∧
    a.message.answers ≠ [] ∧
      (Suspected env cfg query question a ∨
        FloodedBy env cfg fw a (resolution env cfg fw query).2.ticks)

/-- Neither the cache nor the tracker tells the two spellings apart; where a
lookup for an alias or the search for glue does, what the two queries bring is
blocked or let through alike. -/
def NotToldApart (env env' : Env) (cfg : Config F) (fw : Firewall)
    (client : Option SockAddrIn) (query query' : DnsMessage)
    (question question' : DnsQuestion) : Prop :=
  StoppedEarly env cfg fw client question ∨
    SameCopies fw.cache question question' (env.time 2) ∧
      (AnsweredByCache fw.cache question (env.time 2) ∨
        ComparedAlike env env' cfg fw question question' ∧
            FloodAlike env env' cfg fw query query' question ∨
          ¬ ComparedAlike env env' cfg fw question question' ∧
            (BringsBlocked env' cfg fw query' question' ↔
              BringsBlocked env cfg fw query question))

/-! ## The verdict of a call -/

theorem checkedAction_admittedState
    (env : Env) (cfg : Config F) (fw : Firewall)
    (client : Option SockAddrIn) (query : DnsMessage) :
    checkedAction env cfg (admittedState env fw client) query =
      checkedAction env cfg fw query := by
  have flux : (admittedState env fw client).flux = fw.flux := by
    unfold admittedState rateLimit
    split
    · rfl
    · rfl
  unfold checkedAction
  rw [resolution_admittedState, flux]

theorem verdictOf_sendAnswer
    (env : Env) (tick : Nat) (fw : Firewall) (id : UInt16)
    (question : DnsQuestion) (outcome : Outcome) (log : List Event) :
    verdictOf (sendAnswer env tick fw id question outcome log).effects =
      .passed := by
  have delivered :
      verdictOf [(deliver fw.cache question id (env.time tick)).1] =
        .passed := by
    rcases deliver_effect fw.cache question id (env.time tick) with
      miss | ⟨raw, hit⟩
    · rw [miss]
      rfl
    · rw [hit]
      rfl
  cases outcome with
  | answer a => exact delivered
  | nxDomain a => exact delivered
  | failed => rfl
  | tooDeep => rfl
  | hung => rfl

theorem postBlocked_iff_of_checkedAction
    {env : Env} {cfg : Config F} {fw : Firewall}
    {client : Option SockAddrIn} {query : DnsMessage} {blocked : Bool}
    {flux : List FluxEntry}
    (action :
      checkedAction env cfg (admittedState env fw client) query =
        some (blocked, flux)) :
    PostBlocked env cfg query (resolution env cfg fw query).1
        (resolution env cfg fw query).2.ticks fw.flux ↔
      blocked = true := by
  rw [checkedAction_admittedState] at action
  have checked := congrArg (Option.map Prod.fst) action
  rw [PostBlocked]
  unfold checkedAction at checked
  rw [checked]
  exact Option.some_inj

theorem verdictOf_processDnsQuery
    (env : Env) (cfg : Config F) (fw : Firewall)
    (client : Option SockAddrIn) {inbuf : Bytes} {query : DnsMessage}
    {question : DnsQuestion} {more : List DnsQuestion}
    (parsed : dnsParseMessage inbuf = .ok query)
    (asked : query.questions = question :: more) :
    verdictOf (processDnsQuery env cfg fw inbuf client).effects =
      if RateLimited env fw client then .dropped
      else if
          isQuarantined env (admittedState env fw client) client = true
      then .quarantined
      else if
          policyCheckBlocklist cfg.policy.blacklist question.qname = true
      then .listed
      else if policyCheckPreresolve cfg.policy question.qname = true
      then .generated
      else if
          PostBlocked env cfg query (resolution env cfg fw query).1
            (resolution env cfg fw query).2.ticks fw.flux
      then .ruled
      else .passed := by
  have branch := branch_processDnsQuery env cfg fw inbuf client
  generalize processDnsQuery env cfg fw inbuf client = result at branch
  cases branch with
  | unparsed failed =>
      rw [parsed] at failed
      cases failed
  | limited _ dropped => exact (if_pos dropped).symm
  | unasked also _ empty =>
      rw [parsed] at also
      cases also
      rw [asked] at empty
      cases empty
  | banned _ admitted _ quarantined =>
      rw [if_neg admitted, if_pos quarantined]
      exact rfl
  | listed also admitted alsoAsked free onList =>
      obtain ⟨rfl, rfl, rfl⟩ := same_question parsed asked also alsoAsked
      rw [if_neg admitted, if_neg free, if_pos onList]
      exact rfl
  | generated also admitted alsoAsked free notListed isDga =>
      obtain ⟨rfl, rfl, rfl⟩ := same_question parsed asked also alsoAsked
      rw [if_neg admitted, if_neg free, if_neg notListed, if_pos isDga]
      exact rfl
  | ruled passes action =>
      obtain ⟨also, admitted, free, ⟨_, alsoAsked⟩, notListed, notDga⟩ :=
        passes
      obtain ⟨rfl, rfl, rfl⟩ := same_question parsed asked also alsoAsked
      have blocked := (postBlocked_iff_of_checkedAction action).mpr rfl
      rw [if_neg admitted, if_neg free, if_neg notListed, if_neg notDga,
        if_pos blocked]
      exact rfl
  | allowed passes action =>
      obtain ⟨also, admitted, free, ⟨_, alsoAsked⟩, notListed, notDga⟩ :=
        passes
      obtain ⟨rfl, rfl, rfl⟩ := same_question parsed asked also alsoAsked
      have unblocked :=
        mt (postBlocked_iff_of_checkedAction action).mp Bool.false_ne_true
      rw [if_neg admitted, if_neg free, if_neg notListed, if_neg notDga,
        if_neg unblocked]
      exact verdictOf_sendAnswer _ _ _ _ _ _ _

/-- An answer is blocked when its name or its records are suspected or flood
the tracker. -/
theorem postBlocked_answer_iff
    (env : Env) (cfg : Config F) (fw : Firewall) {query : DnsMessage}
    {question : DnsQuestion} {more : List DnsQuestion}
    (asked : query.questions = question :: more) (a : Answer) (tick : Nat) :
    PostBlocked env cfg query (.answer a) tick fw.flux ↔
      a.message.answers ≠ [] ∧
        (Suspected env cfg query question a ∨
          FloodedBy env cfg fw a tick) := by
  have first : query.questions.head? = some question := by
    rw [asked]
    rfl
  unfold PostBlocked postCheck
  simp only
  by_cases empty : a.message.answers = []
  · rw [if_pos empty]
    refine iff_of_false ?_ fun both => both.1 empty
    intro given
    cases given
  · rw [if_neg empty, policyCheckPostResolve_blocks_iff cfg.policy first]
    rw [Suspected, FloodedBy]
    constructor
    · intro given
      rcases given with above | flooded | tunnel
      · exact ⟨empty, Or.inl (Or.inl above)⟩
      · exact ⟨empty, Or.inr flooded⟩
      · exact ⟨empty, Or.inl (Or.inr tunnel)⟩
    · intro given
      obtain ⟨_, (above | tunnel) | flooded⟩ := given
      · exact Or.inl above
      · exact Or.inr (Or.inr tunnel)
      · exact Or.inr (Or.inl flooded)

theorem lookupQuestion_eq_some_iff
    {c : Cache cacheDefaultSize} {question : DnsQuestion} {now : Int}
    {data : Bytes} :
    (lookupQuestion c question now).1 = some data ↔
      LiveCopy c question now data := by
  constructor
  · exact exists_holds_of_hit
  · intro given
    obtain ⟨pass, entry, held, fresh, rfl⟩ := given
    rw [lookupQuestion_of_holds held fresh]

theorem sameCopies_iff
    {c : Cache cacheDefaultSize} {question question' : DnsQuestion}
    {now : Int} :
    SameCopies c question question' now ↔
      (lookupQuestion c question' now).1 =
        (lookupQuestion c question now).1 := by
  rw [SameCopies]
  constructor
  · intro same
    refine Option.ext fun data => ?_
    rw [lookupQuestion_eq_some_iff, lookupQuestion_eq_some_iff]
    exact same data
  · intro same data
    rw [← lookupQuestion_eq_some_iff, same, lookupQuestion_eq_some_iff]

/-! ## The two calls -/

section Pair

variable {env env' : Env} {cfg : Config F} {fw : Firewall}
  {client : Option SockAddrIn} {inbuf inbuf' : Bytes}
  {query query' : DnsMessage} {question question' : DnsQuestion}

theorem rateLimit_of_clock (clock : env'.time = env.time) :
    rateLimit env' fw client = rateLimit env fw client := by
  unfold rateLimit
  rw [clock]

theorem isQuarantined_of_clock (clock : env'.time = env.time) :
    isQuarantined env' fw client = isQuarantined env fw client := by
  unfold isQuarantined
  rw [clock]

theorem RespelledQuery.suspected_iff
    (spellings :
      RespelledQuery inbuf inbuf' query query' question question')
    {a a' : Answer}
    (records :
      List.Forall₂
        (RespelledRecord (answerMemory env a) (answerMemory env' a'))
        a.message.answers a'.message.answers) :
    Suspected env' cfg query' question' a' ↔
      Suspected env cfg query question a := by
  have first : query.questions.head? = some question := by
    rw [spellings.asked]
    rfl
  have first' : query'.questions.head? = some question' := by
    rw [spellings.asked']
    rfl
  unfold Suspected
  rw [aboveThreshold_congr cfg.policy.scores spellings.qname,
    tunnellingScore_congr cfg.policy first first' spellings.qname records]

/-- Two answers that differ in the spelling of owners are blocked alike unless
their spellings decide. -/
theorem RespelledQuery.postBlocked_iff
    (spellings :
      RespelledQuery inbuf inbuf' query query' question question')
    (fw : Firewall) {a a' : Answer}
    (records :
      List.Forall₂
        (RespelledRecord (answerMemory env a) (answerMemory env' a'))
        a.message.answers a'.message.answers)
    (tick : Nat) :
    (PostBlocked env' cfg query' (.answer a') tick fw.flux ↔
        PostBlocked env cfg query (.answer a) tick fw.flux) ↔
      Suspected env cfg query question a ∨
        (FloodedBy env' cfg fw a' tick ↔ FloodedBy env cfg fw a tick) := by
  rw [postBlocked_answer_iff env cfg fw spellings.asked,
    postBlocked_answer_iff env' cfg fw spellings.asked',
    spellings.suspected_iff records]
  by_cases empty : a.message.answers = []
  · have empty' : a'.message.answers = [] := by
      rw [empty] at records
      exact List.forall₂_nil_left_iff.mp records
    have dry : ¬ FloodedBy env cfg fw a tick := by
      rw [FloodedBy]
      rw [empty]
      exact not_floods_nil _ _
    have dry' : ¬ FloodedBy env' cfg fw a' tick := by
      rw [FloodedBy]
      rw [empty']
      exact not_floods_nil _ _
    exact
      iff_of_true
        (iff_of_false (fun both => both.1 empty') fun both => both.1 empty)
        (Or.inr (iff_of_false dry' dry))
  · have empty' : a'.message.answers ≠ [] := by
      intro isEmpty
      rw [isEmpty] at records
      exact empty (List.forall₂_nil_right_iff.mp records)
    rw [and_iff_right empty, and_iff_right empty']
    by_cases suspected : Suspected env cfg query question a
    · exact
        iff_of_true (iff_of_true (Or.inl suspected) (Or.inl suspected))
          (Or.inl suspected)
    · rw [or_iff_right suspected, or_iff_right suspected,
        or_iff_right suspected]

/-- Replies whose owners are respelled one to one flood the tracker alike when
it holds the same addresses for both spellings of every name, such as none. -/
theorem floodedBy_iff_of_oneToOne
    (clock : env'.time = env.time) {a a' : Answer}
    {spelling : Bytes → Bytes}
    (respelled :
      List.Forall₂
        (fun rr rr' =>
          RespelledRecord (answerMemory env a) (answerMemory env' a') rr
              rr' ∧
            content rr'.name = spelling (content rr.name))
        a.message.answers a'.message.answers)
    (oneToOne : Function.Injective spelling)
    (sameEntries :
      ∀ name, spellingIps fw.flux (spelling name) = spellingIps fw.flux name)
    (cfg : Config F) (tick : Nat) :
    FloodedBy env' cfg fw a' tick ↔ FloodedBy env cfg fw a tick := by
  rw [FloodedBy]
  rw [clock, fluxReportsOf_respelled (fun i => env.time (tick + i)) respelled]
  exact
    floods_respell_iff (fun _ _ _ _ same => oneToOne same)
      fun report _ => sameEntries report.domain

theorem not_postBlocked_of_not_answer
    {outcome : Outcome} (noAnswer : ∀ a, outcome ≠ .answer a)
    (env : Env) (cfg : Config F) (query : DnsMessage) (tick : Nat)
    (flux : List FluxEntry) :
    ¬ PostBlocked env cfg query outcome tick flux := by
  unfold PostBlocked postCheck
  cases outcome with
  | answer a => exact absurd rfl (noAnswer a)
  | nxDomain a => rintro ⟨⟩
  | failed => rintro ⟨⟩
  | tooDeep => rintro ⟨⟩
  | hung => rintro ⟨⟩

theorem Echoed.answers_or_neither
    {reply reply' : Outcome} (echoed : Echoed env env' reply reply') :
    (∃ a a', reply = .answer a ∧ reply' = .answer a' ∧
        List.Forall₂
          (RespelledRecord (answerMemory env a) (answerMemory env' a'))
          a.message.answers a'.message.answers) ∨
      (∀ a, reply ≠ .answer a) ∧ ∀ a', reply' ≠ .answer a' := by
  cases echoed with
  | answer records => exact Or.inl ⟨_, _, rfl, rfl, records⟩
  | nxDomain => exact Or.inr ⟨by rintro _ ⟨⟩, by rintro _ ⟨⟩⟩
  | failed => exact Or.inr ⟨by rintro _ ⟨⟩, by rintro _ ⟨⟩⟩
  | tooDeep => exact Or.inr ⟨by rintro _ ⟨⟩, by rintro _ ⟨⟩⟩
  | hung => exact Or.inr ⟨by rintro _ ⟨⟩, by rintro _ ⟨⟩⟩

/-- The check behind the resolver blocks what the query brings. -/
theorem postBlocked_iff_bringsBlocked
    (env : Env) (cfg : Config F) (fw : Firewall) {more : List DnsQuestion}
    (asked : query.questions = question :: more) :
    PostBlocked env cfg query (resolution env cfg fw query).1
        (resolution env cfg fw query).2.ticks fw.flux ↔
      BringsBlocked env cfg fw query question := by
  unfold BringsBlocked
  generalize resolution env cfg fw query = result
  obtain ⟨outcome, after⟩ := result
  have other :
      (∀ a, outcome ≠ .answer a) →
        (PostBlocked env cfg query outcome after.ticks fw.flux ↔
          ∃ a, outcome = .answer a ∧ a.message.answers ≠ [] ∧
            (Suspected env cfg query question a ∨
              FloodedBy env cfg fw a after.ticks)) := by
    intro noAnswer
    refine
      iff_of_false (not_postBlocked_of_not_answer noAnswer _ _ _ _ _) ?_
    intro given
    obtain ⟨a, isAnswer, _⟩ := given
    exact noAnswer a isAnswer
  cases outcome with
  | answer a =>
      simp only
      rw [postBlocked_answer_iff env cfg fw asked]
      constructor
      · intro blocked
        exact ⟨a, rfl, blocked⟩
      · intro given
        obtain ⟨same, isAnswer, blocked⟩ := given
        cases isAnswer
        exact blocked
  | nxDomain a => exact other (by simp)
  | failed => exact other (by simp)
  | tooDeep => exact other (by simp)
  | hung => exact other (by simp)

theorem RespelledQuery.foldedName_resolverQuestion
    (spellings :
      RespelledQuery inbuf inbuf' query query' question question') :
    foldedName (resolverQuestion question').qname =
      foldedName (resolverQuestion question).qname := by
  have folded (other : DnsQuestion) :
      foldedName (resolverQuestion other).qname =
        boundedCopy (dnsMaxNameLen + 1)
          (content (foldedName other.qname)) := by
    unfold foldedName
    rw [content_map_toLower, boundedCopy_map_toLower]
    rfl
  rw [folded question', spellings.qname, ← folded question]

/-- Resolutions that compare alike end alongside. -/
theorem TwoSpellings.alongside_resolution
    (pair :
      TwoSpellings env env' fw inbuf inbuf' query query' question question')
    (compared : ComparedAlike env env' cfg fw question question') :
    Alongside env env' (resolution env cfg fw query)
      (resolution env' cfg fw query') := by
  have spellings := pair.spellings
  rw [resolution, resolution, resolverResolve, resolverResolve]
  rw [spellings.asked, spellings.asked']
  exact
    (@call_alongside env env' cfg.resolver fw.pool pair.upstream _ _
      (Or.inr ⟨rfl, rfl⟩) maxRecursionDepth
      (fun iterates => calls_alongside pair.upstream iterates _) _ _ _ _
      spellings.foldedName_resolverQuestion rfl rfl [] []
      (by rw [List.append_nil, List.append_nil]; exact compared)).1

/-- Where the resolutions end alongside, what comes back for the two queries
is blocked alike unless the spellings of owners decide. -/
theorem RespelledQuery.postBlocked_resolution_iff
    (spellings :
      RespelledQuery inbuf inbuf' query query' question question')
    (alongside :
      Alongside env env' (resolution env cfg fw query)
        (resolution env' cfg fw query')) :
    (PostBlocked env' cfg query' (resolution env' cfg fw query').1
          (resolution env' cfg fw query').2.ticks fw.flux ↔
        PostBlocked env cfg query (resolution env cfg fw query).1
          (resolution env cfg fw query).2.ticks fw.flux) ↔
      FloodAlike env env' cfg fw query query' question := by
  obtain ⟨echoed, ticks⟩ := alongside
  unfold FloodAlike
  rw [ticks]
  generalize (resolution env cfg fw query).2.ticks = tick
  generalize (resolution env cfg fw query).1 = reply at echoed
  generalize (resolution env' cfg fw query').1 = reply' at echoed
  rcases echoed.answers_or_neither with
    ⟨a, a', rfl, rfl, records⟩ | ⟨noAnswer, noAnswer'⟩
  · rw [spellings.postBlocked_iff fw records]
    constructor
    · rintro alike _ _ ⟨⟩ ⟨⟩
      exact alike
    · intro alike
      exact alike a a' rfl rfl
  · refine iff_of_true (iff_of_false ?_ ?_) ?_
    · exact not_postBlocked_of_not_answer noAnswer' _ _ _ _ _
    · exact not_postBlocked_of_not_answer noAnswer _ _ _ _ _
    · intro a a' isAnswer
      exact absurd isAnswer (noAnswer a)

/-- Where the cache holds the same for both spellings, what comes back for
them is blocked alike exactly as far as the spellings do not decide. -/
theorem TwoSpellings.postBlocked_iff
    (pair :
      TwoSpellings env env' fw inbuf inbuf' query query' question question')
    (same : SameCopies fw.cache question question' (env.time 2)) :
    (PostBlocked env' cfg query' (resolution env' cfg fw query').1
          (resolution env' cfg fw query').2.ticks fw.flux ↔
        PostBlocked env cfg query (resolution env cfg fw query).1
          (resolution env cfg fw query).2.ticks fw.flux) ↔
      AnsweredByCache fw.cache question (env.time 2) ∨
        ComparedAlike env env' cfg fw question question' ∧
            FloodAlike env env' cfg fw query query' question ∨
          ¬ ComparedAlike env env' cfg fw question question' ∧
            (BringsBlocked env' cfg fw query' question' ↔
              BringsBlocked env cfg fw query question) := by
  have spellings := pair.spellings
  by_cases answered : AnsweredByCache fw.cache question (env.time 2)
  · refine iff_of_true ?_ (Or.inl answered)
    obtain ⟨raw, message, hit, parsed⟩ := answered
    have hit' :
        (lookupQuestion fw.cache question' (env'.time 2)).1 = some raw := by
      rw [pair.upstream.time, sameCopies_iff.mp same]
      exact hit
    have short := qname_length_of_asked spellings.parsed spellings.asked
    have short' := qname_length_of_asked spellings.parsed' spellings.asked'
    rw [resolution_of_hit env cfg spellings.asked short hit parsed,
      resolution_of_hit env' cfg spellings.asked' short' hit' parsed]
    refine (spellings.postBlocked_iff fw ?_ 3).mpr (Or.inr ?_)
    · exact List.forall₂_same.mpr fun rr _ => .refl raw rr
    · rw [FloodedBy]
      rw [pair.upstream.time]
      exact Iff.rfl
  · rw [or_iff_right answered]
    by_cases compared : ComparedAlike env env' cfg fw question question'
    · rw [and_iff_right compared, or_iff_left fun told => told.1 compared]
      exact
        spellings.postBlocked_resolution_iff
          (pair.alongside_resolution compared)
    · rw [and_iff_right compared, or_iff_right fun told => compared told.1,
        postBlocked_iff_bringsBlocked env cfg fw spellings.asked,
        postBlocked_iff_bringsBlocked env' cfg fw spellings.asked']

theorem Passes.not_stoppedEarly
    (passes : Passes env cfg fw inbuf client query question) :
    ¬ StoppedEarly env cfg fw client question := by
  intro given
  rcases given with limited | quarantined | onList | isDga
  · exact passes.admitted limited
  · exact passes.free quarantined
  · exact passes.notListed onList
  · exact passes.notDga isDga

theorem RespelledQuery.passes
    (spellings :
      RespelledQuery inbuf inbuf' query query' question question')
    (running : ¬ StoppedEarly env cfg fw client question) :
    Passes env cfg fw inbuf client query question where
  parsed := spellings.parsed
  admitted := fun limited => running (Or.inl limited)
  free := fun quarantined => running (Or.inr (Or.inl quarantined))
  asked := ⟨[], spellings.asked⟩
  notListed := fun onList => running (Or.inr (Or.inr (Or.inl onList)))
  notDga := fun isDga => running (Or.inr (Or.inr (Or.inr isDga)))

theorem ruled_eq_iff {p q : Prop} [Decidable p] [Decidable q] :
    ((if p then QueryVerdict.ruled else .passed) =
        if q then .ruled else .passed) ↔
      (p ↔ q) := by
  by_cases isP : p
  · by_cases isQ : q
    · rw [if_pos isP, if_pos isQ]
      exact iff_of_true rfl (iff_of_true isP isQ)
    · rw [if_pos isP, if_neg isQ]
      exact iff_of_false (by decide) fun same => isQ (same.mp isP)
  · by_cases isQ : q
    · rw [if_neg isP, if_pos isQ]
      exact iff_of_false (by decide) fun same => isP (same.mpr isQ)
    · rw [if_neg isP, if_neg isQ]
      exact iff_of_true rfl (iff_of_false isP isQ)

/-- The checks made before resolution decide alike, so only what is made of
the answers can differ. -/
theorem RespelledQuery.verdict_eq_iff
    (spellings :
      RespelledQuery inbuf inbuf' query query' question question')
    (clock : env'.time = env.time) (cfg : Config F) (fw : Firewall)
    (client : Option SockAddrIn) :
    verdictOf (processDnsQuery env' cfg fw inbuf' client).effects =
        verdictOf (processDnsQuery env cfg fw inbuf client).effects ↔
      StoppedEarly env cfg fw client question ∨
        (PostBlocked env' cfg query' (resolution env' cfg fw query').1
            (resolution env' cfg fw query').2.ticks fw.flux ↔
          PostBlocked env cfg query (resolution env cfg fw query).1
            (resolution env cfg fw query).2.ticks fw.flux) := by
  have limitedAlike :
      RateLimited env' fw client ↔ RateLimited env fw client := by
    unfold RateLimited
    rw [rateLimit_of_clock clock]
  have admitted :
      admittedState env' fw client = admittedState env fw client := by
    unfold admittedState
    rw [rateLimit_of_clock clock]
  rw [verdictOf_processDnsQuery env cfg fw client spellings.parsed
      spellings.asked,
    verdictOf_processDnsQuery env' cfg fw client spellings.parsed'
      spellings.asked',
    admitted, isQuarantined_of_clock clock,
    policyCheckBlocklist_congr cfg.policy.blacklist spellings.qname,
    policyCheckPreresolve_congr cfg.policy spellings.qname]
  by_cases stopped : StoppedEarly env cfg fw client question
  · refine iff_of_true ?_ (Or.inl stopped)
    by_cases limited : RateLimited env fw client
    · rw [if_pos limited, if_pos (limitedAlike.mpr limited)]
    · rw [if_neg limited, if_neg fun also => limited (limitedAlike.mp also)]
      rcases stopped with isLimited | quarantined | onList | isDga
      · exact absurd isLimited limited
      · rw [if_pos quarantined, if_pos quarantined]
      · rw [if_pos onList, if_pos onList]
      · rw [if_pos isDga, if_pos isDga]
  · have passes := spellings.passes stopped
    rw [if_neg passes.admitted,
      if_neg fun also => passes.admitted (limitedAlike.mp also),
      if_neg passes.free, if_neg passes.free, if_neg passes.notListed,
      if_neg passes.notListed, if_neg passes.notDga, if_neg passes.notDga,
      or_iff_right stopped]
    exact ruled_eq_iff

end Pair

/-! ## Two spellings that are told apart -/

/-- The query for `A.`, beside `queryA` for `a.`. -/
def queryUpperA : Bytes :=
  [18, 52, 1, 0, 0, 1, 0, 0, 0, 0, 0, 0, 1, 65, 0, 0, 1, 0, 1]

def questionUpperA : DnsQuestion := ⟨[65, 46], dnsTypeA, dnsClassIn⟩

/-- The reply to the query for `A.`, with the name as asked. -/
def replyUpperA (ttl : UInt8) : Bytes :=
  [0, 0, 129, 128, 0, 1, 0, 1, 0, 0, 0, 0,
    1, 65, 0, 0, 1, 0, 1,
    192, 12, 0, 1, 0, 1, 0, 0, 0, ttl, 0, 4, 6, 6, 6, 6]

def messageA : DnsMessage :=
  ⟨⟨4660, 256, 1, 0, 0, 0⟩, [questionA], [], [], []⟩

def messageUpperA : DnsMessage :=
  { messageA with questions := [questionUpperA] }

theorem respelledQuery_A :
    RespelledQuery queryA queryUpperA messageA messageUpperA questionA
      questionUpperA where
  parsed := by decide +kernel
  parsed' := by decide +kernel
  asked := rfl
  asked' := rfl
  qname := by decide
  qtype := rfl
  qclass := rfl

/-- The replies have one answer, owned by the name as asked. -/
theorem respelledReply_A :
    RespelledReply (envAnswering (replyA 60))
      (envAnswering (replyUpperA 60)) (some (replyA 60))
      (some (replyUpperA 60)) := by
  have lower :
      usableReply (some (replyA 60)) =
        some
          (replyA 60,
            ⟨⟨0, 33152, 1, 1, 0, 0⟩, [questionA],
              [⟨[97, 46], 1, 1, 60, 4, 31⟩], [], []⟩) := by
    decide +kernel
  have upper :
      usableReply (some (replyUpperA 60)) =
        some
          (replyUpperA 60,
            ⟨⟨0, 33152, 1, 1, 0, 0⟩, [questionUpperA],
              [⟨[65, 46], 1, 1, 60, 4, 31⟩], [], []⟩) := by
    decide +kernel
  rw [RespelledReply]
  rw [lower, upper]
  exact
    { flags := rfl
      answers := .cons ⟨by decide, rfl, rfl, by decide⟩ .nil
      targets := by
        refine .cons ?_ .nil
        rw [RespelledTarget]
        decide +kernel
      authorities := .nil
      additionals := .nil }

/-- The servers echo the name as asked, over UDP only. -/
theorem respelledUpstream_A (pool : TcpPool) :
    RespelledUpstream (envAnswering (replyA 60))
      (envAnswering (replyUpperA 60)) pool where
  time := rfl
  lockFree := rfl
  connect := rfl
  passes := rfl
  udp := by
    intro tick
    exact respelledReply_A
  tcp := by
    intro tick conn _
    exact trivial

/-- In every state that a run of queries reaches, two spellings of a name
would be treated alike. -/
def LetterCaseIgnored : Prop :=
  ∀ (F : Type) (cfg : Config F) (start : Int) (earlier : List QueryCall)
    (env env' : Env) (client : Option SockAddrIn) (inbuf inbuf' : Bytes)
    (query query' : DnsMessage) (question question' : DnsQuestion),
    let fw := run (queryCall cfg) (firewallStart start) earlier
    TwoSpellings env env' fw inbuf inbuf' query query' question question' →
      TreatedAlike env env' cfg fw client inbuf inbuf' query question
        question'

end DnsFirewall
