import DnsFirewall.Cache.Provenance
import DnsFirewall.Processor.Freshness
import DnsFirewall.Resolver.Fetching

/-!
# Where delivered packets come from

Every entry that a run of queries leaves in the cache holds, behind its ID,
the reply to a query that the resolver has sent in the run for the question of
the entry.  So what is delivered to a client is such a reply, under the ID of
its own query, and fits the receive buffer of the resolver.
-/

namespace DnsFirewall

open CString Runs

variable {F : Type}

/-- The two questions ask for the same name, type and class. -/
structure DnsQuestion.SameAs (question other : DnsQuestion) : Prop where
  name : content question.qname = content other.qname
  type : question.qtype = other.qtype
  rrclass : question.qclass = other.qclass

/-- The entry holds the reply of the exchange behind some ID, under the key of
its question. -/
def Exchange.Supplies (x : Exchange) (entry : CacheEntry) : Prop :=
  entry.key = questionKey x.question ∧
    ∃ raw, x.Fetched raw ∧ SamePacket entry.data raw

/-- Every entry of the cache is supplied by one of the exchanges. -/
def Supplied (history : Exchange → Prop) (c : Cache cacheDefaultSize) :
    Prop :=
  ∀ slot entry, c.entries slot = some entry →
    ∃ x, history x ∧ x.Supplies entry

/-- One of the calls of the run has made the exchange. -/
def ExchangedIn (cfg : Config F) (start : Firewall)
    (calls : List QueryCall) (x : Exchange) : Prop :=
  ∃ before call after, calls = before ++ call :: after ∧
    .exchange x ∈ (call.result cfg (run (queryCall cfg) start before)).log

/-! ## Keys -/

theorem questionKey_of_content (question : DnsQuestion) :
    questionKey question =
      buildKey (content question.qname) question.qtype question.qclass := by
  unfold questionKey buildKey
  rw [content_content]

theorem isName_of_fits {question : DnsQuestion} (fits : question.Fits) :
    IsName (content question.qname) := by
  refine ⟨Nat.le_trans (content_length_le question.qname) fits, ?_⟩
  intro character member
  exact ne_zero_of_mem_content member

theorem sameAs_of_questionKey
    {question other : DnsQuestion} (fits : question.Fits)
    (otherFits : other.Fits)
    (same : questionKey question = questionKey other) :
    question.SameAs other := by
  rw [questionKey_of_content, questionKey_of_content] at same
  obtain ⟨name, type, rrclass⟩ :=
    buildKey_injective (isName_of_fits fits) (isName_of_fits otherFits) same
  exact ⟨name, type, rrclass⟩

/-! ## The cache -/

section Supply

variable {history wider : Exchange → Prop} {c : Cache cacheDefaultSize}

theorem Supplied.mono
    (supplied : Supplied history c) (more : ∀ x, history x → wider x) :
    Supplied wider c := by
  intro slot entry occupied
  obtain ⟨x, member, supplies⟩ := supplied slot entry occupied
  exact ⟨x, more x member, supplies⟩

theorem supplied_cacheCreate :
    Supplied history (cacheCreate cacheDefaultSize) := by
  intro slot entry occupied
  cases occupied

theorem Fetches.supplied
    {cfg : ResolverConfig} {w after : World} (fetches : Fetches cfg w after)
    (supplied : Supplied history w.cache) :
    Supplied (fun x => history x ∨ .exchange x ∈ after.log) after.cache := by
  intro slot entry occupied
  rcases fetches.entries slot entry occupied with
    before | ⟨x, member, isKey, fetched⟩
  · obtain ⟨x, earlier, supplies⟩ := supplied slot entry before
    exact ⟨x, Or.inl earlier, supplies⟩
  · have long : 2 ≤ entry.data.length :=
      Nat.le_trans (by decide) fetched.whole
    exact
      ⟨x, Or.inr member, isKey, entry.data, fetched,
        samePacket_self long⟩

/-- A delivery changes the ID of an entry at most. -/
theorem supplied_deliver
    (supplied : Supplied history c) (question : DnsQuestion) (id : UInt16)
    (now : Int) : Supplied history (deliver c question id now).2 := by
  intro slot entry occupied
  rcases entries_of_deliver occupied with same | ⟨old, isOld, isEntry⟩
  · exact supplied slot entry same
  · obtain ⟨x, member, isKey, raw, fetched, same⟩ := supplied slot old isOld
    rw [isEntry]
    exact
      ⟨x, member, isKey, raw, fetched, samePacket_patchId same id⟩

theorem patchId_of_samePacket
    {data raw : Bytes} (same : SamePacket data raw) (long : 2 ≤ raw.length)
    (id : UInt16) : patchId id data = patchId id raw :=
  (patchId_eq_iff long id).mpr same

/-- What is delivered for a question is the reply to a query for it. -/
theorem delivered_of_supplied
    (supplied : Supplied history c) {question : DnsQuestion} {id : UInt16}
    {now : Int} {data : Bytes}
    (delivered :
      (deliver c question id now).1 = .respond .delivery data) :
    ∃ x raw, history x ∧ questionKey x.question = questionKey question ∧
      x.Fetched raw ∧ data = patchId id raw := by
  unfold deliver at delivered
  split at delivered
  · cases delivered
  · rename_i found after result
    cases delivered
    have hit : (lookupQuestion c question now).1 = some found := by
      rw [lookupQuestion, result]
    obtain ⟨pass, entry, held, _, isFound⟩ := exists_holds_of_hit hit
    obtain ⟨x, member, isKey, raw, fetched, same⟩ :=
      supplied _ entry held.holds
    have long : 2 ≤ raw.length := Nat.le_trans (by decide) fetched.whole
    refine ⟨x, raw, member, ?_, fetched, ?_⟩
    · rw [← isKey]
      exact held.isKey
    · rw [← isFound]
      exact patchId_of_samePacket same long id

end Supply

/-! ## One call -/

theorem fetches_resolution
    (env : Env) (cfg : Config F) (fw : Firewall) (query : DnsMessage) :
    Fetches cfg.resolver ⟨fw.cache, fw.pool, 2, []⟩
      (resolution env cfg fw query).2 :=
  fetches_resolverResolve env cfg.resolver query _

/-- The cache behind the answer, and the delivery. -/
theorem sendAnswer_cases
    (env : Env) (tick : Nat) (fw : Firewall) (id : UInt16)
    (question : DnsQuestion) (outcome : Outcome) (log : List Event) :
    ((sendAnswer env tick fw id question outcome log).state.cache =
          (deliver fw.cache question id (env.time tick)).2 ∧
        (sendAnswer env tick fw id question outcome log).effects =
          [(deliver fw.cache question id (env.time tick)).1]) ∨
      ((sendAnswer env tick fw id question outcome log).state.cache =
          fw.cache ∧
        ∀ data,
          .respond .delivery data ∉
            (sendAnswer env tick fw id question outcome log).effects) := by
  cases outcome with
  | answer a => exact Or.inl ⟨rfl, rfl⟩
  | nxDomain a => exact Or.inl ⟨rfl, rfl⟩
  | failed => exact Or.inr ⟨rfl, fun data => by simp [sendAnswer]⟩
  | tooDeep => exact Or.inr ⟨rfl, fun data => by simp [sendAnswer]⟩
  | hung => exact Or.inr ⟨rfl, fun data => by simp [sendAnswer]⟩

/-- A block delivers nothing. -/
theorem delivery_not_mem_blockedCall
    {env : Env} {tick : Nat} {site : Site} (place : site ≠ .delivery)
    {fw : Firewall} {client : Option SockAddrIn} {query : DnsMessage}
    {question : DnsQuestion} {resolution : Option (Outcome × Bool)}
    {log : List Event} (data : Bytes) :
    .respond .delivery data ∉
      (blockedCall env tick site fw client query question resolution
        log).effects := by
  intro member
  rcases List.mem_cons.mp member with here | told
  · cases here
    exact place rfl
  · exact absurd told (respond_not_mem_blockReports _ _ _ _ _)

section Call

variable {env : Env} {cfg : Config F} {fw : Firewall} {inbuf : Bytes}
  {client : Option SockAddrIn} {history : Exchange → Prop}

/-- What a call has resolved is supplied by what was exchanged before and in
the call. -/
theorem supplied_resolvedState
    (supplied : Supplied history fw.cache) (query : DnsMessage) :
    Supplied
      (fun x =>
        history x ∨
          .exchange x ∈
            (resolution env cfg (admittedState env fw client) query).2.log)
      (resolvedState env cfg (admittedState env fw client) query).cache := by
  rw [← cache_admittedState env fw client] at supplied
  exact
    (fetches_resolution env cfg (admittedState env fw client)
      query).supplied supplied

theorem supplied_processDnsQuery
    (supplied : Supplied history fw.cache) :
    Supplied
      (fun x =>
        history x ∨
          .exchange x ∈ (processDnsQuery env cfg fw inbuf client).log)
      (processDnsQuery env cfg fw inbuf client).state.cache := by
  have branch := branch_processDnsQuery env cfg fw inbuf client
  generalize processDnsQuery env cfg fw inbuf client = result at branch
  have unresolved :
      ∀ log : List Event,
        Supplied (fun x => history x ∨ .exchange x ∈ log)
          (admittedState env fw client).cache := by
    intro log
    rw [cache_admittedState]
    exact supplied.mono fun _ => Or.inl
  cases branch with
  | unparsed _ => exact supplied.mono fun _ => Or.inl
  | limited _ _ => exact unresolved []
  | unasked _ _ _ => exact unresolved []
  | banned _ _ _ _ => exact unresolved []
  | listed _ _ _ _ _ => exact unresolved []
  | generated _ _ _ _ _ _ => exact unresolved []
  | ruled _ _ => exact supplied_resolvedState supplied _
  | @allowed query question flux _ _ =>
      rw [log_sendAnswer]
      have resolved :=
        @supplied_resolvedState F env cfg fw client history supplied query
      rcases sendAnswer_cases env
          (checkedTick env cfg (admittedState env fw client) query)
          { resolvedState env cfg (admittedState env fw client) query with
            flux }
          query.header.id question
          (resolution env cfg (admittedState env fw client) query).1
          (resolution env cfg (admittedState env fw client) query).2.log with
        ⟨cache, _⟩ | ⟨cache, _⟩
      · rw [cache]
        exact supplied_deliver resolved _ _ _
      · rw [cache]
        exact resolved

/-- A delivered packet is the reply to a query for the question of the client,
under its ID. -/
theorem delivered_processDnsQuery
    (supplied : Supplied history fw.cache) {data : Bytes}
    (delivered :
      .respond .delivery data ∈
        (processDnsQuery env cfg fw inbuf client).effects) :
    ∃ query question more x raw,
      dnsParseMessage inbuf = .ok query ∧
        query.questions = question :: more ∧
          (history x ∨
              .exchange x ∈ (processDnsQuery env cfg fw inbuf client).log) ∧
            questionKey x.question = questionKey question ∧
              x.Fetched raw ∧ data = patchId query.header.id raw := by
  have branch := branch_processDnsQuery env cfg fw inbuf client
  generalize processDnsQuery env cfg fw inbuf client = result
    at branch delivered ⊢
  cases branch with
  | unparsed _ => simp at delivered
  | limited _ _ => simp at delivered
  | unasked _ _ _ => simp at delivered
  | banned _ _ _ _ => simp at delivered
  | listed _ _ _ _ _ =>
      exact absurd delivered (delivery_not_mem_blockedCall (by decide) data)
  | generated _ _ _ _ _ _ =>
      exact absurd delivered (delivery_not_mem_blockedCall (by decide) data)
  | ruled _ _ =>
      exact absurd delivered (delivery_not_mem_blockedCall (by decide) data)
  | @allowed query question flux passes _ =>
      rw [log_sendAnswer]
      obtain ⟨more, asked⟩ := passes.asked
      have resolved :=
        @supplied_resolvedState F env cfg fw client history supplied query
      rcases sendAnswer_cases env
          (checkedTick env cfg (admittedState env fw client) query)
          { resolvedState env cfg (admittedState env fw client) query with
            flux }
          query.header.id question
          (resolution env cfg (admittedState env fw client) query).1
          (resolution env cfg (admittedState env fw client) query).2.log with
        ⟨_, effects⟩ | ⟨_, nothing⟩
      · rw [effects, List.mem_singleton] at delivered
        obtain ⟨x, raw, member, facts⟩ :=
          delivered_of_supplied resolved delivered.symm
        exact ⟨query, question, more, x, raw, passes.parsed, asked, member,
          facts⟩
      · exact absurd delivered (nothing data)

theorem dispatched_processDnsQuery
    {x : Exchange}
    (member : .exchange x ∈ (processDnsQuery env cfg fw inbuf client).log) :
    Dispatched cfg.resolver x := by
  have branch := branch_processDnsQuery env cfg fw inbuf client
  generalize processDnsQuery env cfg fw inbuf client = result
    at branch member
  have resolved :
      ∀ query : DnsMessage,
        .exchange x ∈
            (resolution env cfg (admittedState env fw client)
              query).2.log →
          Dispatched cfg.resolver x := by
    intro query exchanged
    rcases (fetches_resolution env cfg _ query).sent x exchanged with
      initial | dispatched
    · cases initial
    · exact dispatched
  cases branch with
  | unparsed _ => cases member
  | limited _ _ => cases member
  | unasked _ _ _ => cases member
  | banned _ _ _ _ => cases member
  | listed _ _ _ _ _ => cases member
  | generated _ _ _ _ _ _ => cases member
  | ruled _ _ => exact resolved _ member
  | allowed _ _ =>
      rw [log_sendAnswer] at member
      exact resolved _ member

end Call

/-! ## Runs -/

section Run

variable {cfg : Config F} {start : Firewall}

theorem ExchangedIn.dispatched
    {calls : List QueryCall} {x : Exchange}
    (exchanged : ExchangedIn cfg start calls x) :
    Dispatched cfg.resolver x := by
  obtain ⟨before, call, after, _, member⟩ := exchanged
  exact dispatched_processDnsQuery member

theorem ExchangedIn.append
    {calls : List QueryCall} {x : Exchange}
    (exchanged : ExchangedIn cfg start calls x) (more : List QueryCall) :
    ExchangedIn cfg start (calls ++ more) x := by
  obtain ⟨before, call, after, shape, member⟩ := exchanged
  refine ⟨before, call, after ++ more, ?_, member⟩
  rw [shape, List.append_assoc, List.cons_append]

/-- The exchanges of a run of one call are those in its log. -/
theorem ExchangedIn.single
    {call : QueryCall} {x : Exchange}
    (exchanged : ExchangedIn cfg start ([] ++ [call]) x) :
    .exchange x ∈ (call.result cfg start).log := by
  obtain ⟨before, other, after, shape, member⟩ := exchanged
  cases before with
  | nil =>
      cases shape
      exact member
  | cons first rest => simp at shape

theorem exchangedIn_last
    {calls : List QueryCall} {call : QueryCall} {x : Exchange}
    (member :
      .exchange x ∈ (call.result cfg (run (queryCall cfg) start calls)).log) :
    ExchangedIn cfg start (calls ++ [call]) x :=
  ⟨calls, call, [], rfl, member⟩

/-- After every run the cache is supplied by the exchanges of the run. -/
theorem supplied_run
    (empty : start.cache = cacheCreate cacheDefaultSize)
    (calls : List QueryCall) :
    Supplied (ExchangedIn cfg start calls)
      (run (queryCall cfg) start calls).cache := by
  induction calls using List.reverseRecOn with
  | nil =>
      rw [run_nil, empty]
      exact supplied_cacheCreate
  | append_singleton calls call inductionHypothesis =>
      rw [run_append]
      apply (supplied_processDnsQuery inductionHypothesis).mono
      intro x member
      rcases member with earlier | now
      · exact earlier.append [call]
      · exact exchangedIn_last now

end Run

/-- The packet built for the question of a client reads back as that question
where the name of the client is rebuildable. -/
theorem Dispatched.asksFor
    {cfg : ResolverConfig} {x : Exchange} (dispatched : Dispatched cfg x)
    {inbuf : Bytes} {query : DnsMessage} {question : DnsQuestion}
    (parsed : dnsParseMessage inbuf = .ok query)
    (member : question ∈ query.questions)
    (same : x.question.SameAs question)
    (rebuildable : Rebuildable question.qname) :
    AsksFor x.query question := by
  obtain ⟨legal, text⟩ :=
    exists_legalName (parsedName_of_dnsParseMessage parsed member) rebuildable
  have isLegal : content x.question.qname = legal.text := by
    rw [same.name, content_eq_self rebuildable.noNul, text]
  have asks := asksFor_queryPacket x.id isLegal
  rw [text, same.type, same.rrclass, ← dispatched.packet] at asks
  exact asks

/-- In every run of calls from the start, a packet that is delivered is, with
the ID of the query of the client in its first two bytes, a reply received in
that run.  It was received for the packet that the resolver builds for the
name, type and class that the client asks for, which asks for just these
where the name is rebuildable, and which went to the forwarder of the zone if
the name is in one; it has 12 to 1232 bytes and parses. -/
theorem delivered_received
    (cfg : Config F) (now : Int) (calls : List QueryCall)
    (call : QueryCall) (data : Bytes)
    (delivered :
      .respond .delivery data ∈
        (call.result cfg
          (run (queryCall cfg) (firewallStart now) calls)).effects) :
    ∃ query question more x raw,
      dnsParseMessage call.inbuf = .ok query ∧
        query.questions = question :: more ∧
          ExchangedIn cfg (firewallStart now) (calls ++ [call]) x ∧
            Dispatched cfg.resolver x ∧ x.question.SameAs question ∧
              (Rebuildable question.qname → AsksFor x.query question) ∧
                x.Fetched raw ∧ data = patchId query.header.id raw := by
  have supplied := @supplied_run F cfg (firewallStart now) rfl calls
  obtain ⟨query, question, more, x, raw, parsed, asked, member, isKey,
    fetched, isReply⟩ := delivered_processDnsQuery supplied delivered
  have exchanged :
      ExchangedIn cfg (firewallStart now) (calls ++ [call]) x := by
    rcases member with earlier | here
    · exact earlier.append [call]
    · exact exchangedIn_last here
  have dispatched := exchanged.dispatched
  have short : question.Fits :=
    Nat.le_of_lt (qname_length_of_asked parsed asked)
  have same := sameAs_of_questionKey dispatched.fits short isKey
  have member : question ∈ query.questions := by
    rw [asked]
    exact List.mem_cons_self
  exact
    ⟨query, question, more, x, raw, parsed, asked, exchanged, dispatched,
      same, dispatched.asksFor parsed member same, fetched, isReply⟩

/-- A server has an address for `a.` that lives for a minute. -/
def answeredCall : QueryCall :=
  ⟨envAnswering (replyA 60), queryA, some visitor⟩

theorem delivered_received_answered :
    ∃ query question more x raw,
      dnsParseMessage queryA = .ok query ∧
        query.questions = question :: more ∧
          ExchangedIn configDefault (firewallStart 0) ([] ++ [answeredCall])
              x ∧
            Dispatched configDefault.resolver x ∧
              x.question.SameAs question ∧
                (Rebuildable question.qname → AsksFor x.query question) ∧
                  x.Fetched raw ∧
                    patchId 4660 (replyA 60) =
                      patchId query.header.id raw :=
  delivered_received configDefault 0 [] answeredCall
    (patchId 4660 (replyA 60)) (by decide +kernel)

end DnsFirewall
