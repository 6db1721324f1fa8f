import DnsFirewall.Processor.Upstream
import DnsFirewall.Resolver.Memory
import DnsFirewall.Wire.ParserSafety

/-!
# Delivery of what was resolved

The reply to a resolved query is read back from the cache under the question
of the client.  While the clock stands still this gives the packet that the
resolver found exactly when the cache held it for that question from the
start, when the resolver has stored it for that question, or when an older copy
of it was in the table: behind the unused slot that the reply took under its own
key, or one that no longer parses.
-/

namespace DnsFirewall

open CString LinearProbing Cursor BigEndian Runs

variable {F : Type}

/-- What `resolver_resolve` returned with 0, if the policy check behind it let
it pass. -/
def CallResult.allowedAnswer (result : CallResult) : Option Answer :=
  match result.resolution with
  | some (.answer a, true) => some a
  | _ => none

/-- The two packets are the same behind their IDs. -/
def SamePacket (data raw : Bytes) : Prop :=
  2 ≤ data.length ∧ data.drop 2 = raw.drop 2

/-- The cache answers the question with a packet that parses. -/
def AnsweredByCache (c : Cache cacheDefaultSize) (question : DnsQuestion)
    (now : Int) : Prop :=
  ∃ raw message, (lookupQuestion c question now).1 = some raw ∧
    dnsParseMessage raw = .ok message

/-- The answer was received for the key of the question, with a lifetime, and
the table had an unused slot or an old entry of the key. -/
def StoredFor (question : DnsQuestion) (a : Answer) : Prop :=
  ∃ before, a.source = .received before ∧
    questionKey a.question = questionKey question ∧
      forwardedTtl a.message ≠ 0 ∧ before.HasRoom (questionKey question)

/-- The answer was stored for another key, and the slot that it took and entries
of other keys are all that lies before an unexpired copy of it in the search for
the question. -/
def CopyUncovered (question : DnsQuestion) (now : Int) (a : Answer) :
    Prop :=
  ∃ before stop pass entry, a.source = .received before ∧
    questionKey a.question ≠ questionKey question ∧
    forwardedTtl a.message ≠ 0 ∧
    before.find (questionKey a.question) = some stop ∧
    (pass < cacheDefaultSize ∧
      before.entries (before.slotOf (questionKey question) pass) =
          some entry ∧
        entry.key = questionKey question ∧
          ∀ earlier, earlier < pass →
            before.slotOf (questionKey question) earlier =
                before.slotOf (questionKey a.question) stop ∨
              ∃ other,
                before.entries
                    (before.slotOf (questionKey question) earlier) =
                  some other ∧
                  other.key ≠ questionKey question) ∧
    now ≤ entry.expiry ∧ SamePacket entry.data a.raw

/-- The search for the question ends, before and after the resolution, at an
unexpired copy of the packet. -/
def CopyStays (c after : Cache cacheDefaultSize) (question : DnsQuestion)
    (now : Int) (raw : Bytes) : Prop :=
  ∃ pass entry, c.Holds (questionKey question) pass entry ∧
    after.Holds (questionKey question) pass entry ∧ now ≤ entry.expiry ∧
      SamePacket entry.data raw

/-- Such a copy that does not parse: under another ID a name that points into
the header may read otherwise. -/
def UnreadableCopyStays (c after : Cache cacheDefaultSize)
    (question : DnsQuestion) (now : Int) (raw : Bytes) : Prop :=
  ¬ AnsweredByCache c question now ∧ CopyStays c after question now raw

/-! ## Packets and names -/

theorem patchId_eq_iff
    {data raw : Bytes} (long : 2 ≤ raw.length) (id : UInt16) :
    patchId id data = patchId id raw ↔ SamePacket data raw := by
  unfold patchId SamePacket
  rw [if_pos long]
  by_cases longData : 2 ≤ data.length
  · rw [if_pos longData, List.append_cancel_left_eq]
    exact ⟨fun same => ⟨longData, same⟩, fun both => both.2⟩
  · rw [if_neg longData]
    constructor
    · intro same
      have lengths := congrArg List.length same
      rw [List.length_append, bytes16_length] at lengths
      omega
    · exact fun both => absurd both.1 longData

theorem samePacket_self {raw : Bytes} (long : 2 ≤ raw.length) :
    SamePacket raw raw :=
  ⟨long, rfl⟩

theorem samePacket_patchId
    {data raw : Bytes} (same : SamePacket data raw) (id : UInt16) :
    SamePacket (patchId id data) raw := by
  obtain ⟨long, behind⟩ := same
  rw [patchId, if_pos long, SamePacket, List.length_append, bytes16_length]
  refine ⟨by omega, ?_⟩
  rw [← behind]
  rfl

theorem qname_length_of_readQuestion
    {pkt : Bytes} {start stop : Nat} {question : DnsQuestion}
    (read : readQuestion pkt start = .ok (question, stop)) :
    question.qname.length < dnsMaxNameLen := by
  unfold readQuestion at read
  simp only [bind_eq_ok, Prod.exists] at read
  obtain ⟨qname, middle, readsName, rest⟩ := read
  split at rest
  · cases rest
  · simp only [bind_eq_ok, pure, Except.pure] at rest
    obtain ⟨qtype, _, qclass, _, same⟩ := rest
    cases same
    exact (readName_ok two_le_dnsMaxNameLen readsName).1

theorem qname_length_of_dnsParseMessage
    {buf : Bytes} {msg : DnsMessage} {question : DnsQuestion}
    (parsed : dnsParseMessage buf = .ok msg)
    (member : question ∈ msg.questions) :
    question.qname.length < dnsMaxNameLen := by
  obtain ⟨_, _, read⟩ := exists_readQuestion_of_mem parsed member
  exact qname_length_of_readQuestion read

theorem qname_length_of_asked
    {buf : Bytes} {msg : DnsMessage} {question : DnsQuestion}
    {more : List DnsQuestion}
    (parsed : dnsParseMessage buf = .ok msg)
    (asked : msg.questions = question :: more) :
    question.qname.length < dnsMaxNameLen :=
  qname_length_of_dnsParseMessage parsed
    (by rw [asked]; exact List.mem_cons_self)

/-- The copy that the resolver works on has the key of the question. -/
theorem questionKey_resolverQuestion
    {question : DnsQuestion}
    (short : question.qname.length < dnsMaxNameLen) :
    questionKey (resolverQuestion question) = questionKey question := by
  have fits :
      (content question.qname).length < dnsMaxNameLen + 1 :=
    Nat.lt_of_le_of_lt (content_length_le question.qname)
      (Nat.lt_succ_of_lt short)
  unfold questionKey resolverQuestion buildKey
  simp only [boundedCopy_eq_self fits, content_content]

theorem lookupQuestion_resolverQuestion
    (c : Cache cacheDefaultSize) {question : DnsQuestion}
    (short : question.qname.length < dnsMaxNameLen) (now : Int) :
    lookupQuestion c (resolverQuestion question) now =
      lookupQuestion c question now := by
  have sameKey := questionKey_resolverQuestion short
  unfold questionKey at sameKey
  unfold lookupQuestion cacheLookup
  simp only [sameKey]

/-! ## What the cache gives back -/

theorem deliver_eq_iff
    {c : Cache cacheDefaultSize} {question : DnsQuestion} {id : UInt16}
    {now : Int} {raw : Bytes} (long : 2 ≤ raw.length) :
    (deliver c question id now).1 =
        .respond .delivery (patchId id raw) ↔
      ∃ data, (lookupQuestion c question now).1 = some data ∧
        SamePacket data raw := by
  rw [lookupQuestion, deliver]
  split
  · rename_i after result
    rw [result]
    constructor
    · intro delivered
      cases delivered
    · intro given
      obtain ⟨_, hit, _⟩ := given
      cases hit
  · rename_i data after result
    rw [result]
    constructor
    · intro delivered
      have patched : patchId id data = patchId id raw := by
        injection delivered
      exact ⟨data, rfl, (patchId_eq_iff long id).mp patched⟩
    · intro given
      obtain ⟨_, hit, same⟩ := given
      cases hit
      rw [← patchId_eq_iff long id] at same
      simp only [same]

theorem exists_lookup_of_holds
    {after : Cache cacheDefaultSize} {question : DnsQuestion} {pass : Nat}
    {entry : CacheEntry} {now : Int} {raw : Bytes}
    (held : after.Holds (questionKey question) pass entry)
    (fresh : now ≤ entry.expiry) (same : SamePacket entry.data raw) :
    ∃ data, (lookupQuestion after question now).1 = some data ∧
      SamePacket data raw := by
  refine ⟨entry.data, ?_, same⟩
  rw [lookupQuestion_of_holds held fresh]

theorem lookupQuestion_of_storedLast
    {a : Answer} {before after : Cache cacheDefaultSize} {now : Int}
    {question : DnsQuestion}
    (stored : StoredLast now a before after)
    (sameKey : questionKey a.question = questionKey question)
    (lives : forwardedTtl a.message ≠ 0)
    (room : before.HasRoom (questionKey question)) :
    (lookupQuestion after question now).1 = some a.raw := by
  rw [← sameKey] at room
  obtain ⟨pass, found⟩ := Cache.exists_find_of_hasRoom room
  have held :
      after.Holds (questionKey a.question) pass
        ⟨questionKey a.question, a.raw,
          now + (forwardedTtl a.message).toNat⟩ := by
    rw [stored]
    exact cacheStore_holds lives found
  rw [sameKey] at held
  rw [lookupQuestion_of_holds held (by simp only; omega)]

/-- What the search finds after the last store of a resolution is that store, or
was uncovered by it, or was found before it. -/
theorem holds_of_storedLast
    {a : Answer} {before after : Cache cacheDefaultSize} {now : Int}
    {question : DnsQuestion} {pass : Nat} {entry : CacheEntry}
    (source : a.source = .received before)
    (stored : StoredLast now a before after)
    (held : after.Holds (questionKey question) pass entry)
    (fresh : now ≤ entry.expiry) (same : SamePacket entry.data a.raw) :
    StoredFor question a ∨ CopyUncovered question now a ∨
      before.Holds (questionKey question) pass entry := by
  rw [stored] at held
  by_cases lives : forwardedTtl a.message = 0
  · rw [lives, cacheStore_of_ttl_zero] at held
    exact Or.inr (Or.inr held)
  cases found : before.find (questionKey a.question) with
  | none =>
      rw [cacheStore_of_full (Cache.find_eq_none_iff.mp found)] at held
      exact Or.inr (Or.inr held)
  | some stop =>
      by_cases sameKey : questionKey a.question = questionKey question
      · have room := Cache.hasRoom_of_find found
        rw [sameKey] at room
        exact Or.inl ⟨before, source, sameKey, lives, room⟩
      · have openWay := (holds_cacheStore_iff lives found sameKey).mp held
        exact
          Or.inr
            (Or.inl
              ⟨before, stop, pass, entry, source, sameKey, lives, found,
                openWay, fresh, same⟩)

/-- The packet is read back from the cache that a resolution leaves if and only
if the resolution stored it for the question or uncovered a copy, or a copy
stayed. -/
theorem readBack_iff
    {c after : Cache cacheDefaultSize} {now : Int} {a : Answer}
    {question : DnsQuestion} (long : 2 ≤ a.raw.length)
    (leaves : (Outcome.answer a).Leaves now c after) :
    (∃ data, (lookupQuestion after question now).1 = some data ∧
        SamePacket data a.raw) ↔
      StoredFor question a ∨ CopyUncovered question now a ∨
        CopyStays c after question now a.raw := by
  have found := leaves.2
  constructor
  · intro given
    obtain ⟨data, hit, same⟩ := given
    obtain ⟨pass, entry, held, fresh, isData⟩ := exists_holds_of_hit hit
    rw [← isData] at same
    cases source : a.source with
    | cached =>
        simp only [source] at found
        exact Or.inr (Or.inr ⟨pass, entry, found.1.holds held, held, fresh,
          same⟩)
    | received before =>
        simp only [source] at found
        obtain ⟨pruned, stored⟩ := found
        rcases holds_of_storedLast source stored held fresh same with
          storedFor | uncovered | earlier
        · exact Or.inl storedFor
        · exact Or.inr (Or.inl uncovered)
        · exact Or.inr (Or.inr ⟨pass, entry, pruned.holds earlier, held,
            fresh, same⟩)
  · intro given
    rcases given with
      ⟨before, source, sameKey, lives, room⟩ |
      ⟨before, stop, pass, entry, source, otherKey, lives, stops, openWay,
        fresh, same⟩ |
      ⟨pass, entry, _, held, fresh, same⟩
    · simp only [source] at found
      exact ⟨a.raw,
        lookupQuestion_of_storedLast found.2 sameKey lives room,
        samePacket_self long⟩
    · simp only [source] at found
      have held :
          after.Holds (questionKey question) pass entry := by
        rw [found.2]
        exact (holds_cacheStore_iff lives stops otherKey).mpr openWay
      exact exists_lookup_of_holds held fresh same
    · exact exists_lookup_of_holds held fresh same

/-! ## The call -/

/-- Where the cache answers the question with a packet that parses, this is
the resolution. -/
theorem resolution_of_hit
    (env : Env) (cfg : Config F) {fw : Firewall} {query : DnsMessage}
    {question : DnsQuestion} {more : List DnsQuestion} {raw : Bytes}
    {message : DnsMessage}
    (asked : query.questions = question :: more)
    (short : question.qname.length < dnsMaxNameLen)
    (hit : (lookupQuestion fw.cache question (env.time 2)).1 = some raw)
    (parsed : dnsParseMessage raw = .ok message) :
    resolution env cfg fw query =
      (.answer ⟨message, raw, resolverQuestion question, .cached⟩,
        ⟨fw.cache, fw.pool, 3, []⟩) := by
  rw [← lookupQuestion_resolverQuestion fw.cache short] at hit
  have sameCache := lookupQuestion_of_hit hit
  have checked :
      checkCache env (resolverQuestion question)
          ⟨fw.cache, fw.pool, 2, []⟩ =
        (some ⟨message, raw, resolverQuestion question, .cached⟩,
          ⟨fw.cache, fw.pool, 3, []⟩) := by
    unfold lookupQuestion at hit sameCache
    unfold checkCache
    simp only [hit, parsed, sameCache]
  unfold resolution resolverResolve
  rw [asked]
  simp only [resolveInternal, checked]

section StandingClock

variable {env : Env} {now : Int}

theorem resolution_of_answeredByCache
    (constant : ∀ tick, env.time tick = now)
    (cfg : Config F) {fw : Firewall} {query : DnsMessage}
    {question : DnsQuestion} {more : List DnsQuestion}
    (asked : query.questions = question :: more)
    (short : question.qname.length < dnsMaxNameLen)
    (answered : AnsweredByCache fw.cache question now) :
    ∃ a, (resolution env cfg fw query).1 = .answer a ∧
      (resolution env cfg fw query).2.cache = fw.cache ∧
        (lookupQuestion fw.cache question now).1 = some a.raw := by
  obtain ⟨raw, message, hit, parsed⟩ := answered
  have result :=
    resolution_of_hit env cfg asked short (by rw [constant]; exact hit) parsed
  rw [result]
  exact ⟨_, rfl, rfl, hit⟩

theorem copyStays_of_answeredByCache
    (constant : ∀ tick, env.time tick = now)
    {cfg : Config F} {fw : Firewall} {query : DnsMessage}
    {question : DnsQuestion} {more : List DnsQuestion} {a : Answer}
    (asked : query.questions = question :: more)
    (short : question.qname.length < dnsMaxNameLen)
    (answered : AnsweredByCache fw.cache question now)
    (result : (resolution env cfg fw query).1 = .answer a)
    (long : 2 ≤ a.raw.length) :
    CopyStays fw.cache (resolution env cfg fw query).2.cache question now
      a.raw := by
  obtain ⟨other, same, cache, hit⟩ :=
    resolution_of_answeredByCache constant cfg asked short answered
  rw [result] at same
  cases same
  obtain ⟨pass, entry, held, fresh, isRaw⟩ := exists_holds_of_hit hit
  rw [cache]
  refine ⟨pass, entry, held, held, fresh, ?_⟩
  rw [isRaw]
  exact samePacket_self long

theorem leaves_resolution
    (constant : ∀ tick, env.time tick = now)
    (cfg : Config F) (fw : Firewall) {query : DnsMessage}
    {question : DnsQuestion} {more : List DnsQuestion}
    (asked : query.questions = question :: more) :
    (resolution env cfg fw query).1.Leaves now fw.cache
      (resolution env cfg fw query).2.cache := by
  rw [resolution, resolverResolve]
  rw [asked]
  exact
    (resolves_resolveInternal env cfg.resolver (maxRecursionDepth + 1)
      (resolverQuestion question) cfg.resolver.rootHints
      ⟨fw.cache, fw.pool, 2, []⟩).leaves constant

end StandingClock

theorem resolution_admittedState
    (env : Env) (cfg : Config F) (fw : Firewall)
    (client : Option SockAddrIn) (query : DnsMessage) :
    resolution env cfg (admittedState env fw client) query =
      resolution env cfg fw query := by
  rw [resolution, admittedState, rateLimit]
  split
  · rfl
  · rfl

/-- A call whose answer passes the policy sends what is read back from the
cache that the resolver leaves. -/
theorem allowedAnswer_cases
    {env : Env} {cfg : Config F} {fw : Firewall} {inbuf : Bytes}
    {client : Option SockAddrIn} {a : Answer}
    (resolved :
      (processDnsQuery env cfg fw inbuf client).allowedAnswer = some a) :
    ∃ query question more tick,
      dnsParseMessage inbuf = .ok query ∧
        query.questions = question :: more ∧
          (resolution env cfg fw query).1 = .answer a ∧
            (processDnsQuery env cfg fw inbuf client).effects =
              [(deliver (resolution env cfg fw query).2.cache question
                query.header.id (env.time tick)).1] := by
  have branch := branch_processDnsQuery env cfg fw inbuf client
  generalize processDnsQuery env cfg fw inbuf client = result
    at branch resolved ⊢
  cases branch with
  | unparsed _ => cases resolved
  | limited _ _ => cases resolved
  | unasked _ _ _ => cases resolved
  | banned _ _ _ _ => cases resolved
  | listed _ _ _ _ _ => cases resolved
  | generated _ _ _ _ _ _ => cases resolved
  | ruled _ _ =>
      unfold CallResult.allowedAnswer blockedCall at resolved
      simp only at resolved
      split at resolved
      · rename_i found same
        rw [Option.some.injEq, Prod.mk.injEq] at same
        exact absurd same.2 Bool.false_ne_true
      · cases resolved
  | @allowed query question flux passes action =>
      obtain ⟨more, asked⟩ := passes.asked
      refine ⟨query, question, more,
        checkedTick env cfg (admittedState env fw client) query,
        passes.parsed, asked, ?_⟩
      rw [← resolution_admittedState env cfg fw client query]
      cases outcome :
          (resolution env cfg (admittedState env fw client) query).1 with
      | answer found =>
          rw [outcome] at resolved
          cases resolved
          exact ⟨rfl, rfl⟩
      | nxDomain found =>
          rw [outcome] at resolved
          cases resolved
      | failed =>
          rw [outcome] at resolved
          cases resolved
      | tooDeep =>
          rw [outcome] at resolved
          cases resolved
      | hung =>
          rw [outcome] at resolved
          cases resolved

/-- A resolved answer is sent to the client, with nothing but its ID replaced,
if and only if the cache held it for the question of the client, or it was
stored for that question, or storing it for another one has uncovered an older
copy of it, or an older copy that does not parse has stayed. -/
theorem delivered_iff
    {env : Env} {now : Int} (constant : ∀ tick, env.time tick = now)
    (cfg : Config F) (fw : Firewall) {inbuf : Bytes}
    (client : Option SockAddrIn) {query : DnsMessage}
    {question : DnsQuestion} {more : List DnsQuestion} {a : Answer}
    (parsed : dnsParseMessage inbuf = .ok query)
    (asked : query.questions = question :: more)
    (resolved :
      (processDnsQuery env cfg fw inbuf client).allowedAnswer = some a) :
    dnsParseMessage a.raw = .ok a.message ∧
      ((processDnsQuery env cfg fw inbuf client).effects =
          [.respond .delivery (patchId query.header.id a.raw)] ↔
        AnsweredByCache fw.cache question now ∨ StoredFor question a ∨
          CopyUncovered question now a ∨
            UnreadableCopyStays fw.cache
              (resolution env cfg fw query).2.cache question now
              a.raw) := by
  obtain ⟨other, first, rest, tick, alsoParsed, alsoAsked, result,
    effects⟩ := allowedAnswer_cases resolved
  obtain ⟨rfl, rfl, rfl⟩ :=
    same_question parsed asked alsoParsed alsoAsked
  have short := qname_length_of_asked parsed asked
  have leaves := leaves_resolution constant cfg fw asked
  rw [result] at leaves
  have long : 2 ≤ a.raw.length :=
    Nat.le_trans (by decide) (dnsParseMessage_eq_ok leaves.1).1
  refine ⟨leaves.1, ?_⟩
  rw [effects, constant, List.cons.injEq, and_iff_left rfl,
    deliver_eq_iff long, readBack_iff long leaves]
  by_cases answered : AnsweredByCache fw.cache first now
  · have stays :=
      copyStays_of_answeredByCache constant asked short answered result long
    exact
      iff_of_true (Or.inr (Or.inr stays)) (Or.inl answered)
  · rw [UnreadableCopyStays, and_iff_right answered, or_iff_right answered]

/-! ## A reply without a lifetime -/

/-- A reply with the given lifetime to the query for `a.` that is sent with
ID 0. -/
def replyA (ttl : UInt8) : Bytes :=
  [0, 0, 129, 128, 0, 1, 0, 1, 0, 0, 0, 0,
    1, 97, 0, 0, 1, 0, 1,
    192, 12, 0, 1, 0, 1, 0, 0, 0, ttl, 0, 4, 6, 6, 6, 6]

/-- A reply that lives for a minute is sent if it was stored. -/
theorem delivered_iff_replyA :
    ∃ query question a,
      dnsParseMessage queryA = .ok query ∧
        (processDnsQuery (envAnswering (replyA 60)) configDefault
            (firewallStart 0) queryA (some visitor)).allowedAnswer =
          some a ∧
        ((processDnsQuery (envAnswering (replyA 60)) configDefault
              (firewallStart 0) queryA (some visitor)).effects =
            [.respond .delivery (patchId query.header.id a.raw)] ↔
          AnsweredByCache (firewallStart 0).cache question 0 ∨
            StoredFor question a ∨
              CopyUncovered question 0 a ∨
                UnreadableCopyStays (firewallStart 0).cache
                  (resolution (envAnswering (replyA 60)) configDefault
                    (firewallStart 0) query).2.cache
                  question 0 a.raw) := by
  have allowed :
      (processDnsQuery (envAnswering (replyA 60)) configDefault
        (firewallStart 0) queryA
        (some visitor)).allowedAnswer.isSome = true := by
    decide +kernel
  obtain ⟨a, resolved⟩ := Option.isSome_iff_exists.mp allowed
  have parsed :
      dnsParseMessage queryA =
        .ok ⟨⟨4660, 256, 1, 0, 0, 0⟩, [questionA], [], [], []⟩ := by
    decide +kernel
  exact ⟨_, questionA, a, parsed, resolved,
    (delivered_iff (fun _ => rfl) configDefault (firewallStart 0)
      (some visitor) parsed rfl resolved).2⟩

/-- Every resolved answer that the policy allows would be sent, in every state
that a run of queries reaches. -/
def ResolvedAnswersDelivered : Prop :=
  ∀ (F : Type) (env : Env) (now start : Int) (cfg : Config F)
    (earlier : List QueryCall) (inbuf : Bytes)
    (client : Option SockAddrIn) (query : DnsMessage) (a : Answer),
    (∀ tick, env.time tick = now) →
      dnsParseMessage inbuf = .ok query → query.questions ≠ [] →
        let fw := run (queryCall cfg) (firewallStart start) earlier
        (processDnsQuery env cfg fw inbuf client).allowedAnswer =
            some a →
          dnsParseMessage a.raw = .ok a.message ∧
            (processDnsQuery env cfg fw inbuf client).effects =
              [.respond .delivery (patchId query.header.id a.raw)]

/-- An answer that may not be cached is resolved, and SERVFAIL is sent. -/
theorem not_resolvedAnswersDelivered : ¬ ResolvedAnswersDelivered := by
  intro delivered
  have allowed :
      (processDnsQuery (envAnswering (replyA 0)) configDefault
        (firewallStart 0) queryA
        (some visitor)).allowedAnswer.isSome = true := by
    decide +kernel
  obtain ⟨a, resolved⟩ := Option.isSome_iff_exists.mp allowed
  have parsed :
      dnsParseMessage queryA =
        .ok ⟨⟨4660, 256, 1, 0, 0, 0⟩, [questionA], [], [], []⟩ := by
    decide +kernel
  have failed :
      (processDnsQuery (envAnswering (replyA 0)) configDefault
        (firewallStart 0) queryA (some visitor)).effects =
        [.respond .cacheMiss (errorResponse 4660)] := by
    decide +kernel
  have sent :=
    (delivered Rat (envAnswering (replyA 0)) 0 0 configDefault [] queryA
      (some visitor) _ a (fun _ => rfl) parsed (List.cons_ne_nil _ _)
      resolved).2
  simp only [run_nil] at sent
  rw [failed] at sent
  cases sent

end DnsFirewall
