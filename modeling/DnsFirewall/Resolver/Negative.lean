import DnsFirewall.Resolver.Stores

/-!
# Negative answers

The server loop of `resolve_internal` takes a reply without answers for a
referral if it has an authority section, and looks at the response code only
behind that test.  A name error is recognised if both sections are empty; with
the SOA record of a negative answer it is not.
-/

namespace DnsFirewall

open CString

/-- The first server sends the packet, which has the response code of a name
error and announces no answers. -/
structure SaysNxDomain (env : Env) (question : DnsQuestion) (ns : NsRecord)
    (w : World) (raw : Bytes) (header : DnsHeader) : Prop where
  received :
    (sendQuery env ns.addr question (checkCache env question w).2).1 =
      some raw
  announced : readHeader raw = .ok header
  nxDomain : header.flags &&& 0x0F = dnsRcodeNxdomain
  noAnswers : header.ancount = 0

/-! ## The first reply -/

/-- A reply without answers and authorities is taken for a name error. -/
theorem replyKind_of_nxDomain
    {raw : Bytes} {resp : DnsMessage}
    (parsed : dnsParseMessage raw = .ok resp)
    (noAnswers : resp.answers = []) (noAuthorities : resp.authorities = [])
    (nxDomain : resp.header.flags &&& 0x0F = dnsRcodeNxdomain) :
    replyKind (some raw) = .nameError raw resp := by
  rw [replyKind]
  rw [usableReply_of_parsed parsed]
  simp only [noAnswers, noAuthorities, ne_eq, not_true_eq_false, if_false]
  rw [if_pos nxDomain]

/-- What is stored is found until it expires. -/
theorem lookupQuestion_storeReply
    (env : Env) (question : DnsQuestion) (raw : Bytes) (resp : DnsMessage)
    {ttl : UInt32} {w : World} {now : Int} (lives : ttl ≠ 0)
    (room : w.cache.HasRoom (questionKey question))
    (inTime : now ≤ env.time w.ticks + ttl.toNat) :
    (lookupQuestion (storeReply env question raw resp ttl w).2.cache
      question now).1 = some raw := by
  obtain ⟨pass, found⟩ := Cache.exists_find_of_hasRoom room
  have held :
      (storeReply env question raw resp ttl w).2.cache.Holds
        (questionKey question) pass
        ⟨questionKey question, raw, env.time w.ticks + ttl.toNat⟩ :=
    cacheStore_holds lives found
  rw [lookupQuestion_of_holds held inTime]

/-- A reply with empty sections is returned with -3 and stored. -/
theorem resolveInternal_of_nxDomain
    {env : Env} {cfg : ResolverConfig} (levels : Nat)
    {question : DnsQuestion} {ns : NsRecord} (rest : List NsRecord)
    {w : World} {raw : Bytes} {resp : DnsMessage} {now : Int}
    (iterates : ¬ Forwards cfg question.qname)
    (notCached : NotCached w.cache question (env.time w.ticks))
    (room : w.cache.HasRoom (questionKey question))
    (kind :
      replyKind
          (sendQuery env ns.addr question (checkCache env question w).2).1 =
        .nameError raw resp)
    (inTime : now ≤ env.time (w.ticks + 2) + 600) :
    (resolveInternal env cfg (levels + 1) question (ns :: rest)
        w).1.code = some (-3) ∧
      (lookupQuestion
        (resolveInternal env cfg (levels + 1) question (ns :: rest)
          w).2.cache question now).1 = some raw := by
  rw [resolveInternal_iterates env levels _ iterates
      (checkCache_of_notCached notCached), tryServers_cons, kind]
  refine ⟨rfl, ?_⟩
  have ask :=
    asked_sendQuery env ns.addr question (checkCache env question w).2
  have ticks :
      (sendQuery env ns.addr question
        (checkCache env question w).2).2.ticks = w.ticks + 2 := by
    rw [sendQuery_ticks, checkCache_ticks]
  have cache :
      (checkCache env question w).2.cache =
        (lookupQuestion w.cache question (env.time w.ticks)).2 :=
    cache_of_checkCache Prod.mk.eta.symm
  apply lookupQuestion_storeReply env question raw resp (by decide)
  · rw [ask.cache, cache]
    exact (pruned_lookupQuestion _ _ _).hasRoom room
  · rw [ticks]
    exact inTime

/-- What a call that ends with -3 has left for the question is a reply with
empty sections. -/
theorem parsed_of_negative
    {env : Env} {cfg : ResolverConfig} {levels : Nat}
    {question : DnsQuestion} {nsList : List NsRecord} {w : World}
    {raw : Bytes} {now : Int}
    (notCached : NotCached w.cache question (env.time w.ticks))
    (later : env.time w.ticks ≤ now)
    (negative :
      (resolveInternal env cfg levels question nsList w).1.code =
        some (-3))
    (found :
      (lookupQuestion
        (resolveInternal env cfg levels question nsList w).2.cache
        question now).1 = some raw) :
    ∃ resp, dnsParseMessage raw = .ok resp ∧ resp.authorities = [] := by
  have adds := adds_resolveInternal env cfg levels question nsList w
  generalize resolveInternal env cfg levels question nsList w = result
    at negative found adds
  obtain ⟨outcome, after⟩ := result
  obtain ⟨pass, entry, held, fresh, isReply⟩ := exists_holds_of_hit found
  rcases adds.entries _ entry held.holds with
    before | ⟨asked, resp, parsed, allowed⟩
  · have expired := notCached _ entry before held.isKey
    omega
  · rw [isReply] at parsed
    cases outcome with
    | nxDomain a => exact ⟨resp, parsed, allowed.2.2⟩
    | answer a => cases negative
    | failed => cases negative
    | tooDeep => cases negative
    | hung => cases negative

/-- The first server answers with a name error: the call returns -3, and the
reply is found in the cache afterwards, exactly if the reply parses and
announces no authority record. -/
theorem resolveInternal_negative_iff
    {env : Env} {cfg : ResolverConfig} {question : DnsQuestion}
    {ns : NsRecord} (rest : List NsRecord) {w : World} {raw : Bytes}
    {header : DnsHeader} {now : Int}
    (iterates : ¬ Forwards cfg question.qname)
    (notCached : NotCached w.cache question (env.time w.ticks))
    (room : w.cache.HasRoom (questionKey question))
    (reply : SaysNxDomain env question ns w raw header)
    (later : env.time w.ticks ≤ now)
    (inTime : now ≤ env.time (w.ticks + 2) + 600) :
    ((resolveInternal env cfg (maxRecursionDepth + 1) question
          (ns :: rest) w).1.code = some (-3) ∧
        (lookupQuestion
          (resolveInternal env cfg (maxRecursionDepth + 1) question
            (ns :: rest) w).2.cache question now).1 = some raw) ↔
      header.nscount = 0 ∧ ∃ resp, dnsParseMessage raw = .ok resp := by
  have counts :
      ∀ resp, dnsParseMessage raw = .ok resp →
        resp.header = header ∧ CountsMatch raw resp := by
    intro resp parsed
    have counted := (anchored_of_dnsParseMessage parsed).1
    have announced := counted.header
    rw [reply.announced] at announced
    exact ⟨(Except.ok.inj announced).symm, counted⟩
  constructor
  · intro recognised
    obtain ⟨negative, found⟩ := recognised
    obtain ⟨resp, parsed, noAuthorities⟩ :=
      parsed_of_negative notCached later negative found
    obtain ⟨same, counted⟩ := counts resp parsed
    have authorityCount := counted.authorities
    rw [noAuthorities, same, List.length_nil] at authorityCount
    exact ⟨UInt16.toNat_inj.mp authorityCount.symm, resp, parsed⟩
  · intro condition
    obtain ⟨noneAnnounced, resp, parsed⟩ := condition
    obtain ⟨same, counted⟩ := counts resp parsed
    have answerCount := counted.answers
    have authorityCount := counted.authorities
    rw [same, reply.noAnswers] at answerCount
    rw [same, noneAnnounced] at authorityCount
    have nxDomain := reply.nxDomain
    rw [← same] at nxDomain
    have kind :=
      replyKind_of_nxDomain parsed (List.eq_nil_of_length_eq_zero answerCount)
        (List.eq_nil_of_length_eq_zero authorityCount) nxDomain
    rw [← reply.received] at kind
    exact
      resolveInternal_of_nxDomain maxRecursionDepth rest iterates notCached
        room kind inTime

/-- The first question of a firewall with one root server, when every query
is answered with the packet. -/
def resolvedOnce (packet : Bytes) : Outcome × World :=
  resolveInternal (envAnswering packet) configIterative 17 questionA
    configIterative.rootHints worldStart

/-- NXDOMAIN with four empty sections. -/
def emptyNxDomain : Bytes :=
  [0, 0, 129, 131, 0, 0, 0, 0, 0, 0, 0, 0]

/-- NXDOMAIN for the name `a.` with the SOA record of the root. -/
def soaNxDomain : Bytes :=
  [0, 0, 129, 131, 0, 1, 0, 0, 0, 1, 0, 0,
    1, 97, 0, 0, 1, 0, 1,
    0, 0, 6, 0, 1, 0, 0, 0, 60, 0, 22, 0, 0] ++ List.replicate 20 0

/-- Without authorities the name error is returned and kept, with an SOA
record it is not. -/
theorem resolveInternal_negative_iff_both :
    ((resolvedOnce emptyNxDomain).1.code = some (-3) ∧
        (lookupQuestion (resolvedOnce emptyNxDomain).2.cache questionA
          0).1 = some emptyNxDomain) ∧
      ¬ ((resolvedOnce soaNxDomain).1.code = some (-3) ∧
        (lookupQuestion (resolvedOnce soaNxDomain).2.cache questionA
          0).1 = some soaNxDomain) := by
  have parses : (dnsParseMessage emptyNxDomain).toOption.isSome = true := by
    decide +kernel
  constructor
  · refine
      (@resolveInternal_negative_iff (envAnswering emptyNxDomain)
        configIterative questionA ⟨[97, 46], ⟨1, 53⟩⟩ [] worldStart
        emptyNxDomain ⟨0, 0x8183, 0, 0, 0, 0⟩ 0 iterates_questionA
        (notCached_cacheCreate questionA 0) ⟨0, Or.inl rfl⟩
        ⟨rfl, by decide, by decide, rfl⟩ (Int.le_refl 0)
        (by decide)).mpr ⟨rfl, ?_⟩
    cases parsed : dnsParseMessage emptyNxDomain with
    | error failure =>
        rw [parsed] at parses
        cases parses
    | ok resp => exact ⟨resp, rfl⟩
  · intro recognised
    have condition :=
      (@resolveInternal_negative_iff (envAnswering soaNxDomain)
        configIterative questionA ⟨[97, 46], ⟨1, 53⟩⟩ [] worldStart
        soaNxDomain ⟨0, 0x8183, 1, 0, 1, 0⟩ 0 iterates_questionA
        (notCached_cacheCreate questionA 0) ⟨0, Or.inl rfl⟩
        ⟨by decide, by decide, by decide, rfl⟩ (Int.le_refl 0)
        (by decide)).mp recognised
    exact absurd condition.1 (by decide)

/-! ## The SOA record -/

/-- Every name error of the first server would be returned and kept. -/
def NegativesRecognised : Prop :=
  ∀ (env : Env) (cfg : ResolverConfig) (question : DnsQuestion)
    (ns : NsRecord) (rest : List NsRecord) (w : World) (raw : Bytes)
    (header : DnsHeader) (now : Int),
    ¬ Forwards cfg question.qname →
      NotCached w.cache question (env.time w.ticks) →
        w.cache.HasRoom (questionKey question) →
          SaysNxDomain env question ns w raw header →
            env.time w.ticks ≤ now →
              now ≤ env.time (w.ticks + 2) + 600 →
                (resolveInternal env cfg (maxRecursionDepth + 1) question
                    (ns :: rest) w).1.code = some (-3) ∧
                  (lookupQuestion
                    (resolveInternal env cfg (maxRecursionDepth + 1)
                      question (ns :: rest) w).2.cache question now).1 =
                    some raw

/-- The reply is dropped, and the call returns -1. -/
theorem soaNxDomain_dropped : ¬ NegativesRecognised := by
  intro recognised
  have failed : (resolvedOnce soaNxDomain).1.code = some (-1) := by
    decide +kernel
  have negative :=
    (recognised (envAnswering soaNxDomain) configIterative questionA
      ⟨[97, 46], ⟨1, 53⟩⟩ [] worldStart soaNxDomain
      ⟨0, 0x8183, 1, 0, 1, 0⟩ 0 iterates_questionA
      (notCached_cacheCreate questionA 0) ⟨0, Or.inl rfl⟩
      ⟨by decide, by decide, by decide, rfl⟩ (Int.le_refl 0)
      (by decide)).1
  have same : (resolvedOnce soaNxDomain).1.code = some (-3) := negative
  rw [failed] at same
  exact absurd same (by decide)

end DnsFirewall
