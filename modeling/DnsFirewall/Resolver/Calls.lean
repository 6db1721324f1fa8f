import DnsFirewall.Resolver.Memory
import DnsFirewall.Wire.ParserSafety

/-!
# One call of the resolver

How a call of `resolve_internal` begins: the cache check, and in iterative
mode the first pass of the server loop.
-/

namespace DnsFirewall

open CString

/-- The return code, unless the call does not return. -/
def Outcome.code : Outcome → Option Int
  | .answer _ => some 0
  | .nxDomain _ => some (-3)
  | .failed => some (-1)
  | .tooDeep => some (-2)
  | .hung => none

/-- The message that is handed out. -/
def Outcome.message : Outcome → Option DnsMessage
  | .answer a => some a.message
  | .nxDomain a => a.map Answer.message
  | .failed => none
  | .tooDeep => none
  | .hung => none

/-- The question goes to a zone of the table or to `DNS_FORWARDER`. -/
def Forwards (cfg : ResolverConfig) (qname : Bytes) : Prop :=
  staticForwarderFor cfg qname ≠ none ∨ cfg.dnsForwarder ≠ none

/-- Every entry for the question has expired. -/
def NotCached (c : Cache cacheDefaultSize) (question : DnsQuestion)
    (now : Int) : Prop :=
  ∀ slot entry, c.entries slot = some entry →
    entry.key = questionKey question → entry.expiry < now

/-! ## The cache check -/

theorem checkCache_of_notCached
    {env : Env} {question : DnsQuestion} {w : World}
    (notCached : NotCached w.cache question (env.time w.ticks)) :
    (checkCache env question w).1 = none := by
  have missed :
      (lookupQuestion w.cache question (env.time w.ticks)).1 = none := by
    by_contra hit
    obtain ⟨raw, found⟩ := Option.ne_none_iff_exists'.mp hit
    obtain ⟨pass, entry, held, fresh, _⟩ := exists_holds_of_hit found
    have expired := notCached _ entry held.holds held.isKey
    omega
  unfold lookupQuestion at missed
  rw [checkCache]
  simp only [missed]

theorem checkCache_ticks
    (env : Env) (question : DnsQuestion) (w : World) :
    (checkCache env question w).2.ticks = w.ticks + 1 := by
  rw [checkCache]
  simp only
  split
  · rfl
  · split
    · rfl
    · rfl

/-- A call for which the cache holds a reply returns it with 0. -/
theorem resolveInternal_of_hit
    (env : Env) (cfg : ResolverConfig) (levels : Nat)
    {question : DnsQuestion} (nsList : List NsRecord) {w : World}
    {raw : Bytes} {message : DnsMessage}
    (hit :
      (lookupQuestion w.cache question (env.time w.ticks)).1 = some raw)
    (parsed : dnsParseMessage raw = .ok message) :
    (resolveInternal env cfg (levels + 1) question nsList w).1 =
      .answer ⟨message, raw, question, .cached⟩ := by
  have checked :
      (checkCache env question w).1 =
        some ⟨message, raw, question, .cached⟩ := by
    unfold lookupQuestion at hit
    unfold checkCache
    simp only [hit, parsed]
  rw [resolveInternal]
  generalize checkCache env question w = found at checked ⊢
  obtain ⟨hit, missed⟩ := found
  simp only at checked
  subst checked
  rfl

/-! ## The server loop -/

theorem sendQuery_ticks
    (env : Env) (ns : SockAddrIn) (question : DnsQuestion) (w : World) :
    (sendQuery env ns question w).2.ticks = w.ticks + 1 := by
  rw [sendQuery]
  split
  · rfl
  · rfl
  · rfl

theorem resolveInternal_iterates
    (env : Env) {cfg : ResolverConfig} (levels : Nat)
    {question : DnsQuestion} (nsList : List NsRecord) {w : World}
    (iterates : ¬ Forwards cfg question.qname)
    (miss : (checkCache env question w).1 = none) :
    resolveInternal env cfg (levels + 1) question nsList w =
      tryServers env (resolveInternal env cfg levels) question nsList
        nsList (checkCache env question w).2 := by
  have noZone : staticForwarderFor cfg question.qname = none := by
    by_contra zone
    exact iterates (Or.inl zone)
  have noForwarder : cfg.dnsForwarder = none := by
    by_contra forwarder
    exact iterates (Or.inr forwarder)
  rw [resolveInternal]
  generalize checkCache env question w = checked at miss ⊢
  obtain ⟨found, missed⟩ := checked
  simp only at miss
  subst miss
  simp only [noZone, noForwarder]

theorem usableReply_of_parsed
    {raw : Bytes} {resp : DnsMessage}
    (parsed : dnsParseMessage raw = .ok resp) :
    usableReply (some raw) = some (raw, resp) := by
  have long := (dnsParseMessage_eq_ok parsed).1
  unfold usableReply
  simp only
  rw [if_neg (Nat.not_lt.mpr long), parsed]

theorem usableReply_of_unparsed
    {raw : Bytes} (unparsed : ∀ resp, dnsParseMessage raw ≠ .ok resp) :
    usableReply (some raw) = none := by
  by_contra isUsable
  obtain ⟨accepted, usable⟩ := Option.ne_none_iff_exists'.mp isUsable
  obtain ⟨same, _, parsed⟩ := usableReply_eq_some usable
  cases same
  exact unparsed _ parsed

/-! ## A firewall that has just started -/

def worldStart : World :=
  ⟨cacheCreate cacheDefaultSize, tcpPoolStart, 0, []⟩

theorem iterates_questionA : ¬ Forwards configIterative questionA.qname := by
  intro forwards
  rcases forwards with inZone | toForwarder
  · exact inZone (by decide)
  · exact toForwarder rfl

theorem notCached_cacheCreate (question : DnsQuestion) (now : Int) :
    NotCached (cacheCreate cacheDefaultSize) question now := by
  intro slot entry occupied
  cases occupied

end DnsFirewall
