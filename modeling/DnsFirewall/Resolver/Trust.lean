import DnsFirewall.Cache.Operations
import DnsFirewall.Resolver.Derivation
import DnsFirewall.Wire.EchoedReplies
import Mathlib.Data.List.Infix

/-!
# Which packets the resolver believes

The resolver returns, stores or follows a packet only if it has read it after
sending the packet it builds for the question, and if it parses.  It does not
compare the two: neither the ID, nor the QR bit, nor the question.
-/

namespace DnsFirewall

open CString

def lastExchange : List Event → Option Exchange
  | [] => none
  | .exchange x :: _ => some x
  | .believed _ _ _ :: earlier => lastExchange earlier

/-- Every packet believed is, at that point, an acceptable reply to the query
sent last. -/
def Backed (accepts : Exchange → DnsQuestion → Bytes → Prop) :
    List Event → Prop
  | [] => True
  | .exchange _ :: earlier => Backed accepts earlier
  | .believed _ question raw :: earlier =>
      (∃ x, lastExchange earlier = some x ∧ accepts x question raw) ∧
        Backed accepts earlier

/-- The bytes sent are the packet that is built for the question, and they
read back as that question where its name is a legal one. -/
structure SentFor (x : Exchange) (question : DnsQuestion) : Prop where
  packet : x.query = queryPacket x.id question
  asks :
    ∀ name : LegalName, content question.qname = name.text →
      AsksFor x.query ⟨name.text, question.qtype, question.qclass⟩

/-- The packet was read as the reply to the packet sent for the question, and
parses. -/
def Arrived (x : Exchange) (question : DnsQuestion) (raw : Bytes) : Prop :=
  SentFor x question ∧ x.reply = some raw ∧ 12 ≤ raw.length ∧
    ∃ message, dnsParseMessage raw = .ok message

/-- The packet is a response to that very query. -/
def Genuine (x : Exchange) (question : DnsQuestion) (raw : Bytes) : Prop :=
  Arrived x question raw ∧
    ∃ message, dnsParseMessage raw = .ok message ∧
      message.header.id = x.id ∧
        message.header.flags &&& dnsQrResponse = dnsQrResponse ∧
          message.questions = [question]

/-! ## One step -/

theorem usableReply_eq_some
    {reply : Option Bytes} {raw : Bytes} {resp : DnsMessage}
    (usable : usableReply reply = some (raw, resp)) :
    reply = some raw ∧ 12 ≤ raw.length ∧ dnsParseMessage raw = .ok resp := by
  unfold usableReply at usable
  cases reply with
  | none => cases usable
  | some packet =>
      simp only at usable
      by_cases short : packet.length < 12
      · rw [if_pos short] at usable
        cases usable
      · rw [if_neg short] at usable
        cases parsed : dnsParseMessage packet with
        | error failure =>
            rw [parsed] at usable
            cases usable
        | ok message =>
            rw [parsed] at usable
            cases usable
            exact ⟨rfl, Nat.not_lt.mp short, parsed⟩

theorem query_exchangeOf
    (server : SockAddrIn) (question : DnsQuestion) (id : UInt16)
    (reply : Option Bytes) :
    (exchangeOf server question id reply).query = queryPacket id question :=
  Eq.refl (queryPacket id question)

theorem sentFor_exchangeOf
    (server : SockAddrIn) (question : DnsQuestion) (id : UInt16)
    (reply : Option Bytes) :
    SentFor (exchangeOf server question id reply) question := by
  constructor
  · exact query_exchangeOf server question id reply
  · intro name isName
    rw [query_exchangeOf]
    exact asksFor_queryPacket id isName

theorem Asked.arrived
    {question : DnsQuestion} {w asked : World} {reply : Option Bytes}
    {raw : Bytes} {resp : DnsMessage}
    (ask : Asked question w reply asked)
    (usable : usableReply reply = some (raw, resp)) :
    ∃ x, lastExchange asked.log = some x ∧ Arrived x question raw := by
  obtain ⟨isReply, long, parsed⟩ := usableReply_eq_some usable
  rcases ask.log with ⟨noReply, _⟩ | ⟨server, id, logged⟩
  · rw [isReply] at noReply
    cases noReply
  · refine ⟨exchangeOf server question id reply, ?_, ?_⟩
    · rw [logged]
      rfl
    · exact
        ⟨sentFor_exchangeOf server question id reply, isReply, long, resp,
          parsed⟩

theorem Asked.backed
    {question : DnsQuestion} {w asked : World} {reply : Option Bytes}
    {accepts : Exchange → DnsQuestion → Bytes → Prop}
    (ask : Asked question w reply asked) (backed : Backed accepts w.log) :
    Backed accepts asked.log := by
  rcases ask.log with ⟨_, logged⟩ | ⟨server, id, logged⟩
  · rw [logged]
    exact backed
  · rw [logged]
    exact backed

theorem checkCache_log
    {env : Env} {question : DnsQuestion} {w after : World}
    {found : Option Answer}
    (checked : checkCache env question w = (found, after)) :
    after.log = w.log := by
  unfold checkCache at checked
  simp only at checked
  split at checked
  · cases checked
    rfl
  · split at checked
    · cases checked
      rfl
    · cases checked
      rfl

/-- The check leaves the cache as `cache_lookup` does. -/
theorem cache_of_checkCache
    {env : Env} {question : DnsQuestion} {w after : World}
    {found : Option Answer}
    (checked : checkCache env question w = (found, after)) :
    after.cache =
      (cacheLookup w.cache question.qname question.qtype question.qclass
        (env.time w.ticks)).2 := by
  unfold checkCache at checked
  simp only at checked
  split at checked
  · cases checked
    rfl
  · split at checked
    · cases checked
      rfl
    · cases checked
      rfl

theorem backed_storeReply
    {accepts : Exchange → DnsQuestion → Bytes → Prop}
    {env : Env} {question : DnsQuestion} {raw : Bytes} {w : World}
    (resp : DnsMessage) (ttl : UInt32)
    (arrived : ∃ x, lastExchange w.log = some x ∧ accepts x question raw)
    (backed : Backed accepts w.log) :
    Backed accepts (storeReply env question raw resp ttl w).2.log :=
  ⟨arrived, arrived, backed⟩

theorem backed_acceptForwarded
    {env : Env} {question : DnsQuestion} {w asked : World}
    {reply : Option Bytes} (ask : Asked question w reply asked)
    (backed : Backed Arrived asked.log) :
    Backed Arrived (acceptForwarded env question reply asked).2.log := by
  rw [acceptForwarded]
  cases usable : usableReply reply with
  | none => exact backed
  | some accepted =>
      exact backed_storeReply accepted.2 _ (ask.arrived usable) backed

/-! ## Whole resolutions -/

theorem Resolves.backed
    {env : Env} {cfg : ResolverConfig} {stage : Stage}
    {question : DnsQuestion} {nsList : List NsRecord} {w after : World}
    {outcome : Outcome}
    (run : Resolves env cfg stage question nsList w outcome after)
    (backed : Backed Arrived w.log) :
    Backed Arrived after.log := by
  induction run with
  | tooDeep => exact backed
  | cached hit =>
      rw [checkCache_log hit]
      exact backed
  | notAsked miss _ _ log =>
      rw [log, checkCache_log miss]
      exact backed
  | forwarded miss ask =>
      rw [← checkCache_log miss] at backed
      exact backed_acceptForwarded ask (ask.backed backed)
  | iterated miss _ inductionHypothesis =>
      rw [← checkCache_log miss] at backed
      exact inductionHypothesis backed
  | exhausted => exact backed
  | passedOver ask _ inductionHypothesis =>
      exact inductionHypothesis (ask.backed backed)
  | aliased ask usable _ _ _ inductionHypothesis =>
      exact inductionHypothesis ⟨ask.arrived usable, ask.backed backed⟩
  | answered ask usable _ =>
      exact backed_storeReply _ _ (ask.arrived usable) (ask.backed backed)
  | referred ask usable _ _ inductionHypothesis =>
      exact inductionHypothesis ⟨ask.arrived usable, ask.backed backed⟩
  | referredInVain ask usable _ _ _ below rest =>
      exact rest (below ⟨ask.arrived usable, ask.backed backed⟩)
  | nameError ask usable _ =>
      exact backed_storeReply _ _ (ask.arrived usable) (ask.backed backed)

theorem Asked.log_suffix
    {question : DnsQuestion} {w asked : World} {reply : Option Bytes}
    (ask : Asked question w reply asked) :
    w.log <:+ asked.log := by
  rcases ask.log with ⟨_, logged⟩ | ⟨server, id, logged⟩
  · rw [logged]
  · rw [logged]
    exact List.suffix_cons _ _

theorem Asked.note_suffix
    {question : DnsQuestion} {w asked : World} {reply : Option Bytes}
    (ask : Asked question w reply asked) (event : Event) :
    w.log <:+ (asked.note event).log :=
  ask.log_suffix.trans (List.suffix_cons event asked.log)

/-- The log only grows. -/
theorem Resolves.log_suffix
    {env : Env} {cfg : ResolverConfig} {stage : Stage}
    {question : DnsQuestion} {nsList : List NsRecord} {w after : World}
    {outcome : Outcome}
    (run : Resolves env cfg stage question nsList w outcome after) :
    w.log <:+ after.log := by
  have stores :
      ∀ (question : DnsQuestion) (raw : Bytes) (resp : DnsMessage)
        (ttl : UInt32) (w : World),
        w.log <:+ (storeReply env question raw resp ttl w).2.log := by
    intro question raw resp ttl w
    exact (List.suffix_cons _ _).trans (List.suffix_cons _ _)
  induction run with
  | tooDeep => exact List.suffix_rfl
  | cached hit =>
      rw [checkCache_log hit]
  | notAsked miss _ _ log =>
      rw [log, checkCache_log miss]
  | forwarded miss ask =>
      rw [← checkCache_log miss]
      refine ask.log_suffix.trans ?_
      rw [acceptForwarded]
      split
      · exact List.suffix_rfl
      · rename_i raw resp usable
        exact stores _ raw resp _ _
  | iterated miss _ inductionHypothesis =>
      rw [← checkCache_log miss]
      exact inductionHypothesis
  | exhausted => exact List.suffix_rfl
  | passedOver ask _ inductionHypothesis =>
      exact ask.log_suffix.trans inductionHypothesis
  | aliased ask _ _ _ _ inductionHypothesis =>
      exact (ask.note_suffix _).trans inductionHypothesis
  | answered ask _ _ => exact ask.log_suffix.trans (stores _ _ _ _ _)
  | referred ask _ _ _ inductionHypothesis =>
      exact (ask.note_suffix _).trans inductionHypothesis
  | referredInVain ask _ _ _ _ below rest =>
      exact (ask.note_suffix _).trans (below.trans rest)
  | nameError ask _ _ => exact ask.log_suffix.trans (stores _ _ _ _ _)

/-- The outcome hands out only packets that the log records as answers. -/
def Outcome.RecordedIn (log : List Event) : Outcome → Prop
  | .answer a =>
      match a.source with
      | .cached => True
      | .received _ => .believed .answered a.question a.raw ∈ log
  | .nxDomain (some a) => .believed .answered a.question a.raw ∈ log
  | .nxDomain none => True
  | .failed => True
  | .tooDeep => True
  | .hung => True

theorem recordedIn_passedOn
    {outcome : Outcome} {log : List Event}
    (recorded : outcome.RecordedIn log) :
    (passedOn outcome).RecordedIn log := by
  cases outcome with
  | nxDomain a => exact trivial
  | answer a => exact recorded
  | failed => exact trivial
  | tooDeep => exact trivial
  | hung => exact trivial

theorem Resolves.recordsAnswer
    {env : Env} {cfg : ResolverConfig} {stage : Stage}
    {question : DnsQuestion} {nsList : List NsRecord} {w after : World}
    {outcome : Outcome}
    (run : Resolves env cfg stage question nsList w outcome after) :
    outcome.RecordedIn after.log := by
  induction run with
  | tooDeep => exact trivial
  | cached hit =>
      unfold checkCache at hit
      simp only at hit
      split at hit
      · cases hit
      · split at hit
        · cases hit
        · cases hit
          exact trivial
  | notAsked _ ending _ _ =>
      rcases ending with rfl | rfl
      · exact trivial
      · exact trivial
  | forwarded _ _ =>
      unfold acceptForwarded
      split
      · exact trivial
      · exact List.mem_cons_self
  | iterated _ _ inductionHypothesis => exact inductionHypothesis
  | exhausted => exact trivial
  | passedOver _ _ inductionHypothesis => exact inductionHypothesis
  | aliased _ _ _ _ _ inductionHypothesis =>
      exact recordedIn_passedOn inductionHypothesis
  | answered _ _ _ => exact List.mem_cons_self
  | referred _ _ _ _ inductionHypothesis =>
      exact recordedIn_passedOn inductionHypothesis
  | referredInVain _ _ _ _ _ _ inductionHypothesis =>
      exact inductionHypothesis
  | nameError _ _ _ => exact List.mem_cons_self

/-- Every entry of the cache was there at the start, or the log records its
packet as stored. -/
def Accounted (start : Cache cacheDefaultSize) (w : World) : Prop :=
  ∀ slot entry, w.cache.entries slot = some entry →
    start.entries slot = some entry ∨
      ∃ question, .believed .stored question entry.data ∈ w.log

theorem Accounted.extend
    {start : Cache cacheDefaultSize} {w after : World}
    (accounted : Accounted start w)
    (kept :
      ∀ slot entry, after.cache.entries slot = some entry →
        w.cache.entries slot = some entry)
    (grown : w.log <:+ after.log) :
    Accounted start after := by
  intro slot entry occupied
  rcases accounted slot entry (kept slot entry occupied) with
    initial | ⟨question, stored⟩
  · exact Or.inl initial
  · exact Or.inr ⟨question, grown.subset stored⟩

theorem Asked.accounted
    {start : Cache cacheDefaultSize} {question : DnsQuestion}
    {w asked : World} {reply : Option Bytes}
    (ask : Asked question w reply asked) (accounted : Accounted start w) :
    Accounted start asked := by
  refine accounted.extend ?_ ask.log_suffix
  intro slot entry occupied
  rw [ask.cache] at occupied
  exact occupied

theorem Accounted.note
    {start : Cache cacheDefaultSize} {w : World} (event : Event)
    (accounted : Accounted start w) :
    Accounted start (w.note event) :=
  accounted.extend (fun _ _ occupied => occupied) (List.suffix_cons _ _)

theorem accounted_checkCache
    {start : Cache cacheDefaultSize} {env : Env}
    {question : DnsQuestion} {w after : World} {found : Option Answer}
    (checked : checkCache env question w = (found, after))
    (accounted : Accounted start w) :
    Accounted start after := by
  refine accounted.extend ?_ ?_
  · intro slot entry occupied
    rw [cache_of_checkCache checked] at occupied
    exact entries_of_cacheLookup occupied
  · rw [checkCache_log checked]

theorem accounted_storeReply
    {start : Cache cacheDefaultSize} {w : World} (env : Env)
    (question : DnsQuestion) (raw : Bytes) (resp : DnsMessage)
    (ttl : UInt32) (accounted : Accounted start w) :
    Accounted start (storeReply env question raw resp ttl w).2 := by
  intro slot entry occupied
  rcases entries_of_cacheStore occupied with before | ⟨_, _, isReply⟩
  · rcases accounted slot entry before with initial | ⟨asked, stored⟩
    · exact Or.inl initial
    · exact Or.inr
        ⟨asked, List.mem_cons_of_mem _ (List.mem_cons_of_mem _ stored)⟩
  · rw [isReply]
    exact Or.inr ⟨question, List.mem_cons_of_mem _ List.mem_cons_self⟩

theorem Resolves.accounted
    {env : Env} {cfg : ResolverConfig} {stage : Stage}
    {question : DnsQuestion} {nsList : List NsRecord} {w after : World}
    {outcome : Outcome} {start : Cache cacheDefaultSize}
    (run : Resolves env cfg stage question nsList w outcome after)
    (accounted : Accounted start w) :
    Accounted start after := by
  induction run with
  | tooDeep => exact accounted
  | cached hit => exact accounted_checkCache hit accounted
  | notAsked miss _ cache log =>
      refine (accounted_checkCache miss accounted).extend ?_ ?_
      · intro slot entry occupied
        rw [cache] at occupied
        exact occupied
      · rw [log]
  | forwarded miss ask =>
      have asked := ask.accounted (accounted_checkCache miss accounted)
      rw [acceptForwarded]
      split
      · exact asked
      · rename_i raw resp usable
        exact accounted_storeReply _ _ raw resp _ asked
  | iterated miss _ inductionHypothesis =>
      exact inductionHypothesis (accounted_checkCache miss accounted)
  | exhausted => exact accounted
  | passedOver ask _ inductionHypothesis =>
      exact inductionHypothesis (ask.accounted accounted)
  | aliased ask _ _ _ _ inductionHypothesis =>
      exact inductionHypothesis ((ask.accounted accounted).note _)
  | answered ask _ _ =>
      exact accounted_storeReply _ _ _ _ _ (ask.accounted accounted)
  | referred ask _ _ _ inductionHypothesis =>
      exact inductionHypothesis ((ask.accounted accounted).note _)
  | referredInVain ask _ _ _ _ below rest =>
      exact rest (below ((ask.accounted accounted).note _))
  | nameError ask _ _ =>
      exact accounted_storeReply _ _ _ _ _ (ask.accounted accounted)

/-- Every packet believed would be a response to the query sent last. -/
def OnlyGenuine : Prop :=
  ∀ (env : Env) (cfg : ResolverConfig) (levels : Nat)
    (question : DnsQuestion) (nsList : List NsRecord)
    (cache : Cache cacheDefaultSize) (pool : TcpPool) (ticks : Nat),
    Backed Genuine
      (resolveInternal env cfg levels question nsList
        ⟨cache, pool, ticks, []⟩).2.log

def questionA : DnsQuestion := ⟨[97, 46], dnsTypeA, dnsClassIn⟩

/-- A packet with another ID, no QR bit, no question and one address. -/
def strayPacket : Bytes :=
  [170, 170, 0, 0, 0, 0, 0, 1, 0, 0, 0, 0,
    0, 0, 1, 0, 1, 0, 0, 0, 60, 0, 4, 6, 6, 6, 6]

/-- Every query is answered with the given packet. -/
def envAnswering (packet : Bytes) : Env where
  time := fun _ => 0
  rand := fun _ => 0
  udp := fun _ => .reply packet
  lockFree := fun _ => true
  connect := fun _ => none
  tcp := fun _ => ⟨false, false, false, []⟩
  passes := 1
  deadFrame := []

/-- A reply that refers to the server `b.` with the address 10.0.0.1. -/
def referralPacket : Bytes :=
  [0, 0, 128, 0, 0, 0, 0, 0, 0, 1, 0, 1,
    0, 0, 2, 0, 1, 0, 0, 0, 60, 0, 3, 1, 98, 0,
    1, 98, 0, 0, 1, 0, 1, 0, 0, 0, 60, 0, 4, 10, 0, 0, 1]

/-- The query of one tick is answered with a referral, every other one with an
address. -/
def envReferring (referring : Nat) : Env :=
  { envAnswering strayPacket with
    udp := fun tick =>
      .reply (if tick = referring then referralPacket else strayPacket) }

/-- Iterative mode with one root server. -/
def configIterative : ResolverConfig :=
  ⟨staticForwarders, none, none, [⟨[97, 46], ⟨1, 53⟩⟩]⟩

end DnsFirewall
