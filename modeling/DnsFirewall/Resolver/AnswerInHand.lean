import DnsFirewall.Resolver.Calls
import DnsFirewall.Resolver.Zones

/-!
# Replies that hold the answer

The server loop looks at the first answer record only.  If that is a CNAME
record whose target decodes, the loop resolves the target, frees the reply and
returns what the inner call returns, even if the records behind the first one
answer the question.
-/

namespace DnsFirewall

open CString Cursor

/-- The names have the same labels without case. -/
def SameLabels (first second : Bytes) : Prop :=
  foldedLabels (content first) = foldedLabels (content second)

/-- Among the records an alias chain leads from the name to a record of the
type; `targets` reads the names in CNAME records. -/
inductive AliasChain (targets : DnsRr → Bytes → Prop)
    (records : List DnsRr) (type : UInt16) : Bytes → Prop where
  | reached {name rr}
      (listed : rr ∈ records)
      (owner : SameLabels rr.name name)
      (isType : rr.type = type) :
      AliasChain targets records type name
  | aliased {name rr target}
      (listed : rr ∈ records)
      (owner : SameLabels rr.name name)
      (isCname : rr.type = dnsTypeCname)
      (reads : targets rr target)
      (behind : AliasChain targets records type target) :
      AliasChain targets records type name

theorem AliasChain.exists_mem
    {targets : DnsRr → Bytes → Prop} {records : List DnsRr}
    {type : UInt16} {name : Bytes}
    (chain : AliasChain targets records type name) :
    ∃ rr ∈ records, rr.type = type := by
  induction chain with
  | reached listed _ isType => exact ⟨_, listed, isType⟩
  | aliased _ _ _ _ _ inductionHypothesis => exact inductionHypothesis

/-- The message contains a record of the type. -/
def DnsMessage.Has (message : DnsMessage) (type : UInt16) : Prop :=
  ∃ rr ∈ message.answers ++ message.authorities ++ message.additionals,
    rr.type = type

/-- The other environment has the same clock and random numbers, and the same
outcome of the exchange at the tick; nothing is said of the other exchanges.
-/
structure Env.AgreesAt (env : Env) (tick : Nat) (other : Env) : Prop where
  time : other.time = env.time
  rand : other.rand = env.rand
  exchange : other.udp tick = env.udp tick

/-- Whatever comes of the exchanges behind the first one, the call returns 0
with a record of the type that was asked for. -/
def AnswerKept (env : Env) (cfg : ResolverConfig) (levels : Nat)
    (question : DnsQuestion) (nsList : List NsRecord) (w : World) : Prop :=
  ∀ other, env.AgreesAt (w.ticks + 1) other →
    ∃ a,
      (resolveInternal other cfg levels question nsList w).1 = .answer a ∧
        a.message.Has question.qtype

/-- The answer section of a packet, whatever stands behind it. -/
def answerSection (raw : Bytes) : Except ReadError (List DnsRr) := do
  let header ← readHeader raw
  let (_, offset) ← readMany (readQuestion raw) header.qdcount.toNat 12
  let (answers, _) ← readMany (readRr raw) header.ancount.toNat offset
  return answers

theorem answerSection_of_parsed
    {raw : Bytes} {resp : DnsMessage}
    (parsed : dnsParseMessage raw = .ok resp) :
    answerSection raw = .ok resp.answers := by
  obtain ⟨_, header, _, _, _, _, questions, answers, _, _⟩ :=
    dnsParseMessage_eq_ok parsed
  rw [answerSection, header]
  simp only [bind, Except.bind, questions, answers]
  rfl

/-- The name that the loop follows instead of taking the reply. -/
def followedName (raw : Bytes) (answers : List DnsRr) : Option Bytes :=
  answers.head?.bind (aliasTarget raw)

/-- When the call looks for the name, two ticks later, the cache holds a reply
with a record of the type that was asked for. -/
def AnsweredFromCache (env : Env) (question : DnsQuestion) (w : World)
    (name : Bytes) : Prop :=
  ∃ packet message,
    (lookupQuestion
        (lookupQuestion w.cache question (env.time w.ticks)).2
        { question with qname := name } (env.time (w.ticks + 2))).1 =
        some packet ∧
      dnsParseMessage packet = .ok message ∧ message.Has question.qtype

/-! ## Silence -/

section Silence

variable {env : Env} {w : World}

theorem sendQuery_of_silent
    (silent : ∀ tick, w.ticks ≤ tick → env.udp tick = .noReply)
    (ns : SockAddrIn) (question : DnsQuestion) :
    (sendQuery env ns question w).1 = none := by
  rw [sendQuery]
  rw [silent w.ticks (Nat.le_refl _)]

/-- The loop gives up when no server replies. -/
theorem tryServers_of_silent
    (silent : ∀ tick, w.ticks ≤ tick → env.udp tick = .noReply)
    (recurse : DnsQuestion → List NsRecord → World → Outcome × World)
    (question : DnsQuestion) (nsList left : List NsRecord) :
    (tryServers env recurse question nsList left w).1 = .failed := by
  induction left generalizing w with
  | nil => rfl
  | cons ns left inductionHypothesis =>
      have kind :
          replyKind (sendQuery env ns.addr question w).1 = .useless := by
        rw [sendQuery_of_silent silent]
        rfl
      rw [tryServers_cons, kind]
      apply inductionHypothesis
      intro tick later
      rw [sendQuery_ticks] at later
      exact silent tick (Nat.le_of_succ_le later)

/-- When no server replies any more, only the cache can answer. -/
theorem resolveInternal_of_silent
    (silent : ∀ tick, w.ticks ≤ tick → env.udp tick = .noReply)
    {cfg : ResolverConfig} (noForwarder : cfg.dnsForwarder = none)
    {levels : Nat} {question : DnsQuestion} {nsList : List NsRecord}
    {a : Answer}
    (answered :
      (resolveInternal env cfg levels question nsList w).1 = .answer a) :
    0 < levels ∧
      (lookupQuestion w.cache question (env.time w.ticks)).1 =
          some a.raw ∧
        dnsParseMessage a.raw = .ok a.message := by
  cases levels with
  | zero => cases answered
  | succ levels =>
      refine ⟨Nat.succ_pos levels, ?_⟩
      have ticks := checkCache_ticks env question w
      rw [resolveInternal] at answered
      cases checked : checkCache env question w with
      | mk hit missed =>
          rw [checked] at answered ticks
          have stillSilent :
              ∀ tick, missed.ticks ≤ tick → env.udp tick = .noReply := by
            intro tick later
            rw [ticks] at later
            exact silent tick (Nat.le_of_succ_le later)
          cases hit with
          | some found =>
              cases answered
              obtain ⟨isRaw, _, _, _, parsed⟩ := checkCache_eq_some checked
              exact ⟨isRaw, parsed⟩
          | none =>
              simp only [noForwarder] at answered
              cases zone : staticForwarderFor cfg question.qname with
              | some addr =>
                  simp only [zone] at answered
                  rw [sendQuery_of_silent stillSilent] at answered
                  cases answered
              | none =>
                  simp only [zone] at answered
                  rw [tryServers_of_silent stillSilent] at answered
                  cases answered

end Silence

theorem passedOn_eq_answer_iff {outcome : Outcome} {a : Answer} :
    passedOn outcome = .answer a ↔ outcome = .answer a := by
  cases outcome with
  | answer b => exact Iff.rfl
  | nxDomain b => exact iff_of_false nofun nofun
  | failed => exact Iff.rfl
  | tooDeep => exact Iff.rfl
  | hung => exact Iff.rfl

/-! ## The first reply -/

section FirstReply

variable {env other : Env} {cfg : ResolverConfig} {question : DnsQuestion}
  {ns : NsRecord} {w : World} {raw : Bytes} {resp : DnsMessage}

theorem Env.AgreesAt.checkCache_eq
    {tick : Nat} (agrees : env.AgreesAt tick other) :
    checkCache other question w = checkCache env question w := by
  unfold checkCache
  rw [agrees.time]

theorem Env.AgreesAt.sendQuery_eq
    (agrees : env.AgreesAt w.ticks other) (addr : SockAddrIn) :
    sendQuery other addr question w = sendQuery env addr question w := by
  unfold sendQuery randomId
  rw [agrees.exchange, agrees.rand]

theorem replyKind_of_answers
    {reply : Option Bytes} (usable : usableReply reply = some (raw, resp))
    {first : DnsRr} {more : List DnsRr}
    (answers : resp.answers = first :: more) :
    replyKind reply =
      match followedName raw resp.answers with
      | some name => .cname raw name
      | none => .answer raw resp first.ttl := by
  have follows :
      followedName raw resp.answers = aliasTarget raw first := by
    rw [followedName, answers]
    rfl
  rw [replyKind, usable, follows]
  cases target : aliasTarget raw first with
  | some name => simp only [answers, target]
  | none => simp only [answers, target]

/-- The state in which the name of the first record is resolved. -/
def followedFrom (env : Env) (question : DnsQuestion) (ns : NsRecord)
    (w : World) (raw : Bytes) : World :=
  (sendQuery env ns.addr question (checkCache env question w).2).2.note
    (.believed .followedCname question raw)

theorem followedFrom_ticks :
    (followedFrom env question ns w raw).ticks = w.ticks + 2 := by
  have ticks :=
    sendQuery_ticks env ns.addr question (checkCache env question w).2
  rw [checkCache_ticks] at ticks
  exact ticks

theorem followedFrom_cache :
    (followedFrom env question ns w raw).cache =
      (lookupQuestion w.cache question (env.time w.ticks)).2 := by
  have ask :=
    asked_sendQuery env ns.addr question (checkCache env question w).2
  exact ask.cache.trans (cache_of_checkCache Prod.mk.eta.symm)

/-- The first record decides: the call takes the reply, or ends as the call
for the name in it does. -/
theorem resolveInternal_of_firstReply
    (levels : Nat) (rest : List NsRecord)
    (iterates : ¬ Forwards cfg question.qname)
    (notCached : NotCached w.cache question (env.time w.ticks))
    (usable :
      usableReply
          (sendQuery env ns.addr question (checkCache env question w).2).1 =
        some (raw, resp))
    (hasAnswer : resp.answers ≠ [])
    (agrees : env.AgreesAt (w.ticks + 1) other) :
    (resolveInternal other cfg (levels + 1) question (ns :: rest) w).1 =
      match followedName raw resp.answers with
      | some name =>
          passedOn
            (resolveInternal other cfg levels
              { question with qname := name } (ns :: rest)
              (followedFrom env question ns w raw)).1
      | none =>
          .answer
            ⟨resp, raw, question,
              .received
                (sendQuery env ns.addr question
                  (checkCache env question w).2).2.cache⟩ := by
  obtain ⟨first, more, answers⟩ := List.exists_cons_of_ne_nil hasAnswer
  have missed := checkCache_of_notCached notCached
  rw [← agrees.checkCache_eq] at missed
  rw [← checkCache_ticks env question w] at agrees
  rw [resolveInternal_iterates other levels _ iterates missed,
    tryServers_cons, agrees.checkCache_eq, agrees.sendQuery_eq,
    replyKind_of_answers usable answers]
  cases followedName raw resp.answers with
  | some name => rfl
  | none => rfl

/-- The same environment in which all other servers are silent. -/
def Env.deafBut (env : Env) (tick : Nat) : Env :=
  { env with
    udp := fun other => if other = tick then env.udp tick else .noReply }

theorem agreesAt_deafBut (env : Env) (tick : Nat) :
    env.AgreesAt tick (env.deafBut tick) :=
  ⟨rfl, rfl, if_pos rfl⟩

/-- A name that is followed while the other servers are silent is only
answered from the cache. -/
theorem answeredFromCache_of_deaf
    {levels : Nat} {nsList : List NsRecord}
    (noForwarder : cfg.dnsForwarder = none) {name : Bytes} {a : Answer}
    (answered :
      (resolveInternal (env.deafBut (w.ticks + 1)) cfg levels
          { question with qname := name } nsList
          (followedFrom env question ns w raw)).1 = .answer a)
    (has : a.message.Has question.qtype) :
    0 < levels ∧ AnsweredFromCache env question w name := by
  have silent :
      ∀ tick, (followedFrom env question ns w raw).ticks ≤ tick →
        (env.deafBut (w.ticks + 1)).udp tick = .noReply := by
    intro tick later
    rw [followedFrom_ticks] at later
    exact if_neg (by omega)
  obtain ⟨below, found, parsed⟩ :=
    resolveInternal_of_silent silent noForwarder answered
  rw [followedFrom_ticks, followedFrom_cache] at found
  exact ⟨below, a.raw, a.message, found, parsed, has⟩

/-- A name that the cache answers is answered with a record of the type. -/
theorem answered_of_answeredFromCache
    {levels : Nat} {name : Bytes} (nsList : List NsRecord)
    (below : 0 < levels) (cached : AnsweredFromCache env question w name)
    (agrees : env.AgreesAt (w.ticks + 1) other) :
    ∃ a,
      (resolveInternal other cfg levels
          { question with qname := name } nsList
          (followedFrom env question ns w raw)).1 = .answer a ∧
        a.message.Has question.qtype := by
  obtain ⟨packet, message, found, parsed, has⟩ := cached
  obtain ⟨lower, rfl⟩ := Nat.exists_eq_succ_of_ne_zero below.ne'
  have hit :
      (lookupQuestion (followedFrom env question ns w raw).cache
          { question with qname := name }
          (other.time (followedFrom env question ns w raw).ticks)).1 =
        some packet := by
    rw [followedFrom_cache, followedFrom_ticks, agrees.time]
    exact found
  rw [resolveInternal_of_hit other cfg lower nsList hit parsed]
  exact ⟨_, rfl, has⟩

/-- A reply that does not parse is passed over. -/
theorem resolveInternal_of_unparsed
    (levels : Nat) (rest : List NsRecord)
    (iterates : ¬ Forwards cfg question.qname)
    (notCached : NotCached w.cache question (env.time w.ticks))
    (received :
      (sendQuery env ns.addr question (checkCache env question w).2).1 =
        some raw)
    (unparsed : ∀ resp, dnsParseMessage raw ≠ .ok resp) :
    (resolveInternal (env.deafBut (w.ticks + 1)) cfg (levels + 1) question
      (ns :: rest) w).1 = .failed := by
  have agrees := agreesAt_deafBut env (w.ticks + 1)
  have ticks := checkCache_ticks env question w
  have missed := checkCache_of_notCached notCached
  rw [← agrees.checkCache_eq] at missed
  have kind : replyKind (some raw) = .useless := by
    rw [replyKind, usableReply_of_unparsed unparsed]
  rw [resolveInternal_iterates _ levels _ iterates missed, tryServers_cons,
    agrees.checkCache_eq]
  rw [← ticks] at agrees ⊢
  rw [agrees.sendQuery_eq, received, kind]
  apply tryServers_of_silent
  intro tick later
  rw [sendQuery_ticks] at later
  exact if_neg (by omega)

/-- The first server's reply leads from the name to a record of the type: the
call returns such a record, whatever the other exchanges bring, exactly if the
reply parses, and its first record is not followed or leads to a name that the
cache answers. -/
theorem resolveInternal_keepsAnswer_iff
    (levels : Nat) (rest : List NsRecord)
    {targets : DnsRr → Bytes → Prop} {answers : List DnsRr}
    (iterates : ¬ Forwards cfg question.qname)
    (notCached : NotCached w.cache question (env.time w.ticks))
    (received :
      (sendQuery env ns.addr question (checkCache env question w).2).1 =
        some raw)
    (readable : answerSection raw = .ok answers)
    (chain : AliasChain targets answers question.qtype question.qname) :
    AnswerKept env cfg (levels + 1) question (ns :: rest) w ↔
      (∃ resp, dnsParseMessage raw = .ok resp) ∧
        ∀ name, followedName raw answers = some name →
          0 < levels ∧ AnsweredFromCache env question w name := by
  obtain ⟨record, listed, isType⟩ := chain.exists_mem
  have noForwarder : cfg.dnsForwarder = none := by
    by_contra forwarder
    exact iterates (Or.inr forwarder)
  by_cases parses : ∃ resp, dnsParseMessage raw = .ok resp
  · obtain ⟨resp, parsed⟩ := parses
    have same := answerSection_of_parsed parsed
    rw [readable] at same
    cases same
    have usable := usableReply_of_parsed parsed
    rw [← received] at usable
    have hasAnswer : resp.answers ≠ [] := List.ne_nil_of_mem listed
    constructor
    · intro kept
      refine ⟨⟨resp, parsed⟩, ?_⟩
      intro name follows
      have agrees := agreesAt_deafBut env (w.ticks + 1)
      obtain ⟨a, answered, has⟩ := kept _ agrees
      rw [resolveInternal_of_firstReply levels rest iterates notCached
        usable hasAnswer agrees, follows] at answered
      exact
        answeredFromCache_of_deaf noForwarder
          (passedOn_eq_answer_iff.mp answered) has
    · intro condition other agrees
      rw [resolveInternal_of_firstReply levels rest iterates notCached
        usable hasAnswer agrees]
      cases follows : followedName raw resp.answers with
      | none =>
          refine ⟨_, rfl, record, ?_, isType⟩
          exact List.mem_append_left _ (List.mem_append_left _ listed)
      | some name =>
          obtain ⟨below, cached⟩ := condition.2 name follows
          obtain ⟨a, answered, has⟩ :=
            answered_of_answeredFromCache (ns :: rest) below cached agrees
          exact ⟨a, passedOn_eq_answer_iff.mpr answered, has⟩
  · constructor
    · intro kept
      obtain ⟨a, answered, _⟩ :=
        kept _ (agreesAt_deafBut env (w.ticks + 1))
      rw [resolveInternal_of_unparsed levels rest iterates notCached
        received (not_exists.mp parses)] at answered
      cases answered
    · intro condition
      exact absurd condition.1 parses

end FirstReply

/-! ## An address behind a CNAME record -/

/-- Every answer in hand would be returned. -/
def AnswersKept : Prop :=
  ∀ (env : Env) (cfg : ResolverConfig) (levels : Nat)
    (question : DnsQuestion) (ns : NsRecord) (rest : List NsRecord)
    (w : World) (raw : Bytes) (answers : List DnsRr),
    ¬ Forwards cfg question.qname →
      NotCached w.cache question (env.time w.ticks) →
        (sendQuery env ns.addr question (checkCache env question w).2).1 =
            some raw →
          answerSection raw = .ok answers →
            AliasChain (fun rr target => aliasTarget raw rr = some target)
                answers question.qtype question.qname →
              AnswerKept env cfg (levels + 1) question (ns :: rest) w

/-- A reply that says that `a.` is an alias for `b.` and gives the address of
`b.`. -/
def aliasedPacket : Bytes :=
  [0, 0, 129, 128, 0, 0, 0, 2, 0, 0, 0, 0,
    1, 97, 0, 0, 5, 0, 1, 0, 0, 0, 60, 0, 3, 1, 98, 0,
    1, 98, 0, 0, 1, 0, 1, 0, 0, 0, 60, 0, 4, 6, 6, 6, 6]

/-- The first query is answered with the packet, and no other one is. -/
def envOnce (packet : Bytes) : Env :=
  { envAnswering packet with
    udp := fun tick => if tick = 1 then .reply packet else .noReply }

def aliasRecord : DnsRr :=
  ⟨[97, 46], dnsTypeCname, dnsClassIn, 60, 3, 25⟩

def addressRecord : DnsRr :=
  ⟨[98, 46], dnsTypeA, dnsClassIn, 60, 4, 41⟩

theorem answerSection_aliasedPacket :
    answerSection aliasedPacket = .ok [aliasRecord, addressRecord] := by
  decide +kernel

/-- The chain has one alias: the address behind it belongs to `b.`. -/
theorem aliasChain_aliasedPacket :
    AliasChain
      (fun rr target => aliasTarget aliasedPacket rr = some target)
      [aliasRecord, addressRecord] questionA.qtype questionA.qname := by
  have last :
      AliasChain
        (fun rr target => aliasTarget aliasedPacket rr = some target)
        [aliasRecord, addressRecord] questionA.qtype [98, 46] :=
    .reached (List.mem_cons_of_mem _ List.mem_cons_self) rfl rfl
  exact .aliased List.mem_cons_self rfl rfl (by decide) last

theorem resolveInternal_keepsAnswer_iff_alias :
    AnswerKept (envOnce aliasedPacket) configIterative 17 questionA
        [⟨[97, 46], ⟨1, 53⟩⟩] worldStart ↔
      (∃ resp, dnsParseMessage aliasedPacket = .ok resp) ∧
        ∀ name,
          followedName aliasedPacket [aliasRecord, addressRecord] =
              some name →
            0 < 16 ∧
              AnsweredFromCache (envOnce aliasedPacket) questionA
                worldStart name :=
  resolveInternal_keepsAnswer_iff 16 [] iterates_questionA
    (notCached_cacheCreate questionA 0) rfl answerSection_aliasedPacket
    aliasChain_aliasedPacket

/-- The server of `b.` does not reply, and the call returns -1. -/
theorem aliasedPacket_dropped : ¬ AnswersKept := by
  intro keeps
  have kept :=
    keeps (envOnce aliasedPacket) configIterative 16 questionA
      ⟨[97, 46], ⟨1, 53⟩⟩ [] worldStart aliasedPacket
      [aliasRecord, addressRecord] iterates_questionA
      (notCached_cacheCreate questionA 0) rfl answerSection_aliasedPacket
      aliasChain_aliasedPacket
  obtain ⟨a, answered, _⟩ := kept (envOnce aliasedPacket) ⟨rfl, rfl, rfl⟩
  have failed :
      (resolveInternal (envOnce aliasedPacket) configIterative 17 questionA
        [⟨[97, 46], ⟨1, 53⟩⟩] worldStart).1.code = some (-1) := by
    decide +kernel
  rw [answered] at failed
  cases failed

end DnsFirewall
