import DnsFirewall.Policy.LetterCase
import DnsFirewall.Processor.Delivery
import DnsFirewall.Resolver.Framing

/-!
# Two resolutions for spellings of a name

Two resolutions in one state, for questions that differ in the case of letters
of the name, when every datagram that comes in differs in the spelling of names
only.  The forwarder zones fold case; the key of the cache and the search for
glue do not.  So the two resolutions go the same way, and end with replies that
differ in the spelling of owners only, as long as every lookup of the cache
finds the same in both and the search for glue compares alike.
-/

namespace DnsFirewall

open CString

/-! ## Respelled datagrams -/

/-- The names that the RDATA of two records decode to differ in the case of
letters. -/
def RespelledTarget (raw raw' : Bytes) (rr rr' : DnsRr) : Prop :=
  (decompressNameInRdata rr' raw' (dnsMaxNameLen + 1)).map foldedName =
    (decompressNameInRdata rr raw (dnsMaxNameLen + 1)).map foldedName

/-- The second packet is the first one with another spelling of its names.
The RDATA of the answers is read later, out of the memories. -/
structure RespelledPacket (memory memory' raw raw' : Bytes)
    (resp resp' : DnsMessage) : Prop where
  flags : resp'.header.flags = resp.header.flags
  answers :
    List.Forall₂ (RespelledRecord memory memory') resp.answers resp'.answers
  targets :
    List.Forall₂ (RespelledTarget raw raw') resp.answers resp'.answers
  authorities :
    List.Forall₂
      (fun rr rr' =>
        RespelledRecord raw raw' rr rr' ∧ RespelledTarget raw raw' rr rr')
      resp.authorities resp'.authorities
  additionals :
    List.Forall₂ (RespelledRecord raw raw') resp.additionals
      resp'.additionals

/-- Both replies are useless, or they are respelled packets. -/
def RespelledReply (env env' : Env) (reply reply' : Option Bytes) : Prop :=
  match usableReply reply, usableReply reply' with
  | none, none => True
  | some (raw, resp), some (raw', resp') =>
      RespelledPacket env.deadFrame env'.deadFrame raw raw' resp resp'
  | _, _ => False

/-- What `send_query` receives at a tick. -/
def receivedReply (env : Env) (tick : Nat) : Option Bytes :=
  match env.udp tick with
  | .reply datagram => some (datagram.take ednsSize)
  | .noReply => none
  | .notSent => none

/-- The same happens in both environments, but for the spelling of names in
what comes in: in a datagram, and in what is read from a connection of the
pool or a new one. -/
structure RespelledUpstream (env env' : Env) (pool : TcpPool) : Prop where
  time : env'.time = env.time
  lockFree : env'.lockFree = env.lockFree
  connect : env'.connect = env.connect
  passes : env'.passes = env.passes
  udp :
    ∀ tick,
      RespelledReply env env' (receivedReply env tick)
        (receivedReply env' tick)
  tcp :
    ∀ tick conn, (∃ slot, conn = pool.conns slot) ∨ conn.pending = [] →
      RespelledReply env env' (exchangeOn conn (env.tcp tick)).1
        (exchangeOn conn (env'.tcp tick)).1

/-! ## Glue -/

/-- What the search for glue compares for an authority record: the name of its
server with every owner that may be glue. -/
def glueComparisons (resp : DnsMessage) (raw : Bytes) (rr : DnsRr) :
    List Bool :=
  if rr.type = dnsTypeNs then
    match decompressNameInRdata rr raw (dnsMaxNameLen + 1) with
    | none => []
    | some nsName => resp.additionals.map (isGlue nsName)
  else
    []

theorem find?_isGlue_respelled
    {raw raw' nsName nsName' : Bytes} {glues glues' : List DnsRr}
    (respelled : List.Forall₂ (RespelledRecord raw raw') glues glues')
    (alike : glues'.map (isGlue nsName') = glues.map (isGlue nsName)) :
    (glues'.find? (isGlue nsName')).map (fun glue => glue.rdataBytes raw') =
      (glues.find? (isGlue nsName)).map fun glue => glue.rdataBytes raw := by
  induction respelled with
  | nil => rfl
  | @cons glue glue' rest rest' first _ inductionHypothesis =>
      rw [List.map_cons, List.map_cons, List.cons.injEq] at alike
      obtain ⟨here, later⟩ := alike
      cases isHere : isGlue nsName glue with
      | true =>
          rw [isHere] at here
          rw [List.find?_cons_of_pos here, List.find?_cons_of_pos isHere]
          exact congrArg some first.rdata
      | false =>
          rw [isHere] at here
          rw [List.find?_cons_of_neg (by rw [here]; decide),
            List.find?_cons_of_neg (by rw [isHere]; decide)]
          exact inductionHypothesis later

/-- The servers of two respelled referrals are the same where the search for
glue compares alike. -/
theorem addr_nsRecordOf_respelled
    {raw raw' : Bytes} {resp resp' : DnsMessage} {rr rr' : DnsRr}
    (additionals :
      List.Forall₂ (RespelledRecord raw raw') resp.additionals
        resp'.additionals)
    (type : rr'.type = rr.type) (target : RespelledTarget raw raw' rr rr')
    (alike : glueComparisons resp' raw' rr' = glueComparisons resp raw rr) :
    (nsRecordOf resp' raw' rr').map NsRecord.addr =
      (nsRecordOf resp raw rr).map NsRecord.addr := by
  unfold glueComparisons at alike
  unfold RespelledTarget at target
  unfold nsRecordOf
  rw [type] at alike ⊢
  split
  · rename_i isNs
    simp only [if_pos isNs] at alike
    cases name : decompressNameInRdata rr raw (dnsMaxNameLen + 1) with
    | none =>
        rw [name, Option.map_none, Option.map_eq_none_iff] at target
        rw [target]
    | some nsName =>
        rw [name, Option.map_some, Option.map_eq_some_iff] at target
        obtain ⟨nsName', name', _⟩ := target
        rw [name, name'] at alike
        have found := find?_isGlue_respelled additionals alike
        simp only [name']
        cases glue : resp.additionals.find? (isGlue nsName) with
        | none =>
            rw [glue, Option.map_none, Option.map_eq_none_iff] at found
            rw [found]
        | some record =>
            rw [glue, Option.map_some, Option.map_eq_some_iff] at found
            obtain ⟨record', glue', bytes⟩ := found
            simp only [glue', bytes, Option.map_some]
  · rfl

theorem addr_buildNsList_respelled
    {memory memory' raw raw' : Bytes} {resp resp' : DnsMessage}
    (respelled : RespelledPacket memory memory' raw raw' resp resp')
    (alike :
      resp'.authorities.map (glueComparisons resp' raw') =
        resp.authorities.map (glueComparisons resp raw)) :
    (buildNsList resp' raw').map NsRecord.addr =
      (buildNsList resp raw).map NsRecord.addr := by
  have additionals := respelled.additionals
  have records := respelled.authorities
  unfold buildNsList
  rw [List.map_filterMap, List.map_filterMap]
  generalize resp.authorities = authorities at records alike
  generalize resp'.authorities = authorities' at records alike
  induction records with
  | nil => rfl
  | @cons rr rr' rest rest' first _ inductionHypothesis =>
      rw [List.map_cons, List.map_cons, List.cons.injEq] at alike
      have here :=
        addr_nsRecordOf_respelled additionals first.1.type first.2 alike.1
      have later := inductionHypothesis alike.2
      rw [List.filterMap_cons, List.filterMap_cons, here, later]

/-! ## Kinds of replies -/

/-- What the search for glue compares in a reply, if there is a search. -/
def glueSearches (reply : Option Bytes) : List (List (List Bool)) :=
  match usableReply reply with
  | none => []
  | some (raw, resp) =>
      if resp.answers = [] ∧ resp.authorities ≠ [] then
        [resp.authorities.map (glueComparisons resp raw)]
      else
        []

/-- The server loop makes the same of the two replies. -/
inductive KindAlike (env env' : Env) : ReplyKind → ReplyKind → Prop where
  | useless : KindAlike env env' .useless .useless
  | cname {raw target raw' target'}
      (folded : foldedName target' = foldedName target) :
      KindAlike env env' (.cname raw target) (.cname raw' target')
  | answer {raw resp ttl raw' resp' ttl'}
      (answers :
        List.Forall₂ (RespelledRecord env.deadFrame env'.deadFrame)
          resp.answers resp'.answers) :
      KindAlike env env' (.answer raw resp ttl) (.answer raw' resp' ttl')
  | referral {raw resp raw' resp'}
      (servers :
        (buildNsList resp' raw').map NsRecord.addr =
          (buildNsList resp raw).map NsRecord.addr) :
      KindAlike env env' (.referral raw resp) (.referral raw' resp')
  | nameError {raw resp raw' resp'} :
      KindAlike env env' (.nameError raw resp) (.nameError raw' resp')

theorem RespelledTarget.aliasTarget
    {raw raw' : Bytes} {rr rr' : DnsRr}
    (target : RespelledTarget raw raw' rr rr') (type : rr'.type = rr.type) :
    (aliasTarget raw' rr').map foldedName =
      (aliasTarget raw rr).map foldedName := by
  unfold DnsFirewall.aliasTarget
  rw [type]
  split
  · exact target
  · rfl

section Replies

variable {env env' : Env} {reply reply' : Option Bytes}

/-- Both replies are dropped, or both are read. -/
theorem respelledReply_cases
    (respelled : RespelledReply env env' reply reply') :
    (usableReply reply = none ∧ usableReply reply' = none) ∨
      ∃ raw resp raw' resp', usableReply reply = some (raw, resp) ∧
        usableReply reply' = some (raw', resp') ∧
          RespelledPacket env.deadFrame env'.deadFrame raw raw' resp
            resp' := by
  unfold RespelledReply at respelled
  cases usable : usableReply reply with
  | none =>
      cases usable' : usableReply reply' with
      | none => exact Or.inl ⟨rfl, rfl⟩
      | some accepted =>
          rw [usable, usable'] at respelled
          exact absurd respelled id
  | some accepted =>
      cases usable' : usableReply reply' with
      | none =>
          rw [usable, usable'] at respelled
          exact absurd respelled id
      | some accepted' =>
          rw [usable, usable'] at respelled
          exact Or.inr ⟨_, _, _, _, rfl, rfl, respelled⟩

theorem eq_nil_iff_of_forall₂
    {α β : Type} {related : α → β → Prop} {items : List α} {others : List β}
    (all : List.Forall₂ related items others) :
    others = [] ↔ items = [] := by
  rw [← List.length_eq_zero_iff, ← List.length_eq_zero_iff, all.length_eq]

/-- Respelled replies are searched for glue or not, alike. -/
theorem length_glueSearches_respelled
    (respelled : RespelledReply env env' reply reply') :
    (glueSearches reply').length = (glueSearches reply).length := by
  unfold glueSearches
  rcases respelledReply_cases respelled with
    ⟨useless, useless'⟩ |
    ⟨raw, resp, raw', resp', usable, usable', packets⟩
  · rw [useless, useless']
  · have alike :
        (resp'.answers = [] ∧ resp'.authorities ≠ []) ↔
          (resp.answers = [] ∧ resp.authorities ≠ []) :=
      and_congr (eq_nil_iff_of_forall₂ packets.answers)
        (eq_nil_iff_of_forall₂ packets.authorities).not
    rw [usable, usable']
    simp only [alike]
    split
    · rfl
    · rfl

section Read

variable {raw raw' : Bytes} {resp resp' : DnsMessage}

/-- Replies without answers are referrals alike where the search for glue
compares alike, or else errors alike. -/
theorem kindAlike_of_unanswered
    (packets :
      RespelledPacket env.deadFrame env'.deadFrame raw raw' resp resp')
    (usable : usableReply reply = some (raw, resp))
    (usable' : usableReply reply' = some (raw', resp'))
    (glue : glueSearches reply' = glueSearches reply)
    (answers : resp.answers = []) :
    KindAlike env env' (replyKind reply) (replyKind reply') := by
  have answers' := (eq_nil_iff_of_forall₂ packets.answers).mpr answers
  unfold glueSearches at glue
  unfold replyKind
  rw [usable, usable'] at glue ⊢
  simp only [answers, answers', true_and, packets.flags] at glue ⊢
  by_cases refers : resp.authorities = []
  · have refers' :=
      (eq_nil_iff_of_forall₂ packets.authorities).mpr refers
    simp only [refers, refers', ne_eq, not_true_eq_false, if_false]
    split
    · exact .nameError
    · exact .useless
  · have refers' : resp'.authorities ≠ [] :=
      (eq_nil_iff_of_forall₂ packets.authorities).not.mpr refers
    rw [if_pos refers, if_pos refers', List.cons.injEq] at glue
    have servers := addr_buildNsList_respelled packets glue.1
    rw [if_pos refers, if_pos refers']
    have empties : buildNsList resp' raw' = [] ↔ buildNsList resp raw = [] := by
      rw [← List.map_eq_nil_iff, servers, List.map_eq_nil_iff]
    simp only [empties]
    split
    · exact .useless
    · exact .referral servers

/-- Replies with answers lead to one alias, or are answers alike. -/
theorem kindAlike_of_answered
    (packets :
      RespelledPacket env.deadFrame env'.deadFrame raw raw' resp resp')
    (usable : usableReply reply = some (raw, resp))
    (usable' : usableReply reply' = some (raw', resp'))
    {first : DnsRr} {more : List DnsRr}
    (answers : resp.answers = first :: more) :
    KindAlike env env' (replyKind reply) (replyKind reply') := by
  have records := packets.answers
  have targets := packets.targets
  rw [answers] at records targets
  obtain ⟨first', more', record, -, answers'⟩ :=
    List.forall₂_cons_left_iff.mp records
  rw [answers'] at targets
  have target :=
    (List.forall₂_cons.mp targets).1.aliasTarget record.type
  unfold replyKind
  rw [usable, usable']
  simp only [answers, answers']
  cases isAlias : aliasTarget raw first with
  | none =>
      rw [isAlias, Option.map_none, Option.map_eq_none_iff] at target
      rw [target]
      exact .answer packets.answers
  | some cname =>
      rw [isAlias, Option.map_some, Option.map_eq_some_iff] at target
      obtain ⟨cname', isAlias', folded⟩ := target
      rw [isAlias']
      exact .cname folded

end Read

/-- The server loop makes the same of respelled replies where the search for
glue compares alike. -/
theorem kindAlike_of_respelled
    (respelled : RespelledReply env env' reply reply')
    (glue : glueSearches reply' = glueSearches reply) :
    KindAlike env env' (replyKind reply) (replyKind reply') := by
  rcases respelledReply_cases respelled with
    ⟨useless, useless'⟩ |
    ⟨raw, resp, raw', resp', usable, usable', packets⟩
  · unfold replyKind
    rw [useless, useless']
    exact .useless
  · cases answers : resp.answers with
    | nil => exact kindAlike_of_unanswered packets usable usable' glue answers
    | cons first more =>
        exact kindAlike_of_answered packets usable usable' answers

end Replies

/-! ## Outcomes -/

/-- The two outcomes differ in the spelling of the owners of the answers
only. -/
inductive Echoed (env env' : Env) : Outcome → Outcome → Prop where
  | answer {a a'}
      (answers :
        List.Forall₂
          (RespelledRecord (answerMemory env a) (answerMemory env' a'))
          a.message.answers a'.message.answers) :
      Echoed env env' (.answer a) (.answer a')
  | nxDomain {a a'} : Echoed env env' (.nxDomain a) (.nxDomain a')
  | failed : Echoed env env' .failed .failed
  | tooDeep : Echoed env env' .tooDeep .tooDeep
  | hung : Echoed env env' .hung .hung

theorem Echoed.settled_iff
    {env env' : Env} {outcome outcome' : Outcome}
    (echoed : Echoed env env' outcome outcome') :
    outcome'.Settled ↔ outcome.Settled := by
  cases echoed with
  | answer _ => exact Iff.rfl
  | nxDomain => exact Iff.rfl
  | failed => exact Iff.rfl
  | tooDeep => exact Iff.rfl
  | hung => exact Iff.rfl

theorem Echoed.passedOn
    {env env' : Env} {outcome outcome' : Outcome}
    (echoed : Echoed env env' outcome outcome') :
    Echoed env env' (passedOn outcome) (passedOn outcome') := by
  cases echoed with
  | answer answers => exact .answer answers
  | nxDomain => exact .nxDomain
  | failed => exact .failed
  | tooDeep => exact .tooDeep
  | hung => exact .hung

/-- The results of two calls: outcomes that differ in the spelling of owners
only, after as many questions to the environment. -/
structure Alongside (env env' : Env) (result result' : Outcome × World) :
    Prop where
  echoed : Echoed env env' result.1 result'.1
  ticks : result'.2.ticks = result.2.ticks

theorem alongside_acceptForwarded
    {env env' : Env} {reply reply' : Option Bytes}
    (respelled : RespelledReply env env' reply reply')
    (question question' : DnsQuestion) {w w' : World}
    (ticks : w'.ticks = w.ticks) :
    Alongside env env' (acceptForwarded env question reply w)
      (acceptForwarded env' question' reply' w') := by
  unfold acceptForwarded
  rcases respelledReply_cases respelled with
    ⟨useless, useless'⟩ |
    ⟨raw, resp, raw', resp', usable, usable', packets⟩
  · rw [useless, useless']
    exact ⟨.failed, ticks⟩
  · rw [usable, usable']
    exact ⟨.answer packets.answers, congrArg (· + 1) ticks⟩

/-! ## Forwarding -/

theorem inZone_foldedName (qname : Bytes) (forwarder : StaticForwarder) :
    inZone (foldedName qname) forwarder = inZone qname forwarder := by
  have folded : content (foldedName qname) = foldedName (content qname) :=
    content_map_toLower qname
  have length :
      (foldedName (content qname)).length = (content qname).length :=
    List.length_map _
  have dotted :
      (foldedName (content qname)).getLast? = some 46 ↔
        (content qname).getLast? = some 46 :=
    getLast?_foldedName_eq_dot_iff (content qname)
  have compared (start limit : Nat) :
      strncasecmpEq ((foldedName (content qname)).drop start)
          forwarder.zone limit =
        strncasecmpEq ((content qname).drop start) forwarder.zone limit := by
    unfold strncasecmpEq strcasecmpEq foldedName
    rw [← List.map_drop, ← List.map_take, List.map_map]
    refine congrArg (· == _) (List.map_congr_left fun character _ => ?_)
    exact toLower_toLower character
  unfold inZone
  simp only [folded, length, dotted, compared]

theorem staticForwarderFor_foldedName
    (cfg : ResolverConfig) (qname : Bytes) :
    staticForwarderFor cfg (foldedName qname) =
      staticForwarderFor cfg qname := by
  unfold staticForwarderFor
  simp only [inZone_foldedName]

theorem staticForwarderFor_respelled
    (cfg : ResolverConfig) {qname qname' : Bytes}
    (folded : foldedName qname' = foldedName qname) :
    staticForwarderFor cfg qname' = staticForwarderFor cfg qname := by
  rw [← staticForwarderFor_foldedName, folded,
    staticForwarderFor_foldedName]

theorem sendQuery_received
    (env : Env) (ns : SockAddrIn) (question : DnsQuestion) (w : World) :
    (sendQuery env ns question w).1 = receivedReply env w.ticks ∧
      (sendQuery env ns question w).2.ticks = w.ticks + 1 := by
  rw [sendQuery, receivedReply]
  cases env.udp w.ticks with
  | notSent => exact ⟨rfl, rfl⟩
  | noReply => exact ⟨rfl, rfl⟩
  | reply datagram => exact ⟨rfl, rfl⟩

section Forwarding

variable {env env' : Env} {pool : TcpPool} {w w' : World}

theorem forwardUdp_alongside
    (upstream : RespelledUpstream env env' pool) (fwdIp : Bytes)
    (question question' : DnsQuestion) (ticks : w'.ticks = w.ticks) :
    Alongside env env' (forwardUdp env fwdIp question w)
      (forwardUdp env' fwdIp question' w') := by
  unfold forwardUdp
  cases inetPton fwdIp with
  | none => exact ⟨.failed, ticks⟩
  | some sAddr =>
      have sent := sendQuery_received env ⟨sAddr, 53⟩ question w
      have sent' := sendQuery_received env' ⟨sAddr, 53⟩ question' w'
      simp only
      rw [sent.1, sent'.1, ticks]
      apply alongside_acceptForwarded (upstream.udp w.ticks)
      rw [sent.2, sent'.2, ticks]

/-- The second state has the same pool at the same tick. -/
structure SamePool (w w' : World) : Prop where
  ticks : w'.ticks = w.ticks
  pool : w'.pool = w.pool

theorem initTcpPool_samePool
    (upstream : RespelledUpstream env env' pool) (ip : Bytes)
    (same : SamePool w w') :
    SamePool (initTcpPool env ip w) (initTcpPool env' ip w') := by
  unfold initTcpPool
  cases inetPton ip with
  | none => exact same
  | some sAddr =>
      refine ⟨congrArg (· + tcpPoolSize) same.ticks, ?_⟩
      simp only [tcpConnect, upstream.connect, same.ticks]

theorem borrowPass_samePool
    (upstream : RespelledUpstream env env' pool)
    (slots : List (Fin tcpPoolSize)) (same : SamePool w w') :
    (borrowPass env' slots w').1 = (borrowPass env slots w).1 ∧
      SamePool (borrowPass env slots w).2 (borrowPass env' slots w').2 := by
  induction slots generalizing w w' with
  | nil => exact ⟨rfl, same⟩
  | cons slot rest inductionHypothesis =>
      have onward :
          SamePool { w with ticks := w.ticks + 1 }
            { w' with ticks := w'.ticks + 1 } :=
        ⟨congrArg (· + 1) same.ticks, same.pool⟩
      have later := inductionHypothesis onward
      unfold borrowPass
      simp only [tcpConnect, upstream.lockFree, upstream.connect, same.ticks,
        same.pool]
      rw [same.ticks, same.pool] at later
      split
      · exact later
      · split
        · exact ⟨rfl, rfl, rfl⟩
        · split
          · exact later
          · exact ⟨rfl, rfl, rfl⟩

theorem borrowTcpConn_samePool
    (upstream : RespelledUpstream env env' pool) (passes : Nat)
    (same : SamePool w w') :
    (borrowTcpConn env' passes w').1 = (borrowTcpConn env passes w).1 ∧
      SamePool (borrowTcpConn env passes w).2
        (borrowTcpConn env' passes w').2 := by
  induction passes generalizing w w' with
  | zero => exact ⟨rfl, same⟩
  | succ passes inductionHypothesis =>
      obtain ⟨slot, next⟩ :=
        borrowPass_samePool upstream (List.finRange tcpPoolSize) same
      unfold borrowTcpConn
      cases pass : borrowPass env (List.finRange tcpPoolSize) w with
      | mk borrowed after =>
          cases pass' : borrowPass env' (List.finRange tcpPoolSize) w' with
          | mk borrowed' after' =>
              rw [pass, pass'] at slot next
              simp only at slot next
              subst slot
              cases borrowed' with
              | none => exact inductionHypothesis next
              | some i => exact ⟨rfl, next⟩

/-- A connection of a pool that has just been opened has nothing pending. -/
theorem conns_initTcpPool
    (env : Env) (ip : Bytes) (w : World) (slot : Fin tcpPoolSize) :
    (initTcpPool env ip w).pool.conns slot = w.pool.conns slot ∨
      ((initTcpPool env ip w).pool.conns slot).pending = [] := by
  unfold initTcpPool
  cases inetPton ip with
  | none => exact Or.inl rfl
  | some sAddr =>
      refine Or.inr ?_
      simp only [tcpConnect]
      cases env.connect (w.ticks + slot.val) with
      | none => rfl
      | some sock => rfl

/-- Opened or not, the pools stay the same. -/
theorem openedPool_samePool
    (upstream : RespelledUpstream env env' w.pool) (ip : Bytes)
    (same : SamePool w w') :
    SamePool (if w.pool.initialised then w else initTcpPool env ip w)
        (if w'.pool.initialised then w' else initTcpPool env' ip w') ∧
      ∀ slot,
        (if w.pool.initialised then w
            else initTcpPool env ip w).pool.conns slot =
            w.pool.conns slot ∨
          ((if w.pool.initialised then w
            else initTcpPool env ip w).pool.conns slot).pending = [] := by
  rw [same.pool]
  split
  · exact ⟨same, fun slot => Or.inl rfl⟩
  · exact
      ⟨initTcpPool_samePool upstream ip same, conns_initTcpPool env ip w⟩

/-- A connection that was borrowed is one of the pool or a new one. -/
theorem pending_of_borrowed
    {passes : Nat} {i : Fin tcpPoolSize} {after : World}
    (conns :
      ∀ slot, w.pool.conns slot = pool.conns slot ∨
        (w.pool.conns slot).pending = [])
    (borrows :
      borrowTcpConn env passes { w with ticks := w.ticks + 1 } =
        (some i, after)) :
    (∃ slot, after.pool.conns i = pool.conns slot) ∨
      (after.pool.conns i).pending = [] := by
  obtain ⟨reconnected, -⟩ := borrowTcpConn_conns env borrows
  rcases reconnected with ⟨kept, -⟩ | ⟨-, sock, peer, new⟩
  · rw [kept]
    rcases conns i with old | empty
    · exact Or.inl ⟨i, old⟩
    · exact Or.inr empty
  · rw [new]
    exact Or.inr rfl

theorem forwardTcp_alongside
    (upstream : RespelledUpstream env env' w.pool) (fwdIp : Bytes)
    (question question' : DnsQuestion) (same : SamePool w w') :
    Alongside env env' (forwardTcp env fwdIp question w)
      (forwardTcp env' fwdIp question' w') := by
  unfold forwardTcp
  obtain ⟨ready, conns⟩ := openedPool_samePool upstream fwdIp same
  generalize (if w.pool.initialised then w else initTcpPool env fwdIp w) = v
    at ready conns
  generalize
    (if w'.pool.initialised then w' else initTcpPool env' fwdIp w') = v'
    at ready
  have onward :
      SamePool { v with ticks := v.ticks + 1 }
        { v' with ticks := v'.ticks + 1 } :=
    ⟨congrArg (· + 1) ready.ticks, ready.pool⟩
  obtain ⟨slot, next⟩ :=
    borrowTcpConn_samePool upstream env.passes onward
  simp only [upstream.passes]
  cases borrows :
      borrowTcpConn env env.passes { v with ticks := v.ticks + 1 } with
  | mk borrowed after =>
      cases borrows' :
          borrowTcpConn env' env.passes
            { v' with ticks := v'.ticks + 1 } with
      | mk borrowed' after' =>
          rw [borrows, borrows'] at slot next
          simp only at slot next
          subst slot
          cases borrowed' with
          | none => exact ⟨.hung, next.ticks⟩
          | some i =>
              have conn := pending_of_borrowed conns borrows
              have replies := upstream.tcp after.ticks _ conn
              have exchanges :=
                tcpExchange_conns env i (randomId env v) question after
              have exchanges' :=
                tcpExchange_conns env' i (randomId env' v') question' after'
              simp only
              rw [exchanges.1, exchanges'.1, next.ticks, next.pool]
              apply alongside_acceptForwarded replies
              rw [tcpExchange_ticks, tcpExchange_ticks, next.ticks]

end Forwarding

/-! ## The comparisons of a resolution -/

/-- Where a resolution compares names without folding case: a lookup of the
cache, with the data it finds, and the search for the glue of a referral. -/
inductive NameComparison where
  | lookup (data : Option Bytes)
  | glue (alike : List (List Bool))

/-- The comparisons of the server loop, with those of the calls below it. -/
def loopComparisons (env : Env)
    (recurse : DnsQuestion → List NsRecord → World → Outcome × World)
    (below : DnsQuestion → List NsRecord → World → List NameComparison)
    (question : DnsQuestion) (nsList : List NsRecord) :
    List NsRecord → World → List NameComparison
  | [], _ => []
  | ns :: rest, w =>
      let (reply, asked) := sendQuery env ns.addr question w
      (glueSearches reply).map .glue ++
        match replyKind reply with
        | .useless =>
            loopComparisons env recurse below question nsList rest asked
        | .cname raw target =>
            below { question with qname := target } nsList
              (asked.note (.believed .followedCname question raw))
        | .answer _ _ _ => []
        | .referral raw resp =>
            let newNs := buildNsList resp raw
            let w := asked.note (.believed .followedReferral question raw)
            below question newNs w ++
              if (recurse question newNs w).1.Settled then []
              else
                loopComparisons env recurse below question nsList rest
                  (recurse question newNs w).2
        | .nameError _ _ => []

/-- The comparisons of `resolve_internal`, in their order. -/
def nameComparisons (env : Env) (cfg : ResolverConfig) :
    Nat → DnsQuestion → List NsRecord → World → List NameComparison
  | 0, _, _, _ => []
  | levels + 1, question, nsList, w =>
      .lookup (lookupQuestion w.cache question (env.time w.ticks)).1 ::
        match checkCache env question w with
        | (some _, _) => []
        | (none, w) =>
            if
                staticForwarderFor cfg question.qname = none ∧
                  cfg.dnsForwarder = none
            then
              loopComparisons env (resolveInternal env cfg levels)
                (nameComparisons env cfg levels) question nsList nsList w
            else
              []

section Lockstep

variable {env env' : Env} {cfg : ResolverConfig} {pool : TcpPool}

/-- Where the lookups find the same, the cache answers with the same packet
or does not answer. -/
theorem checkCache_alongside
    (time : env'.time = env.time) {question question' : DnsQuestion}
    {w w' : World} (ticks : w'.ticks = w.ticks)
    (found :
      (lookupQuestion w'.cache question' (env'.time w'.ticks)).1 =
        (lookupQuestion w.cache question (env.time w.ticks)).1) :
    (checkCache env' question' w').2.ticks =
        (checkCache env question w).2.ticks ∧
      (((checkCache env question w).1 = none ∧
          (checkCache env' question' w').1 = none) ∨
        ∃ a a', (checkCache env question w).1 = some a ∧
          (checkCache env' question' w').1 = some a' ∧
            Echoed env env' (.answer a) (.answer a')) := by
  unfold lookupQuestion at found
  unfold checkCache
  rw [time, ticks] at found ⊢
  cases result :
      cacheLookup w.cache question.qname question.qtype question.qclass
        (env.time w.ticks) with
  | mk data cache =>
      cases result' :
          cacheLookup w'.cache question'.qname question'.qtype
            question'.qclass (env.time w.ticks) with
      | mk data' cache' =>
          rw [result, result'] at found
          simp only at found
          subst found
          cases data' with
          | none => exact ⟨rfl, Or.inl ⟨rfl, rfl⟩⟩
          | some raw =>
              simp only
              cases dnsParseMessage raw with
              | error failure => exact ⟨rfl, Or.inl ⟨rfl, rfl⟩⟩
              | ok message =>
                  refine ⟨rfl, Or.inr ⟨_, _, rfl, rfl, ?_⟩⟩
                  exact
                    .answer (List.forall₂_same.mpr fun rr _ => .refl raw rr)

theorem checkCache_pool
    (env : Env) (question : DnsQuestion) (w : World) :
    (checkCache env question w).2.pool = w.pool := by
  unfold checkCache
  simp only
  split
  · rfl
  · split
    · rfl
    · rfl

/-- Two calls go the same way: with the same comparisons they end alongside,
and what is compared behind them is the same. -/
def GoAlongside (env env' : Env)
    (run run' : DnsQuestion → List NsRecord → World → Outcome × World)
    (compared compared' :
      DnsQuestion → List NsRecord → World → List NameComparison) : Prop :=
  ∀ {question question' : DnsQuestion} {nsList nsList' : List NsRecord}
    {w w' : World} {more more' : List NameComparison},
    foldedName question'.qname = foldedName question.qname →
      nsList'.map NsRecord.addr = nsList.map NsRecord.addr →
        w'.ticks = w.ticks →
          compared' question' nsList' w' ++ more' =
              compared question nsList w ++ more →
            Alongside env env' (run question nsList w)
                (run' question' nsList' w') ∧
              more' = more

theorem loop_alongside
    (upstream : RespelledUpstream env env' pool)
    {recurse recurse' : DnsQuestion → List NsRecord → World → Outcome × World}
    {below below' :
      DnsQuestion → List NsRecord → World → List NameComparison}
    (calls : GoAlongside env env' recurse recurse' below below')
    {question question' : DnsQuestion} {nsList nsList' left left' :
      List NsRecord}
    (folded : foldedName question'.qname = foldedName question.qname)
    (servers : nsList'.map NsRecord.addr = nsList.map NsRecord.addr)
    (here : left'.map NsRecord.addr = left.map NsRecord.addr)
    {w w' : World} (ticks : w'.ticks = w.ticks)
    {more more' : List NameComparison}
    (compared :
      loopComparisons env' recurse' below' question' nsList' left' w' ++
          more' =
        loopComparisons env recurse below question nsList left w ++ more) :
    Alongside env env' (tryServers env recurse question nsList left w)
        (tryServers env' recurse' question' nsList' left' w') ∧
      more' = more := by
  induction left generalizing left' w w' more more' with
  | nil =>
      rw [List.map_nil, List.map_eq_nil_iff] at here
      subst here
      exact ⟨⟨.failed, ticks⟩, compared⟩
  | cons ns rest inductionHypothesis =>
      cases left' with
      | nil => cases here
      | cons ns' rest' =>
          rw [List.map_cons, List.map_cons, List.cons.injEq] at here
          have sent := sendQuery_received env ns.addr question w
          have sent' := sendQuery_received env' ns'.addr question' w'
          have replies := upstream.udp w.ticks
          have onward :
              (sendQuery env' ns'.addr question' w').2.ticks =
                (sendQuery env ns.addr question w).2.ticks := by
            rw [sent.2, sent'.2, ticks]
          rw [← sent.1, ← ticks, ← sent'.1] at replies
          unfold loopComparisons at compared
          rw [tryServers_cons, tryServers_cons]
          generalize sendQuery env ns.addr question w = turn
            at replies onward compared
          generalize sendQuery env' ns'.addr question' w' = turn'
            at replies onward compared
          obtain ⟨reply, asked⟩ := turn
          obtain ⟨reply', asked'⟩ := turn'
          simp only [List.append_assoc] at replies onward compared ⊢
          have searches :
              (List.map NameComparison.glue (glueSearches reply')).length =
                (List.map NameComparison.glue
                  (glueSearches reply)).length := by
            rw [List.length_map, List.length_map]
            exact length_glueSearches_respelled replies
          obtain ⟨glue, compared⟩ := List.append_inj compared searches
          have sameGlue : glueSearches reply' = glueSearches reply :=
            List.map_injective_iff.mpr
              (fun _ _ same => NameComparison.glue.inj same) glue
          have kinds := kindAlike_of_respelled replies sameGlue
          have noted :
              ∀ event event', (asked'.note event').ticks =
                (asked.note event).ticks :=
            fun _ _ => onward
          generalize replyKind reply = kind at kinds compared
          generalize replyKind reply' = kind' at kinds compared
          cases kinds with
          | useless => exact inductionHypothesis here.2 onward compared
          | cname sameTarget =>
              obtain ⟨ends, same⟩ :=
                calls sameTarget servers (noted _ _) compared
              exact ⟨⟨ends.echoed.passedOn, ends.ticks⟩, same⟩
          | answer answers =>
              exact ⟨⟨.answer answers, congrArg (· + 1) onward⟩, compared⟩
          | @referral raw resp raw' resp' referred =>
              simp only [List.append_assoc] at compared
              obtain ⟨ends, compared⟩ :=
                calls folded referred (noted _ _) compared
              have settled := ends.echoed.settled_iff
              simp only
              by_cases ended :
                  (recurse question (buildNsList resp raw)
                    (asked.note
                      (.believed .followedReferral question raw))).1.Settled
              · rw [if_pos ended, if_pos (settled.mpr ended)] at compared
                rw [if_pos ended, if_pos (settled.mpr ended)]
                exact ⟨⟨ends.echoed.passedOn, ends.ticks⟩, compared⟩
              · rw [if_neg ended, if_neg (mt settled.mp ended)] at compared
                rw [if_neg ended, if_neg (mt settled.mp ended)]
                exact inductionHypothesis here.2 ends.ticks compared
          | nameError =>
              exact ⟨⟨.nxDomain, congrArg (· + 1) onward⟩, compared⟩

/-- One call: behind the lookup it forwards the question, or goes round the
servers with calls below it. -/
theorem call_alongside
    (upstream : RespelledUpstream env env' pool) {w w' : World}
    (pools :
      cfg.dnsForwarder = none ∨ w.pool = pool ∧ w'.pool = pool)
    {levels : Nat}
    (below :
      cfg.dnsForwarder = none →
        GoAlongside env env' (resolveInternal env cfg levels)
          (resolveInternal env' cfg levels) (nameComparisons env cfg levels)
          (nameComparisons env' cfg levels))
    {question question' : DnsQuestion} {nsList nsList' : List NsRecord}
    (folded : foldedName question'.qname = foldedName question.qname)
    (servers : nsList'.map NsRecord.addr = nsList.map NsRecord.addr)
    (ticks : w'.ticks = w.ticks) {more more' : List NameComparison}
    (compared :
      nameComparisons env' cfg (levels + 1) question' nsList' w' ++ more' =
        nameComparisons env cfg (levels + 1) question nsList w ++ more) :
    Alongside env env'
        (resolveInternal env cfg (levels + 1) question nsList w)
        (resolveInternal env' cfg (levels + 1) question' nsList' w') ∧
      more' = more := by
  rw [nameComparisons, nameComparisons, List.cons_append, List.cons_append,
    List.cons.injEq, NameComparison.lookup.injEq] at compared
  obtain ⟨found, compared⟩ := compared
  obtain ⟨onward, hits⟩ :=
    checkCache_alongside upstream.time ticks found
  have kept := checkCache_pool env question w
  have kept' := checkCache_pool env' question' w'
  rw [resolveInternal, resolveInternal]
  cases checked : checkCache env question w with
  | mk hit missed =>
      cases checked' : checkCache env' question' w' with
      | mk hit' missed' =>
          rw [checked] at onward hits compared kept
          rw [checked'] at onward hits compared kept'
          simp only at onward hits kept kept'
          rcases hits with ⟨rfl, rfl⟩ | ⟨a, a', rfl, rfl, echoed⟩
          · simp only [staticForwarderFor_respelled cfg folded] at compared ⊢
            cases zone : staticForwarderFor cfg question.qname with
            | some addr =>
                simp only [zone, reduceCtorEq, false_and, if_false,
                  List.nil_append] at compared
                have sent := sendQuery_received env addr question missed
                have sent' := sendQuery_received env' addr question' missed'
                refine ⟨?_, compared⟩
                simp only
                rw [sent.1, sent'.1, onward]
                apply alongside_acceptForwarded (upstream.udp missed.ticks)
                rw [sent.2, sent'.2, onward]
            | none =>
                cases forwarder : cfg.dnsForwarder with
                | some fwdIp =>
                    simp only [zone, forwarder, reduceCtorEq, and_false,
                      if_false, List.nil_append] at compared
                    rw [forwarder, ← kept, ← kept'] at pools
                    obtain ⟨isPool, isPool'⟩ :=
                      pools.resolve_left (Option.some_ne_none fwdIp)
                    refine ⟨?_, compared⟩
                    simp only
                    split
                    · rw [← isPool] at upstream
                      exact
                        forwardTcp_alongside upstream fwdIp question
                          question' ⟨onward, isPool'.trans isPool.symm⟩
                    · exact
                        forwardUdp_alongside upstream fwdIp question
                          question' onward
                | none =>
                    simp only [zone, forwarder, and_self, if_true]
                      at compared
                    exact
                      loop_alongside upstream (below forwarder) folded
                        servers servers onward compared
          · exact ⟨⟨echoed, onward⟩, compared⟩

theorem calls_alongside
    (upstream : RespelledUpstream env env' pool)
    (iterates : cfg.dnsForwarder = none) (levels : Nat) :
    GoAlongside env env' (resolveInternal env cfg levels)
      (resolveInternal env' cfg levels) (nameComparisons env cfg levels)
      (nameComparisons env' cfg levels) := by
  induction levels with
  | zero =>
      intro question question' nsList nsList' w w' more more' _ _ ticks
        compared
      exact ⟨⟨.tooDeep, ticks⟩, compared⟩
  | succ levels inductionHypothesis =>
      intro question question' nsList nsList' w w' more more' folded servers
        ticks compared
      exact
        call_alongside upstream (Or.inl iterates)
          (fun _ => inductionHypothesis) folded servers ticks compared

end Lockstep

end DnsFirewall
