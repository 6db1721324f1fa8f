import DnsFirewall.Processor.Provenance
import DnsFirewall.Resolver.RootHints

/-!
# The servers that are asked

In iterative mode a query goes to the forwarder of its zone, or to a server
that a line of the root hints names or that replies have referred to, each
from a server reached in this way.  `MAX_RECURSION_DEPTH` bounds the number of
the referrals.
-/

namespace DnsFirewall

open CString Lines Runs

variable {F : Type}

/-- The server is the root, or its address is in a reply received for a query
to a server that the root refers to; the number counts the replies. -/
inductive Referred (log : List Event) (root : SockAddrIn) :
    Nat → SockAddrIn → Prop where
  | root : Referred log root 0 root
  | referral {steps : Nat} {x : Exchange} {raw : Bytes} {resp : DnsMessage}
      {ns : NsRecord} (origin : Referred log root steps x.server)
      (asked : .exchange x ∈ log) (reply : x.reply = some raw)
      (parsed : dnsParseMessage raw = .ok resp)
      (listed : ns ∈ buildNsList resp raw) :
      Referred log root (steps + 1) ns.addr

theorem Referred.mono
    {log more : List Event} {root server : SockAddrIn} {steps : Nat}
    (referred : Referred log root steps server)
    (grown : ∀ event, event ∈ log → event ∈ more) :
    Referred more root steps server := by
  induction referred with
  | root => exact .root
  | referral _ asked reply parsed listed inductionHypothesis =>
      exact .referral inductionHypothesis (grown _ asked) reply parsed listed

/-- A server that a root hint refers to within the bound. -/
def Delegated (hints : List NsRecord) (log : List Event) (bound : Nat)
    (server : SockAddrIn) : Prop :=
  ∃ hint steps, hint ∈ hints ∧ steps ≤ bound ∧
    Referred log hint.addr steps server

theorem Delegated.mono
    {hints : List NsRecord} {log more : List Event} {bound larger : Nat}
    {server : SockAddrIn} (delegated : Delegated hints log bound server)
    (grown : ∀ event, event ∈ log → event ∈ more) (le : bound ≤ larger) :
    Delegated hints more larger server := by
  obtain ⟨hint, steps, member, few, referred⟩ := delegated
  exact ⟨hint, steps, member, Nat.le_trans few le, referred.mono grown⟩

/-- Every query of the log went to the forwarder of its zone, or to a server
that the queries before it have led to. -/
def Followed (cfg : ResolverConfig) : List Event → Prop
  | [] => True
  | .exchange x :: earlier =>
      (staticForwarderFor cfg x.question.qname = some x.server ∨
          Delegated cfg.rootHints earlier maxRecursionDepth x.server) ∧
        Followed cfg earlier
  | .believed _ _ _ :: earlier => Followed cfg earlier

/-- From the first state to the second queries were sent as they should be. -/
structure Follows (cfg : ResolverConfig) (w after : World) : Prop where
  grown : ∀ event, event ∈ w.log → event ∈ after.log
  followed : Followed cfg w.log → Followed cfg after.log

section Composition

variable {cfg : ResolverConfig} {w middle after : World}

theorem Follows.of_log (log : after.log = w.log) : Follows cfg w after := by
  refine ⟨?_, ?_⟩
  · intro event member
    rw [log]
    exact member
  · intro followed
    rw [log]
    exact followed

theorem Follows.refl (w : World) : Follows cfg w w :=
  .of_log rfl

theorem Follows.trans
    (first : Follows cfg w middle) (second : Follows cfg middle after) :
    Follows cfg w after :=
  ⟨fun event member => second.grown event (first.grown event member),
    fun followed => second.followed (first.followed followed)⟩

theorem follows_note (use : Use) (question : DnsQuestion) (raw : Bytes) :
    Follows cfg w (w.note (.believed use question raw)) :=
  ⟨fun _ => List.mem_cons_of_mem _, id⟩

theorem follows_storeReply
    (env : Env) (question : DnsQuestion) (raw : Bytes) (resp : DnsMessage)
    (ttl : UInt32) :
    Follows cfg w (storeReply env question raw resp ttl w).2 :=
  ⟨fun _ member => List.mem_cons_of_mem _ (List.mem_cons_of_mem _ member), id⟩

theorem follows_acceptForwarded
    (env : Env) (question : DnsQuestion) (reply : Option Bytes) :
    Follows cfg w (acceptForwarded env question reply w).2 := by
  rw [acceptForwarded]
  split
  · exact .refl w
  · rename_i raw resp _
    exact follows_storeReply env question raw resp _

end Composition

/-- The query is sent to a server that may be asked. -/
theorem follows_sendQuery
    {cfg : ResolverConfig} (env : Env) {addr : SockAddrIn}
    {question : DnsQuestion} {w : World}
    (allowed :
      staticForwarderFor cfg question.qname = some addr ∨
        Delegated cfg.rootHints w.log maxRecursionDepth addr) :
    Follows cfg w (sendQuery env addr question w).2 := by
  rw [sendQuery]
  cases env.udp w.ticks with
  | notSent => exact .of_log rfl
  | noReply =>
      exact ⟨fun _ => List.mem_cons_of_mem _, fun followed =>
        ⟨allowed, followed⟩⟩
  | reply datagram =>
      exact ⟨fun _ => List.mem_cons_of_mem _, fun followed =>
        ⟨allowed, followed⟩⟩

/-- A usable reply is in the log, with the server it was asked of. -/
theorem exchange_of_usable
    {env : Env} {addr : SockAddrIn} {question : DnsQuestion} {w : World}
    {raw : Bytes} {resp : DnsMessage}
    (usable :
      usableReply (sendQuery env addr question w).1 = some (raw, resp)) :
    ∃ x, .exchange x ∈ (sendQuery env addr question w).2.log ∧
      x.server = addr ∧ x.reply = some raw ∧
        dnsParseMessage raw = .ok resp := by
  obtain ⟨isReply, -, parsed⟩ := usableReply_eq_some usable
  revert isReply
  rw [sendQuery]
  cases env.udp w.ticks with
  | notSent =>
      intro isReply
      cases isReply
  | noReply =>
      intro isReply
      cases isReply
  | reply datagram =>
      intro isReply
      cases isReply
      exact ⟨_, List.mem_cons_self, rfl, rfl, parsed⟩

/-- The servers that a reply refers to are one referral behind the server
that has sent it. -/
theorem Delegated.referral
    {env : Env} {hints : List NsRecord} {addr : SockAddrIn}
    {question : DnsQuestion} {w : World} {bound : Nat} {raw : Bytes}
    {resp : DnsMessage} (delegated : Delegated hints w.log bound addr)
    (usable :
      usableReply (sendQuery env addr question w).1 = some (raw, resp))
    {log : List Event} (before : ∀ event, event ∈ w.log → event ∈ log)
    (after :
      ∀ event, event ∈ (sendQuery env addr question w).2.log → event ∈ log)
    {ns : NsRecord} (listed : ns ∈ buildNsList resp raw) :
    Delegated hints log (bound + 1) ns.addr := by
  obtain ⟨x, member, isServer, reply, parsed⟩ := exchange_of_usable usable
  obtain ⟨hint, steps, isHint, within, referred⟩ := delegated
  refine ⟨hint, steps + 1, isHint, Nat.succ_le_succ within, ?_⟩
  rw [← isServer] at referred
  exact
    .referral (referred.mono before) (after _ member) reply parsed listed

theorem follows_tryServers
    {env : Env} {cfg : ResolverConfig} {bound : Nat}
    {recurse : DnsQuestion → List NsRecord → World → Outcome × World}
    (few : bound ≤ maxRecursionDepth)
    (below :
      ∀ question nsList w,
        (∀ ns, ns ∈ nsList →
          Delegated cfg.rootHints w.log (bound + 1) ns.addr) →
          Follows cfg w (recurse question nsList w).2)
    (question : DnsQuestion) (nsList left : List NsRecord) (w : World)
    (known :
      ∀ ns, ns ∈ nsList → Delegated cfg.rootHints w.log bound ns.addr)
    (isLeft : ∀ ns, ns ∈ left → ns ∈ nsList) :
    Follows cfg w (tryServers env recurse question nsList left w).2 := by
  induction left generalizing w with
  | nil => exact .refl w
  | cons ns left inductionHypothesis =>
      have delegated := known ns (isLeft ns List.mem_cons_self)
      have asked :
          Follows cfg w (sendQuery env ns.addr question w).2 :=
        follows_sendQuery env
          (Or.inr (delegated.mono (fun _ => id) few))
      have others :
          ∀ after : World, Follows cfg w after →
            Follows cfg w
              (tryServers env recurse question nsList left after).2 := by
        intro after follows
        apply follows.trans
        apply inductionHypothesis
        · intro other member
          exact (known other member).mono follows.grown (Nat.le_refl bound)
        · intro other member
          exact isLeft other (List.mem_cons_of_mem ns member)
      have holds := replyKind_holds (sendQuery env ns.addr question w).1
      rw [tryServers_cons]
      cases kind : replyKind (sendQuery env ns.addr question w).1 with
      | useless => exact others _ asked
      | cname raw target =>
          have noted :=
            asked.trans (follows_note .followedCname question raw)
          apply noted.trans
          apply below
          intro other member
          exact (known other member).mono noted.grown (Nat.le_succ bound)
      | answer raw resp ttl =>
          exact asked.trans (follows_storeReply env question raw resp ttl)
      | referral raw resp =>
          rw [kind] at holds
          have noted :=
            asked.trans (follows_note .followedReferral question raw)
          have inner :
              Follows cfg w
                (recurse question (buildNsList resp raw)
                  ((sendQuery env ns.addr question w).2.note
                    (.believed .followedReferral question raw))).2 := by
            apply noted.trans
            apply below
            intro other listed
            exact
              delegated.referral holds.1 noted.grown
                (fun _ => List.mem_cons_of_mem _) listed
          simp only
          split
          · exact inner
          · exact others _ inner
      | nameError raw resp =>
          exact asked.trans (follows_storeReply env question raw resp 600)

theorem follows_resolveInternal
    (env : Env) {cfg : ResolverConfig} (iterative : cfg.dnsForwarder = none)
    {levels bound : Nat} (deep : levels + bound ≤ maxRecursionDepth + 1)
    (question : DnsQuestion) (nsList : List NsRecord) (w : World)
    (known :
      ∀ ns, ns ∈ nsList → Delegated cfg.rootHints w.log bound ns.addr) :
    Follows cfg w (resolveInternal env cfg levels question nsList w).2 := by
  induction levels generalizing bound question nsList w with
  | zero => exact .refl w
  | succ levels inductionHypothesis =>
      rw [resolveInternal]
      cases checked : checkCache env question w with
      | mk hit missed =>
          have sameLog := checkCache_log checked
          have start : Follows cfg w missed := .of_log sameLog
          cases hit with
          | some a => exact start
          | none =>
              simp only
              cases zone : staticForwarderFor cfg question.qname with
              | some addr =>
                  have asked :
                      Follows cfg missed
                        (sendQuery env addr question missed).2 :=
                    follows_sendQuery env (Or.inl zone)
                  exact
                    (start.trans asked).trans
                      (follows_acceptForwarded env question _)
              | none =>
                  rw [iterative]
                  apply start.trans
                  apply follows_tryServers (by omega : bound ≤ _)
                  · intro other otherList otherWorld otherKnown
                    exact
                      inductionHypothesis (by omega) other otherList
                        otherWorld otherKnown
                  · intro ns member
                    rw [sameLog]
                    exact known ns member
                  · exact fun _ => id

theorem followed_resolution
    (env : Env) {cfg : Config F} (iterative : cfg.resolver.dnsForwarder = none)
    (fw : Firewall) (query : DnsMessage) :
    Followed cfg.resolver (resolution env cfg fw query).2.log := by
  rw [resolution, resolverResolve]
  split
  · trivial
  · have enough : maxRecursionDepth + 1 + 0 ≤ maxRecursionDepth + 1 :=
      Nat.le_refl _
    have known :
        ∀ ns, ns ∈ cfg.resolver.rootHints →
          Delegated cfg.resolver.rootHints [] 0 ns.addr :=
      fun ns member => ⟨ns, 0, member, Nat.le_refl 0, .root⟩
    exact
      (follows_resolveInternal env iterative enough _ _ _ known).followed
        trivial

theorem followed_processDnsQuery
    (env : Env) {cfg : Config F} (iterative : cfg.resolver.dnsForwarder = none)
    (fw : Firewall) (inbuf : Bytes) (client : Option SockAddrIn) :
    Followed cfg.resolver (processDnsQuery env cfg fw inbuf client).log := by
  have branch := branch_processDnsQuery env cfg fw inbuf client
  generalize processDnsQuery env cfg fw inbuf client = result at branch
  have resolved := fun query =>
    followed_resolution env iterative (admittedState env fw client) query
  cases branch with
  | unparsed _ => trivial
  | limited _ _ => trivial
  | unasked _ _ _ => trivial
  | banned _ _ _ _ => trivial
  | listed _ _ _ _ _ => trivial
  | generated _ _ _ _ _ _ => trivial
  | ruled _ _ => exact resolved _
  | allowed _ _ =>
      rw [log_sendAnswer]
      exact resolved _

/-- What holds of a log holds of each of its queries with those before it. -/
theorem Followed.query
    {cfg : ResolverConfig} {newer older : List Event} {x : Exchange}
    (followed : Followed cfg (newer ++ .exchange x :: older)) :
    staticForwarderFor cfg x.question.qname = some x.server ∨
      Delegated cfg.rootHints older maxRecursionDepth x.server := by
  induction newer with
  | nil => exact followed.1
  | cons event newer inductionHypothesis =>
      cases event with
      | exchange other => exact inductionHypothesis followed.2
      | believed use question raw => exact inductionHypothesis followed

/-- A loaded root hint is one of a line of the file. -/
theorem exists_hintLine
    {lines : List Bytes} {last : Bytes}
    (fits : ∀ line, line ∈ lines ++ [last] → FitsLine line)
    {hint : NsRecord}
    (loaded :
      hint ∈
        (resolverLoadRootHints []
          (some (terminated 10 lines ++ last))).2) :
    ∃ line, line ∈ lines ++ [last] ∧ HintLine line hint := by
  rw [resolverLoadRootHints] at loaded
  simp only [readHints_lines fits, List.nil_append] at loaded
  obtain ⟨line, member, made⟩ := List.mem_filterMap.mp loaded
  exact ⟨line, member, hintOf_eq_some_iff.mp made⟩

/-- In every run in iterative mode with the root hints of a file, each query
goes to the forwarder of its zone, or to a server that the address in a line
of the file leads to by at most sixteen referrals, each in a reply to a query
before it in the same resolution. -/
theorem servers_delegated
    (cfg : Config F) (iterative : cfg.resolver.dnsForwarder = none)
    (lines : List Bytes) (last : Bytes)
    (fits : ∀ line, line ∈ lines ++ [last] → FitsLine line)
    (loaded :
      cfg.resolver.rootHints =
        (resolverLoadRootHints [] (some (terminated 10 lines ++ last))).2)
    (now : Int) (calls : List QueryCall) (call : QueryCall)
    (newer older : List Event) (x : Exchange)
    (sent :
      (call.result cfg (run (queryCall cfg) (firewallStart now) calls)).log =
        newer ++ .exchange x :: older) :
    staticForwarderFor cfg.resolver x.question.qname = some x.server ∨
      ∃ line hint steps, line ∈ lines ++ [last] ∧ HintLine line hint ∧
        steps ≤ 16 ∧ Referred older hint.addr steps x.server := by
  have followed :=
    followed_processDnsQuery call.env iterative
      (run (queryCall cfg) (firewallStart now) calls) call.inbuf call.client
  rw [QueryCall.result] at sent
  rw [sent] at followed
  rcases followed.query with zone | ⟨hint, steps, member, few, referred⟩
  · exact Or.inl zone
  · right
    rw [loaded] at member
    obtain ⟨line, isLine, isHint⟩ := exists_hintLine fits member
    exact ⟨line, hint, steps, isLine, isHint, few, referred⟩

/-- The default configuration with one root hint. -/
def configHinted : Config Rat :=
  { configDefault with
    resolver :=
      { configDefault.resolver with
        dnsForwarder := none
        rootHints :=
          (resolverLoadRootHints []
            (some (terminated 10 [hintLineA] ++ []))).2 } }

/-- The first query goes to the address in the line. -/
def hintedExchange : Exchange :=
  exchangeOf ⟨sAddrOf [198, 41, 0, 4], dnsPort⟩
    ⟨[97, 46], dnsTypeA, dnsClassIn⟩ 0 (some referralPacket)

/-- The reply refers to another server, and the second query goes there. -/
theorem servers_delegated_referral :
    ∃ line hint steps, line ∈ [hintLineA] ++ [[]] ∧ HintLine line hint ∧
      steps ≤ 16 ∧
        Referred
          [.believed .followedReferral ⟨[97, 46], dnsTypeA, dnsClassIn⟩
              referralPacket,
            .exchange hintedExchange]
          hint.addr steps ⟨sAddrOf [10, 0, 0, 1], dnsPort⟩ := by
  have fits : ∀ line, line ∈ [hintLineA] ++ [[]] → FitsLine line := by
    intro line member
    simp only [List.cons_append, List.nil_append, List.mem_cons,
      List.not_mem_nil, or_false] at member
    rcases member with rfl | rfl
    · exact fitsLine_hintLineA
    · exact fitsLine_nil
  have noZone :
      staticForwarderFor configHinted.resolver [97, 46] ≠
        some ⟨sAddrOf [10, 0, 0, 1], dnsPort⟩ := by
    decide +kernel
  have asked :=
    servers_delegated configHinted rfl [hintLineA] [] fits rfl 0 []
      ⟨envReferring 3, queryA, some visitor⟩
      [.believed .answered ⟨[97, 46], dnsTypeA, dnsClassIn⟩ strayPacket,
        .believed .stored ⟨[97, 46], dnsTypeA, dnsClassIn⟩ strayPacket]
      [.believed .followedReferral ⟨[97, 46], dnsTypeA, dnsClassIn⟩
          referralPacket,
        .exchange hintedExchange]
      (exchangeOf ⟨sAddrOf [10, 0, 0, 1], dnsPort⟩
        ⟨[97, 46], dnsTypeA, dnsClassIn⟩ 0 (some strayPacket))
      (by decide +kernel)
  exact asked.resolve_left noZone

end DnsFirewall
