import DnsFirewall.Resolver.Calls

/-!
# The replies that a call stores

A call of `resolve_internal` stores at most the reply that it ends with, and
the way it ends tells what this reply is: with 0 a reply that was forwarded or
has an answer record, with -3 a reply whose answer and authority sections are
empty.
-/

namespace DnsFirewall

open CString

/-- What a call that ends in the given way may have stored. -/
def Outcome.MayStore (cfg : ResolverConfig) (outcome : Outcome)
    (question : DnsQuestion) (raw : Bytes) : Prop :=
  ∃ resp, dnsParseMessage raw = .ok resp ∧
    match outcome with
    | .answer _ => Forwards cfg question.qname ∨ resp.answers ≠ []
    | .nxDomain _ =>
        ¬ Forwards cfg question.qname ∧ resp.answers = [] ∧
          resp.authorities = []
    | _ => False

theorem mayStore_passedOn
    {cfg : ResolverConfig} {outcome : Outcome} {question : DnsQuestion}
    {raw : Bytes} (stored : outcome.MayStore cfg question raw) :
    (passedOn outcome).MayStore cfg question raw := by
  cases outcome with
  | nxDomain a => exact stored
  | answer a => exact stored
  | failed => exact stored
  | tooDeep => exact stored
  | hung => exact stored

theorem settled_of_mayStore
    {cfg : ResolverConfig} {outcome : Outcome} {question : DnsQuestion}
    {raw : Bytes} (stored : outcome.MayStore cfg question raw) :
    outcome.Settled := by
  obtain ⟨resp, _, allowed⟩ := stored
  cases outcome with
  | answer a => trivial
  | nxDomain a => trivial
  | hung => trivial
  | failed => exact allowed
  | tooDeep => exact allowed

/-! ## What is added to a state -/

/-- Between the two states only allowed packets were stored: those that the
log records, and those of the entries that are new in the cache. -/
structure Adds (allowed : DnsQuestion → Bytes → Prop) (w after : World) :
    Prop where
  log :
    ∃ new, after.log = new ++ w.log ∧
      ∀ question raw, .believed .stored question raw ∈ new →
        allowed question raw
  entries :
    ∀ slot entry, after.cache.entries slot = some entry →
      w.cache.entries slot = some entry ∨
        ∃ question, allowed question entry.data

section Composition

variable {allowed wider : DnsQuestion → Bytes → Prop}
  {w middle after : World}

/-- Nothing is stored. -/
theorem Adds.of_frame
    (log : after.log = w.log)
    (kept :
      ∀ slot entry, after.cache.entries slot = some entry →
        w.cache.entries slot = some entry) :
    Adds allowed w after := by
  refine ⟨⟨[], log, ?_⟩, ?_⟩
  · intro question raw stored
    cases stored
  · intro slot entry occupied
    exact Or.inl (kept slot entry occupied)

theorem Adds.refl (w : World) : Adds allowed w w :=
  .of_frame rfl fun _ _ occupied => occupied

theorem Adds.trans
    (first : Adds allowed w middle) (second : Adds allowed middle after) :
    Adds allowed w after := by
  obtain ⟨older, logged, olderAllowed⟩ := first.log
  obtain ⟨newer, loggedAgain, newerAllowed⟩ := second.log
  refine ⟨⟨newer ++ older, ?_, ?_⟩, ?_⟩
  · rw [loggedAgain, logged, List.append_assoc]
  · intro question raw stored
    rcases List.mem_append.mp stored with inNewer | inOlder
    · exact newerAllowed question raw inNewer
    · exact olderAllowed question raw inOlder
  · intro slot entry occupied
    rcases second.entries slot entry occupied with before | isNew
    · exact first.entries slot entry before
    · exact Or.inr isNew

theorem Adds.mono
    (adds : Adds allowed w after)
    (weaker : ∀ question raw, allowed question raw → wider question raw) :
    Adds wider w after := by
  obtain ⟨new, logged, newAllowed⟩ := adds.log
  refine ⟨⟨new, logged, ?_⟩, ?_⟩
  · intro question raw stored
    exact weaker question raw (newAllowed question raw stored)
  · intro slot entry occupied
    rcases adds.entries slot entry occupied with
      before | ⟨question, stored⟩
    · exact Or.inl before
    · exact Or.inr ⟨question, weaker question entry.data stored⟩

theorem Asked.adds
    {question : DnsQuestion} {reply : Option Bytes}
    (ask : Asked question w reply after) : Adds allowed w after := by
  have kept :
      ∀ slot entry, after.cache.entries slot = some entry →
        w.cache.entries slot = some entry := by
    intro slot entry occupied
    rw [ask.cache] at occupied
    exact occupied
  rcases ask.log with ⟨_, logged⟩ | ⟨server, id, logged⟩
  · exact .of_frame logged kept
  · refine ⟨⟨[_], logged, ?_⟩, fun slot entry occupied =>
      Or.inl (kept slot entry occupied)⟩
    intro asked raw stored
    simp at stored

/-- To follow a reply is not to store it. -/
theorem Asked.adds_note
    {question : DnsQuestion} {reply : Option Bytes}
    (ask : Asked question w reply after) (use : Use) (raw : Bytes)
    (follows : use ≠ .stored) :
    Adds allowed w (after.note (.believed use question raw)) := by
  refine ask.adds.trans ⟨⟨[_], rfl, ?_⟩, fun _ _ => Or.inl⟩
  intro asked packet stored
  rw [List.mem_singleton] at stored
  injection stored with same
  exact absurd same.symm follows

theorem adds_checkCache
    {env : Env} {question : DnsQuestion} {found : Option Answer}
    (checked : checkCache env question w = (found, after)) :
    Adds allowed w after := by
  apply Adds.of_frame (checkCache_log checked)
  intro slot entry occupied
  rw [cache_of_checkCache checked] at occupied
  exact entries_of_cacheLookup occupied

theorem adds_storeReply
    {env : Env} {question : DnsQuestion} {raw : Bytes} (resp : DnsMessage)
    (ttl : UInt32) (isAllowed : allowed question raw) :
    Adds allowed w (storeReply env question raw resp ttl w).2 := by
  refine
    ⟨⟨[.believed .answered question raw, .believed .stored question raw],
      rfl, ?_⟩, ?_⟩
  · intro asked packet stored
    simp only [List.mem_cons, List.not_mem_nil, or_false, Event.believed.injEq,
      reduceCtorEq, false_and, true_and, false_or] at stored
    obtain ⟨rfl, rfl⟩ := stored
    exact isAllowed
  · intro slot entry occupied
    rcases entries_of_cacheStore occupied with before | ⟨_, _, isReply⟩
    · exact Or.inl before
    · rw [isReply]
      exact Or.inr ⟨question, isAllowed⟩

end Composition

/-! ## Forwarding -/

theorem adds_acceptForwarded
    {cfg : ResolverConfig} {env : Env} {question : DnsQuestion}
    (forwards : Forwards cfg question.qname) (reply : Option Bytes)
    (w : World) :
    Adds ((acceptForwarded env question reply w).1.MayStore cfg) w
      (acceptForwarded env question reply w).2 := by
  rw [acceptForwarded]
  cases usable : usableReply reply with
  | none => exact .refl w
  | some accepted =>
      obtain ⟨raw, resp⟩ := accepted
      obtain ⟨_, _, parsed⟩ := usableReply_eq_some usable
      exact adds_storeReply resp _ ⟨resp, parsed, Or.inl forwards⟩

theorem Forwarded.adds
    {cfg : ResolverConfig} {env : Env} {question : DnsQuestion}
    {w : World} {result : Outcome × World}
    (forwards : Forwards cfg question.qname)
    (forwarded : Forwarded env question w result) :
    Adds (result.1.MayStore cfg) w result.2 := by
  rcases forwarded with ⟨reply, asked, ask, same⟩ | ⟨_, cache, log⟩
  · rw [same]
    exact ask.adds.trans (adds_acceptForwarded forwards reply asked)
  · apply Adds.of_frame log
    intro slot entry occupied
    rw [cache] at occupied
    exact occupied

/-! ## Iteration -/

/-- The loop stores what it may if the calls below it do. -/
theorem adds_tryServers
    {env : Env} {cfg : ResolverConfig}
    {recurse : DnsQuestion → List NsRecord → World → Outcome × World}
    (below :
      ∀ question nsList w,
        Adds ((recurse question nsList w).1.MayStore cfg) w
          (recurse question nsList w).2)
    {question : DnsQuestion} (iterates : ¬ Forwards cfg question.qname)
    (nsList left : List NsRecord) (w : World) :
    Adds
      ((tryServers env recurse question nsList left w).1.MayStore cfg) w
      (tryServers env recurse question nsList left w).2 := by
  induction left generalizing w with
  | nil => exact .refl w
  | cons ns left inductionHypothesis =>
      have ask := asked_sendQuery env ns.addr question w
      rw [tryServers_cons]
      cases kind : replyKind (sendQuery env ns.addr question w).1 with
      | useless => exact ask.adds.trans (inductionHypothesis _)
      | cname raw target =>
          have inner :=
            below { question with qname := target } nsList
              ((sendQuery env ns.addr question w).2.note
                (.believed .followedCname question raw))
          apply (ask.adds_note .followedCname raw (by decide)).trans
          exact inner.mono fun _ _ => mayStore_passedOn
      | answer raw resp ttl =>
          have holds := replyKind_holds (sendQuery env ns.addr question w).1
          rw [kind] at holds
          obtain ⟨first, more, usable, answers, _, _⟩ := holds
          obtain ⟨_, _, parsed⟩ := usableReply_eq_some usable
          have hasAnswer : resp.answers ≠ [] := by
            rw [answers]
            exact List.cons_ne_nil first more
          exact
            ask.adds.trans
              (adds_storeReply resp _ ⟨resp, parsed, Or.inr hasAnswer⟩)
      | referral raw resp =>
          have inner :=
            below question (buildNsList resp raw)
              ((sendQuery env ns.addr question w).2.note
                (.believed .followedReferral question raw))
          apply (ask.adds_note .followedReferral raw (by decide)).trans
          simp only
          split
          · exact inner.mono fun _ _ => mayStore_passedOn
          · rename_i vain
            -- a call that was in vain has stored nothing
            apply Adds.trans _ (inductionHypothesis _)
            apply inner.mono
            intro asked packet stored
            exact absurd (settled_of_mayStore stored) vain
      | nameError raw resp =>
          have holds := replyKind_holds (sendQuery env ns.addr question w).1
          rw [kind] at holds
          obtain ⟨usable, answers, authorities, _⟩ := holds
          obtain ⟨_, _, parsed⟩ := usableReply_eq_some usable
          exact
            ask.adds.trans
              (adds_storeReply resp _
                ⟨resp, parsed, iterates, answers, authorities⟩)

/-- A call stores only what its ending says. -/
theorem adds_resolveInternal
    (env : Env) (cfg : ResolverConfig) (levels : Nat)
    (question : DnsQuestion) (nsList : List NsRecord) (w : World) :
    Adds
      ((resolveInternal env cfg levels question nsList w).1.MayStore cfg)
      w (resolveInternal env cfg levels question nsList w).2 := by
  induction levels generalizing question nsList w with
  | zero => exact .refl w
  | succ levels inductionHypothesis =>
      rw [resolveInternal]
      cases checked : checkCache env question w with
      | mk hit missed =>
          apply (adds_checkCache checked).trans
          cases hit with
          | some a => exact .refl missed
          | none =>
              simp only
              cases zone : staticForwarderFor cfg question.qname with
              | some addr =>
                  have forwards : Forwards cfg question.qname := by
                    apply Or.inl
                    rw [zone]
                    exact Option.some_ne_none addr
                  have ask := asked_sendQuery env addr question missed
                  exact ask.adds.trans (adds_acceptForwarded forwards _ _)
              | none =>
                  cases forwarder : cfg.dnsForwarder with
                  | some fwdIp =>
                      have forwards : Forwards cfg question.qname := by
                        apply Or.inr
                        rw [forwarder]
                        exact Option.some_ne_none fwdIp
                      simp only
                      split
                      · exact (forwarded_forwardTcp ..).adds forwards
                      · exact (forwarded_forwardUdp ..).adds forwards
                  | none =>
                      have iterates : ¬ Forwards cfg question.qname := by
                        intro forwards
                        rcases forwards with inZone | toForwarder
                        · exact inZone zone
                        · exact toForwarder forwarder
                      exact adds_tryServers inductionHypothesis iterates ..

end DnsFirewall
