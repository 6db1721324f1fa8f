import DnsFirewall.Resolver.Derivation

/-!
# The runs in iterative mode

The runs of `resolve_internal` without a forwarder, as the source has them:
the depth counts upwards, and nothing but the test
`depth > MAX_RECURSION_DEPTH` stops it.  There is a run for all replies, and
every run ends as the function of the model does.
-/

namespace DnsFirewall

open CString

/-- A place in the program: the head of `resolve_internal`, or its server loop
with the servers left. -/
inductive CodePoint where
  | call
  | loop (left : List NsRecord)

/-- What is counted in a run: a query, with the depth of the call that sent
it, and a server list that `build_ns_list` has found, with its length. -/
inductive RunStep where
  | query (depth : Nat)
  | built (entries : Nat)
deriving DecidableEq, Repr

/-- What `send_query` sends. -/
def sentBy (env : Env) (depth : Nat) (w : World) : List RunStep :=
  match env.udp w.ticks with
  | .notSent => []
  | .noReply => [.query depth]
  | .reply _ => [.query depth]

/-- The runs in iterative mode, with the steps that are counted. -/
inductive IterativeRun (env : Env) (cfg : ResolverConfig) :
    CodePoint → Nat → DnsQuestion → List NsRecord → World → Outcome →
      World → List RunStep → Prop where
  | tooDeep {depth question nsList w} :
      maxRecursionDepth < depth →
        IterativeRun env cfg .call depth question nsList w .tooDeep w []
  | cached {depth question nsList w a after} :
      depth ≤ maxRecursionDepth →
        checkCache env question w = (some a, after) →
          IterativeRun env cfg .call depth question nsList w (.answer a)
            after []
  | zone {depth question nsList w missed addr} :
      depth ≤ maxRecursionDepth →
        checkCache env question w = (none, missed) →
          staticForwarderFor cfg question.qname = some addr →
            IterativeRun env cfg .call depth question nsList w
              (acceptForwarded env question
                (sendQuery env addr question missed).1
                (sendQuery env addr question missed).2).1
              (acceptForwarded env question
                (sendQuery env addr question missed).1
                (sendQuery env addr question missed).2).2
              (sentBy env depth missed)
  | iterate {depth question nsList w missed outcome after steps} :
      depth ≤ maxRecursionDepth →
        checkCache env question w = (none, missed) →
          staticForwarderFor cfg question.qname = none →
            IterativeRun env cfg (.loop nsList) depth question nsList
                missed outcome after steps →
              IterativeRun env cfg .call depth question nsList w outcome
                after steps
  | exhausted {depth question nsList w} :
      IterativeRun env cfg (.loop []) depth question nsList w .failed w []
  | useless {depth ns left question nsList w outcome after steps} :
      replyKind (sendQuery env ns.addr question w).1 = .useless →
        IterativeRun env cfg (.loop left) depth question nsList
            (sendQuery env ns.addr question w).2 outcome after steps →
          IterativeRun env cfg (.loop (ns :: left)) depth question nsList w
            outcome after (sentBy env depth w ++ steps)
  | aliased {depth ns left question nsList w raw target outcome after
        steps} :
      replyKind (sendQuery env ns.addr question w).1 =
          .cname raw target →
        IterativeRun env cfg .call (depth + 1)
            { question with qname := target } nsList
            ((sendQuery env ns.addr question w).2.note
              (.believed .followedCname question raw))
            outcome after steps →
          IterativeRun env cfg (.loop (ns :: left)) depth question nsList w
            (passedOn outcome) after (sentBy env depth w ++ steps)
  | answered {depth ns left question nsList w raw resp ttl} :
      replyKind (sendQuery env ns.addr question w).1 =
          .answer raw resp ttl →
        IterativeRun env cfg (.loop (ns :: left)) depth question nsList w
          (.answer
            (storeReply env question raw resp ttl
              (sendQuery env ns.addr question w).2).1)
          (storeReply env question raw resp ttl
            (sendQuery env ns.addr question w).2).2
          (sentBy env depth w)
  | referred {depth ns left question nsList w raw resp outcome after
        steps} :
      replyKind (sendQuery env ns.addr question w).1 =
          .referral raw resp →
        IterativeRun env cfg .call (depth + 1) question
            (buildNsList resp raw)
            ((sendQuery env ns.addr question w).2.note
              (.believed .followedReferral question raw))
            outcome after steps →
          outcome.Settled →
            IterativeRun env cfg (.loop (ns :: left)) depth question nsList
              w (passedOn outcome) after
              (sentBy env depth w ++
                .built (buildNsList resp raw).length :: steps)
  | referredInVain {depth ns left question nsList w raw resp vain between
        inner outcome after steps} :
      replyKind (sendQuery env ns.addr question w).1 =
          .referral raw resp →
        IterativeRun env cfg .call (depth + 1) question
            (buildNsList resp raw)
            ((sendQuery env ns.addr question w).2.note
              (.believed .followedReferral question raw))
            vain between inner →
          ¬ vain.Settled →
            IterativeRun env cfg (.loop left) depth question nsList between
                outcome after steps →
              IterativeRun env cfg (.loop (ns :: left)) depth question
                nsList w outcome after
                (sentBy env depth w ++
                  .built (buildNsList resp raw).length :: (inner ++ steps))
  | nameError {depth ns left question nsList w raw resp} :
      replyKind (sendQuery env ns.addr question w).1 =
          .nameError raw resp →
        IterativeRun env cfg (.loop (ns :: left)) depth question nsList w
          (.nxDomain
            (some
              (storeReply env question raw resp 600
                (sendQuery env ns.addr question w).2).1))
          (storeReply env question raw resp 600
            (sendQuery env ns.addr question w).2).2
          (sentBy env depth w)

/-! ## There is a run -/

/-- The loop ends if the calls below it do. -/
theorem exists_loopRun
    (env : Env) (cfg : ResolverConfig) (depth : Nat)
    (below :
      ∀ question nsList w, ∃ outcome after steps,
        IterativeRun env cfg .call (depth + 1) question nsList w outcome
          after steps)
    (question : DnsQuestion) (nsList left : List NsRecord) (w : World) :
    ∃ outcome after steps,
      IterativeRun env cfg (.loop left) depth question nsList w outcome
        after steps := by
  induction left generalizing w with
  | nil => exact ⟨_, _, _, .exhausted⟩
  | cons ns left inductionHypothesis =>
      cases kind : replyKind (sendQuery env ns.addr question w).1 with
      | useless =>
          obtain ⟨outcome, after, steps, run⟩ :=
            inductionHypothesis (sendQuery env ns.addr question w).2
          exact ⟨_, _, _, .useless kind run⟩
      | cname raw target =>
          obtain ⟨outcome, after, steps, run⟩ :=
            below { question with qname := target } nsList
              ((sendQuery env ns.addr question w).2.note
                (.believed .followedCname question raw))
          exact ⟨_, _, _, .aliased kind run⟩
      | answer raw resp ttl => exact ⟨_, _, _, .answered kind⟩
      | referral raw resp =>
          obtain ⟨outcome, after, steps, run⟩ :=
            below question (buildNsList resp raw)
              ((sendQuery env ns.addr question w).2.note
                (.believed .followedReferral question raw))
          by_cases settled : outcome.Settled
          · exact ⟨_, _, _, .referred kind run settled⟩
          · obtain ⟨last, stop, more, rest⟩ := inductionHypothesis after
            exact ⟨_, _, _, .referredInVain kind run settled rest⟩
      | nameError raw resp => exact ⟨_, _, _, .nameError kind⟩

/-- The levels below the limit are used up by the depth. -/
theorem exists_callRun
    (env : Env) (cfg : ResolverConfig) (levels depth : Nat)
    (left : maxRecursionDepth + 1 ≤ depth + levels)
    (question : DnsQuestion) (nsList : List NsRecord) (w : World) :
    ∃ outcome after steps,
      IterativeRun env cfg .call depth question nsList w outcome after
        steps := by
  induction levels generalizing depth question nsList w with
  | zero => exact ⟨_, _, _, .tooDeep left⟩
  | succ levels inductionHypothesis =>
      by_cases deep : maxRecursionDepth < depth
      · exact ⟨_, _, _, .tooDeep deep⟩
      · have shallow := Nat.not_lt.mp deep
        cases checked : checkCache env question w with
        | mk hit missed =>
            cases hit with
            | some a => exact ⟨_, _, _, .cached shallow checked⟩
            | none =>
                cases zone : staticForwarderFor cfg question.qname with
                | some addr => exact ⟨_, _, _, .zone shallow checked zone⟩
                | none =>
                    obtain ⟨outcome, after, steps, run⟩ :=
                      exists_loopRun env cfg depth
                        (inductionHypothesis (depth + 1) (by omega))
                        question nsList nsList missed
                    exact ⟨_, _, _, .iterate shallow checked zone run⟩

/-! ## What every run does -/

/-- The loop is only entered below the limit. -/
def CodePoint.Within (depth : Nat) : CodePoint → Prop
  | .call => True
  | .loop _ => depth ≤ maxRecursionDepth

/-- What the functions of the model compute from the place on. -/
def computed (env : Env) (cfg : ResolverConfig) (depth : Nat)
    (question : DnsQuestion) (nsList : List NsRecord) (w : World) :
    CodePoint → Outcome × World
  | .call =>
      resolveInternal env cfg (maxRecursionDepth + 1 - depth) question
        nsList w
  | .loop left =>
      tryServers env
        (resolveInternal env cfg (maxRecursionDepth - depth)) question
        nsList left w

theorem computed_loop
    (env : Env) (cfg : ResolverConfig) (depth : Nat)
    (question : DnsQuestion) (nsList left : List NsRecord) (w : World) :
    computed env cfg depth question nsList w (.loop left) =
      tryServers env
        (resolveInternal env cfg (maxRecursionDepth - depth)) question
        nsList left w :=
  rfl

/-- The call at the head, as the recursion of the model unfolds it. -/
theorem computed_call
    (env : Env) (cfg : ResolverConfig) {depth : Nat}
    (shallow : depth ≤ maxRecursionDepth) (question : DnsQuestion)
    (nsList : List NsRecord) (w : World) :
    computed env cfg depth question nsList w .call =
      resolveInternal env cfg (maxRecursionDepth - depth + 1) question
        nsList w := by
  have levels :
      maxRecursionDepth - depth + 1 = maxRecursionDepth + 1 - depth := by
    omega
  rw [levels]
  rfl

/-- A call that the loop makes. -/
theorem computed_below
    (env : Env) (cfg : ResolverConfig) (depth : Nat)
    (question : DnsQuestion) (nsList : List NsRecord) (w : World) :
    computed env cfg (depth + 1) question nsList w .call =
      resolveInternal env cfg (maxRecursionDepth - depth) question nsList
        w := by
  rw [← Nat.add_sub_add_right maxRecursionDepth 1 depth]
  rfl

/-- A run ends as the function of the model does. -/
theorem IterativeRun.computes
    {env : Env} {cfg : ResolverConfig} {point : CodePoint} {depth : Nat}
    {question : DnsQuestion} {nsList : List NsRecord} {w after : World}
    {outcome : Outcome} {steps : List RunStep}
    (iterative : cfg.dnsForwarder = none)
    (run :
      IterativeRun env cfg point depth question nsList w outcome after
        steps)
    (within : point.Within depth) :
    computed env cfg depth question nsList w point = (outcome, after) := by
  induction run with
  | tooDeep deep =>
      rw [computed]
      rw [Nat.sub_eq_zero_of_le deep]
      rfl
  | cached shallow hit =>
      rw [computed_call env cfg shallow, resolveInternal]
      simp only [hit]
  | zone shallow miss isZone =>
      rw [computed_call env cfg shallow, resolveInternal]
      simp only [miss, isZone]
  | iterate shallow miss noZone _ inductionHypothesis =>
      rw [computed_call env cfg shallow, resolveInternal]
      simp only [miss, noZone, iterative]
      exact inductionHypothesis shallow
  | exhausted => rfl
  | useless kind _ inductionHypothesis =>
      rw [computed_loop, tryServers_cons, kind]
      exact inductionHypothesis within
  | aliased kind _ inductionHypothesis =>
      have inner := inductionHypothesis trivial
      rw [computed_below] at inner
      rw [computed_loop, tryServers_cons, kind]
      simp only [inner]
  | answered kind =>
      rw [computed_loop, tryServers_cons, kind]
  | referred kind _ settled inductionHypothesis =>
      have inner := inductionHypothesis trivial
      rw [computed_below] at inner
      rw [computed_loop, tryServers_cons, kind]
      simp only [inner]
      rw [if_pos settled]
  | referredInVain kind _ notSettled _ innerHypothesis
      inductionHypothesis =>
      have inner := innerHypothesis trivial
      rw [computed_below] at inner
      rw [computed_loop, tryServers_cons, kind]
      simp only [inner]
      rw [if_neg notSettled]
      exact inductionHypothesis within
  | nameError kind =>
      rw [computed_loop, tryServers_cons, kind]

end DnsFirewall
