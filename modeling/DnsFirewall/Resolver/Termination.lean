import DnsFirewall.Resolver.Iteration
import DnsFirewall.Resolver.Trust
import Mathlib.Algebra.BigOperators.Group.Finset.Basic
import Mathlib.Algebra.BigOperators.Ring.Finset

/-!
# Iterative resolution ends

What a run sends is bounded by the depth, which the source tests, and by the
length of the server lists, which it does not: a level of the recursion may
send one query for each of its servers, and below each of them what the next
level may send.
-/

namespace DnsFirewall

open CString

/-- A query is sent from within the limit. -/
def RunStep.Within : RunStep → Prop
  | .query depth => depth ≤ maxRecursionDepth
  | .built _ => True

theorem sentBy_within
    {env : Env} {depth : Nat} {w : World}
    (shallow : depth ≤ maxRecursionDepth) :
    ∀ step, step ∈ sentBy env depth w → step.Within := by
  intro step member
  unfold sentBy at member
  split at member
  · cases member
  · obtain rfl := List.mem_singleton.mp member
    exact shallow
  · obtain rfl := List.mem_singleton.mp member
    exact shallow

theorem IterativeRun.within
    {env : Env} {cfg : ResolverConfig} {point : CodePoint} {depth : Nat}
    {question : DnsQuestion} {nsList : List NsRecord} {w after : World}
    {outcome : Outcome} {steps : List RunStep}
    (run :
      IterativeRun env cfg point depth question nsList w outcome after
        steps)
    (within : point.Within depth) :
    ∀ step, step ∈ steps → step.Within := by
  induction run with
  | tooDeep _ | cached _ _ | exhausted =>
      intro step member
      cases member
  | zone shallow _ _ => exact sentBy_within shallow
  | iterate shallow _ _ _ inductionHypothesis =>
      exact inductionHypothesis shallow
  | useless _ _ inductionHypothesis =>
      exact
        List.forall_mem_append.mpr
          ⟨sentBy_within within, inductionHypothesis within⟩
  | aliased _ _ inductionHypothesis =>
      exact
        List.forall_mem_append.mpr
          ⟨sentBy_within within, inductionHypothesis trivial⟩
  | answered _ | nameError _ => exact sentBy_within within
  | referred _ _ _ inductionHypothesis =>
      exact
        List.forall_mem_append.mpr
          ⟨sentBy_within within,
            List.forall_mem_cons.mpr
              ⟨trivial, inductionHypothesis trivial⟩⟩
  | referredInVain _ _ _ _ innerHypothesis inductionHypothesis =>
      exact
        List.forall_mem_append.mpr
          ⟨sentBy_within within,
            List.forall_mem_cons.mpr
              ⟨trivial,
                List.forall_mem_append.mpr
                  ⟨innerHypothesis trivial, inductionHypothesis within⟩⟩⟩

/-! ## The queries that are sent -/

def RunStep.isQuery : RunStep → Bool
  | .query _ => true
  | .built _ => false

def queriesIn (steps : List RunStep) : Nat :=
  steps.countP RunStep.isQuery

@[simp]
theorem queriesIn_append (first second : List RunStep) :
    queriesIn (first ++ second) = queriesIn first + queriesIn second :=
  List.countP_append

@[simp]
theorem queriesIn_built (entries : Nat) (steps : List RunStep) :
    queriesIn (.built entries :: steps) = queriesIn steps :=
  List.countP_cons_of_neg Bool.false_ne_true

theorem queriesIn_sentBy (env : Env) (depth : Nat) (w : World) :
    queriesIn (sentBy env depth w) ≤ 1 := by
  rw [sentBy]
  split
  · exact Nat.zero_le 1
  · exact Nat.le_refl 1
  · exact Nat.le_refl 1

def Event.isExchange : Event → Bool
  | .exchange _ => true
  | .believed _ _ _ => false

/-- The queries of which the log tells. -/
def exchangesIn (log : List Event) : Nat :=
  log.countP Event.isExchange

theorem exchangesIn_believed
    (use : Use) (question : DnsQuestion) (raw : Bytes) (log : List Event) :
    exchangesIn (.believed use question raw :: log) = exchangesIn log :=
  List.countP_cons_of_neg Bool.false_ne_true

theorem exchangesIn_sendQuery
    (env : Env) (addr : SockAddrIn) (question : DnsQuestion) (w : World)
    (depth : Nat) :
    exchangesIn (sendQuery env addr question w).2.log =
      exchangesIn w.log + queriesIn (sentBy env depth w) := by
  rw [sendQuery, sentBy]
  cases env.udp w.ticks with
  | notSent => rfl
  | noReply => exact List.countP_cons_of_pos rfl
  | reply datagram => exact List.countP_cons_of_pos rfl

theorem exchangesIn_storeReply
    (env : Env) (question : DnsQuestion) (raw : Bytes) (resp : DnsMessage)
    (ttl : UInt32) (w : World) :
    exchangesIn (storeReply env question raw resp ttl w).2.log =
      exchangesIn w.log := by
  rw [storeReply]
  simp only [exchangesIn_believed]

theorem exchangesIn_acceptForwarded
    (env : Env) (question : DnsQuestion) (reply : Option Bytes)
    (w : World) :
    exchangesIn (acceptForwarded env question reply w).2.log =
      exchangesIn w.log := by
  rw [acceptForwarded]
  split
  · rfl
  · rename_i raw resp accepted
    exact exchangesIn_storeReply env question raw resp _ w

/-- The steps count the queries that the log records. -/
theorem IterativeRun.exchanges
    {env : Env} {cfg : ResolverConfig} {point : CodePoint} {depth : Nat}
    {question : DnsQuestion} {nsList : List NsRecord} {w after : World}
    {outcome : Outcome} {steps : List RunStep}
    (run :
      IterativeRun env cfg point depth question nsList w outcome after
        steps) :
    exchangesIn after.log = exchangesIn w.log + queriesIn steps := by
  induction run with
  | tooDeep _ | exhausted => rfl
  | cached _ hit =>
      rw [checkCache_log hit]
      rfl
  | zone _ miss _ =>
      rw [exchangesIn_acceptForwarded, exchangesIn_sendQuery,
        checkCache_log miss]
  | iterate _ miss _ _ inductionHypothesis =>
      rw [inductionHypothesis, checkCache_log miss]
  | useless _ _ inductionHypothesis =>
      rw [inductionHypothesis, exchangesIn_sendQuery, queriesIn_append]
      exact Nat.add_assoc _ _ _
  | aliased _ _ inductionHypothesis =>
      rw [inductionHypothesis, World.note, exchangesIn_believed,
        exchangesIn_sendQuery, queriesIn_append]
      exact Nat.add_assoc _ _ _
  | answered _ | nameError _ =>
      rw [exchangesIn_storeReply, exchangesIn_sendQuery]
  | referred _ _ _ inductionHypothesis =>
      rw [inductionHypothesis, World.note, exchangesIn_believed,
        exchangesIn_sendQuery, queriesIn_append, queriesIn_built]
      exact Nat.add_assoc _ _ _
  | referredInVain _ _ _ _ innerHypothesis inductionHypothesis =>
      rw [inductionHypothesis, innerHypothesis, World.note,
        exchangesIn_believed, exchangesIn_sendQuery, queriesIn_append,
        queriesIn_built, queriesIn_append, ← Nat.add_assoc,
        ← Nat.add_assoc]

/-! ## How many queries there are -/

/-- `n + n² + ⋯`, with as many terms as there are levels. -/
def queryBound (n levels : Nat) : Nat :=
  ∑ i ∈ Finset.range levels, n ^ (i + 1)

theorem queryBound_succ (n levels : Nat) :
    queryBound n (levels + 1) = n * (1 + queryBound n levels) := by
  unfold queryBound
  rw [Finset.sum_range_succ', Nat.mul_add, Finset.mul_sum, Nat.add_comm]
  congr 1
  · simp
  · apply Finset.sum_congr rfl
    intro i _
    rw [pow_succ' n (i + 1)]

/-- A call may send one query for each server, and below each of them what one
level less allows. -/
def pointBound (n depth : Nat) : CodePoint → Nat
  | .call => queryBound n (maxRecursionDepth + 1 - depth)
  | .loop left =>
      left.length * (1 + queryBound n (maxRecursionDepth - depth))

theorem pointBound_call
    (n : Nat) {depth : Nat} (shallow : depth ≤ maxRecursionDepth) :
    pointBound n depth .call =
      n * (1 + queryBound n (maxRecursionDepth - depth)) := by
  have levels :
      maxRecursionDepth + 1 - depth = maxRecursionDepth - depth + 1 := by
    omega
  rw [pointBound]
  rw [levels, queryBound_succ]

theorem pointBound_below (n depth : Nat) :
    pointBound n (depth + 1) .call =
      queryBound n (maxRecursionDepth - depth) := by
  rw [pointBound]
  rw [Nat.add_sub_add_right]

theorem pointBound_cons (n depth : Nat) (ns : NsRecord)
    (left : List NsRecord) :
    pointBound n depth (.loop (ns :: left)) =
      1 + queryBound n (maxRecursionDepth - depth) +
        pointBound n depth (.loop left) := by
  simp only [pointBound, List.length_cons]
  rw [Nat.succ_mul, Nat.add_comm]

/-- Every server list that the run builds has at most `n` entries. -/
def BuiltWithin (n : Nat) (steps : List RunStep) : Prop :=
  ∀ entries, .built entries ∈ steps → entries ≤ n

theorem BuiltWithin.of_append
    {n : Nat} {first second : List RunStep}
    (built : BuiltWithin n (first ++ second)) :
    BuiltWithin n first ∧ BuiltWithin n second :=
  ⟨fun entries member => built entries (List.mem_append_left second member),
    fun entries member => built entries (List.mem_append_right first member)⟩

theorem BuiltWithin.of_cons
    {n : Nat} {first : RunStep} {second : List RunStep}
    (built : BuiltWithin n (first :: second)) : BuiltWithin n second :=
  fun entries member => built entries (List.mem_cons_of_mem first member)

/-- The lists are as long as the referrals that come in make them. -/
theorem IterativeRun.builtWithin
    {env : Env} {cfg : ResolverConfig} {point : CodePoint} {depth : Nat}
    {question : DnsQuestion} {nsList : List NsRecord} {w after : World}
    {outcome : Outcome} {steps : List RunStep} {n : Nat}
    (short : ∀ addr question w raw resp,
      replyKind (sendQuery env addr question w).1 = .referral raw resp →
        (buildNsList resp raw).length ≤ n)
    (run :
      IterativeRun env cfg point depth question nsList w outcome after
        steps) :
    BuiltWithin n steps := by
  have sent : ∀ depth w entries, .built entries ∉ sentBy env depth w := by
    intro depth w entries member
    unfold sentBy at member
    split at member
    · cases member
    · cases List.mem_singleton.mp member
    · cases List.mem_singleton.mp member
  have sentFirst :
      ∀ depth w steps, BuiltWithin n steps →
        BuiltWithin n (sentBy env depth w ++ steps) := by
    intro depth w steps built entries member
    rcases List.mem_append.mp member with first | rest
    · exact absurd first (sent depth w entries)
    · exact built entries rest
  have none : BuiltWithin n [] := fun entries member => by cases member
  have alone : ∀ depth w, BuiltWithin n (sentBy env depth w) :=
    fun depth w entries member => absurd member (sent depth w entries)
  have counted :
      ∀ {entries} steps, entries ≤ n → BuiltWithin n steps →
        BuiltWithin n (.built entries :: steps) := by
    intro entries steps few built other member
    rcases List.mem_cons.mp member with first | rest
    · cases first
      exact few
    · exact built other rest
  induction run with
  | tooDeep _ | cached _ _ | exhausted => exact none
  | zone _ _ _ | answered _ | nameError _ => exact alone _ _
  | iterate _ _ _ _ inductionHypothesis => exact inductionHypothesis
  | useless _ _ inductionHypothesis | aliased _ _ inductionHypothesis =>
      exact sentFirst _ _ _ inductionHypothesis
  | referred kind _ _ inductionHypothesis =>
      exact
        sentFirst _ _ _
          (counted _ (short _ _ _ _ _ kind) inductionHypothesis)
  | referredInVain kind _ _ _ innerHypothesis inductionHypothesis =>
      apply sentFirst
      apply counted _ (short _ _ _ _ _ kind)
      intro entries member
      rcases List.mem_append.mp member with inner | later
      · exact innerHypothesis entries inner
      · exact inductionHypothesis entries later

/-- The depth bounds the levels of the recursion, the length of the lists its
width. -/
theorem IterativeRun.queries_le
    {env : Env} {cfg : ResolverConfig} {point : CodePoint} {depth : Nat}
    {question : DnsQuestion} {nsList : List NsRecord} {w after : World}
    {outcome : Outcome} {steps : List RunStep} {n : Nat}
    (positive : 1 ≤ n)
    (run :
      IterativeRun env cfg point depth question nsList w outcome after
        steps)
    (within : point.Within depth) (short : nsList.length ≤ n)
    (built : BuiltWithin n steps) :
    queriesIn steps ≤ pointBound n depth point := by
  induction run with
  | tooDeep _ | cached _ _ | exhausted => exact Nat.zero_le _
  | zone shallow _ _ =>
      refine Nat.le_trans (queriesIn_sentBy _ _ _) ?_
      rw [pointBound_call n shallow, Nat.mul_add]
      omega
  | iterate shallow _ _ _ inductionHypothesis =>
      rw [pointBound_call n shallow]
      exact
        Nat.le_trans (inductionHypothesis shallow short built)
          (Nat.mul_le_mul_right _ short)
  | @useless depth ns left question nsList w _ _ _ _ _
      inductionHypothesis =>
      have rest := inductionHypothesis within short built.of_append.2
      have first := queriesIn_sentBy env depth w
      rw [queriesIn_append, pointBound_cons]
      omega
  | @aliased depth ns left question nsList w _ _ _ _ _ _ _
      inductionHypothesis =>
      have rest := inductionHypothesis trivial short built.of_append.2
      have first := queriesIn_sentBy env depth w
      rw [pointBound_below] at rest
      rw [queriesIn_append, pointBound_cons]
      omega
  | @answered depth ns left question nsList w _ _ _ _
  | @nameError depth ns left question nsList w _ _ _ =>
      have first := queriesIn_sentBy env depth w
      rw [pointBound_cons]
      omega
  | @referred depth ns left question nsList w raw resp _ _ _ _ _ _
      inductionHypothesis =>
      have later := built.of_append.2
      have rest :=
        inductionHypothesis trivial (later _ List.mem_cons_self)
          later.of_cons
      have first := queriesIn_sentBy env depth w
      rw [pointBound_below] at rest
      rw [queriesIn_append, queriesIn_built, pointBound_cons]
      omega
  | @referredInVain depth ns left question nsList w raw resp _ _ _ _ _ _ _
      _ _ _ innerHypothesis inductionHypothesis =>
      have later := built.of_append.2
      have parts := later.of_cons.of_append
      have inner :=
        innerHypothesis trivial (later _ List.mem_cons_self) parts.1
      have rest := inductionHypothesis within short parts.2
      have first := queriesIn_sentBy env depth w
      rw [pointBound_below] at inner
      rw [queriesIn_append, queriesIn_built, queriesIn_append,
        pointBound_cons]
      omega

/-- In iterative mode `resolve_internal` has a run for all replies.  Every run
returns what the model computes, sends only from calls within the limit, and
sends at most `n + n² + ⋯ + n¹⁷` queries if the server lists have at most `n`
entries; the queries it counts are those of the log. -/
theorem resolveInternal_terminates
    (env : Env) (cfg : ResolverConfig) (iterative : cfg.dnsForwarder = none)
    (question : DnsQuestion) (nsList : List NsRecord) (w : World) :
    (∃ outcome after steps,
        IterativeRun env cfg .call 0 question nsList w outcome after
          steps) ∧
      ∀ outcome after steps,
        IterativeRun env cfg .call 0 question nsList w outcome after
            steps →
          resolveInternal env cfg 17 question nsList w = (outcome, after) ∧
            exchangesIn after.log = exchangesIn w.log + queriesIn steps ∧
            (∀ depth, .query depth ∈ steps → depth ≤ 16) ∧
            ∀ n, 1 ≤ n → nsList.length ≤ n → BuiltWithin n steps →
              queriesIn steps ≤ ∑ i ∈ Finset.range 17, n ^ (i + 1) := by
  constructor
  · exact exists_callRun env cfg 17 0 (Nat.le_refl _) question nsList w
  · intro outcome after steps run
    refine
      ⟨run.computes iterative trivial, run.exchanges, ?_, ?_⟩
    · intro depth member
      exact run.within trivial _ member
    · intro n positive short built
      have bound := run.queries_le positive trivial short built
      have levels : maxRecursionDepth + 1 - 0 = 17 := rfl
      simp only [pointBound, queryBound, levels] at bound
      exact bound

/-- How many servers a reply refers to. -/
def ReplyKind.servers : ReplyKind → Nat
  | .referral raw resp => (buildNsList resp raw).length
  | _ => 0

/-- A reply refers to one server, and the others to none. -/
theorem short_envReferring
    (addr : SockAddrIn) (question : DnsQuestion) (w : World) (raw : Bytes)
    (resp : DnsMessage)
    (referral :
      replyKind (sendQuery (envReferring 1) addr question w).1 =
        .referral raw resp) :
    (buildNsList resp raw).length ≤ 1 := by
  have replies :
      (sendQuery (envReferring 1) addr question w).1 =
          some referralPacket ∨
        (sendQuery (envReferring 1) addr question w).1 =
          some strayPacket := by
    by_cases first : w.ticks = 1
    · left
      simp only [sendQuery, envReferring, if_pos first]
      rfl
    · right
      simp only [sendQuery, envReferring, if_neg first]
      rfl
  have few :
      ∀ packet ∈ [referralPacket, strayPacket],
        (replyKind (some packet)).servers ≤ 1 := by
    decide +kernel
  rcases replies with first | later
  · have here := few referralPacket List.mem_cons_self
    rw [← first, referral] at here
    exact here
  · have here :=
      few strayPacket (List.mem_cons_of_mem _ List.mem_cons_self)
    rw [← later, referral] at here
    exact here

/-- The root server refers to another one, which answers. -/
theorem resolveInternal_terminates_referred :
    ∃ outcome after steps,
      IterativeRun (envReferring 1) configIterative .call 0 questionA
          configIterative.rootHints
          ⟨cacheCreate cacheDefaultSize, tcpPoolStart, 0, []⟩ outcome after
          steps ∧
        queriesIn steps = 2 ∧
          (∀ depth, .query depth ∈ steps → depth ≤ 16) ∧
            queriesIn steps ≤ ∑ i ∈ Finset.range 17, 1 ^ (i + 1) := by
  obtain ⟨⟨outcome, after, steps, run⟩, everyRun⟩ :=
    resolveInternal_terminates (envReferring 1) configIterative rfl
      questionA configIterative.rootHints
      ⟨cacheCreate cacheDefaultSize, tcpPoolStart, 0, []⟩
  obtain ⟨computes, counts, within, bound⟩ :=
    everyRun outcome after steps run
  have two :
      exchangesIn
        (resolveInternal (envReferring 1) configIterative 17 questionA
          configIterative.rootHints
          ⟨cacheCreate cacheDefaultSize, tcpPoolStart, 0, []⟩).2.log = 2 := by
    decide +kernel
  rw [computes, counts] at two
  exact
    ⟨outcome, after, steps, run, (Nat.zero_add _).symm.trans two, within,
      bound 1 le_rfl le_rfl (run.builtWithin short_envReferring)⟩

end DnsFirewall
