import DnsFirewall.Foundations.Runs
import DnsFirewall.Processor.Workers

/-!
# A worker left alone

While nobody else does a step, the steps of a worker make a call of
`process_dns_query`: it leaves the same firewall behind and does the same.
-/

namespace DnsFirewall

open CString Runs

variable {F W : Type}

/-! ## The resolver alone -/

/-- An answer comes with the pointer to its packet if it was found in the
cache, and without one if it was received. -/
def Lands (heap : Heap) : (Outcome × Option Handle) × Storage → Prop
  | ((.answer a, some handle), s) =>
      a.source = .cached ∧ s.read heap handle = a.raw
  | ((.answer a, none), _) => ∃ before, a.source = .received before
  | _ => True

section Landing

variable {env : Env} {heap : Heap}

theorem lands_acceptSteps
    (question : DnsQuestion) (reply : Option Bytes) (s : Storage) :
    Lands heap ((acceptSteps question reply).alone env heap s) := by
  rw [acceptSteps]
  cases usableReply reply with
  | none => trivial
  | some both => exact ⟨s.world.cache, rfl⟩

theorem lands_receive
    {exchange : World → Option (Option Bytes) × World}
    {next : Option Bytes → Proc} {s : Storage}
    (rest : ∀ reply after, Lands heap ((next reply).alone env heap after)) :
    Lands heap ((Proc.receive exchange next).alone env heap s) := by
  rw [Proc.alone]
  cases exchange s.world with
  | mk reply world =>
      cases reply with
      | none => trivial
      | some reply => exact rest reply _

theorem lands_aliasSteps
    {p : Proc} {s : Storage} (lands : Lands heap (p.alone env heap s)) :
    Lands heap ((p.andThen aliasSteps).alone env heap s) := by
  have hung : aliasSteps .hung none = .done .hung none := rfl
  rw [Proc.alone_andThen env heap hung]
  cases ends : p.alone env heap s with
  | mk reached after =>
      obtain ⟨outcome, buffer⟩ := reached
      rw [ends] at lands
      cases outcome with
      | answer a => exact lands
      | nxDomain a => trivial
      | failed => exact lands
      | tooDeep => exact lands
      | hung => exact lands

theorem lands_referralSteps
    {p others : Proc} {s : Storage}
    (lands : Lands heap (p.alone env heap s))
    (rest : ∀ after, Lands heap (others.alone env heap after)) :
    Lands heap ((p.andThen (referralSteps others)).alone env heap s) := by
  have hung : referralSteps others .hung none = .done .hung none := rfl
  rw [Proc.alone_andThen env heap hung]
  cases ends : p.alone env heap s with
  | mk reached after =>
      obtain ⟨outcome, buffer⟩ := reached
      rw [ends] at lands
      cases outcome with
      | answer a => exact lands
      | nxDomain a => trivial
      | failed => exact rest after
      | tooDeep => exact rest after
      | hung => trivial

theorem lands_serverSteps
    {recurse : DnsQuestion → List NsRecord → Proc}
    (lands : ∀ question nsList s,
      Lands heap ((recurse question nsList).alone env heap s))
    (question : DnsQuestion) (nsList rest : List NsRecord) (s : Storage) :
    Lands heap
      ((serverSteps env recurse question nsList rest).alone env heap s) := by
  induction rest generalizing s with
  | nil => trivial
  | cons ns rest inductionHypothesis =>
      apply lands_receive
      intro reply after
      cases usableReply reply with
      | none => exact inductionHypothesis after
      | some both =>
          obtain ⟨raw, resp⟩ := both
          simp only
          split
          · split
            · exact lands_aliasSteps (lands _ _ _)
            · exact ⟨after.world.cache, rfl⟩
          · split
            · split
              · exact inductionHypothesis after
              · exact lands_referralSteps (lands _ _ _) inductionHypothesis
            · split
              · trivial
              · exact inductionHypothesis after

theorem lands_missSteps
    (cfg : ResolverConfig) {recurse : DnsQuestion → List NsRecord → Proc}
    (lands : ∀ question nsList s,
      Lands heap ((recurse question nsList).alone env heap s))
    (question : DnsQuestion) (nsList : List NsRecord) (s : Storage) :
    Lands heap
      ((missSteps env cfg recurse question nsList).alone env heap s) := by
  rw [missSteps]
  split
  · exact lands_receive (lands_acceptSteps question)
  · split
    · split
      · exact lands_receive (lands_acceptSteps question)
      · split
        · trivial
        · exact lands_receive (lands_acceptSteps question)
    · exact lands_serverSteps lands question nsList nsList s

theorem lands_resolveSteps
    (cfg : ResolverConfig) (levels : Nat) (question : DnsQuestion)
    (nsList : List NsRecord) (s : Storage) :
    Lands heap
      ((resolveSteps env cfg levels question nsList).alone env heap s) := by
  induction levels generalizing question nsList s with
  | zero => trivial
  | succ levels inductionHypothesis =>
      have missed :=
        lands_missSteps cfg inductionHypothesis question nsList
      rw [resolveSteps, Proc.alone]
      simp only
      cases (s.lookup env question).1 with
      | none => exact missed _
      | some handle =>
          simp only
          rw [Proc.alone]
          cases dnsParseMessage
              ((s.lookup env question).2.read heap handle) with
          | error failure => exact missed _
          | ok message => exact ⟨rfl, rfl⟩

theorem lands_resolverSteps
    (cfg : ResolverConfig) (query : DnsMessage) (s : Storage) :
    Lands heap ((resolverSteps env cfg query).alone env heap s) := by
  rw [resolverSteps]
  cases query.questions with
  | nil => trivial
  | cons question more => exact lands_resolveSteps cfg _ _ _ s

end Landing

theorem Storage.lookup_pool
    (env : Env) (question : DnsQuestion) (s : Storage) :
    (s.lookup env question).2.world.pool = s.world.pool := by
  rw [Storage.lookup]
  simp only
  split
  · rfl
  · rfl

/-! ## The firewall of a worker -/

theorem rateLimit_keeps
    (env : Env) (fw : Firewall) (client : Option SockAddrIn) :
    (rateLimit env fw client).2.cache = fw.cache ∧
      (rateLimit env fw client).2.pool = fw.pool := by
  rw [rateLimit]
  split
  · exact ⟨rfl, rfl⟩
  · exact ⟨rfl, rfl⟩

theorem any_adIsQuarantined
    (env : Env) (fw : Firewall) (client : Option SockAddrIn) :
    (checkedClient client).any (fun ip =>
        adIsQuarantined fw.defense ip (env.time 1)) =
      isQuarantined env fw client := by
  rw [isQuarantined]
  cases checkedClient client with
  | none => rfl
  | some ip => rfl

theorem firewall_withFirewall
    (s : System W) {fw : Firewall} {storage : Storage}
    (cache : fw.cache = storage.world.cache)
    (pool : fw.pool = storage.world.pool) :
    ((s.withFirewall fw).withStorage storage).firewall = fw := by
  rw [System.firewall, System.withFirewall, System.withStorage]
  simp only [← cache, ← pool]

/-! ## The steps of a call -/

section Steps

variable [DecidableEq W] {env : Env} {heap : Heap} {cfg : Config F}

/-- The state after so many steps of the worker. -/
def System.advances (env : Env) (heap : Heap) (cfg : Config F)
    (s : System W) (worker : W) (count : Nat) : System W :=
  run (System.step env heap cfg) s (List.replicate count (.advance worker))

theorem advances_succ (s : System W) (worker : W) (count : Nat) :
    s.advances env heap cfg worker (count + 1) =
      (s.advance env heap cfg worker).advances env heap cfg worker count :=
  rfl

theorem advances_add (s : System W) (worker : W) (first second : Nat) :
    s.advances env heap cfg worker (first + second) =
      (s.advances env heap cfg worker first).advances env heap cfg worker
        second := by
  rw [System.advances, List.replicate_add, run_append]
  rfl

/-- The steps of the worker bring the process to its end. -/
def System.Resolves (env : Env) (heap : Heap) (cfg : Config F)
    (s : System W) (worker : W) (call : Call) (p : Proc) : Prop :=
  ∃ count,
    s.advances env heap cfg worker count =
      (s.withStorage (p.alone env heap s.storage).2).withPhase worker
        (.checking call (p.alone env heap s.storage).1.1
          (p.alone env heap s.storage).1.2)

theorem resolves_done
    {s : System W} {worker : W} {call : Call} {outcome : Outcome}
    {buffer : Option Handle}
    (isPhase : s.phase worker = .resolving call (.done outcome buffer)) :
    s.Resolves env heap cfg worker call (.done outcome buffer) := by
  refine ⟨1, ?_⟩
  rw [advances_succ, System.advance]
  simp only [isPhase]
  rfl

theorem resolves_of_step
    {s : System W} {worker : W} {call : Call} {p : Proc}
    (moves :
      s.advance env heap cfg worker =
        (s.withStorage (p.step env heap s.storage).2).withPhase worker
          (.resolving call (p.step env heap s.storage).1))
    (rest :
      ((s.withStorage (p.step env heap s.storage).2).withPhase worker
          (.resolving call (p.step env heap s.storage).1)).Resolves env heap
        cfg worker call (p.step env heap s.storage).1) :
    s.Resolves env heap cfg worker call p := by
  obtain ⟨count, ends⟩ := rest
  have sameEnd := Proc.alone_step env heap p s.storage
  refine ⟨count + 1, ?_⟩
  rw [advances_succ, moves, ends, ← sameEnd]
  unfold System.withPhase System.withStorage
  simp only [Function.update_idem]

/-- The resolver comes to its end. -/
theorem resolves_proc (call : Call) (worker : W) (p : Proc) :
    ∀ s : System W, s.phase worker = .resolving call p →
      s.Resolves env heap cfg worker call p := by
  induction p with
  | done outcome buffer => exact fun s isPhase => resolves_done isPhase
  | lookup question next inductionHypothesis =>
      intro s isPhase
      apply resolves_of_step
      · rw [System.advance]
        simp only [isPhase]
      · exact inductionHypothesis _ _ (Function.update_self _ _ _)
  | read handle next inductionHypothesis =>
      intro s isPhase
      apply resolves_of_step
      · rw [System.advance]
        simp only [isPhase]
      · exact inductionHypothesis _ _ (Function.update_self _ _ _)
  | receive exchange next inductionHypothesis =>
      intro s isPhase
      apply resolves_of_step
      · rw [System.advance]
        simp only [isPhase]
      · rw [Proc.step]
        cases exchange s.storage.world with
        | mk reply world =>
            cases reply with
            | none => exact resolves_done (Function.update_self _ _ _)
            | some reply =>
                exact inductionHypothesis reply _ (Function.update_self _ _ _)
  | note event next inductionHypothesis =>
      intro s isPhase
      apply resolves_of_step
      · rw [System.advance]
        simp only [isPhase]
      · exact inductionHypothesis _ (Function.update_self _ _ _)
  | store question raw resp ttl next inductionHypothesis =>
      intro s isPhase
      apply resolves_of_step
      · rw [System.advance]
        simp only [isPhase]
      · exact inductionHypothesis _ _ (Function.update_self _ _ _)

/-! ## What a call leaves -/

/-- Between the two states the worker has made a call with the given result. -/
structure Shows (s after : System W) (worker : W) (result : CallResult) :
    Prop where
  state : after.firewall = result.state
  ended : result.ending = .hung ∨ after.phase worker = .idle
  outputs :
    (after.deliveries = s.deliveries ∧
        after.effects =
          result.effects.reverse.map (fun effect => (worker, effect)) ++
            s.effects) ∨
      ∃ d, after.deliveries = d :: s.deliveries ∧
        after.effects = s.effects ∧
        result.effects = [.respond .delivery d.packet]

/-- A step without output is part of the call. -/
theorem shows_of_advance
    {s next : System W} {worker : W} {result : CallResult}
    (moves : s.advance env heap cfg worker = next)
    (deliveries : next.deliveries = s.deliveries)
    (effects : next.effects = s.effects)
    (rest :
      ∃ count,
        Shows next (next.advances env heap cfg worker count) worker
          result) :
    ∃ count,
      Shows s (s.advances env heap cfg worker count) worker result := by
  obtain ⟨count, shows⟩ := rest
  refine ⟨count + 1, ?_⟩
  rw [advances_succ, moves]
  refine ⟨shows.state, shows.ended, ?_⟩
  rw [← deliveries, ← effects]
  exact shows.outputs

/-! ## Blocks -/

/-- Three steps behind the sinkhole packet the block is reported. -/
theorem advances_reporting
    {s : System W} {worker : W} {client : Option SockAddrIn} {qname : Bytes}
    (isPhase : s.phase worker = .reporting client qname) :
    let after := s.advances env heap cfg worker 3
    after.firewall =
        reportBlock env s.storage.world.ticks s.firewall client qname ∧
      after.phase worker = .idle ∧ after.deliveries = s.deliveries ∧
        after.effects =
          (blockReports s.firewall client qname).reverse.map
              (fun effect => (worker, effect)) ++
            s.effects := by
  have reads :
      s.advance env heap cfg worker =
        (s.withStorage (s.storage.addTicks 1)).withPhase worker
          (.banning client qname (env.time s.storage.world.ticks)) := by
    rw [System.advance]
    simp only [isPhase]
  rw [advances_succ, reads, advances_succ, advances_succ]
  unfold System.advance System.withPhase
  simp only [Function.update_self]
  unfold reportBlock blockReports System.ban System.record
  cases checkedClient client with
  | none =>
      cases tracked : s.reputation with
      | none =>
          simp only [System.withStorage, System.firewall, tracked]
          exact ⟨rfl, Function.update_self _ _ _, rfl, rfl⟩
      | some tracker =>
          simp only [System.withStorage, System.firewall, tracked]
          exact ⟨rfl, Function.update_self _ _ _, rfl, rfl⟩
  | some ip =>
      cases tracked : s.reputation with
      | none =>
          simp only [System.withStorage, System.withEffects,
            System.firewall, tracked]
          exact ⟨rfl, Function.update_self _ _ _, rfl, rfl⟩
      | some tracker =>
          simp only [System.withStorage, System.withEffects,
            System.firewall, tracked]
          exact ⟨rfl, Function.update_self _ _ _, rfl, rfl⟩

/-- A step that blocks a query makes the rest of the call a block. -/
theorem shows_block
    {s next : System W} {worker : W} {site : Site}
    {client : Option SockAddrIn} {query : DnsMessage} {qname : Bytes}
    (moves :
      s.advance env heap cfg worker =
        next.block worker site client query qname)
    (deliveries : next.deliveries = s.deliveries)
    (effects : next.effects = s.effects)
    (resolution : Option (Outcome × Bool)) (log : List Event) :
    ∃ count,
      Shows s (s.advances env heap cfg worker count) worker
        (blockQuery env next.storage.world.ticks site next.firewall client
          query qname resolution log) := by
  rw [System.block] at moves
  rw [blockQuery]
  cases sinkhole : sinkholeResponse query with
  | none =>
      rw [sinkhole] at moves
      refine ⟨1, ?_⟩
      rw [advances_succ, moves]
      exact
        ⟨rfl, Or.inr (Function.update_self _ _ _),
          Or.inl ⟨deliveries, effects⟩⟩
  | some buf =>
      rw [sinkhole] at moves
      simp only at moves ⊢
      have reporting :
          ((next.withEffects worker [.respond site buf]).withPhase worker
            (.reporting client qname)).phase worker =
            .reporting client qname :=
        Function.update_self _ _ _
      obtain ⟨state, idle, sameDeliveries, moreEffects⟩ :=
        @advances_reporting F W _ env heap cfg _ worker client qname
          reporting
      refine ⟨3 + 1, ?_⟩
      rw [advances_succ, moves]
      refine ⟨state, Or.inr idle, Or.inl ⟨?_, ?_⟩⟩
      · exact sameDeliveries.trans deliveries
      · rw [moreEffects, List.reverse_cons, List.map_append,
          List.append_assoc, ← effects]
        rfl

/-! ## Behind the resolver -/

/-- The second lookup and what follows it are the delivery. -/
theorem shows_readingBack
    {s : System W} {worker : W} {call : Call} {checked : Option Answer}
    (isPhase : s.phase worker = .readingBack call checked)
    {result : CallResult}
    (effects :
      result.effects =
        [(deliver s.storage.world.cache call.question call.query.header.id
          (env.time s.storage.world.ticks)).1])
    (state :
      result.state =
        { s.firewall with
          cache :=
            (deliver s.storage.world.cache call.question
              call.query.header.id (env.time s.storage.world.ticks)).2 }) :
    ∃ count,
      Shows s (s.advances env heap cfg worker count) worker result := by
  have pool := Storage.lookup_pool env call.question s.storage
  rw [deliver_eq_steps env heap] at effects state
  cases found : s.storage.lookup env call.question with
  | mk pointer after =>
      rw [found] at effects state pool
      simp only at effects state pool
      cases pointer with
      | none =>
          have missed :
              s.advances env heap cfg worker 1 =
                ((s.withStorage after).withEffects worker
                  [.respond .cacheMiss
                    (errorResponse call.query.header.id)]).withPhase worker
                  .idle := by
            rw [advances_succ, System.advance]
            simp only [isPhase, found]
            rfl
          refine ⟨1, ?_⟩
          rw [missed]
          refine
            ⟨?_, Or.inr (Function.update_self _ _ _), Or.inl ⟨rfl, ?_⟩⟩
          · rw [state]
            unfold System.firewall
            rw [← pool]
            rfl
          · rw [effects]
            rfl
      | some handle =>
          have patched :
              s.advances env heap cfg worker 2 =
                ((s.withStorage after).withStorage
                  (after.writeId heap call.query.header.id
                    handle)).withPhase worker
                  (.sending call checked handle) := by
            rw [advances_succ, System.advance]
            simp only [isPhase, found]
            rw [advances_succ, System.advance]
            unfold System.withPhase System.withStorage
            simp only [Function.update_self, Function.update_idem]
            rfl
          refine ⟨2 + 1, ?_⟩
          rw [advances_add, patched, advances_succ, System.advance]
          rw [System.withPhase, System.withStorage]
          simp only [Function.update_self]
          refine
            ⟨?_, Or.inr (Function.update_self _ _ _),
              Or.inr ⟨_, rfl, rfl, effects⟩⟩
          rw [state]
          unfold System.firewall
          rw [← pool]
          rfl

/-- What the call does behind the resolver. -/
def afterResolver (env : Env) (cfg : Config F) (s : System W) (call : Call)
    (outcome : Outcome) (log : List Event) : CallResult :=
  let tick := s.storage.world.ticks + postCheckTicks outcome
  match postCheck env cfg call.query outcome s.storage.world.ticks s.flux with
  | none =>
      ⟨.missingQuestion, [], some (outcome, true), log, s.firewall⟩
  | some (true, flux) =>
      blockQuery env tick .dynamicRule { s.firewall with flux } call.client
        call.query call.question.qname (some (outcome, false)) log
  | some (false, flux) =>
      sendAnswer env tick { s.firewall with flux } call.query.header.id
        call.question outcome log

/-- A step without output brings the worker to the second lookup. -/
theorem shows_of_readsBack
    {s after : System W} {worker : W} {call : Call}
    {checked : Option Answer}
    (moves :
      s.advance env heap cfg worker =
        after.withPhase worker (.readingBack call checked))
    (deliveries : after.deliveries = s.deliveries)
    (effects : after.effects = s.effects) {result : CallResult}
    (sends :
      result.effects =
          [(deliver after.storage.world.cache call.question
            call.query.header.id (env.time after.storage.world.ticks)).1] ∧
        result.state =
          { after.firewall with
            cache :=
              (deliver after.storage.world.cache call.question
                call.query.header.id
                (env.time after.storage.world.ticks)).2 }) :
    ∃ count,
      Shows s (s.advances env heap cfg worker count) worker result := by
  have readsBack :
      (after.withPhase worker (.readingBack call checked)).phase worker =
        .readingBack call checked :=
    Function.update_self _ _ _
  exact
    shows_of_advance moves deliveries effects
      (shows_readingBack readsBack sends.1 sends.2)

/-- Alone, the pointer of the resolver still reaches what the policy check of
the call reads. -/
theorem check_of_lands
    {s : System W} {worker : W} {call : Call} {a : Answer}
    {buffer : Option Handle} (answers : a.message.answers ≠ [])
    (lands : Lands heap ((.answer a, buffer), s.storage)) :
    s.check env heap cfg worker call (.answer a) buffer =
      let storage := s.storage.addTicks a.message.answers.length
      match
        postCheck env cfg call.query (.answer a) s.storage.world.ticks
          s.flux with
      | none => s.withPhase worker .idle
      | some (true, flux) =>
          (({ s with flux }).withStorage storage).block worker .dynamicRule
            call.client call.query call.question.qname
      | some (false, flux) =>
          (({ s with flux }).withStorage storage).withPhase worker
            (.readingBack call (some a)) := by
  have checks :
      postCheck env cfg call.query (.answer a) s.storage.world.ticks s.flux =
        policyCheckPostResolve cfg.policy call.query a.message
          (answerMemory env a)
          (fun i => env.time (s.storage.world.ticks + i)) s.flux :=
    if_neg answers
  unfold answerMemory at checks
  cases buffer with
  | none =>
      obtain ⟨before, isReceived⟩ := lands
      simp only [isReceived] at checks
      rw [checks]
      exact if_neg answers
  | some handle =>
      obtain ⟨isCached, isRaw⟩ := lands
      simp only [isCached, ← isRaw] at checks
      rw [checks]
      exact if_neg answers

/-- The policy check of an answer with records. -/
theorem shows_checking_answer
    {s : System W} {worker : W} {call : Call} {a : Answer}
    {buffer : Option Handle}
    (moves :
      s.advance env heap cfg worker =
        s.check env heap cfg worker call (.answer a) buffer)
    (answers : a.message.answers ≠ [])
    (lands : Lands heap ((.answer a, buffer), s.storage))
    (log : List Event) :
    ∃ count,
      Shows s (s.advances env heap cfg worker count) worker
        (afterResolver env cfg s call (.answer a) log) := by
  rw [check_of_lands answers lands] at moves
  simp only at moves
  rw [afterResolver]
  cases verdict :
      postCheck env cfg call.query (.answer a) s.storage.world.ticks
        s.flux with
  | none =>
      rw [verdict] at moves
      refine ⟨1, ?_⟩
      rw [advances_succ, moves]
      exact
        ⟨rfl, Or.inr (Function.update_self _ _ _), Or.inl ⟨rfl, rfl⟩⟩
  | some both =>
      obtain ⟨blocks, flux⟩ := both
      rw [verdict] at moves
      cases blocks with
      | true =>
          exact
            shows_block moves rfl rfl (some (.answer a, false)) log
      | false =>
          exact shows_of_readsBack moves rfl rfl ⟨rfl, rfl⟩

theorem shows_checking
    {s : System W} {worker : W} {call : Call} {outcome : Outcome}
    {buffer : Option Handle}
    (isPhase : s.phase worker = .checking call outcome buffer)
    (lands : Lands heap ((outcome, buffer), s.storage)) (log : List Event) :
    ∃ count,
      Shows s (s.advances env heap cfg worker count) worker
        (afterResolver env cfg s call outcome log) := by
  have moves :
      s.advance env heap cfg worker =
        s.check env heap cfg worker call outcome buffer := by
    rw [System.advance]
    simp only [isPhase]
  cases outcome with
  | hung => exact ⟨0, rfl, Or.inl rfl, Or.inl ⟨rfl, rfl⟩⟩
  | failed =>
      refine ⟨1, ?_⟩
      rw [advances_succ, moves]
      exact
        ⟨rfl, Or.inr (Function.update_self _ _ _), Or.inl ⟨rfl, rfl⟩⟩
  | tooDeep =>
      refine ⟨1, ?_⟩
      rw [advances_succ, moves]
      exact
        ⟨rfl, Or.inr (Function.update_self _ _ _), Or.inl ⟨rfl, rfl⟩⟩
  | nxDomain a => exact shows_of_readsBack moves rfl rfl ⟨rfl, rfl⟩
  | answer a =>
      by_cases noAnswers : a.message.answers = []
      · have readsBack :
            s.check env heap cfg worker call (.answer a) buffer =
              s.withPhase worker (.readingBack call none) :=
          if_pos noAnswers
        have passes :
            postCheck env cfg call.query (.answer a)
                s.storage.world.ticks s.flux =
              some (false, s.flux) :=
          if_pos noAnswers
        have noTicks : postCheckTicks (.answer a) = 0 :=
          congrArg List.length noAnswers
        rw [afterResolver]
        rw [passes, noTicks]
        exact
          shows_of_readsBack (moves.trans readsBack) rfl rfl ⟨rfl, rfl⟩
      · exact shows_checking_answer moves noAnswers lands log

/-- The worker has taken a query and resolves it. -/
theorem shows_admitted
    {s : System W} {worker : W} {query : DnsMessage}
    {question : DnsQuestion} {fw : Firewall} {client : Option SockAddrIn}
    (isPhase :
      s.phase worker =
        .resolving ⟨client, query, question⟩
          (resolverSteps env cfg.resolver query))
    (isState : s.firewall = fw)
    (isWorld : s.storage.world = ⟨fw.cache, fw.pool, 2, []⟩) :
    ∃ count,
      Shows s (s.advances env heap cfg worker count) worker
        (resolveQuery env cfg fw client query question) := by
  obtain ⟨resolving, resolved⟩ :=
    @resolves_proc F W _ env heap cfg ⟨client, query, question⟩ worker _ s
      isPhase
  have lands :=
    @lands_resolverSteps env heap cfg.resolver query s.storage
  have sameResult :=
    result_resolverSteps env heap cfg.resolver query s.storage
  rw [isWorld, Proc.result] at sameResult
  rw [resolveQuery, ← sameResult]
  cases ends :
      (resolverSteps env cfg.resolver query).alone env heap s.storage with
  | mk reached after =>
      obtain ⟨outcome, buffer⟩ := reached
      rw [ends] at resolved lands
      simp only at resolved
      obtain ⟨checking, shows⟩ :=
        @shows_checking F W _ env heap cfg
          ((s.withStorage after).withPhase worker
            (.checking ⟨client, query, question⟩ outcome buffer))
          worker _ outcome buffer (Function.update_self _ _ _) lands
          after.world.log
      refine ⟨resolving + checking, ?_⟩
      rw [advances_add, resolved, ← isState]
      exact ⟨shows.state, shows.ended, shows.outputs⟩

/-! ## The whole call -/

/-- Past the quarantine list the worker decides about the name. -/
theorem shows_deciding
    {s : System W} {worker : W} {query : DnsMessage} {fw : Firewall}
    {client : Option SockAddrIn}
    (isPhase : s.phase worker = .deciding client query)
    (isState : s.firewall = fw)
    (isWorld : s.storage.world = ⟨fw.cache, fw.pool, 2, []⟩) :
    ∃ count,
      Shows s (s.advances env heap cfg worker count) worker
        (match query.questions with
          | [] => ⟨.missingQuestion, [], none, [], fw⟩
          | question :: _ =>
              if policyCheckBlocklist cfg.policy.blacklist
                  question.qname = true then
                blockQuery env 2 .blacklist fw client query question.qname
                  none []
              else if policyCheckPreresolve cfg.policy
                  question.qname = true then
                blockQuery env 2 .dga fw client query question.qname none []
              else
                resolveQuery env cfg fw client query question) := by
  have moves :
      s.advance env heap cfg worker =
        s.decide env cfg worker client query := by
    rw [System.advance]
    simp only [isPhase]
  have tick : s.storage.world.ticks = 2 := by
    rw [isWorld]
  rw [System.decide] at moves
  cases questions : query.questions with
  | nil =>
      rw [questions] at moves
      refine ⟨1, ?_⟩
      rw [advances_succ, moves]
      exact
        ⟨isState, Or.inr (Function.update_self _ _ _), Or.inl ⟨rfl, rfl⟩⟩
  | cons question more =>
      rw [questions] at moves
      simp only at moves ⊢
      rw [← isState, ← tick]
      by_cases listed :
          policyCheckBlocklist cfg.policy.blacklist question.qname = true
      · rw [if_pos listed] at moves ⊢
        exact shows_block moves rfl rfl none []
      · rw [if_neg listed] at moves ⊢
        by_cases isDga :
            policyCheckPreresolve cfg.policy question.qname = true
        · rw [if_pos isDga] at moves ⊢
          exact shows_block moves rfl rfl none []
        · rw [if_neg isDga] at moves ⊢
          rw [← isState] at isWorld
          exact
            shows_of_advance moves rfl rfl
              (shows_admitted (Function.update_self _ _ _) rfl isWorld)

/-- The call behind the rate limit. -/
def screenedCall (env : Env) (cfg : Config F) (fw : Firewall)
    (client : Option SockAddrIn) (query : DnsMessage) : CallResult :=
  if isQuarantined env fw client = true then
    match sinkholeResponse query with
    | none => ⟨.missingQuestion, [], none, [], fw⟩
    | some buf => ⟨.returned, [.respond .quarantine buf], none, [], fw⟩
  else
    match query.questions with
    | [] => ⟨.missingQuestion, [], none, [], fw⟩
    | question :: _ =>
        if policyCheckBlocklist cfg.policy.blacklist question.qname =
            true then
          blockQuery env 2 .blacklist fw client query question.qname none []
        else if policyCheckPreresolve cfg.policy question.qname = true then
          blockQuery env 2 .dga fw client query question.qname none []
        else
          resolveQuery env cfg fw client query question

/-- The worker looks at the quarantine list. -/
theorem shows_screening
    {s : System W} {worker : W} {query : DnsMessage} {fw : Firewall}
    {client : Option SockAddrIn}
    (isPhase : s.phase worker = .screening client query (env.time 1))
    (isState : s.firewall = fw)
    (isWorld : s.storage.world = ⟨fw.cache, fw.pool, 2, []⟩) :
    ∃ count,
      Shows s (s.advances env heap cfg worker count) worker
        (screenedCall env cfg fw client query) := by
  have moves :
      s.advance env heap cfg worker =
        s.screen worker client query (env.time 1) := by
    rw [System.advance]
    simp only [isPhase]
  have sameList :
      (checkedClient client).any (fun ip =>
          adIsQuarantined s.defense ip (env.time 1)) =
        isQuarantined env s.firewall client :=
    any_adIsQuarantined env s.firewall client
  rw [System.screen] at moves
  rw [screenedCall, ← isState, ← sameList]
  by_cases quarantined :
      (checkedClient client).any (fun ip =>
        adIsQuarantined s.defense ip (env.time 1)) = true
  · rw [if_pos quarantined] at moves
    refine ⟨1, ?_⟩
    rw [advances_succ, moves, if_pos quarantined]
    cases sinkholeResponse query with
    | none =>
        exact
          ⟨rfl, Or.inr (Function.update_self _ _ _), Or.inl ⟨rfl, rfl⟩⟩
    | some buf =>
        exact
          ⟨rfl, Or.inr (Function.update_self _ _ _), Or.inl ⟨rfl, rfl⟩⟩
  · rw [if_neg quarantined] at moves
    rw [if_neg quarantined]
    rw [← isState] at isWorld
    exact
      shows_of_advance moves rfl rfl
        (shows_deciding (Function.update_self _ _ _) rfl isWorld)

/-- Behind the rate limit the worker reads the clock first. -/
theorem shows_limited
    {s : System W} {worker : W} {query : DnsMessage} {fw : Firewall}
    {client : Option SockAddrIn}
    (isPhase : s.phase worker = .limited client query)
    (isState : s.firewall = fw)
    (isWorld : s.storage.world = ⟨fw.cache, fw.pool, 1, []⟩) :
    ∃ count,
      Shows s (s.advances env heap cfg worker count) worker
        (screenedCall env cfg fw client query) := by
  have reads :
      s.advance env heap cfg worker =
        (s.withStorage (s.storage.addTicks 1)).withPhase worker
          (.screening client query (env.time 1)) := by
    rw [System.advance]
    simp only [isPhase, isWorld]
  have world :
      (s.storage.addTicks 1).world = ⟨fw.cache, fw.pool, 2, []⟩ := by
    unfold Storage.addTicks
    simp only [isWorld]
  exact
    shows_of_advance reads rfl rfl
      (shows_screening (Function.update_self _ _ _) isState world)

/-- While nobody else does a step, a worker that takes a packet makes a call of
`process_dns_query`.  The numbers of the clock readings start with the call. -/
theorem worker_alone
    (env : Env) (heap : Heap) (cfg : Config F) (s : System W) (worker : W)
    (inbuf : Bytes) (client : Option SockAddrIn)
    (isIdle : s.phase worker = .idle)
    (noTicks : s.storage.world.ticks = 0) (noLog : s.storage.world.log = []) :
    ∃ count,
      Shows s
        (run (System.step env heap cfg) s
          (.arrive worker inbuf client ::
            List.replicate count (.advance worker)))
        worker
        (processDnsQuery env cfg s.firewall inbuf client) := by
  have arrives :
      s.step env heap cfg (.arrive worker inbuf client) =
        s.arrive env worker inbuf client := by
    rw [System.step]
    simp only [isIdle]
  have sameEnv : env.after s.storage.world.ticks = env := by
    rw [noTicks, Env.after]
    simp only [Nat.zero_add]
  rw [System.arrive, sameEnv] at arrives
  rw [processDnsQuery]
  cases parsed : dnsParseMessage inbuf with
  | error failure =>
      rw [parsed] at arrives
      refine ⟨0, ?_⟩
      rw [run_cons, arrives]
      exact ⟨rfl, Or.inr isIdle, Or.inl ⟨rfl, rfl⟩⟩
  | ok query =>
      rw [parsed] at arrives
      have kept := rateLimit_keeps env s.firewall client
      cases admission : rateLimit env s.firewall client with
      | mk dropped fw =>
          rw [admission] at arrives kept
          simp only at arrives kept ⊢
          have isState :
              ((s.withFirewall fw).withStorage
                (s.storage.addTicks 1)).firewall = fw :=
            firewall_withFirewall s kept.1 kept.2
          cases dropped with
          | true =>
              refine ⟨0, ?_⟩
              rw [run_cons, arrives]
              exact ⟨isState, Or.inr isIdle, Or.inl ⟨rfl, rfl⟩⟩
          | false =>
              have isWorld :
                  (s.storage.addTicks 1).world =
                    ⟨fw.cache, fw.pool, 1, []⟩ := by
                rw [kept.1, kept.2, ← noLog]
                unfold Storage.addTicks System.firewall
                simp only [noTicks]
              obtain ⟨count, shows⟩ :=
                @shows_limited F W _ env heap cfg
                  (((s.withFirewall fw).withStorage
                    (s.storage.addTicks 1)).withPhase worker
                      (.limited client query))
                  worker query fw client (Function.update_self _ _ _)
                  isState isWorld
              refine ⟨count, ?_⟩
              rw [run_cons, arrives]
              exact ⟨shows.state, shows.ended, shows.outputs⟩

end Steps

end DnsFirewall
