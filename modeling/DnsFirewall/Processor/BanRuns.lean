import DnsFirewall.Clients.BanRace
import DnsFirewall.Processor.Bans
import DnsFirewall.Processor.Workers
import DnsFirewall.Resolver.Exchanges

/-!
# The bans of the workers

Calls of `process_dns_query` by any number of workers at once use the
quarantine list as the guard of a client does: a check in front, and a report
behind a block.  So a client never has more bans that last than there are
workers.
-/

namespace DnsFirewall

open CString Runs

variable {F W : Type}

/-! ## The workers as guards -/

/-- The guard sees a worker only with a client that is checked. -/
def guardPhaseOf (client : Option SockAddrIn) (phase : UInt32 → GuardPhase) :
    GuardPhase :=
  match checkedClient client with
  | none => .idle
  | some ip => phase ip

/-- Where the worker is with its client, as the guard sees it. -/
def Phase.guard : Phase → GuardPhase
  | .screening client _ now => guardPhaseOf client (.checking · now)
  | .deciding client _ => guardPhaseOf client .admitted
  | .resolving call _ => guardPhaseOf call.client .admitted
  | .checking call _ _ => guardPhaseOf call.client .admitted
  | .reporting client _ => guardPhaseOf client .admitted
  | .banning client _ now => guardPhaseOf client (.reporting · now)
  | _ => .idle

theorem guardPhaseOf_idle (client : Option SockAddrIn) :
    guardPhaseOf client (fun _ => .idle) = .idle := by
  rw [guardPhaseOf]
  cases checkedClient client with
  | none => rfl
  | some ip => rfl

variable [DecidableEq W]

/-- The guard has the list of the system, its clock is not ahead, and the
calls go on in time. -/
structure Guarded (env : Env) (s : System W) (g : Guard W) : Prop where
  defense : g.defense = s.defense
  clock : g.clock ≤ env.time s.storage.world.ticks
  phase : ∀ worker, g.phase worker = (s.phase worker).guard
  exchanges : ∀ worker call rest, s.phase worker = .resolving call rest →
    rest.Exchanges GoesOn

namespace Guarded

variable {env : Env} {s : System W} {g : Guard W}

/-- A step of a worker that the guard does not see. -/
theorem unseen
    (guarded : Guarded env s g)
    (monotone : ∀ early late, early ≤ late → env.time early ≤ env.time late)
    {worker : W} {after : System W} {next : Phase}
    (phase : after.phase = Function.update s.phase worker next)
    (same : next.guard = (s.phase worker).guard)
    (defense : after.defense = s.defense)
    (onward : s.storage.world.ticks ≤ after.storage.world.ticks)
    (exchanges : ∀ call rest, next = .resolving call rest →
      rest.Exchanges GoesOn) :
    Guarded env after g where
  defense := guarded.defense.trans defense.symm
  clock := le_trans guarded.clock (monotone _ _ onward)
  phase := by
    rw [phase]
    apply
      (Function.forall_update_iff s.phase fun other phase =>
        g.phase other = phase.guard).mpr
    exact
      ⟨(guarded.phase worker).trans same.symm,
        fun other _ => guarded.phase other⟩
  exchanges := by
    rw [phase]
    apply
      (Function.forall_update_iff s.phase fun _ phase =>
        ∀ call rest, phase = .resolving call rest →
          rest.Exchanges GoesOn).mpr
    exact ⟨exchanges, fun other _ => guarded.exchanges other⟩

/-- A step of a worker with its client, which the guard follows if the client
is checked. -/
theorem follow
    (guarded : Guarded env s g)
    (monotone : ∀ early late, early ≤ late → env.time early ≤ env.time late)
    {worker : W} {after : System W} {next : Phase}
    {client : Option SockAddrIn} {here there : UInt32 → GuardPhase}
    {defense : UInt32 → ActiveDefense}
    (sees : (s.phase worker).guard = guardPhaseOf client here)
    (seen : next.guard = guardPhaseOf client there)
    (phase : after.phase = Function.update s.phase worker next)
    (list :
      after.defense = ((checkedClient client).map defense).getD s.defense)
    (onward : s.storage.world.ticks ≤ after.storage.world.ticks)
    (exchanges : ∀ call rest, next = .resolving call rest →
      rest.Exchanges GoesOn)
    (follows : ∀ ip, checkedClient client = some ip →
      g.phase worker = here ip →
        ∃ actions clock,
          clock ≤ env.time after.storage.world.ticks ∧
            run Guard.step g actions =
              ⟨clock, defense ip,
                Function.update g.phase worker (there ip)⟩) :
    ∃ actions, Guarded env after (run Guard.step g actions) := by
  cases isClient : checkedClient client with
  | none =>
      rw [guardPhaseOf, isClient] at sees seen
      rw [isClient] at list
      exact
        ⟨[], guarded.unseen monotone phase (seen.trans sees.symm) list
          onward exchanges⟩
  | some ip =>
      rw [guardPhaseOf, isClient] at sees seen
      rw [isClient] at list
      simp only at seen
      obtain ⟨actions, clock, read, ends⟩ :=
        follows ip isClient ((guarded.phase worker).trans sees)
      refine ⟨actions, ?_⟩
      rw [ends, ← seen]
      constructor
      case defense => exact list.symm
      case clock => exact read
      case phase =>
        intro other
        show Function.update g.phase worker next.guard other = _
        rw [phase]
        by_cases same : other = worker
        · rw [same, Function.update_self, Function.update_self]
        · rw [Function.update_of_ne same, Function.update_of_ne same]
          exact guarded.phase other
      case exchanges =>
        rw [phase]
        apply
          (Function.forall_update_iff s.phase fun _ phase =>
            ∀ call rest, phase = .resolving call rest →
              rest.Exchanges GoesOn).mpr
        exact ⟨exchanges, fun other _ => guarded.exchanges other⟩

end Guarded

/-- The list is as before. -/
theorem getD_map_defense
    (client : Option SockAddrIn) (defense : ActiveDefense) :
    ((checkedClient client).map fun _ => defense).getD defense = defense := by
  cases checkedClient client with
  | none => rfl
  | some ip => rfl

namespace Guard

variable {g : Guard W} {worker : W} {ip : UInt32}

theorem exists_run_tick {now : Int} (order : g.clock ≤ now) :
    ∃ actions, run step g actions = { g with clock := now } := by
  refine ⟨[.tick (now - g.clock).toNat], ?_⟩
  rw [run_cons, run_nil, step]
  congr 1
  omega

/-- The clock is read for the check. -/
theorem exists_run_query
    {now : Int} (idle : g.phase worker = .idle) (order : g.clock ≤ now) :
    ∃ actions,
      run step g actions =
        ⟨now, g.defense,
          Function.update g.phase worker (.checking ip now)⟩ := by
  obtain ⟨ticks, waits⟩ := exists_run_tick order
  refine ⟨ticks ++ [.query worker ip], ?_⟩
  rw [run_append, waits]
  simp [step, idle, withPhase]

/-- The clock is read for the report. -/
theorem exists_run_blocked
    {now : Int} (admitted : g.phase worker = .admitted ip)
    (order : g.clock ≤ now) :
    ∃ actions,
      run step g actions =
        ⟨now, g.defense,
          Function.update g.phase worker (.reporting ip now)⟩ := by
  obtain ⟨ticks, waits⟩ := exists_run_tick order
  refine ⟨ticks ++ [.decide worker true], ?_⟩
  rw [run_append, waits]
  simp [step, admitted, withPhase]

end Guard

namespace Guarded

variable {env : Env} {s : System W} {g : Guard W}
  (monotone : ∀ early late, early ≤ late → env.time early ≤ env.time late)

include monotone

theorem arrive
    (guarded : Guarded env s g) {worker : W}
    (idle : s.phase worker = .idle) (inbuf : Bytes)
    (client : Option SockAddrIn) :
    Guarded env (s.arrive env worker inbuf client) g := by
  have stays : s.phase = Function.update s.phase worker .idle :=
    (Function.update_eq_self_iff.mpr idle.symm).symm
  have isIdle : Phase.idle.guard = (s.phase worker).guard := by
    rw [idle]
  rw [System.arrive]
  split
  · exact guarded.unseen monotone stays isIdle rfl le_rfl (by simp)
  · rename_i query _
    have limited :=
      admittedState_defense (env.after s.storage.world.ticks) s.firewall
        client
    rw [admittedState] at limited
    simp only
    split
    · exact
        guarded.unseen monotone stays isIdle limited
          (Nat.le_add_right _ 1) (by simp)
    · exact
        @unseen W _ env s g guarded monotone worker _
          (.limited client query) rfl isIdle limited
          (Nat.le_add_right _ 1) (by simp)

/-- The worker reads the clock in front of the check. -/
theorem reads
    (guarded : Guarded env s g) {worker : W} {client : Option SockAddrIn}
    {query : DnsMessage} (at_ : s.phase worker = .limited client query) :
    ∃ actions,
      Guarded env
        ((s.withStorage (s.storage.addTicks 1)).withPhase worker
          (.screening client query (env.time s.storage.world.ticks)))
        (run Guard.step g actions) := by
  have sees :
      (s.phase worker).guard = guardPhaseOf client fun _ => .idle := by
    rw [at_, guardPhaseOf_idle]
    rfl
  refine
    guarded.follow monotone sees rfl rfl
      (getD_map_defense client s.defense).symm (Nat.le_add_right _ 1)
      (by simp) ?_
  intro ip _ idle
  obtain ⟨actions, follows⟩ :=
    Guard.exists_run_query idle guarded.clock
  rw [guarded.defense] at follows
  exact
    ⟨actions, _, monotone _ _ (Nat.le_add_right _ 1), follows⟩

/-- The worker looks at the list. -/
theorem screen
    (guarded : Guarded env s g) {worker : W} {client : Option SockAddrIn}
    {query : DnsMessage} {now : Int}
    (at_ : s.phase worker = .screening client query now) :
    ∃ actions,
      Guarded env (s.screen worker client query now)
        (run Guard.step g actions) := by
  have sees :
      (s.phase worker).guard = guardPhaseOf client (.checking · now) := by
    rw [at_]
    rfl
  have unchanged := getD_map_defense client s.defense
  unfold System.screen
  split
  · rename_i quarantined
    have leaves :
        ∀ after : System W,
          after.phase = Function.update s.phase worker .idle →
            after.defense = s.defense → after.storage = s.storage →
              ∃ actions,
                Guarded env after (run Guard.step g actions) := by
      intro after phase defense storage
      refine
        @follow W _ env s g guarded monotone worker after .idle client _ _ _
          sees (guardPhaseOf_idle client).symm phase
          (defense.trans unchanged.symm) (by rw [storage]) (by simp) ?_
      intro ip isClient checking
      rw [isClient, Option.any_some] at quarantined
      refine ⟨[.check worker], g.clock, ?_, ?_⟩
      · rw [storage]
        exact guarded.clock
      · rw [run_cons, run_nil, Guard.step, checking]
        simp only [Guard.withPhase, guarded.defense, if_pos quarantined]
    split
    · exact leaves _ rfl rfl rfl
    · exact leaves _ rfl rfl rfl
  · rename_i free
    refine
      guarded.follow monotone sees rfl rfl unchanged.symm le_rfl (by simp) ?_
    intro ip isClient checking
    rw [isClient, Option.any_some] at free
    refine ⟨[.check worker], g.clock, guarded.clock, ?_⟩
    rw [run_cons, run_nil, Guard.step, checking]
    simp only [Guard.withPhase, guarded.defense, if_neg free]

/-- The worker is done with its client without a report. -/
theorem dismiss
    (guarded : Guarded env s g) {worker : W} {client : Option SockAddrIn}
    (sees : (s.phase worker).guard = guardPhaseOf client .admitted)
    (after : System W) (next : Phase) (isIdle : next.guard = .idle)
    (phase : after.phase = Function.update s.phase worker next)
    (defense : after.defense = s.defense)
    (onward : s.storage.world.ticks ≤ after.storage.world.ticks)
    (exchanges : ∀ call rest, next ≠ .resolving call rest) :
    ∃ actions, Guarded env after (run Guard.step g actions) := by
  refine
    guarded.follow monotone sees
      (isIdle.trans (guardPhaseOf_idle client).symm) phase
      (defense.trans (getD_map_defense client s.defense).symm) onward
      (fun call rest same => absurd same (exchanges call rest)) ?_
  intro ip _ admitted
  refine
    ⟨[.decide worker false], g.clock,
      le_trans guarded.clock (monotone _ _ onward), ?_⟩
  rw [run_cons, run_nil, Guard.step, admitted, ← guarded.defense]
  rfl

/-- A block comes in front of its report. -/
theorem block
    (guarded : Guarded env s g) {worker : W} {client : Option SockAddrIn}
    (sees : (s.phase worker).guard = guardPhaseOf client .admitted)
    {next : System W} (phase : next.phase = s.phase)
    (defense : next.defense = s.defense)
    (onward : s.storage.world.ticks ≤ next.storage.world.ticks)
    (site : Site) (query : DnsMessage) (qname : Bytes) :
    ∃ actions,
      Guarded env (next.block worker site client query qname)
        (run Guard.step g actions) := by
  unfold System.block
  split
  · refine
      guarded.dismiss monotone sees _ .idle rfl ?_ defense onward (by simp)
    rw [← phase]
    rfl
  · refine
      ⟨[], @unseen W _ env s g guarded monotone worker _
        (.reporting client qname) ?_ sees.symm defense onward (by simp)⟩
    rw [← phase]
    rfl

/-- The checks of the name. -/
theorem decide
    (guarded : Guarded env s g) (cfg : Config F) {worker : W}
    {client : Option SockAddrIn} {query : DnsMessage}
    (at_ : s.phase worker = .deciding client query) :
    ∃ actions,
      Guarded env (s.decide env cfg worker client query)
        (run Guard.step g actions) := by
  have sees :
      (s.phase worker).guard = guardPhaseOf client .admitted := by
    rw [at_]
    rfl
  unfold System.decide
  split
  · exact
      guarded.dismiss monotone sees _ .idle rfl rfl rfl le_rfl (by simp)
  · rename_i question _ _
    split
    · exact guarded.block monotone sees rfl rfl le_rfl _ _ _
    · split
      · exact guarded.block monotone sees rfl rfl le_rfl _ _ _
      · refine
          ⟨[], @unseen W _ env s g guarded monotone worker _
            (.resolving ⟨client, query, question⟩
              (resolverSteps env cfg.resolver query))
            rfl sees.symm rfl le_rfl ?_⟩
        intro call rest isResolving
        cases isResolving
        exact
          exchanges_resolverSteps (goesOn_udpReceive env)
            (goesOn_tcpReceive env) cfg.resolver query

/-- The worker reads the clock in front of the report. -/
theorem readsAgain
    (guarded : Guarded env s g) {worker : W} {client : Option SockAddrIn}
    {qname : Bytes} (at_ : s.phase worker = .reporting client qname) :
    ∃ actions,
      Guarded env
        ((s.withStorage (s.storage.addTicks 1)).withPhase worker
          (.banning client qname (env.time s.storage.world.ticks)))
        (run Guard.step g actions) := by
  have sees :
      (s.phase worker).guard = guardPhaseOf client .admitted := by
    rw [at_]
    rfl
  refine
    guarded.follow monotone sees rfl rfl
      (getD_map_defense client s.defense).symm (Nat.le_add_right _ 1)
      (by simp) ?_
  intro ip _ admitted
  obtain ⟨actions, follows⟩ :=
    Guard.exists_run_blocked admitted guarded.clock
  rw [guarded.defense] at follows
  exact
    ⟨actions, _, monotone _ _ (Nat.le_add_right _ 1), follows⟩

/-- The worker reports the client. -/
theorem ban
    (guarded : Guarded env s g) {worker : W} {client : Option SockAddrIn}
    {qname : Bytes} {now : Int}
    (at_ : s.phase worker = .banning client qname now) :
    ∃ actions,
      Guarded env
        ((s.ban worker client now).withPhase worker (.recording qname))
        (run Guard.step g actions) := by
  have sees :
      (s.phase worker).guard = guardPhaseOf client (.reporting · now) := by
    rw [at_]
    rfl
  obtain ⟨storage, phase, -, defense⟩ := ban_frame s worker client now
  have ticks :
      ((s.ban worker client now).withPhase worker
        (.recording qname)).storage.world.ticks =
        s.storage.world.ticks :=
    congrArg (fun storage => storage.world.ticks) storage
  refine
    @follow W _ env s g guarded monotone worker _ (.recording qname) client
      _ _ _ sees (guardPhaseOf_idle client).symm ?_ defense ticks.ge
      (by simp) ?_
  · rw [← phase]
    rfl
  · intro ip _ reporting
    refine ⟨[.report worker], g.clock, ?_, ?_⟩
    · rw [ticks]
      exact guarded.clock
    · rw [run_cons, run_nil, Guard.step, reporting, ← guarded.defense]
      rfl

theorem check
    (guarded : Guarded env s g) (heap : Heap) (cfg : Config F) {worker : W}
    {call : Call} {outcome : Outcome} {buffer : Option Handle}
    (at_ : s.phase worker = .checking call outcome buffer) :
    ∃ actions,
      Guarded env (s.check env heap cfg worker call outcome buffer)
        (run Guard.step g actions) := by
  have sees :
      (s.phase worker).guard = guardPhaseOf call.client .admitted := by
    rw [at_]
    rfl
  have dismissed := guarded.dismiss monotone sees
  unfold System.check
  cases outcome with
  | hung => exact ⟨[], guarded⟩
  | failed => exact dismissed _ .idle rfl rfl rfl le_rfl (by simp)
  | tooDeep => exact dismissed _ .idle rfl rfl rfl le_rfl (by simp)
  | nxDomain a =>
      exact
        dismissed _ (.readingBack call none) rfl rfl rfl le_rfl (by simp)
  | answer a =>
      simp only
      split
      · exact
          dismissed _ (.readingBack call none) rfl rfl rfl le_rfl (by simp)
      · split
        · exact dismissed _ .idle rfl rfl rfl le_rfl (by simp)
        · apply guarded.block monotone sees
          · rfl
          · rfl
          · exact Nat.le_add_right _ _
        · exact
            dismissed _ (.readingBack call (some a)) rfl rfl rfl
              (Nat.le_add_right _ _) (by simp)

theorem advance
    (guarded : Guarded env s g) (heap : Heap) (cfg : Config F)
    (worker : W) :
    ∃ actions,
      Guarded env (s.advance env heap cfg worker)
        (run Guard.step g actions) := by
  have seen :
      ∀ (after : System W) (next : Phase),
        next.guard = (s.phase worker).guard →
          after.phase = Function.update s.phase worker next →
            after.defense = s.defense →
              s.storage.world.ticks ≤ after.storage.world.ticks →
                (∀ call rest, next = .resolving call rest →
                  rest.Exchanges GoesOn) →
                  ∃ actions, Guarded env after (run Guard.step g actions) :=
    fun after next same phase defense onward exchanges =>
      ⟨[], guarded.unseen monotone phase same defense onward exchanges⟩
  rw [System.advance]
  cases at_ : s.phase worker with
  | idle => exact ⟨[], guarded⟩
  | limited client query => exact guarded.reads monotone at_
  | screening client query now => exact guarded.screen monotone at_
  | deciding client query => exact guarded.decide monotone cfg at_
  | reporting client qname => exact guarded.readsAgain monotone at_
  | banning client qname now => exact guarded.ban monotone at_
  | recording qname =>
      obtain ⟨phase, -, defense⟩ :=
        record_frame s worker qname (env.time s.storage.world.ticks)
      rw [at_] at seen
      refine
        seen _ .idle rfl ?_ defense (Nat.le_add_right _ 1) (by simp)
      rw [← phase]
      rfl
  | resolving call rest =>
      have exchanges := guarded.exchanges worker call rest at_
      obtain ⟨others, onward⟩ := exchanges.step env heap s.storage
      rw [at_] at seen
      have resolves :
          ∀ after,
            after =
                (s.withStorage (rest.step env heap s.storage).2).withPhase
                  worker (.resolving call (rest.step env heap s.storage).1) →
              ∃ actions, Guarded env after (run Guard.step g actions) := by
        intro after isAfter
        subst isAfter
        refine
          seen _ (.resolving call (rest.step env heap s.storage).1) rfl rfl
            rfl onward ?_
        intro other remaining isResolving
        cases isResolving
        exact others
      cases rest with
      | done outcome buffer =>
          exact
            seen _ (.checking call outcome buffer) rfl rfl rfl le_rfl
              (by simp)
      | _ => exact resolves _ rfl
  | checking call outcome buffer =>
      exact guarded.check monotone heap cfg at_
  | readingBack call checked =>
      have onward := Storage.lookup_ticks env call.question s.storage
      rw [at_] at seen
      simp only
      cases result : s.storage.lookup env call.question with
      | mk found storage =>
          rw [result] at onward
          have later : s.storage.world.ticks ≤ storage.world.ticks :=
            onward ▸ Nat.le_succ _
          cases found with
          | none => exact seen _ .idle rfl rfl rfl later (by simp)
          | some handle =>
              exact
                seen _ (.patching call checked handle) rfl rfl rfl later
                  (by simp)
  | patching call checked handle =>
      rw [at_] at seen
      exact
        seen _ (.sending call checked handle) rfl rfl rfl le_rfl (by simp)
  | sending call checked handle =>
      rw [at_] at seen
      exact seen _ .idle rfl rfl rfl le_rfl (by simp)

theorem step
    (guarded : Guarded env s g) (heap : Heap) (cfg : Config F)
    (action : Action W) :
    ∃ actions,
      Guarded env (s.step env heap cfg action)
        (run Guard.step g actions) := by
  cases action with
  | arrive worker inbuf client =>
      rw [System.step]
      split
      · rename_i idle
        exact ⟨[], guarded.arrive monotone idle inbuf client⟩
      · exact ⟨[], guarded⟩
  | advance worker => exact guarded.advance monotone heap cfg worker

/-- Every run of the workers is a run of the guard. -/
theorem exists_run
    (guarded : Guarded env s g) (heap : Heap) (cfg : Config F)
    (actions : List (Action W)) :
    ∃ steps,
      Guarded env (run (System.step env heap cfg) s actions)
        (run Guard.step g steps) := by
  induction actions generalizing s g with
  | nil => exact ⟨[], guarded⟩
  | cons action actions inductionHypothesis =>
      obtain ⟨first, next⟩ := guarded.step monotone heap cfg action
      obtain ⟨steps, last⟩ := inductionHypothesis next
      refine ⟨first ++ steps, ?_⟩
      rw [run_append]
      exact last

end Guarded

omit [DecidableEq W] in
theorem guarded_systemStart (env : Env) (start now : Int)
    (started : now ≤ env.time 0) :
    Guarded env (systemStart W start) (guardStart W now) where
  defense := rfl
  clock := started
  phase := fun _ => rfl
  exchanges := fun _ _ _ => nofun

/-- However the calls of the workers interleave, no client has more bans that
last than there are workers, from the reading of the clock on. -/
theorem systemRun_activeBans
    [Fintype W] (env : Env) (heap : Heap) (cfg : Config F) (start : Int)
    (monotone : ∀ early late, early ≤ late →
      env.time early ≤ env.time late)
    (actions : List (Action W)) (ip : UInt32) (now : Int) :
    let s := run (System.step env heap cfg) (systemStart W start) actions
    env.time s.storage.world.ticks ≤ now →
      activeBans s.defense ip now ≤ Fintype.card W := by
  intro s order
  obtain ⟨steps, guarded⟩ :=
    Guarded.exists_run monotone
      (guarded_systemStart env start (env.time 0) le_rfl) heap cfg actions
  rw [← guarded.defense]
  have sound := @Guard.sound_guardRun W _ _ (env.time 0) steps
  rcases sound.bans ip now (le_trans guarded.clock order) with none | few
  · rw [Guard.guardRun] at none
    rw [none]
    exact Nat.zero_le _
  · exact le_trans (Nat.le_add_right _ _) few

/-- A worker takes a query that is blocked, and reports it. -/
def reportedCall (worker : Bool) : List (Action Bool) :=
  .arrive worker queryA (some visitor) ::
    List.replicate 6 (.advance worker)

/-- Four blocks, and then two workers that both look at the list before one of
them reports: the client is banned twice at once. -/
def crossedBlocks : List (Action Bool) :=
  (List.replicate 4 (reportedCall true)).flatten ++
    [.arrive true queryA (some visitor),
        .arrive false queryA (some visitor)] ++
      (List.replicate 6 [.advance true, .advance false]).flatten

theorem systemRun_activeBans_crossed :
    let s :=
      run (System.step envOffline ⟨fun _ => [], fun _ cache => cache⟩
          configListingA)
        (systemStart Bool 0) crossedBlocks
    activeBans s.defense visitor.sAddr 0 = 2 ∧
      activeBans s.defense visitor.sAddr 0 ≤ Fintype.card Bool := by
  refine ⟨by decide +kernel, ?_⟩
  exact
    systemRun_activeBans envOffline ⟨fun _ => [], fun _ cache => cache⟩
      configListingA 0 (fun _ _ _ => le_rfl) crossedBlocks visitor.sAddr 0
      le_rfl

end DnsFirewall
