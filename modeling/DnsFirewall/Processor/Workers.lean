import DnsFirewall.Processor.Branches
import DnsFirewall.Resolver.Steps

/-!
# Workers

Calls of `process_dns_query` by any number of threads at once.  A worker does
one step at a time: the rate limit, a reading of the clock and the look at the
quarantine list, the checks of the name, a step of the resolver, the policy
check, the second lookup, the patch of the ID through the pointer it has
returned, and the call of the callback; behind a block, again a reading of the
clock, the report, and the count of the reputation.  All clock readings and all
answers of the environment are numbered by the one tick that the workers share.
-/

namespace DnsFirewall

open CString

variable {F : Type}

/-! ## The calls in steps -/

/-- What a call keeps while it resolves its query. -/
structure Call where
  client : Option SockAddrIn
  query : DnsMessage
  question : DnsQuestion

/-- The next thing a worker does: `limited` is behind the rate limit,
`screening` and `banning` are in front of the lock of the quarantine list with
their reading of the clock.  `checked` is the answer that the policy check of
the call has let pass, if it was made. -/
inductive Phase where
  | idle
  | limited (client : Option SockAddrIn) (query : DnsMessage)
  | screening (client : Option SockAddrIn) (query : DnsMessage) (now : Int)
  | deciding (client : Option SockAddrIn) (query : DnsMessage)
  | reporting (client : Option SockAddrIn) (qname : Bytes)
  | banning (client : Option SockAddrIn) (qname : Bytes) (now : Int)
  | recording (qname : Bytes)
  | resolving (call : Call) (rest : Proc)
  | checking (call : Call) (outcome : Outcome) (buffer : Option Handle)
  | readingBack (call : Call) (checked : Option Answer)
  | patching (call : Call) (checked : Option Answer) (handle : Handle)
  | sending (call : Call) (checked : Option Answer) (handle : Handle)

/-- A packet from the cache that a worker has handed to the callback. -/
structure Delivery (W : Type) where
  worker : W
  call : Call
  checked : Option Answer
  packet : Bytes

/-- The firewall with its workers, what they have delivered and what else they
did, newest first. -/
structure System (W : Type) where
  storage : Storage
  flux : List FluxEntry
  limiter : Option (RateLimiter rlTableSize)
  defense : ActiveDefense
  reputation : Option Reputation
  phase : W → Phase
  deliveries : List (Delivery W)
  effects : List (W × Effect)

/-- A packet comes in for a worker, or the worker does its next step. -/
inductive Action (W : Type) where
  | arrive (worker : W) (inbuf : Bytes) (client : Option SockAddrIn)
  | advance (worker : W)

/-- The environment from the given tick on. -/
def Env.after (env : Env) (ticks : Nat) : Env :=
  { env with time := fun tick => env.time (ticks + tick) }

/-- The ID written through a pointer. -/
def Storage.writeId (heap : Heap) (id : UInt16) (handle : Handle)
    (s : Storage) : Storage :=
  let cache :=
    match s.target handle with
    | some entry =>
        { s.world.cache with
          entries :=
            Function.update s.world.cache.entries handle.slot
              (some { entry with data := patchId id entry.data }) }
    | none => heap.corrupt s.world.ticks s.world.cache
  { s with world := { s.world with cache } }

def Storage.addTicks (s : Storage) (ticks : Nat) : Storage :=
  { s with world := { s.world with ticks := s.world.ticks + ticks } }

namespace System

variable {W : Type} [DecidableEq W]

def firewall (s : System W) : Firewall where
  cache := s.storage.world.cache
  pool := s.storage.world.pool
  flux := s.flux
  limiter := s.limiter
  defense := s.defense
  reputation := s.reputation

/-- The state after a part of a call that leaves the cache and the pool
alone. -/
def withFirewall (s : System W) (fw : Firewall) : System W :=
  { s with
    flux := fw.flux
    limiter := fw.limiter
    defense := fw.defense
    reputation := fw.reputation }

def withPhase (s : System W) (worker : W) (phase : Phase) : System W :=
  { s with phase := Function.update s.phase worker phase }

def withStorage (s : System W) (storage : Storage) : System W :=
  { s with storage }

def withEffects (s : System W) (worker : W) (effects : List Effect) :
    System W :=
  { s with
    effects := (effects.map fun effect => (worker, effect)) ++ s.effects }

/-- The sinkhole packet is sent before the block is reported. -/
def block (s : System W) (worker : W) (site : Site)
    (client : Option SockAddrIn) (query : DnsMessage) (qname : Bytes) :
    System W :=
  match sinkholeResponse query with
  | none => s.withPhase worker .idle
  | some buf =>
      (s.withEffects worker [.respond site buf]).withPhase worker
        (.reporting client qname)

/-- The section of `ad_is_quarantined`, and what follows its verdict. -/
def screen (s : System W) (worker : W) (client : Option SockAddrIn)
    (query : DnsMessage) (now : Int) : System W :=
  if (checkedClient client).any (fun ip =>
      adIsQuarantined s.defense ip now) = true then
    match sinkholeResponse query with
    | none => s.withPhase worker .idle
    | some buf =>
        (s.withEffects worker [.respond .quarantine buf]).withPhase worker
          .idle
  else
    s.withPhase worker (.deciding client query)

/-- The section of `ad_report_block`. -/
def ban (s : System W) (worker : W) (client : Option SockAddrIn)
    (now : Int) : System W :=
  match checkedClient client with
  | none => s
  | some ip =>
      { s with defense := adReportBlock s.defense ip now }.withEffects worker
        [.reportBlock ip]

/-- `rep_record_block` with its own reading of the clock. -/
def record (s : System W) (worker : W) (qname : Bytes) (now : Int) :
    System W :=
  match s.reputation with
  | none => s
  | some tracker =>
      { s with
        reputation := some (repRecordBlock tracker qname now) }.withEffects
          worker [.recordBlock qname]

variable (env : Env) (heap : Heap) (cfg : Config F)

/-- An idle worker takes a packet as far as the rate limit. -/
def arrive (s : System W) (worker : W) (inbuf : Bytes)
    (client : Option SockAddrIn) : System W :=
  match dnsParseMessage inbuf with
  | .error _ =>
      s.withEffects worker [.respond .parseError (errorResponse 0)]
  | .ok query =>
      let (dropped, fw) :=
        rateLimit (env.after s.storage.world.ticks) s.firewall client
      let after :=
        (s.withFirewall fw).withStorage (s.storage.addTicks 1)
      if dropped = true then
        after.withEffects worker [.dropped]
      else
        after.withPhase worker (.limited client query)

/-- The checks of the name in front of the resolver. -/
def decide (s : System W) (worker : W) (client : Option SockAddrIn)
    (query : DnsMessage) : System W :=
  match query.questions with
  | [] => s.withPhase worker .idle
  | question :: _ =>
      if policyCheckBlocklist cfg.policy.blacklist question.qname = true then
        s.block worker .blacklist client query question.qname
      else if policyCheckPreresolve cfg.policy question.qname = true then
        s.block worker .dga client query question.qname
      else
        s.withPhase worker
          (.resolving ⟨client, query, question⟩
            (resolverSteps env cfg.resolver query))

/-- The policy check behind the resolver, and what follows its verdict. -/
def check (s : System W) (worker : W) (call : Call) (outcome : Outcome)
    (buffer : Option Handle) : System W :=
  match outcome with
  | .hung => s
  | .failed | .tooDeep =>
      (s.withEffects worker
        [.respond .resolverFailure
          (errorResponse call.query.header.id)]).withPhase worker .idle
  | .nxDomain _ => s.withPhase worker (.readingBack call none)
  | .answer a =>
      let ticks := s.storage.world.ticks
      let storage := s.storage.addTicks a.message.answers.length
      if a.message.answers = [] then
        s.withPhase worker (.readingBack call none)
      else
        let memory :=
          match buffer with
          | some handle => s.storage.read heap handle
          | none => env.deadFrame
        match policyCheckPostResolve cfg.policy call.query a.message memory
            (fun i => env.time (ticks + i)) s.flux with
        | none => s.withPhase worker .idle
        | some (true, flux) =>
            (({ s with flux }).withStorage storage).block worker
              .dynamicRule call.client call.query call.question.qname
        | some (false, flux) =>
            (({ s with flux }).withStorage storage).withPhase worker
              (.readingBack call (some a))

/-- The next step of a worker. -/
def advance (s : System W) (worker : W) : System W :=
  let now := env.time s.storage.world.ticks
  match s.phase worker with
  | .idle => s
  | .limited client query =>
      (s.withStorage (s.storage.addTicks 1)).withPhase worker
        (.screening client query now)
  | .screening client query now => s.screen worker client query now
  | .deciding client query => s.decide env cfg worker client query
  | .reporting client qname =>
      (s.withStorage (s.storage.addTicks 1)).withPhase worker
        (.banning client qname now)
  | .banning client qname now =>
      (s.ban worker client now).withPhase worker (.recording qname)
  | .recording qname =>
      ((s.record worker qname now).withStorage
        (s.storage.addTicks 1)).withPhase worker .idle
  | .resolving call (.done outcome buffer) =>
      s.withPhase worker (.checking call outcome buffer)
  | .resolving call rest =>
      let (rest, storage) := rest.step env heap s.storage
      (s.withStorage storage).withPhase worker (.resolving call rest)
  | .checking call outcome buffer =>
      s.check env heap cfg worker call outcome buffer
  | .readingBack call checked =>
      match s.storage.lookup env call.question with
      | (none, storage) =>
          ((s.withStorage storage).withEffects worker
            [.respond .cacheMiss
              (errorResponse call.query.header.id)]).withPhase worker .idle
      | (some handle, storage) =>
          (s.withStorage storage).withPhase worker
            (.patching call checked handle)
  | .patching call checked handle =>
      (s.withStorage
        (s.storage.writeId heap call.query.header.id handle)).withPhase
          worker (.sending call checked handle)
  | .sending call checked handle =>
      { s with
        phase := Function.update s.phase worker .idle
        deliveries :=
          ⟨worker, call, checked, s.storage.read heap handle⟩ ::
            s.deliveries }

def step (s : System W) (action : Action W) : System W :=
  match action with
  | .arrive worker inbuf client =>
      match s.phase worker with
      | .idle => s.arrive env worker inbuf client
      | _ => s
  | .advance worker => s.advance env heap cfg worker

end System

/-- The state of the firewall with all workers waiting for a query. -/
def systemStart (W : Type) (now : Int) : System W where
  storage := ⟨⟨cacheCreate cacheDefaultSize, tcpPoolStart, 0, []⟩, fun _ => 0⟩
  flux := []
  limiter := (firewallStart now).limiter
  defense := (firewallStart now).defense
  reputation := (firewallStart now).reputation
  phase := fun _ => .idle
  deliveries := []
  effects := []

/-- A report changes the list of the bans, and counts it. -/
theorem ban_frame
    {W : Type} (s : System W) (worker : W) (client : Option SockAddrIn)
    (now : Int) :
    (s.ban worker client now).storage = s.storage ∧
      (s.ban worker client now).phase = s.phase ∧
        (s.ban worker client now).deliveries = s.deliveries ∧
          (s.ban worker client now).defense =
            ((checkedClient client).map fun ip =>
              adReportBlock s.defense ip now).getD s.defense := by
  unfold System.ban
  cases checkedClient client with
  | none => exact ⟨rfl, rfl, rfl, rfl⟩
  | some ip => exact ⟨rfl, rfl, rfl, rfl⟩

/-- The count of the reputation changes nothing else. -/
theorem record_frame
    {W : Type} (s : System W) (worker : W) (qname : Bytes) (now : Int) :
    (s.record worker qname now).phase = s.phase ∧
      (s.record worker qname now).deliveries = s.deliveries ∧
        (s.record worker qname now).defense = s.defense := by
  unfold System.record
  split
  · exact ⟨rfl, rfl, rfl⟩
  · exact ⟨rfl, rfl, rfl⟩

/-- The second lookup, the patch and the send without a step in between are the
delivery of the call. -/
theorem deliver_eq_steps
    (env : Env) (heap : Heap) (s : Storage) (question : DnsQuestion)
    (id : UInt16) :
    deliver s.world.cache question id (env.time s.world.ticks) =
      match s.lookup env question with
      | (none, after) =>
          (.respond .cacheMiss (errorResponse id), after.world.cache)
      | (some handle, after) =>
          (.respond .delivery
              ((after.writeId heap id handle).read heap handle),
            (after.writeId heap id handle).world.cache) := by
  cases found :
      (lookupQuestion s.world.cache question
        (env.time s.world.ticks)).1 with
  | none =>
      rw [Storage.lookup_of_miss found, deliver]
      rw [lookupQuestion] at found ⊢
      cases result : cacheLookup s.world.cache question.qname question.qtype
          question.qclass (env.time s.world.ticks) with
      | mk data after =>
          rw [result] at found
          simp only at found
          rw [found]
  | some raw =>
      obtain ⟨pass, entry, held, fresh, isRaw⟩ := exists_holds_of_hit found
      have search :
          s.world.cache.find (questionKey question) = some pass :=
        held.probe_eq
      have occupied :
          s.world.cache.entries
              (s.world.cache.slotOf (questionKey question) pass) =
            some entry :=
        held.holds
      have result := lookupQuestion_of_holds held fresh
      have pointer :
          s.lookup env question =
            (some
                ⟨s.world.cache.slotOf (questionKey question) pass,
                  s.freed
                    (s.world.cache.slotOf (questionKey question) pass)⟩,
              { s with
                world := { s.world with ticks := s.world.ticks + 1 } }) := by
        rw [Storage.lookup]
        simp only [result, Storage.pointer, search, occupied, Option.map_some]
      have patched :
          setCachedData s.world.cache (questionKey question)
              (patchId id entry.data) =
            { s.world.cache with
              entries :=
                Function.update s.world.cache.entries
                  (s.world.cache.slotOf (questionKey question) pass)
                  (some { entry with data := patchId id entry.data }) } := by
        rw [setCachedData]
        simp only [search, occupied]
      unfold lookupQuestion at result
      unfold questionKey at patched
      rw [pointer, deliver, result]
      simp only [Storage.read, Storage.writeId, Storage.target, if_true,
        occupied, Function.update_self, patched]
      rfl

end DnsFirewall
