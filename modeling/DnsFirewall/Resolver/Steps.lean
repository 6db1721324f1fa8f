import DnsFirewall.Resolver.Memory

/-!
# The resolver, step by step

What `resolve_internal` does in one step while other threads work on the same
cache.  `cache_lookup` and `cache_store` run under the lock of the cache, but
the pointer that a lookup returns is used behind it: the data may then have
been changed, or freed.  Left alone, the steps make the resolver.
-/

namespace DnsFirewall

open CString

/-- The data pointer that `cache_lookup` returns: its entry, and how often data
has been freed there before. -/
structure Handle where
  slot : Fin cacheDefaultSize
  freed : Nat
deriving DecidableEq, Repr

/-- What the threads share of the resolver's state, and how often the data of
every entry has been freed. -/
structure Storage where
  world : World
  freed : Fin cacheDefaultSize → Nat

/-- What freed memory holds when it is read, and what a write to it does to the
cache, by tick. -/
structure Heap where
  bytes : Nat → Bytes
  corrupt : Nat → Cache cacheDefaultSize → Cache cacheDefaultSize

namespace Storage

/-- The pointer to the data at which the search for the question ends. -/
def pointer (s : Storage) (question : DnsQuestion) : Option Handle :=
  match s.world.cache.find (questionKey question) with
  | none => none
  | some pass =>
      let slot := s.world.cache.slotOf (questionKey question) pass
      (s.world.cache.entries slot).map fun _ => ⟨slot, s.freed slot⟩

/-- The counts after `free` of what the pointer points to, if there is one. -/
def countFree (s : Storage) : Option Handle → Fin cacheDefaultSize → Nat
  | none => s.freed
  | some handle =>
      Function.update s.freed handle.slot (s.freed handle.slot + 1)

/-- The entry that the pointer still points into. -/
def target (s : Storage) (handle : Handle) : Option CacheEntry :=
  if s.freed handle.slot = handle.freed then
    s.world.cache.entries handle.slot
  else
    none

/-- `cache_lookup`; a miss at an entry means that it has been removed. -/
def lookup (env : Env) (question : DnsQuestion) (s : Storage) :
    Option Handle × Storage :=
  let (found, cache) :=
    lookupQuestion s.world.cache question (env.time s.world.ticks)
  let world := { s.world with cache, ticks := s.world.ticks + 1 }
  match found with
  | some _ => (s.pointer question, { s with world })
  | none => (none, { world, freed := s.countFree (s.pointer question) })

/-- `cache_store`, with the answer that the resolver makes of the reply. -/
def store (env : Env) (question : DnsQuestion) (raw : Bytes)
    (resp : DnsMessage) (ttl : UInt32) (s : Storage) : Answer × Storage :=
  let (a, world) := storeReply env question raw resp ttl s.world
  (a,
    { world
      freed :=
        if ttl = 0 then s.freed else s.countFree (s.pointer question) })

/-- The bytes that a pointer gives. -/
def read (heap : Heap) (handle : Handle) (s : Storage) : Bytes :=
  match s.target handle with
  | some entry => entry.data
  | none => heap.bytes s.world.ticks

end Storage

/-- What is left of a call of the resolver: it has an outcome, with the pointer
to the data that the RDATA pointers of the answer reach, or a step to do. -/
inductive Proc where
  | done (outcome : Outcome) (buffer : Option Handle)
  | lookup (question : DnsQuestion) (next : Option Handle → Proc)
  | read (handle : Handle) (next : Bytes → Proc)
  | receive (exchange : World → Option (Option Bytes) × World)
      (next : Option Bytes → Proc)
  | note (event : Event) (next : Proc)
  | store (question : DnsQuestion) (raw : Bytes) (resp : DnsMessage)
      (ttl : UInt32) (next : Answer → Proc)

namespace Proc

/-- One step.  An exchange without a result never comes back. -/
def step (env : Env) (heap : Heap) : Proc → Storage → Proc × Storage
  | .done outcome buffer, s => (.done outcome buffer, s)
  | .lookup question next, s =>
      let (found, s) := s.lookup env question
      (next found, s)
  | .read handle next, s => (next (s.read heap handle), s)
  | .receive exchange next, s =>
      match exchange s.world with
      | (none, world) => (.done .hung none, { s with world })
      | (some reply, world) => (next reply, { s with world })
  | .note event next, s =>
      (next, { s with world := { s.world with log := event :: s.world.log } })
  | .store question raw resp ttl next, s =>
      let (a, s) := s.store env question raw resp ttl
      (next a, s)

/-- Go on with another process at the outcome. -/
def andThen (next : Outcome → Option Handle → Proc) : Proc → Proc
  | .done outcome buffer => next outcome buffer
  | .lookup question rest =>
      .lookup question fun found => andThen next (rest found)
  | .read handle rest => .read handle fun raw => andThen next (rest raw)
  | .receive exchange rest =>
      .receive exchange fun reply => andThen next (rest reply)
  | .note event rest => .note event (andThen next rest)
  | .store question raw resp ttl rest =>
      .store question raw resp ttl fun a => andThen next (rest a)

/-- Where a process ends, and the storage, when nobody else does a step. -/
def alone (env : Env) (heap : Heap) :
    Proc → Storage → (Outcome × Option Handle) × Storage
  | .done outcome buffer, s => ((outcome, buffer), s)
  | .lookup question next, s =>
      let (found, s) := s.lookup env question
      alone env heap (next found) s
  | .read handle next, s => alone env heap (next (s.read heap handle)) s
  | .receive exchange next, s =>
      match exchange s.world with
      | (none, world) => ((.hung, none), { s with world })
      | (some reply, world) => alone env heap (next reply) { s with world }
  | .note event next, s =>
      alone env heap next
        { s with world := { s.world with log := event :: s.world.log } }
  | .store question raw resp ttl next, s =>
      let (a, s) := s.store env question raw resp ttl
      alone env heap (next a) s

end Proc

/-! ## The resolver -/

/-- `send_query`, as an exchange that always comes back. -/
def udpReceive (env : Env) (ns : SockAddrIn) (question : DnsQuestion)
    (w : World) : Option (Option Bytes) × World :=
  let (reply, w) := sendQuery env ns question w
  (some reply, w)

/-- The exchange of the TCP branch. -/
def tcpReceive (env : Env) (fwdIp : Bytes) (question : DnsQuestion)
    (w : World) : Option (Option Bytes) × World :=
  let w := if w.pool.initialised then w else initTcpPool env fwdIp w
  let id := randomId env w
  let w := { w with ticks := w.ticks + 1 }
  match borrowTcpConn env env.passes w with
  | (none, w) => (none, w)
  | (some i, w) =>
      let (reply, w) := tcpExchange env i id question w
      (some reply, w)

/-- What the three forwarding branches do with what they received. -/
def acceptSteps (question : DnsQuestion) (reply : Option Bytes) : Proc :=
  match usableReply reply with
  | none => .done .failed none
  | some (raw, resp) =>
      .store question raw resp (forwardedTtl resp) fun a =>
        .done (.answer a) none

/-- A resolver call that hands on `-3` leaves `*final_answer` alone. -/
def aliasSteps (outcome : Outcome) (buffer : Option Handle) : Proc :=
  match outcome with
  | .nxDomain _ => .done (.nxDomain none) none
  | outcome => .done outcome buffer

/-- What follows the call with the servers of a referral; `others` goes on with
the loop. -/
def referralSteps (others : Proc) (outcome : Outcome)
    (buffer : Option Handle) : Proc :=
  match outcome with
  | .answer a => .done (.answer a) buffer
  | .nxDomain _ => .done (.nxDomain none) none
  | .hung => .done .hung none
  | _ => others

/-- The server loop, from the servers left. -/
def serverSteps (env : Env) (recurse : DnsQuestion → List NsRecord → Proc)
    (question : DnsQuestion) (nsList : List NsRecord) :
    List NsRecord → Proc
  | [] => .done .failed none
  | ns :: rest =>
      .receive (udpReceive env ns.addr question) fun reply =>
        match usableReply reply with
        | none => serverSteps env recurse question nsList rest
        | some (raw, resp) =>
            match resp.answers with
            | first :: _ =>
                match aliasTarget raw first with
                | some cname =>
                    .note (.believed .followedCname question raw)
                      ((recurse { question with qname := cname }
                        nsList).andThen aliasSteps)
                | none =>
                    .store question raw resp first.ttl fun a =>
                      .done (.answer a) none
            | [] =>
                if resp.authorities ≠ [] then
                  match buildNsList resp raw with
                  | [] => serverSteps env recurse question nsList rest
                  | newNs =>
                      .note (.believed .followedReferral question raw)
                        ((recurse question newNs).andThen
                          (referralSteps
                            (serverSteps env recurse question nsList rest)))
                else if resp.header.flags &&& 0x0F = dnsRcodeNxdomain then
                  .store question raw resp 600 fun a =>
                    .done (.nxDomain (some a)) none
                else
                  serverSteps env recurse question nsList rest

/-- `resolve_internal` behind the cache check. -/
def missSteps (env : Env) (cfg : ResolverConfig)
    (recurse : DnsQuestion → List NsRecord → Proc)
    (question : DnsQuestion) (nsList : List NsRecord) : Proc :=
  match staticForwarderFor cfg question.qname with
  | some addr =>
      .receive (udpReceive env addr question) (acceptSteps question)
  | none =>
      match cfg.dnsForwarder with
      | some fwdIp =>
          if useTcp cfg then
            .receive (tcpReceive env fwdIp question) (acceptSteps question)
          else
            match inetPton fwdIp with
            | none => .done .failed none
            | some sAddr =>
                .receive (udpReceive env ⟨sAddr, 53⟩ question)
                  (acceptSteps question)
      | none => serverSteps env recurse question nsList nsList

def resolveSteps (env : Env) (cfg : ResolverConfig) :
    Nat → DnsQuestion → List NsRecord → Proc
  | 0, _, _ => .done .tooDeep none
  | levels + 1, question, nsList =>
      .lookup question fun found =>
        match found with
        | none =>
            missSteps env cfg (resolveSteps env cfg levels) question nsList
        | some handle =>
            .read handle fun raw =>
              match dnsParseMessage raw with
              | .ok message =>
                  .done (.answer ⟨message, raw, question, .cached⟩)
                    (some handle)
              | .error _ =>
                  missSteps env cfg (resolveSteps env cfg levels) question
                    nsList

/-- `resolver_resolve`. -/
def resolverSteps (env : Env) (cfg : ResolverConfig) (query : DnsMessage) :
    Proc :=
  match query.questions with
  | [] => .done .failed none
  | question :: _ =>
      resolveSteps env cfg (maxRecursionDepth + 1)
        (resolverQuestion question) cfg.rootHints

/-! ## Lookups -/

theorem Storage.lookup_of_miss
    {env : Env} {question : DnsQuestion} {s : Storage}
    (miss :
      (lookupQuestion s.world.cache question
        (env.time s.world.ticks)).1 = none) :
    s.lookup env question =
      (none,
        { world :=
            { s.world with
              cache :=
                (lookupQuestion s.world.cache question
                  (env.time s.world.ticks)).2
              ticks := s.world.ticks + 1 }
          freed := s.countFree (s.pointer question) }) := by
  rw [Storage.lookup]
  simp only [miss]

/-- A hit gives a pointer to the data found. -/
theorem Storage.lookup_of_hit
    {env : Env} {question : DnsQuestion} {s : Storage} {raw : Bytes}
    (hit :
      (lookupQuestion s.world.cache question
        (env.time s.world.ticks)).1 = some raw) :
    ∃ handle entry,
      s.lookup env question =
          (some handle,
            { s with world := { s.world with ticks := s.world.ticks + 1 } }) ∧
        s.target handle = some entry ∧
          entry.key = questionKey question ∧ entry.data = raw := by
  obtain ⟨pass, entry, held, fresh, isRaw⟩ := exists_holds_of_hit hit
  have found : s.world.cache.find (questionKey question) = some pass :=
    held.probe_eq
  have occupied :
      s.world.cache.entries
          (s.world.cache.slotOf (questionKey question) pass) =
        some entry :=
    held.holds
  refine
    ⟨⟨s.world.cache.slotOf (questionKey question) pass,
        s.freed (s.world.cache.slotOf (questionKey question) pass)⟩,
      entry, ?_, ?_, held.isKey, isRaw⟩
  · rw [Storage.lookup]
    simp only [hit, lookupQuestion_of_hit hit, Storage.pointer, found,
      occupied, Option.map_some]
  · rw [Storage.target, if_pos rfl]
    exact occupied

/-! ## The steps of one call, left alone -/

section Alone

variable (env : Env) (heap : Heap)

/-- A step does not change where a process ends. -/
theorem Proc.alone_step (p : Proc) (s : Storage) :
    (p.step env heap s).1.alone env heap (p.step env heap s).2 =
      p.alone env heap s := by
  cases p with
  | done outcome buffer => rfl
  | lookup question next => rfl
  | read handle next => rfl
  | receive exchange next =>
      rw [Proc.step, Proc.alone]
      cases exchange s.world with
      | mk reply world =>
          cases reply with
          | none => rfl
          | some reply => rfl
  | note event next => rfl
  | store question raw resp ttl next => rfl

theorem Proc.alone_andThen
    {next : Outcome → Option Handle → Proc}
    (hung : next .hung none = .done .hung none) (p : Proc) (s : Storage) :
    (p.andThen next).alone env heap s =
      (next (p.alone env heap s).1.1 (p.alone env heap s).1.2).alone env heap
        (p.alone env heap s).2 := by
  induction p generalizing s with
  | done outcome buffer => rfl
  | lookup question rest inductionHypothesis => exact inductionHypothesis _ _
  | read handle rest inductionHypothesis => exact inductionHypothesis _ _
  | receive exchange rest inductionHypothesis =>
      rw [Proc.andThen, Proc.alone, Proc.alone]
      cases exchange s.world with
      | mk reply world =>
          cases reply with
          | none =>
              simp only
              rw [hung]
              rfl
          | some reply => exact inductionHypothesis reply _
  | note event rest inductionHypothesis => exact inductionHypothesis _
  | store question raw resp ttl rest inductionHypothesis =>
      exact inductionHypothesis _ _

/-- What a process left alone gives to its caller. -/
def Proc.result (p : Proc) (s : Storage) : Outcome × World :=
  ((p.alone env heap s).1.1, (p.alone env heap s).2.world)

theorem result_acceptSteps
    (question : DnsQuestion) (reply : Option Bytes) (s : Storage) :
    (acceptSteps question reply).result env heap s =
      acceptForwarded env question reply s.world := by
  rw [acceptSteps, acceptForwarded]
  cases usableReply reply with
  | none => rfl
  | some both => rfl

theorem result_udpReceive
    (addr : SockAddrIn) (question : DnsQuestion)
    (next : Option Bytes → Proc) (s : Storage) :
    (Proc.receive (udpReceive env addr question) next).result env heap s =
      (next (sendQuery env addr question s.world).1).result env heap
        { s with world := (sendQuery env addr question s.world).2 } :=
  rfl

theorem result_tcpReceive
    (fwdIp : Bytes) (question : DnsQuestion) (s : Storage) :
    (Proc.receive (tcpReceive env fwdIp question)
        (acceptSteps question)).result env heap s =
      forwardTcp env fwdIp question s.world := by
  rw [Proc.result, Proc.alone, tcpReceive, forwardTcp]
  generalize (if s.world.pool.initialised then s.world
    else initTcpPool env fwdIp s.world) = w
  simp only
  cases borrowTcpConn env env.passes { w with ticks := w.ticks + 1 } with
  | mk found w' =>
      cases found with
      | none => rfl
      | some i =>
          exact
            result_acceptSteps env heap question _
              { s with
                world :=
                  (tcpExchange env i (randomId env w) question w').2 }

theorem result_andThen_aliasSteps (p : Proc) (s : Storage) :
    (p.andThen aliasSteps).result env heap s =
      match p.result env heap s with
      | (.nxDomain _, w) => (.nxDomain none, w)
      | (outcome, w) => (outcome, w) := by
  have hung : aliasSteps .hung none = .done .hung none := rfl
  rw [Proc.result, Proc.alone_andThen env heap hung, Proc.result]
  cases p.alone env heap s with
  | mk reached after =>
      obtain ⟨outcome, buffer⟩ := reached
      cases outcome with
      | answer a => rfl
      | nxDomain a => rfl
      | failed => rfl
      | tooDeep => rfl
      | hung => rfl

theorem result_andThen_referralSteps
    {others : Proc} {retry : World → Outcome × World}
    (same : ∀ s, others.result env heap s = retry s.world)
    (p : Proc) (s : Storage) :
    (p.andThen (referralSteps others)).result env heap s =
      match p.result env heap s with
      | (.answer a, w) => (.answer a, w)
      | (.nxDomain _, w) => (.nxDomain none, w)
      | (.hung, w) => (.hung, w)
      | (_, w) => retry w := by
  have hung : referralSteps others .hung none = .done .hung none := rfl
  rw [Proc.result, Proc.alone_andThen env heap hung, Proc.result]
  cases p.alone env heap s with
  | mk reached after =>
      obtain ⟨outcome, buffer⟩ := reached
      cases outcome with
      | answer a => rfl
      | nxDomain a => rfl
      | failed => exact same after
      | tooDeep => exact same after
      | hung => rfl

/-- The server loop in steps is the loop of the resolver. -/
theorem result_serverSteps
    {recurse : DnsQuestion → List NsRecord → Proc}
    {resolve : DnsQuestion → List NsRecord → World → Outcome × World}
    (same : ∀ question nsList s,
      (recurse question nsList).result env heap s =
        resolve question nsList s.world)
    (question : DnsQuestion) (nsList rest : List NsRecord) (s : Storage) :
    (serverSteps env recurse question nsList rest).result env heap s =
      tryServers env resolve question nsList rest s.world := by
  induction rest generalizing s with
  | nil => rfl
  | cons ns rest inductionHypothesis =>
      rw [serverSteps, result_udpReceive, tryServers]
      cases sendQuery env ns.addr question s.world with
      | mk reply w =>
          simp only
          cases usableReply reply with
          | none => exact inductionHypothesis _
          | some both =>
              obtain ⟨raw, resp⟩ := both
              simp only
              cases resp.answers with
              | cons first more =>
                  simp only
                  cases aliasTarget raw first with
                  | none => rfl
                  | some cname =>
                      have followed :=
                        result_andThen_aliasSteps env heap
                          (recurse { question with qname := cname } nsList)
                          { s with
                            world :=
                              { w with
                                log :=
                                  .believed .followedCname question raw ::
                                    w.log } }
                      rw [same] at followed
                      exact followed
              | nil =>
                  simp only
                  split
                  · cases buildNsList resp raw with
                    | nil => exact inductionHypothesis _
                    | cons newNs others =>
                        have followed :=
                          result_andThen_referralSteps env heap
                            inductionHypothesis
                            (recurse question (newNs :: others))
                            { s with
                              world :=
                                { w with
                                  log :=
                                    .believed .followedReferral question
                                      raw :: w.log } }
                        rw [same] at followed
                        exact followed
                  · split
                    · rfl
                    · exact inductionHypothesis _

theorem result_missSteps
    (cfg : ResolverConfig)
    {recurse : DnsQuestion → List NsRecord → Proc}
    {resolve : DnsQuestion → List NsRecord → World → Outcome × World}
    (same : ∀ question nsList s,
      (recurse question nsList).result env heap s =
        resolve question nsList s.world)
    (question : DnsQuestion) (nsList : List NsRecord) (s : Storage) :
    (missSteps env cfg recurse question nsList).result env heap s =
      match staticForwarderFor cfg question.qname with
      | some addr =>
          let (reply, w) := sendQuery env addr question s.world
          acceptForwarded env question reply w
      | none =>
          match cfg.dnsForwarder with
          | some fwdIp =>
              if useTcp cfg then forwardTcp env fwdIp question s.world
              else forwardUdp env fwdIp question s.world
          | none =>
              tryServers env resolve question nsList nsList s.world := by
  rw [missSteps]
  cases staticForwarderFor cfg question.qname with
  | some addr =>
      simp only
      rw [result_udpReceive, result_acceptSteps]
  | none =>
      simp only
      cases cfg.dnsForwarder with
      | none =>
          exact result_serverSteps env heap same question nsList nsList s
      | some fwdIp =>
          simp only
          split
          · exact result_tcpReceive env heap fwdIp question s
          · rw [forwardUdp]
            cases inetPton fwdIp with
            | none => rfl
            | some sAddr =>
                simp only
                rw [result_udpReceive, result_acceptSteps]

theorem result_lookup
    (question : DnsQuestion) (next : Option Handle → Proc) (s : Storage) :
    (Proc.lookup question next).result env heap s =
      (next (s.lookup env question).1).result env heap
        (s.lookup env question).2 :=
  rfl

theorem result_read
    (handle : Handle) (next : Bytes → Proc) (s : Storage) :
    (Proc.read handle next).result env heap s =
      (next (s.read heap handle)).result env heap s :=
  rfl

/-- The steps of a resolver call, left alone, are the resolver. -/
theorem result_resolveSteps
    (cfg : ResolverConfig) (levels : Nat) (question : DnsQuestion)
    (nsList : List NsRecord) (s : Storage) :
    (resolveSteps env cfg levels question nsList).result env heap s =
      resolveInternal env cfg levels question nsList s.world := by
  induction levels generalizing question nsList s with
  | zero => rfl
  | succ levels inductionHypothesis =>
      have missed :=
        result_missSteps env heap cfg inductionHypothesis question nsList
      rw [resolveSteps, result_lookup, resolveInternal, checkCache]
      cases found :
          (lookupQuestion s.world.cache question
            (env.time s.world.ticks)).1 with
      | none =>
          rw [Storage.lookup_of_miss found]
          unfold lookupQuestion at found
          simp only [found, missed]
          rfl
      | some raw =>
          obtain ⟨handle, entry, result, live, -, isRaw⟩ :=
            Storage.lookup_of_hit found
          have sameCache := lookupQuestion_of_hit found
          have readBack :
              Storage.read heap handle
                  { s with
                    world :=
                      { s.world with ticks := s.world.ticks + 1 } } =
                raw := by
            unfold Storage.target at live
            rw [Storage.read, Storage.target]
            simp only [live]
            exact isRaw
          unfold lookupQuestion at found sameCache
          rw [result]
          simp only [found, sameCache, result_read, readBack]
          cases dnsParseMessage raw with
          | ok message => rfl
          | error failure => exact missed _

theorem result_resolverSteps
    (cfg : ResolverConfig) (query : DnsMessage) (s : Storage) :
    (resolverSteps env cfg query).result env heap s =
      resolverResolve env cfg query s.world := by
  rw [resolverSteps, resolverResolve]
  cases query.questions with
  | nil => rfl
  | cons question more => exact result_resolveSteps env heap cfg _ _ _ s

end Alone

end DnsFirewall
