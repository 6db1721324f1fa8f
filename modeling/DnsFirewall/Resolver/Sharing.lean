import DnsFirewall.Resolver.Steps

/-!
# What a step does to the pointers of others

A lookup frees the data of an expired entry, a store that of the entry it
overwrites.  A pointer into any other entry stays good, and no entry appears
but the one that is stored.
-/

namespace DnsFirewall

open CString LinearProbing

namespace Storage

/-- The search for the question ends at the entry in the slot. -/
def PointsTo (s : Storage) (question : DnsQuestion)
    (slot : Fin cacheDefaultSize) : Prop :=
  ∃ handle, s.pointer question = some handle ∧ handle.slot = slot

/-- A lookup of the question removes the entry in the slot. -/
def LookupFrees (env : Env) (s : Storage) (question : DnsQuestion)
    (slot : Fin cacheDefaultSize) : Prop :=
  (lookupQuestion s.world.cache question
      (env.time s.world.ticks)).1 = none ∧
    s.PointsTo question slot

end Storage

theorem Storage.target_eq_some_iff
    {s : Storage} {handle : Handle} {entry : CacheEntry} :
    s.target handle = some entry ↔
      s.freed handle.slot = handle.freed ∧
        s.world.cache.entries handle.slot = some entry := by
  rw [Storage.target]
  split
  case isTrue same =>
    exact ⟨fun occupied => ⟨same, occupied⟩, fun both => both.2⟩
  case isFalse other =>
    constructor
    · intro absent
      cases absent
    · intro both
      exact absurd both.1 other

theorem Storage.pointsTo_iff
    {s : Storage} {question : DnsQuestion} {slot : Fin cacheDefaultSize} :
    s.PointsTo question slot ↔
      ∃ pass entry,
        s.world.cache.Holds (questionKey question) pass entry ∧
          slot = s.world.cache.slotOf (questionKey question) pass := by
  rw [Storage.PointsTo, Storage.pointer]
  cases found : s.world.cache.find (questionKey question) with
  | none =>
      constructor
      · intro given
        obtain ⟨handle, absent, -⟩ := given
        cases absent
      · intro given
        obtain ⟨pass, entry, held, -⟩ := given
        have same : s.world.cache.find (questionKey question) = some pass :=
          held.probe_eq
        rw [found] at same
        cases same
  | some pass =>
      simp only
      cases occupied :
          s.world.cache.entries
            (s.world.cache.slotOf (questionKey question) pass) with
      | none =>
          constructor
          · intro given
            obtain ⟨handle, absent, -⟩ := given
            cases absent
          · intro given
            obtain ⟨other, entry, held, -⟩ := given
            have same :
                s.world.cache.find (questionKey question) = some other :=
              held.probe_eq
            rw [found] at same
            cases same
            have there : s.world.cache.entries _ = some entry := held.holds
            rw [Cache.slotOf] at occupied
            rw [there] at occupied
            cases occupied
      | some entry =>
          constructor
          · intro given
            obtain ⟨handle, same, rfl⟩ := given
            cases same
            exact ⟨pass, entry, Reaches.of_probe found occupied, rfl⟩
          · intro given
            obtain ⟨other, others, held, rfl⟩ := given
            have same :
                s.world.cache.find (questionKey question) = some other :=
              held.probe_eq
            rw [found] at same
            cases same
            exact ⟨_, rfl, rfl⟩

theorem Storage.countFree_of_not_pointsTo
    {s : Storage} {question : DnsQuestion} {slot : Fin cacheDefaultSize}
    (elsewhere : ¬ s.PointsTo question slot) :
    s.countFree (s.pointer question) slot = s.freed slot := by
  cases pointer : s.pointer question with
  | none => rfl
  | some handle =>
      apply Function.update_of_ne
      intro here
      exact elsewhere ⟨handle, pointer, here.symm⟩

/-! ## Lookups -/

theorem Storage.lookup_cache
    (env : Env) (question : DnsQuestion) (s : Storage) :
    (s.lookup env question).2.world.cache =
      (lookupQuestion s.world.cache question
        (env.time s.world.ticks)).2 := by
  rw [Storage.lookup]
  simp only
  split
  · rfl
  · rfl

theorem Storage.entries_of_lookup
    {env : Env} {question : DnsQuestion} {s : Storage}
    {slot : Fin cacheDefaultSize} {entry : CacheEntry}
    (occupied :
      (s.lookup env question).2.world.cache.entries slot = some entry) :
    s.world.cache.entries slot = some entry := by
  rw [Storage.lookup_cache] at occupied
  exact entries_of_cacheLookup occupied

theorem Storage.target_lookup
    {env : Env} {question : DnsQuestion} {s : Storage} {handle : Handle}
    {entry : CacheEntry} (live : s.target handle = some entry)
    (kept : ¬ s.LookupFrees env question handle.slot) :
    (s.lookup env question).2.target handle = some entry := by
  obtain ⟨sameFreed, occupied⟩ := Storage.target_eq_some_iff.mp live
  rw [Storage.target_eq_some_iff]
  cases found :
      (lookupQuestion s.world.cache question
        (env.time s.world.ticks)).1 with
  | some raw =>
      obtain ⟨other, otherEntry, result, -⟩ := Storage.lookup_of_hit found
      rw [result]
      exact ⟨sameFreed, occupied⟩
  | none =>
      have elsewhere : ¬ s.PointsTo question handle.slot :=
        fun pointsTo => kept ⟨found, pointsTo⟩
      rw [Storage.lookup_of_miss found]
      refine
        ⟨(Storage.countFree_of_not_pointsTo elsewhere).trans sameFreed, ?_⟩
      simp only
      rw [lookupQuestion]
      rcases cacheLookup_cases s.world.cache question.qname question.qtype
          question.qclass (env.time s.world.ticks) with
        ⟨_, result⟩ | ⟨pass, old, held, _, result⟩ | ⟨_, _, _, _, result⟩
      · rw [result]
        exact occupied
      · rw [result, Cache.remove_entries, Function.update_of_ne]
        · exact occupied
        · intro here
          exact
            elsewhere (Storage.pointsTo_iff.mpr ⟨pass, old, held, here⟩)
      · rw [result]
        exact occupied

/-! ## Stores -/

theorem Storage.store_cache
    (env : Env) (question : DnsQuestion) (raw : Bytes) (resp : DnsMessage)
    (ttl : UInt32) (s : Storage) :
    (s.store env question raw resp ttl).2.world.cache =
      cacheStore s.world.cache question.qname question.qtype
        question.qclass raw ttl (env.time s.world.ticks) :=
  rfl

theorem Storage.entries_of_store
    {env : Env} {question : DnsQuestion} {raw : Bytes} {resp : DnsMessage}
    {ttl : UInt32} {s : Storage} {slot : Fin cacheDefaultSize}
    {entry : CacheEntry}
    (occupied :
      (s.store env question raw resp ttl).2.world.cache.entries slot =
        some entry) :
    s.world.cache.entries slot = some entry ∨
      (ttl ≠ 0 ∧ entry.key = questionKey question ∧ entry.data = raw) := by
  rw [Storage.store_cache] at occupied
  rcases entries_of_cacheStore occupied with old | ⟨lives, _, isNew⟩
  · exact Or.inl old
  · rw [isNew]
    exact Or.inr ⟨lives, rfl, rfl⟩

theorem Storage.target_store
    {env : Env} {question : DnsQuestion} {raw : Bytes} {resp : DnsMessage}
    {ttl : UInt32} {s : Storage} {handle : Handle} {entry : CacheEntry}
    (live : s.target handle = some entry)
    (kept : ttl ≠ 0 → ¬ s.PointsTo question handle.slot) :
    (s.store env question raw resp ttl).2.target handle = some entry := by
  obtain ⟨sameFreed, occupied⟩ := Storage.target_eq_some_iff.mp live
  rw [Storage.target_eq_some_iff, Storage.store_cache, Storage.store]
  simp only
  by_cases lives : ttl = 0
  · rw [if_pos lives, lives, cacheStore_of_ttl_zero]
    exact ⟨sameFreed, occupied⟩
  have elsewhere := kept lives
  rw [if_neg lives]
  refine
    ⟨(Storage.countFree_of_not_pointsTo elsewhere).trans sameFreed, ?_⟩
  cases found : s.world.cache.find (questionKey question) with
  | none =>
      rw [cacheStore_of_full (Cache.find_eq_none_iff.mp found)]
      exact occupied
  | some pass =>
      rw [cacheStore_entries lives found, Function.update_of_ne]
      · exact occupied
      · intro here
        rw [here] at occupied
        exact
          elsewhere
            (Storage.pointsTo_iff.mpr
              ⟨pass, entry, Reaches.of_probe found occupied, here⟩)

/-! ## Sound processes -/

/-- The answer was parsed from its packet. -/
def Outcome.Parsed (outcome : Outcome) : Prop :=
  ∀ a, outcome = .answer a → dnsParseMessage a.raw = .ok a.message

/-- Exchanges leave the cache alone, and an answer at the end was parsed from
its packet. -/
inductive Proc.Sound : Proc → Prop where
  | done {outcome buffer} (parsed : outcome.Parsed) :
      Sound (.done outcome buffer)
  | lookup {question next} (rest : ∀ found, Sound (next found)) :
      Sound (.lookup question next)
  | read {handle next} (rest : ∀ raw, Sound (next raw)) :
      Sound (.read handle next)
  | receive {exchange next} (keeps : ∀ w, (exchange w).2.cache = w.cache)
      (rest : ∀ reply, Sound (next reply)) :
      Sound (.receive exchange next)
  | note {event next} (rest : Sound next) :
      Sound (.note event next)
  | store {question raw resp ttl next}
      (rest : ∀ before, Sound (next ⟨resp, raw, question, .received before⟩)) :
      Sound (.store question raw resp ttl next)

theorem parsed_of_not_answer
    {outcome : Outcome} (other : ∀ a, outcome ≠ .answer a) :
    outcome.Parsed :=
  fun a same => absurd same (other a)

theorem Proc.Sound.andThen
    {p : Proc} (sound : p.Sound) {next : Outcome → Option Handle → Proc}
    (rest : ∀ outcome buffer, outcome.Parsed → (next outcome buffer).Sound) :
    (p.andThen next).Sound := by
  induction sound with
  | done parsed => exact rest _ _ parsed
  | lookup _ inductionHypothesis => exact .lookup inductionHypothesis
  | read _ inductionHypothesis => exact .read inductionHypothesis
  | receive keeps _ inductionHypothesis =>
      exact .receive keeps inductionHypothesis
  | note _ inductionHypothesis => exact .note inductionHypothesis
  | store _ inductionHypothesis => exact .store inductionHypothesis

theorem udpReceive_cache
    (env : Env) (ns : SockAddrIn) (question : DnsQuestion) (w : World) :
    (udpReceive env ns question w).2.cache = w.cache :=
  (asked_sendQuery env ns question w).cache

theorem tcpReceive_cache
    (env : Env) (fwdIp : Bytes) (question : DnsQuestion) (w : World) :
    (tcpReceive env fwdIp question w).2.cache = w.cache := by
  rw [tcpReceive]
  have ready :
      (if w.pool.initialised then w else initTcpPool env fwdIp w).cache =
        w.cache := by
    split
    · rfl
    · exact (initTcpPool_frame env fwdIp w).1
  generalize (if w.pool.initialised then w
    else initTcpPool env fwdIp w) = pooled at ready ⊢
  have borrowed :=
    (borrowTcpConn_frame env env.passes
      { pooled with ticks := pooled.ticks + 1 }).1
  simp only
  cases result : borrowTcpConn env env.passes
      { pooled with ticks := pooled.ticks + 1 } with
  | mk found after =>
      rw [result] at borrowed
      cases found with
      | none => exact borrowed.trans ready
      | some i =>
          exact
            ((asked_tcpExchange env i (randomId env pooled) question
              after).cache.trans borrowed).trans ready

theorem sound_acceptSteps (question : DnsQuestion) (reply : Option Bytes) :
    (acceptSteps question reply).Sound := by
  rw [acceptSteps]
  cases usable : usableReply reply with
  | none => exact .done (parsed_of_not_answer (by simp))
  | some both =>
      obtain ⟨raw, resp⟩ := both
      apply Proc.Sound.store
      intro before
      apply Proc.Sound.done
      intro a same
      cases same
      exact (usableReply_eq_some usable).2.2

theorem sound_aliasSteps
    (outcome : Outcome) (buffer : Option Handle) (parsed : outcome.Parsed) :
    (aliasSteps outcome buffer).Sound := by
  cases outcome with
  | nxDomain a => exact .done (parsed_of_not_answer (by simp))
  | answer a => exact .done parsed
  | failed => exact .done parsed
  | tooDeep => exact .done parsed
  | hung => exact .done parsed

theorem sound_referralSteps
    {others : Proc} (sound : others.Sound) (outcome : Outcome)
    (buffer : Option Handle) (parsed : outcome.Parsed) :
    (referralSteps others outcome buffer).Sound := by
  cases outcome with
  | answer a => exact .done parsed
  | nxDomain a => exact .done (parsed_of_not_answer (by simp))
  | hung => exact .done parsed
  | failed => exact sound
  | tooDeep => exact sound

theorem sound_serverSteps
    (env : Env) {recurse : DnsQuestion → List NsRecord → Proc}
    (sound : ∀ question nsList, (recurse question nsList).Sound)
    (question : DnsQuestion) (nsList rest : List NsRecord) :
    (serverSteps env recurse question nsList rest).Sound := by
  induction rest with
  | nil => exact .done (parsed_of_not_answer (by simp))
  | cons ns rest inductionHypothesis =>
      apply Proc.Sound.receive (udpReceive_cache env ns.addr question)
      intro reply
      cases usable : usableReply reply with
      | none => exact inductionHypothesis
      | some both =>
          obtain ⟨raw, resp⟩ := both
          have parsed := (usableReply_eq_some usable).2.2
          simp only
          split
          · split
            · exact
                .note ((sound _ _).andThen sound_aliasSteps)
            · apply Proc.Sound.store
              intro before
              apply Proc.Sound.done
              intro a same
              cases same
              exact parsed
          · split
            · split
              · exact inductionHypothesis
              · exact
                  .note
                    ((sound _ _).andThen
                      (sound_referralSteps inductionHypothesis))
            · split
              · apply Proc.Sound.store
                intro before
                exact .done (parsed_of_not_answer (by simp))
              · exact inductionHypothesis

theorem sound_missSteps
    (env : Env) (cfg : ResolverConfig)
    {recurse : DnsQuestion → List NsRecord → Proc}
    (sound : ∀ question nsList, (recurse question nsList).Sound)
    (question : DnsQuestion) (nsList : List NsRecord) :
    (missSteps env cfg recurse question nsList).Sound := by
  rw [missSteps]
  split
  · exact .receive (udpReceive_cache env _ _) (sound_acceptSteps question)
  · split
    · split
      · exact .receive (tcpReceive_cache env _ _) (sound_acceptSteps question)
      · split
        · exact .done (parsed_of_not_answer (by simp))
        · exact
            .receive (udpReceive_cache env _ _) (sound_acceptSteps question)
    · exact sound_serverSteps env sound question nsList nsList

theorem sound_resolveSteps
    (env : Env) (cfg : ResolverConfig) (levels : Nat)
    (question : DnsQuestion) (nsList : List NsRecord) :
    (resolveSteps env cfg levels question nsList).Sound := by
  induction levels generalizing question nsList with
  | zero => exact .done (parsed_of_not_answer (by simp))
  | succ levels inductionHypothesis =>
      have missed :=
        sound_missSteps env cfg inductionHypothesis question nsList
      apply Proc.Sound.lookup
      intro found
      cases found with
      | none => exact missed
      | some handle =>
          apply Proc.Sound.read
          intro raw
          cases parsed : dnsParseMessage raw with
          | error failure => exact missed
          | ok message =>
              apply Proc.Sound.done
              intro a same
              cases same
              exact parsed

theorem sound_resolverSteps
    (env : Env) (cfg : ResolverConfig) (query : DnsMessage) :
    (resolverSteps env cfg query).Sound := by
  rw [resolverSteps]
  cases query.questions with
  | nil => exact .done (parsed_of_not_answer (by simp))
  | cons question more => exact sound_resolveSteps env cfg _ _ _

end DnsFirewall
