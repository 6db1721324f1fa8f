import DnsFirewall.Cache.Retention
import DnsFirewall.Processor.Delivery

/-!
# The age of cached answers

Each place that stores a reply with answers gives it the lifetime of its first
answer.  A record that lives shorter is served beyond its lifetime; where the
first answer has the least lifetime, no record is.
-/

namespace DnsFirewall

open CString LinearProbing Runs

variable {F : Type}

/-! ## The uses of the cache -/

/-- The places that call `cache_store`. -/
inductive StoreSite where
  | staticForwarder
  | tcpForwarder
  | udpForwarder
  | iterative
  | nameError

/-- The lifetime given there, if the reply gets there. -/
def StoreSite.lifetime (site : StoreSite) (resp : DnsMessage) :
    Option UInt32 :=
  match site with
  | .staticForwarder => some (forwardedTtl resp)
  | .tcpForwarder => some (forwardedTtl resp)
  | .udpForwarder => some (forwardedTtl resp)
  | .iterative => resp.answers.head?.map DnsRr.ttl
  | .nameError => if resp.answers = [] then some 600 else none

/-- A use of the cache by the firewall: the check of the resolver, a store, or
the delivery with its lookup and the write of the ID. -/
inductive UseOp where
  | check (question : DnsQuestion)
  | store (site : StoreSite) (question : DnsQuestion) (raw : Bytes)
  | deliver (question : DnsQuestion) (id : UInt16)

structure CacheUse where
  time : Int
  op : UseOp

/-- The message and the lifetime with which a reply is stored at the place. -/
def storedAt (site : StoreSite) (raw : Bytes) :
    Option (DnsMessage × UInt32) :=
  match usableReply (some raw) with
  | none => none
  | some (_, resp) => (site.lifetime resp).map fun ttl => (resp, ttl)

def storeFor (c : Cache cacheDefaultSize) (question : DnsQuestion)
    (raw : Bytes) (ttl : UInt32) (now : Int) : Cache cacheDefaultSize :=
  cacheStore c question.qname question.qtype question.qclass raw ttl now

def cacheUse (c : Cache cacheDefaultSize) (use : CacheUse) :
    Cache cacheDefaultSize :=
  match use.op with
  | .check question => (lookupQuestion c question use.time).2
  | .store site question raw =>
      match storedAt site raw with
      | none => c
      | some (_, ttl) => storeFor c question raw ttl use.time
  | .deliver question id => (deliver c question id use.time).2

/-! ## Where entries come from -/

/-- A reply with the time at which it was stored. -/
structure Origin where
  time : Int
  raw : Bytes
  message : DnsMessage

/-- The cache with the reply stored last in every slot. -/
structure AgedCache where
  cache : Cache cacheDefaultSize
  origin : Fin cacheDefaultSize → Option Origin

def agedStart : AgedCache :=
  ⟨cacheCreate cacheDefaultSize, fun _ => none⟩

def noteOrigin (s : AgedCache) (use : CacheUse) :
    Fin cacheDefaultSize → Option Origin :=
  match use.op with
  | .check _ => s.origin
  | .store site question raw =>
      match storedAt site raw with
      | none => s.origin
      | some (resp, ttl) =>
          match s.cache.find (questionKey question) with
          | none => s.origin
          | some pass =>
              if ttl = 0 then s.origin
              else
                Function.update s.origin
                  (s.cache.slotOf (questionKey question) pass)
                  (some ⟨use.time, raw, resp⟩)
  | .deliver _ _ => s.origin

def agedUse (s : AgedCache) (use : CacheUse) : AgedCache :=
  ⟨cacheUse s.cache use, noteOrigin s use⟩

theorem cache_run_agedUse (s : AgedCache) (uses : List CacheUse) :
    (run agedUse s uses).cache = run cacheUse s.cache uses :=
  view_run agedUse AgedCache.cache (fun _ _ => rfl) uses s

/-- The reply behind the slot at which the search for the question ends. -/
def AgedCache.originOf (s : AgedCache) (question : DnsQuestion) :
    Option Origin :=
  match s.cache.find (questionKey question) with
  | none => none
  | some pass => s.origin (s.cache.slotOf (questionKey question) pass)

/-- Every answer of a packet that a lookup returns at the given time was
stored with a lifetime that reaches to that time. -/
def AgedCache.Fresh (s : AgedCache) (now : Int) : Prop :=
  ∀ (question : DnsQuestion) (data : Bytes),
    (lookupQuestion s.cache question now).1 = some data →
      ∃ o, s.originOf question = some o ∧ SamePacket data o.raw ∧
        ∀ rr, rr ∈ o.message.answers → now - o.time ≤ rr.ttl.toNat

/-- A reply that is stored, with room for its question, has no answer that
lives shorter than its first one. -/
def FirstLeast (s : AgedCache) (use : CacheUse) : Prop :=
  match use.op with
  | .check _ => True
  | .store site question raw =>
      ∀ resp ttl first more, storedAt site raw = some (resp, ttl) →
        s.cache.HasRoom (questionKey question) →
          resp.answers = first :: more →
            ∀ rr, rr ∈ more → first.ttl ≤ rr.ttl
  | .deliver _ _ => True

/-- No entry outlives an answer of the reply it comes from. -/
def AgedCache.Aged (s : AgedCache) : Prop :=
  ∀ slot entry, s.cache.entries slot = some entry →
    ∃ o, s.origin slot = some o ∧ SamePacket entry.data o.raw ∧
      ∀ rr, rr ∈ o.message.answers → entry.expiry ≤ o.time + rr.ttl.toNat

theorem AgedCache.Aged.fresh {s : AgedCache} (aged : s.Aged) (now : Int) :
    s.Fresh now := by
  intro question data hit
  obtain ⟨pass, entry, held, unexpired, isData⟩ := exists_holds_of_hit hit
  obtain ⟨o, isOrigin, same, lives⟩ := aged _ entry held.holds
  have found : s.cache.find (questionKey question) = some pass :=
    held.probe_eq
  refine ⟨o, ?_, ?_, ?_⟩
  · rw [AgedCache.originOf]
    rw [found]
    exact isOrigin
  · rw [← isData]
    exact same
  · intro rr member
    have upTo := lives rr member
    omega

theorem aged_agedStart : agedStart.Aged := by
  intro slot entry occupied
  cases occupied

/-! ## One use -/

theorem storedAt_eq_some
    {site : StoreSite} {raw : Bytes} {resp : DnsMessage} {ttl : UInt32}
    (stored : storedAt site raw = some (resp, ttl)) :
    12 ≤ raw.length ∧ dnsParseMessage raw = .ok resp ∧
      ∀ first more, resp.answers = first :: more → ttl = first.ttl := by
  unfold storedAt at stored
  cases usable : usableReply (some raw) with
  | none =>
      rw [usable] at stored
      cases stored
  | some accepted =>
      obtain ⟨packet, message⟩ := accepted
      obtain ⟨same, long, parsed⟩ := usableReply_eq_some usable
      cases same
      rw [usable] at stored
      obtain ⟨lifetime, given, same⟩ := Option.map_eq_some_iff.mp stored
      cases same
      refine ⟨long, parsed, ?_⟩
      intro first more answers
      cases site with
      | nameError =>
          unfold StoreSite.lifetime at given
          simp [answers] at given
      | iterative =>
          unfold StoreSite.lifetime at given
          simp only [answers] at given
          exact (Option.some.inj given).symm
      | staticForwarder | tcpForwarder | udpForwarder =>
          unfold StoreSite.lifetime forwardedTtl at given
          simp only [answers] at given
          exact (Option.some.inj given).symm

theorem entries_of_setCachedData
    {c : Cache cacheDefaultSize} {key data : Bytes}
    {slot : Fin cacheDefaultSize} {entry : CacheEntry}
    (occupied : (setCachedData c key data).entries slot = some entry) :
    c.entries slot = some entry ∨
      ∃ pass old, c.find key = some pass ∧
        c.entries slot = some old ∧ slot = c.slotOf key pass ∧
          entry = { old with data } := by
  unfold setCachedData at occupied
  cases found : c.find key with
  | none =>
      simp only [found] at occupied
      exact Or.inl occupied
  | some pass =>
      cases held : c.entries (c.slotOf key pass) with
      | none =>
          simp only [found, held] at occupied
          exact Or.inl occupied
      | some old =>
          simp only [found, held] at occupied
          by_cases here : slot = c.slotOf key pass
          · rw [here, Function.update_self] at occupied
            cases occupied
            exact Or.inr ⟨pass, old, rfl, by rw [here]; exact held, here, rfl⟩
          · rw [Function.update_of_ne here] at occupied
            exact Or.inl occupied

/-- A delivery leaves entries as they were, but for the ID of the packet it
delivers. -/
theorem entries_of_deliver
    {c : Cache cacheDefaultSize} {question : DnsQuestion} {id : UInt16}
    {now : Int} {slot : Fin cacheDefaultSize} {entry : CacheEntry}
    (occupied : (deliver c question id now).2.entries slot = some entry) :
    c.entries slot = some entry ∨
      ∃ old, c.entries slot = some old ∧
        entry = { old with data := patchId id old.data } := by
  have lookup :=
    cacheLookup_cases c question.qname question.qtype question.qclass now
  rcases lookup with
    ⟨_, result⟩ | ⟨pass, removed, held, _, result⟩ |
    ⟨pass, found, held, _, result⟩
  · unfold deliver at occupied
    rw [result] at occupied
    exact Or.inl occupied
  · have kept :
        (cacheLookup c question.qname question.qtype question.qclass
          now).2.entries slot = some entry := by
      unfold deliver at occupied
      rw [result] at occupied ⊢
      exact occupied
    exact Or.inl (entries_of_cacheLookup kept)
  · unfold deliver at occupied
    rw [result] at occupied
    rcases entries_of_setCachedData occupied with
      same | ⟨otherPass, old, isPass, isOld, here, isEntry⟩
    · exact Or.inl same
    · refine Or.inr ⟨old, isOld, ?_⟩
      -- the search ends at the entry whose packet is delivered
      have samePass : otherPass = pass := by
        have alsoPass := held.probe_eq
        unfold Cache.find at isPass
        rw [alsoPass] at isPass
        exact (Option.some.inj isPass).symm
      have sameEntry : old = found := by
        have there := held.holds
        rw [here, samePass, Cache.slotOf, there] at isOld
        exact (Option.some.inj isOld).symm
      rw [isEntry, sameEntry]

/-- With the least lifetime first, no answer lives shorter than the entry. -/
theorem ttl_le_of_firstLeast
    {s : AgedCache} {time : Int} {site : StoreSite}
    {question : DnsQuestion} {raw : Bytes} {resp : DnsMessage}
    {ttl : UInt32}
    (least : FirstLeast s ⟨time, .store site question raw⟩)
    (stored : storedAt site raw = some (resp, ttl))
    (room : s.cache.HasRoom (questionKey question)) {rr : DnsRr}
    (member : rr ∈ resp.answers) : ttl ≤ rr.ttl := by
  obtain ⟨_, _, isFirst⟩ := storedAt_eq_some stored
  cases answers : resp.answers with
  | nil =>
      rw [answers] at member
      cases member
  | cons first more =>
      rw [answers] at member
      rw [isFirst first more answers]
      rcases List.mem_cons.mp member with rfl | later
      · exact UInt32.le_refl _
      · exact least resp ttl first more stored room answers rr later

theorem aged_store
    {s : AgedCache} (aged : s.Aged) {time : Int} {site : StoreSite}
    {question : DnsQuestion} {raw : Bytes}
    (least : FirstLeast s ⟨time, .store site question raw⟩) :
    (agedUse s ⟨time, .store site question raw⟩).Aged := by
  cases stored : storedAt site raw with
  | none =>
      rw [agedUse, cacheUse, noteOrigin]
      simp only [stored]
      exact aged
  | some accepted =>
      obtain ⟨resp, ttl⟩ := accepted
      obtain ⟨long, -⟩ := storedAt_eq_some stored
      have twoBytes : 2 ≤ raw.length := by omega
      have outlasts := ttl_le_of_firstLeast least stored
      rw [agedUse, cacheUse, noteOrigin]
      simp only [stored]
      cases found : s.cache.find (questionKey question) with
      | none =>
          have full : ¬ s.cache.HasRoom (questionKey question) :=
            Cache.find_eq_none_iff.mp found
          rw [storeFor]
          rw [cacheStore_of_full full]
          exact aged
      | some pass =>
          by_cases lives : ttl = 0
          · rw [storeFor]
            rw [lives, cacheStore_of_ttl_zero]
            simp only [if_true]
            exact aged
          · simp only [if_neg lives]
            have entries :
                (storeFor s.cache question raw ttl time).entries = _ :=
              cacheStore_entries lives found
            intro slot entry occupied
            simp only at occupied ⊢
            rw [entries] at occupied
            by_cases here :
                slot = s.cache.slotOf (questionKey question) pass
            · subst here
              have isNew := (Function.update_self _ _ _).symm.trans occupied
              cases isNew
              refine
                ⟨⟨time, raw, resp⟩, Function.update_self _ _ _,
                  samePacket_self twoBytes, ?_⟩
              intro rr member
              have upTo :=
                UInt32.le_iff_toNat_le.mp
                  (outlasts (Cache.hasRoom_of_find found) member)
              simp only
              omega
            · have isOld :=
                (Function.update_of_ne here _ _).symm.trans occupied
              obtain ⟨o, isOrigin, facts⟩ := aged slot entry isOld
              exact
                ⟨o, (Function.update_of_ne here _ _).trans isOrigin, facts⟩

theorem aged_agedUse
    {s : AgedCache} {use : CacheUse} (aged : s.Aged)
    (least : FirstLeast s use) : (agedUse s use).Aged := by
  obtain ⟨time, op⟩ := use
  cases op with
  | check question =>
      intro slot entry occupied
      exact aged slot entry (entries_of_cacheLookup occupied)
  | store site question raw => exact aged_store aged least
  | deliver question id =>
      intro slot entry occupied
      rcases entries_of_deliver occupied with same | ⟨old, isOld, isEntry⟩
      · exact aged slot entry same
      · obtain ⟨o, isOrigin, same, lives⟩ := aged slot old isOld
        rw [isEntry]
        exact ⟨o, isOrigin, samePacket_patchId same id, lives⟩

/-- A stored reply is served to the end of its lifetime. -/
theorem firstLeast_of_fresh
    {s : AgedCache} {use : CacheUse}
    (fresh : ∀ now, use.time ≤ now → (agedUse s use).Fresh now) :
    FirstLeast s use := by
  obtain ⟨time, op⟩ := use
  cases op with
  | check question => exact trivial
  | deliver question id => exact trivial
  | store site question raw =>
      intro resp ttl first more stored room answers rr member
      obtain ⟨_, _, isFirst⟩ := storedAt_eq_some stored
      rw [← isFirst first more answers]
      by_cases lives : ttl = 0
      · rw [lives]
        exact UInt32.zero_le
      obtain ⟨pass, found⟩ := Cache.exists_find_of_hasRoom room
      have held :
          (agedUse s ⟨time, .store site question raw⟩).cache.Holds
            (questionKey question) pass
            ⟨questionKey question, raw, time + ttl.toNat⟩ := by
        rw [agedUse, cacheUse]
        simp only [stored]
        exact cacheStore_holds lives found
      have isOrigin :
          (agedUse s ⟨time, .store site question raw⟩).originOf question =
            some ⟨time, raw, resp⟩ := by
        have foundAgain :
            (agedUse s ⟨time, .store site question raw⟩).cache.find
                (questionKey question) = some pass :=
          held.probe_eq
        rw [AgedCache.originOf]
        rw [foundAgain]
        rw [agedUse, noteOrigin]
        simp only [stored, found, if_neg lives]
        exact Function.update_self _ _ _
      have hit := lookupQuestion_of_holds held (Int.le_refl _)
      obtain ⟨o, alsoOrigin, _, upTo⟩ :=
        fresh (time + ttl.toNat) (by simp only; omega) question raw
          (by rw [hit])
      rw [isOrigin] at alsoOrigin
      cases alsoOrigin
      have bound :=
        upTo rr (by rw [answers]; exact List.mem_cons_of_mem _ member)
      rw [UInt32.le_iff_toNat_le]
      simp only at bound
      omega

/-! ## Runs -/

/-- Along a run every answer of every packet that a lookup returns is within
its lifetime, exactly when no reply that is stored has an answer that lives
shorter than its first one. -/
theorem fresh_iff
    (history : List CacheUse) (clocked : Clocked (history.map CacheUse.time)) :
    (∀ before after, history = before ++ after →
        ∀ now, Clocked (before.map CacheUse.time ++ [now]) →
          (run agedUse agedStart before).Fresh now) ↔
      Along agedUse FirstLeast agedStart history := by
  constructor
  · intro fresh before use after shape
    apply firstLeast_of_fresh
    intro now later
    have here :=
      fresh (before ++ [use]) after
        (by rw [shape, List.append_assoc]; rfl) now
    rw [run_append] at here
    apply here
    rw [shape, List.map_append, List.map_cons] at clocked
    rw [List.map_append, List.map_singleton]
    exact clocked_to_end clocked later
  · intro along before after shape now _
    exact
      (invariant_run AgedCache.Aged
        (fun _ _ aged least => aged_agedUse aged least) aged_agedStart
        (along.beginning shape)).fresh now

/-- A reply to the query for `a.` with two addresses of these TTLs. -/
def replyTwo (first second : UInt8) : Bytes :=
  [0, 0, 129, 128, 0, 1, 0, 2, 0, 0, 0, 0,
    1, 97, 0, 0, 1, 0, 1,
    192, 12, 0, 1, 0, 1, 0, 0, 0, first, 0, 4, 6, 6, 6, 6,
    192, 12, 0, 1, 0, 1, 0, 0, 0, second, 0, 4, 7, 7, 7, 7]

/-- The first record is the one that expires first: five seconds later the
packet is still found, with the ID of a delivery, and no record has expired. -/
theorem fresh_iff_replyTwo :
    let before : List CacheUse :=
      [⟨0, .store .udpForwarder questionA (replyTwo 5 100)⟩,
        ⟨4, .deliver questionA 4660⟩]
    (lookupQuestion (run agedUse agedStart before).cache questionA 5).1 =
        some (patchId 4660 (replyTwo 5 100)) ∧
      (run agedUse agedStart before).Fresh 5 := by
  have along :
      Along agedUse FirstLeast agedStart
        [⟨0, .store .udpForwarder questionA (replyTwo 5 100)⟩,
          ⟨4, .deliver questionA 4660⟩] := by
    refine
      along_cons_iff.mpr ⟨?_, along_cons_iff.mpr ⟨trivial, along_nil⟩⟩
    intro resp ttl first more stored _ answers rr member
    have least :
        (storedAt .udpForwarder (replyTwo 5 100)).all (fun accepted =>
          accepted.1.answers.all fun rr =>
            accepted.1.answers.head?.all fun first =>
              decide (first.ttl ≤ rr.ttl)) = true := by
      decide +kernel
    rw [stored, Option.all_some, answers, List.all_eq_true] at least
    exact of_decide_eq_true (least rr (List.mem_cons_of_mem first member))
  refine ⟨by decide +kernel, ?_⟩
  exact
    (fresh_iff _ (by simp [Clocked])).mpr along _ [] rfl 5
      (by simp [Clocked])

/-- No lookup would return an answer beyond its lifetime. -/
def AnswersStayFresh : Prop :=
  ∀ (history : List CacheUse) (now : Int),
    Clocked (history.map CacheUse.time ++ [now]) →
      (run agedUse agedStart history).Fresh now

theorem not_answersStayFresh : ¬ AnswersStayFresh := by
  intro stay
  have fresh :=
    stay [⟨0, .store .udpForwarder questionA (replyTwo 100 5)⟩] 50
      (by simp [Clocked])
  obtain ⟨o, isOrigin, -, lives⟩ :=
    fresh questionA (replyTwo 100 5) (by decide +kernel)
  have old :
      ((run agedUse agedStart
          [⟨0, .store .udpForwarder questionA (replyTwo 100 5)⟩]).originOf
          questionA).all
        (fun o => o.message.answers.all fun rr =>
          decide (50 - o.time ≤ rr.ttl.toNat)) = false := by
    decide +kernel
  rw [isOrigin, Option.all_some, List.all_eq_false] at old
  obtain ⟨rr, member, dead⟩ := old
  exact dead (decide_eq_true (lives rr member))

/-! ## The uses of the firewall -/

/-- The cache after the first world is left by uses of the cache before it. -/
def UsedFrom (c after : Cache cacheDefaultSize) : Prop :=
  ∃ uses, after = run cacheUse c uses

theorem UsedFrom.refl (c : Cache cacheDefaultSize) : UsedFrom c c :=
  ⟨[], rfl⟩

theorem UsedFrom.trans
    {first second third : Cache cacheDefaultSize}
    (once : UsedFrom first second) (again : UsedFrom second third) :
    UsedFrom first third := by
  obtain ⟨uses, rfl⟩ := once
  obtain ⟨more, rfl⟩ := again
  exact ⟨uses ++ more, (run_append _ _ _ _).symm⟩

theorem usedFrom_checkCache
    {env : Env} {question : DnsQuestion} {w after : World}
    {found : Option Answer}
    (checked : checkCache env question w = (found, after)) :
    UsedFrom w.cache after.cache := by
  refine ⟨[⟨env.time w.ticks, .check question⟩], ?_⟩
  unfold checkCache at checked
  simp only at checked
  split at checked
  · cases checked
    rfl
  · split at checked
    · cases checked
      rfl
    · cases checked
      rfl

theorem usedFrom_storeReply
    {reply : Option Bytes} {raw : Bytes} {resp : DnsMessage}
    {ttl : UInt32} (usable : usableReply reply = some (raw, resp))
    {site : StoreSite} (given : site.lifetime resp = some ttl) (env : Env)
    (question : DnsQuestion) (w : World) :
    UsedFrom w.cache (storeReply env question raw resp ttl w).2.cache := by
  refine ⟨[⟨env.time w.ticks, .store site question raw⟩], ?_⟩
  have stored : storedAt site raw = some (resp, ttl) := by
    obtain ⟨isReply, _, _⟩ := usableReply_eq_some usable
    rw [isReply] at usable
    rw [storedAt]
    rw [usable]
    simp only [given]
    rfl
  rw [run_cons, run_nil]
  rw [cacheUse]
  simp only [stored]
  rfl

theorem usedFrom_acceptForwarded
    (env : Env) (question : DnsQuestion) (reply : Option Bytes) (w : World) :
    UsedFrom w.cache (acceptForwarded env question reply w).2.cache := by
  rw [acceptForwarded]
  cases usable : usableReply reply with
  | none => exact .refl w.cache
  | some accepted =>
      exact
        @usedFrom_storeReply _ _ _ _ usable .udpForwarder rfl env question w

theorem Resolves.usedFrom
    {env : Env} {cfg : ResolverConfig} {stage : Stage}
    {question : DnsQuestion} {nsList : List NsRecord} {w after : World}
    {outcome : Outcome}
    (resolves : Resolves env cfg stage question nsList w outcome after) :
    UsedFrom w.cache after.cache := by
  induction resolves with
  | tooDeep => exact .refl _
  | cached hit => exact usedFrom_checkCache hit
  | notAsked miss _ cache _ =>
      rw [cache]
      exact usedFrom_checkCache miss
  | @forwarded levels question nsList w missed reply asked miss ask =>
      have accepted := usedFrom_acceptForwarded env question reply asked
      rw [ask.cache] at accepted
      exact (usedFrom_checkCache miss).trans accepted
  | iterated miss _ inductionHypothesis =>
      exact (usedFrom_checkCache miss).trans inductionHypothesis
  | exhausted => exact .refl _
  | passedOver ask _ inductionHypothesis =>
      rw [← ask.cache]
      exact inductionHypothesis
  | aliased ask _ _ _ _ inductionHypothesis =>
      rw [← ask.cache]
      exact inductionHypothesis
  | answered ask usable answers =>
      rw [← ask.cache]
      exact
        @usedFrom_storeReply _ _ _ _ usable .iterative
          (by unfold StoreSite.lifetime; rw [answers]; rfl) _ _ _
  | referred ask _ _ _ inductionHypothesis =>
      rw [← ask.cache]
      exact inductionHypothesis
  | referredInVain ask _ _ _ _ below rest =>
      rw [← ask.cache]
      exact below.trans rest
  | nameError ask usable noAnswers =>
      rw [← ask.cache]
      exact
        @usedFrom_storeReply _ _ _ _ usable .nameError
          (by unfold StoreSite.lifetime; rw [if_pos noAnswers]) _ _ _

theorem cache_admittedState
    (env : Env) (fw : Firewall) (client : Option SockAddrIn) :
    (admittedState env fw client).cache = fw.cache := by
  rw [admittedState, rateLimit]
  split
  · rfl
  · rfl

theorem usedFrom_resolution
    (env : Env) (cfg : Config F) (fw : Firewall) (query : DnsMessage) :
    UsedFrom fw.cache (resolution env cfg fw query).2.cache := by
  rw [resolution, resolverResolve]
  cases query.questions with
  | nil => exact .refl fw.cache
  | cons question more =>
      exact
        (resolves_resolveInternal env cfg.resolver (maxRecursionDepth + 1)
          (resolverQuestion question) cfg.resolver.rootHints
          ⟨fw.cache, fw.pool, 2, []⟩).usedFrom

theorem usedFrom_sendAnswer
    (env : Env) (tick : Nat) (fw : Firewall) (id : UInt16)
    (question : DnsQuestion) (outcome : Outcome) (log : List Event) :
    UsedFrom fw.cache
      (sendAnswer env tick fw id question outcome log).state.cache := by
  have delivered :
      UsedFrom fw.cache (deliver fw.cache question id (env.time tick)).2 :=
    ⟨[⟨env.time tick, .deliver question id⟩], rfl⟩
  cases outcome with
  | answer a => exact delivered
  | nxDomain a => exact delivered
  | failed => exact .refl fw.cache
  | tooDeep => exact .refl fw.cache
  | hung => exact .refl fw.cache

/-- A query changes the cache by uses of it. -/
theorem usedFrom_queryCall
    (cfg : Config F) (fw : Firewall) (call : QueryCall) :
    UsedFrom fw.cache (queryCall cfg fw call).cache := by
  have admitted := cache_admittedState call.env fw call.client
  have resolved (query : DnsMessage) :
      UsedFrom fw.cache
        (resolution call.env cfg (admittedState call.env fw call.client)
          query).2.cache := by
    have used :=
      usedFrom_resolution call.env cfg
        (admittedState call.env fw call.client) query
    rw [admitted] at used
    exact used
  rw [queryCall, QueryCall.result]
  have branch :=
    branch_processDnsQuery call.env cfg fw call.inbuf call.client
  revert branch
  generalize processDnsQuery call.env cfg fw call.inbuf call.client = result
  intro branch
  cases branch with
  | unparsed parsed => exact .refl fw.cache
  | limited parsed dropped =>
      rw [admitted]
      exact .refl fw.cache
  | unasked parsed notLimited empty =>
      rw [admitted]
      exact .refl fw.cache
  | banned parsed notLimited asked quarantined =>
      rw [admitted]
      exact .refl fw.cache
  | listed parsed notLimited asked free onList => exact ⟨[], admitted⟩
  | generated parsed notLimited asked free notListed isDga =>
      exact ⟨[], admitted⟩
  | ruled passes action => exact resolved _
  | allowed passes action =>
      exact (resolved _).trans (usedFrom_sendAnswer _ _ _ _ _ _ _)

/-- After every run of queries the cache of the firewall is one that uses lead
to. -/
theorem cache_usedFrom_start
    (cfg : Config F) (start : Int) (calls : List QueryCall) :
    UsedFrom (cacheCreate cacheDefaultSize)
      (run (queryCall cfg) (firewallStart start) calls).cache :=
  @invariant_run _ _ (queryCall cfg) (fun _ _ => True)
    (fun fw : Firewall =>
      UsedFrom (cacheCreate cacheDefaultSize) fw.cache)
    (fun fw call used _ => used.trans (usedFrom_queryCall cfg fw call))
    calls (firewallStart start) (.refl _) fun _ _ _ _ => trivial

end DnsFirewall
