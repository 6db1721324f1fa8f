import DnsFirewall.Resolver.Trust

/-!
# What a resolution leaves in the cache

While the clock stands still a resolution removes expired entries, and as its
last step it may store the reply that it returns.  So an answer was either
found in the cache, under the question it was then looked up for, or is what
`cache_store` was last called with.
-/

namespace DnsFirewall

open CString LinearProbing

def questionKey (question : DnsQuestion) : Bytes :=
  buildKey question.qname question.qtype question.qclass

def lookupQuestion (c : Cache cacheDefaultSize) (question : DnsQuestion)
    (now : Int) : Option Bytes × Cache cacheDefaultSize :=
  cacheLookup c question.qname question.qtype question.qclass now

/-- The second cache is the first one without some expired entries. -/
def Pruned (now : Int) (c after : Cache cacheDefaultSize) : Prop :=
  ∀ slot, after.entries slot = c.entries slot ∨
    ∃ entry, c.entries slot = some entry ∧ entry.expiry < now ∧
      after.entries slot = none

/-- The answer is what was stored last, into the given cache. -/
def StoredLast (now : Int) (a : Answer)
    (before after : Cache cacheDefaultSize) : Prop :=
  after =
    cacheStore before a.question.qname a.question.qtype a.question.qclass
      a.raw (forwardedTtl a.message) now

/-- What an outcome says about the cache that is left. -/
def Outcome.Leaves (now : Int) (c after : Cache cacheDefaultSize) :
    Outcome → Prop
  | .answer a =>
      dnsParseMessage a.raw = .ok a.message ∧
        match a.source with
        | .cached =>
            Pruned now c after ∧
              (lookupQuestion after a.question now).1 = some a.raw
        | .received before =>
            Pruned now c before ∧ StoredLast now a before after
  | .nxDomain _ => True
  | .failed => Pruned now c after
  | .tooDeep => Pruned now c after
  | .hung => Pruned now c after

theorem Pruned.refl (now : Int) (c : Cache cacheDefaultSize) :
    Pruned now c c :=
  fun _ => Or.inl rfl

theorem Pruned.trans
    {now : Int} {first second third : Cache cacheDefaultSize}
    (once : Pruned now first second) (again : Pruned now second third) :
    Pruned now first third := by
  intro slot
  rcases again slot with same | ⟨entry, occupied, expired, empty⟩
  · rw [same]
    exact once slot
  · rcases once slot with same | ⟨_, _, _, alreadyEmpty⟩
    · rw [same] at occupied
      exact Or.inr ⟨entry, occupied, expired, empty⟩
    · rw [alreadyEmpty] at occupied
      cases occupied

theorem Pruned.entries
    {now : Int} {c after : Cache cacheDefaultSize}
    (pruned : Pruned now c after) {slot : Fin cacheDefaultSize}
    {entry : CacheEntry} (occupied : after.entries slot = some entry) :
    c.entries slot = some entry := by
  rcases pruned slot with same | ⟨_, _, _, empty⟩
  · rw [← same]
    exact occupied
  · rw [empty] at occupied
    cases occupied

/-- What the search finds without the expired entries it finds with them. -/
theorem Pruned.holds
    {now : Int} {c after : Cache cacheDefaultSize}
    (pruned : Pruned now c after) {key : Bytes} {pass : Nat}
    {entry : CacheEntry} (held : after.Holds key pass entry) :
    c.Holds key pass entry :=
  held.frame (pruned.entries held.holds)
    fun _ other _ occupied => ⟨other, pruned.entries occupied, rfl⟩

theorem Pruned.hasRoom
    {now : Int} {c after : Cache cacheDefaultSize}
    (pruned : Pruned now c after) {key : Bytes} (room : c.HasRoom key) :
    after.HasRoom key := by
  obtain ⟨slot, usable⟩ := room
  rcases pruned slot with same | ⟨_, _, _, empty⟩
  · rw [← same] at usable
    exact ⟨slot, usable⟩
  · exact ⟨slot, Or.inl empty⟩

theorem pruned_lookupQuestion
    (c : Cache cacheDefaultSize) (question : DnsQuestion) (now : Int) :
    Pruned now c (lookupQuestion c question now).2 := by
  rw [lookupQuestion]
  rcases cacheLookup_cases c question.qname question.qtype
      question.qclass now with
    ⟨_, result⟩ | ⟨pass, entry, held, expired, result⟩ |
    ⟨_, _, _, _, result⟩
  · rw [result]
    exact .refl now c
  · rw [result]
    intro slot
    by_cases here : slot = c.slotOf (questionKey question) pass
    · refine Or.inr ⟨entry, ?_, expired, ?_⟩
      · rw [here]
        exact held.holds
      · rw [here]
        exact Function.update_self _ _ _
    · exact Or.inl (Function.update_of_ne here _ _)
  · rw [result]
    exact .refl now c

/-- A hit leaves the cache as it was. -/
theorem lookupQuestion_of_hit
    {c : Cache cacheDefaultSize} {question : DnsQuestion} {now : Int}
    {raw : Bytes}
    (hit : (lookupQuestion c question now).1 = some raw) :
    (lookupQuestion c question now).2 = c := by
  rw [lookupQuestion] at hit ⊢
  rcases cacheLookup_cases c question.qname question.qtype
      question.qclass now with
    ⟨_, result⟩ | ⟨_, _, _, _, result⟩ | ⟨_, _, _, _, result⟩
  · rw [result]
  · rw [result] at hit
    cases hit
  · rw [result]

theorem exists_holds_of_hit
    {c : Cache cacheDefaultSize} {question : DnsQuestion} {now : Int}
    {raw : Bytes}
    (hit : (lookupQuestion c question now).1 = some raw) :
    ∃ pass entry, c.Holds (questionKey question) pass entry ∧
      now ≤ entry.expiry ∧ entry.data = raw := by
  unfold lookupQuestion at hit
  rcases cacheLookup_cases c question.qname question.qtype
      question.qclass now with
    ⟨_, result⟩ | ⟨_, _, _, _, result⟩ | ⟨pass, entry, held, fresh, result⟩
  · rw [result] at hit
    cases hit
  · rw [result] at hit
    cases hit
  · rw [result] at hit
    cases hit
    exact ⟨pass, entry, held, fresh, rfl⟩

theorem lookupQuestion_of_holds
    {c : Cache cacheDefaultSize} {question : DnsQuestion} {now : Int}
    {pass : Nat} {entry : CacheEntry}
    (held : c.Holds (questionKey question) pass entry)
    (fresh : now ≤ entry.expiry) :
    lookupQuestion c question now = (some entry.data, c) :=
  cacheLookup_of_holds held fresh

/-! ## One step -/

theorem checkCache_eq_some
    {env : Env} {question : DnsQuestion} {w after : World} {a : Answer}
    (hit : checkCache env question w = (some a, after)) :
    (lookupQuestion w.cache question (env.time w.ticks)).1 = some a.raw ∧
      after.cache = w.cache ∧ a.question = question ∧
        a.source = .cached ∧ dnsParseMessage a.raw = .ok a.message := by
  unfold checkCache at hit
  simp only at hit
  split at hit
  · cases hit
  · rename_i raw found
    split at hit
    · cases hit
    · rename_i message parsed
      cases hit
      exact ⟨found, lookupQuestion_of_hit found, rfl, rfl, parsed⟩

section StandingClock

variable {env : Env} {now : Int}

theorem checkCache_of_hit
    (constant : ∀ tick, env.time tick = now)
    {question : DnsQuestion} {w after : World} {a : Answer}
    (hit : checkCache env question w = (some a, after)) :
    (lookupQuestion w.cache question now).1 = some a.raw ∧
      after.cache = w.cache ∧ a.question = question ∧
        a.source = .cached ∧ dnsParseMessage a.raw = .ok a.message := by
  have facts := checkCache_eq_some hit
  rw [constant] at facts
  exact facts

theorem checkCache_cache
    (constant : ∀ tick, env.time tick = now)
    {question : DnsQuestion} {w after : World} {found : Option Answer}
    (checked : checkCache env question w = (found, after)) :
    after.cache = (lookupQuestion w.cache question now).2 := by
  rw [cache_of_checkCache checked, constant]
  rfl

theorem pruned_checkCache
    (constant : ∀ tick, env.time tick = now)
    {question : DnsQuestion} {w after : World} {found : Option Answer}
    (checked : checkCache env question w = (found, after)) :
    Pruned now w.cache after.cache := by
  rw [checkCache_cache constant checked]
  exact pruned_lookupQuestion w.cache question now

theorem leaves_storeReply
    (constant : ∀ tick, env.time tick = now)
    {question : DnsQuestion} {reply : Option Bytes} {raw : Bytes}
    {resp : DnsMessage} (usable : usableReply reply = some (raw, resp))
    {ttl : UInt32} (lifetime : ttl = forwardedTtl resp) (w : World) :
    (Outcome.answer (storeReply env question raw resp ttl w).1).Leaves now
      w.cache (storeReply env question raw resp ttl w).2.cache := by
  obtain ⟨_, _, parsed⟩ := usableReply_eq_some usable
  refine ⟨parsed, .refl now w.cache, ?_⟩
  rw [StoredLast, storeReply]
  rw [lifetime, constant]

theorem Outcome.Leaves.of_pruned
    {c middle after : Cache cacheDefaultSize} {outcome : Outcome}
    (leaves : outcome.Leaves now middle after)
    (pruned : Pruned now c middle) :
    outcome.Leaves now c after := by
  cases outcome with
  | answer a =>
      refine ⟨leaves.1, ?_⟩
      have found := leaves.2
      cases source : a.source with
      | cached =>
          simp only [source] at found
          exact ⟨pruned.trans found.1, found.2⟩
      | received before =>
          simp only [source] at found
          exact ⟨pruned.trans found.1, found.2⟩
  | nxDomain a => exact trivial
  | failed => exact pruned.trans leaves
  | tooDeep => exact pruned.trans leaves
  | hung => exact pruned.trans leaves

theorem leaves_passedOn
    {c after : Cache cacheDefaultSize} {outcome : Outcome}
    (leaves : outcome.Leaves now c after) :
    (passedOn outcome).Leaves now c after := by
  cases outcome with
  | nxDomain a => exact trivial
  | answer a => exact leaves
  | failed => exact leaves
  | tooDeep => exact leaves
  | hung => exact leaves

theorem pruned_of_notSettled
    {c after : Cache cacheDefaultSize} {outcome : Outcome}
    (leaves : outcome.Leaves now c after) (vain : ¬ outcome.Settled) :
    Pruned now c after := by
  cases outcome with
  | answer a => exact absurd trivial vain
  | nxDomain a => exact absurd trivial vain
  | hung => exact absurd trivial vain
  | failed => exact leaves
  | tooDeep => exact leaves

/-! ## Whole resolutions -/

theorem Resolves.leaves
    (constant : ∀ tick, env.time tick = now)
    {cfg : ResolverConfig} {stage : Stage} {question : DnsQuestion}
    {nsList : List NsRecord} {w after : World} {outcome : Outcome}
    (run : Resolves env cfg stage question nsList w outcome after) :
    outcome.Leaves now w.cache after.cache := by
  induction run with
  | tooDeep => exact .refl now _
  | @cached levels question nsList w a after hit =>
      obtain ⟨found, same, isQuestion, isCached, parsed⟩ :=
        checkCache_of_hit constant hit
      refine ⟨parsed, ?_⟩
      rw [isCached, same, isQuestion]
      exact ⟨.refl now _, found⟩
  | notAsked miss ending cache _ =>
      have pruned := pruned_checkCache constant miss
      rw [← cache] at pruned
      rcases ending with rfl | rfl
      · exact pruned
      · exact pruned
  | @forwarded levels question nsList w missed reply asked miss ask =>
      have pruned := pruned_checkCache constant miss
      rw [← ask.cache] at pruned
      rw [acceptForwarded]
      cases usable : usableReply reply with
      | none => exact pruned
      | some accepted =>
          exact
            (leaves_storeReply constant usable rfl asked).of_pruned pruned
  | iterated miss _ inductionHypothesis =>
      exact inductionHypothesis.of_pruned (pruned_checkCache constant miss)
  | exhausted => exact .refl now _
  | passedOver ask _ inductionHypothesis =>
      rw [ask.cache] at inductionHypothesis
      exact inductionHypothesis
  | aliased ask _ _ _ _ inductionHypothesis =>
      have leaves := leaves_passedOn inductionHypothesis
      rw [← ask.cache]
      exact leaves
  | @answered levels ns left question nsList w reply asked raw resp first
      more ask usable answers =>
      have lifetime : first.ttl = forwardedTtl resp := by
        rw [forwardedTtl]
        rw [answers]
      rw [← ask.cache]
      exact leaves_storeReply constant usable lifetime asked
  | referred ask _ _ _ inductionHypothesis =>
      have leaves := leaves_passedOn inductionHypothesis
      rw [← ask.cache]
      exact leaves
  | referredInVain ask _ _ vain _ below rest =>
      have pruned := pruned_of_notSettled below vain
      rw [← ask.cache]
      exact rest.of_pruned pruned
  | nameError _ _ _ => exact trivial

end StandingClock

end DnsFirewall
