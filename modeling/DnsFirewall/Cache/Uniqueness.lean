import DnsFirewall.Cache.Provenance

/-!
# One entry for a key

A store writes the first slot that is unused or holds its key.  As long as no
unused slot is in front of the entry of the key, that is its one entry, and a
hit returns what was stored last; behind a gap the old entry stays in the table
next to the new one.
-/

namespace DnsFirewall

open CString LinearProbing Runs

variable {capacity : Nat} [NeZero capacity]

/-- No two used slots hold the same key. -/
def Cache.Distinct (c : Cache capacity) : Prop :=
  ∀ first second entry other, c.entries first = some entry →
    c.entries second = some other → entry.key = other.key → first = second

/-- The cache with the entry that the most recent effective store of each key
has written. -/
structure TracedCache (capacity : Nat) where
  cache : Cache capacity
  latest : Bytes → Option CacheEntry

/-- The latest stores behind a call.  A store has an effect with a lifetime and
a slot at which its search ends. -/
def noteCall (c : Cache capacity) (latest : Bytes → Option CacheEntry)
    (call : CacheCall) : Bytes → Option CacheEntry :=
  match call.op with
  | .store name type rrclass data ttl =>
      let key := buildKey name type rrclass
      if ttl ≠ 0 ∧ (c.find key).isSome then
        Function.update latest key
          (some ⟨key, data, call.time + ttl.toNat⟩)
      else
        latest
  | .lookup _ _ _ => latest
  | .cleanExpired => latest

def tracedCall (t : TracedCache capacity) (call : CacheCall) :
    TracedCache capacity :=
  ⟨cacheCall t.cache call, noteCall t.cache t.latest call⟩

def tracedStart (capacity : Nat) : TracedCache capacity :=
  ⟨cacheCreate capacity, fun _ => none⟩

theorem cache_run_tracedCall
    (t : TracedCache capacity) (calls : List CacheCall) :
    (run tracedCall t calls).cache = run cacheCall t.cache calls :=
  view_run tracedCall TracedCache.cache (fun _ _ => rfl) calls t

/-- Every key is held once, and a hit returns what its most recent effective
store has stored. -/
structure TracedCache.Faithful (t : TracedCache capacity) : Prop where
  distinct : t.cache.Distinct
  hits :
    ∀ (name : Bytes) (type rrclass : UInt16) (now : Int) (data : Bytes),
      (cacheLookup t.cache name type rrclass now).1 = some data →
        ∃ entry, t.latest (buildKey name type rrclass) = some entry ∧
          entry.data = data

/-- The call stores a key for which the search ends at an unused slot though
another slot holds it. -/
def Duplicates (c : Cache capacity) (call : CacheCall) : Prop :=
  match call.op with
  | .store name type rrclass _ ttl =>
      ttl ≠ 0 ∧
        ∃ pass slot entry,
          c.find (buildKey name type rrclass) = some pass ∧
            c.entries (c.slotOf (buildKey name type rrclass) pass) = none ∧
              c.entries slot = some entry ∧
                entry.key = buildKey name type rrclass
  | .lookup _ _ _ => False
  | .cleanExpired => False

/-- Every entry is what was stored last under its key. -/
structure TracedCache.Current (t : TracedCache capacity) : Prop where
  distinct : t.cache.Distinct
  latest :
    ∀ slot entry, t.cache.entries slot = some entry →
      t.latest entry.key = some entry

theorem TracedCache.Current.faithful
    {t : TracedCache capacity} (current : t.Current) : t.Faithful := by
  refine ⟨current.distinct, ?_⟩
  intro name type rrclass now data hit
  rcases cacheLookup_cases t.cache name type rrclass now with
    ⟨_, result⟩ | ⟨_, _, _, _, result⟩ | ⟨pass, entry, held, _, result⟩
  · rw [result] at hit
    cases hit
  · rw [result] at hit
    cases hit
  · rw [result] at hit
    have last := current.latest _ entry held.holds
    have isKey : entry.key = buildKey name type rrclass := held.isKey
    rw [isKey] at last
    exact ⟨entry, last, Option.some.inj hit⟩

omit [NeZero capacity] in
theorem current_tracedStart : (tracedStart capacity).Current := by
  refine ⟨?_, ?_⟩
  · intro first second entry other occupied
    cases occupied
  · intro slot entry occupied
    cases occupied

/-! ## One call -/

omit [NeZero capacity] in
/-- A call that only removes entries keeps what it leaves. -/
theorem TracedCache.Current.of_entries
    {t : TracedCache capacity} (current : t.Current) {c : Cache capacity}
    (entries :
      ∀ slot entry, c.entries slot = some entry →
        t.cache.entries slot = some entry) :
    (TracedCache.mk c t.latest).Current := by
  refine ⟨?_, ?_⟩
  · intro first second entry other occupied alsoOccupied
    exact
      current.distinct first second entry other (entries _ _ occupied)
        (entries _ _ alsoOccupied)
  · intro slot entry occupied
    exact current.latest slot entry (entries _ _ occupied)

/-- Without duplication no other slot holds the key that is stored. -/
theorem otherKey_of_not_duplicates
    {c : Cache capacity} (distinct : c.Distinct) {time : Int} {name : Bytes}
    {type rrclass : UInt16} {data : Bytes} {ttl : UInt32} {pass : Nat}
    (lives : ttl ≠ 0)
    (found : c.find (buildKey name type rrclass) = some pass)
    (single : ¬ Duplicates c ⟨time, .store name type rrclass data ttl⟩)
    {slot : Fin capacity} {entry : CacheEntry}
    (occupied : c.entries slot = some entry)
    (elsewhere : slot ≠ c.slotOf (buildKey name type rrclass) pass) :
    entry.key ≠ buildKey name type rrclass := by
  intro isKey
  cases held :
      c.entries (c.slotOf (buildKey name type rrclass) pass) with
  | none =>
      exact single ⟨lives, pass, slot, entry, found, held, occupied, isKey⟩
  | some old =>
      have oldKey : old.key = buildKey name type rrclass :=
        (Reaches.of_probe found held).isKey
      exact
        elsewhere
          (distinct slot _ entry old occupied held (isKey.trans oldKey.symm))

/-- Without duplication an occupied slot is the one that was written, or an
old one of another key. -/
theorem written_or_otherKey
    {c : Cache capacity} (distinct : c.Distinct) {time : Int} {name : Bytes}
    {type rrclass : UInt16} {data : Bytes} {ttl : UInt32} {pass : Nat}
    (lives : ttl ≠ 0)
    (found : c.find (buildKey name type rrclass) = some pass)
    (single : ¬ Duplicates c ⟨time, .store name type rrclass data ttl⟩)
    {slot : Fin capacity} {entry : CacheEntry}
    (occupied :
      (cacheStore c name type rrclass data ttl time).entries slot =
        some entry) :
    (slot = c.slotOf (buildKey name type rrclass) pass ∧
        entry = ⟨buildKey name type rrclass, data, time + ttl.toNat⟩) ∨
      (c.entries slot = some entry ∧
        entry.key ≠ buildKey name type rrclass) := by
  have entries : (cacheStore c name type rrclass data ttl time).entries = _ :=
    cacheStore_entries lives found
  rw [entries] at occupied
  by_cases here : slot = c.slotOf (buildKey name type rrclass) pass
  · rw [here, Function.update_self] at occupied
    exact Or.inl ⟨here, (Option.some.inj occupied).symm⟩
  · rw [Function.update_of_ne here] at occupied
    exact
      Or.inr
        ⟨occupied,
          otherKey_of_not_duplicates distinct lives found single occupied
            here⟩

theorem distinct_cacheStore
    {c : Cache capacity} (distinct : c.Distinct) {time : Int} {name : Bytes}
    {type rrclass : UInt16} {data : Bytes} {ttl : UInt32} {pass : Nat}
    (lives : ttl ≠ 0)
    (found : c.find (buildKey name type rrclass) = some pass)
    (single : ¬ Duplicates c ⟨time, .store name type rrclass data ttl⟩) :
    (cacheStore c name type rrclass data ttl time).Distinct := by
  intro first second entry other occupied alsoOccupied sameKey
  rcases written_or_otherKey distinct lives found single occupied with
    ⟨isFirst, isEntry⟩ | ⟨old, otherKey⟩
  · rcases written_or_otherKey distinct lives found single alsoOccupied with
      ⟨isSecond, _⟩ | ⟨_, differs⟩
    · rw [isFirst, isSecond]
    · rw [isEntry] at sameKey
      exact absurd sameKey.symm differs
  · rcases written_or_otherKey distinct lives found single alsoOccupied with
      ⟨_, isOther⟩ | ⟨alsoOld, _⟩
    · rw [isOther] at sameKey
      exact absurd sameKey otherKey
    · exact distinct first second entry other old alsoOld sameKey

theorem current_store
    {t : TracedCache capacity} (current : t.Current) {time : Int}
    {name : Bytes} {type rrclass : UInt16} {data : Bytes} {ttl : UInt32}
    (single :
      ¬ Duplicates t.cache ⟨time, .store name type rrclass data ttl⟩) :
    (tracedCall t ⟨time, .store name type rrclass data ttl⟩).Current := by
  rw [tracedCall, noteCall, cacheCall]
  simp only
  by_cases lives : ttl = 0
  · rw [lives, cacheStore_of_ttl_zero, if_neg (fun both => both.1 rfl)]
    exact current
  cases found : t.cache.find (buildKey name type rrclass) with
  | none =>
      rw [cacheStore_of_full (Cache.find_eq_none_iff.mp found)]
      simp only [Option.isSome_none, Bool.false_eq_true, and_false, if_false]
      exact current
  | some pass =>
      rw [if_pos ⟨lives, rfl⟩]
      refine
        ⟨distinct_cacheStore current.distinct lives found single, ?_⟩
      intro slot entry occupied
      rcases
        written_or_otherKey current.distinct lives found single occupied with
        ⟨_, isEntry⟩ | ⟨old, otherKey⟩
      · rw [isEntry]
        exact Function.update_self _ _ _
      · simp only [Function.update_of_ne otherKey]
        exact current.latest slot entry old

theorem current_tracedCall
    {t : TracedCache capacity} {call : CacheCall} (current : t.Current)
    (single : ¬ Duplicates t.cache call) :
    (tracedCall t call).Current := by
  obtain ⟨time, op⟩ := call
  cases op with
  | store name type rrclass data ttl => exact current_store current single
  | lookup name type rrclass =>
      exact current.of_entries fun _ _ => entries_of_cacheLookup
  | cleanExpired =>
      exact current.of_entries fun _ _ => entries_of_cacheCleanExpired

/-- A duplicated key is in two slots at once. -/
theorem not_distinct_of_duplicates
    {c : Cache capacity} {call : CacheCall} (twice : Duplicates c call) :
    ¬ (cacheCall c call).Distinct := by
  obtain ⟨time, op⟩ := call
  cases op with
  | store name type rrclass data ttl =>
      obtain ⟨lives, pass, slot, entry, found, unused, occupied, isKey⟩ :=
        twice
      intro distinct
      have entries :
          (cacheCall c ⟨time, .store name type rrclass data ttl⟩).entries =
            _ :=
        cacheStore_entries lives found
      have different :
          slot ≠ c.slotOf (buildKey name type rrclass) pass := by
        intro same
        rw [same, unused] at occupied
        cases occupied
      apply different
      refine
        distinct slot (c.slotOf (buildKey name type rrclass) pass) entry
          ⟨buildKey name type rrclass, data, time + ttl.toNat⟩ ?_ ?_ isKey
      · rw [entries, Function.update_of_ne different]
        exact occupied
      · rw [entries]
        exact Function.update_self _ _ _
  | lookup name type rrclass => exact absurd twice id
  | cleanExpired => exact absurd twice id

/-! ## Runs -/

/-- In every state of a run each key is held once and a hit returns what was
stored last, exactly when no store of the run finds its key behind a gap. -/
theorem faithful_iff (history : List CacheCall) :
    (∀ before after, history = before ++ after →
        (run tracedCall (tracedStart capacity) before).Faithful) ↔
      Along tracedCall (fun t call => ¬ Duplicates t.cache call)
        (tracedStart capacity) history := by
  constructor
  · intro faithful before call after shape twice
    have next :=
      (faithful (before ++ [call]) after
        (by rw [shape, List.append_assoc]; rfl)).distinct
    rw [run_append] at next
    exact not_distinct_of_duplicates twice next
  · intro along before after shape
    exact
      (invariant_run TracedCache.Current
        (fun _ _ current single => current_tracedCall current single)
        current_tracedStart (along.beginning shape)).faithful

/-- At the size of the firewall's cache, for a store that is looked up after
it has expired. -/
theorem faithful_iff_expiring :
    let calls : List CacheCall :=
      [⟨0, .store nameEa 1 1 [1] 1⟩, ⟨5, .lookup nameEa 1 1⟩]
    (∀ before after, calls = before ++ after →
        (run tracedCall (tracedStart cacheDefaultSize) before).Faithful) ↔
      Along tracedCall (fun t call => ¬ Duplicates t.cache call)
        (tracedStart cacheDefaultSize) calls :=
  @faithful_iff cacheDefaultSize _ _

/-- Every key would be held once, and every hit would return what was stored
last. -/
def KeysStayUnique (capacity : Nat) [NeZero capacity] : Prop :=
  ∀ history : List CacheCall, Clocked (history.map CacheCall.time) →
    (run tracedCall (tracedStart capacity) history).Faithful

/-- The entry of `ea.` expires in front of that of `yu.`, which is then stored
a second time; when the new one has expired and `ea.` has filled the gap, the
old one is back. -/
def callsReviving : List CacheCall :=
  [⟨0, .store nameEa 1 1 [1] 1⟩, ⟨0, .store nameYu 1 1 [2] 100⟩,
    ⟨5, .lookup nameEa 1 1⟩, ⟨5, .store nameYu 1 1 [3] 1⟩,
    ⟨7, .lookup nameYu 1 1⟩, ⟨7, .store nameEa 1 1 [4] 100⟩]

theorem not_keysStayUnique_default : ¬ KeysStayUnique cacheDefaultSize := by
  intro unique
  have faithful :=
    unique callsReviving (by simp [Clocked, callsReviving])
  have hit :
      (cacheLookup
        (run tracedCall (tracedStart cacheDefaultSize) callsReviving).cache
        nameYu 1 1 7).1 = some [2] := by
    decide +kernel
  have latest :
      (run tracedCall (tracedStart cacheDefaultSize) callsReviving).latest
          (buildKey nameYu 1 1) =
        some ⟨buildKey nameYu 1 1, [3], 6⟩ := by
    decide +kernel
  obtain ⟨entry, isLatest, isData⟩ := faithful.hits nameYu 1 1 7 [2] hit
  rw [latest, Option.some.injEq] at isLatest
  rw [← isLatest] at isData
  exact absurd isData (by decide)

end DnsFirewall
