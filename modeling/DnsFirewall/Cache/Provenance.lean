import DnsFirewall.Cache.Retention
import DnsFirewall.Foundations.Decimal

/-!
# Where cached data comes from

The textual key of a question determines its name, type and class as long as
`snprintf` does not cut it off, whatever separators and digits the name itself
contains.  So a hit goes back to a store of the very question.
-/

namespace DnsFirewall

open CString Runs

/-- A name as a C string in an array of `DNS_MAX_NAME_LEN + 1` characters. -/
structure IsName (name : Bytes) : Prop where
  short : name.length ≤ 255
  noNul : ∀ character, character ∈ name → character ≠ 0

instance (name : Bytes) : Decidable (IsName name) :=
  decidable_of_iff
    (name.length ≤ 255 ∧ 0 ∉ name)
    ⟨fun both =>
      ⟨both.1, fun _ member => ne_of_mem_of_not_mem member both.2⟩,
      fun named => ⟨named.short, fun member => named.noNul 0 member rfl⟩⟩

/-- The key before it is copied to the buffer. -/
def keyText (name : Bytes) (type rrclass : UInt16) : Bytes :=
  name ++ 58 :: (decimal type.toNat ++ 58 :: decimal rrclass.toNat)

theorem colon_not_mem_decimal (value : Nat) : 58 ∉ decimal value :=
  fun member => not_isDigit_colon (isDigit_of_mem_decimal member)

theorem keyText_injective
    {name other : Bytes} {type rrclass otherType otherClass : UInt16}
    (same : keyText name type rrclass = keyText other otherType otherClass) :
    name = other ∧ type = otherType ∧ rrclass = otherClass := by
  -- taken apart from the end, where the separators are the only colons
  unfold keyText at same
  rw [← List.cons_append, ← List.append_assoc, ← List.cons_append,
    ← List.append_assoc] at same
  obtain ⟨front, sameClass⟩ :=
    append_separator_inj (colon_not_mem_decimal _) (colon_not_mem_decimal _)
      same
  obtain ⟨sameName, sameType⟩ :=
    append_separator_inj (colon_not_mem_decimal _) (colon_not_mem_decimal _)
      front
  exact
    ⟨sameName, UInt16.toNat_inj.mp (decimal_injective sameType),
      UInt16.toNat_inj.mp (decimal_injective sameClass)⟩

theorem decimal_word16_length_le (value : UInt16) :
    (decimal value.toNat).length ≤ 5 := by
  have bound := value.toNat_lt
  exact decimal_length_le (by omega) (by omega)

/-- The buffer of 512 bytes is long enough for every question. -/
theorem buildKey_of_isName
    {name : Bytes} (named : IsName name) (type rrclass : UInt16) :
    buildKey name type rrclass = keyText name type rrclass := by
  have short := named.short
  have typeLength := decimal_word16_length_le type
  have classLength := decimal_word16_length_le rrclass
  rw [buildKey]
  rw [content_eq_self named.noNul]
  apply boundedCopy_eq_self
  simp only [List.length_append, List.length_cons]
  omega

theorem buildKey_injective
    {name other : Bytes} {type rrclass otherType otherClass : UInt16}
    (named : IsName name) (otherNamed : IsName other)
    (same :
      buildKey name type rrclass = buildKey other otherType otherClass) :
    name = other ∧ type = otherType ∧ rrclass = otherClass := by
  rw [buildKey_of_isName named, buildKey_of_isName otherNamed] at same
  exact keyText_injective same

/-! ## Runs -/

/-- The names of the call are names. -/
def CacheCall.Named (call : CacheCall) : Prop :=
  match call.op with
  | .store name _ _ _ _ => IsName name
  | .lookup name _ _ => IsName name
  | .cleanExpired => True

/-- The entry was written by one of the calls. -/
def WrittenBy (calls : List CacheCall) (entry : CacheEntry) : Prop :=
  ∃ (stored : Int) (name : Bytes) (type rrclass : UInt16) (data : Bytes)
    (ttl : UInt32),
    ⟨stored, .store name type rrclass data ttl⟩ ∈ calls ∧ ttl ≠ 0 ∧
      entry = ⟨buildKey name type rrclass, data, stored + ttl.toNat⟩

variable {capacity : Nat} [NeZero capacity]

omit [NeZero capacity] in
theorem entries_of_cacheCleanExpired
    {c : Cache capacity} {now : Int} {slot : Fin capacity}
    {entry : CacheEntry}
    (occupied : (cacheCleanExpired c now).entries slot = some entry) :
    c.entries slot = some entry := by
  unfold cacheCleanExpired at occupied
  simp only at occupied
  cases held : c.entries slot with
  | none =>
      rw [held] at occupied
      cases occupied
  | some old =>
      rw [held, keepUnexpired] at occupied
      split at occupied
      · cases occupied
      · exact occupied

/-- A call adds nothing but what it stores. -/
theorem entries_of_cacheCall
    {c : Cache capacity} {call : CacheCall} {slot : Fin capacity}
    {entry : CacheEntry}
    (occupied : (cacheCall c call).entries slot = some entry) :
    c.entries slot = some entry ∨ WrittenBy [call] entry := by
  obtain ⟨time, op⟩ := call
  cases op with
  | store name type rrclass data ttl =>
      rcases entries_of_cacheStore occupied with old | ⟨lives, _, isNew⟩
      · exact Or.inl old
      · exact
          Or.inr
            ⟨time, name, type, rrclass, data, ttl,
              List.mem_singleton.mpr rfl, lives, isNew⟩
  | lookup name type rrclass => exact Or.inl (entries_of_cacheLookup occupied)
  | cleanExpired => exact Or.inl (entries_of_cacheCleanExpired occupied)

theorem WrittenBy.mono
    {part all : List CacheCall} {entry : CacheEntry}
    (written : WrittenBy part entry)
    (within : ∀ call, call ∈ part → call ∈ all) : WrittenBy all entry := by
  obtain ⟨stored, name, type, rrclass, data, ttl, member, rest⟩ := written
  exact ⟨stored, name, type, rrclass, data, ttl, within _ member, rest⟩

theorem writtenBy_run
    (calls : List CacheCall) {slot : Fin capacity} {entry : CacheEntry}
    (occupied :
      (run cacheCall (cacheCreate capacity) calls).entries slot =
        some entry) :
    WrittenBy calls entry := by
  have step :
      ∀ (c : Cache capacity) (call : CacheCall),
        (∀ slot entry, c.entries slot = some entry →
            WrittenBy calls entry) →
          call ∈ calls →
            ∀ slot entry, (cacheCall c call).entries slot = some entry →
              WrittenBy calls entry := by
    intro c call written member slot entry occupied
    rcases entries_of_cacheCall occupied with old | new
    · exact written slot entry old
    · apply new.mono
      intro other single
      rw [List.mem_singleton.mp single]
      exact member
  have along :
      Along cacheCall (fun _ call => call ∈ calls) (cacheCreate capacity)
        calls := by
    intro before call after shape
    rw [shape]
    exact List.mem_append_right _ List.mem_cons_self
  exact
    invariant_run
      (fun c : Cache capacity =>
        ∀ slot entry, c.entries slot = some entry → WrittenBy calls entry)
      step (fun _ _ empty => by cases empty) along slot entry occupied

/-- A hit returns what a call has stored under the very name, type and class,
within the lifetime given there. -/
theorem cacheLookup_returns_stored
    (history : List CacheCall)
    (named : ∀ call, call ∈ history → call.Named) {name : Bytes}
    (isName : IsName name) (type rrclass : UInt16) (now : Int) (data : Bytes)
    (hit :
      (cacheLookup (run cacheCall (cacheCreate capacity) history) name type
        rrclass now).1 = some data) :
    ∃ (stored : Int) (ttl : UInt32),
      ⟨stored, .store name type rrclass data ttl⟩ ∈ history ∧ 0 < ttl ∧
        now ≤ stored + ttl.toNat := by
  rcases cacheLookup_cases (run cacheCall (cacheCreate capacity) history)
      name type rrclass now with
    ⟨_, result⟩ | ⟨_, _, _, _, result⟩ | ⟨pass, entry, held, fresh, result⟩
  · rw [result] at hit
    cases hit
  · rw [result] at hit
    cases hit
  · rw [result] at hit
    obtain ⟨stored, other, otherType, otherClass, otherData, ttl, member,
      lives, isEntry⟩ := writtenBy_run history held.holds
    have sameKey := held.isKey
    rw [isEntry] at hit fresh sameKey
    have otherNamed : IsName other := named _ member
    obtain ⟨rfl, rfl, rfl⟩ := buildKey_injective otherNamed isName sameKey
    cases hit
    exact ⟨stored, ttl, member, UInt32.pos_iff_ne_zero.mpr lives, fresh⟩

/-- The name `a:1`. -/
def nameWithColon : Bytes := [97, 58, 49]

def storeWithColon : CacheCall := ⟨0, .store nameWithColon 1 1 [7] 60⟩

theorem cacheLookup_returns_stored_colon :
    ∃ (stored : Int) (ttl : UInt32),
      CacheCall.mk stored (.store nameWithColon 1 1 [7] ttl) ∈
          [storeWithColon] ∧
        0 < ttl ∧ 30 ≤ stored + ttl.toNat := by
  have isName : IsName nameWithColon := by decide +kernel
  have named : ∀ call, call ∈ [storeWithColon] → call.Named := by
    intro call member
    rw [List.mem_singleton.mp member]
    exact isName
  exact
    @cacheLookup_returns_stored cacheDefaultSize _ _ named _ isName 1 1 30
      [7] (by decide +kernel)

end DnsFirewall
