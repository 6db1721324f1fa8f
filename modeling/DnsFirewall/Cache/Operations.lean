import DnsFirewall.Cache.Model

/-!
# What the cache operations do

An entry is held when the search for its key ends at it.  A lookup answers
from a held unexpired entry, removes a held expired one and leaves the cache
alone otherwise; a store makes its entry held whenever the search ends at all.
-/

namespace DnsFirewall

open CString LinearProbing

variable {capacity : Nat} [NeZero capacity]

namespace Cache

/-- The search for `key` ends at `entry` in the given pass. -/
def Holds (c : Cache capacity) (key : Bytes) (pass : Nat)
    (entry : CacheEntry) : Prop :=
  Reaches CacheEntry.key c.entries (homeSlot capacity key) key pass entry

/-- The table has an unused slot or holds the key. -/
def HasRoom (c : Cache capacity) (key : Bytes) : Prop :=
  ∃ slot, c.entries slot = none ∨
    ∃ entry, c.entries slot = some entry ∧ entry.key = key

theorem find_eq_none_iff {c : Cache capacity} {key : Bytes} :
    c.find key = none ↔ ¬ c.HasRoom key := by
  rw [find, HasRoom]
  rw [probe_eq_none_iff]
  constructor
  · intro full given
    obtain ⟨slot, empty | ⟨entry, occupied, isKey⟩⟩ := given
    · obtain ⟨entry, occupied, _⟩ := full slot
      rw [empty] at occupied
      cases occupied
    · obtain ⟨other, same, different⟩ := full slot
      rw [occupied] at same
      cases same
      exact different isKey
  · intro noRoom slot
    cases occupied : c.entries slot with
    | none => exact absurd ⟨slot, Or.inl occupied⟩ noRoom
    | some entry =>
        refine ⟨entry, rfl, ?_⟩
        intro isKey
        exact noRoom ⟨slot, Or.inr ⟨entry, occupied, isKey⟩⟩

theorem exists_find_of_hasRoom
    {c : Cache capacity} {key : Bytes} (room : c.HasRoom key) :
    ∃ pass, c.find key = some pass := by
  cases found : c.find key with
  | none => exact absurd room (find_eq_none_iff.mp found)
  | some pass => exact ⟨pass, rfl⟩

theorem hasRoom_of_find
    {c : Cache capacity} {key : Bytes} {pass : Nat}
    (found : c.find key = some pass) : c.HasRoom key := by
  by_contra full
  rw [find_eq_none_iff.mpr full] at found
  cases found

theorem Holds.unique
    {c : Cache capacity} {key : Bytes} {first second : Nat}
    {entry other : CacheEntry}
    (held : c.Holds key first entry) (alsoHeld : c.Holds key second other) :
    first = second ∧ entry = other := by
  have samePass : first = second := by
    have found := held.probe_eq
    rw [alsoHeld.probe_eq] at found
    exact (Option.some.inj found).symm
  subst samePass
  have sameEntry := held.holds
  rw [alsoHeld.holds] at sameEntry
  exact ⟨rfl, (Option.some.inj sameEntry).symm⟩

end Cache

/-! ## Lookup -/

theorem cacheLookup_of_holds
    {c : Cache capacity} {name : Bytes} {type rrclass : UInt16}
    {pass : Nat} {entry : CacheEntry} {now : Int}
    (held : c.Holds (buildKey name type rrclass) pass entry)
    (fresh : now ≤ entry.expiry) :
    cacheLookup c name type rrclass now = (some entry.data, c) := by
  have found : c.find (buildKey name type rrclass) = some pass :=
    held.probe_eq
  have occupied :
      c.entries (c.slotOf (buildKey name type rrclass) pass) =
        some entry :=
    held.holds
  rw [cacheLookup]
  simp only [found, occupied]
  rw [if_neg (Int.not_lt.mpr fresh)]

def Cache.remove (c : Cache capacity) (key : Bytes) (pass : Nat) :
    Cache capacity :=
  { entries := Function.update c.entries (c.slotOf key pass) none
    count := c.count - 1 }

theorem cacheLookup_of_expired
    {c : Cache capacity} {name : Bytes} {type rrclass : UInt16}
    {pass : Nat} {entry : CacheEntry} {now : Int}
    (held : c.Holds (buildKey name type rrclass) pass entry)
    (expired : entry.expiry < now) :
    cacheLookup c name type rrclass now =
      (none, c.remove (buildKey name type rrclass) pass) := by
  have found : c.find (buildKey name type rrclass) = some pass :=
    held.probe_eq
  have occupied :
      c.entries (c.slotOf (buildKey name type rrclass) pass) =
        some entry :=
    held.holds
  rw [cacheLookup]
  simp only [found, occupied]
  rw [if_pos expired]
  rfl

theorem cacheLookup_of_not_held
    {c : Cache capacity} {name : Bytes} {type rrclass : UInt16}
    {now : Int}
    (absent :
      ∀ pass entry, ¬ c.Holds (buildKey name type rrclass) pass entry) :
    cacheLookup c name type rrclass now = (none, c) := by
  rw [cacheLookup]
  cases found : c.find (buildKey name type rrclass) with
  | none => rfl
  | some pass =>
      cases occupied :
          c.entries (c.slotOf (buildKey name type rrclass) pass) with
      | none => simp only [occupied]
      | some entry =>
          exact absurd (Reaches.of_probe found occupied)
            (absent pass entry)

theorem cacheLookup_cases
    (c : Cache capacity) (name : Bytes) (type rrclass : UInt16)
    (now : Int) :
    ((∀ pass entry, ¬ c.Holds (buildKey name type rrclass) pass entry) ∧
        cacheLookup c name type rrclass now = (none, c)) ∨
      (∃ pass entry,
        c.Holds (buildKey name type rrclass) pass entry ∧
          entry.expiry < now ∧
            cacheLookup c name type rrclass now =
              (none, c.remove (buildKey name type rrclass) pass)) ∨
      ∃ pass entry,
        c.Holds (buildKey name type rrclass) pass entry ∧
          now ≤ entry.expiry ∧
            cacheLookup c name type rrclass now = (some entry.data, c) := by
  by_cases held :
      ∃ pass entry, c.Holds (buildKey name type rrclass) pass entry
  · obtain ⟨pass, entry, holds⟩ := held
    by_cases expired : entry.expiry < now
    · exact Or.inr (Or.inl ⟨pass, entry, holds, expired,
        cacheLookup_of_expired holds expired⟩)
    · exact Or.inr (Or.inr ⟨pass, entry, holds, Int.not_lt.mp expired,
        cacheLookup_of_holds holds (Int.not_lt.mp expired)⟩)
  · have absent :
        ∀ pass entry,
          ¬ c.Holds (buildKey name type rrclass) pass entry :=
      fun pass entry holds => held ⟨pass, entry, holds⟩
    exact Or.inl ⟨absent, cacheLookup_of_not_held absent⟩

theorem Cache.remove_entries
    (c : Cache capacity) (key : Bytes) (pass : Nat) :
    (c.remove key pass).entries =
      Function.update c.entries (c.slotOf key pass) none :=
  rfl

theorem entries_of_cacheLookup
    {c : Cache capacity} {name : Bytes} {type rrclass : UInt16}
    {now : Int} {slot : Fin capacity} {entry : CacheEntry}
    (occupied :
      (cacheLookup c name type rrclass now).2.entries slot = some entry) :
    c.entries slot = some entry := by
  rcases cacheLookup_cases c name type rrclass now with
    ⟨_, result⟩ | ⟨pass, old, _, _, result⟩ | ⟨_, _, _, _, result⟩
  · rw [result] at occupied
    exact occupied
  · rw [result, Cache.remove_entries] at occupied
    by_cases here : slot = c.slotOf (buildKey name type rrclass) pass
    · rw [here, Function.update_self] at occupied
      cases occupied
    · rw [Function.update_of_ne here] at occupied
      exact occupied
  · rw [result] at occupied
    exact occupied

/-! ## Store -/

theorem cacheStore_of_full
    {c : Cache capacity} {name : Bytes} {type rrclass : UInt16}
    {data : Bytes} {ttl : UInt32} {now : Int}
    (full : ¬ c.HasRoom (buildKey name type rrclass)) :
    cacheStore c name type rrclass data ttl now = c := by
  have notFound := Cache.find_eq_none_iff.mpr full
  rw [cacheStore]
  simp only [notFound, ite_self]

theorem cacheStore_of_ttl_zero
    {c : Cache capacity} {name : Bytes} {type rrclass : UInt16}
    {data : Bytes} {now : Int} :
    cacheStore c name type rrclass data 0 now = c :=
  if_pos rfl

/-- A store with a lifetime writes the slot at which the search ends. -/
theorem cacheStore_entries
    {c : Cache capacity} {name : Bytes} {type rrclass : UInt16}
    {data : Bytes} {ttl : UInt32} {now : Int} {pass : Nat}
    (lives : ttl ≠ 0)
    (found : c.find (buildKey name type rrclass) = some pass) :
    (cacheStore c name type rrclass data ttl now).entries =
      Function.update c.entries
        (c.slotOf (buildKey name type rrclass) pass)
        (some ⟨buildKey name type rrclass, data, now + ttl.toNat⟩) := by
  rw [cacheStore]
  rw [if_neg lives]
  simp only [found]
  cases c.entries (c.slotOf (buildKey name type rrclass) pass) with
  | none => rfl
  | some entry => rfl

/-- A store adds nothing but its entry, and that only with a lifetime and
room. -/
theorem entries_of_cacheStore
    {c : Cache capacity} {name : Bytes} {type rrclass : UInt16}
    {data : Bytes} {ttl : UInt32} {now : Int} {slot : Fin capacity}
    {entry : CacheEntry}
    (occupied :
      (cacheStore c name type rrclass data ttl now).entries slot =
        some entry) :
    c.entries slot = some entry ∨
      (ttl ≠ 0 ∧ c.HasRoom (buildKey name type rrclass) ∧
        entry =
          ⟨buildKey name type rrclass, data, now + ttl.toNat⟩) := by
  by_cases lives : ttl = 0
  · rw [lives, cacheStore_of_ttl_zero] at occupied
    exact Or.inl occupied
  by_cases room : c.HasRoom (buildKey name type rrclass)
  · obtain ⟨pass, found⟩ := Cache.exists_find_of_hasRoom room
    rw [cacheStore_entries lives found] at occupied
    by_cases here : slot = c.slotOf (buildKey name type rrclass) pass
    · rw [here, Function.update_self] at occupied
      cases occupied
      exact Or.inr ⟨lives, room, rfl⟩
    · rw [Function.update_of_ne here] at occupied
      exact Or.inl occupied
  · rw [cacheStore_of_full room] at occupied
    exact Or.inl occupied

theorem cacheStore_holds
    {c : Cache capacity} {name : Bytes} {type rrclass : UInt16}
    {data : Bytes} {ttl : UInt32} {now : Int} {pass : Nat}
    (lives : ttl ≠ 0)
    (found : c.find (buildKey name type rrclass) = some pass) :
    (cacheStore c name type rrclass data ttl now).Holds
      (buildKey name type rrclass) pass
      ⟨buildKey name type rrclass, data, now + ttl.toNat⟩ := by
  obtain ⟨inRound, _, crowded⟩ := probe_eq_some_iff.mp found
  have entries :
      (cacheStore c name type rrclass data ttl now).entries =
        Function.update c.entries
          (c.slotOf (buildKey name type rrclass) pass)
          (some ⟨buildKey name type rrclass, data, now + ttl.toNat⟩) :=
    cacheStore_entries lives found
  refine ⟨inRound, ?_, rfl, ?_⟩
  · rw [entries]
    exact Function.update_self _ _ _
  · intro earlier before
    obtain ⟨entry, occupied, different⟩ := crowded earlier before
    refine ⟨entry, ?_, different⟩
    have elsewhere :
        slotAt (homeSlot capacity (buildKey name type rrclass)) earlier ≠
          c.slotOf (buildKey name type rrclass) pass := by
      intro same
      have equal :=
        slotAt_injective (by omega) inRound same
      omega
    rw [entries, Function.update_of_ne elsewhere, occupied]

/-- After a store for another key the search ends at an entry if the slots
before it hold other keys or are the one that was written. -/
theorem holds_cacheStore_iff
    {c : Cache capacity} {name : Bytes} {type rrclass : UInt16}
    {data : Bytes} {ttl : UInt32} {now : Int} {stop pass : Nat}
    {key : Bytes} {entry : CacheEntry} (lives : ttl ≠ 0)
    (found : c.find (buildKey name type rrclass) = some stop)
    (otherKey : buildKey name type rrclass ≠ key) :
    (cacheStore c name type rrclass data ttl now).Holds key pass entry ↔
      pass < capacity ∧
        c.entries (c.slotOf key pass) = some entry ∧ entry.key = key ∧
          ∀ earlier, earlier < pass →
            c.slotOf key earlier =
                c.slotOf (buildKey name type rrclass) stop ∨
              ∃ other, c.entries (c.slotOf key earlier) = some other ∧
                other.key ≠ key := by
  have newKey :
      (⟨buildKey name type rrclass, data, now + ttl.toNat⟩ :
        CacheEntry).key ≠ key :=
    otherKey
  rw [Cache.Holds, cacheStore_entries lives found, Reaches.update_iff newKey]
  constructor
  · intro given
    exact ⟨given.1, given.2.2⟩
  · intro given
    obtain ⟨inRound, occupied, isKey, passed⟩ := given
    refine ⟨inRound, ?_, occupied, isKey, passed⟩
    -- The slot of the store is empty or of its own key.
    intro same
    have occupiedStop :
        c.entries (c.slotOf (buildKey name type rrclass) stop) =
          some entry := by
      rw [← same]
      exact occupied
    have ownKey := (Reaches.of_probe found occupiedStop).isKey
    exact otherKey (by rw [← ownKey]; exact isKey)

/-- A store leaves the entries of other keys held. -/
theorem Cache.Holds.store
    {c : Cache capacity} {key : Bytes} {pass : Nat} {entry : CacheEntry}
    {name : Bytes} {type rrclass : UInt16} {data : Bytes}
    {ttl : UInt32} {now : Int}
    (held : c.Holds key pass entry)
    (otherKey : buildKey name type rrclass ≠ key) :
    (cacheStore c name type rrclass data ttl now).Holds key pass entry := by
  by_cases lives : ttl = 0
  · rw [lives, cacheStore_of_ttl_zero]
    exact held
  cases found : c.find (buildKey name type rrclass) with
  | none =>
      rw [cacheStore_of_full (Cache.find_eq_none_iff.mp found)]
      exact held
  | some stop =>
      rw [Cache.Holds]
      rw [cacheStore_entries lives found]
      cases occupied :
          c.entries (c.slotOf (buildKey name type rrclass) stop) with
      | none => exact Reaches.fill _ held occupied
      | some old =>
          have isKey : old.key = buildKey name type rrclass :=
            (Reaches.of_probe found occupied).isKey
          exact Reaches.overwrite held occupied isKey.symm
            (by rw [isKey]; exact otherKey)

end DnsFirewall
