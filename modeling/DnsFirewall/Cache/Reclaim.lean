import DnsFirewall.Cache.Provenance
import DnsFirewall.Foundations.Occupancy

/-!
# Room in the cache

The firewall stores and looks up and never cleans up, so an expired entry keeps
its slot until its own key is asked for.  A store has an effect exactly when a
slot is unused or holds the key; expired entries of other keys do not make
room.
-/

namespace DnsFirewall

open CString LinearProbing Occupancy Runs

/-- The firewall calls `cache_store` and `cache_lookup` only. -/
def CacheCall.ByFirewall (call : CacheCall) : Prop :=
  match call.op with
  | .store _ _ _ _ _ => True
  | .lookup _ _ _ => True
  | .cleanExpired => False

variable {capacity : Nat}

def IsUnexpired (now : Int) (slot : Option CacheEntry) : Prop :=
  ∃ entry, slot = some entry ∧ now ≤ entry.expiry

instance (now : Int) (slot : Option CacheEntry) :
    Decidable (IsUnexpired now slot) :=
  match slot with
  | none => isFalse fun ⟨_, same, _⟩ => by cases same
  | some entry =>
      decidable_of_iff (now ≤ entry.expiry)
        ⟨fun fresh => ⟨entry, rfl, fresh⟩,
          fun ⟨_, same, fresh⟩ => by cases same; exact fresh⟩

/-- How many entries are not expired at the given time. -/
def Cache.unexpired (c : Cache capacity) (now : Int) : Nat :=
  (Finset.univ.filter fun slot => IsUnexpired now (c.entries slot)).card

theorem Cache.unexpired_le (c : Cache capacity) (now : Int) :
    c.unexpired now ≤ capacity := by
  have bound :=
    Finset.card_filter_le (Finset.univ : Finset (Fin capacity))
      fun slot => IsUnexpired now (c.entries slot)
  rw [Finset.card_fin] at bound
  exact bound

theorem Cache.unexpired_eq_zero
    {c : Cache capacity} {now : Int}
    (expired :
      ∀ slot entry, c.entries slot = some entry → entry.expiry < now) :
    c.unexpired now = 0 := by
  rw [Cache.unexpired]
  rw [Finset.card_eq_zero, Finset.filter_eq_empty_iff]
  intro slot _ given
  obtain ⟨entry, occupied, fresh⟩ := given
  exact absurd (expired slot entry occupied) (Int.not_lt.mpr fresh)

/-- The counter of the table is the number of its used slots. -/
def Cache.Counted (c : Cache capacity) : Prop :=
  c.count = (occupied c.entries).card

def Cache.HoldsKey (c : Cache capacity) (key : Bytes) : Prop :=
  ∃ slot entry, c.entries slot = some entry ∧ entry.key = key

theorem Cache.Counted.hasRoom_iff
    {c : Cache capacity} (counted : c.Counted) (key : Bytes) :
    c.HasRoom key ↔ c.count < capacity ∨ c.HoldsKey key := by
  unfold Cache.Counted at counted
  rw [counted, card_occupied_lt_iff]
  constructor
  · intro given
    obtain ⟨slot, unused | held⟩ := given
    · exact Or.inl ⟨slot, unused⟩
    · exact Or.inr ⟨slot, held⟩
  · intro given
    rcases given with ⟨slot, unused⟩ | ⟨slot, held⟩
    · exact ⟨slot, Or.inl unused⟩
    · exact ⟨slot, Or.inr held⟩

/-! ## The counter along a run -/

theorem counted_cacheCreate : (cacheCreate capacity).Counted := by
  rw [Cache.Counted, cacheCreate]
  rw [occupied_none]
  rfl

variable [NeZero capacity]

theorem counted_cacheStore
    {c : Cache capacity} (counted : c.Counted) (name : Bytes)
    (type rrclass : UInt16) (data : Bytes) (ttl : UInt32) (now : Int) :
    (cacheStore c name type rrclass data ttl now).Counted := by
  rw [Cache.Counted] at counted ⊢
  rw [cacheStore]
  by_cases lives : ttl = 0
  · rw [if_pos lives]
    exact counted
  rw [if_neg lives]
  cases found : c.find (buildKey name type rrclass) with
  | none =>
      simp only [found]
      exact counted
  | some pass =>
      cases held :
          c.entries (c.slotOf (buildKey name type rrclass) pass) with
      | none =>
          simp only [found, held]
          rw [card_occupied_fill _ held, counted]
      | some old =>
          simp only [found, held]
          rw [card_occupied_overwrite _ held, counted]

theorem counted_cacheLookup
    {c : Cache capacity} (counted : c.Counted) (name : Bytes)
    (type rrclass : UInt16) (now : Int) :
    (cacheLookup c name type rrclass now).2.Counted := by
  rcases cacheLookup_cases c name type rrclass now with
    ⟨_, result⟩ | ⟨pass, entry, held, _, result⟩ | ⟨_, _, _, _, result⟩
  · rw [result]
    exact counted
  · rw [result]
    have used :
        c.entries (c.slotOf (buildKey name type rrclass) pass) =
          some entry :=
      held.holds
    rw [Cache.Counted] at counted ⊢
    rw [Cache.remove_entries, card_occupied_empty used, ← counted]
    rfl
  · rw [result]
    exact counted

theorem counted_run
    {calls : List CacheCall}
    (byFirewall : ∀ call, call ∈ calls → call.ByFirewall) :
    (run cacheCall (cacheCreate capacity) calls).Counted := by
  have step :
      ∀ (c : Cache capacity) (call : CacheCall), c.Counted →
        call.ByFirewall → (cacheCall c call).Counted := by
    rintro c ⟨time, op⟩ counted allowed
    cases op with
    | store name type rrclass data ttl =>
        exact counted_cacheStore counted name type rrclass data ttl time
    | lookup name type rrclass =>
        exact counted_cacheLookup counted name type rrclass time
    | cleanExpired => exact absurd allowed id
  refine invariant_run Cache.Counted step counted_cacheCreate ?_
  intro before call after shape
  exact byFirewall call (by rw [shape]; simp)

/-! ## Stores with an effect -/

/-- A lookup right behind a store with a lifetime finds the data exactly when
the table has room for the key. -/
theorem cacheLookup_cacheStore_iff
    (c : Cache capacity) (name : Bytes) (type rrclass : UInt16)
    (data : Bytes) {ttl : UInt32} (now : Int) (lives : ttl ≠ 0) :
    (cacheLookup (cacheStore c name type rrclass data ttl now) name type
          rrclass now).1 = some data ↔
      c.HasRoom (buildKey name type rrclass) := by
  constructor
  · intro hit
    by_contra full
    have absent :
        ∀ pass entry, ¬ c.Holds (buildKey name type rrclass) pass entry := by
      intro pass entry held
      exact full ⟨_, Or.inr ⟨entry, held.holds, held.isKey⟩⟩
    rw [cacheStore_of_full full, cacheLookup_of_not_held absent] at hit
    cases hit
  · intro room
    obtain ⟨pass, found⟩ := Cache.exists_find_of_hasRoom room
    rw [cacheLookup_of_holds (cacheStore_holds lives found) (by simp)]

/-- In every state that the firewall's calls lead to, a store has an effect
whenever some slot holds no unexpired entry, exactly when some slot is unused,
the key is in the table or no entry is expired. -/
theorem store_effective_iff
    (history : List CacheCall)
    (byFirewall : ∀ call, call ∈ history → call.ByFirewall) (name : Bytes)
    (type rrclass : UInt16) (data : Bytes) (ttl : UInt32) (now : Int)
    (lives : 0 < ttl) :
    let c := run cacheCall (cacheCreate capacity) history
    (c.unexpired now < capacity →
        (cacheLookup (cacheStore c name type rrclass data ttl now) name type
          rrclass now).1 = some data) ↔
      c.count < capacity ∨ c.HoldsKey (buildKey name type rrclass) ∨
        c.unexpired now = capacity := by
  intro c
  have bound := c.unexpired_le now
  have counted : c.Counted := counted_run byFirewall
  rw [cacheLookup_cacheStore_iff c name type rrclass data now
      (UInt32.pos_iff_ne_zero.mp lives),
    counted.hasRoom_iff]
  constructor
  · intro effective
    by_cases all : c.unexpired now = capacity
    · exact Or.inr (Or.inr all)
    · rcases effective (by omega) with fewer | held
      · exact Or.inl fewer
      · exact Or.inr (Or.inl held)
  · rintro (fewer | held | all) some
    · exact Or.inl fewer
    · exact Or.inr held
    · omega

/-- The lookup of the expired `ea.` has made its slot unused again. -/
theorem store_effective_iff_lookupEa :
    let c := run cacheCall (cacheCreate cacheDefaultSize) [storeEa, lookupEa]
    c.count = 0 ∧
      ((c.unexpired 5 < cacheDefaultSize →
          (cacheLookup (cacheStore c nameYu 1 1 [2] 100 5) nameYu 1 1 5).1 =
            some [2]) ↔
        c.count < cacheDefaultSize ∨ c.HoldsKey (buildKey nameYu 1 1) ∨
          c.unexpired 5 = cacheDefaultSize) := by
  have byFirewall :
      ∀ call, call ∈ [storeEa, lookupEa] → call.ByFirewall := by
    intro call member
    simp only [List.mem_cons, List.not_mem_nil, or_false] at member
    rcases member with rfl | rfl
    · exact trivial
    · exact trivial
  exact
    ⟨by decide +kernel,
      @store_effective_iff cacheDefaultSize _ [storeEa, lookupEa] byFirewall
        nameYu 1 1 [2] 100 5 (by decide)⟩

/-! ## A table full of dead entries

As many names as there are slots, each stored for one second, leave a table in
which nothing is alive and nothing else can be stored. -/

/-- The name written as the given number and a dot. -/
def numberedName (number : Nat) : Bytes :=
  decimal number ++ [46]

def numberedKey (number : Nat) : Bytes :=
  buildKey (numberedName number) 1 1

def storesNumbered : Nat → List CacheCall
  | 0 => []
  | count + 1 =>
      storesNumbered count ++ [⟨0, .store (numberedName count) 1 1 [1] 1⟩]

theorem isName_numberedName {number : Nat} (small : number < 10 ^ 9) :
    IsName (numberedName number) := by
  have digits := decimal_length_le (by omega) small
  refine ⟨?_, ?_⟩
  · rw [numberedName]
    rw [List.length_append, List.length_singleton]
    omega
  · intro character member
    rcases List.mem_append.mp member with digit | dot
    · intro same
      subst same
      exact absurd (isDigit_of_mem_decimal digit) (by unfold IsDigit; decide)
    · rw [List.mem_singleton.mp dot]
      decide

theorem numberedKey_injective
    {first second : Nat} (small : first < 10 ^ 9)
    (alsoSmall : second < 10 ^ 9)
    (same : numberedKey first = numberedKey second) : first = second := by
  obtain ⟨sameName, _, _⟩ :=
    buildKey_injective (isName_numberedName small)
      (isName_numberedName alsoSmall) same
  exact decimal_injective (List.append_cancel_right sameName)

/-- After the first stores, so many slots hold entries, all of numbered keys
and all with the lifetime of one second. -/
structure FilledUpTo (c : Cache capacity) (count : Nat) : Prop where
  used : (occupied c.entries).card = count
  keys :
    ∀ slot entry, c.entries slot = some entry →
      entry.expiry = 1 ∧
        ∃ number, number < count ∧ entry.key = numberedKey number

omit [NeZero capacity] in
theorem FilledUpTo.absent
    {c : Cache capacity} {count : Nat} (filled : FilledUpTo c count)
    (small : count < 10 ^ 9) : ¬ c.HoldsKey (numberedKey count) := by
  intro given
  obtain ⟨slot, entry, occupied, isKey⟩ := given
  obtain ⟨_, number, below, alsoKey⟩ := filled.keys slot entry occupied
  have same :=
    numberedKey_injective (by omega) small (alsoKey.symm.trans isKey)
  omega

theorem filledUpTo_storesNumbered
    (small : capacity < 10 ^ 9) (count : Nat) (within : count ≤ capacity) :
    FilledUpTo
      (run cacheCall (cacheCreate capacity) (storesNumbered count))
      count := by
  induction count with
  | zero =>
      refine ⟨?_, ?_⟩
      · exact congrArg Finset.card occupied_none
      · intro slot entry occupied
        cases occupied
  | succ count inductionHypothesis =>
      have filled := inductionHypothesis (by omega)
      rw [storesNumbered, run_append, run_cons, run_nil]
      generalize run cacheCall (cacheCreate capacity) (storesNumbered count) =
        c at filled ⊢
      have absent := filled.absent (by omega)
      have fewer : (occupied c.entries).card < capacity := by
        rw [filled.used]
        omega
      obtain ⟨unusedSlot, unused⟩ := card_occupied_lt_iff.mp fewer
      obtain ⟨pass, found⟩ :=
        Cache.exists_find_of_hasRoom
          (⟨unusedSlot, Or.inl unused⟩ : c.HasRoom (numberedKey count))
      have entries :
          (cacheCall c ⟨0, .store (numberedName count) 1 1 [1] 1⟩).entries =
            _ :=
        cacheStore_entries (by decide) found
      have empty : c.entries (c.slotOf (numberedKey count) pass) = none := by
        cases held : c.entries (c.slotOf (numberedKey count) pass) with
        | none => rfl
        | some old =>
            exact
              absurd ⟨_, old, held, (Reaches.of_probe found held).isKey⟩
                absent
      refine ⟨?_, ?_⟩
      · rw [entries]
        exact (card_occupied_fill _ empty).trans (by rw [filled.used])
      · intro slot entry occupied
        rcases entries_of_cacheStore occupied with old | ⟨_, _, isNew⟩
        · obtain ⟨expiry, number, below, isKey⟩ := filled.keys slot entry old
          exact ⟨expiry, number, by omega, isKey⟩
        · rw [isNew]
          exact ⟨rfl, count, by omega, rfl⟩

/-- Every store would have an effect while fewer entries than slots are
unexpired. -/
def DeadEntriesYield (capacity : Nat) [NeZero capacity] : Prop :=
  ∀ (history : List CacheCall) (name : Bytes) (type rrclass : UInt16)
    (data : Bytes) (ttl : UInt32) (now : Int),
    Clocked (history.map CacheCall.time ++ [now]) →
    (∀ call, call ∈ history → call.ByFirewall) → 0 < ttl →
    let c := run cacheCall (cacheCreate capacity) history
    c.unexpired now < capacity →
      (cacheLookup (cacheStore c name type rrclass data ttl now) name type
        rrclass now).1 = some data

theorem byFirewall_storesNumbered
    {count : Nat} {call : CacheCall} (member : call ∈ storesNumbered count) :
    call.time = 0 ∧ call.ByFirewall := by
  induction count with
  | zero => cases member
  | succ count inductionHypothesis =>
      rw [storesNumbered, List.mem_append, List.mem_singleton] at member
      rcases member with earlier | rfl
      · exact inductionHypothesis earlier
      · exact ⟨rfl, trivial⟩

theorem time_storesNumbered
    {count : Nat} {time : Int}
    (member : time ∈ (storesNumbered count).map CacheCall.time) :
    time = 0 := by
  obtain ⟨call, isStore, rfl⟩ := List.mem_map.mp member
  exact (byFirewall_storesNumbered isStore).1

theorem not_deadEntriesYield_default :
    ¬ DeadEntriesYield cacheDefaultSize := by
  intro yields
  have small : cacheDefaultSize < 10 ^ 9 := by decide
  have filled := filledUpTo_storesNumbered small cacheDefaultSize (by omega)
  have clocked :
      Clocked
        ((storesNumbered cacheDefaultSize).map CacheCall.time ++ [2]) := by
    refine List.pairwise_append.mpr ⟨?_, List.pairwise_singleton _ _, ?_⟩
    · apply List.pairwise_of_forall_mem_list
      intro first firstMember second secondMember
      rw [time_storesNumbered firstMember, time_storesNumbered secondMember]
    · intro first firstMember last lastMember
      rw [time_storesNumbered firstMember, List.mem_singleton.mp lastMember]
      decide
  have dead :
      (run cacheCall (cacheCreate cacheDefaultSize)
          (storesNumbered cacheDefaultSize)).unexpired 2 <
        cacheDefaultSize := by
    rw [Cache.unexpired_eq_zero]
    · decide
    · intro slot entry occupied
      rw [(filled.keys slot entry occupied).1]
      decide
  have hit :=
    yields (storesNumbered cacheDefaultSize) (numberedName cacheDefaultSize)
      1 1 [2] 100 2 clocked
      (fun _ member => (byFirewall_storesNumbered member).2) (by decide) dead
  rw [cacheLookup_cacheStore_iff _ _ _ _ _ _ (by decide)] at hit
  obtain ⟨slot, unused | held⟩ := hit
  · have fewer := card_occupied_lt_iff.mpr ⟨slot, unused⟩
    rw [filled.used] at fewer
    omega
  · exact filled.absent small ⟨slot, held⟩

end DnsFirewall
