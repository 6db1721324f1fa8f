import DnsFirewall.Cache.Operations
import DnsFirewall.Foundations.Runs

/-!
# How long the cache keeps an entry

Removing an expired entry leaves its slot unused, and a lookup gives up at the
first unused slot.  So a stored entry is found until it expires exactly as
long as no expired entry is removed from a slot on the way to it.
-/

namespace DnsFirewall

open CString LinearProbing Runs

/-- A call of one of the three cache functions. -/
inductive CacheOp where
  | store (name : Bytes) (type rrclass : UInt16) (data : Bytes)
      (ttl : UInt32)
  | lookup (name : Bytes) (type rrclass : UInt16)
  | cleanExpired

/-- A call with its reading of the clock. -/
structure CacheCall where
  time : Int
  op : CacheOp

variable {capacity : Nat} [NeZero capacity]

def cacheCall (c : Cache capacity) (call : CacheCall) : Cache capacity :=
  match call.op with
  | .store name type rrclass data ttl =>
      cacheStore c name type rrclass data ttl call.time
  | .lookup name type rrclass =>
      (cacheLookup c name type rrclass call.time).2
  | .cleanExpired => cacheCleanExpired c call.time

def CacheCall.Stores (call : CacheCall) (key : Bytes) : Prop :=
  match call.op with
  | .store name type rrclass _ _ => buildKey name type rrclass = key
  | .lookup _ _ _ => False
  | .cleanExpired => False

/-- The clock readings of a list of calls never go back. -/
def Clocked (times : List Int) : Prop :=
  times.Pairwise (· ≤ ·)

/-- What is stored stays: after any history, a store with a lifetime and room
for its key is answered from until the lifetime is over, whatever other keys
are stored, looked up or cleaned in the meantime. -/
def StoredStays (capacity : Nat) [NeZero capacity] : Prop :=
  ∀ (history later : List CacheCall) (name : Bytes)
    (type rrclass : UInt16) (data : Bytes) (ttl : UInt32)
    (stored now : Int),
    let c := run cacheCall (cacheCreate capacity) history
    let key := buildKey name type rrclass
    Clocked (history.map CacheCall.time ++
      stored :: later.map CacheCall.time ++ [now]) →
    ttl ≠ 0 → c.HasRoom key →
    (∀ call, call ∈ later → ¬ call.Stores key) →
    now ≤ stored + ttl.toNat →
      (cacheLookup
        (run cacheCall (cacheStore c name type rrclass data ttl stored)
          later)
        name type rrclass now).1 = some data

/-- The call removes the entry in the given slot, because it is expired and
the call is a clean-up or a lookup of that very entry. -/
def Frees (c : Cache capacity) (call : CacheCall) (slot : Fin capacity) :
    Prop :=
  match call.op with
  | .store _ _ _ _ _ => False
  | .lookup name type rrclass =>
      ∃ pass entry,
        c.Holds (buildKey name type rrclass) pass entry ∧
          entry.expiry < call.time ∧
            slot = c.slotOf (buildKey name type rrclass) pass
  | .cleanExpired =>
      ∃ entry, c.entries slot = some entry ∧ entry.expiry < call.time

/-- The call removes an expired entry from a slot on the way to the entry of
the key. -/
def OpensGap (key : Bytes) (c : Cache capacity) (call : CacheCall) :
    Prop :=
  ∃ pass entry earlier,
    c.Holds key pass entry ∧ earlier < pass ∧
      Frees c call (c.slotOf key earlier)

/-! ## One call -/

/-- A call that stores nothing only empties slots, and exactly those it
frees. -/
theorem cacheCall_entries
    (c : Cache capacity) (call : CacheCall)
    (storesNothing : ∀ key, ¬ call.Stores key) (slot : Fin capacity) :
    (Frees c call slot ∧ (cacheCall c call).entries slot = none) ∨
      (¬ Frees c call slot ∧
        (cacheCall c call).entries slot = c.entries slot) := by
  obtain ⟨time, op⟩ := call
  cases op with
  | store name type rrclass data ttl =>
      exact absurd rfl (storesNothing (buildKey name type rrclass))
  | lookup name type rrclass =>
      simp only [cacheCall, Frees]
      rcases cacheLookup_cases c name type rrclass time with
        ⟨absent, result⟩ | ⟨pass, entry, held, expired, result⟩ |
        ⟨pass, entry, held, fresh, result⟩
      · rw [result]
        refine Or.inr ⟨?_, rfl⟩
        intro given
        obtain ⟨pass, entry, held, _⟩ := given
        exact absent pass entry held
      · rw [result]
        by_cases here : slot = c.slotOf (buildKey name type rrclass) pass
        · refine Or.inl ⟨⟨pass, entry, held, expired, here⟩, ?_⟩
          rw [here]
          exact Function.update_self _ _ _
        · refine Or.inr ⟨?_, Function.update_of_ne here _ _⟩
          intro given
          obtain ⟨otherPass, other, alsoHeld, _, there⟩ := given
          obtain ⟨samePass, _⟩ := held.unique alsoHeld
          exact here (by rw [there, samePass])
      · rw [result]
        refine Or.inr ⟨?_, rfl⟩
        intro given
        obtain ⟨otherPass, other, alsoHeld, expired, _⟩ := given
        obtain ⟨_, sameEntry⟩ := held.unique alsoHeld
        rw [← sameEntry] at expired
        omega
  | cleanExpired =>
      simp only [cacheCall, cacheCleanExpired, Frees]
      cases occupied : c.entries slot with
      | none =>
          refine Or.inr ⟨?_, rfl⟩
          intro given
          obtain ⟨entry, same, _⟩ := given
          cases same
      | some entry =>
          by_cases expired : entry.expiry < time
          · exact Or.inl ⟨⟨entry, rfl, expired⟩,
              by simp [keepUnexpired, expired]⟩
          · refine Or.inr ⟨?_, by simp [keepUnexpired, expired]⟩
            intro given
            obtain ⟨other, same, otherExpired⟩ := given
            cases same
            exact expired otherExpired

/-- A call that does not store the key, at a time at which the entry is not
expired, keeps the entry held unless it opens a gap. -/
theorem Cache.Holds.call
    {c : Cache capacity} {key : Bytes} {pass : Nat} {entry : CacheEntry}
    {call : CacheCall}
    (held : c.Holds key pass entry) (fresh : call.time ≤ entry.expiry)
    (otherKey : ¬ call.Stores key) (noGap : ¬ OpensGap key c call) :
    (cacheCall c call).Holds key pass entry := by
  by_cases storesNothing : ∀ other, ¬ call.Stores other
  · refine Reaches.clear held ?_
    intro visited upTo
    rcases cacheCall_entries c call storesNothing
        (slotAt (homeSlot capacity key) visited) with
      ⟨freed, _⟩ | ⟨_, kept⟩
    · -- the freed slot is neither on the way nor the entry's own
      exfalso
      rcases Nat.lt_or_eq_of_le upTo with before | here
      · exact noGap ⟨pass, entry, visited, held, before, freed⟩
      · subst here
        have occupied := held.holds
        obtain ⟨time, op⟩ := call
        cases op with
        | store name type rrclass data ttl => exact freed
        | lookup name type rrclass =>
            obtain ⟨otherPass, other, otherHeld, expired, sameSlot⟩ := freed
            have otherOccupied := otherHeld.holds
            rw [sameSlot] at occupied
            rw [Cache.slotOf, otherOccupied] at occupied
            cases occupied
            simp only at fresh expired
            omega
        | cleanExpired =>
            obtain ⟨other, otherOccupied, expired⟩ := freed
            rw [occupied] at otherOccupied
            cases otherOccupied
            simp only at fresh expired
            omega
    · exact kept
  · obtain ⟨time, op⟩ := call
    cases op with
    | store name type rrclass data ttl => exact held.store otherKey
    | lookup name type rrclass =>
        exact absurd (fun _ stores => stores) storesNothing
    | cleanExpired => exact absurd (fun _ stores => stores) storesNothing

/-- A call that opens a gap hides the entry at once. -/
theorem cacheLookup_of_opensGap
    {c : Cache capacity} {call : CacheCall} {name : Bytes}
    {type rrclass : UInt16}
    (gap : OpensGap (buildKey name type rrclass) c call) (now : Int) :
    (cacheLookup (cacheCall c call) name type rrclass now).1 = none := by
  obtain ⟨pass, entry, earlier, held, before, freed⟩ := gap
  have storesNothing : ∀ other, ¬ call.Stores other := by
    obtain ⟨time, op⟩ := call
    cases op with
    | store name type rrclass data ttl => exact freed.elim
    | lookup name type rrclass => exact fun _ stores => stores
    | cleanExpired => exact fun _ stores => stores
  have emptied :
      (cacheCall c call).entries
        (c.slotOf (buildKey name type rrclass) earlier) = none := by
    rcases cacheCall_entries c call storesNothing
        (c.slotOf (buildKey name type rrclass) earlier) with
      ⟨_, empty⟩ | ⟨notFreed, _⟩
    · exact empty
    · exact absurd freed notFreed
  -- the search now ends before the entry, where no slot holds the key
  obtain ⟨stop, found, upTo⟩ :=
    probe_le_of_empty CacheEntry.key (buildKey name type rrclass) emptied
  have absent :
      ∀ otherPass other,
        ¬ (cacheCall c call).Holds (buildKey name type rrclass)
          otherPass other := by
    intro otherPass other otherHeld
    have samePass : otherPass = stop := by
      have otherFound := otherHeld.probe_eq
      rw [found] at otherFound
      exact (Option.some.inj otherFound).symm
    subst samePass
    obtain ⟨crowd, occupied, different⟩ :=
      held.crowded otherPass (by omega)
    have otherOccupied := otherHeld.holds
    rcases cacheCall_entries c call storesNothing
        (slotAt (homeSlot capacity (buildKey name type rrclass))
          otherPass) with
      ⟨_, empty⟩ | ⟨_, kept⟩
    · rw [empty] at otherOccupied
      cases otherOccupied
    · rw [kept, occupied] at otherOccupied
      cases otherOccupied
      exact different otherHeld.isKey
  rw [cacheLookup_of_not_held absent]

/-! ## Runs -/

/-- Along a run without gaps an entry stays held to the end of its lifetime. -/
theorem Cache.Holds.run
    {c : Cache capacity} {key : Bytes} {pass : Nat} {entry : CacheEntry}
    {calls : List CacheCall} (held : c.Holds key pass entry)
    (along :
      Along cacheCall
        (fun state call =>
          call.time ≤ entry.expiry ∧ ¬ call.Stores key ∧
            ¬ OpensGap key state call)
        c calls) :
    (Runs.run cacheCall c calls).Holds key pass entry :=
  invariant_run (fun state => state.Holds key pass entry)
    (fun _ _ holds condition =>
      holds.call condition.1 condition.2.1 condition.2.2)
    held along

/-- The readings up to one within the window, and then the end of the window.
-/
theorem clocked_to_end
    {before after : List Int} {time stop : Int}
    (clocked : Clocked (before ++ time :: after))
    (inWindow : time ≤ stop) :
    Clocked (before ++ [time] ++ [stop]) := by
  obtain ⟨clockedFront, _, ordered⟩ := List.pairwise_append.mp clocked
  simp only [Clocked, List.append_assoc, List.cons_append,
    List.nil_append]
  refine List.pairwise_append.mpr ⟨clockedFront, ?_, ?_⟩
  · simpa using inWindow
  · intro earlier memberEarlier late memberLate
    have toTime : earlier ≤ time :=
      ordered earlier memberEarlier time List.mem_cons_self
    simp only [List.mem_cons, List.not_mem_nil, or_false] at memberLate
    rcases memberLate with rfl | rfl
    · exact toTime
    · exact Int.le_trans toTime inWindow

/-- The exact condition under which a stored entry stays: in a run with a
clock that never goes back and no store of the key, every lookup within the
lifetime returns the stored data if and only if no call within the lifetime
removes an expired entry from a slot on the way to the entry. -/
theorem stored_stays_iff
    (c : Cache capacity) (name : Bytes) (type rrclass : UInt16)
    (data : Bytes) (ttl : UInt32) (stored : Int) (later : List CacheCall)
    (lives : ttl ≠ 0) (room : c.HasRoom (buildKey name type rrclass))
    (clocked : Clocked (stored :: later.map CacheCall.time))
    (otherKeys :
      ∀ call, call ∈ later → ¬ call.Stores (buildKey name type rrclass)) :
    let start := cacheStore c name type rrclass data ttl stored
    (∀ before after, later = before ++ after →
      ∀ now, Clocked (before.map CacheCall.time ++ [now]) →
        now ≤ stored + ttl.toNat →
          (cacheLookup (run cacheCall start before) name type rrclass
            now).1 = some data) ↔
      Along cacheCall
        (fun state call =>
          call.time ≤ stored + ttl.toNat →
            ¬ OpensGap (buildKey name type rrclass) state call)
        start later := by
  intro start
  obtain ⟨pass, found⟩ := Cache.exists_find_of_hasRoom room
  have startHolds :
      start.Holds (buildKey name type rrclass) pass
        ⟨buildKey name type rrclass, data, stored + ttl.toNat⟩ :=
    cacheStore_holds lives found
  constructor
  · intro answered before call after shape inWindow gap
    -- right behind the gap a lookup at the end of the lifetime fails
    have clockedBefore :
        Clocked ((before ++ [call]).map CacheCall.time ++
          [stored + ttl.toNat]) := by
      have clockedLater := (List.pairwise_cons.mp clocked).2
      rw [shape, List.map_append, List.map_cons] at clockedLater
      rw [List.map_append, List.map_singleton]
      exact clocked_to_end clockedLater inWindow
    have hit :=
      answered (before ++ [call]) after (by rw [shape]; simp)
        (stored + ttl.toNat) clockedBefore (Int.le_refl _)
    rw [run_append, run_cons, run_nil,
      cacheLookup_of_opensGap gap] at hit
    cases hit
  · intro along before after shape now clockedNow inWindow
    have timesInWindow :
        ∀ call, call ∈ before → call.time ≤ stored + ttl.toNat := by
      intro call member
      have ordered :=
        (List.pairwise_append.mp clockedNow).2.2 call.time
          (List.mem_map_of_mem member) now List.mem_cons_self
      exact Int.le_trans ordered inWindow
    have alongBefore :
        Along cacheCall
          (fun state call =>
            call.time ≤ stored + ttl.toNat ∧
              ¬ call.Stores (buildKey name type rrclass) ∧
                ¬ OpensGap (buildKey name type rrclass) state call)
          start before := by
      intro front call back frontShape
      have member : call ∈ before := by
        rw [frontShape]
        simp
      have inLater : call ∈ later := by
        rw [shape]
        exact List.mem_append_left after member
      have here := along.beginning shape front call back frontShape
      exact
        ⟨timesInWindow call member, otherKeys call inLater,
          here (timesInWindow call member)⟩
    have held :
        (run cacheCall start before).Holds (buildKey name type rrclass)
          pass ⟨buildKey name type rrclass, data, stored + ttl.toNat⟩ :=
      startHolds.run alongBefore
    rw [cacheLookup_of_holds held inWindow]

/-! ## A gap in the table of the firewall

With 1024 slots the keys of `ea.` and `yu.` have the same home slot.  Looking
up the expired `ea.` empties it, and the unexpired `yu.` behind it is lost. -/

/-- The name `ea.`. -/
def nameEa : Bytes := [101, 97, 46]

/-- The name `yu.`. -/
def nameYu : Bytes := [121, 117, 46]

def storeEa : CacheCall := ⟨0, .store nameEa 1 1 [1] 1⟩

def lookupEa : CacheCall := ⟨5, .lookup nameEa 1 1⟩

theorem not_storedStays_default : ¬ StoredStays cacheDefaultSize := by
  intro stays
  have room :
      (run cacheCall (cacheCreate cacheDefaultSize) [storeEa]).HasRoom
        (buildKey nameYu 1 1) :=
    ⟨0, Or.inl (by decide +kernel)⟩
  have hit :=
    stays [storeEa] [lookupEa] nameYu 1 1 [2] 100 0 5
      (by simp [Clocked, storeEa, lookupEa]) (by decide) room
      (by simp [lookupEa, CacheCall.Stores]) (by decide)
  have miss :
      (cacheLookup
        (run cacheCall
          (cacheStore
            (run cacheCall (cacheCreate cacheDefaultSize) [storeEa])
            nameYu 1 1 [2] 100 0)
          [lookupEa])
        nameYu 1 1 5).1 = none := by
    decide +kernel
  rw [miss] at hit
  cases hit

theorem stored_stays_after_clean :
    (cacheLookup
      (run cacheCall
        (cacheStore (cacheCreate cacheDefaultSize) nameYu 1 1 [2] 100 0)
        [⟨5, .cleanExpired⟩])
      nameYu 1 1 7).1 = some [2] := by
  have room :
      (cacheCreate cacheDefaultSize).HasRoom (buildKey nameYu 1 1) :=
    ⟨0, Or.inl rfl⟩
  have noGap :
      Along cacheCall
        (fun state call =>
          call.time ≤ 0 + (100 : UInt32).toNat →
            ¬ OpensGap (buildKey nameYu 1 1) state call)
        (cacheStore (cacheCreate cacheDefaultSize) nameYu 1 1 [2] 100 0)
        [⟨5, .cleanExpired⟩] := by
    refine along_cons_iff.mpr ⟨?_, along_nil⟩
    intro _ given
    obtain ⟨pass, entry, earlier, held, before, _⟩ := given
    -- the stored entry is in its home slot, so no slot comes before it
    have found :
        (cacheStore (cacheCreate cacheDefaultSize) nameYu 1 1 [2] 100
          0).find (buildKey nameYu 1 1) = some 0 := by
      decide +kernel
    have samePass : some 0 = some pass :=
      found.symm.trans held.probe_eq
    cases samePass
    omega
  exact
    (stored_stays_iff (cacheCreate cacheDefaultSize) nameYu 1 1 [2] 100 0
      [⟨5, .cleanExpired⟩] (by decide) room (by simp [Clocked])
      (by simp [CacheCall.Stores])).mpr noGap [⟨5, .cleanExpired⟩] []
      rfl 7 (by simp [Clocked]) (by decide)

end DnsFirewall
