import Mathlib.Data.List.Induction
import DnsFirewall.Clients.Tracker

/-!
# The counts of the reputation table

What the table is for: a map from domains to positive counts.  A block raises
the count of its domain; decay, at most once a minute, lowers the counts that
have been idle for a minute and takes out those that reach zero.  The nodes in
memory hold this map after every sequence of calls.
-/

namespace DnsFirewall

open CString SinglyLinked Runs

/-- A count of blocks, and when it was last changed. -/
structure Count where
  score : Nat
  positive : 0 < score
  lastUpdate : Int

/-- The counts, and when they were last lowered. -/
structure Counts where
  count : Bytes → Option Count
  lastDecay : Int

namespace Counts

def init (now : Int) : Counts :=
  ⟨fun _ => none, now⟩

/-- One more block; the first one makes the count one. -/
def raised (now : Int) : Option Count → Count
  | some c => ⟨c.score + 1, Nat.succ_pos c.score, now⟩
  | none => ⟨1, Nat.one_pos, now⟩

/-- One block less, and no count in place of zero. -/
def lowered (now : Int) (c : Count) : Option Count :=
  if last : c.score = 1 then none
  else
    some
      ⟨c.score - 1, by have positive := c.positive; omega, now⟩

/-- What has been idle for a minute is lowered. -/
def aged (now : Int) (c : Count) : Option Count :=
  if 60 ≤ now - c.lastUpdate then lowered now c else some c

def record (counts : Counts) (domain : Bytes) (now : Int) : Counts :=
  { counts with
    count :=
      Function.update counts.count domain
        (some (raised now (counts.count domain))) }

def decay (counts : Counts) (now : Int) : Counts :=
  if now - counts.lastDecay < 60 then counts
  else ⟨fun domain => (counts.count domain).bind (aged now), now⟩

end Counts

def countsStep (counts : Counts) (call : Int × TrackerCall) : Counts :=
  match call with
  | (now, .recordBlock domain) => counts.record (content domain) now
  | (now, .decay) => counts.decay now

/-- The entry that holds a count. -/
def entryFor (domain : Bytes) (c : Count) : RepEntry :=
  ⟨domain, c.score, c.lastUpdate⟩

/-- The table in memory holds the counts: its pointers lead to its entries,
each domain has at most one, in the bucket of its hash, the entries are those
of the counts, and the list of blocked domains has each of them once. -/
structure TracksCounts (ctx : Tracker)
    (chains : Fin repHashSize → List (Nat × RepEntry))
    (counts : Counts) : Prop where
  linked : Linked ctx.memory ctx.buckets chains
  home :
    ∀ i e, e ∈ valuesOf chains i → Reputation.hashDomain e.domain = i
  once :
    ((ChainedTable.entries (valuesOf chains)).map RepEntry.domain).Nodup
  entries :
    ∀ e, e ∈ ChainedTable.entries (valuesOf chains) ↔
      ∃ c, counts.count e.domain = some c ∧ e = entryFor e.domain c
  lastDecay : ctx.lastDecay = counts.lastDecay
  listed :
    ∃ names,
      ctx.getBlockedDomains = some names ∧ names.Nodup ∧
        ∀ domain, domain ∈ names ↔ (counts.count domain).isSome = true

/-! ## The buckets hold the counts -/

structure HoldsCounts (table : Reputation) (counts : Counts) : Prop where
  sound : table.Sound
  lastDecay : table.lastDecay = counts.lastDecay
  found :
    ∀ domain,
      table.entryOf domain = (counts.count domain).map (entryFor domain)

theorem holdsCounts_init (now : Int) :
    HoldsCounts (repInit now) (Counts.init now) where
  sound := sound_repInit now
  lastDecay := rfl
  found _ := rfl

theorem countBlock_map_entryFor
    (found : Option Count) (domain : Bytes) (now : Int) :
    countBlock (found.map (entryFor domain)) domain now =
      entryFor domain (Counts.raised now found) := by
  cases found with
  | none => rfl
  | some c => rfl

theorem HoldsCounts.record
    {table : Reputation} {counts : Counts}
    (holds : HoldsCounts table counts) (domain : Bytes) (now : Int) :
    HoldsCounts (repRecordBlock table domain now)
      (counts.record (content domain) now) where
  sound := holds.sound.repRecordBlock domain now
  lastDecay := holds.lastDecay
  found other := by
    rw [Counts.record]
    by_cases same : content domain = other
    · subst same
      simp only
      rw [entryOf_repRecordBlock_self, holds.found,
        countBlock_map_entryFor, Function.update_self, Option.map_some]
    · simp only
      rw [entryOf_repRecordBlock_other table now same,
        Function.update_of_ne (Ne.symm same), holds.found]

/-- What decay makes of an entry is what age makes of its count. -/
theorem decayEntry_entryFor (domain : Bytes) (c : Count) (now : Int) :
    decayEntry now (entryFor domain c) =
      (Counts.aged now c).map (entryFor domain) := by
  have positive := c.positive
  rw [decayEntry, Counts.aged]
  change
    (if (60 : Int) ≤ now - c.lastUpdate then
        if (c.score : Int) - 1 ≤ 0 then none
        else some ⟨domain, (c.score : Int) - 1, now⟩
      else some (entryFor domain c)) = _
  by_cases idle : 60 ≤ now - c.lastUpdate
  · rw [if_pos idle, if_pos idle, Counts.lowered]
    by_cases last : c.score = 1
    · rw [if_pos (by omega), dif_pos last]
      rfl
    · rw [if_neg (by omega), dif_neg last, Option.map_some, entryFor]
      have score : ((c.score - 1 : Nat) : Int) = (c.score : Int) - 1 := by
        omega
      simp only [score]
  · rw [if_neg idle, if_neg idle]
    rfl

theorem HoldsCounts.decay
    {table : Reputation} {counts : Counts}
    (holds : HoldsCounts table counts) (now : Int) :
    HoldsCounts (repDecay table now) (counts.decay now) := by
  have sound := holds.sound.repDecay now
  rw [repDecay] at sound ⊢
  rw [Counts.decay, ← holds.lastDecay]
  by_cases early : now - table.lastDecay < decayInterval
  · have alsoEarly : now - table.lastDecay < 60 := early
    rw [if_pos early, if_pos alsoEarly]
    exact holds
  · have alsoLate : ¬ now - table.lastDecay < 60 := early
    rw [if_neg early] at sound ⊢
    rw [if_neg alsoLate]
    refine ⟨sound, rfl, ?_⟩
    intro domain
    have found := holds.found domain
    rw [Reputation.entryOf, ChainedTable.find] at found
    rw [Reputation.entryOf, ChainedTable.find,
      ChainedTable.findChain_filterMap
        (fun _ _ decayed => decayEntry_domain decayed)
        (holds.sound.placed.single _),
      found]
    simp only
    cases counts.count domain with
    | none => rfl
    | some c =>
        rw [Option.map_some, Option.bind_some, Option.bind_some]
        exact decayEntry_entryFor domain c now

/-! ## Every run -/

/-- Whether a call is a block of the domain. -/
def records (domain : Bytes) (call : Int × TrackerCall) : Bool :=
  match call.2 with
  | .recordBlock blocked => content blocked = domain
  | .decay => false

/-- A count is at most the number of the domain's blocks, so the `int` that it
is kept in does not overflow before their number does. -/
theorem score_le_of_run
    {domain : Bytes} {c : Count} (start : Int)
    (calls : List (Int × TrackerCall))
    (counted :
      (run countsStep (Counts.init start) calls).count domain = some c) :
    c.score ≤ calls.countP (records domain) := by
  induction calls using List.reverseRecOn generalizing c with
  | nil => cases counted
  | append_singleton calls call inductionHypothesis =>
      rw [run_append, run_cons, run_nil] at counted
      rw [List.countP_append, List.countP_singleton]
      obtain ⟨now, action⟩ := call
      cases action with
      | recordBlock blocked =>
          rw [countsStep, Counts.record] at counted
          simp only at counted
          by_cases same : content blocked = domain
          · subst same
            rw [Function.update_self, Option.some.injEq] at counted
            have isRecord :
                records (content blocked) (now, .recordBlock blocked) =
                  true :=
              decide_eq_true rfl
            rw [← counted, if_pos isRecord]
            cases before :
                (run countsStep (Counts.init start) calls).count
                  (content blocked) with
            | none => exact Nat.le_add_left 1 _
            | some old =>
                exact Nat.succ_le_succ (inductionHypothesis before)
          · rw [Function.update_of_ne (Ne.symm same)] at counted
            exact (inductionHypothesis counted).trans (Nat.le_add_right _ _)
      | decay =>
          rw [countsStep, Counts.decay] at counted
          split at counted
          · exact (inductionHypothesis counted).trans (Nat.le_add_right _ _)
          · obtain ⟨old, before, became⟩ := Option.bind_eq_some_iff.mp counted
            have atMost : c.score ≤ old.score := by
              rw [Counts.aged, Counts.lowered] at became
              split at became
              · split at became
                · cases became
                · cases became
                  exact Nat.sub_le _ _
              · cases became
                exact Nat.le_refl _
            exact
              (atMost.trans (inductionHypothesis before)).trans
                (Nat.le_add_right _ _)

/-- What the memory, the buckets and the counts are at the same time. -/
def Agree (ctx : Tracker)
    (chains : Fin repHashSize → List (Nat × RepEntry))
    (counts : Counts) : Prop :=
  ∃ table, Represents ctx chains table ∧ HoldsCounts table counts

/-- A call is carried out, and the counts change with the memory. -/
theorem agree_trackerStep
    (allocator : Allocator RepEntry) {ctx : Tracker}
    {chains : Fin repHashSize → List (Nat × RepEntry)} {counts : Counts}
    (agree : Agree ctx chains counts) (call : Int × TrackerCall) :
    ∃ after chains',
      trackerStep allocator ctx call = some after ∧
        Agree after chains' (countsStep counts call) := by
  obtain ⟨table, represents, holds⟩ := agree
  obtain ⟨now, action⟩ := call
  cases action with
  | recordBlock domain =>
      obtain ⟨after, chains', result, represented⟩ :=
        represents_recordBlock allocator represents domain now
      exact
        ⟨after, chains', result, _, represented, holds.record domain now⟩
  | decay =>
      obtain ⟨after, chains', result, represented⟩ :=
        represents_decay represents now
      exact ⟨after, chains', result, _, represented, holds.decay now⟩

theorem agree_runTracker
    (allocator : Allocator RepEntry) (calls : List (Int × TrackerCall))
    {ctx : Tracker} {chains : Fin repHashSize → List (Nat × RepEntry)}
    {counts : Counts} (agree : Agree ctx chains counts) :
    ∃ after chains',
      runTracker allocator ctx calls = some after ∧
        Agree after chains' (run countsStep counts calls) := by
  induction calls generalizing ctx chains counts with
  | nil => exact ⟨ctx, chains, rfl, agree⟩
  | cons call calls inductionHypothesis =>
      obtain ⟨between, chains', step, agreeNow⟩ :=
        agree_trackerStep allocator agree call
      obtain ⟨after, chains'', rest, agreeThen⟩ :=
        inductionHypothesis agreeNow
      refine ⟨after, chains'', ?_, agreeThen⟩
      rw [runTracker, List.foldlM_cons, step]
      exact rest

/-- The blocked domains of a sound table are those of its entries. -/
theorem HoldsCounts.names
    {table : Reputation} {counts : Counts}
    (holds : HoldsCounts table counts) :
    (table.entries.filterMap fun e =>
        if 0 < e.score then some e.domain else none) =
      table.entries.map RepEntry.domain := by
  rw [← List.filterMap_eq_map]
  apply List.filterMap_congr
  intro e member
  obtain ⟨i, inChain⟩ := ChainedTable.mem_entries_iff.mp member
  exact if_pos (holds.sound.positive i e inChain)

/-- The entries are those of the counts. -/
theorem HoldsCounts.mem_entries_iff
    {table : Reputation} {counts : Counts}
    (holds : HoldsCounts table counts) (e : RepEntry) :
    e ∈ table.entries ↔
      ∃ c, counts.count e.domain = some c ∧ e = entryFor e.domain c := by
  have found := holds.found e.domain
  rw [Reputation.entries, holds.sound.placed.mem_entries_iff_find,
    ← Reputation.entryOf, found, Option.map_eq_some_iff]
  exact exists_congr fun c => and_congr_right fun _ => eq_comm

theorem HoldsCounts.mem_names_iff
    {table : Reputation} {counts : Counts}
    (holds : HoldsCounts table counts) (domain : Bytes) :
    domain ∈ table.entries.map RepEntry.domain ↔
      (counts.count domain).isSome = true := by
  rw [List.mem_map, Option.isSome_iff_exists]
  constructor
  · intro given
    obtain ⟨e, member, same⟩ := given
    obtain ⟨c, counted, _⟩ := (holds.mem_entries_iff e).mp member
    rw [same] at counted
    exact ⟨c, counted⟩
  · intro given
    obtain ⟨c, counted⟩ := given
    exact
      ⟨entryFor domain c, (holds.mem_entries_iff _).mpr ⟨c, counted, rfl⟩,
        rfl⟩

theorem tracks_of_agree
    {ctx : Tracker} {chains : Fin repHashSize → List (Nat × RepEntry)}
    {counts : Counts} (agree : Agree ctx chains counts) :
    TracksCounts ctx chains counts := by
  obtain ⟨table, represents, holds⟩ := agree
  have names := getBlockedDomains_of_represents represents
  rw [holds.names] at names
  obtain ⟨linked, table_eq⟩ := represents
  have placed := holds.sound.placed
  have members := holds.mem_entries_iff
  have listed := holds.mem_names_iff
  have last := holds.lastDecay
  subst table_eq
  exact
    { linked
      home := placed.home
      once := placed.nodup_entries
      entries := members
      lastDecay := last
      listed := ⟨_, names, placed.nodup_entries, listed⟩ }

/-- After every sequence of calls, with any readings of the clock, the table
in memory holds the counts that the same calls make. -/
theorem tracks_runTracker
    (allocator : Allocator RepEntry) (start : Int)
    (calls : List (Int × TrackerCall)) :
    ∃ ctx chains,
      runTracker allocator (Tracker.init start) calls = some ctx ∧
        TracksCounts ctx chains (run countsStep (Counts.init start) calls) := by
  have first :
      Agree (Tracker.init start) (fun _ => []) (Counts.init start) :=
    ⟨repInit start, represents_init start, holdsCounts_init start⟩
  obtain ⟨ctx, chains, result, agree⟩ :=
    agree_runTracker allocator calls first
  exact ⟨ctx, chains, result, tracks_of_agree agree⟩

end DnsFirewall
