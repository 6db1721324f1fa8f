import DnsFirewall.Clients.Reputation
import DnsFirewall.Foundations.LinkedTable
import DnsFirewall.Foundations.Runs

/-!
# The reputation table in memory

`reputation.c` over its nodes and pointers: the loops that look for a domain,
that lower the scores and unlink what has none left, and that visit all
entries.  An allocator that gives unused addresses is a parameter.  No loop
follows a pointer to a node that is gone, every loop ends, and the chains hold
a map of positive counts: a block raises the count of its domain, and decay
lowers, at most once a minute, what has been idle for a minute.
-/

namespace DnsFirewall

open CString SinglyLinked Runs

/-- `rep_ctx_t`, with the memory its entries are in. -/
structure Tracker where
  memory : Memory RepEntry
  buckets : Fin repHashSize → Option Nat
  lastDecay : Int

namespace Tracker

/-- `rep_init`. -/
def init (now : Int) : Tracker :=
  ⟨.empty, fun _ => none, now⟩

/-- `rep_record_block`: the entry that `strcmp` finds is changed in its place,
a new one comes in front of its bucket. -/
def recordBlock (allocator : Allocator RepEntry) (ctx : Tracker)
    (domain : Bytes) (now : Int) : Option Tracker :=
  let domain := content domain
  let h := Reputation.hashDomain domain
  match
    search ctx.memory (fun e => e.domain = domain) ctx.memory.bound
      (ctx.buckets h) with
  | none => none
  | some (some (place, ⟨e, next⟩)) =>
      let e := { e with score := e.score + 1, lastUpdate := now }
      some { ctx with memory := ctx.memory.write place ⟨e, next⟩ }
  | some none =>
      let place := allocator.malloc ctx.memory
      let e : RepEntry := ⟨domain, 1, now⟩
      some
        { ctx with
          memory := ctx.memory.write place ⟨e, ctx.buckets h⟩
          buckets := Function.update ctx.buckets h (some place) }

/-- `rep_decay`. -/
def decay (ctx : Tracker) (now : Int) : Option Tracker :=
  if now - ctx.lastDecay < decayInterval then some ctx
  else
    match
      walkTable (decayEntry now) (List.finRange repHashSize) ctx.memory
        ctx.buckets with
    | none => none
    | some (memory, buckets) => some ⟨memory, buckets, now⟩

/-- `rep_get_blocked_domains`. -/
def getBlockedDomains (ctx : Tracker) : Option (List Bytes) :=
  collectTable (fun e => if 0 < e.score then some e.domain else none)
    ctx.memory ctx.buckets (List.finRange repHashSize)

end Tracker

/-- The calls that change the table. -/
inductive TrackerCall where
  | recordBlock (domain : Bytes)
  | decay
deriving DecidableEq, Repr

/-- A call at a reading of the clock. -/
def trackerStep (allocator : Allocator RepEntry) (ctx : Tracker)
    (call : Int × TrackerCall) : Option Tracker :=
  match call with
  | (now, .recordBlock domain) => ctx.recordBlock allocator domain now
  | (now, .decay) => ctx.decay now

/-- The calls one after the other; `none` when one of them follows a pointer to
no node, or does not end. -/
def runTracker (allocator : Allocator RepEntry) (ctx : Tracker)
    (calls : List (Int × TrackerCall)) : Option Tracker :=
  calls.foldlM (trackerStep allocator) ctx

/-! ## The chains are the buckets -/

/-- The pointers lead to the entries of the buckets. -/
def Represents (ctx : Tracker) (chains : Fin repHashSize → List (Nat × RepEntry))
    (table : Reputation) : Prop :=
  Linked ctx.memory ctx.buckets chains ∧
    table = ⟨valuesOf chains, ctx.lastDecay⟩

theorem represents_init (now : Int) :
    Represents (Tracker.init now) (fun _ => []) (repInit now) :=
  ⟨linked_empty, rfl⟩

section RecordBlock

variable (allocator : Allocator RepEntry) {ctx : Tracker}
variable {chains : Fin repHashSize → List (Nat × RepEntry)}
variable (linked : Linked ctx.memory ctx.buckets chains)
variable (domain : Bytes) (now : Int)

include linked

/-- A domain without an entry gets one. -/
theorem represents_recordBlock_new
    (result :
      search ctx.memory (fun e => e.domain = content domain)
          ctx.memory.bound
          (ctx.buckets (Reputation.hashDomain (content domain))) =
        some none)
    (absent :
      ∀ node,
        node ∈ chains (Reputation.hashDomain (content domain)) →
          decide (node.2.domain = content domain) = false) :
    ∃ after chains',
      ctx.recordBlock allocator domain now = some after ∧
        Represents after chains'
          (repRecordBlock ⟨valuesOf chains, ctx.lastDecay⟩ domain now) := by
  have notFound :
      ChainedTable.findChain RepEntry.domain (content domain)
          (valuesOf chains (Reputation.hashDomain (content domain))) =
        none := by
    apply ChainedTable.findChain_eq_none_iff.mpr
    intro e member
    obtain ⟨node, inChain, same⟩ := List.mem_map.mp member
    rw [← same]
    simpa using absent node inChain
  have counted :
      countBlock
          ((⟨valuesOf chains, ctx.lastDecay⟩ : Reputation).entryOf
            (content domain)) (content domain) now =
        ⟨content domain, 1, now⟩ := by
    rw [Reputation.entryOf, ChainedTable.find, notFound]
    rfl
  have pushed :=
    @Linked.push _ _ _ _ _ (Reputation.hashDomain (content domain)) linked _
      (allocator.unused ctx.memory) ⟨content domain, 1, now⟩
  refine
    ⟨⟨_, Function.update ctx.buckets _ (some _), ctx.lastDecay⟩, _, ?_, pushed,
      ?_⟩
  · rw [Tracker.recordBlock]
    simp only [result]
    rfl
  · rw [valuesOf_update, repRecordBlock]
    simp only [counted]
    rw [ChainedTable.put, ChainedTable.putChain_of_absent notFound]
    rfl

/-- The score of a domain with an entry is raised in its place. -/
theorem represents_recordBlock_found
    {front back : List (Nat × RepEntry)} {place : Nat} {node : Node RepEntry}
    (result :
      search ctx.memory (fun e => e.domain = content domain)
          ctx.memory.bound
          (ctx.buckets (Reputation.hashDomain (content domain))) =
        some (some (place, node)))
    (first :
      FirstPassing ctx.memory
        (chains (Reputation.hashDomain (content domain)))
        (fun e => e.domain = content domain) front place node back) :
    ∃ after chains',
      ctx.recordBlock allocator domain now = some after ∧
        Represents after chains'
          (repRecordBlock ⟨valuesOf chains, ctx.lastDecay⟩ domain now) := by
  have isDomain : node.value.domain = content domain :=
    of_decide_eq_true first.passes
  have values :
      valuesOf chains (Reputation.hashDomain (content domain)) =
        front.map Prod.snd ++ node.value :: back.map Prod.snd := by
    rw [valuesOf, first.shape, List.map_append, List.map_cons]
  have frontAway :
      ∀ e, e ∈ front.map Prod.snd → e.domain ≠ content domain := by
    intro e member
    obtain ⟨before, inFront, same⟩ := List.mem_map.mp member
    rw [← same]
    simpa using first.failed before inFront
  have found :
      ChainedTable.findChain RepEntry.domain (content domain)
          (valuesOf chains (Reputation.hashDomain (content domain))) =
        some node.value := by
    rw [values, ← isDomain]
    apply ChainedTable.findChain_middle
    rw [isDomain]
    exact frontAway
  have counted :
      countBlock
          ((⟨valuesOf chains, ctx.lastDecay⟩ : Reputation).entryOf
            (content domain)) (content domain) now =
        { node.value with
          score := node.value.score + 1, lastUpdate := now } := by
    rw [Reputation.entryOf, ChainedTable.find, found]
    rfl
  have changed :=
    linked.set first.shape first.live
      { node.value with
        score := node.value.score + 1, lastUpdate := now }
  refine ⟨⟨_, ctx.buckets, ctx.lastDecay⟩, _, ?_, changed, ?_⟩
  · rw [Tracker.recordBlock]
    simp only [result]
    rfl
  · rw [valuesOf_update, repRecordBlock]
    simp only [counted]
    rw [ChainedTable.put, isDomain, values,
      ChainedTable.putChain_middle isDomain frontAway, List.map_append,
      List.map_cons]

end RecordBlock

/-- A block changes the entry that is found, or adds one. -/
theorem represents_recordBlock
    (allocator : Allocator RepEntry) {ctx : Tracker}
    {chains : Fin repHashSize → List (Nat × RepEntry)} {table : Reputation}
    (represents : Represents ctx chains table) (domain : Bytes) (now : Int) :
    ∃ after chains',
      ctx.recordBlock allocator domain now = some after ∧
        Represents after chains' (repRecordBlock table domain now) := by
  obtain ⟨linked, table_eq⟩ := represents
  subst table_eq
  have chain := linked.chain (Reputation.hashDomain (content domain))
  have enough := chain.length_le (linked.distinct _)
  rcases
      search_of_chain chain (fun e => e.domain = content domain) enough with
    ⟨result, absent⟩ | ⟨front, place, node, back, result, first⟩
  · exact
      represents_recordBlock_new allocator linked domain now result absent
  · exact
      represents_recordBlock_found allocator linked domain now result first

/-- Decay takes out of the chains what decay takes out of the buckets. -/
theorem represents_decay
    {ctx : Tracker} {chains : Fin repHashSize → List (Nat × RepEntry)}
    {table : Reputation} (represents : Represents ctx chains table)
    (now : Int) :
    ∃ after chains',
      ctx.decay now = some after ∧
        Represents after chains' (repDecay table now) := by
  obtain ⟨linked, table_eq⟩ := represents
  subst table_eq
  rw [Tracker.decay, repDecay]
  by_cases early : now - ctx.lastDecay < decayInterval
  · rw [if_pos early, if_pos early]
    exact ⟨ctx, chains, rfl, linked, rfl⟩
  · obtain ⟨memory, buckets, walked, linkedNow⟩ :=
      linked.walkTable (decayEntry now) (List.nodup_finRange repHashSize)
    rw [if_neg early, if_neg early, walked]
    refine ⟨⟨memory, buckets, now⟩, _, rfl, linkedNow, ?_⟩
    congr 1
    funext i
    simp only [valuesOf, List.mem_finRange, if_true, map_snd_kept]

/-- The loop over all entries gives the names of those with a score. -/
theorem getBlockedDomains_of_represents
    {ctx : Tracker} {chains : Fin repHashSize → List (Nat × RepEntry)}
    {table : Reputation} (represents : Represents ctx chains table) :
    ctx.getBlockedDomains =
      some
        (table.entries.filterMap fun e =>
          if 0 < e.score then some e.domain else none) := by
  obtain ⟨linked, table_eq⟩ := represents
  subst table_eq
  rw [Tracker.getBlockedDomains, linked.collectTable, Reputation.entries,
    ChainedTable.entries, List.filterMap_flatMap]

end DnsFirewall
