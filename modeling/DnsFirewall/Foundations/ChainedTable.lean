import Mathlib.Data.List.FinRange
import Mathlib.Logic.Function.Basic

/-!
# Chained hash tables

A table has one chain for every hash value.  An entry is found at its first
occurrence in its chain, and is put there in place or in front of the chain.
Seen from the keys the table is a map: putting an entry changes what its own
key finds and nothing else.
-/

namespace DnsFirewall.ChainedTable

variable {α κ : Type} [DecidableEq κ]

/-- Replace the first entry of the chain with the same key, or put the entry
in front. -/
def putChain (keyOf : α → κ) (entry : α) (chain : List α) : List α :=
  match chain.find? fun other => keyOf other = keyOf entry with
  | none => entry :: chain
  | some _ => replaceFirst chain
where
  /-- The entry in place of the first one with its key. -/
  replaceFirst : List α → List α
    | [] => []
    | other :: rest =>
        if keyOf other = keyOf entry then entry :: rest
        else other :: replaceFirst rest

def findChain (keyOf : α → κ) (key : κ) (chain : List α) : Option α :=
  chain.find? fun entry => keyOf entry = key

theorem findChain_cons
    (keyOf : α → κ) (key : κ) (head : α) (tail : List α) :
    findChain keyOf key (head :: tail) =
      if keyOf head = key then some head else findChain keyOf key tail := by
  unfold findChain
  by_cases here : keyOf head = key
  · simp [here]
  · simp [here]

theorem keyOf_of_findChain
    {keyOf : α → κ} {key : κ} {chain : List α} {entry : α}
    (found : findChain keyOf key chain = some entry) :
    keyOf entry = key := by
  have matched := List.find?_some found
  simpa using matched

theorem findChain_replaceFirst_self
    (keyOf : α → κ) (entry : α) {chain : List α} {old : α}
    (found : findChain keyOf (keyOf entry) chain = some old) :
    findChain keyOf (keyOf entry)
      (putChain.replaceFirst keyOf entry chain) = some entry := by
  induction chain with
  | nil => cases found
  | cons head tail inductionHypothesis =>
      rw [findChain_cons] at found
      by_cases here : keyOf head = keyOf entry
      · rw [putChain.replaceFirst, if_pos here, findChain_cons, if_pos rfl]
      · rw [if_neg here] at found
        rw [putChain.replaceFirst, if_neg here, findChain_cons, if_neg here]
        exact inductionHypothesis found

theorem findChain_replaceFirst_other
    (keyOf : α → κ) {entry : α} {key : κ} (different : keyOf entry ≠ key)
    (chain : List α) :
    findChain keyOf key (putChain.replaceFirst keyOf entry chain) =
      findChain keyOf key chain := by
  induction chain with
  | nil => rfl
  | cons head tail inductionHypothesis =>
      by_cases here : keyOf head = keyOf entry
      · have headDifferent : keyOf head ≠ key := by
          rw [here]
          exact different
        rw [putChain.replaceFirst, if_pos here, findChain_cons,
          if_neg different, findChain_cons, if_neg headDifferent]
      · rw [putChain.replaceFirst, if_neg here, findChain_cons,
          inductionHypothesis, findChain_cons]

theorem findChain_putChain_self
    (keyOf : α → κ) (entry : α) (chain : List α) :
    findChain keyOf (keyOf entry) (putChain keyOf entry chain) =
      some entry := by
  rw [putChain]
  cases found : findChain keyOf (keyOf entry) chain with
  | none =>
      rw [findChain] at found
      simp only [found]
      rw [findChain_cons, if_pos rfl]
  | some old =>
      have replaced := findChain_replaceFirst_self keyOf entry found
      rw [findChain] at found
      simp only [found]
      exact replaced

theorem findChain_putChain_other
    (keyOf : α → κ) {entry : α} {key : κ} (different : keyOf entry ≠ key)
    (chain : List α) :
    findChain keyOf key (putChain keyOf entry chain) =
      findChain keyOf key chain := by
  rw [putChain]
  split
  · rw [findChain_cons, if_neg different]
  · exact findChain_replaceFirst_other keyOf different chain

/-! ## The place of an entry in its chain -/

theorem findChain_eq_none_iff
    {keyOf : α → κ} {key : κ} {chain : List α} :
    findChain keyOf key chain = none ↔
      ∀ entry, entry ∈ chain → keyOf entry ≠ key := by
  simp [findChain]

theorem findChain_middle
    {keyOf : α → κ} {front : List α} {entry : α}
    (absent : ∀ other, other ∈ front → keyOf other ≠ keyOf entry)
    (back : List α) :
    findChain keyOf (keyOf entry) (front ++ entry :: back) =
      some entry := by
  induction front with
  | nil => rw [List.nil_append, findChain_cons, if_pos rfl]
  | cons head front inductionHypothesis =>
      rw [List.cons_append, findChain_cons,
        if_neg (absent head List.mem_cons_self)]
      apply inductionHypothesis
      intro other member
      exact absent other (List.mem_cons_of_mem head member)

theorem putChain_of_absent
    {keyOf : α → κ} {entry : α} {chain : List α}
    (absent : findChain keyOf (keyOf entry) chain = none) :
    putChain keyOf entry chain = entry :: chain := by
  rw [findChain] at absent
  rw [putChain, absent]

theorem replaceFirst_middle
    {keyOf : α → κ} {front : List α} {old entry : α}
    (sameKey : keyOf old = keyOf entry)
    (absent : ∀ other, other ∈ front → keyOf other ≠ keyOf entry)
    (back : List α) :
    putChain.replaceFirst keyOf entry (front ++ old :: back) =
      front ++ entry :: back := by
  induction front with
  | nil =>
      rw [List.nil_append, putChain.replaceFirst, if_pos sameKey,
        List.nil_append]
  | cons head front inductionHypothesis =>
      rw [List.cons_append, putChain.replaceFirst,
        if_neg (absent head List.mem_cons_self), inductionHypothesis,
        List.cons_append]
      intro other member
      exact absent other (List.mem_cons_of_mem head member)

/-- An entry takes the place of the first one with its key. -/
theorem putChain_middle
    {keyOf : α → κ} {front : List α} {old entry : α}
    (sameKey : keyOf old = keyOf entry)
    (absent : ∀ other, other ∈ front → keyOf other ≠ keyOf entry)
    (back : List α) :
    putChain keyOf entry (front ++ old :: back) =
      front ++ entry :: back := by
  have found : findChain keyOf (keyOf old) (front ++ old :: back) = some old :=
    findChain_middle (by rw [sameKey]; exact absent) back
  rw [findChain, sameKey] at found
  rw [putChain, found]
  exact replaceFirst_middle sameKey absent back

/-- Entries that are changed without their keys, or removed, are found as what
they become. -/
theorem findChain_filterMap
    {keyOf : α → κ} {change : α → Option α}
    (sameKey :
      ∀ entry changed, change entry = some changed →
        keyOf changed = keyOf entry)
    {chain : List α} (single : (chain.map keyOf).Nodup) (key : κ) :
    findChain keyOf key (chain.filterMap change) =
      (findChain keyOf key chain).bind change := by
  induction chain with
  | nil => rfl
  | cons head tail inductionHypothesis =>
      rw [List.map_cons, List.nodup_cons] at single
      obtain ⟨notLater, laterSingle⟩ := single
      rw [findChain_cons]
      by_cases here : keyOf head = key
      · rw [if_pos here, Option.bind_some]
        cases changes : change head with
        | none =>
            rw [List.filterMap_cons_none changes,
              inductionHypothesis laterSingle]
            have absent : findChain keyOf key tail = none := by
              apply findChain_eq_none_iff.mpr
              intro entry member same
              apply notLater
              rw [here, ← same]
              exact List.mem_map_of_mem member
            rw [absent]
            rfl
        | some changed =>
            rw [List.filterMap_cons_some changes, findChain_cons,
              if_pos ((sameKey head changed changes).trans here)]
      · rw [if_neg here, ← inductionHypothesis laterSingle]
        cases changes : change head with
        | none => rw [List.filterMap_cons_none changes]
        | some changed =>
            have away : keyOf changed ≠ key := by
              rw [sameKey head changed changes]
              exact here
            rw [List.filterMap_cons_some changes, findChain_cons,
              if_neg away]

section Tables

variable {n : Nat}

def find (keyOf : α → κ) (slotOf : κ → Fin n) (chains : Fin n → List α)
    (key : κ) : Option α :=
  findChain keyOf key (chains (slotOf key))

/-- The table with the entry put into the chain of its key. -/
def put (keyOf : α → κ) (slotOf : κ → Fin n) (chains : Fin n → List α)
    (entry : α) : Fin n → List α :=
  Function.update chains (slotOf (keyOf entry))
    (putChain keyOf entry (chains (slotOf (keyOf entry))))

variable (keyOf : α → κ) (slotOf : κ → Fin n) (chains : Fin n → List α)

@[simp]
theorem find_put_self (entry : α) :
    find keyOf slotOf (put keyOf slotOf chains entry) (keyOf entry) =
      some entry := by
  rw [find, put]
  rw [Function.update_self]
  exact findChain_putChain_self keyOf entry _

theorem find_put_other
    {entry : α} {key : κ} (different : keyOf entry ≠ key) :
    find keyOf slotOf (put keyOf slotOf chains entry) key =
      find keyOf slotOf chains key := by
  unfold find put
  by_cases sameChain : slotOf key = slotOf (keyOf entry)
  · rw [sameChain, Function.update_self]
    exact findChain_putChain_other keyOf different _
  · rw [Function.update_of_ne sameChain]

end Tables

/-! ## All entries -/

theorem map_replaceFirst (keyOf : α → κ) (entry : α) (chain : List α) :
    (putChain.replaceFirst keyOf entry chain).map keyOf =
      chain.map keyOf := by
  induction chain with
  | nil => rfl
  | cons head tail inductionHypothesis =>
      rw [putChain.replaceFirst]
      by_cases here : keyOf head = keyOf entry
      · rw [if_pos here, List.map_cons, List.map_cons, here]
      · rw [if_neg here, List.map_cons, List.map_cons, inductionHypothesis]

/-- An entry put into a chain replaces its key there, or adds it in front. -/
theorem map_putChain (keyOf : α → κ) (entry : α) (chain : List α) :
    (putChain keyOf entry chain).map keyOf = chain.map keyOf ∨
      ((putChain keyOf entry chain).map keyOf =
          keyOf entry :: chain.map keyOf ∧
        keyOf entry ∉ chain.map keyOf) := by
  rw [putChain]
  split
  · rename_i absent
    right
    refine ⟨rfl, ?_⟩
    intro member
    obtain ⟨other, inChain, sameKey⟩ := List.mem_map.mp member
    have different := List.find?_eq_none.mp absent other inChain
    exact different (by simpa using sameKey)
  · exact Or.inl (map_replaceFirst keyOf entry chain)

theorem mem_replaceFirst
    {keyOf : α → κ} {entry other : α} {chain : List α}
    (member : other ∈ putChain.replaceFirst keyOf entry chain) :
    other = entry ∨ other ∈ chain := by
  induction chain with
  | nil => cases member
  | cons head tail inductionHypothesis =>
      rw [putChain.replaceFirst] at member
      split at member
      · rcases List.mem_cons.mp member with same | later
        · exact Or.inl same
        · exact Or.inr (List.mem_cons_of_mem _ later)
      · rcases List.mem_cons.mp member with same | later
        · exact Or.inr (by rw [same]; exact List.mem_cons_self)
        · rcases inductionHypothesis later with same | inTail
          · exact Or.inl same
          · exact Or.inr (List.mem_cons_of_mem _ inTail)

theorem mem_putChain
    {keyOf : α → κ} {entry other : α} {chain : List α}
    (member : other ∈ putChain keyOf entry chain) :
    other = entry ∨ other ∈ chain := by
  unfold putChain at member
  split at member
  · exact List.mem_cons.mp member
  · exact mem_replaceFirst member

variable {n : Nat}

/-- Every entry is in the chain of its key, and no key is twice in a chain. -/
structure Placed (keyOf : α → κ) (slotOf : κ → Fin n)
    (chains : Fin n → List α) : Prop where
  home :
    ∀ slot entry, entry ∈ chains slot → slotOf (keyOf entry) = slot
  single : ∀ slot, ((chains slot).map keyOf).Nodup

/-- The entries, chain after chain. -/
def entries (chains : Fin n → List α) : List α :=
  (List.finRange n).flatMap chains

theorem mem_entries_iff {chains : Fin n → List α} {entry : α} :
    entry ∈ entries chains ↔ ∃ slot, entry ∈ chains slot := by
  rw [entries]
  rw [List.mem_flatMap]
  simp only [List.mem_finRange, true_and]

namespace Placed

variable {keyOf : α → κ} {slotOf : κ → Fin n} {chains : Fin n → List α}

theorem put (placed : Placed keyOf slotOf chains) (entry : α) :
    Placed keyOf slotOf (put keyOf slotOf chains entry) := by
  refine ⟨?_, ?_⟩
  · intro slot other member
    unfold ChainedTable.put at member
    by_cases here : slot = slotOf (keyOf entry)
    · rw [here, Function.update_self] at member
      rcases mem_putChain member with same | old
      · rw [same, here]
      · rw [here]
        exact placed.home _ other old
    · rw [Function.update_of_ne here] at member
      exact placed.home slot other member
  · intro slot
    unfold ChainedTable.put
    by_cases here : slot = slotOf (keyOf entry)
    · rw [here, Function.update_self]
      rcases map_putChain keyOf entry (chains (slotOf (keyOf entry))) with
        same | ⟨longer, absent⟩
      · rw [same]
        exact placed.single _
      · rw [longer]
        exact List.nodup_cons.mpr ⟨absent, placed.single _⟩
    · rw [Function.update_of_ne here]
      exact placed.single slot

omit [DecidableEq κ] in
/-- Removing entries, and changing others without their keys, keeps the
placing. -/
theorem filterMap
    (placed : Placed keyOf slotOf chains) (change : α → Option α)
    (sameKey :
      ∀ entry changed, change entry = some changed →
        keyOf changed = keyOf entry) :
    Placed keyOf slotOf fun slot => (chains slot).filterMap change := by
  have keys :
      ∀ chain : List α,
        ((chain.filterMap change).map keyOf).Sublist (chain.map keyOf) := by
    intro chain
    induction chain with
    | nil => exact .slnil
    | cons head tail inductionHypothesis =>
        cases changed : change head with
        | none =>
            rw [List.filterMap_cons_none changed]
            exact inductionHypothesis.cons _
        | some after =>
            rw [List.filterMap_cons_some changed, List.map_cons,
              List.map_cons, sameKey head after changed]
            exact inductionHypothesis.cons_cons _
  refine ⟨?_, ?_⟩
  · intro slot entry member
    obtain ⟨old, inChain, changed⟩ := List.mem_filterMap.mp member
    rw [sameKey old entry changed]
    exact placed.home slot old inChain
  · exact fun slot => (placed.single slot).sublist (keys (chains slot))

/-- The entries are those that are found under their keys. -/
theorem mem_entries_iff_find
    (placed : Placed keyOf slotOf chains) {entry : α} :
    entry ∈ entries chains ↔
      find keyOf slotOf chains (keyOf entry) = some entry := by
  rw [mem_entries_iff]
  constructor
  · intro given
    obtain ⟨slot, member⟩ := given
    rw [find, placed.home slot entry member]
    have single := placed.single slot
    obtain ⟨front, back, shape⟩ := List.append_of_mem member
    rw [shape]
    rw [shape, List.map_append, List.map_cons, List.nodup_middle,
      List.nodup_cons, List.mem_append, not_or] at single
    apply findChain_middle
    intro other inFront same
    exact single.1.1 (same ▸ List.mem_map_of_mem inFront)
  · intro found
    exact ⟨_, List.mem_of_find?_eq_some found⟩

omit [DecidableEq κ] in
/-- No key is twice in the table. -/
theorem nodup_entries (placed : Placed keyOf slotOf chains) :
    ((entries chains).map keyOf).Nodup := by
  rw [entries]
  rw [List.map_flatMap, List.nodup_flatMap]
  refine ⟨fun slot _ => placed.single slot, ?_⟩
  apply List.Pairwise.imp _ (List.nodup_finRange n)
  intro first second different key inFirst inSecond
  obtain ⟨entry, member, isKey⟩ := List.mem_map.mp inFirst
  obtain ⟨other, alsoMember, alsoKey⟩ := List.mem_map.mp inSecond
  apply different
  rw [← placed.home first entry member, ← placed.home second other alsoMember,
    isKey, alsoKey]

end Placed

end DnsFirewall.ChainedTable
