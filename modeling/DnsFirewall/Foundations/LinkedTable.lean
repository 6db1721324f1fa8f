import Mathlib.Data.List.FinRange
import DnsFirewall.Foundations.SinglyLinked

/-!
# Tables of singly linked chains

A table keeps the first address of each of its chains, and all chains share
one memory.  They do not meet: what is done to one of them leaves the others
as they are.
-/

namespace DnsFirewall.SinglyLinked

variable {α : Type} {n : Nat}

/-- Every pointer of the table leads to its own chain. -/
structure Linked (memory : Memory α) (heads : Fin n → Option Nat)
    (chains : Fin n → List (Nat × α)) : Prop where
  chain : ∀ slot, Chain memory (heads slot) (chains slot)
  distinct : ∀ slot, (places (chains slot)).Nodup
  apart :
    ∀ slot other, slot ≠ other →
      ∀ place, place ∈ places (chains slot) →
        place ∉ places (chains other)

/-- The values of the nodes in their chains. -/
def valuesOf (chains : Fin n → List (Nat × α)) : Fin n → List α :=
  fun slot => (chains slot).map Prod.snd

/-- The loop over the chains in the slots, one after the other. -/
def walkTable (change : α → Option α) :
    List (Fin n) → Memory α → (Fin n → Option Nat) →
      Option (Memory α × (Fin n → Option Nat))
  | [], memory, heads => some (memory, heads)
  | slot :: slots, memory, heads =>
      match walk change memory.bound memory (heads slot) none (heads slot) with
      | none => none
      | some (memory, first) =>
          walkTable change slots memory (Function.update heads slot first)

/-- The loop that visits the chains in the slots, one after the other. -/
def collectTable {β : Type} (pick : α → Option β) (memory : Memory α)
    (heads : Fin n → Option Nat) : List (Fin n) → Option (List β)
  | [] => some []
  | slot :: slots =>
      match collect memory pick memory.bound (heads slot) with
      | none => none
      | some picked =>
          (collectTable pick memory heads slots).map (picked ++ ·)

theorem valuesOf_update
    (chains : Fin n → List (Nat × α)) (slot : Fin n)
    (nodes : List (Nat × α)) :
    valuesOf (Function.update chains slot nodes) =
      Function.update (valuesOf chains) slot (nodes.map Prod.snd) := by
  funext other
  by_cases here : other = slot
  · rw [valuesOf, here, Function.update_self, Function.update_self]
  · rw [valuesOf, Function.update_of_ne here, Function.update_of_ne here,
      valuesOf]

theorem map_snd_kept
    (change : α → Option α) (nodes : List (Nat × α)) :
    (kept change nodes).map Prod.snd =
      (nodes.map Prod.snd).filterMap change := by
  induction nodes with
  | nil => rfl
  | cons node nodes inductionHypothesis =>
      obtain ⟨place, value⟩ := node
      cases becomes : change value with
      | none =>
          rw [kept_cons_none becomes, inductionHypothesis, List.map_cons,
            List.filterMap_cons_none becomes]
      | some changed =>
          rw [kept_cons_some becomes, List.map_cons, inductionHypothesis,
            List.map_cons, List.filterMap_cons_some becomes]

theorem linked_empty :
    Linked (Memory.empty : Memory α) (fun _ : Fin n => none) fun _ => [] where
  chain _ := rfl
  distinct _ := List.nodup_nil
  apart _ _ _ place member := by cases member

namespace Linked

variable {memory after : Memory α} {heads : Fin n → Option Nat}
variable {chains : Fin n → List (Nat × α)} {slot : Fin n}

/-- One chain is changed, with new nodes at addresses that were not in use. -/
theorem change
    (linked : Linked memory heads chains) {first : Option Nat}
    {nodes : List (Nat × α)} (chain : Chain after first nodes)
    (distinct : (places nodes).Nodup)
    (within :
      ∀ place, place ∈ places nodes →
        place ∈ places (chains slot) ∨ memory.cells place = none)
    (same :
      ∀ place, place ∉ places (chains slot) → place ∉ places nodes →
        after.cells place = memory.cells place) :
    Linked after (Function.update heads slot first)
      (Function.update chains slot nodes) := by
  have away :
      ∀ other, other ≠ slot →
        ∀ place, place ∈ places (chains other) →
          place ∉ places (chains slot) ∧ place ∉ places nodes := by
    intro other different place member
    have notHere := linked.apart other slot different place member
    refine ⟨notHere, ?_⟩
    intro inNodes
    rcases within place inNodes with here | unused
    · exact notHere here
    · obtain ⟨node, live⟩ := (linked.chain other).live member
      rw [unused] at live
      cases live
  refine ⟨?_, ?_, ?_⟩
  · intro other
    by_cases here : other = slot
    · rw [here, Function.update_self, Function.update_self]
      exact chain
    · rw [Function.update_of_ne here, Function.update_of_ne here]
      apply (linked.chain other).frame
      intro place member
      obtain ⟨notHere, notNew⟩ := away other here place member
      exact same place notHere notNew
  · intro other
    by_cases here : other = slot
    · rw [here, Function.update_self]
      exact distinct
    · rw [Function.update_of_ne here]
      exact linked.distinct other
  · intro left right different place member
    by_cases leftHere : left = slot
    · have rightAway : right ≠ slot := by
        intro rightHere
        exact different (leftHere.trans rightHere.symm)
      rw [leftHere, Function.update_self] at member
      rw [Function.update_of_ne rightAway]
      intro alsoThere
      exact (away right rightAway place alsoThere).2 member
    · rw [Function.update_of_ne leftHere] at member
      by_cases rightHere : right = slot
      · rw [rightHere, Function.update_self]
        exact (away left leftHere place member).2
      · rw [Function.update_of_ne rightHere]
        exact linked.apart left right different place member

/-- A value is replaced in its node. -/
theorem set
    (linked : Linked memory heads chains) {front back : List (Nat × α)}
    {place : Nat} {node : Node α}
    (shape : chains slot = front ++ (place, node.value) :: back)
    (live : memory.cells place = some node) (changed : α) :
    Linked (memory.write place { node with value := changed }) heads
      (Function.update chains slot (front ++ (place, changed) :: back)) := by
  obtain ⟨value, link⟩ := node
  have chain := linked.chain slot
  have distinct := linked.distinct slot
  rw [shape] at chain distinct
  have samePlaces :
      places (front ++ (place, changed) :: back) =
        places (front ++ (place, value) :: back) := by
    simp
  obtain ⟨middle, before, atPlace, next, alsoLive, behind⟩ :=
    segment_append_iff.mp chain
  rw [live] at alsoLive
  cases alsoLive
  rw [places_append, places_cons, List.nodup_middle, List.nodup_cons,
    List.mem_append, not_or] at distinct
  obtain ⟨⟨notFront, notBack⟩, _⟩ := distinct
  have others :
      ∀ here, here ≠ place →
        (memory.write place ⟨changed, link⟩).cells here =
          memory.cells here :=
    fun here different => Memory.write_other memory _ different
  have result :=
    @change α n memory (memory.write place ⟨changed, link⟩) heads chains slot
      linked (heads slot) (front ++ (place, changed) :: back)
  rw [Function.update_eq_self] at result
  apply result
  · apply segment_append_iff.mpr
    refine
      ⟨middle, ?_, atPlace, link, Memory.write_self memory place _, ?_⟩
    · apply before.frame
      intro here member
      apply others here
      intro same
      exact notFront (same ▸ member)
    · apply behind.frame
      intro here member
      apply others here
      intro same
      exact notBack (same ▸ member)
  · rw [samePlaces, ← shape]
    exact linked.distinct slot
  · intro here member
    left
    rw [shape, ← samePlaces]
    exact member
  · intro here _ outside
    apply others here
    intro same
    apply outside
    simp [same]

/-- A node at an unused address comes in front of its chain. -/
theorem push
    (linked : Linked memory heads chains) {place : Nat}
    (unused : memory.cells place = none) (value : α) :
    Linked (memory.write place ⟨value, heads slot⟩)
      (Function.update heads slot (some place))
      (Function.update chains slot ((place, value) :: chains slot)) := by
  have notHere : place ∉ places (chains slot) := by
    intro member
    obtain ⟨node, live⟩ := (linked.chain slot).live member
    rw [unused] at live
    cases live
  apply linked.change
  · refine
      ⟨rfl, heads slot, Memory.write_self memory place _, ?_⟩
    apply (linked.chain slot).frame
    intro here member
    apply Memory.write_other
    intro same
    exact notHere (same ▸ member)
  · exact List.nodup_cons.mpr ⟨notHere, linked.distinct slot⟩
  · intro here member
    rcases List.mem_cons.mp member with same | old
    · right
      rw [same]
      exact unused
    · exact Or.inl old
  · intro here _ outside
    apply Memory.write_other
    intro same
    apply outside
    simp [same]

/-- The loop over some of the chains leaves in each the nodes that stay. -/
theorem walkTable
    (change : α → Option α) {slots : List (Fin n)} (once : slots.Nodup)
    (linked : Linked memory heads chains) :
    ∃ after heads',
      SinglyLinked.walkTable change slots memory heads =
          some (after, heads') ∧
        Linked after heads' fun slot =>
          if slot ∈ slots then kept change (chains slot) else chains slot := by
  induction slots generalizing memory heads chains with
  | nil =>
      refine ⟨memory, heads, rfl, ?_⟩
      simpa using linked
  | cons slot slots inductionHypothesis =>
      obtain ⟨notLater, laterOnce⟩ := List.nodup_cons.mp once
      have chain := linked.chain slot
      have distinct := linked.distinct slot
      obtain ⟨between, first, walked, shorter, same⟩ :=
        walk_of_chain chain distinct (chain.length_le distinct)
      have sublist := places_kept_sublist change (chains slot)
      have linkedNow :=
        linked.change shorter (distinct.sublist sublist)
          (fun place member => Or.inl (sublist.subset member))
          fun place outside _ => same place outside
      obtain ⟨after, heads', rest, linkedThen⟩ :=
        inductionHypothesis laterOnce linkedNow
      refine ⟨after, heads', ?_, ?_⟩
      · rw [SinglyLinked.walkTable, walked]
        exact rest
      · convert linkedThen using 1
        funext other
        by_cases here : other = slot
        · rw [here, Function.update_self, if_pos List.mem_cons_self,
            if_neg notLater]
        · rw [Function.update_of_ne here]
          simp [here]

/-- The loop over the chains ends, and picks from all their values. -/
theorem collectTable
    {β : Type} (pick : α → Option β) (linked : Linked memory heads chains)
    (slots : List (Fin n)) :
    SinglyLinked.collectTable pick memory heads slots =
      some (slots.flatMap fun slot =>
        (valuesOf chains slot).filterMap pick) := by
  induction slots with
  | nil => rfl
  | cons slot slots inductionHypothesis =>
      have chain := linked.chain slot
      have collected :=
        collect_of_chain chain pick (chain.length_le (linked.distinct slot))
      rw [SinglyLinked.collectTable, collected]
      simp only
      rw [inductionHypothesis, Option.map_some, List.flatMap_cons, valuesOf]

end Linked

end DnsFirewall.SinglyLinked
