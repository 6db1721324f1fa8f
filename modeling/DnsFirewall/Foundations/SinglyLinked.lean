import Mathlib.Data.List.Nodup
import Mathlib.Data.List.Perm.Subperm
import Mathlib.Logic.Function.Basic

/-!
# Singly linked chains

Nodes in a memory, each with a value and the address of the next one.  A chain
is described by the list of its nodes, each with its address; what happens to
other addresses does not concern it.  A loop that walks a chain and changes
nodes or takes them out leaves the chain of the nodes that stay, whichever
nodes those are.
-/

namespace DnsFirewall.SinglyLinked

variable {α : Type}

/-- A node: `none` is the null pointer. -/
structure Node (α : Type) where
  value : α
  next : Option Nat

/-- The nodes that are allocated, all below a bound. -/
structure Memory (α : Type) where
  cells : Nat → Option (Node α)
  bound : Nat
  beyond : ∀ place, bound ≤ place → cells place = none

namespace Memory

/-- Nothing is allocated. -/
def empty : Memory α :=
  ⟨fun _ => none, 0, fun _ _ => rfl⟩

def write (memory : Memory α) (place : Nat) (node : Node α) : Memory α where
  cells := Function.update memory.cells place (some node)
  bound := max memory.bound (place + 1)
  beyond := by
    intro other outside
    rw [Function.update_of_ne (by omega)]
    exact memory.beyond other (by omega)

def free (memory : Memory α) (place : Nat) : Memory α where
  cells := Function.update memory.cells place none
  bound := memory.bound
  beyond := by
    intro other outside
    by_cases same : other = place
    · rw [same, Function.update_self]
    · rw [Function.update_of_ne same]
      exact memory.beyond other outside

@[simp]
theorem write_self (memory : Memory α) (place : Nat) (node : Node α) :
    (memory.write place node).cells place = some node :=
  Function.update_self ..

theorem write_other
    (memory : Memory α) {place other : Nat} (node : Node α)
    (different : other ≠ place) :
    (memory.write place node).cells other = memory.cells other :=
  Function.update_of_ne different ..

theorem free_other
    (memory : Memory α) {place other : Nat} (different : other ≠ place) :
    (memory.free place).cells other = memory.cells other :=
  Function.update_of_ne different ..

theorem lt_bound
    {memory : Memory α} {place : Nat} {node : Node α}
    (live : memory.cells place = some node) :
    place < memory.bound := by
  by_contra outside
  rw [memory.beyond place (Nat.le_of_not_lt outside)] at live
  cases live

end Memory

/-- An allocator: it gives an address that is not in use. -/
structure Allocator (α : Type) where
  malloc : Memory α → Nat
  unused : ∀ memory : Memory α, memory.cells (malloc memory) = none

/-- One gives the first address behind all that were given. -/
instance : Inhabited (Allocator α) where
  default :=
    { malloc := Memory.bound
      unused := fun memory => memory.beyond memory.bound (Nat.le_refl _) }

/-! ## Chains -/

/-- The nodes from one pointer to another. -/
def Segment (memory : Memory α) :
    Option Nat → List (Nat × α) → Option Nat → Prop
  | first, [], last => first = last
  | first, (place, value) :: nodes, last =>
      first = some place ∧
        ∃ next,
          memory.cells place = some ⟨value, next⟩ ∧
            Segment memory next nodes last

/-- The nodes from a pointer to the end of its chain. -/
def Chain (memory : Memory α) (first : Option Nat)
    (nodes : List (Nat × α)) : Prop :=
  Segment memory first nodes none

/-- The addresses of the nodes. -/
def places (nodes : List (Nat × α)) : List Nat :=
  nodes.map Prod.fst

/-- A chain depends on its own addresses only. -/
theorem Segment.frame
    {memory other : Memory α} {first last : Option Nat}
    {nodes : List (Nat × α)} (segment : Segment memory first nodes last)
    (same :
      ∀ place, place ∈ places nodes →
        other.cells place = memory.cells place) :
    Segment other first nodes last := by
  induction nodes generalizing first with
  | nil => exact segment
  | cons node nodes inductionHypothesis =>
      obtain ⟨place, value⟩ := node
      obtain ⟨atPlace, next, live, later⟩ := segment
      refine ⟨atPlace, next, ?_, ?_⟩
      · rw [same place List.mem_cons_self]
        exact live
      · apply inductionHypothesis later
        intro further member
        exact same further (List.mem_cons_of_mem place member)

theorem segment_append_iff
    {memory : Memory α} {first last : Option Nat}
    {front back : List (Nat × α)} :
    Segment memory first (front ++ back) last ↔
      ∃ middle,
        Segment memory first front middle ∧
          Segment memory middle back last := by
  induction front generalizing first with
  | nil =>
      constructor
      · intro segment
        exact ⟨first, rfl, segment⟩
      · intro given
        obtain ⟨middle, same, segment⟩ := given
        cases same
        exact segment
  | cons node front inductionHypothesis =>
      obtain ⟨place, value⟩ := node
      constructor
      · intro segment
        obtain ⟨atPlace, next, live, later⟩ := segment
        obtain ⟨middle, before, behind⟩ := inductionHypothesis.mp later
        exact ⟨middle, ⟨atPlace, next, live, before⟩, behind⟩
      · intro given
        obtain ⟨middle, segment, behind⟩ := given
        obtain ⟨atPlace, next, live, before⟩ := segment
        exact
          ⟨atPlace, next, live,
            inductionHypothesis.mpr ⟨middle, before, behind⟩⟩

/-- Every node of a chain is allocated. -/
theorem Segment.live
    {memory : Memory α} {first last : Option Nat} {nodes : List (Nat × α)}
    (segment : Segment memory first nodes last) {place : Nat}
    (member : place ∈ places nodes) :
    ∃ node, memory.cells place = some node := by
  induction nodes generalizing first with
  | nil => cases member
  | cons node nodes inductionHypothesis =>
      obtain ⟨here, value⟩ := node
      obtain ⟨_, next, live, later⟩ := segment
      rcases List.mem_cons.mp member with same | further
      · rw [same]
        exact ⟨_, live⟩
      · exact inductionHypothesis later further

/-- The bound of the memory bounds the number of nodes. -/
theorem Segment.length_le
    {memory : Memory α} {first last : Option Nat} {nodes : List (Nat × α)}
    (segment : Segment memory first nodes last)
    (distinct : (places nodes).Nodup) :
    nodes.length ≤ memory.bound := by
  have inside : places nodes ⊆ List.range memory.bound := by
    intro place member
    obtain ⟨node, live⟩ := segment.live member
    exact List.mem_range.mpr (Memory.lt_bound live)
  have fits := (distinct.subperm inside).length_le
  rw [places, List.length_map, List.length_range] at fits
  exact fits

/-! ## Looking for a node -/

/-- The loop that looks for a node: `some none` is the end of the chain, and
`none` a pointer to no node or a chain that does not end. -/
def search (memory : Memory α) (test : α → Bool) :
    Nat → Option Nat → Option (Option (Nat × Node α))
  | _, none => some none
  | 0, some _ => none
  | fuel + 1, some place =>
      match memory.cells place with
      | none => none
      | some node =>
          if test node.value then some (some (place, node))
          else search memory test fuel node.next

/-- A node of a chain that is the first one to pass a test. -/
structure FirstPassing (memory : Memory α) (nodes : List (Nat × α))
    (test : α → Bool) (front : List (Nat × α)) (place : Nat) (node : Node α)
    (back : List (Nat × α)) : Prop where
  shape : nodes = front ++ (place, node.value) :: back
  live : memory.cells place = some node
  passes : test node.value = true
  failed : ∀ before, before ∈ front → test before.2 = false

theorem FirstPassing.behind
    {memory : Memory α} {nodes front back : List (Nat × α)}
    {test : α → Bool} {place : Nat} {node : Node α}
    (found : FirstPassing memory nodes test front place node back)
    {head : Nat × α} (fails : test head.2 = false) :
    FirstPassing memory (head :: nodes) test (head :: front) place node
      back where
  shape := by rw [found.shape, List.cons_append]
  live := found.live
  passes := found.passes
  failed before member := by
    rcases List.mem_cons.mp member with same | further
    · rw [same]
      exact fails
    · exact found.failed before further

theorem search_cons
    {memory : Memory α} {place : Nat} {node : Node α}
    (live : memory.cells place = some node) (test : α → Bool) (fuel : Nat) :
    search memory test (fuel + 1) (some place) =
      if test node.value then some (some (place, node))
      else search memory test fuel node.next := by
  rw [search, live]

/-- The loop finds the first node that passes, or none does. -/
theorem search_of_chain
    {memory : Memory α} {first : Option Nat} {nodes : List (Nat × α)}
    (chain : Chain memory first nodes) (test : α → Bool) {fuel : Nat}
    (enough : nodes.length ≤ fuel) :
    (search memory test fuel first = some none ∧
        ∀ node, node ∈ nodes → test node.2 = false) ∨
      ∃ front place node back,
        search memory test fuel first = some (some (place, node)) ∧
          FirstPassing memory nodes test front place node back := by
  induction nodes generalizing first fuel with
  | nil =>
      left
      have atEnd : first = none := chain
      rw [atEnd]
      refine ⟨by cases fuel with | zero => rfl | succ fuel => rfl, ?_⟩
      intro node member
      cases member
  | cons node nodes inductionHypothesis =>
      obtain ⟨place, value⟩ := node
      obtain ⟨atPlace, next, live, later⟩ := chain
      cases fuel with
      | zero => exact absurd enough (Nat.not_succ_le_zero _)
      | succ fuel =>
          rw [atPlace, search_cons live test fuel]
          cases here : test value with
          | true =>
              right
              refine ⟨[], place, ⟨value, next⟩, nodes, ?_, rfl, live, here, ?_⟩
              · simp
              · intro before member
                cases member
          | false =>
              simp only [Bool.false_eq_true, if_false]
              rcases
                  inductionHypothesis later (Nat.le_of_succ_le_succ enough) with
                none | found
              · left
                refine ⟨none.1, ?_⟩
                intro node member
                rcases List.mem_cons.mp member with same | further
                · rw [same]
                  exact here
                · exact none.2 node further
              · right
                obtain ⟨front, other, node, back, result, found⟩ := found
                exact
                  ⟨(place, value) :: front, other, node, back, result,
                    found.behind here⟩

/-- The loop that visits a chain and picks something from its values. -/
def collect {β : Type} (memory : Memory α) (pick : α → Option β) :
    Nat → Option Nat → Option (List β)
  | _, none => some []
  | 0, some _ => none
  | fuel + 1, some place =>
      match memory.cells place with
      | none => none
      | some node =>
          (collect memory pick fuel node.next).map fun picked =>
            (pick node.value).toList ++ picked

theorem collect_of_chain
    {β : Type} {memory : Memory α} {first : Option Nat}
    {nodes : List (Nat × α)} (chain : Chain memory first nodes)
    (pick : α → Option β) {fuel : Nat} (enough : nodes.length ≤ fuel) :
    collect memory pick fuel first =
      some ((nodes.map Prod.snd).filterMap pick) := by
  induction nodes generalizing first fuel with
  | nil =>
      have atEnd : first = none := chain
      rw [atEnd]
      cases fuel with
      | zero => rfl
      | succ fuel => rfl
  | cons node nodes inductionHypothesis =>
      obtain ⟨place, value⟩ := node
      obtain ⟨atPlace, next, live, later⟩ := chain
      cases fuel with
      | zero => exact absurd enough (Nat.not_succ_le_zero _)
      | succ fuel =>
          have rest :=
            inductionHypothesis later (Nat.le_of_succ_le_succ enough)
          rw [atPlace, collect, live]
          simp only
          rw [rest, Option.map_some, List.map_cons, List.filterMap_cons]
          cases pick value with
          | none => rfl
          | some picked => rfl

/-! ## Walking and taking out -/

/-- The nodes that stay, with what becomes of them. -/
def kept (change : α → Option α) (nodes : List (Nat × α)) :
    List (Nat × α) :=
  nodes.filterMap fun node => (change node.2).map (Prod.mk node.1)

/-- The loop that walks a chain behind the node `prev`: a node that `change`
gives nothing for is taken out of the chain and freed. -/
def walk (change : α → Option α) :
    Nat → Memory α → Option Nat → Option Nat → Option Nat →
      Option (Memory α × Option Nat)
  | _, memory, first, _, none => some (memory, first)
  | 0, _, _, _, some _ => none
  | fuel + 1, memory, first, prev, some place =>
      match memory.cells place with
      | none => none
      | some node =>
          match change node.value with
          | some value =>
              walk change fuel (memory.write place { node with value }) first
                (some place) node.next
          | none =>
              match prev with
              | none =>
                  walk change fuel (memory.free place) node.next none node.next
              | some before =>
                  match memory.cells before with
                  | none => none
                  | some last =>
                      let memory :=
                        memory.write before { last with next := node.next }
                      walk change fuel (memory.free place) first prev node.next

/-- The address of the last node. -/
def lastPlace (nodes : List (Nat × α)) : Option Nat :=
  nodes.getLast?.map Prod.fst

@[simp]
theorem places_cons (place : Nat) (value : α) (nodes : List (Nat × α)) :
    places ((place, value) :: nodes) = place :: places nodes :=
  rfl

@[simp]
theorem places_append (front back : List (Nat × α)) :
    places (front ++ back) = places front ++ places back :=
  List.map_append

@[simp]
theorem lastPlace_concat (nodes : List (Nat × α)) (node : Nat × α) :
    lastPlace (nodes ++ [node]) = some node.1 := by
  simp [lastPlace]

theorem kept_cons_some
    {change : α → Option α} {value changed : α}
    (stays : change value = some changed) (place : Nat)
    (nodes : List (Nat × α)) :
    kept change ((place, value) :: nodes) =
      (place, changed) :: kept change nodes := by
  simp [kept, stays]

theorem kept_cons_none
    {change : α → Option α} {value : α} (goes : change value = none)
    (place : Nat) (nodes : List (Nat × α)) :
    kept change ((place, value) :: nodes) = kept change nodes := by
  simp [kept, goes]

theorem places_kept_sublist
    (change : α → Option α) (nodes : List (Nat × α)) :
    (places (kept change nodes)).Sublist (places nodes) := by
  induction nodes with
  | nil => exact List.Sublist.slnil
  | cons node nodes inductionHypothesis =>
      obtain ⟨place, value⟩ := node
      cases becomes : change value with
      | none =>
          rw [kept_cons_none becomes]
          exact inductionHypothesis.cons place
      | some changed =>
          rw [kept_cons_some becomes, places_cons, places_cons]
          exact inductionHypothesis.cons_cons place

/-- What holds at the head of the loop: a chain of the nodes that are done and
those that are to be walked, none of them twice. -/
structure Walking (memory : Memory α) (first : Option Nat)
    (done : List (Nat × α)) (current : Option Nat)
    (rest : List (Nat × α)) : Prop where
  front : Segment memory first done current
  back : Segment memory current rest none
  distinct : (places (done ++ rest)).Nodup

namespace Walking

variable {memory : Memory α} {first next : Option Nat} {place before : Nat}
variable {value changed last : α} {done rest : List (Nat × α)}

/-- The addresses of the others are not that of the node. -/
theorem apart
    (walking :
      Walking memory first done (some place) ((place, value) :: rest)) :
    place ∉ places done ∧ place ∉ places rest ∧
      (places (done ++ rest)).Nodup := by
  have distinct := walking.distinct
  rw [places_append, places_cons, List.nodup_middle, List.nodup_cons,
    List.mem_append, not_or] at distinct
  rw [places_append]
  exact ⟨distinct.1.1, distinct.1.2, distinct.2⟩

/-- Behind the node the chain goes on at its successor. -/
theorem back_next
    (walking :
      Walking memory first done (some place) ((place, value) :: rest))
    (live : memory.cells place = some ⟨value, next⟩) :
    Segment memory next rest none := by
  obtain ⟨_, other, alsoLive, later⟩ := walking.back
  rw [live] at alsoLive
  cases alsoLive
  exact later

/-- The node stays, and is the next `prev`. -/
theorem keep
    (walking :
      Walking memory first done (some place) ((place, value) :: rest))
    (live : memory.cells place = some ⟨value, next⟩) :
    Walking (memory.write place ⟨changed, next⟩) first
      (done ++ [(place, changed)]) next rest := by
  obtain ⟨notDone, notLater, _⟩ := walking.apart
  have distinct := walking.distinct
  refine ⟨?_, ?_, ?_⟩
  · apply segment_append_iff.mpr
    refine ⟨some place, ?_, rfl, next, Memory.write_self memory place _, rfl⟩
    apply walking.front.frame
    intro here member
    apply Memory.write_other
    intro same
    exact notDone (same ▸ member)
  · apply (walking.back_next live).frame
    intro here member
    apply Memory.write_other
    intro same
    exact notLater (same ▸ member)
  · simpa using distinct

/-- The first node goes, and its successor is the first one. -/
theorem dropFirst
    (walking :
      Walking memory first [] (some place) ((place, value) :: rest))
    (live : memory.cells place = some ⟨value, next⟩) :
    Walking (memory.free place) next [] next rest := by
  obtain ⟨_, notLater, distinct⟩ := walking.apart
  refine ⟨rfl, ?_, distinct⟩
  apply (walking.back_next live).frame
  intro here member
  apply Memory.free_other
  intro same
  exact notLater (same ▸ member)

/-- The node in front of the one that is walked points to it. -/
theorem live_before
    (walking :
      Walking memory first (done ++ [(before, last)]) (some place)
        ((place, value) :: rest)) :
    Segment memory first done (some before) ∧
      memory.cells before = some ⟨last, some place⟩ := by
  obtain ⟨middle, front, atMiddle, next, live, ends⟩ :=
    segment_append_iff.mp walking.front
  rw [atMiddle] at front
  have same : next = some place := ends
  rw [same] at live
  exact ⟨front, live⟩

/-- The node goes, and the one in front of it gets its successor. -/
theorem drop
    (walking :
      Walking memory first (done ++ [(before, last)]) (some place)
        ((place, value) :: rest))
    (live : memory.cells place = some ⟨value, next⟩) :
    Walking ((memory.write before ⟨last, next⟩).free place) first
      (done ++ [(before, last)]) next rest := by
  obtain ⟨notDone, notLater, distinct⟩ := walking.apart
  obtain ⟨front, _⟩ := walking.live_before
  have others :
      ∀ here, here ≠ before → here ≠ place →
        ((memory.write before ⟨last, next⟩).free place).cells here =
          memory.cells here := by
    intro here notBefore notPlace
    rw [Memory.free_other _ notPlace, Memory.write_other _ _ notBefore]
  rw [places_append, places_cons] at notDone
  have different : before ≠ place := by
    intro same
    exact notDone (List.mem_append_right _ (same ▸ List.mem_cons_self))
  have whole := distinct
  rw [List.append_assoc, List.singleton_append, places_append, places_cons,
    List.nodup_middle, List.nodup_cons, List.mem_append, not_or] at whole
  obtain ⟨⟨beforeNotDone, beforeNotLater⟩, _⟩ := whole
  refine ⟨?_, ?_, distinct⟩
  · apply segment_append_iff.mpr
    refine ⟨some before, ?_, rfl, next, ?_, rfl⟩
    · apply front.frame
      intro here member
      apply others here
      · intro same
        exact beforeNotDone (same ▸ member)
      · intro same
        exact notDone (List.mem_append_left _ (same ▸ member))
    · rw [Memory.free_other _ different]
      exact Memory.write_self memory before _
  · apply (walking.back_next live).frame
    intro here member
    apply others here
    · intro same
      exact beforeNotLater (same ▸ member)
    · intro same
      exact notLater (same ▸ member)

end Walking

/-- What one pass of the loop does at a node: what comes next is walked with
one node less, the nodes that stay in the end are the same, and no address is
changed but those of the chain. -/
structure Passes (change : α → Option α) (memory : Memory α)
    (first : Option Nat) (done rest : List (Nat × α)) (place : Nat)
    (value : α) (after : Memory α) (newFirst : Option Nat)
    (newDone : List (Nat × α)) (next : Option Nat) : Prop where
  goesOn :
    ∀ fuel,
      walk change (fuel + 1) memory first (lastPlace done) (some place) =
        walk change fuel after newFirst (lastPlace newDone) next
  walking : Walking after newFirst newDone next rest
  stays :
    newDone ++ kept change rest = done ++ kept change ((place, value) :: rest)
  frame :
    ∀ other, other ∉ places (done ++ (place, value) :: rest) →
      other ∉ places (newDone ++ rest) ∧
        after.cells other = memory.cells other

section Pass

variable {change : α → Option α} {memory : Memory α}
variable {first next : Option Nat} {place before : Nat}
variable {value changed last : α} {done rest : List (Nat × α)}

theorem not_mem_places_iff {other : Nat} :
    other ∉ places (done ++ (place, value) :: rest) ↔
      other ≠ place ∧ other ∉ places (done ++ rest) := by
  simp only [places_append, places_cons, List.mem_append, List.mem_cons,
    not_or]
  exact and_left_comm

theorem passes_keep
    (walking :
      Walking memory first done (some place) ((place, value) :: rest))
    (live : memory.cells place = some ⟨value, next⟩)
    (becomes : change value = some changed) :
    Passes change memory first done rest place value
      (memory.write place ⟨changed, next⟩) first
      (done ++ [(place, changed)]) next where
  goesOn fuel := by
    rw [walk, live, lastPlace_concat]
    simp only [becomes]
  walking := walking.keep live
  stays := by
    rw [kept_cons_some becomes, List.append_assoc, List.singleton_append]
  frame other outside := by
    obtain ⟨different, elsewhere⟩ := not_mem_places_iff.mp outside
    rw [List.append_assoc, List.singleton_append]
    exact
      ⟨not_mem_places_iff.mpr ⟨different, elsewhere⟩,
        Memory.write_other memory _ different⟩

/-- Without a `prev`, the first pointer of the chain changes. -/
theorem passes_dropFirst
    (walking :
      Walking memory first [] (some place) ((place, value) :: rest))
    (live : memory.cells place = some ⟨value, next⟩)
    (becomes : change value = none) :
    Passes change memory first [] rest place value (memory.free place) next
      [] next where
  goesOn fuel := by
    rw [walk, live]
    simp only [becomes]
    rfl
  walking := walking.dropFirst live
  stays := by rw [kept_cons_none becomes]
  frame other outside := by
    obtain ⟨different, elsewhere⟩ := not_mem_places_iff.mp outside
    exact ⟨elsewhere, Memory.free_other memory different⟩

theorem passes_drop
    (walking :
      Walking memory first (done ++ [(before, last)]) (some place)
        ((place, value) :: rest))
    (live : memory.cells place = some ⟨value, next⟩)
    (becomes : change value = none) :
    Passes change memory first (done ++ [(before, last)]) rest place value
      ((memory.write before ⟨last, next⟩).free place) first
      (done ++ [(before, last)]) next where
  goesOn fuel := by
    obtain ⟨_, liveBefore⟩ := walking.live_before
    rw [lastPlace_concat, walk, live]
    simp only [becomes, liveBefore]
  walking := walking.drop live
  stays := by rw [kept_cons_none becomes]
  frame other outside := by
    obtain ⟨different, elsewhere⟩ := not_mem_places_iff.mp outside
    have notBefore : other ≠ before := by
      intro equal
      apply elsewhere
      simp [equal]
    refine ⟨elsewhere, ?_⟩
    rw [Memory.free_other _ different, Memory.write_other _ _ notBefore]

/-- Whatever `change` gives, the loop goes on. -/
theorem exists_passes
    (change : α → Option α)
    (walking :
      Walking memory first done (some place) ((place, value) :: rest)) :
    ∃ after newFirst newDone next,
      Passes change memory first done rest place value after newFirst
        newDone next := by
  obtain ⟨_, next, live, _⟩ := walking.back
  cases becomes : change value with
  | some changed => exact ⟨_, _, _, _, passes_keep walking live becomes⟩
  | none =>
      rcases List.eq_nil_or_concat' done with
        empty | ⟨nodes, ⟨before, last⟩, shape⟩
      · subst empty
        exact ⟨_, _, _, _, passes_dropFirst walking live becomes⟩
      · subst shape
        exact ⟨_, _, _, _, passes_drop walking live becomes⟩

end Pass

/-- The loop leaves the chain of the nodes that are done and those of the
others that stay, and changes no other address. -/
theorem walk_of_walking
    {change : α → Option α} {memory : Memory α}
    {first current : Option Nat} {done rest : List (Nat × α)}
    (walking : Walking memory first done current rest) {fuel : Nat}
    (enough : rest.length ≤ fuel) :
    ∃ after first',
      walk change fuel memory first (lastPlace done) current =
          some (after, first') ∧
        Chain after first' (done ++ kept change rest) ∧
          ∀ place, place ∉ places (done ++ rest) →
            after.cells place = memory.cells place := by
  induction rest generalizing memory first current done fuel with
  | nil =>
      have atEnd : current = none := walking.back
      subst atEnd
      refine ⟨memory, first, ?_, ?_, fun _ _ => rfl⟩
      · cases fuel with
        | zero => rfl
        | succ fuel => rfl
      · rw [kept, List.filterMap_nil, List.append_nil]
        exact walking.front
  | cons node rest inductionHypothesis =>
      obtain ⟨place, value⟩ := node
      obtain ⟨atPlace, _⟩ := walking.back
      subst atPlace
      cases fuel with
      | zero => exact absurd enough (Nat.not_succ_le_zero _)
      | succ fuel =>
          obtain ⟨between, newFirst, newDone, next, pass⟩ :=
            exists_passes change walking
          obtain ⟨after, first', walked, chain, same⟩ :=
            inductionHypothesis pass.walking
              (Nat.le_of_succ_le_succ enough)
          refine ⟨after, first', ?_, ?_, ?_⟩
          · rw [pass.goesOn]
            exact walked
          · rw [← pass.stays]
            exact chain
          · intro other outside
            obtain ⟨elsewhere, unchanged⟩ := pass.frame other outside
            exact (same other elsewhere).trans unchanged

/-- The loop over a whole chain. -/
theorem walk_of_chain
    {change : α → Option α} {memory : Memory α} {first : Option Nat}
    {nodes : List (Nat × α)} (chain : Chain memory first nodes)
    (distinct : (places nodes).Nodup) {fuel : Nat}
    (enough : nodes.length ≤ fuel) :
    ∃ after first',
      walk change fuel memory first none first = some (after, first') ∧
        Chain after first' (kept change nodes) ∧
          ∀ place, place ∉ places nodes →
            after.cells place = memory.cells place :=
  @walk_of_walking α change memory first first [] nodes
    ⟨rfl, chain, distinct⟩ fuel enough

end DnsFirewall.SinglyLinked
