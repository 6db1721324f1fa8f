import DnsFirewall.Wire.Sections
import Mathlib.Algebra.Order.Group.Multiset

/-!
# The heap of section arrays

Which section arrays are allocated, over many calls of `dns_parse_message` and
`dns_free_message`.  Every array gets a name of its own, so that an array that
is released twice is noticed.  A message owns the arrays that it points to,
whether the parser has accepted its packet or not.
-/

namespace DnsFirewall

open CString Cursor

/-- The place of a section in a message. -/
def MessageSection.place : MessageSection → Nat
  | .questions => 0
  | .answers => 1
  | .authorities => 2
  | .additionals => 3

/-- The arrays that are allocated, the name of the next one, what `free` was
given without it being allocated, and the packets that were parsed, newest
first. -/
structure ArrayHeap where
  next : Address
  live : Multiset Address
  misfreed : List Address
  parsed : List Bytes

namespace ArrayHeap

def free (h : ArrayHeap) (array : Address) : ArrayHeap :=
  if array ∈ h.live then { h with live := h.live.erase array }
  else { h with misfreed := array :: h.misfreed }

/-- `dns_free_message`, which also clears the pointers. -/
def freeMessage (h : ArrayHeap) (pointers : SectionPointers) :
    ArrayHeap :=
  (dnsFreeMessage pointers).foldl free h

/-- `dns_parse_message`, on a structure with the given pointers. -/
def parse (h : ArrayHeap) (buf : Bytes) (previous : SectionPointers) :
    (Except ReadError DnsMessage × SectionPointers) × ArrayHeap :=
  let (result, m) :=
    dnsParseMessageInto (fun s => some (h.next + s.place)) buf previous
  ((result, m.pointers),
    { h with
      next := h.next + 4
      live := m.allocated + h.live
      parsed := buf :: h.parsed })

/-- The arrays have names that were given out, each its own. -/
structure Fresh (h : ArrayHeap) : Prop where
  nodup : h.live.Nodup
  below : ∀ array, array ∈ h.live → array < h.next

end ArrayHeap

/-- How many arrays the parser leaves allocated for a packet. -/
def arraysOf (buf : Bytes) : Nat :=
  (dnsFreeMessage
    (dnsParseMessageInto (fun s => some s.place) buf
      fun _ => none).2.pointers).length

/-! ## What the parser allocates -/

namespace ParseMemory

/-- The pointers are those to the arrays of the call, each the one for its
section, and the sections from the given place on have none. -/
structure Complete (array : MessageSection → Address) (m : ParseMemory)
    (place : Nat) : Prop where
  perm : (dnsFreeMessage m.pointers).Perm m.allocated
  named : ∀ s found, m.pointers s = some found → found = array s
  untouched : ∀ s, place ≤ s.place → m.pointers s = none

theorem filterMap_update_perm
    {α β : Type} [DecidableEq α] {pick : α → Option β} {key : α}
    (unset : pick key = none) (value : β) {keys : List α}
    (nodup : keys.Nodup) (member : key ∈ keys) :
    (keys.filterMap (Function.update pick key (some value))).Perm
      (value :: keys.filterMap pick) := by
  induction keys with
  | nil => cases member
  | cons first keys inductionHypothesis =>
      rw [List.nodup_cons] at nodup
      by_cases here : first = key
      · subst here
        have others :
            keys.filterMap (Function.update pick first (some value)) =
              keys.filterMap pick := by
          apply List.filterMap_congr
          intro other isOther
          apply Function.update_of_ne
          intro same
          subst same
          exact nodup.1 isOther
        rw [List.filterMap_cons, Function.update_self, others,
          List.filterMap_cons, unset]
      · have later := List.mem_of_ne_of_mem (Ne.symm here) member
        have rest := inductionHypothesis nodup.2 later
        rw [List.filterMap_cons, List.filterMap_cons,
          Function.update_of_ne here]
        cases pick first with
        | none => exact rest
        | some other => exact (rest.cons other).trans (List.Perm.swap _ _ _)

variable {array : MessageSection → Address}

theorem complete_cleared : ParseMemory.cleared.Complete array 0 where
  perm := List.Perm.refl _
  named := fun _ _ => nofun
  untouched := fun _ _ => rfl

theorem Complete.assign
    {m : ParseMemory} {s : MessageSection}
    (complete : m.Complete array s.place) :
    (m.assign s (some (array s))).Complete array (s.place + 1) where
  perm := by
    rw [ParseMemory.assign, dnsFreeMessage]
    have member :
        s ∈ [MessageSection.questions, .answers, .authorities,
          .additionals] := by
      cases s <;> simp
    exact
      (filterMap_update_perm (complete.untouched s (le_refl _)) (array s)
        (by decide) member).trans (complete.perm.cons (array s))
  named := by
    intro other found points
    simp only [ParseMemory.assign] at points
    by_cases here : other = s
    · subst here
      rw [Function.update_self] at points
      exact (Option.some.inj points).symm
    · rw [Function.update_of_ne here] at points
      exact complete.named other found points
  untouched := by
    intro other behind
    have differs : other ≠ s := by
      intro same
      subst same
      omega
    simp only [ParseMemory.assign, Function.update_of_ne differs]
    exact complete.untouched other (by omega)

theorem Complete.mono
    {m : ParseMemory} {place later : Nat}
    (complete : m.Complete array place) (below : place ≤ later) :
    m.Complete array later where
  perm := complete.perm
  named := complete.named
  untouched := fun s behind => complete.untouched s (le_trans below behind)

end ParseMemory

section Allocating

variable {array : MessageSection → Address}

theorem parseSection_complete
    {α : Type} (s : MessageSection) (count : UInt16)
    (read : Reader ReadError α) (offset : Nat) {m : ParseMemory}
    (complete : m.Complete array s.place) :
    (parseSection (fun s => some (array s)) s count read offset
      m).2.Complete array (s.place + 1) := by
  rw [parseSection]
  split
  · exact complete.mono (Nat.le_succ _)
  · exact complete.assign

theorem andThen_complete
    {α β : Type} {step : Except ReadError (List α × Nat) × ParseMemory}
    {next : List α → Nat → ParseMemory → Except ReadError β × ParseMemory}
    {place : Nat} (first : step.2.Complete array place) (below : place ≤ 4)
    (second : ∀ items offset m, m.Complete array place →
      (next items offset m).2.Complete array 4) :
    (andThen step next).2.Complete array 4 := by
  obtain ⟨result, m⟩ := step
  cases result with
  | error failure => exact first.mono below
  | ok found => exact second found.1 found.2 m first

/-- Behind the test of the length the message has all arrays of the call. -/
theorem dnsParseMessageInto_complete
    (array : MessageSection → Address) {buf : Bytes}
    (long : 12 ≤ buf.length) (previous : SectionPointers) :
    (dnsParseMessageInto (fun s => some (array s)) buf
      previous).2.Complete array 4 := by
  rw [dnsParseMessageInto, if_neg (Nat.not_lt.mpr long)]
  cases readHeader buf with
  | error failure =>
      exact ParseMemory.complete_cleared.mono (by decide)
  | ok header =>
      apply andThen_complete
        (parseSection_complete .questions _ _ _
          ParseMemory.complete_cleared) (by decide)
      intro questions offset m complete
      apply andThen_complete
        (parseSection_complete .answers _ _ _ complete) (by decide)
      intro answers offset m complete
      apply andThen_complete
        (parseSection_complete .authorities _ _ _ complete) (by decide)
      intro authorities offset m complete
      apply andThen_complete
        (parseSection_complete .additionals _ _ _ complete) (by decide)
      intro additionals offset m complete
      exact complete

end Allocating

/-- The same pointers are null. -/
def SamePointers (left right : SectionPointers) : Prop :=
  ∀ s, (left s).isSome = (right s).isSome

theorem SamePointers.length_eq
    {left right : SectionPointers} (same : SamePointers left right) :
    (dnsFreeMessage left).length = (dnsFreeMessage right).length := by
  rw [dnsFreeMessage, dnsFreeMessage]
  generalize
    [MessageSection.questions, .answers, .authorities, .additionals] = keys
  induction keys with
  | nil => rfl
  | cons s keys inductionHypothesis =>
      have here := same s
      rw [List.filterMap_cons, List.filterMap_cons]
      cases first : left s with
      | none =>
          cases second : right s with
          | none => exact inductionHypothesis
          | some other =>
              rw [first, second] at here
              cases here
      | some array =>
          cases second : right s with
          | none =>
              rw [first, second] at here
              cases here
          | some other =>
              rw [List.length_cons, List.length_cons, inductionHypothesis]

section Naming

variable {left right : MessageSection → Address}

theorem parseSection_same
    {α : Type} (s : MessageSection) (count : UInt16)
    (read : Reader ReadError α) (offset : Nat) {m n : ParseMemory}
    (same : SamePointers m.pointers n.pointers) :
    let first :=
      parseSection (fun s => some (left s)) s count read offset m
    let second :=
      parseSection (fun s => some (right s)) s count read offset n
    first.1 = second.1 ∧
      SamePointers first.2.pointers second.2.pointers := by
  intro first second
  refine ⟨?_, ?_⟩
  · exact
      (parseSection_reads rfl count read offset m).trans
        (parseSection_reads rfl count read offset n).symm
  · simp only [first, second, parseSection]
    split
    · exact same
    · intro other
      simp only [ParseMemory.assign]
      by_cases here : other = s
      · rw [here, Function.update_self, Function.update_self]
        rfl
      · rw [Function.update_of_ne here, Function.update_of_ne here]
        exact same other

theorem andThen_same
    {α β : Type}
    {first second : Except ReadError (List α × Nat) × ParseMemory}
    {next other :
      List α → Nat → ParseMemory → Except ReadError β × ParseMemory}
    (step : first.1 = second.1 ∧
      SamePointers first.2.pointers second.2.pointers)
    (rest : ∀ items offset m n, SamePointers m.pointers n.pointers →
      SamePointers (next items offset m).2.pointers
        (other items offset n).2.pointers) :
    SamePointers (andThen first next).2.pointers
      (andThen second other).2.pointers := by
  obtain ⟨result, m⟩ := first
  obtain ⟨result', n⟩ := second
  obtain ⟨sameResult, same⟩ := step
  subst sameResult
  cases result with
  | error failure => exact same
  | ok found => exact rest found.1 found.2 m n same

/-- Which arrays there are does not depend on their names. -/
theorem dnsParseMessageInto_same
    {buf : Bytes} (long : 12 ≤ buf.length)
    (previous other : SectionPointers) :
    SamePointers
      (dnsParseMessageInto (fun s => some (left s)) buf
        previous).2.pointers
      (dnsParseMessageInto (fun s => some (right s)) buf
        other).2.pointers := by
  rw [dnsParseMessageInto, dnsParseMessageInto,
    if_neg (Nat.not_lt.mpr long), if_neg (Nat.not_lt.mpr long)]
  cases readHeader buf with
  | error failure => exact fun _ => rfl
  | ok header =>
      apply andThen_same (parseSection_same .questions _ _ _ fun _ => rfl)
      intro questions offset m n same
      apply andThen_same (parseSection_same .answers _ _ _ same)
      intro answers offset m n same
      apply andThen_same (parseSection_same .authorities _ _ _ same)
      intro authorities offset m n same
      apply andThen_same (parseSection_same .additionals _ _ _ same)
      intro additionals offset m n same
      exact same

end Naming

/-! ## The heap -/

namespace ArrayHeap

variable (h : ArrayHeap) (buf : Bytes) (previous : SectionPointers)

/-- The parser reads the packet as it does without the heap. -/
theorem parse_result :
    (h.parse buf previous).1.1 = dnsParseMessage buf :=
  dnsParseMessageInto_fst (fun _ => ⟨_, rfl⟩) buf previous

/-- What a parsed packet has allocated belongs to its message. -/
theorem parse_live {buf : Bytes} (long : 12 ≤ buf.length) :
    (h.parse buf previous).2.live =
      dnsFreeMessage (h.parse buf previous).1.2 + h.live := by
  have complete :=
    dnsParseMessageInto_complete (fun s => h.next + s.place) long previous
  exact
    congrArg (fun arrays : Multiset Address => arrays + h.live)
      (Multiset.coe_eq_coe.mpr complete.perm).symm

theorem parse_length {buf : Bytes} (long : 12 ≤ buf.length) :
    (dnsFreeMessage (h.parse buf previous).1.2).length = arraysOf buf :=
  (dnsParseMessageInto_same long previous _).length_eq

/-- Releasing arrays that are allocated leaves the others. -/
theorem foldl_free
    {arrays : List Address} {rest : Multiset Address}
    (allocated : h.live = arrays + rest) :
    arrays.foldl free h = { h with live := rest } := by
  induction arrays generalizing h with
  | nil =>
      rw [Multiset.coe_nil, Multiset.zero_add] at allocated
      rw [← allocated]
      rfl
  | cons array arrays inductionHypothesis =>
      have shape : h.live = array ::ₘ (arrays + rest) := by
        rw [allocated, ← Multiset.cons_coe, Multiset.cons_add]
      have released : h.free array = { h with live := arrays + rest } := by
        rw [free, if_pos (by rw [shape]; exact Multiset.mem_cons_self _ _),
          shape, Multiset.erase_cons_head]
      rw [List.foldl_cons, released]
      exact inductionHypothesis _ rfl

theorem freeMessage_eq
    {pointers : SectionPointers} {rest : Multiset Address}
    (allocated : h.live = dnsFreeMessage pointers + rest) :
    h.freeMessage pointers = { h with live := rest } :=
  h.foldl_free allocated

theorem Fresh.parse_long
    {h : ArrayHeap} (fresh : h.Fresh) {buf : Bytes}
    (long : 12 ≤ buf.length) (previous : SectionPointers) :
    (h.parse buf previous).2.Fresh := by
  have complete :=
    dnsParseMessageInto_complete (fun s => h.next + s.place) long previous
  have live := h.parse_live previous long
  have named :
      ∀ array, array ∈ dnsFreeMessage (h.parse buf previous).1.2 →
        ∃ s : MessageSection, array = h.next + s.place := by
    intro array member
    obtain ⟨s, points⟩ := mem_dnsFreeMessage.mp member
    exact ⟨s, complete.named s array points⟩
  have nodup : (dnsFreeMessage (h.parse buf previous).1.2).Nodup := by
    rw [dnsFreeMessage]
    apply List.Nodup.filterMap _ (by decide)
    intro first second array isFirst isSecond
    have places :=
      (complete.named first array isFirst).symm.trans
        (complete.named second array isSecond)
    revert places
    cases first <;> cases second <;> simp [MessageSection.place]
  have place : ∀ s : MessageSection, s.place < 4 := by
    intro s
    cases s <;> decide
  constructor
  · rw [live, Multiset.nodup_add]
    refine ⟨Multiset.coe_nodup.mpr nodup, fresh.nodup, ?_⟩
    rw [Multiset.disjoint_left]
    intro array isNew isOld
    obtain ⟨s, isName⟩ := named array isNew
    subst isName
    exact
      Nat.not_lt.mpr (Nat.le_add_right _ _) (fresh.below _ isOld)
  · intro array member
    have next : (h.parse buf previous).2.next = h.next + 4 := rfl
    rw [next]
    rw [live] at member
    rcases Multiset.mem_add.mp member with isNew | isOld
    · obtain ⟨s, isName⟩ := named array isNew
      subst isName
      exact Nat.add_lt_add_left (place s) h.next
    · exact Nat.lt_add_right 4 (fresh.below array isOld)

/-- In front of the test of the length nothing is allocated. -/
theorem parse_short {buf : Bytes} (short : ¬ 12 ≤ buf.length) :
    h.parse buf previous =
      ((.error .reject, previous),
        { h with next := h.next + 4, parsed := buf :: h.parsed }) := by
  rw [parse, dnsParseMessageInto, if_pos (Nat.not_le.mp short)]
  simp only [Multiset.coe_nil, Multiset.zero_add]

theorem Fresh.parse
    {h : ArrayHeap} (fresh : h.Fresh) (buf : Bytes)
    (previous : SectionPointers) :
    (h.parse buf previous).2.Fresh := by
  by_cases long : 12 ≤ buf.length
  · exact fresh.parse_long long previous
  · rw [parse_short _ _ long]
    exact
      ⟨fresh.nodup, fun array member =>
        Nat.lt_add_right 4 (fresh.below array member)⟩

theorem Fresh.foldl_free
    {h : ArrayHeap} (fresh : h.Fresh) (arrays : List Address) :
    (arrays.foldl free h).Fresh := by
  induction arrays generalizing h with
  | nil => exact fresh
  | cons array arrays inductionHypothesis =>
      apply inductionHypothesis
      rw [free]
      split
      · exact
          ⟨fresh.nodup.erase array, fun other member =>
            fresh.below other (Multiset.mem_of_mem_erase member)⟩
      · exact ⟨fresh.nodup, fresh.below⟩

theorem Fresh.freeMessage
    {h : ArrayHeap} (fresh : h.Fresh) (pointers : SectionPointers) :
    (h.freeMessage pointers).Fresh :=
  fresh.foldl_free _

/-- Between the heaps these packets were parsed, newest first, and these arrays
have come to stay. -/
structure Since (before after : ArrayHeap) (reads : List Bytes)
    (kept : Multiset Address) : Prop where
  fresh : before.Fresh → after.Fresh
  misfreed : after.misfreed = before.misfreed
  parsed : after.parsed = reads ++ before.parsed
  live : after.live = kept + before.live

namespace Since

theorem refl (h : ArrayHeap) : Since h h [] 0 where
  fresh := id
  misfreed := rfl
  parsed := rfl
  live := (Multiset.zero_add _).symm

theorem trans
    {first second third : ArrayHeap} {reads more : List Bytes}
    {kept other : Multiset Address} (step : Since first second reads kept)
    (next : Since second third more other) :
    Since first third (more ++ reads) (other + kept) where
  fresh := fun fresh => next.fresh (step.fresh fresh)
  misfreed := next.misfreed.trans step.misfreed
  parsed := by rw [next.parsed, step.parsed, List.append_assoc]
  live := by rw [next.live, step.live, Multiset.add_assoc]

/-- What a message has can be released. -/
theorem freeMessage
    {before after : ArrayHeap} {reads : List Bytes}
    {kept : Multiset Address} {pointers : SectionPointers}
    (since : Since before after reads (dnsFreeMessage pointers + kept)) :
    Since before (after.freeMessage pointers) reads kept := by
  have live := since.live
  rw [Multiset.add_assoc] at live
  rw [after.freeMessage_eq live]
  refine ⟨?_, since.misfreed, since.parsed, rfl⟩
  intro fresh
  rw [← after.freeMessage_eq live]
  exact (since.fresh fresh).freeMessage pointers

end Since

theorem since_parse {buf : Bytes} (long : 12 ≤ buf.length) :
    Since h (h.parse buf previous).2 [buf]
      (dnsFreeMessage (h.parse buf previous).1.2) where
  fresh := fun fresh => fresh.parse buf previous
  misfreed := rfl
  parsed := rfl
  live := h.parse_live previous long

end ArrayHeap

/-! ## Accepted and rejected packets -/

theorem length_of_parsed
    {buf : Bytes} {message : DnsMessage}
    (parsed : dnsParseMessage buf = .ok message) :
    12 ≤ buf.length := by
  by_contra short
  rw [dnsParseMessage, if_pos (Nat.not_le.mp short)] at parsed
  cases parsed

/-- The arrays of the packets that the parser rejects. -/
def rejectedArrays (reads : List Bytes) : Nat :=
  (reads.map fun buf =>
    match dnsParseMessage buf with
    | .ok _ => 0
    | .error _ => arraysOf buf).sum

theorem rejectedArrays_append (first second : List Bytes) :
    rejectedArrays (first ++ second) =
      rejectedArrays first + rejectedArrays second := by
  rw [rejectedArrays, List.map_append, List.sum_append]
  rfl

theorem rejectedArrays_ok
    {buf : Bytes} {message : DnsMessage}
    (parsed : dnsParseMessage buf = .ok message) :
    rejectedArrays [buf] = 0 := by
  simp [rejectedArrays, parsed]

/-- A packet that is rejected leaves its arrays behind. -/
theorem ArrayHeap.exists_since_rejected
    (h : ArrayHeap) (previous : SectionPointers) {buf : Bytes}
    {failure : ReadError} (rejected : dnsParseMessage buf = .error failure) :
    ∃ kept : Multiset Address,
      ArrayHeap.Since h (h.parse buf previous).2 [buf] kept ∧
        kept.card = rejectedArrays [buf] := by
  have count : rejectedArrays [buf] = arraysOf buf := by
    simp [rejectedArrays, rejected]
  rw [count]
  by_cases long : 12 ≤ buf.length
  · refine ⟨_, h.since_parse previous long, ?_⟩
    rw [Multiset.coe_card]
    exact h.parse_length previous long
  · refine ⟨0, ⟨fun fresh => fresh.parse buf previous, ?_, ?_, ?_⟩, ?_⟩
    · rfl
    · rfl
    · rw [h.parse_short previous long, Multiset.zero_add]
    · rw [arraysOf, dnsParseMessageInto, if_pos (Nat.not_le.mp long)]
      rfl

end DnsFirewall
