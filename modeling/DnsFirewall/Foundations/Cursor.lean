import Mathlib.Data.List.Basic

/-!
# Counted readers and tilings

A reader takes an offset and yields an item together with the offset behind
it.  Reading a given number of items in a row is characterised by tilings: the
items occupy consecutive non-empty spans, the first one starting where the
cursor stood and the last one ending where it is left.
-/

namespace DnsFirewall.Cursor

variable {ε α β : Type}

/-- A reader of items of type `α` at an offset. -/
abbrev Reader (ε α : Type) := Nat → Except ε (α × Nat)

/-- Read `count` items one after the other. -/
def readMany (read : Reader ε α) : Nat → Reader ε (List α)
  | 0, offset => .ok ([], offset)
  | count + 1, offset => do
      let (item, next) ← read offset
      let (items, stop) ← readMany read count next
      return (item :: items, stop)

/-- `Tiling reads start items stop` means that the items occupy consecutive
non-empty spans from `start` to `stop`, each item standing in the relation
`reads` to the two ends of its own span. -/
inductive Tiling (reads : Nat → α → Nat → Prop) :
    Nat → List α → Nat → Prop
  | nil (start : Nat) : Tiling reads start [] start
  | cons {start next stop : Nat} {item : α} {items : List α} :
      reads start item next →
      start < next →
      Tiling reads next items stop →
      Tiling reads start (item :: items) stop

namespace Tiling

variable {reads : Nat → α → Nat → Prop}

theorem start_le_stop
    {start stop : Nat} {items : List α}
    (tiling : Tiling reads start items stop) :
    start ≤ stop := by
  induction tiling with
  | nil start =>
      exact Nat.le_refl start
  | cons _ progress _ inductionHypothesis =>
      exact Nat.le_trans (Nat.le_of_lt progress) inductionHypothesis

theorem mono
    {weaker : Nat → α → Nat → Prop}
    {start stop : Nat} {items : List α}
    (tiling : Tiling reads start items stop)
    (implies :
      ∀ left item right,
        reads left item right → weaker left item right) :
    Tiling weaker start items stop := by
  induction tiling with
  | nil start =>
      exact .nil start
  | cons readsHead progress _ inductionHypothesis =>
      exact .cons (implies _ _ _ readsHead) progress inductionHypothesis

/-- Every item of a tiling has a span of its own inside the tiled range. -/
theorem span_of_mem
    {start stop : Nat} {items : List α} {item : α}
    (tiling : Tiling reads start items stop)
    (member : item ∈ items) :
    ∃ left right,
      reads left item right ∧ start ≤ left ∧ left < right ∧
        right ≤ stop := by
  induction tiling with
  | nil start =>
      simp at member
  | @cons start next stop head items readsHead progress rest inductionHypothesis =>
      rcases List.mem_cons.mp member with equal | tailMember
      · subst equal
        exact ⟨start, next, readsHead, Nat.le_refl start, progress,
          rest.start_le_stop⟩
      · obtain ⟨left, right, readsItem, lower, proper, upper⟩ :=
          inductionHypothesis tailMember
        exact ⟨left, right, readsItem,
          Nat.le_trans (Nat.le_of_lt progress) lower, proper, upper⟩

end Tiling

/-- The item relation of a reader. -/
def Reads (read : Reader ε α) (start : Nat) (item : α) (stop : Nat) : Prop :=
  read start = .ok (item, stop)

/-- A bind succeeds exactly when both of its halves do. -/
theorem bind_eq_ok
    {first : Except ε α} {next : α → Except ε β} {result : β} :
    first >>= next = .ok result ↔
      ∃ value, first = .ok value ∧ next value = .ok result := by
  cases first with
  | error failure => simp [bind, Except.bind]
  | ok value => simp [bind, Except.bind]

/-- A bind fails where its first failing half does. -/
theorem bind_eq_error
    {first : Except ε α} {next : α → Except ε β} {failure : ε} :
    first >>= next = .error failure ↔
      first = .error failure ∨
        ∃ value, first = .ok value ∧ next value = .error failure := by
  cases first with
  | error failure => simp [bind, Except.bind]
  | ok value => simp [bind, Except.bind]

theorem readMany_succ_eq_ok
    {read : Reader ε α} {count offset stop : Nat} {items : List α} :
    readMany read (count + 1) offset = .ok (items, stop) ↔
      ∃ item next rest,
        read offset = .ok (item, next) ∧
          readMany read count next = .ok (rest, stop) ∧
            items = item :: rest := by
  simp only [readMany, bind_eq_ok, pure, Except.pure, Prod.exists]
  constructor
  · intro given
    obtain ⟨item, next, readsItem, rest, last, readsRest, same⟩ := given
    cases same
    exact ⟨item, next, rest, readsItem, readsRest, rfl⟩
  · intro given
    obtain ⟨item, next, rest, readsItem, readsRest, rfl⟩ := given
    exact ⟨item, next, readsItem, rest, stop, readsRest, rfl⟩

/-- A successful counted read yields as many items as it was asked for, and
they tile the range it moved over. -/
theorem tiling_of_readMany
    {read : Reader ε α}
    (progress :
      ∀ start item stop, read start = .ok (item, stop) → start < stop)
    {count start stop : Nat} {items : List α}
    (result : readMany read count start = .ok (items, stop)) :
    items.length = count ∧ Tiling (Reads read) start items stop := by
  induction count generalizing start items with
  | zero =>
      simp only [readMany, Except.ok.injEq, Prod.mk.injEq] at result
      obtain ⟨rfl, rfl⟩ := result
      exact ⟨rfl, .nil start⟩
  | succ count inductionHypothesis =>
      obtain ⟨item, next, rest, readsItem, readsRest, rfl⟩ :=
        readMany_succ_eq_ok.mp result
      obtain ⟨length, tiling⟩ := inductionHypothesis readsRest
      exact ⟨by simp [length],
        .cons readsItem (progress start item next readsItem) tiling⟩

/-- A counted read fails only as one of its single reads fails. -/
theorem exists_error_of_readMany
    {read : Reader ε α} {failure : ε} {count start : Nat}
    (result : readMany read count start = .error failure) :
    ∃ offset, read offset = .error failure := by
  induction count generalizing start with
  | zero => simp [readMany] at result
  | succ count inductionHypothesis =>
      rw [readMany, bind_eq_error] at result
      rcases result with headFails | ⟨⟨item, next⟩, _, restFails⟩
      · exact ⟨start, headFails⟩
      · simp only [bind_eq_error, pure, Except.pure, reduceCtorEq,
          and_false, exists_false, or_false] at restFails
        exact inductionHypothesis restFails

/-! ## Reading back encoded items -/

section Encoded

variable {γ : Type} {encode : α → List γ} {place : Nat → α → β}

/-- The items as they are read from consecutive encodings, the first one at
`start`; an item may remember where it was read. -/
def layout (encode : α → List γ) (place : Nat → α → β) :
    Nat → List α → List β
  | _, [] => []
  | start, item :: items =>
      place start item ::
        layout encode place (start + (encode item).length) items

/-- When every single encoding is read back in any context, so is a sequence
of encodings. -/
theorem readMany_flatMap
    (encode : α → List γ) (place : Nat → α → β) {read : List γ → Reader ε β}
    (single :
      ∀ (before after : List γ) (item : α),
        read (before ++ (encode item ++ after)) before.length =
          .ok (place before.length item,
            before.length + (encode item).length))
    (items : List α) (before after : List γ) :
    readMany (read (before ++ (items.flatMap encode ++ after)))
        items.length before.length =
      .ok (layout encode place before.length items,
        before.length + (items.flatMap encode).length) := by
  induction items generalizing before with
  | nil => rfl
  | cons item items inductionHypothesis =>
      have head := single before (items.flatMap encode ++ after) item
      have tail := inductionHypothesis (before ++ encode item)
      simp only [List.append_assoc, List.length_append] at tail
      simp only [List.flatMap_cons, List.append_assoc, List.length_cons,
        List.length_append, layout]
      refine readMany_succ_eq_ok.mpr ⟨_, _, _, head, ?_, rfl⟩
      rw [tail, Nat.add_assoc]

/-- A view of the items that does not depend on where they stand. -/
theorem map_layout
    (encode : α → List γ) (place : Nat → α → β) {δ : Type}
    {view : List γ → β → δ} {content : α → δ}
    (single :
      ∀ (before after : List γ) (item : α),
        view (before ++ (encode item ++ after))
            (place before.length item) =
          content item)
    (items : List α) (before after : List γ) :
    (layout encode place before.length items).map
        (view (before ++ (items.flatMap encode ++ after))) =
      items.map content := by
  induction items generalizing before with
  | nil => rfl
  | cons item items inductionHypothesis =>
      have head := single before (items.flatMap encode ++ after) item
      have tail := inductionHypothesis (before ++ encode item)
      simp only [List.append_assoc, List.length_append] at tail
      simp only [List.flatMap_cons, List.append_assoc, layout,
        List.map_cons]
      rw [head, tail]

end Encoded

end DnsFirewall.Cursor
