import DnsFirewall.Foundations.Lines
import Mathlib.Data.List.Basic

/-!
# Text read through a window

A reader with a buffer of a fixed size takes a line in one read when it fits,
and in several reads, each as long as the buffer, when it does not.
-/

namespace DnsFirewall.Windows

variable {α : Type} [DecidableEq α]

/-- One read: it ends behind the first separator, or when the buffer is full.
The second part is what is left of the text. -/
def readWindow (separator : α) : Nat → List α → List α × List α
  | 0, text => ([], text)
  | _ + 1, [] => ([], [])
  | room + 1, head :: tail =>
      if head = separator then
        ([head], tail)
      else
        let (window, rest) := readWindow separator room tail
        (head :: window, rest)

/-- All reads up to the end of the text. -/
def windows (separator : α) (room : Nat) : Nat → List α → List (List α)
  | 0, _ => []
  | _ + 1, [] => []
  | fuel + 1, head :: tail =>
      let (window, rest) := readWindow separator room (head :: tail)
      window :: windows separator room fuel rest

/-- The part of a list that starts a number of windows behind its start. -/
def part (room index : Nat) (line : List α) : List α :=
  (line.drop (room * index)).take room

/-- A line with its end: no separator in front of its last element, and the
rest of the text is empty when it has none there. -/
structure WholeLine (separator : α) (line rest : List α) : Prop where
  nonempty : line ≠ []
  plain : separator ∉ line.dropLast
  ended : line.getLast? = some separator ∨ rest = []

omit [DecidableEq α] in
theorem wholeLine_of_ended
    {separator : α} {front : List α} (plain : separator ∉ front)
    (rest : List α) :
    WholeLine separator (front ++ [separator]) rest where
  nonempty := by simp
  plain := by
    rw [List.dropLast_concat]
    exact plain
  ended := Or.inl List.getLast?_concat

omit [DecidableEq α] in
theorem wholeLine_of_unended
    {separator : α} {line : List α} (nonempty : line ≠ [])
    (plain : separator ∉ line) :
    WholeLine separator line [] where
  nonempty := nonempty
  plain := fun member => plain (List.dropLast_subset line member)
  ended := Or.inr rfl

omit [DecidableEq α] in
theorem WholeLine.tail
    {separator head next : α} {tail rest : List α}
    (whole : WholeLine separator (head :: next :: tail) rest) :
    head ≠ separator ∧ WholeLine separator (next :: tail) rest := by
  obtain ⟨nonempty, plain, ended⟩ := whole
  rw [List.dropLast_cons_of_ne_nil (List.cons_ne_nil next tail)] at plain
  have different : head ≠ separator := by
    intro same
    exact plain (same ▸ List.mem_cons_self)
  have plainTail : separator ∉ (next :: tail).dropLast :=
    fun member => plain (List.mem_cons_of_mem head member)
  refine ⟨different, List.cons_ne_nil next tail, plainTail, ?_⟩
  rw [List.getLast?_cons_cons] at ended
  exact ended

omit [DecidableEq α] in
theorem WholeLine.drop
    {separator : α} {line rest : List α} {count : Nat}
    (whole : WholeLine separator line rest) (short : count < line.length) :
    WholeLine separator (line.drop count) rest := by
  induction count generalizing line with
  | zero => exact whole
  | succ count inductionHypothesis =>
      match line, whole, short with
      | [head], whole, short => exact absurd short (by simp)
      | head :: next :: tail, whole, short =>
          exact
            inductionHypothesis whole.tail.2
              (Nat.lt_of_succ_lt_succ short)

/-- A line that fits is read in one go, and of a longer one as much as the
buffer holds. -/
theorem readWindow_line
    {separator : α} {line rest : List α} (room : Nat)
    (whole : WholeLine separator line rest) :
    readWindow separator room (line ++ rest) =
      (line.take room, line.drop room ++ rest) := by
  induction room generalizing line with
  | zero => rfl
  | succ room inductionHypothesis =>
      match line, whole with
      | [], whole => exact absurd rfl whole.nonempty
      | [head], whole =>
          rw [List.singleton_append, readWindow]
          by_cases isEnd : head = separator
          · rw [if_pos isEnd]
            simp
          · have nothing : rest = [] := by
              rcases whole.ended with last | nothing
              · exact absurd (Option.some.inj last) isEnd
              · exact nothing
            rw [if_neg isEnd, nothing]
            cases room <;> simp [readWindow]
      | head :: next :: tail, whole =>
          obtain ⟨different, wholeTail⟩ := whole.tail
          rw [List.cons_append, readWindow, if_neg different,
            inductionHypothesis wholeTail]
          simp

omit [DecidableEq α] in
theorem part_zero (room : Nat) (line : List α) :
    part room 0 line = line.take room :=
  rfl

omit [DecidableEq α] in
theorem part_succ (room index : Nat) (line : List α) :
    part room (index + 1) line = part room index (line.drop room) := by
  rw [part, part, List.drop_drop, Nat.mul_succ, Nat.add_comm]

theorem length_readWindow
    (separator : α) {room : Nat} (positive : 0 < room) (head : α)
    (tail : List α) :
    (readWindow separator room (head :: tail)).2.length ≤ tail.length := by
  induction room generalizing head tail with
  | zero => exact absurd positive (Nat.lt_irrefl 0)
  | succ room inductionHypothesis =>
      rw [readWindow]
      by_cases isEnd : head = separator
      · simp [isEnd]
      · rw [if_neg isEnd]
        match room, tail with
        | 0, tail => exact Nat.le_refl tail.length
        | room + 1, [] => exact Nat.le_refl 0
        | room + 1, next :: tail =>
            have later :=
              inductionHypothesis (Nat.succ_pos room) next tail
            exact Nat.le_succ_of_le later

/-- Fuel for each element is enough. -/
theorem windows_congr
    {separator : α} {room : Nat} (positive : 0 < room)
    {fuel other : Nat} {text : List α} (enough : text.length ≤ fuel)
    (otherEnough : text.length ≤ other) :
    windows separator room fuel text = windows separator room other text := by
  induction fuel generalizing other text with
  | zero =>
      have empty : text = [] :=
        List.eq_nil_of_length_eq_zero (Nat.le_zero.mp enough)
      rw [empty]
      cases other <;> rfl
  | succ fuel inductionHypothesis =>
      match other, text, enough, otherEnough with
      | other, [], _, _ => cases other <;> rfl
      | other + 1, head :: tail, enough, otherEnough =>
          have left := length_readWindow separator positive head tail
          rw [windows, windows]
          apply congrArg (_ :: ·)
          apply inductionHypothesis
          · exact Nat.le_trans left (Nat.le_of_succ_le_succ enough)
          · exact Nat.le_trans left (Nat.le_of_succ_le_succ otherEnough)

/-- All reads of a text. -/
def readAll (separator : α) (room : Nat) (text : List α) : List (List α) :=
  windows separator room text.length text

/-- A read leaves what it does not take. -/
theorem readWindow_append (separator : α) (room : Nat) (text : List α) :
    (readWindow separator room text).1 ++
      (readWindow separator room text).2 = text := by
  induction room generalizing text with
  | zero => rfl
  | succ room inductionHypothesis =>
      cases text with
      | nil => rfl
      | cons head tail =>
          rw [readWindow]
          by_cases isEnd : head = separator
          · simp [isEnd]
          · rw [if_neg isEnd]
            exact congrArg (head :: ·) (inductionHypothesis tail)

/-- The reads one behind the other are the text. -/
theorem flatten_readAll
    (separator : α) {room : Nat} (positive : 0 < room) (text : List α) :
    (readAll separator room text).flatten = text := by
  have enough :
      ∀ (fuel : Nat) (text : List α), text.length ≤ fuel →
        (windows separator room fuel text).flatten = text := by
    intro fuel
    induction fuel with
    | zero =>
        intro text short
        rw [List.eq_nil_of_length_eq_zero (Nat.le_zero.mp short)]
        rfl
    | succ fuel inductionHypothesis =>
        intro text short
        cases text with
        | nil => rfl
        | cons head tail =>
            have left := length_readWindow separator positive head tail
            have rest :=
              inductionHypothesis _
                (Nat.le_trans left (Nat.le_of_succ_le_succ short))
            rw [windows, List.flatten_cons, rest]
            exact readWindow_append separator room (head :: tail)
  exact enough text.length text (Nat.le_refl _)

theorem readAll_line
    {separator : α} {room : Nat} {line rest : List α}
    (positive : 0 < room) (whole : WholeLine separator line rest) :
    readAll separator room (line ++ rest) =
      line.take room :: readAll separator room (line.drop room ++ rest) := by
  have read := readWindow_line room whole
  match line, whole with
  | [], whole => exact absurd rfl whole.nonempty
  | head :: tail, whole =>
      have left := length_readWindow separator positive head (tail ++ rest)
      rw [List.cons_append] at read
      rw [read] at left
      rw [readAll, List.cons_append, List.length_cons, windows, read]
      exact congrArg (_ :: ·) (windows_congr positive left (Nat.le_refl _))

theorem readAll_nil (separator : α) (room : Nat) :
    readAll separator room [] = [] :=
  rfl

/-- Lines that fit are read one by one. -/
theorem readAll_terminated
    {separator : α} {room : Nat} {lines : List (List α)}
    (fits :
      ∀ line, line ∈ lines → separator ∉ line ∧ line.length < room)
    (rest : List α) :
    readAll separator room (Lines.terminated separator lines ++ rest) =
      lines.map (· ++ [separator]) ++ readAll separator room rest := by
  induction lines with
  | nil => rfl
  | cons line lines inductionHypothesis =>
      obtain ⟨plain, short⟩ := fits line List.mem_cons_self
      have later :=
        inductionHypothesis fun other member =>
          fits other (List.mem_cons_of_mem line member)
      have whole := wholeLine_of_ended plain
        (Lines.terminated separator lines ++ rest)
      have length : (line ++ [separator]).length ≤ room := by
        rw [List.length_append]
        exact short
      rw [Lines.terminated] at later whole ⊢
      rw [List.flatMap_cons, List.append_assoc,
        readAll_line (by omega) whole, List.take_of_length_le length,
        List.drop_of_length_le length, List.nil_append, later]
      rfl

/-- What stands behind the last separator is read in one go if it fits. -/
theorem readAll_last
    {separator : α} {room : Nat} {last : List α} (positive : 0 < room)
    (plain : separator ∉ last) (short : last.length ≤ room) :
    readAll separator room last = if last = [] then [] else [last] := by
  by_cases empty : last = []
  · rw [if_pos empty, empty, readAll_nil]
  · have whole := wholeLine_of_unended empty plain
    have read := readAll_line positive whole
    rw [List.append_nil, List.append_nil, List.take_of_length_le short,
      List.drop_of_length_le short, readAll_nil] at read
    rw [if_neg empty, read]

/-- The reads of a text are the parts of its first line and the reads of the
rest. -/
theorem mem_readAll_line
    {separator : α} {room : Nat} {line rest window : List α}
    (positive : 0 < room) (whole : WholeLine separator line rest) :
    window ∈ readAll separator room (line ++ rest) ↔
      (∃ index, room * index < line.length ∧
          window = part room index line) ∨
        window ∈ readAll separator room rest := by
  induction size : line.length using Nat.strongRecOn
    generalizing line with
  | ind size inductionHypothesis =>
      subst size
      rw [readAll_line positive whole, List.mem_cons]
      by_cases fits : line.length ≤ room
      · rw [List.drop_of_length_le fits, List.nil_append]
        apply or_congr_left
        constructor
        · intro isFirst
          exact ⟨0, List.length_pos_of_ne_nil whole.nonempty, isFirst⟩
        · intro found
          obtain ⟨index, inside, isPart⟩ := found
          cases index with
          | zero => exact isPart
          | succ index =>
              rw [Nat.mul_succ] at inside
              omega
      · have shorter : room < line.length := Nat.lt_of_not_le fits
        have later :=
          inductionHypothesis (line.drop room).length
            (by rw [List.length_drop]; omega) (whole.drop shorter) rfl
        rw [later, ← or_assoc]
        apply or_congr_left
        constructor
        · intro given
          rcases given with isFirst | found
          · exact ⟨0, List.length_pos_of_ne_nil whole.nonempty, isFirst⟩
          · obtain ⟨index, inside, isPart⟩ := found
            rw [List.length_drop] at inside
            refine ⟨index + 1, by rw [Nat.mul_succ]; omega, ?_⟩
            rw [part_succ]
            exact isPart
        · intro found
          obtain ⟨index, inside, isPart⟩ := found
          cases index with
          | zero => exact Or.inl isPart
          | succ index =>
              rw [Nat.mul_succ] at inside
              right
              refine ⟨index, by rw [List.length_drop]; omega, ?_⟩
              rw [← part_succ]
              exact isPart

end DnsFirewall.Windows
