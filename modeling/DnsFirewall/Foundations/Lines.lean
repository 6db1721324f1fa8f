import Mathlib.Algebra.GroupWithZero.Nat

/-!
# Terminated lines

A text of lines that each end with a separator is split into the same lines
again exactly when no line contains the separator: every further separator
makes one more line.
-/

namespace DnsFirewall.Lines

variable {α : Type} [BEq α] [LawfulBEq α] {separator : α}

/-- The lines of a text, each ended by the separator. -/
def linesOf (separator : α) (text : List α) : List (List α) :=
  (text.splitOn separator).dropLast

/-- The text of the lines, each ended by the separator. -/
def terminated (separator : α) (lines : List (List α)) : List α :=
  lines.flatMap (· ++ [separator])

omit [LawfulBEq α] in
theorem length_splitOn (separator : α) (text : List α) :
    (text.splitOn separator).length = text.count separator + 1 := by
  induction text with
  | nil => rfl
  | cons head tail inductionHypothesis =>
      rw [List.splitOn_cons_eq_if_modifyHead, List.count_cons]
      by_cases here : (head == separator) = true
      · rw [if_pos here, if_pos here, List.length_cons, inductionHypothesis]
      · rw [if_neg here, if_neg here, List.length_modifyHead,
          inductionHypothesis]

omit [LawfulBEq α] in
/-- The pieces and a separator behind each are one element longer than the
text. -/
theorem sum_length_splitOn (separator : α) (text : List α) :
    ((text.splitOn separator).map (·.length + 1)).sum = text.length + 1 := by
  induction text with
  | nil => rfl
  | cons head tail later =>
      rw [List.splitOn_cons_eq_if_modifyHead, List.length_cons]
      by_cases here : (head == separator) = true
      · rw [if_pos here, List.map_cons, List.sum_cons, later, List.length_nil]
        omega
      · rw [if_neg here]
        cases pieces : tail.splitOn separator with
        | nil => exact absurd pieces (List.splitOn_ne_nil separator tail)
        | cons piece pieces =>
            rw [pieces, List.map_cons, List.sum_cons] at later
            rw [List.modifyHead_cons, List.map_cons, List.sum_cons,
              List.length_cons]
            omega

omit [LawfulBEq α] in
theorem length_linesOf (separator : α) (text : List α) :
    (linesOf separator text).length = text.count separator := by
  rw [linesOf]
  rw [List.length_dropLast, length_splitOn]
  rfl

theorem linesOf_cons
    {line : List α} (plain : separator ∉ line) (rest : List α) :
    linesOf separator (line ++ separator :: rest) =
      line :: linesOf separator rest := by
  unfold linesOf
  rw [List.splitOn_append_cons_self, List.splitOn_eq_singleton plain,
    List.singleton_append,
    List.dropLast_cons_of_ne_nil (List.splitOn_ne_nil separator rest)]

omit [BEq α] [LawfulBEq α] in
/-- With separators only between the lines the last one has none behind it. -/
theorem intercalate_concat
    (separator : α) (lines : List (List α)) (last : List α) :
    List.intercalate [separator] (lines ++ [last]) =
      terminated separator lines ++ last := by
  induction lines with
  | nil => simp [terminated]
  | cons line lines inductionHypothesis =>
      rw [List.cons_append, List.intercalate_cons_of_ne_nil (by simp),
        inductionHypothesis]
      simp [terminated]

theorem linesOf_terminated
    {lines : List (List α)}
    (plain : ∀ line, line ∈ lines → separator ∉ line) :
    linesOf separator (terminated separator lines) = lines := by
  induction lines with
  | nil => rfl
  | cons line lines inductionHypothesis =>
      have tail :=
        inductionHypothesis fun other member =>
          plain other (List.mem_cons_of_mem line member)
      rw [terminated] at tail ⊢
      rw [List.flatMap_cons, List.append_assoc, List.singleton_append,
        linesOf_cons (plain line List.mem_cons_self), tail]

theorem count_terminated_cons (line : List α) (lines : List (List α)) :
    (terminated separator (line :: lines)).count separator =
      line.count separator + 1 +
        (terminated separator lines).count separator := by
  unfold terminated
  rw [List.flatMap_cons, List.count_append, List.count_append,
    List.count_singleton_self]

theorem length_le_count_terminated (lines : List (List α)) :
    lines.length ≤ (terminated separator lines).count separator := by
  induction lines with
  | nil => exact Nat.zero_le _
  | cons line lines tail =>
      rw [count_terminated_cons, List.length_cons]
      omega

/-- As many lines as were written come out only if none of them contains the
separator. -/
theorem plain_of_length
    {lines : List (List α)}
    (length :
      (linesOf separator (terminated separator lines)).length =
        lines.length) :
    ∀ line, line ∈ lines → separator ∉ line := by
  induction lines with
  | nil =>
      intro line member
      cases member
  | cons line lines inductionHypothesis =>
      intro other member
      have atLeast := @length_le_count_terminated α _ _ separator lines
      rw [length_linesOf, count_terminated_cons, List.length_cons] at length
      rcases List.mem_cons.mp member with rfl | later
      · exact List.count_eq_zero.mp (by omega)
      · exact
          inductionHypothesis (by rw [length_linesOf]; omega) other later

end DnsFirewall.Lines
