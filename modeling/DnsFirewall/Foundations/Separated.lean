import Mathlib.Data.List.Basic
import Mathlib.Data.List.TakeWhile

/-!
# Separated texts

A text is cut into pieces at a separator.  The pieces of one text end with
those of another exactly when the texts are equal, or the first text ends with
the second one and a separator stands in front of it.
-/

namespace DnsFirewall.Separated

variable {α : Type}

/-- Pieces in front of others are closed by a separator. -/
theorem intercalate_append
    (separator : α) {front back : List (List α)} (frontFilled : front ≠ [])
    (backFilled : back ≠ []) :
    [separator].intercalate (front ++ back) =
      [separator].intercalate front ++
        separator :: [separator].intercalate back := by
  induction front with
  | nil => exact absurd rfl frontFilled
  | cons piece front inductionHypothesis =>
      cases front with
      | nil =>
          rw [List.singleton_append,
            List.intercalate_cons_of_ne_nil backFilled,
            List.intercalate_singleton, List.append_assoc]
          rfl
      | cons next front =>
          rw [List.cons_append,
            List.intercalate_cons_of_ne_nil (by simp),
            inductionHypothesis (List.cons_ne_nil next front),
            List.intercalate_cons_of_ne_nil (List.cons_ne_nil next front)]
          simp only [List.append_assoc]

/-- Each piece but the first has a separator in front of it. -/
theorem intercalate_cons
    (separator : α) (piece : List α) (pieces : List (List α)) :
    [separator].intercalate (piece :: pieces) =
      piece ++ pieces.flatMap (separator :: ·) := by
  induction pieces generalizing piece with
  | nil => simp
  | cons next pieces inductionHypothesis =>
      rw [List.intercalate_cons_cons, inductionHypothesis,
        List.flatMap_cons]
      simp only [List.append_assoc, List.cons_append, List.nil_append]

variable [BEq α] [LawfulBEq α]

/-- A suffix of pieces is a suffix of characters at a separator. -/
theorem splitOn_suffix_iff
    (separator : α) (text whole : List α) :
    text.splitOn separator <:+ whole.splitOn separator ↔
      whole = text ∨ (separator :: text) <:+ whole := by
  constructor
  · intro given
    obtain ⟨front, pieces⟩ := given
    have rejoined :
        [separator].intercalate (front ++ text.splitOn separator) =
          whole := by
      rw [pieces, List.intercalate_splitOn]
    by_cases empty : front = []
    · subst empty
      rw [List.nil_append, List.intercalate_splitOn] at rejoined
      exact Or.inl rejoined.symm
    · rw [intercalate_append separator empty (List.splitOn_ne_nil _ _),
        List.intercalate_splitOn] at rejoined
      exact Or.inr ⟨[separator].intercalate front, rejoined⟩
  · intro given
    rcases given with rfl | ⟨front, rfl⟩
    · exact List.suffix_refl _
    · rw [List.splitOn_append_cons_self]
      exact List.suffix_append _ _

theorem suffix_of_splitOn
    {separator : α} {text whole : List α}
    (ends : text.splitOn separator <:+ whole.splitOn separator) :
    text <:+ whole := by
  rcases (splitOn_suffix_iff separator text whole).mp ends with rfl | atSeparator
  · exact List.suffix_refl _
  · exact (List.suffix_cons separator text).trans atSeparator

/-- A suffix of characters that is none of pieces starts inside a piece. -/
theorem inside_piece_iff (separator : α) (text whole : List α) :
    (text <:+ whole ∧
        ¬ text.splitOn separator <:+ whole.splitOn separator) ↔
      ∃ front character,
        character ≠ separator ∧ whole = front ++ character :: text := by
  rw [splitOn_suffix_iff]
  constructor
  · intro given
    obtain ⟨⟨front, rfl⟩, notPieces⟩ := given
    rcases List.eq_nil_or_concat front with rfl | ⟨front, character, rfl⟩
    · exact absurd (Or.inl rfl) notPieces
    · refine ⟨front, character, ?_, by simp⟩
      intro same
      subst same
      exact notPieces (Or.inr ⟨front, by simp⟩)
  · intro given
    obtain ⟨front, character, different, rfl⟩ := given
    refine ⟨⟨front ++ [character], by simp⟩, ?_⟩
    intro given
    rcases given with same | ⟨other, split⟩
    · have lengths := congrArg List.length same
      simp only [List.length_append, List.length_cons] at lengths
      omega
    · have ends := (List.append_inj' split rfl).2
      injection ends with equal
      exact different equal.symm

/-- A map that respects the separator maps the pieces. -/
theorem splitOn_map
    {β : Type} [BEq β] [LawfulBEq β] {f : α → β} {separator : α}
    {image : β} (respects : ∀ character, f character = image ↔ character = separator)
    (text : List α) :
    (text.map f).splitOn image = (text.splitOn separator).map (List.map f) := by
  induction text with
  | nil => simp [List.splitOn_eq_splitOnP]
  | cons character text inductionHypothesis =>
      rw [List.map_cons, List.splitOn_cons_eq_if_modifyHead,
        List.splitOn_cons_eq_if_modifyHead, inductionHypothesis]
      by_cases same : character = separator
      · rw [if_pos (beq_iff_eq.mpr same),
          if_pos (beq_iff_eq.mpr ((respects character).mpr same))]
        rfl
      · have different : ¬ f character = image :=
          fun equal => same ((respects character).mp equal)
        rw [if_neg (by simpa using different), if_neg (by simpa using same)]
        cases text.splitOn separator with
        | nil => rfl
        | cons piece pieces => rfl

end DnsFirewall.Separated
