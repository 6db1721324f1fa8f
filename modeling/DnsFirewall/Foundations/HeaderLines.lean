import DnsFirewall.Foundations.CString

/-!
# Header lines

A message of text protocols begins with lines that end in a carriage return and
a line feed, and with an empty line behind them.  Where no line is empty or has
a carriage return in it, the first empty line that a search finds is this one.
-/

namespace DnsFirewall.CString

/-- The lines, and the empty line behind them. -/
def headerText (lines : List Bytes) : Bytes :=
  lines.flatMap (· ++ [13, 10]) ++ [13, 10]

/-- A line that can be told from the empty one, and from its own end. -/
structure IsHeaderLine (line : Bytes) : Prop where
  nonempty : line ≠ []
  noReturn : 13 ∉ line

theorem headerText_cons (line : Bytes) (lines : List Bytes) :
    headerText (line :: lines) = line ++ 13 :: 10 :: headerText lines := by
  simp [headerText]

/-- A search passes over characters that do not begin what is searched for. -/
theorem strstr_append_of_notMem
    {front : Bytes} {character : UInt8} (absent : character ∉ front)
    (text pattern : Bytes) :
    strstr (front ++ text) (character :: pattern) =
      (strstr text (character :: pattern)).map (· + front.length) := by
  induction front with
  | nil => simp
  | cons first front inductionHypothesis =>
      have later : character ∉ front :=
        fun member => absent (List.mem_cons_of_mem first member)
      have elsewhere :
          (character :: pattern).isPrefixOf (first :: (front ++ text)) =
            false := by
        apply Bool.eq_false_iff.mpr
        intro begins
        obtain ⟨same, _⟩ :=
          List.cons_prefix_cons.mp (List.isPrefixOf_iff_prefix.mp begins)
        exact absent (same ▸ List.mem_cons_self)
      rw [List.cons_append, strstr, elsewhere, if_neg (by decide),
        inductionHypothesis later, Option.map_map, List.length_cons]
      rfl

theorem strstr_of_prefix {text pattern : Bytes} (begins : pattern <+: text) :
    strstr text pattern = some 0 := by
  apply strstr_eq_some_iff.mpr
  refine ⟨Nat.zero_le _, begins, ?_⟩
  intro earlier before
  exact absurd before (Nat.not_lt_zero earlier)

/-- The first line ends at the first line end. -/
theorem strstr_lineEnd
    {line : Bytes} (noReturn : 13 ∉ line) (rest : Bytes) :
    strstr (line ++ 13 :: 10 :: rest) [13, 10] = some line.length := by
  have here : strstr (13 :: 10 :: rest) [13, 10] = some 0 :=
    strstr_of_prefix ⟨rest, rfl⟩
  rw [strstr_append_of_notMem noReturn, here, Option.map_some, Nat.zero_add]

/-- Behind a line the search for an empty line goes on with the next one. -/
theorem strstr_nextLine
    {line : Bytes} (noReturn : 13 ∉ line) {rest : Bytes}
    (notEmpty : ¬ [13, 10] <+: rest) :
    strstr (line ++ 13 :: 10 :: rest) [13, 10, 13, 10] =
      (strstr rest [13, 10, 13, 10]).map (· + (line.length + 2)) := by
  have here : ([13, 10, 13, 10] : Bytes).isPrefixOf (13 :: 10 :: rest) =
      false := by
    apply Bool.eq_false_iff.mpr
    intro begins
    obtain ⟨_, feed⟩ :=
      List.cons_prefix_cons.mp (List.isPrefixOf_iff_prefix.mp begins)
    exact notEmpty (List.cons_prefix_cons.mp feed).2
  have feed :=
    @strstr_append_of_notMem [10] 13 (by decide) rest [10, 13, 10]
  rw [List.singleton_append] at feed
  rw [strstr_append_of_notMem noReturn, strstr, here, if_neg (by decide),
    feed, Option.map_map, Option.map_map]
  congr 1
  funext place
  simp only [Function.comp_apply, List.length_singleton]
  omega

theorem not_prefix_headerText
    {line : Bytes} (isLine : IsHeaderLine line) (lines : List Bytes)
    (body : Bytes) :
    ¬ [13, 10] <+: headerText (line :: lines) ++ body := by
  intro begins
  cases line with
  | nil => exact isLine.nonempty rfl
  | cons first line =>
      rw [headerText_cons, List.cons_append, List.cons_append] at begins
      obtain ⟨same, _⟩ := List.cons_prefix_cons.mp begins
      apply isLine.noReturn
      rw [same]
      exact List.mem_cons_self

/-- The first empty line of a message is the one behind its header. -/
theorem strstr_headerText
    {line : Bytes} {lines : List Bytes}
    (areLines : ∀ other, other ∈ line :: lines → IsHeaderLine other)
    (body : Bytes) :
    ∃ place,
      strstr (headerText (line :: lines) ++ body) [13, 10, 13, 10] =
          some place ∧
        place + 4 = (headerText (line :: lines)).length := by
  induction lines generalizing line with
  | nil =>
      have isLine := areLines line List.mem_cons_self
      have here :
          strstr (13 :: 10 :: (headerText [] ++ body)) [13, 10, 13, 10] =
            some 0 :=
        strstr_of_prefix ⟨body, rfl⟩
      refine ⟨line.length, ?_, ?_⟩
      · rw [headerText_cons, List.append_assoc, List.cons_append,
          List.cons_append, strstr_append_of_notMem isLine.noReturn, here,
          Option.map_some, Nat.zero_add]
      · rw [headerText_cons, List.length_append]
        rfl
  | cons next lines inductionHypothesis =>
      have isLine := areLines line List.mem_cons_self
      have later : ∀ other, other ∈ next :: lines → IsHeaderLine other :=
        fun other member => areLines other (List.mem_cons_of_mem line member)
      obtain ⟨place, found, ends⟩ := inductionHypothesis later
      have behind :=
        strstr_nextLine isLine.noReturn
          (not_prefix_headerText (later next List.mem_cons_self) lines body)
      refine ⟨place + (line.length + 2), ?_, ?_⟩
      · rw [headerText_cons, List.append_assoc, List.cons_append,
          List.cons_append, behind, found, Option.map_some]
      · rw [headerText_cons line, List.length_append, List.length_cons,
          List.length_cons, ← ends]
        omega

end DnsFirewall.CString
