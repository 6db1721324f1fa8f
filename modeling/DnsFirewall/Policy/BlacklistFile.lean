import DnsFirewall.Foundations.Windows
import DnsFirewall.Policy.Blacklist

/-!
# The file of the static blacklist

`blacklist_load_file` reads the file through a buffer of 256 bytes and skips
empty lines and comments.  A longer line arrives in parts, and each part is
trimmed and tested as if it were a line.
-/

namespace DnsFirewall

open CString Windows

/-- The string in `line` after its first CR or LF is overwritten. -/
def trimLine (line : Bytes) : Bytes :=
  line.takeWhile fun character =>
    character ≠ 0 ∧ character ≠ 13 ∧ character ≠ 10

/-- The line is empty or a comment. -/
def skipsLine (line : Bytes) : Bool :=
  line.head? = none ∨ line.head? = some 35

/-- The strings that the loop of `blacklist_load_file` passes on, in their
order: `fgets` leaves room for the NUL. -/
def listStrings (file : Bytes) : List Bytes :=
  ((readAll 10 255 file).map trimLine).filter fun line => !skipsLine line

/-- `blacklist_load_file`, with the content of the file if it can be
opened. -/
def blacklistLoadFile (bl : Blacklist) (file : Option Bytes) :
    Int × Blacklist :=
  match file with
  | none => (-1, bl)
  | some content => (0, (listStrings content).foldl blacklistAdd bl)

/-! ## Files of lines -/

/-- The text of a line: no NUL, CR or LF. -/
def PlainLine (text : Bytes) : Prop :=
  ∀ character, character ∈ text →
    character ≠ 0 ∧ character ≠ 13 ∧ character ≠ 10

/-- A line that ends with LF, or with CR and LF. -/
structure EndedLine where
  text : Bytes
  withCr : Bool
  plain : PlainLine text

/-- A file of lines, and what stands behind the last line end. -/
structure ListFile where
  lines : List EndedLine
  last : Bytes
  lastPlain : PlainLine last

/-- The line with its end, which lacks the LF. -/
def EndedLine.front (line : EndedLine) : Bytes :=
  line.text ++ if line.withCr then [13] else []

def ListFile.content (file : ListFile) : Bytes :=
  file.lines.flatMap (fun line => line.front ++ [10]) ++ file.last

/-- The lines of the file without their ends. -/
def ListFile.texts (file : ListFile) : List Bytes :=
  file.lines.map EndedLine.text ++ [file.last]

/-- The string is a line that is not empty and not a comment. -/
def ListFile.Entry (file : ListFile) (entry : Bytes) : Prop :=
  entry ∈ file.texts ∧ entry ≠ [] ∧ entry.head? ≠ some 35

/-- The loader passes on the entries of the file and nothing else. -/
def ListFile.LoadsEntries (file : ListFile) : Prop :=
  ∀ entry, entry ∈ listStrings file.content ↔ file.Entry entry

/-! ## What the loop passes on -/

theorem skipsLine_eq_false_iff (line : Bytes) :
    skipsLine line = false ↔ line ≠ [] ∧ line.head? ≠ some 35 := by
  simp [skipsLine]

theorem PlainLine.part
    {text : Bytes} (plain : PlainLine text) (room index : Nat) :
    PlainLine (part room index text) :=
  fun character member =>
    plain character (List.mem_of_mem_drop (List.mem_of_mem_take member))

theorem trimLine_plain
    {text behind : Bytes} (plain : PlainLine text)
    (ends : ∀ character, character ∈ behind →
      character = 13 ∨ character = 10) :
    trimLine (text ++ behind) = text := by
  have kept : ∀ character, character ∈ text →
      decide (character ≠ 0 ∧ character ≠ 13 ∧ character ≠ 10) = true :=
    fun character member => decide_eq_true (plain character member)
  rw [trimLine, List.takeWhile_append_of_pos kept]
  cases behind with
  | nil => exact List.append_nil text
  | cons character behind =>
      have isEnd := ends character List.mem_cons_self
      rw [List.takeWhile_cons_of_neg (by simp; tauto)]
      exact List.append_nil text

/-- A part of a line, trimmed, is the part of its text. -/
theorem trimLine_part
    {text behind : Bytes} (plain : PlainLine text)
    (ends : ∀ character, character ∈ behind →
      character = 13 ∨ character = 10)
    (room index : Nat) :
    trimLine (part room index (text ++ behind)) = part room index text := by
  rw [Windows.part, Windows.part, List.drop_append, List.take_append]
  apply trimLine_plain
  · exact plain.part room index
  · intro character member
    exact
      ends character (List.mem_of_mem_drop (List.mem_of_mem_take member))

/-- A string that the loop passes on for a line. -/
def PassedFor (text entry : Bytes) : Prop :=
  entry ≠ [] ∧ entry.head? ≠ some 35 ∧ ∃ index, entry = part 255 index text

theorem mem_listStrings_iff {file entry : Bytes} :
    entry ∈ listStrings file ↔
      (entry ≠ [] ∧ entry.head? ≠ some 35) ∧
        ∃ window, window ∈ readAll 10 255 file ∧
          trimLine window = entry := by
  rw [listStrings, List.mem_filter, List.mem_map, Bool.not_eq_true',
    skipsLine_eq_false_iff]
  exact and_comm

theorem mem_listStrings_line
    {text behind rest entry : Bytes} (plain : PlainLine text)
    (ends : ∀ character, character ∈ behind →
      character = 13 ∨ character = 10)
    (whole : WholeLine 10 (text ++ behind) rest) :
    entry ∈ listStrings ((text ++ behind) ++ rest) ↔
      PassedFor text entry ∨ entry ∈ listStrings rest := by
  rw [mem_listStrings_iff, mem_listStrings_iff, PassedFor]
  constructor
  · intro given
    obtain ⟨notSkipped, window, read, trimmed⟩ := given
    rcases (mem_readAll_line (by decide) whole).mp read with here | later
    · obtain ⟨index, _, isPart⟩ := here
      rw [isPart, trimLine_part plain ends] at trimmed
      exact Or.inl ⟨notSkipped.1, notSkipped.2, index, trimmed.symm⟩
    · exact Or.inr ⟨notSkipped, window, later, trimmed⟩
  · intro given
    rcases given with here | later
    · obtain ⟨nonempty, noComment, index, isPart⟩ := here
      refine
        ⟨⟨nonempty, noComment⟩, part 255 index (text ++ behind), ?_, ?_⟩
      · apply (mem_readAll_line (by decide) whole).mpr
        refine Or.inl ⟨index, ?_, rfl⟩
        by_contra short
        apply nonempty
        rw [isPart, part, List.take_eq_nil_iff, List.drop_eq_nil_iff]
        rw [List.length_append] at short
        omega
      · rw [trimLine_part plain ends, isPart]
    · obtain ⟨notSkipped, window, read, trimmed⟩ := later
      exact
        ⟨notSkipped, window,
          (mem_readAll_line (by decide) whole).mpr (Or.inr read), trimmed⟩

theorem not_mem_of_plainLine {text : Bytes} (plain : PlainLine text) :
    10 ∉ text :=
  fun member => (plain 10 member).2.2 rfl

theorem mem_listStrings_ended
    (line : EndedLine) (rest entry : Bytes) :
    entry ∈ listStrings ((line.front ++ [10]) ++ rest) ↔
      PassedFor line.text entry ∨ entry ∈ listStrings rest := by
  have plainFront : 10 ∉ line.front := by
    rw [EndedLine.front]
    have plain := not_mem_of_plainLine line.plain
    cases line.withCr <;> simp [plain]
  have whole : WholeLine 10 (line.front ++ [10]) rest :=
    wholeLine_of_ended plainFront rest
  have shape :
      line.front ++ [10] =
        line.text ++ ((if line.withCr then [13] else []) ++ [10]) := by
    rw [EndedLine.front, List.append_assoc]
  rw [shape] at whole ⊢
  apply mem_listStrings_line line.plain _ whole
  intro character member
  cases withCr : line.withCr <;> simp_all

theorem mem_listStrings_last
    {last : Bytes} (plain : PlainLine last) (entry : Bytes) :
    entry ∈ listStrings last ↔ PassedFor last entry := by
  by_cases empty : last = []
  · subst empty
    have nothing : ¬ PassedFor [] entry := by
      intro passed
      obtain ⟨nonempty, _, index, isPart⟩ := passed
      apply nonempty
      rw [isPart, part, List.drop_nil, List.take_nil]
    constructor
    · intro member
      cases member
    · intro passed
      exact absurd passed nothing
  · have whole : WholeLine 10 (last ++ []) [] := by
      rw [List.append_nil]
      exact wholeLine_of_unended empty (not_mem_of_plainLine plain)
    have passes :=
      @mem_listStrings_line last [] [] entry plain (by simp) whole
    rw [List.append_nil, List.append_nil] at passes
    rw [passes]
    exact or_iff_left (List.not_mem_nil)

/-- The strings passed on for a file are those for its lines. -/
theorem mem_listStrings_content (file : ListFile) (entry : Bytes) :
    entry ∈ listStrings file.content ↔
      ∃ text, text ∈ file.texts ∧ PassedFor text entry := by
  obtain ⟨lines, last, lastPlain⟩ := file
  simp only [ListFile.content, ListFile.texts]
  induction lines with
  | nil => simp [mem_listStrings_last lastPlain]
  | cons line lines inductionHypothesis =>
      rw [List.flatMap_cons, List.append_assoc,
        mem_listStrings_ended line _ entry, inductionHypothesis,
        List.map_cons, List.cons_append]
      simp only [List.mem_cons, exists_eq_or_imp]

/-! ## Exact loads -/

theorem passedFor_of_short
    {text entry : Bytes} (short : text.length ≤ 255) :
    PassedFor text entry ↔
      entry = text ∧ entry ≠ [] ∧ entry.head? ≠ some 35 := by
  constructor
  · intro passed
    obtain ⟨nonempty, noComment, index, isPart⟩ := passed
    cases index with
    | zero =>
        rw [part_zero, List.take_of_length_le short] at isPart
        exact ⟨isPart, nonempty, noComment⟩
    | succ index =>
        apply absurd _ nonempty
        rw [isPart, part, List.take_eq_nil_iff, List.drop_eq_nil_iff]
        omega
  · intro isEntry
    obtain ⟨isText, nonempty, noComment⟩ := isEntry
    refine ⟨nonempty, noComment, 0, ?_⟩
    rw [part_zero, List.take_of_length_le short, isText]

/-- Of a comment only the parts behind the first can be passed on. -/
theorem passedFor_of_comment
    {text entry : Bytes} (comment : text.head? = some 35)
    (passed : PassedFor text entry) :
    ∃ index, 0 < index ∧ entry = part 255 index text := by
  obtain ⟨-, noComment, index, isPart⟩ := passed
  refine ⟨index, ?_, isPart⟩
  apply Nat.pos_of_ne_zero
  intro first
  apply noComment
  rw [isPart, first, part_zero, List.head?_take, if_neg (by decide)]
  exact comment

/-- The loader passes on exactly the entries of a file when every line that
does not fit the buffer is a comment, and each of its parts behind the first is
empty, starts with `#` or is a line of the file. -/
theorem blacklistLoadFile_loadsEntries_iff (file : ListFile) :
    file.LoadsEntries ↔
      ∀ text, text ∈ file.texts → 255 < text.length →
        text.head? = some 35 ∧
          ∀ index, 0 < index →
            part 255 index text = [] ∨
              (part 255 index text).head? = some 35 ∨
                part 255 index text ∈ file.texts := by
  constructor
  · intro loads text isLine long
    constructor
    · by_contra noComment
      have isEntry : file.Entry text := by
        refine ⟨isLine, ?_, noComment⟩
        intro empty
        rw [empty] at long
        exact Nat.not_lt_zero 255 long
      obtain ⟨other, _, _, _, index, isPart⟩ :=
        (mem_listStrings_content file text).mp ((loads text).mpr isEntry)
      have limited : text.length ≤ 255 := by
        rw [isPart, part]
        exact List.length_take_le 255 _
      omega
    · intro index _
      by_contra separate
      rw [not_or, not_or] at separate
      obtain ⟨nonempty, noComment, notLine⟩ := separate
      have passed : part 255 index text ∈ listStrings file.content := by
        apply (mem_listStrings_content file _).mpr
        exact ⟨text, isLine, nonempty, noComment, index, rfl⟩
      exact notLine ((loads _).mp passed).1
  · intro harmless entry
    rw [mem_listStrings_content]
    constructor
    · intro found
      obtain ⟨text, isLine, passed⟩ := found
      by_cases short : text.length ≤ 255
      · obtain ⟨isText, nonempty, noComment⟩ :=
          (passedFor_of_short short).mp passed
        rw [← isText] at isLine
        exact ⟨isLine, nonempty, noComment⟩
      · obtain ⟨comment, tails⟩ :=
          harmless text isLine (Nat.lt_of_not_le short)
        obtain ⟨index, behind, isPart⟩ := passedFor_of_comment comment passed
        obtain ⟨nonempty, noComment, -⟩ := passed
        rw [isPart] at nonempty noComment ⊢
        rcases tails index behind with empty | isComment | isOther
        · exact absurd empty nonempty
        · exact absurd isComment noComment
        · exact ⟨isOther, nonempty, noComment⟩
    · intro isEntry
      obtain ⟨isLine, nonempty, noComment⟩ := isEntry
      have short : entry.length ≤ 255 := by
        by_contra long
        exact
          noComment
            (harmless entry isLine (Nat.lt_of_not_le long)).1
      exact
        ⟨entry, isLine,
          (passedFor_of_short short).mpr ⟨rfl, nonempty, noComment⟩⟩

/-- From a file so loaded the check finds the names of its entries. -/
theorem policyCheckBlocklist_loadFile_iff
    {file : ListFile} (loads : file.LoadsEntries) (domain : Bytes) :
    policyCheckBlocklist
          (blacklistLoadFile blacklistEmpty (some file.content)).2
          domain = true ↔
      ∃ entry, file.Entry entry ∧ SameName entry domain := by
  have listed :=
    policyCheckBlocklist_load_iff (listStrings file.content) domain
  apply listed.trans
  apply exists_congr
  intro entry
  rw [loads entry]

/-- A comment of which the 256th byte starts `b.c`. -/
def longComment : ListFile where
  lines := []
  last := 35 :: List.replicate 254 97 ++ [98, 46, 99]
  lastPlain := by
    intro character member
    rcases List.mem_append.mp member with front | name
    · rcases List.mem_cons.mp front with sign | letter
      · rw [sign]
        decide
      · rw [List.eq_of_mem_replicate letter]
        decide
    · simp only [List.mem_cons, List.not_mem_nil, or_false] at name
      rcases name with isLetter | isLetter | isLetter <;>
        rw [isLetter] <;> decide

/-- The end of the comment is added as a name. -/
theorem not_loadsEntries_longComment :
    ¬ ∀ file : ListFile, file.LoadsEntries := by
  intro exact
  have passed : [98, 46, 99] ∈ listStrings longComment.content := by
    apply (mem_listStrings_content longComment _).mpr
    exact
      ⟨longComment.last, List.mem_singleton_self _, by decide, by decide, 1,
        by decide +kernel⟩
  have isLine := ((exact longComment [98, 46, 99]).mp passed).1
  exact absurd isLine (by decide +kernel)

end DnsFirewall
