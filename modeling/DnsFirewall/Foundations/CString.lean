import Mathlib.Data.List.TakeWhile

/-!
# C strings

Byte strings as the C library sees them: the string in an array ends at its
first NUL, copies into fixed arrays are cut off, and comparisons without case
fold the ASCII letters of both arguments.
-/

namespace DnsFirewall.CString

/-- A byte array, or the characters of a C string without its NUL. -/
abbrev Bytes := List UInt8

/-- The C string at the start of an array. -/
def content (memory : Bytes) : Bytes :=
  memory.takeWhile (· ≠ 0)

/-- `strncpy` into an array of `size` bytes whose last byte is then set to
NUL. -/
def boundedCopy (size : Nat) (source : Bytes) : Bytes :=
  source.take (size - 1)

/-- `tolower` in the C locale. -/
def toLower (character : UInt8) : UInt8 :=
  if 65 ≤ character ∧ character ≤ 90 then character + 32 else character

/-- `strcasecmp` returns zero. -/
def strcasecmpEq (left right : Bytes) : Bool :=
  left.map toLower == right.map toLower

/-- `strncasecmp` with the given limit returns zero. -/
def strncasecmpEq (left right : Bytes) (limit : Nat) : Bool :=
  strcasecmpEq (left.take limit) (right.take limit)

/-- `isspace` in the C locale. -/
def isSpace (character : UInt8) : Bool :=
  character == 32 || (9 ≤ character && character ≤ 13)

/-- Where `strstr` finds the pattern in the text. -/
def strstr (text pattern : Bytes) : Option Nat :=
  match text with
  | [] => if pattern = [] then some 0 else none
  | character :: rest =>
      if pattern.isPrefixOf (character :: rest) then some 0
      else (strstr rest pattern).map (· + 1)

/-- The hash with multiplier 33 that starts at 5381. -/
def djb2 (text : Bytes) : UInt32 :=
  text.foldl (fun hash character =>
    ((hash <<< 5) + hash) + character.toUInt32) 5381

/-- The decimal digits of `value` in front of `rest`; `fuel` exceeds their
number. -/
def decimalDigits : Nat → Nat → Bytes → Bytes
  | 0, _, rest => rest
  | fuel + 1, value, rest =>
      let digits := (48 + value % 10).toUInt8 :: rest
      if value / 10 = 0 then digits
      else decimalDigits fuel (value / 10) digits

/-- The text `printf` gives for `%u`. -/
def decimal (value : Nat) : Bytes :=
  decimalDigits (value + 1) value []

theorem content_length_le (memory : Bytes) :
    (content memory).length ≤ memory.length :=
  (List.takeWhile_prefix _).length_le

theorem ne_zero_of_mem_content
    {memory : Bytes} {character : UInt8}
    (member : character ∈ content memory) :
    character ≠ 0 := by
  have holds := List.mem_takeWhile_imp member
  simpa using holds

/-- Text without NUL is read back unchanged. -/
theorem content_eq_self
    {text : Bytes} (noNul : ∀ character, character ∈ text → character ≠ 0) :
    content text = text := by
  apply List.takeWhile_eq_self_iff.mpr
  intro character member
  simpa using noNul character member

/-- What is behind a NUL is not part of the string. -/
theorem content_append_zero (memory rest : Bytes) :
    content (memory ++ 0 :: rest) = content memory := by
  rw [content, content, List.takeWhile_append]
  split
  · rename_i whole
    have same : memory.takeWhile (· ≠ 0) = memory :=
      (List.takeWhile_prefix _).eq_of_length whole
    rw [same]
    exact List.append_nil memory
  · rfl

/-- The string in an array ends in front of its first NUL. -/
theorem content_append_cons
    {text : Bytes} (noNul : ∀ character, character ∈ text → character ≠ 0)
    (rest : Bytes) :
    content (text ++ 0 :: rest) = text :=
  (content_append_zero text rest).trans (content_eq_self noNul)

/-- The string in an array is what was written in front of its NUL. -/
theorem content_append_nul
    {text : Bytes} (noNul : ∀ character, character ∈ text → character ≠ 0) :
    content (text ++ [0]) = text :=
  content_append_cons noNul []

theorem length_content_append_nul_le (text : Bytes) :
    (content (text ++ [0])).length ≤ text.length := by
  rw [content_append_zero]
  exact content_length_le text

@[simp]
theorem content_content (memory : Bytes) :
    content (content memory) = content memory :=
  content_eq_self fun _ member => ne_zero_of_mem_content member

/-- A NUL among the received bytes ends the string. -/
theorem content_append_of_nul
    {data : Bytes} (nul : (0 : UInt8) ∈ data) (beyond : Bytes) :
    content (data ++ beyond) = content data := by
  obtain ⟨front, rest, parts⟩ := List.append_of_mem nul
  rw [parts, List.append_assoc, List.cons_append, content_append_zero,
    content_append_zero]

/-- Without one it runs into the leftover. -/
theorem content_append_of_noNul
    {data : Bytes} (noNul : (0 : UInt8) ∉ data) (beyond : Bytes) :
    content (data ++ beyond) = data ++ content beyond := by
  apply List.takeWhile_append_of_pos
  intro character member
  apply decide_eq_true
  intro isNul
  rw [isNul] at member
  exact noNul member

/-- The string of the received bytes is the part of the buffer's string that
lies among them. -/
theorem content_eq_take (data beyond : Bytes) :
    content data = (content (data ++ beyond)).take data.length := by
  rw [content, content, List.takeWhile_append]
  split
  · rename_i whole
    have same : data.takeWhile (· ≠ 0) = data :=
      (List.takeWhile_prefix _).eq_of_length whole
    rw [same, List.take_left' rfl]
  · exact
      (List.take_of_length_le (List.takeWhile_prefix _).length_le).symm

/-! ## Lower case -/

theorem toLower_eq_iff
    {fixed : UInt8} (small : fixed.toNat < 65) (character : UInt8) :
    toLower character = fixed ↔ character = fixed := by
  rw [toLower]
  split
  case isTrue upper =>
    have low : 65 ≤ character.toNat := UInt8.le_iff_toNat_le.mp upper.1
    have high : character.toNat ≤ 90 := UInt8.le_iff_toNat_le.mp upper.2
    have shifted : (character + 32).toNat = character.toNat + 32 := by
      rw [UInt8.toNat_add]
      have amount : (32 : UInt8).toNat = 32 := rfl
      omega
    constructor
    · intro same
      rw [same] at shifted
      omega
    · intro same
      rw [same] at low
      omega
  case isFalse => exact Iff.rfl

@[simp]
theorem toLower_toLower (character : UInt8) :
    toLower (toLower character) = toLower character := by
  unfold toLower
  by_cases upper : 65 ≤ character ∧ character ≤ 90
  · rw [if_pos upper]
    have low : 65 ≤ character.toNat := UInt8.le_iff_toNat_le.mp upper.1
    have high : character.toNat ≤ 90 := UInt8.le_iff_toNat_le.mp upper.2
    have shifted : (character + 32).toNat = character.toNat + 32 := by
      rw [UInt8.toNat_add]
      have amount : (32 : UInt8).toNat = 32 := rfl
      omega
    refine if_neg fun lowered => ?_
    have tooHigh : (character + 32).toNat ≤ 90 :=
      UInt8.le_iff_toNat_le.mp lowered.2
    omega
  · rw [if_neg upper, if_neg upper]

/-- The text in front of a character that is not a letter is folded with the
text. -/
theorem takeWhile_map_toLower
    {fixed : UInt8} (small : fixed.toNat < 65) (text : Bytes) :
    (text.map toLower).takeWhile (· ≠ fixed) =
      (text.takeWhile (· ≠ fixed)).map toLower := by
  have sameTest :
      ((fun c : UInt8 => decide (c ≠ fixed)) ∘ toLower) =
        fun c : UInt8 => decide (c ≠ fixed) := by
    funext character
    exact
      decide_eq_decide.mpr (not_congr (toLower_eq_iff small character))
  rw [List.takeWhile_map, sameTest]

theorem content_map_toLower (text : Bytes) :
    content (text.map toLower) = (content text).map toLower :=
  takeWhile_map_toLower (by decide) text

theorem boundedCopy_map_toLower (size : Nat) (text : Bytes) :
    boundedCopy size (text.map toLower) = (boundedCopy size text).map toLower :=
  List.map_take.symm

/-! ## Searching -/

/-- `strstr` finds the first place behind which the text begins with the
pattern. -/
theorem strstr_eq_some_iff {text pattern : Bytes} {place : Nat} :
    strstr text pattern = some place ↔
      place ≤ text.length ∧ pattern <+: text.drop place ∧
        ∀ earlier, earlier < place → ¬ pattern <+: text.drop earlier := by
  induction text generalizing place with
  | nil =>
      rw [strstr]
      by_cases empty : pattern = []
      · rw [if_pos empty, empty]
        constructor
        · intro found
          cases found
          exact ⟨Nat.le_refl 0, List.nil_prefix, fun _ before => by omega⟩
        · intro found
          exact congrArg some (Nat.le_zero.mp found.1).symm
      · rw [if_neg empty]
        refine iff_of_false (by simp) ?_
        intro found
        rw [List.drop_nil] at found
        exact empty (List.prefix_nil.mp found.2.1)
  | cons character rest inductionHypothesis =>
      rw [strstr]
      by_cases here : pattern <+: character :: rest
      · rw [if_pos (List.isPrefixOf_iff_prefix.mpr here)]
        constructor
        · intro found
          cases found
          exact ⟨Nat.zero_le _, here, fun _ before => by omega⟩
        · intro found
          cases place with
          | zero => rfl
          | succ place => exact absurd here (found.2.2 0 (by omega))
      · rw [if_neg (mt List.isPrefixOf_iff_prefix.mp here),
          Option.map_eq_some_iff]
        constructor
        · intro found
          obtain ⟨before, later, same⟩ := found
          obtain ⟨inside, begins, first⟩ := inductionHypothesis.mp later
          subst same
          refine ⟨by simpa using inside, by simpa using begins, ?_⟩
          intro earlier before
          cases earlier with
          | zero => exact here
          | succ earlier => exact first earlier (by omega)
        · intro found
          obtain ⟨inside, begins, first⟩ := found
          cases place with
          | zero => exact absurd begins here
          | succ place =>
              refine ⟨place, inductionHypothesis.mpr ?_, rfl⟩
              refine ⟨by simpa using inside, by simpa using begins, ?_⟩
              intro earlier before
              exact first (earlier + 1) (by omega)

/-- `strstr` finds nothing in a text that nowhere contains the pattern. -/
theorem strstr_eq_none_iff {text pattern : Bytes} :
    strstr text pattern = none ↔ ¬ pattern <:+: text := by
  induction text with
  | nil =>
      rw [strstr, List.infix_nil]
      by_cases empty : pattern = []
      · rw [if_pos empty]
        exact iff_of_false (by simp) (not_not_intro empty)
      · rw [if_neg empty]
        exact iff_of_true rfl empty
  | cons character rest inductionHypothesis =>
      rw [strstr, List.infix_cons_iff]
      by_cases here : pattern <+: character :: rest
      · rw [if_pos (List.isPrefixOf_iff_prefix.mpr here)]
        exact iff_of_false (by simp) (not_not_intro (.inl here))
      · rw [if_neg (mt List.isPrefixOf_iff_prefix.mp here),
          Option.map_eq_none_iff, inductionHypothesis]
        exact not_congr (or_iff_right here).symm

/-- A search in the first characters of a text finds what lies among them. -/
theorem strstr_take_eq_some_iff
    {text pattern : Bytes} (nonempty : pattern ≠ []) {count place : Nat} :
    strstr (text.take count) pattern = some place ↔
      strstr text pattern = some place ∧ place + pattern.length ≤ count := by
  have positive := List.length_pos_iff.mpr nonempty
  have begins :
      ∀ start, pattern <+: (text.take count).drop start ↔
        pattern <+: text.drop start ∧ pattern.length ≤ count - start := by
    intro start
    rw [List.drop_take, List.prefix_take_iff]
  rw [strstr_eq_some_iff, strstr_eq_some_iff, List.length_take]
  constructor
  · intro given
    obtain ⟨inside, here, first⟩ := given
    obtain ⟨here, fits⟩ := (begins place).mp here
    refine ⟨⟨by omega, here, ?_⟩, by omega⟩
    intro earlier before there
    exact first earlier before ((begins earlier).mpr ⟨there, by omega⟩)
  · intro given
    obtain ⟨⟨inside, here, first⟩, fits⟩ := given
    refine ⟨by omega, (begins place).mpr ⟨here, by omega⟩, ?_⟩
    intro earlier before there
    exact first earlier before ((begins earlier).mp there).1

/-- A search finds in the front of a text what lies inside it. -/
theorem strstr_front_eq_some_iff
    {front pattern : Bytes} (nonempty : pattern ≠ []) (rest : Bytes)
    {place : Nat} :
    strstr front pattern = some place ↔
      strstr (front ++ rest) pattern = some place ∧
        place + pattern.length ≤ front.length := by
  rw [← strstr_take_eq_some_iff nonempty, List.take_left' rfl]

theorem strstr_fits
    {text pattern : Bytes} (nonempty : pattern ≠ []) {place : Nat}
    (found : strstr text pattern = some place) :
    place + pattern.length ≤ text.length := by
  rw [← List.take_length (l := text)] at found
  exact ((strstr_take_eq_some_iff nonempty).mp found).2

theorem exists_strstr
    {text pattern : Bytes} (occurs : pattern <:+: text) :
    ∃ place, strstr text pattern = some place := by
  cases found : strstr text pattern with
  | none => exact absurd occurs (strstr_eq_none_iff.mp found)
  | some place => exact ⟨place, rfl⟩

theorem boundedCopy_eq_self
    {size : Nat} {source : Bytes} (fits : source.length < size) :
    boundedCopy size source = source :=
  List.take_of_length_le (by omega)

end DnsFirewall.CString
