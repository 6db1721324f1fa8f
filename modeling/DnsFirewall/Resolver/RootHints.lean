import DnsFirewall.Foundations.Decimal
import DnsFirewall.Foundations.Lines
import DnsFirewall.Foundations.Windows
import DnsFirewall.Resolver.Model
import Mathlib.Data.List.Forall2
import Mathlib.Data.List.ReduceOption

/-!
# The root hints

`resolver_load_root_hints` and the texts of addresses that it accepts.
`inet_pton` takes four numbers up to 255 without leading zeros and with dots
between them, and nothing else.
-/

namespace DnsFirewall

open CString Lines Windows

/-! ## Texts of addresses -/

/-- The octets in decimal, with dots between them. -/
def dottedQuad (octets : Bytes) : Bytes :=
  List.intercalate [46] (octets.map fun octet => decimal octet.toNat)

/-- What `inet_pton` has read before the state: the octets, each with its
dot, and the digits of the next one. -/
def readBefore (octets : Bytes) (current : Option Nat) : Bytes :=
  terminated 46 (octets.map fun octet => decimal octet.toNat) ++
    (current.map decimal).getD []

theorem toNat_toUInt8 {value : Nat} (small : value ≤ 255) :
    value.toUInt8.toNat = value := by
  rw [Nat.toUInt8, UInt8.toNat_ofNat']
  omega

theorem readBefore_dot (octets : Bytes) {value : Nat} (small : value ≤ 255) :
    readBefore (octets ++ [value.toUInt8]) none =
      readBefore octets (some value) ++ [46] := by
  simp [readBefore, terminated, toNat_toUInt8 small]

/-- The last octet has no dot behind it. -/
theorem dottedQuad_concat
    (octets : Bytes) {value : Nat} (small : value ≤ 255) :
    dottedQuad (octets ++ [value.toUInt8]) =
      readBefore octets (some value) := by
  rw [dottedQuad, List.map_append, List.map_singleton, intercalate_concat,
    toNat_toUInt8 small]
  rfl

/-- A digit begins an octet or makes it longer. -/
theorem readBefore_digit
    (octets : Bytes) {current : Option Nat} {digit : Nat} (small : digit < 10)
    (noZero : current ≠ some 0) :
    readBefore octets (some (current.getD 0 * 10 + digit)) =
      readBefore octets current ++ [(48 + digit).toUInt8] := by
  cases current with
  | none =>
      simp [readBefore, decimal_digit small]
  | some value =>
      have positive : 0 < value := by
        apply Nat.pos_of_ne_zero
        rintro rfl
        exact noZero rfl
      simp [readBefore, decimal_append_digit positive small]

theorem inetPtonLoop_digit
    (rest octets : Bytes) (current : Option Nat) {digit : Nat}
    (isDigit : digit < 10) :
    inetPtonLoop ((48 + digit).toUInt8 :: rest) octets current =
      if current = some 0 ∨ 255 < current.getD 0 * 10 + digit ∨
          (current = none ∧ 4 ≤ octets.length) then
        none
      else
        inetPtonLoop rest octets (some (current.getD 0 * 10 + digit)) := by
  have value : (48 + digit).toUInt8.toNat = 48 + digit :=
    toNat_toUInt8 (by omega)
  have inRange :
      48 ≤ (48 + digit).toUInt8 ∧ (48 + digit).toUInt8 ≤ 57 := by
    constructor
    · rw [UInt8.le_iff_toNat_le, value]
      exact Nat.le_add_right 48 digit
    · rw [UInt8.le_iff_toNat_le, value]
      show 48 + digit ≤ 57
      omega
  have isValue : 48 + digit - 48 = digit := Nat.add_sub_cancel_left 48 digit
  conv_lhs => unfold inetPtonLoop
  rw [if_pos inRange]
  simp only [value, isValue]
  cases current with
  | none =>
      have fits : ¬ 255 < digit := by omega
      simp [fits]
  | some value =>
      by_cases zero : value = 0
      · simp [zero]
      · by_cases large : 255 < value * 10 + digit
        · simp [zero, large]
        · simp [zero, large]

theorem inetPtonLoop_dot
    (rest octets : Bytes) (value : Nat) :
    inetPtonLoop (46 :: rest) octets (some value) =
      if octets.length = 3 then none
      else inetPtonLoop rest (octets ++ [value.toUInt8]) none := by
  rw [inetPtonLoop, if_neg (by decide), if_pos rfl]

/-- Only digits go on an octet, and only a dot ends one. -/
theorem inetPtonLoop_cons
    {character : UInt8} {rest octets result : Bytes} {current : Option Nat}
    (taken :
      inetPtonLoop (character :: rest) octets current = some result) :
    (∃ digit, digit < 10 ∧ character = (48 + digit).toUInt8) ∨
      character = 46 ∧ ∃ value, current = some value := by
  by_cases isDigit : 48 ≤ character ∧ character ≤ 57
  · left
    obtain ⟨low, high⟩ := isDigit
    rw [UInt8.le_iff_toNat_le] at low high
    have low : 48 ≤ character.toNat := low
    have high : character.toNat ≤ 57 := high
    refine ⟨character.toNat - 48, by omega, ?_⟩
    apply UInt8.toNat_inj.mp
    rw [toNat_toUInt8 (by omega)]
    omega
  · right
    unfold inetPtonLoop at taken
    rw [if_neg isDigit] at taken
    by_cases isDot : character = 46
    · rw [if_pos isDot] at taken
      cases current with
      | none => cases taken
      | some value => exact ⟨isDot, value, rfl⟩
    · rw [if_neg isDot] at taken
      cases taken

/-- What `inet_pton` takes is the text of the octets that it gives. -/
theorem inetPtonLoop_sound
    {text octets result : Bytes} {current : Option Nat}
    (small : ∀ value, current = some value → value ≤ 255)
    (taken : inetPtonLoop text octets current = some result) :
    result.length = 4 ∧
      readBefore octets current ++ text = dottedQuad result := by
  induction text generalizing octets current with
  | nil =>
      cases current with
      | none => cases taken
      | some value =>
          rw [inetPtonLoop] at taken
          split at taken
          · rename_i three
            cases taken
            refine ⟨by simp [three], ?_⟩
            rw [List.append_nil, dottedQuad_concat octets (small value rfl)]
          · cases taken
  | cons character rest inductionHypothesis =>
      rcases inetPtonLoop_cons taken with
        ⟨digit, isDigit, rfl⟩ | ⟨rfl, value, rfl⟩
      · rw [inetPtonLoop_digit rest octets current isDigit] at taken
        split at taken
        · cases taken
        · rename_i allowed
          rw [not_or, not_or] at allowed
          obtain ⟨noZero, fits, -⟩ := allowed
          have later := inductionHypothesis (fun value isValue => by
            cases isValue
            exact Nat.le_of_not_lt fits) taken
          rw [readBefore_digit octets isDigit noZero, List.append_assoc]
            at later
          exact later
      · rw [inetPtonLoop_dot] at taken
        split at taken
        · cases taken
        · have later :=
            inductionHypothesis (fun value none => by cases none) taken
          rw [readBefore_dot octets (small value rfl), List.append_assoc]
            at later
          exact later

/-- The text of a number is read as its value. -/
theorem inetPtonLoop_decimal
    {octets : Bytes} (room : octets.length < 4) {value : Nat}
    (small : value ≤ 255) (rest : Bytes) :
    inetPtonLoop (decimal value ++ rest) octets none =
      inetPtonLoop rest octets (some value) := by
  induction value using Nat.strongRecOn generalizing rest with
  | ind value inductionHypothesis =>
      by_cases single : value < 10
      · rw [decimal_digit single, List.singleton_append,
          inetPtonLoop_digit rest octets none single, if_neg (by simp; omega)]
        simp
      · have split : value = value / 10 * 10 + value % 10 := by omega
        have digit : value % 10 < 10 := Nat.mod_lt value (by decide)
        have front : 0 < value / 10 := by omega
        rw [split, decimal_append_digit front digit, List.append_assoc,
          inductionHypothesis (value / 10) (by omega) (by omega),
          List.singleton_append, inetPtonLoop_digit rest octets _ digit,
          if_neg (by simp; omega)]
        simp

theorem inetPtonLoop_terminated
    {last : UInt8} {more octets : Bytes}
    (four : octets.length + more.length = 3) :
    inetPtonLoop
        (terminated 46 (more.map fun octet => decimal octet.toNat) ++
          decimal last.toNat) octets none =
      some (octets ++ more ++ [last]) := by
  induction more generalizing octets with
  | nil =>
      have three : octets.length = 3 := by simpa using four
      have read :=
        inetPtonLoop_decimal (by omega : octets.length < 4)
          (Nat.le_of_lt_succ last.toNat_lt) []
      rw [List.append_nil] at read
      rw [List.map_nil, terminated, List.flatMap_nil, List.nil_append, read,
        inetPtonLoop, if_pos three]
      simp
  | cons octet more inductionHypothesis =>
      rw [List.length_cons] at four
      have read :=
        inetPtonLoop_decimal (by omega : octets.length < 4)
          (Nat.le_of_lt_succ octet.toNat_lt)
      have rest :=
        @inductionHypothesis (octets ++ [octet]) (by
          rw [List.length_append, List.length_singleton]
          omega)
      rw [terminated] at rest ⊢
      rw [List.map_cons, List.flatMap_cons, List.append_assoc,
        List.append_assoc, read, List.singleton_append, inetPtonLoop_dot,
        if_neg (by omega)]
      simpa using rest

/-- `inet_pton` takes the texts of addresses and nothing else. -/
theorem inetPton_eq_some_iff {text : Bytes} {address : UInt32} :
    inetPton text = some address ↔
      ∃ octets, octets.length = 4 ∧ text = dottedQuad octets ∧
        address = sAddrOf octets := by
  rw [inetPton, Option.map_eq_some_iff]
  constructor
  · rintro ⟨octets, taken, rfl⟩
    obtain ⟨four, isText⟩ :=
      inetPtonLoop_sound (fun value none => by cases none) taken
    exact ⟨octets, four, isText, rfl⟩
  · rintro ⟨octets, four, rfl, rfl⟩
    refine ⟨octets, ?_, rfl⟩
    rcases List.eq_nil_or_concat octets with rfl | ⟨front, last, rfl⟩
    · cases four
    · rw [List.concat_eq_append] at four ⊢
      rw [dottedQuad, List.map_append, List.map_singleton, intercalate_concat,
        inetPtonLoop_terminated, List.nil_append]
      simpa using four

/-! ## The loader -/

/-- `line` after its newline is overwritten. -/
def hintText (line : Bytes) : Bytes :=
  line.takeWhile fun character => character ≠ 0 ∧ character ≠ 10

/-- The string behind the place that `strrchr` finds a space at. -/
def behindLastSpace (line : Bytes) : Option Bytes :=
  if 32 ∈ line then
    some (line.reverse.takeWhile fun character => character ≠ 32).reverse
  else none

/-- What `sscanf` stores for `%127s`. -/
def firstWord (line : Bytes) : Option Bytes :=
  match
    (line.dropWhile isSpace).takeWhile fun character => !isSpace character with
  | [] => none
  | head :: tail => some ((head :: tail).take 127)

/-- The record that the loop makes of a line. -/
def hintOf (line : Bytes) : Option NsRecord :=
  if line.head? = some 59 ∨ line = [] then none
  else
    match behindLastSpace line with
    | none => none
    | some ip =>
        match inetPton ip with
        | none => none
        | some address =>
            match firstWord line with
            | none => none
            | some name =>
                some
                  ⟨boundedCopy (dnsMaxNameLen + 1) name, ⟨address, dnsPort⟩⟩

/-- `resolver_load_root_hints`, with the content of the file if it can be
opened. -/
def resolverLoadRootHints (hints : List NsRecord) (file : Option Bytes) :
    Int × List NsRecord :=
  match file with
  | none => (-1, hints)
  | some text =>
      let loaded :=
        hints ++ ((readAll 10 255 text).map hintText).filterMap hintOf
      (if 0 < loaded.length then 0 else -1, loaded)

/-! ## The lines of a file -/

/-- The line is no comment, ends with the text of the address behind a space,
and its first word gives the name. -/
structure HintLine (line : Bytes) (ns : NsRecord) : Prop where
  noComment : line.head? ≠ some 59
  address :
    ∃ front octets, octets.length = 4 ∧
      line = front ++ 32 :: dottedQuad octets ∧
        ns.addr = ⟨sAddrOf octets, dnsPort⟩
  name :
    ∃ blank word rest, line = blank ++ word ++ rest ∧
      (∀ character, character ∈ blank → isSpace character = true) ∧
        (∀ character, character ∈ word → isSpace character = false) ∧
          word ≠ [] ∧
            (∀ character, rest.head? = some character →
              isSpace character = true) ∧
              ns.name = word.take 127

/-- A line that `fgets` reads in one go. -/
structure FitsLine (line : Bytes) : Prop where
  short : line.length < 255
  noNul : 0 ∉ line
  noNewline : 10 ∉ line

theorem behindLastSpace_eq_some_iff {line field : Bytes} :
    behindLastSpace line = some field ↔
      32 ∉ field ∧ ∃ front, line = front ++ 32 :: field := by
  have split :
      ∀ front field : Bytes, 32 ∉ field →
        behindLastSpace (front ++ 32 :: field) = some field := by
    intro front field plain
    have kept :
        ∀ character, character ∈ field.reverse →
          decide (character ≠ 32) = true := by
      intro character member
      apply decide_eq_true
      rintro rfl
      exact plain (List.mem_reverse.mp member)
    rw [behindLastSpace, if_pos (by simp), List.reverse_append,
      List.reverse_cons, List.append_assoc,
      List.takeWhile_append_of_pos kept]
    simp
  constructor
  · intro found
    have member : 32 ∈ line := by
      by_contra absent
      rw [behindLastSpace, if_neg absent] at found
      cases found
    obtain ⟨front, back, shape, plain⟩ :=
      List.eq_append_cons_of_mem (List.mem_reverse.mpr member)
    have isLine : line = back.reverse ++ 32 :: front.reverse := by
      rw [← List.reverse_reverse line, shape]
      simp
    have noSpace : 32 ∉ front.reverse := fun space =>
      plain (List.mem_reverse.mp space)
    rw [isLine, split _ _ noSpace] at found
    cases found
    exact ⟨noSpace, _, isLine⟩
  · rintro ⟨plain, front, rfl⟩
    exact split front field plain

/-- Behind white space the word reaches to the next of it. -/
theorem firstWord_of_parts
    {blank word rest : Bytes}
    (isBlank : ∀ character, character ∈ blank → isSpace character = true)
    (isWord : ∀ character, character ∈ word → isSpace character = false)
    (nonempty : word ≠ [])
    (ends :
      ∀ character, rest.head? = some character →
        isSpace character = true) :
    firstWord (blank ++ word ++ rest) = some (word.take 127) := by
  cases word with
  | nil => exact absurd rfl nonempty
  | cons head tail =>
      have isHead := isWord head List.mem_cons_self
      have dropped :
          (blank ++ (head :: tail) ++ rest).dropWhile isSpace =
            head :: tail ++ rest := by
        rw [List.append_assoc, List.dropWhile_append_of_pos isBlank,
          List.cons_append, List.dropWhile_cons_of_neg (by simp [isHead])]
      have taken :
          (head :: tail ++ rest).takeWhile (fun character =>
              !isSpace character) =
            head :: tail := by
        rw [List.takeWhile_append_of_pos (by
          intro character member
          rw [isWord character member]
          rfl)]
        cases rest with
        | nil => simp
        | cons next rest =>
            rw [List.takeWhile_cons_of_neg (by simp [ends next rfl]),
              List.append_nil]
      rw [firstWord, dropped, taken]

theorem firstWord_eq_some_iff {line name : Bytes} :
    firstWord line = some name ↔
      ∃ blank word rest, line = blank ++ word ++ rest ∧
        (∀ character, character ∈ blank → isSpace character = true) ∧
          (∀ character, character ∈ word → isSpace character = false) ∧
            word ≠ [] ∧
              (∀ character, rest.head? = some character →
                isSpace character = true) ∧
                name = word.take 127 := by
  constructor
  · intro found
    have parts : line = line.takeWhile isSpace ++
        (line.dropWhile isSpace).takeWhile (fun character =>
          !isSpace character) ++
        (line.dropWhile isSpace).dropWhile (fun character =>
          !isSpace character) := by
      rw [List.append_assoc, List.takeWhile_append_dropWhile,
        List.takeWhile_append_dropWhile]
    refine
      ⟨_, _, _, parts, fun _ member => List.mem_takeWhile_imp member, ?_, ?_,
        ?_, ?_⟩
    · intro character member
      simpa using List.mem_takeWhile_imp member
    · intro empty
      rw [firstWord, empty] at found
      cases found
    · intro character next
      have stops :=
        List.head?_dropWhile_not (fun character => !isSpace character)
          (line.dropWhile isSpace)
      rw [next] at stops
      simpa using stops
    · rw [firstWord] at found
      split at found
      · cases found
      · rename_i head tail isWord
        rw [isWord]
        cases found
        rfl
  · rintro ⟨blank, word, rest, rfl, isBlank, isWord, nonempty, ends, rfl⟩
    exact firstWord_of_parts isBlank isWord nonempty ends

theorem mem_dottedQuad
    {octets : Bytes} {character : UInt8}
    (member : character ∈ dottedQuad octets) :
    character = 46 ∨ IsDigit character := by
  rcases List.eq_nil_or_concat octets with rfl | ⟨front, last, rfl⟩
  · cases member
  · rw [List.concat_eq_append, dottedQuad, List.map_append,
      List.map_singleton, intercalate_concat] at member
    rcases List.mem_append.mp member with early | late
    · rw [terminated, List.flatMap_map, List.mem_flatMap] at early
      obtain ⟨octet, -, inOctet⟩ := early
      rcases List.mem_append.mp inOctet with digit | dot
      · exact Or.inr (isDigit_of_mem_decimal digit)
      · exact Or.inl (List.mem_singleton.mp dot)
    · exact Or.inr (isDigit_of_mem_decimal late)

theorem space_not_mem_dottedQuad (octets : Bytes) :
    32 ∉ dottedQuad octets := by
  intro member
  rcases mem_dottedQuad member with isDot | digit
  · cases isDot
  · exact absurd digit.1 (by decide)

/-- The loop makes a record of exactly the lines with an address. -/
theorem hintOf_eq_some_iff {line : Bytes} {ns : NsRecord} :
    hintOf line = some ns ↔ HintLine line ns := by
  have copied :
      ∀ word : Bytes,
        boundedCopy (dnsMaxNameLen + 1) (word.take 127) = word.take 127 := by
    intro word
    rw [boundedCopy, List.take_of_length_le]
    exact Nat.le_trans (List.length_take_le 127 word) (by decide)
  constructor
  · intro made
    unfold hintOf at made
    split at made
    · cases made
    · rename_i kept
      rw [not_or] at kept
      split at made
      · cases made
      · rename_i field isField
        split at made
        · cases made
        · rename_i address isAddress
          split at made
          · cases made
          · rename_i name isName
            cases made
            obtain ⟨-, front, isLine⟩ :=
              behindLastSpace_eq_some_iff.mp isField
            obtain ⟨octets, four, rfl, rfl⟩ :=
              inetPton_eq_some_iff.mp isAddress
            obtain ⟨blank, word, rest, shape, isBlank, isWord, nonempty, ends,
              rfl⟩ := firstWord_eq_some_iff.mp isName
            exact
              ⟨kept.1, ⟨front, octets, four, isLine, rfl⟩,
                ⟨blank, word, rest, shape, isBlank, isWord, nonempty, ends,
                  copied word⟩⟩
  · rintro ⟨noComment, ⟨front, octets, four, isLine, isAddress⟩,
      ⟨blank, word, rest, shape, isBlank, isWord, nonempty, ends, isName⟩⟩
    have isField : behindLastSpace line = some (dottedQuad octets) :=
      behindLastSpace_eq_some_iff.mpr
        ⟨space_not_mem_dottedQuad octets, front, isLine⟩
    have taken : inetPton (dottedQuad octets) = some (sAddrOf octets) :=
      inetPton_eq_some_iff.mpr ⟨octets, four, rfl, rfl⟩
    have isWord : firstWord line = some (word.take 127) :=
      firstWord_eq_some_iff.mpr
        ⟨blank, word, rest, shape, isBlank, isWord, nonempty, ends, rfl⟩
    have nonempty : line ≠ [] := by
      rw [isLine]
      simp
    rw [hintOf, if_neg (not_or.mpr ⟨noComment, nonempty⟩)]
    simp only [isField, taken, isWord, copied]
    rw [← isAddress, ← isName]

/-- What `fgets` has read of a line gives its text. -/
theorem hintText_read
    {line behind : Bytes} (fits : FitsLine line)
    (ends : behind.head? = none ∨ behind.head? = some 10) :
    hintText (line ++ behind) = line := by
  have kept :
      ∀ character, character ∈ line →
        decide (character ≠ 0 ∧ character ≠ 10) = true := by
    intro character member
    apply decide_eq_true
    constructor
    · rintro rfl
      exact fits.noNul member
    · rintro rfl
      exact fits.noNewline member
  rw [hintText, List.takeWhile_append_of_pos kept]
  cases behind with
  | nil => simp
  | cons head tail =>
      rcases ends with none | isEnd
      · cases none
      · cases isEnd
        simp

/-- The loader finds the same in a file as in its lines. -/
theorem readHints_lines
    {lines : List Bytes} {last : Bytes}
    (fits : ∀ line, line ∈ lines ++ [last] → FitsLine line) :
    ((readAll 10 255 (terminated 10 lines ++ last)).map hintText).filterMap
        hintOf =
      (lines ++ [last]).filterMap hintOf := by
  have lastFits := fits last (by simp)
  have read :=
    @readAll_terminated _ _ 10 255 lines
      (fun line member =>
        have lineFits := fits line (List.mem_append_left [last] member)
        ⟨lineFits.noNewline, lineFits.short⟩)
      last
  have texts : (lines.map (· ++ [10])).map hintText = lines := by
    rw [List.map_map]
    conv_rhs => rw [← List.map_id lines]
    apply List.map_congr_left
    intro line member
    exact
      hintText_read (fits line (List.mem_append_left [last] member))
        (Or.inr rfl)
  have lastText := hintText_read lastFits (Or.inl List.head?_nil)
  rw [List.append_nil] at lastText
  rw [read,
    readAll_last (by decide) lastFits.noNewline (Nat.le_of_lt lastFits.short),
    List.map_append, texts, List.filterMap_append, List.filterMap_append]
  apply congrArg (lines.filterMap hintOf ++ ·)
  split
  · rename_i empty
    rw [empty]
    rfl
  · rw [List.map_singleton, lastText]

/-- From a file of lines that fit the buffer the loader takes, in their order,
the records of its lines, and these are as the lines say. -/
theorem resolverLoadRootHints_lines
    (hints : List NsRecord) (lines : List Bytes) (last : Bytes)
    (fits : ∀ line, line ∈ lines ++ [last] → FitsLine line) :
    (∃ found : List (Option NsRecord),
      List.Forall₂ (fun line record =>
          ∀ ns, record = some ns ↔ HintLine line ns)
        (lines ++ [last]) found ∧
        (resolverLoadRootHints hints
            (some (terminated 10 lines ++ last))).2 =
          hints ++ found.reduceOption) ∧
      ((resolverLoadRootHints hints
            (some (terminated 10 lines ++ last))).1 =
          0 ↔
        (resolverLoadRootHints hints
            (some (terminated 10 lines ++ last))).2 ≠
          []) := by
  rw [resolverLoadRootHints]
  simp only [readHints_lines fits]
  constructor
  · refine ⟨(lines ++ [last]).map hintOf, ?_, ?_⟩
    · rw [List.forall₂_map_right_iff, List.forall₂_same]
      intro line member ns
      exact hintOf_eq_some_iff
    · rw [List.reduceOption, List.filterMap_map]
      rfl
  · generalize hints ++ (lines ++ [last]).filterMap hintOf = loaded
    cases loaded with
    | nil => simp
    | cons head tail => simp

/-- `A.ROOT 3600 A 198.41.0.4` -/
def hintLineA : Bytes :=
  [65, 46, 82, 79, 79, 84, 32, 51, 54, 48, 48, 32, 65, 32, 49, 57, 56, 46,
    52, 49, 46, 48, 46, 52]

example :
    hintOf hintLineA =
      some ⟨[65, 46, 82, 79, 79, 84], ⟨sAddrOf [198, 41, 0, 4], 53⟩⟩ := by
  decide +kernel

theorem fitsLine_hintLineA : FitsLine hintLineA :=
  ⟨by decide, by decide, by decide⟩

theorem fitsLine_nil : FitsLine [] :=
  ⟨by decide, by decide, by decide⟩

/-- A comment and one line with an address. -/
theorem resolverLoadRootHints_lines_one :
    ∃ found : List (Option NsRecord),
      List.Forall₂ (fun line record =>
          ∀ ns, record = some ns ↔ HintLine line ns)
        [[59, 97], hintLineA, []] found ∧
        (resolverLoadRootHints []
            (some (terminated 10 [[59, 97], hintLineA]))).2 =
          found.reduceOption := by
  have fits :
      ∀ line, line ∈ [[59, 97], hintLineA] ++ [[]] → FitsLine line := by
    intro line member
    simp only [List.cons_append, List.nil_append, List.mem_cons,
      List.not_mem_nil, or_false] at member
    rcases member with rfl | rfl | rfl
    · exact ⟨by decide, by decide, by decide⟩
    · exact fitsLine_hintLineA
    · exact fitsLine_nil
  obtain ⟨⟨found, each, loaded⟩, -⟩ :=
    resolverLoadRootHints_lines [] [[59, 97], hintLineA] [] fits
  rw [List.append_nil, List.nil_append] at loaded
  exact ⟨found, each, loaded⟩

end DnsFirewall
