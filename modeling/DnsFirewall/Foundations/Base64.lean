import DnsFirewall.Foundations.BitStrings

/-!
# Base64

The encoding of RFC 4648: the bits of the bytes, read as digits of six bits
after as many zeros as the last digit needs, and written in an alphabet of
sixty-four characters.  The two alphabets of the RFC differ in their last two
characters.
-/

namespace DnsFirewall.Base64

open BitStrings

/-- The digits of six bits for a text: four for three bytes, and two or three
for what is left over. -/
def sextets : List UInt8 → List Nat
  | [] => []
  | [first] => [first.toNat / 4, first.toNat % 4 * 16]
  | [first, second] =>
      [first.toNat / 4, first.toNat % 4 * 16 + second.toNat / 16,
        second.toNat % 16 * 4]
  | first :: second :: third :: rest =>
      first.toNat / 4 :: (first.toNat % 4 * 16 + second.toNat / 16) ::
        (second.toNat % 16 * 4 + third.toNat / 64) :: third.toNat % 64 ::
          sextets rest

/-- The characters of an alphabet whose last two are given. -/
def letter (plus slash : UInt8) (value : Nat) : UInt8 :=
  if value < 26 then (65 + value).toUInt8
  else if value < 52 then (97 + (value - 26)).toUInt8
  else if value < 62 then (48 + (value - 52)).toUInt8
  else if value = 62 then plus
  else slash

/-- The standard alphabet, with `+` and `/`. -/
def standard : Nat → UInt8 :=
  letter 43 47

/-- The alphabet for URLs and file names, with `-` and `_`. -/
def urlSafe : Nat → UInt8 :=
  letter 45 95

/-- The characters of an alphabet in their order. -/
def alphabet (letters : Nat → UInt8) : List UInt8 :=
  (List.range 64).map letters

/-- The encoding without padding. -/
def encode (letters : Nat → UInt8) (text : List UInt8) : List UInt8 :=
  (sextets text).map letters

/-- The `=` behind the encoding of a text. -/
def padding (text : List UInt8) : List UInt8 :=
  List.replicate ((3 - text.length % 3) % 3) 61

/-- The bits of the last digit that are no bits of the text. -/
def unusedBits (text : List UInt8) : Nat :=
  2 * ((3 - text.length % 3) % 3)

theorem unusedBits_lt (text : List UInt8) : unusedBits text < 6 := by
  rw [unusedBits]
  omega

theorem lt_of_mem_sextets
    (text : List UInt8) {digit : Nat} (member : digit ∈ sextets text) :
    digit < 64 := by
  fun_induction sextets text with
  | case1 => cases member
  | case2 first =>
      have small := first.toNat_lt
      simp only [List.mem_cons, List.not_mem_nil, or_false] at member
      omega
  | case3 first second =>
      have small := first.toNat_lt
      have smallSecond := second.toNat_lt
      simp only [List.mem_cons, List.not_mem_nil, or_false] at member
      omega
  | case4 first second third rest inductionHypothesis =>
      have small := first.toNat_lt
      have smallSecond := second.toNat_lt
      have smallThird := third.toNat_lt
      simp only [List.mem_cons] at member
      rcases member with same | same | same | same | later
      · omega
      · omega
      · omega
      · omega
      · exact inductionHypothesis later

/-- Every character of the encoding is one of the alphabet. -/
theorem mem_alphabet_of_mem_encode
    {letters : Nat → UInt8} {text : List UInt8} {character : UInt8}
    (member : character ∈ encode letters text) :
    character ∈ alphabet letters := by
  obtain ⟨digit, inside, same⟩ := List.mem_map.mp member
  rw [← same]
  exact
    List.mem_map_of_mem (List.mem_range.mpr (lt_of_mem_sextets text inside))

/-! ## The bits -/

/-- A byte as its highest bits and its lowest ones. -/
theorem bits_byte {high low : Nat} (whole : high + low = 8) (byte : UInt8) :
    bits 8 byte.toNat =
      bits high (byte.toNat / 2 ^ low) ++
        bits low (byte.toNat % 2 ^ low) := by
  have mod : bits low (byte.toNat % 2 ^ low) = bits low byte.toNat :=
    bits_eq_iff.mpr (Nat.mod_mod _ _)
  rw [mod, ← bits_add, whole]

/-- A digit made of the lowest bits of one byte and the highest of another. -/
theorem bits_joined
    {high low : Nat} (whole : high + low = 6)
    (front : Nat) {back : Nat} (small : back < 2 ^ low) :
    bits 6 (front * 2 ^ low + back) = bits high front ++ bits low back := by
  rw [← whole, bits_append high front small]

theorem bits_zero (width : Nat) :
    bits width 0 = List.replicate width false := by
  induction width with
  | zero => rfl
  | succ width inductionHypothesis =>
      rw [bits, Nat.zero_div, inductionHypothesis, List.replicate_succ']
      rfl

/-- The bits of the digits are those of the bytes and zeros for what is
unused. -/
theorem spread_sextets (text : List UInt8) :
    spread 6 (sextets text) =
      spread 8 (text.map UInt8.toNat) ++
        List.replicate (unusedBits text) false := by
  fun_induction sextets text with
  | case1 => rfl
  | case2 first =>
      have unused : unusedBits [first] = 4 := rfl
      have joined := @bits_joined 2 4 rfl (first.toNat % 4) 0 (by decide)
      have byte := @bits_byte 6 2 rfl first
      rw [bits_zero, Nat.add_zero] at joined
      simp only [List.map_cons, List.map_nil, spread_cons, spread_nil,
        List.append_nil]
      rw [byte, unused]
      simp only [Nat.reducePow] at joined ⊢
      rw [joined, List.append_assoc]
  | case3 first second =>
      have unused : unusedBits [first, second] = 2 := rfl
      have smallSecond := second.toNat_lt
      have front :=
        @bits_joined 2 4 rfl (first.toNat % 4) (second.toNat / 16)
          (by omega)
      have joined := @bits_joined 4 2 rfl (second.toNat % 16) 0 (by decide)
      have byte := @bits_byte 6 2 rfl first
      have byteSecond := @bits_byte 4 4 rfl second
      rw [bits_zero, Nat.add_zero] at joined
      simp only [List.map_cons, List.map_nil, spread_cons, spread_nil,
        List.append_nil]
      rw [byte, byteSecond, unused]
      simp only [Nat.reducePow] at front joined ⊢
      rw [front, joined]
      simp only [List.append_assoc]
  | case4 first second third rest inductionHypothesis =>
      have unused :
          unusedBits (first :: second :: third :: rest) =
            unusedBits rest := by
        rw [unusedBits, unusedBits]
        simp only [List.length_cons]
        omega
      have smallSecond := second.toNat_lt
      have smallThird := third.toNat_lt
      have front :=
        @bits_joined 2 4 rfl (first.toNat % 4) (second.toNat / 16)
          (by omega)
      have middle :=
        @bits_joined 4 2 rfl (second.toNat % 16) (third.toNat / 64)
          (by omega)
      have byte := @bits_byte 6 2 rfl first
      have byteSecond := @bits_byte 4 4 rfl second
      have byteThird := @bits_byte 2 6 rfl third
      simp only [List.map_cons, spread_cons]
      rw [byte, byteSecond, byteThird, inductionHypothesis, unused]
      simp only [Nat.reducePow] at front middle ⊢
      rw [front, middle]
      simp only [List.append_assoc]

/-! ## The digits that spell a text -/

/-- The digits of the encoding, whatever the unused bits of the last one are,
and at most one digit more, where none are unused. -/
def Spelled (text : List UInt8) (digits : List Nat) : Prop :=
  ∃ front final last extra,
    sextets text = front ++ [final] ∧ digits = front ++ last :: extra ∧
      last / 2 ^ unusedBits text = final / 2 ^ unusedBits text ∧
        (extra = [] ∨ 3 ∣ text.length ∧ extra.length = 1)

theorem sextets_ne_nil {text : List UInt8} (notEmpty : text ≠ []) :
    sextets text ≠ [] := by
  fun_cases sextets text with
  | case1 => exact absurd rfl notEmpty
  | case2 => simp
  | case3 => simp
  | case4 => simp

/-- The last digit of an encoding. -/
theorem exists_final {text : List UInt8} (notEmpty : text ≠ []) :
    ∃ front final, sextets text = front ++ [final] :=
  ⟨_, _, (List.dropLast_append_getLast (sextets_ne_nil notEmpty)).symm⟩

/-- The digits of the encoding and more. -/
theorem spelled_append_iff
    {text : List UInt8} (notEmpty : text ≠ []) {more : List Nat} :
    Spelled text (sextets text ++ more) ↔
      more = [] ∨ 3 ∣ text.length ∧ more.length = 1 := by
  constructor
  · intro spelled
    obtain ⟨front, final, last, extra, ends, digits_eq, _, few⟩ := spelled
    rw [ends, List.append_assoc, List.append_cancel_left_eq,
      List.singleton_append, List.cons.injEq] at digits_eq
    rw [digits_eq.2]
    exact few
  · intro few
    obtain ⟨front, final, ends⟩ := exists_final notEmpty
    refine ⟨front, final, final, more, ends, ?_, rfl, few⟩
    rw [ends, List.append_assoc, List.singleton_append]

/-- The bits of a text are those of the digits but the last and the used ones
of the last. -/
theorem spread_eq_used
    {text : List UInt8} {front : List Nat} {final : Nat}
    (ends : sextets text = front ++ [final]) :
    spread 8 (text.map UInt8.toNat) =
      spread 6 front ++
        bits (6 - unusedBits text) (final / 2 ^ unusedBits text) := by
  have few := unusedBits_lt text
  have whole : 6 - unusedBits text + unusedBits text = 6 := by omega
  have spreads := spread_sextets text
  rw [ends, spread_append, spread_cons, spread_nil, List.append_nil, ← whole,
    bits_add, whole, ← List.append_assoc] at spreads
  exact
    (List.append_inj_left' spreads
      (by rw [bits_length, List.length_replicate])).symm

section Used

variable {text : List UInt8}

/-- A digit is its used bits and its unused ones. -/
theorem bits_used (text : List UInt8) (digit : Nat) :
    bits 6 digit =
      bits (6 - unusedBits text) (digit / 2 ^ unusedBits text) ++
        bits (unusedBits text) digit := by
  have few := unusedBits_lt text
  have whole : 6 - unusedBits text + unusedBits text = 6 := by omega
  rw [← bits_add, whole]

/-- The used bits of a digit are a number below what they can hold. -/
theorem used_eq_of_bits
    {last final : Nat} (lastSmall : last < 64) (finalSmall : final < 64)
    (same :
      bits (6 - unusedBits text) (last / 2 ^ unusedBits text) =
        bits (6 - unusedBits text) (final / 2 ^ unusedBits text)) :
    last / 2 ^ unusedBits text = final / 2 ^ unusedBits text := by
  have few := unusedBits_lt text
  have whole : unusedBits text + (6 - unusedBits text) = 6 := by omega
  have below :
      ∀ digit, digit < 64 →
        digit / 2 ^ unusedBits text < 2 ^ (6 - unusedBits text) := by
    intro digit small
    apply Nat.div_lt_of_lt_mul
    rw [← Nat.pow_add, whole]
    exact small
  have values := bits_eq_iff.mp same
  rw [Nat.mod_eq_of_lt (below last lastSmall),
    Nat.mod_eq_of_lt (below final finalSmall)] at values
  exact values

/-- No bit is unused where whole groups are encoded. -/
theorem unusedBits_eq_zero_iff :
    unusedBits text = 0 ↔ 3 ∣ text.length := by
  rw [unusedBits]
  omega

theorem spread_of_spelled
    {digits : List Nat} (spelled : Spelled text digits) :
    ∃ rest : List Bool,
      rest.length < 8 ∧
        spread 6 digits = spread 8 (text.map UInt8.toNat) ++ rest := by
  obtain ⟨front, final, last, extra, ends, digits_eq, used, more⟩ := spelled
  have few := unusedBits_lt text
  refine ⟨bits (unusedBits text) last ++ spread 6 extra, ?_, ?_⟩
  · rw [List.length_append, bits_length, spread_length]
    rcases more with none | ⟨whole, one⟩
    · rw [none, List.length_nil]
      omega
    · have all := unusedBits_eq_zero_iff.mpr whole
      omega
  · rw [digits_eq, spread_eq_used ends, spread_append, spread_cons,
      bits_used text last, used]
    simp only [List.append_assoc]

theorem spelled_of_spread
    (notEmpty : text ≠ []) {digits : List Nat}
    (small : ∀ digit, digit ∈ digits → digit < 64) {rest : List Bool}
    (short : rest.length < 8)
    (spreads :
      spread 6 digits = spread 8 (text.map UInt8.toNat) ++ rest) :
    Spelled text digits := by
  have few := unusedBits_lt text
  obtain ⟨front, final, ends⟩ := exists_final notEmpty
  have encoded :
      ∀ digit, digit ∈ front ++ [final] → digit < 64 := by
    intro digit member
    rw [← ends] at member
    exact lt_of_mem_sextets text member
  rw [spread_eq_used ends, List.append_assoc] at spreads
  have lengths := congrArg List.length spreads
  rw [spread_length, List.length_append, spread_length,
    List.length_append, bits_length] at lengths
  obtain ⟨last, extra, digits_eq, behind⟩ :=
    cut_of_spread (by decide) small
      (fun digit member => encoded digit (List.mem_append_left _ member))
      (by omega) spreads
  rw [bits_used text last, List.append_assoc] at behind
  obtain ⟨usedBits, _⟩ :=
    List.append_inj behind (by rw [bits_length, bits_length])
  have lastSmall : last < 64 := by
    apply small
    rw [digits_eq]
    exact List.mem_append_right front List.mem_cons_self
  have finalSmall : final < 64 :=
    encoded final (List.mem_append_right front List.mem_cons_self)
  refine
    ⟨front, final, last, extra, ends, digits_eq,
      used_eq_of_bits lastSmall finalSmall usedBits, ?_⟩
  -- less than a byte has room for one more digit, where no bit is unused
  rw [digits_eq, List.length_append, List.length_cons] at lengths
  by_cases none : extra.length = 0
  · exact Or.inl (List.eq_nil_of_length_eq_zero none)
  · right
    have even : unusedBits text ≠ 1 := by
      rw [unusedBits]
      omega
    have all : unusedBits text = 0 := by omega
    exact ⟨unusedBits_eq_zero_iff.mp all, by omega⟩

/-- Digits spell a text exactly when their bits are those of the text and less
than a byte more. -/
theorem spelled_iff
    (notEmpty : text ≠ []) {digits : List Nat}
    (small : ∀ digit, digit ∈ digits → digit < 64) :
    Spelled text digits ↔
      ∃ rest : List Bool,
        rest.length < 8 ∧
          spread 6 digits = spread 8 (text.map UInt8.toNat) ++ rest := by
  constructor
  · exact spread_of_spelled
  · intro spelled
    obtain ⟨rest, short, spreads⟩ := spelled
    exact spelled_of_spread notEmpty small short spreads

end Used

end DnsFirewall.Base64
