import DnsFirewall.Foundations.Base64
import DnsFirewall.Processor.Doh

/-!
# What `b64_decode` writes

The bytes that `b64_decode` writes, without the array they are written to.
The accumulator is shifted and never masked, so its high bits are those of
earlier digits and are lost behind the word; only the bits that are still to
be written count.  What comes out are the digits of the text's alphabet
characters in front of its first `=`, made into digits of eight bits.
-/

namespace DnsFirewall

open CString BigEndian FixedArrays BitStrings

/-- The bytes that the loop of `b64_decode` writes, from its values of `buf`
and `bits`. -/
def b64Output (buf : UInt32) (bits : Nat) : Bytes → Bytes
  | [] => []
  | character :: rest =>
      if character = 61 then []
      else
        match b64Index character with
        | none => b64Output buf bits rest
        | some index =>
            let buf := (buf <<< 6) ||| index.toUInt32
            let bits := bits + 6
            if 8 ≤ bits then
              let bits := bits - 8
              (buf >>> bits.toUInt32).toUInt8 :: b64Output buf bits rest
            else
              b64Output buf bits rest

/-- The loop writes these bytes behind what is written, as far as the array
has room. -/
theorem b64Loop_eq_write
    (text : Bytes) (buf : UInt32) (bits : Nat) (out : DohFilled .dnsQuery) :
    b64Loop buf bits out text = out.write (b64Output buf bits text) := by
  induction text generalizing buf bits out with
  | nil => exact (Filled.write_nil out).symm
  | cons character rest inductionHypothesis =>
      rw [b64Loop, b64Output]
      by_cases atEnd : character = 61
      · rw [if_pos atEnd, if_pos atEnd]
        exact (Filled.write_nil out).symm
      · rw [if_neg atEnd, if_neg atEnd]
        cases found : b64Index character with
        | none => exact inductionHypothesis buf bits out
        | some index =>
            simp only
            by_cases full : 8 ≤ bits + 6
            · rw [if_pos full, if_pos full]
              simp only [inductionHypothesis]
              exact Filled.write_write _ _ _
            · rw [if_neg full, if_neg full]
              exact inductionHypothesis _ _ out

theorem b64Decode_eq_write (text : Bytes) :
    b64Decode text =
      (Filled.empty : DohFilled .dnsQuery).write (b64Output 0 0 text) :=
  b64Loop_eq_write text 0 0 .empty

/-! ## The alphabet -/

theorem b64Table_eq_alphabet :
    b64Table = Base64.alphabet Base64.standard := by
  decide

theorem b64Index_standard :
    ∀ digit, digit < 64 → b64Index (Base64.standard digit) = some digit := by
  decide

/-- A character other than NUL has a place in the alphabet or none. -/
theorem b64Index_lt
    {character : UInt8} (notNul : character ≠ 0) {index : Nat}
    (found : b64Index character = some index) :
    index < 64 := by
  rw [b64Index] at found
  obtain ⟨inside, here, _⟩ := List.idxOf?_eq_some_iff.mp found
  have size : (b64Table ++ [0]).length = 65 := by decide
  by_contra tooHigh
  have atEnd : index = 64 := by omega
  subst atEnd
  exact notNul here.symm

theorem b64Index_eq_none
    {character : UInt8} (notNul : character ≠ 0)
    (outside : character ∉ Base64.alphabet Base64.standard) :
    b64Index character = none := by
  rw [b64Index, b64Table_eq_alphabet]
  apply List.idxOf?_eq_none_iff.mpr
  intro member
  rcases List.mem_append.mp member with inside | last
  · exact outside inside
  · exact notNul (List.mem_singleton.mp last)

/-- The digits that `b64_decode` reads in a text. -/
def b64Digits (text : Bytes) : List Nat :=
  (text.takeWhile (· ≠ 61)).filterMap b64Index

theorem b64Digits_cons
    {character : UInt8} (notEnd : character ≠ 61) (rest : Bytes) :
    b64Digits (character :: rest) =
      match b64Index character with
      | none => b64Digits rest
      | some index => index :: b64Digits rest := by
  unfold b64Digits
  rw [List.takeWhile_cons_of_pos (by simpa using notEnd),
    List.filterMap_cons]
  cases b64Index character with
  | none => rfl
  | some index => rfl

theorem lt_of_mem_b64Digits
    {text : Bytes} (noNul : 0 ∉ text) {digit : Nat}
    (member : digit ∈ b64Digits text) :
    digit < 64 := by
  obtain ⟨character, inside, found⟩ := List.mem_filterMap.mp member
  have inText : character ∈ text :=
    (List.takeWhile_prefix _).mem inside
  apply b64Index_lt _ found
  intro isNul
  exact noNul (isNul ▸ inText)

/-- The characters outside the alphabet bring no digit. -/
theorem filterMap_b64Index_filter
    {text : Bytes} (noNul : 0 ∉ text) :
    (text.filter (· ∈ Base64.alphabet Base64.standard)).filterMap b64Index =
      text.filterMap b64Index := by
  induction text with
  | nil => rfl
  | cons character rest inductionHypothesis =>
      have later :=
        inductionHypothesis fun member =>
          noNul (List.mem_cons_of_mem character member)
      have notNul : character ≠ 0 := by
        intro isNul
        exact noNul (isNul ▸ List.mem_cons_self)
      by_cases inside : character ∈ Base64.alphabet Base64.standard
      · rw [List.filter_cons_of_pos (by simpa using inside),
          List.filterMap_cons, List.filterMap_cons, later]
      · rw [List.filter_cons_of_neg (by simpa using inside),
          List.filterMap_cons, b64Index_eq_none notNul inside, later]

/-- The encoding of a text is read as its digits. -/
theorem filterMap_b64Index_encode (text : Bytes) :
    (Base64.encode Base64.standard text).filterMap b64Index =
      Base64.sextets text := by
  rw [Base64.encode, List.filterMap_map]
  conv_rhs => rw [← List.filterMap_some (l := Base64.sextets text)]
  apply List.filterMap_congr
  intro digit member
  exact b64Index_standard digit (Base64.lt_of_mem_sextets text member)

/-! ## The accumulator -/

/-- A digit is shifted in: the word has the same lowest bits as the number
that is never cut off. -/
theorem toNat_shifted_mod
    {buf : UInt32} {acc bits index : Nat} (few : bits < 8)
    (small : index < 64) (same : buf.toNat % 2 ^ bits = acc % 2 ^ bits) :
    ((buf <<< 6) ||| index.toUInt32).toNat % 2 ^ (bits + 6) =
      (acc * 2 ^ 6 + index) % 2 ^ (bits + 6) := by
  have digit : index.toUInt32.toNat = index :=
    UInt32.toNat_ofNat_of_lt' (by
      have size : UInt32.size = 4294967296 := rfl
      omega)
  have cutOff :
      buf.toNat * 2 ^ 6 % 2 ^ 32 = (buf.toNat % 2 ^ 26) <<< 6 := by
    rw [Nat.shiftLeft_eq]
    omega
  have word :
      ((buf <<< 6) ||| index.toUInt32).toNat =
        buf.toNat * 2 ^ 6 % 2 ^ 32 + index := by
    rw [UInt32.toNat_or, UInt32.toNat_shiftLeft, digit]
    change (buf.toNat <<< 6) % 2 ^ 32 ||| index = _
    rw [Nat.shiftLeft_eq, cutOff, Nat.shiftLeft_add_eq_or_of_lt small]
  have wrapped :
      (buf.toNat * 2 ^ 6 % 2 ^ 32 + index) % 2 ^ (bits + 6) =
        (buf.toNat * 2 ^ 6 + index) % 2 ^ (bits + 6) := by
    have divides : 2 ^ (bits + 6) ∣ 2 ^ 32 :=
      Nat.pow_dvd_pow 2 (by omega)
    rw [Nat.add_mod, Nat.mod_mod_of_dvd _ divides, ← Nat.add_mod]
  have shifted :
      buf.toNat * 2 ^ 6 % 2 ^ (bits + 6) =
        acc * 2 ^ 6 % 2 ^ (bits + 6) := by
    rw [Nat.pow_add, Nat.mul_mod_mul_right, Nat.mul_mod_mul_right, same]
  rw [word, wrapped, Nat.add_mod, shifted, ← Nat.add_mod]

/-- The byte that is written: the eight bits above those that are left
over. -/
theorem written_byte
    {buf : UInt32} {acc left : Nat} (few : left < 8)
    (same : buf.toNat % 2 ^ (left + 8) = acc % 2 ^ (left + 8)) :
    (buf >>> left.toUInt32).toUInt8 = (acc / 2 ^ left % 2 ^ 8).toUInt8 := by
  have amount : left.toUInt32.toNat = left :=
    UInt32.toNat_ofNat_of_lt' (by
      have size : UInt32.size = 4294967296 := rfl
      omega)
  have high :
      ∀ number : Nat,
        number / 2 ^ left % 2 ^ 8 = number % 2 ^ (left + 8) / 2 ^ left := by
    intro number
    rw [Nat.pow_add, Nat.mod_mul_right_div_self]
  apply UInt8.toNat_inj.mp
  rw [UInt32.toNat_toUInt8, UInt32.toNat_shiftRight, amount,
    Nat.mod_eq_of_lt (Nat.lt_trans few (by decide)),
    Nat.shiftRight_eq_div_pow, high, same, ← high]
  exact (Nat.mod_mod _ _).symm

/-- What `b64_decode` writes are the digits of eight bits that its digits
make, whatever the accumulator holds above the bits to be written. -/
theorem b64Output_eq_regroup
    {text : Bytes} (noNul : 0 ∉ text) {buf : UInt32} {bits acc : Nat}
    (few : bits < 8) (same : buf.toNat % 2 ^ bits = acc % 2 ^ bits) :
    b64Output buf bits text =
      (regroup 6 8 acc bits (b64Digits text)).map Nat.toUInt8 := by
  induction text generalizing buf bits acc with
  | nil => rfl
  | cons character rest inductionHypothesis =>
      have noLater : 0 ∉ rest := fun member =>
        noNul (List.mem_cons_of_mem character member)
      have notNul : character ≠ 0 := by
        intro isNul
        exact noNul (isNul ▸ List.mem_cons_self)
      rw [b64Output]
      by_cases atEnd : character = 61
      · rw [if_pos atEnd, atEnd]
        rfl
      · rw [if_neg atEnd, b64Digits_cons atEnd]
        cases found : b64Index character with
        | none => exact inductionHypothesis noLater few same
        | some index =>
            have shifted :=
              toNat_shifted_mod few (b64Index_lt notNul found) same
            simp only
            rw [regroup]
            by_cases full : 8 ≤ bits + 6
            · have whole : bits + 6 - 8 + 8 = bits + 6 := by omega
              have fewLeft : bits + 6 - 8 < 8 := by omega
              have byte := shifted
              rw [← whole] at byte
              have written := written_byte fewLeft byte
              have divides : 2 ^ (bits + 6 - 8) ∣ 2 ^ (bits + 6) :=
                Nat.pow_dvd_pow 2 (by omega)
              have left :=
                congrArg (· % 2 ^ (bits + 6 - 8)) shifted
              simp only [Nat.mod_mod_of_dvd _ divides] at left
              rw [if_pos full, if_pos full, List.map_cons,
                inductionHypothesis noLater fewLeft left, written]
            · rw [if_neg full, if_neg full]
              exact
                inductionHypothesis noLater (Nat.lt_of_not_le full) shifted

/-- `b64_decode` writes a text exactly when its digits are the bits of the
text and less than a byte more. -/
theorem b64Output_eq_iff
    {text : Bytes} (noNul : 0 ∉ text) {output : Bytes} :
    b64Output 0 0 text = output ↔
      ∃ rest : List Bool,
        rest.length < 8 ∧
          spread 6 (b64Digits text) =
            spread 8 (output.map UInt8.toNat) ++ rest := by
  have small : ∀ digit, digit ∈ b64Digits text → digit < 2 ^ 6 :=
    fun digit member => lt_of_mem_b64Digits noNul member
  have outputSmall :
      ∀ digit, digit ∈ output.map UInt8.toNat → digit < 2 ^ 8 := by
    intro digit member
    obtain ⟨byte, _, same⟩ := List.mem_map.mp member
    rw [← same]
    exact byte.toNat_lt
  have written :
      b64Output 0 0 text =
        (regroup 6 8 0 0 (b64Digits text)).map Nat.toUInt8 :=
    b64Output_eq_regroup noNul (by decide) rfl
  rw [written, ← regroup_eq_iff (by decide) (by decide) small outputSmall]
  constructor
  · intro same
    rw [← same, List.map_map]
    conv_lhs => rw [← List.map_id (regroup 6 8 0 0 (b64Digits text))]
    apply List.map_congr_left
    intro digit member
    exact
      (UInt8.toNat_ofNat_of_lt' (lt_of_mem_regroup member)).symm
  · intro same
    rw [same, List.map_map]
    conv_rhs => rw [← List.map_id output]
    apply List.map_congr_left
    intro byte _
    exact UInt8.ofNat_toNat

/-- `b64_decode` inverts the standard encoding, with other characters among
its letters, and with or without padding behind them. -/
theorem b64Output_of_encoded
    {x text padding : Bytes} (noNul : 0 ∉ text) (noEnd : 61 ∉ text)
    (spelled :
      text.filter (· ∈ Base64.alphabet Base64.standard) =
        Base64.encode Base64.standard x)
    (padded : padding = [] ∨ padding = Base64.padding x) :
    b64Output 0 0 (text ++ padding) = x := by
  have isEnd : ∀ character, character ∈ padding → character = 61 := by
    intro character member
    rcases padded with same | same
    · rw [same] at member
      cases member
    · rw [same] at member
      exact List.eq_of_mem_replicate member
  have wholeNoNul : 0 ∉ text ++ padding := by
    intro member
    rcases List.mem_append.mp member with inText | inPadding
    · exact noNul inText
    · exact absurd (isEnd 0 inPadding) (by decide)
  have taken : (text ++ padding).takeWhile (· ≠ 61) = text := by
    have nothing : padding.takeWhile (· ≠ 61) = [] := by
      cases padding with
      | nil => rfl
      | cons character rest =>
          rw [isEnd character List.mem_cons_self]
          rfl
    rw [List.takeWhile_append_of_pos, nothing, List.append_nil]
    intro character member
    have notEnd : character ≠ 61 := by
      intro same
      exact noEnd (same ▸ member)
    simpa using notEnd
  have digits : b64Digits (text ++ padding) = Base64.sextets x := by
    rw [b64Digits, taken, ← filterMap_b64Index_filter noNul, spelled,
      filterMap_b64Index_encode]
  apply (b64Output_eq_iff wholeNoNul).mpr
  refine ⟨List.replicate (Base64.unusedBits x) false, ?_, ?_⟩
  · rw [List.length_replicate]
    exact Nat.lt_trans (Base64.unusedBits_lt x) (by decide)
  · rw [digits, Base64.spread_sextets]

/-- The two letters of `fo` with a line end among their characters. -/
theorem b64Output_of_encoded_fo :
    b64Output 0 0 ([90, 10, 109, 56] ++ Base64.padding [102, 111]) =
      [102, 111] :=
  b64Output_of_encoded (by decide) (by decide) (by decide) (Or.inr rfl)

end DnsFirewall
