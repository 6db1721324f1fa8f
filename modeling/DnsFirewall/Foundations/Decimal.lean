import Mathlib.Algebra.Group.Nat.Defs
import DnsFirewall.Foundations.CString

/-!
# Decimal text

The digits that `printf` writes for a number give the number back, and a text
with two such fields behind separators can be taken apart from its end.
-/

namespace DnsFirewall.CString

def IsDigit (character : UInt8) : Prop :=
  48 ≤ character.toNat ∧ character.toNat ≤ 57

/-- The number that a string of digits stands for. -/
def decimalValue (text : Bytes) : Nat :=
  text.foldl (fun value digit => value * 10 + (digit.toNat - 48)) 0

theorem digit_toNat (value : Nat) :
    (48 + value % 10).toUInt8.toNat = 48 + value % 10 := by
  have small : value % 10 < 10 := Nat.mod_lt value (by omega)
  rw [Nat.toUInt8, UInt8.toNat_ofNat']
  exact Nat.mod_eq_of_lt (by omega)

theorem decimalDigits_append (fuel value : Nat) (rest : Bytes) :
    decimalDigits fuel value rest = decimalDigits fuel value [] ++ rest := by
  induction fuel generalizing value rest with
  | zero => rfl
  | succ fuel inductionHypothesis =>
      rw [decimalDigits, decimalDigits]
      by_cases last : value / 10 = 0
      · rw [if_pos last, if_pos last]
        rfl
      · rw [if_neg last, if_neg last, inductionHypothesis,
          inductionHypothesis (value / 10) [(48 + value % 10).toUInt8],
          List.append_assoc]
        rfl

theorem isDigit_of_mem_decimalDigits
    {fuel value : Nat} {character : UInt8}
    (member : character ∈ decimalDigits fuel value []) :
    IsDigit character := by
  induction fuel generalizing value with
  | zero => cases member
  | succ fuel inductionHypothesis =>
      have here : IsDigit (48 + value % 10).toUInt8 := by
        rw [IsDigit]
        rw [digit_toNat]
        omega
      rw [decimalDigits] at member
      by_cases last : value / 10 = 0
      · rw [if_pos last, List.mem_singleton] at member
        rw [member]
        exact here
      · rw [if_neg last, decimalDigits_append, List.mem_append,
          List.mem_singleton] at member
        rcases member with earlier | same
        · exact inductionHypothesis earlier
        · rw [same]
          exact here

theorem decimalValue_append_digit (text : Bytes) (digit : UInt8) :
    decimalValue (text ++ [digit]) =
      decimalValue text * 10 + (digit.toNat - 48) := by
  rw [decimalValue, List.foldl_append]
  rfl

theorem decimalValue_decimalDigits
    {fuel value : Nat} (bound : value < fuel) :
    decimalValue (decimalDigits fuel value []) = value := by
  induction fuel generalizing value with
  | zero => omega
  | succ fuel inductionHypothesis =>
      rw [decimalDigits]
      by_cases last : value / 10 = 0
      · rw [if_pos last]
        have single := decimalValue_append_digit [] (48 + value % 10).toUInt8
        rw [digit_toNat] at single
        rw [List.nil_append] at single
        rw [single, decimalValue, List.foldl_nil]
        omega
      · have front : decimalValue (decimalDigits fuel (value / 10) []) =
            value / 10 := by
          apply inductionHypothesis
          omega
        rw [if_neg last, decimalDigits_append, decimalValue_append_digit,
          front, digit_toNat]
        omega

theorem decimalDigits_length_le
    {fuel value places : Nat} (positive : 0 < places)
    (bound : value < 10 ^ places) :
    (decimalDigits fuel value []).length ≤ places := by
  induction fuel generalizing value places with
  | zero => exact Nat.zero_le _
  | succ fuel inductionHypothesis =>
      rw [decimalDigits]
      by_cases last : value / 10 = 0
      · rw [if_pos last]
        exact positive
      · rw [if_neg last, decimalDigits_append, List.length_append,
          List.length_singleton]
        cases places with
        | zero => omega
        | succ places =>
            have small : value / 10 < 10 ^ places := by
              rw [Nat.pow_succ] at bound
              omega
            have stillPositive : 0 < places := by
              apply Nat.pos_of_ne_zero
              intro none
              rw [none, Nat.pow_zero] at small
              omega
            have front := inductionHypothesis stillPositive small
            omega

/-- Fuel above the number is enough. -/
theorem decimalDigits_congr
    {fuel other value : Nat} (enough : value < fuel) (also : value < other)
    (rest : Bytes) :
    decimalDigits fuel value rest = decimalDigits other value rest := by
  induction fuel generalizing other value rest with
  | zero => exact absurd enough (Nat.not_lt_zero value)
  | succ fuel inductionHypothesis =>
      cases other with
      | zero => exact absurd also (Nat.not_lt_zero value)
      | succ other =>
          rw [decimalDigits, decimalDigits]
          by_cases last : value / 10 = 0
          · rw [if_pos last, if_pos last]
          · rw [if_neg last, if_neg last]
            exact inductionHypothesis (by omega) (by omega) _

theorem decimal_digit {digit : Nat} (small : digit < 10) :
    decimal digit = [(48 + digit).toUInt8] := by
  rw [decimal, decimalDigits, if_pos (Nat.div_eq_of_lt small),
    Nat.mod_eq_of_lt small]

/-- A further digit makes a number of one more place. -/
theorem decimal_append_digit
    {value digit : Nat} (positive : 0 < value) (small : digit < 10) :
    decimal (value * 10 + digit) =
      decimal value ++ [(48 + digit).toUInt8] := by
  have front : (value * 10 + digit) / 10 = value := by omega
  have last : (value * 10 + digit) % 10 = digit := by omega
  have more : (value * 10 + digit) / 10 ≠ 0 := by omega
  rw [decimal, decimalDigits, if_neg more, front, last, decimalDigits_append,
    decimal,
    decimalDigits_congr (by omega) (Nat.lt_succ_self value)]

theorem isDigit_of_mem_decimal
    {value : Nat} {character : UInt8} (member : character ∈ decimal value) :
    IsDigit character :=
  isDigit_of_mem_decimalDigits member

theorem decimalValue_decimal (value : Nat) :
    decimalValue (decimal value) = value :=
  decimalValue_decimalDigits (Nat.lt_succ_self value)

theorem decimal_injective {first second : Nat}
    (same : decimal first = decimal second) : first = second := by
  have values := congrArg decimalValue same
  rw [decimalValue_decimal, decimalValue_decimal] at values
  exact values

theorem decimal_length_le {value places : Nat} (positive : 0 < places)
    (bound : value < 10 ^ places) : (decimal value).length ≤ places :=
  decimalDigits_length_le positive bound

theorem not_isDigit_colon : ¬ IsDigit 58 := by
  rw [IsDigit]
  decide

/-- The last separator of a text can be told from the ones in front of it. -/
theorem append_separator_inj
    {separator : UInt8} {front other back rest : Bytes}
    (plain : separator ∉ back) (alsoPlain : separator ∉ rest)
    (same : front ++ separator :: back = other ++ separator :: rest) :
    front = other ∧ back = rest := by
  rcases List.append_eq_append_iff.mp same with
    ⟨middle, isOther, isBack⟩ | ⟨middle, isFront, isRest⟩
  · cases middle with
    | nil =>
        rw [List.append_nil] at isOther
        rw [List.nil_append] at isBack
        exact ⟨isOther.symm, (List.cons.inj isBack).2⟩
    | cons head middle =>
        obtain ⟨-, isBack⟩ := List.cons.inj isBack
        rw [isBack] at plain
        exact absurd (by simp) plain
  · cases middle with
    | nil =>
        rw [List.append_nil] at isFront
        rw [List.nil_append] at isRest
        exact ⟨isFront, (List.cons.inj isRest).2.symm⟩
    | cons head middle =>
        obtain ⟨-, isRest⟩ := List.cons.inj isRest
        rw [isRest] at alsoPlain
        exact absurd (by simp) alsoPlain

end DnsFirewall.CString
