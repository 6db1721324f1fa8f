import Mathlib.Algebra.Group.Nat.Defs
import Mathlib.Data.List.Basic
import Mathlib.Data.Nat.Basic

/-!
# Digits of other widths

Numbers of a fixed width written out bit by bit, the highest bit first, and
the conversion of digits of one width into digits of a greater width by an
accumulator.  The accumulator may keep what it has already given out: only as
many of its lowest bits count as are still to be given out.
-/

namespace DnsFirewall.BitStrings

/-- The lowest `width` bits of a number. -/
def bits : Nat → Nat → List Bool
  | 0, _ => []
  | width + 1, value => bits width (value / 2) ++ [decide (value % 2 = 1)]

/-- Digits of the given width, one behind the other. -/
def spread (width : Nat) (digits : List Nat) : List Bool :=
  digits.flatMap (bits width)

@[simp]
theorem bits_length (width value : Nat) :
    (bits width value).length = width := by
  induction width generalizing value with
  | zero => rfl
  | succ width inductionHypothesis =>
      rw [bits, List.length_append, inductionHypothesis,
        List.length_singleton]

theorem bits_add (high low value : Nat) :
    bits (high + low) value =
      bits high (value / 2 ^ low) ++ bits low value := by
  induction low generalizing value with
  | zero => simp [bits]
  | succ low inductionHypothesis =>
      have shifted : value / 2 / 2 ^ low = value / 2 ^ (low + 1) := by
        rw [Nat.div_div_eq_div_mul, Nat.pow_succ, Nat.mul_comm]
      rw [← Nat.add_assoc, bits, inductionHypothesis, shifted,
        List.append_assoc]
      rfl

theorem bits_eq_iff {width first second : Nat} :
    bits width first = bits width second ↔
      first % 2 ^ width = second % 2 ^ width := by
  induction width generalizing first second with
  | zero => simp [bits, Nat.mod_one]
  | succ width inductionHypothesis =>
      have split :
          ∀ value,
            value % 2 ^ (width + 1) =
              value % 2 + 2 * (value / 2 % 2 ^ width) := by
        intro value
        rw [Nat.pow_succ, Nat.mul_comm, Nat.mod_mul]
      have lengths :
          (bits width (first / 2)).length =
            (bits width (second / 2)).length := by
        rw [bits_length, bits_length]
      rw [bits, bits, split first, split second]
      constructor
      · intro same
        obtain ⟨front, back⟩ := List.append_inj same lengths
        have highs := inductionHypothesis.mp front
        have lows :
            first % 2 = 1 ↔ second % 2 = 1 := by simpa using back
        omega
      · intro same
        have lows : first % 2 = second % 2 := by omega
        have highs :
            first / 2 % 2 ^ width = second / 2 % 2 ^ width := by omega
        rw [inductionHypothesis.mpr highs, lows]

/-- A digit behind a number. -/
theorem bits_append
    (high value : Nat) {low digit : Nat} (small : digit < 2 ^ low) :
    bits (high + low) (value * 2 ^ low + digit) =
      bits high value ++ bits low digit := by
  have front : (value * 2 ^ low + digit) / 2 ^ low = value := by
    rw [Nat.mul_comm, Nat.mul_add_div (Nat.two_pow_pos low),
      Nat.div_eq_of_lt small, Nat.add_zero]
  have back :
      bits low (value * 2 ^ low + digit) = bits low digit := by
    rw [bits_eq_iff, Nat.mul_comm, Nat.mul_add_mod]
  rw [bits_add, front, back]

@[simp]
theorem spread_nil (width : Nat) : spread width [] = [] :=
  rfl

@[simp]
theorem spread_cons (width digit : Nat) (digits : List Nat) :
    spread width (digit :: digits) =
      bits width digit ++ spread width digits :=
  List.flatMap_cons

theorem spread_append (width : Nat) (first second : List Nat) :
    spread width (first ++ second) =
      spread width first ++ spread width second :=
  List.flatMap_append

theorem spread_length (width : Nat) (digits : List Nat) :
    (spread width digits).length = width * digits.length := by
  induction digits with
  | nil => rfl
  | cons digit digits inductionHypothesis =>
      rw [spread_cons, List.length_append, bits_length,
        inductionHypothesis, List.length_cons, Nat.mul_succ,
        Nat.add_comm]

/-- Two ways to read bits as digits and less than a digit are one. -/
theorem spread_inj
    {width : Nat} {first second : List Nat} {left right : List Bool}
    (firstSmall : ∀ digit, digit ∈ first → digit < 2 ^ width)
    (secondSmall : ∀ digit, digit ∈ second → digit < 2 ^ width)
    (leftShort : left.length < width) (rightShort : right.length < width)
    (same : spread width first ++ left = spread width second ++ right) :
    first = second := by
  induction first generalizing second with
  | nil =>
      cases second with
      | nil => rfl
      | cons digit digits =>
          have lengths := congrArg List.length same
          rw [List.length_append, List.length_append, spread_length,
            spread_length, List.length_cons, Nat.mul_succ] at lengths
          simp only [List.length_nil, Nat.mul_zero] at lengths
          omega
  | cons digit digits inductionHypothesis =>
      cases second with
      | nil =>
          have lengths := congrArg List.length same
          rw [List.length_append, List.length_append, spread_length,
            spread_length, List.length_cons, Nat.mul_succ] at lengths
          simp only [List.length_nil, Nat.mul_zero] at lengths
          omega
      | cons other others =>
          rw [spread_cons, spread_cons, List.append_assoc,
            List.append_assoc] at same
          obtain ⟨here, later⟩ :=
            List.append_inj same (by rw [bits_length, bits_length])
          have value := bits_eq_iff.mp here
          rw [Nat.mod_eq_of_lt (firstSmall digit List.mem_cons_self),
            Nat.mod_eq_of_lt (secondSmall other List.mem_cons_self)]
            at value
          rw [value,
            inductionHypothesis
              (fun x member =>
                firstSmall x (List.mem_cons_of_mem digit member))
              (fun x member =>
                secondSmall x (List.mem_cons_of_mem other member))
              later]

/-- Digits whose bits begin with those of fewer digits begin with these. -/
theorem cut_of_spread
    {width : Nat} {digits front : List Nat} {tail : List Bool}
    (positive : 0 < width)
    (small : ∀ digit, digit ∈ digits → digit < 2 ^ width)
    (frontSmall : ∀ digit, digit ∈ front → digit < 2 ^ width)
    (enough : front.length < digits.length)
    (same : spread width digits = spread width front ++ tail) :
    ∃ last extra,
      digits = front ++ last :: extra ∧
        bits width last ++ spread width extra = tail := by
  have cut :
      digits =
        digits.take front.length ++
          digits[front.length] :: digits.drop (front.length + 1) := by
    rw [← List.drop_eq_getElem_cons enough, List.take_append_drop]
  have cutLength : (digits.take front.length).length = front.length :=
    List.length_take_of_le (Nat.le_of_lt enough)
  rw [cut, spread_append] at same
  obtain ⟨before, behind⟩ :=
    List.append_inj same (by rw [spread_length, spread_length, cutLength])
  have begins : digits.take front.length = front := by
    apply @spread_inj width _ _ [] []
    · intro digit member
      exact small digit (List.mem_of_mem_take member)
    · exact frontSmall
    · exact positive
    · exact positive
    · rw [before]
  rw [begins] at cut
  rw [spread_cons] at behind
  exact ⟨_, _, cut, behind⟩

/-! ## The accumulator -/

/-- Digits of `narrow` bits made into digits of `wide` bits: the accumulator
has `count` bits that are still to be given out. -/
def regroup (narrow wide : Nat) : Nat → Nat → List Nat → List Nat
  | _, _, [] => []
  | acc, count, digit :: digits =>
      let acc := acc * 2 ^ narrow + digit
      let count := count + narrow
      if wide ≤ count then
        acc / 2 ^ (count - wide) % 2 ^ wide ::
          regroup narrow wide acc (count - wide) digits
      else
        regroup narrow wide acc count digits

section Regroup

variable {narrow wide : Nat}

theorem lt_of_mem_regroup
    {acc count digit : Nat} {digits : List Nat}
    (member : digit ∈ regroup narrow wide acc count digits) :
    digit < 2 ^ wide := by
  induction digits generalizing acc count with
  | nil => cases member
  | cons next digits inductionHypothesis =>
      rw [regroup] at member
      split at member
      · rcases List.mem_cons.mp member with same | later
        · rw [same]
          exact Nat.mod_lt _ (Nat.two_pow_pos wide)
        · exact inductionHypothesis later
      · exact inductionHypothesis member

/-- What is given out and less than a digit more are the bits that were there
and those of the digits read. -/
theorem exists_spread_regroup
    (atMost : narrow ≤ wide) {acc count : Nat} (few : count < wide)
    {digits : List Nat}
    (small : ∀ digit, digit ∈ digits → digit < 2 ^ narrow) :
    ∃ rest : List Bool,
      rest.length < wide ∧
        bits count acc ++ spread narrow digits =
          spread wide (regroup narrow wide acc count digits) ++ rest := by
  induction digits generalizing acc count with
  | nil =>
      refine ⟨bits count acc, ?_, ?_⟩
      · rw [bits_length]
        exact few
      · exact List.append_nil _
  | cons digit digits inductionHypothesis =>
      have later :
          ∀ other, other ∈ digits → other < 2 ^ narrow :=
        fun other member => small other (List.mem_cons_of_mem digit member)
      have joined :=
        bits_append count acc (small digit List.mem_cons_self)
      rw [spread_cons, ← List.append_assoc, ← joined, regroup]
      by_cases full : wide ≤ count + narrow
      · rw [if_pos full]
        obtain ⟨rest, short, rest_eq⟩ :=
          @inductionHypothesis (acc * 2 ^ narrow + digit)
            (count + narrow - wide) (by omega) later
        refine ⟨rest, short, ?_⟩
        have whole : wide + (count + narrow - wide) = count + narrow := by
          omega
        have given :
            bits wide
                ((acc * 2 ^ narrow + digit) /
                    2 ^ (count + narrow - wide) % 2 ^ wide) =
              bits wide
                ((acc * 2 ^ narrow + digit) /
                  2 ^ (count + narrow - wide)) :=
          bits_eq_iff.mpr (Nat.mod_mod _ _)
        rw [spread_cons, given, List.append_assoc, ← rest_eq,
          ← List.append_assoc, ← bits_add, whole]
      · rw [if_neg full]
        exact inductionHypothesis (Nat.lt_of_not_le full) later

/-- Digits are made into the given ones exactly when their bits are those of
the given ones and less than a digit more. -/
theorem regroup_eq_iff
    (atMost : narrow ≤ wide) (positive : 0 < wide)
    {digits given : List Nat}
    (small : ∀ digit, digit ∈ digits → digit < 2 ^ narrow)
    (givenSmall : ∀ digit, digit ∈ given → digit < 2 ^ wide) :
    regroup narrow wide 0 0 digits = given ↔
      ∃ rest : List Bool,
        rest.length < wide ∧
          spread narrow digits = spread wide given ++ rest := by
  obtain ⟨rest, short, spreads⟩ :=
    @exists_spread_regroup narrow wide atMost 0 0 positive digits small
  rw [bits, List.nil_append] at spreads
  constructor
  · intro same
    rw [← same]
    exact ⟨rest, short, spreads⟩
  · intro spelled
    obtain ⟨other, otherShort, otherSpreads⟩ := spelled
    rw [spreads] at otherSpreads
    exact
      spread_inj (fun digit member => lt_of_mem_regroup member) givenSmall
        short otherShort otherSpreads

end Regroup

end DnsFirewall.BitStrings
