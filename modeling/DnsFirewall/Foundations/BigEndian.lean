import Mathlib.Data.Nat.Bitwise

/-!
# Big-endian words

Sixteen- and thirty-two-bit words as shifts of octets, the octets of a word,
and the round trip between the two.  Every fact is first stated on natural
numbers, where a shift is a product and a disjunction of separated bits is a
sum.
-/

namespace DnsFirewall.BigEndian

/-- The sixteen-bit word with the given octets, high octet first. -/
def word16 (high low : UInt8) : UInt16 :=
  (high.toUInt16 <<< 8) ||| low.toUInt16

def bytes16 (value : UInt16) : List UInt8 :=
  [(value >>> 8).toUInt8, value.toUInt8]

def word32 (first second third fourth : UInt8) : UInt32 :=
  (first.toUInt32 <<< 24) ||| (second.toUInt32 <<< 16) |||
    (third.toUInt32 <<< 8) ||| fourth.toUInt32

def bytes32 (value : UInt32) : List UInt8 :=
  [(value >>> 24).toUInt8, (value >>> 16).toUInt8,
    (value >>> 8).toUInt8, value.toUInt8]

@[simp]
theorem bytes16_length (value : UInt16) :
    (bytes16 value).length = 2 :=
  rfl

@[simp]
theorem bytes32_length (value : UInt32) :
    (bytes32 value).length = 4 :=
  rfl

/-- Bits below the shift do not meet the shifted ones. -/
theorem shiftLeft_or_eq_add
    (bits : Nat) {high low : Nat} (bound : low < 2 ^ bits) :
    (high <<< bits) ||| low = high * 2 ^ bits + low := by
  rw [← Nat.shiftLeft_add_eq_or_of_lt bound, Nat.shiftLeft_eq]

theorem word16_toNat (high low : UInt8) :
    (word16 high low).toNat = high.toNat * 256 + low.toNat := by
  have highBound : high.toNat < 256 := high.toNat_lt
  have lowBound : low.toNat < 256 := low.toNat_lt
  have shifted :
      (word16 high low).toNat = (high.toNat <<< 8) ||| low.toNat := by
    have small : high.toNat <<< 8 < 65536 := by
      simp only [Nat.shiftLeft_eq, Nat.reducePow]
      omega
    simp only [word16, UInt16.toNat_or, UInt16.toNat_shiftLeft,
      UInt8.toNat_toUInt16, UInt16.reduceToNat, Nat.reduceMod]
    rw [Nat.mod_eq_of_lt small]
  rw [shifted]
  exact shiftLeft_or_eq_add 8 lowBound

theorem word32_toNat (first second third fourth : UInt8) :
    (word32 first second third fourth).toNat =
      first.toNat * 16777216 +
        (second.toNat * 65536 + (third.toNat * 256 + fourth.toNat)) := by
  have firstBound : first.toNat < 256 := first.toNat_lt
  have secondBound : second.toNat < 256 := second.toNat_lt
  have thirdBound : third.toNat < 256 := third.toNat_lt
  have fourthBound : fourth.toNat < 256 := fourth.toNat_lt
  have shifted :
      (word32 first second third fourth).toNat =
        (first.toNat <<< 24) |||
          ((second.toNat <<< 16) |||
            ((third.toNat <<< 8) ||| fourth.toNat)) := by
    have firstSmall : first.toNat <<< 24 < 4294967296 := by
      simp only [Nat.shiftLeft_eq, Nat.reducePow]
      omega
    have secondSmall : second.toNat <<< 16 < 4294967296 := by
      simp only [Nat.shiftLeft_eq, Nat.reducePow]
      omega
    have thirdSmall : third.toNat <<< 8 < 4294967296 := by
      simp only [Nat.shiftLeft_eq, Nat.reducePow]
      omega
    simp only [word32, UInt32.toNat_or, UInt32.toNat_shiftLeft,
      UInt8.toNat_toUInt32, UInt32.reduceToNat, Nat.reduceMod,
      Nat.or_assoc]
    rw [Nat.mod_eq_of_lt firstSmall, Nat.mod_eq_of_lt secondSmall,
      Nat.mod_eq_of_lt thirdSmall]
  have lowHalf :
      (third.toNat <<< 8) ||| fourth.toNat =
        third.toNat * 256 + fourth.toNat :=
    shiftLeft_or_eq_add 8 fourthBound
  have tail :
      (second.toNat <<< 16) ||| (third.toNat * 256 + fourth.toNat) =
        second.toNat * 65536 + (third.toNat * 256 + fourth.toNat) :=
    shiftLeft_or_eq_add 16 (by omega)
  rw [shifted, lowHalf, tail]
  exact shiftLeft_or_eq_add 24 (by omega)

@[simp]
theorem word16_bytes16 (value : UInt16) :
    word16 (value >>> 8).toUInt8 value.toUInt8 = value := by
  apply UInt16.toNat_inj.mp
  have bound : value.toNat < 65536 := value.toNat_lt
  refine (word16_toNat _ _).trans ?_
  simp only [UInt16.toNat_toUInt8, UInt16.toNat_shiftRight,
    Nat.shiftRight_eq_div_pow, UInt16.reduceToNat, Nat.reduceMod,
    Nat.reducePow]
  omega

@[simp]
theorem word32_bytes32 (value : UInt32) :
    word32 (value >>> 24).toUInt8 (value >>> 16).toUInt8
      (value >>> 8).toUInt8 value.toUInt8 = value := by
  apply UInt32.toNat_inj.mp
  have bound : value.toNat < 4294967296 := value.toNat_lt
  refine (word32_toNat _ _ _ _).trans ?_
  simp only [UInt32.toNat_toUInt8, UInt32.toNat_shiftRight,
    Nat.shiftRight_eq_div_pow, UInt32.reduceToNat, Nat.reduceMod,
    Nat.reducePow]
  omega

theorem bytes32_injective
    {left right : UInt32} (same : bytes32 left = bytes32 right) :
    left = right := by
  simp only [bytes32, List.cons.injEq, and_true] at same
  obtain ⟨first, second, third, fourth⟩ := same
  rw [← word32_bytes32 left, ← word32_bytes32 right, first, second, third,
    fourth]

end DnsFirewall.BigEndian
