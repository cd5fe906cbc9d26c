import Mathlib.Data.Nat.Bitwise
import Mathlib.Tactic.Ring

/-!
# Big-endian words

Sixteen- and thirty-two-bit words as lists of bytes, most significant byte first: the meaning of
`to_be_bytes` and `from_be_bytes`.  Signed words go through the unsigned word with the same bits.

* `toBe16`, `toBe32` : the bytes of a word;
* `fromBe16`, `fromBe32` : the word made of two or four bytes, by shifts and bitwise or;
* `fromBe16_toNat`, `fromBe32_toNat` : the number such a word denotes, from which the round trips
  `fromBe16_toBe16` and `fromBe32_toBe32` follow by arithmetic.
-/

namespace BigEndian

/-- The two bytes of a word, most significant first. -/
def toBe16 (x : UInt16) : List UInt8 := [(x >>> 8).toUInt8, x.toUInt8]

/-- The word with the bytes `a`, `b`. -/
def fromBe16 (a b : UInt8) : UInt16 := (a.toUInt16 <<< 8) ||| b.toUInt16

/-- The four bytes of a word, most significant first. -/
def toBe32 (x : UInt32) : List UInt8 :=
  [(x >>> 24).toUInt8, (x >>> 16).toUInt8, (x >>> 8).toUInt8, x.toUInt8]

/-- The word with the bytes `a`, `b`, `c`, `d`. -/
def fromBe32 (a b c d : UInt8) : UInt32 :=
  (a.toUInt32 <<< 24) ||| (b.toUInt32 <<< 16) ||| (c.toUInt32 <<< 8) ||| d.toUInt32

@[simp] theorem length_toBe16 (x : UInt16) : (toBe16 x).length = 2 := rfl

@[simp] theorem length_toBe32 (x : UInt32) : (toBe32 x).length = 4 := rfl

/-- Bitwise or with a number below the shifted bits is addition. -/
theorem mul_two_pow_or {x y k : ℕ} (h : y < 2 ^ k) : x * 2 ^ k ||| y = x * 2 ^ k + y := by
  rw [← Nat.shiftLeft_eq, Nat.shiftLeft_add_eq_or_of_lt h]

theorem fromBe16_toNat (a b : UInt8) : (fromBe16 a b).toNat = a.toNat * 2 ^ 8 + b.toNat := by
  have ha := a.toNat_lt
  have hb := b.toNat_lt
  have h : a.toNat <<< 8 % 2 ^ 16 = a.toNat * 2 ^ 8 := by rw [Nat.shiftLeft_eq]; omega
  simp only [fromBe16, UInt16.toNat_or, UInt16.toNat_shiftLeft, UInt8.toNat_toUInt16,
    UInt16.toNat_ofNat]
  rw [h, mul_two_pow_or (by omega)]

theorem fromBe32_toNat (a b c d : UInt8) :
    (fromBe32 a b c d).toNat =
      a.toNat * 2 ^ 24 + b.toNat * 2 ^ 16 + c.toNat * 2 ^ 8 + d.toNat := by
  have ha := a.toNat_lt
  have hb := b.toNat_lt
  have hc := c.toNat_lt
  have hd := d.toNat_lt
  have h₁ : a.toNat <<< 24 % 2 ^ 32 = a.toNat * 2 ^ 24 := by rw [Nat.shiftLeft_eq]; omega
  have h₂ : b.toNat <<< 16 % 2 ^ 32 = b.toNat * 2 ^ 16 := by rw [Nat.shiftLeft_eq]; omega
  have h₃ : c.toNat <<< 8 % 2 ^ 32 = c.toNat * 2 ^ 8 := by rw [Nat.shiftLeft_eq]; omega
  simp only [fromBe32, UInt32.toNat_or, UInt32.toNat_shiftLeft, UInt8.toNat_toUInt32,
    UInt32.toNat_ofNat]
  rw [h₁, h₂, h₃, mul_two_pow_or (by omega),
    show a.toNat * 2 ^ 24 + b.toNat * 2 ^ 16 = (a.toNat * 2 ^ 8 + b.toNat) * 2 ^ 16 by ring,
    mul_two_pow_or (by omega),
    show (a.toNat * 2 ^ 8 + b.toNat) * 2 ^ 16 + c.toNat * 2 ^ 8 =
      (a.toNat * 2 ^ 16 + b.toNat * 2 ^ 8 + c.toNat) * 2 ^ 8 by ring,
    mul_two_pow_or (by omega)]

/-- Reading the two bytes of a word gives the word back. -/
@[simp] theorem fromBe16_toBe16 (x : UInt16) : fromBe16 (x >>> 8).toUInt8 x.toUInt8 = x := by
  apply UInt16.toNat_inj.1
  have := x.toNat_lt
  rw [fromBe16_toNat]
  simp only [UInt16.toNat_toUInt8, UInt16.toNat_shiftRight, UInt16.toNat_ofNat,
    Nat.shiftRight_eq_div_pow, Nat.reducePow, Nat.reduceMod] at *
  omega

/-- Reading the four bytes of a word gives the word back. -/
@[simp] theorem fromBe32_toBe32 (x : UInt32) :
    fromBe32 (x >>> 24).toUInt8 (x >>> 16).toUInt8 (x >>> 8).toUInt8 x.toUInt8 = x := by
  apply UInt32.toNat_inj.1
  have := x.toNat_lt
  rw [fromBe32_toNat]
  simp only [UInt32.toNat_toUInt8, UInt32.toNat_shiftRight, UInt32.toNat_ofNat,
    Nat.shiftRight_eq_div_pow, Nat.reducePow, Nat.reduceMod] at *
  omega

end BigEndian
