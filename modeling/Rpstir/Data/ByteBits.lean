import Mathlib.Data.Nat.Bitwise

/-!
This module contains the bits of a byte as C programs test, clear and set them, with shifts and masks.
-/

namespace ByteBits

variable {l h b : UInt8} {u : Nat}

theorem toNat_ne (hne : l ≠ h) : l.toNat ≠ h.toNat :=
  fun heq => hne (UInt8.toNat_inj.mp heq)

theorem and_eq_and_iff (m n i : Nat) : m &&& 2 ^ i = n &&& 2 ^ i ↔ m.testBit i = n.testBit i := by
  rw [Nat.and_two_pow, Nat.and_two_pow]
  have hpos := Nat.two_pow_pos i
  cases m.testBit i <;> cases n.testBit i <;> (simp; try omega)

theorem testBit_eq_false (b : UInt8) {i : Nat} (hi : 8 ≤ i) : b.toNat.testBit i = false :=
  Nat.testBit_lt_two_pow (Nat.lt_of_lt_of_le b.toNat_lt (Nat.pow_le_pow_right (by decide) hi))

theorem toNat_clear (b : UInt8) (u : Nat)
    : (UInt8.ofNat (b.toNat &&& (0xff <<< u))).toNat = b.toNat / 2 ^ u * 2 ^ u := by
  have hb := b.toNat_lt
  have hle : b.toNat &&& (0xff <<< u) ≤ b.toNat := Nat.and_le_left
  rw [UInt8.toNat_ofNat', Nat.mod_eq_of_lt (by omega), ← Nat.shiftLeft_eq, ← Nat.shiftRight_eq_div_pow]
  apply Nat.eq_of_testBit_eq
  intro i
  rw [Nat.testBit_and, Nat.testBit_shiftLeft, Nat.testBit_shiftLeft, Nat.testBit_shiftRight,
    show 0xff = 2 ^ 8 - 1 from rfl, Nat.testBit_two_pow_sub_one]
  by_cases hi : u ≤ i
  . by_cases h8 : i < 8
    . simp [hi, show i - u < 8 by omega]
    . simp [hi, testBit_eq_false b (show 8 ≤ i by omega)]
  . simp [hi]

theorem toNat_set (b : UInt8) (hu : u ≤ 8)
    : (UInt8.ofNat (b.toNat ||| (2 ^ u - 1))).toNat = b.toNat / 2 ^ u * 2 ^ u + (2 ^ u - 1) := by
  have hlt := b.toNat_lt
  have hpos := Nat.two_pow_pos u
  have hor : b.toNat ||| (2 ^ u - 1) = b.toNat / 2 ^ u * 2 ^ u + (2 ^ u - 1) := by
    rw [← Nat.shiftLeft_eq, Nat.shiftLeft_add_eq_or_of_lt (by omega)]
    apply Nat.eq_of_testBit_eq
    intro i
    rw [Nat.testBit_or, Nat.testBit_or, Nat.testBit_two_pow_sub_one, Nat.testBit_shiftLeft,
      Nat.testBit_div_two_pow]
    by_cases hi : i < u
    . simp [hi]
    . simp [hi, show u ≤ i by omega]
  have hfits : b.toNat ||| (2 ^ u - 1) < 2 ^ 8 := by
    have hle : 2 ^ u ≤ 2 ^ 8 := Nat.pow_le_pow_right (by decide) hu
    exact Nat.or_lt_two_pow hlt (by omega)
  rw [UInt8.toNat_ofNat', Nat.mod_eq_of_lt hfits, hor]

theorem toNat_fill (hb : b.toNat % 2 ^ u = 0) (hu : u ≤ 8)
    : (UInt8.ofNat (b.toNat ||| ((1 <<< u) - 1))).toNat = b.toNat + (2 ^ u - 1) := by
  rw [Nat.one_shiftLeft, toNat_set b hu, Nat.div_mul_cancel (Nat.dvd_of_mod_eq_zero hb)]

theorem div_mul_concat (n b : Nat) (hu : u ≤ 8)
    : (n * 256 + b) / 2 ^ u * 2 ^ u = n * 256 + b / 2 ^ u * 2 ^ u := by
  have hsplit : n * 256 = 2 ^ u * (2 ^ (8 - u) * n) := by
    rw [← Nat.mul_assoc, ← Nat.pow_add, Nat.add_sub_cancel' hu, Nat.mul_comm]
  rw [hsplit, Nat.mul_add_div (Nat.two_pow_pos u), Nat.add_mul, Nat.mul_comm (2 ^ (8 - u) * n)]

end ByteBits
