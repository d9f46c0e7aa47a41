import Rpstir.Casn.Encode

/-!
This module contains the proof that `memcmp` compares the numbers that two buffers of one length stand
for.
-/

namespace Rpstir.Casn

theorem mul_add_lt_mul_add {n a b x : Nat} (y : Nat) (hx : x < n) (hab : a < b) : a * n + x < b * n + y := by
  have hmul : (a + 1) * n ≤ b * n := Nat.mul_le_mul_right n hab
  rw [Nat.add_mul, Nat.one_mul] at hmul
  omega

theorem memcmp_eq_compare {l l' : List UInt8} (hlen : l.length = l'.length)
    : memcmp l l' = compare (Bytes.decode l) (Bytes.decode l') := by
  induction l generalizing l' with
  | nil =>
    rw [List.length_eq_zero_iff.mp hlen.symm]
    rfl
  | cons a l ih =>
    match l' with
    | b :: l' =>
      have hlen' : l.length = l'.length := by simpa using hlen
      have hl := Bytes.decode_lt l
      have hl' := Bytes.decode_lt l'
      rw [← hlen'] at hl'
      rw [memcmp, Bytes.decode_cons, Bytes.decode_cons, ← hlen']
      split
      next hlt => exact (Nat.compare_eq_lt.mpr (mul_add_lt_mul_add _ hl hlt)).symm
      next hlt =>
        split
        next hgt => exact (Nat.compare_eq_gt.mpr (mul_add_lt_mul_add _ hl' hgt)).symm
        next hgt =>
          have hab : a.toNat = b.toNat := by
            rw [UInt8.lt_iff_toNat_lt] at hlt hgt
            omega
          rw [ih hlen', hab]
          simp only [Nat.compare_eq_ite_lt, Nat.add_lt_add_iff_left]

theorem memcmp_eq_gt_iff {l l' : List UInt8} (hlen : l.length = l'.length)
    : memcmp l l' = .gt ↔ Bytes.decode l' < Bytes.decode l := by
  rw [memcmp_eq_compare hlen, Nat.compare_eq_gt]

theorem memcmp_eq_lt_iff {l l' : List UInt8} (hlen : l.length = l'.length)
    : memcmp l l' = .lt ↔ Bytes.decode l < Bytes.decode l' := by
  rw [memcmp_eq_compare hlen, Nat.compare_eq_lt]

end Rpstir.Casn
