import Mathlib.Data.Nat.Bitwise

/-!
This module contains blocks of numbers whose size is a power of two and that start at a multiple of it,
and the recursion over the digits of their limits.
-/

def DyadicBlock (w low high : Nat) : Prop :=
  ∃ j, j ≤ w ∧ 2 ^ j ∣ low ∧ high + 1 = low + 2 ^ j

namespace DyadicBlock

variable {w e low high l h a b : Nat}

theorem self (w n : Nat) : DyadicBlock w n n :=
  ⟨0, Nat.zero_le _, Nat.one_dvd _, rfl⟩

theorem div_eq {j : Nat} (hj : j ≤ w) (hdvd : 2 ^ j ∣ low) (hhigh : high + 1 = low + 2 ^ j)
    : low / 2 ^ w = high / 2 ^ w := by
  have hpos : 0 < 2 ^ j := Nat.two_pow_pos j
  have hsplit : 2 ^ w = 2 ^ j * 2 ^ (w - j) := by
    rw [← Nat.pow_add, Nat.add_sub_cancel' hj]
  obtain ⟨q, rfl⟩ := hdvd
  have hhigh' : high = 2 ^ j * q + (2 ^ j - 1) := by omega
  have hrest : (2 ^ j - 1) / 2 ^ j = 0 := Nat.div_eq_of_lt (by omega)
  rw [hsplit, ← Nat.div_div_eq_div_mul, ← Nat.div_div_eq_div_mul, hhigh', Nat.mul_add_div hpos,
    Nat.mul_div_cancel_left q hpos, hrest, Nat.add_zero]

theorem digit_iff (ha : a < 2 ^ w) (hb : b < 2 ^ w)
    : DyadicBlock (e + w) (l * 2 ^ w + a) (h * 2 ^ w + b) ↔
        (l = h ∧ DyadicBlock w a b) ∨ (l ≠ h ∧ DyadicBlock e l h ∧ a = 0 ∧ b + 1 = 2 ^ w) := by
  have hpos : 0 < 2 ^ w := Nat.two_pow_pos w
  constructor
  . rintro ⟨j, hj, hdvd, hhigh⟩
    by_cases hjw : j ≤ w
    . have hdiv := div_eq hjw hdvd hhigh
      rw [Nat.add_comm, Nat.add_mul_div_right _ _ hpos, Nat.div_eq_of_lt ha, Nat.add_comm (h * 2 ^ w),
        Nat.add_mul_div_right _ _ hpos, Nat.div_eq_of_lt hb, Nat.zero_add, Nat.zero_add] at hdiv
      subst hdiv
      have hdvd' : 2 ^ j ∣ l * 2 ^ w := Nat.dvd_mul_left_of_dvd (Nat.pow_dvd_pow 2 hjw) l
      exact .inl ⟨rfl, j, hjw, (Nat.dvd_add_right hdvd').mp hdvd, by omega⟩
    obtain ⟨i, rfl⟩ : ∃ i, j = i + w := ⟨j - w, by omega⟩
    rw [Nat.pow_add] at hdvd hhigh
    have ha0 : a = 0 := by
      have hmod := (Nat.dvd_add_right (Nat.dvd_mul_left (2 ^ w) l)).mp
        (Nat.dvd_trans (Nat.dvd_mul_left (2 ^ w) (2 ^ i)) hdvd)
      exact Nat.eq_zero_of_dvd_of_lt hmod ha
    have hb1 : b + 1 = 2 ^ w := by
      have hmod : 2 ^ w ∣ h * 2 ^ w + (b + 1) := by
        rw [← Nat.add_assoc, hhigh, ha0, Nat.add_zero, ← Nat.add_mul]
        exact Nat.dvd_mul_left _ _
      have hle := Nat.le_of_dvd (Nat.succ_pos b) ((Nat.dvd_add_right (Nat.dvd_mul_left _ h)).mp hmod)
      omega
    have hl : 2 ^ i ∣ l := by
      rw [ha0, Nat.add_zero] at hdvd
      exact Nat.dvd_of_mul_dvd_mul_right hpos hdvd
    have hh : h + 1 = l + 2 ^ i := by
      apply Nat.eq_of_mul_eq_mul_right hpos
      rw [Nat.add_mul, Nat.add_mul, Nat.one_mul]
      omega
    have hne : l ≠ h := by
      have hi : 2 ^ 1 ≤ 2 ^ i := Nat.pow_le_pow_right (by decide) (by omega)
      omega
    exact .inr ⟨hne, ⟨i, by omega, hl, hh⟩, ha0, hb1⟩
  rintro (⟨rfl, j, hj, hdvd, hhigh⟩ | ⟨-, ⟨i, hi, hdvd, hhigh⟩, rfl, hb1⟩)
  . have hdvd' : 2 ^ j ∣ l * 2 ^ w := Nat.dvd_mul_left_of_dvd (Nat.pow_dvd_pow 2 hj) l
    exact ⟨j, by omega, Nat.dvd_add hdvd' hdvd, by omega⟩
  refine ⟨i + w, by omega, ?_, ?_⟩
  . rw [Nat.pow_add, Nat.add_zero]
    exact Nat.mul_dvd_mul_right hdvd _
  . rw [Nat.pow_add, Nat.add_assoc, hb1, Nat.add_zero, ← Nat.add_mul, ← hhigh, Nat.add_mul,
      Nat.one_mul]

end DyadicBlock
