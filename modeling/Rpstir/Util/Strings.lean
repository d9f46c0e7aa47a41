import Mathlib.Data.Nat.Bitwise

/-!
This module contains `expand_by_doubling` of `stringutils.c`, with a `size_t` of 64 bits.
-/

namespace Rpstir.Util

structure Block where
  addr : Nat
  size : Nat
  deriving DecidableEq

def newNmemb (size current min : UInt64) : UInt64 :=
  let new := if 1 * size > min * size then 1 else min
  if new * size > 2 * current * size then new else 2 * current

/--
The result, and what `ptr` and `current_nmemb` point to then.
-/
def expandByDoubling (realloc : Block → UInt64 → Option Block) (ptr : Option Block) (size : UInt64)
    (current : Option UInt64) (min : UInt64) : Int × Option Block × Option UInt64 :=
  match ptr, current with
  | some p, some n =>
    if n ≥ min then (0, ptr, current)
    else if n ≥ newNmemb size n min then (-1, ptr, current)
    else
      match realloc p (newNmemb size n min * size) with
      | none => (-1, ptr, current)
      | some p => (0, some p, some (newNmemb size n min))
  | _, _ => (-1, ptr, current)

def Reallocates (realloc : Block → UInt64 → Option Block) : Prop :=
  ∀ p n p', realloc p n = some p' → p'.size = n.toNat

/--
There is room for the minimum after a success, and a failure changes nothing.
-/
def Expands (size current min : UInt64) : Prop :=
  ∀ realloc, Reallocates realloc → ∀ p : Block, current.toNat * size.toNat ≤ p.size →
    ∀ ret p' n, expandByDoubling realloc (some p) size (some current) min = (ret, some p', some n) →
      (ret = 0 → min ≤ n ∧ n.toNat * size.toNat ≤ p'.size) ∧ (ret ≠ 0 → p' = p ∧ n = current)

section Doubling

variable {size current min : UInt64}

theorem newNmemb_spec (hsize : 0 < size) (hcurrent : current.toNat * size.toNat < 2 ^ 64)
    (hlt : current < min) (hmin : min.toNat * size.toNat < 2 ^ 64)
    : min ≤ newNmemb size current min
      ∧ (newNmemb size current min).toNat * size.toNat < 2 ^ 64 := by
  rw [UInt64.lt_iff_toNat_lt] at hsize hlt
  have hpos : 0 < size.toNat := hsize
  have hle : 1 * size.toNat ≤ min.toNat * size.toNat := Nat.mul_le_mul_right _ (by omega)
  have hbytes : current.toNat * size.toNat < min.toNat * size.toNat :=
    Nat.mul_lt_mul_of_pos_right hlt hpos
  have hfirst : ¬1 * size > min * size := by
    rw [gt_iff_lt, UInt64.lt_iff_toNat_lt, UInt64.toNat_mul, UInt64.toNat_mul,
      Nat.mod_eq_of_lt hmin, UInt64.toNat_one]
    omega
  simp only [newNmemb, if_neg hfirst]
  split
  . exact ⟨UInt64.le_refl min, hmin⟩
  next hdouble =>
  rw [gt_iff_lt, UInt64.lt_iff_toNat_lt, UInt64.toNat_mul, UInt64.toNat_mul, UInt64.toNat_mul,
    Nat.mod_eq_of_lt hmin, Nat.mod_mul_mod, Nat.mul_assoc, show (2 : UInt64).toNat = 2 from rfl]
    at hdouble
  -- the doubled size does not wrap, since it would be less than the current one
  have hwrap : 2 * (current.toNat * size.toNat) < 2 ^ 64 := by omega
  have htwice : 2 * current.toNat ≤ 2 * (current.toNat * size.toNat) :=
    Nat.mul_le_mul_left 2 (Nat.le_mul_of_pos_right _ hpos)
  have hnew : (2 * current).toNat = 2 * current.toNat := by
    rw [UInt64.toNat_mul, show (2 : UInt64).toNat = 2 from rfl]
    exact Nat.mod_eq_of_lt (by omega)
  rw [UInt64.le_iff_toNat_le, hnew, Nat.mul_assoc]
  refine ⟨?_, hwrap⟩
  rw [Nat.mod_eq_of_lt hwrap, ← Nat.mul_assoc] at hdouble
  exact Nat.le_of_mul_le_mul_right (Nat.le_of_not_lt hdouble) hpos

theorem lt_double (hsize : 0 < size) (hcurrent : current.toNat * size.toNat < 2 ^ 64)
    (hwrap : 2 ^ 64 ≤ min.toNat * size.toNat) (hpos : 1 ≤ current) : current < 2 * current := by
  rw [UInt64.lt_iff_toNat_lt] at hsize ⊢
  rw [UInt64.le_iff_toNat_le, UInt64.toNat_one] at hpos
  -- no minimum wraps around if the elements have one byte
  have hne : size.toNat ≠ 1 := by
    intro hone
    have hlt := min.toNat_lt
    rw [hone] at hwrap
    omega
  have hle : current.toNat * 2 ≤ current.toNat * size.toNat :=
    Nat.mul_le_mul_left _ (Nat.lt_of_le_of_ne hsize hne.symm)
  rw [UInt64.toNat_mul, show (2 : UInt64).toNat = 2 from rfl, Nat.mod_eq_of_lt (by omega)]
  omega

theorem newNmemb_le_iff (hsize : 0 < size) (hcurrent : current.toNat * size.toNat < 2 ^ 64)
    (hlt : current < min) (hwrap : 2 ^ 64 ≤ min.toNat * size.toNat)
    : newNmemb size current min ≤ current
      ↔ 1 ≤ current ∧ min * size < size ∧ 2 * current * size < size := by
  unfold newNmemb
  by_cases hpos : 1 ≤ current
  . have hdouble := lt_double hsize hcurrent hwrap hpos
    grind
  . have hzero : current = 0 := by grind
    rw [hzero]
    grind

/--
The array grows as wanted unless the size of the minimum wraps around. If it wraps to less than one
element, and so does the doubled size, then the function fails and changes nothing.
-/
theorem expandByDoubling_expands_iff (hsize : 0 < size)
    (hcurrent : current.toNat * size.toNat < 2 ^ 64)
    : Expands size current min ↔
      min ≤ current ∨ min.toNat * size.toNat < 2 ^ 64
        ∨ 1 ≤ current ∧ min * size < size ∧ 2 * current * size < size := by
  constructor
  . intro h
    by_contra hnot
    rw [not_or, not_or, UInt64.not_le, Nat.not_lt] at hnot
    obtain ⟨hlt, hwrap, hnew⟩ := hnot
    rw [← newNmemb_le_iff hsize hcurrent hlt hwrap, UInt64.not_le] at hnew
    -- an allocation that succeeds
    have hexpands := (h (fun p n => some ⟨p.addr, n.toNat⟩) (by rintro p n _ ⟨⟩; rfl) ⟨0, 2 ^ 64⟩
      (Nat.le_of_lt hcurrent) 0 ⟨0, (newNmemb size current min * size).toNat⟩
      (newNmemb size current min)
      (by simp [expandByDoubling, UInt64.not_le.mpr hlt, UInt64.not_le.mpr hnew])).1 rfl
    rw [UInt64.toNat_mul, UInt64.le_iff_toNat_le] at hexpands
    dsimp only at hexpands
    have hmod := Nat.mod_lt ((newNmemb size current min).toNat * size.toNat) (Nat.two_pow_pos 64)
    have hge := Nat.mul_le_mul_right size.toNat hexpands.1
    omega
  intro h realloc hrealloc p hp ret p' n hret
  by_cases hle : min ≤ current
  . rw [expandByDoubling, if_pos hle] at hret
    cases hret
    exact ⟨fun _ => ⟨hle, hp⟩, fun hne => absurd rfl hne⟩
  rw [expandByDoubling, if_neg hle] at hret
  split at hret
  . cases hret
    exact ⟨fun heq => absurd heq (by decide), fun _ => ⟨rfl, rfl⟩⟩
  next hnew =>
  split at hret
  . cases hret
    exact ⟨fun heq => absurd heq (by decide), fun _ => ⟨rfl, rfl⟩⟩
  next hblock =>
  cases hret
  have hlt := UInt64.not_le.mp hle
  have hmin : min.toNat * size.toNat < 2 ^ 64 := by
    by_contra hwrap
    rw [ge_iff_le, newNmemb_le_iff hsize hcurrent hlt (Nat.not_lt.mp hwrap)] at hnew
    exact hnew ((h.resolve_left hle).resolve_left hwrap)
  obtain ⟨hge, hfits⟩ := newNmemb_spec hsize hcurrent hlt hmin
  refine ⟨fun _ => ⟨hge, ?_⟩, fun hne => absurd rfl hne⟩
  have hbytes := hrealloc _ _ _ hblock
  rw [UInt64.toNat_mul, Nat.mod_eq_of_lt hfits] at hbytes
  exact Nat.le_of_eq hbytes.symm

theorem expandByDoubling_expands_ten : Expands 8 4 10 :=
  (expandByDoubling_expands_iff (by decide) (by decide)).mpr (.inr (.inl (by decide)))

theorem expandByDoubling_wraps
    : expandByDoubling (fun p n => some ⟨p.addr, n.toNat⟩) (some ⟨0, 0⟩) 2 (some 0) 9223372036854775808
        = (0, some ⟨0, 2⟩, some 1)
      ∧ ¬Expands 2 0 9223372036854775808 := by
  have hrun : expandByDoubling (fun p n => some ⟨p.addr, n.toNat⟩) (some ⟨0, 0⟩) 2 (some 0)
      9223372036854775808 = (0, some ⟨0, 2⟩, some 1) := by decide +kernel
  refine ⟨hrun, fun h => ?_⟩
  have hle := ((h _ (by rintro p n _ ⟨⟩; rfl) ⟨0, 0⟩ (by decide) _ _ _ hrun).1 rfl).1
  exact absurd hle (by decide)

end Doubling

end Rpstir.Util
