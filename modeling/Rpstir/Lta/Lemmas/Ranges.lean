import Rpstir.Data.Intervals
import Rpstir.Lta.Ranges

/-!
This module contains the limits of ranges as numbers, and the operations on an array of ranges that has
a block of one type in it.
-/

namespace Rpstir.Lta

open List

theorem typLth_le (typ : Typ) : typLth typ ≤ 16 := by
  unfold typLth
  split <;> decide

namespace Lim

variable {lth : Nat} {lim : Lim}

section

variable (hlth : lth ≤ 16)

include hlth

theorem lead_lt (lim : Lim) : lim.lead lth < 2 ^ (8 * lth) := by
  rw [lead, Nat.div_lt_iff_lt_mul (Nat.two_pow_pos _), ← Nat.pow_add]
  calc lim.toNat
    _ < 2 ^ 128 := lim.isLt
    _ = 2 ^ (8 * lth + 8 * (16 - lth)) := by
      congr 1
      omega

theorem toNat_setLead (lim : Lim) (val : Nat)
    : (lim.setLead lth val).toNat
        =
      val % 2 ^ (8 * lth) * 2 ^ (8 * (16 - lth)) + lim.toNat % 2 ^ (8 * (16 - lth)) := by
  have hpow : 2 ^ (8 * lth) * 2 ^ (8 * (16 - lth)) = 2 ^ 128 := by
    rw [← Nat.pow_add]
    congr 1
    omega
  have hval : val % 2 ^ (8 * lth) < 2 ^ (8 * lth) := Nat.mod_lt _ (Nat.two_pow_pos _)
  have hrest : lim.toNat % 2 ^ (8 * (16 - lth)) < 2 ^ (8 * (16 - lth)) :=
    Nat.mod_lt _ (Nat.two_pow_pos _)
  rw [setLead, BitVec.toNat_ofNat, Nat.mod_eq_of_lt]
  calc _
    _ < (val % 2 ^ (8 * lth) + 1) * 2 ^ (8 * (16 - lth)) := by
      rw [Nat.add_mul, Nat.one_mul]
      omega
    _ ≤ 2 ^ (8 * lth) * 2 ^ (8 * (16 - lth)) := Nat.mul_le_mul_right _ hval
    _ = 2 ^ 128 := hpow

theorem lead_setLead (lim : Lim) (val : Nat)
    : (lim.setLead lth val).lead lth = val % 2 ^ (8 * lth) := by
  have hrest : lim.toNat % 2 ^ (8 * (16 - lth)) < 2 ^ (8 * (16 - lth)) :=
    Nat.mod_lt _ (Nat.two_pow_pos _)
  rw [lead, toNat_setLead hlth, Nat.mul_comm, Nat.mul_add_div (Nat.two_pow_pos _),
    Nat.div_eq_of_lt hrest, Nat.add_zero]

theorem lead_memcpy (dst src : Lim) : (memcpy lth dst src).lead lth = src.lead lth := by
  rw [memcpy, lead_setLead hlth, Nat.mod_eq_of_lt (lead_lt hlth src)]

theorem lead_decrementIprange (h : 0 < lim.lead lth)
    : (decrementIprange lth lim).lead lth = lim.lead lth - 1 := by
  have hlt := lead_lt hlth lim
  have hsplit : lim.lead lth + (2 ^ (8 * lth) - 1) = lim.lead lth - 1 + 2 ^ (8 * lth) := by omega
  rw [decrementIprange, lead_setLead hlth, hsplit, Nat.add_mod_right, Nat.mod_eq_of_lt (by omega)]

theorem lead_incrementIprange (h : lim.lead lth + 1 < 2 ^ (8 * lth))
    : (incrementIprange lth lim).lead lth = lim.lead lth + 1 := by
  rw [incrementIprange, lead_setLead hlth, Nat.mod_eq_of_lt h]

end

end Lim

theorem lt_of_touches {p r : IpRange} {lth : Nat} (hlth : lth ≤ 16) (h : touches p r lth = .lt)
    (hmax : p.hilim.lead lth + 1 < 2 ^ (8 * lth)) : p.hilim.lead lth + 1 < r.lolim.lead lth := by
  rw [touches, Lim.lead_incrementIprange hlth hmax] at h
  exact Nat.compare_eq_lt.mp h

def IpRange.interval (lth : Nat) (r : IpRange) : Span :=
  ⟨r.lolim.lead lth, r.hilim.lead lth⟩

@[simp]
theorem IpRange.interval_lo (lth : Nat) (r : IpRange) : (r.interval lth).lo = r.lolim.lead lth :=
  rfl

@[simp]
theorem IpRange.interval_hi (lth : Nat) (r : IpRange) : (r.interval lth).hi = r.hilim.lead lth :=
  rfl

def cursor (i : Nat) (block : List IpRange) : Option Nat :=
  if block = [] then none else some i

theorem cursor_cons (i : Nat) (r : IpRange) (block : List IpRange)
    : cursor i (r :: block) = some i :=
  rfl

def EndsBlock (typ : Typ) (post : List IpRange) : Prop :=
  ∀ r ∈ post.head?, r.typ ≠ typ

structure IsBlock (typ : Typ) (block post : List IpRange) : Prop where
  typ_eq : ∀ r ∈ block, r.typ = typ
  ends : EndsBlock typ post
  ordered : Span.Ordered (block.map (IpRange.interval (typLth typ)))

def Holds (typ : Typ) (block : List IpRange) (x : Nat) : Prop :=
  Span.Covered (block.map (IpRange.interval (typLth typ))) x

section Array

variable {typ : Typ} {pre cs post : List IpRange} {c : IpRange}

theorem getElem?_cursor : (pre ++ c :: cs ++ post)[pre.length]? = some c := by
  simp

theorem nextRange_cursor (pre : List IpRange) (hc : c.typ = typ) (hcs : ∀ c ∈ cs, c.typ = typ)
    (hpost : EndsBlock typ post)
    : nextRange (pre ++ c :: cs ++ post) pre.length = cursor (pre ++ [c]).length cs := by
  have hnext : (pre ++ c :: cs ++ post)[pre.length + 1]? = (cs ++ post).head? := by
    rw [append_assoc, getElem?_append_right (by omega)]
    simp [head?_eq_getElem?]
  rw [nextRange, getElem?_cursor, hnext, length_append, length_singleton]
  cases cs with
  | nil =>
    cases post with
    | nil => rfl
    | cons p =>
      have hp : p.typ ≠ typ := hpost p rfl
      simp [cursor, hc, hp]
  | cons c' =>
    have hc' : c'.typ = typ := hcs c' mem_cons_self
    simp [cursor, hc, hc']

theorem set_cursor (c' : IpRange)
    : (pre ++ c :: cs ++ post).set pre.length c' = pre ++ c' :: cs ++ post := by
  rw [append_assoc, set_append_right _ _ (Nat.le_refl _), Nat.sub_self]
  simp

theorem ejectRange_cursor (hc : c.typ = typ) (hcs : ∀ c ∈ cs, c.typ = typ) (hne : post ≠ [])
    (hpost : EndsBlock typ post)
    : ejectRange (pre ++ c :: cs ++ post) pre.length = some (pre ++ cs ++ post, cursor pre.length cs) := by
  have herase : (pre ++ c :: cs ++ post).eraseIdx pre.length = pre ++ cs ++ post := by
    rw [append_assoc, eraseIdx_append_of_length_le (Nat.le_refl _), Nat.sub_self]
    simp
  have hget : (pre ++ cs ++ post)[pre.length]? = (cs ++ post).head? := by
    rw [append_assoc, getElem?_append_right (Nat.le_refl _), Nat.sub_self,
      head?_eq_getElem?]
  have hcons : ∃ r₀ rest, pre ++ cs ++ post = r₀ :: rest := by
    apply exists_cons_of_ne_nil
    simp [hne]
  obtain ⟨r₀, rest, hcons⟩ := hcons
  rw [ejectRange, getElem?_cursor, herase]
  rw [hcons] at hget ⊢
  simp only [hget]
  cases cs with
  | nil =>
    cases post with
    | nil => exact absurd rfl hne
    | cons p =>
      have hp : p.typ ≠ typ := hpost p rfl
      simp [cursor, hc, hp]
  | cons c' =>
    have hc' : c'.typ = typ := hcs c' mem_cons_self
    simp [cursor, hc, hc']

theorem injectRange_cursor (c' : IpRange)
    : injectRange (pre ++ cs ++ post) pre.length c' = some (pre ++ [c'] ++ cs ++ post) := by
  have hinsert : ∀ l : List IpRange, (pre ++ l).insertIdx pre.length c' = pre ++ c' :: l := by
    intro l
    induction pre with
    | nil => rfl
    | cons _ pre ih => simpa using ih
  rw [injectRange, if_pos (by simp), append_assoc, hinsert]
  simp

end Array

end Rpstir.Lta
