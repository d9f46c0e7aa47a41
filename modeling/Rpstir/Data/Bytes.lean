import Mathlib.Data.List.Induction
import Mathlib.Data.Nat.Bitwise
import Mathlib.Tactic.Ring

/-!
This module contains unsigned numbers as lists of bytes of a fixed width, most significant byte first.
-/

abbrev FixedBytes (n : Nat) := { l : List UInt8 // l.length = n }

namespace Bytes

open List

def decode (l : List UInt8) : Nat :=
  l.foldl (fun n b => n * 256 + b.toNat) 0

def resize (n : Nat) (l : List UInt8) : FixedBytes n :=
  ⟨(l ++ replicate n 0).take n, by simp⟩

def encode : Nat → Nat → List UInt8
  | 0, _ => []
  | width + 1, n => encode width (n / 256) ++ [UInt8.ofNat n]

@[simp]
theorem length_encode (width n : Nat) : (encode width n).length = width := by
  induction width generalizing n with
  | zero => rfl
  | succ width ih => simp [encode, ih]

@[simp]
theorem decode_nil : decode [] = 0 := by
  rfl

@[simp]
theorem decode_concat (l : List UInt8) (b : UInt8)
    : decode (l ++ [b]) = decode l * 256 + b.toNat := by
  simp [decode]

theorem decode_append (l l' : List UInt8)
    : decode (l ++ l') = decode l * 256 ^ l'.length + decode l' := by
  induction l' using reverseRecOn with
  | nil => simp
  | append_singleton l' _ ih =>
    rw [← append_assoc, decode_concat, ih, decode_concat, length_append,
      length_singleton, pow_succ]
    ring

theorem decode_cons (b : UInt8) (l : List UInt8)
    : decode (b :: l) = b.toNat * 256 ^ l.length + decode l := by
  rw [← singleton_append, decode_append]
  simp [decode]

theorem foldl_or_eq_decode (l : List UInt8) (i n high : Nat) (hn : n = i + l.length)
    : (l.zipIdx i).foldl (fun ret (b, i) => ret ||| b.toNat <<< (8 * (n - 1 - i)))
          (high * 256 ^ l.length)
        =
      high * 256 ^ l.length + decode l := by
  induction l generalizing i high with
  | nil => simp
  | cons b l ih =>
    have hb : b.toNat < 2 ^ 8 := b.toNat_lt
    have hshift : 8 * (n - 1 - i) = 8 * l.length := by
      rw [hn, length_cons]
      omega
    have hpow : 256 ^ l.length = 2 ^ (8 * l.length) := by
      rw [pow_mul]
      rfl
    have hor : high * 256 ^ (b :: l).length ||| b.toNat <<< (8 * l.length)
        = (high * 256 + b.toNat) * 256 ^ l.length := by
      have h := Nat.shiftLeft_add_eq_or_of_lt hb high
      rw [length_cons, pow_succ, hpow, ← mul_assoc, mul_right_comm, ← Nat.shiftLeft_eq,
        ← Nat.shiftLeft_eq, ← Nat.shiftLeft_or_distrib]
      rw [show high * 256 = high <<< 8 by rw [Nat.shiftLeft_eq], ← h]
    have hn' : n = i + 1 + l.length := by
      rw [hn, length_cons]
      omega
    rw [zipIdx_cons, foldl_cons]
    dsimp only
    rw [hshift, hor, ih _ _ hn', decode_cons, length_cons, pow_succ]
    ring

theorem decode_lt (l : List UInt8) : decode l < 256 ^ l.length := by
  induction l using reverseRecOn with
  | nil => simp
  | append_singleton l b ih =>
    have hb := b.toNat_lt
    rw [decode_concat, length_append, length_singleton, pow_succ]
    omega

theorem and_sign_eq_zero_iff {b : UInt8} : b &&& 0x80 = 0 ↔ b.toNat < 2 ^ 7 := by
  have hb := b.toNat_lt
  have hand : (b &&& 0x80).toNat = _ := Nat.and_two_pow b.toNat 7
  rw [Nat.testBit_eq_decide_div_mod_eq] at hand
  rw [← UInt8.toNat_inj, hand, UInt8.toNat_zero, Nat.mul_eq_zero]
  simp
  omega

theorem decode_encode {width n : Nat} (hn : n < 256 ^ width) : decode (encode width n) = n := by
  induction width generalizing n with
  | zero =>
    simp only [pow_zero, Nat.lt_one_iff] at hn
    simp [encode, hn]
  | succ width ih =>
    rw [pow_succ] at hn
    have hdiv : n / 256 < 256 ^ width := by omega
    rw [encode, decode_concat, ih hdiv, UInt8.toNat_ofNat']
    omega

theorem encode_decode (l : List UInt8) : encode l.length (decode l) = l := by
  induction l using reverseRecOn with
  | nil => rfl
  | append_singleton l b ih =>
    have hb := b.toNat_lt
    have hdiv : (decode l * 256 + b.toNat) / 256 = decode l := by omega
    have hmod : UInt8.ofNat (decode l * 256 + b.toNat) = b := by
      rw [← UInt8.toNat_inj, UInt8.toNat_ofNat']
      omega
    rw [decode_concat, length_append, length_singleton, encode, hdiv, ih, hmod]

theorem encode_inj {width m n : Nat} (hm : m < 256 ^ width) (hn : n < 256 ^ width)
    : encode width m = encode width n ↔ m = n := by
  constructor
  . intro h
    rw [← decode_encode hm, h, decode_encode hn]
  . rintro rfl
    rfl

theorem decode_replicate_zero (k : Nat) : decode (replicate k 0) = 0 := by
  induction k with
  | zero => rfl
  | succ k ih =>
    rw [replicate_succ, decode_cons, ih]
    simp

theorem replicate_append_encode {width k n : Nat} (hn : n < 256 ^ width) (hk : width ≤ k)
    : replicate (k - width) 0 ++ encode width n = encode k n := by
  have hdecode : decode (replicate (k - width) 0 ++ encode width n) = n := by
    rw [decode_append, decode_replicate_zero, decode_encode hn, Nat.zero_mul, Nat.zero_add]
  have hlength : (replicate (k - width) 0 ++ encode width n).length = k := by
    rw [length_append, length_replicate, length_encode]
    omega
  rw [← encode_decode (_ ++ _), hdecode, hlength]

theorem decode_eq_zero_iff (l : List UInt8) : decode l = 0 ↔ ∀ b ∈ l, b = 0 := by
  constructor
  . intro h b hb
    have hzero : replicate l.length 0 ++ encode 0 0 = encode l.length 0 :=
      replicate_append_encode (by simp) (Nat.zero_le _)
    rw [← encode_decode l, h, ← hzero, encode, append_nil] at hb
    exact eq_of_mem_replicate hb
  . intro h
    rw [eq_replicate_of_mem h, decode_replicate_zero]

theorem decode_injective {l l' : List UInt8} (hlen : l.length = l'.length) (h : decode l = decode l')
    : l = l' := by
  rw [← encode_decode l, h, hlen, encode_decode]

theorem decode_replicate_max (k : Nat) : decode (replicate k 0xff) + 1 = 256 ^ k := by
  induction k with
  | zero => rfl
  | succ k ih =>
    rw [replicate_succ, decode_cons, length_replicate, Nat.add_assoc, ih, pow_succ]
    change 255 * 256 ^ k + 256 ^ k = 256 ^ k * 256
    ring

section

variable {front front' tail : List UInt8} {u : Nat}

theorem decode_div (front tail : List UInt8) (u : Nat)
    : decode (front ++ tail) / 2 ^ (u + 8 * tail.length) = decode front / 2 ^ u := by
  have hpow : 2 ^ (u + 8 * tail.length) = 256 ^ tail.length * 2 ^ u := by
    rw [pow_add, pow_mul, mul_comm]
    rfl
  rw [hpow, ← Nat.div_div_eq_div_mul, decode_append, Nat.mul_comm,
    Nat.mul_add_div (Nat.pow_pos (by decide)), Nat.div_eq_of_lt (decode_lt tail), Nat.add_zero]

theorem decode_clear (h : decode front' = decode front / 2 ^ u * 2 ^ u)
    : decode (front' ++ replicate tail.length 0)
        =
      decode (front ++ tail) / 2 ^ (u + 8 * tail.length) * 2 ^ (u + 8 * tail.length) := by
  rw [decode_div, decode_append, decode_replicate_zero, h, length_replicate, pow_add, pow_mul]
  ring

theorem decode_set (h : decode front' = decode front / 2 ^ u * 2 ^ u + (2 ^ u - 1))
    : decode (front' ++ replicate tail.length 0xff)
        =
      decode (front ++ tail) / 2 ^ (u + 8 * tail.length) * 2 ^ (u + 8 * tail.length)
        + (2 ^ (u + 8 * tail.length) - 1) := by
  have hmax := decode_replicate_max tail.length
  have hpow : 2 ^ (u + 8 * tail.length) = 2 ^ u * 256 ^ tail.length := by
    rw [pow_add, pow_mul]
    rfl
  have hu := Nat.two_pow_pos u
  rw [decode_div, decode_append, h, length_replicate, hpow, Nat.add_mul, Nat.mul_assoc,
    Nat.sub_mul, Nat.one_mul]
  have hle : 256 ^ tail.length ≤ 2 ^ u * 256 ^ tail.length := Nat.le_mul_of_pos_left _ hu
  omega

end

end Bytes
