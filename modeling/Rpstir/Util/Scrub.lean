import Mathlib.Data.List.Basic

/-!
This module contains `scrub_for_print` of `stringutils.c`. A buffer is the list of its bytes, and a result
`none` is an access outside of it.
-/

namespace Rpstir.Util

open List

/--
The two forms of `PRIx8`. A `char` is signed, so that `%x` sees a byte from 0x80 on as a negative `int`.
-/
inductive PrintForm where
  | x
  | hhx
  deriving DecidableEq

def isprint (b : UInt8) : Bool := 0x20 ≤ b && b ≤ 0x7e

def isspace (b : UInt8) : Bool := b = 0x20 || 9 ≤ b && b ≤ 13

def hexDigit (n : Nat) : UInt8 :=
  if n < 10 then UInt8.ofNat (48 + n) else UInt8.ofNat (87 + n)

/--
`%02x` and `%02hhx`: a negative `int` has `ffffff` in front of its last two digits.
-/
def hex (form : PrintForm) (b : UInt8) : List UInt8 :=
  (if form = .x ∧ 0x80 ≤ b then replicate 6 (hexDigit 15) else [])
    ++ [hexDigit (b.toNat / 16), hexDigit (b.toNat % 16)]

def escaped (b : UInt8) : Bool :=
  !isprint b || isspace b && b ≠ 0x20

def escape (form : PrintForm) (others : Option (List UInt8)) (b : UInt8) : List UInt8 :=
  if escaped b then [92, 120] ++ hex form b
  else if others.any fun others => others.contains b then [92, b]
  else if b = 92 then [92, b]
  else [b]

def snprintf (dst : List UInt8) (used size : Nat) (text : List UInt8) : Option (List UInt8) :=
  if size = 0 then some dst
  else
    let text := text.take (size - 1)
    if used + text.length < dst.length then
      some (dst.take used ++ text ++ 0 :: dst.drop (used + text.length + 1))
    else
      none

def scrubForPrint.loop (form : PrintForm) (others : Option (List UInt8)) (size : Nat)
    : List UInt8 → List UInt8 → Nat → Nat → Option (List UInt8 × Nat)
  | [], dst, _, len => some (dst, len)
  | b :: src, dst, used, len => do
    let text := escape form others b
    let dst ← snprintf dst used (size - used) text
    loop form others size src dst (used + min text.length (size - used)) (len + text.length)

/--
The destination and the value of `dst_len_out`.
-/
def scrubForPrint (form : PrintForm) (dst src : List UInt8) (size : Nat) (others : Option (List UInt8))
    : Option (List UInt8 × Nat) :=
  if size = 0 then scrubForPrint.loop form others size src dst 0 0
  else if dst = [] then none
  else scrubForPrint.loop form others size src (dst.set 0 0) 0 0

variable {form : PrintForm} {others : Option (List UInt8)} {dst src src' : List UInt8} {size : Nat}

/--
A destination of `size` bytes with the beginning of a text, and what was there before behind it.
-/
def printed (dst : List UInt8) (size : Nat) (text : List UInt8) : List UInt8 :=
  if size = 0 then dst else text.take (size - 1) ++ 0 :: dst.drop (min text.length (size - 1) + 1)

theorem snprintf_printed (hsize : size ≤ dst.length) (text more : List UInt8)
    : snprintf (printed dst size text) (min text.length size) (size - min text.length size) more
      = some (printed dst size (text ++ more)) := by
  by_cases hfull : size ≤ text.length
  . have htake : (text ++ more).take (size - 1) = text.take (size - 1) :=
      take_append_of_le_length (by omega)
    have hmin : min (text ++ more).length (size - 1) = min text.length (size - 1) := by
      rw [length_append]
      omega
    rw [snprintf, if_pos (by omega), printed, printed, htake, hmin]
  have hroom : size - text.length ≠ 0 := by omega
  have hmore : size - text.length - 1 = size - 1 - text.length := by omega
  have hbefore : printed dst size text = text ++ 0 :: dst.drop (text.length + 1) := by
    rw [printed, if_neg (by omega), take_of_length_le (by omega), Nat.min_eq_left (by omega)]
  have hafter : printed dst size (text ++ more) = text ++ more.take (size - 1 - text.length)
      ++ 0 :: dst.drop (text.length + (more.take (size - 1 - text.length)).length + 1) := by
    rw [printed, if_neg (by omega), take_append, take_of_length_le (by omega), length_append, length_take]
    congr 3
    omega
  have hlen : (more.take (size - 1 - text.length)).length ≤ size - 1 - text.length := length_take_le _ _
  rw [hbefore, hafter, Nat.min_eq_left (by omega), snprintf, if_neg hroom, hmore]
  generalize more.take (size - 1 - text.length) = more at hlen
  dsimp only
  rw [if_pos (by simp only [length_append, length_cons, length_drop]; omega), take_left, drop_append,
    drop_of_length_le (by omega), nil_append,
    show text.length + more.length + 1 - text.length = more.length + 1 by omega, drop_succ_cons, drop_drop]
  congr 4
  omega

theorem loop_printed (hsize : size ≤ dst.length) (text : List UInt8)
    : scrubForPrint.loop form others size src (printed dst size text) (min text.length size) text.length
      = some (printed dst size (text ++ src.flatMap (escape form others)),
        (text ++ src.flatMap (escape form others)).length) := by
  induction src generalizing text with
  | nil => simp [scrubForPrint.loop]
  | cons b src ih =>
    have hused : min text.length size + min (escape form others b).length (size - min text.length size)
        = min (text ++ escape form others b).length size := by
      rw [length_append]
      omega
    rw [scrubForPrint.loop, snprintf_printed hsize]
    simp only [Option.bind_eq_bind, Option.bind_some, hused, ← length_append]
    rw [ih, flatMap_cons, append_assoc]

theorem scrubForPrint_printed (hsize : size ≤ dst.length)
    : scrubForPrint form dst src size others
      = some (printed dst size (src.flatMap (escape form others)),
        (src.flatMap (escape form others)).length) := by
  have hloop := @loop_printed form others dst src size hsize []
  unfold scrubForPrint
  cases size with
  | zero => exact hloop
  | succ size =>
    cases dst with
    | nil => simp at hsize
    | cons => simpa [printed] using hloop

theorem hexDigit_inj {m n : Nat} (hm : m < 16) (hn : n < 16) (h : hexDigit m = hexDigit n) : m = n := by
  have hall : ∀ m < 16, ∀ n < 16, hexDigit m = hexDigit n → m = n := by decide
  exact hall m hm n hn h

theorem hex_eq_iff (form : PrintForm) (b : UInt8)
    : hex form b = [hexDigit (b.toNat / 16), hexDigit (b.toNat % 16)] ↔ form = .hhx ∨ b < 0x80 := by
  unfold hex
  split
  . next hlong =>
    refine iff_of_false (fun h => ?_) ?_
    . have hlen := congrArg length h
      simp at hlen
    . rw [hlong.1]
      simpa using hlong.2
  . next hshort =>
    refine iff_of_true rfl ?_
    cases form with
    | x => exact .inr (UInt8.not_le.mp fun hle => hshort ⟨rfl, hle⟩)
    | hhx => exact .inl rfl

def TwoDigitsAt (form : PrintForm) (b : UInt8) : Prop :=
  escaped b = true → ∀ others,
    escape form others b = [92, 120, hexDigit (b.toNat / 16), hexDigit (b.toNat % 16)]

def TwoDigits (form : PrintForm) (src : List UInt8) : Prop :=
  ∀ b ∈ src, TwoDigitsAt form b

theorem twoDigits_iff : TwoDigits form src ↔ form = .hhx ∨ ∀ b ∈ src, b < 0x80 := by
  have hescape {b : UInt8} (hb : escaped b = true) (others : Option (List UInt8))
      : escape form others b = [92, 120, hexDigit (b.toNat / 16), hexDigit (b.toNat % 16)]
        ↔ form = .hhx ∨ b < 0x80 := by
    rw [← hex_eq_iff, escape, if_pos hb]
    simp
  have hhigh {b : UInt8} (hb : ¬b < 0x80) : escaped b = true := by
    have hnot : ¬b ≤ 0x7e := fun hle => hb (UInt8.lt_of_le_of_lt hle (by decide))
    simp [escaped, isprint, hnot]
  constructor
  . intro h
    by_contra hnot
    rw [not_or] at hnot
    obtain ⟨hform, hall⟩ := hnot
    apply hall
    intro b hb
    by_contra hge
    exact ((hescape (hhigh hge) none).mp (h b hb (hhigh hge) none)).elim hform hge
  . intro h b hb hesc others
    exact (hescape hesc others).mpr (h.imp_right fun hall => hall b hb)

theorem escape_append_inj {b b' : UInt8} {text text' : List UInt8} (hb : TwoDigitsAt form b)
    (hb' : TwoDigitsAt form b') (hothers : ∀ l ∈ others, l = [])
    (h : escape form others b ++ text = escape form others b' ++ text') : b = b' ∧ text = text' := by
  have hplain {c : UInt8} (hc : ¬escaped c = true)
      : escape form others c = if c = 92 then [92, 92] else [c] := by
    have hany : ¬(others.any fun l => l.contains c) = true := by
      cases others with
      | none => simp
      | some l => simp [hothers l rfl]
    rw [escape, if_neg hc, if_neg hany]
    split
    . next heq => rw [heq]
    . rfl
  by_cases hesc : escaped b = true <;> by_cases hesc' : escaped b' = true
  . rw [hb hesc, hb' hesc'] at h
    simp only [cons_append, nil_append, cons.injEq, true_and] at h
    have hlt := b.toNat_lt
    have hlt' := b'.toNat_lt
    have hhi := hexDigit_inj (by omega) (by omega) h.1
    have hlo := hexDigit_inj (by omega) (by omega) h.2.1
    exact ⟨UInt8.toNat_inj.mp (by omega), h.2.2⟩
  . rw [hb hesc, hplain hesc'] at h
    split at h <;> simp_all
  . rw [hb' hesc', hplain hesc] at h
    split at h <;> simp_all
  . rw [hplain hesc, hplain hesc'] at h
    split at h <;> split at h <;> simp_all

theorem escape_injective (hsrc : TwoDigits form src) (hsrc' : TwoDigits form src')
    (hothers : ∀ l ∈ others, l = [])
    (h : src.flatMap (escape form others) = src'.flatMap (escape form others)) : src = src' := by
  have hne (b : UInt8) : escape form others b ≠ [] := by
    unfold escape
    repeat' split
    all_goals simp
  induction src generalizing src' with
  | nil =>
    cases src' with
    | nil => rfl
    | cons b' src' =>
      rw [flatMap_nil, flatMap_cons] at h
      exact absurd (append_eq_nil_iff.mp h.symm).1 (hne b')
  | cons b src ih =>
    cases src' with
    | nil =>
      rw [flatMap_nil, flatMap_cons] at h
      exact absurd (append_eq_nil_iff.mp h).1 (hne b)
    | cons b' src' =>
      rw [flatMap_cons, flatMap_cons] at h
      obtain ⟨hb, hall⟩ := forall_mem_cons.mp hsrc
      obtain ⟨hb', hall'⟩ := forall_mem_cons.mp hsrc'
      obtain ⟨rfl, hrest⟩ := escape_append_inj hb hb' hothers h
      rw [ih hall hall' hrest]

/--
The destination gets as much of the escaped text as fits, and the length of the whole text is reported.
Every byte that is not printable is two digits, and the escaping is injective, unless `PRIx8` is `x` and
there is a byte from 0x80 on.
-/
theorem scrubForPrint_correct (form : PrintForm) (dst src : List UInt8) (size : Nat)
    (others : Option (List UInt8)) (hsize : size ≤ dst.length)
    : scrubForPrint form dst src size others
        = some (printed dst size (src.flatMap (escape form others)),
          (src.flatMap (escape form others)).length)
      ∧ (TwoDigits form src ↔ form = .hhx ∨ ∀ b ∈ src, b < 0x80)
      ∧ (TwoDigits form src → (∀ l ∈ others, l = []) → ∀ src', TwoDigits form src' →
        src.flatMap (escape form others) = src'.flatMap (escape form others) → src = src') :=
  ⟨scrubForPrint_printed hsize, twoDigits_iff, fun hsrc hothers _ hsrc' => escape_injective hsrc hsrc' hothers⟩

theorem scrubForPrint_correct_truncated
    : scrubForPrint .hhx (replicate 12 1) [97, 10, 92, 59, 0x80] 10 (some [59])
        = some ([97, 92, 120, 48, 97, 92, 92, 92, 59, 0, 1, 1], 13)
      ∧ TwoDigits .hhx [97, 10, 92, 59, 0x80] := by
  have h := scrubForPrint_correct .hhx (replicate 12 1) [97, 10, 92, 59, 0x80] 10 (some [59]) (by decide)
  exact ⟨h.1, h.2.1.mpr (.inl rfl)⟩

theorem scrubForPrint_eight_digits
    : scrubForPrint .x (replicate 16 1) [0x80] 16 none
        = some ([92, 120, 102, 102, 102, 102, 102, 102, 56, 48, 0, 1, 1, 1, 1, 1], 10)
      ∧ ¬TwoDigits .x [0x80] := by
  refine ⟨by decide, fun h => ?_⟩
  exact (twoDigits_iff.mp h).elim nofun fun hall => UInt8.lt_irrefl _ (hall 0x80 (mem_singleton_self _))

end Rpstir.Util
