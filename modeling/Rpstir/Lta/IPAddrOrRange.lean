import Mathlib.Data.List.DropRight
import Rpstir.Casn.Memcmp
import Rpstir.Data.ByteBits
import Rpstir.Data.DyadicBlock
import Rpstir.Data.List

/-!
This module contains the item that stands for a range of addresses in a certificate, the way back, and
the proof that the item is the shortest one and that nothing is lost.
-/

namespace Rpstir.Lta

open List Option

open ByteBits

inductive Af where
  | inet
  | inet6
  | other
  deriving DecidableEq, Repr

def Af.addrLength : Af → Option Nat
  | inet => some 4
  | inet6 => some 16
  | other => none

/--
The contents of the BIT STRINGs in an `IPAddressOrRange`, each with the number of unused bits in front.
-/
inductive IPAddressOrRange where
  | addressPrefix (contents : List UInt8)
  | addressRange (min max : List UInt8)
  deriving DecidableEq, Repr

namespace writeRtrimBitstring

def trimByte (trimBit : Bool) : UInt8 :=
  if trimBit then 0xff else 0x00

def unusedBits (trimBit : Bool) (b : UInt8) : Nat :=
  ((List.range 8).takeWhile fun i =>
    b.toNat &&& (1 <<< i) = (trimByte trimBit).toNat &&& (1 <<< i)).length

end writeRtrimBitstring

open writeRtrimBitstring in
def writeRtrimBitstring (src : List UInt8) (trimBit : Bool) : List UInt8 :=
  let kept := src.rdropWhile fun b => b = trimByte trimBit
  match kept.getLast? with
  | none => [0]
  | some b =>
    let unused := unusedBits trimBit b
    UInt8.ofNat unused :: (kept.dropLast ++ [UInt8.ofNat (b.toNat &&& (0xff <<< unused))])

namespace makeIPAddrOrRange

def commonBytes : List UInt8 → List UInt8 → Nat
  | l :: low, h :: high => if l = h then commonBytes low high + 1 else 0
  | _, _ => 0

def commonBits (l h : UInt8) : Nat :=
  ((List.range 8).takeWhile fun i => l.toNat &&& (0x80 >>> i) = h.toNat &&& (0x80 >>> i)).length

def noncommonByteOffset (common bits : Nat) : Nat :=
  if bits > 0 then common + 1 else common

def isPref (low high : List UInt8) (offset bits : Nat) (l h : UInt8) : Bool :=
  if bits > 0 ∧ l.toNat &&& (0xff >>> bits) ≠ 0 then false
  else if bits > 0 ∧ h.toNat &&& (0xff >>> bits) ≠ 0xff >>> bits then false
  else if offset = low.length then true
  else if low.drop offset ≠ replicate (low.length - offset) 0x00 then false
  else if high.drop offset ≠ replicate (low.length - offset) 0xff then false
  else true

def ofDifferent (low high : List UInt8) (common : Nat) (l h : UInt8) : IPAddressOrRange :=
  let bits := commonBits l h
  let offset := noncommonByteOffset common bits
  if isPref low high offset bits l h then
    .addressPrefix (UInt8.ofNat ((8 - bits) % 8) :: low.take offset)
  else
    .addressRange (writeRtrimBitstring low false) (writeRtrimBitstring high true)

end makeIPAddrOrRange

open makeIPAddrOrRange in
def makeIPAddrOrRange (af : Af) (low high : List UInt8) : Option IPAddressOrRange :=
  match af.addrLength with
  | none => none
  | some addrLength =>
    let low := low.take addrLength
    let high := high.take addrLength
    if Casn.memcmp low high = .gt then
      none
    else
      match low[commonBytes low high]?, high[commonBytes low high]? with
      | some l, some h => some (ofDifferent low high (commonBytes low high) l h)
      | _, _ => some (.addressPrefix (0 :: low))

namespace cvtAsn

def copy (fill : UInt8) (bytes : List UInt8) : Option (List UInt8) :=
  if bytes.length ≤ 18 then some (bytes ++ replicate (18 - bytes.length) fill) else none

def fillUnused (unused : UInt8) (siz : Nat) (hilim : List UInt8) : Option (List UInt8) :=
  if unused = 0 then
    some hilim
  else if siz = 0 then
    none
  else
    some (hilim.modify (siz - 1) fun b => UInt8.ofNat (b.toNat ||| ((1 <<< unused.toNat) - 1)))

def limits (lo hi : List UInt8) : Option (List UInt8 × List UInt8) :=
  match lo, hi with
  | _ :: lobytes, unused :: hibytes => do
    let lolim ← copy 0x00 lobytes
    let hilim ← copy 0xff hibytes
    let hilim ← fillUnused unused hibytes.length hilim
    return (lolim, hilim)
  | _, _ => none

end cvtAsn

def cvtAsn : IPAddressOrRange → Option (List UInt8 × List UInt8)
  | .addressPrefix contents => cvtAsn.limits contents contents
  | .addressRange min max => cvtAsn.limits min max

section Bits

variable {l h b : UInt8}

theorem makeIPAddrOrRange.commonBits_spec (hne : l ≠ h)
    : ∃ k, k < 8 ∧ commonBits l h = 7 - k ∧ l.toNat / 2 ^ (k + 1) = h.toNat / 2 ^ (k + 1) ∧
        l.toNat / 2 ^ k % 2 ≠ h.toNat / 2 ^ k % 2 := by
  have hpow : ∀ i < 8, 0x80 >>> i = 2 ^ (7 - i) := by decide
  obtain ⟨hle, hsame, hdiffer⟩ := length_takeWhile_range _ 8 (commonBits l h) rfl
  generalize commonBits l h = n at hle hsame hdiffer
  have hbits : ∀ j, 8 - n ≤ j → l.toNat.testBit j = h.toNat.testBit j := by
    intro j _
    by_cases hlt : j < 8
    . have hi := hsame (7 - j) (by omega)
      rw [decide_eq_true_iff, hpow _ (by omega), and_eq_and_iff] at hi
      rwa [show 7 - (7 - j) = j by omega] at hi
    . rw [testBit_eq_false l (by omega), testBit_eq_false h (by omega)]
  have hlt : n < 8 := by
    refine Nat.lt_of_le_of_ne hle fun heq => toNat_ne hne ?_
    exact Nat.eq_of_testBit_eq fun j => hbits j (by omega)
  refine ⟨7 - n, by omega, by omega, ?_, ?_⟩
  . apply Nat.eq_of_testBit_eq
    intro j
    rw [Nat.testBit_div_two_pow, Nat.testBit_div_two_pow]
    exact hbits _ (by omega)
  . have hi := hdiffer hlt
    rw [decide_eq_false_iff_not, hpow _ hlt, and_eq_and_iff, Nat.testBit_eq_decide_div_mod_eq,
      Nat.testBit_eq_decide_div_mod_eq, decide_eq_decide] at hi
    omega

theorem writeRtrimBitstring.testBit_trimByte (trimBit : Bool) {i : Nat} (hi : i < 8)
    : (trimByte trimBit).toNat.testBit i = trimBit := by
  cases trimBit with
  | false => exact Nat.zero_testBit i
  | true =>
    rw [show (trimByte true).toNat = 2 ^ 8 - 1 from rfl, Nat.testBit_two_pow_sub_one]
    exact decide_eq_true hi

theorem writeRtrimBitstring.unusedBits_spec {trimBit : Bool} (hne : b ≠ trimByte trimBit)
    : unusedBits trimBit b < 8 ∧ b.toNat.testBit (unusedBits trimBit b) = !trimBit ∧
        b.toNat % 2 ^ unusedBits trimBit b = if trimBit then 2 ^ unusedBits trimBit b - 1 else 0 := by
  obtain ⟨hle, hsame, hdiffer⟩ := length_takeWhile_range _ 8 (unusedBits trimBit b) rfl
  generalize unusedBits trimBit b = n at hle hsame hdiffer
  have hbits : ∀ i < n, b.toNat.testBit i = trimBit := by
    intro i hi
    have h := hsame i hi
    rwa [decide_eq_true_iff, Nat.one_shiftLeft, and_eq_and_iff, testBit_trimByte _ (by omega)] at h
  have hlt : n < 8 := by
    refine Nat.lt_of_le_of_ne hle fun heq => toNat_ne hne (Nat.eq_of_testBit_eq fun i => ?_)
    by_cases hi : i < 8
    . rw [hbits i (by omega), testBit_trimByte _ hi]
    . rw [testBit_eq_false b (by omega), testBit_eq_false _ (by omega)]
  refine ⟨hlt, ?_, ?_⟩
  . have h := hdiffer hlt
    rw [decide_eq_false_iff_not, Nat.one_shiftLeft, and_eq_and_iff, testBit_trimByte _ hlt] at h
    exact Bool.eq_not_of_ne h
  apply Nat.eq_of_testBit_eq
  intro i
  rw [Nat.testBit_mod_two_pow]
  by_cases hi : i < n
  . rw [hbits i hi]
    cases trimBit with
    | false => simp
    | true => simp [Nat.testBit_two_pow_sub_one, hi]
  . cases trimBit with
    | false => simp [hi]
    | true => simp [Nat.testBit_two_pow_sub_one, hi]

end Bits

section Limits

variable {n u : Nat} {front : List UInt8} {c : UInt8}

def UnusedZero : List UInt8 → Prop
  | [] => False
  | unused :: bytes =>
    unused < 8 ∧ match bytes.getLast? with
      | none => unused = 0
      | some b => b.toNat % 2 ^ unused.toNat = 0

def lastBit : List UInt8 → Option Bool
  | [] => none
  | unused :: bytes => bytes.getLast?.map fun b => b.toNat.testBit unused.toNat

theorem toNat_ofNat_lt (hu : u < 8) : (UInt8.ofNat u).toNat = u := by
  rw [UInt8.toNat_ofNat', Nat.mod_eq_of_lt (by omega)]

namespace cvtAsn

theorem copy_eq (fill : UInt8) (bytes : List UInt8) (hn : n ≤ 18) (hlen : bytes.length ≤ n)
    : ∃ rest, copy fill bytes = some (bytes ++ replicate (n - bytes.length) fill ++ rest) := by
  refine ⟨replicate (18 - n) fill, ?_⟩
  rw [copy, if_pos (by omega), append_assoc, replicate_append_replicate]
  congr 4
  omega

theorem fillUnused_eq (hu : u < 8) (hc : c.toNat % 2 ^ u = 0) (front rest : List UInt8)
    : ∃ c', fillUnused (UInt8.ofNat u) (front.length + 1) (front ++ [c] ++ rest)
          = some (front ++ [c'] ++ rest) ∧ c'.toNat = c.toNat + (2 ^ u - 1) := by
  by_cases hzero : u = 0
  . subst hzero
    exact ⟨c, rfl, rfl⟩
  have hne : UInt8.ofNat u ≠ 0 := by
    intro h
    have hnat := congrArg UInt8.toNat h
    rw [toNat_ofNat_lt hu] at hnat
    exact hzero hnat
  refine ⟨UInt8.ofNat (c.toNat ||| ((1 <<< u) - 1)), ?_, toNat_fill hc (by omega)⟩
  rw [fillUnused, if_neg hne, if_neg (by omega), toNat_ofNat_lt hu,
    Nat.add_sub_cancel, modify_length_append]

theorem limits_of {lo hi lolim copied hilim : List UInt8} {loUnused hiUnused : UInt8}
    (hlo : copy 0x00 lo = some lolim) (hhi : copy 0xff hi = some copied)
    (hfill : fillUnused hiUnused hi.length copied = some hilim)
    : limits (loUnused :: lo) (hiUnused :: hi) = some (lolim, hilim) := by
  simp [limits, hlo, hhi, hfill]

theorem limits_whole (hn : n ≤ 18) {lo hi : List UInt8} (loUnused : UInt8) (hlo : lo.length ≤ n)
    (hhi : hi.length ≤ n)
    : ∃ lolim hilim, limits (loUnused :: lo) (0 :: hi) = some (lolim, hilim) ∧
        lolim.take n = lo ++ replicate (n - lo.length) 0x00 ∧
        hilim.take n = hi ++ replicate (n - hi.length) 0xff := by
  obtain ⟨_, hlolim⟩ := copy_eq 0x00 lo hn hlo
  obtain ⟨_, hhilim⟩ := copy_eq 0xff hi hn hhi
  refine ⟨_, _, limits_of hlolim hhilim rfl, ?_, ?_⟩
  . rw [take_left' (by simp; omega)]
  . rw [take_left' (by simp; omega)]

theorem limits_concat (hn : n ≤ 18) {lo : List UInt8} (loUnused : UInt8) (hlo : lo.length ≤ n)
    (hu : u < 8) (hc : c.toNat % 2 ^ u = 0) (hfront : front.length < n)
    : ∃ lolim hilim c', limits (loUnused :: lo) (UInt8.ofNat u :: (front ++ [c])) = some (lolim, hilim) ∧
        lolim.take n = lo ++ replicate (n - lo.length) 0x00 ∧
        hilim.take n = front ++ [c'] ++ replicate (n - (front.length + 1)) 0xff ∧
        c'.toNat = c.toNat + (2 ^ u - 1) := by
  obtain ⟨_, hlolim⟩ := copy_eq 0x00 lo hn hlo
  obtain ⟨hirest, hhilim⟩ := copy_eq 0xff (front ++ [c]) hn (by simp; omega)
  obtain ⟨c', hfill, hc'⟩ := fillUnused_eq hu hc front
    (replicate (n - (front.length + 1)) 0xff ++ hirest)
  have hlength : (front ++ [c]).length = front.length + 1 := by simp
  rw [hlength, append_assoc] at hhilim
  nth_rewrite 1 [← hlength] at hfill
  refine ⟨_, _, c', limits_of hlolim hhilim hfill, ?_, ?_, hc'⟩
  . rw [take_left' (by simp; omega)]
  . rw [← append_assoc, take_left' (by simp; omega)]

end cvtAsn

end Limits

section Rtrim

open writeRtrimBitstring

theorem rdropWhile_append_replicate (src : List UInt8) (t : UInt8)
    : src = src.rdropWhile (fun b => b = t)
        ++ replicate (src.length - (src.rdropWhile fun b => b = t).length) t := by
  have hsplit := @List.rdropWhile_append_rtakeWhile _ (fun b => decide (b = t)) src
  have htrimmed : src.rtakeWhile (fun b => b = t)
      = replicate (src.rtakeWhile fun b => b = t).length t := by
    apply eq_replicate_of_mem
    intro b hb
    simpa using mem_rtakeWhile_imp hb
  have hlength := congrArg List.length hsplit
  rw [length_append] at hlength
  rw [htrimmed] at hsplit
  rw [← hlength, Nat.add_sub_cancel_left, hsplit]

theorem writeRtrimBitstring_cases (src : List UInt8) (trimBit : Bool)
    : (writeRtrimBitstring src trimBit = [0] ∧ src = replicate src.length (trimByte trimBit)) ∨
      ∃ front b c u, u < 8 ∧
        src = front ++ [b] ++ replicate (src.length - (front.length + 1)) (trimByte trimBit) ∧
        writeRtrimBitstring src trimBit = UInt8.ofNat u :: (front ++ [c]) ∧
        c.toNat = b.toNat / 2 ^ u * 2 ^ u ∧ b.toNat.testBit u = !trimBit ∧
        b.toNat % 2 ^ u = if trimBit then 2 ^ u - 1 else 0 := by
  have hsrc := rdropWhile_append_replicate src (trimByte trimBit)
  unfold writeRtrimBitstring
  dsimp only
  cases hlast : (src.rdropWhile fun b => b = trimByte trimBit).getLast? with
  | none =>
    rw [getLast?_eq_none_iff] at hlast
    rw [hlast] at hsrc
    exact .inl ⟨rfl, hsrc⟩
  | some b =>
    obtain ⟨front, hkept⟩ := getLast?_eq_some_iff.mp hlast
    have hne : b ≠ trimByte trimBit := by
      have hnil : (src.rdropWhile fun b => b = trimByte trimBit) ≠ [] := by simp [hkept]
      have hnot := rdropWhile_last_not _ src hnil
      simpa [hkept] using hnot
    obtain ⟨hu, hbit, hmod⟩ := unusedBits_spec hne
    refine .inr ⟨front, b, _, _, hu, ?_, ?_, toNat_clear b _, hbit, hmod⟩
    . rwa [hkept, length_append, length_singleton] at hsrc
    . rw [hkept, dropLast_concat]

theorem unusedZero_concat {u : Nat} {front : List UInt8} {c : UInt8} (hu : u < 8)
    (hc : c.toNat % 2 ^ u = 0) : UnusedZero (UInt8.ofNat u :: (front ++ [c])) := by
  refine ⟨?_, ?_⟩
  . rw [UInt8.lt_iff_toNat_lt, toNat_ofNat_lt hu]
    exact hu
  . rw [getLast?_concat, toNat_ofNat_lt hu]
    exact hc

theorem unusedZero_whole (bytes : List UInt8) : UnusedZero (0 :: bytes) := by
  refine ⟨by decide, ?_⟩
  split
  . rfl
  . exact Nat.mod_one _

theorem writeRtrimBitstring_unusedZero (src : List UInt8) (trimBit : Bool)
    : UnusedZero (writeRtrimBitstring src trimBit) := by
  obtain ⟨heq, -⟩ | ⟨_, _, _, _, hu, -, heq, hc, -⟩ := writeRtrimBitstring_cases src trimBit
  . rw [heq]
    exact unusedZero_whole []
  . rw [heq]
    exact unusedZero_concat hu (by rw [hc, Nat.mul_mod_left])

theorem writeRtrimBitstring_lastBit (src : List UInt8) (trimBit : Bool)
    : lastBit (writeRtrimBitstring src trimBit) ≠ some trimBit := by
  obtain ⟨heq, -⟩ | ⟨_, b, c, u, hu, -, heq, hc, hbit, -⟩ := writeRtrimBitstring_cases src trimBit
  . rw [heq]
    simp [lastBit]
  have hsame : c.toNat.testBit u = b.toNat.testBit u := by
    rw [hc, ← Nat.shiftLeft_eq, Nat.testBit_shiftLeft, Nat.sub_self, Nat.testBit_div_two_pow]
    simp
  rw [heq, lastBit, getLast?_concat, map_some, toNat_ofNat_lt hu, hsame, hbit]
  cases trimBit <;> simp

theorem limits_writeRtrimBitstring {n : Nat} {low high : List UInt8} (hn : n ≤ 18)
    (hlow : low.length = n) (hhigh : high.length = n)
    : ∃ lolim hilim,
        cvtAsn.limits (writeRtrimBitstring low false) (writeRtrimBitstring high true) = some (lolim, hilim) ∧
        lolim.take n = low ∧ hilim.take n = high := by
  have hmin : ∃ unused bytes, writeRtrimBitstring low false = unused :: bytes ∧ bytes.length ≤ n ∧
      bytes ++ replicate (n - bytes.length) 0x00 = low := by
    obtain ⟨heq, hall⟩ | ⟨front, b, c, u, -, hsrc, heq, hc, -, hmod⟩ := writeRtrimBitstring_cases low false
    . refine ⟨0, [], heq, Nat.zero_le n, ?_⟩
      rw [hall, hlow]
      rfl
    have hlength := congrArg List.length hsrc
    simp only [length_append, length_singleton, length_replicate] at hlength
    have hcb : c = b := by
      rw [← UInt8.toNat_inj, hc]
      exact Nat.div_mul_cancel (Nat.dvd_of_mod_eq_zero hmod)
    refine ⟨UInt8.ofNat u, front ++ [c], heq, ?_, ?_⟩
    . rw [length_append, length_singleton]
      omega
    . rw [hcb, length_append, length_singleton, ← hlow]
      exact hsrc.symm
  obtain ⟨unused, bytes, hmin, hbytes, hlo⟩ := hmin
  rw [hmin]
  obtain ⟨heq, hall⟩ | ⟨front, b, c, u, hu, hsrc, heq, hc, -, hmod⟩ := writeRtrimBitstring_cases high true
  . obtain ⟨lolim, hilim, hlimits, hlolim, hhilim⟩ :=
      @cvtAsn.limits_whole n hn bytes [] unused hbytes (Nat.zero_le n)
    refine ⟨lolim, hilim, heq ▸ hlimits, hlolim.trans hlo, ?_⟩
    rw [hhilim, hall, hhigh]
    rfl
  have hlength := congrArg List.length hsrc
  simp only [length_append, length_singleton, length_replicate] at hlength
  obtain ⟨lolim, hilim, c', hlimits, hlolim, hhilim, hc'⟩ := cvtAsn.limits_concat hn unused hbytes hu
    (show c.toNat % 2 ^ u = 0 by rw [hc, Nat.mul_mod_left]) (show front.length < n by omega)
  have hcb : c' = b := by
    have hdiv := Nat.div_add_mod' b.toNat (2 ^ u)
    rw [if_pos rfl] at hmod
    rw [← UInt8.toNat_inj, hc', hc]
    omega
  refine ⟨lolim, hilim, heq ▸ hlimits, hlolim.trans hlo, ?_⟩
  rw [hhilim, hcb, ← hhigh]
  exact hsrc.symm

end Rtrim

section Common

variable {com lowRest highRest : List UInt8} {l h : UInt8}

namespace makeIPAddrOrRange

theorem commonBytes_append_cons (hne : l ≠ h)
    : commonBytes (com ++ l :: lowRest) (com ++ h :: highRest) = com.length := by
  induction com with
  | nil => simp [commonBytes, hne]
  | cons _ com ih => simp [commonBytes, ih]

theorem commonBytes_self (low : List UInt8) : commonBytes low low = low.length := by
  induction low with
  | nil => rfl
  | cons _ low ih => simp [commonBytes, ih]

theorem eq_or_differ {low high : List UInt8} (hlen : low.length = high.length)
    : low = high ∨ ∃ com l lowRest h highRest, low = com ++ l :: lowRest ∧ high = com ++ h :: highRest ∧
        l ≠ h ∧ lowRest.length = highRest.length := by
  induction low generalizing high with
  | nil =>
    left
    exact (length_eq_zero_iff.mp hlen.symm).symm
  | cons l low ih =>
    match high with
    | h :: high =>
      have hlen' : low.length = high.length := by simpa using hlen
      by_cases hne : l = h
      . subst hne
        obtain rfl | ⟨com, l', lowRest, h', highRest, rfl, rfl, hrest⟩ := ih hlen'
        . exact .inl rfl
        . exact .inr ⟨l :: com, l', lowRest, h', highRest, rfl, rfl, hrest⟩
      . exact .inr ⟨[], l, low, h, high, rfl, rfl, hne, hlen'⟩

theorem dyadicBlock_append_cons (hne : l ≠ h) (hlen : lowRest.length = highRest.length)
    : DyadicBlock (8 * (com ++ l :: lowRest).length) (Bytes.decode (com ++ l :: lowRest))
          (Bytes.decode (com ++ h :: highRest)) ↔
        DyadicBlock 8 l.toNat h.toNat ∧ Bytes.decode lowRest = 0 ∧
          Bytes.decode highRest + 1 = 256 ^ lowRest.length := by
  have hpow : ∀ k, 256 ^ k = 2 ^ (8 * k) := fun k => by rw [Nat.pow_mul]
  induction com with
  | nil =>
    have hlow := Bytes.decode_lt lowRest
    have hhigh := Bytes.decode_lt highRest
    rw [hpow] at hlow hhigh
    rw [← hlen] at hhigh
    have hwidth : 8 * ([] ++ l :: lowRest).length = 8 + 8 * lowRest.length := by
      simp
      omega
    rw [hwidth, nil_append, nil_append, Bytes.decode_cons, Bytes.decode_cons, ← hlen, hpow,
      DyadicBlock.digit_iff hlow hhigh]
    simp [toNat_ne hne]
  | cons b com ih =>
    have hlow := Bytes.decode_lt (com ++ l :: lowRest)
    have hhigh := Bytes.decode_lt (com ++ h :: highRest)
    have hlen' : (com ++ h :: highRest).length = (com ++ l :: lowRest).length := by simp [hlen]
    have hwidth : 8 * (b :: (com ++ l :: lowRest)).length = 8 + 8 * (com ++ l :: lowRest).length := by
      simp
      omega
    rw [hlen'] at hhigh
    rw [hpow] at hlow hhigh
    rw [cons_append, cons_append, Bytes.decode_cons, Bytes.decode_cons, hwidth, hlen', hpow,
      DyadicBlock.digit_iff hlow hhigh]
    simpa using ih

variable {k offset bits : Nat}

variable (hk : k < 8) (hlen : lowRest.length = highRest.length)
  (hsame : l.toNat / 2 ^ (k + 1) = h.toNat / 2 ^ (k + 1))
  (hdiffer : l.toNat / 2 ^ k % 2 ≠ h.toNat / 2 ^ k % 2)

include hk hsame hdiffer in
theorem dyadicBlock_byte
    : DyadicBlock 8 l.toNat h.toNat ↔
        l.toNat % 2 ^ (k + 1) = 0 ∧ h.toNat % 2 ^ (k + 1) = 2 ^ (k + 1) - 1 := by
  have hlow := Nat.div_add_mod l.toNat (2 ^ (k + 1))
  have hhigh := Nat.div_add_mod h.toNat (2 ^ (k + 1))
  rw [hsame] at hlow
  constructor
  . rintro ⟨j, _, hdvd, hsize⟩
    have hjk : j = k + 1 := by
      by_cases hle : j ≤ k
      . have hdiv := DyadicBlock.div_eq hle hdvd hsize
        rw [hdiv] at hdiffer
        exact absurd rfl hdiffer
      by_contra hne
      -- a larger block is not between bytes with the same first bits
      have hlarge : 2 ^ (k + 1 + 1) ≤ 2 ^ j := Nat.pow_le_pow_right (by decide) (by omega)
      omega
    rw [hjk] at hdvd hsize
    have hl := Nat.mod_eq_zero_of_dvd hdvd
    exact ⟨hl, by omega⟩
  . rintro ⟨hl, _⟩
    exact ⟨k + 1, by omega, Nat.dvd_of_mod_eq_zero hl, by omega⟩

structure AllBits (k : Nat) (l h : UInt8) (lowRest highRest : List UInt8) : Prop where
  low : l.toNat % 2 ^ (k + 1) = 0
  high : h.toNat % 2 ^ (k + 1) = 2 ^ (k + 1) - 1
  lowRest : lowRest = replicate lowRest.length 0x00
  highRest : highRest = replicate highRest.length 0xff

def prefixContents (k : Nat) (com : List UInt8) (l : UInt8) : List UInt8 :=
  if k = 7 then 0 :: com else UInt8.ofNat (k + 1) :: (com ++ [l])

theorem isPref_iff {low high : List UInt8} (hlen : low.length = high.length)
    : isPref low high offset bits l h = true ↔
        (bits > 0 → l.toNat &&& (0xff >>> bits) = 0 ∧ h.toNat &&& (0xff >>> bits) = 0xff >>> bits) ∧
        low.drop offset = replicate (low.length - offset) 0x00 ∧
        high.drop offset = replicate (low.length - offset) 0xff := by
  unfold isPref
  by_cases hl : bits > 0 ∧ l.toNat &&& (0xff >>> bits) ≠ 0
  . rw [if_pos hl]
    grind
  by_cases hh : bits > 0 ∧ h.toNat &&& (0xff >>> bits) ≠ 0xff >>> bits
  . rw [if_pos hh]
    grind
  by_cases hoffset : offset = low.length
  . rw [if_pos hoffset, hoffset, Nat.sub_self, drop_length, hlen, drop_length]
    grind
  . rw [if_neg hoffset]
    grind

include hk hlen in
theorem isPref_iff_allBits
    : isPref (com ++ l :: lowRest) (com ++ h :: highRest) (noncommonByteOffset com.length (7 - k)) (7 - k)
          l h = true ↔ AllBits k l h lowRest highRest := by
  have hmask : 0xff >>> (7 - k) = 2 ^ (k + 1) - 1 := by
    have hall : ∀ k < 8, 0xff >>> (7 - k) = 2 ^ (k + 1) - 1 := by decide
    exact hall k hk
  rw [isPref_iff (by simp [hlen]), hmask, Nat.and_two_pow_sub_one_eq_mod,
    Nat.and_two_pow_sub_one_eq_mod, noncommonByteOffset]
  by_cases h7 : k = 7
  . -- there is no common bit in the byte, so that it is part of the rest
    subst h7
    have hl := l.toNat_lt
    have hh := h.toNat_lt
    have hlength : (com ++ l :: lowRest).length - com.length = lowRest.length + 1 := by simp
    rw [if_neg (by decide), drop_left, drop_left, hlength, replicate_succ,
      replicate_succ, List.cons.injEq, List.cons.injEq, ← UInt8.toNat_inj, ← UInt8.toNat_inj]
    constructor
    . rintro ⟨-, ⟨hlow, hlowRest⟩, hhigh, hhighRest⟩
      exact ⟨by simp [hlow], by simp [hhigh], hlowRest, hlen ▸ hhighRest⟩
    . rintro ⟨hlow, hhigh, hlowRest, hhighRest⟩
      rw [Nat.mod_eq_of_lt hl] at hlow
      rw [Nat.mod_eq_of_lt hh] at hhigh
      exact ⟨fun hpos => absurd hpos (by decide), ⟨hlow, hlowRest⟩, hhigh, hlen ▸ hhighRest⟩
  have hlength : (com ++ l :: lowRest).length - (com.length + 1) = lowRest.length := by
    simp
    omega
  have hdrop : ∀ (b : UInt8) (rest : List UInt8), (com ++ b :: rest).drop (com.length + 1) = rest := by
    simp [drop_append]
  rw [if_pos (by omega), hdrop, hdrop, hlength]
  constructor
  . rintro ⟨hbyte, hlowRest, hhighRest⟩
    exact ⟨(hbyte (by omega)).1, (hbyte (by omega)).2, hlowRest, hlen ▸ hhighRest⟩
  . rintro ⟨hlow, hhigh, hlowRest, hhighRest⟩
    exact ⟨fun _ => ⟨hlow, hhigh⟩, hlowRest, hlen ▸ hhighRest⟩

include hk hlen hsame hdiffer in
theorem allBits_iff (hne : l ≠ h)
    : AllBits k l h lowRest highRest ↔
        DyadicBlock (8 * (com ++ l :: lowRest).length) (Bytes.decode (com ++ l :: lowRest))
          (Bytes.decode (com ++ h :: highRest)) := by
  rw [dyadicBlock_append_cons hne hlen, dyadicBlock_byte hk hsame hdiffer]
  have hzero := Bytes.decode_replicate_zero lowRest.length
  have hmax := Bytes.decode_replicate_max highRest.length
  constructor
  . rintro ⟨hlow, hhigh, hlowRest, hhighRest⟩
    rw [hlowRest, hhighRest, length_replicate, hlen]
    exact ⟨⟨hlow, hhigh⟩, Bytes.decode_replicate_zero _, hmax⟩
  rintro ⟨⟨hlow, hhigh⟩, hlowRest, hhighRest⟩
  refine ⟨hlow, hhigh, ?_, ?_⟩
  . apply Bytes.decode_injective (by simp)
    rw [hlowRest, hzero]
  . apply Bytes.decode_injective (by simp)
    rw [hlen] at hhighRest
    omega

include hk

theorem prefixContents_eq
    : UInt8.ofNat ((8 - (7 - k)) % 8) ::
          (com ++ l :: lowRest).take (noncommonByteOffset com.length (7 - k))
        = prefixContents k com l := by
  unfold prefixContents noncommonByteOffset
  by_cases h7 : k = 7
  . subst h7
    simp
  . have hunused : ∀ k < 7, (8 - (7 - k)) % 8 = k + 1 := by decide
    rw [if_neg h7, if_pos (by omega), hunused k (by omega)]
    simp [take_append]

theorem prefixContents_unusedZero (hl : l.toNat % 2 ^ (k + 1) = 0)
    : UnusedZero (prefixContents k com l) := by
  unfold prefixContents
  split
  . exact unusedZero_whole com
  . exact unusedZero_concat (by omega) hl

include hsame in
theorem limits_prefixContents {n : Nat} (hn : n ≤ 18) (hall : AllBits k l h lowRest highRest)
    (hlow : (com ++ l :: lowRest).length = n) (hhigh : (com ++ h :: highRest).length = n)
    : ∃ lolim hilim,
        cvtAsn.limits (prefixContents k com l) (prefixContents k com l) = some (lolim, hilim) ∧
        lolim.take n = com ++ l :: lowRest ∧ hilim.take n = com ++ h :: highRest := by
  have hl := l.toNat_lt
  have hh := h.toNat_lt
  simp only [length_append, length_cons] at hlow hhigh
  unfold prefixContents
  by_cases h7 : k = 7
  . subst h7
    obtain ⟨lolim, hilim, hlimits, hlolim, hhilim⟩ :=
      @cvtAsn.limits_whole n hn com com 0 (by omega) (by omega)
    have hlzero : l = 0 := UInt8.toNat_inj.mp ((Nat.mod_eq_of_lt hl).symm.trans hall.low)
    have hhmax : h = 0xff := UInt8.toNat_inj.mp ((Nat.mod_eq_of_lt hh).symm.trans hall.high)
    refine ⟨lolim, hilim, hlimits, ?_, ?_⟩
    . rw [hlolim, hall.lowRest, hlzero, ← replicate_succ]
      congr 2
      omega
    . rw [hhilim, hall.highRest, hhmax, ← replicate_succ]
      congr 2
      omega
  rw [if_neg h7]
  obtain ⟨lolim, hilim, c, hlimits, hlolim, hhilim, hc⟩ := @cvtAsn.limits_concat n (k + 1) com l hn
    (com ++ [l]) (UInt8.ofNat (k + 1)) (by simp; omega) (by omega) hall.low (by omega)
  have hch : c = h := by
    have hldiv := Nat.div_add_mod l.toNat (2 ^ (k + 1))
    have hhdiv := Nat.div_add_mod h.toNat (2 ^ (k + 1))
    rw [← UInt8.toNat_inj, hc, ← hldiv, ← hhdiv, hall.low, hall.high, hsame, Nat.add_zero]
  refine ⟨lolim, hilim, hlimits, ?_, ?_⟩
  . rw [hlolim, hall.lowRest, append_assoc, singleton_append, length_append,
      length_singleton]
    congr 3
    omega
  . rw [hhilim, hch, hall.highRest, append_assoc, singleton_append]
    congr 3
    omega

end makeIPAddrOrRange

end Common

def IPAddressOrRange.IsPref : IPAddressOrRange → Prop
  | addressPrefix _ => True
  | addressRange _ _ => False

def IPAddressOrRange.Minimal : IPAddressOrRange → Prop
  | addressPrefix contents => UnusedZero contents
  | addressRange min max =>
    (UnusedZero min ∧ lastBit min ≠ some false) ∧ UnusedZero max ∧ lastBit max ≠ some true

structure Represents (n : Nat) (low high : List UInt8) (item : IPAddressOrRange) : Prop where
  isPref_iff : item.IsPref ↔ DyadicBlock (8 * n) (Bytes.decode low) (Bytes.decode high)
  minimal : item.Minimal
  back : ∃ lolim hilim, cvtAsn item = some (lolim, hilim) ∧ lolim.take n = low ∧ hilim.take n = high

section Represents

variable {n : Nat} {low high : List UInt8}

theorem Represents.equal (hn : n ≤ 18) (hlow : low.length = n)
    : Represents n low low (.addressPrefix (0 :: low)) where
  isPref_iff := iff_of_true trivial (.self _ _)
  minimal := unusedZero_whole low
  back := by
    obtain ⟨lolim, hilim, hlimits, hlolim, hhilim⟩ :=
      @cvtAsn.limits_whole n hn low low 0 (Nat.le_of_eq hlow) (Nat.le_of_eq hlow)
    refine ⟨lolim, hilim, hlimits, ?_, ?_⟩
    . rw [hlolim, hlow, Nat.sub_self]
      simp
    . rw [hhilim, hlow, Nat.sub_self]
      simp

theorem Represents.ofDifferent {com lowRest highRest : List UInt8} {l h : UInt8} (hn : n ≤ 18)
    (hlow : (com ++ l :: lowRest).length = n) (hhigh : (com ++ h :: highRest).length = n) (hne : l ≠ h)
    : Represents n (com ++ l :: lowRest) (com ++ h :: highRest)
        (makeIPAddrOrRange.ofDifferent (com ++ l :: lowRest) (com ++ h :: highRest) com.length l h) := by
  obtain ⟨k, hk, hbits, hsame, hdiffer⟩ := makeIPAddrOrRange.commonBits_spec hne
  have hlen : lowRest.length = highRest.length := by
    simp only [length_append, length_cons] at hlow hhigh
    omega
  have hpref := @makeIPAddrOrRange.isPref_iff_allBits com lowRest highRest l h k hk hlen
  have hblock := @makeIPAddrOrRange.allBits_iff com lowRest highRest l h k hk hlen hsame hdiffer hne
  rw [hlow] at hblock
  unfold makeIPAddrOrRange.ofDifferent
  dsimp only
  rw [hbits]
  split
  next htrue =>
    have hall := hpref.mp htrue
    rw [makeIPAddrOrRange.prefixContents_eq hk]
    exact ⟨iff_of_true trivial (hblock.mp hall), makeIPAddrOrRange.prefixContents_unusedZero hk hall.low,
      makeIPAddrOrRange.limits_prefixContents hk hsame hn hall hlow hhigh⟩
  next hfalse =>
    have hall := mt hpref.mpr hfalse
    refine ⟨iff_of_false id (mt hblock.mpr hall), ?_, limits_writeRtrimBitstring hn hlow hhigh⟩
    exact ⟨⟨writeRtrimBitstring_unusedZero _ _, writeRtrimBitstring_lastBit _ _⟩,
      writeRtrimBitstring_unusedZero _ _, writeRtrimBitstring_lastBit _ _⟩

end Represents

theorem makeIPAddrOrRange_represents {af : Af} {n : Nat} (haf : af.addrLength = some n)
    {low high : List UInt8} (hlow : low.length = n) (hhigh : high.length = n)
    : (Bytes.decode low ≤ Bytes.decode high →
        ∃ item, makeIPAddrOrRange af low high = some item ∧ Represents n low high item) ∧
      (Bytes.decode high < Bytes.decode low → makeIPAddrOrRange af low high = none) := by
  have hn : n ≤ 18 := by
    cases af <;> simp [Af.addrLength] at haf <;> omega
  unfold makeIPAddrOrRange
  rw [haf]
  dsimp only
  rw [take_of_length_le hlow.le, take_of_length_le hhigh.le]
  have horder := Casn.memcmp_eq_gt_iff (hlow.trans hhigh.symm)
  refine ⟨fun hle => ?_, fun hlt => if_pos (horder.mpr hlt)⟩
  rw [if_neg (mt horder.mp (Nat.not_lt.mpr hle))]
  obtain rfl | ⟨_, _, _, _, _, rfl, rfl, hne, -⟩ :=
    makeIPAddrOrRange.eq_or_differ (hlow.trans hhigh.symm)
  . refine ⟨_, ?_, .equal hn hlow⟩
    rw [makeIPAddrOrRange.commonBytes_self, getElem?_length]
  . refine ⟨_, ?_, .ofDifferent hn hlow hhigh hne⟩
    rw [makeIPAddrOrRange.commonBytes_append_cons hne]
    simp

theorem makeIPAddrOrRange_represents_ten
    : (Bytes.decode [10, 0, 0, 0] ≤ Bytes.decode [10, 0, 5, 255] →
        ∃ item, makeIPAddrOrRange .inet [10, 0, 0, 0] [10, 0, 5, 255] = some item ∧
          Represents 4 [10, 0, 0, 0] [10, 0, 5, 255] item) ∧
      (Bytes.decode [10, 0, 5, 255] < Bytes.decode [10, 0, 0, 0] →
        makeIPAddrOrRange .inet [10, 0, 0, 0] [10, 0, 5, 255] = none) :=
  makeIPAddrOrRange_represents rfl rfl rfl

example : makeIPAddrOrRange .inet [10, 0, 0, 0] [10, 0, 5, 255]
    = some (.addressRange [1, 10] [1, 10, 0, 4]) := by
  decide

end Rpstir.Lta
