import Rpstir.Casn.Memcmp
import Rpstir.Data.ByteBits
import Rpstir.Data.List
import Rpstir.Data.Scan
import Rpstir.Lta.Lemmas.Ranges

/-!
This module contains the conversion of a line of text to a range, what such a line says, and the proof
that the conversion finds it where it succeeds. The function `inet_pton` is a parameter.
-/

namespace Rpstir.Lta

open List Option

open Scan Bytes

structure InetFamily where
  lth : Nat
  addrstrlen : Nat
  isAddress : Char → Bool
  pton : List Char → Option (FixedBytes lth)
  isAddress_false : ∀ c, isspace c = true ∨ c = '/' ∨ c = '-' → isAddress c = false
  pton_ne_nil : ∀ a x, pton a = some x → a ≠ []
  pton_isAddress : ∀ a x, pton a = some x → ∀ c ∈ a, isAddress c = true
  pton_length : ∀ a x, pton a = some x → a.length < addrstrlen

def isAddress4 (c : Char) : Bool :=
  isdigit c || c = '.'

def isAddress6 (c : Char) : Bool :=
  isxdigit c || c = ':' || c = '.'

/--
The function `inet_pton` for the two families. The text of an address has the characters of its family
and fits into the buffer that the C library has a constant for.
-/
structure Inet where
  pton4 : List Char → Option (FixedBytes 4)
  pton6 : List Char → Option (FixedBytes 16)
  text4 : ∀ a x, pton4 a = some x → a ≠ [] ∧ (∀ c ∈ a, isAddress4 c = true) ∧ a.length < 16
  text6 : ∀ a x, pton6 a = some x → a ≠ [] ∧ (∀ c ∈ a, isAddress6 c = true) ∧ a.length < 46

theorem isAddress6_of_isAddress4 {c : Char} (h : isAddress4 c = true) : isAddress6 c = true := by
  simp only [isAddress4, isAddress6, isxdigit, Bool.or_eq_true, decide_eq_true_eq] at h ⊢
  tauto

theorem isAddress6_false {c : Char} (h : isspace c = true ∨ c = '/' ∨ c = '-')
    : isAddress6 c = false := by
  rcases h with hspace | rfl | rfl
  . -- every character of an address comes behind the blank
    simp only [isspace, isAddress6, isxdigit, isdigit, Bool.or_eq_true, Bool.or_eq_false_iff,
      Bool.and_eq_true, Bool.and_eq_false_iff, decide_eq_true_eq, decide_eq_false_iff_not,
      Char.le_def, Char.ext_iff, UInt32.le_iff_toNat_le, ← UInt32.toNat_inj, Char.reduceVal,
      UInt32.reduceToNat] at hspace ⊢
    omega
  . rfl
  . rfl

variable (inet : Inet) (garbage : Nat) (typ : Typ) (skibuf : List Char)

def Inet.v4 : InetFamily where
  lth := 4
  addrstrlen := 16
  isAddress := isAddress4
  pton := inet.pton4
  isAddress_false := by
    intro c hc
    rw [Bool.eq_false_iff]
    intro haddress
    exact absurd (isAddress6_of_isAddress4 haddress) (Bool.eq_false_iff.mp (isAddress6_false hc))
  pton_ne_nil := fun a x h => (inet.text4 a x h).1
  pton_isAddress := fun a x h => (inet.text4 a x h).2.1
  pton_length := fun a x h => (inet.text4 a x h).2.2

def Inet.v6 : InetFamily where
  lth := 16
  addrstrlen := 46
  isAddress := isAddress6
  pton := inet.pton6
  isAddress_false := fun _ => isAddress6_false
  pton_ne_nil := fun a x h => (inet.text6 a x h).1
  pton_isAddress := fun a x h => (inet.text6 a x h).2.1
  pton_length := fun a x h => (inet.text6 a x h).2.2

namespace cvtv

def ipstr (f : InetFamily) (ip : List Char) : List Char :=
  (ip.take (f.addrstrlen - 1)).takeWhile f.isAddress

def fillBits (fill : UInt8) (buf : List UInt8) (prefixLen : Nat) : Option (List UInt8) :=
  let q := prefixLen / 8
  let r := prefixLen % 8
  let j := if r ≠ 0 then q + 1 else q
  if fill = 0x00 then
    let buf := if r ≠ 0 then buf.modify q fun b => UInt8.ofNat (b.toNat &&& (0xff <<< (8 - r))) else buf
    some (buf.take j ++ replicate (buf.length - j) 0x00)
  else if fill = 0xff then
    let buf := if r ≠ 0 then buf.modify q fun b => UInt8.ofNat (b.toNat ||| (0xff >>> r)) else buf
    some (buf.take j ++ replicate (buf.length - j) 0xff)
  else
    none

def cidr (lth : Nat) (fill : UInt8) (ipbin0 : List UInt8) (ip : List Char) : Option (List UInt8) :=
  match scanSize (ip.dropWhile isspace) with
  | none => none
  | some (prefixLen, ip) =>
    if lth * 8 < prefixLen then none
    else if ip.dropWhile isspace ≠ [] then none
    else fillBits fill ipbin0 prefixLen

def range (f : InetFamily) (fill : UInt8) (ipbin0 : List UInt8) (ip : List Char)
    : Option (List UInt8) :=
  let ip := ip.dropWhile isspace
  match f.pton (ipstr f ip) with
  | none => none
  | some ipbin1 =>
    if (ip.drop (ipstr f ip).length).dropWhile isspace ≠ [] then none
    else if Casn.memcmp ipbin0 ipbin1.val = .gt then none
    else if fill = 0x00 then some ipbin0
    else if fill = 0xff then some ipbin1.val
    else none

end cvtv

open cvtv in
def cvtv (f : InetFamily) (fill : UInt8) (ip : List Char) : Option (List UInt8) :=
  let ip := ip.dropWhile isspace
  match f.pton (ipstr f ip) with
  | none => none
  | some ipbin0 =>
    match (ip.drop (ipstr f ip).length).dropWhile isspace with
    | [] => some ipbin0.val
    | c :: ip =>
      if c = '/' then cidr f.lth fill ipbin0.val ip
      else if c = '-' then range f fill ipbin0.val ip
      else none

def cvtv4 (fill : UInt8) (ip : List Char) : Option (List UInt8) :=
  cvtv inet.v4 fill ip

def cvtv6 (fill : UInt8) (ip : List Char) : Option (List UInt8) :=
  cvtv inet.v6 fill ip

namespace txt2loc

def isblank (c : Char) : Bool :=
  c = ' ' || c = '\t'

def isGraph (c : Char) : Bool :=
  ' ' < c && c.toNat < 128

def cut : List Char :=
  match strchr '-' skibuf with
  | none => skibuf
  | some (a, _) => if a.getLast?.any isblank then a.rdropWhile isblank else skibuf

def behindDash : Option (List Char) :=
  (strchr '-' skibuf).map fun (_, b) => b.dropWhile isblank

/--
The limits of AS numbers. The variable that `sscanf` writes to is not initialized, and it keeps what the
shifts have left of the first number if there is no second one.
-/
def asLimits (d : Option (List Char)) : Lim × Lim :=
  let asNum := (scanLong skibuf).getD garbage
  let lolim := Lim.setLead 4 0 asNum
  match d with
  | none => (lolim, Lim.memcpy 4 (BitVec.allOnes 128) lolim)
  | some d => (lolim, Lim.setLead 4 (BitVec.allOnes 128) ((scanLong d).getD (asNum % 2 ^ 64 / 2 ^ 32)))

def ipLimits (cvt : UInt8 → List Char → Option (List UInt8)) (lth : Nat) (skibuf : List Char)
    (d : Option (List Char)) : Option (Lim × Lim) :=
  match cvt 0x00 skibuf, cvt 0xff (d.getD skibuf) with
  | some lo, some hi =>
    some (Lim.setLead lth 0 (decode lo), Lim.setLead lth (BitVec.allOnes 128) (decode hi))
  | _, _ => none

def limits (d : Option (List Char)) : Option (Lim × Lim) :=
  match typ with
  | .asnum =>
    if (skibuf.dropWhile fun c => c = '-' || isdigit c).head?.any isGraph then none
    else some (asLimits garbage skibuf d)
  | .ipv4 => ipLimits (cvtv4 inet) 4 skibuf d
  | .ipv6 => ipLimits (cvtv6 inet) 16 skibuf d
  | .terminator => none

end txt2loc

open txt2loc in
def txt2loc : Option IpRange :=
  (limits inet garbage typ (cut skibuf) (behindDash skibuf)).map fun (lolim, hilim) => ⟨typ, lolim, hilim⟩

def prefixInterval (width len x : Nat) : Span :=
  let low := x / 2 ^ (width - len) * 2 ^ (width - len)
  ⟨low, low + (2 ^ (width - len) - 1)⟩

def lineInterval (addr : List Char → Option Nat) (width : Option Nat) (line : List Char)
    : Option Span :=
  match strchr '-' line with
  | some (a, b) =>
    match addr (trim a), addr (trim b) with
    | some lo, some hi => some ⟨lo, hi⟩
    | _, _ => none
  | none =>
    match strchr '/' line with
    | some (a, b) =>
      match width, addr (trim a), decimal? (trim b) with
      | some width, some x, some len =>
        if len ≤ width then some (prefixInterval width len x) else none
      | _, _, _ => none
    | none => (addr (trim line)).map fun x => ⟨x, x⟩

def InetFamily.address (f : InetFamily) (text : List Char) : Option Nat :=
  (f.pton text).map fun x => decode x.val

def meaning (line : List Char) : Option Span :=
  match typ with
  | .ipv4 => lineInterval inet.v4.address (some 32) line
  | .ipv6 => lineInterval inet.v6.address (some 128) line
  | .asnum => lineInterval decimal? none line
  | .terminator => none

namespace cvtv

variable {f : InetFamily} {a b l r l' r' rest : List Char} {x y : FixedBytes f.lth} {fill : UInt8}

variable {buf : List UInt8}

theorem stops_isAddress (hr : Blanks r) {c : Char} (hc : c = '/' ∨ c = '-')
    (rest : List Char) : Stops f.isAddress (r ++ c :: rest) := by
  apply Stops.append
  . exact fun c hc => f.isAddress_false c (.inl (hr c hc))
  . exact .cons (f.isAddress_false c (.inr hc)) rest

theorem stops_isAddress_blanks (hr : Blanks r) : Stops f.isAddress r := by
  intro c hc
  exact f.isAddress_false c (.inl (hr c (mem_of_mem_head? hc)))

section

variable (ha : f.pton a = some x)

include ha

theorem ipstr_append (hrest : Stops f.isAddress rest)
    : ipstr f (a ++ rest) = a := by
  have hlength := f.pton_length a x ha
  rw [ipstr, take_append, take_of_length_le (by omega)]
  apply takeWhile_append (f.pton_isAddress a x ha)
  intro c hc
  cases rest with
  | nil => simp at hc
  | cons =>
    cases hn : f.addrstrlen - 1 - a.length with
    | zero => simp [hn] at hc
    | succ =>
      rw [hn] at hc
      exact hrest c hc

theorem dropWhile_address (hl : Blanks l) (rest : List Char)
    : (l ++ (a ++ rest)).dropWhile isspace = a ++ rest := by
  obtain ⟨c, _, rfl⟩ := exists_cons_of_ne_nil (f.pton_ne_nil a x ha)
  apply dropWhile_append hl
  apply Stops.cons
  rw [Bool.eq_false_iff]
  intro hspace
  have haddress := f.pton_isAddress _ x ha c mem_cons_self
  rw [f.isAddress_false c (.inl hspace)] at haddress
  cases haddress

theorem pton_ipstr (hl : Blanks l) (hrest : Stops f.isAddress rest)
    : (l ++ (a ++ rest)).dropWhile isspace = a ++ rest ∧ f.pton (ipstr f (a ++ rest)) = some x ∧
        (a ++ rest).drop (ipstr f (a ++ rest)).length = rest := by
  rw [ipstr_append ha hrest]
  exact ⟨dropWhile_address ha hl rest, ha, drop_left⟩

theorem cvtv_single (hl : Blanks l) (hr : Blanks r) : cvtv f fill (l ++ (a ++ r)) = some x.val := by
  obtain ⟨hdrop, hpton, hbehind⟩ := pton_ipstr ha hl (stops_isAddress_blanks hr)
  have hend : r.dropWhile isspace = [] := dropWhile_eq_nil_iff.mpr hr
  unfold cvtv
  dsimp only
  rw [hdrop, hpton, hbehind]
  rw [hend]

theorem cvtv_cidr {p : List Char} {len : Nat}
    (hp : decimal? p = some len) (hlen : len ≤ f.lth * 8) (hlth : f.lth ≤ 16)
    (hl : Blanks l) (hr : Blanks r)
    (hl' : Blanks l') (hr' : Blanks r')
    : cvtv f fill (l ++ (a ++ (r ++ '/' :: (l' ++ (p ++ r'))))) = fillBits fill x.val len := by
  obtain ⟨hdrop, hpton, hbehind⟩ := pton_ipstr ha hl (stops_isAddress hr (.inl rfl) (l' ++ (p ++ r')))
  have hslash : (r ++ '/' :: (l' ++ (p ++ r'))).dropWhile isspace = '/' :: (l' ++ (p ++ r')) :=
    dropWhile_append hr (.cons rfl _)
  have hscan : scanSize ((l' ++ (p ++ r')).dropWhile isspace) = some (len, r') :=
    scanSize_append hp (by omega) hl' (stops_isdigit hr')
  have hend : r'.dropWhile isspace = [] := dropWhile_eq_nil_iff.mpr hr'
  unfold cvtv
  dsimp only
  rw [hdrop, hpton, hbehind]
  rw [hslash]
  dsimp only
  rw [if_pos rfl, cidr, hscan]
  dsimp only
  rw [if_neg (by omega), hend, if_neg (by simp)]

theorem cvtv_range (hb : f.pton b = some y) (hl : Blanks l) (hr : Blanks r)
    (hl' : Blanks l') (hr' : Blanks r')
    (h : cvtv f 0x00 (l ++ (a ++ (r ++ '-' :: (l' ++ (b ++ r'))))) = some buf) : buf = x.val := by
  obtain ⟨hdrop, hpton, hbehind⟩ := pton_ipstr ha hl (stops_isAddress hr (.inr rfl) (l' ++ (b ++ r')))
  obtain ⟨hdrop', hpton', hbehind'⟩ := pton_ipstr hb hl' (stops_isAddress_blanks hr')
  have hdash : (r ++ '-' :: (l' ++ (b ++ r'))).dropWhile isspace = '-' :: (l' ++ (b ++ r')) :=
    dropWhile_append hr (.cons rfl _)
  have hend : r'.dropWhile isspace = [] := dropWhile_eq_nil_iff.mpr hr'
  unfold cvtv at h
  dsimp only at h
  rw [hdrop, hpton, hbehind] at h
  rw [hdash] at h
  dsimp only at h
  rw [if_neg (by decide), if_pos rfl, range] at h
  rw [hdrop', hpton', hbehind'] at h
  dsimp only at h
  rw [hend, if_neg (by simp)] at h
  split at h
  . cases h
  . rw [if_pos rfl] at h
    cases h
    rfl

end

variable {len : Nat}

theorem fillBits_of_mod (hlen : len ≤ 8 * buf.length) (hr : len % 8 = 0)
    : ∃ lo hi, fillBits 0x00 buf len = some lo ∧ fillBits 0xff buf len = some hi ∧
        (⟨decode lo, decode hi⟩ : Span) = prefixInterval (8 * buf.length) len (decode buf) := by
  refine ⟨_, _, by simp [fillBits, hr]; rfl, by simp [fillBits, hr]; rfl, ?_⟩
  have hlength : (buf.drop (len / 8)).length = buf.length - len / 8 := length_drop
  have hwidth : 8 * buf.length - len = 0 + 8 * (buf.drop (len / 8)).length := by omega
  have hclear := @decode_clear (buf.take (len / 8)) _ (buf.drop (len / 8)) 0 (by simp; rfl)
  have hset := @decode_set (buf.take (len / 8)) _ (buf.drop (len / 8)) 0 (by simp; rfl)
  rw [take_append_drop] at hclear hset
  rw [prefixInterval, hwidth, ← hlength, hclear, hset]

theorem shiftRight_eq {n : Nat} (hn : n < 8) : 0xff >>> n = 2 ^ (8 - n) - 1 := by
  have hall : ∀ n < 8, 0xff >>> n = 2 ^ (8 - n) - 1 := by decide
  exact hall n hn

theorem fillBits_of_not_mod (front tail : List UInt8) (b : UInt8) {r : Nat} (hr : r < 8) (hpos : 0 < r)
    : ∃ lo hi, fillBits 0x00 (front ++ [b] ++ tail) (8 * front.length + r) = some lo ∧
        fillBits 0xff (front ++ [b] ++ tail) (8 * front.length + r) = some hi ∧
        (⟨decode lo, decode hi⟩ : Span)
          =
        prefixInterval (8 * (front ++ [b] ++ tail).length) (8 * front.length + r)
          (decode (front ++ [b] ++ tail)) := by
  have hq : (8 * front.length + r) / 8 = front.length := by omega
  have hmod : (8 * front.length + r) % 8 = r := by omega
  have htake (b' : UInt8) : (front ++ [b'] ++ tail).take (front.length + 1) = front ++ [b'] :=
    take_left' (by simp)
  have hrest (b' : UInt8) : (front ++ [b'] ++ tail).length - (front.length + 1) = tail.length := by
    simp only [length_append, length_singleton]
    omega
  refine ⟨front ++ [UInt8.ofNat (b.toNat &&& (0xff <<< (8 - r)))] ++ replicate tail.length 0x00,
    front ++ [UInt8.ofNat (b.toNat ||| (0xff >>> r))] ++ replicate tail.length 0xff, ?_, ?_, ?_⟩
  . simp only [fillBits, hq, hmod, ne_eq, Nat.ne_of_gt hpos, not_false_eq_true, if_true,
      modify_length_append, htake, hrest]
  . simp only [fillBits, hq, hmod, ne_eq, Nat.ne_of_gt hpos, not_false_eq_true, if_true,
      modify_length_append, htake, hrest]
    rfl
  have hwidth : 8 * (front ++ [b] ++ tail).length - (8 * front.length + r)
      = (8 - r) + 8 * tail.length := by
    simp only [length_append, length_singleton]
    omega
  rw [prefixInterval, hwidth, decode_clear, decode_set]
  . rw [decode_concat, decode_concat, shiftRight_eq hr, ByteBits.toNat_set _ (by omega),
      ByteBits.div_mul_concat _ _ (by omega), Nat.add_assoc]
  . rw [decode_concat, decode_concat, ByteBits.toNat_clear, ByteBits.div_mul_concat _ _ (by omega)]

theorem fillBits_spec (hlen : len ≤ 8 * buf.length)
    : ∃ lo hi, fillBits 0x00 buf len = some lo ∧ fillBits 0xff buf len = some hi ∧
        (⟨decode lo, decode hi⟩ : Span) = prefixInterval (8 * buf.length) len (decode buf) := by
  by_cases hr : len % 8 = 0
  . exact fillBits_of_mod hlen hr
  have hq : len / 8 < buf.length := by omega
  have hbuf : buf.take (len / 8) ++ [buf[len / 8]] ++ buf.drop (len / 8 + 1) = buf := by
    rw [append_assoc, singleton_append, ← drop_eq_getElem_cons hq,
      take_append_drop]
  have hlength : (buf.take (len / 8)).length = len / 8 := length_take_of_le (by omega)
  have hsplit : 8 * (buf.take (len / 8)).length + len % 8 = len := by omega
  have hfill := fillBits_of_not_mod (buf.take (len / 8)) (buf.drop (len / 8 + 1)) buf[len / 8]
    (show len % 8 < 8 by omega) (by omega)
  rw [hbuf, hsplit] at hfill
  exact hfill

theorem length_fillBits {buf buf' : List UInt8} (hlen : len ≤ buf.length * 8)
    (h : fillBits fill buf len = some buf') : buf'.length = buf.length := by
  unfold fillBits at h
  split at h
  . cases h
    split <;> simp <;> omega
  . split at h
    . cases h
      split <;> simp <;> omega
    . cases h

variable {ip : List Char}

theorem length_cidr (h : cidr f.lth fill x.val ip = some buf) : buf.length = f.lth := by
  unfold cidr at h
  split at h
  . cases h
  split at h
  . cases h
  next hlen =>
  split at h
  . cases h
  . have hx := x.property
    rw [length_fillBits (by omega) h, hx]

theorem length_range (h : range f fill x.val ip = some buf) : buf.length = f.lth := by
  unfold range at h
  dsimp only at h
  split at h
  . cases h
  next y _ =>
  split at h
  . cases h
  split at h
  . cases h
  split at h
  . cases h
    exact x.property
  . split at h
    . cases h
      exact y.property
    . cases h

theorem length_cvtv (h : cvtv f fill ip = some buf) : buf.length = f.lth := by
  unfold cvtv at h
  dsimp only at h
  split at h
  . cases h
  next x _ =>
  split at h
  . cases h
    exact x.property
  split at h
  . exact length_cidr h
  . split at h
    . exact length_range h
    . cases h

end cvtv

variable {i : Span} {typ : Typ}

namespace txt2loc

structure Word (a : List Char) : Prop where
  ne_nil : a ≠ []
  isspace_false : ∀ c ∈ a, isspace c = false

variable {a b : List Char}

theorem Word.of_pton {f : InetFamily} {x : FixedBytes f.lth} (h : f.pton a = some x)
    : Word a where
  ne_nil := f.pton_ne_nil a x h
  isspace_false := by
    intro c hc
    rw [Bool.eq_false_iff]
    intro hspace
    have haddress := f.pton_isAddress a x h c hc
    rw [f.isAddress_false c (.inl hspace)] at haddress
    cases haddress

theorem Word.of_decimal? {n : Nat} (h : decimal? a = some n) : Word a := by
  obtain ⟨d, digits, ha, hdigits, -⟩ := exists_of_decimal? h
  have hword : Word (d :: digits) :=
    ⟨cons_ne_nil _ _, fun c hc => not_isspace_of_isdigit (hdigits c hc)⟩
  cases ha with
  | inl ha =>
    rw [ha]
    exact hword
  | inr ha =>
    rw [ha]
    refine ⟨cons_ne_nil _ _, fun c hc => ?_⟩
    cases mem_cons.mp hc with
    | inl heq =>
      rw [heq]
      rfl
    | inr hmem => exact hword.isspace_false c hmem

theorem isspace_of_isblank {c : Char} (h : isblank c = true) : isspace c = true := by
  simp only [isblank, Bool.or_eq_true, decide_eq_true_eq] at h
  rcases h with rfl | rfl <;> rfl

variable {a l r : List Char}

theorem rdropWhile_isblank (ha : Word a) (hr : Blanks r)
    : ∃ r1, (l ++ (a ++ r)).rdropWhile isblank = l ++ (a ++ r1) ∧ Blanks r1 := by
  induction r using reverseRecOn with
  | nil =>
    refine ⟨[], ?_, forall_mem_nil _⟩
    rw [append_nil, rdropWhile_eq_self_iff]
    intro hne hblank
    have hlast : (l ++ a).getLast hne ∈ a := by
      rw [getLast_append_of_ne_nil _ ha.ne_nil]
      exact getLast_mem ha.ne_nil
    have hspace := isspace_of_isblank hblank
    rw [ha.isspace_false _ hlast] at hspace
    cases hspace
  | append_singleton r c ih =>
    have hassoc : l ++ (a ++ (r ++ [c])) = (l ++ (a ++ r)) ++ [c] := by simp
    by_cases hc : isblank c = true
    . rw [hassoc, rdropWhile_concat_pos _ _ _ hc]
      exact ih fun c hc => hr c (mem_append_left _ hc)
    . rw [hassoc, rdropWhile_concat_neg _ _ _ hc, ← hassoc]
      exact ⟨r ++ [c], rfl, hr⟩

theorem dropWhile_isblank (ha : Word a) (hl : Blanks l)
    : ∃ l1, (l ++ (a ++ r)).dropWhile isblank = l1 ++ (a ++ r) ∧ Blanks l1 := by
  induction l with
  | nil =>
    obtain ⟨c, _, rfl⟩ := exists_cons_of_ne_nil ha.ne_nil
    refine ⟨[], ?_, forall_mem_nil _⟩
    have hc : isblank c = false := by
      rw [Bool.eq_false_iff]
      intro hblank
      have hspace := isspace_of_isblank hblank
      rw [ha.isspace_false c mem_cons_self] at hspace
      cases hspace
    simp [hc]
  | cons c l ih =>
    rw [cons_append, dropWhile_cons]
    split
    . exact ih fun c hc => hl c (mem_cons_of_mem _ hc)
    . exact ⟨c :: l, rfl, hl⟩

theorem exists_of_dash {line : List Char} (h : strchr '-' line = some (a, b)) (ha : Word (trim a))
    (hb : Word (trim b))
    : ∃ l r l' r' l1, (Blanks l ∧ Blanks r ∧ Blanks l' ∧ Blanks r' ∧ Blanks l1) ∧
        behindDash line = some (l1 ++ (trim b ++ r')) ∧
        (cut line = l ++ (trim a ++ (r ++ '-' :: (l' ++ (trim b ++ r')))) ∨
          ∃ r1, cut line = l ++ (trim a ++ r1) ∧ Blanks r1) := by
  obtain ⟨l, r, ha', hl, hr⟩ := exists_trim a
  obtain ⟨l', r', hb', hl', hr'⟩ := exists_trim b
  obtain ⟨l1, hdrop, hl1⟩ := @dropWhile_isblank _ l' r' hb hl'
  obtain ⟨r1, hrdrop, hr1⟩ := @rdropWhile_isblank _ l r ha hr
  refine ⟨l, r, l', r', l1, ⟨hl, hr, hl', hr', hl1⟩, ?_, ?_⟩
  . rw [behindDash, h, ← hdrop, ← hb']
    rfl
  rw [cut, h]
  dsimp only
  split
  . right
    rw [← ha'] at hrdrop
    exact ⟨r1, hrdrop, hr1⟩
  . left
    rw [append_of_strchr h]
    nth_rewrite 1 [ha', hb']
    simp only [append_assoc]

section

variable {f : InetFamily} {line b : List Char} {x y : FixedBytes f.lth} {lims : Lim × Lim} {lth : Nat}

variable {d : Option (List Char)} {skibuf : List Char} {buf lo hi : List UInt8}

theorem exists_of_ipLimits {cvt : UInt8 → List Char → Option (List UInt8)}
    (h : ipLimits cvt lth skibuf d = some lims)
    : ∃ lo hi, cvt 0x00 skibuf = some lo ∧ cvt 0xff (d.getD skibuf) = some hi ∧
        lims = (Lim.setLead lth 0 (decode lo), Lim.setLead lth (BitVec.allOnes 128) (decode hi)) := by
  unfold ipLimits at h
  split at h
  . next lo hi hlo hhi =>
    cases h
    exact ⟨lo, hi, hlo, hhi, rfl⟩
  . cases h

theorem lead_setLead_decode (hlth : lth ≤ 16) (hbuf : buf.length = lth) (lim : Lim)
    : (lim.setLead lth (decode buf)).lead lth = decode buf := by
  have hlt := decode_lt buf
  rw [Lim.lead_setLead hlth, Nat.mod_eq_of_lt]
  rw [Nat.pow_mul, ← hbuf]
  exact hlt

theorem interval_ipLimits (hlth : f.lth ≤ 16) (h : ipLimits (cvtv f) f.lth skibuf d = some lims)
    : ∃ lo hi, cvtv f 0x00 skibuf = some lo ∧ cvtv f 0xff (d.getD skibuf) = some hi ∧
        (⟨lims.1.lead f.lth, lims.2.lead f.lth⟩ : Span) = ⟨decode lo, decode hi⟩ := by
  obtain ⟨lo, hi, hlo, hhi, rfl⟩ := exists_of_ipLimits h
  refine ⟨lo, hi, hlo, hhi, ?_⟩
  rw [lead_setLead_decode hlth (cvtv.length_cvtv hlo), lead_setLead_decode hlth (cvtv.length_cvtv hhi)]

theorem cvtv_dash (h : strchr '-' line = some (a, b)) (hx : f.pton (trim a) = some x)
    (hy : f.pton (trim b) = some y) (hlo : cvtv f 0x00 (cut line) = some lo)
    (hhi : cvtv f 0xff ((behindDash line).getD (cut line)) = some hi) : lo = x.val ∧ hi = y.val := by
  obtain ⟨_, _, _, _, _, ⟨hl, hr, hl', hr', hl1⟩, hbehind, hcut⟩ :=
    exists_of_dash h (.of_pton hx) (.of_pton hy)
  rw [hbehind, getD_some, cvtv.cvtv_single hy hl1 hr'] at hhi
  constructor
  . rcases hcut with hcut | ⟨_, hcut, hr1⟩
    . rw [hcut] at hlo
      exact cvtv.cvtv_range hx hy hl hr hl' hr' hlo
    . rw [hcut, cvtv.cvtv_single hx hl hr1] at hlo
      cases hlo
      rfl
  . cases hhi
    rfl

theorem cvtv_slash (hlth : f.lth ≤ 16) (h : strchr '/' line = some (a, b))
    (hx : f.pton (trim a) = some x) {len : Nat} (hlen : decimal? (trim b) = some len)
    (hle : len ≤ 8 * f.lth) (hlo : cvtv f 0x00 line = some lo) (hhi : cvtv f 0xff line = some hi)
    : (⟨decode lo, decode hi⟩ : Span) = prefixInterval (8 * f.lth) len (decode x.val) := by
  obtain ⟨l, r, ha, hl, hr⟩ := exists_trim a
  obtain ⟨l', r', hb, hl', hr'⟩ := exists_trim b
  have hsplit : line = l ++ (trim a ++ (r ++ '/' :: (l' ++ (trim b ++ r')))) := by
    rw [append_of_strchr h]
    nth_rewrite 1 [ha, hb]
    simp only [append_assoc]
  have hx' : x.val.length = f.lth := x.property
  obtain ⟨_, _, hlo', hhi', heq⟩ := cvtv.fillBits_spec (show len ≤ 8 * x.val.length by omega)
  rw [hsplit, cvtv.cvtv_cidr hx hlen (by omega) hlth hl hr hl' hr'] at hlo hhi
  rw [hlo'] at hlo
  rw [hhi'] at hhi
  cases hlo
  cases hhi
  rw [heq, hx']

theorem cvtv_trim (hx : f.pton (trim line) = some x) (fill : UInt8)
    : cvtv f fill line = some x.val := by
  obtain ⟨_, _, hsplit, hl, hr⟩ := exists_trim line
  rw [hsplit, cvtv.cvtv_single hx hl hr]

theorem cut_eq (h : strchr '-' line = none) : cut line = line := by
  rw [cut, h]

theorem behindDash_eq (h : strchr '-' line = none) : behindDash line = none := by
  rw [behindDash, h, map_none]

theorem ipLimits_lineInterval (hlth : f.lth ≤ 16)
    (hline : lineInterval f.address (some (8 * f.lth)) line = some i)
    (h : ipLimits (cvtv f) f.lth (cut line) (behindDash line) = some lims)
    : (⟨lims.1.lead f.lth, lims.2.lead f.lth⟩ : Span) = i := by
  obtain ⟨_, _, hlo, hhi, hlims⟩ := interval_ipLimits hlth h
  rw [hlims]
  unfold lineInterval at hline
  split at hline
  . next a b hdash =>
    split at hline
    . next n m hn hm =>
      obtain ⟨x, hx, rfl⟩ := map_eq_some_iff.mp hn
      obtain ⟨_, hy, rfl⟩ := map_eq_some_iff.mp hm
      obtain ⟨rfl, rfl⟩ := cvtv_dash hdash hx hy hlo hhi
      cases hline
      rfl
    . cases hline
  next hdash =>
  rw [behindDash_eq hdash, getD_none, cut_eq hdash] at hhi
  rw [cut_eq hdash] at hlo
  split at hline
  . next a b hslash =>
    split at hline
    . next n len hwidth hn hlen =>
      cases hwidth
      obtain ⟨x, hx, rfl⟩ := map_eq_some_iff.mp hn
      split at hline
      . next hle =>
        cases hline
        exact cvtv_slash hlth hslash hx hlen hle hlo hhi
      . cases hline
    . cases hline
  obtain ⟨n, hn, rfl⟩ := map_eq_some_iff.mp hline
  obtain ⟨x, hx, rfl⟩ := map_eq_some_iff.mp hn
  rw [cvtv_trim hx] at hlo hhi
  cases hlo
  cases hhi
  rfl

end

section

variable {line b : List Char} {garbage n m : Nat}

theorem scanLong_trim (h : decimal? (trim line) = some n) (hn : n < 2 ^ 32)
    : scanLong line = some n := by
  obtain ⟨_, _, hsplit, hl, hr⟩ := exists_trim line
  rw [hsplit]
  exact scanLong_append h (by omega) hl (stops_isdigit hr)

theorem scanLong_dash (h : strchr '-' line = some (a, b)) (ha : decimal? (trim a) = some n)
    (hb : decimal? (trim b) = some m) (hn : n < 2 ^ 32) (hm : m < 2 ^ 32)
    : scanLong (cut line) = some n ∧ ∃ d, behindDash line = some d ∧ scanLong d = some m := by
  obtain ⟨_, _, _, _, _, ⟨hl, hr, _, hr', hl1⟩, hbehind, hcut⟩ :=
    exists_of_dash h (.of_decimal? ha) (.of_decimal? hb)
  refine ⟨?_, _, hbehind, scanLong_append hb (by omega) hl1 (stops_isdigit hr')⟩
  rcases hcut with hcut | ⟨_, hcut, hr1⟩
  . rw [hcut]
    apply scanLong_append ha (by omega) hl
    exact .append (fun c hc => not_isdigit_of_isspace (hr c hc)) (.cons rfl _)
  . rw [hcut]
    exact scanLong_append ha (by omega) hl (stops_isdigit hr1)

theorem asLimits_lineInterval (hline : lineInterval decimal? none line = some i)
    (hlo : i.lo < 2 ^ 32) (hhi : i.hi < 2 ^ 32)
    : (⟨(asLimits garbage (cut line) (behindDash line)).1.lead 4,
        (asLimits garbage (cut line) (behindDash line)).2.lead 4⟩ : Span) = i := by
  unfold lineInterval at hline
  split at hline
  . next hdash =>
    split at hline
    . next n m hn hm =>
      cases hline
      obtain ⟨hscan, _, hbehind, hscan'⟩ := scanLong_dash hdash hn hm hlo hhi
      simp only [asLimits, hscan, hbehind, hscan', getD_some]
      rw [Lim.lead_setLead (by decide), Lim.lead_setLead (by decide), Nat.mod_eq_of_lt hlo,
        Nat.mod_eq_of_lt hhi]
    . cases hline
  next hdash =>
  split at hline
  . split at hline
    . next hwidth _ _ => cases hwidth
    . cases hline
  . obtain ⟨n, hn, rfl⟩ := map_eq_some_iff.mp hline
    simp only [asLimits, cut_eq hdash, behindDash_eq hdash, scanLong_trim hn hlo, getD_some]
    rw [Lim.lead_memcpy (by decide), Lim.lead_setLead (by decide), Nat.mod_eq_of_lt hlo]

end

end txt2loc

variable {inet : Inet} {r : IpRange} {line : List Char} {garbage : Nat}

theorem typ_of_txt2loc (h : txt2loc inet garbage typ line = some r) : r.typ = typ := by
  obtain ⟨_, -, rfl⟩ := map_eq_some_iff.mp h
  rfl

theorem txt2loc.exists_of_asLimits (garbage : Nat) (skibuf : List Char) (d : Option (List Char))
    : ∃ m n, asLimits garbage skibuf d
        = (Lim.setLead 4 0 m, Lim.setLead 4 (BitVec.allOnes 128) n) := by
  cases d with
  | none
  | some => exact ⟨_, _, rfl⟩

theorem toNat_of_txt2loc (h : txt2loc inet garbage .asnum line = some r)
    : r.lolim.toNat = r.lolim.lead 4 * 2 ^ 96 ∧
        r.hilim.toNat = r.hilim.lead 4 * 2 ^ 96 + (2 ^ 96 - 1) := by
  obtain ⟨_, hlims, rfl⟩ := map_eq_some_iff.mp h
  have hzero : (0 : Lim).toNat % 2 ^ (8 * (16 - 4)) = 0 := by decide
  have hones : (BitVec.allOnes 128).toNat % 2 ^ (8 * (16 - 4)) = 2 ^ 96 - 1 := by decide
  simp only [txt2loc.limits] at hlims
  split at hlims
  . cases hlims
  obtain ⟨_, _, heq⟩ := txt2loc.exists_of_asLimits garbage (txt2loc.cut line) (txt2loc.behindDash line)
  rw [heq] at hlims
  cases hlims
  rw [Lim.toNat_setLead (by decide), Lim.toNat_setLead (by decide), Lim.lead_setLead (by decide),
    Lim.lead_setLead (by decide), hzero, hones]
  exact ⟨Nat.add_zero _, rfl⟩

theorem txt2loc_meaning (h : txt2loc inet garbage typ line = some r)
    (hline : meaning inet typ line = some i) (hlo : i.lo < 2 ^ (8 * typLth typ))
    (hhi : i.hi < 2 ^ (8 * typLth typ)) : r.interval (typLth typ) = i := by
  obtain ⟨_, hlims, rfl⟩ := map_eq_some_iff.mp h
  cases typ with
  | ipv4 => exact txt2loc.ipLimits_lineInterval (f := inet.v4) (show 4 ≤ 16 by decide) hline hlims
  | ipv6 => exact txt2loc.ipLimits_lineInterval (f := inet.v6) (Nat.le_refl 16) hline hlims
  | asnum =>
    simp only [txt2loc.limits] at hlims
    split at hlims
    . cases hlims
    . cases hlims
      exact txt2loc.asLimits_lineInterval hline hlo hhi
  | terminator => cases hline

end Rpstir.Lta
