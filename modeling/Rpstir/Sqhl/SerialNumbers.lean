import Mathlib.Data.Nat.Size
import Rpstir.Data.Bytes
import Rpstir.Sqhl.Names

/-!
This module contains the way of a serial number into the columns `sn` and `snlist`. A `BIGNUM` is an
integer.
-/

namespace Rpstir.Sqhl

open List Option
namespace SerialNumbers

open Garbage (mysqlEscapeString)
open Names (fitColumn hexChars insertField isXDigit quoteValue readValue xdigit)

inductive SerialErr where
  | badSerNum
  | noSn
  deriving DecidableEq, Repr

def rescertSerialNumberChk (sernum : List UInt8) : Except SerialErr Unit :=
  if sernum.length > serNumMaxSz then
    .error .badSerNum
  else if sernum.headD 0 &&& 0x80 ≠ 0 then
    .error .badSerNum
  else if sernum.all (· = 0) then
    .error .badSerNum
  else
    .ok ()

def asn1IntegerToBN (contents : List UInt8) : Int :=
  if contents.headD 0 &&& 0x80 ≠ 0 then
    Bytes.decode contents - 256 ^ contents.length
  else
    Bytes.decode contents

def bnNumBits (bn : Int) : Nat :=
  bn.natAbs.size

def bnNumBytes (bn : Int) : Nat :=
  (bnNumBits bn + 7) / 8

def bnBn2bin (bn : Int) : List UInt8 :=
  Bytes.encode (bnNumBytes bn) bn.natAbs

def upperDigits : List Char :=
  "0123456789ABCDEF".toList

def lowerDigits : List Char :=
  "0123456789abcdef".toList

def hexByte (digits : List Char) (b : UInt8) : List Char :=
  [digits.getD (b.toNat / 16) '0', digits.getD (b.toNat % 16) '0']

def bnBn2hex (bn : Int) : List Char :=
  if bn = 0 then
    ['0']
  else
    (if bn < 0 then ['-'] else []) ++ (bnBn2bin bn).flatMap (hexByte upperDigits)

def cfGetSn (serialNumber : List UInt8) : Except SerialErr String :=
  let ptr := bnBn2hex (asn1IntegerToBN serialNumber)
  if ptr.length > 2 * serNumMaxSz then
    .error .badSerNum
  else
    .ok (String.ofList ('^' :: 'x' :: replicate (2 * serNumMaxSz - ptr.length) '0' ++ ptr))

structure CrlSerials where
  snlen : Nat
  snlist : List UInt8
  deriving DecidableEq, Repr

namespace crl2fields

def accepts (bn : Int) : Bool :=
  bnNumBits bn < serNumMaxSz * 8 && bn != 0 && !(bn < 0)

def loop : List (Option (List UInt8)) → CrlSerials → Except SerialErr CrlSerials
  | [], cf => .ok cf
  | none :: _, _ => .error .noSn
  | some serialNumber :: rev, cf =>
    let bn := asn1IntegerToBN serialNumber
    if accepts bn then
      loop rev
        { snlen := cf.snlen + 1
          snlist := cf.snlist ++ replicate (serNumMaxSz - bnNumBytes bn) 0 ++ bnBn2bin bn }
    else
      loop rev cf

end crl2fields

def crl2fields (rev : List (Option (List UInt8))) : Except SerialErr CrlSerials := do
  let cf ← crl2fields.loop rev { snlen := 0, snlist := [] }
  return { cf with
    snlist := cf.snlist ++ replicate (rev.length * serNumMaxSz - cf.snlist.length) 0 }

namespace CrlSerials

def entry (cf : CrlSerials) (i : Nat) : List UInt8 :=
  (cf.snlist.drop (serNumMaxSz * i)).take serNumMaxSz

def entries (cf : CrlSerials) : List (List UInt8) :=
  (List.range cf.snlen).map cf.entry

end CrlSerials

def hexify (bytes : List UInt8) : String :=
  String.ofList ('^' :: 'x' :: (if bytes = [] then ['0'] else bytes.flatMap (hexByte lowerDigits)))

def insertSnlist (strict : Bool) (cf : CrlSerials) : Except Err String := do
  let quoted ← quoteValue (hexify (cf.snlist.take (cf.snlen * serNumMaxSz)))
  let value ← ((readValue quoted).bind (fitColumn strict (2 ^ 24 - 1))).elim (.error .sql) .ok
  return String.ofList value

def chars (bytes : List UInt8) : String :=
  String.ofList (bytes.map fun b => Char.ofNat b.toNat)

variable {sernum serialNumber l l' : List UInt8} {bn m n : Int}

theorem chars_inj : chars l = chars l' ↔ l = l' := by
  have hinj : Function.Injective fun b : UInt8 => Char.ofNat b.toNat := by
    intro _ b h
    have htoNat (b : UInt8) : (Char.ofNat b.toNat).toNat = b.toNat := by
      have hb := b.toNat_lt
      have hvalid : b.toNat.isValidChar := .inl (by omega)
      rw [Char.ofNat, dif_pos hvalid]
      rfl
    have hnat := congrArg Char.toNat h
    rw [htoNat, htoNat] at hnat
    exact UInt8.toNat_inj.mp hnat
  rw [chars, chars, String.ofList_inj]
  exact (map_injective_iff.mpr hinj).eq_iff

structure IsHexTable (digits : List Char) : Prop where
  isXDigit : ∀ n < 16, isXDigit (digits.getD n '0')
  xdigit : ∀ n < 16, xdigit (digits.getD n '0') = n

theorem isHexTable_upperDigits : IsHexTable upperDigits where
  isXDigit := by decide
  xdigit := by decide

theorem isHexTable_lowerDigits : IsHexTable lowerDigits where
  isXDigit := by decide
  xdigit := by decide

namespace IsHexTable

variable {digits : List Char} (h : IsHexTable digits)
include h

theorem hexChars_flatMap (bytes : List UInt8)
    : hexChars (bytes.flatMap (hexByte digits)) = bytes.map fun b => Char.ofNat b.toNat := by
  induction bytes with
  | nil => rfl
  | cons b bytes ih =>
    have hb := b.toNat_lt
    rw [flatMap_cons, hexByte, cons_append, cons_append, nil_append, hexChars,
      ih, h.xdigit _ (by omega), h.xdigit _ (by omega), map_cons, Nat.div_add_mod]

theorem all_isXDigit (bytes : List UInt8)
    : (bytes.flatMap (hexByte digits)).all Names.isXDigit = true := by
  rw [List.all_eq_true]
  intro _ hc
  obtain ⟨b, -, hc⟩ := mem_flatMap.mp hc
  have hb := b.toNat_lt
  rw [hexByte, mem_cons, mem_singleton] at hc
  rcases hc with rfl | rfl
  . exact h.isXDigit _ (by omega)
  . exact h.isXDigit _ (by omega)

end IsHexTable

theorem length_flatMap_hexByte (digits : List Char) (bytes : List UInt8)
    : (bytes.flatMap (hexByte digits)).length = 2 * bytes.length := by
  induction bytes with
  | nil => rfl
  | cons _ bytes ih =>
    rw [flatMap_cons, length_append, ih, hexByte, length_cons, length_cons,
      length_nil, length_cons]
    omega

section

variable {digits : List Char} (h : IsHexTable digits)
include h

theorem quoteValue_hex (bytes : List UInt8)
    : quoteValue (String.ofList ('^' :: 'x' :: bytes.flatMap (hexByte digits)))
        =
      .ok ('0' :: 'x' :: bytes.flatMap (hexByte digits)) := by
  rw [quoteValue, String.toList_ofList, if_pos (by simp), drop_succ_cons, drop_succ_cons,
    drop_zero, if_pos (h.all_isXDigit bytes), drop_succ_cons, drop_zero]

variable {bytes : List UInt8}

theorem readValue_hex (hne : bytes ≠ [])
    : readValue ('0' :: 'x' :: bytes.flatMap (hexByte digits))
        =
      some (bytes.map fun b => Char.ofNat b.toNat) := by
  have hlength := length_flatMap_hexByte digits bytes
  have hpos := length_pos_iff.mpr hne
  have hnil : bytes.flatMap (hexByte digits) ≠ [] := by
    intro hnil
    rw [hnil, length_nil] at hlength
    omega
  rw [readValue, if_pos (by simp)]
  simp only [drop_succ_cons, drop_zero]
  rw [if_neg hnil, if_neg (by omega), h.hexChars_flatMap]

theorem mysqlEscapeString_hex (bytes : List UInt8)
    : mysqlEscapeString (String.ofList ('^' :: 'x' :: bytes.flatMap (hexByte digits)))
        =
      String.ofList ('^' :: 'x' :: bytes.flatMap (hexByte digits)) := by
  apply Names.mysqlEscapeString_eq_self
  intro c hc
  rw [String.toList_ofList, mem_cons, mem_cons] at hc
  rcases hc with rfl | rfl | hc
  . decide
  . decide
  . have hdigit := List.all_eq_true.mp (h.all_isXDigit bytes) c hc
    intro hspecial
    simp only [Names.specials, mem_cons, not_mem_nil, or_false] at hspecial
    rcases hspecial with rfl | rfl | rfl | rfl | rfl | rfl | rfl <;> exact absurd hdigit (by decide)

theorem insertField_hex (strict : Bool) {size : Nat} (hne : bytes ≠ [])
    (hsize : bytes.length ≤ size)
    : insertField strict size (String.ofList ('^' :: 'x' :: bytes.flatMap (hexByte digits)))
        =
      .ok (chars bytes) := by
  have hquote := quoteValue_hex h bytes
  rw [← mysqlEscapeString_hex h bytes] at hquote
  rw [Names.insertField_eq hquote (readValue_hex h hne), fitColumn,
    if_pos (by simpa using hsize)]
  rfl

end

def InRange (bn : Int) : Prop :=
  0 < bn ∧ bn < 2 ^ 159

theorem accepts_iff : crl2fields.accepts bn = true ↔ InRange bn := by
  have hbits : bnNumBits bn < serNumMaxSz * 8 ↔ bn.natAbs < 2 ^ 159 := by
    rw [bnNumBits, ← Nat.size_le, serNumMaxSz]
    omega
  simp only [crl2fields.accepts, InRange, Bool.and_eq_true, decide_eq_true_eq, bne_iff_ne, ne_eq,
    Bool.not_eq_true', decide_eq_false_iff_not, hbits]
  omega

theorem inRange_of_rescertSerialNumberChk (h : rescertSerialNumberChk sernum = .ok ())
    : InRange (asn1IntegerToBN sernum) := by
  rw [rescertSerialNumberChk] at h
  split at h
  next => cases h
  next hlength =>
    split at h
    next => cases h
    next hsign =>
      split at h
      next => cases h
      next hzero =>
        rw [asn1IntegerToBN, if_neg hsign]
        have hpos : Bytes.decode sernum ≠ 0 := by
          rw [ne_eq, Bytes.decode_eq_zero_iff]
          simpa using hzero
        have hlt : Bytes.decode sernum < 2 ^ 159 := by
          cases sernum with
          | nil => simp
          | cons b rest =>
            have hb := Bytes.and_sign_eq_zero_iff.mp (not_not.mp hsign)
            have hrest := Bytes.decode_lt rest
            have hpow : 256 ^ rest.length ≤ 256 ^ 19 := by
              apply Nat.pow_le_pow_right (by omega)
              rw [length_cons, serNumMaxSz] at hlength
              omega
            calc Bytes.decode (b :: rest)
                = b.toNat * 256 ^ rest.length + Bytes.decode rest := Bytes.decode_cons b rest
              _ < (b.toNat + 1) * 256 ^ rest.length := by
                rw [Nat.add_mul]
                omega
              _ ≤ 2 ^ 7 * 256 ^ 19 := Nat.mul_le_mul hb hpow
              _ = 2 ^ 159 := by norm_num
        rw [InRange]
        omega

theorem natAbs_lt_of_inRange (h : InRange bn) : bn.natAbs < 256 ^ serNumMaxSz := by
  rw [InRange] at h
  have hpow : 2 ^ 159 < 256 ^ serNumMaxSz := by decide
  omega

theorem eq_of_encode_eq (hm : InRange m) (hn : InRange n)
    (h : Bytes.encode serNumMaxSz m.natAbs = Bytes.encode serNumMaxSz n.natAbs) : m = n := by
  have habs := (Bytes.encode_inj (natAbs_lt_of_inRange hm) (natAbs_lt_of_inRange hn)).mp h
  rw [InRange] at hm hn
  omega

theorem replicate_append_bnBn2bin (h : InRange bn)
    : bnNumBytes bn ≤ serNumMaxSz
      ∧ replicate (serNumMaxSz - bnNumBytes bn) 0 ++ bnBn2bin bn
          =
        Bytes.encode serNumMaxSz bn.natAbs := by
  have hbits : bnNumBits bn < serNumMaxSz * 8 := by
    have haccepts := accepts_iff.mpr h
    simp only [crl2fields.accepts, Bool.and_eq_true, decide_eq_true_eq] at haccepts
    exact haccepts.1.1
  have hbytes : bnNumBytes bn ≤ serNumMaxSz := by
    rw [bnNumBytes]
    omega
  have hlt : bn.natAbs < 256 ^ bnNumBytes bn := by
    calc bn.natAbs
        < 2 ^ bnNumBits bn := Nat.lt_size_self _
      _ ≤ 2 ^ (8 * bnNumBytes bn) := by
        apply Nat.pow_le_pow_right (by omega)
        rw [bnNumBytes]
        omega
      _ = 256 ^ bnNumBytes bn := Nat.pow_mul 2 8 _
  exact ⟨hbytes, Bytes.replicate_append_encode hlt hbytes⟩

theorem flatMap_hexByte_replicate_zero (k : Nat)
    : (replicate k 0).flatMap (hexByte upperDigits) = replicate (2 * k) '0' := by
  induction k with
  | zero => rfl
  | succ k ih =>
    rw [replicate_succ, flatMap_cons, ih, Nat.mul_succ, replicate_succ,
      replicate_succ]
    rfl

theorem cfGetSn_of_inRange (h : InRange (asn1IntegerToBN serialNumber))
    : cfGetSn serialNumber
        =
      .ok (String.ofList ('^' :: 'x' ::
        (Bytes.encode serNumMaxSz (asn1IntegerToBN serialNumber).natAbs).flatMap
          (hexByte upperDigits))) := by
  obtain ⟨_, hpad⟩ := replicate_append_bnBn2bin h
  have hhex : bnBn2hex (asn1IntegerToBN serialNumber)
      = (bnBn2bin (asn1IntegerToBN serialNumber)).flatMap (hexByte upperDigits) := by
    have hpos : 0 < asn1IntegerToBN serialNumber := h.1
    rw [bnBn2hex, if_neg (by omega), if_neg (by omega), nil_append]
  have hlength : (bnBn2hex (asn1IntegerToBN serialNumber)).length
      = 2 * bnNumBytes (asn1IntegerToBN serialNumber) := by
    rw [hhex, length_flatMap_hexByte, bnBn2bin, Bytes.length_encode]
  rw [cfGetSn]
  simp only [hlength]
  rw [if_neg (by omega), ← hpad, flatMap_append, flatMap_hexByte_replicate_zero, hhex,
    ← Nat.mul_sub]
  rfl

theorem insertField_cfGetSn (strict : Bool) (h : rescertSerialNumberChk sernum = .ok ())
    : ∃ sn, cfGetSn sernum = .ok sn
      ∧ insertField strict serNumMaxSz sn
          =
        .ok (chars (Bytes.encode serNumMaxSz (asn1IntegerToBN sernum).natAbs)) := by
  refine ⟨_, cfGetSn_of_inRange (inRange_of_rescertSerialNumberChk h), ?_⟩
  apply insertField_hex isHexTable_upperDigits
  . rw [← length_pos_iff, Bytes.length_encode]
    decide
  . rw [Bytes.length_encode]

namespace crl2fields

def serials (rev : List (Option (List UInt8))) : List Int :=
  rev.filterMap (Option.map asn1IntegerToBN)

theorem serials_cons (serialNumber : List UInt8) (rev : List (Option (List UInt8)))
    : serials (some serialNumber :: rev) = asn1IntegerToBN serialNumber :: serials rev := by
  rfl

theorem loop_eq {rev : List (Option (List UInt8))} {cf cf' : CrlSerials}
    (h : loop rev cf = .ok cf')
    : cf'.snlen = cf.snlen + ((serials rev).filter accepts).length
      ∧ cf'.snlist
          =
        cf.snlist
          ++ (((serials rev).filter accepts).map fun bn =>
                Bytes.encode serNumMaxSz bn.natAbs).flatten := by
  fun_induction loop rev cf with
  | case1 =>
    cases h
    exact ⟨rfl, by simp [serials]⟩
  | case2 => cases h
  | case3 serialNumber rev cf bn haccepts ih =>
    obtain ⟨hlen, hlist⟩ := ih h
    rw [serials_cons, filter_cons_of_pos haccepts]
    constructor
    . rw [hlen, length_cons]
      dsimp only
      omega
    . rw [hlist, map_cons, flatten_cons, append_assoc cf.snlist,
        (replicate_append_bnBn2bin (accepts_iff.mp haccepts)).2, append_assoc]
  | case4 serialNumber rev cf bn haccepts ih =>
    rw [serials_cons, filter_cons_of_neg haccepts]
    exact ih h

end crl2fields

theorem map_take_drop_flatten {α : Type} {width : Nat} {ls : List (List α)}
    (h : ∀ l ∈ ls, l.length = width) (rest : List α)
    : ((List.range ls.length).map fun i => ((ls.flatten ++ rest).drop (width * i)).take width)
        =
      ls := by
  induction ls with
  | nil => rfl
  | cons l ls ih =>
    have hl : l.length = width := h l mem_cons_self
    have hrest := ih fun l hl => h l (mem_cons_of_mem _ hl)
    rw [length_cons, range_succ_eq_map, map_cons, List.map_map, flatten_cons,
      append_assoc]
    congr 1
    . rw [Nat.mul_zero, drop_zero, take_left' hl]
    conv => rhs; rw [← hrest]
    apply map_congr_left
    intro i _
    rw [Function.comp_apply, Nat.succ_eq_add_one, Nat.mul_add, Nat.mul_one, Nat.add_comm,
      ← drop_drop, drop_left' hl]

def crl2fields.encoded (rev : List (Option (List UInt8))) : List (List UInt8) :=
  ((serials rev).filter accepts).map fun bn => Bytes.encode serNumMaxSz bn.natAbs

theorem crl2fields.length_of_mem_encoded {rev : List (Option (List UInt8))} (hl : l ∈ encoded rev)
    : l.length = serNumMaxSz := by
  obtain ⟨_, -, rfl⟩ := List.mem_map.mp hl
  exact Bytes.length_encode _ _

section

variable {rev : List (Option (List UInt8))} {cf : CrlSerials} (h : crl2fields rev = .ok cf)
include h

theorem crl2fields_eq
    : cf.snlen = (crl2fields.encoded rev).length
      ∧ ∃ zeros, cf.snlist = (crl2fields.encoded rev).flatten ++ zeros := by
  obtain ⟨cf', hloop, hcf⟩ := Except.bind_eq_ok_iff.mp h
  obtain ⟨hlen, hlist⟩ := crl2fields.loop_eq hloop
  cases hcf
  rw [Nat.zero_add] at hlen
  rw [nil_append] at hlist
  refine ⟨?_, replicate (rev.length * serNumMaxSz - cf'.snlist.length) 0, ?_⟩
  . dsimp only
    rw [hlen, crl2fields.encoded, length_map]
  . dsimp only
    rw [hlist, crl2fields.encoded]

theorem entries_crl2fields : cf.entries = crl2fields.encoded rev := by
  obtain ⟨hlen, zeros, hlist⟩ := crl2fields_eq h
  have hentry : cf.entry = fun i =>
      (((crl2fields.encoded rev).flatten ++ zeros).drop (serNumMaxSz * i)).take serNumMaxSz := by
    funext i
    rw [CrlSerials.entry, hlist]
  rw [CrlSerials.entries, hlen, hentry]
  exact map_take_drop_flatten (fun l hl => crl2fields.length_of_mem_encoded hl) zeros

theorem insertSnlist_crl2fields (strict : Bool) (hpos : 0 < cf.snlen)
    (hfit : cf.snlen * serNumMaxSz < 2 ^ 24)
    : insertSnlist strict cf = .ok (chars cf.entries.flatten) := by
  obtain ⟨hlen, _, hlist⟩ := crl2fields_eq h
  have hlength : (crl2fields.encoded rev).flatten.length = cf.snlen * serNumMaxSz := by
    rw [length_flatten, map_congr_left fun l hl => crl2fields.length_of_mem_encoded hl,
      map_const', sum_replicate_nat, hlen]
  have htake : cf.snlist.take (cf.snlen * serNumMaxSz) = (crl2fields.encoded rev).flatten := by
    rw [hlist, take_left' hlength]
  have hne : (crl2fields.encoded rev).flatten ≠ [] := by
    rw [← length_pos_iff, hlength, serNumMaxSz]
    omega
  rw [insertSnlist, htake, hexify, if_neg hne, quoteValue_hex isHexTable_lowerDigits,
    entries_crl2fields h]
  simp only [bind, Except.bind, readValue_hex isHexTable_lowerDigits hne, bind_some]
  rw [fitColumn, if_pos (by rw [length_map]; omega)]
  rfl

end

theorem insertSnlist_crl2fields_three
    : ∃ cf, crl2fields [some [5], some [1, 0, 2], some (127 :: replicate 18 255)] = .ok cf
      ∧ insertSnlist true cf
        = .ok (chars (Bytes.encode 20 5 ++ Bytes.encode 20 65538 ++ 0 :: 127 :: replicate 18 255)) :=
  ⟨_, rfl, @insertSnlist_crl2fields [some [5], some [1, 0, 2], some (127 :: replicate 18 255)] _ rfl true
    (by decide) (by decide)⟩

def Legal (n : Int) : Prop :=
  ∃ sernum, rescertSerialNumberChk sernum = .ok () ∧ asn1IntegerToBN sernum = n

/--
The column `sn` of a certificate and an entry of a `snlist` have the same twenty bytes exactly if
they stand for the same number, and a CRL loses no serial number that a certificate may have.
-/
theorem serial_encodings_agree (strict : Bool) {sernum : List UInt8}
    {rev : List (Option (List UInt8))} {cf : CrlSerials}
    (hchk : rescertSerialNumberChk sernum = .ok ()) (hcf : crl2fields rev = .ok cf)
    : ∃ sn stored, cfGetSn sernum = .ok sn ∧ insertField strict serNumMaxSz sn = .ok stored
      ∧ stored.length = serNumMaxSz
      ∧ cf.snlen = ((crl2fields.serials rev).filter crl2fields.accepts).length
      ∧ (∀ i m, ((crl2fields.serials rev).filter crl2fields.accepts)[i]? = some m →
          (cf.entry i).length = serNumMaxSz
          ∧ (stored = chars (cf.entry i) ↔ asn1IntegerToBN sernum = m))
      ∧ ∀ m ∈ crl2fields.serials rev, Legal m →
          m ∈ (crl2fields.serials rev).filter crl2fields.accepts := by
  obtain ⟨sn, hsn, hstored⟩ := insertField_cfGetSn strict hchk
  have hrange := inRange_of_rescertSerialNumberChk hchk
  have hentries := entries_crl2fields hcf
  have hlen : cf.snlen = ((crl2fields.serials rev).filter crl2fields.accepts).length := by
    rw [(crl2fields_eq hcf).1, crl2fields.encoded, length_map]
  refine ⟨sn, _, hsn, hstored, ?_, hlen, ?_, ?_⟩
  . simp [chars]
  . intro i m hm
    have hi : i < cf.snlen := by
      rw [hlen]
      exact (List.getElem?_eq_some_iff.mp hm).1
    have hentry : cf.entry i = Bytes.encode serNumMaxSz m.natAbs := by
      have hget := congrArg (fun l => l[i]?) hentries
      simpa [CrlSerials.entries, crl2fields.encoded, hi, hm] using hget
    have haccepts := (mem_filter.mp (mem_of_getElem? hm)).2
    rw [hentry, chars_inj]
    refine ⟨Bytes.length_encode _ _, ?_, ?_⟩
    . exact eq_of_encode_eq hrange (accepts_iff.mp haccepts)
    . rintro rfl
      rfl
  . rintro m hm ⟨sernum, hlegal, rfl⟩
    exact mem_filter.mpr ⟨hm, accepts_iff.mpr (inRange_of_rescertSerialNumberChk hlegal)⟩

theorem serial_encodings_agree_five
    : ∃ cf sn stored, rescertSerialNumberChk [5] = .ok ()
      ∧ crl2fields [some [0xff], some [0, 5], some [7]] = .ok cf
      ∧ cfGetSn [5] = .ok sn ∧ insertField true serNumMaxSz sn = .ok stored
      ∧ cf.snlen = 2 ∧ stored = chars (cf.entry 0) ∧ stored ≠ chars (cf.entry 1) := by
  have hchk : rescertSerialNumberChk [5] = .ok () := by decide
  have hcf : crl2fields [some [0xff], some [0, 5], some [7]]
      = .ok
          { snlen := 2
            snlist := replicate 19 0 ++ 5 :: replicate 19 0 ++ 7 :: replicate 20 0 } := by
    decide +kernel
  obtain ⟨sn, stored, hsn, hstored, -, -, hentry, -⟩ := serial_encodings_agree true hchk hcf
  refine ⟨_, sn, stored, hchk, hcf, hsn, hstored, rfl, ?_, ?_⟩
  . exact (hentry 0 5 (by decide +kernel)).2.mpr rfl
  . exact mt (hentry 1 7 (by decide +kernel)).2.mp (by decide)

end SerialNumbers
end Rpstir.Sqhl
