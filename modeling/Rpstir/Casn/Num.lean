import Rpstir.Casn.Basic

/-!
This module contains the contents that `_write_casn_num` (`casn_num.c`) gives to an INTEGER, and the
proof that they are the shortest two's complement of the number and that `read_casn_num` reads it back.
-/

namespace Rpstir.Casn

open List

namespace writeCasnNum

def sizPos (tmp : Int) : Nat :=
  if tmp > 0x7f then sizPos (tmp / 256) + 1 else 1
termination_by tmp.toNat

def sizNeg (tmp : Int) : Nat :=
  if tmp < -128 then sizNeg (tmp / 256) + 1 else 1
termination_by (-tmp).toNat

def siz (val : Int) : Nat :=
  if val > 0 then sizPos val else sizNeg val

def lowByte (val : Int) : UInt8 :=
  UInt8.ofNat (val % 256).toNat

def fill (val : Int) (written : List UInt8) : List UInt8 × Int :=
  if val ≠ 0 ∧ val ≠ -1 then fill (val / 256) (lowByte val :: written) else (written, val)
termination_by val.natAbs

end writeCasnNum

open writeCasnNum in
def writeCasnNum (val : Int) : List UInt8 :=
  let (written, rest) := fill val []
  let startp := replicate (siz val - written.length) 0 ++ written
  if rest < 0 ∧ startp.head? = some 0 then startp.set 0 0xff else startp

variable {val start : Int}

namespace writeCasnNum

theorem fill_next (h : val ≠ 0 ∧ val ≠ -1) (written : List UInt8)
    : fill val written = fill (val / 256) (lowByte val :: written) := by
  rw [fill, if_pos h]

theorem fill_done (h : ¬(val ≠ 0 ∧ val ≠ -1)) (written : List UInt8)
    : fill val written = (written, val) := by
  rw [fill, if_neg h]

theorem fill_append (val : Int) (written behind : List UInt8)
    : fill val (written ++ behind) = ((fill val written).1 ++ behind, (fill val written).2) := by
  fun_induction fill val written with
  | case1 val written h ih => rw [fill_next h, ← cons_append, ih]
  | case2 val written h => rw [fill_done h]

theorem fill_step (h : val ≠ 0 ∧ val ≠ -1)
    : fill val [] = ((fill (val / 256) []).1 ++ [lowByte val], (fill (val / 256) []).2) := by
  rw [fill_next h]
  exact fill_append (val / 256) [] [lowByte val]

variable {tmp : Int}

theorem sizPos_step (h : 0x7f < tmp) : sizPos tmp = sizPos (tmp / 256) + 1 := by
  rw [sizPos, if_pos h]

theorem sizPos_small (h : tmp ≤ 0x7f) : sizPos tmp = 1 := by
  rw [sizPos, if_neg (by omega)]

theorem sizNeg_step (h : tmp < -128) : sizNeg tmp = sizNeg (tmp / 256) + 1 := by
  rw [sizNeg, if_pos h]

theorem sizNeg_small (h : -128 ≤ tmp) : sizNeg tmp = 1 := by
  rw [sizNeg, if_neg (by omega)]

theorem siz_small (hlow : -128 ≤ val) (hhigh : val ≤ 0x7f) : siz val = 1 := by
  unfold siz
  split
  . exact sizPos_small hhigh
  . exact sizNeg_small hlow

theorem siz_step (h : 0x7f < val ∨ val < -128) : siz val = siz (val / 256) + 1 := by
  rcases h with h | h
  . rw [siz, if_pos (by omega), sizPos_step h, siz]
    split
    . rfl
    . rw [sizPos_small (by omega), sizNeg_small (by omega)]
  . rw [siz, if_neg (by omega), sizNeg_step h, siz, if_neg (by omega)]

theorem siz_pos (val : Int) : 0 < siz val := by
  by_cases h : 0x7f < val ∨ val < -128
  . rw [siz_step h]
    omega
  . rw [siz_small (by omega) (by omega)]
    omega

end writeCasnNum

open writeCasnNum

theorem writeCasnNum_small (hlow : -128 ≤ val) (hhigh : val ≤ 0x7f)
    : writeCasnNum val = [lowByte val] := by
  unfold writeCasnNum
  rw [siz_small hlow hhigh]
  by_cases hrest : val ≠ 0 ∧ val ≠ -1
  . have hfill : fill val [] = ([lowByte val], val / 256) := by
      rw [fill_step hrest, fill_done (by omega)]
      rfl
    have hbyte : lowByte val ≠ 0 := by
      rw [lowByte, ← UInt8.toNat_inj.ne, UInt8.toNat_ofNat']
      change (val % 256).toNat % 256 ≠ 0
      omega
    rw [hfill]
    simp [hbyte]
  . have hval : val = 0 ∨ val = -1 := by omega
    rw [fill_done hrest]
    rcases hval with rfl | rfl <;> rfl

theorem writeCasnNum_step (h : 0x7f < val ∨ val < -128)
    : writeCasnNum val = writeCasnNum (val / 256) ++ [lowByte val] := by
  unfold writeCasnNum
  rw [siz_step h, fill_step (by omega)]
  have hpos := siz_pos (val / 256)
  generalize siz (val / 256) = n at hpos
  generalize fill (val / 256) [] = f
  obtain ⟨written, rest⟩ := f
  dsimp only
  obtain ⟨b, l, hstart⟩ : ∃ b l, replicate (n - written.length) 0 ++ written = b :: l := by
    apply exists_cons_of_ne_nil
    intro hnil
    have hlength := congrArg List.length hnil
    simp only [length_append, length_replicate, length_nil] at hlength
    omega
  rw [length_append, length_singleton, Nat.add_sub_add_right, ← append_assoc, hstart]
  by_cases hsign : rest < 0 ∧ b = 0
  . simp [hsign]
  . simp [hsign]

theorem length_writeCasnNum_pos (val : Int) : 0 < (writeCasnNum val).length := by
  by_cases h : 0x7f < val ∨ val < -128
  . simp [writeCasnNum_step h]
  . rw [writeCasnNum_small (by omega) (by omega), length_singleton]
    omega

theorem length_writeCasnNum_step (h : 0x7f < val ∨ val < -128)
    : (writeCasnNum val).length = (writeCasnNum (val / 256)).length + 1 := by
  rw [writeCasnNum_step h, length_append, length_singleton]

theorem length_writeCasnNum_le_iff (n : Nat) (val : Int)
    : (writeCasnNum val).length ≤ n + 1 ↔ -(128 * 256 ^ n) ≤ val ∧ val < 128 * 256 ^ n := by
  induction n generalizing val with
  | zero =>
    by_cases h : 0x7f < val ∨ val < -128
    . have hpos := length_writeCasnNum_pos (val / 256)
      rw [length_writeCasnNum_step h]
      omega
    . rw [writeCasnNum_small (by omega) (by omega), length_singleton]
      omega
  | succ n ih =>
    have hpow : 0 < (256 : Int) ^ n := Int.pow_pos (by decide)
    rw [Int.pow_succ]
    by_cases h : 0x7f < val ∨ val < -128
    . rw [length_writeCasnNum_step h, Nat.add_le_add_iff_right, ih]
      omega
    . rw [writeCasnNum_small (by omega) (by omega), length_singleton]
      omega

theorem decode_writeCasnNum (val : Int)
    : (Bytes.decode (writeCasnNum val) : Int) = val % 256 ^ (writeCasnNum val).length := by
  have hbyte : ∀ val : Int, ((lowByte val).toNat : Int) = val % 256 := by
    intro val
    rw [lowByte, UInt8.toNat_ofNat']
    omega
  generalize hn : (writeCasnNum val).length = n
  induction n generalizing val with
  | zero =>
    have hpos := length_writeCasnNum_pos val
    omega
  | succ n ih =>
    by_cases h : 0x7f < val ∨ val < -128
    . rw [length_writeCasnNum_step h, Nat.add_right_cancel_iff] at hn
      have hmod : val % 256 ^ (n + 1) = val / 256 % 256 ^ n * 256 + val % 256 := by
        have hdiv : val / 256 / 256 ^ n = val / (256 * 256 ^ n) := Int.ediv_ediv_of_nonneg (by decide)
        rw [Int.pow_succ, Int.mul_comm, Int.emod_def, Int.emod_def (val / 256), Int.emod_def val 256,
          hdiv]
        ring
      rw [writeCasnNum_step h, Bytes.decode_concat, hmod, ← ih (val / 256) hn, ← hbyte]
      push_cast
      ring
    . rw [writeCasnNum_small (by omega) (by omega), length_singleton] at hn
      rw [writeCasnNum_small (by omega) (by omega), ← hn, Bytes.decode_cons, length_nil,
        Bytes.decode_nil, Nat.pow_zero, Nat.mul_one, Nat.add_zero, hbyte, Int.pow_succ, Int.pow_zero,
        Int.one_mul]

def asnEnumerated : Nat := 0x0a

def readCasnNumMax (type : Nat) (contents : List UInt8) : Option (Nat × Int) :=
  if type ≠ asnInteger ∧ type ≠ asnEnumerated ∧ type ≠ asnBoolean then
    none
  else if contents.length > 8 then
    none
  else
    match contents with
    | [] => none
    | b :: _ =>
      let start : Int := if b &&& 0x80 ≠ 0 ∧ type = asnInteger then -1 else 0
      some (contents.length, contents.foldl (fun val c => (val * 256 + c.toNat).bmod (2 ^ 64)) start)

def readCasnNum (type : Nat) (contents : List UInt8) : Option (Nat × Int) := do
  let (ret, val) ← readCasnNumMax type contents
  if ret > 8 then none else some (ret, val)

def twosComplement (contents : List UInt8) : Int :=
  (Bytes.decode contents : Int).bmod (256 ^ contents.length)

theorem foldl_bmod (contents : List UInt8) (hstart : start.bmod (2 ^ 64) = start)
    : contents.foldl (fun val c => (val * 256 + c.toNat).bmod (2 ^ 64)) start
      = (start * 256 ^ contents.length + Bytes.decode contents).bmod (2 ^ 64) := by
  induction contents generalizing start with
  | nil => rw [foldl_nil, length_nil, Bytes.decode_nil, pow_zero, mul_one, Nat.cast_zero, add_zero, hstart]
  | cons c contents ih =>
    rw [foldl_cons, ih (by simp), ← Int.bmod_add_bmod, Int.bmod_mul_bmod, Int.bmod_add_bmod,
      Bytes.decode_cons, length_cons]
    congr 1
    push_cast
    ring

theorem pow_succ_eq (n : Nat) : 256 ^ (n + 1) = 2 * (128 * 256 ^ n) := by
  rw [Nat.pow_succ]
  omega

theorem twosComplement_bounds {contents : List UInt8} {n : Nat} (h : contents.length = n + 1)
    : -(128 * 256 ^ n) ≤ twosComplement contents ∧ twosComplement contents < 128 * 256 ^ n := by
  have hpos : 0 < 256 ^ (n + 1) := Nat.pow_pos (by decide)
  have hle := @Int.le_bmod (Bytes.decode contents) _ hpos
  have hlt := @Int.bmod_lt (Bytes.decode contents) _ hpos
  rw [twosComplement, h]
  rw [pow_succ_eq] at hle hlt ⊢
  push_cast at hle hlt
  omega

theorem bmod_eq_of_bounds {val : Int} {n : Nat} (hle : -(128 * 256 ^ n) ≤ val) (hlt : val < 128 * 256 ^ n)
    : val.bmod (256 ^ (n + 1)) = val := by
  apply Int.bmod_eq_of_le
  . rw [pow_succ_eq]
    push_cast
    omega
  . rw [pow_succ_eq]
    push_cast
    omega

theorem twosComplement_cons (b : UInt8) (l : List UInt8)
    : twosComplement (b :: l)
      = (if b &&& 0x80 ≠ 0 then -1 else 0) * 256 ^ (b :: l).length + Bytes.decode (b :: l) := by
  have hrest := Bytes.decode_lt l
  have hbyte := b.toNat_lt
  have hpow := pow_succ_eq l.length
  have hmod := Int.mul_add_bmod_self_right (if b &&& 0x80 ≠ 0 then -1 else 0) (256 ^ (b :: l).length)
    (Bytes.decode (b :: l))
  have hcast (n : Nat) : (256 : Int) ^ n = ((256 ^ n : Nat) : Int) := by norm_cast
  rw [twosComplement, ← hmod]
  push_cast
  apply bmod_eq_of_bounds
  all_goals
    rw [hcast, hcast, length_cons, Bytes.decode_cons]
    split
    next hsign =>
      have hlow : 2 ^ 7 * 256 ^ l.length ≤ b.toNat * 256 ^ l.length := by
        exact Nat.mul_le_mul_right _ (Nat.not_lt.mp (mt Bytes.and_sign_eq_zero_iff.mpr hsign))
      have hhigh : b.toNat * 256 ^ l.length ≤ 255 * 256 ^ l.length := Nat.mul_le_mul_right _ (by omega)
      omega
    next hsign =>
      have hb := Bytes.and_sign_eq_zero_iff.mp (not_not.mp hsign)
      have hhigh : b.toNat * 256 ^ l.length ≤ 127 * 256 ^ l.length := Nat.mul_le_mul_right _ (by omega)
      omega

theorem readCasnNumMax_integer {contents : List UInt8} (hne : contents ≠ []) (hle : contents.length ≤ 8)
    : readCasnNumMax asnInteger contents = some (contents.length, twosComplement contents) := by
  obtain ⟨b, l, rfl⟩ := exists_cons_of_ne_nil hne
  obtain ⟨_, _⟩ := @twosComplement_bounds (b :: l) _ rfl
  have hpow : (256 : Int) ^ l.length ≤ 256 ^ 7 :=
    mod_cast Nat.pow_le_pow_right (by decide) (Nat.le_of_succ_le_succ hle)
  have hvalue := @bmod_eq_of_bounds (twosComplement (b :: l)) 7 (by omega) (by omega)
  simp only [readCasnNumMax]
  rw [if_neg (by decide), if_neg (by omega), foldl_bmod]
  . simp only [and_true, ← twosComplement_cons]
    exact congrArg (fun val => some (_, val)) hvalue
  . split <;> rfl

theorem casn_num_codec
    : (∀ val : Int64, twosComplement (writeCasnNum val.toInt) = val.toInt ∧
        (∀ contents, contents ≠ [] → twosComplement contents = val.toInt →
          (writeCasnNum val.toInt).length ≤ contents.length) ∧
        readCasnNum asnInteger (writeCasnNum val.toInt)
          = some ((writeCasnNum val.toInt).length, val.toInt)) ∧
      ∀ contents n val, readCasnNumMax asnInteger contents = some (n, val) → val = twosComplement contents := by
  refine ⟨fun val => ?_, fun contents n val h => ?_⟩
  . have hpos := length_writeCasnNum_pos val.toInt
    obtain ⟨n, hn⟩ : ∃ n, (writeCasnNum val.toInt).length = n + 1 := ⟨_, (Nat.succ_pred_eq_of_pos hpos).symm⟩
    have hbounds := (length_writeCasnNum_le_iff n _).mp hn.le
    have hle : (writeCasnNum val.toInt).length ≤ 8 :=
      (length_writeCasnNum_le_iff 7 _).mpr ⟨val.le_toInt, val.toInt_lt⟩
    have hvalue : twosComplement (writeCasnNum val.toInt) = val.toInt := by
      rw [twosComplement, decode_writeCasnNum, hn]
      exact_mod_cast (Int.emod_bmod _ (256 ^ (n + 1))).trans (bmod_eq_of_bounds hbounds.1 hbounds.2)
    refine ⟨hvalue, fun contents hne hcontents => ?_, ?_⟩
    . obtain ⟨m, hm⟩ : ∃ m, contents.length = m + 1 := ⟨_, (Nat.succ_pred_eq_of_pos (length_pos_iff.mpr hne)).symm⟩
      rw [hm, length_writeCasnNum_le_iff, ← hcontents]
      exact twosComplement_bounds hm
    . rw [readCasnNum, readCasnNumMax_integer (ne_nil_of_length_pos hpos) hle, hvalue]
      exact if_neg (by omega)
  . have hle : contents.length ≤ 8 := by
      by_contra hlong
      rw [readCasnNumMax.eq_def, if_neg (by decide), if_pos (by omega)] at h
      cases h
    have hne : contents ≠ [] := by
      rintro rfl
      cases h
    rw [readCasnNumMax_integer hne hle] at h
    cases h
    rfl

end Rpstir.Casn
