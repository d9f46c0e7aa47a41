import Rpstir.Casn.Num
import Rpstir.Lta.Lemmas.Ranges

/-!
This module contains `make_ASnum` and `cvt_asnum`, the conversions between a range of AS numbers and its
item in a certificate.
-/

namespace Rpstir.Lta

inductive ASNumberOrRange where
  | num (contents : List UInt8)
  | range (min max : List UInt8)
  deriving DecidableEq, Repr

def asnum (lim : Lim) : BitVec 32 :=
  (Bytes.encode 4 (lim.lead 4)).foldl (fun asnum u => (asnum <<< 8) + BitVec.ofNat 32 u.toNat) 0

def makeASnum (r : IpRange) : ASNumberOrRange :=
  if r.lolim.lead 4 = r.hilim.lead 4 then
    .num (Casn.writeCasnNum (asnum r.lolim).toInt)
  else
    .range (Casn.writeCasnNum (asnum r.lolim).toInt) (Casn.writeCasnNum (asnum r.hilim).toInt)

def copyToFour (locbuf : List UInt8) : Option Lim :=
  if locbuf.length ≤ 4 then some (Lim.setLead 4 0 (Bytes.decode locbuf)) else none

def cvtAsnum : ASNumberOrRange → Option (Lim × Lim)
  | .num contents => do
    let lim ← copyToFour contents
    return (lim, lim)
  | .range min max => do
    let lolim ← copyToFour min
    let hilim ← copyToFour max
    return (lolim, hilim)

theorem asnum_eq (lim : Lim) : asnum lim = BitVec.ofNat 32 (lim.lead 4) := by
  have hfold : ∀ (l : List UInt8) (n : Nat),
      l.foldl (fun (asnum : BitVec 32) (u : UInt8) => (asnum <<< 8) + BitVec.ofNat 32 u.toNat) (BitVec.ofNat 32 n)
        = BitVec.ofNat 32 (n * 256 ^ l.length + Bytes.decode l) := by
    intro l
    induction l with
    | nil => simp
    | cons u l ih =>
      intro n
      have hstep : BitVec.ofNat 32 n <<< 8 + BitVec.ofNat 32 u.toNat
          = BitVec.ofNat 32 (n * 256 + u.toNat) := by
        apply BitVec.eq_of_toNat_eq
        simp only [BitVec.toNat_add, BitVec.toNat_shiftLeft, BitVec.toNat_ofNat, Nat.shiftLeft_eq]
        omega
      rw [List.foldl_cons, hstep, ih, Bytes.decode_cons, List.length_cons]
      ring_nf
  have hlt : lim.lead 4 < 256 ^ 4 := Lim.lead_lt (by decide) lim
  have h := hfold (Bytes.encode 4 (lim.lead 4)) 0
  rw [Nat.zero_mul, Nat.zero_add, Bytes.decode_encode hlt] at h
  exact h

theorem copyToFour_writeCasnNum (lim : Lim)
    : ∃ lim', copyToFour (Casn.writeCasnNum (asnum lim).toInt) = some lim' ∧
        (lim'.lead 4 = lim.lead 4 ↔ lim.lead 4 < 2 ^ 32 - 2 ^ 23) := by
  have hn : lim.lead 4 < 2 ^ 32 := Lim.lead_lt (by decide) lim
  rw [asnum_eq]
  generalize lim.lead 4 = n at hn
  have hint : (BitVec.ofNat 32 n).toInt = if n < 2 ^ 31 then (n : Int) else n - 2 ^ 32 := by
    rw [BitVec.toInt_eq_toNat_cond, BitVec.toNat_ofNat, Nat.mod_eq_of_lt hn]
    split <;> split <;> omega
  generalize (BitVec.ofNat 32 n).toInt = val at hint
  have hfour := Casn.length_writeCasnNum_le_iff 3 val
  have hthree := Casn.length_writeCasnNum_le_iff 2 val
  have hdecode := Casn.decode_writeCasnNum val
  have hlt := Bytes.decode_lt (Casn.writeCasnNum val)
  have hlength : (Casn.writeCasnNum val).length ≤ 4 := by
    rw [hfour]
    split at hint <;> omega
  have hfits : Bytes.decode (Casn.writeCasnNum val) < 2 ^ (8 * 4) :=
    Nat.lt_of_lt_of_le hlt (Nat.pow_le_pow_right (by decide) hlength)
  refine ⟨_, if_pos hlength, ?_⟩
  rw [Lim.lead_setLead (by decide), Nat.mod_eq_of_lt hfits]
  by_cases hsign : n < 2 ^ 31
  . rw [if_pos hsign] at hint
    obtain ⟨k, hk⟩ := Nat.exists_eq_succ_of_ne_zero (Casn.length_writeCasnNum_pos val).ne'
    have hbound := (Casn.length_writeCasnNum_le_iff k val).mp hk.le
    rw [hk, Nat.succ_eq_add_one, Int.pow_succ, Int.emod_eq_of_lt (by omega) (by omega)] at hdecode
    omega
  rw [if_neg hsign] at hint
  by_cases hshort : (Casn.writeCasnNum val).length ≤ 3
  . have hsmall : 256 ^ (Casn.writeCasnNum val).length ≤ 256 ^ 3 :=
      Nat.pow_le_pow_right (by decide) hshort
    have hval := hthree.mp hshort
    omega
  . have hexact : (Casn.writeCasnNum val).length = 4 := by omega
    rw [hexact] at hdecode
    omega

theorem cvtAsnum_makeASnum {r : IpRange} {lolim hilim : Lim}
    (hlo : copyToFour (Casn.writeCasnNum (asnum r.lolim).toInt) = some lolim)
    (hhi : copyToFour (Casn.writeCasnNum (asnum r.hilim).toInt) = some hilim)
    : cvtAsnum (makeASnum r) = some (lolim, hilim) := by
  unfold makeASnum
  split
  next heq =>
    rw [asnum_eq, ← heq, ← asnum_eq, hlo, Option.some.injEq] at hhi
    simp [cvtAsnum, hlo, hhi]
  next hne =>
    simp [cvtAsnum, hlo, hhi]

theorem asnum_roundTrip_iff (r : IpRange) (hle : r.lolim.lead 4 ≤ r.hilim.lead 4)
    : (∃ lolim hilim, cvtAsnum (makeASnum r) = some (lolim, hilim)) ∧
        ((∃ lolim hilim, cvtAsnum (makeASnum r) = some (lolim, hilim) ∧
          lolim.lead 4 = r.lolim.lead 4 ∧ hilim.lead 4 = r.hilim.lead 4)
        ↔ r.hilim.lead 4 < 2 ^ 32 - 2 ^ 23) := by
  obtain ⟨lolim, hlo, hlow⟩ := copyToFour_writeCasnNum r.lolim
  obtain ⟨hilim, hhi, hhigh⟩ := copyToFour_writeCasnNum r.hilim
  have hcvt := cvtAsnum_makeASnum hlo hhi
  refine ⟨⟨lolim, hilim, hcvt⟩, ?_, ?_⟩
  . rintro ⟨_, _, h, -, hlead⟩
    rw [hcvt, Option.some.injEq, Prod.mk.injEq] at h
    rw [← hhigh, h.2]
    exact hlead
  . intro h
    exact ⟨lolim, hilim, hcvt, hlow.mpr (by omega), hhigh.mpr h⟩

def asLim (n : Nat) : Lim :=
  Lim.setLead 4 0 n

theorem asnum_roundTrip_iff_five
    : (∃ lolim hilim, cvtAsnum (makeASnum ⟨.asnum, asLim 5, asLim 64511⟩) = some (lolim, hilim)) ∧
        ((∃ lolim hilim, cvtAsnum (makeASnum ⟨.asnum, asLim 5, asLim 64511⟩) = some (lolim, hilim) ∧
          lolim.lead 4 = (asLim 5).lead 4 ∧ hilim.lead 4 = (asLim 64511).lead 4)
        ↔ (asLim 64511).lead 4 < 2 ^ 32 - 2 ^ 23) :=
  asnum_roundTrip_iff ⟨.asnum, asLim 5, asLim 64511⟩ (by decide)

theorem asnum_4294967294
    : cvtAsnum (makeASnum ⟨.asnum, asLim 4294967294, asLim 4294967294⟩)
          = some (asLim 254, asLim 254) ∧
        (asLim 254).lead 4 ≠ (asLim 4294967294).lead 4 := by
  have hasnum : (asnum (asLim 4294967294)).toInt = -2 := by decide
  have hwrite : Casn.writeCasnNum (-2) = [254] := Casn.writeCasnNum_small (by decide) (by decide)
  refine ⟨?_, by decide⟩
  apply cvtAsnum_makeASnum
  . rw [hasnum, hwrite]
    rfl
  . rw [hasnum, hwrite]
    rfl

end Rpstir.Lta
