import Mathlib.Data.Nat.Bitwise

/-!
This module contains the `flags` column that every object table has, its bits and the two ways in
which the queries test them.
-/

namespace Rpstir

abbrev Flags := BitVec 32

namespace Flags

variable {flags : Flags} {i : Nat}

def ca : Flags := 0x1#32
def trusted : Flags := 0x2#32
def validated : Flags := 0x4#32
def nochain : Flags := 0x8#32
def notyet : Flags := 0x10#32
def stalecrl : Flags := 0x20#32
def staleman : Flags := 0x40#32
def onman : Flags := 0x100#32
def isparacert : Flags := 0x200#32
def hasparacert : Flags := 0x400#32
def istarget : Flags := 0x800#32

/--
The where clause `addFlagTest` writes: `((flags % (2 * flagVal)) >= flagVal)`, or `<` if the flag is
to be clear.
-/
def test (flags flagVal : Flags) (isSet : Bool) : Bool :=
  if isSet then
    decide (flagVal.toNat ≤ flags.toNat % (2 * flagVal.toNat))
  else
    decide (flags.toNat % (2 * flagVal.toNat) < flagVal.toNat)

def has (flags flag : Flags) : Bool :=
  flags &&& flag != 0#32

def valid (flags : Flags) : Bool :=
  flags.test validated true && flags.test nochain false

theorem test_false_eq_not_test_true (flags flagVal : Flags)
    : flags.test flagVal false = !flags.test flagVal true := by
  rw [Bool.eq_iff_iff]
  simp [test]

theorem toNat_mod_ge_iff (flags : Flags) (i : Nat)
    : 2 ^ i ≤ flags.toNat % (2 * 2 ^ i) ↔ flags.getLsbD i = true := by
  rw [BitVec.getLsbD, Nat.testBit_eq_decide_div_mod_eq]
  rw [decide_eq_true_iff]
  have hpos : 0 < 2 ^ i := Nat.two_pow_pos i
  have hmod : flags.toNat % (2 * 2 ^ i) = 2 ^ i * (flags.toNat / 2 ^ i % 2) + flags.toNat % 2 ^ i := by
    rw [Nat.mul_comm 2, Nat.mod_mul]
    omega
  have hlt : flags.toNat % 2 ^ i < 2 ^ i := Nat.mod_lt _ hpos
  rw [hmod]
  rcases Nat.mod_two_eq_zero_or_one (flags.toNat / 2 ^ i) with h | h
  . rw [h]
    omega
  . rw [h]
    omega

theorem test_twoPow (flags : Flags) (i : Nat) (h : i < 32)
    : flags.test (BitVec.twoPow 32 i) true = flags.getLsbD i := by
  simp only [test, if_true, BitVec.toNat_twoPow_of_lt h]
  rw [Bool.eq_iff_iff, decide_eq_true_iff]
  apply toNat_mod_ge_iff

theorem has_twoPow (flags : Flags) (i : Nat) (h : i < 32)
    : flags.has (BitVec.twoPow 32 i) = flags.getLsbD i := by
  rw [has, BitVec.and_twoPow]
  cases flags.getLsbD i with
  | false => rfl
  | true =>
    simp only [if_true, bne_iff_ne, ne_eq]
    intro hzero
    have htoNat := congrArg BitVec.toNat hzero
    rw [BitVec.toNat_twoPow_of_lt h] at htoNat
    simp at htoNat

theorem test_validated (flags : Flags) : flags.test validated true = flags.getLsbD 2 :=
  test_twoPow flags 2 (by decide)

theorem test_nochain (flags : Flags) : flags.test nochain true = flags.getLsbD 3 :=
  test_twoPow flags 3 (by decide)

theorem test_onman (flags : Flags) : flags.test onman true = flags.getLsbD 8 :=
  test_twoPow flags 8 (by decide)

theorem has_trusted (flags : Flags) : flags.has trusted = flags.getLsbD 1 :=
  has_twoPow flags 1 (by decide)

theorem valid_eq (flags : Flags) : flags.valid = (flags.getLsbD 2 && !flags.getLsbD 3) := by
  rw [valid, test_false_eq_not_test_true, test_validated, test_nochain]

theorem add_twoPow (hi : i < 32)
    (h : flags.test (BitVec.twoPow 32 i) false = true)
    : flags + BitVec.twoPow 32 i = flags ||| BitVec.twoPow 32 i := by
  apply BitVec.add_eq_or_of_and_eq_zero
  rw [test_false_eq_not_test_true, test_twoPow flags i hi, Bool.not_eq_true'] at h
  rw [BitVec.and_twoPow, h]
  rfl

theorem sub_twoPow (hi : i < 32)
    (h : flags.test (BitVec.twoPow 32 i) true = true)
    : flags - BitVec.twoPow 32 i = flags &&& ~~~BitVec.twoPow 32 i := by
  rw [test_twoPow flags i hi] at h
  have hsplit : (flags &&& ~~~BitVec.twoPow 32 i) + BitVec.twoPow 32 i = flags := by
    rw [BitVec.add_eq_or_of_and_eq_zero]
    . apply BitVec.eq_of_getLsbD_eq
      intro j hj
      by_cases hij : i = j
      . subst hij
        simp [h, hi]
      . simp [Ne.symm hij, hj]
    apply BitVec.eq_of_getLsbD_eq
    intro j hj
    by_cases hij : i = j
    . subst hij
      simp [hi]
    . simp [hij]
  have hsub := congrArg (· - BitVec.twoPow 32 i) hsplit
  simp only [BitVec.add_sub_cancel] at hsub
  exact hsub.symm

theorem add_onman (flags : Flags) (h : flags.test onman false = true)
    : flags + onman = flags ||| onman :=
  @add_twoPow flags 8 (by decide) h

def assign (flags : Flags) (i : Nat) (isSet : Bool) : Flags :=
  if isSet then flags ||| BitVec.twoPow 32 i else flags &&& ~~~BitVec.twoPow 32 i

theorem getLsbD_assign (flags : Flags) (hi : i < 32) (isSet : Bool) (j : Nat)
    : (flags.assign i isSet).getLsbD j = if i = j then isSet else flags.getLsbD j := by
  by_cases hij : i = j
  . subst hij
    cases isSet <;> simp [assign, hi]
  . rw [if_neg hij]
    by_cases hj : j < 32
    . cases isSet <;> simp [assign, Ne.symm hij, hj]
    . rw [BitVec.getLsbD_of_ge _ _ (by omega), BitVec.getLsbD_of_ge _ _ (by omega)]

theorem assign_of_eq (hi : i < 32) {isSet : Bool}
    (h : flags.getLsbD i = isSet) : flags.assign i isSet = flags := by
  apply BitVec.eq_of_getLsbD_eq
  intro _ _
  rw [getLsbD_assign flags hi]
  split
  . next hij => rw [← hij, h]
  . rfl

theorem add_sub_eq_assign (hi : i < 32) {isSet : Bool}
    (h : flags.test (BitVec.twoPow 32 i) (!isSet) = true)
    : (if isSet then flags + BitVec.twoPow 32 i else flags - BitVec.twoPow 32 i)
      = flags.assign i isSet := by
  cases isSet with
  | true => exact add_twoPow hi h
  | false => exact sub_twoPow hi h

end Flags

structure FlagTests where
  mask : BitVec 64
  result : BitVec 64

namespace FlagTests

def empty : FlagTests := ⟨0#64, 0#64⟩

def addTestsByMask (tests : FlagTests) (mask : BitVec 64) (isSet : Bool) : FlagTests where
  mask := tests.mask ||| mask
  result := if isSet then tests.result ||| mask else tests.result &&& ~~~mask

end FlagTests

structure Config where
  allowStaleValidationChain : Bool
  allowStaleCrl : Bool
  allowStaleManifest : Bool
  allowNoManifest : Bool
  allowNotYet : Bool

def flagTestsDefault (config : Config) : FlagTests :=
  let tests := FlagTests.empty
  let tests := tests.addTestsByMask (Flags.validated.setWidth 64) true
  let tests :=
    if !config.allowStaleValidationChain then
      tests.addTestsByMask (Flags.nochain.setWidth 64) false
    else
      tests
  let tests :=
    if !config.allowStaleCrl then
      tests.addTestsByMask (Flags.stalecrl.setWidth 64) false
    else
      tests
  let tests :=
    if !config.allowStaleManifest then
      tests.addTestsByMask (Flags.staleman.setWidth 64) false
    else
      tests
  let tests :=
    if !config.allowNoManifest then
      tests.addTestsByMask (Flags.onman.setWidth 64) true
    else
      tests
  if !config.allowNotYet then
    tests.addTestsByMask (Flags.notyet.setWidth 64) false
  else
    tests

def FlagTests.eval (tests : FlagTests) (flags : Flags) : Bool :=
  flags.setWidth 64 &&& tests.mask == tests.result

end Rpstir
