import Rpstir.Db.Flags

/-!
This module contains the where clause by which `rpki-query` selects objects, and its agreement with the
flag tests of `rtr-update`.
-/

namespace Rpstir

open List Option

def whereStrSize : Nat := 1024

def fit (whereStr : String) : Option String :=
  if whereStr.utf8ByteSize < whereStrSize then some whereStr else none

def flagTestText (flagVal : Flags) (isSet : Bool) : String :=
  " ((flags%" ++ toString (2 * flagVal.toNat) ++ ")" ++ (if isSet then ">=" else "<")
    ++ toString flagVal.toNat ++ ")"

def addFlagTest (whereStr : String) (flagVal : Flags) (isSet needAnd : Bool) : Option String :=
  fit (whereStr ++ ((if needAnd then " and" else "") ++ flagTestText flagVal isSet))

def addFlagTestUnless (allow : Bool) (whereStr : String) (flagVal : Flags) (isSet : Bool)
    : Option String :=
  if !allow then addFlagTest whereStr flagVal isSet true else some whereStr

def addQueryFlagTests (config : Config) (whereStr : String) (needAnd : Bool) : Option String := do
  let whereStr ← addFlagTest whereStr Flags.validated true needAnd
  let whereStr ← addFlagTestUnless config.allowStaleValidationChain whereStr Flags.nochain false
  let whereStr ← addFlagTestUnless config.allowStaleCrl whereStr Flags.stalecrl false
  let whereStr ← addFlagTestUnless config.allowStaleManifest whereStr Flags.staleman false
  let whereStr ← addFlagTestUnless config.allowNoManifest whereStr Flags.onman true
  addFlagTestUnless config.allowNotYet whereStr Flags.notyet false

/--
The conditions that stand in a where string. A filter of the user is a comparison of some column
with a constant, which is kept as its text.
-/
inductive Cond where
  | filter (text : String)
  | flagTest (flagVal : Flags) (isSet : Bool)
  | and (lhs rhs : Cond)

namespace Cond

def text : Cond → String
  | filter text => text
  | flagTest flagVal isSet => flagTestText flagVal isSet
  | and lhs rhs => lhs.text ++ (" and" ++ rhs.text)

variable {ρ : Type}

def eval (filters : String → ρ → Bool) (flags : ρ → Flags) (row : ρ) : Cond → Bool
  | filter text => filters text row
  | flagTest flagVal isSet => (flags row).test flagVal isSet
  | and lhs rhs => lhs.eval filters flags row && rhs.eval filters flags row

def startText : Option Cond → String
  | none => ""
  | some c => c.text

def andThen : Option Cond → Cond → Cond
  | none, test => test
  | some c, test => and c test

theorem fit_append_of_none {s : String} (h : fit s = none) (t : String) : fit (s ++ t) = none := by
  simp only [fit, ite_eq_right_iff, reduceCtorEq, imp_false] at h ⊢
  rw [String.utf8ByteSize_append]
  omega

theorem eq_of_fit {s s' : String} (h : fit s = some s') : s' = s := by
  simp only [fit, ite_none_right_eq_some, some.injEq] at h
  exact h.2.symm

theorem addFlagTest_startText (preceding : Option Cond) (flagVal : Flags) (isSet : Bool)
    : addFlagTest (startText preceding) flagVal isSet preceding.isSome
        = fit (andThen preceding (flagTest flagVal isSet)).text := by
  cases preceding with
  | none
  | some => simp [addFlagTest, startText, andThen, text]

def addUnless (c : Cond) (allow : Bool) (flagVal : Flags) (isSet : Bool) : Cond :=
  if !allow then and c (flagTest flagVal isSet) else c

theorem fit_bind_addFlagTestUnless (c : Cond) (allow : Bool) (flagVal : Flags) (isSet : Bool)
    : ((fit c.text).bind fun whereStr => addFlagTestUnless allow whereStr flagVal isSet)
        = fit (c.addUnless allow flagVal isSet).text := by
  cases allow with
  | true => simp [addFlagTestUnless, addUnless]
  | false =>
    simp only [addFlagTestUnless, addUnless, Bool.not_false, if_true, text]
    cases hfit : fit c.text with
    | none => simp [fit_append_of_none hfit]
    | some =>
      rw [eq_of_fit hfit]
      rfl

def queryFlagTests (config : Config) (preceding : Option Cond) : Cond :=
  (andThen preceding (flagTest Flags.validated true))
    |>.addUnless config.allowStaleValidationChain Flags.nochain false
    |>.addUnless config.allowStaleCrl Flags.stalecrl false
    |>.addUnless config.allowStaleManifest Flags.staleman false
    |>.addUnless config.allowNoManifest Flags.onman true
    |>.addUnless config.allowNotYet Flags.notyet false

theorem addQueryFlagTests_eq_fit (config : Config) (preceding : Option Cond)
    : addQueryFlagTests config (startText preceding) preceding.isSome
        = fit (queryFlagTests config preceding).text := by
  simp only [addQueryFlagTests, bind_eq_bind]
  rw [addFlagTest_startText]
  simp only [queryFlagTests, ← fit_bind_addFlagTestUnless, bind_assoc]

theorem eval_addUnless (filters : String → ρ → Bool) (flags : ρ → Flags) (row : ρ) (c : Cond)
    (allow : Bool) (flagVal : Flags) (isSet : Bool)
    : (c.addUnless allow flagVal isSet).eval filters flags row
        = (c.eval filters flags row && (allow || (flags row).test flagVal isSet)) := by
  cases allow with
  | true => simp [addUnless]
  | false => simp [addUnless, eval]

end Cond

variable {i : Nat}

namespace FlagTests

structure Decides (tests : FlagTests) (bits : List Nat) (p : Flags → Bool) : Prop where
  mask_mem : ∀ i, tests.mask.getLsbD i = true → i ∈ bits
  result_le : ∀ i, tests.result.getLsbD i = true → tests.mask.getLsbD i = true
  eval_eq : ∀ flags, tests.eval flags = p flags

theorem eval_iff (tests : FlagTests) (flags : Flags)
    : tests.eval flags = true
        ↔ ∀ i, (flags.getLsbD i && tests.mask.getLsbD i) = tests.result.getLsbD i := by
  rw [eval, beq_iff_eq]
  constructor
  . intro h i
    rw [← h, BitVec.getLsbD_and, BitVec.getLsbD_setWidth]
    by_cases hi : i < 64
    . simp [hi]
    . simp [BitVec.getLsbD_of_ge tests.mask i (by omega)]
  . intro h
    apply BitVec.eq_of_getLsbD_eq
    intro i hi
    rw [BitVec.getLsbD_and, BitVec.getLsbD_setWidth, decide_eq_true hi, Bool.true_and, h i]

theorem decides_empty : empty.Decides [] fun _ => true where
  mask_mem := by simp [empty]
  result_le := by simp [empty]
  eval_eq flags := by simp [eval, empty]

theorem getLsbD_mask_addTestsByMask (tests : FlagTests) (hi : i < 32) (isSet : Bool) (j : Nat)
    : (tests.addTestsByMask ((BitVec.twoPow 32 i).setWidth 64) isSet).mask.getLsbD j
        = (tests.mask.getLsbD j || decide (i = j)) := by
  simp only [addTestsByMask, BitVec.getLsbD_or, BitVec.getLsbD_setWidth, BitVec.getLsbD_twoPow]
  grind

theorem getLsbD_result_addTestsByMask (tests : FlagTests) (hi : i < 32) (isSet : Bool) (j : Nat)
    : (tests.addTestsByMask ((BitVec.twoPow 32 i).setWidth 64) isSet).result.getLsbD j
        = if i = j then isSet else tests.result.getLsbD j := by
  cases isSet with
  | true =>
    simp only [addTestsByMask, if_true, BitVec.getLsbD_or, BitVec.getLsbD_setWidth,
      BitVec.getLsbD_twoPow]
    grind
  | false =>
    simp only [addTestsByMask, Bool.false_eq_true, if_false, BitVec.getLsbD_and, BitVec.getLsbD_not,
      BitVec.getLsbD_setWidth, BitVec.getLsbD_twoPow]
    have hlt : tests.result.getLsbD j = true → j < 64 := BitVec.lt_of_getLsbD
    grind

variable {tests : FlagTests} {bits : List Nat} {p : Flags → Bool}

theorem Decides.addTestsByMask (h : tests.Decides bits p) (hi : i < 32) (hnew : i ∉ bits)
    (isSet : Bool)
    : (tests.addTestsByMask ((BitVec.twoPow 32 i).setWidth 64) isSet).Decides (i :: bits)
        fun flags => p flags && flags.getLsbD i == isSet where
  mask_mem j hj := by
    rw [getLsbD_mask_addTestsByMask tests hi, Bool.or_eq_true, decide_eq_true_iff] at hj
    rcases hj with hj | hj
    . exact mem_cons_of_mem i (h.mask_mem j hj)
    . simp [hj]
  result_le j hj := by
    rw [getLsbD_result_addTestsByMask tests hi] at hj
    rw [getLsbD_mask_addTestsByMask tests hi]
    split at hj
    next heq => simp [heq]
    next => simp [h.result_le j hj]
  eval_eq flags := by
    have hclear : tests.mask.getLsbD i = false := by
      rw [Bool.eq_false_iff]
      exact fun hset => hnew (h.mask_mem i hset)
    have hresult : tests.result.getLsbD i = false := by
      rw [Bool.eq_false_iff]
      intro hset
      rw [h.result_le i hset] at hclear
      cases hclear
    rw [← h.eval_eq flags, Bool.eq_iff_iff, Bool.and_eq_true, beq_iff_eq, eval_iff, eval_iff]
    simp only [getLsbD_mask_addTestsByMask tests hi, getLsbD_result_addTestsByMask tests hi]
    constructor
    . intro hall
      constructor
      . intro j
        by_cases heq : i = j
        . subst heq
          rw [hclear, hresult, Bool.and_false]
        . simpa [heq] using hall j
      . simpa using hall i
    intro ⟨hall, hbit⟩ j
    by_cases heq : i = j
    . subst heq
      simpa using hbit
    . simpa [heq] using hall j

theorem Decides.addUnless (h : tests.Decides bits p) (allow : Bool) (hi : i < 32) (hnew : i ∉ bits)
    (isSet : Bool)
    : (if !allow then tests.addTestsByMask ((BitVec.twoPow 32 i).setWidth 64) isSet
        else tests).Decides (i :: bits) fun flags => p flags && (allow || flags.getLsbD i == isSet) := by
  cases allow with
  | false => simpa using h.addTestsByMask hi hnew isSet
  | true =>
    constructor
    . exact fun j hj => mem_cons_of_mem i (h.mask_mem j hj)
    . exact h.result_le
    . simp [h.eval_eq]

end FlagTests

def Config.accepts (config : Config) (flags : Flags) : Bool :=
  flags.getLsbD 2 == true
    && (config.allowStaleValidationChain || flags.getLsbD 3 == false)
    && (config.allowStaleCrl || flags.getLsbD 5 == false)
    && (config.allowStaleManifest || flags.getLsbD 6 == false)
    && (config.allowNoManifest || flags.getLsbD 8 == true)
    && (config.allowNotYet || flags.getLsbD 4 == false)

theorem eval_flagTestsDefault (config : Config) (flags : Flags)
    : (flagTestsDefault config).eval flags = config.accepts flags := by
  have h := FlagTests.decides_empty
    |>.addTestsByMask (i := 2) (by decide) (by decide) true
    |>.addUnless config.allowStaleValidationChain (i := 3) (by decide) (by decide) false
    |>.addUnless config.allowStaleCrl (i := 5) (by decide) (by decide) false
    |>.addUnless config.allowStaleManifest (i := 6) (by decide) (by decide) false
    |>.addUnless config.allowNoManifest (i := 8) (by decide) (by decide) true
    |>.addUnless config.allowNotYet (i := 4) (by decide) (by decide) false
  rw [Config.accepts]
  exact h.eval_eq flags

theorem Flags.test_bit (flags : Flags) (h : i < 32) (isSet : Bool)
    : flags.test (BitVec.twoPow 32 i) isSet = (flags.getLsbD i == isSet) := by
  cases isSet with
  | true => simp [test_twoPow flags i h]
  | false => simp [test_false_eq_not_test_true, test_twoPow flags i h]

namespace Cond

variable {ρ : Type}

theorem eval_andThen (filters : String → ρ → Bool) (flags : ρ → Flags) (row : ρ)
    (preceding : Option Cond) (test : Cond)
    : (andThen preceding test).eval filters flags row
        = (preceding.all (fun c => c.eval filters flags row) && test.eval filters flags row) := by
  cases preceding with
  | none => simp [andThen]
  | some => simp [andThen, eval]

theorem eval_queryFlagTests (config : Config) (preceding : Option Cond)
    (filters : String → ρ → Bool) (flags : ρ → Flags) (row : ρ)
    : (queryFlagTests config preceding).eval filters flags row
        = (preceding.all (fun c => c.eval filters flags row) && config.accepts (flags row)) := by
  have hvalidated := Flags.test_bit (flags row) (i := 2) (by decide) true
  have hnochain := Flags.test_bit (flags row) (i := 3) (by decide) false
  have hstalecrl := Flags.test_bit (flags row) (i := 5) (by decide) false
  have hstaleman := Flags.test_bit (flags row) (i := 6) (by decide) false
  have honman := Flags.test_bit (flags row) (i := 8) (by decide) true
  have hnotyet := Flags.test_bit (flags row) (i := 4) (by decide) false
  simp only [queryFlagTests, eval_addUnless, eval_andThen, eval, Config.accepts, Bool.and_assoc]
  rw [← hvalidated, ← hnochain, ← hstalecrl, ← hstaleman, ← honman, ← hnotyet]
  rfl

theorem size_andThen (preceding : Option Cond) (test : Cond)
    : (andThen preceding test).text.utf8ByteSize
        ≤ (startText preceding).utf8ByteSize + test.text.utf8ByteSize + 4 := by
  cases preceding with
  | none =>
    simp only [andThen]
    omega
  | some =>
    simp only [andThen, startText, text, String.utf8ByteSize_append]
    have hand : " and".utf8ByteSize = 4 := by decide
    omega

theorem size_addUnless (c : Cond) (allow : Bool) (flagVal : Flags) (isSet : Bool)
    : (c.addUnless allow flagVal isSet).text.utf8ByteSize
        ≤ c.text.utf8ByteSize + (flagTestText flagVal isSet).utf8ByteSize + 4 := by
  cases allow with
  | true =>
    simp only [addUnless, Bool.not_true, Bool.false_eq_true, if_false]
    omega
  | false => exact size_andThen (some c) (flagTest flagVal isSet)

theorem size_queryFlagTests (config : Config) (preceding : Option Cond)
    : (queryFlagTests config preceding).text.utf8ByteSize
        ≤ (startText preceding).utf8ByteSize + 122 := by
  have hvalidated : (flagTestText Flags.validated true).utf8ByteSize = 15 := by decide
  have hnochain : (flagTestText Flags.nochain false).utf8ByteSize = 15 := by decide
  have hstalecrl : (flagTestText Flags.stalecrl false).utf8ByteSize = 16 := by decide
  have hstaleman : (flagTestText Flags.staleman false).utf8ByteSize = 17 := by decide
  have honman : (flagTestText Flags.onman true).utf8ByteSize = 19 := by decide
  have hnotyet : (flagTestText Flags.notyet false).utf8ByteSize = 16 := by decide
  simp only [queryFlagTests]
  grind [size_addUnless, size_andThen, text]

end Cond

theorem addQueryFlagTests_agrees (config : Config) (preceding : Option Cond)
    : ∃ c : Cond,
        addQueryFlagTests config (Cond.startText preceding) preceding.isSome = fit c.text
          ∧ c.text.utf8ByteSize ≤ (Cond.startText preceding).utf8ByteSize + 122
          ∧ ∀ {ρ : Type} (filters : String → ρ → Bool) (flags : ρ → Flags) (row : ρ),
            c.eval filters flags row
              = (preceding.all (fun c => c.eval filters flags row)
                  && (flagTestsDefault config).eval (flags row)) := by
  refine ⟨Cond.queryFlagTests config preceding, Cond.addQueryFlagTests_eq_fit config preceding,
    Cond.size_queryFlagTests config preceding, ?_⟩
  intro ρ filters flags row
  rw [Cond.eval_queryFlagTests, eval_flagTestsDefault]

end Rpstir
