import Rpstir.Casn.Encode
import Rpstir.Data.CString

/-!
This module contains object identifiers as texts and as contents (`casn_objid.c`, and `_write_objid` of
`casn.c`). A result `none` is an access outside of a buffer, an error or a value that is not defined.
-/

namespace Rpstir.Casn

open List Option CString

def toLong (val : Nat) : Int :=
  (val : Int).bmod (2 ^ 64)

/--
The digits of a negative number are subtracted from '0'.
-/
def putd (val : Int) : List Char :=
  (Nat.toDigits 10 val.natAbs).map fun c => if val < 0 then Char.ofNat (96 - c.toNat) else c

def subidentifiers (w val : Nat) : List UInt8 → Option (List Nat)
  | [] => none
  | b :: c =>
    if b &&& 0x80 ≠ 0 then
      subidentifiers w ((val * 128 + (b &&& 0x7f).toNat) % w) c
    else if c = [] then
      some [(val * 128 + b.toNat) % w]
    else
      (subidentifiers w 0 c).map ((val * 128 + b.toNat) % w :: ·)

def firstArcs (val : Nat) : Int × Int :=
  (if val < 120 then val / 40 else 2, if val < 120 then val % 40 else toLong (val - 80))

def arcTexts : List Nat → List (List Char)
  | [] => []
  | val :: vals => (putd (toLong val) ++ if vals = [] then [] else ['.']) :: arcTexts vals

def texts (val : Nat) (vals : List Nat) : List (List Char) :=
  (putd (firstArcs val).1 ++ '.' :: putd (firstArcs val).2) :: (arcTexts vals).modifyHead ('.' :: ·)

/--
The result and what is written. In the mode for the size each text is written to the start of a buffer of
16 bytes.
-/
def readsizeObjid (mode : Mode) (contents : List UInt8) : Option (Nat × List Char) :=
  if contents = [] then
    some (0, [])
  else
    match subidentifiers (2 ^ 64) 0 contents, mode with
    | some (val :: vals), .read =>
      some ((texts val vals).flatten.length + 1, (texts val vals).flatten ++ [nul])
    | some (val :: vals), .size =>
      if ∀ text ∈ texts val vals, text.length ≤ 16 then
        some ((texts val vals).flatten.length + 1, [])
      else
        none
    | _, _ => none

def diffObjid (contents : List UInt8) (objid : List Char) : Option Int := do
  let (lth, _) ← readsizeObjid .size contents
  if lth = 0 then
    return -2
  let (_, c) ← readsizeObjid .read contents
  let lth2 := objid.length + 1
  let ansr := min lth lth2
  match compare (c.take ansr) ((objid ++ [nul]).take ansr) with
  | .eq => return if lth2 > lth then 1 else if lth < lth2 then -1 else 0
  | .gt => return 1
  | .lt => return -1

def getd (text : List Char) : Int :=
  text.foldl (fun val c => (val * 10 + c.toNat - 48).bmod (2 ^ 64)) 0

def sizeOfField (tmp : Nat) : Nat :=
  if tmp = 0 then 0 else sizeOfField (tmp / 128) + 1

def fillField (tmp : Nat) : Nat → Nat → List UInt8
  | 0, _ => []
  | siz + 1, val =>
    fillField tmp siz (val / 128) ++ [UInt8.ofNat (val % 128 + if tmp ≠ val then 0x80 else 0)]

/--
The size of a negative number is never found.
-/
def writeField (val : Int) : Option (List UInt8) :=
  if val < 0 then none else some (fillField val.toNat (sizeOfField val.toNat) val.toNat)

def writeFields : List (List Char) → Option (List UInt8)
  | [] => some []
  | [[]] => some []
  | field :: fields =>
    match if getd field = 0 then some [0] else writeField (getd field), writeFields fields with
    | some bytes, some bytes' => some (bytes ++ bytes')
    | _, _ => none

/--
If there is no field behind the first two, the length is the distance of pointers into two buffers.
-/
def writeObjid (text : List Char) : Option (List UInt8) :=
  match text.splitOn '.' with
  | first :: second :: fields =>
    if fields = [] ∨ fields = [[]] then
      none
    else
      match writeField ((getd first * 40 + getd second).bmod (2 ^ 64)), writeFields fields with
      | some bytes, some bytes' => some (bytes ++ bytes')
      | _, _ => none
  | _ => none

/-
The strings and their encodings, for numbers of any size.
-/
def Canonical : List Nat → Prop
  | a :: b :: _ => a ≤ 2 ∧ (a < 2 → b < 40)
  | _ => False

def dotted (arcs : List Nat) : List Char :=
  ['.'].intercalate (arcs.map (Nat.toDigits 10))

def high (val : Nat) : List UInt8 :=
  if val = 0 then [] else high (val / 128) ++ [UInt8.ofNat (val % 128 + 0x80)]

def subidentifier (val : Nat) : List UInt8 :=
  high (val / 128) ++ [UInt8.ofNat (val % 128)]

def merge : List Nat → List Nat
  | a :: b :: arcs => (40 * a + b) :: arcs
  | _ => []

def unmerge : List Nat → List Nat
  | val :: vals => min (val / 40) 2 :: (val - 40 * min (val / 40) 2) :: vals
  | [] => []

def derObjid (arcs : List Nat) : List UInt8 :=
  (merge arcs).flatMap subidentifier

section Encoding

variable {w val : Nat} {vals arcs : List Nat} {contents : List UInt8}

theorem merge_unmerge (hne : vals ≠ []) : Canonical (unmerge vals) ∧ merge (unmerge vals) = vals := by
  cases vals with
  | nil => contradiction
  | cons =>
    simp only [unmerge, merge, Canonical, cons.injEq, and_true]
    omega

theorem unmerge_merge (h : Canonical arcs) : unmerge (merge arcs) = arcs := by
  match arcs, h with
  | a :: b :: arcs, h =>
    simp only [Canonical] at h
    simp only [unmerge, merge, cons.injEq, and_true]
    omega

theorem toNat_ofNat_add {n : Nat} (hn : n < 128) : (UInt8.ofNat (n + 0x80)).toNat = n + 128 := by
  rw [UInt8.toNat_ofNat']
  omega

theorem mod_step (a b : Nat) : (a % w * 128 + b) % w = (a * 128 + b) % w := by
  rw [Nat.add_mod, Nat.mod_mul_mod, ← Nat.add_mod]

theorem subidentifiers_high (l : List UInt8)
    : subidentifiers w 0 (high val ++ l) = subidentifiers w (val % w) l := by
  fun_induction high val generalizing l with
  | case1 => rw [Nat.zero_mod, nil_append]
  | case2 val _ ih =>
    have hbyte := toNat_ofNat_add (Nat.mod_lt val (by decide : 0 < 128))
    have hsign : UInt8.ofNat (val % 128 + 0x80) &&& 0x80 ≠ 0 := by
      rw [ne_eq, Bytes.and_sign_eq_zero_iff, hbyte]
      omega
    have hlow : (UInt8.ofNat (val % 128 + 0x80) &&& 0x7f).toNat = val % 128 := by
      rw [UInt8.toNat_and, hbyte]
      exact (Nat.and_two_pow_sub_one_eq_mod _ 7).trans (by omega)
    rw [append_assoc, ih, singleton_append, subidentifiers, if_pos hsign, hlow, mod_step, Nat.div_add_mod']

theorem subidentifiers_flatMap (hne : vals ≠ [])
    : subidentifiers w 0 (vals.flatMap subidentifier) = some (vals.map (· % w)) := by
  induction vals with
  | nil => contradiction
  | cons val vals ih =>
    have hbyte : (UInt8.ofNat (val % 128)).toNat = val % 128 := by
      rw [UInt8.toNat_ofNat']
      omega
    have hsign : ¬(UInt8.ofNat (val % 128) &&& 0x80 ≠ 0) := by
      rw [not_not, Bytes.and_sign_eq_zero_iff, hbyte]
      omega
    rw [flatMap_cons, subidentifier, append_assoc, subidentifiers_high, singleton_append, subidentifiers,
      if_neg hsign, hbyte, mod_step, Nat.div_add_mod']
    cases vals with
    | nil => rfl
    | cons =>
      rw [ih (by simp), if_neg (by simp [subidentifier])]
      rfl

theorem flatMap_subidentifier_inj {vals' : List Nat} (hne : vals ≠ []) (hne' : vals' ≠ [])
    (h : vals.flatMap subidentifier = vals'.flatMap subidentifier) : vals = vals' := by
  have heq := congrArg (subidentifiers 0 0) h
  simpa [subidentifiers_flatMap hne, subidentifiers_flatMap hne'] using heq

theorem isSome_subidentifiers (contents : List UInt8) (b : UInt8)
    : (subidentifiers w val (contents ++ [b])).isSome = true ↔ b &&& 0x80 = 0 := by
  induction contents generalizing val with
  | nil =>
    rw [nil_append, subidentifiers]
    split <;> simp_all [subidentifiers]
  | cons _ contents ih =>
    rw [cons_append, subidentifiers]
    split
    . exact ih
    . rw [if_neg (by simp), Option.isSome_map, ih]

theorem subidentifiers_lt (hw : 0 < w) (h : subidentifiers w val contents = some vals)
    : vals ≠ [] ∧ ∀ v ∈ vals, v < w := by
  fun_induction subidentifiers w val contents generalizing vals with
  | case1 => cases h
  | case2 val b c hsign ih => exact ih h
  | case3 =>
    cases h
    simpa using Nat.mod_lt _ hw
  | case4 val b c hsign _ ih =>
    obtain ⟨_, hvals', rfl⟩ := Option.map_eq_some_iff.mp h
    exact ⟨by simp, forall_mem_cons.mpr ⟨Nat.mod_lt _ hw, (ih hvals').2⟩⟩

end Encoding

section Text

variable {val : Nat} {vals arcs : List Nat} {contents : List UInt8}

def printed (val : Nat) (vals : List Nat) : List Int :=
  (firstArcs val).1 :: (firstArcs val).2 :: vals.map toLong

theorem flatten_arcTexts (vals : List Nat)
    : (arcTexts vals).flatten = ['.'].intercalate ((vals.map toLong).map putd) := by
  induction vals with
  | nil => rfl
  | cons _ vals ih =>
    rw [arcTexts, flatten_cons, ih]
    cases vals with
    | nil => simp
    | cons => simp [intercalate_cons_cons]

theorem flatten_texts : (texts val vals).flatten = ['.'].intercalate ((printed val vals).map putd) := by
  have htexts := flatten_arcTexts vals
  rw [texts, printed]
  generalize (firstArcs val).1 = first, (firstArcs val).2 = second
  cases vals with
  | nil => simp [arcTexts, intercalate_cons_cons]
  | cons val' vals =>
    have hmodify : ((arcTexts (val' :: vals)).modifyHead ('.' :: ·)).flatten
        = '.' :: (arcTexts (val' :: vals)).flatten := by
      rw [arcTexts, modifyHead_cons, flatten_cons, flatten_cons, cons_append]
    rw [flatten_cons, hmodify, htexts, map_cons]
    generalize toLong val' = a, vals.map toLong = as
    simp [intercalate_cons_cons]

theorem toLong_of_nonneg (hval : val < 2 ^ 64) (h : 0 ≤ toLong val) : toLong val = val := by
  have hmod : toLong val % (2 ^ 64 : Nat) = val % (2 ^ 64 : Nat) := Int.bmod_emod
  have hlt : toLong val < (2 ^ 64 + 1) / 2 := Int.bmod_lt (by decide)
  rwa [Int.emod_eq_of_lt h (by omega), Int.emod_eq_of_lt (by omega) (by omega)] at hmod

theorem printed_of_nonneg (hlt : ∀ v ∈ val :: vals, v < 2 ^ 64) (h : ∀ a ∈ printed val vals, 0 ≤ a)
    : printed val vals = (unmerge (val :: vals)).map Nat.cast := by
  rw [forall_mem_cons] at hlt
  simp only [printed, forall_mem_cons, List.forall_mem_map] at h
  have hvals : vals.map toLong = vals.map Nat.cast :=
    map_congr_left fun v hv => toLong_of_nonneg (hlt.2 v hv) (h.2.2 v hv)
  have hsecond := h.2.1
  simp only [printed, unmerge, map_cons, hvals, cons.injEq, and_true, firstArcs] at hsecond ⊢
  split at hsecond
  . omega
  . rw [toLong_of_nonneg (by omega) hsecond]
    omega

theorem text_of_nonneg (hlt : ∀ v ∈ val :: vals, v < 2 ^ 64) (h : ∀ a ∈ printed val vals, 0 ≤ a)
    : (texts val vals).flatten = dotted (unmerge (val :: vals)) := by
  rw [flatten_texts, printed_of_nonneg hlt h, dotted, List.map_map]
  congr 2
  funext n
  simp [putd, Int.not_lt.mpr (Int.natCast_nonneg n)]

theorem dot_notMem_toDigits (n : Nat) : '.' ∉ Nat.toDigits 10 n := by
  intro h
  exact absurd (Nat.isDigit_of_mem_toDigits (by decide) (by decide) h) (by decide)

theorem splitOn_dotted (hne : arcs ≠ []) : (dotted arcs).splitOn '.' = arcs.map (Nat.toDigits 10) := by
  apply splitOn_intercalate
  . rw [List.forall_mem_map]
    exact fun n _ => dot_notMem_toDigits n
  . simpa using hne

theorem dotted_inj {arcs' : List Nat} (hne : arcs ≠ []) (hne' : arcs' ≠ []) (h : dotted arcs = dotted arcs')
    : arcs = arcs' := by
  have hsplit := congrArg (splitOn '.') h
  rw [splitOn_dotted hne, splitOn_dotted hne'] at hsplit
  refine map_injective_iff.mpr (fun m n hmn => ?_) hsplit
  have hvalue := congrArg (Nat.ofDigitChars 10 · 0) hmn
  simpa [Nat.ofDigitChars_toDigits] using hvalue

def DigitsFollow (text : List Char) : Prop :=
  text.IsChain fun c d => c = '.' → d.isDigit = true

theorem digitsFollow_append {l text : List Char} (hl : '.' ∉ l) (h : DigitsFollow text)
    : DigitsFollow (l ++ text) := by
  induction l with
  | nil => exact h
  | cons _ l ih =>
    rw [mem_cons, not_or] at hl
    exact isChain_cons.mpr ⟨fun _ _ hc => absurd hc.symm hl.1, ih hl.2⟩

theorem digitsFollow_dotted (arcs : List Nat) : DigitsFollow (dotted arcs) := by
  induction arcs with
  | nil => exact .nil
  | cons a arcs ih =>
    have hdot := dot_notMem_toDigits a
    cases arcs with
    | nil => simpa [dotted] using digitsFollow_append hdot .nil
    | cons b arcs =>
      have hhead : ∀ c ∈ (dotted (b :: arcs)).head?, c.isDigit = true := by
        intro c hc
        obtain ⟨rest, hrest⟩ : ∃ rest, dotted (b :: arcs) = Nat.toDigits 10 b ++ rest := by
          cases arcs <;> simp [dotted, intercalate_cons_cons]
        rw [hrest, head?_append_of_ne_nil _ Nat.toDigits_ne_nil] at hc
        exact Nat.isDigit_of_mem_toDigits (by decide) (by decide) (mem_of_mem_head? hc)
      rw [dotted, map_cons, map_cons, intercalate_cons_cons, append_assoc]
      exact digitsFollow_append hdot (isChain_cons.mpr ⟨fun c hc _ => hhead c hc, ih⟩)

theorem head_toDigits {n : Nat} (hn : 0 < n)
    : ∃ c l, Nat.toDigits 10 n = c :: l ∧ 48 < c.toNat ∧ c.toNat < 58 := by
  induction n using Nat.strongRecOn with
  | ind n ih =>
    by_cases hlt : n < 10
    . have hdigit : ∀ n < 10, 0 < n → 48 < n.digitChar.toNat ∧ n.digitChar.toNat < 58 := by decide
      exact ⟨_, _, Nat.toDigits_of_lt_base hlt, hdigit n hlt hn⟩
    . obtain ⟨c, l, hdigits, hc⟩ := ih (n / 10) (by omega) (by omega)
      refine ⟨c, l ++ [(n % 10).digitChar], ?_, hc⟩
      rw [Nat.toDigits_of_base_le (by decide) (by omega), hdigits, cons_append]

theorem not_digitsFollow {a : Int} {as : List Int} (x : Int) (ha : a ∈ as) (hneg : a < 0)
    : ¬DigitsFollow (['.'].intercalate ((x :: as).map putd)) := by
  induction as generalizing x with
  | nil => cases ha
  | cons b as ih =>
    intro h
    rw [map_cons, map_cons, intercalate_cons_cons, append_assoc, DigitsFollow, isChain_append,
      singleton_append, isChain_cons, ← map_cons] at h
    rcases mem_cons.mp ha with rfl | ha
    . obtain ⟨c, _, hdigits, hc⟩ := head_toDigits (Int.natAbs_pos.mpr hneg.ne)
      have hnot : ∀ k < 58, 48 < k → (Char.ofNat (96 - k)).isDigit = false := by decide
      have hdigit := h.2.1.1 (Char.ofNat (96 - c.toNat)) (by cases as <;> simp [putd, hdigits, hneg, intercalate_cons_cons]) rfl
      rw [hnot _ hc.2 hc.1] at hdigit
      cases hdigit
    . exact ih b ha h.2.1.2

theorem nul_notMem_text : nul ∉ (texts val vals).flatten := by
  have hputd (val : Int) : nul ∉ putd val := by
    intro h
    obtain ⟨_, hc, heq⟩ := mem_map.mp h
    have hdigit := Char.isDigit_iff_toNat.mp (Nat.isDigit_of_mem_toDigits (by decide) (by decide) hc)
    have hneg : ∀ k ≤ 57, 48 ≤ k → Char.ofNat (96 - k) ≠ nul := by decide
    split at heq
    . exact hneg _ hdigit.2 hdigit.1 heq
    . rw [heq] at hdigit
      exact absurd hdigit (by decide)
  have hall (ls : List (List Char)) (h : ∀ l ∈ ls, nul ∉ l) : nul ∉ ['.'].intercalate ls := by
    induction ls with
    | nil => exact not_mem_nil
    | cons l ls ih =>
      rw [forall_mem_cons] at h
      cases ls with
      | nil => simpa using h.1
      | cons =>
        rw [intercalate_cons_cons, mem_append, mem_append, not_or, not_or]
        exact ⟨⟨h.1, by decide⟩, ih h.2⟩
  rw [flatten_texts]
  apply hall
  rw [List.forall_mem_map]
  exact fun a _ => hputd a

theorem text_ne_dotted (h : ¬∀ a ∈ printed val vals, 0 ≤ a) (arcs : List Nat)
    : (texts val vals).flatten ≠ dotted arcs := by
  simp only [not_forall, Int.not_le] at h
  obtain ⟨a, ha, hneg⟩ := h
  rw [printed, mem_cons] at ha
  rcases ha with rfl | ha
  . rw [firstArcs] at hneg
    split at hneg <;> omega
  . intro heq
    have hfollow := digitsFollow_dotted arcs
    rw [← heq, flatten_texts] at hfollow
    exact not_digitsFollow _ ha hneg hfollow

theorem readsizeObjid_read (hsub : subidentifiers (2 ^ 64) 0 contents = some (val :: vals))
    : readsizeObjid .read contents
      = some ((texts val vals).flatten.length + 1, (texts val vals).flatten ++ [nul]) := by
  cases contents with
  | nil => cases hsub
  | cons => simp only [readsizeObjid, hsub, reduceCtorEq, if_false]

structure InBounds (contents : List UInt8) (val : Nat) (vals : List Nat) : Prop where
  sub : subidentifiers (2 ^ 64) 0 contents = some (val :: vals)
  fits : ∀ text ∈ texts val vals, text.length ≤ 16

theorem readsizeObjid_size (h : InBounds contents val vals)
    : readsizeObjid .size contents = some ((texts val vals).flatten.length + 1, []) := by
  cases contents with
  | nil => cases h.sub
  | cons =>
    simp only [readsizeObjid, h.sub, reduceCtorEq, if_false]
    exact if_pos h.fits

theorem exists_inBounds (hne : contents ≠ []) (h : readsizeObjid .size contents ≠ none)
    : ∃ val vals, InBounds contents val vals := by
  rcases hsub : subidentifiers (2 ^ 64) 0 contents with _ | _ | ⟨val, vals⟩
  all_goals simp only [readsizeObjid, hne, hsub, if_false, ne_eq, not_true_eq_false] at h
  refine ⟨val, vals, hsub, ?_⟩
  by_contra hnot
  exact h (if_neg hnot)

theorem diffObjid_eq (hin : InBounds contents val vals) (objid : List Char)
    : ∃ r, diffObjid contents objid = some r ∧ (r = 0 ↔ (texts val vals).flatten = objid) := by
  have hnul := @nul_notMem_text val vals
  have hread := readsizeObjid_read hin.sub
  have hvsize := readsizeObjid_size hin
  generalize (texts val vals).flatten = text at *
  have heq (hle : objid.length ≤ text.length)
      (h : (text ++ [nul]).take (min (text.length + 1) (objid.length + 1))
        = (objid ++ [nul]).take (min (text.length + 1) (objid.length + 1))) : text = objid := by
    rw [Nat.min_eq_right (by omega), take_of_length_le (l := objid ++ [nul]) (by simp)] at h
    have hpre : objid ++ [nul] <+: text ++ [nul] := h ▸ take_prefix _ _
    rcases Nat.lt_or_ge objid.length text.length with hlt | _
    . have hshort := prefix_of_prefix_length_le hpre (prefix_append text [nul])
        (by rw [length_append]; exact hlt)
      exact absurd (hshort.subset (by simp)) hnul
    . exact (append_inj_left' (hpre.eq_of_length (by simp; omega)) rfl).symm
  simp only [diffObjid, hread, hvsize, Option.bind_eq_bind, Option.bind_some, Nat.succ_ne_zero, if_false]
  split
  . next hcmp =>
    rw [Std.compare_eq_iff_eq] at hcmp
    refine ⟨_, rfl, ?_⟩
    by_cases hle : objid.length ≤ text.length
    . simp [heq hle hcmp]
    . rw [if_pos (by omega)]
      refine iff_of_false (by decide) ?_
      rintro rfl
      exact hle (Nat.le_refl _)
  all_goals
    next hcmp =>
    refine ⟨_, rfl, iff_of_false (by decide) ?_⟩
    rintro rfl
    simp at hcmp

end Text

section Exact

theorem merge_ne_nil {arcs : List Nat} (h : Canonical arcs) : merge arcs ≠ [] := by
  match arcs, h with
  | a :: b :: arcs, _ => simp [merge]

/--
The comparison is exact for contents that are read inside of their bounds if they are the shortest
encoding of the numbers that are printed, or if a negative number is printed and they are not the encoding
of any numbers.
-/
theorem diffObjid_exact_iff (contents : List UInt8)
    : (∀ arcs, Canonical arcs →
        ∃ r, diffObjid contents (dotted arcs) = some r ∧ (r = 0 ↔ contents = derObjid arcs)) ↔
      contents = [] ∨ ∃ val vals, InBounds contents val vals ∧
        if ∀ a ∈ printed val vals, 0 ≤ a then contents = (val :: vals).flatMap subidentifier
        else ∀ ns : List Nat, contents ≠ ns.flatMap subidentifier := by
  by_cases hne : contents = []
  . refine iff_of_true (fun arcs harcs => ⟨-2, by rw [hne]; rfl, iff_of_false (by decide) ?_⟩) (.inl hne)
    obtain ⟨_, ns, hns⟩ := exists_cons_of_ne_nil (merge_ne_nil harcs)
    simp [hne, derObjid, hns, subidentifier]
  rw [or_iff_right hne]
  constructor
  . intro h
    obtain ⟨val, vals, hin⟩ : ∃ val vals, InBounds contents val vals := by
      apply exists_inBounds hne
      intro hnone
      obtain ⟨r, hr, -⟩ := h [0, 0] (by simp [Canonical])
      rw [diffObjid, hnone] at hr
      cases hr
    have hlt := (subidentifiers_lt (by decide) hin.sub).2
    have hexact {ns : List Nat} (hns : ns ≠ [])
        : (texts val vals).flatten = dotted (unmerge ns) ↔ contents = ns.flatMap subidentifier := by
      obtain ⟨r, hr, hiff⟩ := h (unmerge ns) (merge_unmerge hns).1
      obtain ⟨_, hr', hiff'⟩ := diffObjid_eq hin (dotted (unmerge ns))
      cases hr.symm.trans hr'
      rw [← hiff', hiff, derObjid, (merge_unmerge hns).2]
    refine ⟨val, vals, hin, ?_⟩
    split
    next hpos => exact (hexact (by simp)).mp (text_of_nonneg hlt hpos)
    next hneg =>
      intro ns hns
      have hns' : ns ≠ [] := by
        rintro rfl
        exact hne hns
      exact text_ne_dotted hneg _ ((hexact hns').mpr hns)
  . rintro ⟨val, vals, hin, hcond⟩ arcs harcs
    have hlt := (subidentifiers_lt (by decide) hin.sub).2
    obtain ⟨r, hr, hiff⟩ := diffObjid_eq hin (dotted arcs)
    refine ⟨r, hr, hiff.trans ?_⟩
    split at hcond
    next hpos =>
      rw [text_of_nonneg hlt hpos, hcond, derObjid]
      constructor
      . intro heq
        have harcs' := unmerge_merge harcs
        rw [← dotted_inj (by simp [unmerge]) (by rintro rfl; exact harcs) heq, (merge_unmerge (by simp)).2]
      . intro heq
        rw [flatMap_subidentifier_inj (by simp) (merge_ne_nil harcs) heq, unmerge_merge harcs]
    next hneg => exact iff_of_false (text_ne_dotted hneg arcs) (hcond _)

theorem diffObjid_not_exact
    : diffObjid [0x2a, 0x80, 0x03] (dotted [1, 2, 3]) = some 0 ∧ derObjid [1, 2, 3] = [0x2a, 0x03] := by
  refine ⟨by decide +kernel, ?_⟩
  simp [derObjid, merge, subidentifier, high]

end Exact

section Bounds

variable {val : Nat} {vals : List Nat}

/--
The numbers whose digits fit into the buffer, in front of which 16 - `room` bytes are used; a dot comes
behind all but the last one.
-/
def Fits : Nat → List Nat → Prop
  | _, [] => True
  | room, val :: vals => (toLong val).natAbs < 10 ^ (room - if vals = [] then 0 else 1) ∧ Fits 16 vals

theorem length_putd_le_iff {a : Int} {k : Nat} (hk : 0 < k) : (putd a).length ≤ k ↔ a.natAbs < 10 ^ k := by
  rw [putd, length_map, Nat.length_toDigits_le_iff (by decide) hk]

theorem length_arcText_le_iff {room : Nat} (hroom : 2 ≤ room)
    : (putd (toLong val) ++ if vals = [] then [] else ['.']).length ≤ room ↔
      (toLong val).natAbs < 10 ^ (room - if vals = [] then 0 else 1) := by
  rw [length_append, ← length_putd_le_iff (by split <;> omega)]
  split
  . rw [length_nil, Nat.add_zero, Nat.sub_zero]
  . rw [length_singleton]
    omega

theorem forall_arcTexts_iff (vals : List Nat) : (∀ text ∈ arcTexts vals, text.length ≤ 16) ↔ Fits 16 vals := by
  induction vals with
  | nil => simp [arcTexts, Fits]
  | cons _ vals ih => rw [arcTexts, forall_mem_cons, ih, length_arcText_le_iff (by decide), Fits]

theorem forall_texts_iff
    : (∀ text ∈ texts val vals, text.length ≤ 16) ↔ (firstArcs val).2.natAbs < 10 ^ 14 ∧ Fits 15 vals := by
  have hfirst : (putd (firstArcs val).1).length = 1 := by
    apply Nat.le_antisymm
    . rw [length_putd_le_iff (by decide), firstArcs]
      dsimp only
      split <;> omega
    . exact length_pos_iff.mpr (by simp [putd])
  rw [texts, forall_mem_cons, length_append, length_cons, hfirst, ← length_putd_le_iff (by decide)]
  refine and_congr (by omega) ?_
  cases vals with
  | nil => simp [arcTexts, Fits]
  | cons =>
    rw [arcTexts, modifyHead_cons, forall_mem_cons, forall_arcTexts_iff, length_cons, Nat.add_le_add_iff_right,
      length_arcText_le_iff (by decide), Fits]

theorem objid_bounds_iff (contents : List UInt8)
    : (∃ written, readsizeObjid .read contents = some (written.length, written)
        ∧ readsizeObjid .size contents = some (written.length, [])) ↔
      contents = [] ∨ (∃ l b, contents = l ++ [b] ∧ b &&& 0x80 = 0) ∧
        ∀ val vals, subidentifiers (2 ^ 64) 0 contents = some (val :: vals) →
          (firstArcs val).2.natAbs < 10 ^ 14 ∧ Fits 15 vals := by
  rcases eq_nil_or_concat' contents with rfl | ⟨l, b, rfl⟩
  . exact iff_of_true ⟨[], rfl, rfl⟩ (.inl rfl)
  have hsome := @isSome_subidentifiers (2 ^ 64) 0 l b
  rw [or_iff_right (by simp)]
  constructor
  . rintro ⟨written, -, hsize⟩
    obtain ⟨val, vals, hin⟩ := exists_inBounds (append_ne_nil_of_right_ne_nil l (cons_ne_nil b [])) (by rw [hsize]; exact nofun)
    refine ⟨⟨l, b, rfl, hsome.mp (by rw [hin.sub]; rfl)⟩, fun val' vals' hsub => ?_⟩
    cases hin.sub.symm.trans hsub
    exact forall_texts_iff.mp hin.fits
  . rintro ⟨⟨_, _, heq, hlast⟩, hfits⟩
    obtain ⟨-, rfl⟩ := (append_inj' heq rfl).imp_right singleton_inj.mp
    obtain ⟨vals, hsub⟩ := Option.isSome_iff_exists.mp (hsome.mpr hlast)
    obtain ⟨val, vals, rfl⟩ := exists_cons_of_ne_nil (subidentifiers_lt (by decide) hsub).1
    have hin : InBounds (l ++ [b]) val vals := ⟨hsub, forall_texts_iff.mpr (hfits _ _ hsub)⟩
    exact ⟨(texts val vals).flatten ++ [nul], by simp [readsizeObjid_read hsub], by simp [readsizeObjid_size hin]⟩

theorem objid_out_of_bounds
    : readsizeObjid .read [0x2a, 0x80] = none ∧
      readsizeObjid .size [0x2a, 0xff, 0xff, 0xff, 0xff, 0xff, 0xff, 0xff, 0x7f] = none := by
  decide +kernel

end Bounds

section RoundTrip

variable {n : Nat} {arcs : List Nat}

theorem getd_toDigits (hn : n < 2 ^ 63) : getd (Nat.toDigits 10 n) = n := by
  have hfold {m : Nat} (l : List Char) (hl : ∀ c ∈ l, c.isDigit = true) (init : Nat)
      : l.foldl (fun val c => (val * 10 + c.toNat - 48).bmod m) ((init : Int).bmod m)
        = (Nat.ofDigitChars 10 l init : Int).bmod m := by
    induction l generalizing init with
    | nil => rfl
    | cons c l ih =>
      have hzero : '0'.toNat = 48 := rfl
      rw [forall_mem_cons, Char.isDigit_iff_toNat] at hl
      rw [foldl_cons, Int.add_sub_assoc, ← Int.bmod_add_bmod, Int.bmod_mul_bmod, Int.bmod_add_bmod,
        Nat.ofDigitChars_cons, ← ih hl.2]
      congr 2
      omega
  have hget := @hfold (2 ^ 64) (Nat.toDigits 10 n)
    (fun c hc => Nat.isDigit_of_mem_toDigits (by decide) (by decide) hc) 0
  rw [Nat.ofDigitChars_toDigits (by decide) (by decide)] at hget
  exact hget.trans (Int.bmod_eq_of_le (by omega) (by omega))

theorem fillField_eq_high {tmp : Nat} (h : n < tmp) : fillField tmp (sizeOfField n) n = high n := by
  fun_induction high n with
  | case1 => rw [sizeOfField, if_pos rfl, fillField]
  | case2 n hn ih => rw [sizeOfField, if_neg hn, fillField, ih (by omega), if_pos (by omega)]

theorem writeField_natCast (hn : n ≠ 0) : writeField n = some (subidentifier n) := by
  rw [writeField, if_neg (by omega), Int.toNat_natCast, sizeOfField, if_neg hn, fillField,
    fillField_eq_high (by omega), if_neg (by simp), Nat.add_zero, subidentifier]

theorem writeFields_map (hlt : ∀ a ∈ arcs, a < 2 ^ 63)
    : writeFields (arcs.map (Nat.toDigits 10)) = some (arcs.flatMap subidentifier) := by
  induction arcs with
  | nil => rfl
  | cons a arcs ih =>
    rw [forall_mem_cons] at hlt
    have hfield : (if getd (Nat.toDigits 10 a) = 0 then some [0] else writeField (getd (Nat.toDigits 10 a)))
        = some (subidentifier a) := by
      rw [getd_toDigits hlt.1]
      split
      next hzero =>
        rw [Int.natCast_eq_zero.mp hzero, subidentifier, high]
        rfl
      next hne => exact writeField_natCast (mt Int.natCast_eq_zero.mpr hne)
    rw [map_cons, writeFields, hfield, ih hlt.2]
    . rfl
    . intro h
      simp at h

theorem read_flatMap {val : Nat} {vals : List Nat} (hlt : ∀ v ∈ val :: vals, v < 2 ^ 63)
    : readsizeObjid .read ((val :: vals).flatMap subidentifier)
      = some ((dotted (unmerge (val :: vals))).length + 1, dotted (unmerge (val :: vals)) ++ [nul]) := by
  have hlong {v : Nat} (hv : v < 2 ^ 63) : 0 ≤ toLong v := by
    have heq : toLong v = v := Int.bmod_eq_of_le (by omega) (by omega)
    omega
  have hmod : (val :: vals).map (· % 2 ^ 64) = (val :: vals).map id :=
    map_congr_left fun v hv => Nat.mod_eq_of_lt ((hlt v hv).trans (by decide))
  have hsub := @subidentifiers_flatMap (2 ^ 64) (val :: vals) (by simp)
  rw [hmod, List.map_id] at hsub
  rw [readsizeObjid_read hsub, text_of_nonneg fun v hv => (hlt v hv).trans (by decide)]
  rw [forall_mem_cons] at hlt
  simp only [printed, forall_mem_cons, List.forall_mem_map, firstArcs]
  refine ⟨by split <;> omega, ?_, fun v hv => hlong (hlt.2 v hv)⟩
  split
  . omega
  . exact hlong (by omega)

theorem objid_roundTrip_iff (h : Canonical arcs) (hlt : ∀ a ∈ arcs, a < 2 ^ 32)
    : (writeObjid (dotted arcs)).bind (readsizeObjid .read)
        = some ((dotted arcs).length + 1, dotted arcs ++ [nul]) ↔
      3 ≤ arcs.length ∧ arcs.take 2 ≠ [0, 0] := by
  match arcs, h with
  | a :: b :: rest, h =>
    have hab := h.1
    rw [writeObjid, splitOn_dotted (by simp), map_cons, map_cons]
    rw [forall_mem_cons, forall_mem_cons] at hlt
    have hrest : ∀ a ∈ rest, a < 2 ^ 63 := fun a ha => (hlt.2.2 a ha).trans (by decide)
    cases rest with
    | nil => simp
    | cons c rest =>
      have hmerged : (getd (Nat.toDigits 10 a) * 40 + getd (Nat.toDigits 10 b)).bmod (2 ^ 64)
          = (40 * a + b : Nat) := by
        rw [getd_toDigits (by omega), getd_toDigits (by omega), Int.bmod_eq_of_le (by omega) (by omega)]
        omega
      have hfields : ¬((c :: rest).map (Nat.toDigits 10) = [] ∨ (c :: rest).map (Nat.toDigits 10) = [[]]) := by
        simp
      dsimp only
      rw [if_neg hfields, hmerged, writeFields_map hrest]
      by_cases hzero : 40 * a + b = 0
      . rw [hzero]
        have hwrite : writeField (0 : Nat) = some [] := by simp [writeField, sizeOfField, fillField]
        rw [hwrite]
        dsimp only
        rw [nil_append, bind_some, read_flatMap hrest]
        refine iff_of_false ?_ (by simp; omega)
        intro heq
        have htext := append_inj_left' (congrArg Prod.snd (some.inj heq)) rfl
        have hlength := congrArg length (dotted_inj (by simp [unmerge]) (by simp) htext)
        simp [unmerge] at hlength
      . rw [writeField_natCast hzero]
        dsimp only
        have hunmerge : unmerge ((40 * a + b) :: c :: rest) = a :: b :: c :: rest := unmerge_merge h
        rw [bind_some, ← flatMap_cons, read_flatMap (forall_mem_cons.mpr ⟨by omega, hrest⟩), hunmerge]
        refine iff_of_true rfl ⟨by simp, ?_⟩
        simp
        omega

theorem objid_roundTrip_us
    : (writeObjid (dotted [1, 2, 840])).bind (readsizeObjid .read) = some (8, dotted [1, 2, 840] ++ [nul]) :=
  (@objid_roundTrip_iff [1, 2, 840] (by simp [Canonical]) (by simp)).mpr (by decide)

theorem objid_not_roundTrip
    : writeObjid (dotted [2, 5]) = none ∧
      (writeObjid (dotted [0, 0, 5])).bind (readsizeObjid .read) = some (4, dotted [0, 5] ++ [nul]) := by
  decide +kernel

end RoundTrip

end Rpstir.Casn
