import Rpstir.Chaser.Text

/-!
This module contains when `check_uri_chars` and `remove_dot_dot` stay inside the string they are given: in
a buffer that ends with the terminator, every other access is one outside the buffer.
-/

namespace Rpstir.Chaser

open List Option

open CString

section

variable {text : List Char} (hnul : nul ∉ text)
include hnul

theorem isSome_removeDotDot_iff {fuel : Nat} (isModified : Bool) (hfuel : text.length < fuel)
    (hsize : text.length < 2 ^ 64 - 3)
    : (removeDotDot fuel isModified (text ++ [nul])).isSome = true ↔ removeDotDotText text ≠ .outside := by
  exact (@removeDotDot_text text [] fuel isModified hnul hfuel (by simp; omega)).isSome_iff

theorem isSome_checkUriChars_iff (hsize : text.length < 2 ^ 64 - 3)
    : (checkUriChars (text ++ [nul])).isSome = true ↔
        text.any isBadChar = true ∨
          ∃ ch rest, text = ch :: rest ∧ ¬EndsInDot text ∧ scrubText ch rest ≠ .outside := by
  have hbad := @hasBadChar_text text [] hnul
  cases text with
  | nil => simp [checkUriChars, hasBadChar, collapse]
  | cons ch rest =>
    have hnul' : nul ∉ rest := fun h => hnul (mem_cons_of_mem ch h)
    rw [cons_append] at hbad ⊢
    cases hany : (ch :: rest).any isBadChar with
    | true =>
      rw [hany] at hbad
      simp only [checkUriChars, hbad, bind_eq_bind, bind_some, if_true, true_or, iff_true]
      rfl
    | false =>
      rw [hany] at hbad
      by_cases hend : EndsInDot (ch :: rest)
      . -- the scan goes on behind the terminator
        have hcollapse : collapse ch (rest ++ [nul]) = none :=
          @collapse_of_endsInDot rest ch [] hnul' hend none rfl
        have hnone : checkUriChars (ch :: (rest ++ [nul])) = none := by
          simp only [checkUriChars, hbad, hcollapse, bind_eq_bind, bind_some,
            Bool.false_eq_true, if_false, bind_none]
        simp [hnone, hend]
      . have hcheck := @checkUriChars_text rest ch (rest ++ [nul]) hnul hbad (collapse_text hnul' hend)
          (by simp) (by simp at hsize ⊢; omega)
        rw [hcheck.isSome_iff]
        simp [hend]

theorem scanners_inside_iff (hsize : text.length < 2 ^ 64 - 3)
    : ((checkUriChars (text ++ [nul])).isSome = true ∧
        ∀ fuel isModified, text.length < fuel →
          (removeDotDot fuel isModified (text ++ [nul])).isSome = true)
      ↔ (text.any isBadChar = true ∨
          ∃ ch rest, text = ch :: rest ∧ ¬EndsInDot text ∧ scrubText ch rest ≠ .outside)
        ∧ removeDotDotText text ≠ .outside := by
  rw [isSome_checkUriChars_iff hnul hsize, and_congr_right_iff]
  intro _
  constructor
  . intro h
    exact (isSome_removeDotDot_iff hnul false (Nat.lt_succ_self _) hsize).mp (h _ false (Nat.lt_succ_self _))
  . intro h fuel isModified hfuel
    exact (isSome_removeDotDot_iff hnul isModified hfuel hsize).mpr h

end

theorem scanners_inside_dotDot
    : (checkUriChars ("a/b/../c".toList ++ [nul])).isSome = true ∧
        ∀ fuel isModified, "a/b/../c".toList.length < fuel →
          (removeDotDot fuel isModified ("a/b/../c".toList ++ [nul])).isSome = true := by
  apply (@scanners_inside_iff "a/b/../c".toList (by decide) (by decide)).mpr
  refine ⟨.inr ⟨'a', "/b/../c".toList, rfl, by decide, ?_⟩, ?_⟩
  all_goals
    intro h
    simp [scrubText, collapseText, Collapsed.copy, Collapsed.copyDots, removeDotDotText, findDotsText,
      atDots, findSlash] at h

theorem scanners_outside
    : checkUriChars [nul] = none ∧ checkUriChars ("a/.".toList ++ [nul]) = none ∧
        checkUriChars ("a/b/..".toList ++ [nul]) = none := by
  decide +kernel

end Rpstir.Chaser
