import Mathlib.Data.List.Basic

/-!
This module contains string literals as an SQL server reads them.
-/

namespace SqlString

open List Option

def unescape (c : Char) : List Char :=
  if c = '0' then [Char.ofNat 0]
  else if c = 'b' then [Char.ofNat 8]
  else if c = 'n' then ['\n']
  else if c = 'r' then ['\r']
  else if c = 't' then ['\t']
  else if c = 'Z' then [Char.ofNat 26]
  -- these two keep the backslash, for the patterns of `LIKE`
  else if c = '%' ∨ c = '_' then ['\\', c]
  else [c]

def read (q : Char) : List Char → Option (List Char × List Char)
  | [] => none
  | c :: text =>
    if c = '\\' then
      match text with
      | [] => none
      | e :: text => (read q text).map fun (value, rest) => (unescape e ++ value, rest)
    else if c = q then
      match text with
      | [] => some ([], [])
      | c' :: text' =>
        if c' = q then
          (read q text').map fun (value, rest) => (q :: value, rest)
        else
          some ([], c' :: text')
    else
      (read q text).map fun (value, rest) => (c :: value, rest)

def literal (q : Char) (text : List Char) : Option (List Char) :=
  (read q (text ++ [q])).bind fun (value, rest) => if rest = [] then some value else none

variable {q c : Char} {text value rest : List Char}

theorem read_backslash (e : Char)
    : read q ('\\' :: e :: text)
        =
      (read q text).map fun (value, rest) => (unescape e ++ value, rest) := by
  simp [read]

theorem read_char (hbackslash : c ≠ '\\') (hquote : c ≠ q)
    : read q (c :: text) = (read q text).map fun (value, rest) => (c :: value, rest) := by
  rw [read.eq_def]
  simp only [hbackslash, hquote, if_false]

theorem read_quote (hq : q ≠ '\\') : read q [q] = some ([], []) := by
  rw [read.eq_def]
  simp [hq]

theorem read_append_quote (hq : q ≠ '\\') (h : ∀ c ∈ text, c ≠ '\\' ∧ c ≠ q)
    : read q (text ++ [q]) = some (text, []) := by
  induction text with
  | nil => exact read_quote hq
  | cons c text ih =>
    rw [forall_mem_cons] at h
    rw [cons_append, read_char h.1.1 h.1.2, ih h.2, Option.map_some]

theorem length_unescape_le (c : Char) : (unescape c).length ≤ 2 := by
  unfold unescape
  repeat' split
  all_goals simp

theorem length_of_read (h : read q text = some (value, rest))
    : value.length + rest.length < text.length := by
  fun_induction read q text generalizing value rest with
  | case1
  | case2 => cases h
  | case3 e text ih =>
    obtain ⟨⟨value', rest'⟩, hread, heq⟩ := map_eq_some_iff.mp h
    cases heq
    have hlen := ih hread
    have hunescape := length_unescape_le e
    simp only [length_append, length_cons]
    omega
  | case4
  | case6 =>
    cases h
    simp
  | case5 _ _ ih
  | case7 _ _ _ _ ih =>
    obtain ⟨⟨value', rest'⟩, hread, heq⟩ := map_eq_some_iff.mp h
    cases heq
    have hlen := ih hread
    simp only [length_cons]
    omega

theorem literal_eq_some_iff
    : literal q text = some value ↔ read q (text ++ [q]) = some (value, []) := by
  unfold literal
  cases hread : read q (text ++ [q]) with
  | none => simp
  | some x =>
    rcases x with ⟨_, _⟩
    simp only [bind_some, some.injEq, Prod.mk.injEq]
    split
    . next hrest => simp [hrest]
    . next hrest => simp [hrest]

theorem literal_eq_self (hq : q ≠ '\\') (h : ∀ c ∈ text, c ≠ '\\' ∧ c ≠ q) : literal q text = some text :=
  literal_eq_some_iff.mpr (read_append_quote hq h)

end SqlString
