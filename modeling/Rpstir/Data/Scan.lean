import Mathlib.Data.List.DropRight
import Mathlib.Data.Nat.Bitwise

/-!
This module contains text as the C library reads it: the classes of characters, the search for a
character, the blanks around a text, and decimal numbers.
-/

namespace Scan

open List Option

def isspace (c : Char) : Bool :=
  c = ' ' || ('\t' ≤ c && c ≤ '\r')

def isdigit (c : Char) : Bool :=
  '0' ≤ c && c ≤ '9'

def isxdigit (c : Char) : Bool :=
  isdigit c || ('a' ≤ c && c ≤ 'f') || ('A' ≤ c && c ≤ 'F')

def strchr (c : Char) : List Char → Option (List Char × List Char)
  | [] => none
  | x :: text => if x = c then some ([], text) else (strchr c text).map fun (a, b) => (x :: a, b)

def Blanks (text : List Char) : Prop :=
  ∀ c ∈ text, isspace c = true

def trim (text : List Char) : List Char :=
  (text.dropWhile isspace).rdropWhile isspace

def digitsValue (digits : List Char) : Nat :=
  digits.foldl (fun n c => 10 * n + (c.toNat - '0'.toNat)) 0

def sign : List Char → Bool × List Char
  | '-' :: text => (true, text)
  | '+' :: text => (false, text)
  | text => (false, text)

structure Number where
  negative : Bool
  value : Nat
  rest : List Char
  deriving DecidableEq, Repr

def number (text : List Char) : Option Number :=
  let (negative, text) := sign (text.dropWhile isspace)
  let digits := text.takeWhile isdigit
  if digits = [] then none else some ⟨negative, digitsValue digits, text.dropWhile isdigit⟩

def scanLong (text : List Char) : Option Nat :=
  (number text).map fun n =>
    if n.negative then (2 ^ 64 - min n.value (2 ^ 63)) % 2 ^ 64 else min n.value (2 ^ 63 - 1)

def scanSize (text : List Char) : Option (Nat × List Char) :=
  (number text).map fun n =>
    let value :=
      if 2 ^ 64 ≤ n.value then 2 ^ 64 - 1 else if n.negative then (2 ^ 64 - n.value) % 2 ^ 64 else n.value
    (value, n.rest)

def decimal? (text : List Char) : Option Nat :=
  match sign text with
  | (true, _) => none
  | (false, digits) => if digits ≠ [] ∧ digits.all isdigit then some (digitsValue digits) else none

def Stops (p : Char → Bool) (text : List Char) : Prop :=
  ∀ c ∈ text.head?, p c = false

variable {c : Char}

theorem Stops.cons {p : Char → Bool} (h : p c = false) (text : List Char)
    : Stops p (c :: text) := by
  intro _ hc'
  cases hc'
  exact h

variable {text rest : List Char}

theorem Stops.append {p : Char → Bool} (h : ∀ c ∈ text, p c = false) (hrest : Stops p rest)
    : Stops p (text ++ rest) := by
  cases text with
  | nil => exact hrest
  | cons c => exact .cons (h c mem_cons_self) _

section

variable {p : Char → Bool} {text rest : List Char}

theorem takeWhile_append (htext : ∀ c ∈ text, p c = true) (hrest : Stops p rest)
    : (text ++ rest).takeWhile p = text := by
  rw [takeWhile_append_of_pos htext]
  cases rest with
  | nil => simp
  | cons c => simp [hrest c rfl]

theorem dropWhile_append (htext : ∀ c ∈ text, p c = true) (hrest : Stops p rest)
    : (text ++ rest).dropWhile p = rest := by
  rw [dropWhile_append_of_pos htext]
  cases rest with
  | nil => rfl
  | cons c => simp [hrest c rfl]

end

theorem append_of_strchr {a b : List Char} (h : strchr c text = some (a, b))
    : text = a ++ c :: b := by
  induction text generalizing a with
  | nil => cases h
  | cons _ text ih =>
    unfold strchr at h
    split at h
    . next hx =>
      cases h
      rw [hx, nil_append]
    . obtain ⟨⟨_, _⟩, hstrchr, heq⟩ := map_eq_some_iff.mp h
      cases heq
      rw [ih hstrchr, cons_append]

theorem exists_trim (text : List Char)
    : ∃ l r, text = l ++ (trim text ++ r) ∧ Blanks l ∧ Blanks r := by
  refine ⟨text.takeWhile isspace, (text.dropWhile isspace).rtakeWhile isspace, ?_, ?_, ?_⟩
  . rw [trim, rdropWhile_append_rtakeWhile, takeWhile_append_dropWhile]
  . exact fun c hc => mem_takeWhile_imp hc
  . exact fun c hc => mem_rtakeWhile_imp hc

variable {n : Nat}

theorem exists_of_decimal? (h : decimal? text = some n)
    : ∃ d digits, (text = d :: digits ∨ text = '+' :: d :: digits) ∧
        (∀ c ∈ d :: digits, isdigit c = true) ∧ digitsValue (d :: digits) = n := by
  unfold decimal? at h
  split at h
  . cases h
  next digits hsign =>
  split at h
  . next hdigits =>
    cases h
    obtain ⟨d, digits, rfl⟩ := exists_cons_of_ne_nil hdigits.1
    refine ⟨d, digits, ?_, List.all_eq_true.mp hdigits.2, rfl⟩
    unfold sign at hsign
    split at hsign <;> cases hsign
    . exact .inr rfl
    . exact .inl rfl
  . cases h

theorem not_isspace_of_isdigit (h : isdigit c = true) : isspace c = false := by
  simp only [isdigit, isspace, Bool.and_eq_true, decide_eq_true_eq, Bool.or_eq_false_iff,
    decide_eq_false_iff_not, Bool.and_eq_false_iff, Char.le_def, UInt32.le_iff_toNat_le] at h ⊢
  have hzero : ('0'.val).toNat = 48 := rfl
  have hcr : ('\r'.val).toNat = 13 := rfl
  refine ⟨?_, .inr (by omega)⟩
  rintro rfl
  exact absurd h.1 (by decide)

theorem not_isdigit_of_isspace (h : isspace c = true) : isdigit c = false := by
  rw [Bool.eq_false_iff]
  intro hdigit
  rw [not_isspace_of_isdigit hdigit] at h
  cases h

theorem stops_isdigit (h : Blanks text) : Stops isdigit text :=
  fun c hc => not_isdigit_of_isspace (h c (mem_of_mem_head? hc))

theorem sign_of_isdigit (h : isdigit c = true) (text : List Char)
    : sign (c :: text) = (false, c :: text) := by
  unfold sign
  split
  . next heq =>
    cases heq
    cases h
  . next heq =>
    cases heq
    cases h
  . rfl

variable {l : List Char}

theorem number_append (h : decimal? text = some n) (hl : Blanks l) (hrest : Stops isdigit rest)
    : number (l ++ (text ++ rest)) = some ⟨false, n, rest⟩ := by
  obtain ⟨d, digits, htext, hdigits, rfl⟩ := exists_of_decimal? h
  have hd : isdigit d = true := hdigits d mem_cons_self
  have hsign : sign ((l ++ (text ++ rest)).dropWhile isspace) = (false, (d :: digits) ++ rest) := by
    cases htext with
    | inl htext =>
      rw [htext, cons_append, dropWhile_append hl (.cons (not_isspace_of_isdigit hd) _)]
      exact sign_of_isdigit hd _
    | inr htext =>
      have hplus : isspace '+' = false := rfl
      rw [htext, cons_append, dropWhile_append hl (.cons hplus _)]
      rfl
  unfold number
  rw [hsign]
  dsimp only
  rw [takeWhile_append hdigits hrest, dropWhile_append hdigits hrest, if_neg (cons_ne_nil _ _)]

theorem scanLong_append (h : decimal? text = some n) (hn : n < 2 ^ 63) (hl : Blanks l)
    (hrest : Stops isdigit rest) : scanLong (l ++ (text ++ rest)) = some n := by
  rw [scanLong, number_append h hl hrest]
  simp only [map_some, Bool.false_eq_true, if_false, some.injEq]
  exact Nat.min_eq_left (Nat.le_sub_one_of_lt hn)

theorem number_dropWhile (text : List Char) : number (text.dropWhile isspace) = number text := by
  rw [number, number, dropWhile_idempotent]

theorem scanSize_append (h : decimal? text = some n) (hn : n < 2 ^ 64) (hl : Blanks l)
    (hrest : Stops isdigit rest)
    : scanSize ((l ++ (text ++ rest)).dropWhile isspace) = some (n, rest) := by
  rw [scanSize, number_dropWhile, number_append h hl hrest]
  simp only [map_some, Bool.false_eq_true, if_false, if_neg (Nat.not_le.mpr hn)]

end Scan
