import Mathlib.Data.List.Basic

/-!
This module contains strings that end with a NUL character in a buffer, which is the list of the
characters from a pointer to the end of its allocation.
-/

namespace CString

def nul : Char := Char.ofNat 0

def strlen : List Char → Option Nat
  | [] => none
  | c :: rest => if c = nul then some 0 else (strlen rest).map (· + 1)

def strcpy (text buf : List Char) : Option (List Char) :=
  if text.length < buf.length then some (text ++ nul :: buf.drop (text.length + 1)) else none

def snprintf (offset size : Nat) (text buf : List Char) : List Char :=
  if size = 0 then
    buf
  else
    let written := text.take (size - 1)
    buf.take offset ++ written ++ nul :: buf.drop (offset + written.length + 1)

def read (buf : List Char) : Option (List Char) :=
  (strlen buf).map buf.take

variable {text buf : List Char} {offset size : Nat}

theorem strlen_append (h : nul ∉ text) : strlen (text ++ nul :: buf) = some text.length := by
  induction text with
  | nil => rfl
  | cons _ text ih =>
    rw [List.mem_cons, not_or] at h
    rw [List.cons_append, strlen, if_neg (Ne.symm h.1), ih h.2]
    rfl

theorem strcpy_eq (h : text.length < buf.length)
    : strcpy text buf = some (text ++ nul :: buf.drop (text.length + 1)) := by
  rw [strcpy, if_pos h]

theorem length_snprintf (h : offset + size = buf.length)
    : (snprintf offset size text buf).length = buf.length := by
  unfold snprintf
  split
  . rfl
  . simp only [List.length_append, List.length_take, List.length_cons, List.length_drop]
    omega

theorem take_snprintf_offset (h : offset + size = buf.length)
    : (snprintf offset size text buf).take offset = buf.take offset := by
  unfold snprintf
  split
  . rfl
  . dsimp only
    rw [List.append_assoc, List.take_append_of_le_length (by rw [List.length_take]; omega),
      List.take_take, Nat.min_self]

theorem take_snprintf (h : offset + size = buf.length) (hfits : text.length < size)
    : (snprintf offset size text buf).take (offset + text.length) = buf.take offset ++ text := by
  unfold snprintf
  rw [if_neg (by omega)]
  rw [List.take_of_length_le (show text.length ≤ size - 1 by omega)]
  have hlength : (buf.take offset ++ text).length = offset + text.length := by
    rw [List.length_append, List.length_take]
    omega
  rw [List.take_append_of_le_length (Nat.le_of_eq hlength.symm), List.take_of_length_le (Nat.le_of_eq hlength)]

theorem read_set {n : Nat} (hn : n < buf.length) (htake : buf.take n = text) (hnul : nul ∉ text)
    : read (buf.set n nul) = some text := by
  have hset : buf.set n nul = text ++ nul :: buf.drop (n + 1) := by
    rw [List.set_eq_take_append_cons_drop, if_pos hn, htake]
  rw [read, hset, strlen_append hnul, Option.map_some, List.take_left]

end CString
