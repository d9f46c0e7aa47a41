import Mathlib.Data.List.Basic
import Rpstir.Data.Scan

/-!
This module contains the line protocol of `rcli.c`: `sock1line` and the loop of `sockline`. A buffer
is a string without its terminating NUL, and the socket is the list of what its `recv` calls return.
-/

namespace Rpstir.Rcli

open List Option

variable {s line rest : List Char} {left next : Option (List Char)} {sock : List (List Char)}

/--
`strstr(inp, "\r\n")`: what stands before the match and what follows it.
-/
def strstrCrlf : List Char → Option (List Char × List Char)
  | '\r' :: '\n' :: rest => some ([], rest)
  | c :: rest => (strstrCrlf rest).map fun (line, rest) => (c :: line, rest)
  | [] => none

def hasoneline (inp : Option (List Char)) : Option (List Char × Option (List Char)) :=
  (inp.bind strstrCrlf).map fun (line, rest) => (line, if rest = [] then none else some rest)

/--
The line, if there is one, what is left and the rest of the socket. The call fails once the peer has
shut down its end, which `recv` says by returning nothing.
-/
def sock1line (left : Option (List Char)) (sock : List (List Char))
    : Option (Option (List Char) × Option (List Char) × List (List Char)) :=
  match hasoneline left with
  | some (line, next) => some (some line, next, sock)
  | none =>
    match sock with
    | [] | [] :: _ => none
    | chunk :: sock =>
      let left2 := (left.getD [] ++ chunk).takeWhile (· ≠ '\x00')
      match hasoneline (some left2) with
      | some (line, next) => some (some line, next, sock)
      | none => some (none, some left2, sock)

/--
The lines with the tags `e` and `f` leave the loop. The byte after a line is NUL.
-/
def isDone (line : List Char) : Bool :=
  Scan.isspace (line.getD 1 '\x00') && "eEfF".toList.contains (line.getD 0 '\x00')

/--
The stream split at CR LF. What follows the last one is no line; `line` is what of it has been read.
-/
def splitCrlf (line : List Char) : List Char → List (List Char)
  | '\r' :: '\n' :: rest => line :: splitCrlf [] rest
  | c :: rest => splitCrlf (line ++ [c]) rest
  | [] => []

theorem strstrCrlf_some (h : strstrCrlf s = some (line, rest))
    (pre t : List Char)
    : s = line ++ '\r' :: '\n' :: rest
      ∧ splitCrlf pre (s ++ t) = (pre ++ line) :: splitCrlf [] (rest ++ t) := by
  fun_induction strstrCrlf s generalizing line pre with
  | case1 =>
    cases h
    simp [splitCrlf]
  | case2 c s hc ih =>
    obtain ⟨⟨line, _⟩, hs, heq⟩ := map_eq_some_iff.1 h
    cases heq
    obtain ⟨rfl, ih⟩ := ih hs (pre ++ [c])
    refine ⟨rfl, ?_⟩
    rw [cons_append, splitCrlf, ih, append_assoc, singleton_append]
    -- the rest is not empty, so that no terminator arises at its border to `t`
    cases line <;> simp_all
  | case3 => cases h

theorem strstrCrlf_none (h : strstrCrlf s = none) (pre : List Char)
    : splitCrlf pre s = [] := by
  fun_induction strstrCrlf s generalizing pre with
  | case1 => cases h
  | case2 c s hc ih => simpa [splitCrlf, hc] using ih (map_eq_none_iff.1 h) _
  | case3 => rfl

/--
What has been received and what follows it.
-/
def stream (left : Option (List Char)) (sock : List (List Char)) : List Char :=
  left.getD [] ++ sock.flatten

theorem hasoneline_some (h : hasoneline left = some (line, next))
    : (next.getD []).length < (left.getD []).length
      ∧ ∀ sock, ('\x00' ∉ stream left sock → '\x00' ∉ stream next sock)
        ∧ splitCrlf [] (stream left sock) = line :: splitCrlf [] (stream next sock) := by
  obtain ⟨⟨_, rest⟩, hs, heq⟩ := map_eq_some_iff.1 h
  obtain ⟨inp, rfl, hs⟩ := bind_eq_some_iff.1 hs
  cases heq
  have hrest : (if rest = [] then none else some rest).getD [] = rest := by
    split <;> simp_all
  simp only [stream, hrest]
  refine ⟨?_, fun sock => ⟨?_, (strstrCrlf_some hs [] _).2⟩⟩
  all_goals simp [(strstrCrlf_some hs [] []).1] <;> grind

theorem hasoneline_none (h : hasoneline left = none)
    : splitCrlf [] (left.getD []) = [] := by
  cases left with
  | none => rfl
  | some s => exact strstrCrlf_none (map_eq_none_iff.1 h) []

theorem stream_cons {chunk : List Char} (hnul : '\x00' ∉ stream left (chunk :: sock))
    : stream left (chunk :: sock)
      = stream (some ((left.getD [] ++ chunk).takeWhile (· ≠ '\x00'))) sock := by
  rw [takeWhile_eq_self_iff.2]
  . simp [stream]
  . rintro c hc
    simp only [decide_eq_true_eq]
    rintro rfl
    exact hnul (by simp_all [stream])

theorem sock1line_spec (left : Option (List Char)) (sock : List (List Char))
    : match sock1line left sock with
      | none => [] ∉ sock → splitCrlf [] (stream left sock) = []
      | some (line, left', sock') =>
        (sock'.length < sock.length ∨ sock' = sock ∧ (left'.getD []).length < (left.getD []).length)
        ∧ ([] ∉ sock → '\x00' ∉ stream left sock → [] ∉ sock' ∧ '\x00' ∉ stream left' sock'
          ∧ splitCrlf [] (stream left sock) = line.toList ++ splitCrlf [] (stream left' sock')) := by
  fun_cases sock1line left sock with
  | case1 _ line next h =>
    obtain ⟨hlt, hstream⟩ := hasoneline_some h
    exact ⟨.inr ⟨rfl, hlt⟩, fun hsock hnul => ⟨hsock, (hstream _).1 hnul, (hstream _).2⟩⟩
  | case2 h => simpa [stream] using hasoneline_none h
  | case3 => simp
  | case4 _ chunk sock _ left2 line next h =>
    obtain ⟨-, hstream⟩ := hasoneline_some h
    refine ⟨.inl (Nat.lt_succ_self _), fun hsock hnul => ?_⟩
    have hcons := stream_cons hnul
    rw [hcons] at hnul ⊢
    exact ⟨not_mem_of_not_mem_cons hsock, (hstream sock).1 hnul, (hstream sock).2⟩
  | case5 _ chunk sock _ left2 h =>
    refine ⟨.inl (Nat.lt_succ_self _), fun hsock hnul => ?_⟩
    have hcons := stream_cons hnul
    rw [hcons] at hnul ⊢
    exact ⟨not_mem_of_not_mem_cons hsock, hnul, rfl⟩

/--
The lines that the loop obtains.
-/
def sockline (left : Option (List Char)) (sock : List (List Char)) : List (List Char) :=
  match _h : sock1line left sock with
  | none => []
  | some (none, left', sock') => sockline left' sock'
  | some (some line, left', sock') =>
    line :: if isDone line then [] else sockline left' sock'
termination_by (sock.length, (left.getD []).length)
decreasing_by
  all_goals
    have hspec := sock1line_spec left sock
    rw [_h] at hspec
    obtain hlt | ⟨rfl, hlt⟩ := hspec.1
    . exact .left _ _ hlt
    . exact .right _ hlt

/--
The lines up to the first that leaves the loop, with it.
-/
def untilDone : List (List Char) → List (List Char)
  | [] => []
  | line :: lines => line :: if isDone line then [] else untilDone lines

theorem sockline_stream (hsock : [] ∉ sock) (hnul : '\x00' ∉ stream left sock)
    : sockline left sock = untilDone (splitCrlf [] (stream left sock)) := by
  have hline := sock1line_spec left sock
  fun_induction sockline left sock with
  | case1 left sock h =>
    rw [h] at hline
    rw [hline hsock]
    rfl
  | case2 left sock left' sock' h ih =>
    rw [h] at hline
    obtain ⟨hsock', hnul', heq⟩ := hline.2 hsock hnul
    rw [heq]
    exact ih hsock' hnul' (sock1line_spec left' sock')
  | case3 left sock line left' sock' h ih =>
    rw [h] at hline
    obtain ⟨hsock', hnul', heq⟩ := hline.2 hsock hnul
    rw [heq, ih hsock' hnul' (sock1line_spec left' sock')]
    rfl

/--
However the stream is split, the lines are those of the stream up to the one that ends the session.
-/
theorem sockline_eq (sock : List (List Char)) (hsock : [] ∉ sock) (hnul : '\x00' ∉ sock.flatten)
    : sockline none sock = untilDone (splitCrlf [] sock.flatten) :=
  sockline_stream hsock hnul

theorem sockline_eq_splitTerminator
    : sockline none ["A a\r".toList, "\nA b".toList, "\r\n".toList] = ["A a".toList, "A b".toList] :=
  sockline_eq _ (by decide) (by decide)

theorem sockline_ne_splitCrlf
    : let sock := ["E x\r\nB y\r\n".toList]
      sockline none sock = ["E x".toList]
      ∧ splitCrlf [] sock.flatten = ["E x".toList, "B y".toList] :=
  ⟨sockline_stream (by decide) (by decide), rfl⟩

end Rpstir.Rcli
