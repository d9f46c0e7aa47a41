import Mathlib.Data.Nat.Bitwise
import Rpstir.Data.CString

/-!
This module contains the functions of `chaser.c` that cut a string into URIs and bring each of them to a
normal form in its buffer.
-/

namespace Rpstir.Chaser

open CString

abbrev Mem := List Char

def dbUriLen : Nat := 1024

def rsyncScheme : List Char := ['r', 's', 'y', 'n', 'c', ':', '/', '/']

inductive Ret where
  | unmodified
  | modified
  | invalid
  | tooLong
  deriving DecidableEq, Repr

def sizeSubTwo (len : Nat) : Nat :=
  (len + 2 ^ 64 - 2) % 2 ^ 64

def startsDots : Mem → Option Bool
  | [] => none
  | c :: rest =>
    if c ≠ '/' then
      some false
    else
      match rest with
      | [] => none
      | c₁ :: rest =>
        if c₁ ≠ '.' then
          some false
        else
          match rest with
          | [] => none
          | c₂ :: _ => some (c₂ = '.')

def findDots (len : Nat) : Nat → Mem → Option (Option Nat)
  | i, [] => if i < sizeSubTwo len then none else some none
  | i, c :: rest =>
    if i < sizeSubTwo len then
      match startsDots (c :: rest) with
      | none => none
      | some isDots =>
        if isDots && (i + 3 = len || (i + 3 < len && rest[2]? = some '/')) then
          some (some i)
        else
          findDots len (i + 1) rest
    else
      some none

def findSlash (s : Mem) : Nat → Option Nat
  | 0 => none
  | i + 1 => if s[i + 1]? = some '/' then some (i + 1) else findSlash s i

def removeDir (s : Mem) (len dirLo dotsHi : Nat) : Mem :=
  s.take dirLo ++ (s.take (len + 1)).drop (dotsHi + 1) ++ s.drop (len + 1 - (dotsHi + 1 - dirLo))

def removeDotDot (fuel : Nat) (isModified : Bool) (s : Mem) : Option (Ret × Mem) :=
  match fuel with
  | 0 => none
  | fuel + 1 => do
    let len ← strlen s
    match ← findDots len 0 s with
    | none => return (if isModified then .modified else .unmodified, s)
    | some dotsLo =>
      if dotsLo < 1 then
        return (.invalid, s)
      else
        match findSlash s (dotsLo - 1) with
        | none => return (.invalid, s)
        | some dirLo => removeDotDot fuel true (removeDir s len dirLo (dotsLo + 2))

def badChars : List Char :=
  [' ', '\"', '#', '$', '<', '>', '?', '\\', '^', '`', '\x7b', '|', '\x7d', '\n']

def isBadChar (ch : Char) : Bool :=
  ch < ' ' || '~' < ch || badChars.contains ch

def hasBadChar : Mem → Option Bool
  | [] => none
  | ch :: rest => if ch = nul then some false else if isBadChar ch then some true else hasBadChar rest

structure Collapsed where
  text : List Char
  isModified : Bool
  foundDots : Bool
  deriving DecidableEq, Repr

def Collapsed.copy (ch : Char) (c : Collapsed) : Collapsed :=
  { c with text := ch :: c.text }

def Collapsed.copyDots (ch : Char) (c : Collapsed) : Collapsed :=
  ⟨ch :: c.text, c.isModified, true⟩

def Collapsed.drop (c : Collapsed) : Collapsed :=
  { c with isModified := true }

def collapse : Char → Mem → Option Collapsed
  | _, [] => none
  | prev, ch :: rest =>
    if ch = nul then
      some ⟨[], false, false⟩
    else if ch = '/' ∧ prev = '/' then
      (collapse prev rest).map .drop
    else if ch = '.' ∧ prev = '.' then
      (collapse ch rest).map (.copyDots ch)
    else if ch = '.' ∧ prev = '/' then
      match rest with
      | [] => none
      | next :: rest' =>
        if next = '/' ∨ next = nul then
          -- the character after the dot is skipped as well, also if it is the end of the string
          (collapse prev rest').map .drop
        else
          (collapse ch (next :: rest')).map (.copy ch)
    else
      (collapse ch rest).map (.copy ch)

def checkUriChars (str : Mem) : Option (Ret × Mem) := do
  if ← hasBadChar str then
    return (.invalid, str)
  match str with
  | [] => none
  | ch :: rest =>
    let c ← collapse ch rest
    let str := ch :: c.text ++ nul :: str.drop (c.text.length + 2)
    if c.foundDots then
      match ← removeDotDot str.length false str with
      | (.invalid, str) => return (.invalid, str)
      | (ret, str) =>
        return (if ret = .modified || c.isModified then .modified else .unmodified, str)
    else
      return (if c.isModified then .modified else .unmodified, str)

def findFrom (s : List Char) (i : Nat) : Nat :=
  match (s.drop i).findIdx? (· = '/') with
  | some k => i + k
  | none => 0

def checkTrailingSlash (s : Mem) : Option (Ret × Mem) := do
  let len ← strlen s
  let text := s.take len
  let endOfAuthority := findFrom text 0
  if endOfAuthority = 0 then
    return (.invalid, s)
  let endOfModule := findFrom text (endOfAuthority + 2)
  if endOfModule = 0 ∧ endOfAuthority = len - 1 then
    return (.invalid, s)
  if endOfModule = 0 ∧ text.getLast? ≠ some '/' then
    if len + rsyncScheme.length + 1 > dbUriLen then
      return (.tooLong, s)
    else
      let s ← strcpy (text ++ ['/']) s
      return (.modified, s)
  if endOfModule = len - 1 ∨ text.getLast? ≠ some '/' then
    return (.unmodified, s)
  return (.modified, text.dropLast ++ nul :: s.drop len)

def isRsync (s : List Char) : Bool :=
  (s.take rsyncScheme.length).map Char.toLower = rsyncScheme

def appendSection (s : Mem) : Option (Option (List Char) × Mem) := do
  match ← checkTrailingSlash s with
  | (.invalid, s) => return (none, s)
  | (.tooLong, s) => return (none, s)
  | (_, s) =>
    let len ← strlen s
    return (some (s.take len), s)

def checkSection (s : Mem) : Option (Option (List Char) × Mem) := do
  match ← checkUriChars s with
  | (.invalid, s) => return (none, s)
  | (_, s) => appendSection s

def handleSection (s : Mem) : Option (Option (List Char) × Mem) :=
  if isRsync s then checkSection (s.drop rsyncScheme.length) else some (none, s)

def handleSections (s : Mem) : List (List Char) → List (Option (List Char)) × Bool
  | [] => ([], true)
  | text :: rest =>
    if text = [] then
      ([], true)
    else
      match strcpy text s >>= handleSection with
      | none => ([], false)
      | some (uri, s) =>
        let (uris, isDone) := handleSections s rest
        (uri :: uris, isDone)

def handleUriString (buf : Mem) (input : List Char) : List (Option (List Char)) × Bool :=
  handleSections buf (input.splitOn ';')

end Rpstir.Chaser
