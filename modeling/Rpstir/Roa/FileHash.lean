import Rpstir.Data.Bytes

/-!
This module contains the check of a file against the hash in its manifest entry (`check_fileAndHash` of
`roa_validate.c`). `read` returns the whole file, and `gen_hash` writes the digest over the file it has
read. A result `none` is an access outside of a buffer.
-/

namespace Rpstir.Roa

open List

def errScmBadmfthash : Int :=
  -140

def write (bytes buf : List UInt8) : Option (List UInt8) :=
  if bytes.length ≤ buf.length then some (bytes ++ buf.drop bytes.length) else none

/--
The buffer `inhash` has `inhashtotlen` bytes, of which the first `inhashlen` ones are a known hash. The
hash of the entry has the octet with the number of unused bits in front.
-/
def checkFileAndHash (genHash : List UInt8 → FixedBytes 32) (hash file : List UInt8)
    (inhash : Option (List UInt8)) (inhashlen : Nat) : Option (Int × Option (List UInt8)) := do
  let known := inhash.filter fun _ => 0 < inhashlen ∧ inhashlen ≤ file.length + 2
  let (contents, hashLth) ← match known with
    | some inhash => (write (inhash.take inhashlen) (file ++ [0, 0])).map (·, inhashlen)
    | none => (write (genHash file) (file ++ [0, 0])).map (·, 32)
  if hash.length ≠ hashLth + 1 ∨ hash.tail ≠ contents.take hashLth then
    return (errScmBadmfthash, inhash)
  match inhash with
  | some buf =>
    if hashLth ≤ buf.length ∧ inhashlen = 0 then
      let buf ← write (contents.take hashLth) buf
      return (hashLth, some buf)
    else
      return (hashLth, inhash)
  | none => return (hashLth, none)

variable {genHash : List UInt8 → FixedBytes 32} {file : List UInt8}

theorem checkFileAndHash_short (hfile : file.length < 30) (hash : List UInt8) (inhash : Option (List UInt8))
    : checkFileAndHash genHash hash file inhash 0 = none := by
  have hlen := (genHash file).2
  simp [checkFileAndHash, write, hlen, show ¬32 ≤ file.length + 2 by omega]

theorem checkFileAndHash_long (hfile : 30 ≤ file.length) (hash : List UInt8) (inhash : Option (List UInt8))
    : ∃ inhash', checkFileAndHash genHash hash file inhash 0
      = some (if hash.tail = genHash file then 32 else errScmBadmfthash, inhash') := by
  have hlen := (genHash file).2
  have htail (h : hash.tail = genHash file) : hash.length = 33 := by
    have := congrArg length h
    rw [length_tail, hlen] at this
    omega
  have hwrite {buf : List UInt8} (hbuf : 32 ≤ buf.length)
      : write (genHash file) buf = some ((genHash file).val ++ buf.drop 32) := by
    rw [write, if_pos (by omega), hlen]
  have hcontents := @hwrite (file ++ [0, 0]) (by rw [length_append]; exact Nat.add_le_add_right hfile 2)
  by_cases hhash : hash.tail = genHash file
  . cases inhash with
    | none => exact ⟨none, by simp [checkFileAndHash, hcontents, hlen, hhash, htail hhash]⟩
    | some buf =>
      by_cases hbuf : 32 ≤ buf.length
      . exact ⟨_, by simp [checkFileAndHash, hcontents, hlen, hhash, htail hhash, hbuf, hwrite hbuf]; rfl⟩
      . exact ⟨some buf, by simp [checkFileAndHash, hcontents, hlen, hhash, htail hhash, hbuf]⟩
  . exact ⟨inhash, by simp [checkFileAndHash, hcontents, hlen, hhash]⟩

theorem checkFileAndHash_correct_iff (genHash : List UInt8 → FixedBytes 32) (hash file : List UInt8)
    (inhash : Option (List UInt8))
    : (∃ ret inhash', checkFileAndHash genHash hash file inhash 0 = some (ret, inhash')
        ∧ (0 ≤ ret ↔ hash = 0 :: genHash file))
      ↔ 30 ≤ file.length ∧ (hash.tail = genHash file → hash.head? = some 0) := by
  by_cases hfile : 30 ≤ file.length
  . obtain ⟨inhash', heq⟩ := @checkFileAndHash_long genHash file hfile hash inhash
    have hcons : hash = 0 :: genHash file ↔ hash.head? = some 0 ∧ hash.tail = genHash file := by
      cases hash <;> simp
    rw [heq, hcons, and_iff_right hfile]
    by_cases hhash : hash.tail = genHash file <;> simp [hhash, errScmBadmfthash]
  . simp [checkFileAndHash_short (Nat.lt_of_not_le hfile), hfile]

theorem checkFileAndHash_incorrect
    : checkFileAndHash (fun _ => ⟨replicate 32 7, rfl⟩) (0 :: replicate 32 7) (replicate 29 1) none 0 = none
      ∧ checkFileAndHash (fun _ => ⟨replicate 32 7, rfl⟩) (1 :: replicate 32 7) (replicate 30 1) none 0
        = some (32, none) := by
  decide +kernel

end Rpstir.Roa
