import Mathlib.Data.List.Nodup
import Mathlib.Data.List.TakeWhile

/-!
This module contains the checks of the file names of a manifest (`check_mft_filenames` and
`check_mft_duplicate_filenames` of `roa_validate.c`). Allocations succeed. A result `none` is an access
outside of the array of names.
-/

namespace Rpstir.Roa

open List

structure FileAndHash where
  file : List UInt8
  hash : List UInt8
  deriving DecidableEq

def nameMax : Nat := 255

inductive FileNameErr where
  | badMftFileName
  | badMftHash
  | mftDupFile
  deriving DecidableEq

def checkMftFilename (fah : FileAndHash) : Except FileNameErr Unit :=
  if fah.file.length > nameMax ∨ fah.file = [] then .error .badMftFileName
  else if fah.file.any fun c => c = 0 || c = '/'.toUInt8 then .error .badMftFileName
  else if fah.file = ['.'.toUInt8] ∨ fah.file = ['.'.toUInt8, '.'.toUInt8] then .error .badMftFileName
  else if fah.hash.length ≠ 33 then .error .badMftHash
  else .ok ()

def checkMftFilenames : List FileAndHash → Except FileNameErr Unit
  | [] => .ok ()
  | fah :: fileList =>
    match checkMftFilename fah with
    | .error e => .error e
    | .ok () => checkMftFilenames fileList

/--
The names are compared up to the first NUL, which is the one that has been written behind them if they
have none.
-/
def strcmp (s1 s2 : List UInt8) : Ordering :=
  compare (s1.takeWhile (· ≠ 0)) (s2.takeWhile (· ≠ 0))

/--
The loop over the sorted names at `i`, when `n` of them are left.
-/
def findDuplicate (filenames : List (List UInt8)) (ret : Except FileNameErr Unit) (i : Nat)
    : Nat → Option (Except FileNameErr Unit)
  | 0 => some ret
  | n + 1 => do
    if ret = .ok () ∧ i + 1 < filenames.length then
      let name ← filenames[i]?
      let next ← filenames[i + 1]?
      findDuplicate filenames (if strcmp name next = .eq then .error .mftDupFile else ret) (i + 1) n
    else
      findDuplicate filenames ret (i + 1) n

def checkMftDuplicateFilenames (qsort : List (List UInt8) → List (List UInt8))
    (fileList : List FileAndHash) : Option (Except FileNameErr Unit) :=
  findDuplicate (qsort (fileList.map FileAndHash.file)) (.ok ()) 0 fileList.length

/--
The result is in the order that the comparison gives.
-/
structure Sorts (qsort : List (List UInt8) → List (List UInt8)) : Prop where
  perm : ∀ l, (qsort l).Perm l
  sorted : ∀ l, (qsort l).Pairwise fun s1 s2 => strcmp s1 s2 ≠ .gt

variable {filenames : List (List UInt8)} {ret : Except FileNameErr Unit} {s1 s2 : List UInt8}

theorem strcmp_swap (s1 s2 : List UInt8) : strcmp s2 s1 = (strcmp s1 s2).swap := by
  unfold strcmp
  exact Std.OrientedCmp.eq_swap

theorem takeWhile_name (h : 0 ∉ s1) : s1.takeWhile (· ≠ 0) = s1 := by
  rw [takeWhile_eq_self_iff]
  intro c hc
  rw [decide_eq_true_eq]
  rintro rfl
  exact h hc

theorem strcmp_eq_iff (h1 : 0 ∉ s1) (h2 : 0 ∉ s2) : strcmp s1 s2 = .eq ↔ s1 = s2 := by
  rw [strcmp, takeWhile_name h1, takeWhile_name h2]
  exact Std.LawfulEqCmp.compare_eq_iff_eq

theorem findDuplicate_error (e : FileNameErr) (i n : Nat)
    : findDuplicate filenames (.error e) i n = some (.error e) := by
  induction n generalizing i with
  | zero => rfl
  | succ n ih =>
    rw [findDuplicate, if_neg (by simp)]
    exact ih (i + 1)

theorem findDuplicate_spec (i n : Nat) (hn : i + n = filenames.length)
    : ∃ ret, findDuplicate filenames (.ok ()) i n = some ret
      ∧ (ret = .error .mftDupFile ↔
        ∃ k s1 s2, i ≤ k ∧ filenames[k]? = some s1 ∧ filenames[k + 1]? = some s2 ∧ strcmp s1 s2 = .eq) := by
  induction n generalizing i with
  | zero =>
    refine ⟨.ok (), rfl, iff_of_false (by simp) ?_⟩
    rintro ⟨k, s1, s2, hk, -, hnext, -⟩
    have hlt := (List.getElem?_eq_some_iff.mp hnext).1
    omega
  | succ n ih =>
    obtain ⟨ret, hrest, hret⟩ := ih (i + 1) (by omega)
    by_cases hlast : i + 1 < filenames.length
    . have hname := getElem?_eq_getElem (show i < filenames.length by omega)
      have hnext := getElem?_eq_getElem hlast
      simp only [findDuplicate, hlast, and_self, if_true, hname, hnext, Option.bind_eq_bind,
        Option.bind_some]
      by_cases heq : strcmp filenames[i] filenames[i + 1] = .eq
      . rw [if_pos heq, findDuplicate_error]
        exact ⟨_, rfl, iff_of_true rfl ⟨i, _, _, Nat.le_refl i, hname, hnext, heq⟩⟩
      rw [if_neg heq]
      refine ⟨ret, hrest, hret.trans ⟨?_, ?_⟩⟩
      . rintro ⟨k, s1, s2, hk, h⟩
        exact ⟨k, s1, s2, by omega, h⟩
      rintro ⟨k, s1, s2, hk, h1, h2, h⟩
      refine ⟨k, s1, s2, ?_, h1, h2, h⟩
      -- the names at `i` differ
      by_contra hle
      obtain rfl : k = i := by omega
      rw [hname] at h1
      rw [hnext] at h2
      cases h1
      cases h2
      exact heq h
    . simp only [findDuplicate, hlast, and_false, if_false]
      refine ⟨ret, hrest, hret.trans ⟨?_, ?_⟩⟩
      . rintro ⟨k, s1, s2, hk, h⟩
        exact ⟨k, s1, s2, by omega, h⟩
      rintro ⟨k, s1, s2, hk, -, hnext, -⟩
      have hlt := (List.getElem?_eq_some_iff.mp hnext).1
      omega

theorem not_nul_of_checkMftFilenames {fileList : List FileAndHash}
    (h : checkMftFilenames fileList = .ok ()) : ∀ s ∈ fileList.map FileAndHash.file, 0 ∉ s := by
  induction fileList with
  | nil => simp
  | cons fah fileList ih =>
    rw [checkMftFilenames] at h
    split at h
    . cases h
    next hfah =>
    rw [map_cons, forall_mem_cons]
    refine ⟨fun hmem => ?_, ih h⟩
    have hany : (fah.file.any fun c => c = 0 || c = '/'.toUInt8) = true :=
      List.any_eq_true.mpr ⟨0, hmem, rfl⟩
    rw [checkMftFilename, if_pos hany] at hfah
    split at hfah <;> cases hfah

/--
Two equal names that are not next to each other have all those between them equal to them.
-/
theorem nodup_iff_of_sorted (hnul : ∀ s ∈ filenames, 0 ∉ s)
    (hsorted : filenames.Pairwise fun s1 s2 => strcmp s1 s2 ≠ .gt)
    : filenames.Nodup ↔
      ¬∃ k s1 s2, 0 ≤ k ∧ filenames[k]? = some s1 ∧ filenames[k + 1]? = some s2 ∧ strcmp s1 s2 = .eq := by
  have heq {s1 s2 : List UInt8} (h1 : s1 ∈ filenames) (h2 : s2 ∈ filenames) :=
    strcmp_eq_iff (hnul s1 h1) (hnul s2 h2)
  rw [pairwise_iff_getElem] at hsorted
  constructor
  . rintro hnodup ⟨k, s1, s2, -, hk, hnext, h⟩
    rw [heq (mem_of_getElem? hk) (mem_of_getElem? hnext)] at h
    have hlt := (List.getElem?_eq_some_iff.mp hk).1
    have hsame := (getElem?_inj hlt hnodup).mp (hk.trans (h ▸ hnext.symm))
    omega
  intro hnone
  rw [Nodup, pairwise_iff_getElem]
  intro i j hi hj hij hsame
  have hnext : i + 1 < filenames.length := by omega
  apply hnone
  refine ⟨i, _, _, Nat.zero_le i, getElem?_eq_getElem hi, getElem?_eq_getElem hnext, ?_⟩
  have hle := hsorted i (i + 1) hi hnext (by omega)
  by_cases hj' : i + 1 = j
  . subst hj'
    rw [heq (getElem_mem _) (getElem_mem _)]
    exact hsame
  have hge := hsorted (i + 1) j hnext hj (by omega)
  rw [← hsame, strcmp_swap] at hge
  cases hcmp : strcmp filenames[i] filenames[i + 1] with
  | eq => rfl
  | lt =>
    rw [hcmp] at hge
    exact absurd rfl hge
  | gt => exact absurd hcmp hle

/--
A manifest whose names have passed the first check is refused by the second one exactly if a name is
listed twice, and no name outside of the array is compared.
-/
theorem checkMftDuplicateFilenames_iff {qsort : List (List UInt8) → List (List UInt8)}
    (hsorts : Sorts qsort) {fileList : List FileAndHash} (h : checkMftFilenames fileList = .ok ())
    : ∃ ret, checkMftDuplicateFilenames qsort fileList = some ret
      ∧ (ret = .error .mftDupFile ↔ ¬(fileList.map FileAndHash.file).Nodup) := by
  have hperm := hsorts.perm (fileList.map FileAndHash.file)
  have hlen := hperm.length_eq
  rw [length_map] at hlen
  obtain ⟨ret, hret, hiff⟩ := findDuplicate_spec 0 fileList.length (by rw [Nat.zero_add, hlen])
  refine ⟨ret, hret, ?_⟩
  have hnul : ∀ s ∈ qsort (fileList.map FileAndHash.file), 0 ∉ s :=
    fun s hs => not_nul_of_checkMftFilenames h s (hperm.mem_iff.mp hs)
  rw [hiff, ← hperm.nodup_iff, nodup_iff_of_sorted hnul (hsorts.sorted _), not_not]

theorem sorts_mergeSort : Sorts fun l => l.mergeSort fun s1 s2 => (strcmp s1 s2).isLE where
  perm l := mergeSort_perm l _
  sorted l := by
    refine (pairwise_mergeSort (fun s1 s2 s3 h12 h23 => ?_) (fun s1 s2 => ?_) l).imp Ordering.isLE_iff_ne_gt.mp
    . unfold strcmp at *
      exact Std.TransCmp.isLE_trans h12 h23
    . rw [strcmp_swap s1 s2]
      cases strcmp s1 s2 <;> rfl

theorem checkMftDuplicateFilenames_mergeSort
    : ∃ ret, checkMftDuplicateFilenames (fun l => l.mergeSort fun s1 s2 => (strcmp s1 s2).isLE)
        [⟨[97], replicate 33 0⟩, ⟨[98], replicate 33 0⟩, ⟨[97], replicate 33 0⟩] = some ret
      ∧ (ret = .error .mftDupFile ↔ ¬([[97], [98], [97]] : List (List UInt8)).Nodup) :=
  checkMftDuplicateFilenames_iff sorts_mergeSort (by decide)

end Rpstir.Roa
