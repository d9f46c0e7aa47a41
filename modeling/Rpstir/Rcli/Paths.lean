import Mathlib.Data.List.Basic

/-!
This module contains `splitdf` of `diru.c` and the handler `aur` of `rcli.c` that calls it.
-/

namespace Rpstir.Rcli

open List Option

abbrev Path := List Char

def pathMax : Nat := 4096

/--
A pointer variable of `aur`, which has no initializer.
-/
inductive Pointer where
  | uninitialized
  | null
  | string (s : Path)
  deriving DecidableEq

structure Outputs where
  outdir : Pointer
  outfile : Pointer
  outfull : Pointer
  deriving DecidableEq

inductive SplitErr where
  | noMem
  | invalArg
  | invalSz
  | badFile
  | notADir
  deriving DecidableEq

/--
What `splitdf` is told by the system: the current directory, the absolute path of a directory, and which
of its allocations succeed.
-/
structure Files where
  getcwd : Path
  r2adir : Path → Option Path
  workAllocated : Bool
  outfileAllocated : Bool
  outfullAllocated : Bool

def strwillfit (inbuf newbuf : Path) : Except SplitErr Path :=
  if inbuf.length + newbuf.length ≥ pathMax then .error .invalSz else .ok (inbuf ++ newbuf)

/--
The path that `splitdf` forms, with the directory name `NULL`.
-/
def formPath (files : Files) (dirPrefix : Option Path) (fname : Path) : Except SplitErr Path :=
  if dirPrefix = none ∧ '/' ∉ fname then do
    let work ← strwillfit files.getcwd ['/']
    strwillfit work fname
  else do
    let work ← strwillfit [] (dirPrefix.getD [])
    let work ← if work = [] then .ok work else strwillfit work ['/']
    strwillfit work fname

def splitdf (files : Files) (dirPrefix : Option Path) (fname : Path) (outs : Outputs)
    : Option (Except SplitErr Unit × Outputs) :=
  if fname = [] then some (.error .invalArg, outs)
  else
    let outs : Outputs := ⟨.null, .null, .null⟩
    if !files.workAllocated then some (.error .noMem, outs)
    else
      match formPath files dirPrefix fname with
      | .error e => some (.error e, outs)
      | .ok work =>
        if '/' ∉ work then some (.error .notADir, outs)
        else
          let file := (work.reverse.takeWhile (· ≠ '/')).reverse
          if file = [] then some (.error .badFile, outs)
          else
            match files.r2adir (work.take (work.length - file.length - 1)) with
            | none => some (.error .notADir, outs)
            | some dir =>
              let outs := { outs with outdir := .string dir }
              if !files.outfileAllocated then some (.error .noMem, outs)
              else
                let outs := { outs with outfile := .string file }
                let full := dir ++ '/' :: file
                -- `xsnprintf` aborts rather than truncates.
                if full.length ≥ pathMax then none
                else if !files.outfullAllocated then some (.error .noMem, outs)
                else some (.ok (), { outs with outfull := .string full })

inductive Access where
  | addObject (outs : Outputs)
  | deleteObject (outs : Outputs)
  | free (p : Pointer)
  deriving DecidableEq

def freeAll (outs : Outputs) : List Access :=
  [.free outs.outdir, .free outs.outfile, .free outs.outfull]

/--
The result of `splitdf` and what `aur` does with the names then, `none` if the process is aborted.
-/
def aur (files : Files) (hdir : Option Path) (what : Char) (valu : Path) (outs : Outputs)
    : Option (Except SplitErr Unit × List Access) :=
  match splitdf files hdir valu outs with
  | none => none
  | some (.error e, outs) => some (.error e, freeAll outs)
  | some (.ok (), outs) =>
    some (.ok (), (match what with
      | 'a' => [.addObject outs]
      | 'r' => [.deleteObject outs]
      | 'u' => [.deleteObject outs, .addObject outs]
      | _ => []) ++ freeAll outs)

def Outputs.Assigned (outs : Outputs) : Prop :=
  outs.outdir ≠ .uninitialized ∧ outs.outfile ≠ .uninitialized ∧ outs.outfull ≠ .uninitialized

def Outputs.Named (outs : Outputs) : Prop :=
  ∃ dir file full, outs = ⟨.string dir, .string file, .string full⟩

/--
Only `NULL` and what `splitdf` has assigned is freed, and the names are used after a success only, when
there are some.
-/
def Safe (sta : Except SplitErr Unit) : Access → Prop
  | .free p => p ≠ .uninitialized
  | .addObject outs | .deleteObject outs => sta = .ok () ∧ outs.Named

variable {files : Files} {hdir : Option Path} {valu : Path} {outs outs' : Outputs}
  {sta : Except SplitErr Unit}

theorem splitdf_spec (hvalu : valu ≠ []) (h : splitdf files hdir valu outs = some (sta, outs'))
    : outs'.Assigned ∧ (sta = .ok () → outs'.Named) := by
  unfold splitdf at h
  rw [if_neg hvalu] at h
  dsimp only at h
  repeat' split at h
  all_goals
    cases h
  all_goals
    simp [Outputs.Assigned, Outputs.Named]

theorem safe_freeAll (h : outs.Assigned) : ∀ a ∈ freeAll outs, Safe sta a := by
  simpa [freeAll, Safe, Outputs.Assigned] using h

/--
The handler is safe exactly if the value is not empty: for an empty one `splitdf` returns before it
assigns anything.
-/
theorem aur_safe_iff (files : Files) (hdir : Option Path) (what : Char) (valu : Path)
    : (∀ sta accesses,
        aur files hdir what valu ⟨.uninitialized, .uninitialized, .uninitialized⟩
          = some (sta, accesses) → ∀ a ∈ accesses, Safe sta a)
      ↔ valu ≠ [] := by
  constructor
  . rintro h rfl
    exact h _ _ rfl (.free .uninitialized) (by simp [freeAll]) rfl
  intro hvalu sta accesses h
  unfold aur at h
  split at h
  . cases h
  . next hsplit =>
    cases h
    exact safe_freeAll (splitdf_spec hvalu hsplit).1
  . next hsplit =>
    obtain ⟨hassigned, hnamed⟩ := splitdf_spec hvalu hsplit
    cases h
    rw [List.forall_mem_append]
    refine ⟨?_, safe_freeAll hassigned⟩
    split <;> simp [Safe, hnamed rfl]

theorem aur_frees_uninitialized
    : aur ⟨['/'], some, true, true, true⟩ none 'a' [] ⟨.uninitialized, .uninitialized, .uninitialized⟩
      = some (.error .invalArg, [.free .uninitialized, .free .uninitialized, .free .uninitialized]) := by
  rfl

end Rpstir.Rcli
