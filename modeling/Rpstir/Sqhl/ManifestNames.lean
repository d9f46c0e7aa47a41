import Rpstir.Data.CString
import Rpstir.Data.Fold
import Rpstir.Garbage.Basic
import Rpstir.Sqhl.Add

/-!
This module contains the way of the file names of a manifest into the arrays of `add_manifest` and
`updateManifestObjs`. A character of a name stands for a byte.
-/

namespace Rpstir.Sqhl

open List

inductive MftErr where
  | badCT
  | badManVer
  | badMftNum
  | badHashAlg
  | badMftFilename
  | badMftHash
  | mftDupFile
  | invalDT
  | notInherit
  | cms (code : Nat)
  deriving DecidableEq, Repr

/--
What `manifestValidate` looks at. A time or a version that cannot be read is `none`; the version comes
with the number of bytes it is encoded in.
-/
structure MftCms where
  isManifest : Bool
  size : Int
  version : Option (Int × Nat)
  manifestNumber : List UInt8
  isSha256 : Bool
  fileList : List FileAndHash
  cmsValidate : Except MftErr Unit
  thisUpdate : Option Int
  nextUpdate : Option Int
  notBefore : Option Int
  notAfter : Option Int
  hasNonInheritResources : Bool

def checkMftVersion (m : MftCms) : Except MftErr Unit :=
  match m.version with
  | none => .error .badManVer
  | some (val, lth) => if val ≠ 0 ∨ lth ≠ 0 then .error .badManVer else .ok ()

def manifestNumberMaxSize : Nat := 20

def checkMftNumber (m : MftCms) : Except MftErr Unit :=
  match m.manifestNumber with
  | [] => .error .badMftNum
  | val :: rest =>
    if rest.length + 1 > manifestNumberMaxSize ∨ val &&& 0x80 ≠ 0 then
      .error .badMftNum
    else
      .ok ()

def checkMftFilename (fah : FileAndHash) : Except MftErr Unit :=
  if fah.file.length > nameMax ∨ fah.file.length = 0 then .error .badMftFilename
  else if fah.file.toList.any fun c => c = CString.nul || c = '/' then .error .badMftFilename
  else if fah.file = "." ∨ fah.file = ".." then .error .badMftFilename
  -- the bit string has a byte for the number of its unused bits
  else if fah.hash.length + 1 ≠ 33 then .error .badMftHash
  else .ok ()

def checkMftFilenames : List FileAndHash → Except MftErr Unit
  | [] => .ok ()
  | fah :: rest => do
    checkMftFilename fah
    checkMftFilenames rest

def checkMftDuplicateFilenames (fileList : List FileAndHash) : Except MftErr Unit :=
  let filenames := (fileList.map FileAndHash.file).mergeSort fun s s' => decide (s ≤ s')
  if (filenames.zip filenames.tail).any fun (s, s') => s = s' then .error .mftDupFile else .ok ()

def checkMftDates (m : MftCms) (now : Int) : Except MftErr Bool :=
  match m.thisUpdate, m.nextUpdate, m.notBefore, m.notAfter with
  | some thisUpdate, some nextUpdate, some notBefore, some notAfter =>
    if thisUpdate > now ∨ nextUpdate < thisUpdate ∨ thisUpdate < notBefore ∨ nextUpdate > notAfter then
      .error .invalDT
    else
      .ok (decide (now > nextUpdate))
  | _, _, _, _ => .error .invalDT

def failIf (c : Bool) (e : MftErr) : Except MftErr Unit :=
  if c then .error e else .ok ()

def manifestValidate (m : MftCms) (now : Int) : Except MftErr Bool := do
  failIf (!m.isManifest) .badCT
  failIf (m.size ≤ 0) .badCT
  checkMftVersion m
  checkMftNumber m
  failIf (!m.isSha256) .badHashAlg
  checkMftFilenames m.fileList
  checkMftDuplicateFilenames m.fileList
  m.cmsValidate
  let stale ← checkMftDates m now
  failIf m.hasNonInheritResources .notInherit
  return stale

/--
How the reading of the names ends early: with a write outside an array, in `xsnprintf`, which aborts
the process if its buffer is too small, or with an error code.
-/
inductive Fault where
  | outOfBounds
  | abort
  | badMftFilename
  deriving DecidableEq, Repr

def readCasn (value buf : List Char) : Except Fault (List Char) :=
  if value.length ≤ buf.length then .ok (value ++ buf.drop value.length) else .error .outOfBounds

def terminate (i : Nat) (buf : List Char) : Except Fault (List Char) :=
  if i < buf.length then .ok (buf.set i CString.nul) else .error .outOfBounds

def readFile (name : String) (buf : List Char) : Except Fault (List Char) := do
  let buf ← readCasn name.toList buf
  terminate name.length buf

def cString (buf : List Char) : List Char :=
  buf.takeWhile fun c => c ≠ CString.nul

def manFilesSize : Nat := 400000

def separator (manFiles : List Char) : List Char :=
  if manFiles = [] then [] else [' ']

def addManifest.readFiles (file manFiles : List Char)
    : List FileAndHash → Except Fault (List Char)
  | [] => .ok manFiles
  | fah :: rest => do
    let file ← readFile fah.file file
    let text := separator manFiles ++ cString file
    if text.length < manFilesSize - manFiles.length then
      addManifest.readFiles file (manFiles ++ text) rest
    else
      .error .abort

def updateManifestObjs.readFiles (file : List Char) (escapedFileSize : Nat)
    : List FileAndHash → Except Fault Unit
  | [] => .ok ()
  | fah :: rest =>
    if fah.file.length + 1 > file.length then
      .error .badMftFilename
    else do
      let file ← readFile fah.file file
      let name := String.ofList (cString file)
      if (manifestTable name).isSome ∧ escapedFileSize < (Garbage.mysqlEscapeString name).length + 1 then
        .error .outOfBounds
      else
        updateManifestObjs.readFiles file escapedFileSize rest

structure NamesStayInside (fileList : List FileAndHash) : Prop where
  addManifest : ∀ file : List Char, file.length = 200 →
    addManifest.readFiles file [] fileList ≠ .error .outOfBounds
  updateManifestObjs : ∀ file : List Char, file.length = nameMax + 1 →
    updateManifestObjs.readFiles file (nameMax * 2 + 1) fileList ≠ .error .outOfBounds

def ShortNames (fileList : List FileAndHash) : Prop :=
  (∀ fah ∈ fileList, fah.file.length < 200) ∨
    manFilesSize < ((fileList.takeWhile fun fah => fah.file.length < 200).map
      fun fah => fah.file.length + 1).sum

section ReadFile

variable {name : String} {buf : List Char}

theorem readFile_of_lt (h : name.length < buf.length)
    : readFile name buf = .ok (name.toList ++ CString.nul :: buf.drop (name.length + 1)) := by
  have hlength : name.toList.length = name.length := String.length_toList
  have hread : readCasn name.toList buf = .ok (name.toList ++ buf.drop name.length) := by
    rw [readCasn, hlength, if_pos (by omega)]
  have hset : (name.toList ++ buf.drop name.length).set name.length CString.nul
      = name.toList ++ CString.nul :: buf.drop (name.length + 1) := by
    rw [set_append_right _ _ (by omega), drop_eq_getElem_cons h, hlength, Nat.sub_self,
      set_cons_zero]
  rw [readFile, hread]
  simp only [bind, Except.bind]
  rw [terminate, if_pos (by simp [hlength]; omega), hset]

theorem readFile_of_le (h : buf.length ≤ name.length)
    : readFile name buf = .error .outOfBounds := by
  have hlength : name.toList.length = name.length := String.length_toList
  unfold readFile readCasn terminate
  split
  . simp [bind, Except.bind, hlength]
    omega
  . rfl

theorem length_of_readFile {buf' : List Char} (h : readFile name buf = .ok buf')
    : buf'.length = buf.length := by
  by_cases hlt : name.length < buf.length
  . rw [readFile_of_lt hlt] at h
    cases h
    rw [length_append, length_cons, length_drop, String.length_toList]
    omega
  . rw [readFile_of_le (by omega)] at h
    cases h

theorem cString_append {text : List Char} (h : CString.nul ∉ text) (rest : List Char)
    : cString (text ++ CString.nul :: rest) = text := by
  rw [cString, takeWhile_append_of_pos]
  . simp
  . intro _ hc
    simp only [decide_eq_true_eq]
    rintro rfl
    exact h hc

theorem length_cString_le (text rest : List Char)
    : (cString (text ++ CString.nul :: rest)).length ≤ text.length := by
  induction text with
  | nil => simp [cString]
  | cons _ text ih =>
    rw [cons_append, cString, takeWhile_cons]
    split
    . exact Nat.succ_le_succ ih
    . exact Nat.zero_le _

end ReadFile

section Names

variable {fah : FileAndHash} {fileList : List FileAndHash}

def Checked (fah : FileAndHash) : Prop :=
  0 < fah.file.length ∧ fah.file.length ≤ nameMax ∧ CString.nul ∉ fah.file.toList

theorem checked_of_checkMftFilename (h : checkMftFilename fah = .ok ()) : Checked fah := by
  unfold checkMftFilename at h
  split at h
  . cases h
  next hlength =>
  split at h
  . cases h
  next hchars =>
  refine ⟨by omega, by omega, ?_⟩
  intro hnul
  apply hchars
  rw [List.any_eq_true]
  exact ⟨_, hnul, by simp⟩

theorem checked_of_checkMftFilenames (h : checkMftFilenames fileList = .ok ())
    : ∀ fah ∈ fileList, Checked fah := by
  induction fileList with
  | nil => simp
  | cons fah _ ih =>
    rw [checkMftFilenames, Except.unit_bind_eq_ok_iff] at h
    rw [forall_mem_cons]
    exact ⟨checked_of_checkMftFilename h.1, ih h.2⟩

theorem checked_of_manifestValidate {m : MftCms} {now : Int} {stale : Bool}
    (h : manifestValidate m now = .ok stale) : ∀ fah ∈ m.fileList, Checked fah := by
  apply checked_of_checkMftFilenames
  simp only [manifestValidate, Except.unit_bind_eq_ok_iff] at h
  exact h.2.2.2.2.2.1

theorem cString_readFile (h : Checked fah) {buf : List Char} (hlt : fah.file.length < buf.length)
    : ∃ buf', readFile fah.file buf = .ok buf' ∧ cString buf' = fah.file.toList :=
  ⟨_, readFile_of_lt hlt, cString_append h.2.2 _⟩

theorem length_separator_append {text : List Char} (h : text ≠ []) (manFiles : List Char)
    : (separator (manFiles ++ text)).length = 1 := by
  simp [separator, h]

theorem readFiles_eq_outOfBounds_iff (h : ∀ fah ∈ fileList, Checked fah) {file manFiles : List Char}
    (hfile : file.length = 200) (hfits : (separator manFiles).length + manFiles.length ≤ manFilesSize)
    : addManifest.readFiles file manFiles fileList = .error .outOfBounds ↔
        (∃ fah ∈ fileList, 200 ≤ fah.file.length) ∧
        (separator manFiles).length + manFiles.length
          + ((fileList.takeWhile fun fah => fah.file.length < 200).map
            fun fah => fah.file.length + 1).sum ≤ manFilesSize := by
  induction fileList generalizing file manFiles with
  | nil => simp [addManifest.readFiles]
  | cons fah _ ih =>
    rw [forall_mem_cons] at h
    by_cases hlt : fah.file.length < 200
    . rcases @cString_readFile fah h.1 file (by omega) with ⟨file', hread, hname⟩
      have hfile' : file'.length = 200 := (length_of_readFile hread).trans hfile
      have hlength : (cString file').length = fah.file.length := by
        rw [hname, String.length_toList]
      have hne : separator manFiles ++ cString file' ≠ [] := by
        rw [← length_pos_iff, length_append, hlength]
        exact Nat.lt_add_left _ h.1.1
      rw [takeWhile_cons_of_pos (by simpa using hlt), map_cons, sum_cons]
      simp only [addManifest.readFiles, hread, bind, Except.bind]
      split
      . next hnoabort =>
        rw [length_append, hlength] at hnoabort
        have hused : (separator (manFiles ++ (separator manFiles ++ cString file'))).length
            + (manFiles ++ (separator manFiles ++ cString file')).length
            = (separator manFiles).length + manFiles.length + (fah.file.length + 1) := by
          rw [length_separator_append hne, length_append, length_append, hlength]
          omega
        rw [ih h.2 hfile' (by omega), hused, Nat.add_assoc]
        simp [hlt]
      next habort =>
      rw [length_append, hlength] at habort
      constructor
      . intro hfault
        cases hfault
      . rintro ⟨-, _⟩
        omega
    rw [takeWhile_cons_of_neg (by simpa using hlt)]
    simp only [addManifest.readFiles, readFile_of_le (by omega : file.length ≤ fah.file.length), bind,
      Except.bind, true_iff]
    refine ⟨⟨fah, mem_cons_self, by omega⟩, ?_⟩
    simpa using hfits

theorem length_mysqlEscapeString_le (s : String)
    : (Garbage.mysqlEscapeString s).length ≤ s.length * 2 := by
  have hchar (c : Char) : (Garbage.escapeChar c).length ≤ 2 := by
    unfold Garbage.escapeChar
    repeat' split
    all_goals simp
  have hlist (text : List Char) : (text.flatMap Garbage.escapeChar).length ≤ text.length * 2 := by
    induction text with
    | nil => simp
    | cons c text ih =>
      have := hchar c
      simp only [flatMap_cons, length_append, length_cons]
      omega
  rw [Garbage.mysqlEscapeString, String.length_ofList, ← String.length_toList]
  exact hlist s.toList

theorem updateManifestObjs_readFiles_ne {file : List Char} (hfile : file.length = nameMax + 1)
    : updateManifestObjs.readFiles file (nameMax * 2 + 1) fileList ≠ .error .outOfBounds := by
  induction fileList generalizing file with
  | nil => simp [updateManifestObjs.readFiles]
  | cons fah _ ih =>
    unfold updateManifestObjs.readFiles
    split
    . simp
    next hle =>
    have hread := @readFile_of_lt fah.file file (by omega)
    have hfile' := (length_of_readFile hread).trans hfile
    have hname := length_cString_le fah.file.toList (file.drop (fah.file.length + 1))
    rw [String.length_toList] at hname
    generalize fah.file.toList ++ CString.nul :: file.drop (fah.file.length + 1) = file'
      at hread hfile' hname
    simp only [hread, bind, Except.bind]
    split
    . next hescape =>
      have hle := length_mysqlEscapeString_le (String.ofList (cString file'))
      rw [String.length_ofList] at hle
      omega
    . exact ih hfile'

theorem shortNames_iff
    : ShortNames fileList ↔
        ¬((∃ fah ∈ fileList, 200 ≤ fah.file.length) ∧
          ((fileList.takeWhile fun fah => fah.file.length < 200).map
            fun fah => fah.file.length + 1).sum ≤ manFilesSize) := by
  rw [ShortNames, not_and_or, Nat.not_le]
  simp only [not_exists, not_and, Nat.not_le]

theorem namesStayInside_iff (h : ∀ fah ∈ fileList, Checked fah)
    : NamesStayInside fileList ↔ ShortNames fileList := by
  have hloop (file : List Char) (hfile : file.length = 200)
      : addManifest.readFiles file [] fileList ≠ .error .outOfBounds ↔ ShortNames fileList := by
    rw [ne_eq, @readFiles_eq_outOfBounds_iff fileList h file [] hfile (Nat.zero_le _), shortNames_iff]
    simp [separator]
  constructor
  . intro hinside
    have hfile : (replicate 200 CString.nul).length = 200 := length_replicate
    exact (hloop _ hfile).mp (hinside.addManifest _ hfile)
  intro hshort
  constructor
  . intro file hfile
    exact (hloop file hfile).mpr hshort
  . intro file hfile
    exact updateManifestObjs_readFiles_ne hfile

end Names

theorem manifest_names_stay_inside_iff (m : MftCms) (now : Int) (stale : Bool)
    (h : manifestValidate m now = .ok stale)
    : NamesStayInside m.fileList ↔ ShortNames m.fileList :=
  namesStayInside_iff (checked_of_manifestValidate h)

section Add

variable (env : Env) (decode : Cms → MftCms) (errors : MftErr → Err)

/--
The environment in which the standalone check of a manifest is the one of this module, on what `decode`
finds in the file.
-/
def checkingManifests : Env :=
  { env with manifestValidate := fun cms now => (manifestValidate (decode cms) now).mapError errors }

variable {env decode errors} {fuel id : Nat} {w w' : World} {outfile outdir outfull : String} {utrust : Bool}

theorem checked_of_addManifest (hdecode : ∀ cms, (decode cms).fileList = cms.fileList)
    (h : addManifest (checkingManifests env decode errors) fuel w outfile outdir outfull id utrust
      = some (.ok (), w'))
    : ∃ cms, w.fs outfull = some (.cms cms) ∧ ∀ fah ∈ cms.fileList, Checked fah := by
  unfold addManifest at h
  split at h
  . next cms hfile =>
    refine ⟨cms, hfile, ?_⟩
    cases hvalidate : manifestValidate (decode cms) w.now with
    | error e => simp [checkingManifests, hvalidate, Except.mapError] at h
    | ok stale => exact hdecode cms ▸ checked_of_manifestValidate hvalidate
  . cases h

end Add

def sampleMft (lengths : List Nat) : MftCms where
  isManifest := true
  size := 1
  version := some (0, 0)
  manifestNumber := [1]
  isSha256 := true
  fileList := lengths.map fun length => ⟨String.ofList (replicate length 'a'), replicate 32 0⟩
  cmsValidate := .ok ()
  thisUpdate := some 0
  nextUpdate := some 2
  notBefore := some 0
  notAfter := some 2
  hasNonInheritResources := false

theorem checkMftFilename_sampleMft {length : Nat} (h : 2 < length) (hmax : length ≤ nameMax)
    : checkMftFilename ⟨String.ofList (replicate length 'a'), replicate 32 0⟩ = .ok () := by
  have hlength : (String.ofList (replicate length 'a')).length = length := by
    rw [String.length_ofList, length_replicate]
  have hdots (s : String) (hs : s.length ≤ 2) : String.ofList (replicate length 'a') ≠ s := by
    rintro rfl
    omega
  rw [checkMftFilename, hlength, if_neg (by omega), if_neg, if_neg]
  . rfl
  . rw [not_or]
    exact ⟨hdots "." (by decide), hdots ".." (by decide)⟩
  . simp only [String.toList_ofList, any_replicate]
    split
    . simp
    . decide

theorem ne_of_mem_zip_tail {l : List String} (h : l.Nodup) : ∀ p ∈ l.zip l.tail, p.1 ≠ p.2 := by
  induction l with
  | nil => simp
  | cons s l ih =>
    cases l with
    | nil => simp
    | cons s' l =>
      rw [nodup_cons] at h
      intro p hp
      rcases mem_cons.mp hp with rfl | hp
      . exact fun heq => h.1 (mem_cons.mpr (.inl heq))
      . exact ih h.2 p hp

theorem checkMftDuplicateFilenames_of_nodup {fileList : List FileAndHash}
    (h : (fileList.map FileAndHash.file).Nodup) : checkMftDuplicateFilenames fileList = .ok () := by
  have hsorted := ne_of_mem_zip_tail ((mergeSort_perm (fileList.map FileAndHash.file)
    fun s s' => decide (s ≤ s')).nodup_iff.mpr h)
  rw [checkMftDuplicateFilenames, if_neg]
  simpa using fun s hs => hsorted (s, s) hs rfl

theorem manifestValidate_sampleMft {lengths : List Nat} (h : ∀ length ∈ lengths, 2 < length ∧ length ≤ nameMax)
    (hnodup : lengths.Nodup) : manifestValidate (sampleMft lengths) 1 = .ok false := by
  have hnames : checkMftFilenames (sampleMft lengths).fileList = .ok () := by
    clear hnodup
    induction lengths with
    | nil => rfl
    | cons length lengths ih =>
      rw [forall_mem_cons] at h
      have hrest : checkMftFilenames (lengths.map fun length =>
          ⟨String.ofList (replicate length 'a'), replicate 32 0⟩) = .ok () := ih h.2
      simp only [sampleMft, map_cons, checkMftFilenames, checkMftFilename_sampleMft h.1.1 h.1.2, hrest]
      rfl
  have hduplicates : checkMftDuplicateFilenames (sampleMft lengths).fileList = .ok () := by
    apply checkMftDuplicateFilenames_of_nodup
    rw [sampleMft, List.map_map, List.Nodup, pairwise_map]
    exact hnodup.imp fun hne heq => hne (by simpa using congrArg String.length heq)
  simp only [manifestValidate, hnames, hduplicates]
  rfl

theorem manifest_names_stay_inside_iff_short
    : manifestValidate (sampleMft [3, 199, 120]) 1 = .ok false
      ∧ NamesStayInside (sampleMft [3, 199, 120]).fileList := by
  have haccepted := @manifestValidate_sampleMft [3, 199, 120] (by decide) (by decide)
  refine ⟨haccepted, (manifest_names_stay_inside_iff _ 1 false haccepted).mpr (.inl ?_)⟩
  simp only [sampleMft, forall_mem_map, String.length_ofList, length_replicate]
  decide

theorem manifest_name_outOfBounds
    : manifestValidate (sampleMft [200]) 1 = .ok false ∧
        addManifest.readFiles (replicate 200 CString.nul) [] (sampleMft [200]).fileList
          = .error .outOfBounds := by
  refine ⟨manifestValidate_sampleMft (by decide) (by decide), ?_⟩
  have hread : readFile (String.ofList (replicate 200 'a')) (replicate 200 CString.nul)
      = .error .outOfBounds := by
    apply readFile_of_le
    rw [String.length_ofList, length_replicate, length_replicate]
  rw [sampleMft, map_singleton, addManifest.readFiles, hread]
  rfl

end Rpstir.Sqhl
