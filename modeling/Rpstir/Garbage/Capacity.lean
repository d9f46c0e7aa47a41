import Rpstir.Db.Query
import Rpstir.Garbage.Basic
import Rpstir.Sqhl.Basic

/-!
This module contains what is written to the arrays of fixed size of `garbage.c` and `set_cert_sigval`. A
result `none` is a write behind the end of an array, or `xvsnprintf` aborts the process.
-/

namespace Rpstir.Garbage

open List Option

def handleStaleMan (staleManFiles : List String) (m : ManifestRow) : Option (List String) :=
  -- the index is `numStaleManFiles`, the number of lists that have been stored
  if staleManFiles.length < maxStaleManFiles then some (staleManFiles ++ [m.files]) else none

theorem foldlM_handleStaleMan {files : List String} (hfiles : files.length ≤ maxStaleManFiles)
    (found : List ManifestRow)
    : found.foldlM handleStaleMan files
      = if files.length + found.length ≤ maxStaleManFiles then some (files ++ found.map ManifestRow.files)
        else none := by
  induction found generalizing files with
  | nil => simp [hfiles]
  | cons m found ih =>
    rw [foldlM_cons, handleStaleMan]
    split
    . next hlt =>
      rw [bind_eq_bind, bind_some, ih (by rw [length_append]; exact hlt)]
      simp [Nat.add_assoc, Nat.add_comm 1]
    . rw [if_neg (by rw [length_cons]; omega)]
      rfl

theorem handleManifests_eq (handle : Table → String → Db → Option Db) (found : List ManifestRow) (db : Db)
    : handleManifests handle found db
      = (found.foldlM handleStaleMan []).bind fun files => files.foldlM (fun db files =>
        handle .cert files db >>= handle .crl files >>= handle .gbr files >>= handle .roa files) db := by
  rw [foldlM_handleStaleMan (Nat.zero_le _), handleManifests, length_nil, Nat.zero_add]
  split
  . rw [bind_some, nil_append, foldlM_map]
  . rfl

theorem handleStaleMan_isSome (found : List ManifestRow)
    : (found.foldlM handleStaleMan []).isSome = true ↔ found.length ≤ maxStaleManFiles := by
  rw [foldlM_handleStaleMan (Nat.zero_le _), length_nil, Nat.zero_add]
  split <;> simp [*]

def staleManifests (now : Nat) (db : Db) : List ManifestRow :=
  db.manifest.filter fun m => m.nextUpd ≤ now

def freshManifests (now : Nat) (db : Db) : List ManifestRow :=
  db.manifest.filter fun m => now < m.nextUpd

theorem staleManFiles_inside_iff (now : Nat) (db : Db)
    : (((staleManifests now db).foldlM handleStaleMan []).isSome = true
        ∧ ((freshManifests now db).foldlM handleStaleMan []).isSome = true)
      ↔ (staleManifests now db).length ≤ 10000 ∧ (freshManifests now db).length ≤ 10000 := by
  rw [handleStaleMan_isSome, handleStaleMan_isSome]
  rfl

theorem staleManFiles_outside
    : ((staleManifests 1 ⟨[], [], [], [], replicate 10001 ⟨1, ["a.cer"], 0⟩⟩).foldlM handleStaleMan []).isSome
      = false := by
  rw [← Bool.not_eq_true, handleStaleMan_isSome, staleManifests, filter_replicate_of_pos (by decide),
    length_replicate]
  decide

def inside (size : Nat) (text : String) : Option String :=
  if text.utf8ByteSize < size then some text else none

def staleCrlMsg (theIssuer theAKI : String) : String :=
  "update " ++ Table.cert.tabname ++ " set flags = flags + " ++ toString Flags.stalecrl.toNat
    ++ " where aki=\"" ++ mysqlEscapeString theAKI ++ "\" and issuer=\"" ++ mysqlEscapeString theIssuer ++ "\""

def handleIfStaleStmt (theIssuer theAKI : String) : Option String := do
  let msg ← inside 600 (staleCrlMsg theIssuer theAKI)
  let msg ← addFlagTest msg Flags.stalecrl false true
  let msg ← addFlagTest msg Flags.ca true true
  -- `addFlagTest` takes the array for one of `WHERESTR_SIZE` bytes
  inside 600 (msg ++ ";")

def sigvalText : Sqhl.SigVal → String
  | .unknown => "0"
  | .notPresent => "1"
  | .valid => "2"
  | .invalid => "3"

def setCertSigvalStmt (subj ski : String) (valu : Sqhl.SigVal) : Option String :=
  inside 520 ("update " ++ Table.cert.tabname ++ " set sigval=" ++ sigvalText valu ++ " where ski=\"" ++ ski
    ++ "\" and subject=\"" ++ mysqlEscapeString subj ++ "\";")

theorem handleIfStaleStmt_isSome (theIssuer theAKI : String)
    : (handleIfStaleStmt theIssuer theAKI).isSome = true
      ↔ (mysqlEscapeString theAKI).utf8ByteSize + (mysqlEscapeString theIssuer).utf8ByteSize < 494 := by
  have hstart : ("update " ++ Table.cert.tabname ++ " set flags = flags + " ++ toString Flags.stalecrl.toNat
      ++ " where aki=\"").utf8ByteSize = 51 := by
    decide
  have hissuer : "\" and issuer=\"".utf8ByteSize = 14 := by decide
  have hquote : "\"".utf8ByteSize = 1 := by decide
  have hmsg : (staleCrlMsg theIssuer theAKI).utf8ByteSize
      = (mysqlEscapeString theAKI).utf8ByteSize + (mysqlEscapeString theIssuer).utf8ByteSize + 66 := by
    simp only [staleCrlMsg, String.utf8ByteSize_append] at hstart ⊢
    omega
  have hand : " and".utf8ByteSize = 4 := by decide
  have hstalecrl : (flagTestText Flags.stalecrl false).utf8ByteSize = 16 := by decide
  have hca : (flagTestText Flags.ca true).utf8ByteSize = 15 := by decide
  have hend : ";".utf8ByteSize = 1 := by decide
  simp only [handleIfStaleStmt, addFlagTest, fit, inside, whereStrSize, isSome_iff_exists, bind_eq_bind,
    bind_eq_some_iff, ite_none_right_eq_some, if_true, some.injEq, exists_eq_right', and_assoc,
    exists_eq_left', exists_and_left, String.utf8ByteSize_append]
  omega

theorem setCertSigvalStmt_isSome (subj ski : String) (valu : Sqhl.SigVal)
    : (setCertSigvalStmt subj ski valu).isSome = true
      ↔ ski.utf8ByteSize + (mysqlEscapeString subj).utf8ByteSize < 462 := by
  have hstart : ("update " ++ Table.cert.tabname ++ " set sigval=" ++ sigvalText valu
      ++ " where ski=\"").utf8ByteSize = 41 := by
    cases valu <;> decide
  have hand : "\" and subject=\"".utf8ByteSize = 15 := by decide
  have hend : "\";".utf8ByteSize = 2 := by decide
  simp only [setCertSigvalStmt, inside, isSome_ite, String.utf8ByteSize_append] at hstart ⊢
  omega

/--
The statements of the rows of a CRL and of a certificate are formatted without leaving their arrays exactly
if what the escapes leave of the columns is this short.
-/
theorem statements_inside_iff (aki issuer ski subject : String) (valu : Sqhl.SigVal)
    : ((handleIfStaleStmt issuer aki).isSome = true ∧ (setCertSigvalStmt subject ski valu).isSome = true)
      ↔ (mysqlEscapeString aki).utf8ByteSize + (mysqlEscapeString issuer).utf8ByteSize < 494
        ∧ ski.utf8ByteSize + (mysqlEscapeString subject).utf8ByteSize < 462 := by
  rw [handleIfStaleStmt_isSome, setCertSigvalStmt_isSome]

theorem statements_outside
    : let name := String.ofList (replicate 500 'a')
      let ki := String.intercalate ":" (replicate 20 "00")
      (handleIfStaleStmt name ki).isSome = false ∧ (setCertSigvalStmt name ki .valid).isSome = false := by
  decide +kernel

end Rpstir.Garbage
