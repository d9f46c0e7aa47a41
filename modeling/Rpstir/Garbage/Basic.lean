import Rpstir.Db.Flags

/-!
This module contains the phases of the garbage collector that are in `garbage.c` itself, with the columns
that they use.
-/

namespace Rpstir.Garbage

structure Row where
  filename : String
  dirId : Nat
  flags : Flags
  deriving DecidableEq, Repr

structure CertRow extends Row where
  localId : Nat
  issuer : String
  aki : Option String
  deriving DecidableEq, Repr

structure CrlRow extends Row where
  issuer : String
  aki : Option String
  nextUpd : Nat
  deriving DecidableEq, Repr

structure ManifestRow where
  dirId : Nat
  fileList : List String
  nextUpd : Nat
  deriving DecidableEq, Repr

def ManifestRow.files (m : ManifestRow) : String :=
  String.intercalate " " m.fileList

structure Db where
  cert : List CertRow
  crl : List CrlRow
  gbr : List Row
  roa : List Row
  manifest : List ManifestRow
  deriving DecidableEq, Repr

inductive Table where
  | cert
  | crl
  | gbr
  | roa
  deriving DecidableEq, Repr

def Table.tabname : Table → String
  | cert => "rpki_cert"
  | crl => "rpki_crl"
  | gbr => "rpki_ghostbusters"
  | roa => "rpki_roa"

namespace Db

def rows (db : Db) : Table → List Row
  | .cert => db.cert.map CertRow.toRow
  | .crl => db.crl.map CrlRow.toRow
  | .gbr => db.gbr
  | .roa => db.roa

def mapRows (db : Db) (f : Row → Row) : Table → Db
  | .cert => { db with cert := db.cert.map fun r => { r with toRow := f r.toRow } }
  | .crl => { db with crl := db.crl.map fun r => { r with toRow := f r.toRow } }
  | .gbr => { db with gbr := db.gbr.map f }
  | .roa => { db with roa := db.roa.map f }

end Db

def countCurrentCRLs (db : Db) (now : Nat) (issuer : String) (aki : Option String) : Nat :=
  (db.crl.filter fun c => c.issuer = issuer && c.aki = some (aki.getD "") && decide (now ≤ c.nextUpd)).length

def handleIfStale (db : Db) (issuer : String) (aki : Option String) (cnt : Nat) : Db :=
  if cnt > 0 then
    db
  else
    { db with
      cert := db.cert.map fun r =>
        if r.aki = some (aki.getD "") && r.issuer = issuer && r.flags.test Flags.stalecrl false
            && r.flags.test Flags.ca true then
          { r with flags := r.flags + Flags.stalecrl }
        else
          r }

def markStaleCrls (now : Nat) (db : Db) : Db :=
  (db.crl.filter fun c => c.nextUpd ≤ now).foldl
    (fun db c => handleIfStale db c.issuer c.aki (countCurrentCRLs db now c.issuer c.aki)) db

def handleIfCurrent (db : Db) (theID cnt : Nat) : Db :=
  if cnt = 0 then
    db
  else
    { db with
      cert := db.cert.map fun r =>
        if r.localId = theID then { r with flags := r.flags - Flags.stalecrl } else r }

def recheckCerts (now : Nat) (db : Db) : Db :=
  (db.cert.filter fun r => r.flags.test Flags.stalecrl true).foldl
    (fun db r => handleIfCurrent db r.localId (countCurrentCRLs db now r.issuer r.aki)) db

def manfilesSize : Nat := 400000

def maxStaleManFiles : Nat := 10000

def escapeChar (c : Char) : List Char :=
  if c = Char.ofNat 0 then ['\\', '0']
  else if c = '\n' then ['\\', 'n']
  else if c = '\r' then ['\\', 'r']
  else if c = '\\' then ['\\', '\\']
  else if c = '\'' then ['\\', '\'']
  else if c = '\"' then ['\\', '\"']
  else if c = Char.ofNat 26 then ['\\', 'Z']
  else [c]

def mysqlEscapeString (s : String) : String :=
  String.ofList (s.toList.flatMap escapeChar)

def staleManStmt (tab : Table) (isSet : Bool) (files : String) : String :=
  "update " ++ tab.tabname ++ " set flags=flags" ++ (if isSet then "+" else "-")
    ++ toString Flags.staleman.toNat ++ " where (flags%" ++ toString (2 * Flags.staleman.toNat) ++ ")"
    ++ (if isSet then "<" else ">=") ++ toString Flags.staleman.toNat ++ " and \"" ++ mysqlEscapeString files
    ++ "\" regexp binary filename;"

section Regexp

-- Whether a string has a match of a pattern. The result is `none` if the pattern is malformed.
variable (regexp : String → String → Option Bool)

def updateRow (isSet : Bool) (files : String) (r : Row) : Row :=
  if r.flags.test Flags.staleman (!isSet) && regexp r.filename files = some true then
    { r with flags := if isSet then r.flags + Flags.staleman else r.flags - Flags.staleman }
  else
    r

def updateStaleMan (isSet : Bool) (tab : Table) (files : String) (db : Db) : Db :=
  if (db.rows tab).any fun r =>
      r.flags.test Flags.staleman (!isSet) && regexp r.filename files = none then
    db
  else
    db.mapRows (updateRow regexp isSet files) tab

def handleMan2 (isSet : Bool) (tab : Table) (files : String) (db : Db) : Option Db :=
  if (staleManStmt tab isSet files).utf8ByteSize < manfilesSize then
    some (updateStaleMan regexp isSet tab files db)
  else
    none

def handleStaleMan2 (tab : Table) (files : String) (db : Db) : Option Db :=
  handleMan2 regexp true tab files db

def handleFreshMan2 (tab : Table) (files : String) (db : Db) : Option Db :=
  handleMan2 regexp false tab files db

/--
The loop over the manifests that a search has found, one table after the other for each of them. The
array of file lists has room for a fixed number of them.
-/
def handleManifests (handle : Table → String → Db → Option Db) (found : List ManifestRow) (db : Db)
    : Option Db :=
  if found.length ≤ maxStaleManFiles then
    found.foldlM (fun db m =>
      handle .cert m.files db >>= handle .crl m.files >>= handle .gbr m.files
        >>= handle .roa m.files) db
  else
    none

def markStaleManifests (now : Nat) (db : Db) : Option Db := do
  let db ← handleManifests (handleStaleMan2 regexp) (db.manifest.filter fun m => m.nextUpd ≤ now) db
  handleManifests (handleFreshMan2 regexp) (db.manifest.filter fun m => now < m.nextUpd) db

def garbage (now : Nat) (db : Db) : Option Db := do
  let db ← markStaleManifests regexp now (markStaleCrls now db)
  return recheckCerts now db

end Regexp

end Rpstir.Garbage
