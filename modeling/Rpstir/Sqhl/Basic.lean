import Rpstir.Db.Flags

/-!
This module contains the tables behind `sqhl.c`, the files they describe, and the statements on them. A
table is the list of its rows in the order of a select; an insert puts the row at a place that MySQL
chooses.
-/

namespace Rpstir.Sqhl

inductive Err where
  | asn1Lth
  | badCert
  | badExt
  | badMftDbHash
  | badMftFilename
  | badMftHash
  | badNumCerts
  | coFile
  | dupSig
  | expired
  | internal
  | invalArg
  | invalAsn
  | noData
  | noSig
  | noSki
  | notSS
  | notValid
  | profile (code : Nat)
  | revoked
  | smallKey
  | sql
  | writeEE
  | x509
  deriving DecidableEq, Repr

inductive SigVal where
  | unknown
  | notPresent
  | valid
  | invalid
  deriving DecidableEq, Repr

abbrev PKey := Nat

/--
A decoded certificate. `body` stands for everything in it that only OpenSSL and the profile check
look at.
-/
structure X509 where
  subject : Option String
  issuer : String
  sn : List UInt8
  notBefore : Nat
  notAfter : Nat
  sig : String
  ski : Option String
  aki : Option String
  ca : Bool
  largeKey : Bool
  pubkey : Option PKey
  body : Nat
  deriving DecidableEq, Repr

structure X509Crl where
  issuer : String
  aki : Option String
  sig : String
  nextUpd : Nat
  snlist : List (List UInt8)
  body : Nat
  deriving DecidableEq, Repr

structure FileAndHash where
  file : String
  hash : List UInt8
  deriving DecidableEq, Repr

structure RoaPrefix where
  prefixBytes : List UInt8
  prefixLength : UInt8
  prefixMaxLength : UInt8
  deriving DecidableEq, Repr

structure Cms where
  cert : Option X509
  certIndefLth : Bool
  certExtKeyUsage : Bool
  ski : Option String
  signature : Option String
  asID : UInt32
  prefixes : Option (List RoaPrefix)
  fileList : List FileAndHash
  body : Nat
  deriving DecidableEq, Repr

inductive File where
  | cert (x : X509)
  | crl (x : X509Crl)
  | cms (x : Cms)
  | other (content : Nat)
  deriving DecidableEq, Repr

inductive StoredHash where
  | empty
  | hex (bytes : List UInt8)
  | malformed
  deriving DecidableEq, Repr

inductive Table where
  | cert
  | crl
  | roa
  | manifest
  | gbr
  deriving DecidableEq, Repr

structure Obj where
  filename : String
  dirId : Nat
  localId : Nat
  flags : Flags
  hash : StoredHash
  deriving DecidableEq, Repr

structure CertRow extends Obj where
  subject : String
  issuer : String
  sn : List UInt8
  ski : String
  aki : Option String
  sig : String
  valfrom : Nat
  valto : Nat
  sigval : SigVal
  deriving DecidableEq, Repr

structure CrlRow extends Obj where
  issuer : String
  aki : Option String
  sig : String
  snlist : List (List UInt8)
  deriving DecidableEq, Repr

structure RoaRow extends Obj where
  ski : String
  sig : String
  asn : UInt32
  prefixes : List RoaPrefix
  sigval : SigVal
  deriving DecidableEq, Repr

structure ManifestRow extends Obj where
  ski : String
  files : String
  deriving DecidableEq, Repr

structure GbrRow extends Obj where
  ski : String
  deriving DecidableEq, Repr

structure DirRow where
  dirname : String
  dirId : Nat
  deriving DecidableEq, Repr

/--
The static search `certSrch`. Whichever of `find_parent_cert` and `find_cert_by_aKI` runs first sets
it up: the first with columns for `aki` and `issuer`, into whose buffers `parentAKI` and
`parentIssuer` then point, the second with `ski` and `aki` in their place, and the two pointers stay
NULL.
-/
inductive CertSrch where
  | unset
  | parent (aki issuer : String)
  | byAKI
  deriving DecidableEq, Repr

/--
The database, the files it describes, the clock, and the static variables of `sqhl.c`. The last field
is a record of the calls of `X509_verify` that no function reads.
-/
structure World where
  dir : List DirRow
  cert : List CertRow
  crl : List CrlRow
  roa : List RoaRow
  manifest : List ManifestRow
  gbr : List GbrRow
  tdir : String
  fs : String → Option File
  now : Nat
  allowex : Bool
  useParacerts : Bool
  certSrch : CertSrch
  checked : List (X509 × PKey)

inductive CertType where
  | ta
  | ca
  | ee
  deriving DecidableEq, Repr

/--
What the program calls and does not define: OpenSSL, the standalone checks of the objects, SHA-256,
MySQL's `REGEXP`, the choice of the place of a new row, and what MySQL makes of a where clause with a name
that ends its literal or has a backslash in it (`pastedSigval`).

`X509_verify_cert` builds a chain or gives up (`chainOf`), calls the verify function of its context
on that chain, and turns the answer of that function into its own (`afterVerify`).
-/
structure Env where
  x509Verify : X509 → PKey → Int
  checkIssued : X509 → X509 → Bool
  chainOf : X509 → List X509 → List X509 → Except Int (List X509)
  afterVerify : X509 → List X509 → List X509 → Bool → Int
  afterVerify_false : ∀ x untrusted trusted, afterVerify x untrusted trusted false = 0
  crlVerify : X509Crl → Option PKey → Int
  rescertProfileChk : X509 → CertType → Except Err Unit
  crlProfileChk : X509Crl → Except Err Unit
  crlFieldsChk : X509Crl → Except Err Unit
  roaFromFileChk : Cms → Except Err Unit
  roaValidate : Cms → Except Err Unit
  roaValidate2 : Cms → Except Err Unit
  manifestValidate : Cms → Nat → Except Err Bool
  ghostbustersValidate : Cms → Except Err Unit
  sha256 : File → List UInt8
  size : File → Nat
  regexp : String → String → Bool
  pastedSigval : List CertRow → String → String → SigVal
  canWrite : String → Bool
  place : Table → List Obj → Obj → Nat

namespace World

variable (w : World) (tab : Table)

def objs : Table → List Obj
  | .cert => w.cert.map CertRow.toObj
  | .crl => w.crl.map CrlRow.toObj
  | .roa => w.roa.map RoaRow.toObj
  | .manifest => w.manifest.map ManifestRow.toObj
  | .gbr => w.gbr.map GbrRow.toObj

def updateByLid (lid : Nat) (f : Obj → Obj) : World :=
  match tab with
  | .cert => { w with cert := w.cert.map fun r =>
      if r.localId = lid then { r with toObj := f r.toObj } else r }
  | .crl => { w with crl := w.crl.map fun r =>
      if r.localId = lid then { r with toObj := f r.toObj } else r }
  | .roa => { w with roa := w.roa.map fun r =>
      if r.localId = lid then { r with toObj := f r.toObj } else r }
  | .manifest => { w with manifest := w.manifest.map fun r =>
      if r.localId = lid then { r with toObj := f r.toObj } else r }
  | .gbr => { w with gbr := w.gbr.map fun r =>
      if r.localId = lid then { r with toObj := f r.toObj } else r }

def deleteWhere (p : Obj → Bool) : World :=
  match tab with
  | .cert => { w with cert := w.cert.filter fun r => !p r.toObj }
  | .crl => { w with crl := w.crl.filter fun r => !p r.toObj }
  | .roa => { w with roa := w.roa.filter fun r => !p r.toObj }
  | .manifest => { w with manifest := w.manifest.filter fun r => !p r.toObj }
  | .gbr => { w with gbr := w.gbr.filter fun r => !p r.toObj }

def deletebylid (lid : Nat) : World :=
  w.deleteWhere tab fun r => r.localId = lid

def dirname (dirId : Nat) : String :=
  match w.dir.find? fun d => d.dirId = dirId with
  | some d => d.dirname
  | none => ""

def path (r : Obj) : String :=
  w.dirname r.dirId ++ "/" ++ r.filename

def nextId : Nat :=
  ((w.objs tab).map Obj.localId).foldr max 0 + 1

def hasKey (filename : String) (dirId : Nat) : Bool :=
  (w.objs tab).any fun r => r.filename = filename && r.dirId = dirId

end World

def insertAt {α : Type} (n : Nat) (a : α) (l : List α) : List α :=
  l.take n ++ a :: l.drop n

end Rpstir.Sqhl
