import Mathlib.Data.List.Infix
import Rpstir.Sqhl.Verify

/-!
This module contains what a change of one certificate does to the objects below it. The validation calls
the invalidation and not the other way around, so `verifyOrNotChildren` takes the function that visits
one certificate as an argument.
-/

namespace Rpstir.Sqhl

structure PropData where
  ski : String
  subject : String
  flags : Flags
  id : Nat
  filename : String
  dirname : String
  aki : Option String
  issuer : Option String
  deriving DecidableEq, Repr

def isValidParent (now : Nat) (IS AK : Option String) (r : CertRow) : Bool :=
  isParentRow AK IS r && decide (r.valfrom < now) && decide (now < r.valto)

variable (env : Env) (fuel : Nat) (w : World)

def countvalidparents (IS AK : Option String) : Nat :=
  w.cert.countP (isValidParent w.now IS AK)

def invalidateObj (tab : Table) (IS AK : Option String) (w : World) (o : Obj) : World :=
  if countvalidparents w IS AK > 0 then w else updateValidFlags w tab o.localId o.flags false

def invalidateRoa (r : RoaRow) : World :=
  invalidateObj .roa none (some r.ski) w r.toObj

def invalidateGbr (r : GbrRow) : World :=
  invalidateObj .gbr none (some r.ski) w r.toObj

def invalidateMft (r : ManifestRow) : World :=
  invalidateObj .manifest none (some r.ski) w r.toObj

def invalidateCrl (r : CrlRow) : World :=
  invalidateObj .crl (some r.issuer) r.aki w r.toObj

def invalidateChildRoas (ski : String) : World :=
  (w.roa.filter fun r => r.ski = ski && r.flags.test Flags.nochain false).foldl invalidateRoa w

def invalidateChildGbrs (ski : String) : World :=
  (w.gbr.filter fun r => r.ski = ski && r.flags.test Flags.nochain false).foldl invalidateGbr w

def invalidateChildMfts (ski : String) : World :=
  (w.manifest.filter fun r => r.ski = ski && r.flags.test Flags.nochain false).foldl invalidateMft w

def invalidateChildCrls (ski subject : String) : World :=
  (w.crl.filter fun r => r.aki = some ski && r.issuer = subject
    && r.flags.test Flags.nochain false).foldl invalidateCrl w

-- the four searches of `invalidateChildCert` after the update of the certificate
def invalidateChildObjs (data : PropData) : World :=
  let w := invalidateChildRoas w data.ski
  let w := invalidateChildGbrs w data.ski
  let w := invalidateChildMfts w data.ski
  invalidateChildCrls w data.ski data.subject

def invalidateChildCert (data : PropData) (doUpdate : Bool) : Bool × World :=
  if doUpdate then
    if countvalidparents w data.issuer data.aki > 0 then
      (false, w)
    else
      (true, invalidateChildObjs (updateValidFlags w .cert data.id data.flags false) data)
  else
    (true, invalidateChildObjs w data)

def registerChild (r : CertRow) : PropData where
  ski := r.ski
  subject := r.subject
  flags := r.flags
  id := r.localId
  filename := r.filename
  dirname := w.dirname r.dirId
  aki := some (r.aki.getD "")
  issuer := some r.issuer

def isChildRow (ski subject : String) (doVerify : Bool) (r : CertRow) : Bool :=
  r.aki = some ski && r.ski ≠ ski && r.issuer = subject && r.flags.test Flags.nochain doVerify

def childrenSrch (data : PropData) (doVerify : Bool) : List PropData :=
  (w.cert.filter (isChildRow data.ski data.subject doVerify)).map (registerChild w)

/--
The loop of `verifyOrNotChildren`. The head of the list is the top of the stack, and `visit` says
whether the children of the certificate it visited are to be pushed.
-/
def propagate (visit : World → PropData → Bool → Option (Bool × World)) (doVerify : Bool)
    (fuel : Nat) (w : World) (isRoot : Bool) (stack : List PropData) : Option World :=
  match stack, fuel with
  | [], _ => some w
  | _ :: _, 0 => none
  | data :: stack, fuel + 1 => do
    let (doIt, w) ← visit w data (!isRoot)
    let stack := if doIt then (childrenSrch w data doVerify).reverse ++ stack else stack
    propagate visit doVerify fuel w false stack

def verifyOrNotChildren (visit : World → PropData → Bool → Option (Bool × World)) (doVerify : Bool)
    (fuel : Nat) (w : World) (ski subject : String) (aki issuer : Option String) (certId : Nat)
    : Option World :=
  propagate visit doVerify fuel w true [⟨ski, subject, 0, certId, "", "", aki, issuer⟩]

def invalidateChildren (ski subject : String) (lid : Nat) : Option World :=
  verifyOrNotChildren (fun w data doUpdate => some (invalidateChildCert w data doUpdate)) false fuel
    w ski subject none none lid

def World.initAKISrch : World :=
  match w.certSrch with
  | .unset => { w with certSrch := .byAKI }
  | _ => w

def findCertByAKI (ski : String) : List CertAnsr × World :=
  let w := w.initAKISrch
  let ansrs := (w.cert.filter (isParentRow (some ski) none)).map (addCert2List w)
  (ansrs, w.fetchParent ansrs)

def setCertFlag (id : Nat) (flags : Flags) : World :=
  w.updateByLid .cert id fun o => { o with flags := flags }

def clearParaFlags (a : CertAnsr) : World :=
  if a.flags.has (Flags.hasparacert ||| Flags.istarget) then
    setCertFlag w a.localId (a.flags &&& ~~~(Flags.hasparacert ||| Flags.istarget))
  else
    w

def revokeCertAndChildren (r : CertRow) : Option World :=
  let w := w.deletebylid .cert r.localId
  let w :=
    if r.flags.has Flags.isparacert then
      let (ansrs, w) := findCertByAKI w r.ski
      ansrs.foldl clearParaFlags w
    else
      w
  invalidateChildren fuel w r.ski r.subject r.localId

def isRevokedRow (issuer aki : String) (sn : List UInt8) (r : CertRow) : Bool :=
  r.issuer = issuer && r.sn = sn && r.aki = some aki

def revokeCertBySerial (issuer : String) (aki : Option String) (sn : List UInt8) : Option World :=
  match aki with
  | none => some w
  | some aki =>
    if issuer = "" ∨ aki = "" ∨ sn = List.replicate serNumMaxSz 0 then
      some w
    else
      (w.cert.filter (isRevokedRow issuer aki sn)).foldlM (revokeCertAndChildren fuel) w

def revokeSerials (x : X509Crl) : Option World :=
  x.snlist.foldlM (fun w sn => revokeCertBySerial fuel w x.issuer x.aki sn) w

def strstr (haystack needle : String) : Bool :=
  haystack.toList.tails.any fun t => needle.toList.isPrefixOf t

def nameMax : Nat := 255

def manifestTable (file : String) : Option Table :=
  if strstr file ".cer" then some .cert
  else if strstr file ".crl" then some .crl
  else if strstr file ".roa" then some .roa
  else if strstr file ".gbr" then some .gbr
  else none

def checkFileAndHash (fah : FileAndHash) (f : File) (inhash : List UInt8) : Except Err (List UInt8) :=
  let hash := if 0 < inhash.length ∧ inhash.length ≤ env.size f + 2 then inhash else env.sha256 f
  if hash = fah.hash then .ok hash else .error .badMftHash

def manifestObj (tab : Table) (file : String) : Option Obj :=
  ((w.objs tab).filter fun o => o.filename = file && o.flags.test Flags.onman false).getLast?

def checkObjHash (fah : FileAndHash) (f : File) (o : Obj) : Except Err (List UInt8) :=
  match o.hash with
  | .malformed => .error .badMftDbHash
  | .hex bytes => checkFileAndHash env fah f bytes
  | .empty => checkFileAndHash env fah f []

def setOnman (tab : Table) (o : Obj) (hash : List UInt8) : World :=
  w.updateByLid tab o.localId fun r =>
    { r with
      flags := r.flags + Flags.onman
      hash := if o.hash = .empty then .hex hash else r.hash }

def deleteBadHash (tab : Table) (lid : Nat) : Option World :=
  match tab with
  | .cert => (w.cert.filter fun r => r.localId = lid).foldlM (revokeCertAndChildren fuel) w
  | tab => some (w.deletebylid tab lid)

def updateManifestObj (fah : FileAndHash) : Option World :=
  match manifestTable fah.file with
  | none => some w
  | some tab =>
    match manifestObj w tab fah.file with
    | none => some w
    | some o =>
      if o.localId = 0 then
        some w
      else
        match w.fs (w.path o) with
        | none => some w
        | some f =>
          match checkObjHash env fah f o with
          | .ok hash => some (setOnman w tab o hash)
          | .error _ => deleteBadHash fuel w tab o.localId

def updateManifestObjs (env : Env) (fuel : Nat) (w : World)
    : List FileAndHash → Option (Except Err Unit × World)
  | [] => some (.ok (), w)
  | fah :: rest =>
    if fah.file.length + 1 > nameMax + 1 then
      some (.error .badMftFilename, w)
    else do
      let w ← updateManifestObj env fuel w fah
      updateManifestObjs env fuel w rest

/--
The part of `verifyChildCRL` that is about the CRL itself; the result is the CRL whose revocations
are to be done. The verdict's `chainOK` is not looked at.
-/
def verifyChildCRL.check (r : CrlRow) : Option X509Crl × World :=
  match w.fs (w.path r.toObj) with
  | some (.crl x) =>
    match env.crlFieldsChk x with
    | .error _ => (none, w)
    | .ok () =>
      let (v, w) := verifyCrl env w x x.aki (some x.issuer)
      match v.sta with
      | .error _ => (none, w.deletebylid .crl r.localId)
      | .ok () => (some x, updateValidFlags w .crl r.localId r.flags true)
  | _ => (none, w)

def verifyChildCRL (r : CrlRow) : Option World :=
  match verifyChildCRL.check env w r with
  | (none, w) => some w
  | (some x, w) => revokeSerials fuel w x

def verifyChildROA (r : RoaRow) : World :=
  match w.fs (w.path r.toObj) with
  | some (.cms x) =>
    match env.roaFromFileChk x with
    | .error _ => w
    | .ok () =>
      let (v, w) := verifyRoa env w x x.ski
      match v.sta with
      | .error _ => w.deletebylid .roa r.localId
      | .ok () => updateValidFlags w .roa r.localId r.flags true
  | _ => w

def verifyChildGhostbusters (r : GbrRow) : World :=
  updateValidFlags w .gbr r.localId r.flags true

def verifyChildManifest (r : ManifestRow) : Option World :=
  let w := updateValidFlags w .manifest r.localId r.flags true
  match w.fs (w.path r.toObj) with
  | some (.cms x) => (updateManifestObjs env fuel w x.fileList).map Prod.snd
  | _ => some w

def verifyChildCert.check (data : PropData) : Option (Bool × World) :=
  match readCertFromFile w (data.dirname ++ "/" ++ data.filename) with
  | none => some (false, w)
  | some x => do
    let (v, w) ← verifyCert env fuel w x false data.aki data.issuer
    match v.sta with
    | .error _ => return (false, w.deletebylid .cert data.id)
    | .ok () =>
      return (true, updateValidFlags w .cert data.id data.flags true)

def verifyChildCrls (data : PropData) : Option World :=
  (w.crl.filter fun r => r.aki = some data.ski && r.issuer = data.subject
    && r.flags.test Flags.nochain true).foldlM (verifyChildCRL env fuel) w

def verifyChildGbrs (data : PropData) : World :=
  (w.gbr.filter fun r => r.ski = data.ski).foldl verifyChildGhostbusters w

def verifyChildRoas (data : PropData) : World :=
  (w.roa.filter fun r => r.ski = data.ski
    && r.flags.test Flags.nochain true).foldl (verifyChildROA env) w

def verifyChildMfts (data : PropData) : Option World :=
  (w.manifest.filter fun r => r.ski = data.ski).foldlM (verifyChildManifest env fuel) w

-- the four searches of `verifyChildCert` after the update of the certificate
def verifyChildObjs (data : PropData) : Option World := do
  let w ← verifyChildCrls env fuel w data
  let w := verifyChildGbrs w data
  let w := verifyChildRoas env w data
  verifyChildMfts env fuel w data

def verifyChildCert (data : PropData) (doVerify : Bool) : Option (Bool × World) := do
  let (goOn, w) ← (if doVerify then verifyChildCert.check env fuel w data else some (true, w))
  if goOn then
    let w ← verifyChildObjs env fuel w data
    return (true, w)
  else
    return (false, w)

def verifyChildren (ski subject : String) (aki issuer : Option String) (certId : Nat) : Option World :=
  verifyOrNotChildren (verifyChildCert env fuel) true fuel w ski subject aki issuer certId

end Rpstir.Sqhl
