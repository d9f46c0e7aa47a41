import Rpstir.Sqhl.Propagate

/-!
This module contains the operations of `sqhl.c` on the local repository: the functions that add an
object of each type, and `delete_object`.
-/

namespace Rpstir.Sqhl

variable (env : Env) (fuel : Nat) (w : World)
  (outfile outdir outfull : String) (id : Nat) (utrust : Bool)

/--
The state of a new object: whether it has a chain, and whether a validated manifest lists it. The
search keeps the last of the manifests whose file list matches the name as a regular expression.
-/
def addStateToFlags (flags : Flags) (isValid : Bool) (filename fullpath : String) : Except Err Flags :=
  let flags := flags ||| (if isValid then Flags.validated else Flags.nochain)
  match (w.manifest.filter fun r => env.regexp filename r.files
      && r.flags.test Flags.validated true).getLast? with
  | none => .ok flags
  | some m =>
    -- a manifest that cannot be read has no entries
    let fileList := match w.fs (w.path m.toObj) with
      | some (.cms x) => x.fileList
      | _ => []
    match fileList.find? fun fah => fah.file = filename, w.fs fullpath with
    | some fah, some f => (checkFileAndHash env fah f []).map fun _ => flags ||| Flags.onman
    | _, _ => .ok flags

structure CertFields where
  filename : String
  subject : String
  issuer : String
  sn : List UInt8
  valfrom : Nat
  valto : Nat
  sig : String
  ski : Option String
  aki : Option String
  flags : Flags
  dirid : Nat
  deriving DecidableEq, Repr

def cert2fields (filename : String) (x : X509) : Except Err CertFields :=
  match x.subject with
  | none => .error .x509
  | some subject => .ok {
      filename := filename
      subject := subject
      issuer := x.issuer
      sn := x.sn
      valfrom := x.notBefore
      valto := x.notAfter
      sig := x.sig
      ski := x.ski
      aki := x.aki
      flags := if x.ca then Flags.ca else 0
      dirid := 0 }

def dupsigscm (sigs : List String) (msig : String) : Except Err Unit :=
  if msig = "" then
    .error .invalArg
  else if msig ∈ sigs then
    .error .dupSig
  else
    .ok ()

def CertFields.toRow (cf : CertFields) (ski : String) (certId : Nat) : CertRow where
  filename := cf.filename
  dirId := cf.dirid
  localId := certId
  flags := cf.flags
  hash := .empty
  subject := cf.subject
  issuer := cf.issuer
  sn := cf.sn
  ski := ski
  aki := cf.aki
  sig := cf.sig
  valfrom := cf.valfrom
  valto := cf.valto
  sigval := .unknown

-- what MySQL checks on an insert: `ski` is NOT NULL, and `(filename, dir_id)` is the primary key
def addCertInternal (cf : CertFields) : Except Err (CertRow × World) := do
  dupsigscm (w.cert.map CertRow.sig) cf.sig
  match cf.ski with
  | none => .error .sql
  | some ski =>
    if w.hasKey .cert cf.filename cf.dirid then
      .error .sql
    else
      let row := cf.toRow ski (w.nextId .cert)
      .ok (row, { w with
        cert := insertAt (env.place .cert (w.objs .cert) row.toObj) row w.cert })

def addCert2.checkTrusted (cf : CertFields) (cert : X509) (ski : String) : Except Err Unit :=
  if (cert.aki.isSome && cert.aki ≠ some ski) || cf.subject ≠ cf.issuer then
    .error .notSS
  else if !cert.largeKey then
    .error .smallKey
  else
    .ok ()

def addCert2.checkExpired (x : X509) : Except Err Unit :=
  if !w.allowex && x.notAfter < w.now then .error .expired else .ok ()

def addCert2.certType (cf : CertFields) (utrust : Bool) : CertType :=
  if utrust then .ta else if cf.flags.has Flags.ca then .ca else .ee

def addCert2.check (cf : CertFields) (x : X509) (utrust : Bool) (fullpath : String) : Except Err Flags :=
  match w.fs fullpath with
  | some (.cert cert) =>
    match cert.ski with
    | none => .error .noSki
    | some ski => do
      (if utrust then addCert2.checkTrusted cf cert ski else .ok ())
      env.rescertProfileChk x (addCert2.certType cf utrust)
      addCert2.checkExpired w x
      let flags := if utrust then cf.flags ||| Flags.trusted else cf.flags
      .ok (if x.notBefore > w.now then flags ||| Flags.notyet else flags)
  | _ => .error .badCert

def addCert2.insert (cf : CertFields) (v : Verdict) (fullpath : String) : Except Err (CertRow × World) := do
  v.sta
  certRevoked w cf.sn cf.issuer
  let flags ← addStateToFlags env w cf.flags v.chainOK cf.filename fullpath
  addCertInternal env w { cf with flags := flags }

def addCert2 (cf : CertFields) (x : X509) (id : Nat) (utrust : Bool) (fullpath : String)
    : Option (Except Err CertRow × World) :=
  match addCert2.check env w cf x utrust fullpath with
  | .error e => some (.error e, w)
  | .ok flags => do
    let (v, w) ← verifyCert env fuel w x utrust cf.aki (some cf.issuer)
    match addCert2.insert env w { cf with flags := flags, dirid := id } v fullpath with
    | .error e => return (.error e, w)
    | .ok (row, w) =>
      if v.chainOK then
        let w ← verifyChildren env fuel w row.ski row.subject row.aki (some row.issuer) row.localId
        return (.ok row, w)
      else
        return (.ok row, w)

def addCert (outfile outfull : String) (id : Nat) (utrust constraining : Bool)
    : Option (Except Err CertRow × World) :=
  match w.fs outfull with
  | none => some (.error .x509, w)
  | some (.cert x) =>
    match cert2fields outfile x with
    | .error e => some (.error e, w)
    | .ok cf => addCert2 env fuel { w with useParacerts := constraining } cf x id utrust outfull
  | some _ => some (.error .badCert, w)

def addCrlInternal (row : CrlRow) : Except Err World := do
  dupsigscm (w.crl.map CrlRow.sig) row.sig
  if w.hasKey .crl row.filename row.dirId then
    throw .sql
  return { w with crl := insertAt (env.place .crl (w.objs .crl) row.toObj) row w.crl }

def crl2row (x : X509Crl) (filename : String) (dirid : Nat) (flags : Flags) : CrlRow where
  filename := filename
  dirId := dirid
  localId := w.nextId .crl
  flags := flags
  hash := .empty
  issuer := x.issuer
  aki := x.aki
  sig := x.sig
  snlist := x.snlist

def crlFlags (x : X509Crl) (now : Nat) : Flags :=
  if x.nextUpd < now then Flags.stalecrl else 0

def addCrl.insert (outfile outfull : String) (id : Nat) (x : X509Crl) (v : Verdict) : Except Err World := do
  v.sta
  let flags ← addStateToFlags env w (crlFlags x w.now) v.chainOK outfile outfull
  addCrlInternal env w (crl2row w x outfile id flags)

def addCrl (outfile outfull : String) (id : Nat) : Option (Except Err Unit × World) :=
  match w.fs outfull with
  | some (.crl x) =>
    match env.crlProfileChk x >>= fun _ => env.crlFieldsChk x with
    | .error e => some (.error e, w)
    | .ok () =>
      let (v, w) := verifyCrl env w x x.aki (some x.issuer)
      match addCrl.insert env w outfile outfull id x v with
      | .error e => some (.error e, w)
      | .ok w =>
        if v.chainOK then do
          let w ← revokeSerials fuel w x
          return (.ok (), w)
        else
          some (.ok (), w)
  | _ => some (.error .invalAsn, w)

def findorcreatedir (dirname : String) : Nat × World :=
  match (w.dir.filter fun d => d.dirname = dirname).getLast? with
  | some d => (d.dirId, w)
  | none =>
    let id := (w.dir.map DirRow.dirId).foldr max 0 + 1
    (id, { w with dir := w.dir ++ [⟨dirname, id⟩] })

def eeRoot : String :=
  w.tdir ++ "/EEcertificates"

def dropPrefix (s : String) (n : Nat) : String :=
  String.ofList (s.toList.drop n)

def eeDir (outdir : String) : String :=
  eeRoot w ++ dropPrefix outdir w.tdir.length

structure EECert where
  ski : String
  validated : Bool
  deriving DecidableEq, Repr

def extractAndAddCert.add (x : X509) (ski : String) (outdir : String) (utrust isRoa : Bool)
    (outfile : String) : Option (Except Err EECert × World) :=
  let certname := outfile ++ ".cer"
  let (dirId, w) := findorcreatedir w (eeDir w outdir)
  let pathname := eeDir w outdir ++ "/" ++ certname
  if !env.canWrite pathname then
    some (.error .writeEE, w)
  else
    let w := { w with fs := fun p => if p = pathname then some (.cert x) else w.fs p }
    match cert2fields certname x with
    | .error e => some (.error e, w)
    | .ok cf => do
      let (sta, w) ← addCert2 env fuel w cf x dirId utrust pathname
      match sta with
      | .ok row => return (.ok ⟨ski, row.flags.has Flags.validated⟩, w)
      | .error e =>
        if isRoa && e = .dupSig then
          return (.ok ⟨ski, false⟩, w)
        else
          return (.error e, w)

def extractAndAddCert (cms : Cms) (outdir : String) (utrust isRoa : Bool) (outfile : String)
    : Option (Except Err EECert × World) :=
  match cms.cert with
  | none => some (.error .badNumCerts, w)
  | some x =>
    if cms.certIndefLth then
      some (.error .asn1Lth, w)
    else
      match x.ski with
      | none => some (.error .noSki, w)
      | some ski =>
        if cms.certExtKeyUsage then
          some (.error .badExt, w)
        else if dropPrefix outdir w.tdir.length ≠ "" ∧ ¬w.tdir.toList.isPrefixOf outdir.toList then
          some (.error .writeEE, w)
        else
          extractAndAddCert.add env fuel w x ski outdir utrust isRoa outfile

inductive ObjType where
  | cer
  | crl
  | roa
  | man
  | gbr
  | unknown
  deriving DecidableEq, Repr

def filetypeRules : List (String × ObjType) :=
  [(".cer", .cer), (".crl", .crl), (".roa", .roa), (".man", .man), (".mft", .man), (".mnf", .man),
    (".gbr", .gbr), (".cer.pem", .cer), (".crl.pem", .crl), (".roa.pem", .roa), (".man.pem", .man),
    (".mft.pem", .man), (".mnf.pem", .man)]

def endsWith (s sfx : String) : Bool :=
  sfx.toList.isSuffixOf s.toList

def inferFiletype (fname : String) : ObjType :=
  match filetypeRules.find? fun rule => endsWith fname rule.1 with
  | some rule => rule.2
  | none => .unknown

def dirIdOf (outdir : String) : Except Err Nat :=
  match (w.dir.filter fun d => d.dirname = outdir).getLast? with
  | some d => .ok d.dirId
  | none => .error .noData

def isObj (filename : String) (dirId : Nat) (o : Obj) : Bool :=
  o.filename = filename && o.dirId = dirId

def deleteObject.cert (outfile : String) (id : Nat) : Option (Except Err Unit × World) :=
  match w.cert.filter fun r => isObj outfile id r.toObj with
  | [] => some (.error .noData, w)
  | rows => do
    let w ← rows.foldlM (revokeCertAndChildren fuel) w
    return (.ok (), w.deleteWhere .cert (isObj outfile id))

-- a signed object goes together with its EE certificate
def deleteObject.signed (tab : Table) (outfile outdir : String) (id : Nat)
    : Option (Except Err Unit × World) :=
  let w := w.deleteWhere tab (isObj outfile id)
  let (_, w) := findorcreatedir w (eeRoot w)
  match dirIdOf w (eeDir w outdir) with
  | .error e => some (.error e, w)
  | .ok eeId => deleteObject.cert fuel w (outfile ++ ".cer") eeId

def deleteObject (outfile outdir : String) : Option (Except Err Unit × World) :=
  match dirIdOf w outdir with
  | .error e => some (.error e, w)
  | .ok id =>
    match inferFiletype outfile with
    | .cer | .unknown => deleteObject.cert fuel w outfile id
    | .crl => some (.ok (), w.deleteWhere .crl (isObj outfile id))
    | .roa => deleteObject.signed fuel w .roa outfile outdir id
    | .man => deleteObject.signed fuel w .manifest outfile outdir id
    | .gbr => deleteObject.signed fuel w .gbr outfile outdir id

def addRoaInternal (row : RoaRow) : Except Err World := do
  dupsigscm (w.roa.map RoaRow.sig) row.sig
  if w.hasKey .roa row.filename row.dirId then
    throw .sql
  return { w with roa := insertAt (env.place .roa (w.objs .roa) row.toObj) row w.roa }

def addRoa.store (r : Cms) (ski sig : String) (prefixes : List RoaPrefix) (isValid : Bool)
    (outfile outfull : String) (id : Nat) : Except Err World := do
  let flags ← addStateToFlags env w 0 isValid outfile outfull
  addRoaInternal env w {
    filename := outfile
    dirId := id
    localId := w.nextId .roa
    flags := flags
    hash := .empty
    ski := ski
    sig := sig
    asn := r.asID
    prefixes := prefixes
    sigval := .unknown }

def addRoa.insert (r : Cms) (ski : String) (outfile outfull : String) (id : Nat)
    : Except Err Unit × World :=
  match r.signature with
  | none => (.error .noSig, w)
  | some sig =>
    let (v, w) := verifyRoa env w r (some ski)
    match v.sta, r.prefixes with
    | .error e, _ => (.error e, w)
    -- bad prefixes leave the loop with the status 0 of the verification
    | .ok (), none => (.ok (), w)
    | .ok (), some prefixes =>
      match addRoa.store env w r ski sig prefixes v.chainOK outfile outfull id with
      | .error e => (.error e, w)
      | .ok w => (.ok (), w)

-- the EE certificate is looked for in the directory of the object, which is not where it is
def deleteAddedCert (outfile outdir : String) (sta : Except Err Unit)
    : Option (Except Err Unit × World) :=
  match sta with
  | .ok () => some (.ok (), w)
  | .error e => do
    let (_, w) ← deleteObject fuel w (outfile ++ ".cer") outdir
    return (.error e, w)

def addRoa : Option (Except Err Unit × World) :=
  match w.fs outfull with
  | some (.cms r) =>
    match env.roaFromFileChk r with
    | .error e => some (.error e, w)
    | .ok () => do
      let (ee, w) ← extractAndAddCert env fuel w r outdir utrust true outfile
      match ee with
      | .error e => return (.error e, w)
      | .ok ee =>
        let (sta, w) := addRoa.insert env w r ee.ski outfile outfull id
        deleteAddedCert fuel w outfile outdir sta
  | _ => some (.error .invalAsn, w)

def joinFiles (fileList : List FileAndHash) : String :=
  String.intercalate " " (fileList.map FileAndHash.file)

def manifestRow (cms : Cms) (ee : EECert) (stale : Bool) (outfile : String) (id : Nat)
    : ManifestRow where
  filename := outfile
  dirId := id
  localId := w.nextId .manifest
  flags := (if ee.validated then Flags.validated else Flags.nochain)
    ||| (if stale then Flags.staleman else 0)
  hash := .empty
  ski := ee.ski
  files := joinFiles cms.fileList

def addManifest.insert (cms : Cms) (ee : EECert) (stale : Bool) (outfile : String) (id : Nat)
    : Option (Except Err Unit × World) :=
  if w.hasKey .manifest outfile id then
    some (.error .sql, w)
  else
    let row := manifestRow w cms ee stale outfile id
    let w := { w with
      manifest := insertAt (env.place .manifest (w.objs .manifest) row.toObj) row w.manifest }
    -- the manifest is valid if the embedded certificate is
    if ee.validated then updateManifestObjs env fuel w cms.fileList else some (.ok (), w)

def addManifest : Option (Except Err Unit × World) :=
  match w.fs outfull with
  | some (.cms cms) =>
    match env.manifestValidate cms w.now with
    | .error e => some (.error e, w)
    | .ok stale => do
      let (ee, w) ← extractAndAddCert env fuel w cms outdir utrust false outfile
      match ee with
      | .error e => return (.error e, w)
      | .ok ee =>
        let (sta, w) ← addManifest.insert env fuel w cms ee stale outfile id
        deleteAddedCert fuel w outfile outdir sta
  | _ => some (.error .invalAsn, w)

def addGhostbusters.insert (ee : EECert) (outfile : String) (id : Nat) : Except Err Unit × World :=
  if w.hasKey .gbr outfile id then
    (.error .sql, w)
  else
    let row : GbrRow := {
      filename := outfile
      dirId := id
      localId := w.nextId .gbr
      flags := if ee.validated then Flags.validated else Flags.nochain
      hash := .empty
      ski := ee.ski }
    (.ok (), { w with gbr := insertAt (env.place .gbr (w.objs .gbr) row.toObj) row w.gbr })

def addGhostbusters : Option (Except Err Unit × World) :=
  match w.fs outfull with
  | some (.cms cms) =>
    match env.ghostbustersValidate cms with
    | .error e => some (.error e, w)
    | .ok () => do
      let (ee, w) ← extractAndAddCert env fuel w cms outdir utrust false outfile
      match ee with
      | .error e => return (.error e, w)
      | .ok ee =>
        let (sta, w) := addGhostbusters.insert env w ee outfile id
        deleteAddedCert fuel w outfile outdir sta
  | _ => some (.error .invalAsn, w)

end Rpstir.Sqhl
