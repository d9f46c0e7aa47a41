import Rpstir.Sqhl.Basic

/-!
This module contains the verification functions of `sqhl.c`, with the replacement of OpenSSL's internal
verifier that keeps its answers in the `sigval` columns.
-/

namespace Rpstir.Sqhl

def CertRow.hasKey (r : CertRow) (ski subj : String) : Bool :=
  r.ski = ski && r.subject = subj

-- `searchscm` leaves the last row it fetched in the search's buffer.
variable (env : Env) (fuel : Nat) (w : World)

/--
The text is a literal of SQL as it stands between double quotes.
-/
def sqlPlain (text : String) : Bool :=
  text.toList.all fun c => c ≠ '"' && c ≠ '\\'

-- the subject is put into the where clause as it is
def getCertSigval (subj ski : String) : SigVal :=
  if sqlPlain subj && sqlPlain ski then
    match (w.cert.filter fun r => r.hasKey ski subj).getLast? with
    | some r => r.sigval
    | none => .unknown
  else
    env.pastedSigval w.cert subj ski

def setCertSigval (subj ski : String) (valu : SigVal) : World :=
  { w with cert := w.cert.map fun r => if r.hasKey ski subj then { r with sigval := valu } else r }

def getRoaSigval (ski : Option String) : SigVal :=
  match (w.roa.filter fun r => some r.ski = ski).getLast? with
  | some r => r.sigval
  | none => .unknown

def setRoaSigval (ski : Option String) (valu : SigVal) : World :=
  { w with roa := w.roa.map fun r => if some r.ski = ski then { r with sigval := valu } else r }

def X509.cachedSigval (cert : X509) : SigVal :=
  match cert.subject, cert.ski with
  | some subj, some ski => getCertSigval env w subj ski
  | _, _ => .unknown

def X509.cacheSigval (cert : X509) (valu : SigVal) : World :=
  match cert.subject, cert.ski with
  | some subj, some ski => setCertSigval w subj ski valu
  | _, _ => w

def localVerify (cert : X509) (pkey : PKey) : Int × World :=
  match cert.cachedSigval env w with
  | .valid => (1, w)
  | .invalid => (0, w)
  | _ =>
    let mok := env.x509Verify cert pkey
    let w := { w with checked := w.checked ++ [(cert, pkey)] }
    -- the C code tests `if (mok)`, so an error result counts as well
    if mok ≠ 0 then (mok, cert.cacheSigval w .valid) else (mok, w)

def ourVerify.go (env : Env) (w : World) (xissuer : X509) : List X509 → Bool × World
  | [] => (true, w)
  | xsubject :: rest =>
    match xissuer.pubkey with
    | none => (false, w)
    | some pkey =>
      let (mok, w) := localVerify env w xsubject pkey
      if mok ≤ 0 then (false, w) else ourVerify.go env w xsubject rest

def ourVerify (chain : List X509) : Bool × World :=
  match chain.reverse with
  | [] => (false, w)
  | top :: rest =>
    if env.checkIssued top top then
      ourVerify.go env w top (top :: rest)
    else
      match rest with
      | [] => (false, w)
      | _ :: _ => ourVerify.go env w top rest

def x509VerifyCert (x : X509) (untrusted trusted : List X509) : Int × World :=
  match env.chainOf x untrusted trusted with
  | .error i => (i, w)
  | .ok chain =>
    let (mok, w) := ourVerify env w chain
    (env.afterVerify x untrusted trusted mok, w)

def checkit (x : X509) (uchain tchain : List X509) : Except Err Unit × World :=
  let (i, w) := x509VerifyCert env w x uchain tchain
  (if i ≠ 0 then .ok () else .error .notValid, w)

def readCertFromFile (path : String) : Option X509 :=
  match w.fs path with
  | some (.cert x) => some x
  | _ => none

structure CertAnsr where
  fullname : String
  issuer : String
  aki : String
  flags : Flags
  localId : Nat
  deriving DecidableEq, Repr

def addCert2List (r : CertRow) : CertAnsr where
  fullname := w.path r.toObj
  issuer := match w.certSrch with
    | .byAKI => r.aki.getD ""
    | _ => r.issuer
  aki := match w.certSrch with
    | .byAKI => r.ski
    | _ => r.aki.getD ""
  flags := r.flags
  localId := r.localId

def isParentRow (ski subject : Option String) (r : CertRow) : Bool :=
  some r.ski = ski && (subject.isNone || subject = some r.subject) && r.flags.valid

def World.parentAKI : Option String :=
  match w.certSrch with
  | .parent aki _ => some aki
  | _ => none

def World.parentIssuer : Option String :=
  match w.certSrch with
  | .parent _ issuer => some issuer
  | _ => none

def World.initParentSrch : World :=
  match w.certSrch with
  | .unset => { w with certSrch := .parent "" "" }
  | _ => w

-- every row that is fetched overwrites the buffers
def World.fetchParent (ansrs : List CertAnsr) : World :=
  match w.certSrch, ansrs.getLast? with
  | .parent _ _, some a => { w with certSrch := .parent a.aki a.issuer }
  | _, _ => w

def findParentCert (ski subject : Option String) : List CertAnsr × World :=
  let w := w.initParentSrch
  let ansrs := (w.cert.filter (isParentRow ski subject)).map (addCert2List w)
  (ansrs, w.fetchParent ansrs)

structure Parent where
  cert : X509
  flags : Flags
  path : String
  deriving DecidableEq, Repr

def CertAnsr.read (a : CertAnsr) : Option Parent :=
  (readCertFromFile w a.fullname).map fun x => ⟨x, a.flags, a.fullname⟩

def paraFlags : Flags := Flags.isparacert ||| Flags.hasparacert ||| Flags.istarget

def parentCert.choose : List CertAnsr → Option Parent × World
  | [a] =>
    if a.flags.has (Flags.istarget ||| Flags.hasparacert) then (none, w) else (a.read w, w)
  | [a₀, a₁] =>
    if (a₀.flags &&& paraFlags).has (a₁.flags &&& paraFlags) then
      (none, w)
    else
      let a :=
        if (w.useParacerts && a₀.flags.has Flags.isparacert)
            || (!w.useParacerts && !a₀.flags.has Flags.isparacert) then a₀ else a₁
      match w.certSrch with
      | .parent _ _ =>
        let w := { w with certSrch := .parent a.aki a.issuer }
        (a.read w, w)
      | _ => (none, w)
  | _ => (none, w)

def parentCert (ski subject : Option String) : Option Parent × World :=
  let (ansrs, w) := findParentCert w ski subject
  parentCert.choose w ansrs

structure Verdict where
  sta : Except Err Unit
  chainOK : Bool

/--
The walk of `verify_cert` from a certificate to a trust anchor: the certificates it pushed on the
untrusted stack, and the trust anchor if it got to one.
-/
def parentWalk (fuel : Nat) (w : World) (ski subject : Option String) (untrusted : List X509)
    : Option ((List X509 × Option X509) × World) :=
  match fuel with
  | 0 => none
  | fuel + 1 =>
    match parentCert w ski subject with
    | (none, w) => some ((untrusted, none), w)
    | (some p, w) =>
      if p.flags.has Flags.trusted then
        some ((untrusted, some p.cert), w)
      else
        parentWalk fuel w w.parentAKI w.parentIssuer (untrusted ++ [p.cert])

def verifyCert (x : X509) (isTrusted : Bool) (parentSKI parentSubject : Option String)
    : Option (Verdict × World) := do
  if isTrusted then
    let (sta, w) := checkit env w x [] [x]
    return (⟨sta, true⟩, w)
  else
    let ((untrusted, trusted), w) ← parentWalk fuel w parentSKI parentSubject []
    match trusted with
    | none => return (⟨.ok (), false⟩, w)
    | some anchor =>
      let (sta, w) := checkit env w x untrusted [anchor]
      return (⟨sta, true⟩, w)

def verifyCrl (x : X509Crl) (parentSKI parentSubject : Option String) : Verdict × World :=
  match parentCert w parentSKI parentSubject with
  | (none, w) => (⟨.ok (), false⟩, w)
  | (some p, w) =>
    (⟨if env.crlVerify x p.cert.pubkey ≤ 0 then .error .notValid else .ok (), true⟩, w)

def readfile (path : String) : Except Err File :=
  match w.fs path with
  | some f => .ok f
  | none => .error .coFile

def verifyRoa (r : Cms) (ski : Option String) : Verdict × World :=
  if getRoaSigval w ski = .valid then
    (⟨.ok (), true⟩, w)
  else
    match env.roaValidate r with
    | .error e => (⟨.error e, false⟩, w)
    | .ok () =>
      match parentCert w ski none with
      | (none, w) => (⟨.ok (), false⟩, w)
      | (some p, w) =>
        match readfile w p.path >>= fun _ => env.roaValidate2 r with
        | .error e => (⟨.error e, true⟩, w)
        | .ok () => (⟨.ok (), true⟩, setRoaSigval w ski .valid)

def serNumMaxSz : Nat := 20

def isRevokingCrl (issuer : String) (sn : List UInt8) (r : CrlRow) : Bool :=
  r.issuer = issuer && r.flags.valid && decide (sn ∈ r.snlist)

def certRevoked (sn : List UInt8) (issuer : String) : Except Err Unit :=
  if sn.length ≠ serNumMaxSz then
    .error .invalArg
  else if w.crl.any (isRevokingCrl issuer sn) then
    .error .revoked
  else
    .ok ()

def validFlags (prevFlags : Flags) (isValid : Bool) : Flags :=
  if isValid then
    (prevFlags ||| Flags.validated) &&& ~~~Flags.nochain
  else
    prevFlags ||| Flags.nochain

def updateValidFlags (tab : Table) (id : Nat) (prevFlags : Flags) (isValid : Bool) : World :=
  w.updateByLid tab id fun o => { o with flags := validFlags prevFlags isValid }

end Rpstir.Sqhl
