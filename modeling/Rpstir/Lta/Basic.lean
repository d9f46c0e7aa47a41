import Rpstir.Db.Flags
import Rpstir.Lta.Ranges

/-!
This module contains the search of `rpwork.c` below a certificate and the loop over the trust anchors.
The result `none` is a run without an end within the fuel or one that a null pointer ends.
-/

namespace Rpstir.Lta

inductive Err where
  | failed
  | coFile
  | signingErr
  deriving DecidableEq, Repr

structure Certificate where
  ski : Option String
  aki : Option String
  ipAddrBlock : Option (List (UInt8 × List (Lim × Lim)))
  autonomousSysNum : Option (List (Lim × Lim))
  deriving DecidableEq, Repr

structure CertAnsr where
  dirname : String
  filename : String
  aki : Option String
  flags : Flags
  localId : Nat
  deriving DecidableEq, Repr

def CertAnsr.fullname (a : CertAnsr) : String :=
  a.dirname ++ "/" ++ a.filename

/--
A certificate that has a paracertificate. The list `paracert` is what the extensions of the
paracertificate hold: the ranges of the certificate, or those that `remake_cert_ranges` has written last.
-/
structure DoneCert where
  ski : String
  perf : BitVec 32
  origID : Nat
  origcert : Certificate
  paracert : List IpRange
  deriving DecidableEq, Repr

def wasPerforated : BitVec 32 := 0x100#32
def wasPerforatedThisBlk : BitVec 32 := 0x400#32

structure Env where
  rows : List CertAnsr
  file : String → Option Certificate
  myrootcert : Certificate
  myrootfullname : String
  ruleranges : List IpRange
  resourceNounion : Bool
  -- whether the paracertificate of a certificate can be signed with the given resources
  signCert : Certificate → List IpRange → Bool

/--
The static variables. The list `certranges` is the one that the last call of `mk_paracert` has made,
with the changes since then.
-/
structure State where
  doneCerts : List DoneCert
  certranges : List IpRange
  deriving DecidableEq, Repr

variable (env : Env) (fuel : Nat) (s : State)

def Env.findCertByAKI (aki : String) : List CertAnsr :=
  env.rows.filter fun r => r.aki = some aki && r.flags.valid

def Env.findTrustAnchors : List CertAnsr :=
  env.rows.filter fun r => r.flags.test Flags.trusted true

def findIP (loctyp : UInt8) (blocks : List (UInt8 × List (Lim × Lim))) : List (Lim × Lim) :=
  match blocks.find? fun b => b.1 = loctyp with
  | some b => b.2
  | none => []

def mkCertranges (cert : Certificate) : List IpRange :=
  let mk (typ : Typ) (r : Lim × Lim) : IpRange := ⟨typ, r.1, r.2⟩
  let blocks := cert.ipAddrBlock.getD []
  (findIP 1 blocks).map (mk .ipv4) ++ (findIP 2 blocks).map (mk .ipv6)
    ++ (cert.autonomousSysNum.getD []).map (mk .asnum) ++ [⟨.terminator, 0, 0⟩]

def mkParacert (origcert : Certificate) (flags : Flags) : Option (List IpRange) :=
  if env.myrootcert.ski.isNone then
    none
  else if origcert.aki.isNone && !flags.has Flags.trusted then
    none
  else
    some (mkCertranges origcert)

def fillDoneCert (cSKI : String) (a : CertAnsr) (cert : Certificate) : Option (DoneCert × State) :=
  match mkParacert env cert a.flags with
  | none => none
  | some certranges =>
    some (⟨cSKI, 0, a.localId, cert, certranges⟩, { s with certranges := certranges })

def State.haveAlready (ski : String) : Option DoneCert :=
  s.doneCerts.find? fun d => d.ski = ski

def State.addDoneCert (d : DoneCert) : State :=
  { s with doneCerts := s.doneCerts ++ [d] }

def DoneCert.perforated (d : DoneCert) (certranges : List IpRange) : DoneCert :=
  { d with perf := d.perf ||| (wasPerforated ||| wasPerforatedThisBlk), paracert := certranges }

def perforateDone (ski : String) (certranges : List IpRange) : List DoneCert → List DoneCert
  | [] => []
  | d :: ds => if d.ski = ski then d.perforated certranges :: ds else d :: perforateDone ski certranges ds

def State.perforateDone (ski : String) : State :=
  { s with doneCerts := Lta.perforateDone ski s.certranges s.doneCerts }

-- each step of `perforate` goes on to the next range or the next rule, and a rule adds at most one range
def Env.steps (certranges : List IpRange) : Nat :=
  certranges.length + 2 * env.ruleranges.length + 1

def modifyParacert (run fuel : Nat) (cert : Certificate) (s : State) : Option (Except Err Nat × State) :=
  let modified :=
    if !env.resourceNounion || run ≠ 0 then
      modifyRanges run fuel env.ruleranges s.certranges
    else
      some (s.certranges, 0)
  match modified with
  | none => none
  | some (certranges, changes) =>
    let s := { s with certranges := certranges }
    some (if env.signCert cert certranges then .ok changes else .error .signingErr, s)

def searchDownward.fresh (search : Certificate → State → Option (Except Err Unit × State))
    (kid : CertAnsr) (cSKI : String) (child : Certificate) (s : State)
    : Option (Except Err Unit × State) :=
  match fillDoneCert env s cSKI kid child with
  | none => none
  | some (d, s) =>
    match modifyParacert env 1 (env.steps s.certranges) child s with
    | none => none
    | some (.error e, s) => some (.error e, s)
    | some (.ok 0, s) => some (.ok (), s)
    | some (.ok (_ + 1), s) => search child (s.addDoneCert (d.perforated s.certranges))

-- the ranges that are perforated are those of the certificate that `mk_paracert` was called for last
def searchDownward.again (search : Certificate → State → Option (Except Err Unit × State)) (d : DoneCert)
    (s : State) : Option (Except Err Unit × State) :=
  match modifyParacert env 1 (env.steps s.certranges) d.origcert s with
  | none => none
  | some (.error e, s) => some (.error e, s.perforateDone d.ski)
  | some (.ok 0, s) => some (.ok (), s.perforateDone d.ski)
  | some (.ok (_ + 1), s) => search d.origcert (s.perforateDone d.ski)

def searchDownward.kid (search : Certificate → State → Option (Except Err Unit × State)) (pSKI : String)
    (kid : CertAnsr) (s : State) : Option (Except Err Unit × State) :=
  match env.file kid.fullname with
  | none => some (.error .coFile, s)
  | some child =>
    match child.aki, child.ski with
    | some cAKI, some cSKI =>
      if cAKI ≠ pSKI || cSKI = cAKI then
        some (.ok (), s)
      else
        match s.haveAlready cSKI with
        | none => searchDownward.fresh env search kid cSKI child s
        | some d =>
          if d.perf &&& wasPerforatedThisBlk ≠ 0#32 then
            some (.ok (), s)
          else
            searchDownward.again env search d s
    | _, _ => none

def searchDownward.kids (step : CertAnsr → State → Option (Except Err Unit × State))
    : List CertAnsr → State → Option (Except Err Unit × State)
  | [], s => some (.ok (), s)
  | kid :: kids, s =>
    match step kid s with
    | none => none
    | some (.error e, s) => some (.error e, s)
    | some (.ok (), s) => searchDownward.kids step kids s

def searchDownward (env : Env) : Nat → Certificate → State → Option (Except Err Unit × State)
  | 0, _, _ => none
  | fuel + 1, topcert, s =>
    match topcert.ski with
    | none => none
    | some pSKI =>
      searchDownward.kids (searchDownward.kid env (searchDownward env fuel) pSKI)
        (env.findCertByAKI pSKI) s

/--
A run of `process_trust_anchors`: its result, and for every trust anchor below which it has searched
its id with the result of the search.
-/
structure Processed where
  result : Except Err Unit
  searched : List (Nat × Except Err Unit)
  state : State

def State.isDone (localId : Nat) : Bool :=
  s.doneCerts.any fun d => d.origID = localId

def processTrustAnchors.go (env : Env) (fuel : Nat) : List CertAnsr → State → Option Processed
  | [], s => some ⟨.ok (), [], s⟩
  | a :: anchors, s =>
    if s.isDone a.localId then
      -- the `break` under the comment "then break if we found it"
      some ⟨.ok (), [], s⟩
    else if env.myrootfullname = a.fullname then
      processTrustAnchors.go env fuel anchors s
    else
      match env.file a.fullname with
      | none => some ⟨.error .coFile, [], s⟩
      | some cert =>
        if cert.ipAddrBlock.isNone && cert.autonomousSysNum.isNone then
          processTrustAnchors.go env fuel anchors s
        else
          match cert.ski with
          | none => none
          | some cSKI =>
            match fillDoneCert env s cSKI a cert with
            | none => none
            | some (d, s) =>
              -- neither the result of `sign_cert` nor that of `search_downward` is tested
              match searchDownward env fuel cert (s.addDoneCert d) with
              | none => none
              | some (ansr, s) =>
                (processTrustAnchors.go env fuel anchors s).map fun p =>
                  { p with searched := (a.localId, ansr) :: p.searched }

def processTrustAnchors : Option Processed :=
  match env.findTrustAnchors with
  -- the search has failed with `ERR_SCM_NODATA`
  | [] => some ⟨.error .failed, [], s⟩
  | a :: anchors => processTrustAnchors.go env fuel (a :: anchors) s

end Rpstir.Lta
