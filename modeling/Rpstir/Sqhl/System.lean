import Rpstir.Data.Lts
import Rpstir.Sqhl.Add

/-!
This module contains the system that the operations of `sqhl.c` make up, with anything happening to the
files and the clock in between.
-/

namespace Rpstir.Sqhl

inductive Op where
  | findorcreatedir (dirname : String)
  | addCert (outfile outfull : String) (id : Nat) (utrust constraining : Bool)
  | addCrl (outfile outfull : String) (id : Nat)
  | addRoa (outfile outdir outfull : String) (id : Nat) (utrust : Bool)
  | addManifest (outfile outdir outfull : String) (id : Nat) (utrust : Bool)
  | addGhostbusters (outfile outdir outfull : String) (id : Nat) (utrust : Bool)
  | deleteObject (outfile outdir : String)
  -- what changes between two operations
  | outside (fs : String → Option File) (now : Nat) (allowex : Bool)

def Op.run (env : Env) (fuel : Nat) (w : World) : Op → Option World
  | .findorcreatedir dirname => some (Sqhl.findorcreatedir w dirname).2
  | .addCert outfile outfull id utrust constraining =>
    (Sqhl.addCert env fuel w outfile outfull id utrust constraining).map Prod.snd
  | .addCrl outfile outfull id => (Sqhl.addCrl env fuel w outfile outfull id).map Prod.snd
  | .addRoa outfile outdir outfull id utrust =>
    (Sqhl.addRoa env fuel w outfile outdir outfull id utrust).map Prod.snd
  | .addManifest outfile outdir outfull id utrust =>
    (Sqhl.addManifest env fuel w outfile outdir outfull id utrust).map Prod.snd
  | .addGhostbusters outfile outdir outfull id utrust =>
    (Sqhl.addGhostbusters env fuel w outfile outdir outfull id utrust).map Prod.snd
  | .deleteObject outfile outdir => (Sqhl.deleteObject fuel w outfile outdir).map Prod.snd
  | .outside fs now allowex => some { w with fs := fs, now := now, allowex := allowex }

def World.start (tdir : String) (fs : String → Option File) (now : Nat) (allowex : Bool)
    : World where
  dir := []
  cert := []
  crl := []
  roa := []
  manifest := []
  gbr := []
  tdir := tdir
  fs := fs
  now := now
  allowex := allowex
  useParacerts := true
  certSrch := .unset
  checked := []

/--
An operation that does not return, because the parents of a certificate form a cycle, is not a step.
-/
def lts (env : Env) : Lts World Op where
  init w := ∃ tdir fs now allowex, w = World.start tdir fs now allowex
  step w op w' := ∃ fuel, op.run env fuel w = some w'

variable {env : Env}

theorem reachable_start (tdir : String) (fs : String → Option File) (now : Nat) (allowex : Bool)
    : (lts env).Reachable (World.start tdir fs now allowex) :=
  .init ⟨tdir, fs, now, allowex, rfl⟩

variable {w : World} {ops : List Op}

theorem reachable_of_run {fuel : Nat} {w' : World} (hreach : (lts env).Reachable w)
    (hrun : ops.foldlM (Op.run env fuel) w = some w') : (lts env).Reachable w' := by
  apply Lts.Reachable.foldlM _ hreach hrun
  intro w _ w' h
  exact ⟨fuel, h⟩

/--
An environment in which runs can be evaluated: the signature of a certificate is good for the key
that its `body` is, the chain is the one that was passed, all standalone checks succeed, the hash of
a file is the number it stands for, and new rows go to the end.
-/
def Env.plain : Env where
  x509Verify x pkey := if x.body = pkey then 1 else 0
  checkIssued issuer x := issuer.subject = some x.issuer
  chainOf x untrusted trusted := .ok (x :: (untrusted ++ trusted.filter (· ≠ x)))
  afterVerify _ _ _ ok := if ok then 1 else 0
  afterVerify_false _ _ _ := rfl
  crlVerify x pkey := if some x.body = pkey then 1 else 0
  rescertProfileChk _ _ := .ok ()
  crlProfileChk _ := .ok ()
  crlFieldsChk _ := .ok ()
  roaFromFileChk _ := .ok ()
  roaValidate _ := .ok ()
  roaValidate2 _ := .ok ()
  manifestValidate _ _ := .ok false
  ghostbustersValidate _ := .ok ()
  sha256
    | .cert x => [UInt8.ofNat x.body]
    | .crl x => [UInt8.ofNat x.body]
    | .cms x => [UInt8.ofNat x.body]
    | .other n => [UInt8.ofNat n]
  size _ := 100
  regexp name files := strstr files name
  pastedSigval _ _ _ := .unknown
  canWrite _ := true
  place _ objs _ := objs.length

def X509.plain (id issuer : String) (key signer : Nat) : X509 where
  subject := some id
  issuer := issuer
  sn := List.replicate 19 0 ++ [UInt8.ofNat key]
  notBefore := 0
  notAfter := 100
  sig := id ++ toString key
  ski := some id
  aki := some issuer
  ca := true
  largeKey := true
  pubkey := some key
  body := signer

def X509Crl.plain : X509Crl where
  issuer := "T"
  aki := some "T"
  sig := "L"
  nextUpd := 100
  snlist := []
  body := 1

def plainFiles (files : List (String × File)) (path : String) : Option File :=
  (files.find? fun f => "/r/" ++ f.1 = path).map Prod.snd

def Op.addPlain (outfile : String) (utrust : Bool) : Op :=
  .addCert outfile ("/r/" ++ outfile) 1 utrust false

def plainRun (files : List (String × File)) (ops : List Op) : Option World :=
  (.findorcreatedir "/r" :: ops).foldlM (Op.run Env.plain 10)
    (World.start "/r" (plainFiles files) 50 false)

def X509.plainRow (x : X509) (filename : String) (flags : Flags) (localId : Nat) : CertRow where
  filename := filename
  dirId := 1
  localId := localId
  flags := flags
  hash := .empty
  subject := x.subject.getD ""
  issuer := x.issuer
  sn := x.sn
  ski := x.ski.getD ""
  aki := x.aki
  sig := x.sig
  valfrom := x.notBefore
  valto := x.notAfter
  sigval := .unknown

theorem reachable_of_plainRun {files : List (String × File)} (h : plainRun files ops = some w)
    : (lts Env.plain).Reachable w :=
  reachable_of_run (reachable_start ..) h

theorem reachable_of_allowed {allowed : World → Op → Prop} {check : World → Op → Bool}
    (hcheck : ∀ {w op}, check w op = true → allowed w op) {files : List (String × File)}
    (h : ops.foldlM (fun w op => if check w op then Op.run Env.plain 10 w op else none)
      (World.start "/r" (plainFiles files) 50 false) = some w)
    : ((lts Env.plain).restrict allowed).Reachable w := by
  have hstart : ((lts Env.plain).restrict allowed).Reachable
      (World.start "/r" (plainFiles files) 50 false) := .init ⟨_, _, _, _, rfl⟩
  apply hstart.foldlM _ h
  intro w op _ h
  rw [Option.ite_none_right_eq_some] at h
  exact ⟨hcheck h.1, 10, h.2⟩

end Rpstir.Sqhl
