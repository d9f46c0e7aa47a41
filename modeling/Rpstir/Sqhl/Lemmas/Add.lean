import Rpstir.Data.Fold
import Rpstir.Sqhl.Lemmas.Verify
import Rpstir.Sqhl.Add

/-!
This module contains what the operations that add a certificate or a CRL do, case by case.
-/

namespace Rpstir.Sqhl

open Option

variable {env : Env}

variable {cf : CertFields} {w w' : World} {fullpath : String}

variable {filename msig outfile outfull : String} {utrust isValid : Bool} {x : X509} {id fuel : Nat}
  {row : CertRow} {v : Verdict}

theorem cert2fields_eq_ok_iff
    : cert2fields filename x = .ok cf
      ↔ ∃ subject, x.subject = some subject ∧ cf = {
        filename := filename
        subject := subject
        issuer := x.issuer
        sn := x.sn
        valfrom := x.notBefore
        valto := x.notAfter
        sig := x.sig
        ski := x.ski
        aki := x.aki
        flags := if x.ca then Flags.ca else 0
        dirid := 0 } := by
  unfold cert2fields
  constructor
  . intro h
    split at h
    . cases h
    . next subject hsubject =>
      cases h
      exact ⟨subject, hsubject, rfl⟩
  . rintro ⟨subject, hsubject, rfl⟩
    rw [hsubject]

theorem addCertInternal_eq_ok_iff
    : addCertInternal env w cf = .ok (row, w')
      ↔ dupsigscm (w.cert.map CertRow.sig) cf.sig = .ok ()
        ∧ w.hasKey .cert cf.filename cf.dirid = false
        ∧ ∃ ski, cf.ski = some ski ∧ row = cf.toRow ski (w.nextId .cert)
          ∧ w' = { w with
              cert := insertAt (env.place .cert (w.objs .cert) row.toObj) row w.cert } := by
  unfold addCertInternal
  rw [Except.unit_bind_eq_ok_iff]
  cases hski : cf.ski with
  | none => simp
  | some =>
    cases hkey : w.hasKey .cert cf.filename cf.dirid with
    | true => simp
    | false =>
      simp only [Bool.false_eq_true, if_false, Except.ok.injEq, Prod.mk.injEq, some.injEq,
        true_and, exists_eq_left']
      constructor
      . rintro ⟨hdup, rfl, rfl⟩
        exact ⟨hdup, rfl, rfl⟩
      . rintro ⟨hdup, rfl, rfl⟩
        exact ⟨hdup, rfl, rfl⟩

theorem addCert2_insert_eq_ok_iff
    : addCert2.insert env w cf v fullpath = .ok (row, w')
      ↔ v.sta = .ok () ∧ certRevoked w cf.sn cf.issuer = .ok ()
        ∧ ∃ flags, addStateToFlags env w cf.flags v.chainOK cf.filename fullpath = .ok flags
          ∧ addCertInternal env w { cf with flags := flags } = .ok (row, w') := by
  unfold addCert2.insert
  rw [Except.unit_bind_eq_ok_iff, Except.unit_bind_eq_ok_iff, Except.bind_eq_ok_iff]

theorem addStateToFlags_ok {w : World} {flags flags' : Flags} {fullpath : String}
    (hnochain : flags.test Flags.nochain true = false)
    (h : addStateToFlags env w flags isValid filename fullpath = .ok flags')
    : flags'.valid = isValid ∧ flags'.has Flags.trusted = flags.has Flags.trusted := by
  have hor : flags' = flags ||| (if isValid then Flags.validated else Flags.nochain)
      ∨ flags' = flags ||| (if isValid then Flags.validated else Flags.nochain)
        ||| Flags.onman := by
    unfold addStateToFlags at h
    dsimp only at h
    split at h
    . cases h
      exact .inl rfl
    split at h
    . cases hhash : checkFileAndHash env _ _ [] with
      | error =>
        rw [hhash] at h
        cases h
      | ok =>
        rw [hhash] at h
        cases h
        exact .inr rfl
    . cases h
      exact .inl rfl
  have hbit : flags[3] = false := by
    rw [Flags.test_nochain] at hnochain
    exact hnochain
  rcases hor with rfl | rfl <;> cases isValid
    <;> simp [Flags.valid_eq, Flags.has_trusted, hbit, Flags.validated, Flags.nochain, Flags.onman]

theorem addCert2_check_eq_ok_iff {w : World} {flags : Flags}
    (hfile : w.fs fullpath = some (.cert x))
    : addCert2.check env w cf x utrust fullpath = .ok flags
      ↔ ∃ ski, x.ski = some ski ∧ (utrust = true → addCert2.checkTrusted cf x ski = .ok ())
        ∧ env.rescertProfileChk x (addCert2.certType cf utrust) = .ok ()
        ∧ addCert2.checkExpired w x = .ok ()
        ∧ flags = (if x.notBefore > w.now then
            (if utrust then cf.flags ||| Flags.trusted else cf.flags) ||| Flags.notyet
          else if utrust then cf.flags ||| Flags.trusted else cf.flags) := by
  unfold addCert2.check
  rw [hfile]
  cases hski : x.ski with
  | none => simp [hski]
  | some =>
    simp only [hski]
    rw [Except.unit_bind_eq_ok_iff, Except.unit_bind_eq_ok_iff, Except.unit_bind_eq_ok_iff,
      Except.ok.injEq]
    cases utrust <;> simp [eq_comm]

theorem addCert2_check_ok {w : World} {flags : Flags} (hfile : w.fs fullpath = some (.cert x))
    (hcf : cert2fields filename x = .ok cf)
    (h : addCert2.check env w cf x utrust fullpath = .ok flags)
    : flags.test Flags.nochain true = false ∧ flags.has Flags.trusted = utrust
      ∧ ∃ ski, x.ski = some ski
        ∧ (utrust = true → (x.aki = none ∨ x.aki = some ski) ∧ cf.subject = cf.issuer) := by
  obtain ⟨ski, hski, htrusted, _, _, hflags⟩ := (addCert2_check_eq_ok_iff hfile).mp h
  have hca : cf.flags = if x.ca then Flags.ca else 0#32 := by
    obtain ⟨subject, _, rfl⟩ := cert2fields_eq_ok_iff.mp hcf
    rfl
  rw [Flags.test_nochain, Flags.has_trusted, hflags, hca, ← and_assoc]
  refine ⟨?_, ski, hski, ?_⟩
  . by_cases hnotyet : x.notBefore > w.now <;> simp only [hnotyet, if_true, if_false]
      <;> cases utrust <;> cases x.ca <;> decide
  intro hutrust
  have hself := htrusted hutrust
  unfold addCert2.checkTrusted at hself
  split at hself
  . cases hself
  . next hnames =>
    cases haki : x.aki with
    | none
    | some => simpa [haki] using hnames

inductive AddCert2 (env : Env) (fuel : Nat) (w : World) (cf : CertFields) (x : X509) (id : Nat)
    (utrust : Bool) (fullpath : String) : Except Err CertRow → World → Prop where
  | badCert {e : Err} (hcheck : addCert2.check env w cf x utrust fullpath = .error e)
      : AddCert2 env fuel w cf x id utrust fullpath (.error e) w
  | refused {flags : Flags} {v : Verdict} {w₁ : World} {e : Err}
      (hcheck : addCert2.check env w cf x utrust fullpath = .ok flags)
      (hverify : verifyCert env fuel w x utrust cf.aki (some cf.issuer) = some (v, w₁))
      (hinsert : addCert2.insert env w₁ { cf with flags := flags, dirid := id } v fullpath
        = .error e)
      : AddCert2 env fuel w cf x id utrust fullpath (.error e) w₁
  | chained {flags : Flags} {v : Verdict} {w₁ w₂ w₃ : World} {row : CertRow}
      (hcheck : addCert2.check env w cf x utrust fullpath = .ok flags)
      (hverify : verifyCert env fuel w x utrust cf.aki (some cf.issuer) = some (v, w₁))
      (hinsert : addCert2.insert env w₁ { cf with flags := flags, dirid := id } v fullpath
        = .ok (row, w₂))
      (hchain : v.chainOK = true)
      (hchildren : verifyChildren env fuel w₂ row.ski row.subject row.aki (some row.issuer)
        row.localId = some w₃)
      : AddCert2 env fuel w cf x id utrust fullpath (.ok row) w₃
  | unchained {flags : Flags} {v : Verdict} {w₁ w₂ : World} {row : CertRow}
      (hcheck : addCert2.check env w cf x utrust fullpath = .ok flags)
      (hverify : verifyCert env fuel w x utrust cf.aki (some cf.issuer) = some (v, w₁))
      (hinsert : addCert2.insert env w₁ { cf with flags := flags, dirid := id } v fullpath
        = .ok (row, w₂))
      (hchain : v.chainOK = false)
      : AddCert2 env fuel w cf x id utrust fullpath (.ok row) w₂

theorem addCert2_cases {res : Except Err CertRow}
    (h : addCert2 env fuel w cf x id utrust fullpath = some (res, w'))
    : AddCert2 env fuel w cf x id utrust fullpath res w' := by
  unfold addCert2 at h
  split at h
  . next hcheck =>
    cases h
    apply AddCert2.badCert hcheck
  next hcheck =>
  obtain ⟨⟨_, _⟩, hverify, h⟩ := bind_eq_some_iff.mp h
  dsimp only at h
  split at h
  . next hinsert =>
    cases h
    apply AddCert2.refused hcheck hverify hinsert
  next hinsert =>
  split at h
  . next hchain =>
    obtain ⟨_, hchildren, h⟩ := bind_eq_some_iff.mp h
    cases h
    apply AddCert2.chained hcheck hverify hinsert hchain hchildren
  . next hchain =>
    cases h
    apply AddCert2.unchained hcheck hverify hinsert
    simpa using hchain

theorem addCrlInternal_eq_ok_iff {row : CrlRow}
    : addCrlInternal env w row = .ok w'
      ↔ dupsigscm (w.crl.map CrlRow.sig) row.sig = .ok ()
        ∧ w.hasKey .crl row.filename row.dirId = false
        ∧ w' = { w with crl := insertAt (env.place .crl (w.objs .crl) row.toObj) row w.crl } := by
  unfold addCrlInternal
  rw [Except.unit_bind_eq_ok_iff]
  cases w.hasKey .crl row.filename row.dirId with
  | true => simp [throw, throwThe, MonadExceptOf.throw, bind, Except.bind]
  | false => simp [pure, Except.pure, eq_comm]

theorem addRoaInternal_eq_ok_iff {row : RoaRow}
    : addRoaInternal env w row = .ok w'
      ↔ dupsigscm (w.roa.map RoaRow.sig) row.sig = .ok ()
        ∧ w.hasKey .roa row.filename row.dirId = false
        ∧ w' = { w with roa := insertAt (env.place .roa (w.objs .roa) row.toObj) row w.roa } := by
  unfold addRoaInternal
  rw [Except.unit_bind_eq_ok_iff]
  cases w.hasKey .roa row.filename row.dirId with
  | true => simp [throw, throwThe, MonadExceptOf.throw, bind, Except.bind]
  | false => simp [pure, Except.pure, eq_comm]

inductive AddCrl (env : Env) (fuel : Nat) (w : World) (outfile outfull : String) (id : Nat)
    : Except Err Unit → World → Prop where
  | badCrl {e : Err} : AddCrl env fuel w outfile outfull id (.error e) w
  | refused {x : X509Crl} {e : Err} (hfile : w.fs outfull = some (.crl x))
      (hcheck : (env.crlProfileChk x >>= fun _ => env.crlFieldsChk x) = .ok ())
      (hinsert : addCrl.insert env (verifyCrl env w x x.aki (some x.issuer)).2 outfile outfull id x
        (verifyCrl env w x x.aki (some x.issuer)).1 = .error e)
      : AddCrl env fuel w outfile outfull id (.error e) (verifyCrl env w x x.aki (some x.issuer)).2
  | chained {x : X509Crl} {w₂ w₃ : World} (hfile : w.fs outfull = some (.crl x))
      (hcheck : (env.crlProfileChk x >>= fun _ => env.crlFieldsChk x) = .ok ())
      (hinsert : addCrl.insert env (verifyCrl env w x x.aki (some x.issuer)).2 outfile outfull id x
        (verifyCrl env w x x.aki (some x.issuer)).1 = .ok w₂)
      (hchain : (verifyCrl env w x x.aki (some x.issuer)).1.chainOK = true)
      (hrevoke : revokeSerials fuel w₂ x = some w₃)
      : AddCrl env fuel w outfile outfull id (.ok ()) w₃
  | unchained {x : X509Crl} {w₂ : World} (hfile : w.fs outfull = some (.crl x))
      (hcheck : (env.crlProfileChk x >>= fun _ => env.crlFieldsChk x) = .ok ())
      (hinsert : addCrl.insert env (verifyCrl env w x x.aki (some x.issuer)).2 outfile outfull id x
        (verifyCrl env w x x.aki (some x.issuer)).1 = .ok w₂)
      (hchain : (verifyCrl env w x x.aki (some x.issuer)).1.chainOK = false)
      : AddCrl env fuel w outfile outfull id (.ok ()) w₂

theorem addCrl_cases {res : Except Err Unit}
    (h : addCrl env fuel w outfile outfull id = some (res, w'))
    : AddCrl env fuel w outfile outfull id res w' := by
  unfold addCrl at h
  split at h
  . next hfile =>
    split at h
    . cases h
      apply AddCrl.badCrl
    next hcheck =>
    dsimp only at h
    split at h
    . next hinsert =>
      cases h
      apply AddCrl.refused hfile hcheck hinsert
    next hinsert =>
    split at h
    . next hchain =>
      obtain ⟨_, hrevoke, h⟩ := bind_eq_some_iff.mp h
      cases h
      apply AddCrl.chained hfile hcheck hinsert hchain hrevoke
    . next hchain =>
      cases h
      apply AddCrl.unchained hfile hcheck hinsert
      simpa using hchain
  . cases h
    apply AddCrl.badCrl

theorem addCrl_insert_eq_ok_iff {x : X509Crl}
    : addCrl.insert env w outfile outfull id x v = .ok w'
      ↔ v.sta = .ok () ∧ ∃ flags,
        addStateToFlags env w (crlFlags x w.now) v.chainOK outfile outfull = .ok flags
        ∧ addCrlInternal env w (crl2row w x outfile id flags) = .ok w' := by
  unfold addCrl.insert
  rw [Except.unit_bind_eq_ok_iff, Except.bind_eq_ok_iff]

end Rpstir.Sqhl
