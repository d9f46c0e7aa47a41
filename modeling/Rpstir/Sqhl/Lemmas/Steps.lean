import Rpstir.Sqhl.Lemmas.Add
import Rpstir.Sqhl.Lemmas.Changes
import Rpstir.Sqhl.System

/-!
This module contains the decomposition of every operation into single changes of the certificate table.
-/

namespace Rpstir.Sqhl

open Option

inductive Step (env : Env) : World → World → Prop where
  | change {w w' : World} (h : Change env w w') : Step env w w'
  | insert {w : World} (n : Nat) (row : CertRow) (hsigval : row.sigval = .unknown)
      (hid : row.localId = w.nextId .cert) : Step env w { w with cert := insertAt n row w.cert }
  | other {w w' : World} (hcert : w'.cert = w.cert) (hchecked : w'.checked = w.checked)
      : Step env w w'

abbrev Steps (env : Env) : World → World → Prop := Relation.ReflTransGen (Step env)

variable {env : Env}

theorem Changes.deleteObject_cert {fuel : Nat} {w w' : World} {outfile : String} {id : Nat}
    {res : Except Err Unit} (h : deleteObject.cert fuel w outfile id = some (res, w'))
    : Changes env w w' := by
  unfold deleteObject.cert at h
  split at h
  . cases h
    apply refl
  obtain ⟨_, hrevoke, h⟩ := bind_eq_some_iff.mp h
  cases h
  apply (foldlM (fun _ _ _ _ => revokeCertAndChildren) hrevoke).trans
  exact .single (.delete ..)

structure Traversal (env : Env) (P : Table → String → Prop) (r : World → World → Prop) : Prop where
  refl (w : World) : r w w
  trans {w₁ w₂ w₃ : World} : r w₁ w₂ → r w₂ w₃ → r w₁ w₃
  changes {w w' : World} : Changes env w w' → r w w'
  other {w w' : World} : w'.cert = w.cert → w'.checked = w.checked →
    (∀ tab, w'.objs tab = w.objs tab) → r w w'
  insertCert {w : World} (n : Nat) (row : CertRow) : row.sigval = .unknown →
    row.localId = w.nextId .cert → P .cert row.filename → r w { w with cert := insertAt n row w.cert }
  insertCrl {w : World} (n : Nat) (row : CrlRow) : P .crl row.filename →
    r w { w with crl := insertAt n row w.crl }
  insertRoa {w : World} (n : Nat) (row : RoaRow) : P .roa row.filename →
    r w { w with roa := insertAt n row w.roa }
  insertManifest {w : World} (n : Nat) (row : ManifestRow) : P .manifest row.filename →
    r w { w with manifest := insertAt n row w.manifest }
  insertGbr {w : World} (n : Nat) (row : GbrRow) : P .gbr row.filename →
    r w { w with gbr := insertAt n row w.gbr }

theorem Steps.traversal : Traversal env (fun _ _ => True) (Steps env) where
  refl _ := .refl
  trans h h' := .trans h h'
  changes h := Relation.ReflTransGen.mono (fun _ _ h => Step.change h) _ _ h
  other hcert hchecked _ := .single (.other hcert hchecked)
  insertCert n row hsigval hid _ := .single (.insert n row hsigval hid)
  insertCrl _ _ _ := .single (.other rfl rfl)
  insertRoa _ _ _ := .single (.other rfl rfl)
  insertManifest _ _ _ := .single (.other rfl rfl)
  insertGbr _ _ _ := .single (.other rfl rfl)

namespace Traversal

variable {P : Table → String → Prop} {r : World → World → Prop} {w w' : World} {fuel id : Nat}
  {outfile outdir outfull : String} {utrust : Bool} {res : Except Err Unit} (hr : Traversal env P r)

include hr

variable {cms : Cms} {constraining isRoa stale : Bool}

theorem addCert2 {cf : CertFields} {x : X509} {res : Except Err CertRow}
    (h : addCert2 env fuel w cf x id utrust outfull = some (res, w')) (hP : P .cert cf.filename)
    : r w w' := by
  have hinsert {w w' : World} {flags : Flags} {v : Verdict} {row : CertRow}
      (h : addCert2.insert env w { cf with flags := flags, dirid := id } v outfull = .ok (row, w'))
      : r w w' := by
    rw [addCert2_insert_eq_ok_iff] at h
    obtain ⟨_, _, flags, _, h⟩ := h
    rw [addCertInternal_eq_ok_iff] at h
    obtain ⟨_, _, _, _, rfl, rfl⟩ := h
    exact hr.insertCert _ _ rfl rfl hP
  cases addCert2_cases h with
  | badCert => exact hr.refl w
  | refused _ hverify => exact hr.changes (.verifyCert hverify)
  | chained _ hverify hadd _ hchildren =>
    apply hr.trans (hr.changes (.verifyCert hverify))
    exact hr.trans (hinsert hadd) (hr.changes (.verifyChildren hchildren))
  | unchained _ hverify hadd => exact hr.trans (hr.changes (.verifyCert hverify)) (hinsert hadd)

theorem addCert {res : Except Err CertRow}
    (h : addCert env fuel w outfile outfull id utrust constraining = some (res, w'))
    (hP : P .cert outfile) : r w w' := by
  unfold Sqhl.addCert at h
  split at h
  . cases h
    exact hr.refl w
  . split at h
    . cases h
      exact hr.refl w
    next cf hcf =>
    have hfilename : cf.filename = outfile := by
      obtain ⟨_, _, rfl⟩ := cert2fields_eq_ok_iff.mp hcf
      rfl
    refine hr.trans ?_ (hr.addCert2 h (by rwa [hfilename]))
    exact hr.other rfl rfl fun tab => by cases tab <;> rfl
  . cases h
    exact hr.refl w

theorem addCrl (h : addCrl env fuel w outfile outfull id = some (res, w')) (hP : P .crl outfile)
    : r w w' := by
  have hinsert {w w' : World} {x : X509Crl} {v : Verdict}
      (h : addCrl.insert env w outfile outfull id x v = .ok w') : r w w' := by
    rw [addCrl_insert_eq_ok_iff] at h
    obtain ⟨_, _, _, h⟩ := h
    rw [addCrlInternal_eq_ok_iff] at h
    obtain ⟨_, _, rfl⟩ := h
    exact hr.insertCrl _ _ hP
  have hverify {x : X509Crl} : r w (verifyCrl env w x x.aki (some x.issuer)).2 :=
    hr.changes (.sameDb (SameDb.verifyCrl ..))
  cases addCrl_cases h with
  | badCrl => exact hr.refl w
  | refused => exact hverify
  | chained _ _ hadd _ hrevoke =>
    exact hr.trans hverify (hr.trans (hinsert hadd) (hr.changes (.revokeSerials hrevoke)))
  | unchained _ _ hadd => exact hr.trans hverify (hinsert hadd)

theorem findorcreatedir (w : World) (dirname : String) : r w (findorcreatedir w dirname).2 := by
  unfold Sqhl.findorcreatedir
  split
  . exact hr.refl w
  . exact hr.other rfl rfl fun tab => by cases tab <;> rfl

theorem extractAndAddCert {res : Except Err EECert}
    (h : extractAndAddCert env fuel w cms outdir utrust isRoa outfile = some (res, w'))
    (hP : P .cert (outfile ++ ".cer")) : r w w' := by
  unfold Sqhl.extractAndAddCert at h
  split at h
  . cases h
    exact hr.refl w
  split at h
  . cases h
    exact hr.refl w
  split at h
  . cases h
    exact hr.refl w
  split at h
  . cases h
    exact hr.refl w
  split at h
  . cases h
    exact hr.refl w
  unfold extractAndAddCert.add at h
  apply hr.trans (hr.findorcreatedir w (eeDir w outdir))
  dsimp only at h
  split at h
  . cases h
    exact hr.refl _
  split at h
  . cases h
    exact hr.other rfl rfl fun tab => by cases tab <;> rfl
  next cf hcf =>
  obtain ⟨⟨_, w1⟩, hadd, h⟩ := bind_eq_some_iff.mp h
  have hfilename : cf.filename = outfile ++ ".cer" := by
    obtain ⟨_, _, rfl⟩ := cert2fields_eq_ok_iff.mp hcf
    rfl
  have hw : w1 = w' := by
    dsimp only at h
    split at h
    . cases h
      rfl
    split at h
    . cases h
      rfl
    . cases h
      rfl
  rw [← hw]
  refine hr.trans ?_ (hr.addCert2 hadd (by rwa [hfilename]))
  exact hr.other rfl rfl fun tab => by cases tab <;> rfl

theorem deleteObject_signed {tab : Table}
    (h : deleteObject.signed fuel w tab outfile outdir id = some (res, w')) : r w w' := by
  unfold deleteObject.signed at h
  apply hr.trans (hr.changes (.single (.delete tab (isObj outfile id))))
  apply hr.trans (hr.findorcreatedir _ _)
  dsimp only at h
  split at h
  . rw [some.injEq, Prod.mk.injEq] at h
    rw [h.2]
    exact hr.refl _
  . exact hr.changes (.deleteObject_cert h)

theorem deleteObject (h : deleteObject fuel w outfile outdir = some (res, w')) : r w w' := by
  unfold Sqhl.deleteObject at h
  split at h
  . cases h
    exact hr.refl w
  split at h
  . exact hr.changes (.deleteObject_cert h)
  . exact hr.changes (.deleteObject_cert h)
  . cases h
    exact hr.changes (.single (.delete ..))
  . exact hr.deleteObject_signed h
  . exact hr.deleteObject_signed h
  . exact hr.deleteObject_signed h

theorem deleteAddedCert {sta : Except Err Unit}
    (h : deleteAddedCert fuel w outfile outdir sta = some (res, w')) : r w w' := by
  unfold Sqhl.deleteAddedCert at h
  split at h
  . cases h
    exact hr.refl w
  . obtain ⟨⟨res, _⟩, hdelete, h⟩ := bind_eq_some_iff.mp h
    cases h
    exact hr.deleteObject hdelete

theorem addRoa_insert (w : World) (cms : Cms) (ski : String) (hP : P .roa outfile)
    : r w (addRoa.insert env w cms ski outfile outfull id).2 := by
  unfold addRoa.insert
  split
  . exact hr.refl w
  apply hr.trans (hr.changes (.verifyRoa w cms (some ski)))
  dsimp only
  split
  . exact hr.refl _
  . exact hr.refl _
  split
  . exact hr.refl _
  next h =>
  rw [addRoa.store, Except.bind_eq_ok_iff] at h
  obtain ⟨_, _, h⟩ := h
  rw [addRoaInternal_eq_ok_iff] at h
  obtain ⟨_, _, rfl⟩ := h
  exact hr.insertRoa _ _ hP

theorem addManifest_insert {ee : EECert}
    (h : addManifest.insert env fuel w cms ee stale outfile id = some (res, w'))
    (hP : P .manifest outfile) : r w w' := by
  unfold addManifest.insert at h
  split at h
  . cases h
    exact hr.refl w
  have hinsert := @Traversal.insertManifest env P r hr w
    (env.place .manifest (w.objs .manifest) (manifestRow w cms ee stale outfile id).toObj)
    (manifestRow w cms ee stale outfile id) hP
  split at h
  . exact hr.trans hinsert (hr.changes (.updateManifestObjs h))
  . cases h
    exact hinsert

theorem addGhostbusters_insert (w : World) (ee : EECert) (hP : P .gbr outfile)
    : r w (addGhostbusters.insert env w ee outfile id).2 := by
  unfold addGhostbusters.insert
  split
  . exact hr.refl w
  . exact hr.insertGbr _ _ hP

variable (hcert : P .cert (outfile ++ ".cer"))

include hcert

theorem addRoa (h : addRoa env fuel w outfile outdir outfull id utrust = some (res, w'))
    (hP : P .roa outfile) : r w w' := by
  unfold Sqhl.addRoa at h
  split at h
  . split at h
    . cases h
      exact hr.refl w
    obtain ⟨⟨_, _⟩, hextract, h⟩ := bind_eq_some_iff.mp h
    apply hr.trans (hr.extractAndAddCert hextract hcert)
    dsimp only at h
    split at h
    . cases h
      exact hr.refl _
    . exact hr.trans (hr.addRoa_insert _ _ _ hP) (hr.deleteAddedCert h)
  . cases h
    exact hr.refl w

theorem addManifest (h : addManifest env fuel w outfile outdir outfull id utrust = some (res, w'))
    (hP : P .manifest outfile) : r w w' := by
  unfold Sqhl.addManifest at h
  split at h
  . split at h
    . cases h
      exact hr.refl w
    obtain ⟨⟨_, _⟩, hextract, h⟩ := bind_eq_some_iff.mp h
    apply hr.trans (hr.extractAndAddCert hextract hcert)
    dsimp only at h
    split at h
    . cases h
      exact hr.refl _
    . obtain ⟨⟨_, _⟩, hinsert, h⟩ := bind_eq_some_iff.mp h
      exact hr.trans (hr.addManifest_insert hinsert hP) (hr.deleteAddedCert h)
  . cases h
    exact hr.refl w

theorem addGhostbusters
    (h : addGhostbusters env fuel w outfile outdir outfull id utrust = some (res, w'))
    (hP : P .gbr outfile) : r w w' := by
  unfold Sqhl.addGhostbusters at h
  split at h
  . split at h
    . cases h
      exact hr.refl w
    obtain ⟨⟨_, _⟩, hextract, h⟩ := bind_eq_some_iff.mp h
    apply hr.trans (hr.extractAndAddCert hextract hcert)
    dsimp only at h
    split at h
    . cases h
      exact hr.refl _
    . exact hr.trans (hr.addGhostbusters_insert _ _ hP) (hr.deleteAddedCert h)
  . cases h
    exact hr.refl w

end Traversal

theorem Steps.run {fuel : Nat} {op : Op} {w w' : World} (h : op.run env fuel w = some w')
    : Steps env w w' := by
  unfold Op.run at h
  split at h
  . cases h
    exact traversal.findorcreatedir ..
  case h_8 =>
    cases h
    exact .single (.other rfl rfl)
  all_goals
    rw [map_eq_some_iff] at h
    obtain ⟨⟨_, _⟩, h, rfl⟩ := h
  . exact traversal.addCert h trivial
  . exact traversal.addCrl h trivial
  . exact traversal.addRoa trivial h trivial
  . exact traversal.addManifest trivial h trivial
  . exact traversal.addGhostbusters trivial h trivial
  . exact traversal.deleteObject h

theorem invariant_of_step {inv : World → Prop} {w : World} (hreach : (lts env).Reachable w)
    (hstart : ∀ w, w.cert = [] → inv w) (hstep : ∀ w w', inv w → Step env w w' → inv w')
    : inv w := by
  apply hreach.invariant
  . rintro w ⟨_, _, _, _, rfl⟩
    apply hstart
    rfl
  rintro w _ w' hinv ⟨_, hrun⟩
  have hsteps := Steps.run hrun
  clear hrun
  induction hsteps with
  | refl => exact hinv
  | tail _ h ih => exact hstep _ _ ih h

end Rpstir.Sqhl
