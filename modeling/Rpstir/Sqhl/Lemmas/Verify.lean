import Rpstir.Sqhl.Verify

/-!
This module contains what the verification functions leave as it is: the search for a parent changes
static variables only, and a verification in addition the `sigval` columns.
-/

namespace Rpstir.Sqhl

structure SameRest (w w' : World) : Prop where
  dir : w'.dir = w.dir
  crl : w'.crl = w.crl
  manifest : w'.manifest = w.manifest
  gbr : w'.gbr = w.gbr
  tdir : w'.tdir = w.tdir
  fs : w'.fs = w.fs
  now : w'.now = w.now
  allowex : w'.allowex = w.allowex
  useParacerts : w'.useParacerts = w.useParacerts

namespace SameRest

variable {w w' w'' : World}

theorem trans (h : SameRest w w') (h' : SameRest w' w'') : SameRest w w'' where
  dir := h'.dir.trans h.dir
  crl := h'.crl.trans h.crl
  manifest := h'.manifest.trans h.manifest
  gbr := h'.gbr.trans h.gbr
  tdir := h'.tdir.trans h.tdir
  fs := h'.fs.trans h.fs
  now := h'.now.trans h.now
  allowex := h'.allowex.trans h.allowex
  useParacerts := h'.useParacerts.trans h.useParacerts

theorem symm (h : SameRest w w') : SameRest w' w where
  dir := h.dir.symm
  crl := h.crl.symm
  manifest := h.manifest.symm
  gbr := h.gbr.symm
  tdir := h.tdir.symm
  fs := h.fs.symm
  now := h.now.symm
  allowex := h.allowex.symm
  useParacerts := h.useParacerts.symm

end SameRest

structure SameDb (w w' : World) : Prop extends SameRest w w' where
  cert : w'.cert = w.cert
  roa : w'.roa = w.roa
  checked : w'.checked = w.checked

variable {fuel : Nat} {isTrusted : Bool} {v : Verdict} {subject ski : Option String}

namespace SameDb

variable {w w' w'' : World}

theorem refl (w : World) : SameDb w w where
  toSameRest := by constructor <;> rfl
  cert := rfl
  roa := rfl
  checked := rfl

theorem trans (h : SameDb w w') (h' : SameDb w' w'') : SameDb w w'' where
  toSameRest := h.toSameRest.trans h'.toSameRest
  cert := h'.cert.trans h.cert
  roa := h'.roa.trans h.roa
  checked := h'.checked.trans h.checked

theorem path (h : SameDb w w') (o : Obj) : w'.path o = w.path o := by
  unfold World.path World.dirname
  rw [h.dir]

theorem readCertFromFile (h : SameDb w w') (path : String)
    : readCertFromFile w' path = readCertFromFile w path := by
  unfold Sqhl.readCertFromFile
  rw [h.fs]

theorem initParentSrch (w : World) : SameDb w w.initParentSrch := by
  unfold World.initParentSrch
  split
  . exact { refl w with .. }
  . apply refl

theorem fetchParent (w : World) (ansrs : List CertAnsr) : SameDb w (w.fetchParent ansrs) := by
  unfold World.fetchParent
  split
  . exact { refl w with .. }
  . apply refl

theorem findParentCert (w : World) (ski subject : Option String)
    : SameDb w (findParentCert w ski subject).2 := by
  apply (initParentSrch w).trans
  apply fetchParent

theorem parentCert_choose (w : World) (ansrs : List CertAnsr)
    : SameDb w (parentCert.choose w ansrs).2 := by
  unfold parentCert.choose
  split
  . split
    . apply refl
    . apply refl
  . split
    . apply refl
    . dsimp only
      split
      . exact { refl w with .. }
      . apply refl
  . apply refl

theorem parentCert (w : World) (ski subject : Option String)
    : SameDb w (parentCert w ski subject).2 := by
  apply (findParentCert w ski subject).trans
  apply parentCert_choose

theorem parentWalk {w w' : World} {untrusted : List X509} {res : List X509 × Option X509}
    (h : parentWalk fuel w ski subject untrusted = some (res, w')) : SameDb w w' := by
  induction fuel generalizing w ski subject untrusted with
  | zero => cases h
  | succ fuel ih =>
    have hparent := parentCert w ski subject
    unfold Sqhl.parentWalk at h
    split at h
    . next w1 hp =>
      rw [hp] at hparent
      cases h
      apply hparent
    next w1 hp =>
    rw [hp] at hparent
    split at h
    . cases h
      apply hparent
    . apply hparent.trans
      apply ih h

end SameDb

def CertRow.uncached (r : CertRow) : CertRow :=
  { r with sigval := .unknown }

def RoaRow.uncached (r : RoaRow) : RoaRow :=
  { r with sigval := .unknown }

structure SameRows (w w' : World) : Prop extends SameRest w w' where
  cert : w'.cert.map CertRow.uncached = w.cert.map CertRow.uncached
  roa : w'.roa.map RoaRow.uncached = w.roa.map RoaRow.uncached

theorem SameDb.sameRows {w w' : World} (h : SameDb w w') : SameRows w w' where
  toSameRest := h.toSameRest
  cert := by rw [h.cert]
  roa := by rw [h.roa]

namespace SameRows

variable {env : Env} {w w' w'' : World}

theorem refl (w : World) : SameRows w w := (SameDb.refl w).sameRows

theorem trans (h : SameRows w w') (h' : SameRows w' w'') : SameRows w w'' where
  toSameRest := h.toSameRest.trans h'.toSameRest
  cert := h'.cert.trans h.cert
  roa := h'.roa.trans h.roa

theorem map_cert (h : SameRows w w') {α : Type} (f : CertRow → α) (hf : ∀ r, f r.uncached = f r)
    : w'.cert.map f = w.cert.map f := by
  have hcomp : f = f ∘ CertRow.uncached := by
    funext r
    exact (hf r).symm
  rw [hcomp, ← List.map_map, ← List.map_map, h.cert]

theorem mem_cert (h : SameRows w w') {r' : CertRow} (hr' : r' ∈ w'.cert)
    : ∃ r ∈ w.cert, r'.uncached = r.uncached := by
  have hmem := List.mem_map_of_mem (f := CertRow.uncached) hr'
  rw [h.cert] at hmem
  obtain ⟨r, hr, heq⟩ := List.mem_map.mp hmem
  exact ⟨r, hr, heq.symm⟩

theorem symm (h : SameRows w w') : SameRows w' w :=
  ⟨h.toSameRest.symm, h.cert.symm, h.roa.symm⟩

theorem setCertSigval (w : World) (subj ski : String) (valu : SigVal)
    : SameRows w (setCertSigval w subj ski valu) := by
  refine { refl w with cert := ?_ }
  simp only [Sqhl.setCertSigval, List.map_map]
  apply List.map_congr_left
  intro _ _
  simp only [Function.comp_apply]
  split <;> rfl

theorem setRoaSigval (w : World) (ski : Option String) (valu : SigVal)
    : SameRows w (setRoaSigval w ski valu) := by
  refine { refl w with roa := ?_ }
  simp only [Sqhl.setRoaSigval, List.map_map]
  apply List.map_congr_left
  intro _ _
  simp only [Function.comp_apply]
  split <;> rfl

theorem localVerify (w : World) (x : X509) (pkey : PKey)
    : SameRows w (localVerify env w x pkey).2 := by
  have hchecked : SameRows w { w with checked := w.checked ++ [(x, pkey)] } := by
    refine { refl w with .. }
  unfold Sqhl.localVerify
  split
  . apply refl
  . apply refl
  dsimp only
  split
  . apply hchecked.trans
    unfold X509.cacheSigval
    split
    . apply setCertSigval
    . apply refl
  . apply hchecked

end SameRows

section Rel

variable {env : Env} {r : World → World → Prop} (hrefl : ∀ w, r w w)
variable (htrans : ∀ {w1 w2 w3}, r w1 w2 → r w2 w3 → r w1 w3)
variable (hverify : ∀ w x pkey, r w (localVerify env w x pkey).2)

include hrefl htrans hverify

theorem rel_ourVerify_go (w : World) (xissuer : X509) (l : List X509)
    : r w (ourVerify.go env w xissuer l).2 := by
  induction l generalizing w xissuer with
  | nil => apply hrefl
  | cons xsubject _ ih =>
    unfold ourVerify.go
    split
    . apply hrefl
    next pkey _ =>
    dsimp only
    split
    . apply hverify
    . apply htrans (hverify w xsubject pkey)
      apply ih

theorem rel_ourVerify (w : World) (chain : List X509) : r w (ourVerify env w chain).2 := by
  unfold ourVerify
  split
  . apply hrefl
  split
  . apply rel_ourVerify_go hrefl htrans hverify
  . split
    . apply hrefl
    . apply rel_ourVerify_go hrefl htrans hverify

theorem rel_checkit (w : World) (x : X509) (uchain tchain : List X509)
    : r w (checkit env w x uchain tchain).2 := by
  unfold checkit x509VerifyCert
  dsimp only
  split
  . apply hrefl
  . apply rel_ourVerify hrefl htrans hverify

variable (hsame : ∀ w w', SameDb w w' → r w w')

include hsame

theorem rel_verifyCert {w w' : World} {x : X509}
    (h : verifyCert env fuel w x isTrusted ski subject = some (v, w')) : r w w' := by
  unfold verifyCert at h
  split at h
  . cases h
    apply rel_checkit hrefl htrans hverify
  simp only [Option.bind_eq_bind, Option.bind_eq_some_iff] at h
  obtain ⟨⟨⟨_, _⟩, _⟩, hwalk, h⟩ := h
  have hsame1 := hsame _ _ (SameDb.parentWalk hwalk)
  dsimp only at h
  split at h
  . cases h
    apply hsame1
  . cases h
    apply htrans hsame1
    apply rel_checkit hrefl htrans hverify

end Rel

theorem SameRows.verifyCert {env : Env} {w w' : World} {x : X509}
    (h : verifyCert env fuel w x isTrusted ski subject = some (v, w')) : SameRows w w' :=
  rel_verifyCert SameRows.refl SameRows.trans SameRows.localVerify (fun _ _ => SameDb.sameRows) h

theorem SameDb.verifyCrl (env : Env) (w : World) (x : X509Crl) (ski subject : Option String)
    : SameDb w (verifyCrl env w x ski subject).2 := by
  have hparent := SameDb.parentCert w ski subject
  unfold Sqhl.verifyCrl
  split
  . next hp =>
    rw [hp] at hparent
    apply hparent
  . next hp =>
    rw [hp] at hparent
    apply hparent

theorem verifyRoa_cases (env : Env) (w : World) (x : Cms) (ski : Option String)
    : SameDb w (verifyRoa env w x ski).2
      ∨ ∃ w1, SameDb w w1 ∧ (verifyRoa env w x ski).2 = setRoaSigval w1 ski .valid := by
  have hparent := SameDb.parentCert w ski none
  unfold verifyRoa
  split
  . exact .inl (.refl w)
  split
  . exact .inl (.refl w)
  split
  . next hp =>
    rw [hp] at hparent
    exact .inl hparent
  next hp =>
  rw [hp] at hparent
  split
  . exact .inl hparent
  . exact .inr ⟨_, hparent, rfl⟩

end Rpstir.Sqhl
