import Rpstir.Sqhl.Lemmas.Validate

/-!
This module contains the proof that the rows of the certificate table stay what they are in a database
without signed objects.
-/

namespace Rpstir.Sqhl

open List Option

variable {env : Env} {w w' : World}

variable {fuel certId : Nat} {data : PropData} {row : CertRow}
  {outfile subject filename fullpath ski : String} {utrust goOn : Bool}

namespace Keeps

theorem of_cert_eq (hcert : w'.cert = w.cert) : Keeps w w' := (Weakens.of_cert_eq hcert).keeps

theorem updateValidFlags {isValid : Bool}
    (habout : ∀ r ∈ w.cert, r.localId = data.id → data.About r.ident)
    : Keeps w (updateValidFlags w .cert data.id data.flags isValid) := by
  intro r' hr'
  rcases mem_updateValidFlags_cert.mp hr' with ⟨hr, _⟩ | ⟨r, hr, hid, rfl⟩
  . exact ⟨r', hr, rfl⟩
  . exact ⟨r, hr, ident_validFlags (habout r hr hid) isValid⟩

theorem sameValid (h : SameValid w w') : Keeps w w' :=
  (h.revokes (P := fun _ => True)).weakens.keeps

end Keeps

structure TrackInv (w₀ w : World) (stack : List PropData) : Prop where
  keeps : Keeps w₀ w
  about : ∀ d ∈ stack, d.Matches (fun _ => True) w₀

namespace TrackInv

variable {w₀ : World} {data : PropData} {stack : List PropData}

theorem tail (h : TrackInv w₀ w (data :: stack)) (hkeeps : Keeps w w') : TrackInv w₀ w' stack where
  keeps := h.keeps.trans hkeeps
  about := fun d hd => h.about d (mem_cons_of_mem _ hd)

theorem push (h : TrackInv w₀ w stack) (data : PropData) (doVerify : Bool)
    : TrackInv w₀ w ((childrenSrch w data doVerify).reverse ++ stack) where
  keeps := h.keeps
  about := by
    intro d hd
    rcases List.mem_append.mp hd with hd | hd
    . obtain ⟨r, hr, hchild, rfl⟩ := mem_childrenSrch.mp (mem_reverse.mp hd)
      exact PropData.Matches.of_keeps ⟨r, hr, registerChild_about hchild, trivial⟩ h.keeps
    . exact h.about d hd

theorem updateValidFlags (hids : w₀.UniqueIds) (h : TrackInv w₀ w (data :: stack)) (isValid : Bool)
    : Keeps w (updateValidFlags w .cert data.id data.flags isValid) :=
  .updateValidFlags fun _ hr hid =>
    ((h.about data mem_cons_self).about hids h.keeps hr hid).1

theorem start (hkeeps : Keeps w₀ w) (data : PropData) (doVerify : Bool)
    : TrackInv w₀ w (childrenSrch w data doVerify).reverse := by
  have h : TrackInv w₀ w [] := ⟨hkeeps, by simp⟩
  simpa using h.push data doVerify

end TrackInv

namespace Keeps

theorem invalidateChildren {lid : Nat} (hids : w.UniqueIds)
    (h : invalidateChildren fuel w ski subject lid = some w') : Keeps w w' := by
  obtain ⟨_, doIt, w1, hroot, hloop⟩ := propagate_root h
  obtain ⟨rfl, rfl⟩ : true = doIt ∧ _ = w1 := by simpa [invalidateChildCert] using hroot
  have hvisit : ∀ w1 data stack doIt w2, TrackInv w w1 (data :: stack)
      → some (invalidateChildCert w1 data true) = some (doIt, w2)
      → TrackInv w w2 (if doIt then (childrenSrch w2 data false).reverse ++ stack else stack) := by
    intro w1 data stack doIt w2 hinv hvisit
    simp only [invalidateChildCert, if_true, some.injEq] at hvisit
    split at hvisit
    . cases hvisit
      exact hinv.tail (.refl _)
    . cases hvisit
      apply (hinv.tail ((hinv.updateValidFlags hids false).trans _)).push
      exact (SameCerts.invalidateChildObjs _ data).weakens.keeps
  have hstart (data : PropData) : TrackInv w (invalidateChildObjs w data)
      (childrenSrch (invalidateChildObjs w data) data false).reverse :=
    .start (SameCerts.invalidateChildObjs w data).weakens.keeps data false
  exact (propagate_invariant hvisit (hstart _) hloop).keeps

theorem revokeCertAndChildren (hids : w.UniqueIds) (h : revokeCertAndChildren fuel w row = some w')
    : Keeps w w' := by
  obtain ⟨_, hsame, heq⟩ := revokeCertAndChildren_eq fuel row hids
  have hdelete : Revokes (fun _ => False) w (w.deletebylid .cert row.localId) :=
    .deletebylid fun _ _ _ hfalse => hfalse
  have h1 := hdelete.trans hsame.revokes
  rw [heq] at h
  exact h1.weakens.keeps.trans (.invalidateChildren (h1.ids.nodup hids) h)

theorem revokeRows (env : Env) {rows : List CertRow} (hids : w.UniqueIds)
    (h : rows.foldlM (Sqhl.revokeCertAndChildren fuel) w = some w') : Keeps w w' := by
  induction rows generalizing w with
  | nil =>
    cases h
    exact .refl _
  | cons _ rows ih =>
    rw [foldlM_cons, bind_eq_bind, bind_eq_some_iff] at h
    obtain ⟨w1, hrevoke, h⟩ := h
    have hchanges : Changes env w w1 := .revokeCertAndChildren hrevoke
    exact (revokeCertAndChildren hids hrevoke).trans (ih (hids.sublist hchanges.ids_sublist) h)

theorem revokeSerials (env : Env) {x : X509Crl} (hids : w.UniqueIds)
    (h : revokeSerials fuel w x = some w') : Keeps w w' := by
  unfold Sqhl.revokeSerials at h
  generalize x.snlist = snlist at h
  induction snlist generalizing w with
  | nil =>
    cases h
    exact .refl _
  | cons _ snlist ih =>
    rw [foldlM_cons, bind_eq_bind, bind_eq_some_iff] at h
    obtain ⟨w1, hrevoke, h⟩ := h
    have hchanges : Changes env w w1 := .revokeCertBySerial hrevoke
    refine .trans ?_ (ih (hids.sublist hchanges.ids_sublist) h)
    unfold revokeCertBySerial at hrevoke
    split at hrevoke
    . cases hrevoke
      exact .refl w
    . split at hrevoke
      . cases hrevoke
        exact .refl w
      . exact revokeRows env hids hrevoke

theorem verifyChildCRL {c : CrlRow} (hids : w.UniqueIds) (h : verifyChildCRL env fuel w c = some w')
    : Keeps w w' := by
  have hcert := verifyChildCRL_check_cert env w c
  unfold Sqhl.verifyChildCRL at h
  split at h
  . next w1 hcheck =>
    cases h
    rw [hcheck] at hcert
    exact .of_cert_eq hcert
  next w1 hcheck =>
  rw [hcheck] at hcert
  have hsame : SameValid w w1 := .of_cert_eq hcert
  refine (Keeps.of_cert_eq hcert).trans (revokeSerials env ?_ h)
  exact (hsame.revokes (P := fun _ => True)).ids.nodup hids

theorem verifyChildObjs (hids : w.UniqueIds) (hsigned : NoSigned w)
    (h : verifyChildObjs env fuel w data = some w') : Keeps w w' := by
  have hcrls := verifyChildObjs_of_noSigned hsigned h
  unfold verifyChildCrls at hcrls
  generalize w.crl.filter _ = crls at hcrls
  clear h hsigned
  induction crls generalizing w with
  | nil =>
    cases hcrls
    exact .refl _
  | cons _ crls ih =>
    rw [foldlM_cons, bind_eq_bind, bind_eq_some_iff] at hcrls
    obtain ⟨w1, hcrl, hcrls⟩ := hcrls
    have hchanges : Changes env w w1 := .verifyChildCRL hcrl
    exact (verifyChildCRL hids hcrl).trans (ih (hids.sublist hchanges.ids_sublist) hcrls)

end Keeps

theorem TrackInv.check {w₀ : World} {stack : List PropData} (hids : w₀.UniqueIds)
    (h : TrackInv w₀ w (data :: stack))
    (hcheck : verifyChildCert.check env fuel w data = some (goOn, w')) : TrackInv w₀ w' stack := by
  unfold verifyChildCert.check at hcheck
  split at hcheck
  . cases hcheck
    exact h.tail (.refl w)
  rw [bind_eq_bind, bind_eq_some_iff] at hcheck
  obtain ⟨⟨_, w1⟩, hverify, hcheck⟩ := hcheck
  have hkeeps : Keeps w w1 := .sameValid (.sameRows (.verifyCert hverify))
  have h1 : TrackInv w₀ w1 (data :: stack) := ⟨h.keeps.trans hkeeps, h.about⟩
  dsimp only at hcheck
  split at hcheck
  . cases hcheck
    exact h1.tail (Weakens.deleteWhere _ .cert _).keeps
  . cases hcheck
    exact h1.tail (h1.updateValidFlags hids true)

theorem Keeps.verifyChildren {aki issuer : Option String} (hids : w.UniqueIds)
    (hsigned : NoSigned w) (h : verifyChildren env fuel w ski subject aki issuer certId = some w')
    : Keeps w w' := by
  obtain ⟨_, doIt, w1, hvisit, hloop⟩ := propagate_root h
  unfold verifyChildCert at hvisit
  simp only [Bool.false_eq_true, if_false, bind_eq_bind, bind_some, if_true,
    bind_eq_some_iff] at hvisit
  obtain ⟨w2, hobjs, hvisit⟩ := hvisit
  cases hvisit
  have hchanges1 : Changes env w w1 := .verifyChildObjs hobjs
  let inv (w2 : World) (stack : List PropData) : Prop := TrackInv w w2 stack ∧ Changes env w w2
  have hvisit : ∀ w2 data stack doIt w3, inv w2 (data :: stack)
      → verifyChildCert env fuel w2 data true = some (doIt, w3)
      → inv w3 (if doIt then (childrenSrch w3 data true).reverse ++ stack else stack) := by
    rintro w2 data stack doIt w3 ⟨hinv, hchanges⟩ hvisit
    have hchanges3 : Changes env w w3 := hchanges.trans (Changes.verifyChildCert hvisit)
    refine ⟨?_, hchanges3⟩
    unfold verifyChildCert at hvisit
    rw [if_pos rfl, bind_eq_bind, bind_eq_some_iff] at hvisit
    obtain ⟨⟨_, w4⟩, hcheck, hvisit⟩ := hvisit
    have hinv4 := hinv.check hids hcheck
    have hchanges4 : Changes env w w4 := hchanges.trans (Changes.verifyChildCert_check hcheck)
    dsimp only at hvisit
    split at hvisit
    . rw [bind_eq_bind, bind_eq_some_iff] at hvisit
      obtain ⟨_, hobjs, hvisit⟩ := hvisit
      cases hvisit
      have hkeeps : Keeps w4 w3 := .verifyChildObjs (hids.sublist hchanges4.ids_sublist)
        ((Within.changes hchanges4).signed hsigned) hobjs
      exact TrackInv.push ⟨hinv4.keeps.trans hkeeps, hinv4.about⟩ data true
    . cases hvisit
      exact hinv4
  have hstart (data : PropData) : TrackInv w w1 (childrenSrch w1 data true).reverse :=
    .start (.verifyChildObjs hids hsigned hobjs) data true
  exact (propagate_invariant hvisit ⟨hstart _, hchanges1⟩ hloop).1.keeps

theorem Keeps.deleteObject_cert (env : Env) {id : Nat} {res : Except Err Unit} (hids : w.UniqueIds)
    (h : deleteObject.cert fuel w outfile id = some (res, w')) : Keeps w w' := by
  unfold deleteObject.cert at h
  split at h
  . cases h
    exact .refl w
  . rw [bind_eq_bind, bind_eq_some_iff] at h
    obtain ⟨_, hrevoke, h⟩ := h
    cases h
    exact (revokeRows env hids hrevoke).trans (Weakens.deleteWhere _ .cert _).keeps

structure Inserted (env : Env) (w : World) (x : X509) (ski subject : String) (utrust : Bool)
    (v : Verdict) (row : CertRow) (w' : World) : Prop where
  key : row.ident.key = (some ski, subject)
  parentKey : row.ident.parentKey = (x.aki, x.issuer)
  sn : row.ident.sn = x.sn
  trusted : row.ident.trusted = utrust
  valid : row.flags.valid = v.chainOK
  sigval : row.sigval = .unknown
  id : row.localId = w.nextId .cert
  eq : w' = { w with cert := insertAt (env.place .cert (w.objs .cert) row.toObj) row w.cert }

theorem addCert2_inserted {x : X509} {cf : CertFields} {id : Nat} {flags : Flags} {v : Verdict}
    {w1 w2 : World} (hfile : w.fs fullpath = some (.cert x)) (hcf : cert2fields filename x = .ok cf)
    (hcheck : addCert2.check env w cf x utrust fullpath = .ok flags)
    (hinsert : addCert2.insert env w1 { cf with flags := flags, dirid := id } v fullpath
      = .ok (row, w2))
    : ∃ ski subject, x.ski = some ski ∧ x.subject = some subject
      ∧ (utrust = true → (x.aki = none ∨ x.aki = some ski) ∧ subject = x.issuer)
      ∧ Inserted env w1 x ski subject utrust v row w2 := by
  obtain ⟨hnochain, htrusted, ski, hski, hself⟩ := addCert2_check_ok hfile hcf hcheck
  obtain ⟨subject, hsubject, rfl⟩ := cert2fields_eq_ok_iff.mp hcf
  obtain ⟨_, _, _, hstate, hinsert⟩ := addCert2_insert_eq_ok_iff.mp hinsert
  obtain ⟨_, _, _, hski', rfl, hw2⟩ := addCertInternal_eq_ok_iff.mp hinsert
  cases hski.symm.trans hski'
  obtain ⟨hvalid, htrusted'⟩ := addStateToFlags_ok hnochain hstate
  refine ⟨ski, subject, hski, hsubject, hself, ?_⟩
  constructor
  . rfl
  . rfl
  . rfl
  . exact htrusted'.trans htrusted
  . exact hvalid
  . rfl
  . rfl
  . exact hw2

end Rpstir.Sqhl
