import Rpstir.Sqhl.Lemmas.Invalidate

/-!
This module contains the effect of the revocations of a CRL on the certificate table.
-/

namespace Rpstir.Sqhl

open List Option

variable {env : Env}

def CertRow.status (r : CertRow) : CertIdent × Bool := (r.ident, r.flags.valid)

def SameValid (w w' : World) : Prop :=
  w'.cert.map CertRow.status = w.cert.map CertRow.status

variable {fuel lid : Nat} {P : CertIdent → Prop} {r row : CertRow} {sn : List UInt8}
  {issuer : String}

namespace SameValid

variable {w w' : World}

theorem of_cert_eq (hcert : w'.cert = w.cert) : SameValid w w' := by
  unfold SameValid
  rw [hcert]

theorem sameRows (h : SameRows w w') : SameValid w w' := h.map_cert _ fun _ => rfl

section

variable (h : SameValid w w')

include h

theorem exists_of_mem {r' : CertRow} (hr' : r' ∈ w'.cert)
    : ∃ r ∈ w.cert, r'.ident = r.ident ∧ r'.flags.valid = r.flags.valid := by
  have hmem : r'.status ∈ w'.cert.map CertRow.status := List.mem_map_of_mem hr'
  rw [h] at hmem
  obtain ⟨r, hr, heq⟩ := List.mem_map.mp hmem
  exact ⟨r, hr, (congrArg Prod.fst heq).symm, (congrArg Prod.snd heq).symm⟩

theorem exists_mem (hr : r ∈ w.cert)
    : ∃ r' ∈ w'.cert, r'.ident = r.ident ∧ r'.flags.valid = r.flags.valid := by
  obtain ⟨r', hr', heq, hvalid⟩ := exists_of_mem (w := w') h.symm hr
  exact ⟨r', hr', heq.symm, hvalid.symm⟩

theorem revokes : Revokes P w w' where
  ids := by
    have hids := congrArg (List.map fun s : CertIdent × Bool => s.1.localId) h
    rw [List.map_map, List.map_map] at hids
    change w'.cert.map (fun r => r.localId) = w.cert.map fun r => r.localId at hids
    rw [hids]
  weakens := by
    intro r' hr'
    obtain ⟨r, hr, heq, hvalid⟩ := h.exists_of_mem hr'
    refine ⟨r, hr, heq, ?_⟩
    rw [hvalid]
    exact id
  kept := by
    intro r hr _
    obtain ⟨r', hr', heq, hvalid⟩ := h.exists_mem hr
    refine ⟨r', hr', heq, ?_⟩
    rw [hvalid]
    exact id

theorem closed {B : Key → Prop} (hclosed : Closed B w) : Closed B w' :=
  (h.revokes (P := fun _ => True)).closed hclosed

theorem supported {r' : CertRow} (heq : r'.ident = r.ident) (hsup : Supported w r)
    : Supported w' r' := by
  rcases hsup with htrusted | ⟨_, hp, hparent⟩
  . exact .inl ((congrArg CertIdent.trusted heq).trans htrusted)
  . obtain ⟨p', hp', hpeq, hpvalid⟩ := h.exists_mem hp
    refine .inr ⟨p', hp', hpvalid.trans hparent.valid, ?_⟩
    rw [hpeq, heq]
    exact hparent.key

theorem localChain (hlocal : LocalChain w) : LocalChain w' := by
  intro _ hr' hvalid
  obtain ⟨r, hr, heq, hvalid'⟩ := h.exists_of_mem hr'
  exact h.supported heq (hlocal r hr (hvalid'.symm.trans hvalid))

end

theorem clearParaFlags (hids : w.UniqueIds) (h : SameValid w w') {a : CertAnsr}
    (ha : ∃ r ∈ w.cert, a.localId = r.localId ∧ a.flags = r.flags)
    : SameValid w (clearParaFlags w' a) := by
  unfold Sqhl.clearParaFlags
  split
  . refine Eq.trans ?_ h
    simp only [setCertFlag, World.updateByLid, List.map_map]
    apply map_congr_left
    intro r' hr'
    simp only [Function.comp_apply]
    split
    . next hid =>
      obtain ⟨r₀, hr0, hid0, hflags0⟩ := ha
      obtain ⟨r, hr, heq, hvalid⟩ := h.exists_of_mem hr'
      -- the ids are unique, so the row is the one that was selected
      have hrow : r = r₀ := by
        apply hids.eq hr hr0
        rw [← hid0, ← hid]
        exact (congrArg CertIdent.localId heq).symm
      have htrusted : r'.flags.has Flags.trusted = r.flags.has Flags.trusted :=
        congrArg CertIdent.trusted heq
      simp [CertRow.status, CertRow.ident, hflags0, ← hrow, htrusted, hvalid, trusted_clearPara,
        valid_clearPara]
    . rfl
  . exact h

end SameValid

variable {B : Key → Prop} {w w' : World}

theorem SameValid.findCertByAKI {w : World} (hids : w.UniqueIds) (ski : String)
    : SameValid w ((findCertByAKI w ski).1.foldl Sqhl.clearParaFlags (findCertByAKI w ski).2) := by
  refine foldlRecOn (motive := SameValid w) _ _ ?_ ?_
  . exact .of_cert_eq (SameDb.findCertByAKI w ski).cert
  . intro _ h _ ha
    obtain ⟨r, hr, _, hid, hflags⟩ := findCertByAKI_ansr ha
    exact h.clearParaFlags hids ⟨r, hr, hid, hflags⟩

theorem mem_deletebylid_cert {w : World}
    : r ∈ (w.deletebylid .cert lid).cert ↔ r ∈ w.cert ∧ r.localId ≠ lid := by
  simp [World.deletebylid, World.deleteWhere]

theorem Revokes.deletebylid {w : World} (hP : ∀ r ∈ w.cert, r.localId = lid → ¬P r.ident)
    : Revokes P w (w.deletebylid .cert lid) where
  ids := filter_sublist.map _
  weakens := .deleteWhere w .cert _
  kept := by
    intro r hr hPr
    refine ⟨r, mem_deletebylid_cert.mpr ⟨hr, ?_⟩, rfl, id⟩
    intro hid
    exact hP r hr hid hPr

-- the world after the first two steps of `revoke_cert_and_children`
theorem revokeCertAndChildren_eq (fuel : Nat) {w : World} (row : CertRow) (hids : w.UniqueIds)
    : ∃ w1, SameValid (w.deletebylid .cert row.localId) w1
      ∧ revokeCertAndChildren fuel w row
        = invalidateChildren fuel w1 row.ski row.subject row.localId := by
  refine ⟨_, ?_, rfl⟩
  dsimp only
  split
  . apply SameValid.findCertByAKI
    exact hids.sublist (filter_sublist.map _)
  . exact .of_cert_eq rfl

theorem revokeCertAndChildren_spec (hclosed : Closed B w) (hlocal : LocalChain w)
    (hrow : ∀ r ∈ w.cert, r.localId = row.localId → r.ident = row.ident) (hkey : B row.ident.key)
    (h : revokeCertAndChildren fuel w row = some w')
    : Revokes (fun i => ¬i.Below B ∧ i ≠ row.ident) w w' ∧ LocalChain w'
      ∧ ∀ r ∈ w'.cert, r.localId ≠ row.localId := by
  obtain ⟨w1, hsame, heq⟩ := revokeCertAndChildren_eq fuel row hclosed.ids
  rw [heq] at h
  have hdelete : Revokes (fun i => ¬i.Below B ∧ i ≠ row.ident) w w1 := by
    refine .trans (.deletebylid ?_) hsame.revokes
    intro r hr hid hP
    exact hP.2 (hrow r hr hid)
  have hsup : ∀ r ∈ w1.cert, r.flags.valid = true
      → Supported w1 r ∨ r.ident.parentKey = (some row.ski, row.subject) := by
    intro r1 hr1 hvalid
    obtain ⟨r, hr, hreq, hrvalid⟩ := hsame.exists_of_mem hr1
    have hr' := mem_deletebylid_cert.mp hr
    rcases hlocal r hr'.1 (hrvalid.symm.trans hvalid) with htrusted | ⟨p, hp, hparent⟩
    . exact .inl (.inl ((congrArg CertIdent.trusted hreq).trans htrusted))
    by_cases hid : p.localId = row.localId
    . right
      rw [hreq, ← hparent.key, hrow p hp hid]
      rfl
    . left
      apply hsame.supported hreq
      exact .inr ⟨p, mem_deletebylid_cert.mpr ⟨hp, hid⟩, hparent⟩
  obtain ⟨hrevokes, hlocal'⟩ := invalidateChildren_spec (hdelete.closed hclosed) hkey hsup h
  refine ⟨hdelete.trans (hrevokes.mono fun i hi => hi.1), hlocal', ?_⟩
  intro r' hr' hid
  obtain ⟨r1, hr1, heq1, _⟩ := hrevokes.weakens r' hr'
  obtain ⟨r, hr, hreq, _⟩ := hsame.exists_of_mem hr1
  apply (mem_deletebylid_cert.mp hr).2
  rw [← hid]
  exact (congrArg CertIdent.localId (heq1.trans hreq)).symm

theorem revokeRows_spec {w0 : World} (hids : w0.UniqueIds) {rows : List CertRow}
    (hclosed : Closed B w) (hlocal : LocalChain w) (hkeeps : Keeps w0 w)
    (hrows : ∀ row ∈ rows, row ∈ w0.cert ∧ B row.ident.key)
    (h : rows.foldlM (revokeCertAndChildren fuel) w = some w')
    : Revokes (fun i => ¬i.Below B ∧ ∀ row ∈ rows, i ≠ row.ident) w w' ∧ LocalChain w'
      ∧ ∀ row ∈ rows, ∀ r ∈ w'.cert, r.localId ≠ row.localId := by
  induction rows generalizing w with
  | nil =>
    cases h
    refine ⟨.of_cert_eq rfl, hlocal, ?_⟩
    intro row hrow
    cases hrow
  | cons row rows ih =>
    obtain ⟨_, hrevoke, h⟩ := bind_eq_some_iff.mp h
    obtain ⟨hmem, hkey⟩ := hrows row mem_cons_self
    have hrow : ∀ r ∈ w.cert, r.localId = row.localId → r.ident = row.ident := by
      intro r hr hid
      obtain ⟨_, hr0, heq⟩ := hkeeps r hr
      rw [heq, hids.eq hr0 hmem ((congrArg CertIdent.localId heq).symm.trans hid)]
    obtain ⟨hrevokes, hlocal1, hgone⟩ := revokeCertAndChildren_spec hclosed hlocal hrow hkey hrevoke
    obtain ⟨hrevokes', hlocal', hgone'⟩ := ih (hrevokes.closed hclosed) hlocal1
      (hkeeps.trans hrevokes.weakens.keeps) (fun row hrow => hrows row (mem_cons_of_mem _ hrow)) h
    refine ⟨?_, hlocal', ?_⟩
    . apply Revokes.trans
      . exact hrevokes.mono fun i hi => ⟨hi.1, hi.2 row mem_cons_self⟩
      . exact hrevokes'.mono fun i hi =>
          ⟨hi.1, fun row hrow => hi.2 row (mem_cons_of_mem _ hrow)⟩
    intro row' hrow' r hr
    rcases mem_cons.mp hrow' with rfl | hrow'
    . obtain ⟨r1, hr1, heq, _⟩ := hrevokes'.weakens r hr
      rw [show r.localId = r1.localId from congrArg CertIdent.localId heq]
      exact hgone r1 hr1
    . exact hgone' row' hrow' r hr

theorem isRevokedRow_iff {aki : String}
    : isRevokedRow issuer aki sn r = true
      ↔ r.ident.parentKey = (some aki, issuer) ∧ r.ident.sn = sn := by
  simp only [isRevokedRow, CertIdent.parentKey, CertRow.ident, Prod.mk.injEq, Bool.and_eq_true,
    decide_eq_true_eq]
  tauto

theorem revokeCertBySerial_spec {aki : Option String} (hclosed : Closed B w) (hlocal : LocalChain w)
    (hkey : B (aki, issuer)) (h : revokeCertBySerial fuel w issuer aki sn = some w')
    : Revokes (fun i => ¬i.Below B ∧ ¬(i.parentKey = (aki, issuer) ∧ i.sn = sn)) w w'
      ∧ LocalChain w' := by
  unfold revokeCertBySerial at h
  split at h
  . cases h
    exact ⟨.of_cert_eq rfl, hlocal⟩
  next aki =>
  split at h
  . cases h
    exact ⟨.of_cert_eq rfl, hlocal⟩
  obtain ⟨hrevokes, hlocal', _⟩ := revokeRows_spec hclosed.ids hclosed hlocal (.refl w)
    (fun row hrow => by
      rw [mem_filter, isRevokedRow_iff] at hrow
      refine ⟨hrow.1, hclosed.closed row hrow.1 ?_⟩
      rw [hrow.2.1]
      exact hkey) h
  refine ⟨hrevokes.mono ?_, hlocal'⟩
  rintro i ⟨hbelow, hlisted⟩
  refine ⟨hbelow, ?_⟩
  rintro row hrow rfl
  rw [mem_filter, isRevokedRow_iff] at hrow
  exact hlisted hrow.2

theorem revokeSerials_spec {x : X509Crl} (hclosed : Closed B w) (hlocal : LocalChain w)
    (hkey : B (x.aki, x.issuer)) (h : revokeSerials fuel w x = some w')
    : Revokes (fun i => ¬i.Below B ∧ ¬(i.parentKey = (x.aki, x.issuer) ∧ i.sn ∈ x.snlist)) w w'
      ∧ LocalChain w' := by
  unfold revokeSerials at h
  generalize x.snlist = snlist at h ⊢
  induction snlist generalizing w with
  | nil =>
    cases h
    exact ⟨.of_cert_eq rfl, hlocal⟩
  | cons sn snlist ih =>
    obtain ⟨_, hrevoke, h⟩ := bind_eq_some_iff.mp h
    obtain ⟨hrevokes, hlocal1⟩ := revokeCertBySerial_spec hclosed hlocal hkey hrevoke
    obtain ⟨hrevokes', hlocal'⟩ := ih (hrevokes.closed hclosed) hlocal1 h
    refine ⟨.trans (hrevokes.mono ?_) (hrevokes'.mono ?_), hlocal'⟩
    . rintro i ⟨hbelow, hlisted⟩
      refine ⟨hbelow, fun hi => hlisted ⟨hi.1, ?_⟩⟩
      rw [hi.2]
      exact mem_cons_self
    . rintro i ⟨hbelow, hlisted⟩
      exact ⟨hbelow, fun hi => hlisted ⟨hi.1, mem_cons_of_mem _ hi.2⟩⟩

end Rpstir.Sqhl
