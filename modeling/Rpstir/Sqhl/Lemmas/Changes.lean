import Rpstir.Data.Fold
import Rpstir.Sqhl.Lemmas.Verify
import Rpstir.Sqhl.Propagate

/-!
This module contains the decomposition of what verification and propagation do into single changes of
the database. None of them adds a row.
-/

namespace Rpstir.Sqhl

open List Option

inductive Change (env : Env) : World → World → Prop where
  | update {w : World} (tab : Table) (lid : Nat) (f : Obj → Obj)
      (hf : ∀ o, ∃ flags hash, f o = { o with flags := flags, hash := hash })
      : Change env w (w.updateByLid tab lid f)
  | delete {w : World} (tab : Table) (p : Obj → Bool) : Change env w (w.deleteWhere tab p)
  | verify {w : World} (x : X509) (pkey : PKey) : Change env w (localVerify env w x pkey).2
  | roaSigval {w : World} (ski : Option String) (valu : SigVal)
      : Change env w (setRoaSigval w ski valu)
  | sameDb {w w' : World} (h : SameDb w w') : Change env w w'

abbrev Changes (env : Env) : World → World → Prop := Relation.ReflTransGen (Change env)

variable {visit : World → PropData → Bool → Option (Bool × World)} {doVerify : Bool}
  {stack : List PropData} {lid : Nat} {ski subject : String}

section PropagateRel

variable {r : World → World → Prop} (hrefl : ∀ w, r w w)
variable (htrans : ∀ {w1 w2 w3}, r w1 w2 → r w2 w3 → r w1 w3)

include hrefl htrans

theorem rel_propagate (hvisit : ∀ w data b doIt w', visit w data b = some (doIt, w') → r w w')
    {fuel : Nat} {w w' : World} {isRoot : Bool}
    (h : propagate visit doVerify fuel w isRoot stack = some w') : r w w' := by
  induction fuel generalizing w isRoot stack with
  | zero =>
    cases stack with
    | nil =>
      cases h
      apply hrefl
    | cons => cases h
  | succ fuel ih =>
    cases stack with
    | nil =>
      cases h
      apply hrefl
    | cons =>
      rw [propagate] at h
      obtain ⟨⟨doIt, _⟩, hv, h⟩ := bind_eq_some_iff.mp h
      apply htrans (hvisit _ _ _ _ _ hv)
      apply ih h

end PropagateRel

theorem propagate_invariant {inv : World → List PropData → Prop}
    (hvisit : ∀ w data stack doIt w', inv w (data :: stack) → visit w data true = some (doIt, w')
      → inv w' (if doIt then (childrenSrch w' data doVerify).reverse ++ stack else stack))
    {fuel : Nat} {w w' : World} (hinv : inv w stack)
    (h : propagate visit doVerify fuel w false stack = some w') : inv w' [] := by
  induction fuel generalizing w stack with
  | zero =>
    cases stack with
    | nil =>
      cases h
      exact hinv
    | cons => cases h
  | succ fuel ih =>
    cases stack with
    | nil =>
      cases h
      exact hinv
    | cons =>
      rw [propagate] at h
      obtain ⟨⟨doIt, _⟩, hv, h⟩ := bind_eq_some_iff.mp h
      apply ih _ h
      apply hvisit _ _ _ _ _ hinv hv

theorem propagate_root {fuel : Nat} {w w' : World} {root : PropData}
    (h : propagate visit doVerify fuel w true [root] = some w')
    : ∃ fuel' doIt w1, visit w root false = some (doIt, w1)
      ∧ propagate visit doVerify fuel' w1 false
        (if doIt then (childrenSrch w1 root doVerify).reverse else []) = some w' := by
  cases fuel with
  | zero => cases h
  | succ fuel =>
    rw [propagate] at h
    obtain ⟨⟨doIt, w1⟩, hv, h⟩ := bind_eq_some_iff.mp h
    refine ⟨fuel, doIt, w1, hv, ?_⟩
    simpa using h

variable {env : Env}

namespace Changes

variable {w w' : World}

theorem refl (w : World) : Changes env w w := Relation.ReflTransGen.refl

theorem sameDb (h : SameDb w w') : Changes env w w' :=
  .single (.sameDb h)

theorem foldl {α : Type} {f : World → α → World} {l : List α}
    (hf : ∀ a ∈ l, ∀ w, Changes env w (f w a)) (w : World) : Changes env w (l.foldl f w) :=
  preorder_foldl refl .trans hf w

theorem foldlM {α : Type} {f : World → α → Option World} {l : List α}
    (hf : ∀ a ∈ l, ∀ w w', f w a = some w' → Changes env w w')
    (h : l.foldlM f w = some w') : Changes env w w' :=
  preorder_foldlM refl .trans hf h

theorem verifyCert {fuel : Nat} {x : X509} {isTrusted : Bool}
    {ski subject : Option String} {v : Verdict}
    (h : verifyCert env fuel w x isTrusted ski subject = some (v, w')) : Changes env w w' :=
  rel_verifyCert refl .trans (fun _ x pkey => .single (.verify x pkey)) (fun _ _ => sameDb) h

theorem updateValidFlags (w : World) (tab : Table) (id : Nat) (prevFlags : Flags) (isValid : Bool)
    : Changes env w (updateValidFlags w tab id prevFlags isValid) :=
  .single (.update tab id _ fun _ => ⟨_, _, rfl⟩)

theorem invalidateObj (tab : Table) (IS AK : Option String) (w : World) (o : Obj)
    : Changes env w (invalidateObj tab IS AK w o) := by
  unfold Sqhl.invalidateObj
  split
  . apply refl
  . apply updateValidFlags

theorem invalidateChildRoas (w : World) (ski : String)
    : Changes env w (invalidateChildRoas w ski) :=
  foldl (fun _ _ _ => invalidateObj ..) w

theorem invalidateChildGbrs (w : World) (ski : String)
    : Changes env w (invalidateChildGbrs w ski) :=
  foldl (fun _ _ _ => invalidateObj ..) w

theorem invalidateChildMfts (w : World) (ski : String)
    : Changes env w (invalidateChildMfts w ski) :=
  foldl (fun _ _ _ => invalidateObj ..) w

theorem invalidateChildCrls (w : World) (ski subject : String)
    : Changes env w (invalidateChildCrls w ski subject) :=
  foldl (fun _ _ _ => invalidateObj ..) w

theorem invalidateChildObjs (w : World) (data : PropData)
    : Changes env w (invalidateChildObjs w data) := by
  unfold Sqhl.invalidateChildObjs
  apply (invalidateChildRoas w data.ski).trans
  apply (invalidateChildGbrs _ data.ski).trans
  apply (invalidateChildMfts _ data.ski).trans
  apply invalidateChildCrls

theorem invalidateChildCert (w : World) (data : PropData) (doUpdate : Bool)
    : Changes env w (invalidateChildCert w data doUpdate).2 := by
  unfold Sqhl.invalidateChildCert
  split
  . split
    . apply refl
    . apply (updateValidFlags ..).trans
      apply invalidateChildObjs
  . apply invalidateChildObjs

theorem invalidateChildren {fuel : Nat} (h : invalidateChildren fuel w ski subject lid = some w')
    : Changes env w w' := by
  apply rel_propagate refl .trans _ h
  intro w data b _ w' hvisit
  rw [some.injEq] at hvisit
  rw [← show (Sqhl.invalidateChildCert w data b).2 = w' by rw [hvisit]]
  apply invalidateChildCert

theorem clearParaFlags (w : World) (a : CertAnsr) : Changes env w (clearParaFlags w a) := by
  unfold Sqhl.clearParaFlags
  split
  . exact .single (.update .cert _ _ fun _ => ⟨_, _, rfl⟩)
  . apply refl

end Changes

theorem SameDb.findCertByAKI (w : World) (ski : String) : SameDb w (findCertByAKI w ski).2 := by
  have hinit : SameDb w w.initAKISrch := by
    unfold World.initAKISrch
    split
    . exact { SameDb.refl w with .. }
    . apply refl
  apply hinit.trans
  apply SameDb.fetchParent

theorem findCertByAKI_ansr {w : World} {a : CertAnsr} (ha : a ∈ (findCertByAKI w ski).1)
    : ∃ r ∈ w.cert, r.ski = ski ∧ a.localId = r.localId ∧ a.flags = r.flags := by
  have hcert : w.initAKISrch.cert = w.cert := by
    unfold World.initAKISrch
    split <;> rfl
  obtain ⟨r, hr, rfl⟩ := List.mem_map.mp ha
  simp only [mem_filter, hcert, isParentRow, Bool.and_eq_true, decide_eq_true_eq,
    some.injEq] at hr
  exact ⟨r, hr.1, hr.2.1.1, rfl, rfl⟩

namespace Changes

variable {w w' : World} {fuel : Nat}

variable {data : PropData} {row : CertRow} {aki : Option String}

theorem after_deletebylid (h : revokeCertAndChildren fuel w row = some w')
    : Changes env (w.deletebylid .cert row.localId) w' := by
  unfold Sqhl.revokeCertAndChildren at h
  refine .trans ?_ (invalidateChildren h)
  split
  . apply (sameDb (SameDb.findCertByAKI _ row.ski)).trans
    apply foldl fun _ _ _ => clearParaFlags ..
  . apply refl

theorem revokeCertAndChildren (h : revokeCertAndChildren fuel w row = some w') : Changes env w w' :=
  .trans (.single (.delete .cert fun o => o.localId = row.localId)) (after_deletebylid h)

theorem revokeCertBySerial {issuer : String} {sn : List UInt8}
    (h : revokeCertBySerial fuel w issuer aki sn = some w') : Changes env w w' := by
  unfold Sqhl.revokeCertBySerial at h
  split at h
  . cases h
    apply refl
  split at h
  . cases h
    apply refl
  . apply foldlM _ h
    intro _ _ w w' h
    apply revokeCertAndChildren h

theorem revokeSerials {x : X509Crl}
    (h : revokeSerials fuel w x = some w') : Changes env w w' := by
  apply foldlM _ h
  intro _ _ w w' h
  apply revokeCertBySerial h

theorem deleteBadHash {tab : Table} (h : deleteBadHash fuel w tab lid = some w')
    : Changes env w w' := by
  unfold Sqhl.deleteBadHash at h
  split at h
  . apply foldlM _ h
    intro _ _ w w' h
    apply revokeCertAndChildren h
  . cases h
    exact .single (.delete ..)

theorem updateManifestObj {fah : FileAndHash}
    (h : updateManifestObj env fuel w fah = some w') : Changes env w w' := by
  unfold Sqhl.updateManifestObj at h
  split at h
  . cases h
    apply refl
  split at h
  . cases h
    apply refl
  split at h
  . cases h
    apply refl
  split at h
  . cases h
    apply refl
  . split at h
    . cases h
      exact .single (.update _ _ _ fun _ => ⟨_, _, rfl⟩)
    . apply deleteBadHash h

theorem updateManifestObjs {l : List FileAndHash} {sta : Except Err Unit}
    (h : updateManifestObjs env fuel w l = some (sta, w')) : Changes env w w' := by
  induction l generalizing w with
  | nil =>
    cases h
    apply refl
  | cons _ l ih =>
    unfold Sqhl.updateManifestObjs at h
    split at h
    . cases h
      apply refl
    . obtain ⟨_, h1, h⟩ := bind_eq_some_iff.mp h
      apply (updateManifestObj h1).trans
      apply ih h

theorem verifyChildCRL_check (w : World) (row : CrlRow)
    : Changes env w (verifyChildCRL.check env w row).2 := by
  unfold verifyChildCRL.check
  split
  . next x _ =>
    split
    . apply refl
    apply (sameDb (SameDb.verifyCrl env w x x.aki (some x.issuer))).trans
    dsimp only
    split
    . exact .single (.delete .crl fun o => o.localId = row.localId)
    . exact updateValidFlags _ .crl row.localId row.flags true
  . apply refl

theorem verifyChildCRL {row : CrlRow}
    (h : verifyChildCRL env fuel w row = some w') : Changes env w w' := by
  have hcheck : Changes env w (verifyChildCRL.check env w row).2 := verifyChildCRL_check w row
  unfold Sqhl.verifyChildCRL at h
  split at h
  . next hres =>
    rw [hres] at hcheck
    cases h
    apply hcheck
  . next hres =>
    rw [hres] at hcheck
    apply hcheck.trans
    apply revokeSerials h

theorem verifyRoa (w : World) (x : Cms) (ski : Option String)
    : Changes env w (verifyRoa env w x ski).2 := by
  rcases verifyRoa_cases env w x ski with h | ⟨_, h, heq⟩
  . apply sameDb h
  . rw [heq]
    apply (sameDb h).trans
    exact .single (.roaSigval ski .valid)

theorem verifyChildROA (w : World) (row : RoaRow) : Changes env w (verifyChildROA env w row) := by
  unfold Sqhl.verifyChildROA
  split
  . next x _ =>
    split
    . apply refl
    apply (verifyRoa w x x.ski).trans
    dsimp only
    split
    . exact .single (.delete ..)
    . apply updateValidFlags
  . apply refl

theorem verifyChildManifest {row : ManifestRow}
    (h : verifyChildManifest env fuel w row = some w') : Changes env w w' := by
  unfold Sqhl.verifyChildManifest at h
  apply (updateValidFlags w .manifest row.localId row.flags true).trans
  dsimp only at h
  split at h
  . rw [map_eq_some_iff] at h
    obtain ⟨⟨_, _⟩, h, rfl⟩ := h
    apply updateManifestObjs h
  . cases h
    apply refl

theorem verifyChildObjs (h : verifyChildObjs env fuel w data = some w') : Changes env w w' := by
  unfold Sqhl.verifyChildObjs at h
  obtain ⟨w1, hcrls, hmfts⟩ := bind_eq_some_iff.mp h
  have hgbrs : Changes env w1 (verifyChildGbrs w1 data) :=
    foldl (fun _ _ _ => updateValidFlags ..) _
  have hroas : Changes env _ (verifyChildRoas env (verifyChildGbrs w1 data) data) :=
    foldl (fun _ _ _ => verifyChildROA ..) _
  apply (foldlM (fun _ _ _ _ => verifyChildCRL) hcrls).trans
  apply hgbrs.trans
  apply hroas.trans
  apply foldlM (fun _ _ _ _ => verifyChildManifest) hmfts

theorem verifyChildCert_check {goOn : Bool}
    (h : verifyChildCert.check env fuel w data = some (goOn, w')) : Changes env w w' := by
  unfold verifyChildCert.check at h
  split at h
  . cases h
    apply refl
  obtain ⟨⟨_, _⟩, hverify, h⟩ := bind_eq_some_iff.mp h
  apply (verifyCert hverify).trans
  dsimp only at h
  split at h
  . cases h
    exact .single (.delete ..)
  . cases h
    apply updateValidFlags

theorem verifyChildCert {doIt : Bool}
    (h : verifyChildCert env fuel w data doVerify = some (doIt, w')) : Changes env w w' := by
  unfold Sqhl.verifyChildCert at h
  obtain ⟨⟨_, w1⟩, hcheck, h⟩ := bind_eq_some_iff.mp h
  have hcheck : Changes env w w1 := by
    split at hcheck
    . apply verifyChildCert_check hcheck
    . cases hcheck
      apply refl
  apply hcheck.trans
  dsimp only at h
  split at h
  . obtain ⟨_, hobjs, h⟩ := bind_eq_some_iff.mp h
    cases h
    apply verifyChildObjs hobjs
  . cases h
    apply refl

theorem verifyChildren {issuer : Option String} {certId : Nat}
    (h : verifyChildren env fuel w ski subject aki issuer certId = some w') : Changes env w w' :=
  rel_propagate refl .trans (fun _ _ _ _ _ => verifyChildCert) h

end Changes

end Rpstir.Sqhl
