import Rpstir.Sqhl.Lemmas.Identity

/-!
This module contains the rule for invariants of a database to which no signed object is added.
-/

namespace Rpstir.Sqhl

open List Option

def Op.Adds (ok : World → X509 → String → String → Bool → Prop) (w : World) : Op → Prop
  | .addCert _ outfull _ utrust _ => ∀ x ski subject, w.fs outfull = some (.cert x)
      → x.ski = some ski → x.subject = some subject → ok w x ski subject utrust
  | .addRoa .. | .addManifest .. | .addGhostbusters .. => False
  | .findorcreatedir _ | .addCrl .. | .deleteObject .. | .outside .. => True

structure Preserved (env : Env) (ok : World → X509 → String → String → Bool → Prop)
    (P : World → Prop) : Prop where
  start : ∀ tdir fs now allowex, P (.start tdir fs now allowex)
  same : ∀ {w w' : World}, P w → w'.cert = w.cert → w'.roa = w.roa → w'.manifest = w.manifest
    → w'.gbr = w.gbr → P w'
  sameRows : ∀ {w w'}, P w → SameRows w w' → P w'
  deleteWhere : ∀ {w : World} {tab}, P w → tab ≠ .cert → ∀ p, P (w.deleteWhere tab p)
  deleteObject_cert : ∀ {w w' fuel outfile id res}, P w
    → deleteObject.cert fuel w outfile id = some (res, w') → P w'
  revokeSerials : ∀ {w w' fuel x}, P w → revokeSerials fuel w x = some w' → P w'
  constraining : ∀ {w x ski subject utrust}, ok w x ski subject utrust
    → ∀ c, ok { w with useParacerts := c } x ski subject utrust
  insert : ∀ {w w₁ w₂ fuel x ski subject utrust v row}, P w → ok w x ski subject utrust
    → (utrust = true → (x.aki = none ∨ x.aki = some ski) ∧ subject = x.issuer)
    → verifyCert env fuel w x utrust x.aki (some x.issuer) = some (v, w₁)
    → Inserted env w₁ x ski subject utrust v row w₂
    → P w₂ ∧ ∀ w₃, v.chainOK = true → verifyChildren env fuel w₂ row.ski row.subject row.aki
      (some row.issuer) row.localId = some w₃ → P w₃

namespace Preserved

variable {env : Env} {ok : World → X509 → String → String → Bool → Prop} {P : World → Prop}
  {w w' : World} {fuel : Nat} {res : Except Err Unit} (hP : Preserved env ok P)

include hP

section

variable (h : P w)

include h

theorem findorcreatedir (dirname : String) : P (findorcreatedir w dirname).2 := by
  unfold Sqhl.findorcreatedir
  split
  . exact h
  . exact hP.same h rfl rfl rfl rfl

variable {outfile outfull outdir : String} {id : Nat}

theorem addCrl (hadd : addCrl env fuel w outfile outfull id = some (res, w')) : P w' := by
  have hverified : ∀ x : X509Crl, P (verifyCrl env w x x.aki (some x.issuer)).2 :=
    fun x => hP.sameRows h (SameDb.verifyCrl env w x x.aki (some x.issuer)).sameRows
  have hinserted : ∀ {x w2}, addCrl.insert env (verifyCrl env w x x.aki (some x.issuer)).2 outfile
      outfull id x (verifyCrl env w x x.aki (some x.issuer)).1 = .ok w2 → P w2 := by
    intro x w2 hinsert
    obtain ⟨_, _, _, hinsert⟩ := addCrl_insert_eq_ok_iff.mp hinsert
    obtain ⟨_, _, rfl⟩ := addCrlInternal_eq_ok_iff.mp hinsert
    exact hP.same (hverified x) rfl rfl rfl rfl
  cases addCrl_cases hadd with
  | badCrl => exact h
  | refused => exact hverified _
  | chained _ _ hinsert _ hrevoke => exact hP.revokeSerials (hinserted hinsert) hrevoke
  | unchained _ _ hinsert => exact hinserted hinsert

theorem deleteObject (hdelete : deleteObject fuel w outfile outdir = some (res, w')) : P w' := by
  have hobject : ∀ {tab id}, tab ≠ .cert
      → deleteObject.signed fuel w tab outfile outdir id = some (res, w') → P w' := by
    intro tab id htab hdelete
    have h1 := hP.findorcreatedir (hP.deleteWhere h htab (isObj outfile id))
      (eeRoot (w.deleteWhere tab (isObj outfile id)))
    unfold deleteObject.signed at hdelete
    dsimp only at hdelete
    split at hdelete
    . cases hdelete
      exact h1
    . exact hP.deleteObject_cert h1 hdelete
  unfold Sqhl.deleteObject at hdelete
  split at hdelete
  . cases hdelete
    exact h
  split at hdelete
  . exact hP.deleteObject_cert h hdelete
  . exact hP.deleteObject_cert h hdelete
  . cases hdelete
    exact hP.deleteWhere h (by decide) _
  . exact hobject (by decide) hdelete
  . exact hobject (by decide) hdelete
  . exact hobject (by decide) hdelete

theorem addCert {utrust constraining : Bool} {res : Except Err CertRow}
    (hok : (Op.addCert outfile outfull id utrust constraining).Adds ok w)
    (hadd : addCert env fuel w outfile outfull id utrust constraining = some (res, w')) : P w' := by
  unfold Sqhl.addCert at hadd
  split at hadd
  . cases hadd
    exact h
  . next x hfile =>
    split at hadd
    . cases hadd
      exact h
    next cf hcf =>
    have h0 : P { w with useParacerts := constraining } := hP.same h rfl rfl rfl rfl
    have hinserted : ∀ {flags v w1 w2 row},
        addCert2.check env { w with useParacerts := constraining } cf x utrust outfull = .ok flags
        → verifyCert env fuel { w with useParacerts := constraining } x utrust cf.aki
          (some cf.issuer) = some (v, w1)
        → addCert2.insert env w1 { cf with flags := flags, dirid := id } v outfull = .ok (row, w2)
        → P w2 ∧ ∀ w3, v.chainOK = true → verifyChildren env fuel w2 row.ski row.subject row.aki
          (some row.issuer) row.localId = some w3 → P w3 := by
      intro flags v w1 w2 row hcheck hverify hinsert
      obtain ⟨ski, subject, hski, hsubject, hself, hrow⟩ :=
        addCert2_inserted (w := { w with useParacerts := constraining }) hfile hcf hcheck hinsert
      obtain ⟨_, _, rfl⟩ := cert2fields_eq_ok_iff.mp hcf
      exact hP.insert h0 (hP.constraining (hok x ski subject hfile hski hsubject) constraining) hself
        hverify hrow
    cases addCert2_cases hadd with
    | badCert => exact h0
    | refused _ hverify => exact hP.sameRows h0 (.verifyCert hverify)
    | chained hcheck hverify hinsert hchain hchildren =>
      exact (hinserted hcheck hverify hinsert).2 _ hchain hchildren
    | unchained hcheck hverify hinsert => exact (hinserted hcheck hverify hinsert).1
  . cases hadd
    exact h

theorem step {op : Op} (hok : op.Adds ok w) (hrun : op.run env fuel w = some w') : P w' := by
  cases op with
  | findorcreatedir dirname =>
    cases hrun
    exact hP.findorcreatedir h dirname
  | addCert =>
    obtain ⟨⟨res, w'⟩, hadd, rfl⟩ := map_eq_some_iff.mp hrun
    exact hP.addCert h hok hadd
  | addCrl =>
    obtain ⟨⟨res, w'⟩, hadd, rfl⟩ := map_eq_some_iff.mp hrun
    exact hP.addCrl h hadd
  | addRoa
  | addManifest
  | addGhostbusters => cases hok
  | deleteObject =>
    obtain ⟨⟨res, w'⟩, hdelete, rfl⟩ := map_eq_some_iff.mp hrun
    exact hP.deleteObject h hdelete
  | outside =>
    cases hrun
    exact hP.same h rfl rfl rfl rfl

end

theorem of_reachable {allowed : World → Op → Prop}
    (hallowed : ∀ {w op}, allowed w op → op.Adds ok w)
    (hreach : ((lts env).restrict allowed).Reachable w) : P w := by
  apply hreach.invariant
  . rintro w ⟨tdir, fs, now, allowex, rfl⟩
    exact hP.start tdir fs now allowex
  . rintro w op _ h ⟨hop, _, hrun⟩
    exact hP.step h (hallowed hop) hrun

end Preserved

end Rpstir.Sqhl
