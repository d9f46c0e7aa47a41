import Rpstir.Sqhl.Lemmas.Basic
import Rpstir.Sqhl.Lemmas.Memo
import Rpstir.Sqhl.Lemmas.Steps

/-!
This module contains what an entry "valid" of the `sigval` column stands for in every reachable state,
and when `local_verify` agrees with `X509_verify`.
-/

namespace Rpstir.Sqhl

open List

variable {env : Env}

def Verified (env : Env) (w : World) (subject ski : String) : Prop :=
  ∃ c ∈ w.checked, c.1.subject = some subject ∧ c.1.ski = some ski ∧ env.x509Verify c.1 c.2 ≠ 0

def CacheSound (env : Env) (w : World) : Prop :=
  ∀ r ∈ w.cert, r.sigval = .valid → Verified env w r.subject r.ski

variable {w w' : World}

theorem Verified.mono {subject ski : String} (h : Verified env w subject ski)
    (hsub : w.checked ⊆ w'.checked) : Verified env w' subject ski := by
  obtain ⟨c, hc, h⟩ := h
  exact ⟨c, hsub hc, h⟩

section

variable (hinv : CacheSound env w)

include hinv

theorem CacheSound.cacheSigval {x : X509} {pkey : PKey} (hchecked : (x, pkey) ∈ w.checked)
    (hmok : env.x509Verify x pkey ≠ 0) : CacheSound env (x.cacheSigval w .valid) := by
  unfold X509.cacheSigval
  split
  . next hsubj hski =>
    intro r hr hvalid
    rw [setCertSigval, List.mem_map] at hr
    obtain ⟨_, hr0, hr⟩ := hr
    split at hr
    . next hkey =>
      simp only [CertRow.hasKey, Bool.and_eq_true, decide_eq_true_eq] at hkey
      rw [← hr]
      refine ⟨(x, pkey), hchecked, ?_, ?_, hmok⟩
      . rw [hsubj, hkey.2]
      . rw [hski, hkey.1]
    . rw [hr] at hr0
      apply hinv r hr0 hvalid
  . apply hinv

theorem CacheSound.localVerify (x : X509) (pkey : PKey)
    : CacheSound env (localVerify env w x pkey).2 := by
  have hlog : CacheSound env { w with checked := w.checked ++ [(x, pkey)] } := by
    intro r hr hvalid
    apply (hinv r hr hvalid).mono
    exact subset_append_left ..
  unfold Sqhl.localVerify
  split
  . apply hinv
  . apply hinv
  dsimp only
  split
  . next hmok =>
    apply hlog.cacheSigval _ hmok
    simp
  . apply hlog

theorem CacheSound.same (hcert : w'.cert = w.cert) (hchecked : w'.checked = w.checked)
    : CacheSound env w' := by
  intro r hr hvalid
  rw [hcert] at hr
  apply (hinv r hr hvalid).mono
  rw [hchecked]
  exact List.Subset.refl _

theorem CacheSound.change (hchange : Change env w w') : CacheSound env w' := by
  cases hchange with
  | update =>
    intro r hr hvalid
    obtain ⟨r₀, hr0, heq⟩ := World.mem_updateByLid_cert hr
    rw [heq] at hvalid ⊢
    apply (hinv r₀ hr0 hvalid).mono
    rw [World.updateByLid_checked]
    exact List.Subset.refl _
  | delete =>
    intro r hr hvalid
    apply (hinv r (World.mem_deleteWhere_cert hr) hvalid).mono
    rw [World.deleteWhere_checked]
    exact List.Subset.refl _
  | verify => apply hinv.localVerify
  | roaSigval => exact hinv.same rfl rfl
  | sameDb h => exact hinv.same h.cert h.checked

end

theorem CacheSound.step (hinv : CacheSound env w) (hstep : Step env w w') : CacheSound env w' := by
  cases hstep with
  | change hchange => exact hinv.change hchange
  | insert _ _ hsigval =>
    intro r hr hvalid
    rw [mem_insertAt] at hr
    rcases hr with rfl | hr
    . rw [hsigval] at hvalid
      cases hvalid
    . apply (hinv r hr hvalid).mono
      exact List.Subset.refl _
  | other hcert hchecked => exact hinv.same hcert hchecked

theorem cacheSound_of_reachable (hreach : (lts env).Reachable w) : CacheSound env w := by
  apply invariant_of_step hreach
  . intro w hcert _ hr
    rw [hcert] at hr
    cases hr
  . intro w _ hinv hstep
    apply hinv.step hstep

theorem CacheSound.cachedSigval (hinv : CacheSound env w) {x : X509} (hplain : x.Plain)
    (h : x.cachedSigval env w = .valid)
    : ∃ c ∈ w.checked, c.1.subject = x.subject ∧ c.1.ski = x.ski
      ∧ env.x509Verify c.1 c.2 ≠ 0 := by
  obtain ⟨r, hr, hnamed, hvalid⟩ := cachedSigval_eq hplain h (by decide)
  obtain ⟨c, hc, hcsubj, hcski, hmok⟩ := hinv r hr hvalid
  exact ⟨c, hc, hcsubj.trans hnamed.1.symm, hcski.trans hnamed.2.symm, hmok⟩

theorem localVerify_sound {w : World} (hreach : (lts env).Reachable w) (x : X509) (pkey : PKey)
    (hplain : x.Plain) (hkey : ∀ c ∈ w.checked, c.1.subject = x.subject → c.1.ski = x.ski
      → env.x509Verify c.1 c.2 ≠ 0 → c = (x, pkey))
    (hnonneg : 0 ≤ env.x509Verify x pkey) (h : 0 < (localVerify env w x pkey).1)
    : 0 < env.x509Verify x pkey := by
  unfold localVerify at h
  split at h
  . next hcached =>
    obtain ⟨c, hc, hsubj, hski, hmok⟩ := (cacheSound_of_reachable hreach).cachedSigval hplain hcached
    rw [hkey c hc hsubj hski hmok] at hmok
    dsimp only at hmok
    omega
  . cases h
  . dsimp only at h
    split at h
    . exact h
    . exact h

def cachedCa : X509 := X509.plain "A" "T" 2 1

def cachingRun : Option World :=
  plainRun
    [("T.cer", .cert (X509.plain "T" "T" 1 1)), ("A.cer", .cert cachedCa),
      ("C.cer", .cert (X509.plain "C" "A" 3 2))]
    [.addPlain "T.cer" true, .addPlain "A.cer" false, .addPlain "C.cer" false]

theorem localVerify_sound_cachedCa
    : ∃ w, (lts Env.plain).Reachable w ∧ cachedCa.Plain ∧ cachedCa.cachedSigval Env.plain w = .valid
      ∧ 0 < Env.plain.x509Verify cachedCa 1 := by
  have h : cachingRun.map (fun w => decide (cachedCa.cachedSigval Env.plain w = .valid
      ∧ (∀ c ∈ w.checked, c.1.subject = cachedCa.subject → c.1.ski = cachedCa.ski
        → Env.plain.x509Verify c.1 c.2 ≠ 0 → c = (cachedCa, 1))
      ∧ 0 < (localVerify Env.plain w cachedCa 1).1)) = some true := by decide
  obtain ⟨w, hrun, h⟩ := Option.map_eq_some_iff.mp h
  obtain ⟨hcached, hkey, hpos⟩ := of_decide_eq_true h
  have hreach := reachable_of_plainRun hrun
  have hplain : cachedCa.Plain := by decide
  exact ⟨w, hreach, hplain, hcached, localVerify_sound hreach cachedCa 1 hplain hkey (by decide) hpos⟩

theorem localVerify_accepts_unverified
    : ∃ w, (lts Env.plain).Reachable w ∧ ∃ x pkey, 0 < (localVerify Env.plain w x pkey).1
      ∧ ¬0 < Env.plain.x509Verify x pkey := by
  let forged := { cachedCa with sig := "forged", pubkey := some 4, body := 9 }
  have h : cachingRun.map (fun w => decide (0 < (localVerify Env.plain w forged 1).1))
      = some true := by decide
  obtain ⟨w, hrun, h⟩ := Option.map_eq_some_iff.mp h
  exact ⟨w, reachable_of_plainRun hrun, forged, 1, of_decide_eq_true h, by decide⟩

end Rpstir.Sqhl
