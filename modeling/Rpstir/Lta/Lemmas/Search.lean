import Rpstir.Lta.Basic

/-!
This module contains which certificates a run of `search_downward` perforates.
-/

namespace Rpstir.Lta

open List Option

variable (env : Env)

def cutRanges (cert : Certificate) : Option (List IpRange × Nat) :=
  modifyRanges 1 (env.steps (mkCertranges cert)) env.ruleranges (mkCertranges cert)

def Changed (cert : Certificate) : Prop :=
  ∃ ranges changes, cutRanges env cert = some (ranges, changes + 1)

structure Child (parent : Certificate) (kid : CertAnsr) (child : Certificate) : Prop where
  found : ∃ pSKI, parent.ski = some pSKI ∧ kid ∈ env.findCertByAKI pSKI
  file : env.file kid.fullname = some child
  aki : child.aki = parent.ski
  issued : child.ski ≠ child.aki

inductive Descendant (top : Certificate) : Certificate → Prop where
  | child {kid : CertAnsr} {child : Certificate} (h : Child env top kid child) : Descendant top child
  | step {kid : CertAnsr} {child child' : Certificate} (habove : Descendant top child)
      (h : Child env child kid child') : Descendant top child'

structure IsEntry (kid : CertAnsr) (child : Certificate) (d : DoneCert) : Prop where
  ski : child.ski = some d.ski
  origID : d.origID = kid.localId
  origcert : d.origcert = child
  perf : d.perf &&& wasPerforatedThisBlk ≠ 0#32
  paracert : ∃ changes, cutRanges env child = some (d.paracert, changes + 1)

def Entered (d : DoneCert) : Prop :=
  ∃ parent kid child, Child env parent kid child ∧ IsEntry env kid child d

def IsDone (done : List DoneCert) (cert : Certificate) : Prop :=
  ∃ d ∈ done, cert.ski = some d.ski

/--
A certificate below `top` that is already done has been perforated with the rules of this block.
-/
def Fresh (top : Certificate) (done : List DoneCert) : Prop :=
  ∀ child, Descendant env top child → ∀ d ∈ done, child.ski = some d.ski →
    d.perf &&& wasPerforatedThisBlk ≠ 0#32

/--
Of the certificates that a search has found below `top`, those are done that are changed.
-/
def Closed (done : List DoneCert) (top : Certificate) (kids : List CertAnsr) : Prop :=
  ∀ kid ∈ kids, ∀ child, Child env top kid child → Changed env child → IsDone done child

/--
The certificates that are done have become more. The new ones are as `A` says, and with each of them
those of its children are done that are changed.
-/
structure Grows (A : DoneCert → Prop) (done done' : List DoneCert) : Prop where
  mem : ∀ d ∈ done, d ∈ done'
  new : ∀ d ∈ done', d ∈ done ∨ A d ∧ Closed env done' d.origcert env.rows

structure Extends (top : Certificate) (kids : List CertAnsr) (done done' : List DoneCert) : Prop
    extends Grows env (Entered env) done done' where
  kids : Closed env done' top kids

structure Env.Unfailing : Prop where
  file : ∀ a ∈ env.rows, env.file a.fullname ≠ none
  sign : ∀ cert ranges, env.signCert cert ranges = true

variable {env}

namespace Descendant

variable {top child child' : Certificate}

theorem trans (h : Descendant env top child) (h' : Descendant env child child')
    : Descendant env top child' := by
  induction h' with
  | child hchild => exact .step h hchild
  | step _ hchild ih => exact .step ih hchild

theorem exists_child (h : Descendant env top child) : ∃ parent kid, Child env parent kid child := by
  cases h with
  | child hchild => exact ⟨_, _, hchild⟩
  | step _ hchild => exact ⟨_, _, hchild⟩

end Descendant

section Grows

variable {A B : DoneCert → Prop} {top : Certificate} {kids kids' : List CertAnsr}
  {done done' done'' : List DoneCert}

theorem Closed.mono (h : Closed env done top kids) (hmem : ∀ d ∈ done, d ∈ done') : Closed env done' top kids := by
  intro kid hkid child hchild hchanged
  obtain ⟨d, hd, hski⟩ := h kid hkid child hchild hchanged
  exact ⟨d, hmem d hd, hski⟩

namespace Grows

theorem refl (done : List DoneCert) : Grows env A done done :=
  ⟨fun _ hd => hd, fun _ hd => .inl hd⟩

theorem trans (h : Grows env A done done') (h' : Grows env A done' done'') : Grows env A done done'' where
  mem d hd := h'.mem d (h.mem d hd)
  new d hd := by
    rcases h'.new d hd with hd | hd
    . exact (h.new d hd).imp_right fun hd => ⟨hd.1, hd.2.mono h'.mem⟩
    . exact .inr hd

theorem cons {d : DoneCert} (h : Grows env A (done ++ [d]) done') (hd : B d) (hAB : ∀ d, A d → B d)
    (hclosed : Closed env done' d.origcert env.rows) : Grows env B done done' where
  mem d hd := h.mem d (mem_append_left _ hd)
  new d' hd' := by
    rcases h.new d' hd' with hd' | hd'
    . rcases List.mem_append.mp hd' with hd' | hd'
      . exact .inl hd'
      . exact .inr (mem_singleton.mp hd' ▸ ⟨hd, hclosed⟩)
    . exact .inr ⟨hAB d' hd'.1, hd'.2⟩

end Grows

namespace Extends

theorem trans (h : Extends env top kids done done') (h' : Extends env top kids' done' done'')
    : Extends env top (kids ++ kids') done done'' :=
  ⟨h.toGrows.trans h'.toGrows, forall_mem_append.mpr ⟨h.kids.mono h'.mem, h'.kids⟩⟩

theorem fresh (h : Extends env top kids done done') {other : Certificate} (hfresh : Fresh env other done)
    : Fresh env other done' := by
  intro child hbelow d hd hski
  rcases h.new d hd with hd | ⟨⟨_, _, _, _, hentry⟩, -⟩
  . exact hfresh child hbelow d hd hski
  . exact hentry.perf

/--
The search below a child that has just been added is part of the search below its parent.
-/
theorem cons {kid : CertAnsr} {child : Certificate} {d : DoneCert} (hchild : Child env top kid child)
    (hd : IsEntry env kid child d) (h : Extends env child env.rows (done ++ [d]) done')
    : Extends env top [kid] done done' := by
  refine ⟨h.toGrows.cons ⟨_, kid, child, hchild, hd⟩ (fun _ h => h) (hd.origcert ▸ h.kids), ?_⟩
  rintro kid' hkid' child' hchild' -
  obtain rfl := mem_singleton.mp hkid'
  have hsame : child = child' := some.inj (hchild.file.symm.trans hchild'.file)
  exact ⟨d, h.mem d (by simp), hsame ▸ hd.ski⟩

end Extends

end Grows

section Search

variable {fuel : Nat} {s s' : State} {kid : CertAnsr} {cert top child : Certificate} {cSKI pSKI : String}
  {d : DoneCert}

theorem modifyParacert_some (henv : env.Unfailing) {ansr : Except Err Nat}
    (h : modifyParacert env 1 fuel cert s = some (ansr, s'))
    : ∃ changes, modifyRanges 1 fuel env.ruleranges s.certranges = some (s'.certranges, changes) ∧
        ansr = .ok changes ∧ s'.doneCerts = s.doneCerts := by
  simp only [modifyParacert, ne_eq, Nat.one_ne_zero, not_false_eq_true, decide_true, Bool.or_true,
    if_true] at h
  split at h
  . cases h
  next changes hmodify =>
  rw [if_pos (henv.sign _ _)] at h
  cases h
  exact ⟨changes, hmodify, rfl, rfl⟩

def filledCert (cSKI : String) (kid : CertAnsr) (cert : Certificate) : DoneCert :=
  ⟨cSKI, 0, kid.localId, cert, mkCertranges cert⟩

theorem fillDoneCert_some (h : fillDoneCert env s cSKI kid cert = some (d, s'))
    : d = filledCert cSKI kid cert ∧ s' = { s with certranges := mkCertranges cert } := by
  unfold fillDoneCert mkParacert at h
  split at h
  . cases h
  next hmk =>
  split at hmk
  . cases hmk
  split at hmk
  . cases hmk
  cases hmk
  cases h
  exact ⟨rfl, rfl⟩

theorem extends_single {done : List DoneCert} (h : env.file kid.fullname = some child)
    (hdone : Child env top kid child → Changed env child → IsDone done child)
    : Extends env top [kid] done done := by
  refine ⟨.refl done, fun kid' hkid' child' hchild hchanged => ?_⟩
  obtain rfl := mem_singleton.mp hkid'
  have hsame : child = child' := some.inj (h.symm.trans hchild.file)
  subst hsame
  exact hdone hchild hchanged

section Kids

variable {search : Certificate → State → Option (Except Err Unit × State)} {ansr : Except Err Unit}
  (henv : env.Unfailing)
  (hsearch : ∀ {cert s ansr s'}, search cert s = some (ansr, s') → Fresh env cert s.doneCerts →
    ansr = .ok () ∧ Extends env cert env.rows s.doneCerts s'.doneCerts)

include henv hsearch

theorem fresh_extends (hchild : Child env top kid child) (hcSKI : child.ski = some cSKI)
    (hfresh : Fresh env top s.doneCerts)
    (h : searchDownward.fresh env search kid cSKI child s = some (ansr, s'))
    : ansr = .ok () ∧ Extends env top [kid] s.doneCerts s'.doneCerts := by
  unfold searchDownward.fresh at h
  split at h
  . cases h
  next hfill =>
  obtain ⟨rfl, rfl⟩ := fillDoneCert_some hfill
  split at h
  . cases h
  . next hmodify =>
    obtain ⟨_, _, herror, _⟩ := modifyParacert_some henv hmodify
    cases herror
  . next hmodify =>
    cases h
    obtain ⟨_, hcut, hok, hdone⟩ := modifyParacert_some henv hmodify
    cases hok
    refine ⟨rfl, hdone ▸ extends_single hchild.file ?_⟩
    rintro - ⟨_, _, hchanged⟩
    cases hcut.symm.trans hchanged
  . next changes s₁ hmodify =>
    obtain ⟨_, hcut, hok, hdone⟩ := modifyParacert_some henv hmodify
    cases hok
    have hflag : (0 ||| (wasPerforated ||| wasPerforatedThisBlk)) &&& wasPerforatedThisBlk ≠ 0#32 := by decide
    have hentry : IsEntry env kid child ((filledCert cSKI kid child).perforated s₁.certranges) :=
      ⟨hcSKI, rfl, rfl, hflag, ⟨changes, hcut⟩⟩
    have hadded : Fresh env child
        (s₁.addDoneCert ((filledCert cSKI kid child).perforated s₁.certranges)).doneCerts := by
      intro child' hbelow d hd hski
      rcases List.mem_append.mp hd with hd | hd
      . exact hfresh child' (.trans (.child hchild) hbelow) d (hdone ▸ hd) hski
      . rw [mem_singleton.mp hd]
        exact hentry.perf
    obtain ⟨rfl, hextends⟩ := hsearch h hadded
    rw [State.addDoneCert, hdone] at hextends
    exact ⟨rfl, hextends.cons hchild hentry⟩

theorem kid_extends (htop : top.ski = some pSKI) (hkid : kid ∈ env.findCertByAKI pSKI)
    (hfresh : Fresh env top s.doneCerts)
    (h : searchDownward.kid env search pSKI kid s = some (ansr, s'))
    : ansr = .ok () ∧ Extends env top [kid] s.doneCerts s'.doneCerts := by
  unfold searchDownward.kid at h
  split at h
  . next hfile => exact absurd hfile (henv.file kid (mem_of_mem_filter hkid))
  next child hfile =>
  split at h
  . next cAKI cSKI haki hski =>
    split at h
    . next hkeys =>
      cases h
      refine ⟨rfl, extends_single hfile fun hchild _ => ?_⟩
      have hsame : cAKI = pSKI := some.inj (haki.symm.trans (hchild.aki.trans htop))
      have hissued := hchild.issued
      rw [hski, haki, ne_eq, some.injEq] at hissued
      simp [hsame ▸ hissued, hsame] at hkeys
    next hkeys =>
    simp only [ne_eq, Bool.or_eq_true, decide_eq_true_eq, not_or, not_not] at hkeys
    have hchild : Child env top kid child := by
      refine ⟨⟨pSKI, htop, hkid⟩, hfile, by rw [haki, htop, hkeys.1], ?_⟩
      rw [hski, haki, ne_eq, some.injEq]
      exact hkeys.2
    split at h
    . exact fresh_extends henv hsearch hchild hski hfresh h
    next d hhave =>
    have hd : d ∈ s.doneCerts := mem_of_find?_eq_some hhave
    have hdski : child.ski = some d.ski := by
      have hfound := find?_some hhave
      rw [decide_eq_true_eq] at hfound
      rw [hski, hfound]
    rw [if_pos (hfresh child (.child hchild) d hd hdski)] at h
    cases h
    exact ⟨rfl, extends_single hfile fun _ _ => ⟨d, hd, hdski⟩⟩
  . cases h

theorem kids_extends (htop : top.ski = some pSKI) {kids : List CertAnsr}
    (hkids : ∀ kid ∈ kids, kid ∈ env.findCertByAKI pSKI) (hfresh : Fresh env top s.doneCerts)
    (h : searchDownward.kids (searchDownward.kid env search pSKI) kids s = some (ansr, s'))
    : ansr = .ok () ∧ Extends env top kids s.doneCerts s'.doneCerts := by
  induction kids generalizing s with
  | nil =>
    cases h
    exact ⟨rfl, .refl _, forall_mem_nil _⟩
  | cons kid kids ih =>
    rw [forall_mem_cons] at hkids
    simp only [searchDownward.kids] at h
    split at h
    . cases h
    . next hkid =>
      obtain ⟨herror, _⟩ := kid_extends henv hsearch htop hkids.1 hfresh hkid
      cases herror
    . next hkid =>
      obtain ⟨_, hfirst⟩ := kid_extends henv hsearch htop hkids.1 hfresh hkid
      obtain ⟨hok, hrest⟩ := ih hkids.2 (hfirst.fresh hfresh) h
      exact ⟨hok, hfirst.trans hrest⟩

end Kids

theorem searchDownward_extends (henv : env.Unfailing) {ansr : Except Err Unit}
    (h : searchDownward env fuel top s = some (ansr, s')) (hfresh : Fresh env top s.doneCerts)
    : ansr = .ok () ∧ Extends env top env.rows s.doneCerts s'.doneCerts := by
  induction fuel generalizing top s ansr s' with
  | zero => cases h
  | succ fuel ih =>
    simp only [searchDownward] at h
    split at h
    . cases h
    next pSKI htop =>
    obtain ⟨hok, hextends⟩ := kids_extends henv ih htop (fun _ hkid => hkid) hfresh h
    refine ⟨hok, hextends.toGrows, fun kid _ child hchild => ?_⟩
    obtain ⟨_, hski, hkid⟩ := hchild.found
    cases htop.symm.trans hski
    exact hextends.kids kid hkid child hchild

end Search

end Rpstir.Lta
