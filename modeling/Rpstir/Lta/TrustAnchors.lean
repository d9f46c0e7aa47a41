import Mathlib.Data.List.Nodup
import Mathlib.Data.List.Pairwise
import Rpstir.Lta.Conflict
import Rpstir.Lta.Lemmas.Modify
import Rpstir.Lta.Lemmas.Search

/-!
This module contains which certificates below the trust anchors a run of `process_trust_anchors`
perforates.
-/

namespace Rpstir.Lta

open List Option

variable {env : Env}

/--
The trust anchors that are to be handled: neither the local trust anchor nor an ETA, which has no
resources, nor already done.
-/
structure ToHandle (env : Env) (s : State) (a : CertAnsr) : Prop where
  notLta : env.myrootfullname ≠ a.fullname
  notEta : ∀ cert, env.file a.fullname = some cert →
    cert.ipAddrBlock ≠ none ∨ cert.autonomousSysNum ≠ none
  notDone : s.isDone a.localId = false

def UnderAnchor (env : Env) (a : CertAnsr) (child : Certificate) : Prop :=
  ∃ cert, env.file a.fullname = some cert ∧ Descendant env cert child

section Resources

variable (env : Env) (rules : Resources) (res : Certificate → Resources)

def Conflicts (cert : Certificate) : Prop :=
  ∃ typ x, (res cert).Holds typ x ∧ rules.Holds typ x

/--
The search below the anchor came to its end, and every certificate below the anchor that is in conflict
with the rules has a paracertificate without the resources of the rules.
-/
structure Processed.Handled (p : Processed) (a : CertAnsr) : Prop where
  searched : (a.localId, .ok ()) ∈ p.searched
  perforated : ∀ child, UnderAnchor env a child → Conflicts rules res child →
    ∃ d ∈ p.state.doneCerts, child.ski = some d.ski ∧
      ∃ r : Resources, d.paracert = r.toList ∧ r.Diff (res child) rules

/--
What is known of the certificates below an anchor: they are not done before, the rules can be perforated out of
their ranges, and none holds more than the one above it.
-/
structure Regular (s : State) (a : CertAnsr) : Prop where
  untouched : ∀ child, UnderAnchor env a child → ¬IsDone s.doneCerts child
  ranges : ∀ child, UnderAnchor env a child → mkCertranges child = (res child).toList
  perforable : ∀ child, UnderAnchor env a child → ∀ typ, (res child).Perforable rules typ
  contained : ∀ parent kid child, UnderAnchor env a parent → Child env parent kid child →
    ∀ typ x, (res child).Holds typ x → (res parent).Holds typ x

end Resources

def SelfIssued (env : Env) (a : CertAnsr) : Prop :=
  a.aki = none ∨ ∀ cert, env.file a.fullname = some cert → cert.aki = cert.ski

def Env.skiOf (env : Env) (a : CertAnsr) : Option String :=
  (env.file a.fullname).bind Certificate.ski

structure Env.UniqueKeys (env : Env) : Prop where
  localId : (env.rows.map CertAnsr.localId).Nodup
  ski : ∀ a ∈ env.rows, ∀ b ∈ env.rows, env.skiOf a = env.skiOf b → env.skiOf a ≠ none → a = b

def DoneLast (env : Env) (s : State) (anchors : List CertAnsr) : Prop :=
  anchors.Pairwise fun a b => s.isDone a.localId = true → ¬ToHandle env s b

/--
A certificate that a run has added: an anchor, or one below an anchor.
-/
inductive Added (env : Env) (d : DoneCert) : Prop where
  | anchor {a : CertAnsr} (ha : a ∈ env.findTrustAnchors) (hfile : env.file a.fullname = some d.origcert)
      (hski : d.origcert.ski = some d.ski)
  | entered (h : Entered env d)

structure Adds (env : Env) (s₀ : State) (anchors : List CertAnsr) (s : State) (p : Processed) : Prop
    extends Grows env (Added env) s.doneCerts p.state.doneCerts where
  searched : ∀ a ∈ anchors, ToHandle env s₀ a → (a.localId, .ok ()) ∈ p.searched →
    ∃ cert, env.file a.fullname = some cert ∧ Closed env p.state.doneCerts cert env.rows
  doneLast : (∀ a ∈ anchors, ToHandle env s₀ a → (a.localId, .ok ()) ∈ p.searched) ↔ DoneLast env s₀ anchors

section Anchors

variable {fuel : Nat} {s₀ s s' : State} {a : CertAnsr} {anchors : List CertAnsr} {p : Processed}

theorem mem_rows_of_child {parent child : Certificate} {kid : CertAnsr} (h : Child env parent kid child)
    : kid ∈ env.rows ∧ kid.aki ≠ none := by
  obtain ⟨_, _, hkid⟩ := h.found
  obtain ⟨hmem, haki, -⟩ : kid ∈ env.rows ∧ kid.aki = some _ ∧ kid.flags.valid = true := by
    simpa [Env.findCertByAKI] using hkid
  exact ⟨hmem, by simp [haki]⟩

theorem ne_of_selfIssued (hself : SelfIssued env a) {parent child : Certificate} {kid : CertAnsr}
    (h : Child env parent kid child) : kid ≠ a := by
  rintro rfl
  rcases hself with haki | hkeys
  . exact (mem_rows_of_child h).2 haki
  . exact h.issued (hkeys child h.file).symm

/--
What the loop, begun in `s₀`, needs to know of the anchors that are still to come.
-/
structure Orderly (env : Env) (s₀ s : State) (anchors : List CertAnsr) : Prop where
  mem : ∀ a ∈ anchors, a ∈ env.findTrustAnchors
  nodup : (anchors.map CertAnsr.localId).Nodup
  isDone : ∀ a ∈ anchors, s.isDone a.localId = s₀.isDone a.localId
  fresh : ∀ a ∈ anchors, ToHandle env s₀ a → ∀ cert, env.file a.fullname = some cert →
    Fresh env cert s.doneCerts

theorem Orderly.tail (h : Orderly env s₀ s (a :: anchors)) : Orderly env s₀ s anchors where
  mem := forall_mem_of_forall_mem_cons h.mem
  nodup := (nodup_cons.mp (map_cons ▸ h.nodup)).2
  isDone := forall_mem_of_forall_mem_cons h.isDone
  fresh := forall_mem_of_forall_mem_cons h.fresh

/--
What the search below an anchor adds.
-/
structure Step (env : Env) (s₀ : State) (a : CertAnsr) (anchors : List CertAnsr) (s s' : State) : Prop
    extends Grows env (Added env) s.doneCerts s'.doneCerts where
  anchor : ∃ cert, env.file a.fullname = some cert ∧ Closed env s'.doneCerts cert env.rows
  localId_ne : ∀ b ∈ anchors, b.localId ≠ a.localId
  orderly : Orderly env s₀ s' anchors

inductive Round (env : Env) (fuel : Nat) (s₀ : State) (a : CertAnsr) (anchors : List CertAnsr) (s : State)
    : Processed → Prop where
  | done (hdone : s₀.isDone a.localId = true) : Round env fuel s₀ a anchors s ⟨.ok (), [], s⟩
  | skip {p : Processed} (hdone : s₀.isDone a.localId = false) (hskip : ¬ToHandle env s₀ a)
      (hrest : processTrustAnchors.go env fuel anchors s = some p) : Round env fuel s₀ a anchors s p
  | search {s' : State} {p : Processed} (hto : ToHandle env s₀ a) (hstep : Step env s₀ a anchors s s')
      (hrest : processTrustAnchors.go env fuel anchors s' = some p)
      : Round env fuel s₀ a anchors s { p with searched := (a.localId, .ok ()) :: p.searched }

section Run

variable (henv : env.Unfailing) (hkeys : env.UniqueKeys) (hself : ∀ a ∈ env.findTrustAnchors, SelfIssued env a)

include hkeys hself

theorem ski_ne_of_anchor (ha : a ∈ env.findTrustAnchors) {cert parent child : Certificate} {kid : CertAnsr}
    {ski : String} (hfile : env.file a.fullname = some cert) (hcert : cert.ski = some ski)
    (h : Child env parent kid child) : child.ski ≠ some ski := fun hchild =>
  ne_of_selfIssued (hself a ha) h (hkeys.ski kid (mem_rows_of_child h).1 a (mem_of_mem_filter ha)
    (by simp [Env.skiOf, h.file, hfile, hchild, hcert]) (by simp [Env.skiOf, h.file, hchild]))

include henv

theorem step_of_search {cert : Certificate} {cSKI : String} {ansr : Except Err Unit}
    (h : Orderly env s₀ s (a :: anchors)) (hto : ToHandle env s₀ a) (hfile : env.file a.fullname = some cert)
    (hski : cert.ski = some cSKI) {s₁ : State} (hs₁ : s₁.doneCerts = s.doneCerts ++ [filledCert cSKI a cert])
    (hsearch : searchDownward env fuel cert s₁ = some (ansr, s')) : ansr = .ok () ∧ Step env s₀ a anchors s s' := by
  have ha : a ∈ env.findTrustAnchors := h.mem a mem_cons_self
  have hanchor {other : Certificate} (hfresh : Fresh env other s.doneCerts) : Fresh env other s₁.doneCerts := by
    intro child hbelow d hd hskid
    rw [hs₁] at hd
    rcases List.mem_append.mp hd with hd | hd
    . exact hfresh child hbelow d hd hskid
    . obtain ⟨_, _, hchild⟩ := hbelow.exists_child
      rw [mem_singleton.mp hd] at hskid
      exact absurd hskid (ski_ne_of_anchor hkeys hself ha hfile hski hchild)
  obtain ⟨hok, hextends⟩ :=
    searchDownward_extends henv hsearch (hanchor (h.fresh a mem_cons_self hto cert hfile))
  have hne : ∀ b ∈ anchors, b.localId ≠ a.localId := fun b hb heq =>
    (nodup_cons.mp (map_cons ▸ h.nodup)).1 (heq ▸ List.mem_map_of_mem hb)
  have hgrows : Grows env (Added env) s.doneCerts s'.doneCerts :=
    (hs₁ ▸ hextends.toGrows).cons (.anchor ha hfile hski) (fun _ => .entered) hextends.kids
  refine ⟨hok, hgrows, ⟨cert, hfile, hextends.kids⟩, hne, h.tail.mem, h.tail.nodup, fun b hb => ?_, ?_⟩
  . have hb' := h.tail.mem b hb
    rw [← h.tail.isDone b hb, Bool.eq_iff_iff]
    simp only [State.isDone, List.any_eq_true, decide_eq_true_eq]
    refine ⟨fun ⟨d, hd, heq⟩ => ?_, fun ⟨d, hd, heq⟩ => ⟨d, hgrows.mem d hd, heq⟩⟩
    rcases hextends.new d hd with hd | ⟨⟨_, kid, _, hchild, hentry⟩, -⟩
    . rw [hs₁] at hd
      rcases List.mem_append.mp hd with hd | hd
      . exact ⟨d, hd, heq⟩
      . rw [mem_singleton.mp hd] at heq
        exact absurd heq.symm (hne b hb)
    . exact absurd (inj_on_of_nodup_map hkeys.localId (mem_rows_of_child hchild).1 (mem_of_mem_filter hb')
        (hentry.origID.symm.trans heq)) (ne_of_selfIssued (hself b hb') hchild)
  . exact fun b hb htob cert' hcert' => hextends.fresh (hanchor (h.tail.fresh b hb htob cert' hcert'))

theorem round_of_go (horderly : Orderly env s₀ s (a :: anchors))
    (h : processTrustAnchors.go env fuel (a :: anchors) s = some p) (hok : p.result = .ok ())
    : Round env fuel s₀ a anchors s p := by
  simp only [processTrustAnchors.go, horderly.isDone a mem_cons_self] at h
  split at h
  . next hdone =>
    cases h
    exact .done hdone
  next hdone =>
  have hdone : s₀.isDone a.localId = false := by simpa using hdone
  split at h
  . next hlta => exact .skip hdone (fun hto => hto.notLta hlta) h
  next hlta =>
  split at h
  . cases h
    cases hok
  next cert hfile =>
  split at h
  . next heta =>
    refine .skip hdone (fun hto => ?_) h
    have hext := hto.notEta cert hfile
    simp only [Bool.and_eq_true, isNone_iff_eq_none] at heta
    rcases hext with hip | has
    . exact hip heta.1
    . exact has heta.2
  next heta =>
  split at h
  . cases h
  next hski =>
  split at h
  . cases h
  next hfill =>
  obtain ⟨rfl, rfl⟩ := fillDoneCert_some hfill
  split at h
  . cases h
  next hsearch =>
  obtain ⟨_, hrest, rfl⟩ := map_eq_some_iff.mp h
  have hto : ToHandle env s₀ a := by
    refine ⟨hlta, fun cert' hcert' => ?_, hdone⟩
    rw [hfile, some.injEq] at hcert'
    subst hcert'
    simp only [Bool.and_eq_true, isNone_iff_eq_none] at heta
    exact Decidable.not_and_iff_or_not.mp heta
  obtain ⟨rfl, hstep⟩ := step_of_search henv hkeys hself horderly hto hfile hski rfl hsearch
  exact .search hto hstep hrest

theorem go_adds (h : Orderly env s₀ s anchors) (hrun : processTrustAnchors.go env fuel anchors s = some p)
    (hok : p.result = .ok ()) : Adds env s₀ anchors s p := by
  induction anchors generalizing s p with
  | nil =>
    cases hrun
    exact ⟨.refl _, forall_mem_nil _, by simp [DoneLast]⟩
  | cons a anchors ih =>
    have hfirst (hdone : s₀.isDone a.localId = false)
        : DoneLast env s₀ (a :: anchors) ↔ DoneLast env s₀ anchors := by
      simp [DoneLast, hdone]
    cases round_of_go henv hkeys hself h hrun hok with
    | done hdone =>
      -- the loop ends here, and nothing has been searched
      refine ⟨.refl _, fun _ _ _ h => absurd h not_mem_nil, ?_⟩
      rw [forall_mem_cons, DoneLast, pairwise_cons]
      constructor
      . rintro ⟨-, hrest⟩
        have hnot : ∀ b ∈ anchors, ¬ToHandle env s₀ b := fun b hb hto => not_mem_nil (hrest b hb hto)
        exact ⟨fun b hb _ => hnot b hb, pairwise_of_forall_mem_list fun b _ c hc _ => hnot c hc⟩
      . rintro ⟨hlast, -⟩
        refine ⟨fun hto => ?_, fun b hb hto => absurd hto (hlast b hb hdone)⟩
        rw [hto.notDone] at hdone
        cases hdone
    | skip hdone hskip hrest =>
      have hnew := ih h.tail hrest hok
      refine ⟨hnew.toGrows, forall_mem_cons.mpr ⟨fun hto => absurd hto hskip, hnew.searched⟩, ?_⟩
      rw [hfirst hdone, ← hnew.doneLast, forall_mem_cons]
      exact and_iff_right fun hto => absurd hto hskip
    | @search s' p hto hstep hrest =>
      have hnew := ih hstep.orderly hrest hok
      have hothers (b : CertAnsr) (hb : b ∈ anchors)
          : (b.localId, .ok ()) ∈ (a.localId, .ok ()) :: p.searched ↔ (b.localId, .ok ()) ∈ p.searched := by
        simp [hstep.localId_ne b hb]
      refine ⟨hstep.toGrows.trans hnew.toGrows, forall_mem_cons.mpr ⟨fun _ _ => ?_, fun b hb htob hsearched => ?_⟩, ?_⟩
      . obtain ⟨cert, hfile, hclosed⟩ := hstep.anchor
        exact ⟨cert, hfile, hclosed.mono hnew.mem⟩
      . exact hnew.searched b hb htob ((hothers b hb).mp hsearched)
      . rw [hfirst hto.notDone, ← hnew.doneLast, forall_mem_cons, and_iff_right fun _ => mem_cons_self]
        exact forall₂_congr fun b hb => by rw [hothers b hb]

end Run

section Perforation

variable {rules : Resources} {res : Certificate → Resources} {cert child : Certificate}

theorem entry_of_added (hkeys : env.UniqueKeys) (hself : ∀ a ∈ env.findTrustAnchors, SelfIssued env a)
    (hbelow : Descendant env cert child) {d : DoneCert} (hd : Added env d) (hski : child.ski = some d.ski)
    : ∃ kid, IsEntry env kid child d := by
  obtain ⟨_, kid, hchild⟩ := hbelow.exists_child
  cases hd with
  | anchor ha hfile hanchor => exact absurd hski (ski_ne_of_anchor hkeys hself ha hfile hanchor hchild)
  | entered h =>
    obtain ⟨_, kid', child', hchild', hentry⟩ := h
    obtain rfl := hkeys.ski kid' (mem_rows_of_child hchild').1 kid (mem_rows_of_child hchild).1
      (by simp [Env.skiOf, hchild'.file, hchild.file, hentry.ski, hski]) (by simp [Env.skiOf, hchild'.file, hentry.ski])
    obtain rfl : child = child' := some.inj (hchild.file.symm.trans hchild'.file)
    exact ⟨_, hentry⟩

theorem cutRanges_eq (hrules : rules.AreRules env.ruleranges) (hregular : Regular env rules res s a)
    (hchild : UnderAnchor env a child)
    : ∃ (r : Resources) (changes : Nat), r.Diff (res child) rules ∧ (Conflicts rules res child → changes ≠ 0) ∧
        cutRanges env child = some (r.toList, changes) := by
  rw [cutRanges, hregular.ranges child hchild]
  obtain ⟨r, changes, hdiff, hchanges, hrun⟩ := Resources.modifyRanges_eq hrules (hregular.perforable child hchild)
    (show _ < env.steps (res child).toList by rw [Env.steps]; omega)
  exact ⟨r, changes, hdiff, fun h hzero => hchanges hzero h, hrun⟩

theorem changed_of_conflicts (hrules : rules.AreRules env.ruleranges) (hregular : Regular env rules res s a)
    (hchild : UnderAnchor env a child) (h : Conflicts rules res child) : Changed env child := by
  obtain ⟨r, changes, -, hchanges, hrun⟩ := cutRanges_eq hrules hregular hchild
  obtain ⟨n, rfl⟩ := Nat.exists_eq_succ_of_ne_zero (hchanges h)
  exact ⟨_, n, hrun⟩

theorem handled_of_searched (hkeys : env.UniqueKeys) (hself : ∀ a ∈ env.findTrustAnchors, SelfIssued env a)
    (hrules : rules.AreRules env.ruleranges) (hregular : Regular env rules res s a)
    (hnew : Adds env s anchors s p) (ha : a ∈ anchors) (hto : ToHandle env s a)
    (hsearched : (a.localId, .ok ()) ∈ p.searched) : p.Handled env rules res a := by
  obtain ⟨cert, hfile, hclosed⟩ := hnew.searched a ha hto hsearched
  have hentry {child : Certificate} {d : DoneCert} (hbelow : Descendant env cert child)
      (hd : d ∈ p.state.doneCerts) (hski : child.ski = some d.ski)
      : (∃ kid, IsEntry env kid child d) ∧ Closed env p.state.doneCerts d.origcert env.rows := by
    rcases hnew.new d hd with hd | ⟨hadded, hclosed⟩
    . exact absurd ⟨d, hd, hski⟩ (hregular.untouched child ⟨_, hfile, hbelow⟩)
    . exact ⟨entry_of_added hkeys hself hbelow hadded hski, hclosed⟩
  -- along the way down, each certificate is in conflict because the one below it is
  have hdone {child : Certificate} (hbelow : Descendant env cert child)
      (hconflicts : Conflicts rules res child) : IsDone p.state.doneCerts child := by
    have hchanged := changed_of_conflicts hrules hregular ⟨_, hfile, hbelow⟩ hconflicts
    induction hbelow with
    | child hchild => exact hclosed _ (mem_rows_of_child hchild).1 _ hchild hchanged
    | step habove hchild ih =>
      obtain ⟨typ, x, hx, hrule⟩ := hconflicts
      have habove' := hregular.contained _ _ _ ⟨_, hfile, habove⟩ hchild typ x hx
      obtain ⟨d, hd, hski⟩ := ih ⟨typ, x, habove', hrule⟩
        (changed_of_conflicts hrules hregular ⟨_, hfile, habove⟩ ⟨typ, x, habove', hrule⟩)
      obtain ⟨⟨_, he⟩, hclosed⟩ := hentry habove hd hski
      exact hclosed _ (mem_rows_of_child hchild).1 _ (he.origcert.symm ▸ hchild) hchanged
  refine ⟨hsearched, fun child hchild hconflicts => ?_⟩
  obtain ⟨_, hfile', hbelow⟩ := hchild
  cases hfile.symm.trans hfile'
  obtain ⟨d, hd, hski⟩ := hdone hbelow hconflicts
  obtain ⟨⟨_, he⟩, -⟩ := hentry hbelow hd hski
  obtain ⟨r, _, hdiff, -, hrun⟩ := cutRanges_eq hrules hregular ⟨_, hfile, hbelow⟩
  obtain ⟨_, hpara⟩ := he.paracert
  rw [hrun, some.injEq, Prod.mk.injEq] at hpara
  exact ⟨d, hd, hski, r, hpara.1.symm, hdiff⟩

end Perforation

end Anchors

def sampleTa : CertAnsr := ⟨"/repo", "ta.cer", none, Flags.trusted ||| Flags.validated, 1⟩

def sampleCa : CertAnsr := ⟨"/repo", "ca.cer", some "AA", Flags.validated, 2⟩

def sampleDone : CertAnsr := ⟨"/repo", "done.cer", none, Flags.trusted ||| Flags.validated, 3⟩

def sampleSub : CertAnsr := ⟨"/repo", "sub.cer", some "BB", Flags.validated, 4⟩

def sampleCert (ski : String) (aki : Option String) (lo hi : Nat) : Certificate :=
  { oneCert lo hi with ski := some ski, aki := aki }

def sampleCaCert : Certificate := sampleCert "BB" (some "AA") 0x0a010000 0x0a01ffff

def sampleSubCert : Certificate := sampleCert "EE" (some "BB") 0x0a010080 0x0a0101ff

def sampleRules : Resources := oneResource 0x0a010000 0x0a0100ff (some 64500) (by decide) (by decide)

def sampleResources (cert : Certificate) : Resources :=
  if cert.ski = some "BB" then oneResource 0x0a010000 0x0a01ffff none (by decide) (by decide)
  else oneResource 0x0a010080 0x0a0101ff none (by decide) (by decide)

def sampleFile (fullname : String) : Option Certificate :=
  [("/repo/ta.cer", sampleCert "AA" none 0x0a000000 0x0affffff),
    ("/repo/ca.cer", sampleCaCert), ("/repo/sub.cer", sampleSubCert),
    ("/repo/done.cer", sampleCert "CC" none 0x0b000000 0x0bffffff)].lookup fullname

def sampleEnv (rows : List CertAnsr) : Env where
  rows := rows
  file := sampleFile
  myrootcert := ⟨some "DD", some "DD", none, none⟩
  myrootfullname := "/lta/root.cer"
  ruleranges := sampleRules.ranges
  resourceNounion := false
  signCert := fun _ _ => true

def sampleState : State where
  doneCerts := [⟨"CC", wasPerforated, 3, sampleCert "CC" none 0x0b000000 0x0bffffff,
    mkCertranges (oneCert 0x0b000000 0x0bffffff)⟩]
  certranges := []

theorem toHandle_sampleTa (rows : List CertAnsr) : ToHandle (sampleEnv rows) sampleState sampleTa where
  notLta := show "/lta/root.cer" ≠ sampleTa.fullname by decide
  notEta := by
    intro cert hcert
    cases (show sampleFile "/repo/ta.cer" = some cert from hcert)
    exact .inl (by decide)
  notDone := by decide

section Sample

abbrev sampleRows : List CertAnsr :=
  [sampleTa, sampleCa, sampleSub, sampleDone]

theorem child_sampleRows {parent child : Certificate} {kid : CertAnsr}
    (h : Child (sampleEnv sampleRows) parent kid child)
    : kid = sampleCa ∧ child = sampleCaCert ∨ kid = sampleSub ∧ child = sampleSubCert := by
  obtain ⟨hmem, haki⟩ := mem_rows_of_child h
  have hfile := h.file
  have hmem : kid = sampleTa ∨ kid = sampleCa ∨ kid = sampleSub ∨ kid = sampleDone := by
    simpa [sampleEnv] using hmem
  rcases hmem with rfl | rfl | rfl | rfl
  . exact absurd rfl haki
  . exact .inl ⟨rfl, (some.inj hfile).symm⟩
  . exact .inr ⟨rfl, (some.inj hfile).symm⟩
  . exact absurd rfl haki

theorem regular_sample : Regular (sampleEnv sampleRows) sampleRules sampleResources sampleState sampleTa := by
  have hunder {child : Certificate} (h : UnderAnchor (sampleEnv sampleRows) sampleTa child)
      : child = sampleCaCert ∨ child = sampleSubCert := by
    obtain ⟨_, _, hbelow⟩ := h
    obtain ⟨_, _, hchild⟩ := hbelow.exists_child
    exact (child_sampleRows hchild).imp And.right And.right
  constructor
  . rintro child hchild ⟨d, hd, hski⟩
    rw [mem_singleton.mp hd] at hski
    rcases hunder hchild with rfl | rfl <;> exact absurd hski (by decide)
  . intro child hchild
    rcases hunder hchild with rfl | rfl <;> rfl
  . intro child hchild typ r hr
    cases typ with
    | ipv4 => rcases hunder hchild with rfl | rfl <;> exact .inl (cons_ne_nil _ _)
    | asnum =>
      cases hr
      exact .inr ⟨by rcases hunder hchild with rfl | rfl <;> rfl, by decide⟩
    | ipv6
    | terminator => cases hr
  . intro parent kid child hparent hchild typ x
    have haki := hchild.aki
    rcases hunder hparent with rfl | rfl <;> rcases child_sampleRows hchild with ⟨-, rfl⟩ | ⟨-, rfl⟩
    . exact absurd haki (by decide)
    . rw [sampleResources, sampleResources, if_neg (by decide), if_pos (by decide), holds_oneResource, holds_oneResource]
      exact fun h => ⟨h.1, by omega⟩
    . exact absurd haki (by decide)
    . exact absurd haki (by decide)

end Sample

end Rpstir.Lta
