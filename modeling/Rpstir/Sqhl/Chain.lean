import Rpstir.Sqhl.Lemmas.Verify

/-!
This module contains which row `parent_cert` decides for, and which rows are the way from an object to a
trust anchor.
-/

namespace Rpstir.Sqhl

open List Option

def parentRows (w : World) (ski subject : Option String) : List CertRow :=
  w.cert.filter (isParentRow ski subject)

/--
The row that `parent_cert` decides for among the validated rows with the key it looks for. It gives
up on a single row that has been superseded by a paracertificate, on two rows that conflict, and on
three rows or more.
-/
def pickRow (w : World) : List CertRow → Option CertRow
  | [r] => if r.flags.has (Flags.istarget ||| Flags.hasparacert) then none else some r
  | [r₀, r₁] =>
    if (r₀.flags &&& paraFlags).has (r₁.flags &&& paraFlags) || w.certSrch = .byAKI then
      none
    else if (w.useParacerts && r₀.flags.has Flags.isparacert)
        || (!w.useParacerts && !r₀.flags.has Flags.isparacert) then
      some r₀
    else
      some r₁
  | _ => none

variable {fuel : Nat} {v : Verdict} {env : Env}

theorem mem_of_pickRow {w : World} {rows : List CertRow} {r : CertRow}
    (h : pickRow w rows = some r) : r ∈ rows := by
  unfold pickRow at h
  split at h
  . rw [ite_none_left_eq_some, some.injEq] at h
    simp [h.2]
  . rw [ite_none_left_eq_some] at h
    have h := h.2
    split at h
    . simp [some.inj h]
    . simp [some.inj h]
  . cases h

structure ParentRow (w : World) (ski subject : Option String) (r : CertRow) : Prop where
  pick : pickRow w (parentRows w ski subject) = some r
  readable : ∃ x, readCertFromFile w (w.path r.toObj) = some x

inductive LeadsToAnchor (w : World) : Option String → Option String → Prop where
  | anchor {ski subject : Option String} {r : CertRow} (hparent : ParentRow w ski subject r)
      (htrusted : r.flags.has Flags.trusted = true) : LeadsToAnchor w ski subject
  | parent {ski subject : Option String} {r : CertRow} (hparent : ParentRow w ski subject r)
      (htrusted : r.flags.has Flags.trusted = false) (hsrch : w.certSrch ≠ .byAKI)
      (hnext : LeadsToAnchor w (some (r.aki.getD "")) (some r.issuer))
      : LeadsToAnchor w ski subject

structure SameParents (w w' : World) : Prop extends SameDb w w' where
  byAKI : w'.certSrch = .byAKI ↔ w.certSrch = .byAKI

namespace SameParents

variable {w w' w'' : World}

theorem symm (h : SameParents w w') : SameParents w' w where
  dir := h.dir.symm
  cert := h.cert.symm
  crl := h.crl.symm
  roa := h.roa.symm
  manifest := h.manifest.symm
  gbr := h.gbr.symm
  tdir := h.tdir.symm
  fs := h.fs.symm
  now := h.now.symm
  allowex := h.allowex.symm
  useParacerts := h.useParacerts.symm
  checked := h.checked.symm
  byAKI := h.byAKI.symm

theorem initParentSrch (w : World) : SameParents w w.initParentSrch := by
  refine { SameDb.initParentSrch w with byAKI := ?_ }
  unfold World.initParentSrch
  split
  . next h => simp [h]
  . rfl

theorem fetchParent (w : World) (ansrs : List CertAnsr)
    : SameParents w (w.fetchParent ansrs) := by
  refine { SameDb.fetchParent w ansrs with byAKI := ?_ }
  unfold World.fetchParent
  split
  . next h _ => simp [h]
  . rfl

theorem parentCert_choose (w : World) (ansrs : List CertAnsr)
    : SameParents w (parentCert.choose w ansrs).2 := by
  refine { SameDb.parentCert_choose w ansrs with byAKI := ?_ }
  unfold parentCert.choose
  split
  . split
    . rfl
    . rfl
  . split
    . rfl
    . dsimp only
      split
      . next h => simp [h]
      . rfl
  . rfl

theorem trans (h : SameParents w w') (h' : SameParents w' w'') : SameParents w w'' where
  toSameDb := h.toSameDb.trans h'.toSameDb
  byAKI := h'.byAKI.trans h.byAKI

theorem parentCert (w : World) (ski subject : Option String)
    : SameParents w (parentCert w ski subject).2 := by
  apply (initParentSrch w).trans
  apply (fetchParent _ _).trans
  apply parentCert_choose

variable (h : SameParents w w')

include h

theorem parentRows (ski subject : Option String)
    : parentRows w' ski subject = parentRows w ski subject := by
  unfold Sqhl.parentRows
  rw [h.cert]

theorem pickRow (rows : List CertRow) : pickRow w' rows = pickRow w rows := by
  unfold Sqhl.pickRow
  simp only [h.byAKI, h.useParacerts]

theorem parentRow {ski subject : Option String} {r : CertRow} (hparent : ParentRow w ski subject r)
    : ParentRow w' ski subject r where
  pick := by
    rw [h.parentRows, h.pickRow]
    exact hparent.pick
  readable := by
    rw [h.path, h.readCertFromFile]
    exact hparent.readable

theorem leadsToAnchor {ski subject : Option String} (hleads : LeadsToAnchor w ski subject)
    : LeadsToAnchor w' ski subject := by
  induction hleads with
  | anchor hparent htrusted => exact .anchor (h.parentRow hparent) htrusted
  | parent hparent htrusted hsrch _ ih =>
    refine .parent (h.parentRow hparent) htrusted ?_ ih
    rw [ne_eq, h.byAKI]
    exact hsrch

end SameParents

variable {ski subject : Option String} {w : World}

def pickParent (w : World) (rows : List CertRow) : Option Parent :=
  (pickRow w rows).bind fun r =>
    (readCertFromFile w (w.path r.toObj)).map fun x => ⟨x, r.flags, w.path r.toObj⟩

theorem SameParents.pickParent {w w' : World} (h : SameParents w w') (rows : List CertRow)
    : pickParent w' rows = pickParent w rows := by
  unfold Sqhl.pickParent
  rw [h.pickRow]
  congr 1
  funext r
  rw [h.path, h.readCertFromFile]

theorem addCert2List_read {w w' : World} (h : SameDb w w') (r : CertRow)
    : (addCert2List w r).read w'
      = (readCertFromFile w (w.path r.toObj)).map fun x => ⟨x, r.flags, w.path r.toObj⟩ := by
  unfold CertAnsr.read addCert2List
  rw [h.readCertFromFile]

theorem World.initParentSrch_ne_unset (w : World) : w.initParentSrch.certSrch ≠ .unset := by
  unfold World.initParentSrch
  split
  . simp
  . assumption

theorem findParentCert_eq (w : World) (ski subject : Option String)
    : findParentCert w ski subject
      = ((parentRows w ski subject).map (addCert2List w.initParentSrch),
        w.initParentSrch.fetchParent
          ((parentRows w ski subject).map (addCert2List w.initParentSrch))) := by
  rw [← (SameParents.initParentSrch w).parentRows]
  rfl

theorem World.fetchParent_parent {aki issuer : String} (h : w.certSrch = .parent aki issuer)
    (rows : List CertRow) (r : CertRow)
    : w.fetchParent ((rows ++ [r]).map (addCert2List w))
      = { w with certSrch := .parent (r.aki.getD "") r.issuer } := by
  simp [World.fetchParent, h, addCert2List]

theorem World.fetchParent_byAKI (h : w.certSrch = .byAKI) (ansrs : List CertAnsr)
    : w.fetchParent ansrs = w := by
  simp [World.fetchParent, h]

theorem parentCert_choose_singleton (hset : w.certSrch ≠ .unset) (r : CertRow)
    : (parentCert.choose (w.fetchParent [addCert2List w r]) [addCert2List w r]).1
        = pickParent w [r]
      ∧ (w.certSrch ≠ .byAKI →
        (parentCert.choose (w.fetchParent [addCert2List w r]) [addCert2List w r]).2.certSrch
          = .parent (r.aki.getD "") r.issuer) := by
  have hread := addCert2List_read (SameDb.fetchParent w [addCert2List w r]) r
  have hflags : (addCert2List w r).flags = r.flags := rfl
  simp only [parentCert.choose, pickParent, pickRow, hflags]
  constructor
  . split
    . rfl
    . exact hread
  intro _
  cases hs : w.certSrch with
  | unset
  | byAKI => contradiction
  | parent =>
    have hfetch : w.fetchParent [addCert2List w r]
        = { w with certSrch := .parent (r.aki.getD "") r.issuer } :=
      World.fetchParent_parent hs [] r
    rw [hfetch]
    split
    . rfl
    . rfl

theorem parentCert_choose_pair (hset : w.certSrch ≠ .unset) (r₀ r1 : CertRow)
    : (parentCert.choose (w.fetchParent [addCert2List w r₀, addCert2List w r1])
        [addCert2List w r₀, addCert2List w r1]).1 = pickParent w [r₀, r1]
      ∧ ∀ r, pickRow w [r₀, r1] = some r →
        (parentCert.choose (w.fetchParent [addCert2List w r₀, addCert2List w r1])
          [addCert2List w r₀, addCert2List w r1]).2.certSrch
          = .parent (r.aki.getD "") r.issuer := by
  cases hs : w.certSrch with
  | unset => contradiction
  | byAKI =>
    rw [World.fetchParent_byAKI hs]
    simp [parentCert.choose, pickParent, pickRow, hs]
  | parent =>
    have hfetch : w.fetchParent [addCert2List w r₀, addCert2List w r1]
        = { w with certSrch := .parent (r1.aki.getD "") r1.issuer } :=
      World.fetchParent_parent hs [r₀] r1
    rw [hfetch]
    have hread (r : CertRow)
        : (addCert2List w r).read { w with certSrch := .parent (r.aki.getD "") r.issuer }
          = (readCertFromFile w (w.path r.toObj)).map fun x => ⟨x, r.flags, w.path r.toObj⟩ := by
      apply addCert2List_read
      exact { SameDb.refl w with .. }
    have haki (r : CertRow) : (addCert2List w r).aki = r.aki.getD "" := by
      simp [addCert2List, hs]
    have hissuer (r : CertRow) : (addCert2List w r).issuer = r.issuer := by
      simp [addCert2List, hs]
    have hflags (r : CertRow) : (addCert2List w r).flags = r.flags := rfl
    simp only [parentCert.choose, pickParent, pickRow, hs, hflags]
    split
    . next hconflict => simp [hconflict]
    next hconflict =>
    simp only [hconflict, reduceCtorEq, decide_false, Bool.or_false, Bool.false_eq_true, if_false]
    split
    . simp [haki, hissuer, hread]
    . simp [haki, hissuer, hread]

theorem parentCert_choose_eq (hset : w.certSrch ≠ .unset) (rows : List CertRow)
    : (parentCert.choose (w.fetchParent (rows.map (addCert2List w)))
        (rows.map (addCert2List w))).1 = pickParent w rows
      ∧ ∀ r, pickRow w rows = some r → w.certSrch ≠ .byAKI
        → (parentCert.choose (w.fetchParent (rows.map (addCert2List w)))
          (rows.map (addCert2List w))).2.certSrch = .parent (r.aki.getD "") r.issuer := by
  match rows with
  | [] => simp [parentCert.choose, pickParent, pickRow]
  | [r] =>
    obtain ⟨hfst, hsnd⟩ := parentCert_choose_singleton hset r
    refine ⟨hfst, ?_⟩
    intro _ hpick hsrch
    rw [mem_singleton.mp (mem_of_pickRow hpick)]
    exact hsnd hsrch
  | [r₀, r1] =>
    obtain ⟨hfst, hsnd⟩ := parentCert_choose_pair hset r₀ r1
    exact ⟨hfst, fun r hpick _ => hsnd r hpick⟩
  | r₀ :: r1 :: r2 :: rest => simp [parentCert.choose, pickParent, pickRow]

theorem parentCert_fst (w : World) (ski subject : Option String)
    : (parentCert w ski subject).1 = pickParent w (parentRows w ski subject) := by
  unfold parentCert
  rw [findParentCert_eq, ← (SameParents.initParentSrch w).pickParent]
  exact (parentCert_choose_eq w.initParentSrch_ne_unset _).1

theorem parentCert_certSrch {r : CertRow}
    (hpick : pickRow w (parentRows w ski subject) = some r) (hsrch : w.certSrch ≠ .byAKI)
    : (parentCert w ski subject).2.certSrch = .parent (r.aki.getD "") r.issuer := by
  have hsame := SameParents.initParentSrch w
  unfold parentCert
  rw [findParentCert_eq]
  apply (parentCert_choose_eq w.initParentSrch_ne_unset _).2
  . rw [hsame.pickRow]
    exact hpick
  . rw [ne_eq, hsame.byAKI]
    exact hsrch

theorem parentCert_eq_some_iff {p : Parent}
    : (parentCert w ski subject).1 = some p
      ↔ ∃ r x, pickRow w (parentRows w ski subject) = some r
        ∧ readCertFromFile w (w.path r.toObj) = some x ∧ p = ⟨x, r.flags, w.path r.toObj⟩ := by
  rw [parentCert_fst, pickParent]
  simp only [bind_eq_some_iff, map_eq_some_iff]
  constructor
  . rintro ⟨r, hpick, x, hread, rfl⟩
    exact ⟨r, x, hpick, hread, rfl⟩
  . rintro ⟨r, x, hpick, hread, rfl⟩
    exact ⟨r, hpick, x, hread, rfl⟩

theorem parentCert_eq_none_iff
    : (parentCert w ski subject).1 = none ↔ ¬∃ r, ParentRow w ski subject r := by
  rw [eq_none_iff_forall_ne_some]
  constructor
  . rintro h ⟨r, hpick, x, hread⟩
    apply h _ (parentCert_eq_some_iff.mpr ⟨r, x, hpick, hread, rfl⟩)
  . rintro h _ hp
    obtain ⟨r, x, hpick, hread, rfl⟩ := parentCert_eq_some_iff.mp hp
    exact h ⟨r, hpick, x, hread⟩

theorem not_parentRow_none {subject : Option String} {r : CertRow}
    : ¬ParentRow w none subject r := by
  intro h
  have hr := mem_of_pickRow h.pick
  simp [parentRows, isParentRow] at hr

theorem not_leadsToAnchor_none {subject : Option String}
    : ¬LeadsToAnchor w none subject := by
  intro h
  cases h with
  | anchor hparent
  | parent hparent => exact not_parentRow_none hparent

theorem ParentRow.unique {r r' : CertRow}
    (h : ParentRow w ski subject r) (h' : ParentRow w ski subject r') : r = r' := by
  rw [← some.injEq, ← h.pick, ← h'.pick]

theorem ParentRow.mem {r : CertRow}
    (h : ParentRow w ski subject r)
    : r ∈ w.cert ∧ ski = some r.ski ∧ (∀ s, subject = some s → r.subject = s) := by
  have hr := mem_of_pickRow h.pick
  simp only [parentRows, isParentRow, mem_filter, Bool.and_eq_true, decide_eq_true_eq] at hr
  refine ⟨hr.1, hr.2.1.1.symm, ?_⟩
  rintro s rfl
  simpa [eq_comm] using hr.2.1.2

section Walk

variable {w : World} {ski subject : Option String} {r : CertRow} {x : X509}

theorem parentCert_eq (hpick : pickRow w (parentRows w ski subject) = some r)
    (hread : readCertFromFile w (w.path r.toObj) = some x)
    : ∃ w1, parentCert w ski subject = (some ⟨x, r.flags, w.path r.toObj⟩, w1) ∧ SameParents w w1
      ∧ (w.certSrch ≠ .byAKI → w1.certSrch = .parent (r.aki.getD "") r.issuer) := by
  have hfst := parentCert_eq_some_iff.mpr ⟨r, x, hpick, hread, rfl⟩
  exact ⟨_, Prod.ext hfst rfl, .parentCert w ski subject, parentCert_certSrch hpick⟩

variable (hpick : pickRow w (parentRows w ski subject) = some r)
variable (hread : readCertFromFile w (w.path r.toObj) = some x)

include hpick hread

theorem parentWalk_anchor (htrusted : r.flags.has Flags.trusted = true) (fuel : Nat)
    (untrusted : List X509)
    : ∃ w1, SameParents w w1
      ∧ parentWalk (fuel + 1) w ski subject untrusted = some ((untrusted, some x), w1) := by
  obtain ⟨w1, heq, hsame, _⟩ := parentCert_eq hpick hread
  refine ⟨w1, hsame, ?_⟩
  rw [parentWalk, heq]
  simp only [htrusted, if_true]

theorem parentWalk_succ (htrusted : r.flags.has Flags.trusted = false) (hsrch : w.certSrch ≠ .byAKI)
    (fuel : Nat) (untrusted : List X509)
    : ∃ w1, SameParents w w1
      ∧ parentWalk (fuel + 1) w ski subject untrusted
        = parentWalk fuel w1 (some (r.aki.getD "")) (some r.issuer) (untrusted ++ [x]) := by
  obtain ⟨w1, heq, hsame, hnext⟩ := parentCert_eq hpick hread
  refine ⟨w1, hsame, ?_⟩
  rw [parentWalk, heq]
  simp only [htrusted, Bool.false_eq_true, if_false, World.parentAKI, World.parentIssuer, hnext hsrch]

theorem parentWalk_byAKI (htrusted : r.flags.has Flags.trusted = false) (hsrch : w.certSrch = .byAKI)
    (fuel : Nat) (untrusted : List X509)
    : ∃ w1, SameParents w w1
      ∧ parentWalk (fuel + 2) w ski subject untrusted = some ((untrusted ++ [x], none), w1) := by
  obtain ⟨w1, heq, hsame, _⟩ := parentCert_eq hpick hread
  refine ⟨_, hsame.trans (.parentCert w1 none none), ?_⟩
  -- there is no key to look for, and no row has none
  have hnone : (parentCert w1 none none).1 = none := by
    rw [parentCert_eq_none_iff]
    rintro ⟨r, hr⟩
    exact not_parentRow_none hr
  rw [parentWalk, heq]
  simp only [htrusted, Bool.false_eq_true, if_false, World.parentAKI, World.parentIssuer,
    hsame.byAKI.mpr hsrch]
  rw [parentWalk]
  generalize parentCert w1 none none = res at hnone
  obtain ⟨_, _⟩ := res
  subst hnone
  rfl

end Walk

variable {ski subject : Option String}

theorem parentWalk_stop {w : World}
    (hstop : ∀ r, ParentRow w ski subject r → r.flags.has Flags.trusted = false
      → w.certSrch = .byAKI) (fuel : Nat) (untrusted : List X509)
    : (parentWalk (fuel + 2) w ski subject untrusted).isSome = true := by
  by_cases hparent : ∃ r, ParentRow w ski subject r
  . obtain ⟨r, hr⟩ := hparent
    obtain ⟨_, hread⟩ := hr.readable
    cases htrusted : r.flags.has Flags.trusted with
    | true =>
      obtain ⟨_, _, heq⟩ := parentWalk_anchor hr.pick hread htrusted (fuel + 1) untrusted
      rw [heq]
      rfl
    | false =>
      obtain ⟨_, _, heq⟩ := parentWalk_byAKI hr.pick hread htrusted (hstop r hr htrusted) fuel untrusted
      rw [heq]
      rfl
  rw [← parentCert_eq_none_iff] at hparent
  rw [parentWalk]
  generalize parentCert w ski subject = res at hparent
  obtain ⟨_, _⟩ := res
  subst hparent
  rfl

theorem parentWalk_isSome_iff {w w' : World} {untrusted untrusted' : List X509}
    {anchor : Option X509}
    (h : parentWalk fuel w ski subject untrusted = some ((untrusted', anchor), w'))
    : anchor.isSome ↔ LeadsToAnchor w ski subject := by
  induction fuel generalizing w ski subject untrusted with
  | zero => cases h
  | succ fuel ih =>
    have hsame := SameParents.parentCert w ski subject
    unfold parentWalk at h
    split at h
    . next w1 hp =>
      cases h
      have hnone : ¬∃ r, ParentRow w ski subject r := by
        rw [← parentCert_eq_none_iff, hp]
      constructor
      . intro h
        cases h
      . intro hleads
        cases hleads with
        | anchor hparent
        | parent hparent => exact absurd ⟨_, hparent⟩ hnone
    next p w1 hp =>
    have hfst : (parentCert w ski subject).1 = some p := by rw [hp]
    obtain ⟨r, x, hpick, hread, rfl⟩ := parentCert_eq_some_iff.mp hfst
    have hparent : ParentRow w ski subject r := ⟨hpick, x, hread⟩
    rw [hp] at hsame
    split at h
    . next htrusted =>
      cases h
      exact ⟨fun _ => .anchor hparent htrusted, fun _ => rfl⟩
    next htrusted =>
    have htrusted : r.flags.has Flags.trusted = false := by simpa using htrusted
    rw [ih h]
    by_cases hsrch : w.certSrch = .byAKI
    . have hsrch1 : w1.certSrch = .byAKI := hsame.byAKI.mpr hsrch
      simp only [World.parentAKI, hsrch1]
      constructor
      . intro hleads
        exact absurd hleads not_leadsToAnchor_none
      intro hleads
      cases hleads with
      | anchor hparent' htrusted' =>
        rw [hparent'.unique hparent, htrusted] at htrusted'
        cases htrusted'
      | parent _ _ hsrch' => exact absurd hsrch hsrch'
    have hsrch1 : w1.certSrch = .parent (r.aki.getD "") r.issuer := by
      rw [← parentCert_certSrch hpick hsrch, hp]
    simp only [World.parentAKI, World.parentIssuer, hsrch1]
    constructor
    . intro hleads
      exact .parent hparent htrusted hsrch (hsame.symm.leadsToAnchor hleads)
    intro hleads
    cases hleads with
    | anchor hparent' htrusted' =>
      rw [hparent'.unique hparent, htrusted] at htrusted'
      cases htrusted'
    | parent hparent' _ _ hnext =>
      rw [hparent'.unique hparent] at hnext
      exact hsame.leadsToAnchor hnext

theorem verifyCert_cases {w w' : World} {x : X509}
    (h : verifyCert env fuel w x false ski subject = some (v, w'))
    : ∃ untrusted anchor w1, parentWalk fuel w ski subject [] = some ((untrusted, anchor), w1)
      ∧ match anchor with
        | none => v = ⟨.ok (), false⟩ ∧ w' = w1
        | some a => v = ⟨(checkit env w1 x untrusted [a]).1, true⟩
          ∧ w' = (checkit env w1 x untrusted [a]).2 := by
  simp only [verifyCert, Bool.false_eq_true, if_false, bind_eq_bind,
    bind_eq_some_iff] at h
  obtain ⟨⟨⟨untrusted, anchor⟩, w1⟩, hwalk, h⟩ := h
  refine ⟨untrusted, anchor, w1, hwalk, ?_⟩
  cases anchor with
  | none
  | some =>
    cases h
    exact ⟨rfl, rfl⟩

theorem exists_parent_of_chainOK {w w' : World} {x : X509} {ski : Option String} {subject : String}
    (h : verifyCert env fuel w x false ski (some subject) = some (v, w'))
    (hchain : v.chainOK = true)
    : ∃ p ∈ w.cert, p.flags.valid = true ∧ some p.ski = ski ∧ p.subject = subject := by
  obtain ⟨_, anchor, _, hwalk, hv⟩ := verifyCert_cases h
  have hparent : ∃ r, ParentRow w ski (some subject) r := by
    have hleads : LeadsToAnchor w ski (some subject) := by
      rw [← parentWalk_isSome_iff hwalk]
      cases anchor with
      | none =>
        rw [hv.1] at hchain
        cases hchain
      | some => rfl
    cases hleads with
    | anchor hparent
    | parent hparent => exact ⟨_, hparent⟩
  obtain ⟨p, hp⟩ := hparent
  have hrow := mem_of_pickRow hp.pick
  simp only [parentRows, isParentRow, mem_filter, isNone_some, Bool.false_or,
    Bool.and_eq_true, decide_eq_true_eq, some.injEq] at hrow
  exact ⟨p, hrow.1, hrow.2.2, hrow.2.1.1, hrow.2.1.2.symm⟩

end Rpstir.Sqhl
