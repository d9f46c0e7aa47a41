import Rpstir.Sqhl.Lemmas.Rows

/-!
This module contains the effect of the invalidation loop on the certificates below one that goes away.
-/

namespace Rpstir.Sqhl

open List Option

variable {env : Env}

structure IsParent (p r : CertRow) : Prop where
  valid : p.flags.valid = true
  key : p.ident.key = r.ident.parentKey

def Supported (w : World) (r : CertRow) : Prop :=
  r.flags.has Flags.trusted = true ∨ ∃ p ∈ w.cert, IsParent p r

def LocalChain (w : World) : Prop :=
  ∀ r ∈ w.cert, r.flags.valid = true → Supported w r

theorem Supported.mono {w w' : World} {r : CertRow} (h : Supported w r)
    (hparents : ∀ p ∈ w.cert, IsParent p r → p ∈ w'.cert) : Supported w' r := by
  rcases h with htrusted | ⟨p, hp, hparent⟩
  . exact .inl htrusted
  . exact .inr ⟨p, hparents p hp hparent, hparent⟩

structure CertIdent.WellKeyed (i : CertIdent) : Prop where
  below : i.trusted = false → i.aki ≠ some i.ski
  anchor : i.trusted = true → i.aki = none ∨ i.parentKey = i.key

def CertIdent.Below (B : Key → Prop) (i : CertIdent) : Prop :=
  i.trusted = false ∧ B i.parentKey

structure Closed (B : Key → Prop) (w : World) : Prop where
  ids : w.UniqueIds
  keyed : ∀ r ∈ w.cert, r.ident.WellKeyed
  closed : ∀ r ∈ w.cert, B r.ident.parentKey → B r.ident.key

structure PropData.About (d : PropData) (i : CertIdent) : Prop where
  id : i.localId = d.id
  ski : i.ski = d.ski
  subject : i.subject = d.subject
  aki : i.aki = d.aki
  issuer : some i.issuer = d.issuer
  trusted : i.trusted = d.flags.has Flags.trusted

def PropData.Matches (d : PropData) (P : CertIdent → Prop) (w : World) : Prop :=
  ∃ r ∈ w.cert, d.About r.ident ∧ P r.ident

namespace PropData.Matches

variable {d : PropData} {P : CertIdent → Prop} {w w' : World}

theorem of_keeps (h : d.Matches P w') (hkeeps : Keeps w w') : d.Matches P w := by
  obtain ⟨r', hr', hd⟩ := h
  obtain ⟨r, hr, heq⟩ := hkeeps r' hr'
  rw [heq] at hd
  exact ⟨r, hr, hd⟩

theorem about (h : d.Matches P w) (hids : w.UniqueIds) (hkeeps : Keeps w w') {r : CertRow}
    (hr : r ∈ w'.cert) (hid : r.localId = d.id) : d.About r.ident ∧ P r.ident := by
  obtain ⟨r₀, hr0, hd⟩ := h
  obtain ⟨r1, hr1, heq⟩ := hkeeps r hr
  have hid1 : r.localId = r1.localId := congrArg CertIdent.localId heq
  have hrow : r1 = r₀ := by
    apply hids.eq hr1 hr0
    rw [← hid1, hid, ← hd.1.id]
    rfl
  rw [heq, hrow]
  exact hd

end PropData.Matches

variable {doVerify : Bool} {w : World} {r : CertRow}

theorem isChildRow_iff {ski subject : String}
    : isChildRow ski subject doVerify r = true
      ↔ r.ident.parentKey = (some ski, subject) ∧ r.ski ≠ ski
        ∧ r.flags.test Flags.nochain doVerify = true := by
  simp only [isChildRow, CertIdent.parentKey, CertRow.ident, Prod.mk.injEq, Bool.and_eq_true,
    decide_eq_true_eq]
  tauto

variable {flags prevFlags : Flags} {fuel lid : Nat}

theorem mem_childrenSrch {data c : PropData}
    : c ∈ childrenSrch w data doVerify
      ↔ ∃ r ∈ w.cert, isChildRow data.ski data.subject doVerify r = true
        ∧ c = registerChild w r := by
  unfold childrenSrch
  rw [List.mem_map]
  constructor
  . rintro ⟨r, hr, rfl⟩
    rw [mem_filter] at hr
    exact ⟨r, hr.1, hr.2, rfl⟩
  . rintro ⟨r, hr, hchild, rfl⟩
    exact ⟨r, mem_filter.mpr ⟨hr, hchild⟩, rfl⟩

theorem registerChild_about {ski subject : String}
    (h : isChildRow ski subject doVerify r = true) : (registerChild w r).About r.ident where
  id := rfl
  ski := rfl
  subject := rfl
  aki := by
    have haki : r.aki = some ski := congrArg Prod.fst (isChildRow_iff.mp h).1
    simp [registerChild, CertRow.ident, haki]
  issuer := rfl
  trusted := rfl

theorem matches_of_mem_childrenSrch {B : Key → Prop} {data c : PropData} (hkeyed : ∀ r ∈ w.cert, r.ident.WellKeyed) (hkey : B (some data.ski, data.subject))
    (h : c ∈ childrenSrch w data doVerify) : c.Matches (CertIdent.Below B) w := by
  obtain ⟨r, hr, hchild, rfl⟩ := mem_childrenSrch.mp h
  refine ⟨r, hr, registerChild_about hchild, ?_, ?_⟩
  . have hparent := isChildRow_iff.mp hchild
    by_contra htrusted
    have haki : r.ident.aki = some data.ski := congrArg Prod.fst hparent.1
    rcases (hkeyed r hr).anchor (by simpa using htrusted) with hnone | heq
    . rw [haki] at hnone
      cases hnone
    . rw [hparent.1] at heq
      exact hparent.2.1 (some.inj (congrArg Prod.fst heq)).symm
  . rw [(isChildRow_iff.mp hchild).1]
    exact hkey

theorem exists_isParent_of_countvalidparents {data : PropData}
    (habout : data.About r.ident) (hcount : countvalidparents w data.issuer data.aki > 0)
    : ∃ p ∈ w.cert, IsParent p r := by
  unfold countvalidparents at hcount
  rw [gt_iff_lt, countP_pos_iff] at hcount
  obtain ⟨p, hp, hvalid⟩ := hcount
  rw [← habout.aki, ← habout.issuer] at hvalid
  simp only [isValidParent, isParentRow, isNone_some, Bool.false_or, Bool.and_eq_true,
    decide_eq_true_eq, some.injEq] at hvalid
  refine ⟨p, hp, hvalid.1.1.2, ?_⟩
  exact Prod.ext hvalid.1.1.1.1 hvalid.1.1.1.2.symm

theorem test_nochain_false_of_valid (h : flags.valid = true)
    : flags.test Flags.nochain false = true := by
  rw [Flags.valid, Bool.and_eq_true] at h
  exact h.2

theorem not_valid_of_test_nochain (h : flags.test Flags.nochain true = true)
    : flags.valid = false := by
  rw [Flags.valid, Flags.test_false_eq_not_test_true, h]
  simp

theorem mem_stack_of_child {data : PropData} (hr : r ∈ w.cert)
    (hkeyed : r.ident.WellKeyed) (hvalid : r.flags.valid = true)
    (htrusted : r.flags.has Flags.trusted = false)
    (hparent : r.ident.parentKey = (some data.ski, data.subject))
    : ∃ d ∈ (childrenSrch w data false).reverse, d.id = r.localId := by
  refine ⟨registerChild w r, ?_, rfl⟩
  rw [mem_reverse, mem_childrenSrch]
  refine ⟨r, hr, ?_, rfl⟩
  rw [isChildRow_iff]
  refine ⟨hparent, ?_, test_nochain_false_of_valid hvalid⟩
  intro hski
  apply hkeyed.below htrusted
  rw [show r.ident.aki = some data.ski from congrArg Prod.fst hparent, ← hski]
  rfl

structure SameCerts (w w' : World) : Prop where
  dir : w'.dir = w.dir
  cert : w'.cert = w.cert
  tdir : w'.tdir = w.tdir
  fs : w'.fs = w.fs
  now : w'.now = w.now
  allowex : w'.allowex = w.allowex
  useParacerts : w'.useParacerts = w.useParacerts
  certSrch : w'.certSrch = w.certSrch
  checked : w'.checked = w.checked

namespace SameCerts

variable {w w' w'' : World}

theorem refl (w : World) : SameCerts w w := by
  constructor <;> rfl

theorem trans (h : SameCerts w w') (h' : SameCerts w' w'') : SameCerts w w'' where
  dir := h'.dir.trans h.dir
  cert := h'.cert.trans h.cert
  tdir := h'.tdir.trans h.tdir
  fs := h'.fs.trans h.fs
  now := h'.now.trans h.now
  allowex := h'.allowex.trans h.allowex
  useParacerts := h'.useParacerts.trans h.useParacerts
  certSrch := h'.certSrch.trans h.certSrch
  checked := h'.checked.trans h.checked

theorem weakens (h : SameCerts w w') : Weakens w w' := .of_cert_eq h.cert

variable {tab : Table}

theorem foldl {α : Type} {f : World → α → World} {l : List α}
    (hf : ∀ a ∈ l, ∀ w, SameCerts w (f w a)) (w : World) : SameCerts w (l.foldl f w) :=
  preorder_foldl refl trans hf w

theorem updateByLid (htab : tab ≠ .cert) (w : World) (lid : Nat) (f : Obj → Obj)
    : SameCerts w (w.updateByLid tab lid f) := by
  cases tab <;> first | contradiction | constructor <;> rfl

theorem invalidateObj (htab : tab ≠ .cert) (IS AK : Option String) (w : World) (o : Obj)
    : SameCerts w (invalidateObj tab IS AK w o) := by
  unfold Sqhl.invalidateObj
  split
  . apply refl
  . apply updateByLid htab

theorem invalidateChildRoas (w : World) (ski : String)
    : SameCerts w (invalidateChildRoas w ski) :=
  foldl (fun _ _ _ => invalidateObj (by decide) ..) w

theorem invalidateChildGbrs (w : World) (ski : String)
    : SameCerts w (invalidateChildGbrs w ski) :=
  foldl (fun _ _ _ => invalidateObj (by decide) ..) w

theorem invalidateChildMfts (w : World) (ski : String)
    : SameCerts w (invalidateChildMfts w ski) :=
  foldl (fun _ _ _ => invalidateObj (by decide) ..) w

theorem invalidateChildCrls (w : World) (ski subject : String)
    : SameCerts w (invalidateChildCrls w ski subject) :=
  foldl (fun _ _ _ => invalidateObj (by decide) ..) w

theorem invalidateChildObjs (w : World) (data : PropData)
    : SameCerts w (invalidateChildObjs w data) := by
  apply (invalidateChildRoas w data.ski).trans
  apply (invalidateChildGbrs _ data.ski).trans
  apply (invalidateChildMfts _ data.ski).trans
  apply invalidateChildCrls

end SameCerts

theorem mem_updateValidFlags_cert {w : World} {id : Nat} {isValid : Bool} {r' : CertRow}
    : r' ∈ (updateValidFlags w .cert id prevFlags isValid).cert
      ↔ (r' ∈ w.cert ∧ r'.localId ≠ id)
        ∨ ∃ r ∈ w.cert, r.localId = id ∧ r' = { r with flags := validFlags prevFlags isValid } := by
  simp only [updateValidFlags, World.updateByLid, List.mem_map]
  constructor
  . rintro ⟨r, hr, rfl⟩
    split
    . next hid => exact .inr ⟨r, hr, hid, rfl⟩
    . next hid => exact .inl ⟨hr, hid⟩
  . rintro (⟨hr, hid⟩ | ⟨r, hr, hid, rfl⟩)
    . exact ⟨r', hr, if_neg hid⟩
    . exact ⟨r, hr, if_pos hid⟩

theorem map_localId_updateValidFlags (w : World) (id : Nat) (prevFlags : Flags) (isValid : Bool)
    : (updateValidFlags w .cert id prevFlags isValid).cert.map (fun r => r.localId)
      = w.cert.map fun r => r.localId :=
  World.map_localId_updateByLid w fun _ => rfl

theorem ident_validFlags {data : PropData} {r : CertRow} (habout : data.About r.ident)
    (isValid : Bool) : { r with flags := validFlags data.flags isValid }.ident = r.ident := by
  have htrusted : (validFlags data.flags isValid).has Flags.trusted
      = r.flags.has Flags.trusted := by
    rw [trusted_validFlags, ← habout.trusted]
    rfl
  simp [CertRow.ident, htrusted]

structure Revokes (P : CertIdent → Prop) (w w' : World) : Prop where
  ids : (w'.cert.map fun r => r.localId).Sublist (w.cert.map fun r => r.localId)
  weakens : Weakens w w'
  kept : ∀ r ∈ w.cert, P r.ident
    → ∃ r' ∈ w'.cert, r'.ident = r.ident ∧ (r.flags.valid = true → r'.flags.valid = true)

namespace Revokes

variable {P Q : CertIdent → Prop} {w w' w'' : World}

theorem of_cert_eq (hcert : w'.cert = w.cert) : Revokes P w w' where
  ids := by rw [hcert]
  weakens := .of_cert_eq hcert
  kept := by
    intro r hr _
    rw [hcert]
    exact ⟨r, hr, rfl, id⟩

theorem trans (h : Revokes P w w') (h' : Revokes P w' w'') : Revokes P w w'' where
  ids := h'.ids.trans h.ids
  weakens := h.weakens.trans h'.weakens
  kept := by
    intro r hr hP
    obtain ⟨r', hr', heq, hvalid⟩ := h.kept r hr hP
    rw [← heq] at hP
    obtain ⟨r'', hr'', heq', hvalid'⟩ := h'.kept r' hr' hP
    exact ⟨r'', hr'', heq'.trans heq, fun hv => hvalid' (hvalid hv)⟩

theorem mono (h : Revokes P w w') (himp : ∀ i, Q i → P i) : Revokes Q w w' where
  ids := h.ids
  weakens := h.weakens
  kept := fun r hr hQ => h.kept r hr (himp _ hQ)

theorem closed {B : Key → Prop} (h : Revokes P w w') (hclosed : Closed B w) : Closed B w' where
  ids := h.ids.nodup hclosed.ids
  keyed := h.weakens.keeps.forall_ident hclosed.keyed
  closed := h.weakens.keeps.forall_ident (P := fun i => B i.parentKey → B i.key) hclosed.closed

theorem updateValidFlags {data : PropData}
    (habout : ∀ r ∈ w.cert, r.localId = data.id → data.About r.ident ∧ ¬P r.ident)
    : Revokes P w (updateValidFlags w .cert data.id data.flags false) where
  ids := by rw [map_localId_updateValidFlags]
  weakens := by
    intro r' hr'
    rcases mem_updateValidFlags_cert.mp hr' with ⟨hr, _⟩ | ⟨r, hr, hid, rfl⟩
    . exact ⟨r', hr, rfl, id⟩
    . refine ⟨r, hr, ident_validFlags (habout r hr hid).1 false, ?_⟩
      intro hvalid
      rw [valid_validFlags] at hvalid
      cases hvalid
  kept := by
    intro r hr hP
    refine ⟨r, ?_, rfl, id⟩
    rw [mem_updateValidFlags_cert]
    refine .inl ⟨hr, ?_⟩
    intro hid
    exact (habout r hr hid).2 hP

end Revokes

/--
The invariant of the loop that invalidates the descendants of a certificate that goes away: a valid
certificate that has lost its last valid parent is on the stack.
-/
structure InvalidateInv (B : Key → Prop) (w₀ w : World) (stack : List PropData) : Prop where
  revokes : Revokes (fun i => ¬i.Below B) w₀ w
  about : ∀ d ∈ stack, d.Matches (CertIdent.Below B) w₀
  supported : ∀ r ∈ w.cert, r.flags.valid = true
    → Supported w r ∨ ∃ d ∈ stack, d.id = r.localId

namespace InvalidateInv

variable {B : Key → Prop} {w₀ w : World} {data : PropData} {stack : List PropData}

section

variable (hclosed : Closed B w₀) (h : InvalidateInv B w₀ w (data :: stack))

include hclosed h

theorem pop (hcount : countvalidparents w data.issuer data.aki > 0) : InvalidateInv B w₀ w stack where
  revokes := h.revokes
  about := fun d hd => h.about d (mem_cons_of_mem _ hd)
  supported := by
    intro r hr hvalid
    rcases h.supported r hr hvalid with hsup | ⟨d, hd, hid⟩
    . exact .inl hsup
    rcases mem_cons.mp hd with rfl | hd
    . have habout := (h.about d mem_cons_self).about hclosed.ids h.revokes.weakens.keeps hr
        hid.symm
      exact .inl (.inr (exists_isParent_of_countvalidparents habout.1 hcount))
    . exact .inr ⟨d, hd, hid⟩

theorem mark
    : InvalidateInv B w₀
      (invalidateChildObjs (updateValidFlags w .cert data.id data.flags false) data)
      ((childrenSrch (invalidateChildObjs (updateValidFlags w .cert data.id data.flags false) data)
        data false).reverse ++ stack) := by
  have hmatches := h.about data mem_cons_self
  have habout : ∀ r ∈ w.cert, r.localId = data.id → data.About r.ident ∧ r.ident.Below B :=
    fun r hr hid => hmatches.about hclosed.ids h.revokes.weakens.keeps hr hid
  have hmark : Revokes (fun i => ¬i.Below B) w
      (updateValidFlags w .cert data.id data.flags false) :=
    .updateValidFlags fun r hr hid => ⟨(habout r hr hid).1, not_not_intro (habout r hr hid).2⟩
  have hsame := SameCerts.invalidateChildObjs (updateValidFlags w .cert data.id data.flags false)
    data
  generalize hw2 : invalidateChildObjs (updateValidFlags w .cert data.id data.flags false) data
    = w2 at hsame
  have hrevokes := (h.revokes.trans hmark).trans (.of_cert_eq hsame.cert)
  have hkeyed := hrevokes.weakens.keeps.forall_ident hclosed.keyed
  have hkey : B (some data.ski, data.subject) := by
    obtain ⟨r, hr, hd, hbelow⟩ := hmatches
    rw [← hd.ski, ← hd.subject]
    exact hclosed.closed r hr hbelow.2
  constructor
  . exact hrevokes
  . intro d hd
    rcases List.mem_append.mp hd with hd | hd
    . exact (matches_of_mem_childrenSrch hkeyed hkey (mem_reverse.mp hd)).of_keeps
        hrevokes.weakens.keeps
    . exact h.about d (mem_cons_of_mem _ hd)
  intro r hr hvalid
  have hr2 := hr
  rw [hsame.cert, mem_updateValidFlags_cert] at hr
  rcases hr with ⟨hr, hid⟩ | ⟨r, _, _, rfl⟩
  . rcases h.supported r hr hvalid with (htrusted | ⟨p, hp, hparent⟩) | ⟨d, hd, hdid⟩
    . exact .inl (.inl htrusted)
    . by_cases hpid : p.localId = data.id
      -- the parent is the row that has just been marked, so this row is one of its children
      . by_cases htrusted : r.flags.has Flags.trusted = true
        . exact .inl (.inl htrusted)
        have hpabout := (habout p hp hpid).1
        right
        obtain ⟨d, hd, hdid⟩ := mem_stack_of_child hr2 (hkeyed r hr2) hvalid
          (by simpa using htrusted) (by rw [← hparent.key, CertIdent.key, hpabout.ski, hpabout.subject])
        exact ⟨d, mem_append_left _ hd, hdid⟩
      . refine .inl (.inr ⟨p, ?_, hparent⟩)
        rw [hsame.cert, mem_updateValidFlags_cert]
        exact .inl ⟨hp, hpid⟩
    . rcases mem_cons.mp hd with rfl | hd
      . exact absurd hdid.symm hid
      . exact .inr ⟨d, mem_append_right _ hd, hdid⟩
  . rw [valid_validFlags] at hvalid
    cases hvalid

theorem visit {doIt : Bool} {w' : World} (hvisit : invalidateChildCert w data true = (doIt, w'))
    : InvalidateInv B w₀ w'
      (if doIt then (childrenSrch w' data false).reverse ++ stack else stack) := by
  unfold invalidateChildCert at hvisit
  rw [if_pos rfl] at hvisit
  split at hvisit
  . next hcount =>
    cases hvisit
    exact h.pop hclosed hcount
  . cases hvisit
    exact h.mark hclosed

end

end InvalidateInv

theorem invalidateChildren_spec {B : Key → Prop} {w w' : World} {ski subject : String}
    (hclosed : Closed B w) (hkey : B (some ski, subject)) (hsup : ∀ r ∈ w.cert, r.flags.valid = true
      → Supported w r ∨ r.ident.parentKey = (some ski, subject))
    (h : invalidateChildren fuel w ski subject lid = some w')
    : Revokes (fun i => ¬i.Below B) w w' ∧ LocalChain w' := by
  obtain ⟨_, doIt, w1, hroot, hloop⟩ := propagate_root h
  obtain ⟨rfl, rfl⟩ : true = doIt ∧ _ = w1 := by simpa [invalidateChildCert] using hroot
  generalize hdata : (⟨ski, subject, 0, lid, "", "", none, none⟩ : PropData) = data at hloop
  have hsame := SameCerts.invalidateChildObjs w data
  have hkeyed : ∀ r ∈ (invalidateChildObjs w data).cert, r.ident.WellKeyed := by
    rw [hsame.cert]
    exact hclosed.keyed
  have hinv : InvalidateInv B w (invalidateChildObjs w data)
      (childrenSrch (invalidateChildObjs w data) data false).reverse := by
    constructor
    . exact .of_cert_eq hsame.cert
    . intro d hd
      apply (matches_of_mem_childrenSrch hkeyed _ (mem_reverse.mp hd)).of_keeps
      . exact hsame.weakens.keeps
      . rw [← hdata]
        exact hkey
    intro r hr hvalid
    have hr1 := hr
    rw [hsame.cert] at hr1
    rcases hsup r hr1 hvalid with hsup | hparent
    . left
      apply hsup.mono
      rw [hsame.cert]
      exact fun p hp _ => hp
    by_cases htrusted : r.flags.has Flags.trusted = true
    . exact .inl (.inl htrusted)
    . right
      apply mem_stack_of_child hr (hkeyed r hr) hvalid
      . simpa using htrusted
      . rw [hparent, ← hdata]
  have hend := propagate_invariant
    (fun w1 d stack doIt w2 hinv hvisit => hinv.visit hclosed (some.inj hvisit)) hinv hloop
  refine ⟨hend.revokes, ?_⟩
  intro r hr hvalid
  rcases hend.supported r hr hvalid with hsup | ⟨d, hd, _⟩
  . exact hsup
  . cases hd

end Rpstir.Sqhl
