import Rpstir.Sqhl.Lemmas.Validate

/-!
This module contains the invariant of the validation loop: the certificates on the stack are not valid,
each has a valid parent, and the top of the stack is the farthest from the trust anchors.
-/

namespace Rpstir.Sqhl

open List Option

variable {env : Env} {depth : Key → Nat}

def Numbered (depth : Key → Nat) (w : World) : Prop :=
  ∀ r ∈ w.cert, r.ident.trusted = false → depth r.ident.parentKey < depth r.ident.key

def AtLeast (depth : Key → Nat) (n : Nat) (k : Key) : Prop :=
  k.1 ≠ none ∧ n ≤ depth k

theorem closed_atLeast {w : World} (hids : w.UniqueIds) (hkeyed : ∀ r ∈ w.cert, r.ident.WellKeyed)
    (hnum : Numbered depth w) (n : Nat) : Closed (AtLeast depth n) w where
  ids := hids
  keyed := hkeyed
  closed := by
    rintro r hr ⟨haki, hn⟩
    refine ⟨by simp [CertIdent.key], ?_⟩
    cases htrusted : r.ident.trusted with
    | false =>
      have hlt := hnum r hr htrusted
      omega
    | true =>
      rcases (hkeyed r hr).anchor htrusted with hnone | heq
      . exact absurd hnone haki
      . rw [← heq]
        exact hn

structure CertIdent.Above (depth : Key → Nat) (n : Nat) (i : CertIdent) : Prop where
  below : i.trusted = false → depth i.parentKey < n
  anchor : i.trusted = true → depth i.key < n

variable {fuel certId n : Nat} {i : CertIdent}

theorem CertIdent.Above.unlisted {k : Key} (h : i.Above depth (depth k)) (hkeyed : i.WellKeyed)
    (hk : k.1 ≠ none) (crls : List CrlRow) : i.Unlisted crls k := by
  intro hparent
  cases htrusted : i.trusted with
  | false =>
    have hlt := h.below htrusted
    rw [hparent] at hlt
    omega
  | true =>
    rcases hkeyed.anchor htrusted with hnone | heq
    . exact absurd ((congrArg Prod.fst hparent).symm.trans hnone) hk
    . have hlt := h.anchor htrusted
      rw [← heq, hparent] at hlt
      omega

theorem CertIdent.Above.not_below (h : i.Above depth n) : ¬i.Below (AtLeast depth n) := by
  rintro ⟨htrusted, _, _⟩
  have hlt := h.below htrusted
  omega

structure ValidateInv (depth : Key → Nat) (w₀ w : World) (stack : List PropData) : Prop where
  within : Within w₀ w
  ids : w.UniqueIds
  keeps : Keeps w₀ w
  chain : LocalChain w
  about : ∀ d ∈ stack, d.Matches (fun i => i.trusted = false) w₀
  waiting : ∀ d ∈ stack, ∃ r ∈ w.cert, r.localId = d.id ∧ r.flags.valid = false
  parent : ∀ d ∈ stack, ∃ p ∈ w.cert, p.flags.valid = true ∧ p.ident.key = d.parentKey
  nodup : (stack.map PropData.id).Nodup
  sorted : stack.Pairwise fun d d' => depth d'.parentKey ≤ depth d.parentKey

namespace ValidateInv

variable {w₀ w w' : World} {data : PropData} {stack : List PropData}

theorem valid_id_ne (h : ValidateInv depth w₀ w (data :: stack)) {r : CertRow} (hr : r ∈ w.cert)
    (hvalid : r.flags.valid = true) : r.localId ≠ data.id := by
  intro hid
  obtain ⟨_, hr', hid', hvalid'⟩ := h.waiting data mem_cons_self
  rw [h.ids.eq hr hr' (hid.trans hid'.symm), hvalid'] at hvalid
  cases hvalid

section

variable (hids : w₀.UniqueIds) (h : ValidateInv depth w₀ w (data :: stack))

include hids h

theorem pop (hout : ∀ r, r.localId ≠ data.id → (r ∈ w'.cert ↔ r ∈ w.cert))
    (hin : ∀ r' ∈ w'.cert, r'.localId = data.id → ∃ r ∈ w.cert, r'.ident = r.ident)
    (hids' : w'.UniqueIds) (hwithin : Within w w') : ValidateInv depth w₀ w' stack := by
  have hparent : ∀ p ∈ w.cert, p.flags.valid = true → p ∈ w'.cert :=
    fun p hp hvalid => (hout p (h.valid_id_ne hp hvalid)).mpr hp
  have hkeeps : Keeps w w' := by
    intro r' hr'
    by_cases hid : r'.localId = data.id
    . exact hin r' hr' hid
    . exact ⟨r', (hout r' hid).mp hr', rfl⟩
  constructor
  . exact h.within.trans hwithin
  . exact hids'
  . exact h.keeps.trans hkeeps
  . intro r' hr' hvalid
    by_cases hid : r'.localId = data.id
    . obtain ⟨p, hp, hpvalid, hkey⟩ := h.parent data mem_cons_self
      have habout := (h.about data mem_cons_self).about hids (h.keeps.trans hkeeps) hr' hid
      exact .inr ⟨p, hparent p hp hpvalid, hpvalid, hkey.trans habout.1.parentKey.symm⟩
    . apply (h.chain r' ((hout r' hid).mp hr') hvalid).mono
      exact fun p hp hisParent => hparent p hp hisParent.valid
  . exact fun d hd => h.about d (mem_cons_of_mem _ hd)
  . intro d hd
    obtain ⟨r, hr, hid, hvalid⟩ := h.waiting d (mem_cons_of_mem _ hd)
    refine ⟨r, (hout r ?_).mpr hr, hid, hvalid⟩
    rw [hid]
    have hne := (nodup_cons.mp h.nodup).1
    intro heq
    apply hne
    rw [← heq]
    exact List.mem_map_of_mem hd
  . intro d hd
    obtain ⟨p, hp, hvalid, hkey⟩ := h.parent d (mem_cons_of_mem _ hd)
    exact ⟨p, hparent p hp hvalid, hvalid, hkey⟩
  . exact (nodup_cons.mp h.nodup).2
  . exact (pairwise_cons.mp h.sorted).2

theorem delete : ValidateInv depth w₀ (w.deletebylid .cert data.id) stack := by
  apply h.pop hids
  . intro _ hid
    rw [mem_deletebylid_cert]
    exact and_iff_left hid
  . intro _ hr' hid
    exact absurd hid (mem_deletebylid_cert.mp hr').2
  . exact h.ids.sublist (filter_sublist.map _)
  . apply Within.deleteWhere

theorem validate
    : ValidateInv depth w₀ (updateValidFlags w .cert data.id data.flags true) stack := by
  apply h.pop hids
  . intro r hid
    rw [mem_updateValidFlags_cert]
    constructor
    . rintro (⟨hr, _⟩ | ⟨r, hr, hid', rfl⟩)
      . exact hr
      . exact absurd hid' hid
    . exact fun hr => .inl ⟨hr, hid⟩
  . intro _ hr' hid
    rcases mem_updateValidFlags_cert.mp hr' with ⟨_, hid'⟩ | ⟨r, hr, hid', rfl⟩
    . exact absurd hid hid'
    . have habout := (h.about data mem_cons_self).about hids h.keeps hr hid'
      exact ⟨r, hr, ident_validFlags habout.1 true⟩
  . unfold World.UniqueIds
    rw [map_localId_updateValidFlags]
    exact h.ids
  . exact .updateByLid w .cert data.id fun _ => ⟨_, _, rfl⟩

end

theorem of_revokes {P : CertIdent → Prop} (h : ValidateInv depth w₀ w stack)
    (hrevokes : Revokes P w w') (hchain : LocalChain w') (hwithin : Within w w')
    (hP : ∀ d ∈ stack, ∀ r ∈ w.cert, r.localId = d.id ∨ r.ident.key = d.parentKey → P r.ident)
    : ValidateInv depth w₀ w' stack where
  within := h.within.trans hwithin
  ids := hrevokes.ids.nodup h.ids
  keeps := h.keeps.trans hrevokes.weakens.keeps
  chain := hchain
  about := h.about
  waiting := by
    intro d hd
    obtain ⟨r, hr, hid, hvalid⟩ := h.waiting d hd
    obtain ⟨r', hr', heq, _⟩ := hrevokes.kept r hr (hP d hd r hr (.inl hid))
    have hid' : r'.localId = r.localId := congrArg CertIdent.localId heq
    refine ⟨r', hr', hid'.trans hid, ?_⟩
    obtain ⟨r1, hr1, heq1, hvalid1⟩ := hrevokes.weakens r' hr'
    have hrow : r1 = r := by
      apply h.ids.eq hr1 hr
      rw [← hid']
      exact (congrArg CertIdent.localId heq1).symm
    rw [hrow, hvalid] at hvalid1
    simpa using hvalid1
  parent := by
    intro d hd
    obtain ⟨p, hp, hvalid, hkey⟩ := h.parent d hd
    obtain ⟨p', hp', heq, hvalid'⟩ := hrevokes.kept p hp (hP d hd p hp (.inr hkey))
    refine ⟨p', hp', hvalid' hvalid, ?_⟩
    rw [heq]
    exact hkey
  nodup := h.nodup
  sorted := h.sorted

theorem push (hids : w₀.UniqueIds) (hkeyed : ∀ r ∈ w₀.cert, r.ident.WellKeyed)
    (h : ValidateInv depth w₀ w stack)
    (hparent : ∃ p ∈ w.cert, p.flags.valid = true ∧ p.ident.key = data.key)
    (hdepth : ∀ d ∈ stack, depth d.parentKey < depth data.key)
    : ValidateInv depth w₀ w ((childrenSrch w data true).reverse ++ stack) := by
  have hchild : ∀ d ∈ (childrenSrch w data true).reverse, ∃ r ∈ w.cert, d.About r.ident
      ∧ r.ident.trusted = false ∧ r.flags.valid = false ∧ d.parentKey = data.key := by
    intro d hd
    rw [mem_reverse] at hd
    obtain ⟨r, hr, habout, htrusted, hkey⟩ := matches_of_mem_childrenSrch
      (h.keeps.forall_ident hkeyed) (B := fun k => k = data.key) rfl hd
    obtain ⟨_, hr', hisChild, rfl⟩ := mem_childrenSrch.mp hd
    rw [h.ids.eq hr' hr habout.id.symm] at hisChild
    refine ⟨r, hr, habout, htrusted, ?_, habout.parentKey.symm.trans hkey⟩
    exact not_valid_of_test_nochain (isChildRow_iff.mp hisChild).2.2
  refine { h with
    about := List.forall_mem_append.2 ⟨fun d hd => ?_, h.about⟩
    waiting := List.forall_mem_append.2 ⟨fun d hd => ?_, h.waiting⟩
    parent := List.forall_mem_append.2 ⟨fun d hd => ?_, h.parent⟩
    nodup := ?_
    sorted := ?_ }
  . obtain ⟨r, hr, habout, htrusted, _⟩ := hchild d hd
    exact PropData.Matches.of_keeps ⟨r, hr, habout, htrusted⟩ h.keeps
  . obtain ⟨r, hr, habout, _, hvalid, _⟩ := hchild d hd
    exact ⟨r, hr, habout.id, hvalid⟩
  . obtain ⟨_, _, _, _, _, hkey⟩ := hchild d hd
    rw [hkey]
    exact hparent
  . rw [map_append, nodup_append]
    refine ⟨?_, h.nodup, ?_⟩
    . rw [map_reverse, nodup_reverse, childrenSrch, List.map_map]
      exact h.ids.sublist (filter_sublist.map _)
    -- an entry with the id of a child is about the same row, but its parent is nearer
    . intro a ha _ hb hab
      obtain ⟨d, hd, rfl⟩ := List.mem_map.mp ha
      obtain ⟨d', hd', rfl⟩ := List.mem_map.mp hb
      obtain ⟨r, hr, habout, _, _, hkey⟩ := hchild d hd
      have habout' := ((h.about d' hd').about hids h.keeps hr (habout.id.trans hab)).1
      have hlt := hdepth d' hd'
      rw [← habout'.parentKey, habout.parentKey, hkey] at hlt
      omega
  rw [pairwise_append]
  refine ⟨?_, h.sorted, ?_⟩
  . apply pairwise_of_forall_mem_list
    intro d hd d' hd'
    obtain ⟨_, _, _, _, _, hkey⟩ := hchild d hd
    obtain ⟨_, _, _, _, _, hkey'⟩ := hchild d' hd'
    rw [hkey, hkey']
  intro d hd d' hd'
  obtain ⟨_, _, _, _, _, hkey⟩ := hchild d hd
  have hlt := hdepth d' hd'
  rw [hkey]
  omega

end ValidateInv

structure Validatable (depth : Key → Nat) (w : World) : Prop where
  ids : w.UniqueIds
  keyed : ∀ r ∈ w.cert, r.ident.WellKeyed
  numbered : Numbered depth w
  files : CrlFiles w
  signed : NoSigned w

theorem Validatable.of_keeps {w w' : World} (h : Validatable depth w) (hids : w'.UniqueIds)
    (hkeeps : Keeps w w') (hwithin : Within w w') : Validatable depth w' where
  ids := hids
  keyed := hkeeps.forall_ident h.keyed
  numbered := hkeeps.forall_ident
    (P := fun i => i.trusted = false → depth i.parentKey < depth i.key) h.numbered
  files := h.files.within hwithin
  signed := hwithin.signed h.signed

namespace ValidateInv

variable {w₀ w w' : World} {data : PropData} {stack : List PropData}

section

variable (hw0 : Validatable depth w₀)

include hw0

theorem validatable (h : ValidateInv depth w₀ w stack)
    : Validatable depth w :=
  hw0.of_keeps h.ids h.keeps h.within

theorem descend (h : ValidateInv depth w₀ w stack)
    (hobjs : verifyChildObjs env fuel w data = some w')
    (hdepth : ∀ d ∈ stack, depth d.parentKey < depth data.key)
    (hparent : ∃ p ∈ w.cert, p.flags.valid = true ∧ p.ident.key = data.key
      ∧ p.ident.Unlisted w.crl data.key)
    : ValidateInv depth w₀ w' ((childrenSrch w' data true).reverse ++ stack) := by
  have hw := h.validatable hw0
  have hclosed := closed_atLeast hw.ids hw.keyed hw.numbered (depth data.key)
  have hkey : AtLeast depth (depth data.key) data.key := ⟨by simp [PropData.key], Nat.le_refl _⟩
  obtain ⟨hrevokes, hchain⟩ := verifyChildObjs_spec hw.signed hw.files hclosed h.chain hkey hobjs
  have habove : ∀ d ∈ stack, ∀ r ∈ w.cert, r.localId = d.id ∨ r.ident.key = d.parentKey
      → r.ident.Above depth (depth data.key) := by
    rintro d hd r hr (hid | hkey)
    . have habout := (h.about d hd).about hw0.ids h.keeps hr hid
      constructor
      . intro _
        rw [habout.1.parentKey]
        exact hdepth d hd
      . intro htrusted
        rw [habout.2] at htrusted
        cases htrusted
    . have hlt := hdepth d hd
      rw [← hkey] at hlt
      exact ⟨fun htrusted => Nat.lt_trans (hw.numbered r hr htrusted) hlt, fun _ => hlt⟩
  have hinv : ValidateInv depth w₀ w' stack := by
    apply h.of_revokes hrevokes hchain (.changes (.verifyChildObjs hobjs))
    intro d hd r hr hrow
    have hr' := habove d hd r hr hrow
    exact ⟨hr'.not_below, hr'.unlisted (hw.keyed r hr) (by simp [PropData.key]) w.crl⟩
  apply hinv.push hw0.ids hw0.keyed _ hdepth
  obtain ⟨p, hp, hvalid, hpkey, hunlisted⟩ := hparent
  have hbelow : ¬p.ident.Below (AtLeast depth (depth data.key)) := by
    rintro ⟨htrusted, _, _⟩
    have hlt := hw.numbered p hp htrusted
    rw [hpkey] at hlt
    omega
  obtain ⟨p', hp', heq, hvalid'⟩ := hrevokes.kept p hp ⟨hbelow, hunlisted⟩
  exact ⟨p', hp', hvalid' hvalid, by rw [heq, hpkey]⟩

theorem check (h : ValidateInv depth w₀ w (data :: stack)) {goOn : Bool}
    (hcheck : verifyChildCert.check env fuel w data = some (goOn, w'))
    : ValidateInv depth w₀ w' stack
      ∧ (goOn = true → ∃ p ∈ w'.cert, p.flags.valid = true ∧ p.localId = data.id) := by
  unfold verifyChildCert.check at hcheck
  split at hcheck
  . cases hcheck
    refine ⟨?_, fun hfalse => by cases hfalse⟩
    apply h.pop hw0.ids (fun _ _ => Iff.rfl) (fun r hr _ => ⟨r, hr, rfl⟩) h.ids (.refl w)
  obtain ⟨⟨_, w1⟩, hverify, hcheck⟩ := bind_eq_some_iff.mp hcheck
  have hrows : SameRows w w1 := .verifyCert hverify
  have hsame : SameValid w w1 := .sameRows hrows
  have h1 : ValidateInv depth w₀ w1 (data :: stack) :=
    h.of_revokes (P := fun _ => True) hsame.revokes (hsame.localChain h.chain) (.sameRows hrows)
      fun _ _ _ _ _ => trivial
  dsimp only at hcheck
  split at hcheck
  . cases hcheck
    exact ⟨h1.delete hw0.ids, fun hfalse => by cases hfalse⟩
  cases hcheck
  refine ⟨h1.validate hw0.ids, fun _ => ?_⟩
  obtain ⟨r, hr, hid, _⟩ := h1.waiting data mem_cons_self
  refine ⟨{ r with flags := validFlags data.flags true }, ?_, valid_validFlags .., hid⟩
  exact mem_updateValidFlags_cert.mpr (.inr ⟨r, hr, hid, rfl⟩)

theorem visit (h : ValidateInv depth w₀ w (data :: stack)) {doIt : Bool}
    (hvisit : verifyChildCert env fuel w data true = some (doIt, w'))
    : ValidateInv depth w₀ w'
      (if doIt then (childrenSrch w' data true).reverse ++ stack else stack) := by
  unfold verifyChildCert at hvisit
  rw [if_pos rfl] at hvisit
  obtain ⟨⟨_, _⟩, hcheck, hvisit⟩ := bind_eq_some_iff.mp hvisit
  obtain ⟨h1, hvalid⟩ := h.check hw0 hcheck
  dsimp only at hvisit
  split at hvisit
  . next hgoOn =>
    obtain ⟨_, hobjs, hvisit⟩ := bind_eq_some_iff.mp hvisit
    cases hvisit
    rw [if_pos rfl]
    obtain ⟨p, hp, hpvalid, hid⟩ := hvalid hgoOn
    have habout := (h.about data mem_cons_self).about hw0.ids h1.keeps hp hid
    have hlt := (h1.validatable hw0).numbered p hp habout.2
    rw [habout.1.parentKey, habout.1.key] at hlt
    apply h1.descend hw0 hobjs
    . intro d hd
      have hle := (pairwise_cons.mp h.sorted).1 d hd
      omega
    refine ⟨p, hp, hpvalid, habout.1.key, ?_⟩
    intro hparent
    rw [habout.1.parentKey] at hparent
    rw [hparent] at hlt
    omega
  . cases hvisit
    exact h1

end

end ValidateInv

theorem verifyChildren_spec {w w' : World} (hw : Validatable depth w) (hchain : LocalChain w)
    {ski subject : String} {aki issuer : Option String}
    (hroot : ∃ p ∈ w.cert, p.flags.valid = true ∧ p.ident.key = (some ski, subject)
      ∧ p.ident.Unlisted w.crl (some ski, subject))
    (h : verifyChildren env fuel w ski subject aki issuer certId = some w')
    : LocalChain w' ∧ Keeps w w' ∧ w'.UniqueIds := by
  obtain ⟨_, _, _, hvisit, hloop⟩ := propagate_root h
  have hinv : ValidateInv depth w w [] := by
    constructor
    . exact .refl w
    . exact hw.ids
    . exact .refl w
    . exact hchain
    all_goals simp
  unfold verifyChildCert at hvisit
  simp only [Bool.false_eq_true, if_false, bind_eq_bind, bind_some, if_true,
    bind_eq_some_iff] at hvisit
  obtain ⟨_, hobjs, hvisit⟩ := hvisit
  cases hvisit
  have hpushed := hinv.descend hw hobjs (by simp) hroot
  rw [append_nil] at hpushed
  rw [if_pos rfl] at hloop
  have hend := propagate_invariant (fun _ _ _ _ _ hinv hvisit => hinv.visit hw hvisit) hpushed hloop
  exact ⟨hend.chain, hend.keeps, hend.ids⟩

end Rpstir.Sqhl
