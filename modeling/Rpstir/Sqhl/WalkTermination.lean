import Rpstir.Sqhl.ChainInvariant

/-!
This module contains the termination of the walk from a certificate to a trust anchor, as long as no
certificate is added that closes a cycle of parents.
-/

namespace Rpstir.Sqhl

open List Option

variable {env : Env} {w w' : World}

def CertIdent.walkKey (i : CertIdent) : Key := (some (i.aki.getD ""), i.issuer)

def WalkNumbered (depth : Key → Nat) (w : World) : Prop :=
  ∀ r ∈ w.cert, r.ident.trusted = false → depth r.ident.walkKey < depth r.ident.key

variable {depth : Key → Nat} {op : Op}

theorem WalkNumbered.of_keeps (h : WalkNumbered depth w) (hkeeps : Keeps w w')
    : WalkNumbered depth w' :=
  hkeeps.forall_ident (P := fun i => i.trusted = false → depth i.walkKey < depth i.key) h

theorem parentWalk_isSome (hnum : WalkNumbered depth w) {n : Nat} {ski subject : Option String}
    (hlt : ∀ r, ParentRow w ski subject r → depth r.ident.key < n) (untrusted : List X509)
    : (parentWalk (n + 2) w ski subject untrusted).isSome = true := by
  induction n generalizing w ski subject untrusted with
  | zero =>
    apply parentWalk_stop
    intro r hr _
    exact absurd (hlt r hr) (Nat.not_lt_zero _)
  | succ n ih =>
    by_cases hnext : ∃ r, ParentRow w ski subject r ∧ r.flags.has Flags.trusted = false
        ∧ w.certSrch ≠ .byAKI
    . obtain ⟨r, hr, htrusted, hsrch⟩ := hnext
      obtain ⟨_, hread⟩ := hr.readable
      obtain ⟨_, hsame, heq⟩ := parentWalk_succ hr.pick hread htrusted hsrch (n + 2) untrusted
      rw [heq]
      apply ih (hnum.of_keeps (.of_cert_eq hsame.cert))
      intro r' hr'
      obtain ⟨_, hski, hsubject⟩ := (hsame.symm.parentRow hr').mem
      have hkey : r'.ident.key = r.ident.walkKey := Prod.ext hski.symm (hsubject _ rfl)
      have hdepth := hnum r hr.mem.1 htrusted
      have hdepth' := hlt r hr
      rw [hkey]
      omega
    . apply parentWalk_stop
      intro r hr htrusted
      by_contra hsrch
      exact hnext ⟨r, hr, htrusted, hsrch⟩

def AddAcyclic (w : World) (x : X509) (ski subject : String) (utrust : Bool) : Prop :=
  ∃ depth : Key → Nat, WalkNumbered depth w
    ∧ (utrust = false → depth (some (x.aki.getD ""), x.issuer) < depth (some ski, subject))

def Op.Acyclic (w : World) : Op → Prop
  | .addCert _ outfull _ utrust _ => ∀ x ski subject, w.fs outfull = some (.cert x)
      → x.ski = some ski → x.subject = some subject → AddAcyclic w x ski subject utrust
  | .addRoa .. | .addManifest .. | .addGhostbusters .. => False
  | .findorcreatedir _ | .addCrl .. | .deleteObject .. | .outside .. => True

theorem Op.Acyclic.adds (h : op.Acyclic w) : op.Adds AddAcyclic w := by
  cases op <;> exact h

structure WalkInv (w : World) : Prop where
  ids : w.UniqueIds
  numbered : ∃ depth, WalkNumbered depth w
  signed : NoSigned w

namespace WalkInv

section

variable (h : WalkInv w)

include h

theorem of_keeps (hids : w'.UniqueIds) (hkeeps : Keeps w w') (hsigned : NoSigned w')
    : WalkInv w' where
  ids := hids
  numbered := by
    obtain ⟨depth, hnum⟩ := h.numbered
    exact ⟨depth, hnum.of_keeps hkeeps⟩
  signed := hsigned

theorem changes (hchanges : Changes env w w') (hkeeps : Keeps w w') : WalkInv w' :=
  h.of_keeps (h.ids.sublist hchanges.ids_sublist) hkeeps ((Within.changes hchanges).signed h.signed)

theorem same (hcert : w'.cert = w.cert) (hroa : w'.roa = w.roa)
    (hmanifest : w'.manifest = w.manifest) (hgbr : w'.gbr = w.gbr) : WalkInv w' := by
  apply h.of_keeps _ (.of_cert_eq hcert) (h.signed.same hroa hmanifest hgbr)
  unfold World.UniqueIds
  rw [hcert]
  exact h.ids

theorem insert {x : X509} {ski subject : String} {utrust : Bool} {v : Verdict}
    {row : CertRow} (hadd : AddAcyclic w x ski subject utrust)
    (hrow : Inserted env w x ski subject utrust v row w') : WalkInv w' := by
  obtain ⟨depth, hnum, hlt⟩ := hadd
  rw [hrow.eq]
  have hstep : Step env w
      { w with cert := insertAt (env.place .cert (w.objs .cert) row.toObj) row w.cert } :=
    .insert _ row hrow.sigval hrow.id
  refine ⟨h.ids.step hstep, ⟨depth, ?_⟩, ⟨h.signed.roa, h.signed.manifest, h.signed.gbr⟩⟩
  intro r hr
  rcases mem_insertAt.mp hr with rfl | hr
  . intro htrusted
    have hkey : r.ident.walkKey = (some (x.aki.getD ""), x.issuer) := by
      rw [← show r.ident.aki = x.aki from congrArg Prod.fst hrow.parentKey,
        ← show r.ident.issuer = x.issuer from congrArg Prod.snd hrow.parentKey]
      rfl
    rw [hkey, hrow.key]
    exact hlt (hrow.trusted.symm.trans htrusted)
  . exact hnum r hr

theorem of_sameRows (hsame : SameRows w w') : WalkInv w' := by
  have hrevokes : Revokes (fun _ => True) w w' := (SameValid.sameRows hsame).revokes
  exact h.of_keeps (hrevokes.ids.nodup h.ids) hrevokes.weakens.keeps
    ((Within.sameRows hsame).signed h.signed)

end

theorem preserved (env : Env) : Preserved env AddAcyclic WalkInv where
  start := by
    intro _ _ _ _
    constructor
    . exact nodup_nil
    . exact ⟨fun _ => 0, fun r hr => by cases hr⟩
    . exact ⟨rfl, rfl, rfl⟩
  same := same
  sameRows := of_sameRows
  deleteWhere := by
    intro w tab h _ p
    have hchanges : Changes env w (w.deleteWhere tab p) := .single (.delete tab p)
    exact h.changes hchanges (Weakens.deleteWhere w tab p).keeps
  deleteObject_cert := by
    intro w w' fuel _ _ _ h hdelete
    have hchanges : Changes env w w' := .deleteObject_cert hdelete
    exact h.changes hchanges (.deleteObject_cert env h.ids hdelete)
  revokeSerials := by
    intro w w' fuel x h hrevoke
    have hchanges : Changes env w w' := .revokeSerials hrevoke
    exact h.changes hchanges (.revokeSerials env h.ids hrevoke)
  constraining := fun h _ => h
  insert := by
    intro w w1 _ fuel x _ _ _ _ _ h hadd _ hverify hrow
    obtain ⟨depth, hnum, hlt⟩ := hadd
    have hrows : SameRows w w1 := .verifyCert hverify
    have h2 := (h.of_sameRows hrows).insert
      ⟨depth, hnum.of_keeps (.sameValid (.sameRows hrows)), hlt⟩ hrow
    refine ⟨h2, fun w3 _ hchildren => ?_⟩
    exact h2.changes (.verifyChildren hchildren) (.verifyChildren h2.ids h2.signed hchildren)

end WalkInv

theorem parentWalk_terminates (hreach : ((lts env).restrict Op.Acyclic).Reachable w)
    (ski subject : Option String)
    : ∃ fuel, (parentWalk fuel w ski subject []).isSome = true := by
  obtain ⟨depth, hnum⟩ := ((WalkInv.preserved env).of_reachable Op.Acyclic.adds hreach).numbered
  let n := ((w.cert.map fun r => depth r.ident.key).foldr max 0) + 1
  refine ⟨n + 2, parentWalk_isSome hnum ?_ []⟩
  intro r hr
  apply Nat.lt_succ_of_le
  apply le_foldr_max
  exact List.mem_map_of_mem hr.mem.1

def Op.acyclicBy (depth : Key → Nat) (w : World) : Op → Bool
  | .addCert _ outfull _ utrust _ =>
    match w.fs outfull with
    | some (.cert x) =>
      decide (∀ r ∈ w.cert, r.ident.trusted = false → depth r.ident.walkKey < depth r.ident.key)
        && (utrust
          || decide (depth (some (x.aki.getD ""), x.issuer) < depth (x.ski, x.subject.getD "")))
    | _ => true
  | .addRoa .. | .addManifest .. | .addGhostbusters .. => false
  | .findorcreatedir _ | .addCrl .. | .deleteObject .. | .outside .. => true

theorem Op.acyclic_of_acyclicBy (h : op.acyclicBy depth w = true) : op.Acyclic w := by
  cases op with
  | addCert =>
    intro _ _ _ hfile hski hsubject
    simp only [acyclicBy, hfile, hski, hsubject, getD_some, Bool.and_eq_true,
      Bool.or_eq_true, decide_eq_true_eq] at h
    refine ⟨depth, h.1, ?_⟩
    rintro rfl
    exact h.2.resolve_left (by decide)
  | addRoa
  | addManifest
  | addGhostbusters => cases h
  | findorcreatedir
  | addCrl
  | deleteObject
  | outside => trivial

theorem parentWalk_eq_none {S : Option String → Option String → Prop}
    (hloop : ∀ ski subject, S ski subject → ∃ r, ParentRow w ski subject r
      ∧ r.flags.has Flags.trusted = false ∧ S (some (r.aki.getD "")) (some r.issuer))
    (hsrch : w.certSrch ≠ .byAKI) {ski subject : Option String} (h : S ski subject) (fuel : Nat)
    (untrusted : List X509) : parentWalk fuel w ski subject untrusted = none := by
  induction fuel generalizing w ski subject untrusted with
  | zero => rfl
  | succ fuel ih =>
    obtain ⟨r, hr, htrusted, hnext⟩ := hloop ski subject h
    obtain ⟨_, hread⟩ := hr.readable
    obtain ⟨_, hsame, heq⟩ := parentWalk_succ hr.pick hread htrusted hsrch fuel untrusted
    rw [heq]
    apply ih _ _ hnext
    . intro ski subject h
      obtain ⟨r, hr, hrest⟩ := hloop ski subject h
      exact ⟨r, hsame.parentRow hr, hrest⟩
    . rw [ne_eq, hsame.byAKI]
      exact hsrch

theorem parentWalk_terminates_anchor
    : ∃ w, ((lts Env.plain).restrict Op.Acyclic).Reachable w ∧ w.cert.length = 2
      ∧ ∃ fuel, (parentWalk fuel w (some "A") (some "A") []).isSome = true := by
  let depth : Key → Nat := fun k => if k.2 = "T" then 0 else 1
  let ops : List Op := [.findorcreatedir "/r", .addPlain "T.cer" true, .addPlain "A.cer" false]
  let start := World.start "/r" (plainFiles [("T.cer", .cert (X509.plain "T" "T" 1 1)),
    ("A.cer", .cert (X509.plain "A" "T" 2 1))]) 50 false
  have h : (ops.foldlM (fun w op => if Op.acyclicBy depth w op then Op.run Env.plain 10 w op else none)
      start).map (fun w => w.cert.length) = some 2 := by decide
  obtain ⟨w, hrun, h⟩ := map_eq_some_iff.mp h
  have hreach : ((lts Env.plain).restrict Op.Acyclic).Reachable w :=
    reachable_of_allowed Op.acyclic_of_acyclicBy hrun
  exact ⟨w, hreach, h, parentWalk_terminates hreach _ _⟩

/--
Two certificates that are each other's parents stay valid when the certificate that led from them to
the trust anchor is deleted, and the walk from one to the other does not end.
-/
theorem parentWalk_loops
    : ∃ w, (lts Env.plain).Reachable w
      ∧ ∀ fuel, parentWalk fuel w (some "A") (some "A") [] = none := by
  let keys : List (Option String × Option String) :=
    [(some "A", some "A"), (some "B", some "B")]
  have h : cyclicRun.map (fun w => decide (w.certSrch ≠ .byAKI ∧ ∀ k ∈ keys, ∃ r ∈ w.cert,
      pickRow w (parentRows w k.1 k.2) = some r ∧ (readCertFromFile w (w.path r.toObj)).isSome = true
        ∧ r.flags.has Flags.trusted = false ∧ (some (r.aki.getD ""), some r.issuer) ∈ keys))
      = some true := by decide
  obtain ⟨w, hrun, h⟩ := map_eq_some_iff.mp h
  obtain ⟨hsrch, hloop⟩ := of_decide_eq_true h
  refine ⟨w, reachable_of_plainRun hrun, fun fuel => ?_⟩
  apply parentWalk_eq_none (S := fun ski subject => (ski, subject) ∈ keys) _ hsrch
  . exact mem_cons_self
  . intro ski subject hkey
    obtain ⟨r, _, hpick, hread, htrusted, hnext⟩ := hloop (ski, subject) hkey
    exact ⟨r, ⟨hpick, isSome_iff_exists.mp hread⟩, htrusted, hnext⟩

end Rpstir.Sqhl
