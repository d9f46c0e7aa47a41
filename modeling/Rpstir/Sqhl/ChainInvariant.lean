import Rpstir.Sqhl.Chain
import Rpstir.Sqhl.Lemmas.Preserved
import Rpstir.Sqhl.Lemmas.ValidateLoop

/-!
This module contains the chain invariant of the certificate table: every valid certificate has a path of
valid certificates to a trust anchor.
-/

namespace Rpstir.Sqhl

open List Option

variable {env : Env}

inductive Chained (w : World) : CertRow → Prop where
  | anchor {r : CertRow} (htrusted : r.flags.has Flags.trusted = true) : Chained w r
  | parent {r p : CertRow} (hp : p ∈ w.cert) (hvalid : p.flags.valid = true)
      (haki : r.aki = some p.ski) (hissuer : r.issuer = p.subject) (hnext : Chained w p)
      : Chained w r

variable {depth : Key → Nat} {op : Op}

theorem Chained.not_of_closed {w : World} {S : CertRow → Prop}
    (hclosed : ∀ r ∈ w.cert, S r → r.flags.has Flags.trusted = false
      ∧ ∀ p ∈ w.cert, r.issuer = p.subject → S p) {r : CertRow} (h : Chained w r)
    (hr : r ∈ w.cert) : ¬S r := by
  intro hS
  induction h with
  | anchor htrusted =>
    rw [(hclosed _ hr hS).1] at htrusted
    cases htrusted
  | parent hp _ _ hissuer _ ih => exact ih hp ((hclosed _ hr hS).2 _ hp hissuer)

/--
What is asked of a certificate that is added to the rows of `w`: it makes no cycle, it does not name
its own SKI as its issuer's unless it is a trust anchor, and if it is one, then no CRL of its own that
has been stored before revokes it. The files of the stored CRLs have not been changed.
-/
structure AddOrderly (w : World) (x : X509) (ski subject : String) (utrust : Bool) : Prop where
  numbered : ∃ depth : Key → Nat, Numbered depth w
    ∧ (utrust = false → depth (x.aki, x.issuer) < depth (some ski, subject))
  noSelf : utrust = false → x.aki ≠ some ski
  unrevoked : utrust = true → ∀ c ∈ w.crl, c.aki = some ski → c.issuer = subject → x.sn ∉ c.snlist
  files : CrlFiles w

def Op.Orderly (w : World) : Op → Prop
  | .addCert _ outfull _ utrust _ => ∀ x ski subject, w.fs outfull = some (.cert x)
      → x.ski = some ski → x.subject = some subject → AddOrderly w x ski subject utrust
  | .addRoa .. | .addManifest .. | .addGhostbusters .. => False
  | .findorcreatedir _ | .addCrl .. | .deleteObject .. | .outside .. => True

theorem Op.Orderly.adds {w : World} (h : op.Orderly w) : op.Adds AddOrderly w := by
  cases op <;> exact h

structure ChainInv (w : World) : Prop where
  ids : w.UniqueIds
  keyed : ∀ r ∈ w.cert, r.ident.WellKeyed
  numbered : ∃ depth, Numbered depth w
  chain : LocalChain w
  signed : NoSigned w

namespace ChainInv

variable {w w' : World}

variable {fuel : Nat} {res : Except Err Unit}

theorem of_keeps (h : ChainInv w) (hids : w'.UniqueIds) (hkeeps : Keeps w w')
    (hchain : LocalChain w') (hsigned : NoSigned w') : ChainInv w' where
  ids := hids
  keyed := hkeeps.forall_ident h.keyed
  numbered := by
    obtain ⟨depth, hnum⟩ := h.numbered
    exact ⟨depth, hkeeps.forall_ident
      (P := fun i => i.trusted = false → depth i.parentKey < depth i.key) hnum⟩
  chain := hchain
  signed := hsigned

theorem of_sameValid (h : ChainInv w) (hsame : SameValid w w') (hsigned : NoSigned w')
    : ChainInv w' := by
  have hrevokes : Revokes (fun _ => True) w w' := hsame.revokes
  exact h.of_keeps (hrevokes.ids.nodup h.ids) hrevokes.weakens.keeps (hsame.localChain h.chain)
    hsigned

theorem of_sameRows (h : ChainInv w) (hsame : SameRows w w') : ChainInv w' :=
  h.of_sameValid (.sameRows hsame) ((Within.sameRows hsame).signed h.signed)

theorem same (h : ChainInv w) (hcert : w'.cert = w.cert) (hroa : w'.roa = w.roa)
    (hmanifest : w'.manifest = w.manifest) (hgbr : w'.gbr = w.gbr) : ChainInv w' :=
  h.of_sameValid (.of_cert_eq hcert) (h.signed.same hroa hmanifest hgbr)

-- everything is below the set of all keys, so nothing is said about what a revocation spares
theorem closed (h : ChainInv w) : Closed (fun _ => True) w where
  ids := h.ids
  keyed := h.keyed
  closed := fun _ _ _ => trivial

theorem revokeSerials (env : Env) {x : X509Crl} (h : ChainInv w)
    (hrevoke : revokeSerials fuel w x = some w') : ChainInv w' := by
  have hchanges : Changes env w w' := .revokeSerials hrevoke
  obtain ⟨hrevokes, hchain⟩ := revokeSerials_spec h.closed h.chain trivial hrevoke
  exact h.of_keeps (hrevokes.ids.nodup h.ids) hrevokes.weakens.keeps hchain
    ((Within.changes hchanges).signed h.signed)

theorem deleteObject_cert (env : Env) {outfile : String} {id : Nat} (h : ChainInv w)
    (hdelete : deleteObject.cert fuel w outfile id = some (res, w')) : ChainInv w' := by
  have hsigned : NoSigned w' := by
    have hchanges : Changes env w w' := .deleteObject_cert hdelete
    exact (Within.changes hchanges).signed h.signed
  unfold deleteObject.cert at hdelete
  split at hdelete
  . cases hdelete
    exact h
  obtain ⟨w1, hrevoke, hdelete⟩ := bind_eq_some_iff.mp hdelete
  cases hdelete
  obtain ⟨hrevokes, hchain, hgone⟩ := revokeRows_spec h.ids h.closed h.chain (.refl w)
    (fun row hrow => ⟨mem_of_mem_filter hrow, trivial⟩) hrevoke
  -- the rows have been deleted one by one before the last statement deletes them by name
  have hcert : (w1.deleteWhere .cert (isObj outfile id)).cert = w1.cert := by
    apply filter_eq_self.mpr
    intro r1 hr1
    obtain ⟨r, hr, heq, _⟩ := hrevokes.weakens r1 hr1
    by_contra hobj
    have hname : r1.filename = r.filename := congrArg CertIdent.filename heq
    have hdir : r1.dirId = r.dirId := congrArg CertIdent.dirId heq
    apply hgone r _ r1 hr1 (congrArg CertIdent.localId heq)
    rw [mem_filter]
    refine ⟨hr, ?_⟩
    simpa [isObj, hname, hdir] using hobj
  have hsame : SameValid w1 (w1.deleteWhere .cert (isObj outfile id)) := .of_cert_eq hcert
  apply h.of_keeps
  . unfold World.UniqueIds
    rw [hcert]
    exact hrevokes.ids.nodup h.ids
  . exact hrevokes.weakens.keeps.trans (Weakens.of_cert_eq hcert).keeps
  . exact hsame.localChain hchain
  . exact hsigned

theorem deleteWhere {tab : Table} (h : ChainInv w) (htab : tab ≠ .cert) (p : Obj → Bool)
    : ChainInv (w.deleteWhere tab p) := by
  apply h.of_sameValid
  . cases tab <;> first | contradiction | exact .of_cert_eq rfl
  . exact (Within.deleteWhere w tab p).signed h.signed

theorem of_validatable (h : Validatable depth w) (hchain : LocalChain w)
    : ChainInv w where
  ids := h.ids
  keyed := h.keyed
  numbered := ⟨depth, h.numbered⟩
  chain := hchain
  signed := h.signed

theorem insertAt (env : Env) (h : ChainInv w) (hnum : Numbered depth w) (hfiles : CrlFiles w)
    {row : CertRow} (n : Nat) (hsigval : row.sigval = .unknown) (hid : row.localId = w.nextId .cert)
    (hkeyed : row.ident.WellKeyed)
    (hlt : row.ident.trusted = false → depth row.ident.parentKey < depth row.ident.key)
    (hsup : row.flags.valid = true → Supported w row)
    : Validatable depth { w with cert := insertAt n row w.cert }
      ∧ LocalChain { w with cert := insertAt n row w.cert } := by
  have hstep : Step env w { w with cert := Sqhl.insertAt n row w.cert } :=
    .insert n row hsigval hid
  refine ⟨⟨h.ids.step hstep, ?_, ?_, hfiles, ⟨h.signed.roa, h.signed.manifest, h.signed.gbr⟩⟩, ?_⟩
  . intro r hr
    rcases mem_insertAt.mp hr with rfl | hr
    . exact hkeyed
    . exact h.keyed r hr
  . intro r hr
    rcases mem_insertAt.mp hr with rfl | hr
    . exact hlt
    . exact hnum r hr
  intro r hr hvalid
  have hmono : Supported w r → Supported { w with cert := Sqhl.insertAt n row w.cert } r :=
    fun hsup => hsup.mono fun p hp _ => mem_insertAt.mpr (.inr hp)
  rcases mem_insertAt.mp hr with rfl | hr
  . exact hmono (hsup hvalid)
  . exact hmono (h.chain r hr hvalid)

theorem insert (h : ChainInv w) {fuel : Nat} {x : X509} {ski subject : String} {utrust : Bool}
    {v : Verdict} {w1 w2 : World} {row : CertRow} (hord : AddOrderly w x ski subject utrust)
    (hself : utrust = true → (x.aki = none ∨ x.aki = some ski) ∧ subject = x.issuer)
    (hverify : verifyCert env fuel w x utrust x.aki (some x.issuer) = some (v, w1))
    (hrow : Inserted env w1 x ski subject utrust v row w2)
    : ∃ depth, Validatable depth w2 ∧ LocalChain w2 ∧ row ∈ w2.cert ∧ row.flags.valid = v.chainOK
      ∧ row.ident.Unlisted w2.crl row.ident.key := by
  obtain ⟨⟨depth, hnum, hlt⟩, hnoSelf, hunrevoked, hfiles⟩ := hord
  have hrows : SameRows w w1 := .verifyCert hverify
  have h1 := h.of_sameRows hrows
  have hkeeps : Keeps w w1 := .sameValid (.sameRows hrows)
  have hkeyed : row.ident.WellKeyed := by
    constructor
    . intro hfalse heq
      have haki' : x.aki = some ski := by
        rw [← show row.ident.aki = x.aki from congrArg Prod.fst hrow.parentKey, heq]
        exact congrArg Prod.fst hrow.key
      exact hnoSelf (hrow.trusted.symm.trans hfalse) haki'
    intro htrue
    obtain ⟨haki, hnames⟩ := hself (hrow.trusted.symm.trans htrue)
    rcases haki with haki | haki
    . left
      exact (congrArg Prod.fst hrow.parentKey).trans haki
    . right
      rw [hrow.parentKey, hrow.key, haki, hnames]
  have hsup : row.flags.valid = true → Supported w1 row := by
    intro hvalid
    rw [hrow.valid] at hvalid
    cases utrust with
    | true => exact .inl hrow.trusted
    | false =>
      obtain ⟨_, hp, hpvalid, hpski, hpsubject⟩ := exists_parent_of_chainOK hverify hvalid
      obtain ⟨p', hp', heq, hpvalid'⟩ := (SameValid.sameRows hrows).exists_mem hp
      refine .inr ⟨p', hp', hpvalid'.trans hpvalid, ?_⟩
      rw [heq, hrow.parentKey]
      exact Prod.ext hpski hpsubject
  obtain ⟨hvalidatable, hchain⟩ := h1.insertAt env
    (hkeeps.forall_ident (P := fun i => i.trusted = false → depth i.parentKey < depth i.key) hnum)
    (hfiles.within (.sameRows hrows)) (env.place .cert (w1.objs .cert) row.toObj) hrow.sigval hrow.id
    hkeyed (by rw [hrow.trusted, hrow.parentKey, hrow.key]; exact hlt) hsup
  rw [← hrow.eq] at hvalidatable hchain
  refine ⟨depth, hvalidatable, hchain, ?_, hrow.valid, ?_⟩
  . rw [hrow.eq]
    exact mem_insertAt.mpr (.inl rfl)
  rw [hrow.key, hrow.eq]
  rw [hrows.crl]
  intro heq c hc hc'
  rw [hrow.parentKey] at heq
  rw [hrow.sn]
  cases utrust with
  | false =>
    have hlt := hlt rfl
    rw [heq] at hlt
    omega
  | true => exact hunrevoked rfl c hc (congrArg Prod.fst hc') (congrArg Prod.snd hc')

theorem preserved : Preserved env AddOrderly ChainInv where
  start := by
    intro _ _ _ _
    constructor
    . exact nodup_nil
    . exact fun r hr => by cases hr
    . exact ⟨fun _ => 0, fun r hr => by cases hr⟩
    . exact fun r hr => by cases hr
    . exact ⟨rfl, rfl, rfl⟩
  same := same
  sameRows := of_sameRows
  deleteWhere := deleteWhere
  deleteObject_cert := deleteObject_cert env
  revokeSerials := revokeSerials env
  constraining := fun h _ => ⟨h.numbered, h.noSelf, h.unrevoked, h.files⟩
  insert := by
    intro _ _ w2 _ _ _ _ _ _ row h hord hself hverify hrow
    obtain ⟨_, hw2, hlocal, hmem, hvalid, hunlisted⟩ := h.insert hord hself hverify hrow
    have h2 : ChainInv w2 := of_validatable hw2 hlocal
    refine ⟨h2, fun w3 hchain hchildren => ?_⟩
    obtain ⟨hlocal', hkeeps, hids⟩ := verifyChildren_spec hw2 hlocal
      ⟨row, hmem, hvalid.trans hchain, rfl, hunlisted⟩ hchildren
    exact h2.of_keeps hids hkeeps hlocal'
      ((Within.changes (.verifyChildren hchildren)).signed hw2.signed)

theorem chained (h : ChainInv w) {r : CertRow} (hr : r ∈ w.cert) (hvalid : r.flags.valid = true)
    : Chained w r := by
  obtain ⟨depth, hnum⟩ := h.numbered
  generalize hn : depth r.ident.key = n
  induction n using Nat.strongRecOn generalizing r with
  | ind n ih =>
    rcases h.chain r hr hvalid with htrusted | ⟨_, hp, hparent⟩
    . exact .anchor htrusted
    by_cases htrusted : r.flags.has Flags.trusted = true
    . exact .anchor htrusted
    . have hlt := hnum r hr (by simpa [CertRow.ident] using htrusted)
      rw [← hparent.key, hn] at hlt
      exact .parent hp hparent.valid (congrArg Prod.fst hparent.key).symm
        (congrArg Prod.snd hparent.key).symm (ih _ hlt hp hparent.valid rfl)

end ChainInv

theorem chained_of_reachable {w : World} (hreach : ((lts env).restrict Op.Orderly).Reachable w)
    {r : CertRow} (hr : r ∈ w.cert) (hvalid : r.flags.valid = true) : Chained w r := by
  have hinv : ChainInv w := ChainInv.preserved.of_reachable Op.Orderly.adds hreach
  exact hinv.chained hr hvalid

def Op.orderlyBy (depth : Key → Nat) (w : World) : Op → Bool
  | .addCert _ outfull _ utrust _ =>
    match w.fs outfull with
    | some (.cert x) =>
      decide (∀ r ∈ w.cert, r.ident.trusted = false → depth r.ident.parentKey < depth r.ident.key)
        && (utrust || (decide (depth (x.aki, x.issuer) < depth (x.ski, x.subject.getD ""))
          && decide (x.aki ≠ x.ski)))
        && decide (w.crl = [])
    | _ => true
  | .addRoa .. | .addManifest .. | .addGhostbusters .. => false
  | .findorcreatedir _ | .addCrl .. | .deleteObject .. | .outside .. => true

theorem Op.orderly_of_orderlyBy {w : World} (h : op.orderlyBy depth w = true) : op.Orderly w := by
  cases op with
  | addCert =>
    intro _ _ _ hfile hski hsubject
    simp only [orderlyBy, hfile, hski, hsubject, getD_some, Bool.and_eq_true, Bool.or_eq_true,
      decide_eq_true_eq] at h
    obtain ⟨⟨hnum, hnew⟩, hcrl⟩ := h
    constructor
    . refine ⟨depth, hnum, ?_⟩
      rintro rfl
      simpa using hnew.resolve_left (by decide) |>.1
    . rintro rfl
      simpa using (hnew.resolve_left (by decide)).2
    . simp [hcrl]
    . simp [CrlFiles, hcrl]
  | addRoa
  | addManifest
  | addGhostbusters => cases h
  | findorcreatedir
  | addCrl
  | deleteObject
  | outside => trivial

theorem chained_of_reachable_waiting
    : ∃ w, ((lts Env.plain).restrict Op.Orderly).Reachable w
      ∧ ∃ r ∈ w.cert, r.subject = "C" ∧ r.flags.valid = true ∧ Chained w r := by
  let depth : Key → Nat := fun k => if k.2 = "T" then 0 else if k.2 = "A" then 1 else 2
  let ops : List Op := [.findorcreatedir "/r", .addPlain "C.cer" false, .addPlain "T.cer" true,
    .addPlain "A.cer" false]
  let start := World.start "/r" (plainFiles [("T.cer", .cert (X509.plain "T" "T" 1 1)),
    ("A.cer", .cert (X509.plain "A" "T" 2 1)), ("C.cer", .cert (X509.plain "C" "A" 3 2))]) 50 false
  have h : (ops.foldlM (fun w op => if Op.orderlyBy depth w op then Op.run Env.plain 10 w op else none)
      start).map (fun w => decide (∃ r ∈ w.cert, r.subject = "C" ∧ r.flags.valid = true))
      = some true := by decide
  obtain ⟨w, hrun, h⟩ := map_eq_some_iff.mp h
  have hreach : ((lts Env.plain).restrict Op.Orderly).Reachable w :=
    reachable_of_allowed Op.orderly_of_orderlyBy hrun
  obtain ⟨r, hr, hsubject, hvalid⟩ := of_decide_eq_true h
  exact ⟨w, hreach, r, hr, hsubject, hvalid, chained_of_reachable hreach hr hvalid⟩

def cyclicRun : Option World :=
  plainRun
    [("T.cer", .cert (X509.plain "T" "T" 1 1)), ("A1.cer", .cert (X509.plain "A" "T" 2 1)),
      ("B.cer", .cert (X509.plain "B" "A" 3 2)), ("A2.cer", .cert (X509.plain "A" "B" 4 3))]
    [.addPlain "T.cer" true, .addPlain "A1.cer" false, .addPlain "B.cer" false,
      .addPlain "A2.cer" false, .deleteObject "A1.cer" "/r"]

/--
Two certificates that are each other's parents keep each other valid when the certificate that led
from them to the trust anchor is deleted.
-/
theorem not_chained_of_reachable
    : ∃ w, (lts Env.plain).Reachable w ∧ ∃ r ∈ w.cert, r.flags.valid = true ∧ ¬Chained w r := by
  have h : cyclicRun.map (fun w => decide ((∃ r ∈ w.cert, r.flags.valid = true ∧ r.subject = "B")
      ∧ ∀ r ∈ w.cert, r.subject ≠ "T" → r.flags.has Flags.trusted = false
        ∧ ∀ p ∈ w.cert, r.issuer = p.subject → p.subject ≠ "T")) = some true := by decide
  obtain ⟨w, hrun, h⟩ := map_eq_some_iff.mp h
  obtain ⟨⟨r, hr, hvalid, hsubject⟩, hclosed⟩ := of_decide_eq_true h
  refine ⟨w, reachable_of_plainRun hrun, r, hr, hvalid, ?_⟩
  intro hchained
  apply hchained.not_of_closed hclosed hr
  rw [hsubject]
  decide

theorem uniqueIds_of_reachable {w : World} (hreach : (lts env).Reachable w) : w.UniqueIds := by
  apply invariant_of_step hreach
  . intro w hcert
    rw [World.UniqueIds, hcert]
    exact nodup_nil
  . intro w _ hids hstep
    exact hids.step hstep

theorem uniqueIds_of_reachable_cyclic : ∃ w ∈ cyclicRun, w.UniqueIds := by
  obtain ⟨w, hrun⟩ := isSome_iff_exists.mp (by decide : cyclicRun.isSome)
  exact ⟨w, hrun, uniqueIds_of_reachable (reachable_of_plainRun hrun)⟩

end Rpstir.Sqhl
