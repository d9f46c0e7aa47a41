import Mathlib.Data.List.Pairwise
import Rpstir.Sqhl.Lemmas.Revoke

/-!
This module contains the effect of the validation loop below a certificate that arrives, in a database
without signed objects whose certificates can be numbered along their parents.
-/

namespace Rpstir.Sqhl

open List Option

variable {env : Env}

structure CrlIdent where
  filename : String
  dirId : Nat
  aki : Option String
  issuer : String
  snlist : List (List UInt8)

def CrlRow.ident (c : CrlRow) : CrlIdent where
  filename := c.filename
  dirId := c.dirId
  aki := c.aki
  issuer := c.issuer
  snlist := c.snlist

structure NoSigned (w : World) : Prop where
  roa : w.roa = []
  manifest : w.manifest = []
  gbr : w.gbr = []

theorem NoSigned.same {w w' : World} (h : NoSigned w) (hroa : w'.roa = w.roa)
    (hmanifest : w'.manifest = w.manifest) (hgbr : w'.gbr = w.gbr) : NoSigned w' where
  roa := hroa.trans h.roa
  manifest := hmanifest.trans h.manifest
  gbr := hgbr.trans h.gbr

structure Within (w w' : World) : Prop where
  dir : w'.dir = w.dir
  fs : w'.fs = w.fs
  crl : ∀ c' ∈ w'.crl, ∃ c ∈ w.crl, c'.ident = c.ident
  signed : NoSigned w → NoSigned w'

namespace Within

variable {w w' w'' : World}

theorem refl (w : World) : Within w w where
  dir := rfl
  fs := rfl
  crl := fun c hc => ⟨c, hc, rfl⟩
  signed := id

theorem trans (h : Within w w') (h' : Within w' w'') : Within w w'' where
  dir := h'.dir.trans h.dir
  fs := h'.fs.trans h.fs
  crl := by
    intro c'' hc''
    obtain ⟨c', hc', heq'⟩ := h'.crl c'' hc''
    obtain ⟨c, hc, heq⟩ := h.crl c' hc'
    exact ⟨c, hc, heq'.trans heq⟩
  signed := fun hsigned => h'.signed (h.signed hsigned)

theorem sameRows (h : SameRows w w') : Within w w' where
  dir := h.dir
  fs := h.fs
  crl := by
    intro c hc
    rw [h.crl] at hc
    exact ⟨c, hc, rfl⟩
  signed := by
    intro hsigned
    constructor
    . have hroa := h.roa
      rw [hsigned.roa] at hroa
      exact map_eq_nil_iff.mp hroa
    . rw [h.manifest, hsigned.manifest]
    . rw [h.gbr, hsigned.gbr]

theorem updateByLid (w : World) (tab : Table) (lid : Nat) {f : Obj → Obj}
    (hf : ∀ o, ∃ flags hash, f o = { o with flags := flags, hash := hash })
    : Within w (w.updateByLid tab lid f) where
  dir := by cases tab <;> rfl
  fs := by cases tab <;> rfl
  crl := by
    intro c' hc'
    cases tab with
    | crl =>
      obtain ⟨c, hc, rfl⟩ := List.mem_map.mp hc'
      refine ⟨c, hc, ?_⟩
      split
      . obtain ⟨flags, hash, heq⟩ := hf c.toObj
        simp [CrlRow.ident, heq]
      . rfl
    | cert
    | roa
    | manifest
    | gbr => exact ⟨c', hc', rfl⟩
  signed := by
    intro hsigned
    cases tab <;> constructor <;> simp [World.updateByLid, hsigned.roa, hsigned.manifest, hsigned.gbr]

theorem deleteWhere (w : World) (tab : Table) (p : Obj → Bool)
    : Within w (w.deleteWhere tab p) where
  dir := by cases tab <;> rfl
  fs := by cases tab <;> rfl
  crl := by
    intro c hc
    cases tab with
    | crl => exact ⟨c, mem_of_mem_filter hc, rfl⟩
    | cert
    | roa
    | manifest
    | gbr => exact ⟨c, hc, rfl⟩
  signed := by
    intro hsigned
    cases tab <;> constructor <;> simp [World.deleteWhere, hsigned.roa, hsigned.manifest, hsigned.gbr]

theorem change (h : Change env w w') : Within w w' := by
  cases h with
  | update tab lid _ hf => exact updateByLid w tab lid hf
  | delete tab p => exact deleteWhere w tab p
  | verify x pkey => exact sameRows (.localVerify w x pkey)
  | roaSigval =>
    constructor
    . rfl
    . rfl
    . exact fun c hc => ⟨c, hc, rfl⟩
    intro hsigned
    constructor
    . simp [setRoaSigval, hsigned.roa]
    . exact hsigned.manifest
    . exact hsigned.gbr
  | sameDb hsame => exact sameRows hsame.sameRows

theorem changes (h : Changes env w w') : Within w w' := by
  induction h with
  | refl => exact refl w
  | tail _ hchange ih => exact ih.trans (change hchange)

end Within

variable {w w' : World}

def CrlFiles (w : World) : Prop :=
  ∀ c ∈ w.crl, ∀ x, w.fs (w.path c.toObj) = some (.crl x)
    → x.aki = c.aki ∧ x.issuer = c.issuer ∧ x.snlist = c.snlist

variable {fuel : Nat} {B : Key → Prop} {data d : PropData} {i : CertIdent} {c : CrlRow}

theorem Within.path (h : Within w w') {c' : CrlRow} (heq : c'.ident = c.ident)
    : w'.path c'.toObj = w.path c.toObj := by
  have hdir : c'.dirId = c.dirId := congrArg CrlIdent.dirId heq
  have hname : c'.filename = c.filename := congrArg CrlIdent.filename heq
  unfold World.path World.dirname
  rw [h.dir, hdir, hname]

theorem CrlFiles.within (h : CrlFiles w) (hwithin : Within w w') : CrlFiles w' := by
  intro c' hc' x hfile
  obtain ⟨c, hc, heq⟩ := hwithin.crl c' hc'
  rw [hwithin.path heq, hwithin.fs] at hfile
  rw [show c'.aki = c.aki from congrArg CrlIdent.aki heq,
    show c'.issuer = c.issuer from congrArg CrlIdent.issuer heq,
    show c'.snlist = c.snlist from congrArg CrlIdent.snlist heq]
  exact h c hc x hfile

theorem verifyChildCRL_check_cert (env : Env) (w : World) (c : CrlRow)
    : (verifyChildCRL.check env w c).2.cert = w.cert := by
  unfold verifyChildCRL.check
  split
  . next x _ =>
    split
    . rfl
    have hcert := (SameDb.verifyCrl env w x x.aki (some x.issuer)).cert
    dsimp only
    split
    . exact hcert
    . exact hcert
  . rfl

theorem verifyChildCRL_check_file {x : X509Crl} (h : verifyChildCRL.check env w c = (some x, w'))
    : w.fs (w.path c.toObj) = some (.crl x) := by
  unfold verifyChildCRL.check at h
  split at h
  . next hfile =>
    split at h
    . cases h
    dsimp only at h
    split at h
    . cases h
    . cases h
      exact hfile
  . cases h

def CertIdent.Unlisted (crls : List CrlRow) (k : Key) (i : CertIdent) : Prop :=
  i.parentKey = k → ∀ c ∈ crls, (c.aki, c.issuer) = k → i.sn ∉ c.snlist

theorem verifyChildCRL_spec (hclosed : Closed B w) (hlocal : LocalChain w)
    (hkey : B (c.aki, c.issuer)) (hfile : ∀ x, w.fs (w.path c.toObj) = some (.crl x)
      → x.aki = c.aki ∧ x.issuer = c.issuer ∧ x.snlist = c.snlist)
    (h : verifyChildCRL env fuel w c = some w')
    : Revokes (fun i => ¬i.Below B ∧ ¬(i.parentKey = (c.aki, c.issuer) ∧ i.sn ∈ c.snlist)) w w'
      ∧ LocalChain w' := by
  have hcert := verifyChildCRL_check_cert env w c
  unfold verifyChildCRL at h
  split at h
  . next w1 hcheck =>
    cases h
    rw [hcheck] at hcert
    exact ⟨.of_cert_eq hcert, (SameValid.of_cert_eq hcert).localChain hlocal⟩
  next x w1 hcheck =>
  rw [hcheck] at hcert
  obtain ⟨haki, hissuer, hsnlist⟩ := hfile x (verifyChildCRL_check_file hcheck)
  rw [← haki, ← hissuer] at hkey
  have hsame : SameValid w w1 := .of_cert_eq hcert
  obtain ⟨hrevokes, hlocal'⟩ := revokeSerials_spec (hsame.closed hclosed)
    (hsame.localChain hlocal) hkey h
  rw [haki, hissuer, hsnlist] at hrevokes
  exact ⟨hsame.revokes.trans hrevokes, hlocal'⟩

theorem foldlM_verifyChildCRL_spec {k : Key} (hkey : B k) {w0 : World} (hfiles : CrlFiles w0)
    {crls : List CrlRow} (hcrls : ∀ c ∈ crls, c ∈ w0.crl ∧ (c.aki, c.issuer) = k)
    (hwithin : Within w0 w) (hclosed : Closed B w) (hlocal : LocalChain w)
    (h : crls.foldlM (verifyChildCRL env fuel) w = some w')
    : Revokes (fun i => ¬i.Below B ∧ i.Unlisted w0.crl k) w w' ∧ LocalChain w' := by
  induction crls generalizing w with
  | nil =>
    cases h
    exact ⟨.of_cert_eq rfl, hlocal⟩
  | cons c crls ih =>
    obtain ⟨_, hcrl, h⟩ := bind_eq_some_iff.mp h
    obtain ⟨hc, rfl⟩ := hcrls c mem_cons_self
    obtain ⟨hrevokes, hlocal1⟩ := verifyChildCRL_spec hclosed hlocal hkey (fun x hfile => by
      rw [hwithin.path rfl, hwithin.fs] at hfile
      exact hfiles c hc x hfile) hcrl
    obtain ⟨hrevokes', hlocal'⟩ := ih (fun c hc => hcrls c (mem_cons_of_mem _ hc))
      (hwithin.trans (.changes (.verifyChildCRL hcrl))) (hrevokes.closed hclosed) hlocal1 h
    refine ⟨.trans (hrevokes.mono ?_) hrevokes', hlocal'⟩
    rintro i ⟨hbelow, hunlisted⟩
    exact ⟨hbelow, fun hi => hunlisted hi.1 c hc rfl hi.2⟩

def PropData.key (d : PropData) : Key := (some d.ski, d.subject)

def PropData.parentKey (d : PropData) : Key := (d.aki, d.issuer.getD "")

theorem PropData.About.parentKey (h : d.About i) : i.parentKey = d.parentKey := by
  unfold CertIdent.parentKey PropData.parentKey
  rw [← h.aki, ← h.issuer, getD_some]

theorem PropData.About.key (h : d.About i) : i.key = d.key := by
  unfold CertIdent.key PropData.key
  rw [← h.ski, ← h.subject]

theorem verifyChildObjs_of_noSigned (hsigned : NoSigned w)
    (h : verifyChildObjs env fuel w data = some w')
    : verifyChildCrls env fuel w data = some w' := by
  unfold verifyChildObjs at h
  obtain ⟨w1, hcrls, h⟩ := bind_eq_some_iff.mp h
  have hsigned1 : NoSigned w1 :=
    (Within.changes (.foldlM (fun _ _ _ _ => .verifyChildCRL) hcrls)).signed hsigned
  have hgbrs : verifyChildGbrs w1 data = w1 := by
    simp [verifyChildGbrs, hsigned1.gbr]
  have hroas : verifyChildRoas env w1 data = w1 := by
    simp [verifyChildRoas, hsigned1.roa]
  have hmfts : verifyChildMfts env fuel w1 data = some w1 := by
    simp [verifyChildMfts, hsigned1.manifest]
  dsimp only at h
  rw [hgbrs, hroas, hmfts] at h
  rw [hcrls, h]

theorem verifyChildObjs_spec (hsigned : NoSigned w) (hfiles : CrlFiles w) (hclosed : Closed B w)
    (hlocal : LocalChain w) (hkey : B data.key) (h : verifyChildObjs env fuel w data = some w')
    : Revokes (fun i => ¬i.Below B ∧ i.Unlisted w.crl data.key) w w' ∧ LocalChain w' := by
  have hcrls := verifyChildObjs_of_noSigned hsigned h
  apply foldlM_verifyChildCRL_spec hkey hfiles _ (.refl w) hclosed hlocal hcrls
  intro _ hc
  simp only [mem_filter, Bool.and_eq_true, decide_eq_true_eq] at hc
  exact ⟨hc.1, Prod.ext hc.2.1.1 hc.2.1.2⟩

end Rpstir.Sqhl
