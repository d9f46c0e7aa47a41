import Rpstir.Sqhl.Chain
import Rpstir.Sqhl.Lemmas.Coverage
import Rpstir.Sqhl.Lemmas.Memo

/-!
This module contains the exact effect of the validation loop on a table without cross-certificates.
-/

namespace Rpstir.Sqhl

open List Option

deriving instance Inhabited for X509

def World.certOf (w : World) (r : CertRow) : X509 :=
  (readCertFromFile w (w.path r.toObj)).getD default

theorem PlainTable.readCertFromFile {w : World} (h : PlainTable w) {r : CertRow} (hr : r ∈ w.cert)
    : readCertFromFile w (w.path r.toObj) = some (w.certOf r) := by
  obtain ⟨_, hread⟩ := isSome_iff_exists.mp (h.files r hr)
  rw [World.certOf, hread]
  rfl

abbrev CertChain := List X509 × X509

namespace Validation

variable {w₀ w w' : World} {V D : Nat → Bool} {r : CertRow}

def validate (V : Nat → Bool) (r : CertRow) : CertRow :=
  if V r.localId then { r with flags := validFlags r.flags true } else r

@[simp]
theorem localId_validate (V : Nat → Bool) (r : CertRow) : (validate V r).localId = r.localId := by
  unfold validate
  split <;> rfl

theorem ident_validate (V : Nat → Bool) (r : CertRow) : (validate V r).ident = r.ident := by
  unfold validate
  split
  . simp [CertRow.ident, trusted_validFlags]
  . rfl

theorem path_validate (w : World) (V : Nat → Bool) (r : CertRow)
    : w.path (validate V r).toObj = w.path r.toObj := by
  unfold validate
  split <;> rfl

theorem unmarked_validate (V : Nat → Bool) (r : CertRow)
    : (validate V r).unmarked = (V r.localId || r.unmarked) := by
  unfold validate CertRow.unmarked
  split
  . next h =>
    rw [h, Flags.test_false_eq_not_test_true, Flags.test_nochain]
    simp [validFlags, Flags.nochain]
  . next h => simp [h]

theorem para_validate (V : Nat → Bool) (r : CertRow)
    : (validate V r).flags &&& paraFlags = r.flags &&& paraFlags := by
  unfold validate
  split
  . have hnochain : ~~~Flags.nochain &&& paraFlags = paraFlags := by decide
    have hvalidated : Flags.validated &&& paraFlags = 0 := by decide
    simp only [validFlags, if_true]
    rw [BitVec.and_assoc, hnochain, BitVec.and_or_distrib_right, hvalidated]
    exact BitVec.or_zero
  . rfl

theorem valid_validate (V : Nat → Bool) (r : CertRow)
    : (validate V r).flags.valid = (V r.localId || r.flags.valid) := by
  unfold validate
  split
  . next h => simp [h, valid_validFlags]
  . next h => simp [h]

variable {fuel : Nat} {env : Env}

theorem unmarked_of_valid {flags : Flags} (h : flags.valid = true)
    : flags.test Flags.nochain false = true := by
  rw [Flags.valid_eq, Bool.and_eq_true] at h
  rw [Flags.test_false_eq_not_test_true, Flags.test_nochain]
  exact h.2

def applied (w : World) (V D : Nat → Bool) : World :=
  { w with cert := (w.cert.filter fun r => !D r.localId).map (validate V) }

theorem mem_applied {r' : CertRow}
    : r' ∈ (applied w₀ V D).cert ↔ ∃ r ∈ w₀.cert, D r.localId = false ∧ r' = validate V r := by
  simp only [applied, List.mem_map, mem_filter, Bool.not_eq_true', and_assoc, eq_comm (a := r')]

structure At (w₀ : World) (V D : Nat → Bool) (w : World) : Prop where
  rows : SameRows (applied w₀ V D) w
  byAKI : w.certSrch = .byAKI ↔ w₀.certSrch = .byAKI

namespace At

theorem start (w : World) : At w (fun _ => false) (fun _ => false) w where
  rows := by
    have hvalidate : validate (fun _ => false) = id := by
      funext r
      rfl
    have heq : applied w (fun _ => false) (fun _ => false) = w := by
      simp [applied, hvalidate]
    rw [heq]
    exact .refl w
  byAKI := .rfl

section

variable (h : At w₀ V D w)

include h

theorem sameParents (hsame : SameParents w w') : At w₀ V D w' where
  rows := h.rows.trans hsame.sameRows
  byAKI := hsame.byAKI.trans h.byAKI

theorem checkit (x : X509) (uchain tchain : List X509)
    : At w₀ V D (checkit env w x uchain tchain).2 where
  rows := h.rows.trans (rel_checkit SameRows.refl SameRows.trans SameRows.localVerify w x uchain tchain)
  byAKI := by
    have hsrch : ∀ (w : World) x pkey, (localVerify env w x pkey).2.certSrch = w.certSrch := by
      intro w x pkey
      unfold localVerify X509.cacheSigval setCertSigval
      split
      . rfl
      . rfl
      . dsimp only
        repeat' split
        all_goals rfl
    have heq := rel_checkit (r := fun w w' => w'.certSrch = w.certSrch) (fun _ => rfl)
      (fun h h' => h'.trans h) hsrch w x uchain tchain
    rw [heq]
    exact h.byAKI

theorem path (o : Obj) : w.path o = w₀.path o := by
  simp only [World.path, World.dirname, h.rows.dir]
  rfl

theorem readCertFromFile (path : String)
    : readCertFromFile w path = readCertFromFile w₀ path := by
  simp only [Sqhl.readCertFromFile, h.rows.fs]
  rfl

theorem mem_iff {c : CertRow}
    : c ∈ w.cert.map CertRow.uncached
      ↔ ∃ r ∈ w₀.cert, D r.localId = false ∧ c = (validate V r).uncached := by
  simp [h.rows.cert, applied, and_assoc, eq_comm (a := c)]

theorem exists_row (hr : r ∈ w₀.cert) (hD : D r.localId = false)
    : ∃ r' ∈ w.cert, r'.uncached = (validate V r).uncached :=
  List.mem_map.mp (h.mem_iff.mpr ⟨r, hr, hD, rfl⟩)

theorem exists_origin {r' : CertRow} (hr' : r' ∈ w.cert)
    : ∃ r ∈ w₀.cert, D r.localId = false ∧ r'.uncached = (validate V r).uncached :=
  h.mem_iff.mp (List.mem_map_of_mem hr')

end

end At

variable {r' : CertRow}

section

variable (h : r'.uncached = (validate V r).uncached)

include h

theorem ident_of_uncached : r'.ident = r.ident :=
  (congrArg CertRow.ident h :).trans (ident_validate V r)

theorem flags_of_uncached : r'.flags = (validate V r).flags :=
  congrArg (·.flags) h

theorem unmarked_of_uncached : r'.unmarked = (V r.localId || r.unmarked) :=
  (congrArg CertRow.unmarked h :).trans (unmarked_validate V r)

theorem path_of_uncached (w : World) : w.path r'.toObj = w.path r.toObj :=
  (congrArg (fun r => w.path r.toObj) h :).trans (path_validate w V r)

end

namespace At

theorem keys (htable : PlainTable w₀) (h : At w₀ V D w)
    : (w.cert.map fun r => r.ident.key).Nodup := by
  rw [h.rows.map_cert (fun r => r.ident.key) fun _ => rfl]
  simp only [applied, List.map_map]
  have hkey : (fun r : CertRow => r.ident.key) ∘ validate V = fun r => r.ident.key := by
    funext r
    simp only [Function.comp_apply, ident_validate]
  rw [hkey]
  exact htable.keys.sublist ((filter_sublist ..).map _)

theorem parentRow (htable : PlainTable w₀) (h : At w₀ V D w) (hr : r ∈ w₀.cert)
    (hD : D r.localId = false) (hvalid : (validate V r).flags.valid = true)
    : ∃ r' : CertRow, r'.uncached = (validate V r).uncached
      ∧ pickRow w (parentRows w (some r.ski) (some r.subject)) = some r'
      ∧ Sqhl.readCertFromFile w (w.path r'.toObj) = some (w₀.certOf r) := by
  obtain ⟨r', hr', heq⟩ := h.exists_row hr hD
  have hident := ident_of_uncached heq
  have hflags := flags_of_uncached heq
  have hski : r'.ski = r.ski := congrArg CertIdent.ski hident
  have hsubject : r'.subject = r.subject := congrArg CertIdent.subject hident
  have hrows : parentRows w (some r.ski) (some r.subject) = [r'] := by
    have hkeys := h.keys htable
    rw [← perm_singleton, parentRows,
      perm_ext_iff_of_nodup (hkeys.of_map.filter _) (nodup_singleton r')]
    intro _
    simp only [mem_filter, isParentRow, Bool.and_eq_true, decide_eq_true_eq,
      isNone_some, Bool.false_or, some.injEq, mem_singleton]
    constructor
    . rintro ⟨hr'', ⟨hski', hsubject'⟩, _⟩
      apply inj_on_of_nodup_map hkeys hr'' hr'
      exact Prod.ext (congrArg some (hski'.trans hski.symm)) (hsubject'.symm.trans hsubject.symm)
    . rintro rfl
      exact ⟨hr', ⟨hski, hsubject.symm⟩, hflags ▸ hvalid⟩
  have hpara : r'.flags.has (Flags.istarget ||| Flags.hasparacert) = false := by
    rw [hflags]
    have hzero := para_validate V r
    rw [htable.para r hr] at hzero
    unfold Flags.has
    have hmask : paraFlags &&& (Flags.istarget ||| Flags.hasparacert)
        = Flags.istarget ||| Flags.hasparacert := by decide
    rw [← hmask, ← BitVec.and_assoc, hzero]
    decide
  refine ⟨r', heq, ?_, ?_⟩
  . rw [hrows]
    simp only [pickRow, hpara, Bool.false_eq_true, if_false]
  . rw [h.path, h.readCertFromFile, path_of_uncached heq]
    exact htable.readCertFromFile hr

end At

inductive ChainTo (w : World) (V : Nat → Bool) : Key → CertChain → Prop where
  | anchor {r : CertRow} (hr : r ∈ w.cert) (hvalid : (validate V r).flags.valid = true)
      (htrusted : r.flags.has Flags.trusted = true) : ChainTo w V r.ident.key ([], w.certOf r)
  | parent {r : CertRow} {c : CertChain} (hr : r ∈ w.cert)
      (hvalid : (validate V r).flags.valid = true) (htrusted : r.flags.has Flags.trusted = false)
      (hnext : ChainTo w V r.ident.parentKey c) : ChainTo w V r.ident.key (w.certOf r :: c.1, c.2)

/--
A chain of the row through any rows of the table, whether they have a chain yet or not.
-/
abbrev HasChain (w : World) (r : CertRow) (c : CertChain) : Prop :=
  ChainTo w (fun _ => true) r.ident.parentKey c

def CheckedSignature (env : Env) (w : World) (s : Signature) : Prop :=
  ∃ r ∈ w.cert, ∃ c, HasChain w r c
    ∧ ∃ chain, env.chainOf (w.certOf r) c.1 [c.2] = .ok chain ∧ s ∈ signatures env chain

/--
The check of a row against a chain is the predicate `passes`, and the answers that are kept in the table
do not get in its way.
-/
structure ChecksBy (env : Env) (w : World) (passes : X509 → CertChain → Bool) : Prop where
  answer : ∀ r ∈ w.cert, ∀ c, HasChain w r c
    → verifyAnswer env (w.certOf r) c.1 [c.2] (internalVerify env) = if passes (w.certOf r) c then 1 else 0
  reliable : Reliable env (CheckedSignature env w) w

namespace ChainTo

variable {k : Key} {c : CertChain}

theorem exists_row (h : ChainTo w V k c)
    : ∃ r ∈ w.cert, r.ident.key = k ∧ (validate V r).flags.valid = true := by
  cases h with
  | anchor hr hvalid
  | parent hr hvalid => exact ⟨_, hr, rfl, hvalid⟩

theorem mono {V' : Nat → Bool} (hV : ∀ id, V id = true → V' id = true) (h : ChainTo w V k c)
    : ChainTo w V' k c := by
  have hvalid : ∀ r, (validate V r).flags.valid = true → (validate V' r).flags.valid = true := by
    intro r h
    rw [valid_validate, Bool.or_eq_true] at h ⊢
    exact h.imp_left (hV _)
  induction h with
  | anchor hr hv htrusted => exact .anchor hr (hvalid _ hv) htrusted
  | parent hr hv htrusted _ ih => exact .parent hr (hvalid _ hv) htrusted ih

end ChainTo

namespace At

variable {k : Key} {c : CertChain}

theorem parentWalk (htable : PlainTable w₀) (h : At w₀ V D w)
    (hD : ∀ r ∈ w₀.cert, (validate V r).flags.valid = true → D r.localId = false)
    (hchain : ChainTo w₀ V k c) (hsrch : w₀.certSrch = .byAKI → c.1 = [])
    (hfuel : c.1.length < fuel) (untrusted : List X509)
    : ∃ w', At w₀ V D w'
      ∧ parentWalk fuel w k.1 (some k.2) untrusted = some ((untrusted ++ c.1, some c.2), w') := by
  induction hchain generalizing w fuel untrusted with
  | anchor hr hvalid htrusted =>
    obtain ⟨fuel, rfl⟩ : ∃ fuel', fuel = fuel' + 1 := ⟨fuel - 1, by simp at hfuel; omega⟩
    obtain ⟨r', heq, hpick, hread⟩ := h.parentRow htable hr (hD _ hr hvalid) hvalid
    have htrusted' := (congrArg CertIdent.trusted (ident_of_uncached heq)).trans htrusted
    obtain ⟨w1, hsame, hwalk⟩ := parentWalk_anchor hpick hread htrusted' fuel untrusted
    refine ⟨w1, h.sameParents hsame, ?_⟩
    rw [append_nil]
    exact hwalk
  | @parent r c hr hvalid htrusted hnext ih =>
    obtain ⟨fuel, rfl⟩ : ∃ fuel', fuel = fuel' + 1 := ⟨fuel - 1, by omega⟩
    obtain ⟨r', heq, hpick, hread⟩ := h.parentRow htable hr (hD _ hr hvalid) hvalid
    have hident := ident_of_uncached heq
    have htrusted' := (congrArg CertIdent.trusted hident).trans htrusted
    have hsrch' : w.certSrch ≠ .byAKI := fun hsrch' => cons_ne_nil _ _ (hsrch (h.byAKI.mp hsrch'))
    obtain ⟨w1, hsame, hwalk⟩ := parentWalk_succ hpick hread htrusted' hsrch' fuel untrusted
    obtain ⟨w', hat, hrest⟩ := ih (h.sameParents hsame)
      (fun hsrch' => absurd (hsrch hsrch') (cons_ne_nil _ _)) (by simpa using hfuel)
      (untrusted ++ [w₀.certOf r])
    refine ⟨w', hat, ?_⟩
    -- the row above has a key identifier, so the `aki` of this row is not NULL
    have hkey : (some (r'.aki.getD ""), r'.issuer) = r.ident.parentKey := by
      have hparent : r'.ident.parentKey = r.ident.parentKey := by rw [hident]
      obtain ⟨p, _, hp, _⟩ := hnext.exists_row
      rw [← hparent] at hp ⊢
      have haki : r'.aki = some p.ski := (congrArg Prod.fst hp).symm
      simp [CertIdent.parentKey, CertRow.ident, haki]
    rw [← hkey] at hrest
    refine (hwalk.trans hrest).trans ?_
    simp

end At

/--
Whether `verifyChildCert` lets a row pass that has the chain `c`. If the static search was set up by
`find_cert_by_aKI` then the walk ends above a parent that is not a trust anchor, and a certificate
without a chain is not checked.
-/
def judge (w : World) (passes : X509 → CertChain → Bool) (r : CertRow) (c : CertChain) : Bool :=
  (w.certSrch = .byAKI && c.1 ≠ []) || passes (w.certOf r) c

namespace At

variable {env : Env} {passes : X509 → CertChain → Bool} {k : Key} {c : CertChain}

theorem verifyCert (htable : PlainTable w₀) (henv : ChecksBy env w₀ passes) (h : At w₀ V D w)
    (hreliable : Reliable env (CheckedSignature env w₀) w)
    (hD : ∀ r ∈ w₀.cert, (validate V r).flags.valid = true → D r.localId = false) (hr : r ∈ w₀.cert)
    (hchain : ChainTo w₀ V r.ident.parentKey c) (hfuel : c.1.length + 1 < fuel)
    : ∃ v w', At w₀ V D w' ∧ Reliable env (CheckedSignature env w₀) w'
      ∧ verifyCert env fuel w (w₀.certOf r) false r.ident.parentKey.1 (some r.ident.parentKey.2)
        = some (v, w')
      ∧ v.sta = if judge w₀ passes r c then .ok () else .error .notValid := by
  have hsameDb {w1 : World} (hsame : SameDb w w1) : Reliable env (CheckedSignature env w₀) w1 := by
    apply hreliable.of_rows
    intro r' hr'
    rw [hsame.cert] at hr'
    exact ⟨r', hr', rfl, rfl, rfl⟩
  unfold Sqhl.verifyCert
  by_cases hsrch : w₀.certSrch = .byAKI ∧ c.1 ≠ []
  . have hjudge : judge w₀ passes r c = true := by simp [judge, hsrch]
    generalize r.ident.parentKey = k at hchain
    cases hchain with
    | anchor => exact absurd rfl hsrch.2
    | parent hr hvalid htrusted =>
      obtain ⟨fuel, rfl⟩ : ∃ fuel', fuel = fuel' + 2 := ⟨fuel - 2, by omega⟩
      obtain ⟨r', heq, hpick, hread⟩ := h.parentRow htable hr (hD _ hr hvalid) hvalid
      have htrusted' := (congrArg CertIdent.trusted (ident_of_uncached heq)).trans htrusted
      obtain ⟨w1, hsame, hwalk⟩ := parentWalk_byAKI hpick hread htrusted' (h.byAKI.mpr hsrch.1) fuel []
      refine ⟨⟨.ok (), false⟩, w1, h.sameParents hsame, hsameDb (SameDb.parentWalk hwalk), ?_, ?_⟩
      . simp only [Bool.false_eq_true, if_false, CertIdent.key, CertRow.ident, hwalk,
          bind_eq_bind, bind_some]
        rfl
      . rw [hjudge]
        rfl
  have hjudge : judge w₀ passes r c = passes (w₀.certOf r) c := by
    rw [judge, ← Bool.decide_and, decide_eq_false hsrch, Bool.false_or]
  have hnil : w₀.certSrch = .byAKI → c.1 = [] := fun hbyAKI => by_contra fun hne => hsrch ⟨hbyAKI, hne⟩
  obtain ⟨w1, hat, hwalk⟩ := h.parentWalk htable hD hchain hnil (show _ < fuel by omega) []
  have hchecked : At w₀ V D (Sqhl.checkit env w1 (w₀.certOf r) c.1 [c.2]).2 := hat.checkit _ _ _
  have hchain' : HasChain w₀ r c := hchain.mono fun _ _ => rfl
  obtain ⟨hsta, hreliable'⟩ := (hsameDb (SameDb.parentWalk hwalk)).checkit
    fun chain hchain s hs => ⟨r, hr, c, hchain', chain, hchain, hs⟩
  refine ⟨⟨(Sqhl.checkit env w1 (w₀.certOf r) c.1 [c.2]).1, true⟩, _, hchecked, hreliable', ?_, ?_⟩
  . simp only [Bool.false_eq_true, if_false, hwalk, bind_eq_bind, bind_some]
    rfl
  . rw [hjudge, hsta, henv.answer r hr c hchain']
    cases passes (w₀.certOf r) c <;> rfl

theorem updateValidFlags (hids : w₀.UniqueIds) (h : At w₀ V D w) (hr : r ∈ w₀.cert)
    : At w₀ (fun id => V id || id == r.localId) D
      (updateValidFlags w .cert r.localId r.flags true) where
  rows := by
    refine { h.rows with cert := ?_ }
    let update (c : CertRow) : CertRow :=
      if c.localId = r.localId then { c with flags := validFlags r.flags true } else c
    have hcomm (l : List CertRow)
        : (l.map update).map CertRow.uncached = (l.map CertRow.uncached).map update := by
      rw [List.map_map, List.map_map]
      apply map_congr_left
      intro c _
      exact apply_ite CertRow.uncached (c.localId = r.localId) _ c
    have happlied : ((w₀.cert.filter fun r => !D r.localId).map (validate V)).map update
        = (w₀.cert.filter fun r => !D r.localId).map (validate fun id => V id || id == r.localId) := by
      rw [List.map_map]
      apply map_congr_left
      intro c hc
      simp only [Function.comp_apply, update, localId_validate]
      by_cases hid : c.localId = r.localId
      . obtain rfl := hids.eq (mem_filter.mp hc).1 hr hid
        simp only [if_true, validate, beq_self_eq_true, Bool.or_true]
        split <;> rfl
      . simp [hid, validate]
    change (w.cert.map update).map CertRow.uncached = _
    rw [hcomm, h.rows.cert, applied, applied, ← happlied, hcomm]
  byAKI := h.byAKI

theorem deletebylid (h : At w₀ V D w) (lid : Nat)
    : At w₀ V (fun id => D id || id == lid) (w.deletebylid .cert lid) where
  rows := by
    refine { h.rows with cert := ?_ }
    let keep (c : CertRow) : Bool := !decide (c.localId = lid)
    have hkeep : keep ∘ CertRow.uncached = keep := rfl
    have hkeep' : keep ∘ validate V = keep := by
      funext c
      simp only [Function.comp_apply, keep, localId_validate]
    change (w.cert.filter keep).map CertRow.uncached = _
    rw [← hkeep, ← List.filter_map, h.rows.cert, List.filter_map, hkeep, applied]
    simp only [List.filter_map, hkeep', List.filter_filter]
    congr 2
    apply filter_congr
    intro c _
    rw [Bool.not_or, Bool.and_comm]
    rfl
  byAKI := h.byAKI

end At

theorem verifyChildObjs_eq (env : Env) (fuel : Nat) (hcrl : w.crl = []) (hsigned : NoSigned w)
    (data : PropData) : verifyChildObjs env fuel w data = some w := by
  simp [verifyChildObjs, verifyChildCrls, verifyChildGbrs, verifyChildRoas, verifyChildMfts, hcrl,
    hsigned.roa, hsigned.manifest, hsigned.gbr]

theorem At.verifyChildObjs (htable : PlainTable w₀) (h : At w₀ V D w) (data : PropData)
    : verifyChildObjs env fuel w data = some w := by
  apply verifyChildObjs_eq
  . exact h.rows.crl.trans htable.crl
  . refine ⟨?_, h.rows.manifest.trans htable.signed.manifest, h.rows.gbr.trans htable.signed.gbr⟩
    have hroa := h.rows.roa
    rwa [show (applied w₀ V D).roa = [] from htable.signed.roa, map_nil, map_eq_nil_iff]
      at hroa

variable {passes : X509 → CertChain → Bool}

theorem At.verifyChildCert {c : CertChain} (htable : PlainTable w₀) (henv : ChecksBy env w₀ passes)
    (h : At w₀ V D w) (hreliable : Reliable env (CheckedSignature env w₀) w)
    (hD : ∀ r ∈ w₀.cert, (validate V r).flags.valid = true → D r.localId = false)
    (hr : r ∈ w₀.cert) (hchain : ChainTo w₀ V r.ident.parentKey c) (hfuel : c.1.length + 1 < fuel)
    : ∃ w', verifyChildCert env fuel w (registerChild w₀ r) true = some (judge w₀ passes r c, w')
      ∧ Reliable env (CheckedSignature env w₀) w'
      ∧ (judge w₀ passes r c = true → At w₀ (fun id => V id || id == r.localId) D w')
      ∧ (judge w₀ passes r c = false → At w₀ V (fun id => D id || id == r.localId) w') := by
  obtain ⟨_, w1, hat, hreliable1, hverify, hsta⟩ :=
    h.verifyCert htable henv hreliable hD hr hchain hfuel
  have hread : Sqhl.readCertFromFile w
      ((registerChild w₀ r).dirname ++ "/" ++ (registerChild w₀ r).filename) = some (w₀.certOf r) := by
    rw [h.readCertFromFile]
    exact htable.readCertFromFile hr
  have haki : (registerChild w₀ r).aki = r.ident.parentKey.1 := by
    obtain ⟨_, _, hp, _⟩ := hchain.exists_row
    exact Invalidation.aki_registerChild w₀ (congrArg Prod.fst hp).symm
  have hcheck : verifyChildCert.check env fuel w (registerChild w₀ r)
      = some (if judge w₀ passes r c then
          (true, Sqhl.updateValidFlags w1 .cert r.localId r.flags true)
        else
          (false, w1.deletebylid .cert r.localId)) := by
    unfold verifyChildCert.check
    rw [hread]
    dsimp only
    rw [haki, show (registerChild w₀ r).issuer = some r.ident.parentKey.2 from rfl, hverify]
    simp only [bind_eq_bind, bind_some, hsta]
    cases judge w₀ passes r c with
    | true
    | false => rfl
  unfold Sqhl.verifyChildCert
  rw [if_pos rfl, hcheck]
  cases hjudge : judge w₀ passes r c with
  | true =>
    have hat' := hat.updateValidFlags htable.ids hr
    refine ⟨_, ?_, hreliable1.of_rows ?_, fun _ => hat', (nomatch ·)⟩
    . simp only [if_true, bind_eq_bind, bind_some, hat'.verifyChildObjs htable]
      rfl
    . intro r' hr'
      obtain ⟨r₀, hr0, heq⟩ := World.mem_updateByLid_cert hr'
      rw [heq]
      exact ⟨r₀, hr0, rfl, rfl, rfl⟩
  | false =>
    refine ⟨_, rfl, hreliable1.of_rows ?_, (nomatch ·), fun _ => hat.deletebylid r.localId⟩
    intro r' hr'
    exact ⟨r', World.mem_deleteWhere_cert hr', rfl, rfl, rfl⟩

theorem unmarked_eq_not (r : CertRow) : r.unmarked = !r.flags.test Flags.nochain true :=
  Flags.test_false_eq_not_test_true ..

theorem At.mem_childrenSrch (h : At w₀ V D w) {data d : PropData}
    : d ∈ childrenSrch w data true
      ↔ ∃ r ∈ w₀.cert, SearchLink (Invalidation.key data) r ∧ r.unmarked = false
        ∧ V r.localId = false ∧ D r.localId = false ∧ d = registerChild w₀ r := by
  have hchild {r r' : CertRow} (heq : r'.uncached = (validate V r).uncached)
      : isChildRow data.ski data.subject true r' = true
        ↔ SearchLink (Invalidation.key data) r ∧ V r.localId = false ∧ r.unmarked = false := by
    rw [← Bool.or_eq_false_iff, ← unmarked_of_uncached heq, SearchLink, ← ident_of_uncached heq,
      ← show r'.ski = r.ski from congrArg CertIdent.ski (ident_of_uncached heq), isChildRow_iff,
      unmarked_eq_not, Bool.not_eq_false']
    simp only [Invalidation.key, ne_eq, some.injEq, and_assoc]
  -- a row that has been left alone gives the same entry
  have hregister {r r' : CertRow} (heq : r'.uncached = (validate V r).uncached)
      (hV : V r.localId = false) : registerChild w r' = registerChild w₀ r := by
    have hvalidate : validate V r = r := by simp [validate, hV]
    rw [hvalidate] at heq
    change registerChild w r'.uncached = registerChild w₀ r.uncached
    rw [heq]
    simp only [registerChild, World.dirname, h.rows.dir]
    rfl
  rw [Sqhl.mem_childrenSrch]
  constructor
  . rintro ⟨r', hr', hrow, rfl⟩
    obtain ⟨r, hr, hD, heq⟩ := h.exists_origin hr'
    obtain ⟨hlink, hV, hmarked⟩ := (hchild heq).1 hrow
    exact ⟨r, hr, hlink, hmarked, hV, hD, hregister heq hV⟩
  rintro ⟨r, hr, hlink, hmarked, hV, hD, rfl⟩
  obtain ⟨r', hr', heq⟩ := h.exists_row hr hD
  exact ⟨r', hr', (hchild heq).2 ⟨hlink, hV, hmarked⟩, (hregister heq hV).symm⟩

def pending (w₀ : World) (V D : Nat → Bool) : Nat :=
  w₀.cert.countP fun r => !r.unmarked && !V r.localId && !D r.localId

theorem At.countP (h : At w₀ V D w) : (w.cert.countP fun r => !r.unmarked) = pending w₀ V D := by
  have hmap (l : List CertRow) : (l.countP fun r => !r.unmarked)
      = (l.map CertRow.uncached).countP fun r => !r.unmarked := by
    rw [countP_map]
    rfl
  rw [hmap, h.rows.cert, ← hmap, applied, countP_map, countP_filter, pending]
  congr 1
  funext r
  simp only [Function.comp_apply, unmarked_validate, Bool.not_or]
  cases V r.localId <;> cases r.unmarked <;> cases D r.localId <;> rfl

def below (w : World) (p : CertRow) (c : CertChain) : CertChain :=
  if p.flags.has Flags.trusted then ([], w.certOf p) else (w.certOf p :: c.1, c.2)

theorem length_below_le (w : World) (p : CertRow) (c : CertChain)
    : (below w p c).1.length ≤ c.1.length + 1 := by
  unfold below
  split <;> simp

inductive Visited (link : Key → CertRow → Prop) (ok : CertRow → CertChain → Bool) (w : World)
    (root : Key) (c₀ : CertChain) : CertRow → CertChain → Prop where
  | root {r : CertRow} (hr : r ∈ w.cert) (hlink : link root r) (hmarked : r.unmarked = false)
      : Visited link ok w root c₀ r c₀
  | child {p r : CertRow} {c : CertChain} (hp : Visited link ok w root c₀ p c) (hok : ok p c = true)
      (hr : r ∈ w.cert) (hlink : link p.ident.key r) (hmarked : r.unmarked = false)
      : Visited link ok w root c₀ r (below w p c)

namespace Visited

variable {link : Key → CertRow → Prop} {ok : CertRow → CertChain → Bool} {root : Key}
variable {c₀ c : CertChain}

theorem mem (h : Visited link ok w root c₀ r c) : r ∈ w.cert := by
  cases h with
  | root hr
  | child _ _ hr => exact hr

theorem marked (h : Visited link ok w root c₀ r c) : r.unmarked = false := by
  cases h with
  | root _ _ hmarked
  | child _ _ _ _ hmarked => exact hmarked

theorem not_unmarked (h : Visited link ok w root c₀ r c) : r.unmarked ≠ true := by
  simp [h.marked]

theorem unique {link' : Key → CertRow → Prop} {ok' : CertRow → CertChain → Bool} {c' : CertChain}
    (htable : PlainTable w) (hroot : ∀ p ∈ w.cert, p.ident.key = root → p.unmarked = true)
    (hlink : ∀ k r, link k r → r.ident.parentKey = k) (hlink' : ∀ k r, link' k r → r.ident.parentKey = k)
    (h : Visited link ok w root c₀ r c) (h' : Visited link' ok' w root c₀ r c') : c = c' := by
  -- the root has a chain already, so it is not visited itself
  have hne {link : Key → CertRow → Prop} {ok : CertRow → CertChain → Bool} {p : CertRow} {c : CertChain}
      (hp : Visited link ok w root c₀ p c) : p.ident.key ≠ root :=
    fun hkey => hp.not_unmarked (hroot p hp.mem hkey)
  induction h generalizing c' with
  | root _ hl _ =>
    cases h' with
    | root => rfl
    | child hp' _ _ hl' _ => exact absurd ((hlink' _ _ hl').symm.trans (hlink _ _ hl)) (hne hp')
  | child hp _ _ hl _ ih =>
    cases h' with
    | root _ hl' _ => exact absurd ((hlink _ _ hl).symm.trans (hlink' _ _ hl')) (hne hp)
    | child hp' _ _ hl' _ =>
      obtain rfl := htable.eq_of_key hp.mem hp'.mem ((hlink _ _ hl).symm.trans (hlink' _ _ hl'))
      rw [ih hp']

end Visited

section Loop

open Invalidation (Below)

variable {ok : CertRow → CertChain → Bool} {root : Key} {c₀ c : CertChain} {stack : List PropData}

variable {V' D' : Nat → Bool}

structure Entry (ok : CertRow → CertChain → Bool) (w₀ : World) (root : Key) (c₀ : CertChain)
    (V D : Nat → Bool) (r : CertRow) (c : CertChain) : Prop where
  validated : V r.localId = false
  deleted : D r.localId = false
  below : Below w₀ root V r
  visited : Visited SearchLink ok w₀ root c₀ r c
  chain : ChainTo w₀ V r.ident.parentKey c
  length : c.1.length + pending w₀ V D ≤ c₀.1.length + w₀.cert.length

structure Inv (ok : CertRow → CertChain → Bool) (w₀ : World) (root : Key) (c₀ : CertChain)
    (V D : Nat → Bool) (stack : List PropData) : Prop where
  passed : ∀ r ∈ w₀.cert, V r.localId = true
    → ∃ c, Visited SearchLink ok w₀ root c₀ r c ∧ ok r c = true
  failed : ∀ r ∈ w₀.cert, D r.localId = true
    → ∃ c, Visited SearchLink ok w₀ root c₀ r c ∧ ok r c = false
  disjoint : ∀ id, V id = true → D id = false
  entry : ∀ d ∈ stack, ∃ r c, d = registerChild w₀ r ∧ Entry ok w₀ root c₀ V D r c
  nodup : (stack.map PropData.id).Nodup
  closed : ∀ r ∈ w₀.cert, r.unmarked = false → Below w₀ root V r
    → V r.localId = true ∨ D r.localId = true ∨ ∃ d ∈ stack, d.id = r.localId

theorem Entry.mono (h : Entry ok w₀ root c₀ V D r c)
    (hV : ∀ id, V id = true → V' id = true) (hD : ∀ id, D id = true → D' id = true)
    (hr : V' r.localId = false ∧ D' r.localId = false) : Entry ok w₀ root c₀ V' D' r c where
  validated := hr.1
  deleted := hr.2
  below := h.below.mono hV
  visited := h.visited
  chain := h.chain.mono hV
  length := by
    have hle : pending w₀ V' D' ≤ pending w₀ V D := by
      apply countP_mono_left
      grind
    have hlength := h.length
    omega

theorem Inv.not_deleted (h : Inv ok w₀ root c₀ V D stack)
    : ∀ r ∈ w₀.cert, (validate V r).flags.valid = true → D r.localId = false := by
  intro r hr hvalid
  rw [valid_validate, Bool.or_eq_true] at hvalid
  rcases hvalid with hV | hvalid
  . exact h.disjoint _ hV
  by_contra hD
  obtain ⟨_, hvisited, _⟩ := h.failed r hr (by simpa using hD)
  exact hvisited.not_unmarked (unmarked_of_valid hvalid)

theorem pending_lt (hr : r ∈ w₀.cert) (hmarked : r.unmarked = false)
    (hV : V r.localId = false) (hD : D r.localId = false)
    (heq : ∀ id, (V' id || D' id) = (V id || D id || id == r.localId))
    : pending w₀ V' D' < pending w₀ V D := by
  apply countP_lt_countP hr
  all_goals grind

theorem Inv.tail (h : Inv ok w₀ root c₀ V D (registerChild w₀ r :: stack))
    (hV : ∀ id, V id = true → V' id = true) (hD : ∀ id, D id = true → D' id = true)
    (heq : ∀ id, (V' id || D' id) = (V id || D id || id == r.localId))
    : ∀ d ∈ stack, ∃ r c, d = registerChild w₀ r ∧ Entry ok w₀ root c₀ V' D' r c := by
  intro d hd
  obtain ⟨r', c, rfl, hentry⟩ := h.entry d (mem_cons_of_mem _ hd)
  refine ⟨r', c, rfl, hentry.mono hV hD ?_⟩
  rw [← Bool.or_eq_false_iff, heq, hentry.validated, hentry.deleted, Bool.false_or, Bool.false_or,
    beq_eq_false_iff_ne]
  -- no row is twice on the stack
  intro hid
  have hnodup := h.nodup
  rw [map_cons, nodup_cons] at hnodup
  apply hnodup.1
  rw [show (registerChild w₀ r).id = (registerChild w₀ r').id from hid.symm]
  exact List.mem_map_of_mem hd

theorem Inv.fail (hids : w₀.UniqueIds) (h : Inv ok w₀ root c₀ V D (registerChild w₀ r :: stack))
    (hentry : Entry ok w₀ root c₀ V D r c) (hok : ok r c = false)
    : Inv ok w₀ root c₀ V (fun id => D id || id == r.localId) stack where
  passed := h.passed
  failed := by
    intro p hp hD
    rcases Bool.or_eq_true_iff.mp hD with hD | hid
    . exact h.failed p hp hD
    . rw [hids.eq hp hentry.visited.mem (by simpa using hid)]
      exact ⟨c, hentry.visited, hok⟩
  disjoint := by
    intro id hV
    rw [h.disjoint id hV, Bool.false_or, beq_eq_false_iff_ne]
    rintro rfl
    rw [hentry.validated] at hV
    cases hV
  entry := by
    apply h.tail
    . exact fun _ hV => hV
    . intro id hD
      rw [hD, Bool.true_or]
    . intro id
      rw [Bool.or_assoc]
  nodup := (nodup_cons.mp h.nodup).2
  closed := by
    intro p hp hmarked hbelow
    rcases h.closed p hp hmarked hbelow with hV | hD | ⟨d, hd, hid⟩
    . exact .inl hV
    . simp [hD]
    . rcases mem_cons.mp hd with rfl | hd
      . simp [← hid, registerChild]
      . exact .inr (.inr ⟨d, hd, hid⟩)

theorem Inv.pass (htable : PlainTable w₀) (hroot : ∀ p ∈ w₀.cert, p.ident.key = root → p.unmarked = true)
    (h : Inv ok w₀ root c₀ V D (registerChild w₀ r :: stack))
    (hentry : Entry ok w₀ root c₀ V D r c) (hok : ok r c = true)
    (hat : At w₀ (fun id => V id || id == r.localId) D w)
    : Inv ok w₀ root c₀ (fun id => V id || id == r.localId) D
      ((childrenSrch w (registerChild w₀ r) true).reverse ++ stack) := by
  have hr := hentry.visited.mem
  have hmono : ∀ id, V id = true → (V id || id == r.localId) = true := by
    intro id hV
    rw [hV, Bool.true_or]
  have hor : ∀ id, (V id || id == r.localId || D id) = (V id || D id || id == r.localId) := by
    intro id
    rw [Bool.or_assoc, Bool.or_assoc, Bool.or_comm (D id)]
  have hsame : ∀ p ∈ w₀.cert, (p.localId == r.localId) = true → p = r := by
    intro p hp hid
    exact htable.ids.eq hp hr (by simpa using hid)
  have htail := h.tail hmono (fun _ hD => hD) hor
  constructor
  . intro p hp hV
    rcases Bool.or_eq_true_iff.mp hV with hV | hid
    . exact h.passed p hp hV
    . rw [hsame p hp hid]
      exact ⟨c, hentry.visited, hok⟩
  . exact h.failed
  . intro id hV
    rcases Bool.or_eq_true_iff.mp hV with hV | hid
    . exact h.disjoint id hV
    . rw [beq_iff_eq.mp hid]
      exact hentry.deleted
  . intro d hd
    rcases List.mem_append.mp hd with hd | hd
    . rw [mem_reverse, hat.mem_childrenSrch] at hd
      obtain ⟨p, hp, hlink, hmarked, hV, hD, rfl⟩ := hd
      refine ⟨p, below w₀ r c, rfl, ?_⟩
      constructor
      . exact hV
      . exact hD
      . exact .inr ⟨r, hr, by simp, hlink⟩
      . exact .child hentry.visited hok hp hlink hmarked
      . have hvalid : (validate (fun id => V id || id == r.localId) r).flags.valid = true := by
          simp [valid_validate]
        rw [hlink.1, Invalidation.key_registerChild, below]
        split
        . next htrusted => exact .anchor hr hvalid htrusted
        . next htrusted =>
          exact .parent hr hvalid (by simpa using htrusted) (hentry.chain.mono hmono)
      . have hlt := pending_lt hr hentry.visited.marked hentry.validated hentry.deleted hor
        have hle := length_below_le w₀ r c
        have hlength := hentry.length
        omega
    . exact htail d hd
  . rw [map_append, nodup_append]
    refine ⟨?_, (nodup_cons.mp h.nodup).2, ?_⟩
    . rw [map_reverse, nodup_reverse, childrenSrch, List.map_map]
      have hids : (w.cert.map fun r => r.localId).Nodup := by
        rw [hat.rows.map_cert (fun r => r.localId) fun _ => rfl]
        simp only [applied, List.map_map, Function.comp_def, localId_validate]
        exact htable.ids.sublist ((filter_sublist ..).map _)
      exact hids.sublist ((filter_sublist ..).map _)
    -- a row that is on the stack already is not a child of the row that has just been validated
    . rintro _ hnew _ hold rfl
      obtain ⟨d, hd, hdid⟩ := List.mem_map.mp hnew
      obtain ⟨e, he, heid⟩ := List.mem_map.mp hold
      rw [mem_reverse, hat.mem_childrenSrch] at hd
      obtain ⟨p, hp, hlink, _, _, _, rfl⟩ := hd
      obtain ⟨_, _, rfl, hentry'⟩ := h.entry e (mem_cons_of_mem _ he)
      obtain rfl := htable.ids.eq hp hentry'.visited.mem (hdid.trans heid.symm)
      have hparent : p.ident.parentKey = r.ident.key := hlink.1
      rcases hentry'.below with hrootlink | ⟨q, hq, hV, hqlink⟩
      . exact hentry.visited.not_unmarked (hroot r hr (hparent.symm.trans hrootlink.1))
      . rw [htable.eq_of_key hq hr (hqlink.1.symm.trans hparent), hentry.validated] at hV
        cases hV
  intro p hp hmarked hbelow
  have hcases : Below w₀ root V p ∨ SearchLink r.ident.key p := by
    rcases hbelow with hlink | ⟨q, hq, hVq, hlink⟩
    . exact .inl (.inl hlink)
    . rcases Bool.or_eq_true_iff.mp hVq with hVq | hid
      . exact .inl (.inr ⟨q, hq, hVq, hlink⟩)
      . rw [hsame q hq hid] at hlink
        exact .inr hlink
  cases hV : V p.localId || p.localId == r.localId with
  | true => exact .inl rfl
  | false =>
    cases hD : D p.localId with
    | true => exact .inr (.inl rfl)
    | false =>
      refine .inr (.inr ?_)
      rcases hcases with hbelow | hlink
      . rcases h.closed p hp hmarked hbelow with hV' | hD' | ⟨d, hd, hid⟩
        . simp [hV'] at hV
        . simp [hD'] at hD
        . rcases mem_cons.mp hd with rfl | hd
          . simp [← hid, registerChild] at hV
          . exact ⟨d, mem_append_right _ hd, hid⟩
      . refine ⟨registerChild w₀ p, mem_append_left _ ?_, rfl⟩
        rw [mem_reverse, hat.mem_childrenSrch]
        exact ⟨p, hp, hlink, hmarked, hV, hD, rfl⟩

-- the stack is empty, so every row that is visited has been validated or deleted
theorem done_of_visited {r : CertRow} {c : CertChain} (htable : PlainTable w₀)
    (hroot : ∀ p ∈ w₀.cert, p.ident.key = root → p.unmarked = true)
    (h : Inv ok w₀ root c₀ V D []) (hr : Visited SearchLink ok w₀ root c₀ r c)
    : (ok r c = true → V r.localId = true) ∧ (ok r c = false → D r.localId = true) := by
  have hunique {c' : CertChain} (hr' : Visited SearchLink ok w₀ root c₀ r c') : c = c' :=
    hr.unique htable hroot (fun _ _ hl => hl.1) (fun _ _ hl => hl.1) hr'
  have hbelow : Below w₀ root V r :=
    match hr with
    | .root _ hlink _ => .inl hlink
    | .child hp hok _ hlink _ => .inr ⟨_, hp.mem, (done_of_visited htable hroot h hp).1 hok, hlink⟩
  rcases h.closed r hr.mem hr.marked hbelow with hV | hD | ⟨d, hd, _⟩
  . obtain ⟨c', hr', hok⟩ := h.passed r hr.mem hV
    simp [hunique hr', hok, hV]
  . obtain ⟨c', hr', hok⟩ := h.failed r hr.mem hD
    simp [hunique hr', hok, hD]
  . cases hd

end Loop

def size (n : Nat) (w : World) (stack : List PropData) : Nat :=
  (w.cert.countP fun r => !r.unmarked) * (n + 1) + stack.length

theorem At.length_childrenSrch_le (h : At w₀ V D w) (data : PropData)
    : (childrenSrch w data true).length ≤ w₀.cert.length := by
  have hlength := congrArg List.length h.rows.cert
  rw [length_map, length_map, applied, length_map] at hlength
  have hfilter := length_filter_le (fun r : CertRow => !D r.localId) w₀.cert
  have hchildren := Invalidation.length_childrenSrch_le w data true
  omega

theorem size_lt {w w' : World} {V' D' : Nat → Bool} (hat : At w₀ V D w) (hat' : At w₀ V' D' w')
    (hlt : pending w₀ V' D' < pending w₀ V D) {stack children : List PropData} (d : PropData)
    (hchildren : children.length ≤ w₀.cert.length)
    : size w₀.cert.length w' (children ++ stack) < size w₀.cert.length w (d :: stack) := by
  have hmul := Nat.mul_le_mul_right (w₀.cert.length + 1) hlt
  rw [Nat.succ_mul] at hmul
  simp only [size, hat.countP, hat'.countP, length_append, length_cons]
  omega

theorem verifyChildren_applied (htable : PlainTable w) (henv : ChecksBy env w passes)
    {ski subject : String} {c₀ : CertChain}
    (hroot : ChainTo w (fun _ => false) (some ski, subject) c₀) (aki issuer : Option String)
    (certId : Nat)
    (hfuel : w.cert.length * (w.cert.length + 1) + w.cert.length + c₀.1.length + 1 < fuel)
    : ∃ V D w', verifyChildren env fuel w ski subject aki issuer certId = some w'
      ∧ SameRows (applied w V D) w' ∧ ∀ r ∈ w.cert,
        (V r.localId = true ↔ ∃ c, Visited SearchLink (judge w passes) w (some ski, subject) c₀ r c
          ∧ judge w passes r c = true)
        ∧ (D r.localId = true ↔ ∃ c, Visited SearchLink (judge w passes) w (some ski, subject) c₀ r c
          ∧ judge w passes r c = false) := by
  let root : Key := (some ski, subject)
  let data : PropData := ⟨ski, subject, 0, certId, "", "", aki, issuer⟩
  let inv (w' : World) (stack : List PropData) : Prop :=
    ∃ V D, At w V D w' ∧ Reliable env (CheckedSignature env w) w'
      ∧ Inv (judge w passes) w root c₀ V D stack
  have hunmarked : ∀ p ∈ w.cert, p.ident.key = root → p.unmarked = true := by
    intro p hp hkey
    obtain ⟨_, hp', hkey', hvalid⟩ := hroot.exists_row
    rw [htable.eq_of_key hp hp' (hkey.trans hkey'.symm)]
    exact unmarked_of_valid hvalid
  have hstart : inv w (childrenSrch w data true).reverse := by
    refine ⟨fun _ => false, fun _ => false, .start w, henv.reliable, ?_⟩
    have hchildren (d : PropData) : d ∈ (childrenSrch w data true).reverse ↔ ∃ r ∈ w.cert,
        SearchLink root r ∧ r.unmarked = false ∧ d = registerChild w r := by
      rw [mem_reverse, (At.start w).mem_childrenSrch]
      simp [Invalidation.key, data, root]
    constructor
    iterate 3 simp
    . intro d hd
      obtain ⟨r, hr, hlink, hmarked, rfl⟩ := (hchildren d).mp hd
      refine ⟨r, c₀, rfl, rfl, rfl, .inl hlink, .root hr hlink hmarked, ?_, ?_⟩
      . rw [hlink.1]
        exact hroot
      . exact Nat.add_le_add_left countP_le_length _
    . rw [map_reverse, nodup_reverse, childrenSrch, List.map_map]
      exact htable.ids.sublist ((filter_sublist ..).map _)
    . rintro r hr hmarked (hlink | ⟨_, _, hV, _⟩)
      . exact .inr (.inr ⟨registerChild w r, (hchildren _).mpr ⟨r, hr, hlink, hmarked, rfl⟩, rfl⟩)
      . cases hV
  have hvisit : ∀ w1 d stack, inv w1 (d :: stack) → ∃ doIt w2,
      verifyChildCert env fuel w1 d true = some (doIt, w2)
        ∧ inv w2 (if doIt then (childrenSrch w2 d true).reverse ++ stack else stack)
        ∧ size w.cert.length w2 (if doIt then (childrenSrch w2 d true).reverse ++ stack else stack)
          < size w.cert.length w1 (d :: stack) := by
    rintro w1 d stack ⟨V, D, hat, hreliable, hinv⟩
    obtain ⟨r, c, rfl, hentry⟩ := hinv.entry d mem_cons_self
    have hr := hentry.visited.mem
    have hlength : c.1.length + 1 < fuel := by
      have hlength := hentry.length
      omega
    obtain ⟨w2, hvisit, hreliable2, hpass, hfail⟩ :=
      hat.verifyChildCert htable henv hreliable hinv.not_deleted hr hentry.chain hlength
    refine ⟨_, w2, hvisit, ?_⟩
    have hlt (V' D') := @pending_lt w V D r V' D' hr hentry.visited.marked hentry.validated hentry.deleted
    cases hjudge : judge w passes r c with
    | true =>
      have hat2 := hpass hjudge
      refine ⟨⟨_, _, hat2, hreliable2, hinv.pass htable hunmarked hentry hjudge hat2⟩, ?_⟩
      apply size_lt hat hat2 (hlt _ _ (by grind))
      rw [length_reverse]
      exact hat2.length_childrenSrch_le _
    | false =>
      have hat2 := hfail hjudge
      refine ⟨⟨_, _, hat2, hreliable2, hinv.fail htable.ids hentry hjudge⟩, ?_⟩
      have hnil : ([] : List PropData).length ≤ w.cert.length := Nat.zero_le _
      exact size_lt hat hat2 (hlt _ _ (by grind)) _ hnil
  obtain ⟨fuel', hfuel'⟩ : ∃ fuel', fuel = fuel' + 1 := ⟨fuel - 1, by omega⟩
  have hsize : size w.cert.length w (childrenSrch w data true).reverse ≤ fuel' := by
    have hcount : (w.cert.countP fun r => !r.unmarked) ≤ w.cert.length := countP_le_length
    have hchildren := Invalidation.length_childrenSrch_le w data true
    have hmul := Nat.mul_le_mul_right (w.cert.length + 1) hcount
    simp only [size, length_reverse]
    omega
  obtain ⟨w', hloop, V, D, hat, -, hend⟩ := propagate_total hvisit hstart hsize
  refine ⟨V, D, w', ?_, hat.rows, ?_⟩
  . rw [verifyChildren, verifyOrNotChildren]
    have hobjs := verifyChildObjs_eq env fuel htable.crl htable.signed data
    subst hfuel'
    rw [propagate]
    simp only [Bool.not_true, verifyChildCert, Bool.false_eq_true, if_false, bind_eq_bind,
      bind_some, if_true, append_nil]
    rw [hobjs]
    exact hloop
  . intro r hr
    refine ⟨⟨hend.passed r hr, ?_⟩, ⟨hend.failed r hr, ?_⟩⟩
    . rintro ⟨_, hc, hjudge⟩
      exact (done_of_visited htable hunmarked hend hc).1 hjudge
    . rintro ⟨_, hc, hjudge⟩
      exact (done_of_visited htable hunmarked hend hc).2 hjudge

end Validation

end Rpstir.Sqhl
