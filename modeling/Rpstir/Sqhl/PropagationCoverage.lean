import Rpstir.Sqhl.Lemmas.Validation

/-!
This module contains which rows `verifyOrNotChildren` gets to, on a table without cross-certificates.
-/

namespace Rpstir.Sqhl

open Invalidation Validation

variable {env : Env} {passes : X509 → CertChain → Bool} {w w' : World} {root : Key} {c₀ : CertChain}

abbrev RootChain (w : World) (root : Key) (c₀ : CertChain) : Prop :=
  ChainTo w (fun _ => false) root c₀

abbrev Waiting (passes : X509 → CertChain → Bool) (w : World) (root : Key) (c₀ : CertChain)
    : CertRow → CertChain → Prop :=
  Visited ChildLink (fun r => passes (w.certOf r)) w root c₀

abbrev Hanging (w : World) (root : Key) : CertRow → Prop :=
  Reached ChildLink (fun r => r.unmarked = true) w root

/--
The waiting rows that pass have been validated, those that fail have been deleted, and nothing else
has changed but the cache of signature checks.
-/
def Covers (passes : X509 → CertChain → Bool) (w : World) (root : Key) (c₀ : CertChain) (w' : World)
    : Prop :=
  ∃ V D, SameRows (applied w V D) w' ∧ ∀ r ∈ w.cert,
    (V r.localId = true ↔ ∃ c, Waiting passes w root c₀ r c ∧ passes (w.certOf r) c = true)
    ∧ (D r.localId = true ↔ ∃ c, Waiting passes w root c₀ r c ∧ passes (w.certOf r) c = false)

def Uncovers (w : World) (root : Key) (w' : World) : Prop :=
  ∃ M, w' = Invalidation.marked w M ∧ ∀ r ∈ w.cert, M r.localId = true ↔ Hanging w root r

def Checkable (passes : X509 → CertChain → Bool) (w : World) (r : CertRow) (c : CertChain) : Prop :=
  r.aki ≠ some r.ski ∧ (w.certSrch = .byAKI → c.1 ≠ [] → passes (w.certOf r) c = true)

variable {c : CertChain}

theorem searchLink_iff {k : Key} {r : CertRow}
    : SearchLink k r ↔ ChildLink k r ∧ r.aki ≠ some r.ski := by
  constructor
  . rintro ⟨hparent, hski⟩
    refine ⟨⟨hparent, fun hkey => hski (congrArg Prod.fst hkey)⟩, ?_⟩
    rw [← hparent] at hski
    exact hski.symm
  . rintro ⟨⟨hparent, _⟩, hne⟩
    refine ⟨hparent, ?_⟩
    rw [← hparent]
    exact hne.symm

theorem judge_eq_of_checkable {r : CertRow} (h : Checkable passes w r c)
    : judge w passes r c = passes (w.certOf r) c := by
  unfold judge
  by_cases hsrch : w.certSrch = .byAKI ∧ c.1 ≠ []
  . rw [h.2 hsrch.1 hsrch.2, Bool.or_true]
  . rw [← Bool.decide_and, decide_eq_false hsrch, Bool.false_or]

theorem visited_iff_waiting
    (hcheckable : ∀ r c, Waiting passes w root c₀ r c → Checkable passes w r c) {r : CertRow}
    : Visited SearchLink (judge w passes) w root c₀ r c ↔ Waiting passes w root c₀ r c := by
  constructor
  . intro h
    induction h with
    | root hr hlink hmarked => exact .root hr (searchLink_iff.mp hlink).1 hmarked
    | child _ hok hr hlink hmarked ih =>
      rw [judge_eq_of_checkable (hcheckable _ _ ih)] at hok
      exact .child ih hok hr (searchLink_iff.mp hlink).1 hmarked
  intro h
  induction h with
  | root hr hlink hmarked =>
    have haki := (hcheckable _ _ (.root hr hlink hmarked)).1
    exact .root hr (searchLink_iff.mpr ⟨hlink, haki⟩) hmarked
  | child hp hok hr hlink hmarked ih =>
    have haki := (hcheckable _ _ (.child hp hok hr hlink hmarked)).1
    rw [← judge_eq_of_checkable (hcheckable _ _ hp)] at hok
    exact .child ih hok hr (searchLink_iff.mpr ⟨hlink, haki⟩) hmarked

theorem aki_ne_of_visited {ok : CertRow → CertChain → Bool} {r : CertRow}
    (h : Visited SearchLink ok w root c₀ r c) : r.aki ≠ some r.ski := by
  cases h with
  | root _ hlink
  | child _ _ _ hlink => exact (searchLink_iff.mp hlink).2

theorem applied_eq {V D V' D' : Nat → Bool} (hids : w.UniqueIds)
    (hsame : SameRows (applied w V D) (applied w V' D')) {r : CertRow} (hr : r ∈ w.cert)
    (hD : D' r.localId = false)
    : D r.localId = false ∧ (V r.localId || r.unmarked) = (V' r.localId || r.unmarked) := by
  obtain ⟨_, hmem, heq⟩ := hsame.mem_cert (mem_applied.mpr ⟨r, hr, hD, rfl⟩)
  obtain ⟨_, hr', hD', rfl⟩ := mem_applied.mp hmem
  have hident := ident_of_uncached heq
  rw [ident_validate] at hident
  obtain rfl := hids.eq hr hr' (congrArg CertIdent.localId hident)
  have hunmarked := unmarked_of_uncached heq
  rw [unmarked_validate] at hunmarked
  exact ⟨hD', hunmarked.symm⟩

theorem verifyChildren_covers_iff (htable : PlainTable w) (henv : ChecksBy env w passes)
    {ski subject : String} (hchain : RootChain w (some ski, subject) c₀) (aki issuer : Option String)
    (certId : Nat)
    : (∃ fuel0, ∀ fuel ≥ fuel0, ∃ w', verifyChildren env fuel w ski subject aki issuer certId = some w'
        ∧ Covers passes w (some ski, subject) c₀ w')
      ↔ ∀ r c, Waiting passes w (some ski, subject) c₀ r c → Checkable passes w r c := by
  have hunmarked : ∀ p ∈ w.cert, p.ident.key = (some ski, subject) → p.unmarked = true := by
    intro p hp hkey
    obtain ⟨_, hp', hkey', hvalid⟩ := hchain.exists_row
    rw [htable.eq_of_key hp hp' (hkey.trans hkey'.symm)]
    exact unmarked_of_valid hvalid
  let bound := w.cert.length * (w.cert.length + 1) + w.cert.length + c₀.1.length + 2
  constructor
  . rintro ⟨fuel0, hfuel0⟩ r c hwaiting
    obtain ⟨w', hrun, V, D, hrows, hcovers⟩ := hfuel0 (max fuel0 bound) (Nat.le_max_left ..)
    obtain ⟨V', D', w'', hrun', hrows', hvisited⟩ := verifyChildren_applied htable henv hchain
      aki issuer certId (Nat.le_max_right fuel0 bound)
    obtain rfl : w' = w'' := by
      rw [hrun, Option.some.injEq] at hrun'
      exact hrun'
    have hr := hwaiting.mem
    have hsame : SameRows (applied w V' D') (applied w V D) := hrows'.trans hrows.symm
    cases hpasses : passes (w.certOf r) c with
    | true =>
      have hV : V r.localId = true := (hcovers r hr).1.mpr ⟨c, hwaiting, hpasses⟩
      have hD : D r.localId = false := by
        by_contra hD
        obtain ⟨c', hwaiting', hfails⟩ := (hcovers r hr).2.mp (by simpa using hD)
        have hunique := hwaiting.unique htable hunmarked (fun _ _ hl => hl.1) (fun _ _ hl => hl.1) hwaiting'
        rw [hunique, hfails] at hpasses
        cases hpasses
      have hV' := (applied_eq htable.ids hsame hr hD).2
      rw [hV, hwaiting.marked, Bool.or_false, Bool.true_or] at hV'
      obtain ⟨c', hvisited', _⟩ := (hvisited r hr).1.mp hV'
      exact ⟨aki_ne_of_visited hvisited', fun _ _ => hpasses⟩
    | false =>
      have hD : D r.localId = true := (hcovers r hr).2.mpr ⟨c, hwaiting, hpasses⟩
      have hD' : D' r.localId = true := by
        by_contra hD'
        rw [(applied_eq htable.ids hsame.symm hr (by simpa using hD')).1] at hD
        cases hD
      obtain ⟨c', hvisited', hjudge⟩ := (hvisited r hr).2.mp hD'
      refine ⟨aki_ne_of_visited hvisited', fun hsrch hne => ?_⟩
      have hunique := hwaiting.unique htable hunmarked (fun _ _ hl => hl.1) (fun _ _ hl => hl.1) hvisited'
      simp [← hunique, judge, hsrch, hne] at hjudge
  intro hcheckable
  refine ⟨bound, fun fuel hfuel => ?_⟩
  obtain ⟨V, D, w', hrun, hrows, hvisited⟩ := verifyChildren_applied htable henv hchain
    aki issuer certId hfuel
  refine ⟨w', hrun, V, D, hrows, fun r hr => ?_⟩
  simp only [hvisited r hr, visited_iff_waiting hcheckable]
  have hjudge (b : Bool) : (∃ c, Waiting passes w (some ski, subject) c₀ r c
      ∧ judge w passes r c = b) ↔ ∃ c, Waiting passes w (some ski, subject) c₀ r c
      ∧ passes (w.certOf r) c = b := by
    constructor
    . rintro ⟨c, hc, hb⟩
      exact ⟨c, hc, judge_eq_of_checkable (hcheckable r c hc) ▸ hb⟩
    . rintro ⟨c, hc, hb⟩
      exact ⟨c, hc, judge_eq_of_checkable (hcheckable r c hc) ▸ hb⟩
  exact ⟨hjudge true, hjudge false⟩

theorem marked_of_unmarked {M : Nat → Bool} {r : CertRow} (hunmarked : r.unmarked = true)
    (h : (mark M r).unmarked = false) : M r.localId = true := by
  rw [unmarked_mark, hunmarked, Bool.and_true] at h
  simpa using h

theorem invalidateChildren_uncovers_iff (htable : PlainTable w) {ski subject : String}
    (hgone : Gone w (some ski, subject)) (lid : Nat)
    : (∃ fuel0, ∀ fuel ≥ fuel0, ∃ w', invalidateChildren fuel w ski subject lid = some w'
        ∧ Uncovers w (some ski, subject) w')
      ↔ ∀ r, Hanging w (some ski, subject) r → r.aki ≠ some r.ski := by
  let bound := w.cert.length * (w.cert.length + 1) + w.cert.length + 1
  constructor
  . rintro ⟨fuel0, hfuel0⟩ r hhanging
    obtain ⟨w', hrun, M, rfl, huncovers⟩ := hfuel0 (max fuel0 bound) (Nat.le_max_left ..)
    obtain ⟨M', hrun', hreached⟩ := invalidateChildren_marked htable hgone lid
      (Nat.le_max_right fuel0 bound)
    have heq : Invalidation.marked w M = Invalidation.marked w M' := by
      rw [hrun, Option.some.injEq] at hrun'
      exact hrun'
    have hr := hhanging.mem
    have hM := (huncovers r hr).mpr hhanging
    have hM' : M' r.localId = true := by
      have hrow := List.map_inj_left.mp (congrArg World.cert heq) r hr
      apply marked_of_unmarked hhanging.holds
      rw [← hrow, unmarked_mark, hM, Bool.not_true, Bool.false_and]
    cases (hreached r hr).mp hM' with
    | root _ hlink
    | child _ _ hlink => exact (searchLink_iff.mp hlink).2
  intro hne
  refine ⟨bound, fun fuel hfuel => ?_⟩
  obtain ⟨M, hrun, hreached⟩ := invalidateChildren_marked htable hgone lid hfuel
  refine ⟨_, hrun, M, rfl, fun r hr => (hreached r hr).trans ⟨?_, ?_⟩⟩
  . intro h
    induction h with
    | root hr hlink hunmarked => exact .root hr (searchLink_iff.mp hlink).1 hunmarked
    | child hp hr hlink hunmarked ih =>
      exact .child (ih hp.mem) hr (searchLink_iff.mp hlink).1 hunmarked
  intro h
  have haki := hne r h
  induction h with
  | root hr hlink hunmarked => exact .root hr (searchLink_iff.mpr ⟨hlink, haki⟩) hunmarked
  | child hp hr hlink hunmarked ih =>
    exact .child (ih hp.mem (hne _ hp)) hr (searchLink_iff.mpr ⟨hlink, haki⟩) hunmarked

def plainPasses (x : X509) (c : CertChain) : Bool :=
  internalVerify Env.plain (x :: (c.1 ++ [c.2].filter (· ≠ x)))

section Plain

instance (x y : X509) : Decidable (x.SameNames y) :=
  inferInstanceAs (Decidable (_ ∧ _))

variable {chains : List (Key × CertChain)} {l : List Signature}

/--
The check by OpenSSL in a table that has kept no answers, from a list of its chains and a list of the
signatures that are checked on them.
-/
theorem checksBy_plain
    (hanchor : ∀ r ∈ w.cert, r.flags.has Flags.trusted = true → (r.ident.key, [], w.certOf r) ∈ chains)
    (hparent : ∀ r ∈ w.cert, ∀ k ∈ chains, k.1 = r.ident.parentKey → r.flags.has Flags.trusted = false
      → (r.ident.key, w.certOf r :: k.2.1, k.2.2) ∈ chains)
    (hchecked : ∀ r ∈ w.cert, ∀ k ∈ chains, k.1 = r.ident.parentKey
      → signatures Env.plain (w.certOf r :: (k.2.1 ++ [k.2.2].filter (· ≠ w.certOf r))) ⊆ l)
    (hplain : ∀ s ∈ l, s.1.Plain)
    (hsame : ∀ s ∈ l, ∀ s' ∈ l, s.1.SameNames s'.1 → s.good Env.plain = true → s'.good Env.plain = true)
    (hsigval : ∀ r ∈ w.cert, r.sigval = .unknown) : ChecksBy Env.plain w plainPasses := by
  have hchain {k : Key} {c : CertChain} (h : ChainTo w (fun _ => true) k c) : (k, c) ∈ chains := by
    induction h with
    | anchor hr _ htrusted => exact hanchor _ hr htrusted
    | parent hr _ htrusted _ ih => exact hparent _ hr _ ih rfl htrusted
  have hmem {s : Signature} (h : CheckedSignature Env.plain w s) : s ∈ l := by
    obtain ⟨r, hr, c, hc, chain, hok, hs⟩ := h
    cases hok
    exact hchecked r hr _ (hchain hc) rfl hs
  have hkept {valu : SigVal} (hne : valu ≠ .unknown) (P : Signature → Prop)
      : Kept (CheckedSignature Env.plain w) valu P w := by
    intro r hr hvalu
    exact absurd ((hsigval r hr).symm.trans hvalu).symm hne
  constructor
  . intro _ _ _ _
    rfl
  . refine ⟨fun s hs => hplain s (hmem hs), fun x pkey _ => ?_,
      fun s s' hs hs' => hsame s (hmem hs) s' (hmem hs'), hkept (by decide) _, hkept (by decide) _⟩
    show 0 ≤ if x.body = pkey then (1 : Int) else 0
    split <;> decide

end Plain

def coverageWorld : World :=
  let w := World.start "/r" (plainFiles [("T.cer", .cert (X509.plain "T" "T" 1 1)),
    ("A.cer", .cert (X509.plain "A" "T" 2 1)), ("B.cer", .cert (X509.plain "B" "A" 3 2)),
    ("F.cer", .cert (X509.plain "F" "T" 5 9)), ("D.cer", .cert (X509.plain "D" "Z" 4 9))]) 50 false
  { w with
    dir := [⟨"/r", 1⟩]
    cert := [(X509.plain "T" "T" 1 1).plainRow "T.cer" (Flags.trusted ||| Flags.validated) 1,
      (X509.plain "A" "T" 2 1).plainRow "A.cer" Flags.nochain 2,
      (X509.plain "B" "A" 3 2).plainRow "B.cer" Flags.nochain 3,
      (X509.plain "F" "T" 5 9).plainRow "F.cer" Flags.nochain 5,
      (X509.plain "D" "Z" 4 9).plainRow "D.cer" Flags.validated 4] }

def coverageChains : List (Key × CertChain) :=
  [((some "T", "T"), [], X509.plain "T" "T" 1 1),
    ((some "A", "A"), [X509.plain "A" "T" 2 1], X509.plain "T" "T" 1 1),
    ((some "B", "B"), [X509.plain "B" "A" 3 2, X509.plain "A" "T" 2 1], X509.plain "T" "T" 1 1),
    ((some "F", "F"), [X509.plain "F" "T" 5 9], X509.plain "T" "T" 1 1)]

def sameSkiWorld : World :=
  let x : X509 := { X509.plain "C" "T" 2 1 with ski := some "T" }
  let w := World.start "/r" (plainFiles [("T.cer", .cert (X509.plain "T" "T" 1 1)),
    ("C.cer", .cert x)]) 50 false
  { w with
    dir := [⟨"/r", 1⟩]
    cert := [(X509.plain "T" "T" 1 1).plainRow "T.cer" (Flags.trusted ||| Flags.validated) 1,
      x.plainRow "C.cer" Flags.nochain 2] }

end Rpstir.Sqhl
