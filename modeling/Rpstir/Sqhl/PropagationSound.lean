import Rpstir.Sqhl.Chain
import Rpstir.Sqhl.Lemmas.Basic
import Rpstir.Sqhl.Lemmas.Memo
import Rpstir.Sqhl.System

/-!
This module contains when a certificate or CRL that the propagation marks as validated has in fact
been checked: exactly when the search for its parents succeeds, and no answer that is wrong is taken over.
-/

namespace Rpstir.Sqhl

open Option

variable {env : Env}

structure TurnsValid (tab : Table) (w w' : World) (id : Nat) : Prop where
  before : ∀ o ∈ w.objs tab, o.localId = id → o.flags.test Flags.nochain true = true
  after : ∃ o ∈ w'.objs tab, o.localId = id ∧ o.flags.valid = true

instance (tab : Table) (w w' : World) (id : Nat) : Decidable (TurnsValid tab w w' id) :=
  decidable_of_iff ((∀ o ∈ w.objs tab, o.localId = id → o.flags.test Flags.nochain true = true)
      ∧ ∃ o ∈ w'.objs tab, o.localId = id ∧ o.flags.valid = true)
    ⟨fun h => ⟨h.1, h.2⟩, fun h => ⟨h.before, h.after⟩⟩

def CertChecked (env : Env) (fuel : Nat) (w : World) (data : PropData) : Prop :=
  ∃ x untrusted anchor w₁, readCertFromFile w (data.dirname ++ "/" ++ data.filename) = some x
    ∧ parentWalk fuel w data.aki data.issuer [] = some ((untrusted, some anchor), w₁)
    ∧ 0 < verifyAnswer env x untrusted [anchor] (internalVerify env)

/--
A signature of a chain whose check can be answered from the `sigval` column: one of a certificate whose
names have a row that is said to be valid or another signature of the chain, or are not plain text.
-/
def MayBeKept (w : World) (l : List Signature) (s : Signature) : Prop :=
  ¬s.1.Plain ∨ (∃ r ∈ w.cert, s.1.Named r ∧ r.sigval = .valid) ∨ ∃ s' ∈ l, s' ≠ s ∧ s'.1.SameNames s.1

/--
What `checkit` takes for success is success: `X509_verify_cert` does not end with an error, and
`X509_verify` accepts the signatures for which it may not be asked.
-/
structure AnswersRight (env : Env) (w : World) (x : X509) (untrusted trusted : List X509) : Prop where
  nonneg : 0 ≤ verifyAnswer env x untrusted trusted fun _ => true
  kept : ∀ chain, env.chainOf x untrusted trusted = .ok chain → ∀ s ∈ signatures env chain,
    MayBeKept w (signatures env chain) s → s.good env = true

def ChainAnswersRight (env : Env) (fuel : Nat) (w : World) (data : PropData) : Prop :=
  ∀ x untrusted anchor w₁, readCertFromFile w (data.dirname ++ "/" ++ data.filename) = some x
    → parentWalk fuel w data.aki data.issuer [] = some ((untrusted, some anchor), w₁)
    → AnswersRight env w x untrusted [anchor]

def CrlChecked (env : Env) (w : World) (row : CrlRow) : Prop :=
  ∃ x p, w.fs (w.path row.toObj) = some (.crl x)
    ∧ (parentCert w x.aki (some x.issuer)).1 = some p ∧ 0 < env.crlVerify x p.cert.pubkey

variable {tab : Table} {w w₁ : World} {id fuel : Nat}

theorem not_turnsValid_self : ¬TurnsValid tab w w id := by
  rintro ⟨hbefore, o, ho, hid, hvalid⟩
  have hnochain := hbefore o ho hid
  rw [Flags.valid, Flags.test_false_eq_not_test_true, hnochain] at hvalid
  simp at hvalid

theorem not_turnsValid_deletebylid : ¬TurnsValid tab w (w₁.deletebylid tab id) id := by
  rintro ⟨_, _, ho, hid, _⟩
  rw [World.deletebylid, World.objs_deleteWhere] at ho
  simp [hid] at ho

section Answers

variable {x : X509} {untrusted trusted : List X509}

theorem answersRight_of_pos (h : 0 < verifyAnswer env x untrusted trusted (internalVerify env))
    : AnswersRight env w x untrusted trusted := by
  unfold verifyAnswer at h
  cases hchain : env.chainOf x untrusted trusted with
  | error i =>
    rw [hchain] at h
    refine ⟨?_, fun _ hok => by rw [hchain] at hok; cases hok⟩
    rw [verifyAnswer, hchain]
    exact Int.le_of_lt h
  | ok chain =>
    simp only [hchain] at h
    have hverified : internalVerify env chain = true := by
      by_contra hfalse
      rw [Bool.not_eq_true] at hfalse
      rw [hfalse, env.afterVerify_false] at h
      cases h
    constructor
    . rw [verifyAnswer, hchain]
      rw [hverified] at h
      exact Int.le_of_lt h
    . intro _ hok s hs _
      cases hchain.symm.trans hok
      exact List.all_eq_true.mp (Bool.and_eq_true_iff.mp hverified).2 s hs

theorem internalVerify_of_ourVerify {chain : List X509} (hcert : w₁.cert = w.cert)
    (hkept : ∀ s ∈ signatures env chain, MayBeKept w (signatures env chain) s → s.good env = true)
    (h : (ourVerify env w₁ chain).1 = true) : internalVerify env chain = true := by
  rcases ourVerify_cases env chain with ⟨_, heq⟩ | ⟨hne, xissuer, l, hgo, heq⟩
  . rw [heq] at h
    cases h
  rw [heq] at h
  rw [internalVerify, decide_eq_true hne, Bool.true_and, List.all_eq_true]
  have hright : Right env (· ∈ signatures env chain) w₁ := by
    intro r hr hvalid s hs hnamed
    rw [hcert] at hr
    exact hkept s hs (.inr (.inl ⟨r, hr, hnamed, hvalid⟩))
  have hsame (s s' : Signature) (hs : s ∈ signatures env chain) (hs' : s' ∈ signatures env chain)
      (hnames : s.1.SameNames s'.1) (hgood : s.good env = true) : s'.good env = true := by
    by_cases hss : s = s'
    . rw [← hss]
      exact hgood
    . exact hkept s' hs' (.inr (.inr ⟨s, hs, hss, hnames⟩))
  rw [hgo] at hright hsame hkept ⊢
  exact good_of_ourVerify_go hsame (fun s hs hplain => hkept s hs (.inl hplain)) (fun _ hs => hs) hright h

theorem pos_of_checkit (hcert : w₁.cert = w.cert) (hright : AnswersRight env w x untrusted trusted)
    (h : (checkit env w₁ x untrusted trusted).1 = .ok ())
    : 0 < verifyAnswer env x untrusted trusted (internalVerify env) := by
  have hne : verifyAnswer env x untrusted trusted (fun chain => (ourVerify env w₁ chain).1) ≠ 0 := by
    intro hzero
    rw [checkit_fst, hzero] at h
    cases h
  have hnonneg := hright.nonneg
  unfold verifyAnswer at hne hnonneg ⊢
  cases hchain : env.chainOf x untrusted trusted with
  | error i =>
    simp only [hchain] at hne hnonneg ⊢
    exact Int.lt_iff_le_and_ne.mpr ⟨hnonneg, hne.symm⟩
  | ok chain =>
    simp only [hchain] at hne hnonneg ⊢
    have hverified : (ourVerify env w₁ chain).1 = true := by
      by_contra hfalse
      rw [Bool.not_eq_true] at hfalse
      rw [hfalse, env.afterVerify_false] at hne
      exact hne rfl
    rw [internalVerify_of_ourVerify hcert (hright.kept chain hchain) hverified]
    rw [hverified] at hne
    exact Int.lt_iff_le_and_ne.mpr ⟨hnonneg, hne.symm⟩

end Answers

theorem certChecked_iff {w' : World} {data : PropData} {goOn : Bool}
    (h : verifyChildCert.check env fuel w data = some (goOn, w'))
    (hturn : TurnsValid .cert w w' data.id)
    : CertChecked env fuel w data ↔
      LeadsToAnchor w data.aki data.issuer ∧ ChainAnswersRight env fuel w data := by
  constructor
  . rintro ⟨x, untrusted, anchor, w₁, hread, hwalk, hpos⟩
    constructor
    . rw [← parentWalk_isSome_iff hwalk]
      rfl
    . intro _ _ _ _ hread' hwalk'
      cases hread.symm.trans hread'
      cases hwalk.symm.trans hwalk'
      exact answersRight_of_pos hpos
  rintro ⟨hleads, hright⟩
  unfold verifyChildCert.check at h
  split at h
  . cases h
    exact absurd hturn not_turnsValid_self
  next x hread =>
  obtain ⟨⟨_, w₁⟩, hverify, h⟩ := bind_eq_some_iff.mp h
  obtain ⟨untrusted, anchor, w2, hwalk, hv⟩ := verifyCert_cases hverify
  rw [← parentWalk_isSome_iff hwalk, isSome_iff_exists] at hleads
  obtain ⟨a, rfl⟩ := hleads
  obtain ⟨rfl, rfl⟩ := hv
  refine ⟨x, untrusted, a, w2, hread, hwalk, ?_⟩
  apply pos_of_checkit (SameDb.parentWalk hwalk).cert (hright x untrusted a w2 hread hwalk)
  dsimp only at h
  split at h
  . cases h
    exact absurd hturn not_turnsValid_deletebylid
  . assumption

theorem crlChecked_iff {row : CrlRow} {x : X509Crl}
    (hfile : w.fs (w.path row.toObj) = some (.crl x))
    (hturn : TurnsValid .crl w (verifyChildCRL.check env w row).2 row.localId)
    : CrlChecked env w row ↔ ∃ r, ParentRow w x.aki (some x.issuer) r := by
  constructor
  . rintro ⟨_, _, hfile', hp, _⟩
    cases hfile.symm.trans hfile'
    obtain ⟨r, x, hpick, hread, _⟩ := parentCert_eq_some_iff.mp hp
    exact ⟨r, hpick, x, hread⟩
  rintro ⟨r, hpick, c, hread⟩
  have hp := parentCert_eq_some_iff.mpr ⟨r, c, hpick, hread, rfl⟩
  refine ⟨x, _, hfile, hp, ?_⟩
  by_contra hneg
  have hsta : (verifyCrl env w x x.aki (some x.issuer)).1.sta = .error .notValid := by
    unfold verifyCrl
    split
    . next h => simp [h] at hp
    . next _ h =>
      rw [h] at hp
      cases hp
      simpa using hneg
  unfold verifyChildCRL.check at hturn
  rw [hfile] at hturn
  dsimp only at hturn
  split at hturn
  . exact not_turnsValid_self hturn
  . rw [hsta] at hturn
    exact not_turnsValid_deletebylid hturn

/--
What the propagation turns from NOCHAIN to VALIDATED has been checked if and only if its parents lead
to a trust anchor and the answers for its chain are right; for a CRL, if and only if it has a parent.
-/
theorem propagation_checked_iff (env : Env) (w : World)
    : (∀ fuel data goOn w', verifyChildCert.check env fuel w data = some (goOn, w')
        → TurnsValid .cert w w' data.id
        → (CertChecked env fuel w data ↔
          LeadsToAnchor w data.aki data.issuer ∧ ChainAnswersRight env fuel w data))
      ∧ ∀ row x, w.fs (w.path row.toObj) = some (.crl x)
        → TurnsValid .crl w (verifyChildCRL.check env w row).2 row.localId
        → (CrlChecked env w row ↔ ∃ r, ParentRow w x.aki (some x.issuer) r) :=
  ⟨fun _ _ _ _ h hturn => certChecked_iff h hturn, fun _ _ hfile hturn => crlChecked_iff hfile hturn⟩

def waitingAnchor : CertRow :=
  (X509.plain "T" "T" 1 1).plainRow "T.cer" (Flags.trusted ||| Flags.validated) 1

def waitingCert : CertRow :=
  (X509.plain "C" "T" 2 1).plainRow "C.cer" Flags.nochain 2

def waitingWorld : World :=
  let w := World.start "/r" (plainFiles [("T.cer", .cert (X509.plain "T" "T" 1 1)),
    ("C.cer", .cert (X509.plain "C" "T" 2 1)), ("L.crl", .crl X509Crl.plain)]) 50 false
  { w with dir := [⟨"/r", 1⟩], cert := [waitingAnchor, waitingCert] }

def waitingCrl : CrlRow :=
  crl2row waitingWorld X509Crl.plain "L.crl" 1 Flags.nochain

theorem propagation_checked_iff_waiting
    : CertChecked Env.plain 10 waitingWorld (registerChild waitingWorld waitingCert)
      ∧ CrlChecked Env.plain { waitingWorld with crl := [waitingCrl] } waitingCrl := by
  have hparent : ParentRow waitingWorld (some "T") (some "T") waitingAnchor := by
    constructor
    . decide
    . exact ⟨X509.plain "T" "T" 1 1, by decide⟩
  constructor
  . have h : (verifyChildCert.check Env.plain 10 waitingWorld
        (registerChild waitingWorld waitingCert)).map
        (fun res => decide (TurnsValid .cert waitingWorld res.2 2)) = some true := by decide
    obtain ⟨⟨_, _⟩, hcheck, hturn⟩ := map_eq_some_iff.mp h
    apply ((propagation_checked_iff ..).1 _ _ _ _ hcheck (of_decide_eq_true hturn)).mpr
    refine ⟨.anchor hparent (by decide), ?_⟩
    intro x untrusted anchor w₁ hread hwalk
    have hx : readCertFromFile waitingWorld ("/r" ++ "/" ++ "C.cer") = some (X509.plain "C" "T" 2 1) := by decide
    have hparents : (parentWalk 10 waitingWorld (some "T") (some "T") []).map Prod.fst
        = some ([], some (X509.plain "T" "T" 1 1)) := by decide
    obtain rfl := some.inj (hx.symm.trans hread)
    rw [show parentWalk 10 waitingWorld (some "T") (some "T") [] = _ from hwalk] at hparents
    cases hparents
    have hgood : ∀ s ∈ signatures Env.plain [X509.plain "C" "T" 2 1, X509.plain "T" "T" 1 1],
        s.good Env.plain = true := by decide
    refine ⟨by decide, ?_⟩
    intro chain hchain s hs _
    cases hchain
    exact hgood s hs
  . apply ((propagation_checked_iff ..).2 _ X509Crl.plain (by decide) (by decide)).mpr
    exact ⟨waitingAnchor, hparent.pick, hparent.readable⟩

/--
Three trust anchors have the name and the SKI of the issuer of a certificate with a bad signature,
so that it is stored without a chain. When a fourth one is added, `parent_cert` gives up again, and
the certificate is marked as validated without any check of its signature.
-/
theorem validates_unchecked
    : ∃ w op w', (lts Env.plain).Reachable w ∧ (lts Env.plain).step w op w'
      ∧ ∃ id, TurnsValid .cert w w' id ∧ (∃ r ∈ w'.cert, r.localId = id ∧ r.subject = "C")
        ∧ ∀ c ∈ w'.checked, c.1.subject ≠ some "C" := by
  let run := plainRun
    [("T1.cer", .cert (X509.plain "T" "T" 1 1)), ("T2.cer", .cert (X509.plain "T" "T" 2 2)),
      ("T3.cer", .cert (X509.plain "T" "T" 3 3)), ("C.cer", .cert (X509.plain "C" "T" 5 9)),
      ("T4.cer", .cert (X509.plain "T" "T" 4 4))]
    [.addPlain "T1.cer" true, .addPlain "T2.cer" true, .addPlain "T3.cer" true,
      .addPlain "C.cer" false]
  have h : (run.bind fun w => (Op.run Env.plain 10 w (.addPlain "T4.cer" true)).map fun w' =>
      decide (TurnsValid .cert w w' 4 ∧ (∃ r ∈ w'.cert, r.localId = 4 ∧ r.subject = "C")
        ∧ ∀ c ∈ w'.checked, c.1.subject ≠ some "C")) = some true := by decide
  obtain ⟨w, hrun, h⟩ := bind_eq_some_iff.mp h
  obtain ⟨w', hstep, h⟩ := map_eq_some_iff.mp h
  exact ⟨w, _, w', reachable_of_plainRun hrun, ⟨10, hstep⟩, 4, of_decide_eq_true h⟩

end Rpstir.Sqhl
