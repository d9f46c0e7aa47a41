import Rpstir.Sqhl.Lemmas.Verify

/-!
This module contains the check of a chain as OpenSSL makes it, and when the one that keeps its answers in the
`sigval` column comes to the same.
-/

namespace Rpstir.Sqhl

open List

variable (env : Env)

/--
A certificate and the key that its signature is checked with.
-/
abbrev Signature := X509 × Option PKey

def signatures.go (xissuer : X509) : List X509 → List Signature
  | [] => []
  | xsubject :: rest => (xsubject, xissuer.pubkey) :: signatures.go xsubject rest

def signatures (chain : List X509) : List Signature :=
  match chain.reverse with
  | [] => []
  | top :: rest => signatures.go top (if env.checkIssued top top then top :: rest else rest)

def Signature.good (s : Signature) : Bool :=
  s.2.any fun pkey => 0 < env.x509Verify s.1 pkey

def internalVerify (chain : List X509) : Bool :=
  signatures env chain ≠ [] && (signatures env chain).all (Signature.good env)

/--
`X509_verify_cert` with the verify function `ok` for every chain.
-/
def verifyAnswer (x : X509) (untrusted trusted : List X509) (ok : List X509 → Bool) : Int :=
  match env.chainOf x untrusted trusted with
  | .error i => i
  | .ok chain => env.afterVerify x untrusted trusted (ok chain)

def X509.Plain (x : X509) : Prop :=
  (∀ subj ∈ x.subject, sqlPlain subj = true) ∧ ∀ ski ∈ x.ski, sqlPlain ski = true

instance (x : X509) : Decidable x.Plain :=
  inferInstanceAs (Decidable (_ ∧ _))

def X509.Named (x : X509) (r : CertRow) : Prop :=
  x.subject = some r.subject ∧ x.ski = some r.ski

def X509.SameNames (x y : X509) : Prop :=
  x.subject = y.subject ∧ x.ski = y.ski

variable {env} {w : World} {x : X509} {pkey : PKey}

theorem cachedSigval_row (hplain : x.Plain)
    : x.cachedSigval env w = .unknown ∨ ∃ r ∈ w.cert, x.Named r ∧ x.cachedSigval env w = r.sigval := by
  unfold X509.cachedSigval
  split
  . next hsubj hski =>
    rw [getCertSigval, hplain.1 _ hsubj, hplain.2 _ hski, Bool.and_self, if_pos rfl]
    split
    . next r hlast =>
      have hr := mem_of_getLast? hlast
      rw [mem_filter, CertRow.hasKey, Bool.and_eq_true, decide_eq_true_eq, decide_eq_true_eq] at hr
      refine .inr ⟨r, hr.1, ⟨?_, ?_⟩, rfl⟩
      . rw [hsubj, hr.2.2]
      . rw [hski, hr.2.1]
    . exact .inl rfl
  . exact .inl rfl

theorem cachedSigval_eq (hplain : x.Plain) {valu : SigVal} (h : x.cachedSigval env w = valu)
    (hne : valu ≠ .unknown) : ∃ r ∈ w.cert, x.Named r ∧ r.sigval = valu := by
  rcases @cachedSigval_row env w x hplain with heq | ⟨r, hr, hnamed, heq⟩
  . exact absurd (h.symm.trans heq) hne
  . exact ⟨r, hr, hnamed, heq.symm.trans h⟩

theorem mem_localVerify {r' : CertRow} (hr' : r' ∈ (localVerify env w x pkey).2.cert)
    : ∃ r ∈ w.cert, r'.subject = r.subject ∧ r'.ski = r.ski
      ∧ (r'.sigval = r.sigval
        ∨ r'.sigval = .valid ∧ x.Named r
          ∧ (localVerify env w x pkey).1 = env.x509Verify x pkey ∧ env.x509Verify x pkey ≠ 0) := by
  unfold localVerify at hr' ⊢
  split at hr'
  . exact ⟨r', hr', rfl, rfl, .inl rfl⟩
  . exact ⟨r', hr', rfl, rfl, .inl rfl⟩
  dsimp only at hr' ⊢
  split at hr'
  . next hmok =>
    unfold X509.cacheSigval at hr'
    split at hr'
    . next hsubj hski =>
      rw [setCertSigval, List.mem_map] at hr'
      obtain ⟨r, hr, hr'⟩ := hr'
      split at hr'
      . next hkey =>
        rw [CertRow.hasKey, Bool.and_eq_true, decide_eq_true_eq, decide_eq_true_eq] at hkey
        rw [← hr', if_pos hmok]
        exact ⟨r, hr, rfl, rfl, .inr ⟨rfl, ⟨by rw [hsubj, hkey.2], by rw [hski, hkey.1]⟩, rfl, hmok⟩⟩
      . rw [hr'] at hr
        exact ⟨r', hr, rfl, rfl, .inl rfl⟩
    . exact ⟨r', hr', rfl, rfl, .inl rfl⟩
  . exact ⟨r', hr', rfl, rfl, .inl rfl⟩

/--
The answer `valu` in a row whose names a signature of `S` has is only kept if `P` holds of the signature.
-/
def Kept (S : Signature → Prop) (valu : SigVal) (P : Signature → Prop) (w : World) : Prop :=
  ∀ r ∈ w.cert, r.sigval = valu → ∀ s, S s → s.1.Named r → P s

variable {S : Signature → Prop} {P : Signature → Prop} {valu : SigVal} {w' : World}

theorem Kept.of_rows (h : Kept S valu P w)
    (hrows : ∀ r' ∈ w'.cert, ∃ r ∈ w.cert, r'.subject = r.subject ∧ r'.ski = r.ski ∧ r'.sigval = r.sigval)
    : Kept S valu P w' := by
  intro r' hr' hvalu s hs hnamed
  obtain ⟨r, hr, hsubject, hski, hsigval⟩ := hrows r' hr'
  refine h r hr (hsigval ▸ hvalu) s hs ⟨?_, ?_⟩
  . rw [hnamed.1, hsubject]
  . rw [hnamed.2, hski]

abbrev Right (env : Env) (S : Signature → Prop) : World → Prop :=
  Kept S .valid fun s => s.good env = true

abbrev RightRefusals (env : Env) (S : Signature → Prop) : World → Prop :=
  Kept S .invalid fun s => s.good env = false

theorem good_of_localVerify (hplain : ¬x.Plain → Signature.good env (x, some pkey) = true)
    (hs : S (x, some pkey)) (hright : Right env S w) (h : 0 < (localVerify env w x pkey).1)
    : Signature.good env (x, some pkey) = true := by
  by_cases hp : x.Plain
  . unfold localVerify at h
    split at h
    . next hcached =>
      obtain ⟨r, hr, hnamed, hvalid⟩ := cachedSigval_eq hp hcached (by decide)
      exact hright r hr hvalid _ hs hnamed
    . cases h
    . dsimp only at h
      split at h <;> simpa [Signature.good] using h
  . exact hplain hp

theorem localVerify_of_good (hplain : x.Plain) (hs : S (x, some pkey)) (hrefusals : RightRefusals env S w)
    (h : Signature.good env (x, some pkey) = true) : 0 < (localVerify env w x pkey).1 := by
  unfold localVerify
  split
  . exact Int.one_pos
  . next hcached =>
    obtain ⟨r, hr, hnamed, hinvalid⟩ := cachedSigval_eq hplain hcached (by decide)
    rw [hrefusals r hr hinvalid _ hs hnamed] at h
    cases h
  . dsimp only
    split <;> simpa [Signature.good] using h

theorem localVerify_nonneg (h : 0 ≤ env.x509Verify x pkey) : 0 ≤ (localVerify env w x pkey).1 := by
  unfold localVerify
  split
  . exact Int.zero_le_ofNat 1
  . exact Int.le_refl 0
  . dsimp only
    split <;> exact h

theorem RightRefusals.localVerify (hrefusals : RightRefusals env S w)
    : RightRefusals env S (localVerify env w x pkey).2 := by
  intro r' hr' hinvalid s hs hnamed
  obtain ⟨r, hr, hsubject, hski, hsigval | ⟨hvalid, -⟩⟩ := mem_localVerify hr'
  . rw [X509.Named, hsubject, hski] at hnamed
    exact hrefusals r hr (hsigval ▸ hinvalid) s hs hnamed
  . rw [hvalid] at hinvalid
    cases hinvalid

section Chain

variable (hsame : ∀ s s' : Signature, S s → S s' → s.1.SameNames s'.1 → s.good env = true → s'.good env = true)

include hsame

theorem Right.localVerify (hright : Right env S w) (hs : S (x, some pkey))
    (hres : 0 ≤ (localVerify env w x pkey).1) : Right env S (localVerify env w x pkey).2 := by
  intro r' hr' hvalid s hs' hnamed
  obtain ⟨r, hr, hsubject, hski, hsigval⟩ := mem_localVerify hr'
  rw [X509.Named, hsubject, hski] at hnamed
  rcases hsigval with hsigval | ⟨-, hnamed', hmok, hne⟩
  . exact hright r hr (hsigval ▸ hvalid) s hs' hnamed
  . have hgood : Signature.good env (x, some pkey) = true := by
      rw [hmok] at hres
      simpa [Signature.good] using Int.lt_iff_le_and_ne.mpr ⟨hres, hne.symm⟩
    exact hsame _ s hs hs' ⟨hnamed'.1.trans hnamed.1.symm, hnamed'.2.trans hnamed.2.symm⟩ hgood

theorem good_of_ourVerify_go (hplain : ∀ s, S s → ¬s.1.Plain → s.good env = true) {xissuer : X509}
    {l : List X509} (hS : ∀ s ∈ signatures.go xissuer l, S s) (hright : Right env S w)
    (h : (ourVerify.go env w xissuer l).1 = true) : ∀ s ∈ signatures.go xissuer l, s.good env = true := by
  induction l generalizing w xissuer with
  | nil => exact forall_mem_nil _
  | cons xsubject rest ih =>
    rw [signatures.go, forall_mem_cons] at hS ⊢
    unfold ourVerify.go at h
    cases hpubkey : xissuer.pubkey with
    | none =>
      rw [hpubkey] at h
      cases h
    | some pkey =>
      simp only [hpubkey] at h hS ⊢
      by_cases hmok : (localVerify env w xsubject pkey).1 ≤ 0
      . rw [if_pos hmok] at h
        cases h
      . rw [if_neg hmok] at h
        have hpos := Int.not_le.mp hmok
        exact ⟨good_of_localVerify (hplain _ hS.1) hS.1 hright hpos,
          ih hS.2 (hright.localVerify hsame hS.1 (Int.le_of_lt hpos)) h⟩

end Chain

/--
The answers that are kept and those that `X509_verify` gives agree on the signatures of `S`.
-/
structure Reliable (env : Env) (S : Signature → Prop) (w : World) : Prop where
  plain : ∀ s, S s → s.1.Plain
  nonneg : ∀ x pkey, S (x, some pkey) → 0 ≤ env.x509Verify x pkey
  same : ∀ s s', S s → S s' → s.1.SameNames s'.1 → s.good env = true → s'.good env = true
  right : Right env S w
  refusals : RightRefusals env S w

theorem Reliable.of_rows (h : Reliable env S w)
    (hrows : ∀ r' ∈ w'.cert, ∃ r ∈ w.cert, r'.subject = r.subject ∧ r'.ski = r.ski ∧ r'.sigval = r.sigval)
    : Reliable env S w' :=
  { h with right := h.right.of_rows hrows, refusals := h.refusals.of_rows hrows }

theorem Reliable.ourVerify_go (h : Reliable env S w) {xissuer : X509} {l : List X509}
    (hS : ∀ s ∈ signatures.go xissuer l, S s)
    : (ourVerify.go env w xissuer l).1 = (signatures.go xissuer l).all (Signature.good env)
      ∧ Reliable env S (ourVerify.go env w xissuer l).2 := by
  induction l generalizing w xissuer with
  | nil => exact ⟨rfl, h⟩
  | cons xsubject rest ih =>
    rw [signatures.go, forall_mem_cons] at hS
    rw [signatures.go, all_cons]
    unfold ourVerify.go
    cases hpubkey : xissuer.pubkey with
    | none => exact ⟨rfl, h⟩
    | some pkey =>
      rw [hpubkey] at hS
      have hverified : Reliable env S (localVerify env w xsubject pkey).2 :=
        { h with
          right := h.right.localVerify h.same hS.1 (localVerify_nonneg (h.nonneg _ _ hS.1))
          refusals := h.refusals.localVerify }
      dsimp only
      by_cases hmok : (localVerify env w xsubject pkey).1 ≤ 0
      . have hbad : Signature.good env (xsubject, some pkey) = false := by
          by_contra hgood
          have hpos : 0 < (localVerify env w xsubject pkey).1 :=
            localVerify_of_good (h.plain _ hS.1) hS.1 h.refusals (by simpa using hgood)
          omega
        rw [if_pos hmok, hbad]
        exact ⟨rfl, hverified⟩
      . have hgood := good_of_localVerify (fun hplain => absurd (h.plain _ hS.1) hplain) hS.1 h.right
          (Int.not_le.mp hmok)
        rw [if_neg hmok, hgood, Bool.true_and]
        exact ih hverified hS.2

theorem ourVerify_cases (env : Env) (chain : List X509)
    : signatures env chain = [] ∧ (∀ w, ourVerify env w chain = (false, w))
      ∨ signatures env chain ≠ [] ∧ ∃ xissuer l, signatures env chain = signatures.go xissuer l
        ∧ ∀ w, ourVerify env w chain = ourVerify.go env w xissuer l := by
  unfold signatures ourVerify
  cases chain.reverse with
  | nil => exact .inl ⟨rfl, fun _ => rfl⟩
  | cons top rest =>
    dsimp only
    split
    . exact .inr ⟨cons_ne_nil _ _, top, top :: rest, rfl, fun _ => rfl⟩
    . cases rest with
      | nil => exact .inl ⟨rfl, fun _ => rfl⟩
      | cons x rest => exact .inr ⟨cons_ne_nil _ _, top, x :: rest, rfl, fun _ => rfl⟩

theorem Reliable.ourVerify (h : Reliable env S w) {chain : List X509}
    (hS : ∀ s ∈ signatures env chain, S s)
    : (ourVerify env w chain).1 = internalVerify env chain ∧ Reliable env S (ourVerify env w chain).2 := by
  rcases ourVerify_cases env chain with ⟨hnil, heq⟩ | ⟨hne, xissuer, l, hgo, heq⟩
  . rw [heq, internalVerify, hnil]
    exact ⟨rfl, h⟩
  . rw [hgo] at hS
    have hverified := h.ourVerify_go hS
    rw [heq, internalVerify, decide_eq_true hne, Bool.true_and, hgo]
    exact hverified

theorem checkit_fst (env : Env) (w : World) (x : X509) (untrusted trusted : List X509)
    : (checkit env w x untrusted trusted).1
      = if verifyAnswer env x untrusted trusted (fun chain => (ourVerify env w chain).1) ≠ 0 then
          .ok ()
        else
          .error .notValid := by
  unfold checkit x509VerifyCert verifyAnswer
  cases env.chainOf x untrusted trusted <;> rfl

theorem Reliable.checkit (h : Reliable env S w) {x : X509} {untrusted trusted : List X509}
    (hS : ∀ chain, env.chainOf x untrusted trusted = .ok chain → ∀ s ∈ signatures env chain, S s)
    : (checkit env w x untrusted trusted).1
        = (if verifyAnswer env x untrusted trusted (internalVerify env) ≠ 0 then .ok () else .error .notValid)
      ∧ Reliable env S (checkit env w x untrusted trusted).2 := by
  have hanswer : verifyAnswer env x untrusted trusted (fun chain => (Sqhl.ourVerify env w chain).1)
      = verifyAnswer env x untrusted trusted (internalVerify env) := by
    unfold verifyAnswer
    cases hchain : env.chainOf x untrusted trusted with
    | error => rfl
    | ok chain => exact congrArg _ (h.ourVerify (hS chain hchain)).1
  constructor
  . rw [checkit_fst, hanswer]
  . unfold Sqhl.checkit x509VerifyCert
    cases hchain : env.chainOf x untrusted trusted with
    | error => exact h
    | ok chain => exact (h.ourVerify (hS chain hchain)).2

end Rpstir.Sqhl
