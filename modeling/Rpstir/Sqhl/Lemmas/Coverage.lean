import Rpstir.Data.List
import Rpstir.Sqhl.Lemmas.Identity

/-!
This module contains the exact effect of the invalidation loop on a table without cross-certificates:
it marks the rows that a path of child links leads to, and no other row.
-/

namespace Rpstir.Sqhl

open List Option

theorem propagate_total {visit : World → PropData → Bool → Option (Bool × World)} {doVerify : Bool}
    {inv : World → List PropData → Prop} {size : World → List PropData → Nat}
    (hvisit : ∀ w data stack, inv w (data :: stack) → ∃ doIt w', visit w data true = some (doIt, w')
      ∧ inv w' (if doIt then (childrenSrch w' data doVerify).reverse ++ stack else stack)
      ∧ size w' (if doIt then (childrenSrch w' data doVerify).reverse ++ stack else stack)
        < size w (data :: stack))
    {fuel : Nat} {w : World} {stack : List PropData} (hinv : inv w stack)
    (hfuel : size w stack ≤ fuel)
    : ∃ w', propagate visit doVerify fuel w false stack = some w' ∧ inv w' [] := by
  induction fuel generalizing w stack with
  | zero =>
    cases stack with
    | nil => exact ⟨w, rfl, hinv⟩
    | cons data stack =>
      obtain ⟨_, _, _, _, hlt⟩ := hvisit w data stack hinv
      omega
  | succ fuel ih =>
    cases stack with
    | nil => exact ⟨w, rfl, hinv⟩
    | cons data stack =>
      obtain ⟨doIt, _, hv, hinv1, hlt⟩ := hvisit w data stack hinv
      obtain ⟨w', hloop, hend⟩ := ih hinv1 (by omega)
      refine ⟨w', ?_, hend⟩
      rw [propagate, Bool.not_false, hv]
      exact hloop

def ChildLink (k : Key) (r : CertRow) : Prop :=
  r.ident.parentKey = k ∧ r.ident.key ≠ k

def SearchLink (k : Key) (r : CertRow) : Prop :=
  r.ident.parentKey = k ∧ some r.ski ≠ k.1

inductive Reached (link : Key → CertRow → Prop) (P : CertRow → Prop) (w : World) (root : Key)
    : CertRow → Prop where
  | root {r : CertRow} (hr : r ∈ w.cert) (hlink : link root r) (hP : P r) : Reached link P w root r
  | child {p r : CertRow} (hp : Reached link P w root p) (hr : r ∈ w.cert)
      (hlink : link p.ident.key r) (hP : P r) : Reached link P w root r

namespace Reached

variable {link : Key → CertRow → Prop} {P : CertRow → Prop} {w : World} {root : Key} {r : CertRow}

theorem mem (h : Reached link P w root r) : r ∈ w.cert := by
  cases h with
  | root hr
  | child _ hr => exact hr

theorem holds (h : Reached link P w root r) : P r := by
  cases h with
  | root _ _ hP
  | child _ _ _ hP => exact hP

end Reached

structure PlainTable (w : World) : Prop where
  ids : w.UniqueIds
  keys : (w.cert.map fun r => r.ident.key).Nodup
  para : ∀ r ∈ w.cert, r.flags &&& paraFlags = 0
  files : ∀ r ∈ w.cert, (readCertFromFile w (w.path r.toObj)).isSome = true
  crl : w.crl = []
  signed : NoSigned w

theorem PlainTable.eq_of_key {w : World} (h : PlainTable w) {r r' : CertRow} (hr : r ∈ w.cert)
    (hr' : r' ∈ w.cert) (hkey : r.ident.key = r'.ident.key) : r = r' :=
  inj_on_of_nodup_map h.keys hr hr' hkey

def CertRow.unmarked (r : CertRow) : Bool := r.flags.test Flags.nochain false

namespace Invalidation

variable {r : CertRow}

def mark (M : Nat → Bool) (r : CertRow) : CertRow :=
  if M r.localId then { r with flags := validFlags r.flags false } else r

@[simp]
theorem localId_mark (M : Nat → Bool) (r : CertRow) : (mark M r).localId = r.localId := by
  unfold mark
  split <;> rfl

theorem ident_mark (M : Nat → Bool) (r : CertRow) : (mark M r).ident = r.ident := by
  unfold mark
  split
  . simp [CertRow.ident, trusted_validFlags]
  . rfl

theorem test_nochain_validFlags_false (flags : Flags)
    : (validFlags flags false).test Flags.nochain false = false := by
  rw [Flags.test_false_eq_not_test_true, Flags.test_nochain]
  simp [validFlags, Flags.nochain]

theorem unmarked_mark (M : Nat → Bool) (r : CertRow)
    : (mark M r).unmarked = (!M r.localId && r.unmarked) := by
  unfold mark CertRow.unmarked
  split
  . next h => simp [h, test_nochain_validFlags_false]
  . next h => simp [h]

def marked (w : World) (M : Nat → Bool) : World :=
  { w with cert := w.cert.map (mark M) }

theorem mark_false (r : CertRow) : mark (fun _ => false) r = r := rfl

theorem marked_false (w : World) : marked w (fun _ => false) = w := by
  simp [marked, funext mark_false]

theorem updateValidFlags_marked {w : World} (hids : w.UniqueIds) (M : Nat → Bool)
    (hr : r ∈ w.cert)
    : updateValidFlags (marked w M) .cert r.localId r.flags false
      = marked w fun id => M id || id == r.localId := by
  unfold updateValidFlags World.updateByLid marked
  simp only [List.map_map, World.mk.injEq, true_and, and_true]
  apply map_congr_left
  intro r' hr'
  simp only [Function.comp_apply, localId_mark]
  by_cases hid : r'.localId = r.localId
  . obtain rfl := hids.eq hr' hr hid
    simp only [if_true, mark, beq_self_eq_true, Bool.or_true]
    split
    . rfl
    . rfl
  . simp [hid, mark]

variable {w₀ w : World} {root : Key} {stack : List PropData}

def Below (w₀ : World) (root : Key) (M : Nat → Bool) (r : CertRow) : Prop :=
  SearchLink root r ∨ ∃ p ∈ w₀.cert, M p.localId = true ∧ SearchLink p.ident.key r

theorem Below.mono {M M' : Nat → Bool} (h : Below w₀ root M r)
    (hM : ∀ id, M id = true → M' id = true) : Below w₀ root M' r := by
  rcases h with h | ⟨p, hp, hmark, hlink⟩
  . exact .inl h
  . exact .inr ⟨p, hp, hM _ hmark, hlink⟩

def key (d : PropData) : Key := (some d.ski, d.subject)

/--
The invariant of the invalidation loop. The last clause is about the order of the stack: an entry
whose row has been marked since it was pushed lies below the children of this row.
-/
structure Inv (w₀ : World) (root : Key) (M : Nat → Bool) (stack : List PropData) : Prop where
  sound : ∀ r ∈ w₀.cert, M r.localId = true
    → Reached SearchLink (fun r => r.unmarked = true) w₀ root r
  entry : ∀ d ∈ stack, ∃ r ∈ w₀.cert, d = registerChild w₀ r ∧ r.unmarked = true
    ∧ Below w₀ root M r
  closed : ∀ r ∈ w₀.cert, r.unmarked = true → M r.localId = false → Below w₀ root M r
    → ∃ d ∈ stack, d.id = r.localId
  order : ∀ above d below, stack = above ++ d :: below → M d.id = true
    → ∀ r ∈ w₀.cert, r.unmarked = true → M r.localId = false → SearchLink (key d) r
    → ∃ e ∈ above, e.id = r.localId

theorem reached_of_below {M : Nat → Bool} (h : Inv w₀ root M stack) (hr : r ∈ w₀.cert)
    (hunmarked : r.unmarked = true) (hbelow : Below w₀ root M r)
    : Reached SearchLink (fun r => r.unmarked = true) w₀ root r := by
  rcases hbelow with hlink | ⟨p, hp, hmark, hlink⟩
  . exact .root hr hlink hunmarked
  . exact .child (h.sound p hp hmark) hr hlink hunmarked

theorem isChildRow_mark {M : Nat → Bool} {data : PropData}
    : isChildRow data.ski data.subject false (mark M r) = true
      ↔ SearchLink (key data) r ∧ r.unmarked = true ∧ M r.localId = false := by
  have hski : (mark M r).ski = r.ski := congrArg CertIdent.ski (ident_mark M r)
  have hunmarked := unmarked_mark M r
  unfold CertRow.unmarked at hunmarked
  rw [isChildRow_iff, ident_mark, hski, hunmarked]
  simp only [SearchLink, key, ne_eq, some.injEq, Bool.and_eq_true, Bool.not_eq_true',
    CertRow.unmarked]
  tauto

theorem registerChild_marked (M : Nat → Bool) (hM : M r.localId = false)
    : registerChild (marked w₀ M) (mark M r) = registerChild w₀ r := by
  simp only [mark, hM, Bool.false_eq_true, if_false]
  rfl

theorem childrenSrch_marked (M : Nat → Bool) (data : PropData) {c : PropData}
    : c ∈ childrenSrch (marked w₀ M) data false
      ↔ ∃ r ∈ w₀.cert, SearchLink (key data) r ∧ r.unmarked = true ∧ M r.localId = false
        ∧ c = registerChild w₀ r := by
  rw [mem_childrenSrch]
  constructor
  . rintro ⟨_, hr, hchild, rfl⟩
    obtain ⟨r, hmem, rfl⟩ := List.mem_map.mp hr
    obtain ⟨hlink, hunmarked, hM⟩ := isChildRow_mark.mp hchild
    exact ⟨r, hmem, hlink, hunmarked, hM, registerChild_marked M hM⟩
  . rintro ⟨r, hr, hlink, hunmarked, hM, rfl⟩
    exact ⟨mark M r, List.mem_map_of_mem hr, isChildRow_mark.mpr ⟨hlink, hunmarked, hM⟩,
      (registerChild_marked M hM).symm⟩

def Gone (w : World) (root : Key) : Prop :=
  ∀ p ∈ w.cert, p.ident.key = root → p.flags.valid = true → ¬(p.valfrom < w.now ∧ w.now < p.valto)

theorem aki_registerChild (w : World) {ski : String} (h : r.aki = some ski)
    : (registerChild w r).aki = r.aki := by
  simp [registerChild, h]

theorem countvalidparents_eq_zero (htable : PlainTable w₀) (hroot : root.1 ≠ none)
    (hgone : Gone w₀ root) {M : Nat → Bool} (hbelow : Below w₀ root M r)
    : countvalidparents (marked w₀ M) (registerChild w₀ r).issuer (registerChild w₀ r).aki = 0 := by
  have haki : ∃ ski, r.aki = some ski := by
    rw [← ne_none_iff_exists']
    rcases hbelow with hlink | ⟨p, _, _, hlink⟩
    . rw [← show r.ident.parentKey.1 = r.aki from rfl, hlink.1]
      exact hroot
    . rw [← show r.ident.parentKey.1 = r.aki from rfl, hlink.1]
      simp [CertIdent.key]
  obtain ⟨ski, haki⟩ := haki
  rw [aki_registerChild w₀ haki, countvalidparents, countP_eq_zero]
  rintro _ hmem hvalid
  obtain ⟨p, hp, rfl⟩ := List.mem_map.mp hmem
  simp only [isValidParent, isParentRow, registerChild, isNone_some, Bool.false_or,
    Bool.and_eq_true, decide_eq_true_eq, some.injEq] at hvalid
  obtain ⟨⟨⟨⟨hski, hsubject⟩, hflags⟩, hfrom⟩, hto⟩ := hvalid
  have hkey : p.ident.key = r.ident.parentKey := by
    rw [← ident_mark M p]
    exact Prod.ext hski hsubject.symm
  have hnot : M p.localId = false := by
    by_contra hM
    rw [Bool.not_eq_false] at hM
    simp only [mark, hM, if_true, valid_validFlags] at hflags
    cases hflags
  rcases hbelow with hlink | ⟨_, hp', hM, hlink⟩
  . simp only [mark, hnot, Bool.false_eq_true, if_false] at hflags hfrom hto
    exact hgone p hp (hkey.trans hlink.1) hflags ⟨hfrom, hto⟩
  . rw [htable.eq_of_key hp hp' (hkey.trans hlink.1), hM] at hnot
    cases hnot

theorem invalidateChildObjs_eq (hcrl : w.crl = []) (hsigned : NoSigned w) (data : PropData)
    : invalidateChildObjs w data = w := by
  simp [invalidateChildObjs, invalidateChildRoas, invalidateChildGbrs, invalidateChildMfts,
    invalidateChildCrls, hcrl, hsigned.roa, hsigned.manifest, hsigned.gbr]

variable {M : Nat → Bool}

theorem visit (htable : PlainTable w₀) (hroot : root.1 ≠ none) (hgone : Gone w₀ root)
    (hr : r ∈ w₀.cert) (hbelow : Below w₀ root M r)
    : invalidateChildCert (marked w₀ M) (registerChild w₀ r) true
      = (true, marked w₀ fun id => M id || id == r.localId) := by
  have hcount := countvalidparents_eq_zero htable hroot hgone hbelow
  have hupdate := updateValidFlags_marked htable.ids M hr
  unfold invalidateChildCert
  rw [if_pos rfl, hcount, if_neg (Nat.lt_irrefl 0),
    show (registerChild w₀ r).id = r.localId from rfl,
    show (registerChild w₀ r).flags = r.flags from rfl, hupdate, invalidateChildObjs_eq]
  . exact htable.crl
  . exact ⟨htable.signed.roa, htable.signed.manifest, htable.signed.gbr⟩

theorem key_registerChild (w : World) (r : CertRow) : key (registerChild w r) = r.ident.key := rfl

theorem Inv.step (htable : PlainTable w₀) (hr : r ∈ w₀.cert)
    (h : Inv w₀ root M (registerChild w₀ r :: stack))
    : Inv w₀ root (fun id => M id || id == r.localId)
      ((childrenSrch (marked w₀ fun id => M id || id == r.localId) (registerChild w₀ r) false).reverse
        ++ stack) := by
  obtain ⟨r', hr', hr'eq, hunmarked, hbelow⟩ := h.entry _ mem_cons_self
  obtain rfl : r = r' := htable.ids.eq hr hr' (congrArg PropData.id hr'eq)
  have hmono : ∀ id, M id = true → (M id || id == r.localId) = true := by
    intro id hM
    rw [hM, Bool.true_or]
  -- an entry for a row that is still unmarked is not the one that has just been taken
  have hold : ∀ {l : List PropData} {c : CertRow}, (M c.localId || c.localId == r.localId) = false
      → (∃ e ∈ registerChild w₀ r :: l, e.id = c.localId) → ∃ e ∈ l, e.id = c.localId := by
    rintro l c hM ⟨e, he, hid⟩
    rcases mem_cons.mp he with rfl | he
    . simp [← hid, registerChild] at hM
    . exact ⟨e, he, hid⟩
  have hnew : ∀ c ∈ w₀.cert, c.unmarked = true → (M c.localId || c.localId == r.localId) = false
      → SearchLink r.ident.key c
      → ∃ e ∈ (childrenSrch (marked w₀ fun id => M id || id == r.localId) (registerChild w₀ r)
        false).reverse, e.id = c.localId := by
    intro c hc hunmarked hM hlink
    refine ⟨registerChild w₀ c, ?_, rfl⟩
    rw [mem_reverse, childrenSrch_marked]
    exact ⟨c, hc, hlink, hunmarked, hM, rfl⟩
  have hsame : ∀ p ∈ w₀.cert, (p.localId == r.localId) = true → p = r := by
    intro p hp hid
    exact htable.ids.eq hp hr (by simpa using hid)
  constructor
  . intro p hp hM
    rcases Bool.or_eq_true_iff.mp hM with hM | hid
    . exact h.sound p hp hM
    . rw [hsame p hp hid]
      exact reached_of_below h hr hunmarked hbelow
  . intro d hd
    rcases List.mem_append.mp hd with hd | hd
    . rw [mem_reverse, childrenSrch_marked] at hd
      obtain ⟨c, hc, hlink, hunmarked, _, rfl⟩ := hd
      refine ⟨c, hc, rfl, hunmarked, .inr ⟨r, hr, by simp, hlink⟩⟩
    . obtain ⟨c, hc, heq, hunmarked, hbelow⟩ := h.entry d (mem_cons_of_mem _ hd)
      exact ⟨c, hc, heq, hunmarked, hbelow.mono hmono⟩
  . intro c hc hunmarked hM hbelow
    have hMold : M c.localId = false := (Bool.or_eq_false_iff.mp hM).1
    have hcases : Below w₀ root M c ∨ SearchLink r.ident.key c := by
      rcases hbelow with hlink | ⟨p, hp, hMp, hlink⟩
      . exact .inl (.inl hlink)
      . rcases Bool.or_eq_true_iff.mp hMp with hMp | hid
        . exact .inl (.inr ⟨p, hp, hMp, hlink⟩)
        . rw [hsame p hp hid] at hlink
          exact .inr hlink
    rcases hcases with hbelow | hlink
    . obtain ⟨e, he, hid⟩ := hold hM (h.closed c hc hunmarked hMold hbelow)
      exact ⟨e, mem_append_right _ he, hid⟩
    . obtain ⟨e, he, hid⟩ := hnew c hc hunmarked hM hlink
      exact ⟨e, mem_append_left _ he, hid⟩
  intro above d below heq hMd c hc hunmarked hM hlink
  have hMold : M c.localId = false := (Bool.or_eq_false_iff.mp hM).1
  obtain ⟨above', rfl, hstack⟩ : ∃ above', above
      = (childrenSrch (marked w₀ fun id => M id || id == r.localId) (registerChild w₀ r)
        false).reverse ++ above' ∧ stack = above' ++ d :: below := by
    rcases append_eq_append_iff.mp heq with ⟨l, habove, hrest⟩ | ⟨l, hpushed, hrest⟩
    . exact ⟨l, habove, hrest⟩
    cases l with
    | nil => exact ⟨[], by simpa using hpushed.symm, by simpa using hrest.symm⟩
    -- an entry that has just been pushed is about a row that is not marked
    | cons e =>
      exfalso
      have hd : d = e := by simpa using congrArg head? hrest
      have hmem : d ∈ (childrenSrch (marked w₀ fun id => M id || id == r.localId)
          (registerChild w₀ r) false).reverse := by
        rw [hpushed, hd]
        simp
      rw [mem_reverse, childrenSrch_marked] at hmem
      obtain ⟨c', _, _, _, hM', rfl⟩ := hmem
      rw [show (registerChild w₀ c').id = c'.localId from rfl, hM'] at hMd
      cases hMd
  rcases Bool.or_eq_true_iff.mp hMd with hMd | hid
  . have hsplit : registerChild w₀ r :: stack = (registerChild w₀ r :: above') ++ d :: below := by
      rw [hstack]
      rfl
    obtain ⟨e, he, heid⟩ := hold hM (h.order _ d below hsplit hMd c hc hunmarked hMold hlink)
    exact ⟨e, mem_append_right _ he, heid⟩
  -- a second entry for the row that has just been marked
  . obtain ⟨p, hp, rfl, _⟩ := h.entry d (by rw [hstack]; simp)
    rw [key_registerChild, hsame p hp hid] at hlink
    obtain ⟨e, he, heid⟩ := hnew c hc hunmarked hM hlink
    exact ⟨e, mem_append_left _ he, heid⟩

def size (w : World) (stack : List PropData) : Nat :=
  w.cert.countP CertRow.unmarked * (w.cert.length + 1) + stack.length

theorem length_childrenSrch_le (w : World) (data : PropData) (doVerify : Bool)
    : (childrenSrch w data doVerify).length ≤ w.cert.length := by
  rw [childrenSrch, length_map]
  exact length_filter_le ..

theorem size_lt (htable : PlainTable w₀) (hr : r ∈ w₀.cert)
    (h : Inv w₀ root M (registerChild w₀ r :: stack))
    : size (marked w₀ fun id => M id || id == r.localId)
        ((childrenSrch (marked w₀ fun id => M id || id == r.localId) (registerChild w₀ r)
          false).reverse ++ stack)
      < size (marked w₀ M) (registerChild w₀ r :: stack) := by
  obtain ⟨r', hr', hr'eq, hunmarked, _⟩ := h.entry _ mem_cons_self
  obtain rfl : r = r' := htable.ids.eq hr hr' (congrArg PropData.id hr'eq)
  have hcount (M : Nat → Bool) : (marked w₀ M).cert.countP CertRow.unmarked
      = w₀.cert.countP fun c => !M c.localId && c.unmarked := by
    simp only [marked, countP_map]
    congr 1
    funext c
    exact unmarked_mark M c
  have hlength (M : Nat → Bool) : (marked w₀ M).cert.length = w₀.cert.length := by
    simp [marked]
  unfold size
  rw [hcount, hcount, hlength, hlength, length_append, length_reverse, length_cons]
  cases hM : M r.localId with
  | true =>
    -- nothing is left below a row that has been marked before
    have hnil : childrenSrch (marked w₀ fun id => M id || id == r.localId) (registerChild w₀ r)
        false = [] := by
      rw [eq_nil_iff_forall_not_mem]
      intro _ hd
      obtain ⟨c, hc, hlink, hcunmarked, hcM, _⟩ := (childrenSrch_marked _ _).mp hd
      obtain ⟨_, he, _⟩ := h.order [] (registerChild w₀ r) stack rfl hM c hc hcunmarked
        (Bool.or_eq_false_iff.mp hcM).1 hlink
      cases he
    have hle : w₀.cert.countP (fun c => !(M c.localId || c.localId == r.localId) && c.unmarked)
        ≤ w₀.cert.countP fun c => !M c.localId && c.unmarked := by
      apply countP_mono_left
      intro c _
      simp
      tauto
    have hmul := Nat.mul_le_mul_right (w₀.cert.length + 1) hle
    rw [hnil, length_nil]
    omega
  | false =>
    have hlt : w₀.cert.countP (fun c => !(M c.localId || c.localId == r.localId) && c.unmarked)
        < w₀.cert.countP fun c => !M c.localId && c.unmarked := by
      apply countP_lt_countP hr
      . intro c
        simp
        tauto
      . simp
      . simp [hM, hunmarked]
    have hchildren := length_childrenSrch_le (marked w₀ fun id => M id || id == r.localId)
      (registerChild w₀ r) false
    have hmul := Nat.mul_le_mul_right (w₀.cert.length + 1) hlt
    rw [hlength] at hchildren
    rw [Nat.succ_mul] at hmul
    omega

theorem invalidateChildren_marked (htable : PlainTable w) {ski subject : String}
    (hgone : Gone w (some ski, subject)) (lid : Nat) {fuel : Nat}
    (hfuel : w.cert.length * (w.cert.length + 1) + w.cert.length < fuel)
    : ∃ M, invalidateChildren fuel w ski subject lid = some (marked w M)
      ∧ ∀ r ∈ w.cert, M r.localId = true
        ↔ Reached SearchLink (fun r => r.unmarked = true) w (some ski, subject) r := by
  obtain ⟨fuel, rfl⟩ : ∃ fuel', fuel = fuel' + 1 := ⟨fuel - 1, by omega⟩
  let data : PropData := ⟨ski, subject, 0, lid, "", "", none, none⟩
  have hstart : Inv w (some ski, subject) (fun _ => false) (childrenSrch w data false).reverse := by
    have hchildren : ∀ d, d ∈ (childrenSrch w data false).reverse ↔ ∃ r ∈ w.cert,
        SearchLink (some ski, subject) r ∧ r.unmarked = true ∧ d = registerChild w r := by
      intro d
      have h := @childrenSrch_marked w (fun _ => false) data d
      rw [marked_false] at h
      rw [mem_reverse, h]
      simp [key, data]
    constructor
    . intro r _ hM
      cases hM
    . intro d hd
      obtain ⟨r, hr, hlink, hunmarked, rfl⟩ := (hchildren d).mp hd
      exact ⟨r, hr, rfl, hunmarked, .inl hlink⟩
    . rintro r hr hunmarked _ (hlink | ⟨_, _, hM, _⟩)
      . exact ⟨registerChild w r, (hchildren _).mpr ⟨r, hr, hlink, hunmarked, rfl⟩, rfl⟩
      . cases hM
    . intro _ _ _ _ hM
      cases hM
  let inv (w' : World) (stack : List PropData) : Prop :=
    ∃ M, w' = marked w M ∧ Inv w (some ski, subject) M stack
  have hvisit : ∀ w' d stack, inv w' (d :: stack) → ∃ doIt w'',
      some (invalidateChildCert w' d true) = some (doIt, w'')
        ∧ inv w'' (if doIt then (childrenSrch w'' d false).reverse ++ stack else stack)
        ∧ size w'' (if doIt then (childrenSrch w'' d false).reverse ++ stack else stack)
          < size w' (d :: stack) := by
    rintro _ d stack ⟨M, rfl, hinv⟩
    obtain ⟨r, hr, rfl, _, hbelow⟩ := hinv.entry d mem_cons_self
    refine ⟨true, _, congrArg some (visit htable (by simp) hgone hr hbelow), ?_, ?_⟩
    . rw [if_pos rfl]
      exact ⟨_, rfl, hinv.step htable hr⟩
    . rw [if_pos rfl]
      exact size_lt htable hr hinv
  have hsize : size w (childrenSrch w data false).reverse ≤ fuel := by
    have hcount : w.cert.countP CertRow.unmarked ≤ w.cert.length := countP_le_length
    have hchildren := length_childrenSrch_le w data false
    have hmul := Nat.mul_le_mul_right (w.cert.length + 1) hcount
    simp only [size, length_reverse]
    omega
  have hinv : inv w (childrenSrch w data false).reverse :=
    ⟨fun _ => false, (marked_false w).symm, hstart⟩
  have htotal : ∃ w', propagate (fun w data doUpdate => some (invalidateChildCert w data doUpdate))
      false fuel w false (childrenSrch w data false).reverse = some w' ∧ inv w' [] :=
    propagate_total hvisit hinv hsize
  obtain ⟨w', hloop, M, rfl, hend⟩ := htotal
  refine ⟨M, ?_, ?_⟩
  . rw [invalidateChildren, verifyOrNotChildren, propagate]
    simp only [Bool.not_true, invalidateChildCert, Bool.false_eq_true, if_false,
      invalidateChildObjs_eq htable.crl htable.signed, bind_eq_bind, bind_some, if_true,
      append_nil]
    exact hloop
  intro r hr
  refine ⟨hend.sound r hr, ?_⟩
  intro hreached
  -- the stack is empty, so whatever is below a marked row is marked
  have hclosed : ∀ r ∈ w.cert, r.unmarked = true → Below w (some ski, subject) M r
      → M r.localId = true := by
    intro r hr hunmarked hbelow
    by_contra hM
    obtain ⟨d, hd, _⟩ := hend.closed r hr hunmarked (by simpa using hM) hbelow
    cases hd
  induction hreached with
  | root hr hlink hunmarked => exact hclosed _ hr hunmarked (.inl hlink)
  | child hp hr hlink hunmarked ih =>
    exact hclosed _ hr hunmarked (.inr ⟨_, hp.mem, ih hp.mem, hlink⟩)

end Invalidation

end Rpstir.Sqhl
