import Rpstir.Data.Intervals

/-!
This module contains the union of two lists of intervals by a walk through both that compares with a
successor which wraps at `w`, and the lists for which the result is right.
-/

namespace Span

open List

/--
The union by a walk. The flag says that the first interval of `cs` is about to be raised to the first
one of `rs`.
-/
def merge (w : Nat) : Bool → List Span → List Span → List Span
  | _, cs, [] => cs
  | _, [], rs => rs
  | false, c :: cs, r :: rs =>
    if (r.hi + 1) % w < c.lo then
      r :: merge w false (c :: cs) rs
    else if (r.hi + 1) % w = c.lo then
      if r.hi ≤ c.hi then
        merge w true (⟨r.lo, c.hi⟩ :: cs) rs
      else
        merge w true (⟨r.lo, c.hi⟩ :: cs) (r :: rs)
    else if (c.hi + 1) % w < r.lo then
      c :: merge w false cs (r :: rs)
    else if c.hi < r.hi then
      merge w true (⟨min r.lo c.lo, r.hi⟩ :: cs) rs
    else
      merge w true (⟨min r.lo c.lo, c.hi⟩ :: cs) (r :: rs)
  | true, c :: cs, r :: rs =>
    if r.hi ≤ c.hi then
      merge w false (c :: cs) rs
    else if r.lo ≤ (c.hi + 1) % w then
      ⟨c.lo, r.hi⟩ :: merge w false cs rs
    else
      c :: merge w false cs (r :: rs)
termination_by raise cs rs => 2 * (cs.length + rs.length) + if raise then 0 else 1
decreasing_by
  all_goals
    simp only [length_cons, ↓reduceIte]
    omega

structure IsUnion (cs rs out : List Span) : Prop where
  separated : Separated out
  covered : ∀ x, Covered out x ↔ Covered cs x ∨ Covered rs x

def WrapFree.Ends (w : Nat) (single : Prop) (d : Span) : Option Span → Span → Prop
  | none, q =>
    (q.hi + 1 = w → single ∧ q.lo = 0 ∧ d.lo = 0) ∧ (d.hi + 1 = w → d.lo ≤ q.hi → q.lo = 0)
  | some p, q =>
    (q.hi + 1 = w → d.hi < p.hi ∨ d.lo = p.hi + 1) ∧ (d.hi + 1 = w → d.lo ≤ q.hi → d.lo = p.hi + 1)

def WrapFree (w : Nat) (cs rs : List Span) : Prop :=
  ∀ d ∈ cs.getLast?, ∀ q ∈ rs.getLast?, WrapFree.Ends w (cs.length = 1) d rs.dropLast.getLast? q

def TouchesOne (cs : List Span) (r : Span) : Prop :=
  cs.IsChain fun c c' => r.lo ≤ c.hi + 1 → r.hi + 1 < c'.lo

structure Mergeable (w : Nat) (cs rs : List Span) : Prop where
  touchesOne : ∀ r ∈ rs, TouchesOne cs r
  wrapFree : WrapFree w cs rs

abbrev MergesRight (w : Nat) (cs rs : List Span) : Prop :=
  IsUnion cs rs (merge w false cs rs) ↔ Mergeable w cs rs

section

variable {w : Nat} {c c' r q : Span} {cs rs out : List Span}

theorem Separated.tail (h : Separated (r :: rs)) : Separated rs where
  le := fun r hr => h.le r (mem_cons_of_mem _ hr)
  pairwise := h.pairwise.of_cons

@[grind →]
theorem Separated.head_le (h : Separated (r :: rs)) : r.lo ≤ r.hi :=
  h.le r mem_cons_self

@[grind →]
theorem Separated.lt_of_mem (h : Separated (r :: rs)) (hq : q ∈ rs) : r.hi + 1 < q.lo ∧ q.lo ≤ q.hi :=
  ⟨rel_of_pairwise_cons h.pairwise hq, h.le q (mem_cons_of_mem _ hq)⟩

theorem Separated.cons (hr : r.lo ≤ r.hi) (h : Separated rs) (hlt : ∀ q ∈ rs, r.hi + 1 < q.lo)
    : Separated (r :: rs) where
  le := forall_mem_cons.mpr ⟨hr, h.le⟩
  pairwise := pairwise_cons.mpr ⟨hlt, h.pairwise⟩

variable {x lo hi y : Nat}

@[grind →]
theorem Separated.succ_lt (h : Separated (r :: rs)) (hx : Covered rs x) : r.hi + 1 < x := by
  obtain ⟨_, hq, hlo, -⟩ := hx
  exact Nat.lt_of_lt_of_le (h.lt_of_mem hq).1 hlo

theorem Separated.rest_eq_nil (hrs : Separated (r :: rs)) (hmax : r.hi + 1 = w)
    (hrw : ∀ q ∈ rs, q.hi < w) : rs = [] := by
  cases rs with
  | nil => rfl
  | cons q =>
    have := hrw q mem_cons_self
    grind

section

variable {r r' : Span} {l l' : List Span}

theorem Separated.lo_le (h : Separated (r :: l)) (hx : Covered (r :: l) x) : r.lo ≤ x := by
  grind

theorem Separated.head_le_head (h : Separated (r :: l)) (h' : Separated (r' :: l'))
    (hcovered : ∀ x, Covered (r' :: l') x → Covered (r :: l) x) : r.lo ≤ r'.lo :=
  h.lo_le (hcovered _ (covered_cons.mpr (.inl ⟨Nat.le_refl _, h'.head_le⟩)))

theorem Separated.head_hi_le (h : Separated (r :: l)) (hlo : r'.lo = r.lo)
    (hcovered : ∀ x, Covered (r' :: l') x → Covered (r :: l) x) : r'.hi ≤ r.hi := by
  apply Nat.le_of_not_lt
  intro hlt
  have hsucc := hcovered (r.hi + 1)
  grind

theorem Separated.eq_of_covered (hl : Separated l) (hl' : Separated l')
    (h : ∀ x, Covered l x ↔ Covered l' x) : l = l' := by
  induction l generalizing l' with
  | nil =>
    cases l' with
    | nil => rfl
    | cons r' =>
      have hcovered := h r'.lo
      grind
  | cons r l ih =>
    cases l' with
    | nil =>
      have hcovered := h r.lo
      grind
    | cons r' =>
      have hlo : r.lo = r'.lo :=
        Nat.le_antisymm (hl.head_le_head hl' fun x => (h x).mpr) (hl'.head_le_head hl fun x => (h x).mp)
      have hhi : r.hi = r'.hi :=
        Nat.le_antisymm (hl'.head_hi_le hlo fun x => (h x).mp) (hl.head_hi_le hlo.symm fun x => (h x).mpr)
      have hhead : r = r' := by
        cases r
        cases r'
        dsimp only at hlo hhi
        rw [hlo, hhi]
      congr 1
      apply ih hl.tail hl'.tail
      intro x
      have hx := h x
      grind
end

namespace WrapFree

theorem nil_left : WrapFree w [] rs := by
  intro _ hd
  cases hd

theorem nil_right : WrapFree w cs [] := by
  intro _ _ _ hq
  cases hq

theorem singleton_iff
    : WrapFree w cs [q] ↔ ∀ d ∈ cs.getLast?, Ends w (cs.length = 1) d none q := by
  simp [WrapFree]

theorem single_or_last (h : Separated (c :: cs))
    : cs = [] ∨ ∃ d ∈ cs, c.hi + 1 < d.lo ∧ d.lo ≤ d.hi ∧ cs.getLast? = some d ∧
        ∀ c', (c' :: cs).getLast? = some d := by
  rcases eq_nil_or_concat' cs with rfl | ⟨l, d, rfl⟩
  . exact .inl rfl
  have hmem : d ∈ l ++ [d] := mem_append_right l (mem_singleton_self d)
  obtain ⟨hlt, hle⟩ := h.lt_of_mem hmem
  refine .inr ⟨d, hmem, hlt, hle, getLast?_concat, ?_⟩
  intro c'
  rw [← cons_append, getLast?_concat]

theorem last_two (h : Separated (r :: rs))
    : rs = [] ∨ (∃ q, rs = [q] ∧ r.hi + 1 < q.lo ∧ q.lo ≤ q.hi) ∨
        ∃ p q, r.hi + 1 < p.lo ∧ p.lo ≤ p.hi ∧ p.hi + 1 < q.lo ∧ q.lo ≤ q.hi ∧
          rs.getLast? = some q ∧ rs.dropLast.getLast? = some p ∧ (r :: rs).getLast? = some q ∧
          (r :: rs).dropLast.getLast? = some p ∧
          ∀ s : Span, (s :: (r :: rs).dropLast).getLast? = some p := by
  rcases eq_nil_or_concat' rs with rfl | ⟨l, q, rfl⟩
  . exact .inl rfl
  obtain ⟨hq, hq'⟩ := h.lt_of_mem (mem_append_right l (mem_singleton_self q))
  rcases eq_nil_or_concat' l with rfl | ⟨l, p, rfl⟩
  . exact .inr (.inl ⟨q, rfl, hq, hq'⟩)
  have hmem : p ∈ l ++ [p] := mem_append_right l (mem_singleton_self p)
  obtain ⟨hp, hp'⟩ := h.lt_of_mem (mem_append_left [q] hmem)
  have hpq := (pairwise_append.mp h.tail.pairwise).2.2 p hmem q (mem_singleton_self q)
  have hdrop : (r :: (l ++ [p] ++ [q])).dropLast = r :: l ++ [p] := by
    rw [← cons_append, dropLast_concat, cons_append]
  refine .inr (.inr ⟨p, q, hp, hp', hpq, hq', getLast?_concat, ?_, ?_, ?_, ?_⟩)
  . rw [dropLast_concat, getLast?_concat]
  . rw [← cons_append, getLast?_concat]
  . rw [hdrop, getLast?_concat]
  . intro s
    rw [hdrop, ← cons_append, getLast?_concat]

section

variable (hcs : Separated (c :: cs)) (hrs : Separated (r :: rs))

include hcs hrs

theorem drop_rule (hc : c.hi < w)
    (hlt : r.hi + 1 < c.lo) : WrapFree w (c :: cs) (r :: rs) ↔ WrapFree w (c :: cs) rs := by
  have hle := hcs.head_le
  rcases single_or_last hcs with rfl | ⟨_, _, _, _, _, _⟩ <;>
    rcases last_two hrs with rfl | ⟨q, rfl, _, hq'⟩ | ⟨_, q, _, _, _, hq', _, _, _, _, _⟩ <;>
    simp [WrapFree, Ends, *] <;> omega

theorem drop_cert (hr : r.hi + 1 < w)
    (hlt : c.hi + 1 < r.lo) : WrapFree w (c :: cs) (r :: rs) ↔ WrapFree w cs (r :: rs) := by
  have hr' := hrs.head_le
  rcases single_or_last hcs with rfl | ⟨_, _, _, _, _, _⟩ <;>
    rcases last_two hrs with rfl | ⟨q, rfl, _, hq'⟩ | ⟨_, q, _, _, _, hq', _, _, _, _, _⟩ <;>
    simp [WrapFree, Ends, *] <;> omega

theorem drop_both (hr : r.hi + 1 < w)
    (hlo : c.lo ≤ r.hi) (hhi : c.hi < r.hi) (hnext : ∀ d ∈ cs, r.hi + 1 < d.lo)
    : WrapFree w (c :: cs) (r :: rs) ↔ WrapFree w cs rs := by
  rcases single_or_last hcs with rfl | ⟨d, hmem, _, _, _, _⟩
  case' inr => have hr' := hnext d hmem
  all_goals
    rcases last_two hrs with rfl | ⟨q, rfl, hq, hq'⟩ | ⟨p, q, hp, hp', hpq, hq', h1, h2, h3, h4, h5⟩ <;>
      simp [WrapFree, Ends, *] <;> omega

theorem drop_inside (hr : r.hi + 1 < w)
    (hlo : c.lo ≤ r.hi) (hhi : r.hi ≤ c.hi) (hmax : c.hi + 1 = w → r.lo = 0) (hc : c.hi < w)
    : WrapFree w (c :: cs) (r :: rs) ↔ WrapFree w (⟨min r.lo c.lo, c.hi⟩ :: cs) rs := by
  rcases single_or_last hcs with rfl | ⟨_, _, _, _, _, _⟩ <;>
    rcases last_two hrs with rfl | ⟨q, rfl, _, hq'⟩ | ⟨_, q, _, _, _, hq', _, _, _, _, _⟩ <;>
    simp [WrapFree, Ends, *] <;> omega

end

section

/-
The first interval of the second list ends where the first one of the first list begins, so that the next
one is compared without a look at the successor of its end.
-/
variable (hcs : Separated (c :: cs)) (hrs : Separated (r :: q :: rs)) (hadj : r.hi + 1 = c.lo)

include hcs hrs hadj

theorem adjacent_behind (hq : q.hi < w) (hlt : c.hi + 1 < q.lo)
    : WrapFree w (c :: cs) (r :: q :: rs) ↔ WrapFree w cs (q :: rs) := by
  have hle := hcs.head_le
  have hrq := hrs.lt_of_mem mem_cons_self
  rcases single_or_last hcs with rfl | ⟨_, _, _, _, _, _⟩ <;>
    rcases last_two hrs.tail with rfl | ⟨q', rfl, hq', _⟩ |
      ⟨p, q', hp, hp', hpq, hq', h1, h2, h3, h4, h5⟩ <;> simp [WrapFree, Ends, *] <;> omega

theorem adjacent_inside (hw : ∀ d ∈ c :: cs, d.hi < w) (hhi : q.hi ≤ c.hi)
    : WrapFree w (c :: cs) (r :: q :: rs) ↔ WrapFree w (⟨r.lo, c.hi⟩ :: cs) rs := by
  have hr := hrs.head_le
  have hrq := hrs.lt_of_mem mem_cons_self
  rcases single_or_last hcs with rfl | ⟨d, hmem, _, _, _, _⟩
  case' inr => have hdw := hw d (mem_cons_of_mem _ hmem)
  all_goals
    rcases last_two hrs.tail with rfl | ⟨q', rfl, hq', hq''⟩ |
      ⟨p, q', hp, hp', hpq, hq', h1, h2, h3, h4, h5⟩ <;> simp [WrapFree, Ends, *] <;> omega

theorem adjacent_both (hq : q.hi < w) (hw : ∀ d ∈ cs, d.hi < w) (hhi : c.hi < q.hi)
    (hnext : ∀ d ∈ cs, q.hi + 1 < d.lo)
    : WrapFree w (c :: cs) (r :: q :: rs) ↔ WrapFree w cs rs := by
  have hrq := hrs.lt_of_mem mem_cons_self
  rcases single_or_last hcs with rfl | ⟨d, hmem, _, _, _, _⟩
  case' inr =>
    have hnext' := hnext d hmem
    have hdw := hw d hmem
  all_goals
    rcases last_two hrs.tail with rfl | ⟨q', rfl, hq', hq''⟩ |
      ⟨p, q', hp, hp', hpq, hq', h1, h2, h3, h4, h5⟩ <;> simp [WrapFree, Ends, *] <;> omega

end

end WrapFree

namespace TouchesOne

theorem of_hi_le (hcs : Separated (c :: cs)) (h : r.hi ≤ c.hi) : TouchesOne (c :: cs) r := by
  refine hcs.pairwise.isChain.imp_of_mem_tail_imp ?_
  intro _ _ _ hb _ _
  have := hcs.lt_of_mem hb
  omega

theorem cons_of_lt (h : c.hi + 1 < r.lo) : TouchesOne (c :: cs) r ↔ TouchesOne cs r := by
  rw [TouchesOne, isChain_cons, TouchesOne, and_iff_right]
  intro _ _ _
  omega

theorem forall_cons (h : ∀ q ∈ rs, c.hi + 1 < q.lo)
    : (∀ q ∈ rs, TouchesOne (c :: cs) q) ↔ ∀ q ∈ rs, TouchesOne cs q :=
  forall₂_congr fun q hq => cons_of_lt (h q hq)

theorem cons_of_touches (hcs : Separated (c :: cs)) (h : r.lo ≤ c.hi + 1)
    : TouchesOne (c :: cs) r ↔ ∀ d ∈ cs, r.hi + 1 < d.lo := by
  rw [TouchesOne, isChain_cons]
  constructor
  . rintro ⟨hhead, -⟩
    cases cs with
    | nil => exact forall_mem_nil _
    | cons c' =>
      have hc' := hhead c' rfl h
      have htail := hcs.tail
      grind
  intro hnext
  refine ⟨fun c' hc' _ => hnext c' (mem_of_mem_head? hc'), ?_⟩
  refine hcs.tail.pairwise.isChain.imp_of_mem_imp ?_
  intro _ b _ hb _ _
  exact hnext b hb

theorem cons_congr (lo : Nat) : TouchesOne (⟨lo, c.hi⟩ :: cs) r ↔ TouchesOne (c :: cs) r := by
  rw [TouchesOne, TouchesOne, isChain_cons, isChain_cons]

end TouchesOne

section Union

variable {x : Span} {cs0 rs0 : List Span}

theorem IsUnion.congr (h : ∀ y, Covered cs0 y ∨ Covered rs0 y ↔ Covered cs y ∨ Covered rs y)
    : IsUnion cs0 rs0 out ↔ IsUnion cs rs out := by
  constructor
  . intro hunion
    exact ⟨hunion.separated, fun y => (hunion.covered y).trans (h y)⟩
  . intro hunion
    exact ⟨hunion.separated, fun y => (hunion.covered y).trans (h y).symm⟩

theorem IsUnion.cons_iff (hx : x.lo ≤ x.hi) (hbefore : ∀ y, Covered cs y ∨ Covered rs y → x.hi + 1 < y)
    (hcover : ∀ y, Covered cs0 y ∨ Covered rs0 y ↔ (x.lo ≤ y ∧ y ≤ x.hi) ∨ Covered cs y ∨ Covered rs y)
    : IsUnion cs0 rs0 (x :: out) ↔ IsUnion cs rs out := by
  constructor
  . intro hunion
    refine ⟨hunion.separated.tail, fun y => ?_⟩
    have hcovered := (hunion.covered y).trans (hcover y)
    have hseparated := hunion.separated
    grind
  intro hunion
  refine ⟨.cons hx hunion.separated ?_, fun y => ?_⟩
  . intro e he
    apply hbefore
    rw [← hunion.covered]
    exact ⟨e, he, Nat.le_refl _, hunion.separated.le e he⟩
  . rw [covered_cons, hunion.covered, hcover]

theorem not_isUnion_of_le {e : Span} (he : e ∈ out) (hle : e.lo ≤ x.hi + 1)
    : ¬IsUnion cs rs (x :: out) := by
  intro h
  have := (h.separated.lt_of_mem he).1
  omega

end Union

theorem merge_nil_left (b : Bool) : merge w b [] rs = rs := by
  cases rs <;> rw [merge]
  simp

theorem merge_nil_right (b : Bool) : merge w b cs [] = cs := by
  rw [merge]

theorem succ_mod_of_eq (h : x + 1 = w) : (x + 1) % w = 0 := by
  rw [h, Nat.mod_self]

theorem succ_mod_eq_iff (hx : x < w) (hy : 0 < y) : (x + 1) % w = y ↔ x + 1 = y ∧ y < w := by
  by_cases h : x + 1 = w
  . rw [succ_mod_of_eq h]
    omega
  . rw [Nat.mod_eq_of_lt (by omega)]
    omega

theorem exists_le_merge {b : Bool} (hc : c ∈ cs.head?) (hpos : 0 < c.lo)
    (hrs : ∀ r ∈ rs, 0 < r.lo ∧ r.lo ≤ r.hi ∧ r.hi < w) : ∃ e ∈ merge w b cs rs, e.lo ≤ c.lo := by
  fun_induction merge w b cs rs generalizing c with
  | case1 => exact ⟨c, mem_of_mem_head? hc, Nat.le_refl _⟩
  | case2 => cases hc
  | case3 c0 cs r rs hlt ih =>
    obtain ⟨e, he, hle⟩ := ih hc hpos (forall_mem_of_forall_mem_cons hrs)
    exact ⟨e, mem_cons_of_mem _ he, hle⟩
  | case4 c0 cs r rs hlt heq hhi ih
  | case5 c0 cs r rs hlt heq hhi ih =>
    cases hc
    obtain ⟨hr, hr', hrw⟩ := hrs r mem_cons_self
    obtain ⟨e, he, hle⟩ := ih rfl hr (by grind)
    rw [succ_mod_eq_iff hrw hpos] at heq
    exact ⟨e, he, by dsimp only at hle; omega⟩
  | case6 c0 cs r rs hlt heq hbefore ih =>
    cases hc
    exact ⟨c0, mem_cons_self, Nat.le_refl _⟩
  | case7 c0 cs r rs hlt heq hbefore hhi ih
  | case8 c0 cs r rs hlt heq hbefore hhi ih =>
    cases hc
    obtain ⟨e, he, hle⟩ := ih rfl (Nat.lt_min.mpr ⟨(hrs r mem_cons_self).1, hpos⟩) (by grind)
    exact ⟨e, he, Nat.le_trans hle (Nat.min_le_right _ _)⟩
  | case9 c0 cs r rs hhi ih => exact ih hc hpos (forall_mem_of_forall_mem_cons hrs)
  | case10
  | case11 =>
    cases hc
    exact ⟨_, mem_cons_self, Nat.le_refl _⟩

theorem not_isUnion_merge {x : Span} {cs0 rs0 : List Span} {b : Bool}
    (hcs : Separated (c :: cs)) (hrs : ∀ r ∈ rs, 0 < r.lo ∧ r.lo ≤ r.hi ∧ r.hi < w)
    (hnext : ¬∀ d ∈ cs, x.hi + 1 < d.lo) : ¬IsUnion cs0 rs0 (x :: merge w b cs rs) := by
  cases cs with
  | nil => exact absurd (forall_mem_nil _) hnext
  | cons d cs =>
    have hd := (hcs.lt_of_mem mem_cons_self).1
    have hle : d.lo ≤ x.hi + 1 := by
      apply Nat.le_of_not_lt
      intro hlt
      apply hnext
      have htail := hcs.tail
      grind
    obtain ⟨_, he, hle'⟩ := @exists_le_merge w d (d :: cs) rs b rfl (by omega) hrs
    exact not_isUnion_of_le he (Nat.le_trans hle' hle)

theorem merge_true_behind (hrs : ∀ q ∈ rs, c.hi + 1 < q.lo ∧ q.lo ≤ q.hi ∧ q.hi < w)
    : merge w true (c :: cs) rs = c :: merge w false cs rs := by
  match rs with
  | [] => rw [merge_nil_right, merge_nil_right]
  | q :: rs =>
    obtain ⟨_, _, _⟩ := hrs q mem_cons_self
    rw [merge, if_neg (by omega), Nat.mod_eq_of_lt (by omega), if_neg (by omega)]

theorem raise_inside (hlo : c.lo ≤ q.lo) (hhi : q.hi ≤ c.hi)
    : IsUnion (c :: cs) (q :: rs) (merge w true (c :: cs) (q :: rs)) ↔
        IsUnion (c :: cs) rs (merge w false (c :: cs) rs) := by
  rw [merge, if_pos hhi]
  apply IsUnion.congr
  grind

theorem isUnion_join (hrs : Separated (q :: rs)) (hlo : lo ≤ q.hi)
    (hjoin : ∀ y, lo ≤ y ∧ y ≤ q.hi ↔ (c.lo ≤ y ∧ y ≤ c.hi) ∨ (q.lo ≤ y ∧ y ≤ q.hi))
    (hnext : ∀ d ∈ cs, q.hi + 1 < d.lo)
    : IsUnion (c :: cs) (q :: rs) (⟨lo, q.hi⟩ :: out) ↔ IsUnion cs rs out := by
  apply IsUnion.cons_iff hlo
  . rintro y (⟨d, hd, hd', -⟩ | hy)
    . exact Nat.lt_of_lt_of_le (hnext d hd) hd'
    . exact hrs.succ_lt hy
  . grind

theorem raise_touching (hrs : Separated (q :: rs)) (hqw : q.hi < w) (hlo : c.lo ≤ q.lo)
    (htouch : q.lo ≤ c.hi + 1) (hhi : c.hi < q.hi) (hnext : ∀ d ∈ cs, q.hi + 1 < d.lo)
    : IsUnion (c :: cs) (q :: rs) (merge w true (c :: cs) (q :: rs)) ↔
        IsUnion cs rs (merge w false cs rs) := by
  rw [merge, if_neg (by omega), Nat.mod_eq_of_lt (by omega), if_pos htouch]
  exact isUnion_join hrs (by omega) (by omega) hnext

theorem mergeable_cons
    : Mergeable w cs (r :: rs) ↔
        TouchesOne cs r ∧ (∀ q ∈ rs, TouchesOne cs q) ∧ WrapFree w cs (r :: rs) := by
  constructor
  . intro h
    obtain ⟨hr, hrs⟩ := forall_mem_cons.mp h.touchesOne
    exact ⟨hr, hrs, h.wrapFree⟩
  . rintro ⟨hr, hrs, hw⟩
    exact ⟨forall_mem_cons.mpr ⟨hr, hrs⟩, hw⟩

theorem mergeable_iff
    : Mergeable w cs rs ↔ (∀ q ∈ rs, TouchesOne cs q) ∧ WrapFree w cs rs :=
  ⟨fun h => ⟨h.touchesOne, h.wrapFree⟩, fun h => ⟨h.1, h.2⟩⟩

theorem isUnion_cons_cert (hcs : Separated (c :: cs)) (hlt : ∀ q ∈ rs, c.hi + 1 < q.lo)
    : IsUnion (c :: cs) rs (c :: out) ↔ IsUnion cs rs out := by
  apply IsUnion.cons_iff hcs.head_le
  . rintro y (hy | ⟨q, hq, _, -⟩) <;> grind
  . grind

section Step

/-
One step of the walk: `ih` says that the walk is right on what the step leaves.
-/
variable (hcs : Separated (c :: cs)) (hrs : Separated (r :: rs)) (hcw : ∀ d ∈ c :: cs, d.hi < w)
  (hrw : ∀ q ∈ r :: rs, q.hi < w)

include hcs hrs hcw in
theorem step_before (hlt : r.hi + 1 < c.lo)
    (ih : MergesRight w (c :: cs) rs)
    : MergesRight w (c :: cs) (r :: rs) := by
  have hle := hcs.head_le
  have hc := hcw c mem_cons_self
  have hcons : IsUnion (c :: cs) (r :: rs) (r :: merge w false (c :: cs) rs) ↔
      IsUnion (c :: cs) rs (merge w false (c :: cs) rs) := by
    apply IsUnion.cons_iff hrs.head_le
    all_goals grind
  rw [MergesRight, merge, Nat.mod_eq_of_lt (by omega), if_pos hlt, hcons, propext ih, mergeable_cons,
    and_iff_right (@TouchesOne.of_hi_le c r cs hcs (by omega)), WrapFree.drop_rule hcs hrs hc hlt, mergeable_iff]

include hcs hrs hcw hrw in
theorem step_before_wrap (hmax : r.hi + 1 = w) (hpos : 0 < c.lo)
    : MergesRight w (c :: cs) (r :: rs) := by
  have hc := hcw c mem_cons_self
  have hle := hcs.head_le
  have hrs := hrs.rest_eq_nil hmax (forall_mem_of_forall_mem_cons hrw)
  subst hrs
  rw [MergesRight, merge, succ_mod_of_eq hmax, if_pos hpos, merge_nil_right]
  refine iff_of_false (not_isUnion_of_le mem_cons_self (by omega)) ?_
  intro h
  rcases WrapFree.single_or_last hcs with rfl | ⟨d, -, _, -, -, hlast⟩
  . have := (h.wrapFree c rfl r rfl).1 hmax
    omega
  . have := (h.wrapFree d (hlast c) r rfl).1 hmax
    omega

theorem isUnion_lower (lo : Nat) (hlo : ∀ y, lo ≤ y ∧ y ≤ c.hi ↔ (c.lo ≤ y ∧ y ≤ c.hi) ∨ (r.lo ≤ y ∧ y ≤ r.hi))
    : IsUnion (c :: cs) (r :: rs) out ↔ IsUnion (⟨lo, c.hi⟩ :: cs) rs out := by
  apply IsUnion.congr
  grind

include hcs hrs in
theorem step_lower_last (hw : r.hi + 1 < w) (hadj : r.hi + 1 = c.lo) (hnil : rs = [])
    : MergesRight w (c :: cs) (r :: rs) := by
  have hle := hcs.head_le
  have hr := hrs.head_le
  subst hnil
  rw [MergesRight, merge, Nat.mod_eq_of_lt hw, if_neg (by omega), if_pos hadj, if_pos (by omega), merge_nil_right,
    isUnion_lower r.lo (by omega), mergeable_cons]
  refine iff_of_true ⟨.cons (by dsimp only; omega) hcs.tail fun d hd => (hcs.lt_of_mem hd).1, ?_⟩
    ⟨.of_hi_le hcs (by omega), forall_mem_nil _, ?_⟩
  . grind
  rw [WrapFree.singleton_iff]
  rcases WrapFree.single_or_last hcs with rfl | ⟨d, -, hd, -, -, hlast⟩
  . intro d hd
    obtain rfl : c = d := Option.some.inj hd
    exact ⟨by omega, by omega⟩
  . intro _ hd'
    cases (hlast c).symm.trans hd'
    exact ⟨by omega, by omega⟩

end Step

section Lower

variable (hcs : Separated (c :: cs)) (hrs : Separated (r :: q :: rs)) (hcw : ∀ d ∈ c :: cs, d.hi < w)
  (hrw : ∀ p ∈ r :: q :: rs, p.hi < w) (hadj : r.hi + 1 = c.lo)

include hcs hrs hadj

theorem separated_lower : Separated (⟨r.lo, c.hi⟩ :: cs) := by
  have hle := hcs.head_le
  have hr := hrs.head_le
  exact .cons (by dsimp only; omega) hcs.tail fun d hd => (hcs.lt_of_mem hd).1

include hcw

theorem isUnion_step_lower
    : IsUnion (c :: cs) (r :: q :: rs) (merge w false (c :: cs) (r :: q :: rs)) ↔
        IsUnion (⟨r.lo, c.hi⟩ :: cs) (q :: rs) (merge w true (⟨r.lo, c.hi⟩ :: cs) (q :: rs)) := by
  have hle := hcs.head_le
  have hr := hrs.head_le
  have hc := hcw c mem_cons_self
  rw [merge, Nat.mod_eq_of_lt (by omega), if_neg (by omega), if_pos hadj, if_pos (by omega),
    isUnion_lower r.lo (by omega)]

theorem step_lower_inside (hhi : q.hi ≤ c.hi)
    (ih : MergesRight w (⟨r.lo, c.hi⟩ :: cs) rs)
    : MergesRight w (c :: cs) (r :: q :: rs) := by
  have hr := hrs.head_le
  have hq := hrs.lt_of_mem mem_cons_self
  rw [MergesRight, isUnion_step_lower hcs hrs hcw hadj, @raise_inside w ⟨r.lo, c.hi⟩ q cs rs (by dsimp only; omega) hhi, propext ih, mergeable_cons,
    forall_mem_cons, and_iff_right (@TouchesOne.of_hi_le c r cs hcs (by omega)), and_assoc,
    and_iff_right (@TouchesOne.of_hi_le c q cs hcs hhi), WrapFree.adjacent_inside hcs hrs hadj hcw hhi, mergeable_iff]
  simp only [TouchesOne.cons_congr]

include hrw

theorem step_lower_touching (htouch : q.lo ≤ c.hi + 1) (hhi : c.hi < q.hi)
    (ih : MergesRight w cs rs)
    : MergesRight w (c :: cs) (r :: q :: rs) := by
  have hr := hrs.head_le
  have hq := hrs.lt_of_mem mem_cons_self
  have hqw := hrw q (mem_cons_of_mem _ mem_cons_self)
  rw [MergesRight, isUnion_step_lower hcs hrs hcw hadj, mergeable_cons, forall_mem_cons,
    and_iff_right (@TouchesOne.of_hi_le c r cs hcs (by omega)), and_assoc, TouchesOne.cons_of_touches hcs htouch]
  by_cases hnext : ∀ d ∈ cs, q.hi + 1 < d.lo
  . have hbehind : ∀ p ∈ rs, c.hi + 1 < p.lo := by
      have htail := hrs.tail
      grind
    rw [@raise_touching w ⟨r.lo, c.hi⟩ q cs rs hrs.tail hqw (by dsimp only; omega) htouch hhi hnext, propext ih, and_iff_right hnext,
      WrapFree.adjacent_both hcs hrs hadj hqw (forall_mem_of_forall_mem_cons hcw) hhi hnext,
      mergeable_iff, TouchesOne.forall_cons hbehind]
  refine iff_of_false ?_ fun h => hnext h.1
  rw [merge, if_neg (by dsimp only; omega), Nat.mod_eq_of_lt (by dsimp only; omega),
    if_pos (by dsimp only; omega)]
  have htail := hrs.tail
  exact not_isUnion_merge hcs (by grind) hnext

theorem step_lower_behind (hlt : c.hi + 1 < q.lo)
    (ih : MergesRight w cs (q :: rs))
    : MergesRight w (c :: cs) (r :: q :: rs) := by
  have hle := hcs.head_le
  have hq := hrs.lt_of_mem mem_cons_self
  have hbehind : ∀ p ∈ q :: rs, c.hi + 1 < p.lo ∧ p.lo ≤ p.hi ∧ p.hi < w := by
    have htail := hrs.tail
    grind
  have hqw := (hbehind q mem_cons_self).2.2
  rw [MergesRight, isUnion_step_lower hcs hrs hcw hadj, @merge_true_behind w ⟨r.lo, c.hi⟩ cs (q :: rs) hbehind,
    isUnion_cons_cert (separated_lower hcs hrs hadj) fun p hp => (hbehind p hp).1, propext ih, mergeable_iff,
    mergeable_cons, and_iff_right (@TouchesOne.of_hi_le c r cs hcs (by omega)),
    WrapFree.adjacent_behind hcs hrs hadj hqw hlt,
    TouchesOne.forall_cons fun p hp => (hbehind p hp).1]

end Lower

theorem isUnion_wrap (hcs : Separated (c :: cs)) (hcw : ∀ d ∈ c :: cs, d.hi < w) (hzero : c.lo = 0)
    (hmax : r.hi + 1 = w) (hhi : hi + 1 = w)
    : IsUnion (c :: cs) [r] (⟨r.lo, hi⟩ :: cs) ↔ cs = [] ∧ r.lo = 0 := by
  have hc := hcw c mem_cons_self
  constructor
  . intro h
    obtain rfl := h.separated.rest_eq_nil hhi (forall_mem_of_forall_mem_cons hcw)
    have hcovered := h.covered 0
    grind
  rintro ⟨rfl, _⟩
  refine ⟨.cons (by dsimp only; omega) hcs.tail (forall_mem_nil _), ?_⟩
  grind

section StepBehind

variable (hcs : Separated (c :: cs)) (hrs : Separated (r :: rs)) (hcw : ∀ d ∈ c :: cs, d.hi < w)
  (hrw : ∀ q ∈ r :: rs, q.hi < w)

include hcs hrs

include hcw hrw in
theorem step_lower_wrap (hmax : r.hi + 1 = w) (hzero : c.lo = 0)
    : MergesRight w (c :: cs) (r :: rs) := by
  have hc := hcw c mem_cons_self
  have hrs := hrs.rest_eq_nil hmax (forall_mem_of_forall_mem_cons hrw)
  subst hrs
  have hmergeable : Mergeable w (c :: cs) [r] ↔ cs = [] ∧ r.lo = 0 := by
    constructor
    . intro h
      have hends := (h.wrapFree _ getLast?_cons r rfl).1 hmax
      exact ⟨length_eq_zero_iff.mp (Nat.succ.inj hends.1), hends.2.1⟩
    rintro ⟨rfl, hr0⟩
    refine mergeable_cons.mpr ⟨.singleton c, forall_mem_nil _, ?_⟩
    intro d hd q hq
    obtain rfl : c = d := Option.some.inj hd
    obtain rfl : r = q := Option.some.inj hq
    exact ⟨fun _ => ⟨rfl, hr0, hzero⟩, fun _ _ => hr0⟩
  rw [MergesRight, hmergeable, merge, succ_mod_of_eq hmax, if_neg (by omega), if_pos hzero.symm]
  by_cases hhi : r.hi ≤ c.hi
  . rw [if_pos hhi, merge_nil_right, isUnion_wrap hcs hcw hzero hmax (by omega)]
  rw [if_neg hhi, merge, if_neg hhi, Nat.mod_eq_of_lt (by dsimp only; omega)]
  by_cases htouch : r.lo ≤ c.hi + 1
  . rw [if_pos htouch, merge_nil_right, isUnion_wrap hcs hcw hzero hmax hmax]
  rw [if_neg htouch]
  refine iff_of_false ?_ (by omega)
  intro h
  have hle := h.separated.head_le
  dsimp only at hle
  omega

theorem step_behind (hmax : r.hi + 1 < w) (hlt : c.hi + 1 < r.lo)
    (ih : MergesRight w cs (r :: rs))
    : MergesRight w (c :: cs) (r :: rs) := by
  have hle := hcs.head_le
  have hr := hrs.head_le
  have hbehind : ∀ q ∈ r :: rs, c.hi + 1 < q.lo := by grind
  rw [MergesRight, merge, Nat.mod_eq_of_lt hmax, if_neg (by omega), if_neg (by omega), Nat.mod_eq_of_lt (by omega),
    if_pos hlt, isUnion_cons_cert hcs hbehind, propext ih, mergeable_iff, mergeable_iff,
    TouchesOne.forall_cons hbehind,
    WrapFree.drop_cert hcs hrs hmax hlt]

include hcw in
theorem step_behind_wrap (hmax : c.hi + 1 = w) (hrmax : r.hi + 1 < w) (hlo : c.lo ≤ r.hi) (hpos : 0 < r.lo)
    : MergesRight w (c :: cs) (r :: rs) := by
  have hr := hrs.head_le
  have hcs := hcs.rest_eq_nil hmax (forall_mem_of_forall_mem_cons hcw)
  subst hcs
  rw [MergesRight, merge, Nat.mod_eq_of_lt hrmax, if_neg (by omega), if_neg (by omega), succ_mod_of_eq hmax,
    if_pos hpos, merge_nil_left]
  refine iff_of_false (not_isUnion_of_le mem_cons_self (by omega)) ?_
  intro h
  have hfree := h.wrapFree
  rcases WrapFree.last_two hrs with rfl | ⟨q, rfl, _, hq'⟩ |
    ⟨p, q, hp, hp', hpq, hq', h1, h2, h3, h4, h5⟩ <;>
    simp [WrapFree, WrapFree.Ends, *] at hfree <;> omega

include hrw in
theorem step_raise (hmax : r.hi + 1 < w) (hlo : c.lo ≤ r.hi) (htouch : r.lo ≤ c.hi + 1) (hhi : c.hi < r.hi)
    (ih : MergesRight w cs rs)
    : MergesRight w (c :: cs) (r :: rs) := by
  have hbehind : ∀ q ∈ rs, r.hi + 1 < q.lo ∧ q.lo ≤ q.hi ∧ q.hi < w := by grind
  rw [MergesRight, merge, Nat.mod_eq_of_lt hmax, if_neg (by omega), if_neg (by omega), Nat.mod_eq_of_lt (by omega),
    if_neg (by omega), if_pos hhi, @merge_true_behind w ⟨min r.lo c.lo, r.hi⟩ cs rs hbehind,
    mergeable_cons, TouchesOne.cons_of_touches hcs htouch]
  by_cases hnext : ∀ d ∈ cs, r.hi + 1 < d.lo
  . have hbehind' : ∀ q ∈ rs, c.hi + 1 < q.lo := by grind
    rw [isUnion_join hrs (by omega) (by omega) hnext, propext ih, and_iff_right hnext,
      TouchesOne.forall_cons hbehind', WrapFree.drop_both hcs hrs hmax hlo hhi hnext, mergeable_iff]
  . exact iff_of_false (not_isUnion_merge hcs (by grind) hnext) fun h => hnext h.1

include hcw in
theorem step_inside (hmax : r.hi + 1 < w) (hlo : c.lo ≤ r.hi) (hhi : r.hi ≤ c.hi) (hcmax : c.hi + 1 = w → r.lo = 0)
    (ih : MergesRight w (⟨min r.lo c.lo, c.hi⟩ :: cs) rs)
    : MergesRight w (c :: cs) (r :: rs) := by
  have hr := hrs.head_le
  have hc := hcw c mem_cons_self
  have htouch : ¬(c.hi + 1) % w < r.lo := by
    by_cases h : c.hi + 1 = w
    . rw [hcmax h]
      exact Nat.not_lt_zero _
    . rw [Nat.mod_eq_of_lt (by omega)]
      omega
  rw [MergesRight, merge, Nat.mod_eq_of_lt hmax, if_neg (by omega), if_neg (by omega), if_neg htouch, if_neg (by omega),
    merge, if_pos hhi, isUnion_lower (min r.lo c.lo) (by omega), propext ih, mergeable_iff, mergeable_cons,
    and_iff_right (@TouchesOne.of_hi_le c r cs hcs hhi), WrapFree.drop_inside hcs hrs hmax hlo hhi hcmax hc]
  simp only [TouchesOne.cons_congr]

end StepBehind

theorem isUnion_merge_iff {cs rs : List Span} (hcs : Separated cs) (hrs : Separated rs)
    (hcw : ∀ d ∈ cs, d.hi < w) (hrw : ∀ q ∈ rs, q.hi < w)
    : MergesRight w cs rs := by
  match cs, rs with
  | [], rs =>
    rw [MergesRight, merge_nil_left]
    exact iff_of_true ⟨hrs, by grind⟩ ⟨fun _ _ => .nil, .nil_left⟩
  | c :: cs, [] =>
    rw [MergesRight, merge_nil_right]
    exact iff_of_true ⟨hcs, by grind⟩ ⟨forall_mem_nil _, .nil_right⟩
  | c :: cs, r :: rs =>
    have hc := hcw c mem_cons_self
    have hr := hrw r mem_cons_self
    have hcw' := forall_mem_of_forall_mem_cons hcw
    have hrw' := forall_mem_of_forall_mem_cons hrw
    -- the first interval of `rs` ends with the last number
    by_cases hmax : r.hi + 1 = w
    . by_cases hzero : c.lo = 0
      . exact step_lower_wrap hcs hrs hcw hrw hmax hzero
      . exact step_before_wrap hcs hrs hcw hrw hmax (Nat.pos_of_ne_zero hzero)
    by_cases hbefore : r.hi + 1 < c.lo
    . exact step_before hcs hrs hcw hbefore (isUnion_merge_iff hcs hrs.tail hcw hrw')
    by_cases hadj : r.hi + 1 = c.lo
    . match rs with
      | [] => exact step_lower_last hcs hrs (by omega) hadj rfl
      | q :: rs =>
        have hrw'' := forall_mem_of_forall_mem_cons hrw'
        by_cases hhi : q.hi ≤ c.hi
        . apply step_lower_inside hcs hrs hcw hadj hhi
          exact isUnion_merge_iff (separated_lower hcs hrs hadj) hrs.tail.tail
            (forall_mem_cons.mpr ⟨hc, hcw'⟩) hrw''
        by_cases htouch : q.lo ≤ c.hi + 1
        . apply step_lower_touching hcs hrs hcw hrw hadj htouch (by omega)
          exact isUnion_merge_iff hcs.tail hrs.tail.tail hcw' hrw''
        . apply step_lower_behind hcs hrs hcw hrw hadj (by omega)
          exact isUnion_merge_iff hcs.tail hrs.tail hcw' hrw'
    by_cases hbehind : c.hi + 1 < r.lo
    . exact step_behind hcs hrs (by omega) hbehind (isUnion_merge_iff hcs.tail hrs hcw' hrw)
    by_cases hhi : c.hi < r.hi
    . apply step_raise hcs hrs hrw (by omega) (by omega) (by omega) hhi
      exact isUnion_merge_iff hcs.tail hrs.tail hcw' hrw'
    by_cases hwrap : c.hi + 1 = w ∧ 0 < r.lo
    . exact step_behind_wrap hcs hrs hcw hwrap.1 (by omega) (by omega) hwrap.2
    apply step_inside hcs hrs hcw (by omega) (by omega) (by omega) (by omega)
    have hinside : Separated (⟨min r.lo c.lo, c.hi⟩ :: cs) :=
      .cons (by dsimp only; omega) hcs.tail fun d hd => (hcs.lt_of_mem hd).1
    exact isUnion_merge_iff hinside hrs.tail (forall_mem_cons.mpr ⟨hc, hcw'⟩) hrw'
termination_by cs.length + rs.length

end

end Span
