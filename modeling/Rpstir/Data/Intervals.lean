import Mathlib.Data.List.Chain

/-!
This module contains lists of intervals of numbers, each with its two limits, and the subtraction of a
sorted list from another one by a walk through both.
-/

structure Span where
  lo : Nat
  hi : Nat
  deriving DecidableEq, Repr

namespace Span

open List

def Mem (x : Nat) (r : Span) : Prop :=
  r.lo ≤ x ∧ x ≤ r.hi

def Covered (l : List Span) (x : Nat) : Prop :=
  ∃ r ∈ l, r.Mem x

def Shares (r r' : Span) : Prop :=
  ∃ x, r.Mem x ∧ r'.Mem x

def Crosses (r r' : Span) : Prop :=
  Shares r r' ∧ r ≠ r' ∧ r.hi ≠ r'.lo ∧ r'.hi ≠ r.lo

theorem shares_iff {r r' : Span} (hr : r.lo ≤ r.hi) (hr' : r'.lo ≤ r'.hi)
    : Shares r r' ↔ r.lo ≤ r'.hi ∧ r'.lo ≤ r.hi := by
  constructor
  . rintro ⟨_, hx, hx'⟩
    exact ⟨Nat.le_trans hx.1 hx'.2, Nat.le_trans hx'.1 hx.2⟩
  . rintro ⟨h, h'⟩
    exact ⟨max r.lo r'.lo, ⟨Nat.le_max_left _ _, Nat.max_le.mpr ⟨hr, h'⟩⟩,
      Nat.le_max_right _ _, Nat.max_le.mpr ⟨h, hr'⟩⟩

theorem crosses_iff {r r' : Span} (hr : r.lo ≤ r.hi) (hr' : r'.lo ≤ r'.hi)
    : Crosses r r' ↔
        ((r'.lo < r.lo ∧ r.lo < r'.hi) ∨ (r'.lo < r.hi ∧ r.hi < r'.hi)) ∨
          (r.lo < r'.lo ∧ r'.lo < r.hi) ∨ (r.lo < r'.hi ∧ r'.hi < r.hi) := by
  have hne : r ≠ r' ↔ ¬(r.lo = r'.lo ∧ r.hi = r'.hi) := by
    rw [ne_eq, not_iff_not]
    constructor
    . rintro rfl
      exact ⟨rfl, rfl⟩
    rintro ⟨hlo, hhi⟩
    cases r
    cases r'
    dsimp only at hlo hhi
    rw [hlo, hhi]
  rw [Crosses, shares_iff hr hr', hne]
  omega

structure Ordered (l : List Span) : Prop where
  le : ∀ r ∈ l, r.lo ≤ r.hi
  pairwise : l.Pairwise fun r r' => r.hi < r'.lo

@[grind .]
theorem covered_nil (x : Nat) : ¬Covered [] x := by
  rintro ⟨_, hr, -⟩
  cases hr

@[grind =]
theorem covered_cons {r : Span} {l : List Span} {x : Nat}
    : Covered (r :: l) x ↔ (r.lo ≤ x ∧ x ≤ r.hi) ∨ Covered l x := by
  simp only [Covered, Mem, mem_cons, or_and_right, exists_or, exists_eq_left]

namespace Ordered

variable {r : Span} {l : List Span} {x : Nat}

theorem nil : Ordered [] where
  le := fun _ hr => absurd hr not_mem_nil
  pairwise := .nil

theorem tail (h : Ordered (r :: l)) : Ordered l where
  le := fun r hr => h.le r (mem_cons_of_mem _ hr)
  pairwise := h.pairwise.of_cons

@[grind →]
theorem head (h : Ordered (r :: l)) : r.lo ≤ r.hi :=
  h.le r mem_cons_self

@[grind →]
theorem hi_lt (h : Ordered (r :: l)) (hx : Covered l x) : r.hi < x := by
  obtain ⟨_, hr', hlo, -⟩ := hx
  exact Nat.lt_of_lt_of_le (rel_of_pairwise_cons h.pairwise hr') hlo

theorem cons (hr : r.lo ≤ r.hi) (hl : Ordered l) (h : ∀ x, Covered l x → r.hi < x)
    : Ordered (r :: l) where
  le := forall_mem_cons.mpr ⟨hr, hl.le⟩
  pairwise := by
    refine pairwise_cons.mpr ⟨?_, hl.pairwise⟩
    intro r' hr'
    exact h r'.lo ⟨r', hr', Nat.le_refl _, hl.le r' hr'⟩

theorem cut {c : Span} {cs : List Span} {lo : Nat} (h : Ordered (c :: cs)) (hlo : lo ≤ c.hi)
    : Ordered (⟨lo, c.hi⟩ :: cs) :=
  cons hlo h.tail fun _ hx => h.hi_lt hx

end Ordered

structure Separated (l : List Span) : Prop where
  le : ∀ r ∈ l, r.lo ≤ r.hi
  pairwise : l.Pairwise fun r r' => r.hi + 1 < r'.lo

theorem Separated.of_isChain {l : List Span} (hle : ∀ r ∈ l, r.lo ≤ r.hi)
    (hchain : l.IsChain fun r r' => r.hi + 1 < r'.lo) : Separated l := by
  refine ⟨hle, ?_⟩
  induction l with
  | nil => exact .nil
  | cons r l ih =>
    have htail := ih (fun r hr => hle r (mem_cons_of_mem _ hr)) hchain.tail
    refine pairwise_cons.mpr ⟨?_, htail⟩
    cases l with
    | nil => exact forall_mem_nil _
    | cons r' =>
      have hnext : r.hi + 1 < r'.lo := List.IsChain.rel_head? hchain rfl
      have hr' : r'.lo ≤ r'.hi := hle r' (mem_cons_of_mem _ mem_cons_self)
      intro _ hr''
      cases mem_cons.mp hr'' with
      | inl heq =>
        rw [heq]
        exact hnext
      | inr hmem =>
        have hlast := rel_of_pairwise_cons htail hmem
        omega

def subtract : List Span → List Span → List Span
  | [], _ => []
  | c :: cs, [] => c :: cs
  | c :: cs, r :: rs =>
    if c.hi < r.lo then
      c :: subtract cs (r :: rs)
    else if r.hi < c.lo then
      subtract (c :: cs) rs
    else if c.lo < r.lo then
      if c.hi ≤ r.hi then
        ⟨c.lo, r.lo - 1⟩ :: subtract cs (r :: rs)
      else
        ⟨c.lo, r.lo - 1⟩ :: subtract (⟨r.hi + 1, c.hi⟩ :: cs) rs
    else if c.hi ≤ r.hi then
      subtract cs (r :: rs)
    else
      subtract (⟨r.hi + 1, c.hi⟩ :: cs) rs
termination_by cs rs => cs.length + rs.length

theorem subtract_nil_left (rs : List Span) : subtract [] rs = [] := by
  rw [subtract]

theorem subtract_nil_right (cs : List Span) : subtract cs [] = cs := by
  cases cs <;> rw [subtract]

theorem subtract_spec {cs rs : List Span} (hcs : Ordered cs) (hrs : Ordered rs)
    : Ordered (subtract cs rs) ∧ ∀ x, Covered (subtract cs rs) x ↔ Covered cs x ∧ ¬Covered rs x := by
  fun_induction subtract cs rs with
  | case1 =>
    exact ⟨.nil, fun x => by simp [covered_nil]⟩
  | case2 =>
    exact ⟨hcs, fun x => by simp [covered_nil]⟩
  | case3 c cs r rs hbefore ih =>
    obtain ⟨hordered, hcovered⟩ := ih hcs.tail hrs
    refine ⟨.cons hcs.head hordered fun x hx => hcs.hi_lt ((hcovered x).mp hx).1, fun x => ?_⟩
    grind
  | case4 c cs r rs hbefore hbehind ih =>
    obtain ⟨hordered, hcovered⟩ := ih hcs hrs.tail
    refine ⟨hordered, fun x => ?_⟩
    grind
  | case5 c cs r rs hbefore hbehind hlow hhigh ih =>
    obtain ⟨hordered, hcovered⟩ := ih hcs.tail hrs
    refine ⟨.cons (Nat.le_sub_one_of_lt hlow) hordered fun x hx => ?_, fun x => ?_⟩
    . have hxc := hcs.hi_lt ((hcovered x).mp hx).1
      dsimp only
      omega
    grind
  | case6 c cs r rs hbefore hbehind hlow hhigh ih =>
    have hcut : Ordered (⟨r.hi + 1, c.hi⟩ :: cs) := hcs.cut (by omega)
    obtain ⟨hordered, hcovered⟩ := ih hcut hrs.tail
    refine ⟨.cons (Nat.le_sub_one_of_lt hlow) hordered fun x hx => ?_, fun x => ?_⟩
    all_goals grind
  | case7 c cs r rs hbefore hbehind hlow hhigh ih =>
    obtain ⟨hordered, hcovered⟩ := ih hcs.tail hrs
    refine ⟨hordered, fun x => ?_⟩
    grind
  | case8 c cs r rs hbefore hbehind hlow hhigh ih =>
    have hcut : Ordered (⟨r.hi + 1, c.hi⟩ :: cs) := hcs.cut (by omega)
    obtain ⟨hordered, hcovered⟩ := ih hcut hrs.tail
    refine ⟨hordered, fun x => ?_⟩
    grind

end Span
