import Mathlib.Algebra.Order.BigOperators.Group.List
import Mathlib.Algebra.Order.Group.Nat
import Mathlib.Data.List.Chain
import Mathlib.Data.List.Infix
import Mathlib.Data.List.TakeWhile
import Mathlib.Data.Nat.Bitwise

/-!
This module contains lemmas about lists that are sorted along some relation, and about lists that
are related element by element.
-/

namespace List

variable {α : Type _}

variable {l l' : List α} {p q : α → Bool} {a : α}

theorem filter_isSuffix_of_pairwise (h : l.Pairwise (fun a b => p a = true → p b = true))
    : l.filter p <:+ l := by
  induction l with
  | nil => simp
  | cons a l ih =>
    rw [pairwise_cons] at h
    cases hp : p a with
    | true =>
      have : l.filter p = l := by
        rw [filter_eq_self]
        intro b hb
        exact h.1 b hb hp
      simp [hp, this]
    | false =>
      rw [filter_cons_of_neg (by simp [hp])]
      exact (ih h.2).trans (suffix_cons a l)

theorem IsSuffix.getLast?_eq (h : l <:+ l') (hne : l ≠ []) :
    l.getLast? = l'.getLast? := by
  rcases h with ⟨_, rfl⟩
  rw [getLast?_append_of_ne_nil _ hne]

theorem modify_length_append (f : α → α) (l l' : List α) (a : α)
    : (l ++ [a] ++ l').modify l.length f = l ++ [f a] ++ l' := by
  induction l with
  | nil => rfl
  | cons _ l ih => simpa using ih

theorem length_takeWhile_range (p : Nat → Bool) (n k : Nat) (hk : k = ((range n).takeWhile p).length)
    : k ≤ n ∧ (∀ i < k, p i = true) ∧ (k < n → p k = false) := by
  have hle : (range n).findIdx (fun x => !p x) ≤ (range n).length := findIdx_le_length
  have hk : k = (range n).findIdx (fun x => !p x) := by
    rw [hk, takeWhile_eq_take_findIdx_not, length_take, Nat.min_eq_left hle]
  rw [length_range, ← hk] at hle
  refine ⟨hle, ?_, ?_⟩
  . intro i hi
    rw [hk] at hi
    simpa using not_of_lt_findIdx hi
  . intro hlt
    have h := @findIdx_getElem _ (fun x => !p x) (range n) (by simpa [← hk] using hlt)
    simpa [← hk] using h

theorem eq_of_sum_map_eq {f g : α → Nat} (hle : ∀ a ∈ l, f a ≤ g a)
    (h : (l.map f).sum = (l.map g).sum) : ∀ a ∈ l, f a = g a := by
  intro a ha
  by_contra hne
  have hlt := sum_lt_sum f g hle ⟨a, ha, Nat.lt_of_le_of_ne (hle a ha) hne⟩
  omega

theorem countP_lt_countP (ha : a ∈ l) (himp : ∀ b, p b = true → q b = true) (hp : p a = false)
    (hq : q a = true) : l.countP p < l.countP q := by
  induction l with
  | nil => cases ha
  | cons b l ih =>
    have hle : l.countP p ≤ l.countP q := countP_mono_left fun b _ => himp b
    rcases mem_cons.mp ha with rfl | ha
    . rw [countP_cons_of_neg (by simp [hp]), countP_cons_of_pos hq]
      omega
    have hlt := ih ha
    rw [countP_cons, countP_cons]
    have hb := himp b
    split
    . next hpb =>
      rw [if_pos (hb hpb)]
      omega
    . omega

section SplitOn

variable [BEq α]

theorem mem_splitOn [LawfulBEq α] {s : List α} (h : s ∈ l.splitOn a) : a ∉ s ∧ s.Sublist l := by
  induction l generalizing s with
  | nil =>
    rw [splitOn_nil, mem_singleton] at h
    subst h
    exact ⟨not_mem_nil, .refl _⟩
  | cons c l ih =>
    rw [splitOn_cons_eq_if_modifyHead] at h
    split at h
    . rcases mem_cons.mp h with rfl | h
      . exact ⟨not_mem_nil, nil_sublist _⟩
      . exact ⟨(ih h).1, (ih h).2.cons c⟩
    next hc =>
    cases hsplit : l.splitOn a with
    | nil => exact absurd hsplit (splitOn_ne_nil a l)
    | cons t =>
      rw [hsplit] at h ih
      rcases mem_cons.mp h with rfl | h
      . obtain ⟨hnot, hsub⟩ := ih mem_cons_self
        refine ⟨?_, hsub.cons_cons c⟩
        rintro (_ | ⟨_, ha⟩)
        . exact hc (beq_self_eq_true _)
        . exact hnot ha
      . obtain ⟨hnot, hsub⟩ := ih (mem_cons_of_mem t h)
        exact ⟨hnot, hsub.cons c⟩

theorem length_splitOn (a : α) (l : List α)
    : ((l.splitOn a).map length).sum + (l.splitOn a).length = l.length + 1 := by
  induction l with
  | nil => rfl
  | cons _ l ih =>
    rw [splitOn_cons_eq_if_modifyHead]
    split
    . simp only [map_cons, sum_cons, length_cons, length_nil]
      omega
    cases hsplit : l.splitOn a with
    | nil => exact absurd hsplit (splitOn_ne_nil a l)
    | cons =>
      rw [hsplit] at ih
      simp only [modifyHead, map_cons, sum_cons, length_cons] at ih ⊢
      omega

end SplitOn

section Forall₂

variable {β : Type _} {R S : α → β → Prop} {l : List α} {u : List β}

theorem Forall₂.imp_mem (h : Forall₂ R l u) (himp : ∀ a ∈ l, ∀ b ∈ u, R a b → S a b)
    : Forall₂ S l u := by
  induction h with
  | nil => exact .nil
  | cons hab _ ih =>
    apply Forall₂.cons
    . exact himp _ mem_cons_self _ mem_cons_self hab
    . exact ih fun a ha b hb => himp a (mem_cons_of_mem _ ha) b (mem_cons_of_mem _ hb)

theorem Forall₂.exists_of_mem_right (h : Forall₂ R l u) {b : β} (hb : b ∈ u)
    : ∃ a ∈ l, R a b := by
  induction h with
  | nil => cases hb
  | cons hab _ ih =>
    rcases mem_cons.mp hb with rfl | hb
    . exact ⟨_, mem_cons_self, hab⟩
    . obtain ⟨a, ha, hab⟩ := ih hb
      exact ⟨a, mem_cons_of_mem _ ha, hab⟩

theorem Forall₂.exists_filter_right (h : Forall₂ R l u) (p : β → Bool)
    : ∃ l1, l1.Sublist l ∧ Forall₂ R l1 (u.filter p) := by
  induction h with
  | nil => exact ⟨[], .slnil, .nil⟩
  | @cons a b l u hab _ ih =>
    obtain ⟨l1, hsub, hrel⟩ := ih
    cases hp : p b with
    | true =>
      rw [filter_cons_of_pos hp]
      exact ⟨a :: l1, hsub.cons_cons a, .cons hab hrel⟩
    | false =>
      rw [filter_cons_of_neg (by simp [hp])]
      exact ⟨l1, hsub.cons a, hrel⟩

end Forall₂

end List
