import Mathlib.Data.List.Chain
import Mathlib.Data.List.Perm.Basic

/-!
This module contains the sort that exchanges the first two neighbours that are in the wrong order and
starts again from the front, until there are none.
-/

namespace BubbleSort

open List Option

universe u

variable {α : Type u}

def swapFirst (gt : α → α → Bool) : List α → Option (List α)
  | [] => none
  | [_] => none
  | a :: b :: l => if gt a b then some (b :: a :: l) else (swapFirst gt (b :: l)).map (a :: ·)

def bubbleSort (gt : α → α → Bool) : Nat → List α → Option (List α)
  | 0, l => if (swapFirst gt l).isSome then none else some l
  | fuel + 1, l =>
    match swapFirst gt l with
    | none => some l
    | some l' => bubbleSort gt fuel l'

def inversions (gt : α → α → Bool) : List α → Nat
  | [] => 0
  | a :: l => l.countP (gt a) + inversions gt l

variable {gt : α → α → Bool} {l l' : List α}

theorem perm_swapFirst (h : swapFirst gt l = some l') : l'.Perm l := by
  fun_induction swapFirst gt l generalizing l' with
  | case1
  | case2 => cases h
  | case3 a b l hgt =>
    cases h
    exact .swap a b l
  | case4 a b l hgt ih =>
    obtain ⟨_, hl0, rfl⟩ := map_eq_some_iff.mp h
    exact (ih hl0).cons a

theorem inversions_swapFirst (hasymm : ∀ a b, gt a b = true → gt b a = false)
    (h : swapFirst gt l = some l') : inversions gt l' + 1 = inversions gt l := by
  fun_induction swapFirst gt l generalizing l' with
  | case1
  | case2 => cases h
  | case3 a b l hgt =>
    cases h
    simp only [inversions, countP_cons, hgt, hasymm a b hgt, Bool.false_eq_true, if_false, if_true]
    omega
  | case4 a b l hgt ih =>
    obtain ⟨_, hl0, rfl⟩ := map_eq_some_iff.mp h
    have hih := ih hl0
    have hcount := (perm_swapFirst hl0).countP_eq (gt a)
    rw [inversions, inversions, hcount]
    omega

theorem inversions_le (gt : α → α → Bool) (l : List α) : inversions gt l ≤ l.length * l.length := by
  induction l with
  | nil => exact Nat.le_refl 0
  | cons a l ih =>
    have hcount : l.countP (gt a) ≤ l.length := countP_le_length
    simp only [inversions, length_cons]
    calc l.countP (gt a) + inversions gt l
      _ ≤ l.length + l.length * l.length := Nat.add_le_add hcount ih
      _ ≤ (l.length + 1) * (l.length + 1) := by
        rw [Nat.add_mul, Nat.mul_add]
        omega

variable {fuel fuel' : Nat} {p : α → Bool}

theorem bubbleSort_perm (hasymm : ∀ a b, gt a b = true → gt b a = false)
    (hfuel : inversions gt l ≤ fuel) : ∃ l', bubbleSort gt fuel l = some l' ∧ l'.Perm l := by
  fun_induction bubbleSort gt fuel l with
  | case1 l hswap =>
    obtain ⟨_, hswap⟩ := isSome_iff_exists.mp hswap
    have hlt := inversions_swapFirst hasymm hswap
    omega
  | case2
  | case3 => exact ⟨_, rfl, .refl _⟩
  | case4 fuel l l0 hswap ih =>
    have hlt := inversions_swapFirst hasymm hswap
    obtain ⟨l', hsort, hperm⟩ := ih (by omega)
    exact ⟨l', hsort, hperm.trans (perm_swapFirst hswap)⟩

section

variable {gt' : α → α → Bool}

theorem swapFirst_congr (h : ∀ a ∈ l, ∀ b ∈ l, gt a b = gt' a b) : swapFirst gt l = swapFirst gt' l := by
  fun_induction swapFirst gt l with
  | case1
  | case2 => rfl
  | case3 a b l hgt => rw [swapFirst, ← h a mem_cons_self b (mem_cons_of_mem _ mem_cons_self), if_pos hgt]
  | case4 a b l hgt ih =>
    rw [swapFirst, ← h a mem_cons_self b (mem_cons_of_mem _ mem_cons_self), if_neg hgt, ih]
    intro a ha b hb
    exact h a (mem_cons_of_mem _ ha) b (mem_cons_of_mem _ hb)

theorem bubbleSort_congr (h : ∀ a ∈ l, ∀ b ∈ l, gt a b = gt' a b) (fuel : Nat)
    : bubbleSort gt fuel l = bubbleSort gt' fuel l := by
  fun_induction bubbleSort gt fuel l with
  | case1 l hswap
  | case2 l hswap
  | case3 fuel l hswap => simp [bubbleSort, ← swapFirst_congr h, hswap]
  | case4 fuel l l' hswap ih =>
    rw [bubbleSort, ← swapFirst_congr h, hswap]
    apply ih
    intro a ha b hb
    have hperm := perm_swapFirst hswap
    exact h a (hperm.subset ha) b (hperm.subset hb)

end

theorem bubbleSort_mono (h : bubbleSort gt fuel l = some l') (hle : fuel ≤ fuel')
    : bubbleSort gt fuel' l = some l' := by
  fun_induction bubbleSort gt fuel l generalizing fuel' with
  | case1 => cases h
  | case2 l hswap =>
    cases fuel' <;> simp_all [bubbleSort]
  | case3 fuel l hswap =>
    cases fuel' <;> simp_all [bubbleSort]
  | case4 fuel l l' hswap ih =>
    obtain ⟨fuel', rfl⟩ : ∃ n, fuel' = n + 1 := ⟨fuel' - 1, by omega⟩
    rw [bubbleSort, hswap]
    exact ih h (by omega)

theorem isChain_of_swapFirst (h : swapFirst gt l = none) : l.IsChain fun a b => gt a b = false := by
  fun_induction swapFirst gt l with
  | case1 => exact .nil
  | case2 a => exact .singleton a
  | case3 => cases h
  | case4 a b l hgt ih => exact .cons_cons (Bool.not_eq_true _ ▸ hgt) (ih (map_eq_none_iff.mp h))

theorem filter_swapFirst (hp : ∀ a b, gt a b = true → p a = false ∨ p b = false)
    (h : swapFirst gt l = some l') : l'.filter p = l.filter p := by
  fun_induction swapFirst gt l generalizing l' with
  | case1
  | case2 => cases h
  | case3 a b l hgt =>
    cases h
    cases hp a b hgt with
    | inl ha => simp [filter_cons, ha]
    | inr hb => simp [filter_cons, hb]
  | case4 a b l hgt ih =>
    obtain ⟨_, hl0, rfl⟩ := map_eq_some_iff.mp h
    rw [filter_cons, filter_cons, ih hl0]

theorem swapFirst_of_bubbleSort (h : bubbleSort gt fuel l = some l') : swapFirst gt l' = none := by
  fun_induction bubbleSort gt fuel l with
  | case1 => cases h
  | case2 l hswap =>
    cases h
    simpa using hswap
  | case3 fuel l hswap =>
    cases h
    exact hswap
  | case4 fuel l l0 hswap ih => exact ih h

theorem filter_of_bubbleSort (hp : ∀ a b, gt a b = true → p a = false ∨ p b = false)
    (h : bubbleSort gt fuel l = some l') : l'.filter p = l.filter p := by
  fun_induction bubbleSort gt fuel l with
  | case1 => cases h
  | case2
  | case3 =>
    cases h
    rfl
  | case4 fuel l l0 hswap ih => rw [ih h, filter_swapFirst hp hswap]

section

variable {key val : α → Nat}

theorem pairwise_iff_filter (R : α → α → Prop)
    : (l.Pairwise fun a b => key a = key b → R a b) ↔
        ∀ k, (l.filter fun a => key a = k).Pairwise R := by
  simp only [pairwise_filter, decide_eq_true_eq]
  constructor
  . intro h k
    exact h.imp fun hR ha hb => hR (ha.trans hb.symm)
  . intro h
    rw [pairwise_iff_forall_sublist]
    intro a b hab heq
    exact pairwise_iff_forall_sublist.mp (h (key b)) hab heq rfl

theorem bubbleSort_pairwise_iff (hval : ∀ a b, key a < key b → val a < val b)
    (h : bubbleSort (fun a b => decide (key b < key a)) fuel l = some l')
    : (l'.Pairwise fun a b => val a ≤ val b) ↔
        l.Pairwise fun a b => key a = key b → val a ≤ val b := by
  have hstable (k : Nat) : l'.filter (fun a => key a = k) = l.filter fun a => key a = k := by
    apply filter_of_bubbleSort _ h
    intro a b hgt
    simp only [decide_eq_true_eq, decide_eq_false_iff_not] at hgt ⊢
    omega
  have hsorted : l'.Pairwise fun a b => key a ≤ key b := by
    have : IsTrans α fun a b => key a ≤ key b := ⟨fun _ _ _ => Nat.le_trans⟩
    apply List.IsChain.pairwise
    refine (isChain_of_swapFirst (swapFirst_of_bubbleSort h)).imp ?_
    intro a b hgt
    rw [decide_eq_false_iff_not] at hgt
    exact Nat.le_of_not_lt hgt
  rw [pairwise_iff_filter]
  simp only [← hstable]
  rw [← pairwise_iff_filter]
  constructor
  . intro hle
    refine hle.imp ?_
    intro a b hab _
    exact hab
  intro hle
  refine (hle.and hsorted).imp ?_
  rintro a b ⟨heq, hkey⟩
  cases Nat.lt_or_eq_of_le hkey with
  | inl hlt => exact Nat.le_of_lt (hval a b hlt)
  | inr hkey => exact heq hkey

end

end BubbleSort
