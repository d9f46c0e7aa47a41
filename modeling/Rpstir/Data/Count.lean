import Mathlib.Algebra.Order.BigOperators.Group.Finset
import Mathlib.Data.Fintype.BigOperators

/-!
This module contains how the number of elements of a list, and the number of threads of a family, with
some property changes when one of them is added, removed or replaced.
-/

universe u v

namespace List

variable {α : Type u}

variable {p p' q : α → Bool} {l : List α} {n : Nat} {a : α}

theorem countP_eraseIdx_add (h : l[n]? = some a)
    : (l.eraseIdx n).countP p + [a].countP p = l.countP p := by
  induction l generalizing n with
  | nil => simp at h
  | cons _ l ih =>
    cases n with
    | zero =>
      simp only [getElem?_cons_zero, Option.some.injEq] at h
      simp only [h, eraseIdx_cons_zero, countP_cons, countP_nil]
      omega
    | succ =>
      rw [getElem?_cons_succ] at h
      have hl := ih h
      simp only [eraseIdx_cons_succ, countP_cons] at hl ⊢
      omega

theorem countP_take_cons_drop (p : α → Bool) (l : List α) (n : Nat) (a : α)
    : (l.take n ++ a :: l.drop n).countP p = l.countP p + [a].countP p := by
  conv => rhs; rw [← l.take_append_drop n]
  simp only [countP_append, countP_cons, countP_nil]
  omega

theorem countP_take_succ (h : l[n]? = some a)
    : (l.take (n + 1)).countP p = (l.take n).countP p + [a].countP p := by
  rw [take_add_one, h, countP_append]
  rfl

theorem countP_le_add (h : ∀ a, p' a = true → p a = true ∨ q a = true) (l : List α)
    : l.countP p' ≤ l.countP p + l.countP q := by
  induction l with
  | nil => simp
  | cons a l ih =>
    simp only [countP_cons]
    have ha := h a
    split <;> split <;> split <;> simp_all <;> omega

end List

namespace Count

variable {κ : Type u} [Fintype κ] {α : Type v}

def total (m : α → Nat) (g : κ → α) : Nat :=
  ∑ k, m (g k)

theorem total_update [DecidableEq κ] (m : α → Nat) (g : κ → α) (k : κ) (a : α)
    : total m (Function.update g k a) + m (g k) = total m g + m a := by
  have hrest : ∑ j ∈ Finset.univ.erase k, m (Function.update g k a j)
      = ∑ j ∈ Finset.univ.erase k, m (g j) := by
    apply Finset.sum_congr rfl
    intro j hj
    rw [Function.update_of_ne (Finset.ne_of_mem_erase hj)]
  have hnew := Finset.add_sum_erase Finset.univ (fun j => m (Function.update g k a j))
    (Finset.mem_univ k)
  have hold := Finset.add_sum_erase Finset.univ (fun j => m (g j)) (Finset.mem_univ k)
  simp only [Function.update_self, hrest] at hnew
  unfold total
  omega

theorem le_total (m : α → Nat) (g : κ → α) (k : κ) : m (g k) ≤ total m g :=
  Finset.single_le_sum (f := fun k => m (g k)) (fun _ _ => Nat.zero_le _) (Finset.mem_univ k)

theorem total_mono {m m' : α → Nat} (h : ∀ a, m a ≤ m' a) (g : κ → α) : total m g ≤ total m' g :=
  Finset.sum_le_sum fun k _ => h (g k)

theorem total_add (m m' : α → Nat) (g : κ → α)
    : total (fun a => m a + m' a) g = total m g + total m' g :=
  Finset.sum_add_distrib

theorem total_eq_zero {m : α → Nat} {g : κ → α} (h : ∀ k, m (g k) = 0) : total m g = 0 :=
  Finset.sum_eq_zero fun k _ => h k

end Count
