import Mathlib.Order.WellFoundedSet

/-!
This module contains loops that go from state to state until they end with a result, and the loops that
end from everywhere because they never come back to a state.
-/

open Relation

namespace Walk

variable {α β : Type} {step : α → β ⊕ α} {a a' : α} {b b' : β}

def run (step : α → β ⊕ α) : Nat → α → Option β
  | 0, _ => none
  | fuel + 1, a =>
    match step a with
    | .inl b => some b
    | .inr a' => run step fuel a'

def Ends (step : α → β ⊕ α) (a : α) (b : β) : Prop :=
  ∃ fuel, run step fuel a = some b

def Goes (step : α → β ⊕ α) (a a' : α) : Prop :=
  step a = .inr a'

variable {fuel : Nat}

theorem run_inl (h : step a = .inl b) : run step (fuel + 1) a = some b := by
  rw [run, h]

theorem run_inr (h : step a = .inr a') : run step (fuel + 1) a = run step fuel a' := by
  rw [run, h]

theorem run_mono {fuel' : Nat} (h : run step fuel a = some b) (hle : fuel ≤ fuel')
    : run step fuel' a = some b := by
  induction fuel generalizing a fuel' with
  | zero => cases h
  | succ fuel ih =>
    obtain ⟨fuel', rfl⟩ := Nat.exists_eq_add_of_le' (Nat.le_trans (Nat.le_add_left 1 fuel) hle)
    cases hstep : step a with
    | inl =>
      rw [run_inl hstep] at h ⊢
      exact h
    | inr =>
      rw [run_inr hstep] at h ⊢
      exact ih h (Nat.le_of_succ_le_succ hle)

namespace Ends

theorem unique (h : Ends step a b) (h' : Ends step a b') : b = b' := by
  obtain ⟨fuel, h⟩ := h
  obtain ⟨fuel', h'⟩ := h'
  have hmax := run_mono h (Nat.le_max_left fuel fuel')
  rw [run_mono h' (Nat.le_max_right fuel fuel')] at hmax
  exact (Option.some.inj hmax).symm

theorem eq_iff (h : Ends step a b) : b = b' ↔ Ends step a b' := by
  constructor
  . rintro rfl
    exact h
  . intro h'
    exact h.unique h'

theorem iff_of_inl (h : step a = .inl b) : Ends step a b' ↔ b' = b := by
  have hends : Ends step a b := ⟨1, run_inl h⟩
  rw [eq_comm, hends.eq_iff]

theorem iff_of_inr (h : step a = .inr a') : Ends step a b ↔ Ends step a' b := by
  constructor
  . rintro ⟨fuel, hrun⟩
    cases fuel with
    | zero => cases hrun
    | succ fuel => exact ⟨fuel, (run_inr h).symm.trans hrun⟩
  . rintro ⟨fuel, hrun⟩
    exact ⟨fuel + 1, (run_inr h).trans hrun⟩

end Ends

theorem run_of_goes (h : TransGen (Goes step) a a') (hrun : run step fuel a = some b)
    : ∃ fuel' < fuel, run step fuel' a' = some b := by
  induction h with
  | single hgo =>
    cases fuel with
    | zero => cases hrun
    | succ fuel => exact ⟨fuel, Nat.lt_succ_self fuel, (run_inr hgo).symm.trans hrun⟩
  | tail _ hgo ih =>
    obtain ⟨fuel', hlt, hrun'⟩ := ih
    cases fuel' with
    | zero => cases hrun'
    | succ fuel' =>
      exact ⟨fuel', Nat.lt_of_succ_lt hlt, (run_inr hgo).symm.trans hrun'⟩

theorem not_ends_of_cycle (h : TransGen (Goes step) a a) : ¬Ends step a b := by
  rintro ⟨fuel, hrun⟩
  induction fuel using Nat.strong_induction_on with
  | h fuel ih =>
    obtain ⟨fuel', hlt, hrun'⟩ := run_of_goes h hrun
    exact ih fuel' hlt hrun'

theorem wellFounded_of_acyclic {l : List α} {r : α → α → Prop} (hmem : ∀ a a', r a a' → a ∈ l ∧ a' ∈ l)
    (hacyclic : ∀ a, ¬TransGen r a a) : WellFounded (flip r) := by
  have hstrict : IsStrictOrder α (TransGen (flip r)) :=
    { irrefl := fun a h => hacyclic a (transGen_swap.mp h), trans := fun _ _ _ => .trans }
  have hon : {a | a ∈ l}.WellFoundedOn (TransGen (flip r)) := l.finite_toSet.wellFoundedOn
  rw [Set.wellFoundedOn_iff] at hon
  refine Subrelation.wf ?_ hon
  intro a a' h
  exact ⟨.single h, (hmem a' a h).2, (hmem a' a h).1⟩

end Walk
