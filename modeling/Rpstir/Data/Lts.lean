import Mathlib.Logic.Relation

/-!
This module contains labelled transition systems, their reachable states and the invariant rules
that are used to reason about every run of a system.
-/

universe u v

structure Lts (σ : Type u) (ε : Type v) where
  init : σ → Prop
  step : σ → ε → σ → Prop

namespace Lts

open List Option

variable {σ : Type u} {ε : Type v}

variable {next : σ → ε → Option σ} {ok : σ → ε → Prop}

inductive Reachable (lts : Lts σ ε) : σ → Prop where
  | init {s : σ} : lts.init s → Reachable lts s
  | step {s s' : σ} {e : ε} : Reachable lts s → lts.step s e s' → Reachable lts s'

def restrict (lts : Lts σ ε) (ok : σ → ε → Prop) : Lts σ ε where
  init := lts.init
  step s e s' := ok s e ∧ lts.step s e s'

def ofNext (init : σ) (next : σ → ε → Option σ) : Lts σ ε where
  init s := s = init
  step s e s' := next s e = some s'

variable {lts : Lts σ ε}

variable {es : List ε} {inv p : σ → Prop}

theorem Reachable.invariant {s : σ} (hreach : lts.Reachable s) (hinit : ∀ s, lts.init s → inv s)
    (hstep : ∀ s e s', inv s → lts.step s e s' → inv s') : inv s := by
  induction hreach with
  | init h => exact hinit _ h
  | step _ h ih => exact hstep _ _ _ ih h

theorem Reachable.of_restrict {s : σ}
    (hreach : (lts.restrict ok).Reachable s) : lts.Reachable s := by
  induction hreach with
  | init h => exact .init h
  | step _ h ih => exact .step ih h.2

theorem Reachable.invariant_restrict {s : σ} (hreach : (lts.restrict ok).Reachable s)
    (hinit : ∀ s, lts.init s → inv s)
    (hstep : ∀ s e s', lts.Reachable s → inv s → ok s e → lts.step s e s' → inv s') : inv s := by
  induction hreach with
  | init h => exact hinit _ h
  | step hs h ih => exact hstep _ _ _ hs.of_restrict ih h.1 h.2

theorem Reachable.foldlM (hnext : ∀ s e s', next s e = some s' → lts.step s e s') {s s' : σ}
    (hreach : lts.Reachable s) (hrun : es.foldlM next s = some s') : lts.Reachable s' := by
  induction es generalizing s with
  | nil =>
    simp only [foldlM_nil, Option.pure_def, some.injEq] at hrun
    rw [← hrun]
    exact hreach
  | cons e es ih =>
    rw [foldlM_cons] at hrun
    rcases bind_eq_some_iff.mp hrun with ⟨_, hstep, hrest⟩
    exact ih (.step hreach (hnext _ _ _ hstep)) hrest

theorem reachable_restrict_of_foldlM [∀ s e, Decidable (ok s e)] {init : σ} {s : σ}
    (hrun : es.foldlM (fun s e => if ok s e then next s e else none) init = some s)
    : ((ofNext init next).restrict ok).Reachable s := by
  apply Reachable.foldlM _ (.init rfl) hrun
  intro s e _ h
  rw [ite_none_right_eq_some] at h
  exact h

theorem reachable_of_foldlM {init : σ} {s : σ} (hrun : es.foldlM next init = some s)
    : (ofNext init next).Reachable s := by
  apply Reachable.foldlM _ (.init rfl) hrun
  intro s _ _ h
  exact h

theorem exists_reachable_of_foldlM {init : σ} [DecidablePred p] (es : List ε)
    (hrun : (es.foldlM next init).any (fun s => decide (p s)) = true)
    : ∃ s, (ofNext init next).Reachable s ∧ p s := by
  rw [Option.any_eq_true] at hrun
  rcases hrun with ⟨s, hs, hp⟩
  exact ⟨s, reachable_of_foldlM hs, of_decide_eq_true hp⟩

theorem exists_reachable_restrict_of_foldlM [∀ s e, Decidable (ok s e)] {init : σ} [DecidablePred p]
    (es : List ε) (hrun : (es.foldlM (fun s e => if ok s e then next s e else none) init).any
      (fun s => decide (p s)) = true)
    : ∃ s, ((ofNext init next).restrict ok).Reachable s ∧ p s := by
  rw [Option.any_eq_true] at hrun
  rcases hrun with ⟨s, hs, hp⟩
  exact ⟨s, reachable_restrict_of_foldlM hs, of_decide_eq_true hp⟩

end Lts
