import Mathlib.Logic.Relation
import Mathlib.Logic.Unique

/-!
This module contains the rules for computations that may fail: how they succeed in sequence, and that
what every step of a fold relates, the whole fold relates.
-/

universe u v

variable {ε ε' : Type u}

theorem Except.bind_eq_ok_iff {α β : Type v} {x : Except ε α} {f : α → Except ε β} {b : β}
    : x >>= f = .ok b ↔ ∃ a, x = .ok a ∧ f a = .ok b := by
  cases x with
  | error
  | ok => simp [bind, Except.bind]

theorem Except.unit_bind_eq_ok_iff {β : Type} {x : Except ε Unit} {f : Unit → Except ε β} {b : β}
    : x >>= f = .ok b ↔ x = .ok () ∧ f () = .ok b := by
  rw [Except.bind_eq_ok_iff]
  exact Unique.exists_iff

theorem Except.mapError_eq_ok_iff {α : Type v} {f : ε → ε'} {x : Except ε α} {a : α}
    : x.mapError f = .ok a ↔ x = .ok a := by
  cases x with
  | error =>
    constructor <;>
    . intro h
      cases h
  | ok =>
    constructor <;>
    . intro h
      cases h
      rfl

namespace List

variable {σ : Type u} {α : Type v}

variable {r : σ → σ → Prop} {l : List α}

theorem preorder_foldl (hrefl : ∀ s, r s s) (htrans : ∀ {s t u}, r s t → r t u → r s u)
    {f : σ → α → σ} (hf : ∀ a ∈ l, ∀ s, r s (f s a)) (s : σ) : r s (l.foldl f s) := by
  induction l generalizing s with
  | nil => apply hrefl
  | cons a l ih =>
    rw [foldl_cons]
    apply htrans
    . apply hf a mem_cons_self s
    . apply ih
      intro b hb
      apply hf b (mem_cons_of_mem a hb)

theorem preorder_foldlM (hrefl : ∀ s, r s s) (htrans : ∀ {s t u}, r s t → r t u → r s u)
    {f : σ → α → Option σ} (hf : ∀ a ∈ l, ∀ s s', f s a = some s' → r s s') {s s' : σ}
    (h : l.foldlM f s = some s') : r s s' := by
  induction l generalizing s with
  | nil =>
    rw [foldlM_nil, Option.pure_def, Option.some.injEq] at h
    rw [h]
    apply hrefl
  | cons a l ih =>
    rw [foldlM_cons] at h
    obtain ⟨t, ht, h⟩ := Option.bind_eq_some_iff.mp h
    apply htrans
    . apply hf a mem_cons_self s t ht
    . apply ih _ h
      intro b hb
      apply hf b (mem_cons_of_mem a hb)

end List
