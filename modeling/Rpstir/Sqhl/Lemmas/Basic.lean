import Mathlib.Data.List.Basic
import Rpstir.Sqhl.Basic

/-!
This module contains what the statements on the tables do to single rows.
-/

namespace Rpstir.Sqhl

open List

theorem mem_insertAt {α : Type} {n : Nat} {a b : α} {l : List α}
    : b ∈ insertAt n a l ↔ b = a ∨ b ∈ l := by
  unfold insertAt
  rw [List.mem_append, mem_cons, or_left_comm, ← List.mem_append, take_append_drop]

namespace World

variable (w : World) (tab : Table) (lid : Nat) (f : Obj → Obj) (p : Obj → Bool)

@[simp]
theorem updateByLid_checked : (w.updateByLid tab lid f).checked = w.checked := by
  cases tab <;> rfl

@[simp]
theorem deleteWhere_checked : (w.deleteWhere tab p).checked = w.checked := by
  cases tab <;> rfl

theorem objs_updateByLid
    : (w.updateByLid tab lid f).objs tab
      = (w.objs tab).map fun o => if o.localId = lid then f o else o := by
  cases tab <;>
  . simp only [updateByLid, objs, List.map_map]
    apply map_congr_left
    intro _ _
    simp only [Function.comp_apply]
    split <;> rfl

theorem objs_updateByLid_of_ne {tab' : Table} (h : tab' ≠ tab)
    : (w.updateByLid tab lid f).objs tab' = w.objs tab' := by
  cases tab <;> cases tab' <;> first | rfl | contradiction

theorem objs_deleteWhere
    : (w.deleteWhere tab p).objs tab = (w.objs tab).filter fun o => !p o := by
  cases tab <;>
  . simp only [deleteWhere, objs, List.filter_map]
    rfl

theorem objs_deleteWhere_of_ne {tab' : Table} (h : tab' ≠ tab)
    : (w.deleteWhere tab p).objs tab' = w.objs tab' := by
  cases tab <;> cases tab' <;> first | rfl | contradiction

variable {w tab lid f p}

theorem mem_updateByLid_cert {r : CertRow} (h : r ∈ (w.updateByLid tab lid f).cert)
    : ∃ r₀ ∈ w.cert, r = { r₀ with toObj := r.toObj } := by
  cases tab with
  | cert =>
    rw [updateByLid, List.mem_map] at h
    obtain ⟨r₀, hr0, h⟩ := h
    refine ⟨r₀, hr0, ?_⟩
    split at h
    . rw [← h]
    . rw [← h]
  | crl
  | roa
  | manifest
  | gbr => exact ⟨r, h, rfl⟩

theorem mem_deleteWhere_cert {r : CertRow} (h : r ∈ (w.deleteWhere tab p).cert) : r ∈ w.cert := by
  cases tab with
  | cert => exact mem_of_mem_filter h
  | crl
  | roa
  | manifest
  | gbr => exact h

end World

end Rpstir.Sqhl
