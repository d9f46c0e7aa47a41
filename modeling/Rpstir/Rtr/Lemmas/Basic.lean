import Rpstir.Rtr.Basic

/-!
This module contains the lemmas that say which rows each prepared statement leaves in the tables.
-/

namespace Rpstir.Rtr

open List Option
namespace Tables

variable {t t' : Tables}

variable {r : UpdateRow} {current serial t1 t2 : Serial}

theorem findUpdate_eq_some (h : t.findUpdate serial = some r)
    : r ∈ t.update ∧ r.serialNum = serial := by
  unfold findUpdate at h
  have := find?_some h
  exact ⟨mem_of_find?_eq_some h, by simpa using this⟩

@[simp]
theorem findUpdate_isSome (serial : Serial)
    : (t.findUpdate serial).isSome ↔ ∃ r ∈ t.update, r.serialNum = serial := by
  simp [findUpdate]

theorem findUpdate_of_mem (hnodup : (t.update.map (·.serialNum)).Nodup) (hr : r ∈ t.update)
    : t.findUpdate r.serialNum = some r := by
  have hsome : (t.findUpdate r.serialNum).isSome := by
    rw [findUpdate_isSome]
    exact ⟨r, hr, rfl⟩
  rw [isSome_iff_exists] at hsome
  rcases hsome with ⟨_, h⟩
  have hr' := findUpdate_eq_some h
  rw [h, inj_on_of_nodup_map hnodup hr'.1 hr hr'.2]

@[simp]
theorem mem_fullPrefixes (serial : Serial) (p : Prefix)
    : p ∈ t.fullPrefixes serial ↔ ⟨serial, p⟩ ∈ t.full := by
  simp only [fullPrefixes, mem_filterMap, ite_none_right_eq_some, some.injEq]
  constructor
  . rintro ⟨⟨_, _⟩, hmem, rfl, rfl⟩
    exact hmem
  . intro h
    exact ⟨_, h, rfl, rfl⟩

namespace insertFull

variable {serial : Serial} {full : List FullRow} {prefixes : List Prefix}

theorem mem_insert {p : Prefix} {r : FullRow}
    : r ∈ insert serial full p ↔ r ∈ full ∨ r = ⟨serial, p⟩ := by
  unfold insert
  split
  . next h =>
    constructor
    . exact Or.inl
    . rintro (hr | rfl)
      . exact hr
      . exact h
  . simp

theorem insert_nodup {p : Prefix} (h : full.Nodup) : (insert serial full p).Nodup := by
  unfold insert
  split
  . exact h
  next hp =>
  rw [nodup_append]
  refine ⟨h, by simp, ?_⟩
  rintro _ ha _ hb rfl
  rw [mem_singleton] at hb
  rw [hb] at ha
  exact hp ha

theorem mem_foldl {r : FullRow}
    : r ∈ prefixes.foldl (insert serial) full
        ↔
      r ∈ full ∨ (r.serialNum = serial ∧ r.pfx ∈ prefixes) := by
  induction prefixes generalizing full with
  | nil => simp
  | cons _ prefixes ih =>
    rw [foldl_cons, ih, mem_insert]
    rcases r with ⟨_, _⟩
    simp only [FullRow.mk.injEq, mem_cons]
    tauto

theorem foldl_nodup (h : full.Nodup) : (prefixes.foldl (insert serial) full).Nodup := by
  induction prefixes generalizing full with
  | nil => exact h
  | cons _ prefixes ih => exact ih (insert_nodup h)

end insertFull

@[simp]
theorem mem_full_insertFull (serial : Serial) (prefixes : List Prefix) (r : FullRow)
    : r ∈ (t.insertFull serial prefixes).full
        ↔
      r ∈ t.full ∨ (r.serialNum = serial ∧ r.pfx ∈ prefixes) := by
  exact insertFull.mem_foldl

theorem insertIncremental_eq_some {isAnnounce : Bool}
    (h : t.insertIncremental serial isAnnounce t2 t1 = some t')
    : ∃ rows, t' = { t with incremental := t.incremental ++ rows } ∧
        (∀ r, r ∈ rows
          ↔
        r.serialNum = serial ∧ r.isAnnounce = isAnnounce ∧ ⟨t1, r.pfx⟩ ∈ t.full ∧ ⟨t2, r.pfx⟩ ∉ t.full) ∧
        ∀ r ∈ rows, ∀ r' ∈ t.incremental, r'.serialNum = serial → r'.pfx ≠ r.pfx := by
  unfold insertIncremental at h
  dsimp only at h
  split at h
  . contradiction
  next hkeys =>
  rw [some.injEq] at h
  refine ⟨_, h.symm, ?_, ?_⟩
  . rintro ⟨_, _, p⟩
    simp only [mem_filterMap, mem_fullPrefixes, ite_none_left_eq_some,
      some.injEq, IncrementalRow.mk.injEq]
    constructor
    . rintro ⟨_, hq1, hq2, rfl, rfl, rfl⟩
      exact ⟨rfl, rfl, hq1, hq2⟩
    . rintro ⟨rfl, rfl, hp1, hp2⟩
      exact ⟨p, hp1, hp2, rfl, rfl, rfl⟩
  intro r hr r' hr' hserial hpfx
  apply hkeys
  rw [List.any_eq_true]
  refine ⟨r, hr, ?_⟩
  rw [List.any_eq_true]
  exact ⟨r', hr', by simp [hserial, hpfx]⟩

theorem insertUpdate_eq_some {previous : Option Serial} {now : Nat}
    (h : t.insertUpdate current previous now = some t')
    : t' = { t with update := t.update ++ [⟨current, previous, now, true⟩] } := by
  unfold insertUpdate at h
  split at h
  . contradiction
  . simpa using h.symm

theorem detectInconsistentState_eq_false {previous : Serial}
    (h : t.detectInconsistentState previous current = false) (hr : r ∈ t.update)
    : r.serialNum ≠ current ∧ r.prevSerialNum ≠ some current ∧ r.prevSerialNum ≠ some previous := by
  unfold detectInconsistentState at h
  rw [List.any_eq_false] at h
  have := h r hr
  simp only [Bool.or_eq_true, beq_iff_eq, not_or] at this
  exact ⟨this.1.1, this.1.2, this.2⟩

end Tables
end Rpstir.Rtr
