import Rpstir.Data.List
import Rpstir.Rtr.Lemmas.Basic

/-!
This module contains the invariant of the RTR tables that holds between any two statements, and what
each kind of change to a table needs in order to keep it.
-/

namespace Rpstir.Rtr

open List Option

structure Linked (rows : List UpdateRow) : Prop where
  nodup : (rows.map (·.serialNum)).Nodup
  times : rows.Pairwise (·.createTime < ·.createTime)
  chain : rows.IsChain fun a b => b.prevSerialNum = some a.serialNum
  dangling : ∀ r ∈ rows.head?, ∀ prev, r.prevSerialNum = some prev → ∀ r' ∈ rows, r'.serialNum ≠ prev

variable {r : UpdateRow}

namespace Linked

variable {rows rows' : List UpdateRow}

theorem nil : Linked [] := by
  constructor <;> simp

variable (h : Linked rows)

include h

theorem ext_serialNum {r' : UpdateRow} (hr : r ∈ rows) (hr' : r' ∈ rows)
    (heq : r.serialNum = r'.serialNum) : r = r' := by
  exact inj_on_of_nodup_map h.nodup hr hr' heq

theorem eq_or_createTime_lt_getLast {last : UpdateRow} (hr : r ∈ rows)
    (hlast : last ∈ rows.getLast?) : r = last ∨ r.createTime < last.createTime := by
  rcases mem_getLast?_eq_getLast hlast with ⟨hne, rfl⟩
  rw [← dropLast_concat_getLast hne, List.mem_append, mem_singleton] at hr
  rcases hr with hr | hr
  . exact Or.inr (h.times.rel_dropLast_getLast hr)
  . exact Or.inl hr

theorem mem_getLast?_of_createTime_le (hr : r ∈ rows)
    (hle : ∀ r' ∈ rows, r'.createTime ≤ r.createTime) : r ∈ rows.getLast? := by
  have hlast := getLast?_eq_some_getLast (ne_nil_of_mem hr)
  rcases h.eq_or_createTime_lt_getLast hr hlast with heq | _
  . rw [heq]
    exact hlast
  . have := hle _ (getLast_mem (ne_nil_of_mem hr))
    omega

theorem suffix (hsuffix : rows' <:+ rows) : Linked rows' := by
  rcases hsuffix with ⟨old, rfl⟩
  have hnodup := h.nodup
  rw [map_append, nodup_append] at hnodup
  have hchain := isChain_append.mp h.chain
  refine ⟨hnodup.2.1, (pairwise_append.mp h.times).2.1, hchain.2.1, ?_⟩
  intro r hr prev hprev r' hr' heq
  cases hlast : old.getLast? with
  | none =>
    rw [getLast?_eq_none_iff] at hlast
    subst hlast
    exact h.dangling r hr prev hprev r' hr' heq
  | some o =>
    -- The predecessor of the oldest row left was the newest of the rows that are gone.
    have hlink := hchain.2.2 o hlast r hr
    rw [hprev, some.injEq] at hlink
    apply hnodup.2.2 o.serialNum
    . exact List.mem_map_of_mem (mem_of_getLast? hlast)
    . exact List.mem_map_of_mem hr'
    . rw [heq, hlink]

theorem append
    (hfresh : ∀ r' ∈ rows, r'.serialNum ≠ r.serialNum ∧ r'.prevSerialNum ≠ some r.serialNum)
    (hself : r.prevSerialNum ≠ some r.serialNum) (htime : ∀ r' ∈ rows, r'.createTime < r.createTime)
    (hprev : ∀ r' ∈ rows.getLast?, r.prevSerialNum = some r'.serialNum)
    : Linked (rows ++ [r]) where
  nodup := by
    rw [map_append, nodup_append]
    refine ⟨h.nodup, by simp, ?_⟩
    intro a ha b hb heq
    rcases List.mem_map.mp ha with ⟨r', hr', rfl⟩
    rw [map_singleton, mem_singleton] at hb
    exact (hfresh r' hr').1 (heq.trans hb)
  times := by
    rw [pairwise_append]
    refine ⟨h.times, by simp, ?_⟩
    intro a ha b hb
    rw [mem_singleton] at hb
    rw [hb]
    exact htime a ha
  chain := by
    rw [isChain_append]
    refine ⟨h.chain, by simp, ?_⟩
    intro a ha b hb
    rw [head?_cons, mem_some] at hb
    rw [← hb]
    exact hprev a ha
  dangling := by
    intro a ha prev hprev' r' hr' heq
    cases rows with
    | nil =>
      rw [nil_append, head?_cons, mem_some] at ha
      rw [nil_append, mem_singleton] at hr'
      subst hr' ha
      rw [hprev', heq] at hself
      contradiction
    | cons r0 =>
      rw [cons_append, head?_cons, mem_some] at ha
      subst ha
      rw [List.mem_append, mem_singleton] at hr'
      rcases hr' with hr' | rfl
      . exact h.dangling r0 (by simp) prev hprev' r' hr' heq
      . apply (hfresh r0 (by simp)).2
        rw [hprev', heq]

theorem map (f : UpdateRow → UpdateRow) (hserial : ∀ r, (f r).serialNum = r.serialNum)
    (htime : ∀ r, (f r).createTime = r.createTime)
    (hprev : ∀ r ∈ rows, (f r).prevSerialNum = r.prevSerialNum ∨
      ((f r).prevSerialNum = none ∧ ∀ r' ∈ rows, r.prevSerialNum ≠ some r'.serialNum))
    : Linked (rows.map f) where
  nodup := by
    have : (rows.map f).map (·.serialNum) = rows.map (·.serialNum) := by
      rw [List.map_map]
      apply map_congr_left
      intro r hr
      exact hserial r
    rw [this]
    exact h.nodup
  times := by
    rw [pairwise_map]
    simp only [htime]
    exact h.times
  chain := by
    rw [isChain_map]
    apply List.IsChain.imp_of_mem_imp _ h.chain
    intro a b ha hb hlink
    rw [hserial, ← hlink]
    rcases hprev b hb with heq | ⟨-, hnone⟩
    . exact heq
    . exact absurd hlink (hnone a ha)
  dangling := by
    intro r hr prev hr' r' hr'' heq
    rw [head?_map, Option.mem_map] at hr
    rcases hr with ⟨r0, hr0, rfl⟩
    rcases List.mem_map.mp hr'' with ⟨r1, hr1, rfl⟩
    rw [hserial] at heq
    have hmem := mem_of_mem_head? hr0
    rcases hprev r0 hmem with hsame | ⟨hnone, -⟩
    . rw [hsame] at hr'
      exact h.dangling r0 hr0 prev hr' r1 hr1 heq
    . rw [hnone] at hr'
      contradiction

end Linked

def InDelta (snapshot : Serial → List Prefix) (prev serial : Serial) (isAnnounce : Bool) (p : Prefix)
    : Prop :=
  if isAnnounce then
    p ∈ snapshot serial ∧ p ∉ snapshot prev
  else
    p ∈ snapshot prev ∧ p ∉ snapshot serial

def UpdateRow.id (r : UpdateRow) : Serial × Nat := (r.serialNum, r.createTime)

theorem UpdateRow.id_eq_iff {r' : UpdateRow}
    : r.id = r'.id ↔ r.serialNum = r'.serialNum ∧ r.createTime = r'.createTime := by
  simp [UpdateRow.id]

structure StoreInv (snapshot : Serial → List Prefix) (last : Option UpdateRow) (t : Tables) : Prop where
  linked : Linked t.update
  last_eq : t.update.getLast?.map UpdateRow.id = last.map UpdateRow.id
  last_hasFull : ∀ r ∈ t.update.getLast?, r.hasFull = true
  mem_incremental : ∀ r ∈ t.update, ∀ prev, r.prevSerialNum = some prev →
    ∀ b p, ⟨r.serialNum, b, p⟩ ∈ t.incremental ↔ InDelta snapshot prev r.serialNum b p
  announce_or_withdraw : ∀ serial p,
    ⟨serial, true, p⟩ ∈ t.incremental → ⟨serial, false, p⟩ ∉ t.incremental

namespace StoreInv

variable {snapshot : Serial → List Prefix} {last : Option UpdateRow} {t : Tables}

theorem init (session : Session) : StoreInv snapshot none ⟨[session], [], [], []⟩ := by
  constructor
  case linked => exact Linked.nil
  all_goals simp

section

variable (h : StoreInv snapshot last t)

include h

theorem setLast : StoreInv snapshot t.update.getLast? t :=
  { h with last_eq := rfl }

theorem setFull {full : List FullRow} : StoreInv snapshot last { t with full := full } :=
  ⟨h.linked, h.last_eq, h.last_hasFull, h.mem_incremental, h.announce_or_withdraw⟩

theorem setIncremental {incremental : List IncrementalRow}
    (hmem : ∀ r ∈ t.update, r.prevSerialNum.isSome →
      ∀ b p, ⟨r.serialNum, b, p⟩ ∈ incremental
        ↔ (⟨r.serialNum, b, p⟩ : IncrementalRow) ∈ t.incremental)
    (hunique : ∀ serial p, ⟨serial, true, p⟩ ∈ incremental → ⟨serial, false, p⟩ ∉ incremental)
    : StoreInv snapshot last { t with incremental := incremental } where
  linked := h.linked
  last_eq := h.last_eq
  last_hasFull := h.last_hasFull
  mem_incremental := by
    intro r hr prev hprev b p
    rw [hmem r hr (by simp [hprev])]
    exact h.mem_incremental r hr prev hprev b p
  announce_or_withdraw := hunique

theorem filterIncremental (keep : IncrementalRow → Bool)
    (hkeep : ∀ r ∈ t.update, r.prevSerialNum.isSome → ∀ b p, keep ⟨r.serialNum, b, p⟩ = true)
    : StoreInv snapshot last { t with incremental := t.incremental.filter keep } := by
  apply h.setIncremental
  . intro r hr hprev b p
    simp [hkeep r hr hprev b p]
  . intro serial p hannounce hwithdraw
    exact h.announce_or_withdraw serial p (mem_of_mem_filter hannounce)
      (mem_of_mem_filter hwithdraw)

theorem suffix {update : List UpdateRow} (hsuffix : update <:+ t.update)
    (hlast : update.getLast? = t.update.getLast?)
    : StoreInv snapshot last { t with update := update } where
  linked := h.linked.suffix hsuffix
  last_eq := by
    rw [hlast]
    exact h.last_eq
  last_hasFull := by
    rw [hlast]
    exact h.last_hasFull
  mem_incremental := by
    intro r hr
    exact h.mem_incremental r (hsuffix.subset hr)
  announce_or_withdraw := h.announce_or_withdraw

theorem mapUpdate (f : UpdateRow → UpdateRow) (hid : ∀ r, (f r).id = r.id)
    (hlast : ∀ r ∈ t.update.getLast?, (f r).hasFull = true)
    (hprev : ∀ r ∈ t.update, (f r).prevSerialNum = r.prevSerialNum ∨
      ((f r).prevSerialNum = none ∧ ∀ r' ∈ t.update, r.prevSerialNum ≠ some r'.serialNum))
    : StoreInv snapshot last { t with update := t.update.map f } where
  linked := by
    apply h.linked.map f
    . intro r
      exact (UpdateRow.id_eq_iff.mp (hid r)).1
    . intro r
      exact (UpdateRow.id_eq_iff.mp (hid r)).2
    . exact hprev
  last_eq := by
    rw [getLast?_map, Option.map_map, ← h.last_eq]
    congr 1
    funext r
    exact hid r
  last_hasFull := by
    intro r hr
    rw [getLast?_map, Option.mem_map] at hr
    rcases hr with ⟨r', hr', rfl⟩
    exact hlast r' hr'
  mem_incremental := by
    intro r hr prev hr'
    rcases List.mem_map.mp hr with ⟨r0, hr0, rfl⟩
    rw [(UpdateRow.id_eq_iff.mp (hid r0)).1]
    rcases hprev r0 hr0 with hsame | ⟨hnone, -⟩
    . rw [hsame] at hr'
      exact h.mem_incremental r0 hr0 prev hr'
    . rw [hnone] at hr'
      contradiction
  announce_or_withdraw := h.announce_or_withdraw

theorem setSnapshot {serial : Serial} (prefixes : List Prefix)
    (hfresh : ∀ r ∈ t.update, r.serialNum ≠ serial ∧ r.prevSerialNum ≠ some serial)
    : StoreInv (Function.update snapshot serial prefixes) last t where
  linked := h.linked
  last_eq := h.last_eq
  last_hasFull := h.last_hasFull
  mem_incremental := by
    intro r hr prev hprev b p
    have hne : prev ≠ serial := by
      rintro rfl
      exact (hfresh r hr).2 hprev
    simp only [InDelta, Function.update_of_ne (hfresh r hr).1, Function.update_of_ne hne]
    exact h.mem_incremental r hr prev hprev b p
  announce_or_withdraw := h.announce_or_withdraw

theorem append
    (hfresh : ∀ r' ∈ t.update, r'.serialNum ≠ r.serialNum ∧ r'.prevSerialNum ≠ some r.serialNum)
    (hself : r.prevSerialNum ≠ some r.serialNum) (htime : ∀ r' ∈ last, r'.createTime < r.createTime)
    (hprev : ∀ r' ∈ t.update.getLast?, r.prevSerialNum = some r'.serialNum)
    (hhasFull : r.hasFull = true)
    (hincremental : ∀ prev, r.prevSerialNum = some prev →
      ∀ b p, ⟨r.serialNum, b, p⟩ ∈ t.incremental ↔ InDelta snapshot prev r.serialNum b p)
    : StoreInv snapshot (some r) { t with update := t.update ++ [r] } where
  linked := by
    apply h.linked.append hfresh hself _ hprev
    -- The last row inserted is the last one of the table, and the newest.
    intro r' hr'
    have hlast := getLast?_eq_some_getLast (ne_nil_of_mem hr')
    have hid := h.last_eq
    rw [hlast, map_some, eq_comm, map_eq_some_iff] at hid
    rcases hid with ⟨l, hl, hid⟩
    rw [UpdateRow.id_eq_iff] at hid
    have hlt := htime l hl
    rcases h.linked.eq_or_createTime_lt_getLast hr' hlast with hr' | hr'
    . rw [hr', ← hid.2]
      exact hlt
    . omega
  last_eq := by simp
  last_hasFull := by
    intro r' hr'
    rw [getLast?_concat, mem_some] at hr'
    rw [← hr']
    exact hhasFull
  mem_incremental := by
    intro r' hr'
    rcases List.mem_append.mp hr' with hr' | hr'
    . exact h.mem_incremental r' hr'
    . rw [mem_singleton] at hr'
      rw [hr']
      exact hincremental
  announce_or_withdraw := h.announce_or_withdraw

end

end StoreInv

end Rpstir.Rtr
