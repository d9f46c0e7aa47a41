import Rpstir.Rtr.Lemmas.System

/-!
This module contains what a run of `rpki-rtr-update` that finds no change does to the data of the
latest serial number.
-/

namespace Rpstir.Rtr

open List Option

variable {snapshot : Serial → List Prefix} {last : Option UpdateRow} {t0 t : Tables} {r0 : UpdateRow}
  {current previous : Serial}

structure Untouched (t0 t : Tables) : Prop where
  update_eq : t.update = t0.update
  mem_full : ∀ r ∈ t0.update, ∀ q, ⟨r.serialNum, q⟩ ∈ t.full ↔ (⟨r.serialNum, q⟩ : FullRow) ∈ t0.full
  mem_incremental : ∀ r ∈ t0.update, ∀ b q,
    ⟨r.serialNum, b, q⟩ ∈ t.incremental ↔ (⟨r.serialNum, b, q⟩ : IncrementalRow) ∈ t0.incremental

structure KeepsLatest (t0 t : Tables) (r0 : UpdateRow) : Prop where
  row : ∃ r ∈ t.update.getLast?, r.id = r0.id ∧
    (r.prevSerialNum = r0.prevSerialNum ∨
      (r.prevSerialNum = none ∧ ∀ r' ∈ t.update, r0.prevSerialNum ≠ some r'.serialNum))
  mem_full : ∀ q, ⟨r0.serialNum, q⟩ ∈ t.full ↔ (⟨r0.serialNum, q⟩ : FullRow) ∈ t0.full
  mem_incremental :
    (∀ b q, ⟨r0.serialNum, b, q⟩ ∈ t.incremental
      ↔ (⟨r0.serialNum, b, q⟩ : IncrementalRow) ∈ t0.incremental) ∨
    ((∀ b q, ⟨r0.serialNum, b, q⟩ ∉ t.incremental) ∧
      ∀ r' ∈ t.update, r0.prevSerialNum ≠ some r'.serialNum)

namespace Untouched

theorem refl (t : Tables) : Untouched t t := by
  constructor <;> simp

variable (h : Untouched t0 t)

include h

theorem keepsLatest (hr0 : r0 ∈ t0.update.getLast?) : KeepsLatest t0 t r0 where
  row := by
    rw [h.update_eq]
    exact ⟨r0, hr0, rfl, Or.inl rfl⟩
  mem_full := h.mem_full r0 (mem_of_getLast? hr0)
  mem_incremental := Or.inl (h.mem_incremental r0 (mem_of_getLast? hr0))

theorem deleteIncompleteIncremental : Untouched t0 t.deleteIncompleteIncremental where
  update_eq := h.update_eq
  mem_full := h.mem_full
  mem_incremental := by
    intro r hr b q
    rw [← h.mem_incremental r hr b q]
    simp only [Tables.deleteIncompleteIncremental, mem_filter, Tables.findUpdate_isSome,
      and_iff_left_iff_imp]
    intro _
    rw [h.update_eq]
    exact ⟨r, hr, rfl⟩

theorem deleteIncompleteFull : Untouched t0 t.deleteIncompleteFull where
  update_eq := h.update_eq
  mem_full := by
    intro r hr q
    rw [← h.mem_full r hr q]
    simp only [Tables.deleteIncompleteFull, mem_filter, Tables.findUpdate_isSome,
      and_iff_left_iff_imp]
    intro _
    rw [h.update_eq]
    exact ⟨r, hr, rfl⟩
  mem_incremental := h.mem_incremental

theorem insertFull (hfresh : Fresh t current) (prefixes : List Prefix)
    : Untouched t0 (t.insertFull current prefixes) where
  update_eq := h.update_eq
  mem_full := by
    intro r hr q
    rw [Tables.mem_full_insertFull, ← h.mem_full r hr q]
    rw [← h.update_eq] at hr
    simp [(hfresh r hr).1]
  mem_incremental := h.mem_incremental

theorem insertIncremental (hfresh : Fresh t current) {b : Bool} {t1 t2 : Serial} {t' : Tables}
    (hinsert : t.insertIncremental current b t2 t1 = some t') : Untouched t0 t' := by
  rcases Tables.insertIncremental_eq_some hinsert with ⟨_, rfl, hmem, -⟩
  refine ⟨h.update_eq, h.mem_full, ?_⟩
  intro r hr b' q
  rw [List.mem_append, hmem, ← h.mem_incremental r hr b' q]
  rw [← h.update_eq] at hr
  simp [(hfresh r hr).1]

end Untouched

namespace KeepsLatest

section

variable (h : KeepsLatest t0 t r0)

include h

theorem deleteUselessFull (hne : r0.serialNum ≠ current)
    : KeepsLatest t0 (t.deleteUselessFull current) r0 where
  row := h.row
  mem_full := by
    intro q
    rw [← h.mem_full q]
    simp [Tables.deleteUselessFull, hne]
  mem_incremental := h.mem_incremental

theorem kept (hkeeps : KeepsLast t.update current previous)
    : Kept current previous r0 := by
  rcases h.row with ⟨r, hr, hid, -⟩
  have := hkeeps.last_kept r hr
  rw [Kept, (UpdateRow.id_eq_iff.mp hid).1] at this
  exact this

theorem mapUpdate (f : UpdateRow → UpdateRow) (hid : ∀ r, (f r).id = r.id)
    (hprev : ∀ r ∈ t.update.getLast?, (f r).prevSerialNum = r.prevSerialNum ∨
      ((f r).prevSerialNum = none ∧ ∀ r' ∈ t.update, r.prevSerialNum ≠ some r'.serialNum))
    : KeepsLatest t0 { t with update := t.update.map f } r0 := by
  have hserial : ∀ r' ∈ t.update.map f, ∃ r ∈ t.update, r.serialNum = r'.serialNum := by
    intro r' hr'
    rcases List.mem_map.mp hr' with ⟨r, hr, rfl⟩
    exact ⟨r, hr, (UpdateRow.id_eq_iff.mp (hid r)).1.symm⟩
  have hgone : (∀ r' ∈ t.update, r0.prevSerialNum ≠ some r'.serialNum) →
      ∀ r' ∈ t.update.map f, r0.prevSerialNum ≠ some r'.serialNum := by
    intro hgone r' hr'
    rcases hserial r' hr' with ⟨r, hr, heq⟩
    rw [← heq]
    exact hgone r hr
  refine ⟨?_, h.mem_full, ?_⟩
  . rcases h.row with ⟨r, hr, hid', hlink⟩
    refine ⟨f r, ?_, (hid r).trans hid', ?_⟩
    . rw [getLast?_map, Option.mem_map]
      exact ⟨r, hr, rfl⟩
    rcases hprev r hr with hsame | ⟨hnone, hgone'⟩
    . rw [hsame]
      exact hlink.imp_right fun hlink => ⟨hlink.1, hgone hlink.2⟩
    right
    refine ⟨hnone, hgone ?_⟩
    rcases hlink with hlink | hlink
    . rw [← hlink]
      exact hgone'
    . exact hlink.2
  . exact h.mem_incremental.imp_right fun hgone' => ⟨hgone'.1, hgone hgone'.2⟩

theorem ignoreOldFull : KeepsLatest t0 (t.ignoreOldFull current previous) r0 := by
  apply h.mapUpdate
  . intro r
    split <;> rfl
  . intro r _
    left
    split <;> rfl

theorem deleteOldFull (hkeeps : KeepsLast t.update current previous)
    : KeepsLatest t0 (t.deleteOldFull current previous) r0 where
  row := h.row
  mem_full := by
    intro q
    rw [← h.mem_full q]
    rcases h.kept hkeeps with hkept | hkept <;> simp [Tables.deleteOldFull, hkept]
  mem_incremental := h.mem_incremental

theorem deleteOldUpdate (hkeeps : KeepsLast t.update current previous)
    (hlinked : Linked t.update) (cutoff : Nat)
    : KeepsLatest t0 (t.deleteOldUpdate current previous cutoff) r0 := by
  have hsubset := (hkeeps.deleteOldUpdate_isSuffix hlinked cutoff).subset
  refine ⟨?_, h.mem_full, ?_⟩
  . rw [hkeeps.deleteOldUpdate_getLast? hlinked cutoff]
    rcases h.row with ⟨r, hr, hid, hlink⟩
    refine ⟨r, hr, hid, ?_⟩
    exact hlink.imp_right fun hlink => ⟨hlink.1, fun r' hr' => hlink.2 r' (hsubset hr')⟩
  . exact h.mem_incremental.imp_right fun hgone => ⟨hgone.1, fun r' hr' => hgone.2 r' (hsubset hr')⟩

theorem ignoreOldIncremental (hlinked : Linked t.update)
    : KeepsLatest t0 t.ignoreOldIncremental r0 := by
  apply h.mapUpdate
  . intro r
    split <;> rfl
  intro r _
  split
  . next hnone =>
    right
    refine ⟨rfl, ?_⟩
    intro _ hr' hprev
    rw [hprev, bind_some, t.findUpdate_of_mem hlinked.nodup hr'] at hnone
    contradiction
  . left
    rfl

theorem deleteOldIncremental (hlinked : Linked t.update)
    : KeepsLatest t0 t.deleteOldIncremental r0 := by
  refine ⟨h.row, h.mem_full, ?_⟩
  rcases h.row with ⟨r, hr, hid, hlink⟩
  have hfind := t.findUpdate_of_mem hlinked.nodup (mem_of_getLast? hr)
  rw [(UpdateRow.id_eq_iff.mp hid).1] at hfind
  simp only [Tables.deleteOldIncremental, mem_filter, hfind, bind_some]
  cases hprev : r.prevSerialNum with
  | some =>
    simp only [isSome_some, and_true]
    exact h.mem_incremental
  | none =>
    -- The data is deleted, and the link was cleared because the predecessor is gone.
    right
    refine ⟨by simp, ?_⟩
    rcases hlink with hlink | hlink
    . rw [← hlink, hprev]
      simp
    . exact hlink.2

end

end KeepsLatest

def Pc.beforeChanges : Pc → Bool
  | .hasValidSession | .getLatestSernum | .deleteIncompleteIncremental | .deleteIncompleteFull
  | .goodSerials | .insertFull | .insertAnnouncements | .insertWithdrawals
  | .hasIncrementalChanges => true
  | _ => false

def Pc.beforeUpdate : Pc → Bool
  | .insertUpdate | .deleteFull => true
  | pc => pc.beforeChanges

structure RunInv (t0 : Tables) (forced noChange : Bool) (p : Option Proc) (t : Tables) : Prop where
  linked : Linked t0.update
  forced_eq : ∀ q ∈ p, q.forceUpdate = forced
  untouched : ∀ q ∈ p, q.pc.beforeUpdate = true → Untouched t0 t
  noChange_eq : ∀ q ∈ p, q.pc.beforeChanges = true → noChange = false
  insert_forced : ∀ q ∈ p, q.pc = .insertUpdate → noChange = true → forced = true
  keepsLatest : noChange = true → forced = false →
    ∀ r0 ∈ t0.update.getLast?, KeepsLatest t0 t r0

namespace RunInv

variable {t' : Tables} {forced noChange : Bool} {p : Proc}

section

variable (h : RunInv t0 forced noChange (some p) t)

include h

theorem exit (hkeeps : noChange = true → forced = false → ∀ r0, KeepsLatest t0 t r0 →
      KeepsLatest t0 t' r0)
    : RunInv t0 forced noChange none t' where
  linked := h.linked
  forced_eq := by simp
  untouched := by simp
  noChange_eq := by simp
  insert_forced := by simp
  keepsLatest := fun hno hforced r0 hr0 => hkeeps hno hforced r0 (h.keepsLatest hno hforced r0 hr0)

theorem goto_beforeChanges {q : Proc} (hpc : p.pc.beforeChanges = true)
    (hforce : q.forceUpdate = p.forceUpdate) (hnew : Untouched t0 t')
    : RunInv t0 forced noChange (some q) t' where
  linked := h.linked
  forced_eq := by
    rintro q ⟨rfl⟩
    rw [hforce]
    exact h.forced_eq p rfl
  untouched := by
    rintro q ⟨rfl⟩ _
    exact hnew
  noChange_eq := by
    rintro q ⟨rfl⟩ _
    exact h.noChange_eq p rfl hpc
  insert_forced := by
    rintro q ⟨rfl⟩ _ hno
    rw [h.noChange_eq p rfl hpc] at hno
    contradiction
  keepsLatest := by
    intro hno
    rw [h.noChange_eq p rfl hpc] at hno
    contradiction

theorem goto_cleanup {q : Proc} (hpc : q.pc.beforeUpdate = false)
    (hforce : q.forceUpdate = p.forceUpdate)
    (hkeeps : noChange = true → forced = false → ∀ r0 ∈ t0.update.getLast?,
      KeepsLatest t0 t r0 → KeepsLatest t0 t' r0)
    : RunInv t0 forced noChange (some q) t' where
  linked := h.linked
  forced_eq := by
    rintro q ⟨rfl⟩
    rw [hforce]
    exact h.forced_eq p rfl
  untouched := by
    rintro q ⟨rfl⟩ hq
    rw [hpc] at hq
    contradiction
  noChange_eq := by
    rintro q ⟨rfl⟩ hq
    cases hqpc : q.pc <;> simp [hqpc, Pc.beforeUpdate, Pc.beforeChanges] at hpc hq
  insert_forced := by
    rintro q ⟨rfl⟩ hq
    simp [hq, Pc.beforeUpdate] at hpc
  keepsLatest := fun hno hforced r0 hr0 =>
    hkeeps hno hforced r0 hr0 (h.keepsLatest hno hforced r0 hr0)

theorem step (hstore : StoreInv snapshot last t) (hprocFull : ProcFull snapshot t p)
    (hproc : ProcInv snapshot t p) {e : Env} {n : Next} (hstep : p.step e t = some (t', n))
    (hpc : p.pc ≠ .hasIncrementalChanges) : RunInv t0 forced noChange n.proc t' := by
  rcases p with ⟨pc, _, _, _, _, _⟩
  cases pc with
  | hasValidSession =>
    simp only [Proc.step] at hstep
    split at hstep <;> cases hstep
    . exact h.goto_beforeChanges rfl rfl (h.untouched _ rfl rfl)
    . exact h.exit (fun _ _ _ hkeeps => hkeeps)
  | getLatestSernum =>
    simp only [Proc.step] at hstep
    split at hstep
    . cases hstep
      apply h.goto_beforeChanges rfl _ (h.untouched _ rfl rfl)
      cases e.latest <;> rfl
    . contradiction
  | deleteIncompleteIncremental =>
    cases hstep
    exact h.goto_beforeChanges rfl rfl (h.untouched _ rfl rfl).deleteIncompleteIncremental
  | deleteIncompleteFull =>
    cases hstep
    have hnew := (h.untouched _ rfl rfl).deleteIncompleteFull
    simp only [Proc.computeCurrentSerial]
    split
    . apply h.exit
      intro hno
      rw [h.noChange_eq _ rfl rfl] at hno
      contradiction
    . exact h.goto_beforeChanges rfl rfl hnew
    . exact h.goto_beforeChanges rfl rfl hnew
  | goodSerials =>
    simp only [Proc.step] at hstep
    split at hstep <;> cases hstep
    . exact h.exit (fun _ _ _ hkeeps => hkeeps)
    . exact h.goto_beforeChanges rfl rfl (h.untouched _ rfl rfl)
  | insertFull =>
    have hnew := (h.untouched _ rfl rfl).insertFull hprocFull.2 e.prefixes
    simp only [Proc.step] at hstep
    split at hstep <;> cases hstep <;> exact h.goto_beforeChanges rfl rfl hnew
  | insertAnnouncements
  | insertWithdrawals =>
    simp only [Proc.step] at hstep
    split at hstep
    . cases hstep
      exact h.exit (fun _ _ _ hkeeps => hkeeps)
    . next hinsert =>
      cases hstep
      exact h.goto_beforeChanges rfl rfl
        ((h.untouched _ rfl rfl).insertIncremental hprocFull.1 hinsert)
  | hasIncrementalChanges => contradiction
  | insertUpdate =>
    -- An update is only made without a change if the run was forced.
    simp only [Proc.step] at hstep
    split at hstep <;> cases hstep
    . exact h.exit (fun _ _ _ hkeeps => hkeeps)
    . refine h.goto_cleanup rfl rfl ?_
      intro hno hforced
      rw [h.insert_forced _ rfl rfl hno] at hforced
      contradiction
  | deleteFull =>
    cases hstep
    refine h.goto_cleanup rfl rfl ?_
    intro _ _ r0 hr0 hkeeps
    apply hkeeps.deleteUselessFull
    rw [← (h.untouched _ rfl rfl).update_eq] at hr0
    exact (hprocFull r0 (mem_of_getLast? hr0)).1
  | ignoreOldFull =>
    cases hstep
    exact h.goto_cleanup rfl rfl (fun _ _ _ _ hkeeps => hkeeps.ignoreOldFull)
  | deleteOldFull =>
    cases hstep
    exact h.goto_cleanup rfl rfl (fun _ _ _ _ hkeeps => hkeeps.deleteOldFull hproc)
  | deleteOldUpdate =>
    cases hstep
    exact h.goto_cleanup rfl rfl
      (fun _ _ _ _ hkeeps => hkeeps.deleteOldUpdate hproc hstore.linked e.cutoff)
  | ignoreOldIncremental =>
    cases hstep
    exact h.goto_cleanup rfl rfl (fun _ _ _ _ hkeeps => hkeeps.ignoreOldIncremental hstore.linked)
  | deleteOldIncremental =>
    cases hstep
    exact h.exit (fun _ _ _ hkeeps => hkeeps.deleteOldIncremental hstore.linked)

theorem step_hasIncrementalChanges {e : Env} {n : Next}
    (hstep : p.step e t = some (t', n)) (hpc : p.pc = .hasIncrementalChanges)
    : RunInv t0 forced (!t'.hasChanges p.currentSerial) n.proc t' := by
  have huntouched := h.untouched p rfl (by rw [hpc]; rfl)
  have hforced := h.forced_eq p rfl
  simp only [Proc.step, hpc] at hstep
  have hnext : t' = t ∧ ∀ q ∈ n.proc, q.forceUpdate = p.forceUpdate ∧ q.pc.beforeChanges = false ∧
      (q.pc = .insertUpdate → (!t.hasChanges p.currentSerial) = true → p.forceUpdate = true) := by
    split at hstep
    . next hchanges =>
      cases hstep
      refine ⟨rfl, ?_⟩
      rintro q ⟨rfl⟩
      refine ⟨rfl, rfl, ?_⟩
      intro _ hno
      rw [Bool.not_eq_true'] at hno
      rw [hno, Bool.false_or] at hchanges
      exact hchanges
    . cases hstep
      refine ⟨rfl, ?_⟩
      rintro q ⟨rfl⟩
      exact ⟨rfl, rfl, by simp⟩
  rcases hnext with ⟨rfl, hnext⟩
  refine ⟨h.linked, ?_, ?_, ?_, ?_, ?_⟩
  . intro q hq
    rw [(hnext q hq).1, hforced]
  . intro _ _ _
    exact huntouched
  . intro q hq hbefore
    rw [(hnext q hq).2.1] at hbefore
    contradiction
  . intro q hq hqpc hno
    rw [← hforced]
    exact (hnext q hq).2.2 hqpc hno
  . intro _ _ _ hr0
    exact huntouched.keepsLatest hr0

end

end RunInv

theorem System.reachable_runInv {session : Session} {s : System}
    (hreach : ((System.lts session).restrict System.LaterSecond).Reachable s)
    : RunInv s.atStart s.forced s.noChange s.proc s.tables := by
  induction hreach with
  | init h =>
    rw [h]
    exact ⟨Linked.nil, by simp [System.init], by simp [System.init], by simp [System.init],
      by simp [System.init], by simp [System.init]⟩
  | @step s _ ev hs hstep ih =>
    have hinv := System.reachable_inv hs
    cases ev with
    | start =>
      rcases next_start hstep.2 with ⟨-, rfl⟩
      refine ⟨hinv.store.linked, ?_, ?_, by simp, by simp, by simp⟩
      . rintro _ ⟨rfl⟩
        rfl
      . intro _ _ _
        exact Untouched.refl _
    | kill =>
      rw [next_kill hstep.2]
      exact ⟨ih.linked, by simp, by simp, by simp, by simp, ih.keepsLatest⟩
    | statement e =>
      rcases next_statement hstep.2 with ⟨p, t, _, hproc, hexec, rfl⟩
      rw [hproc] at ih
      by_cases hpc : p.pc = .hasIncrementalChanges
      . have := ih.step_hasIncrementalChanges hexec hpc
        simpa only [System.record, hpc] using this
      have := ih.step hinv.store (hinv.full.proc p hproc) (hinv.proc p hproc) hexec hpc
      have hrecord : (s.record e p t).atStart = s.atStart ∧ (s.record e p t).forced = s.forced ∧
          (s.record e p t).noChange = s.noChange := by
        unfold System.record
        split
        . exact ⟨rfl, rfl, rfl⟩
        . exact ⟨rfl, rfl, rfl⟩
        . contradiction
        . exact ⟨rfl, rfl, rfl⟩
      simpa only [hrecord] using this

end Rpstir.Rtr
