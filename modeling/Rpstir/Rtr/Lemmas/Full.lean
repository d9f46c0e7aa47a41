import Rpstir.Rtr.Lemmas.Basic
import Rpstir.Rtr.Update

/-!
This module contains the proof that the full data of a serial number is complete as long as its row in
`rtr_update` says so, in every sequence of runs of `rpki-rtr-update` and whatever the clock does.
-/

namespace Rpstir.Rtr

open List Option

variable {s s' : System} {e : Env} {p : Proc} {t : Tables} {n : Next} {current previous serial : Serial}
  {snapshot : Serial → List Prefix}

namespace System

theorem next_start {argv : Option (Option Serial)} (h : s.next (.start argv) = some s')
    : s.proc = none ∧
      s' = { s with proc := some (.start argv), atStart := s.tables, forced := argv.isSome,
                    noChange := false } := by
  unfold System.next at h
  dsimp only at h
  split at h
  . next hproc => exact ⟨hproc, by simpa using h.symm⟩
  . contradiction

theorem next_kill (h : s.next .kill = some s') : s' = { s with proc := none } := by
  simpa [System.next] using h.symm

theorem next_statement (h : s.next (.statement e) = some s')
    : ∃ p t n, s.proc = some p ∧ p.step e s.tables = some (t, n) ∧
        s' = { s.record e p t with tables := t, proc := n.proc } := by
  unfold System.next at h
  dsimp only at h
  split at h
  . contradiction
  next p hproc =>
  rw [Option.map_eq_some_iff] at h
  rcases h with ⟨⟨t, n⟩, hstep, rfl⟩
  exact ⟨p, t, n, hproc, hstep, rfl⟩

end System

theorem Next.forall_goto {P : Proc → Prop} (h : P p) : ∀ p' ∈ (Next.goto p).proc, P p' := by
  rintro p' ⟨rfl⟩
  exact h

theorem Next.forall_exit {P : Proc → Prop} {success : Bool} : ∀ p' ∈ (Next.exit success).proc, P p' :=
  nofun

def Fresh (t : Tables) (serial : Serial) : Prop :=
  ∀ r ∈ t.update, r.serialNum ≠ serial ∧ r.prevSerialNum ≠ some serial

def FullComplete (t : Tables) : Prop :=
  ∀ row ∈ t.full, ∃ r ∈ t.update, r.serialNum = row.serialNum

def FullOf (snapshot : Serial → List Prefix) (t : Tables) (serial : Serial) : Prop :=
  ∀ q, ⟨serial, q⟩ ∈ t.full ↔ q ∈ snapshot serial

def Kept (current previous : Serial) (r : UpdateRow) : Prop :=
  r.serialNum = current ∨ r.serialNum = previous

def OnlyKeptFull (t : Tables) (current previous : Serial) : Prop :=
  ∀ r ∈ t.update, r.hasFull = true → Kept current previous r

structure FullInv (snapshot : Serial → List Prefix) (t : Tables) : Prop where
  nodup : t.full.Nodup
  fullOf : ∀ r ∈ t.update, r.hasFull = true → FullOf snapshot t r.serialNum

def ProcFull (snapshot : Serial → List Prefix) (t : Tables) (p : Proc) : Prop :=
  match p.pc with
  | .hasValidSession | .getLatestSernum | .ignoreOldFull => True
  | .deleteIncompleteIncremental | .deleteIncompleteFull => p.firstTime = true → t.update = []
  | .goodSerials => FullComplete t
  | .insertFull => FullComplete t ∧ Fresh t p.currentSerial
  | .insertAnnouncements | .insertWithdrawals | .hasIncrementalChanges | .insertUpdate =>
    Fresh t p.currentSerial ∧ FullOf snapshot t p.currentSerial
  | .deleteFull => Fresh t p.currentSerial
  | .deleteOldFull | .deleteOldUpdate | .ignoreOldIncremental | .deleteOldIncremental =>
    OnlyKeptFull t p.currentSerial p.previousSerial

namespace FullInv

variable (h : FullInv snapshot t)

include h

theorem filterFull (keep : FullRow → Bool)
    (hkeep : ∀ r ∈ t.update, r.hasFull = true → ∀ q, keep ⟨r.serialNum, q⟩ = true)
    : FullInv snapshot { t with full := t.full.filter keep } where
  nodup := h.nodup.filter _
  fullOf := by
    intro r hr hfull q
    rw [← h.fullOf r hr hfull q, mem_filter]
    exact and_iff_left (hkeep r hr hfull q)

theorem setUpdate {update : List UpdateRow} (hfrom : ∀ r ∈ update, r.hasFull = true →
      ∃ r0 ∈ t.update, r0.hasFull = true ∧ r0.serialNum = r.serialNum)
    : FullInv snapshot { t with update := update } where
  nodup := h.nodup
  fullOf := by
    intro r hr hfull
    rcases hfrom r hr hfull with ⟨r0, hr0, hfull0, hserial⟩
    rw [← hserial]
    exact h.fullOf r0 hr0 hfull0

theorem deleteIncompleteFull : FullInv snapshot t.deleteIncompleteFull := by
  apply h.filterFull
  intro r hr _ _
  rw [Tables.findUpdate_isSome]
  exact ⟨r, hr, rfl⟩

theorem insertFull (prefixes : List Prefix) (hcomplete : FullComplete t) (hfresh : Fresh t serial)
    : FullInv (Function.update snapshot serial prefixes) (t.insertFull serial prefixes) ∧
        FullOf (Function.update snapshot serial prefixes) (t.insertFull serial prefixes) serial := by
  refine ⟨⟨Tables.insertFull.foldl_nodup h.nodup, ?_⟩, ?_⟩
  . intro r hr hfull q
    have hne := (hfresh r hr).1
    rw [Function.update_of_ne hne, Tables.mem_full_insertFull, ← h.fullOf r hr hfull q]
    simp [hne]
  intro q
  rw [Tables.mem_full_insertFull]
  simp only [Function.update_self, true_and, or_iff_right_iff_imp]
  intro hq
  rcases hcomplete _ hq with ⟨r, hr, heq⟩
  exact absurd heq (hfresh r hr).1

theorem append {r : UpdateRow} (hfull : FullOf snapshot t r.serialNum)
    : FullInv snapshot { t with update := t.update ++ [r] } where
  nodup := h.nodup
  fullOf := by
    intro r' hr' hfull'
    rcases List.mem_append.mp hr' with hr' | hr'
    . exact h.fullOf r' hr' hfull'
    . rw [mem_singleton] at hr'
      rw [hr']
      exact hfull

theorem deleteUselessFull (hfresh : Fresh t serial) : FullInv snapshot (t.deleteUselessFull serial) := by
  apply h.filterFull
  intro r hr _ _
  simp [(hfresh r hr).1]

theorem deleteOldFull (honly : OnlyKeptFull t current previous)
    : FullInv snapshot (t.deleteOldFull current previous) := by
  apply h.filterFull
  intro r hr hfull _
  rcases honly r hr hfull with hkept | hkept <;> simp [hkept]

end FullInv

theorem Tables.fullComplete_deleteIncompleteFull (t : Tables) : FullComplete t.deleteIncompleteFull := by
  intro _ hrow
  simp only [Tables.deleteIncompleteFull, mem_filter, Tables.findUpdate_isSome] at hrow
  exact hrow.2

theorem OnlyKeptFull.setUpdate {update : List UpdateRow} (h : OnlyKeptFull t current previous)
    (hfrom : ∀ r ∈ update, r.hasFull = true →
      ∃ r0 ∈ t.update, r0.hasFull = true ∧ r0.serialNum = r.serialNum)
    : OnlyKeptFull { t with update := update } current previous := by
  intro r hr hfull
  rcases hfrom r hr hfull with ⟨r0, hr0, hfull0, hserial⟩
  rw [Kept, ← hserial]
  exact h r0 hr0 hfull0

theorem Tables.hasFull_of_ignoreOldFull {r : UpdateRow}
    (hr : r ∈ (t.ignoreOldFull current previous).update) (hfull : r.hasFull = true)
    : r ∈ t.update ∧ Kept current previous r := by
  rcases List.mem_map.mp hr with ⟨_, hr0, rfl⟩
  split at hfull
  . contradiction
  next hkept =>
  rw [if_neg hkept]
  simp only [Bool.and_eq_true, bne_iff_ne, not_and_or, not_not] at hkept
  exact ⟨hr0, hkept⟩

theorem Tables.hasFull_of_deleteOldUpdate {r : UpdateRow} {cutoff : Nat}
    (hr : r ∈ (t.deleteOldUpdate current previous cutoff).update) (hfull : r.hasFull = true)
    : ∃ r0 ∈ t.update, r0.hasFull = true ∧ r0.serialNum = r.serialNum := by
  exact ⟨r, mem_of_mem_filter hr, hfull, rfl⟩

theorem Tables.hasFull_of_ignoreOldIncremental {r : UpdateRow} (hr : r ∈ t.ignoreOldIncremental.update)
    (hfull : r.hasFull = true) : ∃ r0 ∈ t.update, r0.hasFull = true ∧ r0.serialNum = r.serialNum := by
  rcases List.mem_map.mp hr with ⟨r0, hr0, rfl⟩
  split at hfull <;> exact ⟨r0, hr0, hfull, rfl⟩

theorem computeCurrentSerial_full (hcomplete : FullComplete t) (hfirst : p.firstTime = true → t.update = [])
    : ∀ p' ∈ p.computeCurrentSerial.proc, ProcFull snapshot t p' := by
  intro p' hp'
  unfold Proc.computeCurrentSerial at hp'
  cases hfirstTime : p.firstTime with
  | true =>
    -- In the first run there is no row that could mention the serial number.
    have hfresh : ∀ serial, Fresh t serial := by
      simp [Fresh, hfirst hfirstTime]
    rw [hfirstTime] at hp'
    dsimp only at hp'
    split at hp' <;> cases hp' <;> exact ⟨hcomplete, hfresh _⟩
  | false =>
    rw [hfirstTime] at hp'
    dsimp only at hp'
    split at hp' <;> cases hp' <;> exact hcomplete

theorem step_full (hstore : FullInv s.snapshot s.tables) (hproc : ProcFull s.snapshot s.tables p)
    (h : p.step e s.tables = some (t, n))
    : FullInv (s.record e p t).snapshot t ∧ ∀ p' ∈ n.proc, ProcFull (s.record e p t).snapshot t p' := by
  rcases p with ⟨pc, _, _, _, _, _⟩
  cases pc with
  | hasValidSession =>
    simp only [Proc.step] at h
    split at h
    . cases h
      exact ⟨hstore, Next.forall_goto trivial⟩
    . cases h
      exact ⟨hstore, Next.forall_exit⟩
  | getLatestSernum =>
    simp only [Proc.step] at h
    split at h
    . next hlatest =>
      cases h
      refine ⟨hstore, Next.forall_goto ?_⟩
      cases hserial : e.latest with
      | none =>
        rw [hserial] at hlatest
        exact fun _ => hlatest
      | some => exact nofun
    . contradiction
  | deleteIncompleteIncremental =>
    cases h
    exact ⟨⟨hstore.nodup, hstore.fullOf⟩, Next.forall_goto hproc⟩
  | deleteIncompleteFull =>
    cases h
    exact ⟨hstore.deleteIncompleteFull,
      computeCurrentSerial_full s.tables.fullComplete_deleteIncompleteFull hproc⟩
  | goodSerials =>
    simp only [Proc.step] at h
    split at h
    . cases h
      exact ⟨hstore, Next.forall_exit⟩
    next hgood =>
    cases h
    refine ⟨hstore, Next.forall_goto ⟨hproc, ?_⟩⟩
    intro r hr
    rw [Bool.not_eq_true] at hgood
    have hfresh := s.tables.detectInconsistentState_eq_false hgood hr
    exact ⟨hfresh.1, hfresh.2.1⟩
  | insertFull =>
    have hnew := hstore.insertFull e.prefixes hproc.1 hproc.2
    simp only [Proc.step] at h
    split at h <;> cases h
    . exact ⟨hnew.1, Next.forall_goto ⟨hproc.2, hnew.2⟩⟩
    . exact ⟨hnew.1, Next.forall_goto ⟨hproc.2, hnew.2⟩⟩
  | insertAnnouncements
  | insertWithdrawals =>
    simp only [Proc.step] at h
    split at h
    . cases h
      exact ⟨hstore, Next.forall_exit⟩
    next hinsert =>
    cases h
    rcases Tables.insertIncremental_eq_some hinsert with ⟨_, rfl, -, -⟩
    exact ⟨⟨hstore.nodup, hstore.fullOf⟩, Next.forall_goto hproc⟩
  | hasIncrementalChanges =>
    simp only [Proc.step] at h
    split at h
    . cases h
      exact ⟨hstore, Next.forall_goto hproc⟩
    . cases h
      exact ⟨hstore, Next.forall_goto hproc.1⟩
  | insertUpdate =>
    simp only [Proc.step] at h
    split at h
    . cases h
      exact ⟨hstore, Next.forall_exit⟩
    next hinsert =>
    cases h
    rw [Tables.insertUpdate_eq_some hinsert]
    exact ⟨hstore.append (r := ⟨_, _, _, _⟩) hproc.2, Next.forall_goto trivial⟩
  | deleteFull =>
    cases h
    exact ⟨hstore.deleteUselessFull hproc, Next.forall_goto trivial⟩
  | ignoreOldFull =>
    cases h
    refine ⟨hstore.setUpdate ?_, Next.forall_goto ?_⟩
    . intro r hr hfull
      exact ⟨r, (Tables.hasFull_of_ignoreOldFull hr hfull).1, hfull, rfl⟩
    . intro r hr hfull
      exact (Tables.hasFull_of_ignoreOldFull hr hfull).2
  | deleteOldFull =>
    cases h
    exact ⟨hstore.deleteOldFull hproc, Next.forall_goto hproc⟩
  | deleteOldUpdate =>
    cases h
    exact ⟨hstore.setUpdate (fun _ => Tables.hasFull_of_deleteOldUpdate),
      Next.forall_goto (OnlyKeptFull.setUpdate hproc fun _ => Tables.hasFull_of_deleteOldUpdate)⟩
  | ignoreOldIncremental =>
    cases h
    exact ⟨hstore.setUpdate (fun _ => Tables.hasFull_of_ignoreOldIncremental),
      Next.forall_goto (OnlyKeptFull.setUpdate hproc fun _ => Tables.hasFull_of_ignoreOldIncremental)⟩
  | deleteOldIncremental =>
    cases h
    exact ⟨⟨hstore.nodup, hstore.fullOf⟩, Next.forall_exit⟩

structure System.FullInv (s : System) : Prop where
  store : Rtr.FullInv s.snapshot s.tables
  proc : ∀ p ∈ s.proc, ProcFull s.snapshot s.tables p

theorem System.FullInv.init (session : Session) : (System.init session).FullInv where
  store := by constructor <;> simp [System.init]
  proc := by simp [System.init]

theorem System.FullInv.next (hinv : s.FullInv) {ev : Event} (h : s.next ev = some s') : s'.FullInv := by
  cases ev with
  | start =>
    rcases next_start h with ⟨-, rfl⟩
    refine ⟨hinv.store, ?_⟩
    rintro p ⟨rfl⟩
    trivial
  | kill =>
    rw [next_kill h]
    exact ⟨hinv.store, by simp⟩
  | statement =>
    rcases next_statement h with ⟨p, _, _, hproc, hstep, rfl⟩
    have hnew := step_full hinv.store (hinv.proc p hproc) hstep
    exact ⟨hnew.1, hnew.2⟩

end Rpstir.Rtr
