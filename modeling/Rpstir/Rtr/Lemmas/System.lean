import Rpstir.Rtr.Lemmas.Update

/-!
This module contains the proof that the tables keep their invariant in every sequence of runs of
`rpki-rtr-update`, wherever the runs are killed.
-/

namespace Rpstir.Rtr

variable {s s' : System} {e : Env} {p : Proc} {t : Tables} {n : Next}

theorem step_inv_of_record_eq (hrecord : s.record e p t = s)
    (h : StoreInv s.snapshot s.lastInserted t ∧ ∀ p' ∈ n.proc, ProcInv s.snapshot t p')
    : StoreInv (s.record e p t).snapshot (s.record e p t).lastInserted t ∧
        ∀ p' ∈ n.proc, ProcInv (s.record e p t).snapshot t p' := by
  rw [hrecord]
  exact h

theorem computeCurrentSerial_inv {snapshot : Serial → List Prefix}
    (hprev : IsPrevious t p.firstTime p.previousSerial) (hincremental : IncrementalComplete t)
    : ∀ p' ∈ p.computeCurrentSerial.proc, ProcInv snapshot t p' := by
  intro p' hp'
  unfold Proc.computeCurrentSerial at hp'
  cases hfirst : p.firstTime with
  | true =>
    rw [hfirst] at hp' hprev
    dsimp only at hp'
    split at hp' <;> cases hp' <;> exact ⟨hprev, hincremental⟩
  | false =>
    rw [hfirst] at hp' hprev
    dsimp only at hp'
    split at hp' <;> cases hp' <;> exact ⟨hprev, rfl, hincremental⟩

theorem step_inv (hfull : FullInv s.snapshot s.tables) (hprocFull : ProcFull s.snapshot s.tables p)
    (hstore : StoreInv s.snapshot s.lastInserted s.tables) (hproc : ProcInv s.snapshot s.tables p)
    (hlater : p.pc = .insertUpdate → ∀ r ∈ s.lastInserted, r.createTime < e.now)
    (h : p.step e s.tables = some (t, n))
    : StoreInv (s.record e p t).snapshot (s.record e p t).lastInserted t ∧
        ∀ p' ∈ n.proc, ProcInv (s.record e p t).snapshot t p' := by
  rcases p with ⟨pc, _, _, _, _, _⟩
  cases pc with
  | hasValidSession =>
    apply step_inv_of_record_eq rfl
    simp only [Proc.step] at h
    split at h
    . cases h
      exact ⟨hstore, Next.forall_goto trivial⟩
    . cases h
      exact ⟨hstore, Next.forall_exit⟩
  | getLatestSernum =>
    apply step_inv_of_record_eq rfl
    simp only [Proc.step] at h
    split at h
    . next hlatest =>
      cases h
      refine ⟨hstore, Next.forall_goto ?_⟩
      apply IsPrevious.of_latest hstore.linked hlatest
      . cases e.latest <;> rfl
      . intro _ hserial
        rw [hserial]
    . contradiction
  | deleteIncompleteIncremental =>
    apply step_inv_of_record_eq rfl
    cases h
    have hnew := hstore.deleteIncompleteIncremental
    exact ⟨hnew.1, Next.forall_goto ⟨hproc, hnew.2⟩⟩
  | deleteIncompleteFull =>
    apply step_inv_of_record_eq rfl
    cases h
    exact ⟨hstore.setFull, computeCurrentSerial_inv hproc.1 hproc.2⟩
  | goodSerials =>
    apply step_inv_of_record_eq rfl
    simp only [Proc.step] at h
    split at h
    . cases h
      exact ⟨hstore, Next.forall_exit⟩
    . cases h
      exact ⟨hstore, Next.forall_goto ⟨hproc.1, hproc.2.2⟩⟩
  | insertFull =>
    rcases hproc with ⟨hprev, hincremental⟩
    have hfresh := hprocFull.2
    have hnew := hstore.insertFull e.prefixes hfresh
    simp only [Proc.step] at h
    split at h
    . next hfirst =>
      cases h
      exact ⟨hnew, Next.forall_goto ⟨hprev, by simp [hfirst]⟩⟩
    next hfirst =>
    cases h
    refine ⟨hnew, Next.forall_goto ⟨hprev, by simpa using hfirst, ?_⟩⟩
    intro _ q
    simp only [List.not_mem_nil, false_and, iff_false]
    intro hmem
    rcases hincremental _ hmem with ⟨r, hr, heq⟩
    exact (hfresh r hr).1 heq
  | insertAnnouncements
  | insertWithdrawals =>
    apply step_inv_of_record_eq rfl
    rcases hproc with ⟨hprev, hfirst, hdelta⟩
    simp only [Proc.step] at h
    split at h
    . cases h
      exact ⟨hstore, Next.forall_exit⟩
    next t' hinsert =>
    cases h
    have hprevFull := hprev.fullOf hstore hfull hfirst
    have hnew := hstore.insertIncremental hinsert hprocFull.1 hdelta (by
      intro q
      rw [hprocFull.2 q, hprevFull q]
      rfl)
    refine ⟨hnew.1, Next.forall_goto ?_⟩
    simp only [ProcInv, IsPrevious, hnew.2.1]
    exact ⟨hprev, hfirst, hnew.2.2.2⟩
  | hasIncrementalChanges =>
    rcases hproc with ⟨hprev, -, hdelta⟩
    simp only [Proc.step] at h
    split at h
    . cases h
      exact ⟨hstore, Next.forall_goto ⟨hprev, fun _ => hdelta⟩⟩
    . cases h
      exact ⟨hstore, Next.forall_goto hprev⟩
  | insertUpdate =>
    rcases hproc with ⟨hprev, hdelta⟩
    simp only [Proc.step] at h
    split at h
    . cases h
      exact ⟨hstore.setLast, Next.forall_exit⟩
    next t' hinsert =>
    cases h
    refine ⟨hstore.insertUpdate hinsert rfl (hlater rfl) hprev hprocFull.1 hdelta, ?_⟩
    apply Next.forall_goto
    have hkeeps := KeepsLast.of_isPrevious hstore.linked hprev hprocFull.1
    rw [Tables.insertUpdate_eq_some hinsert]
    exact hkeeps.append (r := ⟨_, _, _, _⟩) (Or.inl rfl)
  | deleteFull =>
    apply step_inv_of_record_eq rfl
    cases h
    refine ⟨hstore.setFull, Next.forall_goto ?_⟩
    exact KeepsLast.of_isPrevious hstore.linked hproc hprocFull
  | ignoreOldFull =>
    apply step_inv_of_record_eq rfl
    cases h
    exact (hstore.ignoreOldFull hproc).imp_right Next.forall_goto
  | deleteOldFull =>
    apply step_inv_of_record_eq rfl
    cases h
    exact ⟨hstore.setFull, Next.forall_goto hproc⟩
  | deleteOldUpdate =>
    apply step_inv_of_record_eq rfl
    cases h
    exact (hstore.deleteOldUpdate hproc e.cutoff).imp_right Next.forall_goto
  | ignoreOldIncremental =>
    apply step_inv_of_record_eq rfl
    cases h
    exact (hstore.ignoreOldIncremental hproc).imp_right Next.forall_goto
  | deleteOldIncremental =>
    apply step_inv_of_record_eq rfl
    cases h
    exact ⟨hstore.deleteOldIncremental, Next.forall_exit⟩

structure System.Inv (s : System) : Prop where
  full : s.FullInv
  store : StoreInv s.snapshot s.lastInserted s.tables
  proc : ∀ p ∈ s.proc, ProcInv s.snapshot s.tables p

theorem System.Inv.init (session : Session) : (System.init session).Inv :=
  ⟨.init session, StoreInv.init session, by simp [System.init]⟩

theorem System.Inv.next (hinv : s.Inv) {ev : Event} (h : s.next ev = some s')
    (hlater : s.LaterSecond ev) : s'.Inv := by
  have hfull := hinv.full.next h
  cases ev with
  | start =>
    rcases next_start h with ⟨-, rfl⟩
    refine ⟨hfull, hinv.store, ?_⟩
    rintro p ⟨rfl⟩
    trivial
  | kill =>
    rw [next_kill h] at hfull ⊢
    exact ⟨hfull, hinv.store, by simp⟩
  | statement =>
    rcases next_statement h with ⟨p, _, _, hproc, hstep, rfl⟩
    have hnew := step_inv hinv.full.store (hinv.full.proc p hproc) hinv.store (hinv.proc p hproc)
      (hlater p hproc) hstep
    exact ⟨hfull, hnew.1, hnew.2⟩

theorem System.reachable_inv {session : Session}
    (hreach : ((System.lts session).restrict System.LaterSecond).Reachable s) : s.Inv := by
  apply hreach.invariant_restrict
  . rintro s rfl
    exact .init session
  . intro s _ _ _ hinv hlater hstep
    exact hinv.next hstep hlater

end Rpstir.Rtr
