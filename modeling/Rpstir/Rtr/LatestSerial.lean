import Rpstir.Rtr.Lemmas.System

/-!
This module contains what `db_rtr_get_latest_sernum` returns when the database clock is only known not to
go back, and what that means for the next run of `rpki-rtr-update`.
-/

namespace Rpstir.Rtr

open List Option

def Proc.run (env : Pc → Env) : Nat → Proc → Tables → Option (Tables × Bool)
  | 0, _, _ => none
  | fuel + 1, p, t =>
    match p.step (env p.pc) t with
    | none => none
    | some (t, .exit success) => some (t, success)
    | some (t, .goto p) => p.run env fuel t

variable {session : Session} {s s' : System} {e : Env} {env : Pc → Env} {p p' : Proc}
  {t t' : Tables} {n : Next} {current previous : Serial} {fuel : Nat}

theorem System.next_statement_of_step (hproc : s.proc = some p)
    (hstep : p.step e s.tables = some (t, n))
    : s.next (.statement e) = some { s.record e p t with tables := t, proc := n.proc } := by
  simp [System.next, hproc, hstep]

theorem Proc.run_goto (h : p.step (env p.pc) t = some (t', .goto p'))
    : p.run env (fuel + 1) t = p'.run env fuel t' := by
  simp [Proc.run, h]

theorem Proc.run_exit {success : Bool} (h : p.step (env p.pc) t = some (t', .exit success))
    : p.run env (fuel + 1) t = some (t', success) := by
  simp [Proc.run, h]

theorem Proc.session_step (h : p.step e t = some (t', n)) : t'.session = t.session := by
  unfold Proc.step at h
  split at h
  case h_7 | h_8 =>
    split at h
    . cases h
      rfl
    . next hinsert =>
      cases h
      rcases Tables.insertIncremental_eq_some hinsert with ⟨_, rfl, -⟩
      rfl
  case h_10 =>
    dsimp only at h
    split at h
    . cases h
      rfl
    . next hinsert =>
      cases h
      rw [Tables.insertUpdate_eq_some hinsert]
  all_goals try dsimp only at h
  all_goals try split at h
  all_goals cases h
  all_goals rfl

theorem System.session_eq_of_reachable (hreach : (lts session).Reachable s)
    : s.tables.session = [session] := by
  apply hreach.invariant
  . rintro s rfl
    rfl
  intro s ev _ hsession h
  cases ev with
  | start =>
    rcases next_start h with ⟨-, rfl⟩
    exact hsession
  | kill =>
    rw [next_kill h]
    exact hsession
  | statement =>
    rcases next_statement h with ⟨_, _, _, -, hstep, rfl⟩
    exact (Proc.session_step hstep).trans hsession

theorem Linked.prevSerialNum_ne {rows : List UpdateRow} (h : Linked rows) {last r : UpdateRow}
    (hlast : last ∈ rows.getLast?) (hr : r ∈ rows) : r.prevSerialNum ≠ some last.serialNum := by
  intro hprev
  have hmem := mem_of_getLast? hlast
  rcases getElem_of_mem hr with ⟨i, hi, rfl⟩
  cases i with
  | zero =>
    apply h.dangling rows[0] _ _ hprev last hmem rfl
    rw [head?_eq_getElem?]
    simp
  | succ i =>
    have hchain := isChain_iff_getElem.mp h.chain i hi
    rw [hprev, some.injEq] at hchain
    rw [getLast?_eq_getElem?, mem_def, List.getElem?_eq_some_iff] at hlast
    rcases hlast with ⟨hlt, hlast⟩
    have heq := h.ext_serialNum (getElem_mem (by omega)) hmem hchain.symm
    have htime := pairwise_iff_getElem.mp h.times i (rows.length - 1) (by omega) hlt (by omega)
    rw [heq, hlast] at htime
    omega

structure LinksTo (t : Tables) (current previous : Serial) : Prop where
  last : ∃ r ∈ t.update.getLast?, r.serialNum = current ∧ r.prevSerialNum = some previous
  previous_mem : ∃ r ∈ t.update, r.serialNum = previous

theorem LinksTo.map (h : LinksTo t current previous) (f : UpdateRow → UpdateRow)
    (hserial : ∀ r, (f r).serialNum = r.serialNum)
    (hprev : ∀ r, r.prevSerialNum = some previous → (f r).prevSerialNum = some previous)
    : LinksTo { t with update := t.update.map f } current previous where
  last := by
    rcases h.last with ⟨r, hr, hcurrent, hlink⟩
    refine ⟨f r, ?_, (hserial r).trans hcurrent, hprev r hlink⟩
    rw [getLast?_map]
    exact Option.mem_map_of_mem f hr
  previous_mem := by
    rcases h.previous_mem with ⟨r, hr, hserial'⟩
    exact ⟨f r, List.mem_map_of_mem hr, (hserial r).trans hserial'⟩

theorem LinksTo.deleteOldUpdate (h : LinksTo t current previous) (cutoff : Nat)
    : LinksTo (t.deleteOldUpdate current previous cutoff) current previous where
  last := by
    rcases h.last with ⟨r, hr, hcurrent, hlink⟩
    refine ⟨r, ?_, hcurrent, hlink⟩
    rcases getLast?_eq_some_iff.mp hr with ⟨_, hrows⟩
    simp [Tables.deleteOldUpdate, hrows, hcurrent]
  previous_mem := by
    rcases h.previous_mem with ⟨r, hr, hserial⟩
    exact ⟨r, by simp [Tables.deleteOldUpdate, hr, hserial], hserial⟩

theorem LinksTo.ignoreOldIncremental (h : LinksTo t current previous)
    : LinksTo t.ignoreOldIncremental current previous := by
  apply h.map
  . intro r
    split <;> rfl
  intro r hlink
  have hfound : (t.findUpdate previous).isSome := by
    rw [Tables.findUpdate_isSome]
    exact h.previous_mem
  split
  . next hnone =>
    rw [hlink, bind_some] at hnone
    rw [hnone] at hfound
    contradiction
  . exact hlink

def Proc.Links (p : Proc) (env : Pc → Env) (fuel : Nat) (t : Tables) : Prop :=
  ∃ t', p.run env fuel t = some (t', true) ∧ LinksTo t' p.currentSerial p.previousSerial

theorem LinksTo.run_ignoreOldFull (h : LinksTo t p.currentSerial p.previousSerial)
    (hpc : p.pc = .ignoreOldFull) : p.Links env 5 t := by
  rcases p with ⟨pc, _, _, previous, current, _⟩
  cases hpc
  have hignored : LinksTo (t.ignoreOldFull current previous) current previous := by
    apply h.map
    . intro r
      split <;> rfl
    . intro r hlink
      split <;> exact hlink
  have hdeleted := LinksTo.deleteOldUpdate (t := (t.ignoreOldFull current previous).deleteOldFull
    current previous) ⟨hignored.1, hignored.2⟩ (env .deleteOldUpdate).cutoff
  have hlinks := hdeleted.ignoreOldIncremental
  exact ⟨_, rfl, hlinks.1, hlinks.2⟩

theorem Tables.exists_insertIncremental {serial t1 t2 : Serial} (isAnnounce : Bool)
    (h : ∀ q, ⟨t1, q⟩ ∈ t.full → ⟨t2, q⟩ ∉ t.full →
      ∀ r ∈ t.incremental, r.serialNum = serial → r.pfx ≠ q)
    : ∃ t', t.insertIncremental serial isAnnounce t2 t1 = some t' := by
  unfold insertIncremental
  rw [if_neg]
  . exact ⟨_, rfl⟩
  intro hclash
  simp only [List.any_eq_true, mem_filterMap, Bool.and_eq_true, beq_iff_eq] at hclash
  rcases hclash with ⟨_, ⟨q, hq, hrow⟩, r, hr, hserial, hpfx⟩
  rw [Tables.mem_fullPrefixes] at hq
  rw [ite_none_left_eq_some, some.injEq] at hrow
  rcases hrow with ⟨hnot, rfl⟩
  exact h q hq hnot r hr hserial hpfx

theorem System.Inv.step (hinv : s.Inv) (hproc : s.proc = some p) (hpc : p.pc ≠ .insertUpdate)
    (hstep : p.step e s.tables = some (t, n))
    : System.Inv { s.record e p t with tables := t, proc := n.proc } := by
  apply hinv.next (System.next_statement_of_step hproc hstep)
  intro p' hp' hinsert
  rw [hproc, mem_some] at hp'
  rw [← hp'] at hinsert
  contradiction

def System.Changed (s : System) (serial : Serial) (prefixes : List Prefix) : Prop :=
  ∃ q, ¬(q ∈ prefixes ↔ q ∈ s.snapshot serial)

section

variable (hinv : s.Inv) (hproc : s.proc = some p)

include hinv hproc

theorem run_insertUpdate (hpc : p.pc = .insertUpdate) (hfirst : p.firstTime = false)
    : p.Links env 6 s.tables := by
  have hprocInv := hinv.proc p hproc
  rw [ProcInv, hpc] at hprocInv
  have hprev := hprocInv.1
  have hfresh := hinv.full.proc p hproc
  rw [ProcFull, hpc] at hfresh
  rcases hprev.previous_mem hfirst with ⟨last, hlast, hgetLast, hserial⟩
  have hinsert : ∃ r : UpdateRow, r.serialNum = p.currentSerial ∧
      r.prevSerialNum = some p.previousSerial ∧
      p.step (env p.pc) s.tables = some ({ s.tables with update := s.tables.update ++ [r] },
        .goto { p with pc := .ignoreOldFull }) := by
    refine ⟨⟨_, _, (env .insertUpdate).now, true⟩, rfl, rfl, ?_⟩
    simp only [Proc.step, hpc, hfirst, Tables.insertUpdate]
    rw [if_neg]
    . rfl
    simp only [List.any_eq_true, not_exists, not_and]
    intro r hr
    have hlink := hinv.store.linked.prevSerialNum_ne hgetLast hr
    rw [hserial] at hlink
    simp [(hfresh.1 r hr).1, hlink]
  rcases hinsert with ⟨r, hcurrent, hlink, hstep⟩
  rw [Proc.Links, Proc.run_goto hstep]
  apply LinksTo.run_ignoreOldFull (p := ⟨.ignoreOldFull, _, _, _, _, _⟩) _ rfl
  exact ⟨⟨r, by simp, hcurrent, hlink⟩, last, mem_append_left _ hlast, hserial⟩

section

variable (hchanged : s.Changed p.previousSerial (s.snapshot p.currentSerial))

include hchanged

theorem run_hasIncrementalChanges (hpc : p.pc = .hasIncrementalChanges)
    : p.Links env 7 s.tables := by
  have hprocInv := hinv.proc p hproc
  rw [ProcInv, hpc] at hprocInv
  rcases hprocInv with ⟨-, hfirst, hdelta⟩
  have hchanges : s.tables.hasChanges p.currentSerial = true := by
    rcases hchanged with ⟨q, _⟩
    have hmem : ∃ b, ⟨p.currentSerial, b, q⟩ ∈ s.tables.incremental := by
      by_cases hcurrent : q ∈ s.snapshot p.currentSerial
      . exact ⟨true, (hdelta true q).mpr ⟨by simp, by simp_all [InDelta]⟩⟩
      . exact ⟨false, (hdelta false q).mpr ⟨by simp, by simp_all [InDelta]⟩⟩
    rcases hmem with ⟨b, hmem⟩
    rw [Tables.hasChanges, List.any_eq_true]
    exact ⟨_, hmem, by simp⟩
  have hstep : p.step (env p.pc) s.tables = some (s.tables,
      .goto { p with pc := .insertUpdate, updateHadChanges := true }) := by
    simp [Proc.step, hpc, hchanges]
  have hnew := hinv.step hproc (by simp [hpc]) hstep
  rw [Proc.Links, Proc.run_goto hstep]
  rw [System.record, hpc] at hnew
  exact run_insertUpdate (s := { s with proc := some _, noChange := _ }) hnew rfl rfl hfirst

theorem run_insertWithdrawals (hpc : p.pc = .insertWithdrawals)
    : p.Links env 8 s.tables := by
  have hprocInv := hinv.proc p hproc
  rw [ProcInv, hpc] at hprocInv
  rcases hprocInv with ⟨-, -, hdelta⟩
  have hfull := hinv.full.proc p hproc
  rw [ProcFull, hpc] at hfull
  -- A prefix that was announced is not among those that are withdrawn.
  have hinsert : ∃ t, s.tables.insertIncremental p.currentSerial false p.currentSerial p.previousSerial
      = some t := by
    apply Tables.exists_insertIncremental
    rintro _ _ hnot ⟨_, b, q'⟩ hr rfl rfl
    have hmem := (hdelta b q').mp hr
    simp only [mem_singleton] at hmem
    rcases hmem with ⟨rfl, hannounced⟩
    exact hnot ((hfull.2 q').mpr hannounced.1)
  rcases hinsert with ⟨t, hinsert⟩
  have hstep : p.step (env p.pc) s.tables
      = some (t, .goto { p with pc := .hasIncrementalChanges }) := by
    simp [Proc.step, hpc, hinsert]
  have hnew := hinv.step hproc (by simp [hpc]) hstep
  rw [Proc.Links, Proc.run_goto hstep]
  rw [System.record, hpc] at hnew
  exact run_hasIncrementalChanges hnew rfl hchanged rfl

theorem run_insertAnnouncements (hpc : p.pc = .insertAnnouncements)
    : p.Links env 9 s.tables := by
  have hprocInv := hinv.proc p hproc
  rw [ProcInv, hpc] at hprocInv
  rcases hprocInv with ⟨-, -, hdelta⟩
  have hinsert : ∃ t, s.tables.insertIncremental p.currentSerial true p.previousSerial p.currentSerial
      = some t := by
    apply Tables.exists_insertIncremental
    rintro _ _ _ ⟨_, b, q'⟩ hr rfl rfl
    have hmem := (hdelta b q').mp hr
    simp at hmem
  rcases hinsert with ⟨t, hinsert⟩
  have hstep : p.step (env p.pc) s.tables
      = some (t, .goto { p with pc := .insertWithdrawals }) := by
    simp [Proc.step, hpc, hinsert]
  have hnew := hinv.step hproc (by simp [hpc]) hstep
  rw [Proc.Links, Proc.run_goto hstep]
  rw [System.record, hpc] at hnew
  exact run_insertWithdrawals hnew rfl hchanged rfl

end

theorem run_insertFull (hpc : p.pc = .insertFull)
    (hfirst : p.firstTime = false) (hchanged : s.Changed p.previousSerial (env .insertFull).prefixes)
    : p.Links env 10 s.tables := by
  have hprocInv := hinv.proc p hproc
  rw [ProcInv, hpc] at hprocInv
  have hfresh := hinv.full.proc p hproc
  rw [ProcFull, hpc] at hfresh
  have hne := hprocInv.1.current_ne hfirst hfresh.2
  have hstep : p.step (env p.pc) s.tables
      = some (s.tables.insertFull p.currentSerial (env .insertFull).prefixes,
        .goto { p with pc := .insertAnnouncements }) := by
    simp [Proc.step, hpc, hfirst]
  have hnew := hinv.step hproc (by simp [hpc]) hstep
  rw [Proc.Links, Proc.run_goto hstep]
  rw [System.record, hpc] at hnew
  refine run_insertAnnouncements hnew rfl ?_ rfl
  rcases hchanged with ⟨q, hq⟩
  refine ⟨q, ?_⟩
  dsimp only
  rw [Function.update_self, Function.update_of_ne hne]
  exact hq

end

theorem run_goodSerials (env : Pc → Env) (hinv : s.Inv) (hproc : s.proc = some p) (hpc : p.pc = .goodSerials)
    : (Fresh s.tables p.currentSerial → s.Changed p.previousSerial (env .insertFull).prefixes →
        p.Links env 11 s.tables) ∧
      (¬Fresh s.tables p.currentSerial → p.run env 11 s.tables = some (s.tables, false)) := by
  have hprocInv := hinv.proc p hproc
  rw [ProcInv, hpc] at hprocInv
  rcases hprocInv with ⟨hprev, hfirst, -⟩
  constructor
  . intro hfresh hchanged
    have hdetect : s.tables.detectInconsistentState p.previousSerial p.currentSerial = false := by
      rcases hprev.previous_mem hfirst with ⟨_, -, hgetLast, hserial⟩
      rw [Tables.detectInconsistentState, List.any_eq_false]
      intro r hr
      have hlink := hinv.store.linked.prevSerialNum_ne hgetLast hr
      rw [hserial] at hlink
      simp [hfresh r hr, hlink]
    have hstep : p.step (env p.pc) s.tables = some (s.tables, .goto { p with pc := .insertFull }) := by
      simp [Proc.step, hpc, hdetect]
    have hnew := hinv.step hproc (by simp [hpc]) hstep
    rw [Proc.Links, Proc.run_goto hstep]
    rw [System.record, hpc] at hnew
    exact run_insertFull (s := { s with proc := some _ }) hnew rfl rfl hfirst hchanged
  intro hfresh
  have hdetect : s.tables.detectInconsistentState p.previousSerial p.currentSerial = true := by
    simp only [Fresh, not_forall, not_and_or, not_not] at hfresh
    rcases hfresh with ⟨r, hr, hmention⟩
    rw [Tables.detectInconsistentState, List.any_eq_true]
    refine ⟨r, hr, ?_⟩
    rcases hmention with hserial | hlink
    . simp [hserial]
    . simp [hlink]
  apply Proc.run_exit
  simp [Proc.step, hpc, hdetect]

theorem run_start (hinv : s.Inv) (hsession : s.tables.session = [session]) (hproc : s.proc = none)
    {last : Serial} (hlatest : (env .getLatestSernum).latest = some last)
    (hmem : s.tables.IsLatestSernum (some last))
    : ∃ (s' : System) (p' : Proc), s'.Inv ∧ s'.proc = some p' ∧ p'.pc = .goodSerials ∧ p'.previousSerial = last ∧
        p'.currentSerial = last + 1 ∧ s'.snapshot = s.snapshot ∧
        s'.tables.update = s.tables.update ∧
        (Proc.start none).run env 15 s.tables = p'.run env 11 s'.tables := by
  have hstart : s.next (.start none) = some { s with
      proc := some (.start none), atStart := s.tables, forced := false, noChange := false } := by
    simp [System.next, hproc]
  have hinv := hinv.next hstart trivial
  have hinv := hinv.step (e := env .hasValidSession) (t := s.tables)
    (n := .goto { Proc.start none with pc := .getLatestSernum }) rfl (by simp [Proc.start])
    (by simp [Proc.step, Proc.start, hsession])
  have hinv := hinv.step (e := env .getLatestSernum) (t := s.tables)
    (n := .goto { Proc.start none with previousSerial := last, pc := .deleteIncompleteIncremental })
    rfl (by simp) (by simp [Proc.step, Proc.start, hlatest, hmem])
  have hinv := hinv.step (e := env .deleteIncompleteIncremental) rfl (by simp) rfl
  have hinv := hinv.step (e := env .deleteIncompleteFull) rfl (by simp) rfl
  refine ⟨_, _, hinv, rfl, rfl, rfl, rfl, rfl, rfl, ?_⟩
  simp [Proc.run, Proc.step, Proc.start, hsession, hlatest, hmem, Proc.computeCurrentSerial]

theorem StoreInv.eq_of_isLatestSernum {snapshot : Serial → List Prefix} {last : Option UpdateRow}
    (h : StoreInv snapshot last t) {latest : Option Serial} (hlatest : t.IsLatestSernum latest)
    : latest = last.map (·.serialNum) := by
  have hid := congrArg (Option.map Prod.fst) h.last_eq
  rw [Option.map_map, Option.map_map] at hid
  cases latest with
  | none =>
    have hnil : t.update = [] := hlatest
    rw [hnil] at hid
    exact hid
  | some =>
    rcases hlatest with ⟨_, hr, rfl, hle⟩
    have hgetLast := h.linked.mem_getLast?_of_createTime_le hr hle
    rw [hgetLast] at hid
    exact hid

/--
If every row is inserted in a later second than the row before it, then the latest serial number is that
of the row that was inserted last. The next default run that finds a change links its row to it, unless
its serial number is already in `rtr_update`, and then it fails and leaves `rtr_update` as it is.
-/
theorem latest_sernum_correct
    (hreach : ((System.lts session).restrict System.LaterSecond).Reachable s)
    (hproc : s.proc = none)
    : (∀ latest, s.tables.IsLatestSernum latest → latest = s.lastInserted.map (·.serialNum)) ∧
      ∀ last ∈ s.lastInserted, ∀ env : Pc → Env, s.tables.IsLatestSernum (env .getLatestSernum).latest →
        (Fresh s.tables (last.serialNum + 1) → s.Changed last.serialNum (env .insertFull).prefixes →
          ∃ t, (Proc.start none).run env 15 s.tables = some (t, true) ∧
            ∃ r ∈ t.update.getLast?, r.serialNum = last.serialNum + 1 ∧
              r.prevSerialNum = some last.serialNum) ∧
        (¬Fresh s.tables (last.serialNum + 1) →
          ∃ t, (Proc.start none).run env 15 s.tables = some (t, false) ∧ t.update = s.tables.update) := by
  have hinv := System.reachable_inv hreach
  have hlatest : ∀ latest, s.tables.IsLatestSernum latest →
      latest = s.lastInserted.map (·.serialNum) :=
    fun latest => hinv.store.eq_of_isLatestSernum
  refine ⟨hlatest, ?_⟩
  intro last hlast env hanswer
  have heq := hlatest _ hanswer
  rw [hlast, map_some] at heq
  rw [heq] at hanswer
  rcases run_start hinv (System.session_eq_of_reachable hreach.of_restrict) hproc heq hanswer with
    ⟨s', p', hinv', hproc', hpc, hprev, hcurrent, hsnapshot, hupdate, hrun⟩
  have hgood := run_goodSerials env hinv' hproc' hpc
  simp only [Fresh, Proc.Links, System.Changed, hupdate, hsnapshot, hprev, hcurrent] at hgood
  rw [hrun]
  refine ⟨?_, ?_⟩
  . intro hfresh hchanged
    rcases hgood.1 hfresh hchanged with ⟨t, ht, hlinks⟩
    exact ⟨t, ht, hlinks.last⟩
  . intro hfresh
    exact ⟨s'.tables, hgood.2 hfresh, hupdate⟩

def firstRun : List Event :=
  Event.run none (.ofPrefixes none 1000000 [[10, 0, 0, 0]]) 11

theorem latest_sernum_correct_firstRun
    : ∃ s, ((System.lts 0).restrict System.LaterSecond).Reachable s ∧ s.proc = none ∧
        ∃ t, (Proc.start none).run (fun _ => .ofPrefixes (some 1) 1000060 [[10, 0, 1, 0]]) 15 s.tables
            = some (t, true) ∧
          ∃ r ∈ t.update.getLast?, r.serialNum = 1 + 1 ∧ r.prevSerialNum = some 1 := by
  have hrun : ∃ s, ((System.lts 0).restrict System.LaterSecond).Reachable s ∧
      (s.proc = none ∧ s.lastInserted = some ⟨1, none, 1000000, true⟩ ∧
        s.tables.update = [⟨1, none, 1000000, true⟩] ∧
        s.snapshot 1 = [⟨65000, [10, 0, 0, 0], 24, 24⟩]) := by
    apply Lts.exists_reachable_restrict_of_foldlM firstRun
    decide
  rcases hrun with ⟨s, hreach, hproc, hlast, hupdate, hsnapshot⟩
  refine ⟨s, hreach, hproc, ?_⟩
  apply ((latest_sernum_correct hreach hproc).2 _ hlast _ _).1
  . simp [Fresh, hupdate]
  . refine ⟨⟨65000, [10, 0, 0, 0], 24, 24⟩, ?_⟩
    rw [hsnapshot]
    decide
  . simp [Tables.IsLatestSernum, Env.ofPrefixes, hupdate]

def runsInOneSecond : List Event :=
  firstRun ++ Event.run none (.ofPrefixes (some 1) 1000000 [[10, 0, 1, 0]]) 15

def runsBackwards : List Event :=
  Event.run (some (some 5)) (.ofPrefixes none 1000000 [[10, 0, 0, 0]]) 11 ++
    Event.run (some (some 4)) (.ofPrefixes (some 5) 1000060 [[10, 0, 1, 0]]) 15

theorem latest_sernum_refused
    : (∃ s, ((System.lts 0).restrict System.ClockMonotone).Reachable s ∧ s.proc = none ∧
        s.lastInserted.map (·.serialNum) = some 2 ∧ s.tables.IsLatestSernum (some 1) ∧
        (∃ q ∈ (Env.ofPrefixes (some 1) 1000060 [[10, 0, 2, 0]]).prefixes, q ∉ s.snapshot 2) ∧
        ((Proc.start none).run (fun _ => .ofPrefixes (some 1) 1000060 [[10, 0, 2, 0]]) 15
          s.tables).map Prod.snd = some false) ∧
      ∃ s, ((System.lts 0).restrict System.LaterSecond).Reachable s ∧ s.proc = none ∧
        s.lastInserted.map (·.serialNum) = some 4 ∧
        (∃ q ∈ (Env.ofPrefixes (some 4) 1000120 [[10, 0, 2, 0]]).prefixes, q ∉ s.snapshot 4) ∧
        ((Proc.start none).run (fun _ => .ofPrefixes (some 4) 1000120 [[10, 0, 2, 0]]) 15
          s.tables).map Prod.snd = some false := by
  constructor
  . apply Lts.exists_reachable_restrict_of_foldlM runsInOneSecond
    decide
  . apply Lts.exists_reachable_restrict_of_foldlM runsBackwards
    decide

end Rpstir.Rtr
