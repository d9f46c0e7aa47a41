import Rpstir.Rtr.Lemmas.Full
import Rpstir.Rtr.ResetQuery

/-!
This module contains the proof that a reset query sends exactly the prefixes of its serial number, if
nothing deletes them while it reads.
-/

namespace Rpstir.Rtr

open List Option

variable {s s' : System} {serial : Serial} {t : Tables}

theorem Tables.fullPrefixes_nodup (h : t.full.Nodup) : (t.fullPrefixes serial).Nodup := by
  apply h.filterMap
  rintro ⟨_, _⟩ ⟨_, _⟩ _ h1 h2
  simp only [mem_def, ite_none_right_eq_some, some.injEq] at h1 h2
  rw [h1.1, h1.2, h2.1, h2.2]

def Pc.afterDeleteOldFull : Pc → Bool
  | .deleteOldUpdate | .ignoreOldIncremental | .deleteOldIncremental => true
  | _ => false

structure Protected (s : System) (serial : Serial) : Prop where
  mem_update : ∃ r ∈ s.tables.update, r.serialNum = serial
  fullOf : FullOf s.snapshot s.tables serial
  kept : ∀ p ∈ s.proc, p.pc.afterDeleteOldFull = true →
    serial = p.currentSerial ∨ serial = p.previousSerial

variable {ev : Event} {prefixes full rows : List Prefix} {q : Query} {qs qs' : QuerySystem}

namespace Protected

theorem of_hasFull (hinv : s.FullInv) {r : UpdateRow} (hr : r ∈ s.tables.update) (hfull : r.hasFull = true)
    : Protected s r.serialNum where
  mem_update := ⟨r, hr, rfl⟩
  fullOf := hinv.store.fullOf r hr hfull
  kept := by
    intro p hp hpc
    have hproc := hinv.proc p hp
    rcases p with ⟨pc, _, _, _, _, _⟩
    cases pc <;> simp only [Pc.afterDeleteOldFull, Bool.false_eq_true] at hpc
    all_goals exact hproc r hr hfull

section

variable (h : Protected s serial)

include h

theorem ne_of_fresh {current : Serial} (hfresh : Fresh s.tables current)
    : serial ≠ current := by
  rcases h.mem_update with ⟨r, hr, rfl⟩
  exact (hfresh r hr).1

theorem of_unchanged {proc : Option Proc}
    (hupdate : ∀ r ∈ s.tables.update, ∃ r' ∈ s'.tables.update, r'.serialNum = r.serialNum)
    (hfull : ∀ p, ⟨serial, p⟩ ∈ s'.tables.full ↔ (⟨serial, p⟩ : FullRow) ∈ s.tables.full)
    (hsnapshot : s'.snapshot serial = s.snapshot serial) (hproc : s'.proc = proc)
    (hkept : ∀ p ∈ proc, p.pc.afterDeleteOldFull = true →
      serial = p.currentSerial ∨ serial = p.previousSerial)
    : Protected s' serial where
  mem_update := by
    rcases h.mem_update with ⟨r, hr, heq⟩
    rcases hupdate r hr with ⟨r', hr', heq'⟩
    exact ⟨r', hr', heq'.trans heq⟩
  fullOf := by
    intro p
    rw [hfull, hsnapshot]
    exact h.fullOf p
  kept := by
    rw [hproc]
    exact hkept

theorem statement (hinv : s.FullInv) {e : Env} {p : Proc} (hp : s.proc = some p)
    {n : Next} (hstep : p.step e s.tables = some (t, n))
    (hkept : p.pc = .deleteOldFull → serial = p.currentSerial ∨ serial = p.previousSerial)
    : Protected { s.record e p t with tables := t, proc := n.proc } serial := by
  have hproc := hinv.proc p hp
  have hkept' := h.kept p hp
  have hsame : ∀ r ∈ s.tables.update, ∃ r' ∈ s.tables.update, r'.serialNum = r.serialNum :=
    fun r hr => ⟨r, hr, rfl⟩
  rcases p with ⟨pc, _, firstTime, previousSerial, currentSerial, _⟩
  cases pc with
  | hasValidSession | getLatestSernum | goodSerials | hasIncrementalChanges =>
    simp only [Proc.step] at hstep
    split at hstep <;> cases hstep
    all_goals
      exact h.of_unchanged hsame (fun _ => Iff.rfl) rfl rfl (by simp [Next.proc, Pc.afterDeleteOldFull])
  | deleteIncompleteIncremental =>
    cases hstep
    exact h.of_unchanged hsame (fun _ => Iff.rfl) rfl rfl (by rintro p ⟨rfl⟩ ⟨⟩)
  | deleteIncompleteFull =>
    cases hstep
    refine h.of_unchanged hsame ?_ rfl rfl ?_
    . intro q
      simp only [Tables.deleteIncompleteFull, mem_filter, Tables.findUpdate_isSome,
        and_iff_left_iff_imp]
      intro _
      exact h.mem_update
    intro p hp'
    simp only [Proc.computeCurrentSerial] at hp'
    split at hp' <;> cases hp'
    all_goals
      cases firstTime <;> simp [Pc.afterDeleteOldFull]
  | insertFull =>
    have hne := h.ne_of_fresh hproc.2
    have hfull : ∀ q, ⟨serial, q⟩ ∈ (s.tables.insertFull currentSerial e.prefixes).full
        ↔ (⟨serial, q⟩ : FullRow) ∈ s.tables.full := by
      intro q
      simp [hne]
    simp only [Proc.step] at hstep
    split at hstep <;> cases hstep
    all_goals exact h.of_unchanged hsame hfull (Function.update_of_ne hne _ _) rfl (by rintro p ⟨rfl⟩ ⟨⟩)
  | insertAnnouncements
  | insertWithdrawals =>
    simp only [Proc.step] at hstep
    split at hstep
    . cases hstep
      exact h.of_unchanged hsame (fun _ => Iff.rfl) rfl rfl (by simp [Next.proc])
    . next hinsert =>
      cases hstep
      rcases Tables.insertIncremental_eq_some hinsert with ⟨_, rfl, -, -⟩
      exact h.of_unchanged hsame (fun _ => Iff.rfl) rfl rfl (by rintro p ⟨rfl⟩ ⟨⟩)
  | insertUpdate =>
    simp only [Proc.step] at hstep
    split at hstep
    . cases hstep
      exact h.of_unchanged hsame (fun _ => Iff.rfl) rfl rfl (by simp [Next.proc])
    next hinsert =>
    cases hstep
    rw [Tables.insertUpdate_eq_some hinsert]
    refine h.of_unchanged ?_ (fun _ => Iff.rfl) rfl rfl (by rintro p ⟨rfl⟩ ⟨⟩)
    intro r hr
    exact ⟨r, mem_append_left _ hr, rfl⟩
  | deleteFull =>
    cases hstep
    refine h.of_unchanged hsame ?_ rfl rfl (by rintro p ⟨rfl⟩ ⟨⟩)
    intro q
    simp [Tables.deleteUselessFull, h.ne_of_fresh hproc]
  | ignoreOldFull =>
    cases hstep
    refine h.of_unchanged ?_ (fun _ => Iff.rfl) rfl rfl (by rintro p ⟨rfl⟩ ⟨⟩)
    intro r hr
    refine ⟨_, List.mem_map_of_mem hr, ?_⟩
    split <;> rfl
  | deleteOldFull =>
    cases hstep
    refine h.of_unchanged hsame ?_ rfl rfl (by rintro p ⟨rfl⟩ _; exact hkept rfl)
    intro q
    rcases hkept rfl with hkept | hkept <;> simp [Tables.deleteOldFull, hkept]
  | deleteOldUpdate =>
    cases hstep
    refine ⟨?_, h.fullOf, by rintro p ⟨rfl⟩ _; exact hkept' rfl⟩
    rcases h.mem_update with ⟨r, hr, rfl⟩
    refine ⟨r, ?_, rfl⟩
    rw [Tables.deleteOldUpdate, mem_filter]
    refine ⟨hr, ?_⟩
    rcases hkept' rfl with hkept | hkept <;> simp [hkept]
  | ignoreOldIncremental =>
    cases hstep
    refine h.of_unchanged ?_ (fun _ => Iff.rfl) rfl rfl (by rintro p ⟨rfl⟩ _; exact hkept' rfl)
    intro r hr
    refine ⟨_, List.mem_map_of_mem hr, ?_⟩
    split <;> rfl
  | deleteOldIncremental =>
    cases hstep
    exact h.of_unchanged hsame (fun _ => Iff.rfl) rfl rfl (by simp [Next.proc])

theorem next (hinv : s.FullInv) {ev : Event} (hnext : s.next ev = some s')
    (hkept : ∀ e, ev = .statement e → ∀ p ∈ s.proc, p.pc = .deleteOldFull →
      serial = p.currentSerial ∨ serial = p.previousSerial)
    : Protected s' serial := by
  cases ev with
  | start =>
    rcases System.next_start hnext with ⟨-, rfl⟩
    exact ⟨h.mem_update, h.fullOf, by rintro p ⟨rfl⟩ ⟨⟩⟩
  | kill =>
    rw [System.next_kill hnext]
    exact ⟨h.mem_update, h.fullOf, by simp⟩
  | statement e =>
    rcases System.next_statement hnext with ⟨p, _, _, hp, hstep, rfl⟩
    exact h.statement hinv hp hstep (hkept e rfl p hp)

theorem snapshot_eq (hinv : s.FullInv) (hnext : s.next ev = some s')
    : s'.snapshot serial = s.snapshot serial := by
  cases ev with
  | start =>
    rcases System.next_start hnext with ⟨-, rfl⟩
    rfl
  | kill => rw [System.next_kill hnext]
  | statement =>
    rcases System.next_statement hnext with ⟨p, _, _, hp, _, rfl⟩
    have hproc := hinv.proc p hp
    dsimp only [System.record]
    split
    . next hpc =>
      rw [ProcFull, hpc] at hproc
      exact Function.update_of_ne (h.ne_of_fresh hproc.2) _ _
    . rfl
    . rfl
    . rfl

end

end Protected

theorem announced_append (pdus pdus' : List Pdu)
    : announced (pdus ++ pdus') = announced pdus ++ announced pdus' := by
  simp [announced]

@[simp]
theorem announced_map_ipPrefix (prefixes : List Prefix)
    : announced (prefixes.map fun p => .ipPrefix p true) = prefixes := by
  simp [announced, filterMap_map]

theorem fillPduIpPrefix_eq_some {p : Prefix} {isAnnounce : Bool} {pdu : Pdu}
    (h : fillPduIpPrefix p isAnnounce = some pdu) : pdu = .ipPrefix p isAnnounce := by
  unfold fillPduIpPrefix at h
  split at h <;> simp at h
  all_goals exact h.symm

theorem mapM_fillPduIpPrefix {ρ : Type} {pfx : ρ → Prefix} {isAnnounce : ρ → Bool} {rows : List ρ}
    {pdus : List Pdu} (h : rows.mapM (fun r => fillPduIpPrefix (pfx r) (isAnnounce r)) = some pdus)
    : pdus = rows.map fun r => .ipPrefix (pfx r) (isAnnounce r) := by
  induction rows generalizing pdus with
  | nil => simpa using h.symm
  | cons r rows ih =>
    rw [mapM_cons] at h
    rcases bind_eq_some_iff.mp h with ⟨_, hpdu, h⟩
    rcases bind_eq_some_iff.mp h with ⟨_, hpdus, h⟩
    rw [Option.pure_def, some.injEq] at h
    rw [← h, fillPduIpPrefix_eq_some hpdu, ih hpdus, map_cons]

structure Progress (prefixes : List Prefix) (firstRow : Option Prefix) (sent : List Pdu) : Prop where
  readUpTo : Paging.ReadUpTo (announced sent) prefixes
  firstRow_eq : firstRow = (announced sent).getLast?

def Ended (prefixes : List Prefix) (q : Query) : Prop :=
  (∃ code, q.sent.getLast? = some (.errorReport code)) ∨
    ((∃ session, q.sent.getLast? = some (.endOfData session q.state.serNum)) ∧
      (announced q.sent).Nodup ∧ ∀ p, p ∈ announced q.sent ↔ p ∈ prefixes)

theorem Ended.fail (prefixes : List Prefix) (q : Query) (code : ErrorCode)
    : Ended prefixes (q.fail code) := by
  left
  exact ⟨code, by simp [Query.fail]⟩

@[simp]
theorem Query.fillPdus_serNum (q : Query) (session : Session) (maxRows : Nat) (rows : List Prefix)
    : (q.fillPdus session maxRows rows).state.serNum = q.state.serNum := by
  unfold fillPdus
  dsimp only
  split
  . rfl
  . generalize (if q.state.dataSent then [] else [Pdu.cacheResponse session]) = header
    split <;> rfl

theorem Progress.fillPdus (h : Progress prefixes q.state.firstRow q.sent) (session : Session)
    {maxRows : Nat} (hmaxRows : 2 ≤ maxRows) (hnodup : full.Nodup)
    (hfull : ∀ p, p ∈ full ↔ p ∈ prefixes)
    (hrows : rows = Paging.page full q.state.firstRow (if q.state.dataSent then maxRows else maxRows - 1))
    : ((q.fillPdus session maxRows rows).pc = .done ∧
        Ended prefixes (q.fillPdus session maxRows rows)) ∨
      ((q.fillPdus session maxRows rows).pc = .getSession ∧
        Progress prefixes (q.fillPdus session maxRows rows).state.firstRow
          (q.fillPdus session maxRows rows).sent) := by
  generalize hlimit : (if q.state.dataSent then maxRows else maxRows - 1) = limit at hrows
  rw [h.firstRow_eq] at hrows
  have hpage := (h.readUpTo.congr hfull).page hnodup limit
  rw [← hrows] at hpage
  unfold Query.fillPdus
  dsimp only
  split
  . left
    exact ⟨rfl, Ended.fail prefixes q .internalError⟩
  next hpdus =>
  rw [mapM_fillPduIpPrefix hpdus]
  generalize hheader : (if q.state.dataSent then [] else [Pdu.cacheResponse session]) = header
  have hannounced : announced header = [] := by
    rw [← hheader]
    split <;> rfl
  have hlength : header.length + limit = maxRows := by
    rw [← hheader, ← hlimit]
    split
    . simp
    . rw [length_singleton]
      omega
  split
  . right
    refine ⟨rfl, ?_⟩
    constructor
    . simp only [announced_append, announced_map_ipPrefix, hannounced, nil_append]
      apply hpage.1.congr
      intro p
      exact (hfull p).symm
    . simp only [announced_append, announced_map_ipPrefix, hannounced, nil_append]
      rw [getLast?_append, h.firstRow_eq]
      cases rows.getLast? <;> rfl
  next hne =>
  left
  refine ⟨rfl, ?_⟩
  right
  refine ⟨⟨session, by simp⟩, ?_⟩
  have hlt : rows.length < limit := by
    have hle : rows.length ≤ limit := by
      rw [hrows]
      exact length_take_le _ _
    rw [length_append, length_map] at hne
    omega
  have hsent : announced (q.sent ++ (header ++ rows.map fun p => .ipPrefix p true) ++
      [.endOfData session q.state.serNum]) = announced q.sent ++ rows := by
    simp only [announced_append, announced_map_ipPrefix, hannounced, nil_append]
    simp [announced]
  simp only [hsent]
  refine ⟨?_, ?_⟩
  . exact hpage.1.sorted.imp ne_of_lt
  . intro p
    rw [← hfull p]
    exact ⟨hpage.1.subset p, hpage.2 hlt p⟩

def QueryInv (s : QuerySystem) : Prop :=
  match s.query.pc with
  | .getLatestSernum => s.query = .start
  | .readSerNumAsCurrent =>
    s.query.sent = [] ∧ s.query.state.firstRow = none ∧ s.query.state.notReady = false
  | .getSession =>
    s.query.state.notReady = false →
      Protected s.system s.query.state.serNum ∧
      Progress (s.system.snapshot s.query.state.serNum) s.query.state.firstRow s.query.sent
  | .resetQryGetNext _ maxRows =>
    2 ≤ maxRows ∧ s.query.state.notReady = false ∧
      Protected s.system s.query.state.serNum ∧
      Progress (s.system.snapshot s.query.state.serNum) s.query.state.firstRow s.query.sent
  | .done => Ended s.expected s.query

namespace QueryInv

variable {qs : QuerySystem}

theorem update (h : QueryInv qs) (hinv : qs.system.FullInv) (hnext : qs.system.next ev = some s')
    (hok : qs.KeepsQueried (.update ev)) : QueryInv { qs with system := s' } := by
  have hkeep : ∀ serial, serial = qs.query.state.serNum → qs.query.reading = true →
      Protected qs.system serial ∧
        Progress (qs.system.snapshot serial) qs.query.state.firstRow qs.query.sent →
      Protected s' serial ∧ Progress (s'.snapshot serial) qs.query.state.firstRow qs.query.sent := by
    rintro serial rfl hreading ⟨hprotected, hprogress⟩
    rw [hprotected.snapshot_eq hinv hnext]
    refine ⟨hprotected.next hinv hnext ?_, hprogress⟩
    rintro _ rfl p hp hpc
    exact hok p hp hpc hreading
  unfold QueryInv at h ⊢
  dsimp only
  split at h
  . exact h
  . exact h
  . next hpc =>
    intro hready
    apply hkeep _ rfl _ (h hready)
    simp [Query.reading, hready, hpc]
  . next hpc =>
    refine ⟨h.1, h.2.1, ?_⟩
    apply hkeep _ rfl _ h.2.2
    simp [Query.reading, h.2.1, hpc]
  . exact h

theorem query (h : QueryInv qs) (hinv : qs.system.FullInv) {e : QueryEnv}
    (hstep : qs.query.step e qs.system.tables = some q)
    : QueryInv { qs with query := q, expected := qs.system.snapshot q.state.serNum } := by
  rcases qs with ⟨system, ⟨pc, state, _⟩, expected⟩
  cases pc with
  | getLatestSernum =>
    rcases h with ⟨rfl, rfl⟩
    simp only [Query.step] at hstep
    split at hstep
    . cases hstep
      exact Ended.fail _ _ _
    split at hstep
    . split at hstep <;> cases hstep
      . simp [QueryInv]
      . simp [QueryInv]
    . contradiction
  | readSerNumAsCurrent =>
    rcases h with ⟨hsent, hfirst, hready⟩
    dsimp only at hsent hfirst hready
    simp only [Query.step] at hstep
    split at hstep
    . cases hstep
      exact Ended.fail _ _ _
    next hr =>
    rw [ite_none_left_eq_some] at hr
    split at hstep
    . next hfull =>
      -- Here the query has seen that the row of its serial number has full data.
      cases hstep
      intro _
      have hmem := Tables.findUpdate_eq_some hr.2
      refine ⟨?_, ?_⟩
      . rw [← hmem.2]
        exact Protected.of_hasFull hinv hmem.1 hfull
      constructor
      . simp only [hsent]
        exact Paging.ReadUpTo.nil
      . simp only [hsent, hfirst]
        rfl
    . cases hstep
      simp [QueryInv]
  | getSession =>
    simp only [Query.step] at hstep
    split at hstep
    . cases hstep
      exact Ended.fail _ _ _
    next hmaxRows =>
    split at hstep
    . cases hstep
      exact Ended.fail _ _ _
    next hready =>
    split at hstep
    . cases hstep
      exact Ended.fail _ _ _
    split at hstep <;> cases hstep
    . rw [Bool.not_eq_true] at hready
      exact ⟨by omega, hready, h hready⟩
    . exact Ended.fail _ _ _
  | resetQryGetNext session =>
    rcases h with ⟨hmaxRows, hready, hprotected, hprogress⟩
    simp only [Query.step] at hstep
    split at hstep
    . cases hstep
      exact Ended.fail _ _ _
    rw [some.injEq] at hstep
    have hfull : ∀ p, p ∈ system.tables.fullPrefixes state.serNum ↔ p ∈ system.snapshot state.serNum := by
      intro p
      rw [Tables.mem_fullPrefixes]
      exact hprotected.fullOf p
    have hnew := Progress.fillPdus hprogress session hmaxRows
      (Tables.fullPrefixes_nodup hinv.store.nodup) hfull rfl
    rcases hnew with ⟨hpc, hended⟩ | ⟨hpc, hprogress⟩
    . rw [← hstep]
      simp only [QueryInv, Tables.resetQryGetNext, hpc, Query.fillPdus_serNum]
      exact hended
    . rw [← hstep]
      simp only [QueryInv, Tables.resetQryGetNext, hpc, Query.fillPdus_serNum]
      exact fun _ => ⟨hprotected, hprogress⟩
  | done => simp [Query.step] at hstep

end QueryInv

theorem QuerySystem.next_eq_some {ev : QueryEvent} (h : qs.next ev = some qs')
    : (∃ ev' s', ev = .update ev' ∧ qs.system.next ev' = some s' ∧ qs' = { qs with system := s' }) ∨
      (∃ e q, ev = .query e ∧ qs.query.step e qs.system.tables = some q ∧
        qs' = { qs with query := q, expected := qs.system.snapshot q.state.serNum }) := by
  cases ev with
  | update ev =>
    rcases map_eq_some_iff.mp h with ⟨s', hs', rfl⟩
    exact Or.inl ⟨ev, s', rfl, hs', rfl⟩
  | query e =>
    rcases map_eq_some_iff.mp h with ⟨q, hq, rfl⟩
    exact Or.inr ⟨e, q, rfl, hq, rfl⟩

theorem QuerySystem.reachable_inv {session : Session}
    (hreach : (QuerySystem.lts session).Reachable qs) : qs.system.FullInv := by
  apply hreach.invariant
  . rintro qs rfl
    exact .init session
  . intro qs _ _ hinv hstep
    rcases next_eq_some hstep with ⟨_, _, -, hs', rfl⟩ | ⟨_, _, -, -, rfl⟩
    . exact hinv.next hs'
    . exact hinv

def oneRunBetweenPages : List QueryEvent :=
  (Event.run none (.ofPrefixes none 1000000 [[10, 0, 0, 0], [10, 0, 1, 0]]) 11).map .update ++
    replicate 4 (.query ⟨some 1, 2, false⟩) ++
    (Event.run none (.ofPrefixes (some 1) 1000060 [[10, 0, 2, 0]]) 15).map .update ++
    replicate 2 (.query ⟨some 1, 3, false⟩)

def twoRunsBetweenPages : List QueryEvent :=
  (Event.run none (.ofPrefixes none 1000000 [[10, 0, 0, 0], [10, 0, 1, 0]]) 11).map .update ++
    replicate 4 (.query ⟨some 1, 2, false⟩) ++
    (Event.run none (.ofPrefixes (some 1) 1000060 [[10, 0, 2, 0]]) 15).map .update ++
    (Event.run none (.ofPrefixes (some 2) 1000120 [[10, 0, 3, 0]]) 15).map .update ++
    replicate 2 (.query ⟨some 1, 2, false⟩)

end Rpstir.Rtr
