import Rpstir.Rtr.Lemmas.ResetQuery
import Rpstir.Rtr.SerialQuery

/-!
This module contains single calls of `db_rtr_serial_query_get_next` and `db_rtr_reset_query_get_next`,
and which of them return no PDUs before the query is done.
-/

namespace Rpstir.Rtr

open List Option

namespace SerialQuery

variable {pdus : List Pdu}

def returned (q : SerialQuery) : Bool :=
  q.pc = .getNext || q.pc = .done

/--
The rest of a call. Each statement finds tables of its own, since `rpki-rtr-update` may run between two
of them, and may fail. There is no result if the call has more statements.
-/
def call (maxRows : Nat) : List (Bool × Tables) → SerialQuery → Option SerialQuery
  | [], _ => none
  | (failed, t) :: stmts, q =>
    (q.step { maxRows := maxRows, failed := failed } t).bind fun q =>
      if q.returned then some q else call maxRows stmts q

def GoesOn (serial : Serial) : List (Bool × Tables) → Prop
  | (failed, t) :: (failed', t') :: _ =>
    failed = false ∧ ((t.findUpdate serial).bind (·.prevSerialNum)).isSome = true ∧ failed' = false
      ∧ (t'.readSerNumAsPrev serial).isSome = true
  | _ => False

def Drained (q : SerialQuery) (maxRows : Nat) : List (Bool × Tables) → Prop
  | (failed, t) :: stmts =>
    q.state.dataSent = true ∧ failed = false
      ∧ t.serialQryGetNext q.state.serNum q.state.firstRow maxRows = []
      ∧ GoesOn q.state.serNum stmts
  | [] => False

def Progresses (q q' : SerialQuery) : Prop :=
  q'.sent = q.sent → q'.pc = .done

variable {maxRows : Nat} {q q' : SerialQuery} {stmts : List (Bool × Tables)}

variable {t : Tables} {failed : Bool}

theorem call_cons (h : call maxRows ((failed, t) :: stmts) q = some q')
    : ∃ q1, q.step { maxRows := maxRows, failed := failed } t = some q1
      ∧ (q1.returned = true ∧ q' = q1 ∨ q1.returned = false ∧ call maxRows stmts q1 = some q') := by
  obtain ⟨q1, hstep, hrest⟩ := bind_eq_some_iff.mp h
  refine ⟨q1, hstep, ?_⟩
  split at hrest
  . next hreturned =>
    cases hrest
    exact .inl ⟨hreturned, rfl⟩
  . next hreturned => exact .inr ⟨Bool.not_eq_true _ ▸ hreturned, hrest⟩

theorem progresses_of_ne (hsent : q'.sent = q.sent ++ pdus) (hne : pdus ≠ [])
    : q.Progresses q' := by
  intro heq
  rw [hsent] at heq
  exact absurd (append_right_eq_self.mp heq) hne

theorem progresses_of_pc_done {q1 : SerialQuery}
    (h : q1.returned = true ∧ q' = q1 ∨ q1.returned = false ∧ call maxRows stmts q1 = some q')
    (hpc : q1.pc = .done)
    : q.Progresses q' := by
  rcases h with ⟨-, rfl⟩ | ⟨hreturned, -⟩
  . exact fun _ => hpc
  . simp [returned, hpc] at hreturned

theorem call_findNextSerNum (hpc : q.pc = .findNextSerNum pdus)
    (h : call maxRows ((failed, t) :: stmts) q = some q')
    : q.Progresses q' ↔ ¬(pdus = [] ∧ failed = false
        ∧ (t.readSerNumAsPrev q.state.serNum).isSome = true) := by
  obtain ⟨_, hstep, hcase⟩ := call_cons h
  rw [step, hpc] at hstep
  dsimp only at hstep
  split at hstep
  . next next hnext =>
    cases hstep
    have hfailed : failed = false := by
      cases failed with
      | false => rfl
      | true => cases hnext
    rw [hfailed] at hnext
    rcases hcase with ⟨-, rfl⟩ | ⟨hreturned, -⟩
    . have hisSome : (t.readSerNumAsPrev q.state.serNum).isSome = true := by
        rw [show t.readSerNumAsPrev q.state.serNum = some next from hnext]
        rfl
      constructor
      . rintro hprogress ⟨rfl, -, -⟩
        exact absurd (hprogress (append_nil _)) (by simp)
      . intro hne
        apply progresses_of_ne rfl
        intro hpdus
        exact hne ⟨hpdus, hfailed, hisSome⟩
    . cases hreturned
  next hnext =>
  cases hstep
  refine iff_of_true (progresses_of_pc_done hcase rfl) ?_
  rintro ⟨-, rfl, hisSome⟩
  rw [show t.readSerNumAsPrev q.state.serNum = none from hnext] at hisSome
  cases hisSome

theorem call_checkSerNum (hpc : q.pc = .checkSerNum pdus)
    (h : call maxRows stmts q = some q')
    : q.Progresses q' ↔ ¬(pdus = [] ∧ GoesOn q.state.serNum stmts) := by
  match stmts with
  | [] => cases h
  | (failed, t) :: stmts =>
    obtain ⟨_, hstep, hcase⟩ := call_cons h
    rw [step, hpc] at hstep
    dsimp only at hstep
    split at hstep
    . next hfailed =>
      cases hstep
      refine iff_of_true (progresses_of_pc_done hcase rfl) ?_
      rintro ⟨-, hgoes⟩
      cases stmts with
      | nil => exact hgoes
      | cons => exact absurd hgoes.1 (by simp [hfailed])
    next hfailed =>
    split at hstep
    . next hvalid =>
      cases hstep
      rcases hcase with ⟨hreturned, -⟩ | ⟨-, hcall⟩
      . cases hreturned
      match stmts with
      | [] => cases hcall
      | (failed', t') :: stmts =>
        have hiff := call_findNextSerNum rfl hcall
        rw [Progresses] at hiff ⊢
        rw [hiff, GoesOn]
        simp [hfailed, hvalid]
    next hvalid =>
    cases hstep
    refine iff_of_true (progresses_of_pc_done hcase rfl) ?_
    rintro ⟨-, hgoes⟩
    cases stmts with
    | nil => exact hgoes
    | cons => exact hvalid hgoes.2.1

theorem call_doQuery {rows : List IncrementalRow} (hmaxRows : 0 < maxRows)
    (h : (q.doQuery maxRows pdus rows).returned = true ∧ q' = q.doQuery maxRows pdus rows
      ∨ (q.doQuery maxRows pdus rows).returned = false
        ∧ call maxRows stmts (q.doQuery maxRows pdus rows) = some q')
    : q.Progresses q' ↔ ¬(pdus = [] ∧ rows = [] ∧ GoesOn q.state.serNum stmts) := by
  unfold doQuery at h
  split at h
  . next hfill =>
    refine iff_of_true (progresses_of_pc_done h rfl) ?_
    rintro ⟨-, rfl, -⟩
    cases hfill
  next new hfill =>
  have hnew : new = [] ↔ rows = [] := by
    rw [mapM_fillPduIpPrefix hfill, map_eq_nil_iff]
  dsimp only at h
  split at h
  . next hfull =>
    rcases h with ⟨-, rfl⟩ | ⟨hreturned, -⟩
    . have hne : pdus ++ new ≠ [] := ne_nil_of_length_pos (by omega)
      refine iff_of_true (progresses_of_ne rfl hne) ?_
      rintro ⟨rfl, hrows, -⟩
      exact hne (hnew.mpr hrows)
    . cases hreturned
  rcases h with ⟨hreturned, -⟩ | ⟨-, hcall⟩
  . cases hreturned
  . have hiff := call_checkSerNum rfl hcall
    rw [Progresses] at hiff ⊢
    rw [hiff, append_eq_nil_iff, hnew, and_assoc]

theorem progresses_call_serialQryGetNext (hpc : q.pc = .serialQryGetNext maxRows pdus)
    (hpdus : pdus ≠ []) (hmaxRows : 0 < maxRows) (h : call maxRows stmts q = some q')
    : q.Progresses q' := by
  match stmts with
  | [] => cases h
  | (failed, t) :: stmts =>
    obtain ⟨_, hstep, hcase⟩ := call_cons h
    rw [step, hpc] at hstep
    dsimp only at hstep
    split at hstep
    . cases hstep
      exact progresses_of_pc_done hcase rfl
    . cases hstep
      rw [call_doQuery hmaxRows hcase]
      exact fun hnil => hpdus hnil.1

theorem progresses_call_preQuery {e : SerialQueryEnv} (hmaxRows : 2 ≤ maxRows)
    (he : e.maxRows = maxRows) (h : (q.preQuery e t).returned = true ∧ q' = q.preQuery e t
      ∨ (q.preQuery e t).returned = false ∧ call maxRows stmts (q.preQuery e t) = some q')
    : q.Progresses q' := by
  unfold preQuery at h
  rw [he, if_neg (by omega)] at h
  dsimp only at h
  split at h
  . exact progresses_of_pc_done h rfl
  split at h
  . exact progresses_of_pc_done h rfl
  split at h
  . exact progresses_of_pc_done h rfl
  split at h
  . next _ =>
    split at h
    . exact progresses_of_pc_done h rfl
    rcases h with ⟨hreturned, -⟩ | ⟨-, hcall⟩
    . cases hreturned
    . have hprogresses := progresses_call_serialQryGetNext rfl (cons_ne_nil _ _)
        (Nat.lt_of_lt_of_le Nat.two_pos hmaxRows) hcall
      exact hprogresses
  . exact progresses_of_pc_done h rfl

theorem progresses_call_iff (hpc : q.pc = .getNext) (hmaxRows : 2 ≤ maxRows)
    (h : call maxRows stmts q = some q')
    : q.Progresses q' ↔ ¬q.Drained maxRows stmts := by
  match stmts with
  | [] => cases h
  | (failed, t) :: stmts =>
    obtain ⟨_, hstep, hcase⟩ := call_cons h
    rw [step, hpc] at hstep
    dsimp only at hstep
    split at hstep
    . next hsent =>
      split at hstep
      . next hfailed =>
        cases hstep
        refine iff_of_true (progresses_of_pc_done hcase rfl) ?_
        intro hdrained
        exact absurd hdrained.2.1 (by simp [hfailed])
      . next hfailed =>
        cases hstep
        rw [call_doQuery (by omega) hcase, Drained]
        simp [hsent, hfailed]
    . next hsent =>
      cases hstep
      refine iff_of_true ?_ fun hdrained => hsent hdrained.1
      exact progresses_call_preQuery hmaxRows rfl hcase

end SerialQuery

namespace Query

def returned (q : Query) : Bool :=
  q.pc = .getSession || q.pc = .done

def call (maxRows : Nat) : List (Bool × Tables) → Query → Option Query
  | [], _ => none
  | (failed, t) :: stmts, q =>
    (q.step { latest := none, maxRows := maxRows, failed := failed } t).bind fun q =>
      if q.returned then some q else call maxRows stmts q

def Progresses (q q' : Query) : Prop :=
  q'.sent = q.sent → q'.pc = .done

variable {maxRows : Nat}

theorem progresses_fillPdus (hmaxRows : 0 < maxRows) (q : Query) (session : Session)
    (rows : List Prefix)
    : (q.fillPdus session maxRows rows).returned = true
      ∧ q.Progresses (q.fillPdus session maxRows rows) := by
  unfold fillPdus
  dsimp only
  split
  . exact ⟨rfl, fun _ => rfl⟩
  generalize (if q.state.dataSent then [] else [Pdu.cacheResponse session]) = header
  split
  . next hfull =>
    refine ⟨rfl, ?_⟩
    intro heq
    have hnil := append_right_eq_self.mp heq
    rw [hnil] at hfull
    exact absurd hfull hmaxRows.ne
  . exact ⟨rfl, fun _ => rfl⟩

theorem progresses_call {q q' : Query} {stmts : List (Bool × Tables)} (hpc : q.pc = .getSession)
    (h : call maxRows stmts q = some q') : q.Progresses q' := by
  cases stmts with
  | nil => cases h
  | cons _ stmts =>
    obtain ⟨_, hstep, hrest⟩ := bind_eq_some_iff.mp h
    rw [step, hpc] at hstep
    dsimp only at hstep
    split at hstep
    . cases hstep
      cases hrest
      exact fun _ => rfl
    next hmaxRows =>
    split at hstep
    . cases hstep
      cases hrest
      exact fun _ => rfl
    split at hstep
    . cases hstep
      cases hrest
      exact fun _ => rfl
    split at hstep
    . cases hstep
      rw [if_neg (by simp [returned])] at hrest
      cases stmts with
      | nil => cases hrest
      | cons =>
        obtain ⟨_, hstep, hrest⟩ := bind_eq_some_iff.mp hrest
        simp only [step] at hstep
        split at hstep
        . cases hstep
          cases hrest
          exact fun _ => rfl
        cases hstep
        have hpos : 0 < maxRows := by
          rw [Nat.not_lt] at hmaxRows
          exact Nat.lt_of_lt_of_le Nat.two_pos hmaxRows
        have hfill := progresses_fillPdus hpos
        rw [if_pos (hfill _ _ _).1] at hrest
        cases hrest
        exact (hfill _ _ _).2
    . cases hstep
      cases hrest
      exact fun _ => rfl

end Query

/--
A call for at least two rows returns PDUs or ends the query, except for a call that finds a serial number
without more rows and goes on to the next one.
-/
theorem get_next_progress_iff {maxRows : Nat} (hmaxRows : 2 ≤ maxRows)
    : (∀ (q q' : SerialQuery) (stmts : List (Bool × Tables)), q.pc = .getNext →
        SerialQuery.call maxRows stmts q = some q' →
        ((q'.sent = q.sent → q'.pc = .done) ↔ ¬q.Drained maxRows stmts))
      ∧ ∀ (q q' : Query) (stmts : List (Bool × Tables)), q.pc = .getSession →
        Query.call maxRows stmts q = some q' → q'.sent = q.sent → q'.pc = .done := by
  constructor
  . intro q q' stmts hpc hcall
    exact SerialQuery.progresses_call_iff hpc hmaxRows hcall
  . intro q q' stmts hpc hcall
    exact Query.progresses_call hpc hcall

def twoSerials : Tables where
  session := [7]
  update := [⟨1, none, 0, true⟩, ⟨2, some 1, 0, true⟩, ⟨3, some 2, 0, true⟩]
  full := []
  incremental := [⟨2, true, ⟨64500, [10, 0, 0, 0], 8, 8⟩⟩, ⟨3, true, ⟨64500, [11, 0, 0, 0], 8, 8⟩⟩]

theorem get_next_progress_iff_twoSerials
    : ∃ q q', (SerialQuery.start 1).step { maxRows := 2 } twoSerials = some q
      ∧ SerialQuery.call 2 (replicate 2 (false, twoSerials)) q = some q'
      ∧ ((q'.sent = q.sent → q'.pc = .done)
          ↔ ¬q.Drained 2 (replicate 2 (false, twoSerials))) := by
  refine ⟨_, _, rfl, rfl, ?_⟩
  exact (@get_next_progress_iff 2 (Nat.le_refl 2)).1 _ _ _ rfl rfl

theorem serial_get_next_empty
    : ∃ q q' q'', (SerialQuery.start 1).step { maxRows := 2 } twoSerials = some q
      ∧ SerialQuery.call 2 (replicate 2 (false, twoSerials)) q = some q'
      ∧ SerialQuery.call 2 (replicate 3 (false, twoSerials)) q' = some q''
      ∧ q'.pc = .getNext ∧ q''.sent = q'.sent ∧ q''.pc ≠ .done := by
  refine ⟨_, _, _, rfl, rfl, rfl, rfl, rfl, ?_⟩
  intro hpc
  cases hpc

end Rpstir.Rtr
