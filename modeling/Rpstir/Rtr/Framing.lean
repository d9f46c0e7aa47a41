import Rpstir.Rtr.SerialQuery

/-!
This module contains the form of the answer to a query. The tables may change in any way between the
statements of a query.
-/

namespace Rpstir.Rtr

open List Option

inductive Answer where
  | fresh
  | opened
  | closed
  deriving DecidableEq, Repr

variable {pdus : List Pdu}

namespace Answer

def next : Answer → Pdu → Option Answer
  | fresh, .cacheResponse _ => some opened
  | fresh, .cacheReset => some closed
  | fresh, .errorReport _ => some closed
  | opened, .ipPrefix _ _ => some opened
  | opened, .endOfData _ _ => some closed
  | opened, .errorReport _ => some closed
  | _, _ => none

def run (a : Answer) (pdus : List Pdu) : Option Answer :=
  pdus.foldlM next a

@[simp]
theorem run_nil (a : Answer) : a.run [] = some a := rfl

@[simp]
theorem run_cons (a : Answer) (pdu : Pdu) (pdus : List Pdu)
    : a.run (pdu :: pdus) = (a.next pdu).bind (·.run pdus) := by
  rw [run, foldlM_cons]
  rfl

theorem run_append (a : Answer) (pdus pdus' : List Pdu)
    : a.run (pdus ++ pdus') = (a.run pdus).bind (·.run pdus') := by
  rw [run, foldlM_append]
  rfl

variable {a a' : Answer}

theorem run_append_of_run (h : a.run pdus = some a') (pdus' : List Pdu)
    : a.run (pdus ++ pdus') = a'.run pdus' := by
  rw [run_append, h, bind_some]

theorem run_closed (h : closed.run pdus = some a) : pdus = [] ∧ a = closed := by
  cases pdus with
  | nil =>
    cases h
    exact ⟨rfl, rfl⟩
  | cons =>
    rw [run_cons] at h
    contradiction

theorem next_errorReport (h : a ≠ closed) (code : ErrorCode)
    : a.next (.errorReport code) = some closed := by
  cases a with
  | fresh
  | opened => rfl
  | closed => contradiction

theorem run_prefixes {rows : List α} {p : α → Prefix × Bool}
    (h : rows.mapM (fun r => fillPduIpPrefix (p r).1 (p r).2) = some pdus)
    : opened.run pdus = some opened := by
  induction rows generalizing pdus with
  | nil =>
    cases h
    rfl
  | cons r rows ih =>
    rw [mapM_cons] at h
    rcases bind_eq_some_iff.mp h with ⟨pdu, hpdu, h⟩
    rcases bind_eq_some_iff.mp h with ⟨_, hpdus', h⟩
    cases h
    have heq : pdu = .ipPrefix (p r).1 (p r).2 := by
      unfold fillPduIpPrefix at hpdu
      split at hpdu <;> cases hpdu <;> rfl
    rw [heq, run_cons]
    exact ih hpdus'

end Answer

namespace SerialQuery

variable {q : SerialQuery}

def made (q : SerialQuery) : List Pdu :=
  match q.pc with
  | .serialQryGetNext _ pdus => pdus
  | .checkSerNum pdus => pdus
  | .findNextSerNum pdus => pdus
  | _ => []

def answer (q : SerialQuery) : Answer :=
  match q.pc with
  | .done => .closed
  | .serialQryGetNext _ _ => .opened
  | .checkSerNum _ => .opened
  | .findNextSerNum _ => .opened
  | _ => if q.state.dataSent then .opened else .fresh

structure Framed (q : SerialQuery) : Prop where
  run : Answer.fresh.run (q.sent ++ q.made) = some q.answer
  dataSent : q.answer = .opened → q.state.dataSent = true

theorem framed_start (serial : Serial) : (start serial).Framed where
  run := rfl
  dataSent := by simp [start, answer]

theorem Framed.run_sent (h : q.Framed) (hpc : q.pc ≠ .done)
    : ∃ a, a ≠ .closed ∧ Answer.fresh.run q.sent = some a := by
  have hrun := h.run
  rw [Answer.run_append] at hrun
  rcases bind_eq_some_iff.mp hrun with ⟨a, hsent, hmade⟩
  refine ⟨a, ?_, hsent⟩
  intro ha
  rw [ha] at hmade
  have hanswer := (Answer.run_closed hmade).2
  unfold answer at hanswer
  split at hanswer
  case h_5 => split at hanswer <;> contradiction
  all_goals contradiction

def Continues (q q' : SerialQuery) : Prop :=
  q'.Framed ∧ q.sent <+: q'.sent

theorem continues_finish (h : Answer.fresh.run (q.sent ++ pdus) = some .closed)
    : q.Continues (q.finish pdus) := by
  refine ⟨⟨?_, ?_⟩, prefix_append _ _⟩
  . simpa [finish, made, answer] using h
  . simp [finish, answer]

theorem Framed.fail (h : q.Framed) (hpc : q.pc ≠ .done) : q.Continues q.fail := by
  rcases h.run_sent hpc with ⟨_, ha, hsent⟩
  apply continues_finish
  rw [Answer.run_append_of_run hsent, Answer.run_cons, Answer.next_errorReport ha]
  rfl

theorem Framed.of_sent_eq {q q' : SerialQuery} (h : q.Framed) (hsent : q'.sent = q.sent)
    (hmade : q'.made = q.made) (hanswer : q'.answer = q.answer)
    (hdata : q'.state.dataSent = q.state.dataSent) : q.Continues q' := by
  refine ⟨⟨?_, ?_⟩, ?_⟩
  . rw [hsent, hmade, hanswer]
    exact h.run
  . rw [hanswer, hdata]
    exact h.dataSent
  . simp [hsent]

theorem Framed.doQuery (h : q.Framed) (hpc : q.pc ≠ .done) (hdata : q.state.dataSent = true)
    (hrun : Answer.fresh.run (q.sent ++ pdus) = some .opened) (maxRows : Nat)
    (rows : List IncrementalRow) : q.Continues (q.doQuery maxRows pdus rows) := by
  unfold SerialQuery.doQuery
  split
  . exact h.fail hpc
  next new hnew =>
  have hall : Answer.fresh.run (q.sent ++ (pdus ++ new)) = some .opened := by
    rw [← append_assoc, Answer.run_append_of_run hrun]
    exact Answer.run_prefixes (p := fun r : IncrementalRow => (r.pfx, r.isAnnounce)) hnew
  dsimp only
  split
  . refine ⟨⟨?_, fun _ => hdata⟩, prefix_append _ _⟩
    simpa [made, answer, hdata] using hall
  . exact ⟨⟨hall, fun _ => hdata⟩, prefix_refl _⟩

theorem Framed.preQuery {e : SerialQueryEnv} (h : q.Framed) (hpc : q.pc = .getNext)
    (hdata : q.state.dataSent = false) (t : Tables) : q.Continues (q.preQuery e t) := by
  have hne : q.pc ≠ .done := by simp [hpc]
  have hsent : Answer.fresh.run q.sent = some .fresh := by
    simpa [made, answer, hpc, hdata] using h.run
  unfold SerialQuery.preQuery
  split
  . exact h.fail hne
  split
  . exact continues_finish (by rw [Answer.run_append_of_run hsent]; rfl)
  split
  . exact continues_finish (by rw [Answer.run_append_of_run hsent]; rfl)
  split
  . exact h.fail hne
  split
  . next session =>
    dsimp only
    split
    . exact continues_finish (by rw [Answer.run_append_of_run hsent]; rfl)
    . refine ⟨⟨?_, fun _ => rfl⟩, prefix_refl _⟩
      simp only [made, answer]
      rw [Answer.run_append_of_run hsent]
      rfl
  . exact h.fail hne

theorem Framed.step {e : SerialQueryEnv} {q q' : SerialQuery} {t : Tables} (h : q.Framed)
    (hstep : q.step e t = some q') : q.Continues q' := by
  have hrun := h.run
  unfold SerialQuery.step at hstep
  split at hstep
  case h_1 hpc | h_2 hpc | h_3 hpc =>
    split at hstep
    . cases hstep
      exact h.fail (by simp [hpc])
    . split at hstep <;> cases hstep <;>
        exact h.of_sent_eq rfl (by simp [made, hpc]) (by simp [answer, hpc]) rfl
  . next hpc =>
    split at hstep
    . next hdata =>
      split at hstep
      . cases hstep
        exact h.fail (by simp [hpc])
      . cases hstep
        apply h.doQuery (by simp [hpc]) hdata
        simpa [made, answer, hpc, hdata] using hrun
    . next hdata =>
      cases hstep
      exact h.preQuery hpc (by simpa using hdata) t
  . next pdus hpc =>
    have hanswer : q.answer = .opened := by simp [answer, hpc]
    split at hstep
    . cases hstep
      exact h.fail (by simp [hpc])
    . cases hstep
      apply h.doQuery (by simp [hpc]) (h.dataSent hanswer)
      simpa [made, answer, hpc] using hrun
  . next pdus hpc =>
    have hanswer : q.answer = .opened := by simp [answer, hpc]
    split at hstep
    . cases hstep
      exact h.fail (by simp [hpc])
    split at hstep
    . cases hstep
      exact h.of_sent_eq rfl (by simp [made, hpc]) (by simp [answer, hpc]) rfl
    cases hstep
    apply continues_finish
    have hall : Answer.fresh.run (q.sent ++ pdus) = some .opened := by
      simpa [made, answer, hpc] using hrun
    rw [← append_assoc, Answer.run_append_of_run hall]
    rfl
  . next pdus hpc =>
    have hanswer : q.answer = .opened := by simp [answer, hpc]
    have hall : Answer.fresh.run (q.sent ++ pdus) = some .opened := by
      simpa [made, answer, hpc] using hrun
    split at hstep
    . cases hstep
      have hdata := h.dataSent hanswer
      refine ⟨⟨?_, fun _ => hdata⟩, prefix_append _ _⟩
      simpa [made, answer, hdata] using hall
    . cases hstep
      apply continues_finish
      rw [← append_assoc, Answer.run_append_of_run hall]
      rfl
  . contradiction

end SerialQuery

namespace Query

def answer (q : Query) : Answer :=
  if q.pc = .done then .closed else if q.state.dataSent then .opened else .fresh

def Framed (q : Query) : Prop :=
  Answer.fresh.run q.sent = some q.answer

def Continues (q q' : Query) : Prop :=
  q'.Framed ∧ q.sent <+: q'.sent

theorem framed_start : start.Framed := rfl

variable {q : Query}

theorem answer_ne_closed (h : q.pc ≠ .done) : q.answer ≠ .closed := by
  rw [answer, if_neg h]
  split <;> simp

theorem Framed.fail (h : q.Framed) (hpc : q.pc ≠ .done) (code : ErrorCode)
    : q.Continues (q.fail code) := by
  refine ⟨?_, prefix_append _ _⟩
  unfold Framed Query.fail
  rw [Answer.run_append_of_run h, Answer.run_cons, Answer.next_errorReport (answer_ne_closed hpc)]
  rfl

theorem Framed.of_sent_eq {q' : Query} (h : q.Framed) (hsent : q'.sent = q.sent)
    (hanswer : q'.answer = q.answer) : q.Continues q' := by
  refine ⟨?_, ?_⟩
  . unfold Framed
    rw [hsent, hanswer]
    exact h
  . simp [hsent]

theorem Framed.fillPdus (h : q.Framed) (hpc : q.pc ≠ .done) (session : Session) (maxRows : Nat)
    (rows : List Prefix) : q.Continues (q.fillPdus session maxRows rows) := by
  unfold Query.fillPdus
  dsimp only
  split
  . exact h.fail hpc _
  next pdus hpdus =>
  have hopened : Answer.opened.run pdus = some .opened :=
    Answer.run_prefixes (p := fun p => (p, true)) hpdus
  have hall : Answer.fresh.run
      (q.sent ++ ((if q.state.dataSent then [] else [Pdu.cacheResponse session]) ++ pdus))
        = some .opened := by
    rw [Answer.run_append_of_run h, answer, if_neg hpc]
    split
    . exact hopened
    . exact hopened
  generalize (if q.state.dataSent then [] else [Pdu.cacheResponse session]) = header at hall ⊢
  split
  . exact ⟨hall, prefix_append _ _⟩
  refine ⟨?_, ?_⟩
  . unfold Framed
    dsimp only
    rw [Answer.run_append_of_run hall]
    rfl
  . dsimp only
    rw [append_assoc]
    exact prefix_append _ _

theorem Framed.step {e : QueryEnv} {q q' : Query} {t : Tables} (h : q.Framed)
    (hstep : q.step e t = some q') : q.Continues q' := by
  unfold Query.step at hstep
  split at hstep
  . next hpc =>
    split at hstep
    . cases hstep
      exact h.fail (by simp [hpc]) _
    split at hstep
    . split at hstep <;> cases hstep <;> exact h.of_sent_eq rfl (by simp [answer, hpc])
    . contradiction
  . next hpc =>
    split at hstep
    . cases hstep
      exact h.fail (by simp [hpc]) _
    . split at hstep <;> cases hstep <;> exact h.of_sent_eq rfl (by simp [answer, hpc])
  . next hpc =>
    split at hstep
    . cases hstep
      exact h.fail (by simp [hpc]) _
    split at hstep
    . cases hstep
      exact h.fail (by simp [hpc]) _
    split at hstep
    . cases hstep
      exact h.fail (by simp [hpc]) _
    split at hstep
    . cases hstep
      exact h.of_sent_eq rfl (by simp [answer, hpc])
    . cases hstep
      exact h.fail (by simp [hpc]) _
  . next hpc =>
    split at hstep
    . cases hstep
      exact h.fail (by simp [hpc]) _
    . cases hstep
      exact h.fillPdus (by simp [hpc]) _ _ _
  . contradiction

end Query

end Rpstir.Rtr
