import Rpstir.Daemon.Lemmas.Connection
import Rpstir.Daemon.System

/-!
This module contains what a step of the daemon can do, as a relation with one case for each place where a
database thread can be and one for each event of the other threads.
-/

namespace Rpstir.Daemon

variable {ι κ : Type}

theorem DbPc.afterStatement_rule {p : DbPc ι → Prop} {r : RequestRef ι} {starting : Bool} {numSent : Nat}
    {q : DbQueryState} (hsend : ∀ pdus queryState, p (.sendResponse r pdus queryState))
    (hquery : ∀ q starting numSent, p (.query r q starting numSent))
    : p (.afterStatement r starting numSent q) := by
  unfold afterStatement
  split
  . apply hsend
  . split
    . apply hsend
    . apply hquery

namespace System

variable [DecidableEq ι] [DecidableEq κ]

omit [DecidableEq κ] in
theorem forall_setCxn {p : ι → Cxn → Prop} {s : System ι κ} {i : ι} {c : Cxn} (hc : p i c)
    (h : ∀ j, p j (s.cxns j)) : ∀ j, p j ((s.setCxn i c).cxns j) :=
  (Function.forall_update_iff _ p).mpr ⟨hc, fun j _ => h j⟩

omit [DecidableEq κ] in
theorem setCxn_congr {α : Type} (f : Cxn → α) {s : System ι κ} {i : ι} {c : Cxn}
    (hc : f c = f (s.cxns i)) : ∀ j, f ((s.setCxn i c).cxns j) = f (s.cxns j) :=
  forall_setCxn (p := fun j c => f c = f (s.cxns j)) hc fun _ => rfl

omit [DecidableEq ι] in
theorem forall_setThread {p : κ → DbPc ι → Prop} {s : System ι κ} {k : κ} {pc : DbPc ι} (hpc : p k pc)
    (h : ∀ l, p l (s.threads l)) : ∀ l, p l ((s.setThread k pc).threads l) :=
  (Function.forall_update_iff _ p).mpr ⟨hpc, fun l _ => h l⟩

abbrev respond (s : System ι κ) (k : κ) (r : RequestRef ι) (pdus : List Wire.Pdu)
    (queryState : Option DbQueryState) : System ι κ :=
  (s.setCxn r.cxn ((s.cxns r.cxn).pushResponse ⟨pdus, queryState.isNone⟩)).setThread k
    (.postResponse r queryState)

inductive DbSteps (s : System ι κ) (k : κ) : System ι κ → Prop where
  | wait (hpc : s.threads k = .waitOnSemaphore) (hpos : 0 < s.semaphore)
      : DbSteps s k ({ s with semaphore := s.semaphore - 1 }.setThread k .startIteration)
  | startIteration (hpc : s.threads k = .startIteration) (hlock : s.lock = none)
      : DbSteps s k ({ s with lock := some k }.setThread k (.checkCancelRequest 0))
  | endIteration (index : Nat) (hpc : s.threads k = .checkCancelRequest index)
      (hrq : s.currentlyProcessing[index]? = none)
      : DbSteps s k ({ s with lock := none }.setThread k .tryServiceNewRequest)
  | found (index : Nat) (rq : DbRequestState ι) (hrq : s.currentlyProcessing[index]? = some rq)
      (hpc : s.threads k = .checkCancelRequest index ∧
          (s.cxns rq.request.cxn).request.cancelRequest = true ∨
        s.threads k = .checkQueueSize index ∧
          (s.cxns rq.request.cxn).responseQueue.length < dbResponseBufferLength)
      : DbSteps s k (s.found k index rq)
  | notCancelled (index : Nat) (rq : DbRequestState ι)
      (hpc : s.threads k = .checkCancelRequest index)
      (hrq : s.currentlyProcessing[index]? = some rq)
      (hcancel : (s.cxns rq.request.cxn).request.cancelRequest = false)
      : DbSteps s k (s.setThread k (.checkQueueSize index))
  | noRoom (index : Nat) (rq : DbRequestState ι) (hpc : s.threads k = .checkQueueSize index)
      (hrq : s.currentlyProcessing[index]? = some rq)
      (hfull : dbResponseBufferLength ≤ (s.cxns rq.request.cxn).responseQueue.length)
      : DbSteps s k (s.setThread k (.checkCancelRequest (index + 1)))
  | noRequest (hpc : s.threads k = .tryServiceNewRequest) (hqueue : s.requestQueue = [])
      : DbSteps s k (s.setThread k .waitOnSemaphore)
  | popRequest (r : RequestRef ι) (queue : List (RequestRef ι))
      (hpc : s.threads k = .tryServiceNewRequest) (hqueue : s.requestQueue = r :: queue)
      : DbSteps s k ({ s with requestQueue := queue }.setThread k (.serviceRequest r none))
  | cancelled (r : RequestRef ι) (queryState : Option DbQueryState)
      (hpc : s.threads k = .serviceRequest r queryState)
      (hcancel : (s.cxns r.cxn).request.cancelRequest = true)
      : DbSteps s k (s.setThread k (.sendResponse r [] none))
  | startQuery (r : RequestRef ι) (hpc : s.threads k = .serviceRequest r none)
      : DbSteps s k (s.setThread k (.query r (.start (s.cxns r.cxn).request.query) true 0))
  | resumeQuery (r : RequestRef ι) (q : DbQueryState) (hpc : s.threads k = .serviceRequest r (some q))
      : DbSteps s k (s.setThread k (.query r q false q.sent.length))
  | statement (r : RequestRef ι) (e : DbEnv) (q q' : DbQueryState) (starting : Bool) (numSent : Nat)
      (hpc : s.threads k = .query r q starting numSent) (hstep : q.step e = some q')
      : DbSteps s k (s.setThread k (.afterStatement r starting numSent q'))
  | sendResponse (r : RequestRef ι) (pdus : List Wire.Pdu) (queryState : Option DbQueryState)
      (hpc : s.threads k = .sendResponse r pdus queryState)
      : DbSteps s k
          ((s.setCxn r.cxn ((s.cxns r.cxn).pushResponse ⟨pdus, queryState.isNone⟩)).setThread k
            (.postResponse r queryState))
  | postResponse (r : RequestRef ι) (queryState : Option DbQueryState)
      (hpc : s.threads k = .postResponse r queryState)
      : DbSteps s k
          ((s.setCxn r.cxn (s.cxns r.cxn).semPost).setThread k (.afterPost r queryState))
  | bagAdd (position : Nat) (rq : DbRequestState ι) (hpc : s.threads k = .bagAdd rq)
      (hlock : s.lock = none)
      : DbSteps s k
          ({ s with
              currentlyProcessing :=
                s.currentlyProcessing.take position ++ rq :: s.currentlyProcessing.drop position
            }.setThread k .postDb)
  | postDb (hpc : s.threads k = .postDb)
      : DbSteps s k ({ s with semaphore := s.semaphore + 1 }.setThread k .waitOnSemaphore)

inductive Steps (s : System ι κ) : Event ι κ → System ι κ → Prop where
  | arrive (i : ι) (bytes : List UInt8)
      : Steps s (.arrive i bytes)
          (s.setCxn i { s.cxns i with unread := (s.cxns i).unread ++ bytes })
  | close (i : ι) : Steps s (.close i) (s.setCxn i { s.cxns i with closed := true })
  | select (i : ι) : Steps s (.select i) (s.setCxn i { s.cxns i with selected := true })
  | post (i : ι) : Steps s (.post i) (s.setCxn i { (s.cxns i).semPost with selected := false })
  | cxn {i : ι} {a : CxnAction} {c : Cxn} {effect : CxnEffect} (hsteps : (s.cxns i).Steps a c effect)
      : Steps s (.cxn i a) ((s.setCxn i c).applyEffect i effect)
  | db {k : κ} {e : DbEnv} {s' : System ι κ} (hsteps : s.DbSteps k s') : Steps s (.db k e) s'

theorem dbNext_steps {s s' : System ι κ} {k : κ} {e : DbEnv} (h : s.dbNext k e = some s')
    : s.DbSteps k s' := by
  unfold dbNext at h
  split at h
  . next hpc =>
    split at h
    . next hpos =>
      cases h
      exact .wait hpc hpos
    . contradiction
  . next hpc =>
    split at h
    . next hlock =>
      cases h
      exact .startIteration hpc hlock
    . contradiction
  . next index hpc =>
    split at h
    . next hrq =>
      cases h
      exact .endIteration index hpc hrq
    next rq hrq =>
    split at h
    . next hcancel =>
      cases h
      exact .found index rq hrq (.inl ⟨hpc, hcancel⟩)
    . next hcancel =>
      cases h
      exact .notCancelled index rq hpc hrq (by simpa using hcancel)
  . next index hpc =>
    split at h
    . contradiction
    next rq hrq =>
    split at h
    . next hroom =>
      cases h
      exact .found index rq hrq (.inr ⟨hpc, hroom⟩)
    . next hfull =>
      cases h
      exact .noRoom index rq hpc hrq (by omega)
  . next hpc =>
    split at h
    . next hqueue =>
      cases h
      exact .noRequest hpc hqueue
    . next r queue hqueue =>
      cases h
      exact .popRequest r queue hpc hqueue
  . next r queryState hpc =>
    split at h
    . next hcancel =>
      cases h
      exact .cancelled r queryState hpc hcancel
    split at h
    . cases h
      exact .startQuery r hpc
    . next q =>
      cases h
      exact .resumeQuery r q hpc
  . next r q starting numSent hpc =>
    rcases Option.map_eq_some_iff.mp h with ⟨q', hstep, rfl⟩
    exact .statement r e q q' starting numSent hpc hstep
  . next r pdus queryState hpc =>
    cases h
    exact .sendResponse r pdus queryState hpc
  . next r queryState hpc =>
    cases h
    exact .postResponse r queryState hpc
  . next rq hpc =>
    split at h
    . next hlock =>
      cases h
      exact .bagAdd e.position rq hpc hlock
    . contradiction
  . next hpc =>
    cases h
    exact .postDb hpc

theorem next_steps {s s' : System ι κ} {ev : Event ι κ} (h : s.next ev = some s') : s.Steps ev s' := by
  unfold next at h
  split at h
  . split at h
    . contradiction
    . cases h
      exact .arrive _ _
  . cases h
    exact .close _
  . split at h
    . cases h
      exact .select _
    . contradiction
  . split at h
    . cases h
      exact .post _
    . contradiction
  . rcases Option.map_eq_some_iff.mp h with ⟨⟨_, _⟩, hcxn, rfl⟩
    exact .cxn (Cxn.next_steps hcxn)
  . exact .db (dbNext_steps h)

end System
end Rpstir.Daemon
