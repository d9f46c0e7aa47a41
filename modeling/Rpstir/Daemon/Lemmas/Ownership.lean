import Rpstir.Data.Count
import Rpstir.Daemon.Lemmas.Request
import Rpstir.Daemon.Lemmas.System

/-!
This module contains who has a reference to the request of a connection.
-/

namespace Rpstir.Daemon

open List Option

open Count

variable {ι κ : Type}

def RequestRef.isOf [DecidableEq ι] (i : ι) (r : RequestRef ι) : Bool :=
  r.cxn = i

variable {c : Cxn} {pc : DbPc ι} {effect : CxnEffect} {i : ι}

namespace DbPc

def working : DbPc ι → Option (RequestRef ι)
  | serviceRequest r _ => some r
  | query r _ _ _ => some r
  | sendResponse r _ _ => some r
  | postResponse r (some _) => some r
  | bagAdd rq => some rq.request
  | _ => none

def worksFor [DecidableEq ι] (i : ι) (pc : DbPc ι) : Nat :=
  pc.working.toList.countP (·.isOf i)

theorem worksFor_of_none [DecidableEq ι] (h : pc.working = none) : pc.worksFor i = 0 := by
  rw [worksFor, h]
  rfl

theorem worksFor_of_some [DecidableEq ι] {r : RequestRef ι} (h : pc.working = some r)
    : pc.worksFor i = [r].countP (·.isOf i) := by
  rw [worksFor, h]
  rfl

theorem working_afterStatement (r : RequestRef ι) (starting : Bool) (numSent : Nat)
    (q : DbQueryState) : (afterStatement r starting numSent q).working = some r :=
  afterStatement_rule (p := fun pc => pc.working = some r) (fun _ _ => rfl) fun _ _ _ => rfl

end DbPc

structure Cxn.Owned (c : Cxn) (refs : Nat) : Prop where
  inv : c.Inv
  refs_eq : refs + c.responseQueue.countP (·.isDone) + c.released = c.generation
  generation_le : c.generation ≤ c.released + 1
  done_last : ∀ r ∈ c.responseQueue.dropLast, r.isDone = false
  queue_nil : c.released = c.generation → c.responseQueue = []

namespace Cxn

namespace Owned

variable {refs : Nat}

theorem of_handover {c' : Cxn} (h : c.Owned refs) (hinv : c'.Inv) (hhand : c'.handover = c.handover)
    : c'.Owned refs := by
  simp only [Cxn.handover, Prod.mk.injEq] at hhand
  rcases hhand with ⟨hgen, hrel, hqueue, -⟩
  constructor
  . exact hinv
  . rw [hgen, hrel, hqueue]
    exact h.refs_eq
  . rw [hgen, hrel]
    exact h.generation_le
  . rw [hqueue]
    exact h.done_last
  . rw [hgen, hrel, hqueue]
    exact h.queue_nil

theorem queue_eq_nil (h : c.Owned refs) {r : DbResponse} {queue : List DbResponse}
    (hqueue : c.responseQueue = r :: queue) (hdone : r.isDone = true) : queue = [] := by
  cases queue with
  | nil => rfl
  | cons =>
    have hr : r ∈ c.responseQueue.dropLast := by simp [hqueue]
    simp [h.done_last r hr] at hdone

theorem moves {c' : Cxn} (h : c.Owned refs) (hinv : c'.Inv) (hmoves : Moves c c' effect)
    : c'.Owned (if effect = .pushRequest then refs + 1 else refs) := by
  have hrefs := h.refs_eq
  have hle := h.generation_le
  cases hmoves with
  | quiet hhand
  | post hhand => exact h.of_handover hinv hhand
  | push _ hempty hgen hrel hqueue =>
    rw [if_pos rfl]
    rw [hempty, countP_nil] at hrefs
    constructor
    . exact hinv
    . rw [hgen, hrel, hqueue, hempty, countP_nil]
      omega
    . omega
    . simp [hqueue, hempty]
    . intro _
      rw [hqueue, hempty]
  | pop r hnot hqueue hgen hrel =>
    rw [if_neg (by simp)]
    rw [hqueue, countP_cons_of_neg (by simp [hnot])] at hrefs
    constructor
    . exact hinv
    . rw [hgen, hrel]
      exact hrefs
    . omega
    . intro _ hr'
      apply h.done_last
      rw [hqueue, dropLast_cons_of_ne_nil (ne_nil_of_mem (mem_of_mem_dropLast hr'))]
      exact mem_cons_of_mem r hr'
    . intro _
      have := h.queue_nil (by omega)
      simp [hqueue] at this
  | popDone r hdone _ hqueue =>
    rw [if_neg (by simp)]
    have hnil := h.queue_eq_nil hqueue hdone
    rw [hqueue, countP_cons_of_pos hdone, hnil, countP_nil] at hrefs
    constructor
    . exact hinv
    . rw [hnil, countP_nil]
      omega
    . omega
    . simp [hnil]
    . intro _
      exact hnil
  | cancel hgen hrel hqueue =>
    rw [if_neg (by simp)]
    constructor
    . exact hinv
    . rw [hgen, hrel, hqueue]
      exact hrefs
    . omega
    . rw [hqueue]
      exact h.done_last
    . rw [hgen, hrel, hqueue]
      exact h.queue_nil

theorem push (h : c.Owned (refs + 1)) (pdus : List Wire.Pdu) (isDone : Bool)
    : (c.pushResponse ⟨pdus, isDone⟩).Owned (if isDone then refs else refs + 1) := by
  have hrefs := h.refs_eq
  have hle := h.generation_le
  have hnone : c.responseQueue.countP (·.isDone) = 0 := by omega
  constructor
  . exact ⟨h.inv.released_le, h.inv.released_lt_iff, h.inv.handleResponse, h.inv.tryPopResponse,
      h.inv.draining⟩
  . cases isDone <;> simp [pushResponse, countP_append] <;> omega
  . exact hle
  . intro r hr
    rw [pushResponse, dropLast_concat] at hr
    simpa using countP_eq_zero.mp hnone r hr
  . intro heq
    have heq : c.released = c.generation := heq
    omega

end Owned

end Cxn

namespace System

variable [DecidableEq ι] [Fintype κ]

variable {s : System ι κ}

def refs (s : System ι κ) (i : ι) : Nat :=
  s.requestQueue.countP (·.isOf i) + s.currentlyProcessing.countP (·.request.isOf i) +
    total (DbPc.worksFor i) s.threads

def Owned (s : System ι κ) : Prop :=
  ∀ i, (s.cxns i).Owned (s.refs i)

theorem owned_init (cxns : ι → CacheState × Nat) : (init cxns : System ι κ).Owned := by
  intro i
  have hrefs : (init cxns : System ι κ).refs i = 0 := by
    simp only [refs, init, countP_nil, Nat.zero_add]
    apply total_eq_zero
    intro _
    rfl
  rw [hrefs]
  constructor
  . exact Cxn.inv_init _ _
  all_goals simp [init, Cxn.init]

theorem Owned.setCxn (h : s.Owned) (hc : c.Owned (s.refs i)) : (s.setCxn i c).Owned :=
  forall_setCxn (p := fun j c => c.Owned (s.refs j)) hc h

theorem Owned.of_refs {s s' : System ι κ} (h : s.Owned) (hcxns : s'.cxns = s.cxns)
    (hrefs : ∀ i, s'.refs i = s.refs i) : s'.Owned := by
  intro i
  rw [hcxns, hrefs]
  exact h i

theorem Owned.cxn_step (h : s.Owned) {a : CxnAction} (hsteps : (s.cxns i).Steps a c effect)
    : ((s.setCxn i c).applyEffect i effect).Owned := by
  rcases hsteps.spec (h i).inv with ⟨hinv, hmoves⟩
  have hc := (h i).moves hinv hmoves
  cases effect with
  | none => exact h.setCxn hc
  | postDb => exact (h.setCxn hc).of_refs rfl fun _ => rfl
  | pushRequest =>
    intro j
    have hrefs : ((s.setCxn i c).applyEffect i .pushRequest).refs j
        = s.refs j + [(⟨i, c.generation⟩ : RequestRef ι)].countP (·.isOf j) := by
      simp only [refs, applyEffect, System.setCxn, countP_append, Function.update_self]
      omega
    rw [hrefs]
    by_cases hij : j = i
    . rw [hij]
      simpa [applyEffect, RequestRef.isOf] using hc
    . have hne : ¬ i = j := fun h => hij h.symm
      simpa [applyEffect, RequestRef.isOf, hne, setCxn_cxns_of_ne _ _ hij] using h j

theorem one_le_refs {k : κ} {r : RequestRef ι}
    (hworking : (s.threads k).working = some r) : 1 ≤ s.refs r.cxn := by
  have hle := le_total (DbPc.worksFor r.cxn) s.threads k
  have hone : [r].countP (·.isOf r.cxn) = 1 := by simp [RequestRef.isOf]
  rw [DbPc.worksFor_of_some hworking, hone] at hle
  simp only [refs]
  omega

structure Unreferenced (s : System ι κ) (i : ι) : Prop where
  queue : ∀ r ∈ s.requestQueue, r.cxn ≠ i
  bag : ∀ rq ∈ s.currentlyProcessing, rq.request.cxn ≠ i
  threads : ∀ k r, (s.threads k).working = some r → r.cxn ≠ i

theorem unreferenced_of_refs (h : s.refs i = 0) : s.Unreferenced i := by
  have hsum : s.requestQueue.countP (·.isOf i) = 0 ∧
      s.currentlyProcessing.countP (·.request.isOf i) = 0 := by
    simp only [refs] at h
    omega
  constructor
  . intro r hr
    have hnot := countP_eq_zero.mp hsum.1 r hr
    simpa [RequestRef.isOf] using hnot
  . intro rq hrq
    have hnot := countP_eq_zero.mp hsum.2 rq hrq
    simpa [RequestRef.isOf] using hnot
  . intro _ r hr hi
    have hle := one_le_refs hr
    rw [hi, h] at hle
    contradiction

section Db

variable [DecidableEq κ]

variable {s : System ι κ} {r : RequestRef ι} {k : κ}

theorem refs_setThread (s : System ι κ) (k : κ) (pc : DbPc ι) (i : ι)
    : (s.setThread k pc).refs i + (s.threads k).worksFor i = s.refs i + pc.worksFor i := by
  have h := total_update (DbPc.worksFor i) s.threads k pc
  simp only [refs, setThread]
  omega

theorem Owned.unreferenced (h : s.Owned)
    (hworking : (s.threads k).working = some r)
    : (s.setThread k .waitOnSemaphore).Unreferenced r.cxn := by
  apply unreferenced_of_refs
  have hrefs := s.refs_setThread k .waitOnSemaphore r.cxn
  have hone : [r].countP (·.isOf r.cxn) = 1 := by simp [RequestRef.isOf]
  have hzero : (DbPc.waitOnSemaphore : DbPc ι).worksFor r.cxn = 0 := rfl
  have heq := (h r.cxn).refs_eq
  have hle := (h r.cxn).generation_le
  rw [DbPc.worksFor_of_some hworking, hone, hzero] at hrefs
  omega

theorem Owned.setThread (h : s.Owned) (hworking : pc.working = (s.threads k).working)
    : (s.setThread k pc).Owned := by
  refine h.of_refs rfl ?_
  intro i
  have hrefs := s.refs_setThread k pc i
  simp only [DbPc.worksFor, hworking] at hrefs
  omega

variable {rq : DbRequestState ι}

theorem Owned.found (h : s.Owned) {index : Nat} (hrq : s.currentlyProcessing[index]? = some rq)
    (hidle : (s.threads k).working = none) : (s.found k index rq).Owned := by
  refine h.of_refs rfl ?_
  intro i
  have hbag := countP_eraseIdx_add (p := fun rq => rq.request.isOf i) hrq
  have htotal := total_update (DbPc.worksFor i) s.threads k
    (.serviceRequest rq.request (some rq.queryState))
  have hone : (DbPc.serviceRequest rq.request (some rq.queryState)).worksFor i
      = [rq].countP (fun rq => rq.request.isOf i) := rfl
  rw [hone, DbPc.worksFor_of_none hidle] at htotal
  simp only [refs, System.found, System.setThread]
  omega

theorem Owned.tryServiceNewRequest (h : s.Owned)
    {queue : List (RequestRef ι)} (hqueue : s.requestQueue = r :: queue)
    (hidle : (s.threads k).working = none)
    : ({ s with requestQueue := queue }.setThread k (.serviceRequest r none)).Owned := by
  refine h.of_refs rfl ?_
  intro i
  have htotal := total_update (DbPc.worksFor i) s.threads k (.serviceRequest r none)
  have hone : (DbPc.serviceRequest r none).worksFor i = [r].countP (·.isOf i) := rfl
  rw [hone, DbPc.worksFor_of_none hidle] at htotal
  have hcount : s.requestQueue.countP (·.isOf i)
      = [r].countP (·.isOf i) + queue.countP (·.isOf i) := by
    rw [hqueue, ← countP_append, singleton_append]
  simp only [refs, System.setThread]
  omega

theorem Owned.bagAdd (h : s.Owned) (n : Nat) (hpc : s.threads k = .bagAdd rq)
    : ({ s with
          currentlyProcessing :=
            s.currentlyProcessing.take n ++ rq :: s.currentlyProcessing.drop n }.setThread k
        .postDb).Owned := by
  refine h.of_refs rfl ?_
  intro i
  have hbag := countP_take_cons_drop (fun rq => rq.request.isOf i) s.currentlyProcessing n rq
  have htotal := total_update (DbPc.worksFor i) s.threads k .postDb
  have hone : (DbPc.bagAdd rq).worksFor i = [rq].countP (fun rq => rq.request.isOf i) := rfl
  have hzero : (DbPc.postDb : DbPc ι).worksFor i = 0 := rfl
  rw [hpc, hone, hzero] at htotal
  simp only [refs, System.setThread]
  omega

theorem Owned.sendResponse (h : s.Owned)
    {pdus : List Wire.Pdu} {queryState : Option DbQueryState}
    (hpc : s.threads k = .sendResponse r pdus queryState)
    : (s.respond k r pdus queryState).Owned := by
  have hworking : (s.threads k).working = some r := by rw [hpc]; rfl
  intro i
  have hrefs := s.refs_setThread k (.postResponse r queryState) i
  rw [DbPc.worksFor_of_some hworking] at hrefs
  change ((s.setCxn r.cxn _).cxns i).Owned ((s.setThread k (.postResponse r queryState)).refs i)
  generalize (s.setThread k (.postResponse r queryState)).refs i = refs' at hrefs ⊢
  by_cases hi : i = r.cxn
  . have hone : [r].countP (·.isOf i) = 1 := by simp [RequestRef.isOf, hi]
    have hpos : s.refs i = (s.refs i - 1) + 1 := by
      have hle := one_le_refs hworking
      rw [← hi] at hle
      omega
    have hc := h i
    rw [hpos] at hc
    have hpush := hc.push pdus queryState.isNone
    have heq : refs' = if queryState.isNone then s.refs i - 1 else s.refs i - 1 + 1 := by
      cases queryState with
      | none =>
        rw [DbPc.worksFor_of_none rfl] at hrefs
        simp only [isNone_none, if_true]
        omega
      | some =>
        rw [DbPc.worksFor_of_some rfl] at hrefs
        simp only [isNone_some, Bool.false_eq_true, if_false]
        omega
    rw [heq, ← hi, setCxn_cxns_self]
    exact hpush
  have hne : ¬ r.cxn = i := fun h => hi h.symm
  have hother : [r].countP (·.isOf i) = 0 := by simp [RequestRef.isOf, hne]
  have hnew : (DbPc.postResponse r queryState).worksFor i = 0 := by
    cases queryState with
    | none => rfl
    | some => exact hother
  have heq : refs' = s.refs i := by omega
  rw [heq, setCxn_cxns_of_ne _ _ hi]
  exact h i

theorem Owned.db_step {s s' : System ι κ} (h : s.Owned) (hsteps : s.DbSteps k s') : s'.Owned := by
  cases hsteps with
  | wait hpc =>
    exact Owned.setThread (s := { s with semaphore := s.semaphore - 1 }) h (by simp [hpc]; rfl)
  | startIteration hpc =>
    exact Owned.setThread (s := { s with lock := some k }) h (by simp [hpc]; rfl)
  | endIteration index hpc =>
    exact Owned.setThread (s := { s with lock := none }) h (by simp [hpc]; rfl)
  | found index rq hrq hpc =>
    apply h.found hrq
    rcases hpc with ⟨hpc, -⟩ | ⟨hpc, -⟩ <;> rw [hpc] <;> rfl
  | notCancelled _ _ hpc
  | noRoom _ _ hpc
  | noRequest hpc
  | cancelled _ _ hpc
  | startQuery _ hpc
  | resumeQuery _ _ hpc => exact h.setThread (by rw [hpc]; rfl)
  | popRequest r _ hpc hqueue => exact h.tryServiceNewRequest hqueue (by rw [hpc]; rfl)
  | statement r _ _ _ _ _ hpc =>
    exact h.setThread (by rw [hpc, DbPc.working_afterStatement]; rfl)
  | sendResponse r _ queryState hpc => exact h.sendResponse hpc
  | postResponse r queryState hpc =>
    have hc : (s.cxns r.cxn).semPost.Owned (s.refs r.cxn) :=
      (h r.cxn).of_handover ((h r.cxn).inv.congr rfl rfl rfl) rfl
    refine (h.setCxn hc).setThread ?_
    simp only [System.setCxn, hpc]
    cases queryState <;> rfl
  | bagAdd position rq hpc => exact h.bagAdd position hpc
  | postDb hpc =>
    exact Owned.setThread (s := { s with semaphore := s.semaphore + 1 }) h (by simp [hpc]; rfl)

theorem Owned.next {s s' : System ι κ} (h : s.Owned) {ev : Event ι κ} (hstep : s.next ev = some s')
    : s'.Owned := by
  have hset {i : ι} {c : Cxn} (hhand : c.handover = (s.cxns i).handover) (hpc : c.pc = (s.cxns i).pc)
      (hstate : c.state = (s.cxns i).state) : (s.setCxn i c).Owned :=
    h.setCxn ((h i).of_handover ((h i).inv.congr hhand hpc hstate) hhand)
  cases next_steps hstep with
  | arrive
  | close
  | select
  | post => exact hset rfl rfl rfl
  | cxn hsteps => exact h.cxn_step hsteps
  | db hsteps => exact h.db_step hsteps

theorem owned {cxns : ι → CacheState × Nat} (hreach : (lts cxns).Reachable s)
    : s.Owned := by
  apply hreach.invariant
  . intro s hs
    rw [hs]
    exact owned_init cxns
  . intro s _ _ h hstep
    exact h.next hstep

end Db

end System

end Rpstir.Daemon
