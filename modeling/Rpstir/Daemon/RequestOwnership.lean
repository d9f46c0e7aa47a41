import Rpstir.Daemon.Lemmas.Ownership

/-!
This module contains when the database threads are done with the request of a connection.
-/

namespace Rpstir.Daemon

open List Option

open Count

variable {ι κ : Type}

variable {i : ι} {pc : DbPc ι}

namespace DbPc

def finishing : DbPc ι → Option (RequestRef ι)
  | postResponse r none => some r
  | _ => none

def finishesFor [DecidableEq ι] (i : ι) (pc : DbPc ι) : Nat :=
  pc.finishing.toList.countP (·.isOf i)

theorem finishesFor_of_none [DecidableEq ι] (h : pc.finishing = none) : pc.finishesFor i = 0 := by
  rw [finishesFor, h]
  rfl

end DbPc

namespace System

variable {s : System ι κ} {effect : CxnEffect}

def Uses (s : System ι κ) (r : RequestRef ι) : Prop :=
  r ∈ s.requestQueue ∨ (∃ rq ∈ s.currentlyProcessing, rq.request = r) ∨
    ∃ k, (s.threads k).working = some r ∨ (s.threads k).finishing = some r

def users [DecidableEq ι] [Fintype κ] (s : System ι κ) (i : ι) : Nat :=
  s.refs i + total (DbPc.finishesFor i) s.threads

/--
A connection thread pops the final response only if no database thread is between the push of a final
response to that connection and the `sem_post` after it.
-/
def PopsAfterPost [DecidableEq ι] (s : System ι κ) : Event ι κ → Prop
  | .cxn i _ =>
    (s.cxns i).pc = .tryPopResponse ∨ (s.cxns i).pc = .cleanupTryPop →
      (s.cxns i).responseQueue.head?.any (·.isDone) = true → ∀ k, (s.threads k).finishesFor i = 0
  | _ => True

instance [DecidableEq ι] [Fintype κ] (s : System ι κ) : (ev : Event ι κ) → Decidable (s.PopsAfterPost ev)
  | .cxn i _ => inferInstanceAs (Decidable
      ((s.cxns i).pc = .tryPopResponse ∨ (s.cxns i).pc = .cleanupTryPop → _ → _))
  | .arrive _ _ | .close _ | .select _ | .post _ | .db _ _ => .isTrue trivial

variable [DecidableEq ι] [Fintype κ]

variable {r : RequestRef ι} {a : CxnAction} {c : Cxn}

theorem one_le_users (h : s.Uses r) : 1 ≤ s.users r.cxn := by
  have hself : r.isOf r.cxn = true := by simp [RequestRef.isOf]
  simp only [users, refs]
  rcases h with hqueue | ⟨rq, hrq, rfl⟩ | ⟨k, hworking | hfinishing⟩
  . have hpos : 0 < s.requestQueue.countP (·.isOf r.cxn) :=
      countP_pos_iff.mpr ⟨r, hqueue, hself⟩
    omega
  . have hpos : 0 < s.currentlyProcessing.countP (fun rq' => rq'.request.isOf rq.request.cxn) :=
      countP_pos_iff.mpr ⟨rq, hrq, hself⟩
    omega
  . have hone := one_le_refs hworking
    simp only [refs] at hone
    omega
  . have hle := le_total (DbPc.finishesFor r.cxn) s.threads k
    have hone : (s.threads k).finishesFor r.cxn = 1 := by
      simp [DbPc.finishesFor, hfinishing, RequestRef.isOf]
    omega

structure Handed (s : System ι κ) : Prop where
  finishes_le : ∀ i, total (DbPc.finishesFor i) s.threads ≤ (s.cxns i).responseQueue.countP (·.isDone)
  generation_eq : ∀ r, s.Uses r → r.generation = (s.cxns r.cxn).generation

theorem Handed.users_add_released_le (h : s.Handed) (howned : s.Owned) (i : ι)
    : s.users i + (s.cxns i).released ≤ (s.cxns i).generation := by
  have hfinishes := h.finishes_le i
  have hrefs := (howned i).refs_eq
  simp only [users]
  omega

theorem handed_init (cxns : ι → CacheState × Nat) : (init cxns : System ι κ).Handed := by
  constructor
  . intro i
    have hzero : total (DbPc.finishesFor i) (init cxns : System ι κ).threads = 0 := by
      apply total_eq_zero
      intro k
      rfl
    omega
  rintro _ (hqueue | ⟨_, hrq, -⟩ | ⟨k, hworking | hfinishing⟩)
  . simp [init] at hqueue
  . simp [init] at hrq
  . simp [init, DbPc.working] at hworking
  . simp [init, DbPc.finishing] at hfinishing

omit [Fintype κ] in
theorem uses_applyEffect (h : ((s.setCxn i c).applyEffect i effect).Uses r)
    : s.Uses r ∨ effect = .pushRequest ∧ r = ⟨i, c.generation⟩ := by
  cases effect with
  | none
  | postDb => exact .inl h
  | pushRequest =>
    rcases h with hqueue | h
    . simp only [applyEffect, setCxn_cxns_self, List.mem_append, mem_singleton] at hqueue
      rcases hqueue with hqueue | hnew
      . exact .inl (.inl hqueue)
      . exact .inr ⟨rfl, hnew⟩
    . exact .inl (.inr h)

theorem Handed.finishes_le_of_moves (h : s.Handed) (hok : s.PopsAfterPost (.cxn i a))
    (hmoves : (s.cxns i).Moves c effect)
    : total (DbPc.finishesFor i) s.threads ≤ c.responseQueue.countP (·.isDone) := by
  have hle := h.finishes_le i
  have hsame (hhand : c.handover = (s.cxns i).handover)
      : c.responseQueue = (s.cxns i).responseQueue := by
    simp only [Cxn.handover, Prod.mk.injEq] at hhand
    exact hhand.2.2.1
  cases hmoves with
  | quiet hhand
  | post hhand => rwa [hsame hhand]
  | push _ _ _ _ hqueue
  | cancel _ _ hqueue => rwa [hqueue]
  | pop r hnot hqueue => rwa [hqueue, countP_cons_of_neg (by simp [hnot])] at hle
  | popDone r hdone hpc hqueue =>
    have hzero := hok hpc (by simp [hqueue, hdone])
    rw [total_eq_zero hzero]
    exact Nat.zero_le _

theorem Handed.cxn_step (h : s.Handed) (howned : s.Owned) (hok : s.PopsAfterPost (.cxn i a))
    (hmoves : (s.cxns i).Moves c effect) : ((s.setCxn i c).applyEffect i effect).Handed := by
  have hthreads : ((s.setCxn i c).applyEffect i effect).threads = s.threads := by
    cases effect <;> rfl
  have hcxns : ((s.setCxn i c).applyEffect i effect).cxns = (s.setCxn i c).cxns := by
    cases effect <;> rfl
  constructor
  . rw [hthreads, hcxns]
    exact forall_setCxn
      (p := fun j c => total (DbPc.finishesFor j) s.threads ≤ c.responseQueue.countP (·.isDone))
      (h.finishes_le_of_moves hok hmoves) h.finishes_le
  intro r hr
  rw [hcxns]
  rcases uses_applyEffect hr with hr | ⟨-, rfl⟩
  . have heq := h.generation_eq r hr
    by_cases hi : r.cxn = i
    . have hone := one_le_users hr
      have hle := h.users_add_released_le howned i
      rw [hi] at hone heq
      rw [hi, setCxn_cxns_self, heq]
      -- A new request is pushed only if there is no user of the old one.
      cases hmoves with
      | quiet hhand
      | post hhand => exact (congrArg Prod.fst hhand).symm
      | push => omega
      | pop _ _ _ hgen
      | popDone _ _ _ _ hgen
      | cancel hgen => exact hgen.symm
    . rw [setCxn_cxns_of_ne _ _ hi]
      exact heq
  . rw [setCxn_cxns_self]

section Db

variable [DecidableEq κ]

variable {k : κ}

theorem Handed.setThread {s t : System ι κ} (h : s.Handed)
    (hcxns : ∀ i, (t.cxns i).responseQueue = (s.cxns i).responseQueue ∧
      (t.cxns i).generation = (s.cxns i).generation) (hthreads : t.threads = s.threads)
    (hfinishing : pc.finishing = none) (hqueue : ∀ r ∈ t.requestQueue, r ∈ s.requestQueue)
    (hbag : ∀ rq ∈ t.currentlyProcessing, s.Uses rq.request)
    (hworking : ∀ r, pc.working = some r → s.Uses r) : (t.setThread k pc).Handed := by
  constructor
  . intro i
    have hle := h.finishes_le i
    have hupdate := total_update (DbPc.finishesFor i) s.threads k pc
    rw [DbPc.finishesFor_of_none hfinishing] at hupdate
    simp only [System.setThread, hthreads, (hcxns i).1]
    omega
  intro r hr
  change r.generation = (t.cxns r.cxn).generation
  rw [(hcxns r.cxn).2]
  apply h.generation_eq
  rcases hr with hr | ⟨rq, hrq, rfl⟩ | ⟨l, hl⟩
  . exact .inl (hqueue r hr)
  . exact hbag rq hrq
  by_cases hlk : l = k
  . rw [hlk, setThread_threads_self, hfinishing] at hl
    rcases hl with hl | hl
    . exact hworking r hl
    . contradiction
  . rw [setThread_threads_of_ne _ _ hlk, hthreads] at hl
    exact .inr (.inr ⟨l, hl⟩)

theorem Handed.sendResponse {s : System ι κ} (h : s.Handed) {pdus : List Wire.Pdu}
    {queryState : Option DbQueryState} (hpc : s.threads k = .sendResponse r pdus queryState)
    : (s.respond k r pdus queryState).Handed := by
  have hworking : (s.threads k).working = some r := by rw [hpc]; rfl
  constructor
  . intro i
    have hle := h.finishes_le i
    have hupdate := total_update (DbPc.finishesFor i) s.threads k (.postResponse r queryState)
    change total _ (Function.update s.threads k _) ≤ ((s.setCxn r.cxn _).cxns i).responseQueue.countP _
    by_cases hi : i = r.cxn
    . rw [hi, setCxn_cxns_self, Cxn.pushResponse, countP_append, ← hi]
      have hone : (DbPc.postResponse r queryState).finishesFor i
          ≤ [(⟨pdus, queryState.isNone⟩ : DbResponse)].countP (·.isDone) := by
        cases queryState with
        | none => simp [DbPc.finishesFor, DbPc.finishing, RequestRef.isOf, hi]
        | some => exact Nat.zero_le _
      omega
    rw [setCxn_cxns_of_ne _ _ hi]
    have hzero : (DbPc.postResponse r queryState).finishesFor i = 0 := by
      have hne : ¬ r.cxn = i := fun h => hi h.symm
      cases queryState with
      | none => simp [DbPc.finishesFor, DbPc.finishing, RequestRef.isOf, hne]
      | some => rfl
    omega
  intro r' hr'
  refine Eq.trans (h.generation_eq r' ?_) (setCxn_congr Cxn.generation (by rfl) r'.cxn).symm
  rcases hr' with hr' | hr' | ⟨l, hl⟩
  . exact .inl hr'
  . exact .inr (.inl hr')
  by_cases hlk : l = k
  . rw [hlk, setThread_threads_self] at hl
    have hr : r' = r := by cases queryState <;> simp_all [DbPc.working, DbPc.finishing]
    rw [hr]
    exact .inr (.inr ⟨k, .inl hworking⟩)
  . rw [setThread_threads_of_ne _ _ hlk] at hl
    exact .inr (.inr ⟨l, hl⟩)

theorem Handed.found {s : System ι κ} (h : s.Handed) {n : Nat} {rq : DbRequestState ι}
    (hrq : s.currentlyProcessing[n]? = some rq) : (s.found k n rq).Handed := by
  have hmem := mem_of_getElem? hrq
  refine h.setThread (fun _ => ⟨rfl, rfl⟩) rfl rfl (fun _ hr => hr) ?_ ?_
  . intro rq' hrq'
    exact .inr (.inl ⟨rq', mem_of_mem_eraseIdx hrq', rfl⟩)
  . intro _ hr
    exact .inr (.inl ⟨rq, hmem, some.inj hr⟩)

theorem Handed.db_step {s s' : System ι κ} (h : s.Handed) (hsteps : s.DbSteps k s')
    : s'.Handed := by
  have hbag (rq) (hrq : rq ∈ s.currentlyProcessing) : s.Uses rq.request := .inr (.inl ⟨rq, hrq, rfl⟩)
  have hsame (r) (hr : (s.threads k).working = some r) : s.Uses r := .inr (.inr ⟨k, .inl hr⟩)
  have hgo {t : System ι κ} {pc : DbPc ι} (hcxns : t.cxns = s.cxns) (hthreads : t.threads = s.threads)
      (hqueue : t.requestQueue = s.requestQueue) (hcurrent : t.currentlyProcessing = s.currentlyProcessing)
      (hfinishing : pc.finishing = none) (hworking : ∀ r, pc.working = some r → s.Uses r)
      : (t.setThread k pc).Handed := by
    refine h.setThread ?_ hthreads hfinishing ?_ ?_ hworking
    . intro i
      rw [hcxns]
      exact ⟨rfl, rfl⟩
    . intro r hr
      rwa [hqueue] at hr
    . intro rq hrq
      rw [hcurrent] at hrq
      exact hbag rq hrq
  have hidle {pc : DbPc ι} (hpc : pc.working = none) (r) (hr : pc.working = some r) : s.Uses r := by
    rw [hpc] at hr
    contradiction
  cases hsteps with
  | wait
  | startIteration
  | endIteration
  | notCancelled
  | noRoom
  | noRequest
  | postDb => exact hgo rfl rfl rfl rfl rfl (hidle rfl)
  | found _ rq hrq => exact h.found hrq
  | popRequest r _ hpc hqueue =>
    refine h.setThread (fun _ => ⟨rfl, rfl⟩) rfl rfl ?_ hbag ?_
    . intro r' hr'
      rw [hqueue]
      exact mem_cons_of_mem r hr'
    . intro r' hr'
      left
      rw [hqueue, ← some.inj hr']
      exact mem_cons_self
  | cancelled _ _ hpc
  | startQuery _ hpc
  | resumeQuery _ _ hpc =>
    rw [hpc] at hsame
    exact hgo rfl rfl rfl rfl rfl hsame
  | statement r _ _ _ _ _ hpc =>
    rw [hpc] at hsame
    refine hgo rfl rfl rfl rfl
      (DbPc.afterStatement_rule (p := fun pc => pc.finishing = none) (fun _ _ => rfl) fun _ _ _ => rfl) ?_
    rw [DbPc.working_afterStatement]
    exact hsame
  | sendResponse r _ queryState hpc => exact h.sendResponse hpc
  | postResponse r queryState hpc =>
    refine h.setThread (t := s.setCxn r.cxn _)
      (fun i => ⟨setCxn_congr Cxn.responseQueue (by rfl) i, setCxn_congr Cxn.generation (by rfl) i⟩) rfl
      (by cases queryState <;> rfl) (fun _ hr => hr) hbag ?_
    cases queryState with
    | none => exact hidle rfl
    | some =>
      rw [hpc] at hsame
      exact hsame
  | bagAdd _ rq hpc =>
    refine h.setThread (fun _ => ⟨rfl, rfl⟩) rfl rfl (fun _ hr => hr) ?_ (hidle rfl)
    intro rq' hrq'
    simp only [List.mem_append, mem_cons] at hrq'
    rcases hrq' with hrq' | rfl | hrq'
    . exact hbag rq' (mem_of_mem_take hrq')
    . exact hsame _ (by rw [hpc]; rfl)
    . exact hbag rq' (mem_of_mem_drop hrq')

theorem Handed.next {s s' : System ι κ} (h : s.Handed) (howned : s.Owned) {ev : Event ι κ}
    (hok : s.PopsAfterPost ev) (hstep : s.next ev = some s') : s'.Handed := by
  have hset {i : ι} {c : Cxn} (hhand : c.handover = (s.cxns i).handover) : (s.setCxn i c).Handed := by
    simp only [Cxn.handover, Prod.mk.injEq] at hhand
    constructor
    . intro j
      rw [setCxn_congr Cxn.responseQueue hhand.2.2.1]
      exact h.finishes_le j
    . intro r hr
      rw [setCxn_congr Cxn.generation hhand.1]
      exact h.generation_eq r hr
  cases next_steps hstep with
  | arrive
  | close
  | select
  | post => exact hset rfl
  | @cxn i _ c _ hsteps => exact h.cxn_step howned hok (hsteps.spec (howned i).inv).2
  | db hsteps => exact h.db_step hsteps

/--
In the runs in which a final response is popped only after its post, a connection has at most one request
in the hands of the database threads, and they use none that the connection has released.
-/
theorem request_unused_after_release (cxns : ι → CacheState × Nat) {s : System ι κ}
    (hreach : ((lts cxns).restrict PopsAfterPost).Reachable s)
    : (∀ i, s.users i ≤ 1) ∧ ∀ r, s.Uses r → (s.cxns r.cxn).released < r.generation := by
  have howned := owned hreach.of_restrict
  have hhanded : s.Handed := by
    apply hreach.invariant_restrict
    . intro s hs
      rw [hs]
      exact handed_init cxns
    . intro s _ _ hs h hok hstep
      exact h.next (owned hs) hok hstep
  constructor
  . intro i
    have hle := hhanded.users_add_released_le howned i
    have hle' := (howned i).generation_le
    omega
  intro r hr
  have hone := one_le_users hr
  have hle := hhanded.users_add_released_le howned r.cxn
  rw [hhanded.generation_eq r hr]
  omega

theorem one_request_outstanding {cxns : ι → CacheState × Nat} {s : System ι κ}
    (hreach : (lts cxns).Reachable s) (i : ι)
    : s.refs i + (s.cxns i).responseQueue.countP (·.isDone) ≤ 1
      ∧ ∀ r ∈ (s.cxns i).responseQueue.dropLast, r.isDone = false := by
  obtain ⟨-, hrefs, hgeneration, hlast, -⟩ := owned hreach i
  exact ⟨by omega, hlast⟩

end Db

end System

def resetQueryReportedTwice : List (Event Unit Unit) :=
  [.arrive () [0, 2, 0, 0, 0, 0, 0, 8], .select (), .post (), .select (), .post (),
    .cxn () .step, .cxn () (.read (.receive 8)), .cxn () .step, .cxn () .step,
    .cxn () (.check 0 0 ⟨false, 0, 0⟩)] ++
  replicate 8 (.db () ⟨⟨[0], [], [], []⟩, false, none, 0⟩)

namespace System

theorem request_unused_after_release_resetQuery
    : ∃ s : System Unit Unit,
        ((lts fun _ => (⟨false, 0, 0⟩, 0)).restrict PopsAfterPost).Reachable s ∧
          s.threads () = .postResponse ⟨(), 1⟩ none ∧
          (∀ i, s.users i ≤ 1) ∧ ∀ r, s.Uses r → (s.cxns r.cxn).released < r.generation := by
  have hrun : ∃ s : System Unit Unit,
      ((lts fun _ => (⟨false, 0, 0⟩, 0)).restrict PopsAfterPost).Reachable s ∧
        s.threads () = .postResponse ⟨(), 1⟩ none :=
    Lts.exists_reachable_restrict_of_foldlM resetQueryReportedTwice (by decide)
  rcases hrun with ⟨s, hreach, hpc⟩
  exact ⟨s, hreach, hpc, request_unused_after_release _ hreach⟩

/--
The second report lets the connection thread pop the final response before the database thread has read
the semaphore from the request.
-/
theorem request_used_after_release
    : ∃ s : System Unit Unit, (lts fun _ => (⟨false, 0, 0⟩, 0)).Reachable s ∧
        ∃ r, s.Uses r ∧ ¬ (s.cxns r.cxn).released < r.generation := by
  have hrun : ∃ s : System Unit Unit, (lts fun _ => (⟨false, 0, 0⟩, 0)).Reachable s ∧
      s.threads () = .postResponse ⟨(), 1⟩ none ∧ (s.cxns ()).released = 1 :=
    Lts.exists_reachable_of_foldlM (resetQueryReportedTwice ++
      [.cxn () .step, .cxn () (.read .wouldBlock), .cxn () .step]) (by decide)
  rcases hrun with ⟨s, hreach, hpc, hreleased⟩
  refine ⟨s, hreach, ⟨(), 1⟩, .inr (.inr ⟨(), .inr ?_⟩), ?_⟩
  . rw [hpc]
    rfl
  . rw [hreleased]
    exact Nat.lt_irrefl 1

theorem one_request_outstanding_resetQuery
    : ∃ s : System Unit Unit, (lts fun _ => (⟨false, 0, 0⟩, 0)).Reachable s
      ∧ (s.cxns ()).responseQueue ≠ []
      ∧ s.refs () + (s.cxns ()).responseQueue.countP (·.isDone) ≤ 1 := by
  have hrun : ∃ s : System Unit Unit, (lts fun _ => (⟨false, 0, 0⟩, 0)).Reachable s
      ∧ (s.cxns ()).responseQueue ≠ [] :=
    Lts.exists_reachable_of_foldlM resetQueryReportedTwice (by decide)
  rcases hrun with ⟨s, hreach, hqueue⟩
  exact ⟨s, hreach, hqueue, (one_request_outstanding hreach ()).1⟩

end System

end Rpstir.Daemon
