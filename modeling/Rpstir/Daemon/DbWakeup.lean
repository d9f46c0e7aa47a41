import Rpstir.Daemon.Lemmas.Ownership

/-!
This module contains that the semaphore of the database threads never loses a wakeup.
-/

namespace Rpstir.Daemon

open List Option

open Count

variable {ι κ : Type}

namespace DbPc

def posts : DbPc ι → Nat
  | postDb => 1
  | _ => 0

def busy : DbPc ι → Nat
  | waitOnSemaphore => 0
  | postDb => 0
  | _ => 1

def token : DbPc ι → Nat
  | startIteration => 1
  | checkCancelRequest _ => 1
  | checkQueueSize _ => 1
  | postDb => 1
  | _ => 0

def seeks : DbPc ι → Nat
  | tryServiceNewRequest => 1
  | pc => pc.token

def iterating : DbPc ι → Bool
  | checkCancelRequest _ => true
  | checkQueueSize _ => true
  | _ => false

theorem token_le_seeks (pc : DbPc ι) : pc.token ≤ pc.seeks := by
  cases pc <;> simp [token, seeks]

theorem seeks_le (pc : DbPc ι) : pc.seeks ≤ pc.posts + pc.busy := by
  cases pc <;> simp [token, seeks, posts, busy]

end DbPc

def Cxn.serviceable (c : Cxn) : Bool :=
  c.request.cancelRequest || c.responseQueue.length < dbResponseBufferLength

variable {c : Cxn}

theorem Cxn.serviceable_of_pushResponse {r : DbResponse} (h : (c.pushResponse r).serviceable = true)
    : c.serviceable = true := by
  simp only [serviceable, pushResponse, length_append, length_singleton, Bool.or_eq_true,
    decide_eq_true_eq] at h ⊢
  apply h.imp_right
  omega

namespace System

def serviceable (s : System ι κ) (rq : DbRequestState ι) : Bool :=
  (s.cxns rq.request.cxn).serviceable

def cancelled (s : System ι κ) (rq : DbRequestState ι) : Bool :=
  (s.cxns rq.request.cxn).request.cancelRequest

def serviceableBefore (s : System ι κ) : DbPc ι → Nat
  | .checkCancelRequest n => (s.currentlyProcessing.take n).countP s.serviceable
  | .checkQueueSize n =>
    (s.currentlyProcessing.take n).countP s.serviceable +
      s.currentlyProcessing[n]?.toList.countP s.cancelled
  | _ => 0

variable {i : ι}

section Cxn

variable [DecidableEq ι]

theorem countP_setCxn_le_add {s : System ι κ} (f : Cxn → Bool) (l : List (DbRequestState ι))
    : l.countP (fun rq => f ((s.setCxn i c).cxns rq.request.cxn))
        ≤ l.countP (fun rq => f (s.cxns rq.request.cxn)) + l.countP (·.request.isOf i) := by
  apply countP_le_add
  intro rq hrq
  by_cases hi : rq.request.cxn = i
  . right
    simpa [RequestRef.isOf] using hi
  . left
    rwa [setCxn_cxns_of_ne _ _ hi] at hrq

theorem countP_setCxn_le {s : System ι κ} {f : Cxn → Bool} (hf : f c = true → f (s.cxns i) = true)
    (l : List (DbRequestState ι))
    : l.countP (fun rq => f ((s.setCxn i c).cxns rq.request.cxn))
        ≤ l.countP (fun rq => f (s.cxns rq.request.cxn)) := by
  apply countP_mono_left
  intro rq _ hrq
  by_cases hi : rq.request.cxn = i
  . rw [hi, setCxn_cxns_self] at hrq
    rw [hi]
    exact hf hrq
  . rwa [setCxn_cxns_of_ne _ _ hi] at hrq

end Cxn

structure Grows (s s' : System ι κ) (g : Nat) : Prop where
  bag : s'.currentlyProcessing.countP s'.serviceable
      ≤ s.currentlyProcessing.countP s.serviceable + g
  passed : ∀ pc, s'.serviceableBefore pc ≤ s.serviceableBefore pc + g

section Grows

variable [DecidableEq ι]

theorem grows_zero {s : System ι κ}
    (hserviceable : c.serviceable = true → (s.cxns i).serviceable = true)
    (hcancel : c.request.cancelRequest = true → (s.cxns i).request.cancelRequest = true)
    : Grows s (s.setCxn i c) 0 where
  bag := countP_setCxn_le hserviceable s.currentlyProcessing
  passed pc := by
    unfold serviceableBefore
    split
    . exact countP_setCxn_le hserviceable _
    . next n =>
      have hpassed := countP_setCxn_le hserviceable (s.currentlyProcessing.take n)
      have hentry := countP_setCxn_le (f := fun c => c.request.cancelRequest) hcancel
        s.currentlyProcessing[n]?.toList
      exact (Nat.add_le_add hpassed hentry).trans (Nat.le_add_right _ 0)
    . exact Nat.le_refl 0

theorem grows_zero_of_handover {s : System ι κ} (hhand : c.handover = (s.cxns i).handover)
    : Grows s (s.setCxn i c) 0 := by
  simp only [Cxn.handover, Prod.mk.injEq] at hhand
  rcases hhand with ⟨-, -, hqueue, hreq⟩
  apply grows_zero
  . simp [Cxn.serviceable, hqueue, hreq]
  . simp [hreq]

theorem grows_refs [Fintype κ] (s : System ι κ) (i : ι) (c : Cxn)
    : Grows s (s.setCxn i c) (s.refs i) where
  bag := by
    have hle := s.countP_setCxn_le_add (i := i) (c := c) Cxn.serviceable s.currentlyProcessing
    have hrefs : s.currentlyProcessing.countP (·.request.isOf i) ≤ s.refs i := by
      simp only [refs]
      omega
    exact hle.trans (Nat.add_le_add_left hrefs _)
  passed pc := by
    have hrefs (n : Nat) : (s.currentlyProcessing.take n).countP (·.request.isOf i) +
        s.currentlyProcessing[n]?.toList.countP (·.request.isOf i) ≤ s.refs i := by
      rw [← countP_append, ← take_add_one]
      have hle := (take_sublist (n + 1) s.currentlyProcessing).countP_le
        (p := fun rq => rq.request.isOf i)
      simp only [refs]
      omega
    unfold serviceableBefore
    split
    . next n =>
      have hle := s.countP_setCxn_le_add (i := i) (c := c) Cxn.serviceable
        (s.currentlyProcessing.take n)
      exact hle.trans (Nat.add_le_add_left (Nat.le_of_add_right_le (hrefs n)) _)
    . next n =>
      have hpassed := s.countP_setCxn_le_add (i := i) (c := c) Cxn.serviceable
        (s.currentlyProcessing.take n)
      have hentry := s.countP_setCxn_le_add (i := i) (c := c) (fun c => c.request.cancelRequest)
        s.currentlyProcessing[n]?.toList
      refine (Nat.add_le_add hpassed hentry).trans ?_
      rw [Nat.add_add_add_comm]
      exact Nat.add_le_add_left (hrefs n) _
    . exact Nat.zero_le _

end Grows

def posted [Fintype ι] (s : System ι κ) : Nat :=
  s.semaphore + total (·.pc.posts) s.cxns

theorem posted_setCxn [Fintype ι] [DecidableEq ι] (s : System ι κ) (i : ι) (c : Cxn)
    : (s.setCxn i c).posted + (s.cxns i).pc.posts = s.posted + c.pc.posts := by
  have h := total_update (fun c : Cxn => c.pc.posts) s.cxns i c
  simp only [posted, setCxn]
  omega

variable [Fintype ι] [Fintype κ]

structure Tokens (s : System ι κ) : Prop where
  lock : ∀ k, (s.threads k).iterating = true → s.lock = some k
  bag : s.currentlyProcessing.countP s.serviceable ≤ s.posted + total DbPc.token s.threads
  queue : s.requestQueue.length + s.currentlyProcessing.countP s.serviceable
      ≤ s.posted + total DbPc.seeks s.threads
  passed : ∀ k, (s.threads k).iterating = true →
      s.serviceableBefore (s.threads k) + 1 ≤ s.posted + total DbPc.token s.threads

theorem tokens_init (cxns : ι → CacheState × Nat) : (init cxns : System ι κ).Tokens := by
  constructor <;> simp [init, DbPc.iterating]

theorem Tokens.of_grows {s s' : System ι κ} {g : Nat} (gain : Nat) (h : s.Tokens)
    (hgrows : Grows s s' g)
    (hlock : s'.lock = s.lock) (hthreads : s'.threads = s.threads)
    (hposted : s'.posted = s.posted + gain) (hgain : g ≤ gain)
    (hqueue : s'.requestQueue.length + g ≤ s.requestQueue.length + gain) : s'.Tokens := by
  have hbag := hgrows.bag
  constructor
  . rw [hthreads, hlock]
    exact h.lock
  . rw [hthreads, hposted]
    have hle := h.bag
    omega
  . rw [hthreads, hposted]
    have hle := h.queue
    omega
  intro k hk
  rw [hthreads] at hk
  rw [hthreads, hposted]
  have hle := h.passed k hk
  have hpassed := hgrows.passed (s.threads k)
  omega

section Steps

variable [DecidableEq ι]

variable {s : System ι κ} {k : κ}

variable {pc : DbPc ι}

theorem Tokens.cxn_step (h : s.Tokens) (howned : s.Owned) {effect : CxnEffect}
    (hmoves : (s.cxns i).Moves c effect) : ((s.setCxn i c).applyEffect i effect).Tokens := by
  have hposted := s.posted_setCxn i c
  have hrefs := (howned i).refs_eq
  have hle := (howned i).generation_le
  have hgrows := s.grows_refs i c
  cases hmoves with
  | quiet hhand =>
    have hzero := grows_zero_of_handover hhand
    exact h.of_grows 0 hzero rfl rfl (by simp only [applyEffect]; omega) (Nat.le_refl 0) (Nat.le_refl _)
  | post hhand =>
    have hzero := grows_zero_of_handover hhand
    refine h.of_grows 0 ⟨hzero.bag, hzero.passed⟩ rfl rfl ?_ (Nat.le_refl 0) (Nat.le_refl _)
    simp only [applyEffect, posted] at hposted ⊢
    omega
  | push =>
    refine h.of_grows 1 ⟨hgrows.bag, hgrows.passed⟩ rfl rfl ?_ (by omega) ?_
    . simp only [applyEffect, posted] at hposted ⊢
      omega
    . simp only [applyEffect, setCxn, length_append, length_singleton]
      omega
  | pop r _ hqueue _ _ _ _ hposts' =>
    rcases hposts' with hposts' | ⟨hcancel, hposts'⟩
    . refine h.of_grows 1 hgrows rfl rfl ?_ (by omega) ?_
      . simp only [applyEffect]
        omega
      . simp only [applyEffect, setCxn]
        omega
    have hzero : Grows s (s.setCxn i c) 0 := by
      apply grows_zero
      . simp [Cxn.serviceable, hcancel]
      . simp [hcancel]
    exact h.of_grows 0 hzero rfl rfl (by simp only [applyEffect]; omega) (Nat.le_refl 0)
      (Nat.le_refl _)
  | popDone r hdone _ hqueue =>
    rw [hqueue, countP_cons_of_pos hdone] at hrefs
    have hnone : s.refs i = 0 := by omega
    rw [hnone] at hgrows
    exact h.of_grows 0 hgrows rfl rfl (by simp only [applyEffect]; omega) (Nat.le_refl 0)
      (Nat.le_refl _)
  | cancel =>
    refine h.of_grows 1 hgrows rfl rfl ?_ (by omega) ?_
    . simp only [applyEffect]
      omega
    . simp only [applyEffect, setCxn]
      omega

variable [DecidableEq κ]

omit [DecidableEq ι] in
theorem Tokens.setThread {s t : System ι κ} (h : s.Tokens) (hthreads : t.threads = s.threads)
    (hlock : t.lock = s.lock) (hgrows : Grows s t 0) (hnew : pc.iterating = false)
    (htoken : s.posted + (s.threads k).token ≤ t.posted + pc.token)
    (hseeks : t.requestQueue = [] ∨ t.requestQueue.length + s.posted + (s.threads k).seeks
      ≤ s.requestQueue.length + t.posted + pc.seeks) : (t.setThread k pc).Tokens := by
  have hbag := hgrows.bag
  have htokens := total_update DbPc.token s.threads k pc
  have hseekers := total_update DbPc.seeks s.threads k pc
  have hother {l : κ} (hl : ((t.setThread k pc).threads l).iterating = true)
      : (t.setThread k pc).threads l = s.threads l := by
    by_cases hlk : l = k
    . rw [hlk, setThread_threads_self, hnew] at hl
      contradiction
    . rw [setThread_threads_of_ne _ _ hlk, hthreads]
  constructor
  . intro l hl
    rw [hother hl] at hl
    exact hlock.trans (h.lock l hl)
  . have hle := h.bag
    simp only [System.setThread, hthreads]
    change t.currentlyProcessing.countP t.serviceable ≤ t.posted + _
    omega
  . have hle := h.queue
    have hle' := h.bag
    have hmono := total_mono DbPc.token_le_seeks (Function.update s.threads k pc)
    simp only [System.setThread, hthreads]
    change t.requestQueue.length + t.currentlyProcessing.countP t.serviceable ≤ t.posted + _
    rcases hseeks with hempty | hseeks
    . rw [hempty, length_nil]
      omega
    . omega
  intro l hl
  have hl' := hother hl
  rw [hl'] at hl ⊢
  have hle := h.passed l hl
  have hpassed := hgrows.passed (s.threads l)
  simp only [System.setThread, hthreads]
  change t.serviceableBefore (s.threads l) + 1 ≤ t.posted + _
  omega

omit [DecidableEq ι] in
theorem Tokens.of_sole {s t : System ι κ} (hthreads : t.threads = s.threads)
    (hothers : ∀ l, l ≠ k → (s.threads l).iterating = false)
    (hlock : pc.iterating = true → t.lock = some k)
    (hbag : t.currentlyProcessing.countP t.serviceable + (s.threads k).token
      ≤ t.posted + total DbPc.token s.threads + pc.token)
    (hqueue : t.requestQueue.length + t.currentlyProcessing.countP t.serviceable +
      (s.threads k).seeks ≤ t.posted + total DbPc.seeks s.threads + pc.seeks)
    (hpassed : pc.iterating = true → t.serviceableBefore pc + 1 + (s.threads k).token
      ≤ t.posted + total DbPc.token s.threads + pc.token) : (t.setThread k pc).Tokens := by
  have htokens := total_update DbPc.token s.threads k pc
  have hseekers := total_update DbPc.seeks s.threads k pc
  have hsole {l : κ} (hl : ((t.setThread k pc).threads l).iterating = true) : l = k := by
    by_cases hlk : l = k
    . exact hlk
    . rw [setThread_threads_of_ne _ _ hlk, hthreads, hothers l hlk] at hl
      contradiction
  constructor
  . intro l hl
    have hlk := hsole hl
    rw [hlk] at hl ⊢
    rw [setThread_threads_self] at hl
    exact hlock hl
  . simp only [System.setThread, hthreads]
    change t.currentlyProcessing.countP t.serviceable ≤ t.posted + _
    omega
  . simp only [System.setThread, hthreads]
    change t.requestQueue.length + t.currentlyProcessing.countP t.serviceable ≤ t.posted + _
    omega
  intro l hl
  have hlk := hsole hl
  rw [hlk, setThread_threads_self] at hl ⊢
  have hle := hpassed hl
  simp only [System.setThread, hthreads]
  change t.serviceableBefore pc + 1 ≤ t.posted + _
  omega

omit [DecidableEq ι] [DecidableEq κ] in
theorem Tokens.sole_of_lock (h : s.Tokens) (hlock : ∀ l ∈ s.lock, l = k) (l : κ) (hl : l ≠ k)
    : (s.threads l).iterating = false := by
  cases hiter : (s.threads l).iterating with
  | false => rfl
  | true => exact absurd (hlock l (h.lock l hiter)) hl

omit [DecidableEq ι] [DecidableEq κ] in
theorem Tokens.sole_of_iterating (h : s.Tokens) (hk : (s.threads k).iterating = true)
    : ∀ l, l ≠ k → (s.threads l).iterating = false :=
  h.sole_of_lock (by simp [h.lock k hk])

omit [DecidableEq ι] in
theorem Tokens.goOn (h : s.Tokens) (hiter : (s.threads k).iterating = true)
    (htoken : (s.threads k).token = pc.token) (hseeks : (s.threads k).seeks = pc.seeks)
    (hpassed : s.serviceableBefore pc ≤ s.serviceableBefore (s.threads k)) : (s.setThread k pc).Tokens := by
  have hbag := h.bag
  have hqueue := h.queue
  have hold := h.passed k hiter
  refine Tokens.of_sole rfl (h.sole_of_iterating hiter) (fun _ => h.lock k hiter) ?_ ?_ fun _ => ?_
  all_goals omega

omit [DecidableEq ι] in
theorem Tokens.found (h : s.Tokens) {n : Nat} {rq : DbRequestState ι}
    (hrq : s.currentlyProcessing[n]? = some rq) (hserviceable : s.serviceable rq = true)
    (hiter : (s.threads k).iterating = true) (htoken : (s.threads k).token = 1)
    (hseeks : (s.threads k).seeks = 1) : (s.found k n rq).Tokens := by
  have hcount := countP_eraseIdx_add (p := s.serviceable) hrq
  rw [countP_singleton, if_pos hserviceable] at hcount
  have hbag := h.bag
  have hqueue := h.queue
  refine Tokens.of_sole (s := s) (t := { s with
    currentlyProcessing := s.currentlyProcessing.eraseIdx n, lock := none }) rfl
    (h.sole_of_iterating hiter) (by simp [DbPc.iterating]) ?_ ?_ (by simp [DbPc.iterating])
  . change (s.currentlyProcessing.eraseIdx n).countP s.serviceable + _ ≤ s.posted + _ + 0
    omega
  . change s.requestQueue.length + (s.currentlyProcessing.eraseIdx n).countP s.serviceable + _
      ≤ s.posted + _ + 0
    omega

theorem Tokens.db_step {s s' : System ι κ} (h : s.Tokens) (hsteps : s.DbSteps k s')
    : s'.Tokens := by
  have hbag := h.bag
  have hqueue := h.queue
  have hsame : Grows s s 0 := ⟨Nat.le_refl _, fun _ => Nat.le_refl _⟩
  have hgo {pc : DbPc ι} (hnew : pc.iterating = false) (htoken : (s.threads k).token = 0)
      (hseeks : (s.threads k).seeks = 0) : (s.setThread k pc).Tokens := by
    refine h.setThread rfl rfl hsame hnew ?_ (.inr ?_)
    . omega
    . omega
  cases hsteps with
  | wait hpc =>
    refine h.setThread rfl rfl ⟨hsame.bag, hsame.passed⟩ rfl ?_ (.inr ?_)
    all_goals
      simp only [hpc, posted, DbPc.token, DbPc.seeks]
      omega
  | startIteration hpc hlock =>
    refine Tokens.of_sole (s := s) (t := { s with lock := some k }) rfl (h.sole_of_lock (by simp [hlock]))
      (fun _ => rfl) ?_ ?_ ?_
    . simp only [hpc, DbPc.token]
      exact Nat.add_le_add_right hbag 1
    . simp only [hpc, DbPc.token, DbPc.seeks]
      exact Nat.add_le_add_right hqueue 1
    intro _
    have hle := le_total DbPc.token s.threads k
    simp only [hpc, DbPc.token] at hle ⊢
    simp only [serviceableBefore, take_zero, countP_nil]
    omega
  | endIteration n hpc hrq =>
    have hiter : (s.threads k).iterating = true := by rw [hpc]; rfl
    have hpassed := h.passed k hiter
    simp only [hpc, serviceableBefore] at hpassed
    rw [take_of_length_le (List.getElem?_eq_none_iff.mp hrq)] at hpassed
    refine Tokens.of_sole (s := s) (t := { s with lock := none }) rfl (h.sole_of_iterating hiter)
      (by simp [DbPc.iterating]) ?_ ?_ (by simp [DbPc.iterating])
    . simp only [hpc, DbPc.token]
      exact hpassed
    . simp only [hpc, DbPc.token, DbPc.seeks]
      exact Nat.add_le_add_right hqueue 1
  | found n rq hrq hpc =>
    rcases hpc with ⟨hpc, hcancel⟩ | ⟨hpc, hsize⟩
    . apply h.found hrq (by simp [serviceable, Cxn.serviceable, hcancel]) <;> rw [hpc] <;> rfl
    . apply h.found hrq (by simp [serviceable, Cxn.serviceable, hsize]) <;> rw [hpc] <;> rfl
  | notCancelled n rq hpc hrq hcancel =>
    have hnot : s.cancelled rq = false := by simpa [cancelled] using hcancel
    apply h.goOn <;> rw [hpc]
    any_goals rfl
    simp [serviceableBefore, hrq, hnot]
  | noRoom n rq hpc hrq hfull =>
    -- The queue is full, so the request is serviceable just if it has been cancelled since.
    have heq : s.serviceable rq = s.cancelled rq := by
      simp [serviceable, cancelled, Cxn.serviceable, Nat.not_lt.mpr hfull]
    apply h.goOn <;> rw [hpc]
    any_goals rfl
    simp [serviceableBefore, countP_take_succ hrq, countP_cons, hrq, heq]
  | noRequest hpc hempty =>
    refine h.setThread rfl rfl hsame rfl ?_ (.inl hempty)
    simp only [hpc, DbPc.token]
    omega
  | popRequest r queue hpc hqueue =>
    refine h.setThread rfl rfl ⟨hsame.bag, hsame.passed⟩ rfl ?_ (.inr ?_)
    . simp only [hpc, posted, DbPc.token]
      omega
    . simp only [hpc, posted, DbPc.token, DbPc.seeks, hqueue, length_cons]
      omega
  | cancelled _ _ hpc
  | startQuery _ hpc
  | resumeQuery _ _ hpc => exact hgo rfl (by rw [hpc]; rfl) (by rw [hpc]; rfl)
  | statement r _ _ _ _ _ hpc =>
    exact hgo
      (DbPc.afterStatement_rule (p := fun pc => pc.iterating = false) (fun _ _ => rfl) fun _ _ _ => rfl)
      (by rw [hpc]; rfl) (by rw [hpc]; rfl)
  | sendResponse r pdus queryState hpc =>
    have hposted := s.posted_setCxn r.cxn ((s.cxns r.cxn).pushResponse ⟨pdus, queryState.isNone⟩)
    refine h.setThread (t := s.setCxn r.cxn _) rfl rfl (grows_zero ?_ ?_) rfl ?_ (.inr ?_)
    . exact Cxn.serviceable_of_pushResponse
    . exact id
    all_goals
      simp only [hpc, DbPc.token, DbPc.seeks, setCxn, Cxn.pushResponse] at hposted ⊢
      omega
  | postResponse r queryState hpc =>
    have hposted := s.posted_setCxn r.cxn (s.cxns r.cxn).semPost
    refine h.setThread (t := s.setCxn r.cxn _) rfl rfl (grows_zero_of_handover rfl) ?_ ?_ (.inr ?_)
    . cases queryState <;> rfl
    all_goals
      simp only [hpc, DbPc.token, DbPc.seeks, setCxn, Cxn.semPost] at hposted ⊢
      omega
  | bagAdd position rq hpc hlock =>
    have hcount := countP_take_cons_drop s.serviceable s.currentlyProcessing position rq
    have hone : [rq].countP s.serviceable ≤ 1 := countP_le_length
    refine Tokens.of_sole (s := s) (t := { s with
      currentlyProcessing :=
        s.currentlyProcessing.take position ++ rq :: s.currentlyProcessing.drop position })
      rfl (h.sole_of_lock (by simp [hlock])) (by simp [DbPc.iterating]) ?_ ?_ (by simp [DbPc.iterating])
    . change List.countP s.serviceable _ + _ ≤ s.posted + _ + 1
      simp only [hpc, DbPc.token, hcount]
      omega
    . change _ + List.countP s.serviceable _ + _ ≤ s.posted + _ + 1
      simp only [hpc, DbPc.token, DbPc.seeks, hcount]
      omega
  | postDb hpc =>
    refine h.setThread (t := { s with semaphore := s.semaphore + 1 }) rfl rfl
      ⟨hsame.bag, hsame.passed⟩ rfl ?_ (.inr ?_)
    all_goals
      simp only [hpc, posted, DbPc.token, DbPc.seeks]
      omega

theorem Tokens.next {s s' : System ι κ} (h : s.Tokens) (howned : s.Owned) {ev : Event ι κ}
    (hstep : s.next ev = some s') : s'.Tokens := by
  have hset {i : ι} {c : Cxn} (hhand : c.handover = (s.cxns i).handover) (hpc : c.pc = (s.cxns i).pc)
      : (s.setCxn i c).Tokens := by
    have hposted := s.posted_setCxn i c
    rw [hpc] at hposted
    refine h.of_grows 0 (grows_zero_of_handover hhand) rfl rfl ?_ (Nat.le_refl 0) (Nat.le_refl _)
    omega
  cases next_steps hstep with
  | arrive
  | close
  | select
  | post => exact hset rfl rfl
  | @cxn i _ c _ hsteps => exact h.cxn_step howned (hsteps.spec (howned i).inv).2
  | db hsteps => exact h.db_step hsteps

theorem tokens {cxns : ι → CacheState × Nat} (hreach : (lts cxns).Reachable s)
    : s.Tokens := by
  have h : s.Owned ∧ s.Tokens := by
    apply hreach.invariant
    . intro s hs
      rw [hs]
      exact ⟨owned_init cxns, tokens_init cxns⟩
    . intro s _ _ h hstep
      exact ⟨h.1.next hstep, h.2.next h.1 hstep⟩
  exact h.2

end Steps

def committedPosts (s : System ι κ) : Nat :=
  total (·.pc.posts) s.cxns + total DbPc.posts s.threads

def waitingRequests (s : System ι κ) : Nat :=
  s.requestQueue.length + s.currentlyProcessing.countP s.serviceable

theorem db_wakeup_not_lost [DecidableEq ι] [DecidableEq κ] (cxns : ι → CacheState × Nat)
    {s : System ι κ} (hreach : (lts cxns).Reachable s)
    : s.waitingRequests ≤ s.semaphore + s.committedPosts + total DbPc.busy s.threads ∧
        ((∀ k, s.threads k = .waitOnSemaphore) → 0 < s.waitingRequests →
          0 < s.semaphore ∨ ∃ i, 0 < (s.cxns i).pc.posts) := by
  have hqueue := (tokens hreach).queue
  have hseeks := total_mono DbPc.seeks_le s.threads
  rw [total_add] at hseeks
  constructor
  . simp only [waitingRequests, committedPosts, posted] at hqueue ⊢
    omega
  intro hwait hpos
  have hnone : total DbPc.seeks s.threads = 0 := by
    apply total_eq_zero
    intro k
    rw [hwait k]
    rfl
  by_cases hsem : 0 < s.semaphore
  . exact .inl hsem
  right
  by_contra hnot
  have hposts : total (fun c : Cxn => c.pc.posts) s.cxns = 0 := by
    apply total_eq_zero
    intro i
    have hi := not_exists.mp hnot i
    omega
  simp only [waitingRequests, posted] at hpos hqueue
  omega

theorem db_wakeup_not_lost_firstQuery
    : ∃ s : System Unit Unit,
        (lts fun _ => (⟨false, 0, 0⟩, 0)).Reachable s ∧ s.requestQueue.length = 1 ∧
          s.semaphore = 0 ∧
          s.waitingRequests ≤ s.semaphore + s.committedPosts + total DbPc.busy s.threads ∧
          ((∀ k, s.threads k = .waitOnSemaphore) → 0 < s.waitingRequests →
            0 < s.semaphore ∨ ∃ i, 0 < (s.cxns i).pc.posts) := by
  have hrun : ∃ s : System Unit Unit,
      (lts fun _ => (⟨false, 0, 0⟩, 0)).Reachable s ∧ s.requestQueue.length = 1 ∧ s.semaphore = 0 :=
    Lts.exists_reachable_of_foldlM
      [.arrive () [0, 2, 0, 0, 0, 0, 0, 8], .select (), .post (), .cxn () .step,
        .cxn () (.read (.receive 8)), .cxn () .step] (by decide)
  rcases hrun with ⟨s, hreach, hqueue, hsem⟩
  exact ⟨s, hreach, hqueue, hsem, db_wakeup_not_lost _ hreach⟩

end System

end Rpstir.Daemon
