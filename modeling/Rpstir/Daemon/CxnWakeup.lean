import Rpstir.Daemon.Lemmas.Ownership

/-!
This module contains when the semaphore of a connection thread does not lose a wakeup.
-/

namespace Rpstir.Daemon

open List

open Count

variable {ι κ : Type}

namespace CxnPc

def awake : CxnPc → Bool
  | readNonblock => true
  | tryPopResponse => true
  | cleanupTryPop => true
  | _ => false

end CxnPc

def CxnAction.takesData : CxnAction → Bool
  | read (.receive _) => true
  | abort => true
  | _ => false

def Cxn.inHand (c : Cxn) : Nat :=
  if c.state = .responding ∧ c.pc.awake = true then 1 else 0

namespace DbPc

def postsTo [DecidableEq ι] (i : ι) : DbPc ι → Nat
  | postResponse r _ => [r].countP (·.isOf i)
  | _ => 0

end DbPc

variable {effect : CxnEffect} {a : CxnAction}

namespace Cxn

variable {c : Cxn}

theorem inHand_of_not_awake (h : c.pc.awake = false) : c.inHand = 0 := by
  simp [inHand, h]

theorem Handles.frame {c' : Cxn} {q : Received} {fromRecvBuffer : Bool}
    (h : Handles c q fromRecvBuffer c' effect)
    : c'.closed = c.closed ∧ c'.responseQueue = c.responseQueue ∧ c'.semaphore = c.semaphore := by
  cases h <;> exact ⟨rfl, rfl, rfl⟩

theorem Steps.inHand {c' : Cxn} (h : Steps c a c' effect) (hinv : c.Inv)
    (hready : c.state = .ready → c.responseQueue = [])
    (hok : c.state = .responding → c.pc = .readNonblock → a.takesData = false)
    : c'.closed = c.closed ∧
        (c.closed = true ∨ c'.responseQueue = [] ∨
          c'.responseQueue.length + (c.semaphore + c.inHand)
            ≤ c.responseQueue.length + (c'.semaphore + c'.inHand)) := by
  have hasleep (hqueue : c'.responseQueue = c.responseQueue) (hsem : c'.semaphore = c.semaphore)
      (hhand : c.inHand = 0)
      : c'.responseQueue = [] ∨ c'.responseQueue.length + (c.semaphore + c.inHand)
          ≤ c.responseQueue.length + (c'.semaphore + c'.inHand) := by
    right
    rw [hqueue, hsem, hhand]
    omega
  have hread (hpc : c.pc.reading = true) (htakes : a.takesData = true) : c.inHand = 0 := by
    cases hstate : c.state with
    | ready => simp [Cxn.inHand, hstate]
    | responding =>
      apply inHand_of_not_awake
      cases hpc' : c.pc <;> simp_all [CxnPc.reading, CxnPc.awake]
  cases h with
  | wait hpc =>
    refine ⟨rfl, .inr ?_⟩
    cases hstate : c.state with
    | ready => exact .inl (hready hstate)
    | responding =>
      right
      simp only [Cxn.inHand, hpc, hstate, CxnPc.awake, and_self, if_true]
      simp
      omega
  | timeout hpc hstate => exact ⟨rfl, .inr (.inl (hready hstate))⟩
  | wouldBlock pc hpc hpc' =>
    refine ⟨rfl, .inr ?_⟩
    rcases hpc' with ⟨hstate, rfl⟩ | ⟨hstate, rfl⟩
    . right
      simp [Cxn.inHand, hpc, hstate, CxnPc.awake]
    . exact .inl (hready hstate)
  | readMore _ _ _ hreads
  | receive _ _ _ _ hreads
  | readError _ _ _ _ _ _ _ hreads
  | readExit _ _ _ hreads =>
    exact ⟨rfl, .inr (hasleep rfl rfl (hread hreads.reading rfl))⟩
  | eof hpc hclosed => exact ⟨rfl, .inl hclosed⟩
  | abortRead hpc => exact ⟨rfl, .inr (hasleep rfl rfl (hread hpc rfl))⟩
  | exit a _ _ hpc =>
    have hawake : c.pc.awake = false := by
      revert hpc
      cases c.pc <;> simp [CxnPc.mayExit, CxnPc.awake]
    exact ⟨rfl, .inr (hasleep rfl rfl (inHand_of_not_awake hawake))⟩
  | handlePdu _ _ hpc hhandles
  | tryPopToProcess _ _ hpc _ _ hhandles =>
    rcases hhandles.frame with ⟨hclosed, hqueue, hsem⟩
    exact ⟨hclosed, .inr (hasleep hqueue hsem (inHand_of_not_awake (by rw [hpc]; rfl)))⟩
  | toProcessDone hpc
  | postRequest _ hpc
  | postResponse _ hpc
  | responded _ _ _ hpc
  | cancel hpc
  | leave hpc
  | postCancel hpc
  | sendCacheReset _ _ _ hpc
  | sendError _ _ hpc
  | sendResponse _ _ _ _ _ _ hpc
  | sendNotify _ hpc
  | check _ _ _ _ _ _ hpc =>
    exact ⟨rfl, .inr (hasleep rfl rfl (inHand_of_not_awake (by rw [hpc]; rfl)))⟩
  | noResponse _ hqueue
  | cleanupNoResponse _ hqueue => exact ⟨rfl, .inr (.inl hqueue)⟩
  | popResponse _ _ _ _ hqueue
  | cleanupPop _ _ _ _ hqueue =>
    refine ⟨rfl, .inr (.inr ?_)⟩
    have hle : c.inHand ≤ 1 := by
      unfold Cxn.inHand
      split <;> omega
    simp only [Cxn.popResponse, hqueue, length_cons]
    omega
  | cleanupWait hpc =>
    have hdraining := hinv.draining (by rw [hpc]; rfl)
    refine ⟨rfl, .inr (.inr ?_)⟩
    simp [Cxn.inHand, hpc, hdraining.1, CxnPc.awake]
    omega

end Cxn

namespace System

def KeepsPosts (s : System ι κ) : Event ι κ → Prop
  | .cxn i a =>
    (s.cxns i).state = .responding → (s.cxns i).pc = .readNonblock → a.takesData = false
  | _ => True

instance (s : System ι κ) : (ev : Event ι κ) → Decidable (s.KeepsPosts ev)
  | .cxn i _ => inferInstanceAs (Decidable ((s.cxns i).state = .responding → _ → _))
  | .arrive _ _ | .close _ | .select _ | .post _ | .db _ _ => .isTrue trivial

variable [DecidableEq ι] [Fintype κ]

def Woken (s : System ι κ) : Prop :=
  ∀ i, (s.cxns i).closed = true ∨
    (s.cxns i).responseQueue.length
      ≤ (s.cxns i).semaphore + (s.cxns i).inHand + total (DbPc.postsTo i) s.threads

theorem woken_init (cxns : ι → CacheState × Nat) : (init cxns : System ι κ).Woken := by
  intro _
  right
  simp [init, Cxn.init]

variable {s : System ι κ} {i : ι}

theorem Woken.setCxn (h : s.Woken) {c : Cxn} (hclosed : (s.cxns i).closed = true → c.closed = true)
    (hc : c.closed = true ∨ c.responseQueue = [] ∨
      c.responseQueue.length + ((s.cxns i).semaphore + (s.cxns i).inHand)
        ≤ (s.cxns i).responseQueue.length + (c.semaphore + c.inHand)) : (s.setCxn i c).Woken := by
  refine forall_setCxn (p := fun j c => c.closed = true ∨
    c.responseQueue.length ≤ c.semaphore + c.inHand + total (DbPc.postsTo j) s.threads) ?_ h
  rcases h i with hold | hold
  . exact .inl (hclosed hold)
  rcases hc with hc | hc | hc
  . exact .inl hc
  . exact .inr (hc ▸ Nat.zero_le _)
  . exact .inr (by omega)

theorem responseQueue_eq_nil (howned : s.Owned) (hstate : (s.cxns i).state = .ready)
    : (s.cxns i).responseQueue = [] := by
  apply (howned i).queue_nil
  have hle := (howned i).inv.released_le
  have hlt : ¬ (s.cxns i).released < (s.cxns i).generation := by
    rw [(howned i).inv.released_lt_iff]
    simp [Cxn.Outstanding, hstate]
  omega

theorem Woken.cxn_step (h : s.Woken) (howned : s.Owned) {c : Cxn} (hok : s.KeepsPosts (.cxn i a))
    (hsteps : (s.cxns i).Steps a c effect) : ((s.setCxn i c).applyEffect i effect).Woken := by
  rcases hsteps.inHand (howned i).inv (responseQueue_eq_nil howned) hok with ⟨hclosed, hc⟩
  rw [← hclosed] at hc
  have hset : (s.setCxn i c).Woken := by
    apply h.setCxn _ hc
    rw [hclosed]
    exact id
  cases effect <;> exact hset

section Db

variable [DecidableEq κ]

variable {s : System ι κ} {k : κ}

variable {queryState : Option DbQueryState} {r : RequestRef ι}

theorem Woken.setThread (h : s.Woken) {pc : DbPc ι} (hposts : ∀ i, (s.threads k).postsTo i = 0)
    (hposts' : ∀ i, pc.postsTo i = 0) : (s.setThread k pc).Woken := by
  intro i
  have hupdate := total_update (DbPc.postsTo i) s.threads k pc
  have hzero := hposts i
  have hzero' := hposts' i
  have htotal : total (DbPc.postsTo i) (s.setThread k pc).threads = total (DbPc.postsTo i) s.threads := by
    simp only [System.setThread]
    omega
  rw [htotal]
  exact h i

theorem Woken.respond (h : s.Woken) {c : Cxn} {pc : DbPc ι} (hclosed : c.closed = (s.cxns i).closed)
    (hhand : c.inHand = (s.cxns i).inHand)
    (hc : c.responseQueue.length + (s.cxns i).semaphore + (s.threads k).postsTo i
      ≤ (s.cxns i).responseQueue.length + c.semaphore + pc.postsTo i)
    (hother : ∀ j ≠ i, (s.threads k).postsTo j = pc.postsTo j) : ((s.setCxn i c).setThread k pc).Woken := by
  have hupdate (j : ι) := total_update (DbPc.postsTo j) s.threads k pc
  refine (Function.forall_update_iff _ fun j (c : Cxn) => c.closed = true ∨ c.responseQueue.length
    ≤ c.semaphore + c.inHand + total (DbPc.postsTo j) (Function.update s.threads k pc)).mpr ⟨?_, ?_⟩
  . rw [hclosed, hhand]
    apply (h i).imp_right
    have := hupdate i
    omega
  . intro j hij
    apply (h j).imp_right
    have := hupdate j
    have := hother j hij
    omega

theorem Woken.sendResponse (h : s.Woken) {pdus : List Wire.Pdu}
    (hpc : s.threads k = .sendResponse r pdus queryState)
    : (s.respond k r pdus queryState).Woken := by
  refine h.respond rfl rfl ?_ ?_
  . simp [hpc, Cxn.pushResponse, DbPc.postsTo, RequestRef.isOf]
    omega
  . intro j hj
    simp [hpc, DbPc.postsTo, RequestRef.isOf, hj.symm]

theorem Woken.postResponse (h : s.Woken) (hpc : s.threads k = .postResponse r queryState)
    : ((s.setCxn r.cxn (s.cxns r.cxn).semPost).setThread k (.afterPost r queryState)).Woken := by
  have hposts (i : ι) : (DbPc.afterPost r queryState).postsTo i = 0 := by cases queryState <;> rfl
  refine h.respond rfl rfl ?_ ?_
  . rw [hposts, hpc]
    have hone : [r].countP (·.isOf r.cxn) = 1 := by simp [RequestRef.isOf]
    simp only [Cxn.semPost, DbPc.postsTo, hone]
    omega
  . intro j hj
    rw [hposts, hpc]
    simp [DbPc.postsTo, RequestRef.isOf, hj.symm]

theorem Woken.db_step {s' : System ι κ} (h : s.Woken) (hsteps : s.DbSteps k s') : s'.Woken := by
  have hgo {t : System ι κ} {pc : DbPc ι} (hcxns : t.cxns = s.cxns) (hthreads : t.threads = s.threads)
      (hposts : ∀ i, (s.threads k).postsTo i = 0) (hposts' : ∀ i, pc.postsTo i = 0)
      : (t.setThread k pc).Woken := by
    have ht : t.Woken := by
      intro i
      rw [hcxns, hthreads]
      exact h i
    apply ht.setThread _ hposts'
    rw [hthreads]
    exact hposts
  cases hsteps with
  | wait hpc
  | startIteration hpc
  | endIteration _ hpc
  | notCancelled _ _ hpc
  | noRoom _ _ hpc
  | noRequest hpc
  | popRequest _ _ hpc
  | cancelled _ _ hpc
  | startQuery _ hpc
  | resumeQuery _ _ hpc
  | bagAdd _ _ hpc
  | postDb hpc => exact hgo rfl rfl (by rw [hpc]; exact fun _ => rfl) fun _ => rfl
  | found _ _ _ hpc =>
    refine hgo rfl rfl ?_ fun _ => rfl
    rcases hpc with ⟨hpc, -⟩ | ⟨hpc, -⟩ <;> rw [hpc] <;> exact fun _ => rfl
  | statement r _ _ _ _ _ hpc =>
    exact hgo rfl rfl (by rw [hpc]; exact fun _ => rfl) fun i =>
      DbPc.afterStatement_rule (p := fun pc => pc.postsTo i = 0) (fun _ _ => rfl) fun _ _ _ => rfl
  | sendResponse r _ queryState hpc => exact h.sendResponse hpc
  | postResponse r queryState hpc => exact h.postResponse hpc

theorem Woken.next {s' : System ι κ} (h : s.Woken) (howned : s.Owned) {ev : Event ι κ}
    (hok : s.KeepsPosts ev) (hstep : s.next ev = some s') : s'.Woken := by
  cases next_steps hstep with
  | arrive
  | select => exact h.setCxn id (.inr (.inr (Nat.le_refl _)))
  | close => exact h.setCxn (fun _ => rfl) (.inl rfl)
  | post i =>
    refine h.setCxn id (.inr (.inr ?_))
    have hhand : ({ (s.cxns i).semPost with selected := false } : Cxn).inHand = (s.cxns i).inHand := rfl
    rw [hhand]
    simp only [Cxn.semPost]
    omega
  | cxn hsteps => exact h.cxn_step howned hok hsteps
  | db hsteps => exact h.db_step hsteps

end Db

/--
Some thread is about to post the semaphore of connection `i`: a database thread that has pushed a
response, or the control thread, to which `select` reports the socket.
-/
def AboutToPost (s : System ι κ) (i : ι) : Prop :=
  (∃ k, 0 < (s.threads k).postsTo i) ∨ (s.cxns i).selected = true ∨ (s.cxns i).readable = true

end System

namespace Cxn

def blocked (c : Cxn) : Bool :=
  (c.pc == .waitOnSemaphore || c.pc == .cleanupWait) && c.state == .responding &&
    !c.responseQueue.isEmpty

def popActions (c : Cxn) : List CxnAction :=
  if c.pc = .waitOnSemaphore then [.step, .read .wouldBlock, .step] else [.step, .step]

theorem popActions_run {c : Cxn} (hblocked : c.blocked = true) (hpos : 0 < c.semaphore)
    : ∃ c', c.popActions.foldlM (fun c a => (c.next a).map (·.1)) c = some c' ∧
        c'.responseQueue = c.responseQueue.tail := by
  simp only [blocked, Bool.and_eq_true, Bool.or_eq_true, beq_iff_eq] at hblocked
  rcases hblocked with ⟨⟨hpc, hstate⟩, hqueue⟩
  cases hqueue' : c.responseQueue with
  | nil => simp [hqueue'] at hqueue
  | cons response =>
    rcases hpc with hpc | hpc <;> cases hdone : response.isDone <;>
      simp [popActions, next, step, semWait, read, popResponse, hpc, hpos, hstate, hqueue', hdone]

end Cxn

namespace System

variable [DecidableEq ι] [Fintype κ]

theorem cxn_wakeup_not_lost [DecidableEq κ] (cxns : ι → CacheState × Nat) {s : System ι κ}
    (hreach : ((lts cxns).restrict KeepsPosts).Reachable s) (i : ι)
    (hblocked : (s.cxns i).blocked = true)
    : (0 < (s.cxns i).semaphore ∨ s.AboutToPost i) ∧
        (0 < (s.cxns i).semaphore →
          ∃ c, (s.cxns i).popActions.foldlM (fun c a => (c.next a).map (·.1)) (s.cxns i) = some c ∧
            c.responseQueue = (s.cxns i).responseQueue.tail) := by
  refine ⟨?_, Cxn.popActions_run hblocked⟩
  have hwoken : s.Woken := by
    apply hreach.invariant_restrict
    . intro s hs
      rw [hs]
      exact woken_init cxns
    . intro s _ _ hs h hok hstep
      exact h.next (owned hs) hok hstep
  simp only [Cxn.blocked, Bool.and_eq_true, Bool.or_eq_true, beq_iff_eq] at hblocked
  have hhand : (s.cxns i).inHand = 0 := by
    apply Cxn.inHand_of_not_awake
    rcases hblocked.1.1 with hpc | hpc <;> rw [hpc] <;> rfl
  have hpos : 0 < (s.cxns i).responseQueue.length := by
    simpa [length_pos_iff] using hblocked.2
  rcases hwoken i with hclosed | _
  . exact .inr (.inr (.inr (by simp [Cxn.readable, hclosed])))
  by_cases hsem : 0 < (s.cxns i).semaphore
  . exact .inl hsem
  right
  left
  by_contra hnot
  have hzero : total (DbPc.postsTo i) s.threads = 0 := by
    apply total_eq_zero
    intro k
    have hk := not_exists.mp hnot k
    omega
  omega

end System

def resetQueryAnswered : List (Event Unit Unit) :=
  [.arrive () [0, 2, 0, 0, 0, 0, 0, 8], .select (), .post (), .cxn () .step,
    .cxn () (.read (.receive 8)), .cxn () .step, .cxn () .step,
    .cxn () (.check 0 0 ⟨false, 0, 0⟩)] ++
  replicate 9 (.db () ⟨⟨[0], [], [], []⟩, false, none, 0⟩)

namespace System

theorem cxn_wakeup_not_lost_resetQuery
    : ∃ s : System Unit Unit,
        ((lts fun _ => (⟨false, 0, 0⟩, 0)).restrict KeepsPosts).Reachable s ∧
          (s.cxns ()).blocked = true ∧
          (0 < (s.cxns ()).semaphore ∨ s.AboutToPost ()) ∧
          (0 < (s.cxns ()).semaphore →
            ∃ c, (s.cxns ()).popActions.foldlM (fun c a => (c.next a).map (·.1)) (s.cxns ()) = some c ∧
              c.responseQueue = (s.cxns ()).responseQueue.tail) := by
  have hrun : ∃ s : System Unit Unit,
      ((lts fun _ => (⟨false, 0, 0⟩, 0)).restrict KeepsPosts).Reachable s ∧
        (s.cxns ()).blocked = true :=
    Lts.exists_reachable_restrict_of_foldlM resetQueryAnswered (by decide)
  rcases hrun with ⟨s, hreach, hblocked⟩
  exact ⟨s, hreach, hblocked, cxn_wakeup_not_lost _ hreach () hblocked⟩

/--
The client sends a second query before it is answered. The thread waits for the post of the response,
reads the query, and waits again.
-/
theorem cxn_wakeup_lost
    : ∃ s : System Unit Unit, (lts fun _ => (⟨false, 0, 0⟩, 0)).Reachable s ∧
        (s.cxns ()).blocked = true ∧ ¬ (0 < (s.cxns ()).semaphore ∨ s.AboutToPost ()) := by
  have hrun : ∃ s : System Unit Unit, (lts fun _ => (⟨false, 0, 0⟩, 0)).Reachable s ∧
      (s.cxns ()).blocked = true ∧ (s.cxns ()).semaphore = 0 ∧ s.threads () = .waitOnSemaphore ∧
        (s.cxns ()).selected = false ∧ (s.cxns ()).readable = false :=
    Lts.exists_reachable_of_foldlM (resetQueryAnswered ++
      [.arrive () [0, 2, 0, 0, 0, 0, 0, 8], .cxn () .step, .cxn () (.read (.receive 8)),
        .cxn () .step, .cxn () (.check 0 0 ⟨false, 0, 0⟩)]) (by decide)
  rcases hrun with ⟨s, hreach, hblocked, hsem, hpc, hselected, hreadable⟩
  refine ⟨s, hreach, hblocked, ?_⟩
  simp [AboutToPost, hsem, hpc, hselected, hreadable, DbPc.postsTo]

end System
end Rpstir.Daemon
