import Rpstir.Daemon.Lemmas.Connection

/-!
This module contains what a step of a connection thread can do to its request: nothing, or one of push,
post, pop and cancel.
-/

namespace Rpstir.Daemon

open Wire

namespace CxnPc

variable {pc : CxnPc}

def posts : CxnPc → Nat
  | addDbRequest _ => 1
  | handleResponse _ => 1
  | cleanupPost => 1
  | _ => 0

def draining : CxnPc → Bool
  | cleanupPost => true
  | cleanupWait => true
  | cleanupTryPop => true
  | _ => false

def plain : CxnPc → Bool
  | addDbRequest _ => false
  | tryPopResponse => false
  | handleResponse _ => false
  | sendResponse _ _ _ => false
  | cleanupPost => false
  | cleanupWait => false
  | cleanupTryPop => false
  | exited => false
  | _ => true

section

variable (h : pc.plain = true)

include h

theorem response_of_plain : pc.response = none := by
  cases pc <;> trivial

theorem posts_of_plain : pc.posts = 0 := by
  cases pc <;> trivial

theorem draining_of_plain : pc.draining = false := by
  cases pc <;> trivial

theorem ne_exited_of_plain : pc ≠ .exited := by
  intro hpc
  rw [hpc] at h
  contradiction

theorem ne_tryPopResponse_of_plain : pc ≠ .tryPopResponse := by
  intro hpc
  rw [hpc] at h
  contradiction

end

@[simp]
theorem plain_afterHandlePdu (fromRecvBuffer : Bool) : (afterHandlePdu fromRecvBuffer).plain = true := by
  cases fromRecvBuffer <;> rfl

theorem plain_of_reading (h : pc.reading = true) : pc.plain = true := by
  revert h
  cases pc <;> simp [reading, plain]

end CxnPc

namespace Cxn

variable {effect : CxnEffect} {c c' : Cxn}

def handover (c : Cxn) : Nat × Nat × List DbResponse × DbRequest :=
  (c.generation, c.released, c.responseQueue, c.request)

def Outstanding (c : Cxn) : Prop :=
  c.state = .responding ∧ (∀ r ∈ c.pc.response, r.isDone = false) ∧ c.pc ≠ .exited

structure Inv (c : Cxn) : Prop where
  released_le : c.released ≤ c.generation
  released_lt_iff : c.released < c.generation ↔ c.Outstanding
  handleResponse : ∀ r, c.pc = .handleResponse r → r.isDone = false
  tryPopResponse : c.pc = .tryPopResponse → c.state = .responding
  draining : c.pc.draining = true → c.state = .responding ∧ c.request.cancelRequest = true

inductive Moves (c c' : Cxn) : CxnEffect → Prop where
  | quiet (hhand : c'.handover = c.handover) (hposts : c.pc.posts = 0) (hposts' : c'.pc.posts = 0)
      : Moves c c' .none
  | push (hnew : c.released = c.generation) (hempty : c.responseQueue = [])
      (hgen : c'.generation = c.generation + 1) (hrel : c'.released = c.released)
      (hqueue : c'.responseQueue = c.responseQueue) (hcancel : c'.request.cancelRequest = false)
      (hposts : c.pc.posts = 0) (hposts' : c'.pc.posts = 1)
      : Moves c c' .pushRequest
  | post (hhand : c'.handover = c.handover) (hposts : c.pc.posts = 1) (hposts' : c'.pc.posts = 0)
      : Moves c c' .postDb
  | pop (r : DbResponse) (hnot : r.isDone = false) (hqueue : c.responseQueue = r :: c'.responseQueue)
      (hgen : c'.generation = c.generation) (hrel : c'.released = c.released)
      (hreq : c'.request = c.request) (hposts : c.pc.posts = 0)
      (hposts' : c'.pc.posts = 1 ∨ c.request.cancelRequest = true ∧ c'.pc.posts = 0)
      : Moves c c' .none
  | popDone (r : DbResponse) (hdone : r.isDone = true)
      (hpc : c.pc = .tryPopResponse ∨ c.pc = .cleanupTryPop)
      (hqueue : c.responseQueue = r :: c'.responseQueue) (hgen : c'.generation = c.generation)
      (hrel : c'.released = c.generation) (hreq : c'.request = c.request)
      (hout : c.released < c.generation) (hposts : c.pc.posts = 0) (hposts' : c'.pc.posts = 0)
      : Moves c c' .none
  | cancel (hgen : c'.generation = c.generation) (hrel : c'.released = c.released)
      (hqueue : c'.responseQueue = c.responseQueue) (hcancel : c'.request.cancelRequest = true)
      (hposts : c.pc.posts = 0) (hposts' : c'.pc.posts = 1)
      : Moves c c' .none

theorem Moves.of_eq {c0 c c' : Cxn} (h : Moves c c' effect)
    (hhand : c.handover = c0.handover) (hpc : c.pc = c0.pc) : Moves c0 c' effect := by
  have hhand' := hhand
  simp only [handover, Prod.mk.injEq] at hhand'
  rcases hhand' with ⟨hgen, hrel, hqueue, hreq⟩
  cases h with
  | quiet hh hp hp' => exact .quiet (hh.trans hhand) (hpc ▸ hp) hp'
  | push hn he hg hr hq hc hp hp' =>
    exact .push (by rw [← hgen, ← hrel, hn]) (hqueue ▸ he) (hgen ▸ hg) (hrel ▸ hr) (hqueue ▸ hq) hc
      (hpc ▸ hp) hp'
  | post hh hp hp' => exact .post (hh.trans hhand) (hpc ▸ hp) hp'
  | pop r hn hq hg hr hreq' hp hp' =>
    exact .pop r hn (hqueue ▸ hq) (hgen ▸ hg) (hrel ▸ hr) (hreq ▸ hreq') (hpc ▸ hp) (hreq ▸ hp')
  | popDone r hd hpc' hq hg hr hreq' ho hp hp' =>
    exact .popDone r hd (hpc ▸ hpc') (hqueue ▸ hq) (hgen ▸ hg) (hgen ▸ hr) (hreq ▸ hreq')
      (by rw [← hgen, ← hrel]; exact ho) (hpc ▸ hp) hp'
  | cancel hg hr hq hc hp hp' =>
    exact .cancel (hgen ▸ hg) (hrel ▸ hr) (hqueue ▸ hq) hc (hpc ▸ hp) hp'

theorem inv_init (cache : CacheState) (now : Nat) : (init cache now).Inv := by
  constructor <;> simp [init, Outstanding, CxnPc.draining]

theorem exit_outstanding {c : Cxn} (hpc : c.pc ≠ .exited) : c.exit.Outstanding ↔ c.Outstanding := by
  have hexit : c.exit.Outstanding ↔ c.exit.state = .responding := by
    simp [Outstanding, exit, CxnPc.response]
  rw [hexit]
  cases h : c.pc.response with
  | none => simp [Outstanding, hpc, h, exit]
  | some r => cases hdone : r.isDone <;> simp [Outstanding, hpc, h, exit, hdone]

theorem Inv.goto (h : c.Inv) (hhand : c'.handover = c.handover)
    (hout : c'.Outstanding ↔ c.Outstanding) (hresponse : ∀ r, c'.pc ≠ .handleResponse r)
    (htry : c'.pc = .tryPopResponse → c'.state = .responding)
    (hdrain : c'.pc.draining = true → c'.state = .responding ∧ c'.request.cancelRequest = true)
    : c'.Inv := by
  simp only [Cxn.handover, Prod.mk.injEq] at hhand
  rcases hhand with ⟨hgen, hrel, -, -⟩
  constructor
  . rw [hrel, hgen]
    exact h.released_le
  . rw [hrel, hgen, hout]
    exact h.released_lt_iff
  . intro r hr
    exact absurd hr (hresponse r)
  . exact htry
  . exact hdrain

theorem Inv.congr (h : c.Inv) (hhand : c'.handover = c.handover) (hpc : c'.pc = c.pc)
    (hstate : c'.state = c.state) : c'.Inv := by
  simp only [Cxn.handover, Prod.mk.injEq] at hhand
  rcases hhand with ⟨hgen, hrel, _, hreq⟩
  constructor
  . rw [hgen, hrel]
    exact h.released_le
  . rw [hgen, hrel, Outstanding, hpc, hstate]
    exact h.released_lt_iff
  . rw [hpc]
    exact h.handleResponse
  . rw [hpc, hstate]
    exact h.tryPopResponse
  . rw [hpc, hstate, hreq]
    exact h.draining

theorem outstanding_of_plain {c : Cxn} (h : c.pc.plain = true)
    : c.Outstanding ↔ c.state = .responding := by
  simp [Outstanding, CxnPc.response_of_plain h, CxnPc.ne_exited_of_plain h]

theorem spec_of_plain (hinv : c.Inv) (hplain : c.pc.plain = true)
    (hplain' : c'.pc.plain = true) (hhand : c'.handover = c.handover) (hstate : c'.state = c.state)
    : c'.Inv ∧ Moves c c' .none := by
  constructor
  . refine hinv.goto hhand ?_ ?_ ?_ ?_
    . rw [outstanding_of_plain hplain, outstanding_of_plain hplain', hstate]
    . intro _ hr
      rw [hr] at hplain'
      contradiction
    . intro htry
      exact absurd htry (CxnPc.ne_tryPopResponse_of_plain hplain')
    . simp [CxnPc.draining_of_plain hplain']
  . exact .quiet hhand (CxnPc.posts_of_plain hplain) (CxnPc.posts_of_plain hplain')

theorem Handles.spec {q : Received} {fromRecvBuffer : Bool}
    (hinv : c.Inv) (hplain : c.pc.plain = true) (h : Handles c q fromRecvBuffer c' effect)
    : c'.Inv ∧ Moves c c' effect := by
  cases h with
  | cacheReset
  | report
  | exit => exact spec_of_plain hinv hplain rfl rfl rfl
  | defer => exact spec_of_plain hinv hplain (by simp) rfl rfl
  | push _ _ hstate hqueue =>
    have hnew : c.released = c.generation := by
      have hlt := hinv.released_lt_iff
      have hle := hinv.released_le
      simp only [outstanding_of_plain hplain, hstate, reduceCtorEq, iff_false] at hlt
      omega
    constructor
    . constructor <;> simp [Outstanding, CxnPc.response, hnew, CxnPc.draining]
    . exact .push hnew hqueue rfl rfl rfl rfl (CxnPc.posts_of_plain hplain) rfl

theorem popResponse_spec {c : Cxn} {response : DbResponse} {queue : List DbResponse} {pc : CxnPc}
    (hinv : c.Inv) (hpc : c.pc = .tryPopResponse ∨ c.pc = .cleanupTryPop)
    (hqueue : c.responseQueue = response :: queue)
    (hpc' : pc = .handleResponse response ∧ response.isDone = false ∨
      pc = .cleanupWait ∧ c.pc = .cleanupTryPop ∧ response.isDone = false ∨
      pc = .sendResponse response response.pdus false ∧ response.isDone = true ∨
      pc = .exited ∧ response.isDone = true)
    : (c.popResponse response queue pc).Inv ∧ Moves c (c.popResponse response queue pc) .none := by
  have hposts : c.pc.posts = 0 := by rcases hpc with hpc | hpc <;> rw [hpc] <;> rfl
  have hdraining (hpc : c.pc = .cleanupTryPop) := hinv.draining (by rw [hpc]; rfl)
  have hstate : c.state = .responding := by
    rcases hpc with hpc | hpc
    . exact hinv.tryPopResponse hpc
    . exact (hdraining hpc).1
  have hlt : c.released < c.generation := by
    rw [hinv.released_lt_iff]
    rcases hpc with hpc | hpc <;> simp [Outstanding, hpc, hstate, CxnPc.response]
  rcases hpc' with ⟨rfl, hdone⟩ | ⟨rfl, hcleanup, hdone⟩ | ⟨rfl, hdone⟩ | ⟨rfl, hdone⟩
  . constructor
    . constructor <;>
        simp [Cxn.popResponse, Outstanding, CxnPc.response, CxnPc.draining, hdone, hlt, hlt.le, hstate]
    . exact .pop response hdone hqueue rfl (by simp [Cxn.popResponse, hdone]) rfl hposts (.inl rfl)
  . constructor
    . constructor <;>
        simp [Cxn.popResponse, Outstanding, CxnPc.response, CxnPc.draining, hdone, hlt, hlt.le,
          hdraining hcleanup]
    . exact .pop response hdone hqueue rfl (by simp [Cxn.popResponse, hdone]) rfl hposts
        (.inr ⟨(hdraining hcleanup).2, rfl⟩)
  . constructor
    . constructor <;> simp [Cxn.popResponse, Outstanding, CxnPc.response, CxnPc.draining, hdone]
    . exact .popDone response hdone hpc hqueue rfl (by simp [Cxn.popResponse, hdone]) rfl hlt hposts rfl
  . constructor
    . constructor <;> simp [Cxn.popResponse, Outstanding, CxnPc.draining, hdone]
    . exact .popDone response hdone hpc hqueue rfl (by simp [Cxn.popResponse, hdone]) rfl hlt hposts rfl

theorem Steps.spec {a : CxnAction} (hinv : c.Inv)
    (h : Steps c a c' effect) : c'.Inv ∧ Moves c c' effect := by
  cases h with
  | wait hpc
  | timeout hpc
  | toProcessDone hpc
  | sendError _ _ hpc
  | sendNotify _ hpc => exact spec_of_plain hinv (by rw [hpc]; rfl) rfl rfl rfl
  | wouldBlock pc hpc hpc' =>
    rcases hpc' with ⟨hstate, rfl⟩ | ⟨hstate, rfl⟩
    . constructor
      . refine hinv.goto rfl ?_ ?_ ?_ ?_ <;>
          simp [Outstanding, hpc, hstate, CxnPc.response, CxnPc.draining]
      . exact .quiet rfl (by rw [hpc]; rfl) rfl
    . exact spec_of_plain hinv (by rw [hpc]; rfl) rfl rfl rfl
  | readMore _ _ _ hreads
  | receive _ _ _ _ hreads
  | readError _ _ _ _ _ _ _ hreads
  | readExit _ _ _ hreads =>
    exact spec_of_plain hinv (CxnPc.plain_of_reading hreads.reading) rfl rfl rfl
  | eof hpc
  | abortRead hpc => exact spec_of_plain hinv (CxnPc.plain_of_reading hpc) rfl rfl rfl
  | exit a cache time hpc =>
    have hfacts : c.pc ≠ .exited ∧ c.pc.posts = 0 := by
      revert hpc
      cases c.pc <;> simp [CxnPc.mayExit, CxnPc.posts]
    constructor
    . refine hinv.goto rfl (exit_outstanding hfacts.1) ?_ ?_ ?_ <;> simp [Cxn.exit, CxnPc.draining]
    . exact .quiet rfl hfacts.2 rfl
  | handlePdu q fromRecvBuffer hpc hhandles => exact hhandles.spec hinv (by rw [hpc]; rfl)
  | tryPopToProcess q queue hpc hstate hqueue hhandles =>
    have hplain : c.pc.plain = true := by rw [hpc]; rfl
    have hpop : ({ c with toProcessQueue := queue } : Cxn).Inv :=
      hinv.congr rfl rfl rfl
    have hspec := hhandles.spec hpop hplain
    exact ⟨hspec.1, hspec.2.of_eq rfl rfl⟩
  | postRequest fromRecvBuffer hpc =>
    constructor
    . refine hinv.goto rfl ?_ ?_ ?_ ?_ <;> cases fromRecvBuffer <;>
        simp [Outstanding, hpc, CxnPc.response, CxnPc.draining, CxnPc.afterHandlePdu]
    . exact .post rfl (by rw [hpc]; rfl) (CxnPc.posts_of_plain (by simp))
  | noResponse hpc
  | sendResponse _ _ _ _ _ _ hpc =>
    constructor
    . refine hinv.goto rfl ?_ ?_ ?_ ?_ <;> simp [Outstanding, hpc, CxnPc.response, CxnPc.draining]
    . exact .quiet rfl (by rw [hpc]; rfl) rfl
  | popResponse response queue pc hpc hqueue =>
    apply popResponse_spec hinv (.inl hpc) hqueue
    cases hdone : response.isDone <;> simp_all
  | postResponse response hpc =>
    constructor
    . refine hinv.goto rfl ?_ ?_ ?_ ?_ <;> simp [Outstanding, hpc, CxnPc.response, CxnPc.draining]
    . exact .post rfl (by rw [hpc]; rfl) rfl
  | responded response stop pc hpc hpc' =>
    have hplain : pc.plain = true := by
      rw [hpc']
      split
      . rfl
      . split <;> rfl
    constructor
    . refine hinv.goto rfl ?_ ?_ ?_ ?_
      . rw [outstanding_of_plain hplain]
        cases hdone : response.isDone <;> simp [Outstanding, hpc, CxnPc.response, hdone]
      . intro _ hr
        have hr : pc = _ := hr
        rw [hr] at hplain
        contradiction
      . intro htry
        exact absurd htry (CxnPc.ne_tryPopResponse_of_plain hplain)
      . simp [CxnPc.draining_of_plain hplain]
    . exact .quiet rfl (by rw [hpc]; rfl) (CxnPc.posts_of_plain hplain)
  | cancel hpc hstate =>
    have hlt : c.released < c.generation := by
      rw [hinv.released_lt_iff, outstanding_of_plain (by rw [hpc]; rfl)]
      exact hstate
    constructor
    . constructor <;> simp [hstate, Outstanding, CxnPc.response, hlt, hlt.le]
    . exact .cancel rfl rfl rfl rfl (by rw [hpc]; rfl) rfl
  | leave hpc hstate =>
    constructor
    . refine hinv.goto rfl ?_ ?_ ?_ ?_ <;> simp [Outstanding, hpc, hstate, CxnPc.draining]
    . exact .quiet rfl (by rw [hpc]; rfl) rfl
  | postCancel hpc =>
    have hdraining := hinv.draining (by rw [hpc]; rfl)
    constructor
    . refine hinv.goto rfl ?_ ?_ ?_ (fun _ => hdraining) <;> simp [Outstanding, hpc, CxnPc.response]
    . exact .post rfl (by rw [hpc]; rfl) rfl
  | cleanupWait hpc
  | cleanupNoResponse hpc =>
    have hdraining := hinv.draining (by rw [hpc]; rfl)
    constructor
    . refine hinv.goto rfl ?_ ?_ ?_ (fun _ => hdraining) <;> simp [Outstanding, hpc, CxnPc.response]
    . exact .quiet rfl (by rw [hpc]; rfl) rfl
  | cleanupPop response queue pc hpc hqueue =>
    apply popResponse_spec hinv (.inr hpc) hqueue
    cases hdone : response.isDone <;> simp_all
  | sendCacheReset now q fromRecvBuffer hpc =>
    exact spec_of_plain hinv (by rw [hpc]; rfl) (by simp) rfl rfl
  | check now _ _ cache time pc hpc _ hpc' =>
    refine spec_of_plain hinv (by rw [hpc]; rfl) ?_ rfl rfl
    rcases hpc' with rfl | ⟨rfl, -⟩ <;> rfl

end Cxn

end Rpstir.Daemon
