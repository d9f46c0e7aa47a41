import Rpstir.Daemon.Lemmas.Request
import Rpstir.Daemon.System
import Rpstir.Rtr.Framing

/-!
This module contains what a connection thread can send as long as the database threads push answers.
-/

namespace Rpstir.Daemon

open List Option

open Wire

inductive Frame where
  | idle (next : Nat)
  | inAnswer (n : Nat)
  | ended
  deriving DecidableEq, Repr

variable {f : Frame}

namespace Frame

def afterError (n : Nat) (code : ErrorCode) : Frame :=
  if code.isFatal then .ended else .idle (n + 1)

def next : Frame → Sent → Option Frame
  | idle next, ⟨none, pdu⟩ => if pdu.pduType = .serialNotify then some (idle next) else none
  | idle next, ⟨some o, pdu⟩ =>
    if next ≤ o.number then
      match pdu.pduType with
      | .cacheResponse => some (inAnswer o.number)
      | .cacheReset => some (idle (o.number + 1))
      | .errorReport => some (afterError o.number pdu.sessionId)
      | _ => none
    else
      none
  | inAnswer n, ⟨some o, pdu⟩ =>
    if o.number = n then
      match pdu.pduType with
      | .ipv4Prefix => some (inAnswer n)
      | .ipv6Prefix => some (inAnswer n)
      | .endOfData => some (idle (n + 1))
      | .errorReport => some (afterError n pdu.sessionId)
      | _ => none
    else if n < o.number ∧ pdu.pduType = .errorReport ∧ ErrorCode.isFatal pdu.sessionId = true then
      -- Another PDU of the client is rejected.
      some ended
    else
      none
  | _, _ => none

def run (sent : List Sent) : Option Frame :=
  sent.foldlM next (idle 0)

theorem run_concat {sent : List Sent} (h : run sent = some f) (x : Sent)
    : run (sent ++ [x]) = f.next x := by
  unfold run at h ⊢
  rw [foldlM_append, h]
  simp

def At (n : Nat) : Rtr.Answer → Frame → Prop
  | .fresh, f => ∃ next, next ≤ n ∧ f = .idle next
  | .opened, f => f = .inAnswer n
  | .closed, f => f = .idle (n + 1) ∨ f = .ended

end Frame

theorem encapsulateRequest_pduType (requestBuffer : List UInt8) (pdu : Pdu)
    : (Cxn.encapsulateRequest requestBuffer pdu).pduType = pdu.pduType := by
  unfold Cxn.encapsulateRequest
  split
  . split <;> rfl
  . rfl

theorem encapsulateRequest_sessionId (requestBuffer : List UInt8) (pdu : Pdu)
    : (Cxn.encapsulateRequest requestBuffer pdu).sessionId = pdu.sessionId := by
  unfold Cxn.encapsulateRequest
  split
  . split <;> rfl
  . rfl

theorem Frame.at_afterError (n : Nat) (code : ErrorCode) : At n .closed (afterError n code) := by
  unfold afterError
  split
  . exact .inr rfl
  . exact .inl rfl

theorem Frame.isFatal_of_afterError {n : Nat} {code : ErrorCode} (h : afterError n code = .ended)
    : code.isFatal = true := by
  unfold afterError at h
  split at h
  . assumption
  . contradiction

theorem Frame.At.next {o : Origin} {a a' : Rtr.Answer} {f : Frame} {p : Rtr.Pdu} {pdu : Pdu}
    (h : At o.number a f) (ha : a.next p = some a') (htype : pdu.pduType = (fillPdu p).pduType)
    : ∃ f', f.next ⟨some o, pdu⟩ = some f' ∧ At o.number a' f' ∧
        (f' = .ended → pdu.pduType = .errorReport ∧ ErrorCode.isFatal pdu.sessionId = true) := by
  have herror (htype : pdu.pduType = .errorReport)
      : afterError o.number pdu.sessionId = .ended →
          pdu.pduType = .errorReport ∧ ErrorCode.isFatal pdu.sessionId = true :=
    fun hended => ⟨htype, isFatal_of_afterError hended⟩
  cases a with
  | closed => contradiction
  | fresh =>
    rcases h with ⟨next, hle, rfl⟩
    cases p with
    | cacheResponse =>
      cases ha
      have htype : pdu.pduType = .cacheResponse := htype
      exact ⟨.inAnswer o.number, by simp [Frame.next, hle, htype], rfl, by simp⟩
    | cacheReset =>
      cases ha
      have htype : pdu.pduType = .cacheReset := htype
      exact ⟨.idle (o.number + 1), by simp [Frame.next, hle, htype], .inl rfl, by simp⟩
    | errorReport code =>
      cases ha
      have htype : pdu.pduType = .errorReport := by cases code <;> exact htype
      exact ⟨_, by simp [Frame.next, hle, htype], at_afterError _ _, herror htype⟩
    | ipPrefix
    | endOfData => contradiction
  | opened =>
    cases h
    cases p with
    | ipPrefix =>
      cases ha
      have htype : pdu.pduType = .ipv4Prefix ∨ pdu.pduType = .ipv6Prefix := by
        rw [htype, fillPdu]
        split
        . exact .inl rfl
        . exact .inr rfl
      refine ⟨.inAnswer o.number, ?_, rfl, by simp⟩
      rcases htype with htype | htype <;> simp [Frame.next, htype]
    | endOfData =>
      cases ha
      have htype : pdu.pduType = .endOfData := htype
      exact ⟨.idle (o.number + 1), by simp [Frame.next, htype], .inl rfl, by simp⟩
    | errorReport code =>
      cases ha
      have htype : pdu.pduType = .errorReport := by cases code <;> exact htype
      exact ⟨_, by simp [Frame.next, htype], at_afterError _ _, herror htype⟩
    | cacheResponse
    | cacheReset => contradiction

namespace CxnPc

variable {pc : CxnPc}

def live : CxnPc → Bool
  | cleanup => false
  | cleanupPost => false
  | cleanupWait => false
  | cleanupTryPop => false
  | exited => false
  | _ => true

def quiet : CxnPc → Bool
  | waitOnSemaphore => true
  | readNonblock => true
  | readBlock => true
  | addDbRequest _ => true
  | tryPopResponse => true
  | tryPopToProcess => true
  | checkGlobalCacheState => true
  | _ => false

def handled : CxnPc → Option Received
  | handlePdu q _ => some q
  | _ => none

def todo : CxnPc → List Pdu
  | handleResponse response => response.pdus
  | sendResponse _ todo _ => todo
  | _ => []

def stops : CxnPc → Bool
  | sendResponse _ _ stop => stop
  | _ => false

def popping : CxnPc → Bool
  | tryPopToProcess => true
  | sendCacheReset _ fromRecvBuffer => !fromRecvBuffer
  | sendError _ => true
  | _ => false

def interjects : CxnPc → Bool
  | sendCacheReset _ _ => true
  | sendNotify => true
  | _ => false

def Numbered (base numReceived : Nat) (queue : List Received) : CxnPc → Prop
  | handlePdu q _ =>
    base ≤ q.origin.number ∧ q.origin.number < numReceived ∧
      ∀ q' ∈ queue, q'.origin.number < q.origin.number
  | sendCacheReset q _ =>
    base ≤ q.origin.number ∧ q.origin.number < numReceived ∧
      ∀ q' ∈ queue, q.origin.number < q'.origin.number
  | sendError x =>
    x.pdu.pduType = .errorReport ∧ ErrorCode.isFatal x.pdu.sessionId = true ∧
      ∃ o, x.origin = some o ∧ base ≤ o.number
  | _ => True

section

variable (h : pc.quiet = true)

include h

theorem live_of_quiet : pc.live = true := by
  cases pc <;> trivial

theorem response_of_quiet : pc.response = none := by
  cases pc <;> trivial

theorem todo_of_quiet : pc.todo = [] := by
  cases pc <;> trivial

theorem stops_of_quiet : pc.stops = false := by
  cases pc <;> trivial

theorem interjects_of_quiet : pc.interjects = false := by
  cases pc <;> trivial

theorem numbered_of_quiet (base numReceived : Nat)
    (queue : List Received) : pc.Numbered base numReceived queue := by
  cases pc <;> trivial

end

theorem quiet_of_reading (h : pc.reading = true) : pc.quiet = true := by
  cases pc <;> trivial

theorem quiet_afterHandlePdu (fromRecvBuffer : Bool) : (afterHandlePdu fromRecvBuffer).quiet = true := by
  cases fromRecvBuffer <;> rfl

end CxnPc

def Frame.Leads (n : Nat) (f : Frame) (pending : List Pdu) (a : Rtr.Answer) : Prop :=
  ∃ a₀ pdus, At n a₀ f ∧ pending = List.map fillPdu pdus ∧ a₀.run pdus = some a

theorem Frame.Leads.eq_idle {n : Nat} (h : Frame.Leads n f [] .closed) (hf : f ≠ .ended)
    : f = .idle (n + 1) := by
  rcases h with ⟨_, pdus, hat, hpdus, hrun⟩
  have hnil : pdus = [] := by simpa using hpdus.symm
  rw [hnil, Rtr.Answer.run_nil, some.injEq] at hrun
  rw [hrun] at hat
  rcases hat with hat | hat
  . exact hat
  . exact absurd hat hf

namespace Cxn

variable {a : Rtr.Answer} {c : Cxn} {fromRecvBuffer : Bool} {effect : CxnEffect} {q : Received}

structure Numbered (c : Cxn) (base : Nat) : Prop where
  sorted : c.toProcessQueue.Pairwise (·.origin.number < ·.origin.number)
  base_le_queue : ∀ q ∈ c.toProcessQueue, base ≤ q.origin.number
  queue_lt : ∀ q ∈ c.toProcessQueue, q.origin.number < c.numReceived
  base_le : base ≤ c.numReceived
  pc : c.pc.Numbered base c.numReceived c.toProcessQueue

variable {action : CxnAction} {stop isDone : Bool} {c' : Cxn} {pdu : Pdu} {numReceived base : Nat}

theorem Numbered.of_eq {c : Cxn} (h : c.Numbered base)
    (hqueue : c'.toProcessQueue = c.toProcessQueue) (hreceived : c'.numReceived = c.numReceived)
    (hpc : c'.pc.Numbered base c.numReceived c.toProcessQueue) : c'.Numbered base := by
  rw [← hqueue, ← hreceived] at hpc
  refine ⟨hqueue ▸ h.sorted, hqueue ▸ h.base_le_queue, ?_, hreceived ▸ h.base_le, hpc⟩
  rw [hqueue, hreceived]
  exact h.queue_lt

def pending (c : Cxn) : List Pdu :=
  c.pc.todo ++ c.responseQueue.flatMap (·.pdus)

structure Idle (c : Cxn) (next : Nat) : Prop where
  state : c.state = .ready
  response : c.pc.response = none
  numbered : c.Numbered next
  queue_nil : c.pc.popping = false → c.toProcessQueue = []

structure Answering (c : Cxn) (f : Frame) (a : Rtr.Answer) : Prop where
  state : c.state = .responding
  interjects : c.pc.interjects = false
  numbered : c.Numbered (c.requestOrigin.number + 1)
  ended : f = .ended → c.pc.stops = true
  done : ∀ r ∈ c.pc.response.toList ++ c.responseQueue, r.isDone = true → a = .closed
  leads : Frame.Leads c.requestOrigin.number f c.pending a

def Framed (c : Cxn) (a : Rtr.Answer) : Prop :=
  ∃ f, Frame.run c.sent = some f ∧
    (c.pc.live = true → c.request.cancelRequest = false ∧
      ((∃ next, f = .idle next ∧ c.Idle next) ∨ c.Answering f a))

theorem Framed.of_not_live {c : Cxn} (h : c.Framed a) (hsent : c'.sent = c.sent)
    (hlive : c'.pc.live = false) : c'.Framed a := by
  rcases h with ⟨f, hrun, -⟩
  refine ⟨f, ?_, ?_⟩
  . rw [hsent]
    exact hrun
  . simp [hlive]

def framing (c : Cxn) : List Sent × CxnState × DbRequest × Origin × List Received × List DbResponse × Nat :=
  (c.sent, c.state, c.request, c.requestOrigin, c.toProcessQueue, c.responseQueue, c.numReceived)

theorem Framed.goto {c : Cxn} (h : c.Framed a) (hframing : c'.framing = c.framing)
    (hlive : c'.pc.live = true → c.pc.live = true) (hresponse : c'.pc.response = c.pc.response)
    (htodo : c'.pc.todo = c.pc.todo) (hstops : c.pc.stops = true → c'.pc.stops = true)
    (hinterjects : c.state = .responding → c.pc.interjects = false → c'.pc.interjects = false)
    (hnumbered : ∀ base, c.pc.Numbered base c.numReceived c.toProcessQueue →
      c'.pc.Numbered base c.numReceived c.toProcessQueue)
    (hpopping : c'.pc.popping = false → c.pc.popping = false ∨ (c.state = .ready → c.toProcessQueue = []))
    : c'.Framed a := by
  simp only [framing, Prod.mk.injEq] at hframing
  rcases hframing with ⟨hsent, hstate, hrequest, horigin, hqueue, hresponses, hreceived⟩
  have hnumbered {base : Nat} (hn : c.Numbered base) : c'.Numbered base :=
    hn.of_eq hqueue hreceived (hnumbered base hn.pc)
  rcases h with ⟨f, hrun, hcases⟩
  refine ⟨f, by rw [hsent]; exact hrun, fun hlive' => ?_⟩
  rw [hrequest]
  rcases hcases (hlive hlive') with ⟨hcancel, ⟨next, hf, hidle⟩ | hans⟩
  . refine ⟨hcancel, .inl ⟨next, hf, hstate.trans hidle.state, hresponse.trans hidle.response,
      hnumbered hidle.numbered, fun hpop => ?_⟩⟩
    rw [hqueue]
    exact (hpopping hpop).elim hidle.queue_nil fun hnil => hnil hidle.state
  refine ⟨hcancel, .inr ⟨hstate.trans hans.state, hinterjects hans.state hans.interjects, ?_,
    fun hf => hstops (hans.ended hf), ?_, ?_⟩⟩
  . rw [horigin]
    exact hnumbered hans.numbered
  . rw [hresponse, hresponses]
    exact hans.done
  . rw [pending, horigin, htodo, hresponses]
    exact hans.leads

theorem Framed.congr {c : Cxn} (h : c.Framed a) (hframing : c'.framing = c.framing)
    (hpc : c'.pc = c.pc) : c'.Framed a := by
  apply h.goto hframing <;> rw [hpc]
  any_goals exact id
  . exact fun _ => id
  . exact fun _ => id
  . exact .inl

theorem Framed.goto_quiet {c : Cxn} (h : c.Framed a) (hquiet : c.pc.quiet = true)
    (hquiet' : c'.pc.quiet = true) (hframing : c'.framing = c.framing)
    (hpopping : c'.pc.popping = false → c.pc.popping = false ∨ (c.state = .ready → c.toProcessQueue = []))
    : c'.Framed a := by
  refine h.goto hframing (fun _ => CxnPc.live_of_quiet hquiet) ?_ ?_ ?_
    (fun _ _ => CxnPc.interjects_of_quiet hquiet') (fun _ _ => CxnPc.numbered_of_quiet hquiet' _ _ _) hpopping
  . rw [CxnPc.response_of_quiet hquiet, CxnPc.response_of_quiet hquiet']
  . rw [CxnPc.todo_of_quiet hquiet, CxnPc.todo_of_quiet hquiet']
  . simp [CxnPc.stops_of_quiet hquiet]

structure Handling (c : Cxn) (f : Frame) (a : Rtr.Answer) (q : Received) (fromRecvBuffer : Bool) : Prop where
  run : Frame.run c.sent = some f
  quiet : c.pc.todo = [] ∧ c.pc.response = none ∧ c.pc.stops = false
  cancelRequest : c.request.cancelRequest = false
  sorted : c.toProcessQueue.Pairwise (·.origin.number < ·.origin.number)
  queue_lt : ∀ q' ∈ c.toProcessQueue, q'.origin.number < c.numReceived
  number_lt : q.origin.number < c.numReceived
  ready : c.state = .ready →
    (∃ next, f = .idle next ∧ next ≤ q.origin.number) ∧
      (∀ q' ∈ c.toProcessQueue, q.origin.number < q'.origin.number) ∧
      (fromRecvBuffer = true → c.toProcessQueue = [])
  responding : c.state = .responding →
    c.requestOrigin.number < q.origin.number ∧
      (∀ q' ∈ c.toProcessQueue, c.requestOrigin.number < q'.origin.number ∧
        q'.origin.number < q.origin.number) ∧
      f ≠ .ended ∧ (∀ r ∈ c.responseQueue, r.isDone = true → a = .closed) ∧
      Frame.Leads c.requestOrigin.number f (c.responseQueue.flatMap (·.pdus)) a

def AnswersLater (c : Cxn) (q : Received) : Prop :=
  q.pdu.pduType = .serialQuery → q.pdu.sessionId ≠ c.localCacheState.session → c.state = .ready

instance (c : Cxn) (q : Received) : Decidable (c.AnswersLater q) :=
  inferInstanceAs (Decidable (_ → _ → _))

theorem Handling.handles {c : Cxn} (h : c.Handling f a q fromRecvBuffer) (hlater : c.AnswersLater q)
    (hhandles : Handles c q fromRecvBuffer c' effect)
    : c'.Framed (if effect = .pushRequest then .fresh else a) := by
  cases hhandles with
  | cacheReset htype hsession =>
    have hready := hlater htype hsession
    rcases h.ready hready with ⟨⟨next, hf, hle⟩, hqueue, hnil⟩
    refine ⟨f, h.run, fun _ => ⟨h.cancelRequest, .inl ⟨next, hf, hready, rfl, ?_, ?_⟩⟩⟩
    . exact ⟨h.sorted, fun q' hq' => hle.trans (hqueue q' hq').le, h.queue_lt,
        hle.trans h.number_lt.le, hle, h.number_lt, hqueue⟩
    . intro hpop
      exact hnil (by simpa [CxnPc.popping] using hpop)
  | defer haccept hstate =>
    rcases h.responding hstate with ⟨hlt, hqueue, hended, hdone, hleads⟩
    have hquiet := CxnPc.quiet_afterHandlePdu fromRecvBuffer
    refine ⟨f, h.run, fun _ => ⟨h.cancelRequest, .inr ?_⟩⟩
    constructor
    . exact hstate
    . exact CxnPc.interjects_of_quiet hquiet
    . constructor
      . rw [pairwise_append]
        refine ⟨h.sorted, pairwise_singleton _ _, ?_⟩
        intro q' hq' _ hq''
        rw [mem_singleton.mp hq'']
        exact (hqueue q' hq').2
      . intro q' hq'
        rcases List.mem_append.mp hq' with hq' | hq'
        . exact (hqueue q' hq').1
        . rw [mem_singleton.mp hq']
          exact hlt
      . intro q' hq'
        rcases List.mem_append.mp hq' with hq' | hq'
        . exact h.queue_lt q' hq'
        . rw [mem_singleton.mp hq']
          exact h.number_lt
      . exact lt_trans hlt h.number_lt
      . exact CxnPc.numbered_of_quiet hquiet _ _ _
    . intro hf
      exact absurd hf hended
    . dsimp only
      rw [CxnPc.response_of_quiet hquiet]
      exact hdone
    . unfold pending
      rw [CxnPc.todo_of_quiet hquiet]
      exact hleads
  | push _ haccept hstate hqueue =>
    rcases h.ready hstate with ⟨⟨next, hf, hle⟩, hlater', hnil⟩
    refine ⟨f, h.run, fun _ => ⟨rfl, .inr ?_⟩⟩
    constructor
    . rfl
    . rfl
    . exact ⟨h.sorted, hlater', h.queue_lt, h.number_lt, trivial⟩
    . intro hended
      rw [hf] at hended
      contradiction
    . intro _ hr
      simp [CxnPc.response, hqueue] at hr
    . refine ⟨.fresh, [], ⟨next, hle, hf⟩, ?_, rfl⟩
      simp [pending, CxnPc.todo, hqueue]
  | report _ _ _ pdu hcode htype hqueue _ hpdu =>
    have hreport : pdu.pduType = .errorReport ∧ ErrorCode.isFatal pdu.sessionId = true := by
      unfold errorReport at hpdu
      split at hpdu
      . contradiction
      . cases hpdu
        exact ⟨rfl, hcode⟩
    refine ⟨f, h.run, fun _ => ⟨h.cancelRequest, ?_⟩⟩
    cases hstate : c.state with
    | ready =>
      rcases h.ready hstate with ⟨⟨next, hf, hle⟩, hlater', hnil⟩
      refine .inl ⟨next, hf, rfl, rfl, ?_, by simp [CxnPc.popping]⟩
      exact ⟨h.sorted, fun q' hq' => hle.trans (hlater' q' hq').le, h.queue_lt,
        hle.trans h.number_lt.le, hreport.1, hreport.2, q.origin, rfl, hle⟩
    | responding =>
      rcases h.responding hstate with ⟨hlt, hqueue', hended, hdone, hleads⟩
      refine .inr ⟨rfl, rfl, ?_, fun hf => absurd hf hended, hdone, hleads⟩
      exact ⟨h.sorted, fun q' hq' => (hqueue' q' hq').1, h.queue_lt, lt_trans hlt h.number_lt,
        hreport.1, hreport.2, q.origin, rfl, hlt⟩
  | exit => exact ⟨f, h.run, by simp [CxnPc.live]⟩

theorem Framed.handling (h : c.Framed a) (hpc : c.pc = .handlePdu q fromRecvBuffer)
    : ∃ f, c.Handling f a q fromRecvBuffer := by
  rcases h with ⟨f, hrun, hlive⟩
  rcases hlive (by rw [hpc]; rfl) with ⟨hcancel, hcases⟩
  have hquiet : c.pc.todo = [] ∧ c.pc.response = none ∧ c.pc.stops = false := by
    rw [hpc]
    exact ⟨rfl, rfl, rfl⟩
  refine ⟨f, ?_⟩
  rcases hcases with ⟨next, hf, hidle⟩ | hans
  . have hnumber := hidle.numbered.pc
    have hnil := hidle.queue_nil (by rw [hpc]; rfl)
    rw [hpc] at hnumber
    refine ⟨hrun, hquiet, hcancel, hidle.numbered.sorted, hidle.numbered.queue_lt, hnumber.2.1, ?_, ?_⟩
    . intro _
      exact ⟨⟨next, hf, hnumber.1⟩, by simp [hnil], fun _ => hnil⟩
    . intro hstate
      rw [hidle.state] at hstate
      contradiction
  have hnumber := hans.numbered.pc
  have hleads := hans.leads
  have hdone := hans.done
  rw [hpc] at hnumber
  rw [pending, hquiet.1, nil_append] at hleads
  rw [hquiet.2.1, toList_none, nil_append] at hdone
  refine ⟨hrun, hquiet, hcancel, hans.numbered.sorted, hans.numbered.queue_lt, hnumber.2.1, ?_, ?_⟩
  . intro hstate
    rw [hans.state] at hstate
    contradiction
  intro _
  refine ⟨hnumber.1, ?_, ?_, hdone, hleads⟩
  . intro q' hq'
    exact ⟨hans.numbered.base_le_queue q' hq', hnumber.2.2 q' hq'⟩
  . intro hf
    have hstops := hans.ended hf
    rw [hquiet.2.2] at hstops
    contradiction

theorem Framed.handling_pop (h : c.Framed a)
    {queue : List Received} (hpc : c.pc = .tryPopToProcess) (hstate : c.state = .ready)
    (hqueue : c.toProcessQueue = q :: queue)
    : ∃ f, ({ c with toProcessQueue := queue } : Cxn).Handling f a q false := by
  rcases h with ⟨f, hrun, hlive⟩
  rcases hlive (by rw [hpc]; rfl) with ⟨hcancel, ⟨next, hf, hidle⟩ | hans⟩
  . have hsorted := hidle.numbered.sorted
    have hlt := hidle.numbered.queue_lt
    rw [hqueue, pairwise_cons] at hsorted
    rw [hqueue] at hlt
    refine ⟨f, hrun, ?_, hcancel, hsorted.2, ?_, hlt q mem_cons_self, ?_, ?_⟩
    . rw [hpc]
      exact ⟨rfl, rfl, rfl⟩
    . intro q' hq'
      exact hlt q' (mem_cons_of_mem q hq')
    . intro _
      refine ⟨⟨next, hf, ?_⟩, hsorted.1, by simp⟩
      exact hidle.numbered.base_le_queue q (by simp [hqueue])
    . intro hresponding
      rw [hstate] at hresponding
      contradiction
  . rw [hans.state] at hstate
    contradiction

theorem Answering.sendResponse (h : c.Answering f a) {response : DbResponse} {todo : List Pdu}
    (hpc : c.pc = .sendResponse response (pdu :: todo) stop)
    : ∃ f', f.next ⟨some c.requestOrigin, encapsulateRequest c.requestBuffer pdu⟩ = some f' ∧
        Frame.Leads c.requestOrigin.number f' (todo ++ c.responseQueue.flatMap (·.pdus)) a ∧
        (f' = .ended → pdu.pduType = .errorReport ∧ ErrorCode.isFatal pdu.sessionId = true) := by
  rcases h.leads with ⟨_, pdus, hat, hpending, hrun⟩
  rw [pending, hpc] at hpending
  cases pdus with
  | nil => simp [CxnPc.todo] at hpending
  | cons p pdus =>
    simp only [CxnPc.todo, cons_append, map_cons, List.cons.injEq] at hpending
    rcases bind_eq_some_iff.mp hrun with ⟨a1, hnext, hrun⟩
    have htype : (encapsulateRequest c.requestBuffer pdu).pduType = (fillPdu p).pduType := by
      rw [encapsulateRequest_pduType, hpending.1]
    rcases hat.next hnext htype with ⟨f', hf', hat', hended⟩
    rw [encapsulateRequest_pduType, encapsulateRequest_sessionId] at hended
    exact ⟨f', hf', ⟨a1, pdus, hat', hpending.2, hrun⟩, hended⟩

section

variable (h : c.Framed a)

include h

theorem Framed.answering (hlive : c.pc.live = true) {response : DbResponse}
    (hresponse : c.pc.response = some response)
    : ∃ f, Frame.run c.sent = some f ∧ c.request.cancelRequest = false ∧ c.Answering f a := by
  rcases h with ⟨f, hrun, hframe⟩
  rcases hframe hlive with ⟨hcancel, ⟨_, _, hidle⟩ | hans⟩
  . rw [hidle.response] at hresponse
    contradiction
  . exact ⟨f, hrun, hcancel, hans⟩

theorem Framed.idle (hlive : c.pc.live = true) (hinterjects : c.pc.interjects = true)
    : ∃ next, Frame.run c.sent = some (.idle next) ∧ c.request.cancelRequest = false ∧ c.Idle next := by
  rcases h with ⟨_, hrun, hframe⟩
  rcases hframe hlive with ⟨hcancel, ⟨next, rfl, hidle⟩ | hans⟩
  . exact ⟨next, hrun, hcancel, hidle⟩
  . rw [hans.interjects] at hinterjects
    contradiction

theorem Framed.responded {response : DbResponse} {pc : CxnPc}
    (hpc : c.pc = .sendResponse response [] stop)
    (hpc' : pc = if stop then .cleanup else if response.isDone then .tryPopToProcess
      else .checkGlobalCacheState) (hnil : response.isDone = true → c.responseQueue = [])
    : ({ c with pc := pc, state := if response.isDone then .ready else c.state } : Cxn).Framed a := by
  cases stop with
  | true => exact h.of_not_live rfl (by simp [hpc', CxnPc.live])
  | false =>
    rcases h.answering (by rw [hpc]; rfl) (by rw [hpc]; rfl) with ⟨f, hrun, hcancel, hans⟩
    have hended : f ≠ .ended := by
      intro hf
      have hstops := hans.ended hf
      rw [hpc] at hstops
      contradiction
    refine ⟨f, hrun, fun _ => ⟨hcancel, ?_⟩⟩
    cases hdone : response.isDone with
    | true =>
      have hclosed := hans.done response (by simp [hpc, CxnPc.response]) hdone
      have hleads := hans.leads
      rw [pending, hpc, hnil hdone, hclosed] at hleads
      simp only [hdone, Bool.false_eq_true, if_false, if_true] at hpc'
      left
      refine ⟨_, hleads.eq_idle hended, rfl, ?_, ?_, ?_⟩
      . rw [hpc']
        rfl
      . exact hans.numbered.of_eq rfl rfl (by rw [hpc']; trivial)
      . rw [hpc']
        simp [CxnPc.popping]
    | false =>
      simp only [hdone, Bool.false_eq_true, if_false] at hpc'
      right
      constructor
      . exact hans.state
      . rw [hpc']
        rfl
      . exact hans.numbered.of_eq rfl rfl (by rw [hpc']; trivial)
      . intro hf
        exact absurd hf hended
      . intro r hr
        apply hans.done r
        rw [hpc'] at hr
        exact mem_append_right _ hr
      . have hleads := hans.leads
        rw [pending, hpc] at hleads
        rw [pending, hpc']
        exact hleads

theorem Framed.sendError {x : Sent} (hpc : c.pc = .sendError x)
    : ({ c with pc := .cleanup, sent := c.sent ++ [x] } : Cxn).Framed a := by
  rcases h with ⟨f, hrun, hlive⟩
  have hnext : f.next x = some .ended := by
    rcases x with ⟨_, _⟩
    rcases hlive (by rw [hpc]; rfl) with ⟨-, ⟨next, rfl, hidle⟩ | hans⟩
    . have hnumbered := hidle.numbered.pc
      rw [hpc] at hnumbered
      rcases hnumbered with ⟨htype, hfatal, o, rfl, hle⟩
      dsimp only at htype hfatal
      simp [Frame.next, Frame.afterError, hle, htype, hfatal]
    have hnumbered := hans.numbered.pc
    rw [hpc] at hnumbered
    rcases hnumbered with ⟨htype, hfatal, o, rfl, hle⟩
    dsimp only at htype hfatal
    rcases hans.leads with ⟨a0, _, hat, -, -⟩
    cases a0 with
    | fresh =>
      rcases hat with ⟨next, hnext, rfl⟩
      have hle' : next ≤ o.number := by omega
      simp [Frame.next, Frame.afterError, hle', htype, hfatal]
    | opened =>
      cases hat
      have hne : ¬ o.number = c.requestOrigin.number := by omega
      simp [Frame.next, hne, htype, hfatal, Nat.lt_of_succ_le hle]
    | closed =>
      rcases hat with rfl | rfl
      . simp [Frame.next, Frame.afterError, hle, htype, hfatal]
      . have hstops := hans.ended rfl
        rw [hpc] at hstops
        contradiction
  refine ⟨.ended, ?_, by simp [CxnPc.live]⟩
  rw [Frame.run_concat hrun]
  exact hnext

theorem Framed.sendCacheReset (hpc : c.pc = .sendCacheReset q fromRecvBuffer)
    : ({ c with
          pc := .afterHandlePdu fromRecvBuffer
          sent := c.sent ++ [⟨some q.origin, fillPduCacheReset⟩] } : Cxn).Framed a := by
  rcases h.idle (by rw [hpc]; rfl) (by rw [hpc]; rfl) with ⟨next, hrun, hcancel, hidle⟩
  have hquiet := CxnPc.quiet_afterHandlePdu fromRecvBuffer
  have hnumbered := hidle.numbered.pc
  rw [hpc] at hnumbered
  rcases hnumbered with ⟨hle, hlt, hqueue⟩
  refine ⟨.idle (q.origin.number + 1), ?_, fun _ => ⟨hcancel, .inl ⟨_, rfl, hidle.state, ?_, ?_, ?_⟩⟩⟩
  . rw [Frame.run_concat hrun]
    simp [Frame.next, hle, fillPduCacheReset, fillPduHeaderOnly]
  . exact CxnPc.response_of_quiet hquiet
  . exact ⟨hidle.numbered.sorted, hqueue, hidle.numbered.queue_lt, hlt,
      CxnPc.numbered_of_quiet hquiet _ _ _⟩
  intro _
  apply hidle.queue_nil
  rw [hpc]
  cases fromRecvBuffer with
  | true => rfl
  | false => contradiction

theorem Framed.sendNotify (hpc : c.pc = .sendNotify) (time : Nat)
    (hpdu : pdu.pduType = .serialNotify)
    : ({ c with
          pc := .waitOnSemaphore
          nextCacheStateCheckTime := time
          sent := c.sent ++ [⟨none, pdu⟩] } : Cxn).Framed a := by
  rcases h.idle (by rw [hpc]; rfl) (by rw [hpc]; rfl) with ⟨next, hrun, hcancel, hidle⟩
  refine ⟨.idle next, ?_, fun _ => ⟨hcancel, .inl ⟨next, rfl, hidle.state, rfl, ?_, ?_⟩⟩⟩
  . rw [Frame.run_concat hrun]
    simp [Frame.next, hpdu]
  . exact hidle.numbered.of_eq rfl rfl trivial
  . intro _
    exact hidle.queue_nil (by rw [hpc]; rfl)

theorem Framed.read (hpc : c.pc.reading = true) {pc : CxnPc} (hle : c.numReceived ≤ numReceived)
    (hnumbered : ∀ base, base ≤ c.numReceived →
      (∀ q ∈ c.toProcessQueue, q.origin.number < c.numReceived) →
        pc.Numbered base numReceived c.toProcessQueue)
    (hpc' : pc.response = none ∧ pc.todo = [] ∧ pc.interjects = false) (unread : List UInt8)
    (reader : Reader)
    : ({ c with pc := pc, unread := unread, reader := reader, numReceived := numReceived } : Cxn).Framed a := by
  have hquiet := CxnPc.quiet_of_reading hpc
  have hpopping : c.pc.popping = false := by
    cases hpc : c.pc <;> simp_all [CxnPc.reading, CxnPc.popping]
  rcases h with ⟨f, hrun, hlive⟩
  rcases hlive (CxnPc.live_of_quiet hquiet) with ⟨hcancel, hcases⟩
  have hread {base : Nat} (hn : c.Numbered base)
      : ({ c with pc := pc, unread := unread, reader := reader, numReceived := numReceived } : Cxn).Numbered
          base := by
    refine ⟨hn.sorted, hn.base_le_queue, ?_, hn.base_le.trans hle, hnumbered base hn.base_le hn.queue_lt⟩
    intro q hq
    exact lt_of_lt_of_le (hn.queue_lt q hq) hle
  refine ⟨f, hrun, fun _ => ⟨hcancel, ?_⟩⟩
  rcases hcases with ⟨next, hf, hidle⟩ | hans
  . exact .inl ⟨next, hf, hidle.state, hpc'.1, hread hidle.numbered, fun _ => hidle.queue_nil hpopping⟩
  have hdone := hans.done
  have hleads := hans.leads
  rw [CxnPc.response_of_quiet hquiet] at hdone
  rw [pending, CxnPc.todo_of_quiet hquiet] at hleads
  refine .inr ⟨hans.state, hpc'.2.2, hread hans.numbered, ?_, ?_, ?_⟩
  . intro hf
    have hstops := hans.ended hf
    rw [CxnPc.stops_of_quiet hquiet] at hstops
    contradiction
  . dsimp only
    rw [hpc'.1]
    exact hdone
  . unfold pending
    rw [hpc'.2.1]
    exact hleads

end

theorem Framed.steps {c : Cxn} (h : c.Framed a) (hinv : c.Inv)
    (hnil : ∀ r ∈ c.pc.response, r.isDone = true → c.responseQueue = [])
    (hok : action = .step → ∀ q ∈ c.pc.handled, c.AnswersLater q)
    (hsteps : Steps c action c' effect)
    : c'.Framed (if effect = .pushRequest then .fresh else a) := by
  cases hsteps with
  | wait hpc
  | timeout hpc
  | noResponse hpc => exact h.goto_quiet (by rw [hpc]; rfl) rfl rfl fun _ => .inl (by rw [hpc]; rfl)
  | wouldBlock pc hpc hpc' =>
    refine h.goto_quiet (by rw [hpc]; rfl) ?_ rfl fun _ => .inl (by rw [hpc]; rfl)
    rcases hpc' with ⟨-, rfl⟩ | ⟨-, rfl⟩ <;> rfl
  | readMore n bytes unread hreads =>
    refine h.read hreads.reading (Nat.le_refl _) ?_ ⟨rfl, rfl, rfl⟩ _ _
    intro _ _ _
    trivial
  | receive n bytes unread pdu hreads =>
    refine h.read hreads.reading (Nat.le_succ _) ?_ ⟨rfl, rfl, rfl⟩ _ _
    intro base hbase hqueue
    exact ⟨hbase, Nat.lt_succ_self _, hqueue⟩
  | readError n bytes unread _ _ _ pdu hreads _ hcode hpdu =>
    refine h.read hreads.reading (Nat.le_refl _) ?_ ⟨rfl, rfl, rfl⟩ _ _
    intro base hbase _
    unfold errorReport at hpdu
    split at hpdu
    . contradiction
    . cases hpdu
      exact ⟨rfl, hcode, _, rfl, hbase⟩
  | readExit
  | eof
  | abortRead
  | exit
  | cancel
  | leave
  | postCancel
  | cleanupWait
  | cleanupNoResponse => exact h.of_not_live rfl rfl
  | handlePdu q fromRecvBuffer hpc hhandles =>
    rcases h.handling hpc with ⟨f, hhandling⟩
    exact hhandling.handles (hok rfl q (by rw [hpc]; rfl)) hhandles
  | tryPopToProcess q queue hpc hstate hqueue hhandles =>
    rcases h.handling_pop hpc hstate hqueue with ⟨f, hhandling⟩
    exact hhandling.handles (fun _ _ => hstate) hhandles
  | toProcessDone hpc hqueue => exact h.goto_quiet (by rw [hpc]; rfl) rfl rfl fun _ => .inr hqueue
  | postRequest fromRecvBuffer hpc =>
    exact h.goto_quiet (by rw [hpc]; rfl) (CxnPc.quiet_afterHandlePdu _) rfl fun _ => .inl (by rw [hpc]; rfl)
  | popResponse response queue pc hpc hqueue hpc' =>
    rcases h with ⟨f, hrun, hlive⟩
    rcases hlive (by rw [hpc]; rfl) with ⟨hcancel, ⟨next, hf, hidle⟩ | hans⟩
    . have hstate := hinv.tryPopResponse hpc
      rw [hidle.state] at hstate
      contradiction
    have hfacts : pc.todo = response.pdus ∧ pc.interjects = false ∧ pc.response = some response ∧
        ∀ base, pc.Numbered base c.numReceived c.toProcessQueue := by
      rw [hpc']
      split <;> exact ⟨rfl, rfl, rfl, fun _ => trivial⟩
    have hdone := hans.done
    have hleads := hans.leads
    rw [hpc, hqueue] at hdone
    rw [pending, hpc, hqueue, flatMap_cons] at hleads
    refine ⟨f, hrun, fun _ => ⟨hcancel, .inr ⟨hans.state, hfacts.2.1,
      hans.numbered.of_eq rfl rfl (hfacts.2.2.2 _), ?_, ?_, ?_⟩⟩⟩
    . intro hf
      have hstops := hans.ended hf
      rw [hpc] at hstops
      contradiction
    . rw [popResponse, hfacts.2.2.1]
      exact hdone
    . rw [pending, popResponse, hfacts.1]
      exact hleads
  | postResponse response hpc =>
    refine h.goto (by rfl) ?_ ?_ ?_ ?_ ?_ ?_ ?_ <;>
      simp [hpc, CxnPc.live, CxnPc.response, CxnPc.todo, CxnPc.stops, CxnPc.interjects, CxnPc.Numbered,
        CxnPc.popping]
  | responded response stop pc hpc hpc' =>
    exact h.responded hpc hpc' (hnil response (by rw [hpc]; rfl))
  | cleanupPop response queue pc hpc hqueue hpc' =>
    refine h.of_not_live rfl ?_
    simp only [Cxn.popResponse, hpc']
    split <;> rfl
  | sendCacheReset now q fromRecvBuffer hpc => exact h.sendCacheReset hpc
  | sendError now _ hpc => exact h.sendError hpc
  | sendResponse now response pdu todo stop cache hpc =>
    rcases h.answering (by rw [hpc]; rfl) (by rw [hpc]; rfl) with ⟨f, hrun, hcancel, hans⟩
    rcases hans.sendResponse hpc with ⟨f', hnext, hleads, hended⟩
    refine ⟨f', ?_, fun _ => ⟨hcancel, .inr ⟨hans.state, rfl, ?_, ?_, ?_, hleads⟩⟩⟩
    . rw [Frame.run_concat hrun]
      exact hnext
    . exact hans.numbered.of_eq rfl rfl trivial
    . intro hf'
      simp [CxnPc.stops, hended hf']
    . intro r hr
      apply hans.done r
      rw [hpc]
      exact hr
  | sendNotify now hpc => exact h.sendNotify hpc _ rfl
  | check now _ _ cache _ pc hpc _ hpc' =>
    rcases hpc' with rfl | ⟨rfl, hstate⟩
    . exact h.goto_quiet (by rw [hpc]; rfl) rfl rfl fun _ => .inl (by rw [hpc]; rfl)
    refine h.goto (by rfl) ?_ ?_ ?_ ?_ ?_ ?_ ?_ <;>
      simp [hpc, hstate, CxnPc.live, CxnPc.response, CxnPc.todo, CxnPc.stops, CxnPc.Numbered, CxnPc.popping]

theorem Framed.pushResponse {a a' : Rtr.Answer} (h : c.Framed a) {pdus : List Rtr.Pdu}
    (hrun : a.run pdus = some a') (hdone : isDone = true → a' = .closed)
    : (c.pushResponse ⟨pdus.map fillPdu, isDone⟩).Framed a' := by
  rcases h with ⟨f, hf, hlive⟩
  refine ⟨f, hf, ?_⟩
  intro hpc
  rcases hlive hpc with ⟨hcancel, ⟨next, hnext, hidle⟩ | hans⟩
  . exact ⟨hcancel, .inl ⟨next, hnext, hidle.state, hidle.response,
      hidle.numbered.of_eq rfl rfl hidle.numbered.pc, hidle.queue_nil⟩⟩
  refine ⟨hcancel, .inr ⟨hans.state, hans.interjects, hans.numbered.of_eq rfl rfl hans.numbered.pc,
    hans.ended, ?_, ?_⟩⟩
  . intro r hr hr'
    have hclosed (h : a = .closed) : a' = .closed := by
      rw [h] at hrun
      exact (Rtr.Answer.run_closed hrun).2
    simp only [Cxn.pushResponse, List.mem_append, mem_singleton] at hr
    rcases hr with hr | hr | hr
    . exact hclosed (hans.done r (mem_append_left _ hr) hr')
    . exact hclosed (hans.done r (mem_append_right _ hr) hr')
    . rw [hr] at hr'
      exact hdone hr'
  rcases hans.leads with ⟨a0, pdus0, hat, hpending, hrun0⟩
  refine ⟨a0, pdus0 ++ pdus, hat, ?_, ?_⟩
  . rw [pending] at hpending
    rw [map_append, ← hpending, pending, Cxn.pushResponse, flatMap_append]
    simp
  . rw [Rtr.Answer.run_append_of_run hrun0]
    exact hrun

theorem Framed.pushResponse_of_not (h : c.Framed a)
    (hnot : ¬ (c.pc.live = true ∧ c.state = .responding)) (response : DbResponse)
    : (c.pushResponse response).Framed a := by
  rcases h with ⟨f, hf, hlive⟩
  refine ⟨f, hf, ?_⟩
  intro hpc
  rcases hlive hpc with ⟨hcancel, ⟨next, hnext, hidle⟩ | hans⟩
  . exact ⟨hcancel, .inl ⟨next, hnext, hidle.state, hidle.response,
      hidle.numbered.of_eq rfl rfl hidle.numbered.pc, hidle.queue_nil⟩⟩
  . exact absurd ⟨hpc, hans.state⟩ hnot

theorem Steps.answering {c : Cxn} (hsteps : Steps c action c' effect) (hlive : c'.pc.live = true)
    (hstate : c'.state = .responding)
    : effect = .pushRequest ∨ c.pc.live = true ∧ c.state = .responding := by
  have hpc {pc : CxnPc} (h : c.pc = pc) (hpc : pc.live = true) (hstate : c.state = .responding)
      : effect = .pushRequest ∨ c.pc.live = true ∧ c.state = .responding := by
    rw [h]
    exact .inr ⟨hpc, hstate⟩
  have hread (h : c.pc.reading = true) : c.pc.live = true :=
    CxnPc.live_of_quiet (CxnPc.quiet_of_reading h)
  cases hsteps with
  | wait hat
  | timeout hat
  | wouldBlock _ hat
  | toProcessDone hat
  | postRequest _ hat
  | noResponse hat
  | popResponse _ _ _ hat
  | postResponse _ hat
  | sendCacheReset _ _ _ hat
  | sendResponse _ _ _ _ _ _ hat
  | sendNotify _ hat
  | check _ _ _ _ _ _ hat => exact hpc hat rfl hstate
  | readMore _ _ _ hreads
  | receive _ _ _ _ hreads
  | readError _ _ _ _ _ _ _ hreads => exact .inr ⟨hread hreads.reading, hstate⟩
  | handlePdu _ _ hat hhandles
  | tryPopToProcess _ _ hat _ _ hhandles =>
    cases hhandles with
    | push => exact .inl rfl
    | cacheReset
    | defer
    | report => exact hpc hat rfl hstate
    | exit => contradiction
  | responded response _ pc hat =>
    refine hpc hat rfl ?_
    split at hstate
    . contradiction
    . exact hstate
  | cleanupPop response _ pc hat _ hpc' =>
    have hdead : pc.live = false := by
      rw [hpc']
      split <;> rfl
    have hlive : pc.live = true := hlive
    rw [hdead] at hlive
    contradiction
  | _ => contradiction

end Cxn

end Rpstir.Daemon
