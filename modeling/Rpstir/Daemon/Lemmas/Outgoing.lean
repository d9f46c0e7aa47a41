import Rpstir.Daemon.Lemmas.System
import Rpstir.Wire.Codec

/-!
This module contains what the threads of the daemon have yet to send: a property of the PDUs that the
queries make is one of all PDUs of responses, wherever they are.
-/

namespace Rpstir

open List Option
namespace Wire

variable {buflen : Nat} {result buffer bytes : List UInt8}

theorem dumpPdu.length_le_of_write (h : write buflen bytes buffer = some result)
    : result.length ≤ buflen := by
  unfold write at h
  split at h
  . contradiction
  . cases h
    rw [length_append]
    omega

theorem dumpPdu.length_swap (offset : Nat) (buffer : List UInt8)
    : (swap offset buffer).length = buffer.length := by
  simp only [swap, length_append, length_reverse, length_take, length_drop]
  omega

theorem length_le_of_dumpPdu {pdu : Pdu} (h : dumpPdu buflen pdu = some result)
    : result.length ≤ buflen := by
  rcases bind_eq_some_iff.mp h with ⟨_, -, h⟩
  rcases bind_eq_some_iff.mp h with ⟨_, -, h⟩
  rcases bind_eq_some_iff.mp h with ⟨buffer, -, h⟩
  unfold dumpPdu.data at h
  split at h
  . rcases bind_eq_some_iff.mp h with ⟨_, -, h⟩
    rcases bind_eq_some_iff.mp h with ⟨_, -, h⟩
    rcases bind_eq_some_iff.mp h with ⟨_, -, h⟩
    exact dumpPdu.length_le_of_write h
  rcases bind_eq_some_iff.mp h with ⟨buffer, hwrite, h⟩
  have hle := dumpPdu.length_le_of_write hwrite
  split at h
  all_goals
    cases h
    first
    | exact hle
    | rw [dumpPdu.length_swap]
      exact hle

end Wire

namespace Daemon

open Wire

variable {ι κ : Type}

def CxnPc.Pending (p : Pdu → Prop) : CxnPc → Prop
  | sendError report => ∃ code embedded text, errorReport code embedded text = some report.pdu
  | handleResponse response => ∀ pdu ∈ response.pdus, p pdu
  | sendResponse _ todo _ => ∀ pdu ∈ todo, p pdu
  | _ => True

variable {q : DbQueryState} {c : Cxn} {r : RequestRef ι} {starting : Bool} {numSent : Nat}
  {p' : Pdu → Prop}

theorem CxnPc.Pending.mono {p : Pdu → Prop} {pc : CxnPc} (h : pc.Pending p)
    (hp : ∀ pdu, p pdu → p' pdu) : pc.Pending p' := by
  cases pc with
  | sendError => exact h
  | handleResponse
  | sendResponse => exact fun pdu hpdu => hp pdu (h pdu hpdu)
  | _ => trivial

namespace Cxn

structure Pending (p : Pdu → Prop) (c : Cxn) : Prop where
  pc : c.pc.Pending p
  responses : ∀ r ∈ c.responseQueue, ∀ pdu ∈ r.pdus, p pdu
  request : c.requestBuffer.length ≤ maxQueryPduLength

variable {p : Pdu → Prop}

theorem pending_init (cache : CacheState) (now : Nat) : (init cache now).Pending p :=
  ⟨trivial, by simp [init], Nat.zero_le _⟩

theorem Pending.mono (h : c.Pending p) (hp : ∀ pdu, p pdu → p' pdu) : c.Pending p' := by
  exact ⟨h.pc.mono hp, fun r hr pdu hpdu => hp pdu (h.responses r hr pdu hpdu), h.request⟩

variable {response : DbResponse} {effect : CxnEffect}

theorem Pending.pushResponse (h : c.Pending p) (hp : ∀ pdu ∈ response.pdus, p pdu)
    : (c.pushResponse response).Pending p := by
  exact { h with responses := List.forall_mem_append.mpr ⟨h.responses, forall_mem_singleton.mpr hp⟩ }

theorem Pending.popResponse (h : c.Pending p) {queue : List DbResponse} {pc : CxnPc}
    (hqueue : c.responseQueue = response :: queue)
    (hpc : (∀ pdu ∈ response.pdus, p pdu) → pc.Pending p)
    : (c.popResponse response queue pc).Pending p := by
  have hresponses := h.responses
  rw [hqueue, forall_mem_cons] at hresponses
  exact { h with pc := hpc hresponses.1, responses := hresponses.2 }

theorem pending_afterHandlePdu (fromRecvBuffer : Bool)
    : (CxnPc.afterHandlePdu fromRecvBuffer).Pending p := by
  cases fromRecvBuffer <;> trivial

theorem Pending.handles {c' : Cxn} {q : Received} {fromRecvBuffer : Bool} (h : c.Pending p)
    (hhandles : Handles c q fromRecvBuffer c' effect) : c'.Pending p := by
  cases hhandles with
  | cacheReset
  | exit => exact { h with pc := trivial }
  | defer => exact { h with pc := pending_afterHandlePdu _ }
  | push =>
    refine ⟨trivial, h.responses, ?_⟩
    cases hdump : dumpPdu maxQueryPduLength q.pdu with
    | none => exact Nat.zero_le _
    | some => exact length_le_of_dumpPdu hdump
  | report code embedded text pdu _ _ _ _ hpdu =>
    exact { h with pc := ⟨code, embedded, text, hpdu⟩ }

theorem Pending.steps {c' : Cxn} {a : CxnAction} (h : c.Pending p) (hsteps : Steps c a c' effect)
    : c'.Pending p := by
  have hpc := h.pc
  cases hsteps with
  | readError _ _ _ code embedded text pdu _ _ _ hpdu =>
    exact { h with pc := ⟨code, embedded, text, hpdu⟩ }
  | handlePdu q fromRecvBuffer hat hhandles => exact h.handles hhandles
  | tryPopToProcess q queue hat _ hqueue hhandles =>
    have hpop : ({ c with toProcessQueue := queue } : Cxn).Pending p := { h with }
    exact hpop.handles hhandles
  | postRequest fromRecvBuffer hat
  | sendCacheReset =>
    exact { h with pc := pending_afterHandlePdu _ }
  | popResponse response queue pc hat hqueue hpc' =>
    apply h.popResponse hqueue
    intro hall
    rw [hpc']
    split <;> exact hall
  | postResponse response hat =>
    rw [hat] at hpc
    exact { h with pc := hpc }
  | responded response stop pc hat hpc' =>
    refine { h with pc := ?_ }
    rw [hpc']
    split
    . trivial
    . split <;> trivial
  | cleanupPop response queue pc hat hqueue hpc' =>
    apply h.popResponse hqueue
    intro _
    rw [hpc']
    split <;> trivial
  | sendResponse now response pdu _ stop cache hat =>
    rw [hat] at hpc
    exact { h with pc := fun pdu' hpdu' => hpc pdu' (mem_cons_of_mem pdu hpdu') }
  | check now _ _ cache _ pc hat _ hpc' =>
    refine { h with pc := ?_ }
    rcases hpc' with rfl | ⟨rfl, -⟩ <;> trivial
  | wouldBlock pc hat hpc' =>
    refine { h with pc := ?_ }
    rcases hpc' with ⟨-, rfl⟩ | ⟨-, rfl⟩ <;> trivial
  | _ => exact { h with pc := trivial }

end Cxn

namespace DbQueryState

def pdus : DbQueryState → List Rtr.Pdu
  | serialQuery q =>
    match q.pc with
    | .serialQryGetNext _ pdus => q.sent ++ pdus
    | .checkSerNum pdus => q.sent ++ pdus
    | .findNextSerNum pdus => q.sent ++ pdus
    | _ => q.sent
  | resetQuery q => q.sent

theorem mem_pdus_of_mem_sent {pdu : Rtr.Pdu} (h : pdu ∈ q.sent) : pdu ∈ q.pdus := by
  cases q with
  | serialQuery =>
    dsimp only [pdus]
    split
    . exact mem_append_left _ h
    . exact mem_append_left _ h
    . exact mem_append_left _ h
    . exact h
  | resetQuery => exact h

end DbQueryState

namespace DbPc

def queryState : DbPc ι → Option DbQueryState
  | serviceRequest _ q => q
  | query _ q _ _ => some q
  | sendResponse _ _ q => q
  | postResponse _ q => q
  | bagAdd rq => some rq.queryState
  | _ => none

def response : DbPc ι → List Pdu
  | sendResponse _ pdus _ => pdus
  | _ => []

variable {p : Rtr.Pdu → Prop}

structure Pending (p : Rtr.Pdu → Prop) (pc : DbPc ι) : Prop where
  queryState : ∀ q ∈ pc.queryState, ∀ pdu ∈ q.pdus, p pdu
  response : ∀ pdu ∈ pc.response, ∃ x, p x ∧ pdu = fillPdu x

theorem pending_afterStatement (h : ∀ pdu ∈ q.pdus, p pdu)
    : (afterStatement r starting numSent q).Pending p := by
  have hfill : ∀ pdu ∈ (q.sent.drop numSent).map fillPdu, ∃ x, p x ∧ pdu = fillPdu x := by
    intro pdu hpdu
    rcases List.mem_map.mp hpdu with ⟨x, hx, rfl⟩
    exact ⟨x, h x (DbQueryState.mem_pdus_of_mem_sent (mem_of_mem_drop hx)), rfl⟩
  have hquery : ∀ q' ∈ some q, ∀ pdu ∈ q'.pdus, p pdu := by
    intro q' hq'
    rw [← some.inj hq']
    exact h
  unfold afterStatement
  split
  . exact ⟨by simp [queryState], hfill⟩
  . split
    . exact ⟨hquery, hfill⟩
    . exact ⟨hquery, by simp [response]⟩

end DbPc

namespace System

structure Pending (p : Rtr.Pdu → Prop) (s : System ι κ) : Prop where
  cxns : ∀ i, (s.cxns i).Pending fun pdu => ∃ x, p x ∧ pdu = fillPdu x
  threads : ∀ k, (s.threads k).Pending p
  bag : ∀ rq ∈ s.currentlyProcessing, ∀ pdu ∈ rq.queryState.pdus, p pdu

variable {p : Rtr.Pdu → Prop}

theorem pending_init (cxns : ι → CacheState × Nat) : (init cxns : System ι κ).Pending p where
  cxns i := Cxn.pending_init _ _
  threads k := ⟨by simp [init, DbPc.queryState], by simp [init, DbPc.response]⟩
  bag := by simp [init]

variable [DecidableEq ι]

variable {s s' : System ι κ} {k : κ} {e : DbEnv}

theorem Pending.setCxn (h : s.Pending p) {i : ι}
    (hc : c.Pending fun pdu => ∃ x, p x ∧ pdu = fillPdu x) : (s.setCxn i c).Pending p :=
  { h with cxns := forall_setCxn hc h.cxns }

variable [DecidableEq κ]

omit [DecidableEq ι] in
theorem Pending.setThread (h : s.Pending p) {pc : DbPc ι} (hpc : pc.Pending p)
    : (s.setThread k pc).Pending p :=
  { h with threads := forall_setThread hpc h.threads }

theorem dbNext_of_query (h : s.threads k = .query r q starting numSent)
    : s.dbNext k e
        =
      (q.step e).map fun q => s.setThread k (.afterStatement r starting numSent q) := by
  simp [dbNext, h]

theorem Pending.dbNext (h : s.Pending p)
    (hstart : ∀ query, ∀ pdu ∈ (DbQueryState.start query).pdus, p pdu)
    (hquery : ∀ q q' : DbQueryState, (∀ pdu ∈ q.pdus, p pdu) → q.step e = some q' →
      ∀ pdu ∈ q'.pdus, p pdu) (hstep : s.dbNext k e = some s') : s'.Pending p := by
  have hthread := h.threads k
  have hgo {t : System ι κ} {pc : DbPc ι} (hcxns : t.cxns = s.cxns) (hthreads : t.threads = s.threads)
      (hbag : ∀ rq ∈ t.currentlyProcessing, ∀ pdu ∈ rq.queryState.pdus, p pdu) (hpc : pc.Pending p)
      : (t.setThread k pc).Pending p := by
    have ht : t.Pending p := ⟨hcxns ▸ h.cxns, hthreads ▸ h.threads, hbag⟩
    exact ht.setThread hpc
  have hnone {pc : DbPc ι} (hq : pc.queryState = none) (hr : pc.response = []) : pc.Pending p :=
    ⟨by simp [hq], by simp [hr]⟩
  cases dbNext_steps hstep with
  | statement r _ q q' _ _ hpc =>
    rw [dbNext_of_query hpc] at hstep
    rcases map_eq_some_iff.mp hstep with ⟨q'', hq, heq⟩
    rw [hpc] at hthread
    rw [← heq]
    exact hgo rfl rfl h.bag (DbPc.pending_afterStatement (hquery q q'' (hthread.queryState q rfl) hq))
  | startQuery =>
    refine hgo rfl rfl h.bag ⟨?_, by simp [DbPc.response]⟩
    intro q hq
    rw [← some.inj hq]
    exact hstart _
  | resumeQuery r q hpc =>
    rw [hpc] at hthread
    exact hgo rfl rfl h.bag ⟨hthread.queryState, by simp [DbPc.response]⟩
  | sendResponse r pdus queryState hpc =>
    rw [hpc] at hthread
    refine (h.setCxn ((h.cxns r.cxn).pushResponse hthread.response)).setThread ?_
    exact ⟨hthread.queryState, by simp [DbPc.response]⟩
  | postResponse r queryState hpc =>
    rw [hpc] at hthread
    have hpost : (s.cxns r.cxn).semPost.Pending fun pdu => ∃ x, p x ∧ pdu = fillPdu x :=
      { h.cxns r.cxn with }
    refine (h.setCxn hpost).setThread ?_
    cases queryState with
    | none => exact hnone rfl rfl
    | some => exact ⟨hthread.queryState, by simp [DbPc.response, DbPc.afterPost]⟩
  | found _ rq hrq =>
    refine hgo rfl rfl ?_ ⟨?_, by simp [DbPc.response]⟩
    . intro rq' hrq'
      exact h.bag rq' (mem_of_mem_eraseIdx hrq')
    . intro q hq
      rw [← some.inj hq]
      exact h.bag rq (mem_of_getElem? hrq)
  | bagAdd _ rq hpc =>
    rw [hpc] at hthread
    refine hgo rfl rfl ?_ (hnone rfl rfl)
    intro rq' hrq'
    rcases List.mem_append.mp hrq' with hrq' | hrq'
    . exact h.bag rq' (mem_of_mem_take hrq')
    . rcases mem_cons.mp hrq' with rfl | hrq'
      . exact hthread.queryState _ rfl
      . exact h.bag rq' (mem_of_mem_drop hrq')
  | _ => exact hgo rfl rfl h.bag (hnone rfl rfl)

theorem Pending.next {s s' : System ι κ} (h : s.Pending p) {ev : Event ι κ}
    (hstart : ∀ query, ∀ pdu ∈ (DbQueryState.start query).pdus, p pdu)
    (hquery : ∀ k e, ev = .db k e → ∀ q q' : DbQueryState, (∀ pdu ∈ q.pdus, p pdu) →
      q.step e = some q' → ∀ pdu ∈ q'.pdus, p pdu)
    (hstep : s.next ev = some s') : s'.Pending p := by
  cases next_steps hstep with
  | arrive i bytes
  | close i
  | select i
  | post i =>
    exact h.setCxn { h.cxns i with }
  | @cxn i _ c effect hsteps =>
    have hc : (s.setCxn i c).Pending p := h.setCxn ((h.cxns i).steps hsteps)
    cases effect <;> exact { hc with }
  | @db k e s' hsteps => exact h.dbNext hstart (hquery k e rfl) hstep

end System
end Daemon
end Rpstir
