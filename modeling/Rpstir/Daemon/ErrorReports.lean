import Rpstir.Daemon.Chunking
import Rpstir.Daemon.Lemmas.System

/-!
This module contains when the daemon sends no Error Report about an Error Report.
-/

namespace Rpstir

open List Option
variable {bytes : List UInt8} {pdu : Pdu} {n : Nat}

namespace Wire

def typeField (bytes : List UInt8) : Option UInt8 :=
  bytes[1]?

def isErrorReport (bytes : List UInt8) : Bool :=
  typeField bytes == some PduType.errorReport.code

def Pdu.encapsulatedPdu : Pdu → List UInt8
  | ⟨_, .errorReport, _, _, (d : ErrorData)⟩ => d.encapsulatedPdu.val
  | _ => []

theorem isErrorReport_resize (h : isErrorReport bytes = false)
    : isErrorReport (Bytes.resize n bytes).val = false := by
  simp only [isErrorReport, typeField, beq_eq_false_iff_ne] at h ⊢
  simp only [Bytes.resize, getElem?_take, getElem?_append]
  split
  . split
    . exact h
    . -- The zeros after the end are not the type of an Error Report.
      rw [getElem?_replicate]
      split <;> decide
  . simp

theorem isErrorReport_take (h : isErrorReport bytes = false)
    : isErrorReport (bytes.take n) = false := by
  simp only [isErrorReport, typeField, getElem?_take] at h ⊢
  split
  . exact h
  . rfl

theorem isErrorReport_bytes (pdu : Pdu)
    : isErrorReport pdu.bytes = decide (pdu.pduType = .errorReport) := by
  have htype : typeField pdu.bytes = some pdu.pduType.code := rfl
  rw [isErrorReport, htype]
  cases pdu.pduType <;> decide

theorem isErrorReport_dumpPdu (hwf : pdu.WellFormed) (htype : pdu.pduType ≠ .errorReport)
    (buflen : Nat) : isErrorReport ((dumpPdu buflen pdu).getD []) = false := by
  by_cases hle : pdu.length.toNat ≤ buflen
  . rw [dumpPdu_of_le hwf.length hle, getD_some, isErrorReport_bytes]
    exact decide_eq_false htype
  . rw [dumpPdu_of_lt hwf.length (by omega)]
    rfl

end Wire

namespace Daemon

open Wire

variable {ι κ : Type}

def Sent.Proper (x : Sent) : Prop :=
  x.pdu.pduType = .errorReport →
    (∀ o ∈ x.origin, isErrorReport o.bytes = false) ∧ isErrorReport x.pdu.encapsulatedPdu = false

def Received.Parsed (q : Received) : Prop :=
  q.pdu.WellFormed ∧ q.origin.bytes = q.pdu.bytes

def Plain (pdus : List Pdu) : Prop :=
  ∀ pdu ∈ pdus, pdu.encapsulatedPdu = []

def CxnPc.Proper (buffer : List UInt8) : CxnPc → Prop
  | handlePdu q fromRecvBuffer => q.Parsed ∧ (fromRecvBuffer = true → buffer = q.origin.bytes)
  | sendError report => report.Proper
  | handleResponse response => Plain response.pdus
  | sendResponse _ todo _ => Plain todo
  | _ => True

variable {c : Cxn} {code : ErrorCode} {requestBuffer text embedded : List UInt8}

theorem encapsulatedPdu_errorReport (h : errorReport code embedded text = some pdu)
    (hembedded : isErrorReport embedded = false) : isErrorReport pdu.encapsulatedPdu = false := by
  unfold errorReport at h
  split at h
  . contradiction
  . cases h
    exact isErrorReport_resize (isErrorReport_take hembedded)

theorem plain_fillPdu (pdus : List Rtr.Pdu) : Plain (pdus.map fillPdu) := by
  intro _ hpdu
  rcases List.mem_map.mp hpdu with ⟨p, -, rfl⟩
  cases p with
  | cacheResponse
  | endOfData
  | cacheReset => rfl
  | ipPrefix =>
    unfold fillPdu
    dsimp only
    split <;> rfl
  | errorReport code => cases code <;> rfl

theorem encapsulatedPdu_encapsulateRequest (hbuffer : isErrorReport requestBuffer = false)
    (hpdu : pdu.encapsulatedPdu = [])
    : isErrorReport (Cxn.encapsulateRequest requestBuffer pdu).encapsulatedPdu = false := by
  unfold Cxn.encapsulateRequest
  split
  . split
    . exact isErrorReport_resize hbuffer
    . rw [hpdu]
      rfl
  . rw [hpdu]
    rfl

def rejectsErrorReport (buffer : List UInt8) : Bool :=
  isErrorReport buffer &&
    match parsePdu buffer with
    | .error _ => true
    | .truncated (some length) => length.toNat > maxPduSize
    | _ => false

theorem isErrorReport_of_sendError {r : Reader} (hok : r.Ok) (hpos : 0 < bytes.length)
    (hle : (bytes.length : Int) ≤ r.count) (hcond : rejectsErrorReport (r.pending ++ bytes) = false)
    (h : r.receive bytes = .sendError code text) : isErrorReport (r.pending ++ bytes) = false := by
  have hright := hok.receive_right hpos hle
  rw [h] at hright
  have hfirst := hright []
  rw [append_nil] at hfirst
  rcases hok.length_le hle with ⟨hmax, hshort⟩
  have haccepted {pdu : Pdu} {length : UInt32} (haccepts : Accepts (r.pending ++ bytes) pdu)
      (hlength : pdu.length = length)
      : length.toNat ≤ maxPduSize ∧ (r.pending ++ bytes).length ≤ length.toNat := by
    have hle := length_bytes_le_of_accepts haccepts
    have hge := hshort [] pdu (by rwa [append_nil])
    rw [← hlength, (accepts_iff.mp haccepts).1.length]
    exact ⟨hle.trans hmax, hge⟩
  cases hreport : isErrorReport (r.pending ++ bytes) with
  | false => rfl
  | true =>
    -- The result of `parse_pdu` is no error, but the code takes it for one.
    simp only [rejectsErrorReport, hreport, Bool.true_and] at hcond
    rw [firstItem_eq_ofResult] at hfirst
    . cases hparse : parsePdu (r.pending ++ bytes) <;> simp_all [Item.ofResult]
    intro length hlength _
    cases hparse : parsePdu (r.pending ++ bytes) with
    | good => exact haccepted (.inl hparse) (by rwa [hparse] at hlength)
    | warning => exact haccepted (.inr hparse) (by rwa [hparse] at hlength)
    | truncated =>
      rw [hparse] at hlength hcond
      cases hlength
      exact ⟨by simpa using hcond, (length_lt_of_truncated_some hparse).2.le⟩
    | error => simp [hparse] at hcond

namespace Cxn

structure Proper (c : Cxn) : Prop where
  reader : c.reader.Ok
  sent : ∀ x ∈ c.sent, x.Proper
  pc : c.pc.Proper c.reader.buffer
  queue : ∀ q ∈ c.toProcessQueue, q.Parsed
  request : isErrorReport c.requestOrigin.bytes = false ∧ isErrorReport c.requestBuffer = false
  responses : ∀ r ∈ c.responseQueue, Plain r.pdus

variable {effect : CxnEffect}

theorem Proper.reads (h : c.Proper) {unread : List UInt8} (hreads : c.Reads n bytes unread)
    : (c.reader.after bytes).Ok :=
  h.reader.after hreads.pos hreads.le_count

theorem Proper.handles {c' : Cxn} {q : Received} {fromRecvBuffer : Bool} (h : c.Proper)
    (hq : q.Parsed) (hbuffer : fromRecvBuffer = true → c.reader.buffer = q.origin.bytes)
    (hhandles : Handles c q fromRecvBuffer c' effect) : c'.Proper := by
  have hbytes (htype : q.pdu.pduType ≠ .errorReport) : isErrorReport q.origin.bytes = false := by
    rw [hq.2, isErrorReport_bytes]
    exact decide_eq_false htype
  have hafter : (CxnPc.afterHandlePdu fromRecvBuffer).Proper c.reader.buffer := by
    cases fromRecvBuffer <;> trivial
  cases hhandles with
  | cacheReset
  | exit => exact { h with pc := trivial }
  | defer =>
    exact { h with pc := hafter, queue := List.forall_mem_append.mpr ⟨h.queue, forall_mem_singleton.mpr hq⟩ }
  | push _ haccept =>
    have htype : q.pdu.pduType ≠ .errorReport := by
      rcases haccept with ⟨hserial, -⟩ | hreset
      . simp [hserial]
      . simp [hreset]
    exact { h with pc := trivial, request := ⟨hbytes htype, isErrorReport_dumpPdu hq.1 htype _⟩ }
  | report _ _ _ pdu _ htype _ hembedded hpdu =>
    refine { h with pc := ?_ }
    intro _
    constructor
    . intro _ ho
      rw [← some.inj ho]
      exact hbytes htype
    apply encapsulatedPdu_errorReport hpdu
    rcases hembedded with ⟨rfl, hrecv⟩ | ⟨n, rfl, -⟩
    . rw [hbuffer hrecv]
      exact hbytes htype
    . exact isErrorReport_dumpPdu hq.1 htype n

theorem Proper.mem_append (h : c.Proper) {y : Sent} (hy : y.Proper)
    : ∀ x ∈ c.sent ++ [y], x.Proper := by
  exact List.forall_mem_append.mpr ⟨h.sent, forall_mem_singleton.mpr hy⟩

theorem Proper.popResponse (h : c.Proper) {response : DbResponse} {queue : List DbResponse}
    {pc : CxnPc} (hqueue : c.responseQueue = response :: queue)
    (hpc : Plain response.pdus → pc.Proper c.reader.buffer)
    : (c.popResponse response queue pc).Proper := by
  have hresponses := h.responses
  rw [hqueue, forall_mem_cons] at hresponses
  exact { h with pc := hpc hresponses.1, responses := hresponses.2 }

def ReadsProper (c : Cxn) : CxnAction → Prop
  | .read (.receive n) => rejectsErrorReport (c.reader.pending ++ c.unread.take n) = false
  | _ => True

instance (c : Cxn) : (a : CxnAction) → Decidable (c.ReadsProper a)
  | .read (.receive _) => inferInstanceAs (Decidable (_ = false))
  | .read .wouldBlock | .read .eof | .step
  | .timeout | .write _ | .check _ _ _ | .abort => .isTrue trivial

theorem Proper.steps {c' : Cxn} {a : CxnAction} (h : c.Proper) (hok : c.ReadsProper a)
    (hsteps : Steps c a c' effect) : c'.Proper := by
  have hpc := h.pc
  cases hsteps with
  | readMore _ _ _ hreads
  | readExit _ _ _ hreads =>
    exact { h with reader := h.reads hreads, pc := trivial }
  | receive n bytes unread pdu hreads hread =>
    have hright := h.reader.receive_right hreads.pos hreads.le_count
    rw [hread] at hright
    exact { h with reader := h.reads hreads, pc := ⟨⟨hright.1, hright.2.1⟩, fun _ => rfl⟩ }
  | readError n bytes unread _ _ _ pdu hreads hread _ hpdu =>
    rcases hread with ⟨hread, rfl⟩ | ⟨hread, -⟩
    . have hcond : rejectsErrorReport (c.reader.pending ++ bytes) = false := by
        rw [hreads.bytes_eq]
        exact hok
      have hnot := isErrorReport_of_sendError h.reader hreads.pos hreads.le_count hcond hread
      refine { h with reader := h.reads hreads, pc := ?_ }
      intro _
      constructor
      . intro o ho
        rw [← some.inj ho]
        exact hnot
      . exact encapsulatedPdu_errorReport hpdu hnot
    . have hright := h.reader.receive_right hreads.pos hreads.le_count
      rw [hread] at hright
      exact hright.elim
  | handlePdu q fromRecvBuffer hat hhandles =>
    rw [hat] at hpc
    exact h.handles hpc.1 hpc.2 hhandles
  | tryPopToProcess q queue hat _ hqueue hhandles =>
    have hall := h.queue
    rw [hqueue, forall_mem_cons] at hall
    have hpop : ({ c with toProcessQueue := queue } : Cxn).Proper := { h with queue := hall.2 }
    exact hpop.handles hall.1 (by simp) hhandles
  | postRequest fromRecvBuffer =>
    refine { h with pc := ?_ }
    cases fromRecvBuffer <;> trivial
  | popResponse response queue pc hat hqueue hpc' =>
    apply h.popResponse hqueue
    intro hplain
    rw [hpc']
    split <;> exact hplain
  | postResponse response hat =>
    rw [hat] at hpc
    exact { h with pc := hpc }
  | responded response stop pc hat hpc' =>
    refine { h with pc := ?_ }
    rw [hpc']
    split
    . trivial
    . split <;> trivial
  | cleanupPop response queue pc hat hqueue hpc' =>
    apply h.popResponse hqueue
    intro _
    rw [hpc']
    split <;> trivial
  | sendCacheReset now q fromRecvBuffer =>
    have hafter : (CxnPc.afterHandlePdu fromRecvBuffer).Proper c.reader.buffer := by
      cases fromRecvBuffer <;> trivial
    exact { h with
      sent := h.mem_append (by simp [Sent.Proper, fillPduCacheReset, fillPduHeaderOnly]), pc := hafter }
  | sendError now _ hat =>
    rw [hat] at hpc
    exact { h with sent := h.mem_append hpc, pc := trivial }
  | sendResponse now response pdu _ stop cache hat =>
    rw [hat] at hpc
    have hsent : Sent.Proper ⟨some c.requestOrigin, encapsulateRequest c.requestBuffer pdu⟩ := by
      intro _
      constructor
      . intro o ho
        rw [← some.inj ho]
        exact h.request.1
      . exact encapsulatedPdu_encapsulateRequest h.request.2 (hpc pdu mem_cons_self)
    exact { h with sent := h.mem_append hsent, pc := fun p hp => hpc p (mem_cons_of_mem pdu hp) }
  | sendNotify =>
    exact { h with
      sent := h.mem_append (by simp [Sent.Proper, fillPduSerialNotify, fillPduWithSerialNumber]), pc := trivial }
  | check now _ _ cache _ pc hat _ hpc' =>
    refine { h with pc := ?_ }
    rcases hpc' with rfl | ⟨rfl, -⟩ <;> trivial
  | wouldBlock pc hat hpc' =>
    refine { h with pc := ?_ }
    rcases hpc' with ⟨-, rfl⟩ | ⟨-, rfl⟩ <;> trivial
  | _ =>
    exact { h with pc := trivial }

end Cxn

def DbPc.Proper : DbPc ι → Prop
  | sendResponse _ pdus _ => Plain pdus
  | _ => True

namespace System

def ReadsProper (s : System ι κ) : Event ι κ → Prop
  | .cxn i a => (s.cxns i).ReadsProper a
  | _ => True

instance (s : System ι κ) : (ev : Event ι κ) → Decidable (s.ReadsProper ev)
  | .cxn i a => inferInstanceAs (Decidable ((s.cxns i).ReadsProper a))
  | .arrive _ _ | .close _ | .select _ | .post _ | .db _ _ => .isTrue trivial

structure Proper (s : System ι κ) : Prop where
  cxns : ∀ i, (s.cxns i).Proper
  threads : ∀ k, (s.threads k).Proper

theorem proper_init (cxns : ι → CacheState × Nat) : (init cxns : System ι κ).Proper where
  cxns i := ⟨.inl rfl, by simp [init, Cxn.init], trivial, by simp [init, Cxn.init], ⟨rfl, rfl⟩,
    by simp [init, Cxn.init]⟩
  threads k := trivial

variable [DecidableEq ι]

variable {s s' : System ι κ} {k : κ}

theorem Proper.setCxn (h : s.Proper) {i : ι} (hc : c.Proper) : (s.setCxn i c).Proper :=
  { h with cxns := forall_setCxn hc h.cxns }

variable [DecidableEq κ]

omit [DecidableEq ι] in
theorem Proper.setThread (h : s.Proper) {pc : DbPc ι} (hpc : pc.Proper)
    : (s.setThread k pc).Proper :=
  { h with threads := forall_setThread hpc h.threads }

theorem Proper.db_step (h : s.Proper) (hsteps : s.DbSteps k s') : s'.Proper := by
  have hgo {t : System ι κ} {pc : DbPc ι} (hcxns : t.cxns = s.cxns) (hthreads : t.threads = s.threads)
      (hpc : pc.Proper) : (t.setThread k pc).Proper := by
    have ht : t.Proper := ⟨hcxns ▸ h.cxns, hthreads ▸ h.threads⟩
    exact ht.setThread hpc
  cases hsteps with
  | cancelled => exact hgo rfl rfl (by simp [DbPc.Proper, Plain])
  | statement =>
    refine hgo rfl rfl ?_
    unfold DbPc.afterStatement
    split
    . exact plain_fillPdu _
    . split
      . exact plain_fillPdu _
      . trivial
  | sendResponse r _ queryState hpc =>
    have hplain := h.threads k
    rw [hpc] at hplain
    have hold := h.cxns r.cxn
    refine (h.setCxn ?_).setThread trivial
    exact { hold with
      responses := List.forall_mem_append.mpr ⟨hold.responses, forall_mem_singleton.mpr hplain⟩ }
  | postResponse r queryState =>
    have hold := h.cxns r.cxn
    refine (h.setCxn ?_).setThread (by cases queryState <;> trivial)
    exact { hold with }
  | _ => exact hgo rfl rfl trivial

theorem Proper.next {s s' : System ι κ} (h : s.Proper) {ev : Event ι κ} (hok : s.ReadsProper ev)
    (hstep : s.next ev = some s') : s'.Proper := by
  cases next_steps hstep with
  | arrive i bytes
  | close i
  | select i
  | post i =>
    exact h.setCxn { h.cxns i with }
  | @cxn i _ c effect hsteps =>
    have hc : (s.setCxn i c).Proper := h.setCxn ((h.cxns i).steps hok hsteps)
    cases effect <;> exact { hc with }
  | db hsteps => exact h.db_step hsteps

/--
In the runs in which no Error Report is rejected, no Error Report is sent in answer to one, and none is
encapsulated in one.
-/
theorem no_error_report_about_error_report (cxns : ι → CacheState × Nat) {s : System ι κ}
    (hreach : ((lts cxns).restrict ReadsProper).Reachable s) (i : ι) (x : Sent)
    (hx : x ∈ (s.cxns i).sent) (htype : x.pdu.pduType = .errorReport)
    : (∀ o ∈ x.origin, isErrorReport o.bytes = false) ∧
        isErrorReport x.pdu.encapsulatedPdu = false := by
  have hproper : s.Proper := by
    apply hreach.invariant_restrict
    . intro s hs
      rw [hs]
      exact proper_init cxns
    . intro s _ _ _ h hok hstep
      exact h.next hok hstep
  exact (hproper.cxns i).sent x hx htype

def rejected (pdu : List UInt8) : List (Event Unit Unit) :=
  [.arrive () pdu, .select (), .post (), .cxn () .step, .cxn () (.read (.receive 8)),
    .cxn () (.write 0)]

theorem no_error_report_about_error_report_resetQuery
    : ∃ s : System Unit Unit,
        ((lts fun _ => (⟨false, 0, 0⟩, 0)).restrict ReadsProper).Reachable s ∧
          ∃ x ∈ (s.cxns ()).sent, x.pdu.pduType = .errorReport ∧
            (∀ o ∈ x.origin, isErrorReport o.bytes = false) ∧
            isErrorReport x.pdu.encapsulatedPdu = false := by
  have hrun : ∃ s : System Unit Unit,
      ((lts fun _ => (⟨false, 0, 0⟩, 0)).restrict ReadsProper).Reachable s ∧
        ∃ x ∈ (s.cxns ()).sent, x.pdu.pduType = .errorReport :=
    Lts.exists_reachable_restrict_of_foldlM (rejected [0, 2, 0, 0, 0, 0, 0, 9]) (by decide)
  rcases hrun with ⟨s, hreach, x, hx, htype⟩
  exact ⟨s, hreach, x, hx, htype, no_error_report_about_error_report _ hreach () x hx htype⟩

theorem error_report_about_error_report
    : ∃ s : System Unit Unit, (lts fun _ => (⟨false, 0, 0⟩, 0)).Reachable s ∧
        ∃ x ∈ (s.cxns ()).sent, x.pdu.pduType = .errorReport ∧
          (∃ o ∈ x.origin, isErrorReport o.bytes = true) ∧
          isErrorReport x.pdu.encapsulatedPdu = true :=
  Lts.exists_reachable_of_foldlM (rejected [0, 10, 0, 0, 0, 0, 0, 8]) (by decide)

end System
end Daemon
end Rpstir
