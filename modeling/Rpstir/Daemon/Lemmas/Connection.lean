import Rpstir.Daemon.Connection

/-!
This module contains what a step of a connection thread can do, as a relation.
-/

namespace Rpstir.Daemon

open List Option

open Wire

namespace CxnPc

def reading : CxnPc → Bool
  | readNonblock => true
  | readBlock => true
  | _ => false

def mayExit : CxnPc → Bool
  | waitOnSemaphore => true
  | sendCacheReset _ _ => true
  | sendError _ => true
  | sendResponse _ _ _ => true
  | checkGlobalCacheState => true
  | sendNotify => true
  | _ => false

end CxnPc

theorem isFatal_parseErrorCode (result : ParseResult) : (parseErrorCode result).isFatal = true := by
  unfold parseErrorCode
  split <;> rfl

variable {text bytes : List UInt8} {code : ErrorCode}

theorem Reader.isFatal_of_receive {r : Reader} (h : r.receive bytes = .sendError code text)
    : code.isFatal = true := by
  have hhandle (result : ParseResult) (h : readAndHandlePdu result = .sendError code text)
      : code.isFatal = true := by
    unfold readAndHandlePdu at h
    split at h
    . contradiction
    . contradiction
    . cases h
      exact isFatal_parseErrorCode _
  have hblock {buffer : List UInt8} {count : Int} {pc : Int → ReaderPc} {done : ReadResult}
      (hdone : done = .sendError code text → code.isFatal = true)
      (h : readBlock buffer count pc done = .sendError code text) : code.isFatal = true := by
    unfold readBlock at h
    split at h
    . split at h <;> cases h
      exact isFatal_parseErrorCode _
    . exact hdone h
  have hbody {buffer : List UInt8} {count : Int}
      (h : readAndParsePdu.body buffer count = .sendError code text) : code.isFatal = true :=
    hblock (hhandle _) h
  have hheader {recvLength : UInt32} {buffer : List UInt8} {count : Int}
      (h : readAndParsePdu.header recvLength buffer count = .sendError code text)
      : code.isFatal = true := by
    refine hblock ?_ h
    intro hafter
    unfold readAndParsePdu.afterHeader at hafter
    split at hafter
    . dsimp only at hafter
      split at hafter
      . cases hafter
        rfl
      . exact hbody hafter
    . exact hhandle _ hafter
  unfold Reader.receive at h
  dsimp only at h
  split at h
  . unfold readAndParsePdu at h
    split at h
    . cases h
      exact isFatal_parseErrorCode _
    . exact hheader h
  . exact hheader h
  . exact hbody h

namespace Cxn

def Accepts (c : Cxn) (pdu : Pdu) : Prop :=
  pdu.pduType = .serialQuery ∧ pdu.sessionId = c.localCacheState.session ∨ pdu.pduType = .resetQuery

structure Reads (c : Cxn) (n : Nat) (bytes unread : List UInt8) : Prop where
  reading : c.pc.reading = true
  bytes_eq : bytes = c.unread.take n
  unread_eq : unread = c.unread.drop n
  pos : 0 < bytes.length
  le_count : (bytes.length : Int) ≤ c.reader.count

inductive Handles (c : Cxn) (q : Received) (fromRecvBuffer : Bool) : Cxn → CxnEffect → Prop where
  | cacheReset (htype : q.pdu.pduType = .serialQuery)
      (hsession : q.pdu.sessionId ≠ c.localCacheState.session)
      : Handles c q fromRecvBuffer { c with pc := .sendCacheReset q fromRecvBuffer } .none
  | defer (haccept : c.Accepts q.pdu) (hstate : c.state = .responding)
      : Handles c q fromRecvBuffer
          { c with
            pc := .afterHandlePdu fromRecvBuffer
            toProcessQueue := c.toProcessQueue ++ [q] } .none
  | push (query : DbQuery) (haccept : c.Accepts q.pdu) (hstate : c.state = .ready)
      (hqueue : c.responseQueue = [])
      : Handles c q fromRecvBuffer
          { c with
            pc := .addDbRequest fromRecvBuffer
            state := .responding
            request := ⟨query, false⟩
            requestBuffer := (dumpPdu maxQueryPduLength q.pdu).getD []
            requestOrigin := q.origin
            generation := c.generation + 1 } .pushRequest
  | report (code : ErrorCode) (embedded text : List UInt8) (pdu : Pdu)
      (hcode : code.isFatal = true) (htype : q.pdu.pduType ≠ .errorReport)
      (hqueue : q.pdu.pduType = .serialQuery ∨ q.pdu.pduType = .resetQuery →
        c.responseQueue ≠ [] ∧ c.state = .ready)
      (hembedded : embedded = c.reader.buffer ∧ fromRecvBuffer = true ∨
        ∃ n, embedded = (dumpPdu n q.pdu).getD [] ∧ fromRecvBuffer = false)
      (hpdu : errorReport code embedded text = some pdu)
      : Handles c q fromRecvBuffer { c with pc := .sendError ⟨some q.origin, pdu⟩ } .none
  | exit : Handles c q fromRecvBuffer { c with pc := .cleanup } .none

inductive Updates (old new : CacheState) : CacheState → Bool → Prop where
  | noData (hdata : new.dataAvailable = false) : Updates old new old false
  | newer (hdata : new.dataAvailable = true)
      (hgreater : old.dataAvailable = true → serialNumberGreater new.serialNumber old.serialNumber = true)
      : Updates old new { old with serialNumber := new.serialNumber, dataAvailable := true } true
  | notNewer (hdata : new.dataAvailable = true) (hold : old.dataAvailable = true)
      (hgreater : serialNumberGreater new.serialNumber old.serialNumber = false)
      : Updates old new old false

inductive Steps (c : Cxn) : CxnAction → Cxn → CxnEffect → Prop where
  | wait (hpc : c.pc = .waitOnSemaphore) (hpos : 0 < c.semaphore)
      : Steps c .step { c with pc := .readNonblock, semaphore := c.semaphore - 1 } .none
  | timeout (hpc : c.pc = .waitOnSemaphore) (hstate : c.state = .ready)
      : Steps c .timeout { c with pc := .readNonblock } .none
  | wouldBlock (pc : CxnPc) (hpc : c.pc = .readNonblock)
      (hpc' : c.state = .responding ∧ pc = .tryPopResponse ∨
        c.state = .ready ∧ pc = .checkGlobalCacheState)
      : Steps c (.read .wouldBlock) { c with pc := pc } .none
  | readMore (n : Nat) (bytes unread : List UInt8) (hreads : c.Reads n bytes unread)
      : Steps c (.read (.receive n))
          { c with pc := .readBlock, unread := unread, reader := c.reader.after bytes } .none
  | receive (n : Nat) (bytes unread : List UInt8) (pdu : Pdu) (hreads : c.Reads n bytes unread)
      (hread : c.reader.receive bytes = .handle pdu)
      : Steps c (.read (.receive n))
          { c with
            pc := .handlePdu ⟨⟨c.numReceived, c.reader.pending ++ bytes⟩, pdu⟩ true
            unread := unread
            reader := c.reader.after bytes
            numReceived := c.numReceived + 1 } .none
  | readError (n : Nat) (bytes unread : List UInt8) (code : ErrorCode) (embedded text : List UInt8)
      (pdu : Pdu) (hreads : c.Reads n bytes unread)
      (hread : c.reader.receive bytes = .sendError code text ∧
          embedded = c.reader.pending ++ bytes ∨
        c.reader.receive bytes = .pastEnd ∧ embedded = [])
      (hcode : code.isFatal = true) (hpdu : errorReport code embedded text = some pdu)
      : Steps c (.read (.receive n))
          { c with
            pc := .sendError ⟨some ⟨c.numReceived, c.reader.pending ++ bytes⟩, pdu⟩
            unread := unread
            reader := c.reader.after bytes } .none
  | readExit (n : Nat) (bytes unread : List UInt8) (hreads : c.Reads n bytes unread)
      : Steps c (.read (.receive n))
          { c with pc := .cleanup, unread := unread, reader := c.reader.after bytes } .none
  | eof (hpc : c.pc.reading = true) (hclosed : c.closed = true)
      : Steps c (.read .eof) { c with pc := .cleanup } .none
  | abortRead (hpc : c.pc.reading = true) : Steps c .abort { c with pc := .cleanup } .none
  | exit (a : CxnAction) (cache : CacheState) (time : Nat) (hpc : c.pc.mayExit = true)
      : Steps c a
          { c.exit with localCacheState := cache, nextCacheStateCheckTime := time } .none
  | handlePdu {c' : Cxn} {effect : CxnEffect} (q : Received) (fromRecvBuffer : Bool)
      (hpc : c.pc = .handlePdu q fromRecvBuffer) (hhandles : Handles c q fromRecvBuffer c' effect)
      : Steps c .step c' effect
  | tryPopToProcess {c' : Cxn} {effect : CxnEffect} (q : Received) (queue : List Received)
      (hpc : c.pc = .tryPopToProcess) (hstate : c.state = .ready)
      (hqueue : c.toProcessQueue = q :: queue)
      (hhandles : Handles { c with toProcessQueue := queue } q false c' effect)
      : Steps c .step c' effect
  | toProcessDone (hpc : c.pc = .tryPopToProcess)
      (hqueue : c.state = .ready → c.toProcessQueue = [])
      : Steps c .step { c with pc := .checkGlobalCacheState } .none
  | postRequest (fromRecvBuffer : Bool) (hpc : c.pc = .addDbRequest fromRecvBuffer)
      : Steps c .step { c with pc := .afterHandlePdu fromRecvBuffer } .postDb
  | noResponse (hpc : c.pc = .tryPopResponse) (hqueue : c.responseQueue = [])
      : Steps c .step { c with pc := .checkGlobalCacheState } .none
  | popResponse (response : DbResponse) (queue : List DbResponse) (pc : CxnPc)
      (hpc : c.pc = .tryPopResponse) (hqueue : c.responseQueue = response :: queue)
      (hpc' : pc = if response.isDone then .sendResponse response response.pdus false
        else .handleResponse response)
      : Steps c .step (c.popResponse response queue pc) .none
  | postResponse (response : DbResponse) (hpc : c.pc = .handleResponse response)
      : Steps c .step { c with pc := .sendResponse response response.pdus false } .postDb
  | responded (response : DbResponse) (stop : Bool) (pc : CxnPc)
      (hpc : c.pc = .sendResponse response [] stop)
      (hpc' : pc = if stop then .cleanup else if response.isDone then .tryPopToProcess
        else .checkGlobalCacheState)
      : Steps c .step
          { c with pc := pc, state := if response.isDone then .ready else c.state } .none
  | cancel (hpc : c.pc = .cleanup) (hstate : c.state = .responding)
      : Steps c .step
          { c with pc := .cleanupPost, request := { c.request with cancelRequest := true } } .none
  | leave (hpc : c.pc = .cleanup) (hstate : c.state = .ready) : Steps c .step { c with pc := .exited } .none
  | postCancel (hpc : c.pc = .cleanupPost) : Steps c .step { c with pc := .cleanupWait } .postDb
  | cleanupWait (hpc : c.pc = .cleanupWait) (hpos : 0 < c.semaphore)
      : Steps c .step { c with pc := .cleanupTryPop, semaphore := c.semaphore - 1 } .none
  | cleanupNoResponse (hpc : c.pc = .cleanupTryPop) (hqueue : c.responseQueue = [])
      : Steps c .step { c with pc := .cleanupWait } .none
  | cleanupPop (response : DbResponse) (queue : List DbResponse) (pc : CxnPc)
      (hpc : c.pc = .cleanupTryPop) (hqueue : c.responseQueue = response :: queue)
      (hpc' : pc = if response.isDone then .exited else .cleanupWait)
      : Steps c .step (c.popResponse response queue pc) .none
  | sendCacheReset (now : Nat) (q : Received) (fromRecvBuffer : Bool)
      (hpc : c.pc = .sendCacheReset q fromRecvBuffer)
      : Steps c (.write now)
          { c with
            pc := .afterHandlePdu fromRecvBuffer
            sent := c.sent ++ [⟨some q.origin, fillPduCacheReset⟩] } .none
  | sendError (now : Nat) (report : Sent) (hpc : c.pc = .sendError report)
      : Steps c (.write now) { c with pc := .cleanup, sent := c.sent ++ [report] } .none
  | sendResponse (now : Nat) (response : DbResponse) (pdu : Pdu) (todo : List Pdu) (stop : Bool)
      (cache : CacheState) (hpc : c.pc = .sendResponse response (pdu :: todo) stop)
      (hcache : cache.session = c.localCacheState.session)
      (hupdate : endOfDataState pdu = none ∧ cache = c.localCacheState ∨
        ∃ new doNotify, endOfDataState pdu = some new ∧ Updates c.localCacheState new cache doNotify)
      : Steps c (.write now)
          { c with
            pc := .sendResponse response todo
              (stop || (pdu.pduType == .errorReport && ErrorCode.isFatal pdu.sessionId))
            localCacheState := cache
            sent := c.sent ++ [⟨some c.requestOrigin, encapsulateRequest c.requestBuffer pdu⟩] } .none
  | sendNotify (now : Nat) (hpc : c.pc = .sendNotify)
      : Steps c (.write now)
          { c with
            pc := .waitOnSemaphore
            nextCacheStateCheckTime := now + cxnNotifyInterval
            sent := c.sent ++ [⟨none, fillPduSerialNotify c.localCacheState.session
              c.localCacheState.serialNumber⟩] } .none
  | check (now copied : Nat) (global cache : CacheState) (time : Nat) (pc : CxnPc)
      (hpc : c.pc = .checkGlobalCacheState) (hcache : cache.session = c.localCacheState.session)
      (hpc' : pc = .waitOnSemaphore ∨ pc = .sendNotify ∧ c.state = .ready)
      (hupdate : cache = c.localCacheState ∧ time = c.nextCacheStateCheckTime ∧ pc = .waitOnSemaphore ∨
        c.nextCacheStateCheckTime ≤ now ∧ time = copied + cxnCacheStateInterval ∧
          ∃ doNotify, Updates c.localCacheState global cache doNotify ∧
            pc = if doNotify then .sendNotify else .waitOnSemaphore)
      : Steps c (.check now copied global)
          { c with pc := pc, localCacheState := cache, nextCacheStateCheckTime := time } .none

variable {c : Cxn}

theorem exit_eq (h : c.pc.response = none) : c.exit = { c with pc := .cleanup } := by
  simp [exit, h]

theorem sendError_eq (origin : Origin) (code : ErrorCode) (embedded text : List UInt8)
    (h : c.pc.response = none)
    : c.sendError origin code embedded text = { c with pc := .cleanup } ∨
        ∃ pdu, errorReport code embedded text = some pdu ∧
          c.sendError origin code embedded text = { c with pc := .sendError ⟨some origin, pdu⟩ } := by
  unfold sendError
  split
  . left
    exact exit_eq h
  . next pdu hpdu =>
    right
    exact ⟨pdu, hpdu, rfl⟩

variable {fromRecvBuffer doNotify stop : Bool} {effect : CxnEffect} {q : Received} {now n : Nat}

theorem sendErrorFromParsedPdu_handles (h : c.pc.response = none) (hcode : code.isFatal = true)
    (htype : q.pdu.pduType ≠ .errorReport)
    (hqueue : q.pdu.pduType = .serialQuery ∨ q.pdu.pduType = .resetQuery →
      c.responseQueue ≠ [] ∧ c.state = .ready)
    : Handles c q fromRecvBuffer (c.sendErrorFromParsedPdu q fromRecvBuffer code text) .none := by
  have hreport {embedded : List UInt8}
      (hembedded : embedded = c.reader.buffer ∧ fromRecvBuffer = true ∨
        ∃ n, embedded = (dumpPdu n q.pdu).getD [] ∧ fromRecvBuffer = false)
      : Handles c q fromRecvBuffer (c.sendError q.origin code embedded text) .none := by
    rcases sendError_eq q.origin code embedded text h with heq | ⟨pdu, hpdu, heq⟩
    . rw [heq]
      exact .exit
    . rw [heq]
      exact .report code embedded text pdu hcode htype hqueue hembedded hpdu
  unfold sendErrorFromParsedPdu
  split
  . next hrecv => exact hreport (.inl ⟨rfl, hrecv⟩)
  next hrecv =>
  split
  . rw [exit_eq h]
    exact .exit
  . exact hreport (.inr ⟨_, rfl, by simpa using hrecv⟩)

theorem addDbRequest_handles (h : c.pc.response = none) (haccept : c.Accepts q.pdu)
    (hstate : c.state = .ready)
    : Handles c q fromRecvBuffer (c.addDbRequest q fromRecvBuffer).1
        (c.addDbRequest q fromRecvBuffer).2 := by
  have htype : q.pdu.pduType ≠ .errorReport := by
    rcases haccept with ⟨hserial, -⟩ | hreset
    . simp [hserial]
    . simp [hreset]
  unfold addDbRequest
  split
  . next hqueue =>
    apply sendErrorFromParsedPdu_handles h rfl htype
    intro _
    refine ⟨?_, hstate⟩
    intro hnil
    simp [hnil] at hqueue
  next hqueue =>
  split
  . next hquery =>
    -- A query has a type for which the switch of `add_db_request` has a case.
    have hsome : (DbQuery.ofPdu q.pdu).isSome = true := by
      rcases hpdu : q.pdu with ⟨_, pduType, _, _, _⟩
      rw [hpdu] at haccept
      rcases haccept with ⟨hserial, -⟩ | hreset
      . cases hserial
        rfl
      . cases hreset
        rfl
    simp [hquery] at hsome
  . next query hquery =>
    exact .push query haccept hstate (by simpa using hqueue)

theorem handlePdu_handles (q : Received) (fromRecvBuffer : Bool) (h : c.pc.response = none)
    : Handles c q fromRecvBuffer (c.handlePdu q fromRecvBuffer).1
        (c.handlePdu q fromRecvBuffer).2 := by
  have hquery (haccept : c.Accepts q.pdu)
      : Handles c q fromRecvBuffer (c.handleQuery q fromRecvBuffer).1
          (c.handleQuery q fromRecvBuffer).2 := by
    unfold handleQuery
    split
    . next hstate => exact .defer haccept hstate
    . next hstate => exact addDbRequest_handles h haccept hstate
  unfold handlePdu
  split
  . next htype =>
    split
    . next hsession => exact .cacheReset htype hsession
    . next hsession => exact hquery (.inl ⟨htype, by simpa using hsession⟩)
  . next htype => exact hquery (.inr htype)
  . rw [exit_eq h]
    exact .exit
  next hserial hreset herror =>
  apply sendErrorFromParsedPdu_handles h rfl herror
  intro htype
  rcases htype with htype | htype
  . exact absurd htype hserial
  . exact absurd htype hreset

theorem received_steps {unread : List UInt8} (hreads : c.Reads n bytes unread)
    : Steps c (.read (.receive n)) (c.received bytes unread) .none := by
  have hresponse : c.pc.response = none := by
    have hpc := hreads.reading
    revert hpc
    cases c.pc <;> simp [CxnPc.reading, CxnPc.response]
  have hreport (code : ErrorCode) (embedded text : List UInt8)
      (hread : c.reader.receive bytes = .sendError code text ∧ embedded = c.reader.pending ++ bytes ∨
        c.reader.receive bytes = .pastEnd ∧ embedded = [])
      (hcode : code.isFatal = true)
      : Steps c (.read (.receive n))
          (sendError { c with unread := unread, reader := c.reader.after bytes }
            ⟨c.numReceived, c.reader.pending ++ bytes⟩ code embedded text) .none := by
    rcases sendError_eq (c := { c with unread := unread, reader := c.reader.after bytes })
      ⟨c.numReceived, c.reader.pending ++ bytes⟩ code embedded text hresponse with
      heq | ⟨pdu, hpdu, heq⟩
    . rw [heq]
      exact .readExit n bytes unread hreads
    . rw [heq]
      exact .readError n bytes unread code embedded text pdu hreads hread hcode hpdu
  unfold received
  split
  . exact .readMore n bytes unread hreads
  . next pdu hread => exact .receive n bytes unread pdu hreads hread
  . next code text hread => exact hreport code _ text (.inl ⟨hread, rfl⟩) (Reader.isFatal_of_receive hread)
  . next hread => exact hreport _ [] [] (.inr ⟨hread, rfl⟩) rfl

variable {c' : Cxn}

theorem read_steps {ev : ReadEvent} (h : c.read ev = some c') : Steps c (.read ev) c' .none := by
  have hreading (h : c.pc = .readNonblock ∨ c.pc = .readBlock) : c.pc.reading = true := by
    rcases h with h | h <;> rw [h] <;> rfl
  have hresponse (h : c.pc = .readNonblock ∨ c.pc = .readBlock) : c.pc.response = none := by
    rcases h with h | h <;> rw [h] <;> rfl
  unfold read at h
  split at h
  . split at h
    . next hpc =>
      split at h
      . next hstate =>
        cases h
        exact .wouldBlock _ hpc (.inl ⟨hstate, rfl⟩)
      . next hstate =>
        cases h
        exact .wouldBlock _ hpc (.inr ⟨hstate, rfl⟩)
    . contradiction
  . next n =>
    split at h
    . next hread =>
      rcases hread with ⟨hpc, _, _, hle⟩
      have hlen : (c.unread.take n).length = n := length_take_of_le hle
      cases h
      exact received_steps ⟨hreading hpc, rfl, rfl, by omega, by omega⟩
    . contradiction
  split at h
  . next hread =>
    cases h
    rw [exit_eq (hresponse hread.1)]
    exact .eof (hreading hread.1) hread.2.2
  . contradiction

theorem updateLocalCacheState_eq_some {new : CacheState}
    (h : c.updateLocalCacheState new = some (c', doNotify))
    : ∃ cache, c' = { c with localCacheState := cache } ∧
        cache.session = c.localCacheState.session ∧
        Updates c.localCacheState new cache doNotify := by
  unfold updateLocalCacheState at h
  split at h
  . contradiction
  split at h
  . next hdata =>
    cases h
    exact ⟨_, rfl, rfl, .noData (by simpa using hdata)⟩
  next hdata =>
  have hdata : new.dataAvailable = true := by simpa using hdata
  split at h
  . next hgreater =>
    cases h
    refine ⟨_, rfl, rfl, .newer hdata ?_⟩
    intro hold
    simpa [hold] using hgreater
  . next hgreater =>
    cases h
    rw [Bool.or_eq_true, not_or, Bool.not_eq_true', Bool.not_eq_false, Bool.not_eq_true] at hgreater
    exact ⟨_, rfl, rfl, .notNewer hdata hgreater.1 hgreater.2⟩

theorem sendPdu_steps (cache : CacheState) {a : CxnAction} {x : Sent} {k : Cxn → Cxn}
    (hexit : c.pc.mayExit = true)
    (hsent : Steps c a (k { c with localCacheState := cache, sent := c.sent ++ [x] }) .none)
    : Steps c a ({ c with localCacheState := cache }.sendPdu x k) .none := by
  unfold sendPdu
  split
  . exact .exit a cache c.nextCacheStateCheckTime hexit
  . exact hsent

theorem sendResponsePdu_steps {response : DbResponse} {pdu : Pdu} {todo : List Pdu}
    (hpc : c.pc = .sendResponse response (pdu :: todo) stop)
    : Steps c (.write now) (c.sendResponsePdu response stop pdu todo) .none := by
  have hexit : c.pc.mayExit = true := by rw [hpc]; rfl
  unfold sendResponsePdu
  dsimp only
  split
  . next hnone =>
    apply sendPdu_steps c.localCacheState hexit
    exact .sendResponse now response pdu todo stop c.localCacheState hpc rfl (.inl ⟨hnone, rfl⟩)
  next new hnew =>
  split
  . exact .exit _ c.localCacheState c.nextCacheStateCheckTime hexit
  next hupdate =>
  rcases updateLocalCacheState_eq_some hupdate with ⟨cache, rfl, hcache, hupdates⟩
  apply sendPdu_steps cache hexit
  exact .sendResponse now response pdu todo stop cache hpc hcache (.inr ⟨new, _, hnew, hupdates⟩)

theorem write_steps (h : c.write now = some c') : Steps c (.write now) c' .none := by
  unfold write at h
  split at h
  . next q fromRecvBuffer hpc =>
    cases h
    apply sendPdu_steps c.localCacheState (by rw [hpc]; rfl)
    exact .sendCacheReset now q fromRecvBuffer hpc
  . next report hpc =>
    cases h
    apply sendPdu_steps c.localCacheState (by rw [hpc]; rfl)
    have hresponse : c.pc.response = none := by rw [hpc]; rfl
    rw [exit_eq]
    . exact .sendError now report hpc
    . exact hresponse
  . next hpc =>
    cases h
    exact sendResponsePdu_steps hpc
  . next hpc =>
    cases h
    have hexit : c.pc.mayExit = true := by rw [hpc]; rfl
    unfold sendNotify
    split
    . exact .exit _ c.localCacheState c.nextCacheStateCheckTime hexit
    . exact sendPdu_steps c.localCacheState hexit (.sendNotify now hpc)
  . contradiction

theorem checkGlobalCacheState_steps (now copied : Nat) (global : CacheState)
    (hpc : c.pc = .checkGlobalCacheState)
    : Steps c (.check now copied global) (c.checkGlobalCacheState now copied global) .none := by
  unfold checkGlobalCacheState
  split
  . next hready =>
    dsimp only
    split
    . exact .exit _ c.localCacheState _ (by rw [hpc]; rfl)
    next doNotify hupdate =>
    rcases updateLocalCacheState_eq_some hupdate with ⟨cache, rfl, hcache, hupdates⟩
    refine .check now copied global cache _ _ hpc hcache ?_
      (.inr ⟨hready.2, rfl, doNotify, hupdates, rfl⟩)
    cases doNotify
    . exact .inl rfl
    . exact .inr ⟨rfl, hready.1⟩
  . exact .check now copied global c.localCacheState c.nextCacheStateCheckTime _ hpc rfl (.inl rfl)
      (.inl ⟨rfl, rfl, rfl⟩)

theorem step_steps (h : c.step = some (c', effect)) : Steps c .step c' effect := by
  have hwait {pc : CxnPc} (hsem : c.semWait pc = some (c', effect))
      : 0 < c.semaphore ∧ c' = { c with pc := pc, semaphore := c.semaphore - 1 } ∧
          effect = .none := by
    unfold semWait at hsem
    split at hsem
    . next hpos =>
      cases hsem
      exact ⟨hpos, rfl, rfl⟩
    . contradiction
  unfold step at h
  split at h
  . next hpc =>
    rcases hwait h with ⟨hpos, rfl, rfl⟩
    exact .wait hpc hpos
  . next q fromRecvBuffer hpc =>
    have hhandles := handlePdu_handles q fromRecvBuffer (c := c) (by rw [hpc]; rfl)
    rw [some.inj h] at hhandles
    exact .handlePdu q fromRecvBuffer hpc hhandles
  . next hpc =>
    cases h
    exact .postRequest _ hpc
  . next hpc =>
    split at h
    . next hqueue =>
      cases h
      exact .noResponse hpc hqueue
    next response queue hqueue =>
    split at h <;> cases h <;> exact .popResponse response queue _ hpc hqueue (by simp [*])
  . next hpc =>
    cases h
    exact .postResponse _ hpc
  . next response stop hpc =>
    cases h
    exact .responded response stop _ hpc rfl
  . next hpc =>
    split at h
    . next q queue hstate hqueue =>
      have hhandles := handlePdu_handles q false (c := { c with toProcessQueue := queue })
        (by rw [hpc]; rfl)
      rw [some.inj h] at hhandles
      exact .tryPopToProcess q queue hpc hstate hqueue hhandles
    next hnot =>
    cases h
    refine .toProcessDone hpc ?_
    intro hstate
    cases hqueue : c.toProcessQueue with
    | nil => rfl
    | cons q queue => exact absurd hqueue (hnot q queue hstate)
  . next hpc =>
    split at h <;> cases h
    . next hstate => exact .cancel hpc hstate
    . next hstate => exact .leave hpc hstate
  . next hpc =>
    cases h
    exact .postCancel hpc
  . next hpc =>
    rcases hwait h with ⟨hpos, rfl, rfl⟩
    exact .cleanupWait hpc hpos
  . next hpc =>
    split at h
    . next hqueue =>
      cases h
      exact .cleanupNoResponse hpc hqueue
    next response queue hqueue =>
    split at h <;> cases h <;> exact .cleanupPop response queue _ hpc hqueue (by simp [*])
  . contradiction

theorem next_steps {a : CxnAction} (h : c.next a = some (c', effect)) : Steps c a c' effect := by
  unfold next at h
  split at h
  . exact step_steps h
  . split at h
    . next hwait =>
      cases h
      exact .timeout hwait.1 hwait.2
    . contradiction
  . rcases map_eq_some_iff.mp h with ⟨c'', hread, heq⟩
    cases heq
    exact read_steps hread
  . rcases map_eq_some_iff.mp h with ⟨c'', hwrite, heq⟩
    cases heq
    exact write_steps hwrite
  . split at h
    . next now copied global hpc =>
      cases h
      exact checkGlobalCacheState_steps now copied global hpc
    . contradiction
  split at h
  . next hcancel =>
    cases h
    by_cases hread : c.pc.reading = true
    . have hresponse : c.pc.response = none := by
        revert hread
        cases c.pc <;> simp [CxnPc.reading, CxnPc.response]
      rw [exit_eq hresponse]
      exact .abortRead hread
    . refine .exit _ c.localCacheState c.nextCacheStateCheckTime ?_
      revert hcancel hread
      cases c.pc <;> simp [CxnPc.reading, CxnPc.cancellable, CxnPc.mayExit]
  . contradiction

end Cxn
end Rpstir.Daemon
