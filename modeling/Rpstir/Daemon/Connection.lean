import Rpstir.Daemon.Reader
import Rpstir.Rtr.SerialQuery

/-!
This module contains the connection threads of the RTR daemon. A step goes to the next place where the
thread touches its socket, a semaphore, a queue that it shares, or `cancel_request`.
-/

namespace Rpstir.Daemon

open Wire

def dbResponseBufferLength : Nat := 3

def dbRowsPerResponse : Nat := 1024

def cxnNotifyInterval : Nat := 60

def cxnCacheStateInterval : Nat := 10

def maxQueryPduLength : Nat := pduHeaderLength + 4

def serialNumberGreater (s1 s2 : UInt32) : Bool :=
  if s1 = s2 then
    false
  else
    (s1 < s2 && s2 - s1 > 0x80000000) || (s1 > s2 && s1 - s2 < 0x80000000)

structure CacheState where
  dataAvailable : Bool
  session : UInt16
  serialNumber : UInt32
  deriving DecidableEq, Repr

inductive DbQuery where
  | serialQuery (serial : UInt32)
  | resetQuery
  deriving DecidableEq, Repr

structure DbRequest where
  query : DbQuery
  cancelRequest : Bool
  deriving DecidableEq, Repr

structure DbResponse where
  pdus : List Pdu
  isDone : Bool
  deriving DecidableEq

structure Origin where
  number : Nat
  bytes : List UInt8
  deriving DecidableEq, Repr

structure Received where
  origin : Origin
  pdu : Pdu
  deriving DecidableEq

structure Sent where
  origin : Option Origin
  pdu : Pdu
  deriving DecidableEq

inductive CxnState where
  | ready
  | responding
  deriving DecidableEq, Repr

/--
Where a connection thread is. `addDbRequest`, `handleResponse` and `cleanupPost` are the calls of
`increment_db_semaphore`; the PDU of `sendError` is the last one the thread sends.
-/
inductive CxnPc where
  | waitOnSemaphore
  | readNonblock
  | readBlock
  | handlePdu (q : Received) (fromRecvBuffer : Bool)
  | sendCacheReset (q : Received) (fromRecvBuffer : Bool)
  | sendError (report : Sent)
  | addDbRequest (fromRecvBuffer : Bool)
  | tryPopResponse
  | handleResponse (response : DbResponse)
  | sendResponse (response : DbResponse) (todo : List Pdu) (stopAfterResponding : Bool)
  | tryPopToProcess
  | checkGlobalCacheState
  | sendNotify
  | cleanup
  | cleanupPost
  | cleanupWait
  | cleanupTryPop
  | exited
  deriving DecidableEq

namespace CxnPc

def cancellable : CxnPc → Bool
  | waitOnSemaphore => true
  | readNonblock => true
  | readBlock => true
  | sendCacheReset _ _ => true
  | sendError _ => true
  | sendResponse _ _ _ => true
  | sendNotify => true
  | _ => false

def response : CxnPc → Option DbResponse
  | handleResponse response => some response
  | sendResponse response _ _ => some response
  | _ => none

def afterHandlePdu (fromRecvBuffer : Bool) : CxnPc :=
  if fromRecvBuffer then checkGlobalCacheState else tryPopToProcess

end CxnPc

/--
`struct run_state` of a connection thread, its socket and its semaphore. `selected` says that the control
thread has found the socket readable and has not yet posted the semaphore. Each request has a number,
`generation`, and `released` is the number of the last one whose final response the thread has popped.
-/
structure Cxn where
  unread : List UInt8
  closed : Bool
  selected : Bool
  semaphore : Nat
  pc : CxnPc
  state : CxnState
  reader : Reader
  localCacheState : CacheState
  nextCacheStateCheckTime : Nat
  request : DbRequest
  requestBuffer : List UInt8
  requestOrigin : Origin
  responseQueue : List DbResponse
  toProcessQueue : List Received
  numReceived : Nat
  generation : Nat
  released : Nat
  sent : List Sent
  deriving DecidableEq

inductive CxnEffect where
  | none
  | pushRequest
  | postDb
  deriving DecidableEq, Repr

/--
What a connection thread does next, with what it gets from its environment: the result of a read, the
time, and the global cache state.
-/
inductive CxnAction where
  | step
  | timeout
  | read (ev : ReadEvent)
  | write (now : Nat)
  | check (now copied : Nat) (global : CacheState)
  | abort
  deriving DecidableEq, Repr

def errorData (encapsulatedPdu errorText : List UInt8) : ErrorData where
  encapsulatedPduLength := UInt32.ofNat encapsulatedPdu.length
  encapsulatedPdu := Bytes.resize _ encapsulatedPdu
  errorTextLength := UInt32.ofNat errorText.length
  errorText := Bytes.resize _ errorText

def errorReport (code : ErrorCode) (embedded text : List UInt8) : Option Pdu :=
  if pduHeaderLength + pduErrorHeadersLength + text.length > maxPduSize then
    none
  else
    let embedded :=
      embedded.take (maxPduSize - (pduHeaderLength + pduErrorHeadersLength + text.length))
    some (fillPduErrorReport code (errorData embedded text))

def DbQuery.ofPdu : Pdu → Option DbQuery
  | ⟨_, .serialQuery, _, _, serial⟩ => some (.serialQuery serial)
  | ⟨_, .resetQuery, _, _, _⟩ => some .resetQuery
  | _ => none

namespace Cxn

def init (localCacheState : CacheState) (now : Nat) : Cxn where
  unread := []
  closed := false
  selected := false
  semaphore := 0
  pc := .waitOnSemaphore
  state := .ready
  reader := .start
  localCacheState := localCacheState
  nextCacheStateCheckTime := now + cxnNotifyInterval
  request := ⟨.resetQuery, false⟩
  requestBuffer := []
  requestOrigin := ⟨0, []⟩
  responseQueue := []
  toProcessQueue := []
  numReceived := 0
  generation := 0
  released := 0
  sent := []

variable (c : Cxn)

def readable : Bool :=
  !c.unread.isEmpty || c.closed

def exit : Cxn :=
  { c with
    pc := .cleanup
    state := if c.pc.response.any (·.isDone) then .ready else c.state }

def sendPdu (x : Sent) (k : Cxn → Cxn) : Cxn :=
  match dumpPdu maxPduSize x.pdu with
  | none => c.exit
  | some _ => k { c with sent := c.sent ++ [x] }

def sendError (origin : Origin) (code : ErrorCode) (embedded text : List UInt8) : Cxn :=
  match errorReport code embedded text with
  | none => c.exit
  | some pdu => { c with pc := .sendError ⟨some origin, pdu⟩ }

def sendErrorFromParsedPdu (q : Received) (fromRecvBuffer : Bool) (code : ErrorCode) (text : List UInt8)
    : Cxn :=
  if fromRecvBuffer then
    c.sendError q.origin code c.reader.buffer text
  else if pduHeaderLength + pduErrorHeadersLength + text.length > maxPduSize then
    c.exit
  else
    let maxEmbeddedLength :=
      maxPduSize - (pduHeaderLength + pduErrorHeadersLength + text.length)
    c.sendError q.origin code ((dumpPdu maxEmbeddedLength q.pdu).getD []) text

def addDbRequest (q : Received) (fromRecvBuffer : Bool) : Cxn × CxnEffect :=
  if c.responseQueue.length ≠ 0 then
    (c.sendErrorFromParsedPdu q fromRecvBuffer ErrorCode.internalError [], .none)
  else
    match DbQuery.ofPdu q.pdu with
    | none => (c.sendErrorFromParsedPdu q fromRecvBuffer ErrorCode.internalError [], .none)
    | some query =>
      ({ c with
          pc := .addDbRequest fromRecvBuffer
          state := .responding
          request := ⟨query, false⟩
          requestBuffer := (dumpPdu maxQueryPduLength q.pdu).getD []
          requestOrigin := q.origin
          generation := c.generation + 1 }, .pushRequest)

def handleQuery (q : Received) (fromRecvBuffer : Bool) : Cxn × CxnEffect :=
  match c.state with
  | .responding =>
    ({ c with
        pc := .afterHandlePdu fromRecvBuffer
        toProcessQueue := c.toProcessQueue ++ [q] }, .none)
  | .ready => c.addDbRequest q fromRecvBuffer

def handlePdu (q : Received) (fromRecvBuffer : Bool) : Cxn × CxnEffect :=
  match q.pdu.pduType with
  | .serialQuery =>
    if q.pdu.sessionId ≠ c.localCacheState.session then
      ({ c with pc := .sendCacheReset q fromRecvBuffer }, .none)
    else
      c.handleQuery q fromRecvBuffer
  | .resetQuery => c.handleQuery q fromRecvBuffer
  | .errorReport => (c.exit, .none)
  | _ =>
    (c.sendErrorFromParsedPdu q fromRecvBuffer ErrorCode.invalidRequest
      (errorText "unexpected PDU type"), .none)

def received (bytes unread : List UInt8) : Cxn :=
  let origin := ⟨c.numReceived, c.reader.pending ++ bytes⟩
  let c' := { c with unread := unread, reader := c.reader.after bytes }
  match c.reader.receive bytes with
  | .block _ => { c' with pc := .readBlock }
  | .handle pdu =>
    { c' with pc := .handlePdu ⟨origin, pdu⟩ true, numReceived := c.numReceived + 1 }
  | .sendError code text => c'.sendError origin code c'.reader.buffer text
  | .pastEnd => c'.sendError origin ErrorCode.internalError [] []

def read : ReadEvent → Option Cxn
  | .wouldBlock =>
    -- A `recv` that fails for another reason is treated in the same way.
    if c.pc = .readNonblock then
      match c.state with
      | .responding => some { c with pc := .tryPopResponse }
      | .ready => some { c with pc := .checkGlobalCacheState }
    else
      none
  | .receive n =>
    if (c.pc = .readNonblock ∨ c.pc = .readBlock) ∧ 0 < n ∧ (n : Int) ≤ c.reader.count ∧
        n ≤ c.unread.length then
      some (c.received (c.unread.take n) (c.unread.drop n))
    else
      none
  | .eof =>
    if (c.pc = .readNonblock ∨ c.pc = .readBlock) ∧ c.unread = [] ∧ c.closed = true then
      some c.exit
    else
      none

def updateLocalCacheState (new : CacheState) : Option (Cxn × Bool) :=
  if c.localCacheState.session ≠ new.session then
    none
  else if !new.dataAvailable then
    some (c, false)
  else if !c.localCacheState.dataAvailable ||
      serialNumberGreater new.serialNumber c.localCacheState.serialNumber then
    some ({ c with
      localCacheState :=
        { c.localCacheState with serialNumber := new.serialNumber, dataAvailable := true } }, true)
  else
    some (c, false)

def endOfDataState : Pdu → Option CacheState
  | ⟨_, .endOfData, session, _, serial⟩ => some ⟨true, session, serial⟩
  | _ => none

def encapsulateRequest (requestBuffer : List UInt8) : Pdu → Pdu
  | ⟨version, .errorReport, code, length, (d : ErrorData)⟩ =>
    if d.encapsulatedPduLength = 0 ∧ requestBuffer.length > 0 then
      ⟨version, .errorReport, code, length + UInt32.ofNat requestBuffer.length,
        { d with
          encapsulatedPduLength := UInt32.ofNat requestBuffer.length
          encapsulatedPdu := Bytes.resize _ requestBuffer }⟩
    else
      ⟨version, .errorReport, code, length, d⟩
  | pdu => pdu

def sendResponsePdu (response : DbResponse) (stop : Bool) (pdu : Pdu) (todo : List Pdu) : Cxn :=
  let stop := stop || (pdu.pduType == .errorReport && ErrorCode.isFatal pdu.sessionId)
  let send (c : Cxn) : Cxn :=
    c.sendPdu ⟨some c.requestOrigin, encapsulateRequest c.requestBuffer pdu⟩ fun c =>
      { c with pc := .sendResponse response todo stop }
  match endOfDataState pdu with
  | none => send c
  | some new =>
    match c.updateLocalCacheState new with
    | none => c.exit
    | some (c, _) => send c

def sendNotify (now : Nat) : Cxn :=
  if !c.localCacheState.dataAvailable then
    c.exit
  else
    let notify := fillPduSerialNotify c.localCacheState.session c.localCacheState.serialNumber
    c.sendPdu ⟨none, notify⟩ fun c =>
      { c with pc := .waitOnSemaphore, nextCacheStateCheckTime := now + cxnNotifyInterval }

def write (now : Nat) : Option Cxn :=
  match c.pc with
  | .sendCacheReset q fromRecvBuffer =>
    some (c.sendPdu ⟨some q.origin, fillPduCacheReset⟩ fun c =>
      { c with pc := .afterHandlePdu fromRecvBuffer })
  | .sendError report => some (c.sendPdu report exit)
  | .sendResponse response (pdu :: todo) stop => some (c.sendResponsePdu response stop pdu todo)
  | .sendNotify => some (c.sendNotify now)
  | _ => none

def checkGlobalCacheState (now copied : Nat) (global : CacheState) : Cxn :=
  if c.state = .ready ∧ c.nextCacheStateCheckTime ≤ now then
    let c := { c with nextCacheStateCheckTime := copied + cxnCacheStateInterval }
    match c.updateLocalCacheState global with
    | none => c.exit
    | some (c, doNotify) => { c with pc := if doNotify then .sendNotify else .waitOnSemaphore }
  else
    { c with pc := .waitOnSemaphore }

def popResponse (response : DbResponse) (queue : List DbResponse) (next : CxnPc) : Cxn :=
  { c with
    pc := next
    responseQueue := queue
    released := if response.isDone then c.generation else c.released }

def semWait (next : CxnPc) : Option (Cxn × CxnEffect) :=
  if 0 < c.semaphore then
    some ({ c with pc := next, semaphore := c.semaphore - 1 }, .none)
  else
    none

def step : Option (Cxn × CxnEffect) :=
  match c.pc with
  | .waitOnSemaphore => c.semWait .readNonblock
  | .handlePdu q fromRecvBuffer => some (c.handlePdu q fromRecvBuffer)
  | .addDbRequest fromRecvBuffer =>
    some ({ c with pc := .afterHandlePdu fromRecvBuffer }, .postDb)
  | .tryPopResponse =>
    match c.responseQueue with
    | [] => some ({ c with pc := .checkGlobalCacheState }, .none)
    | response :: queue =>
      if response.isDone then
        some (c.popResponse response queue (.sendResponse response response.pdus false), .none)
      else
        some (c.popResponse response queue (.handleResponse response), .none)
  | .handleResponse response =>
    some ({ c with pc := .sendResponse response response.pdus false }, .postDb)
  | .sendResponse response [] stop =>
    -- The response has been freed.
    let pc :=
      if stop then
        .cleanup
      else if response.isDone then
        .tryPopToProcess
      else
        .checkGlobalCacheState
    some ({ c with pc := pc, state := if response.isDone then .ready else c.state }, .none)
  | .tryPopToProcess =>
    match c.state, c.toProcessQueue with
    | .ready, q :: queue => some ({ c with toProcessQueue := queue }.handlePdu q false)
    | _, _ => some ({ c with pc := .checkGlobalCacheState }, .none)
  | .cleanup =>
    match c.state with
    | .responding =>
      some ({ c with
        pc := .cleanupPost
        request := { c.request with cancelRequest := true } }, .none)
    | .ready => some ({ c with pc := .exited }, .none)
  | .cleanupPost => some ({ c with pc := .cleanupWait }, .postDb)
  | .cleanupWait => c.semWait .cleanupTryPop
  | .cleanupTryPop =>
    match c.responseQueue with
    | [] => some ({ c with pc := .cleanupWait }, .none)
    | response :: queue =>
      if response.isDone then
        some (c.popResponse response queue .exited, .none)
      else
        some (c.popResponse response queue .cleanupWait, .none)
  | _ => none

def pushResponse (response : DbResponse) : Cxn :=
  { c with responseQueue := c.responseQueue ++ [response] }

def semPost : Cxn :=
  { c with semaphore := c.semaphore + 1 }

def next : CxnAction → Option (Cxn × CxnEffect)
  | .step => c.step
  | .timeout =>
    -- A thread that is responding waits without a timeout.
    if c.pc = .waitOnSemaphore ∧ c.state = .ready then
      some ({ c with pc := .readNonblock }, .none)
    else
      none
  | .read ev => (c.read ev).map (·, .none)
  | .write now => (c.write now).map (·, .none)
  | .check now copied global =>
    if c.pc = .checkGlobalCacheState then
      some (c.checkGlobalCacheState now copied global, .none)
    else
      none
  | .abort =>
    if c.pc.cancellable then
      some (c.exit, .none)
    else
      none

end Cxn
end Rpstir.Daemon
