import Rpstir.Daemon.Connection

/-!
This module contains the database threads of the RTR daemon, and the daemon as a whole with its
connection threads, the control thread and the clients. A query does one SQL statement in each step, on
any tables.
-/

namespace Rpstir.Daemon

open Wire

def fillPdu : Rtr.Pdu → Pdu
  | .cacheResponse session => fillPduCacheResponse session
  | .ipPrefix p isAnnounce =>
    let flags := if isAnnounce then flagWithdrawAnnounce else 0
    if p.prefixBytes.length = 4 then
      fillPduIpv4Prefix flags p.prefixLength p.prefixMaxLength (Bytes.resize 4 p.prefixBytes) p.asn
    else
      fillPduIpv6Prefix flags p.prefixLength p.prefixMaxLength (Bytes.resize 16 p.prefixBytes) p.asn
  | .endOfData session serial => fillPduEndOfData session serial
  | .cacheReset => fillPduCacheReset
  | .errorReport .internalError => fillPduErrorReport ErrorCode.internalError (errorData [] [])
  | .errorReport .noData => fillPduErrorReport ErrorCode.noData (errorData [] [])

inductive DbQueryState where
  | serialQuery (q : Rtr.SerialQuery)
  | resetQuery (q : Rtr.Query)
  deriving DecidableEq

/--
What a step of a database thread gets from its environment: the tables, whether an SQL statement fails,
the answer to `DB_PSTMT_RTR_GET_LATEST_SERNUM`, and the place in the bag that `Bag_add` finds.
-/
structure DbEnv where
  tables : Rtr.Tables
  failed : Bool
  latest : Option Rtr.Serial
  position : Nat

namespace DbQueryState

def start : DbQuery → DbQueryState
  | .serialQuery serial => .serialQuery (.start serial)
  | .resetQuery => .resetQuery .start

def sent : DbQueryState → List Rtr.Pdu
  | serialQuery q => q.sent
  | resetQuery q => q.sent

def isDone : DbQueryState → Bool
  | serialQuery q => q.pc == .done
  | resetQuery q => q.pc == .done

def betweenCalls : DbQueryState → Bool
  | serialQuery q => q.pc == .getNext
  | resetQuery q => q.pc == .getSession

def step (e : DbEnv) : DbQueryState → Option DbQueryState
  | serialQuery q => (q.step ⟨dbRowsPerResponse, e.failed⟩ e.tables).map serialQuery
  | resetQuery q => (q.step ⟨e.latest, dbRowsPerResponse, e.failed⟩ e.tables).map resetQuery

end DbQueryState

variable {ι κ : Type}

/--
A pointer to the `struct db_request` of a connection, from the time that it was pushed with `generation`.
-/
structure RequestRef (ι : Type) where
  cxn : ι
  generation : Nat
  deriving DecidableEq, Repr

structure DbRequestState (ι : Type) where
  request : RequestRef ι
  queryState : DbQueryState
  deriving DecidableEq

/--
Where a database thread is. `serviceRequest` has no query state for a new request. `sendResponse`, the
push onto the response queue, and `postResponse`, the `sem_post` after it, have the query state that goes
back to the bag; there is none if the request is done.
-/
inductive DbPc (ι : Type) where
  | waitOnSemaphore
  | startIteration
  | checkCancelRequest (index : Nat)
  | checkQueueSize (index : Nat)
  | tryServiceNewRequest
  | serviceRequest (request : RequestRef ι) (queryState : Option DbQueryState)
  | query (request : RequestRef ι) (queryState : DbQueryState) (starting : Bool) (numSent : Nat)
  | sendResponse (request : RequestRef ι) (pdus : List Pdu) (queryState : Option DbQueryState)
  | postResponse (request : RequestRef ι) (queryState : Option DbQueryState)
  | bagAdd (rq : DbRequestState ι)
  | postDb
  deriving DecidableEq

namespace DbPc

def afterStatement (request : RequestRef ι) (starting : Bool) (numSent : Nat) (q : DbQueryState)
    : DbPc ι :=
  if q.isDone then
    .sendResponse request ((q.sent.drop numSent).map fillPdu) none
  else if q.betweenCalls && !starting then
    .sendResponse request ((q.sent.drop numSent).map fillPdu) (some q)
  else
    .query request q (starting && !q.betweenCalls) numSent

def afterPost (request : RequestRef ι) : Option DbQueryState → DbPc ι
  | none => .waitOnSemaphore
  | some q => .bagAdd ⟨request, q⟩

end DbPc

structure System (ι κ : Type) where
  cxns : ι → Cxn
  threads : κ → DbPc ι
  semaphore : Nat
  requestQueue : List (RequestRef ι)
  currentlyProcessing : List (DbRequestState ι)
  lock : Option κ

inductive Event (ι κ : Type) where
  | arrive (i : ι) (bytes : List UInt8)
  | close (i : ι)
  | select (i : ι)
  | post (i : ι)
  | cxn (i : ι) (a : CxnAction)
  | db (k : κ) (e : DbEnv)

namespace System

def init (cxns : ι → CacheState × Nat) : System ι κ where
  cxns i := Cxn.init (cxns i).1 (cxns i).2
  threads _ := .waitOnSemaphore
  semaphore := 0
  requestQueue := []
  currentlyProcessing := []
  lock := none

def setCxn [DecidableEq ι] (s : System ι κ) (i : ι) (c : Cxn) : System ι κ :=
  { s with cxns := Function.update s.cxns i c }

def setThread [DecidableEq κ] (s : System ι κ) (k : κ) (pc : DbPc ι) : System ι κ :=
  { s with threads := Function.update s.threads k pc }

@[simp]
theorem setCxn_cxns_self [DecidableEq ι] (s : System ι κ) (i : ι) (c : Cxn) : (s.setCxn i c).cxns i = c := by
  simp [setCxn]

theorem setCxn_cxns_of_ne [DecidableEq ι] (s : System ι κ) {i j : ι} (c : Cxn) (h : j ≠ i)
    : (s.setCxn i c).cxns j = s.cxns j := by
  simp [setCxn, h]

@[simp]
theorem setThread_threads_self [DecidableEq κ] (s : System ι κ) (k : κ) (pc : DbPc ι)
    : (s.setThread k pc).threads k = pc := by
  simp [setThread]

theorem setThread_threads_of_ne [DecidableEq κ] (s : System ι κ) {k l : κ} (pc : DbPc ι) (h : l ≠ k)
    : (s.setThread k pc).threads l = s.threads l := by
  simp [setThread, h]

def applyEffect (s : System ι κ) (i : ι) : CxnEffect → System ι κ
  | .none => s
  | .pushRequest =>
    { s with requestQueue := s.requestQueue ++ [⟨i, (s.cxns i).generation⟩] }
  | .postDb => { s with semaphore := s.semaphore + 1 }

section

variable [DecidableEq ι] [DecidableEq κ]

def found (s : System ι κ) (k : κ) (index : Nat) (rq : DbRequestState ι) : System ι κ :=
  { s with
    currentlyProcessing := s.currentlyProcessing.eraseIdx index
    lock := none }.setThread k (.serviceRequest rq.request (some rq.queryState))

def dbNext (s : System ι κ) (k : κ) (e : DbEnv) : Option (System ι κ) :=
  match s.threads k with
  | .waitOnSemaphore =>
    if 0 < s.semaphore then
      some ({ s with semaphore := s.semaphore - 1 }.setThread k .startIteration)
    else
      none
  | .startIteration =>
    if s.lock = none then
      some ({ s with lock := some k }.setThread k (.checkCancelRequest 0))
    else
      none
  | .checkCancelRequest index =>
    match s.currentlyProcessing[index]? with
    | none => some ({ s with lock := none }.setThread k .tryServiceNewRequest)
    | some rq =>
      if (s.cxns rq.request.cxn).request.cancelRequest then
        some (s.found k index rq)
      else
        some (s.setThread k (.checkQueueSize index))
  | .checkQueueSize index =>
    match s.currentlyProcessing[index]? with
    | none => none
    | some rq =>
      if (s.cxns rq.request.cxn).responseQueue.length < dbResponseBufferLength then
        some (s.found k index rq)
      else
        some (s.setThread k (.checkCancelRequest (index + 1)))
  | .tryServiceNewRequest =>
    match s.requestQueue with
    | [] => some (s.setThread k .waitOnSemaphore)
    | request :: queue =>
      some ({ s with requestQueue := queue }.setThread k (.serviceRequest request none))
  | .serviceRequest request queryState =>
    if (s.cxns request.cxn).request.cancelRequest then
      some (s.setThread k (.sendResponse request [] none))
    else
      match queryState with
      | none =>
        let q := DbQueryState.start (s.cxns request.cxn).request.query
        some (s.setThread k (.query request q true 0))
      | some q => some (s.setThread k (.query request q false q.sent.length))
  | .query request q starting numSent =>
    (q.step e).map fun q => s.setThread k (.afterStatement request starting numSent q)
  | .sendResponse request pdus queryState =>
    let c := (s.cxns request.cxn).pushResponse ⟨pdus, queryState.isNone⟩
    some ((s.setCxn request.cxn c).setThread k (.postResponse request queryState))
  | .postResponse request queryState =>
    let c := (s.cxns request.cxn).semPost
    some ((s.setCxn request.cxn c).setThread k (.afterPost request queryState))
  | .bagAdd rq =>
    if s.lock = none then
      let bag := s.currentlyProcessing.take e.position ++ rq :: s.currentlyProcessing.drop e.position
      some ({ s with currentlyProcessing := bag }.setThread k .postDb)
    else
      none
  | .postDb => some ({ s with semaphore := s.semaphore + 1 }.setThread k .waitOnSemaphore)

def next (s : System ι κ) : Event ι κ → Option (System ι κ)
  | .arrive i bytes =>
    if (s.cxns i).closed then
      none
    else
      some (s.setCxn i { s.cxns i with unread := (s.cxns i).unread ++ bytes })
  | .close i => some (s.setCxn i { s.cxns i with closed := true })
  | .select i =>
    if (s.cxns i).readable && !(s.cxns i).selected then
      some (s.setCxn i { s.cxns i with selected := true })
    else
      none
  | .post i =>
    if (s.cxns i).selected then
      some (s.setCxn i { (s.cxns i).semPost with selected := false })
    else
      none
  | .cxn i a => ((s.cxns i).next a).map fun (c, effect) => (s.setCxn i c).applyEffect i effect
  | .db k e => s.dbNext k e

def lts (cxns : ι → CacheState × Nat) : Lts (System ι κ) (Event ι κ) :=
  Lts.ofNext (init cxns) next

end

end System
end Rpstir.Daemon
