import Rpstir.Data.Delta
import Rpstir.Rtr.ResetQuery

/-!
This module contains the serial query of the RTR server, one SQL statement in each step, next to the runs
of `rpki-rtr-update`.
-/

namespace Rpstir.Rtr

namespace Tables

def readSerNumAsPrev (t : Tables) (serial : Serial) : Option Serial :=
  (t.update.find? fun r => r.prevSerialNum == some serial).map (·.serialNum)

def incrementalRows (t : Tables) (serial : Serial) : List IncrementalRow :=
  t.incremental.filter fun r => r.serialNum == serial

def serialQryGetNext (t : Tables) (serial : Serial) (firstRow : Option Prefix) (limit : Nat)
    : List IncrementalRow :=
  (((t.incrementalRows serial).filter fun r => firstRow.all fun b => decide (b < r.pfx)).insertionSort
    (·.pfx ≤ ·.pfx)).take limit

end Tables

structure SerialQueryState where
  serNum : Serial
  firstRow : Option Prefix
  badSerNum : Bool
  dataSent : Bool
  noNewData : Bool
  notReady : Bool
  session : Session
  deriving DecidableEq, Repr

/--
The next statement of a query. The PDUs are those that a call of `db_rtr_serial_query_get_next` has
made so far; `getNext` is the start of a call.
-/
inductive SerialQueryPc where
  | readSerNumAsPrev
  | readSerNumAsCurrent
  | hasRowsRtrUpdate
  | getNext
  | serialQryGetNext (maxRows : Nat) (pdus : List Pdu)
  | checkSerNum (pdus : List Pdu)
  | findNextSerNum (pdus : List Pdu)
  | done
  deriving DecidableEq, Repr

structure SerialQuery where
  serial : Serial
  pc : SerialQueryPc
  state : SerialQueryState
  sent : List Pdu
  deriving DecidableEq, Repr

structure SerialQueryEnv where
  maxRows : Nat
  failed : Bool := false

namespace SerialQuery

def start (serial : Serial) : SerialQuery where
  serial := serial
  pc := .readSerNumAsPrev
  state := ⟨0, none, false, false, false, false, 0⟩
  sent := []

def fail (q : SerialQuery) : SerialQuery :=
  { q with pc := .done, sent := q.sent ++ [.errorReport .internalError] }

def finish (q : SerialQuery) (pdus : List Pdu) : SerialQuery :=
  { q with pc := .done, sent := q.sent ++ pdus }

def preQuery (e : SerialQueryEnv) (q : SerialQuery) (t : Tables) : SerialQuery :=
  if e.maxRows < 2 then
    q.fail
  else if q.state.notReady then
    q.finish [.errorReport .noData]
  else if q.state.badSerNum then
    q.finish [.cacheReset]
  else if e.failed then
    q.fail
  else
    match t.session with
    | [session] =>
      let q := { q with state := { q.state with session := session } }
      if q.state.noNewData then
        q.finish [.cacheResponse session, .endOfData session q.state.serNum]
      else
        { q with
          pc := .serialQryGetNext e.maxRows [.cacheResponse session]
          state := { q.state with dataSent := true } }
    | _ => q.fail

def doQuery (q : SerialQuery) (maxRows : Nat) (pdus : List Pdu) (rows : List IncrementalRow)
    : SerialQuery :=
  match rows.mapM fun r => fillPduIpPrefix r.pfx r.isAnnounce with
  | none => q.fail
  | some new =>
    let pdus := pdus ++ new
    let state := { q.state with firstRow := (rows.getLast?.map (·.pfx)) <|> q.state.firstRow }
    if pdus.length = maxRows then
      { q with pc := .getNext, state := state, sent := q.sent ++ pdus }
    else
      { q with pc := .checkSerNum pdus, state := state }

def step (e : SerialQueryEnv) (q : SerialQuery) (t : Tables) : Option SerialQuery :=
  match q.pc with
  | .readSerNumAsPrev =>
    if e.failed then
      some q.fail
    else
      match t.readSerNumAsPrev q.serial with
      | some next => some { q with pc := .getNext, state := { q.state with serNum := next } }
      | none => some { q with pc := .readSerNumAsCurrent }
  | .readSerNumAsCurrent =>
    if e.failed then
      some q.fail
    else if (t.findUpdate q.serial).isSome then
      some { q with pc := .getNext, state := { q.state with serNum := q.serial, noNewData := true } }
    else
      some { q with pc := .hasRowsRtrUpdate }
  | .hasRowsRtrUpdate =>
    if e.failed then
      some q.fail
    else if t.update.isEmpty then
      some { q with pc := .getNext, state := { q.state with notReady := true } }
    else
      some { q with pc := .getNext, state := { q.state with badSerNum := true } }
  | .getNext =>
    if q.state.dataSent then
      if e.failed then
        some q.fail
      else
        some (q.doQuery e.maxRows [] (t.serialQryGetNext q.state.serNum q.state.firstRow e.maxRows))
    else
      some (q.preQuery e t)
  | .serialQryGetNext maxRows pdus =>
    if e.failed then
      some q.fail
    else
      some (q.doQuery maxRows pdus
        (t.serialQryGetNext q.state.serNum q.state.firstRow (maxRows - pdus.length)))
  | .checkSerNum pdus =>
    if e.failed then
      some q.fail
    else if ((t.findUpdate q.state.serNum).bind (·.prevSerialNum)).isSome then
      some { q with pc := .findNextSerNum pdus }
    else
      some (q.finish (pdus ++ [.errorReport .noData]))
  | .findNextSerNum pdus =>
    -- If this statement fails, the data up to the current serial number is still sent.
    match if e.failed then none else t.readSerNumAsPrev q.state.serNum with
    | some next =>
      some { q with
        pc := .getNext
        state := { q.state with serNum := next, firstRow := none }
        sent := q.sent ++ pdus }
    | none => some (q.finish (pdus ++ [.endOfData q.state.session q.state.serNum]))
  | .done => none

end SerialQuery

def Pdu.change : Pdu → Option (Bool × Prefix)
  | .ipPrefix p isAnnounce => some (isAnnounce, p)
  | _ => none

def applyPdus (pdus : List Pdu) (s : Set Prefix) : Set Prefix :=
  Delta.applyChanges (pdus.filterMap Pdu.change) s

/--
A serial query next to the runs of `rpki-rtr-update`. `used` has the serial numbers of all rows that
were in `rtr_update` so far.
-/
structure SerialSystem where
  system : System
  query : SerialQuery
  used : List Serial

inductive SerialEvent where
  | update (ev : Event)
  | query (e : SerialQueryEnv)

namespace SerialSystem

def init (session : Session) (serial : Serial) : SerialSystem where
  system := System.init session
  query := SerialQuery.start serial
  used := []

def next (s : SerialSystem) : SerialEvent → Option SerialSystem
  | .update ev =>
    (s.system.next ev).map fun system =>
      { s with system := system, used := s.used ∪ system.tables.update.map (·.serialNum) }
  | .query e => (s.query.step e s.system.tables).map fun query => { s with query := query }

def lts (session : Session) (serial : Serial) : Lts SerialSystem SerialEvent :=
  Lts.ofNext (init session serial) next

def Distinct (s : SerialSystem) : SerialEvent → Prop
  | .update (.statement _) =>
    ∀ p ∈ s.system.proc, p.pc = .insertFull ∨ p.pc = .insertUpdate → p.currentSerial ∉ s.used
  | _ => True

instance (s : SerialSystem) : (ev : SerialEvent) → Decidable (s.Distinct ev)
  | .update (.statement _) => inferInstanceAs (Decidable (∀ p ∈ s.system.proc, _))
  | .update (.start _) | .update .kill | .query _ => .isTrue trivial

def LaterSecond (s : SerialSystem) : SerialEvent → Prop
  | .update ev => s.system.LaterSecond ev
  | .query _ => True

instance (s : SerialSystem) : (ev : SerialEvent) → Decidable (s.LaterSecond ev)
  | .update ev => inferInstanceAs (Decidable (s.system.LaterSecond ev))
  | .query _ => .isTrue trivial

/--
The updates of `lts` with distinct serial numbers and strictly increasing create times.
-/
def ltsDistinct (session : Session) (serial : Serial) : Lts SerialSystem SerialEvent :=
  (lts session serial).restrict fun s ev => s.Distinct ev ∧ s.LaterSecond ev

end SerialSystem
end Rpstir.Rtr
