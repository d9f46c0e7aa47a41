import Rpstir.Data.Paging
import Rpstir.Rtr.Update

/-!
This module contains the reset query of the RTR server, one SQL statement in each step, next to the runs
of `rpki-rtr-update`.
-/

namespace Rpstir.Rtr

inductive ErrorCode where
  | internalError
  | noData
  deriving DecidableEq, Repr

inductive Pdu where
  | cacheResponse (session : Session)
  | ipPrefix (p : Prefix) (isAnnounce : Bool)
  | endOfData (session : Session) (serial : Serial)
  | cacheReset
  | errorReport (code : ErrorCode)
  deriving DecidableEq, Repr

structure QueryState where
  serNum : Serial
  firstRow : Option Prefix
  dataSent : Bool
  notReady : Bool
  deriving DecidableEq, Repr

def fillPduIpPrefix (p : Prefix) (isAnnounce : Bool) : Option Pdu :=
  match p.prefixBytes.length with
  | 4 => some (.ipPrefix p isAnnounce)
  | 16 => some (.ipPrefix p isAnnounce)
  | _ => none

def Tables.resetQryGetNext (t : Tables) (serial : Serial) (firstRow : Option Prefix) (limit : Nat)
    : List Prefix :=
  Paging.page (t.fullPrefixes serial) firstRow limit

/--
The next statement of a query. `resetQryGetNext` is the second one of a call of
`db_rtr_reset_query_get_next` that has read the session.
-/
inductive QueryPc where
  | getLatestSernum
  | readSerNumAsCurrent
  | getSession
  | resetQryGetNext (session : Session) (maxRows : Nat)
  | done
  deriving DecidableEq, Repr

structure Query where
  pc : QueryPc
  state : QueryState
  sent : List Pdu
  deriving DecidableEq, Repr

/--
What a statement of a query can see besides the tables: the answer of the database server where the
order of rows is open, the size of the page that is asked for, and whether the statement fails.
-/
structure QueryEnv where
  latest : Option Serial
  maxRows : Nat
  failed : Bool := false

namespace Query

def start : Query where
  pc := .getLatestSernum
  state := ⟨0, none, false, false⟩
  sent := []

def fail (q : Query) (code : ErrorCode) : Query :=
  { q with pc := .done, sent := q.sent ++ [.errorReport code] }

def fillPdus (q : Query) (session : Session) (maxRows : Nat) (rows : List Prefix) : Query :=
  let header := if q.state.dataSent then [] else [Pdu.cacheResponse session]
  match rows.mapM fun p => fillPduIpPrefix p true with
  | none => q.fail .internalError
  | some pdus =>
    let pdus := header ++ pdus
    let state := { q.state with dataSent := true, firstRow := rows.getLast? <|> q.state.firstRow }
    if pdus.length = maxRows then
      { pc := .getSession, state := state, sent := q.sent ++ pdus }
    else
      { pc := .done, state := state,
        sent := q.sent ++ pdus ++ [.endOfData session q.state.serNum] }

/--
Execute the next statement of a query. The result is `none` if the query has ended, or if the database
server cannot give the answer that `e` holds.
-/
def step (e : QueryEnv) (q : Query) (t : Tables) : Option Query :=
  match q.pc with
  | .getLatestSernum =>
    if e.failed then
      some (q.fail .internalError)
    else if t.IsLatestSernum e.latest then
      match e.latest with
      | none => some { q with pc := .getSession, state := { q.state with notReady := true } }
      | some serial => some { q with pc := .readSerNumAsCurrent, state := { q.state with serNum := serial } }
    else
      none
  | .readSerNumAsCurrent =>
    match if e.failed then none else t.findUpdate q.state.serNum with
    | none => some (q.fail .internalError)
    | some r =>
      if r.hasFull then
        some { q with pc := .getSession }
      else
        some { q with pc := .getSession, state := { q.state with notReady := true } }
  | .getSession =>
    if e.maxRows < 2 then
      some (q.fail .internalError)
    else if q.state.notReady then
      some (q.fail .noData)
    else if e.failed then
      some (q.fail .internalError)
    else
      match t.session with
      | [session] => some { q with pc := .resetQryGetNext session e.maxRows }
      | _ => some (q.fail .internalError)
  | .resetQryGetNext session maxRows =>
    if e.failed then
      some (q.fail .internalError)
    else
      let limit := if q.state.dataSent then maxRows else maxRows - 1
      some (q.fillPdus session maxRows (t.resetQryGetNext q.state.serNum q.state.firstRow limit))
  | .done => none

end Query

def Query.reading (q : Query) : Bool :=
  !q.state.notReady &&
    match q.pc with
    | .getSession => true
    | .resetQryGetNext _ _ => true
    | _ => false

def announced (pdus : List Pdu) : List Prefix :=
  pdus.filterMap fun
    | .ipPrefix p true => some p
    | _ => none

/--
A reset query next to the runs of `rpki-rtr-update`. `expected` has the prefixes of the serial number of
the query, as of the last statement of the query.
-/
structure QuerySystem where
  system : System
  query : Query
  expected : List Prefix

inductive QueryEvent where
  | update (ev : Event)
  | query (e : QueryEnv)

namespace QuerySystem

def init (session : Session) : QuerySystem where
  system := System.init session
  query := Query.start
  expected := []

def next (s : QuerySystem) : QueryEvent → Option QuerySystem
  | .update ev => (s.system.next ev).map fun system => { s with system := system }
  | .query e =>
    (s.query.step e s.system.tables).map fun query =>
      { s with query := query, expected := s.system.snapshot query.state.serNum }

def lts (session : Session) : Lts QuerySystem QueryEvent :=
  Lts.ofNext (init session) next

def KeepsQueried (s : QuerySystem) : QueryEvent → Prop
  | .update (.statement _) =>
    ∀ p ∈ s.system.proc, p.pc = .deleteOldFull → s.query.reading = true →
      s.query.state.serNum = p.currentSerial ∨ s.query.state.serNum = p.previousSerial
  | _ => True

instance (s : QuerySystem) : (ev : QueryEvent) → Decidable (s.KeepsQueried ev)
  | .update (.statement _) => inferInstanceAs (Decidable (∀ p ∈ s.system.proc, _))
  | .update (.start _) | .update .kill | .query _ => .isTrue trivial

end QuerySystem
end Rpstir.Rtr
