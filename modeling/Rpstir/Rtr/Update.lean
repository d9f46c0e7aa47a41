import Rpstir.Data.Lts
import Rpstir.Rtr.Basic

/-!
This module contains `main` of `rpki-rtr-update` with one SQL statement in each step, and the system of
runs that can be killed between any two statements.
-/

namespace Rpstir.Rtr

inductive Pc where
  | hasValidSession
  | getLatestSernum
  | deleteIncompleteIncremental
  | deleteIncompleteFull
  | goodSerials
  | insertFull
  | insertAnnouncements
  | insertWithdrawals
  | hasIncrementalChanges
  | insertUpdate
  | deleteFull
  | ignoreOldFull
  | deleteOldFull
  | deleteOldUpdate
  | ignoreOldIncremental
  | deleteOldIncremental
  deriving DecidableEq, Repr

/--
The local variables of `main`. `argv` is the optional argument, `some none` if it is no number.
-/
structure Proc where
  pc : Pc
  argv : Option (Option Serial)
  firstTime : Bool
  previousSerial : Serial
  currentSerial : Serial
  updateHadChanges : Bool
  deriving DecidableEq, Repr

/--
What one statement can see besides the tables of the RTR server: the answer of the server where the
order of rows is open, `random()`, the ROA tables, the configuration and the time in seconds.
-/
structure Env where
  latest : Option Serial
  random : Serial
  roas : List RoaRow
  roaPrefixes : List RoaPrefixRow
  config : Config
  retentionHours : Nat
  now : Nat

def Env.prefixes (e : Env) : List Prefix :=
  Tables.roaPrefixes (flagTestsDefault e.config) e.roas e.roaPrefixes

def Env.cutoff (e : Env) : Nat :=
  e.now - 3600 * e.retentionHours

inductive Next where
  | goto (p : Proc)
  | exit (success : Bool)

def Next.proc : Next → Option Proc
  | goto p => some p
  | exit _ => none

namespace Proc

def start (argv : Option (Option Serial)) : Proc where
  pc := .hasValidSession
  argv := argv
  firstTime := false
  previousSerial := 0
  currentSerial := 0
  updateHadChanges := false

def forceUpdate (p : Proc) : Bool := p.argv.isSome

def computeCurrentSerial (p : Proc) : Next :=
  let pc := if p.firstTime then .insertFull else .goodSerials
  match p.argv with
  | some none => .exit false
  | some (some serial) => .goto { p with currentSerial := serial, pc := pc }
  | none => .goto { p with currentSerial := p.previousSerial + 1, pc := pc }

/--
Execute the next statement of a run, and the code up to the statement after it. The result is `none`
if the database server cannot give the answer that `e` holds.
-/
def step (e : Env) (p : Proc) (t : Tables) : Option (Tables × Next) :=
  match p.pc with
  | .hasValidSession =>
    if t.session.length = 1 then
      some (t, .goto { p with pc := .getLatestSernum })
    else
      some (t, .exit false)
  | .getLatestSernum =>
    if t.IsLatestSernum e.latest then
      let p :=
        match e.latest with
        | some serial => { p with firstTime := false, previousSerial := serial }
        | none => { p with firstTime := true, previousSerial := e.random }
      some (t, .goto { p with pc := .deleteIncompleteIncremental })
    else
      none
  | .deleteIncompleteIncremental =>
    some (t.deleteIncompleteIncremental, .goto { p with pc := .deleteIncompleteFull })
  | .deleteIncompleteFull =>
    some (t.deleteIncompleteFull, p.computeCurrentSerial)
  | .goodSerials =>
    if t.detectInconsistentState p.previousSerial p.currentSerial then
      some (t, .exit false)
    else
      some (t, .goto { p with pc := .insertFull })
  | .insertFull =>
    let t := t.insertFull p.currentSerial e.prefixes
    if p.firstTime then
      some (t, .goto { p with updateHadChanges := true, pc := .insertUpdate })
    else
      some (t, .goto { p with pc := .insertAnnouncements })
  | .insertAnnouncements =>
    match t.insertIncremental p.currentSerial true p.previousSerial p.currentSerial with
    | none => some (t, .exit false)
    | some t => some (t, .goto { p with pc := .insertWithdrawals })
  | .insertWithdrawals =>
    match t.insertIncremental p.currentSerial false p.currentSerial p.previousSerial with
    | none => some (t, .exit false)
    | some t => some (t, .goto { p with pc := .hasIncrementalChanges })
  | .hasIncrementalChanges =>
    let p := { p with updateHadChanges := t.hasChanges p.currentSerial }
    if p.updateHadChanges || p.forceUpdate then
      some (t, .goto { p with pc := .insertUpdate })
    else
      some (t, .goto { p with pc := .deleteFull })
  | .insertUpdate =>
    let previous := if p.firstTime then none else some p.previousSerial
    match t.insertUpdate p.currentSerial previous e.now with
    | none => some (t, .exit false)
    | some t => some (t, .goto { p with pc := .ignoreOldFull })
  | .deleteFull =>
    some (t.deleteUselessFull p.currentSerial, .goto { p with pc := .ignoreOldFull })
  | .ignoreOldFull =>
    some (t.ignoreOldFull p.currentSerial p.previousSerial, .goto { p with pc := .deleteOldFull })
  | .deleteOldFull =>
    some (t.deleteOldFull p.currentSerial p.previousSerial, .goto { p with pc := .deleteOldUpdate })
  | .deleteOldUpdate =>
    some (t.deleteOldUpdate p.currentSerial p.previousSerial e.cutoff,
      .goto { p with pc := .ignoreOldIncremental })
  | .ignoreOldIncremental =>
    some (t.ignoreOldIncremental, .goto { p with pc := .deleteOldIncremental })
  | .deleteOldIncremental =>
    some (t.deleteOldIncremental, .exit true)

end Proc

/--
The tables, the run that is going on, and what the history so far was: `snapshot` has for each serial
number the prefixes computed when it was last inserted, `lastInserted` the latest row of `rtr_update`
to be inserted. Of the latest run, `atStart` has the tables at its start, `forced` says whether it was
given its serial number, and `noChange` that it found no change.
-/
structure System where
  tables : Tables
  proc : Option Proc
  snapshot : Serial → List Prefix
  lastInserted : Option UpdateRow
  atStart : Tables
  forced : Bool
  noChange : Bool

inductive Event where
  | start (argv : Option (Option Serial))
  | statement (e : Env)
  | kill

namespace System

def init (session : Session) : System :=
  let tables := ⟨[session], [], [], []⟩
  { tables := tables, proc := none, snapshot := fun _ => [], lastInserted := none,
    atStart := tables, forced := false, noChange := false }

def record (s : System) (e : Env) (p : Proc) (t : Tables) : System :=
  match p.pc with
  | .insertFull =>
    { s with snapshot := Function.update s.snapshot p.currentSerial e.prefixes }
  | .insertUpdate =>
    { s with lastInserted := t.update.getLast? }
  | .hasIncrementalChanges =>
    { s with noChange := !t.hasChanges p.currentSerial }
  | _ => s

def next (s : System) : Event → Option System
  | .start argv =>
    match s.proc with
    | none =>
      some { s with proc := some (.start argv), atStart := s.tables, forced := argv.isSome,
                    noChange := false }
    | some _ => none
  | .kill => some { s with proc := none }
  | .statement e =>
    match s.proc with
    | none => none
    | some p =>
      (p.step e s.tables).map fun (t, next) =>
        { s.record e p t with tables := t, proc := next.proc }

def lts (session : Session) : Lts System Event :=
  Lts.ofNext (init session) next

/--
A row of `rtr_update` is inserted in a later second than the one before it.
-/
def LaterSecond (s : System) : Event → Prop
  | .statement e =>
    ∀ p ∈ s.proc, p.pc = .insertUpdate → ∀ r ∈ s.lastInserted, r.createTime < e.now
  | _ => True

/--
The clock of the database does not go back between two rows of `rtr_update`.
-/
def ClockMonotone (s : System) : Event → Prop
  | .statement e =>
    ∀ p ∈ s.proc, p.pc = .insertUpdate → ∀ r ∈ s.lastInserted, r.createTime ≤ e.now
  | _ => True

instance (s : System) : (ev : Event) → Decidable (s.LaterSecond ev)
  | .statement _ => inferInstanceAs (Decidable (∀ p ∈ s.proc, _))
  | .start _ | .kill => .isTrue trivial

instance (s : System) : (ev : Event) → Decidable (s.ClockMonotone ev)
  | .statement _ => inferInstanceAs (Decidable (∀ p ∈ s.proc, _))
  | .start _ | .kill => .isTrue trivial

end System

def Event.run (argv : Option (Option Serial)) (e : Env) (statements : Nat) : List Event :=
  .start argv :: List.replicate statements (.statement e)

def Env.ofPrefixes (latest : Option Serial) (now : Nat) (prefixes : List (List UInt8)) : Env where
  latest := latest
  random := 0
  roas := [⟨1, 65000, Flags.validated ||| Flags.onman⟩]
  roaPrefixes := prefixes.map fun bytes => ⟨1, bytes, 24, 24⟩
  config := ⟨false, false, false, false, false⟩
  retentionHours := 96
  now := now

end Rpstir.Rtr
