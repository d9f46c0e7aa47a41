import Mathlib.Logic.Function.Basic

/-!
This module contains `saveState` and `restoreState` of `rcli.c`. A table is the list of its rows.
-/

namespace Rpstir.Rcli

open List Option

variable {ρ : Type}

/--
The tables, and the files that `select ... into outfile` has written.
-/
structure Db (ρ : Type) where
  table : String → List ρ
  backup : String → Option (List ρ)

inductive Stmt where
  | selectIntoOutfile (name : String)
  | deleteFrom (name : String)
  | loadDataInfile (name : String)
  deriving DecidableEq

/--
What a statement does. The server does not overwrite a file, and it does not read one that does not exist.
-/
def Stmt.exec (db : Db ρ) : Stmt → Option (Db ρ)
  | selectIntoOutfile name =>
    if (db.backup name).isSome then none
    else some { db with backup := Function.update db.backup name (some (db.table name)) }
  | deleteFrom name => some { db with table := Function.update db.table name [] }
  | loadDataInfile name => (db.backup name).map fun rows =>
    { db with table := Function.update db.table name (db.table name ++ rows) }

/--
The statements that the server refuses, and those that it does and after which `SQLRowCount` fails.
-/
structure Faults where
  refused : Stmt → Bool
  lost : Stmt → Bool

def statementscmNoData (faults : Faults) (db : Db ρ) : Option Stmt → Bool × Db ρ
  -- ERR_SCM_INVALARG
  | none => (false, db)
  | some stmt =>
    match if faults.refused stmt then none else stmt.exec db with
    | none => (false, db)
    | some db => (!faults.lost stmt, db)

def saveState (faults : Faults) (db : Db ρ) : List String → Bool × Db ρ
  | [] => (true, db)
  | name :: names =>
    match statementscmNoData faults db (some (.selectIntoOutfile name)) with
    | (false, db) => (false, db)
    | (true, db) => saveState faults db names

def restoreState (faults : Faults) (db : Db ρ) : List String → Bool × Db ρ
  | [] => (true, db)
  | name :: names =>
    let (_, db) := statementscmNoData faults db (some (.deleteFrom name))
    -- the text of `load data infile` has been freed, and the pointer to it is null
    match statementscmNoData faults db none with
    | (false, db) => (false, db)
    | (true, db) => restoreState faults db names

/--
Success means that the tables are back; otherwise each table is back or as it was before the call.
-/
def Restores (saved db : Db ρ) (names : List String) (result : Bool × Db ρ) : Prop :=
  (result.1 = true → ∀ name ∈ names, result.2.table name = saved.table name)
    ∧ ∀ name ∈ names, result.2.table name = saved.table name ∨ result.2.table name = db.table name

theorem restoreState_restores_iff {faults : Faults} {db saved : Db ρ} (names : List String)
    (hsave : saveState faults db names = (true, saved)) (table : String → List ρ)
    : Restores db { saved with table } names (restoreState faults { saved with table } names)
      ↔ ∀ name ∈ names.head?, table name = [] ∨ db.table name = []
        ∨ faults.refused (.deleteFrom name) = true := by
  cases names with
  | nil => simp [Restores]
  | cons name names =>
    simp only [restoreState, statementscmNoData, Stmt.exec, Restores, head?_cons, mem_some_iff]
    cases hrefused : faults.refused (.deleteFrom name) with
    | true => simp [hrefused]
    | false =>
      simp [hrefused, Function.update]
      grind

def noFaults : Faults where
  refused _ := false
  lost _ := false

def oneRow : Db Nat where
  table _ := [1]
  backup _ := none

theorem restoreState_restores_nothing
    : Restores oneRow { (saveState noFaults oneRow ["rpki_cert"]).2 with table := fun _ => [] } ["rpki_cert"]
        (restoreState noFaults { (saveState noFaults oneRow ["rpki_cert"]).2 with table := fun _ => [] }
          ["rpki_cert"]) :=
  (restoreState_restores_iff ["rpki_cert"] rfl _).mpr (by simp)

theorem restoreState_empties
    : let saved := saveState noFaults oneRow ["rpki_cert"]
      let result := restoreState noFaults saved.2 ["rpki_cert"]
      saved.1 = true ∧ result.1 = false ∧ saved.2.table "rpki_cert" = [1]
        ∧ result.2.table "rpki_cert" = [] :=
  ⟨rfl, rfl, rfl, rfl⟩

end Rpstir.Rcli
