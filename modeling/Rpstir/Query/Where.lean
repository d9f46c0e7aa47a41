import Rpstir.Data.Fold
import Rpstir.Db.Query
import Rpstir.Garbage.Basic

/-!
This module contains the construction of the where clause by `doQuery` of `query.c`, and when the clause
stays inside of its array.
-/

namespace Rpstir.Query

open List Option

/--
Why `doQuery` does not get to the query: `checkErr` ends the process, a null pointer is used, or the
array is left.
-/
inductive Stop where
  | checkErr (message : String)
  | nullPointer
  | outside
  deriving DecidableEq

structure QueryField where
  description : Option String
  justDisplay : Bool

def maxW : Nat := 10 * 20

def strtok (s : List Char) : Option (List Char × List Char) :=
  match s.dropWhile (· = '.') with
  | [] => none
  | c :: rest => some (c :: rest.takeWhile (· ≠ '.'), (rest.dropWhile (· ≠ '.')).drop 1)

/--
The bound of `strncat` does not count the terminator, so that it is written behind the array where the
text is cut off.
-/
def strncat (whereStr s : String) : Except Stop String :=
  if (whereStr ++ s).utf8ByteSize < maxW then .ok (whereStr ++ s) else .error .outside

def comparison (name : List Char) : Option String :=
  match String.ofList (name.map Char.toLower) with
  | "eq" => some "="
  | "ne" => some "<>"
  | "lt" => some "<"
  | "gt" => some ">"
  | "le" => some "<="
  | "ge" => some ">="
  | _ => none

def constant (value : List Char) : String :=
  Garbage.mysqlEscapeString (String.ofList (value.map fun c => if c = '#' then ' ' else c))

section Filters

variable (findField : String → Option QueryField)

def addFilter (whereStr filter : String) : Except Stop String :=
  match strtok filter.toList with
  | none => .error .nullPointer
  | some (name, rest) => do
    let whereStr ← strncat whereStr (String.ofList name)
    match (findField (String.ofList name)).filter fun field => field.description.isSome with
    | none => .error (.checkErr ("Unknown field name: " ++ String.ofList name ++ "\n"))
    | some field =>
      if field.justDisplay then
        .error (.checkErr ("Field only for display: " ++ String.ofList name ++ "\n"))
      else
        match strtok rest with
        | none => .error (.checkErr "No comparison operator\n")
        | some (name, value) =>
          match comparison name with
          | none => .error (.checkErr ("Bad comparison operator: " ++ String.ofList name ++ "\n"))
          | some op => do
            let whereStr ← strncat whereStr op
            let whereStr ← strncat whereStr "\""
            if value = [] then
              .error .nullPointer
            else
              let whereStr ← strncat whereStr (constant value)
              strncat whereStr "\""

def addAnd (whereStr : String) (i : Nat) : Except Stop String :=
  if i ≠ 0 then strncat whereStr " AND " else .ok whereStr

def addFilters (whereStr : String) : Nat → List String → Except Stop String
  | _, [] => .ok whereStr
  | i, filter :: filters => do
    let whereStr ← addAnd whereStr i
    let whereStr ← addFilter findField whereStr filter
    addFilters whereStr (i + 1) filters

/--
The where clause, which is null if there are neither filters nor flag tests.
-/
def doQuery (config : Config) (validate : Bool) (filters : List String) : Except Stop (Option String) := do
  let whereStr ← addFilters findField "" 0 filters
  if validate then
    match addQueryFlagTests config whereStr !filters.isEmpty with
    | none => .error .outside
    | some whereStr => if whereStr.utf8ByteSize < maxW then .ok (some whereStr) else .error .outside
  else
    .ok (if filters.isEmpty then none else some whereStr)

def filterText (filter : String) : Option String := do
  let (name, rest) ← strtok filter.toList
  let field ← (findField (String.ofList name)).filter fun field => field.description.isSome
  let (op, value) ← if field.justDisplay then none else strtok rest
  let op ← comparison op
  if value = [] then none else some (String.ofList name ++ op ++ "\"" ++ constant value ++ "\"")

end Filters

variable {findField : String → Option QueryField}

theorem strncat_ok {whereStr s t : String}
    : strncat whereStr s = .ok t ↔ (whereStr ++ s).utf8ByteSize < maxW ∧ whereStr ++ s = t := by
  unfold strncat
  grind

theorem strncat_bind_ok {α : Type} {whereStr s : String} {f : String → Except Stop α} {a : α}
    : (strncat whereStr s >>= f) = .ok a
      ↔ (whereStr ++ s).utf8ByteSize < maxW ∧ f (whereStr ++ s) = .ok a := by
  simp only [Except.bind_eq_ok_iff, strncat_ok, and_assoc, exists_and_left, exists_eq_left']

theorem addFilter_ok {whereStr filter t : String}
    : addFilter findField whereStr filter = .ok t
      ↔ ∃ text, filterText findField filter = some text ∧ (whereStr ++ text).utf8ByteSize < maxW
        ∧ whereStr ++ text = t := by
  unfold addFilter filterText
  cases strtok filter.toList with
  | none => simp
  | some found =>
    simp only [bind_eq_bind, bind_some, strncat_bind_ok]
    cases (findField (String.ofList found.1)).filter fun field => field.description.isSome with
    | none => simp
    | some field =>
      cases hdisplay : field.justDisplay with
      | true => simp [hdisplay]
      | false =>
        cases strtok found.2 with
        | none => simp [hdisplay]
        | some op =>
          cases hcomp : comparison op.1 with
          | none => simp [hdisplay, hcomp]
          | some =>
            simp only [bind_some, hdisplay, hcomp, strncat_bind_ok, Bool.false_eq_true, if_false]
            split
            . simp
            . simp only [strncat_bind_ok, strncat_ok, some.injEq, exists_eq_left', String.append_assoc,
                String.utf8ByteSize_append]
              grind

def joined : Nat → List String → String
  | _, [] => ""
  | i, text :: texts => (if i ≠ 0 then " AND " else "") ++ text ++ joined (i + 1) texts

def conjunction (texts : List String) : Option Cond :=
  if texts = [] then none else some (.filter (joined 0 texts))

def whereText (config : Config) (validate : Bool) (texts : List String) : Option String :=
  if validate then some (Cond.queryFlagTests config (conjunction texts)).text
  else (conjunction texts).map Cond.text

theorem addFilters_ok {whereStr t : String} (hfit : whereStr.utf8ByteSize < maxW) {i : Nat}
    {filters : List String}
    : addFilters findField whereStr i filters = .ok t
      ↔ ∃ texts, filters.mapM (filterText findField) = some texts
        ∧ (whereStr ++ joined i texts).utf8ByteSize < maxW ∧ whereStr ++ joined i texts = t := by
  induction filters generalizing whereStr i with
  | nil => simp [addFilters, joined, hfit]
  | cons filter filters ih =>
    have hand (t : String) : addAnd whereStr i = .ok t
        ↔ (whereStr ++ if i ≠ 0 then " AND " else "").utf8ByteSize < maxW
          ∧ (whereStr ++ if i ≠ 0 then " AND " else "") = t := by
      unfold addAnd
      split
      . exact strncat_ok
      . simp [hfit]
    simp only [addFilters, Except.bind_eq_ok_iff, hand, addFilter_ok, mapM_cons, bind_eq_bind,
      bind_eq_some_iff, Option.pure_def, some.injEq]
    constructor
    . rintro ⟨_, ⟨_, rfl⟩, _, ⟨text, htext, hsize, rfl⟩, hrest⟩
      obtain ⟨texts, htexts, hrest⟩ := (ih hsize).mp hrest
      refine ⟨_, ⟨text, htext, texts, htexts, rfl⟩, ?_⟩
      rwa [joined, ← String.append_assoc, ← String.append_assoc]
    . rintro ⟨_, ⟨text, htext, texts, htexts, rfl⟩, hrest⟩
      rw [joined, ← String.append_assoc, ← String.append_assoc] at hrest
      have hsize := hrest.1
      rw [String.utf8ByteSize_append] at hsize
      have htext' := Nat.lt_of_le_of_lt (Nat.le_add_right _ _) hsize
      refine ⟨_, ⟨?_, rfl⟩, _, ⟨text, htext, htext', rfl⟩, (ih htext').mpr ⟨texts, htexts, hrest⟩⟩
      rw [String.utf8ByteSize_append] at htext'
      exact Nat.lt_of_le_of_lt (Nat.le_add_right _ _) htext'

theorem size_le_queryFlagTests (config : Config) (preceding : Option Cond)
    : (Cond.startText preceding).utf8ByteSize ≤ (Cond.queryFlagTests config preceding).text.utf8ByteSize := by
  have hunless (c : Cond) (allow : Bool) (flagVal : Flags) (isSet : Bool)
      : c.text.utf8ByteSize ≤ (c.addUnless allow flagVal isSet).text.utf8ByteSize := by
    unfold Cond.addUnless
    split <;> simp [Cond.text]
  have hthen (test : Cond) : (Cond.startText preceding).utf8ByteSize
      ≤ (Cond.andThen preceding test).text.utf8ByteSize := by
    cases preceding <;> simp [Cond.startText, Cond.andThen, Cond.text]
  simp only [Cond.queryFlagTests]
  calc
    _ ≤ _ := hthen _
    _ ≤ _ := hunless ..
    _ ≤ _ := hunless ..
    _ ≤ _ := hunless ..
    _ ≤ _ := hunless ..
    _ ≤ _ := hunless ..

/--
The clause is the conjunction of the filters and the flag tests exactly if each filter can be read and the
conjunction is shorter than the array.
-/
theorem doQuery_where_iff (config : Config) (validate : Bool) (filters : List String)
    : (∃ texts, filters.mapM (filterText findField) = some texts
        ∧ doQuery findField config validate filters = .ok (whereText config validate texts))
      ↔ ∃ texts, filters.mapM (filterText findField) = some texts
        ∧ ((whereText config validate texts).getD "").utf8ByteSize < maxW := by
  refine exists_congr fun texts => and_congr_right fun htexts => ?_
  have hempty : filters.isEmpty = decide (texts = []) := by
    cases filters with
    | nil =>
      cases htexts
      rfl
    | cons =>
      obtain ⟨_, _, _, _, rfl⟩ := by simpa [mapM_cons, bind_eq_some_iff] using htexts
      rfl
  have hstart : Cond.startText (conjunction texts) = joined 0 texts := by
    cases texts <;> rfl
  have hsome : (conjunction texts).isSome = !filters.isEmpty := by
    rw [hempty, conjunction]
    split <;> simp [*]
  have hfilters {t : String} : addFilters findField "" 0 filters = .ok t
      ↔ (joined 0 texts).utf8ByteSize < maxW ∧ joined 0 texts = t := by
    simp [addFilters_ok (by decide : "".utf8ByteSize < maxW), htexts]
  simp only [doQuery, Except.bind_eq_ok_iff, hfilters, and_assoc, exists_and_left, exists_eq_left', ← hstart]
  cases validate with
  | false =>
    cases texts <;> simp [hempty, conjunction, whereText, Cond.startText]
  | true =>
    have hle := size_le_queryFlagTests config (conjunction texts)
    simp only [if_true, ← hsome, Cond.addQueryFlagTests_eq_fit, whereText, fit, whereStrSize, maxW, getD_some]
    grind

theorem doQuery_leaves_array
    : let findField := fun _ => some (QueryField.mk (some "Filename") false)
      let filter := "filename.eq." ++ String.ofList (replicate 100 'a')
      (filterText findField filter).isSome = true
        ∧ doQuery findField ⟨false, false, false, false, false⟩ true [filter] matches .error .outside := by
  decide +kernel

end Rpstir.Query
