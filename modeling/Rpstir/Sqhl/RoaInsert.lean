import Rpstir.Sqhl.System

/-!
This module contains the insertion of a ROA statement by statement, with a database that can refuse any of
the statements.
-/

namespace Rpstir.Sqhl

/--
What goes wrong in the database: the search for the greatest `local_id` (or an allocation before it), the
insert of the ROA, and each of the inserts of prefixes.
-/
structure Faults where
  getmaxid : Option Err
  insert : Option Err
  prefixes : Nat → Option Err

def Faults.none : Faults := ⟨.none, .none, fun _ => .none⟩

def hexDigit (n : Nat) : Char :=
  Nat.digitChar (n % 16)

def hexifyX (bytes : List UInt8) : String :=
  "0x" ++ (if bytes = [] then "0" else
    String.ofList (bytes.flatMap fun b => [hexDigit (b.toNat / 16), hexDigit b.toNat]))

def multiinsertLen : Nat := 32 * 1024

def multiinsertPre : String :=
  "INSERT INTO rpki_roa_prefix (roa_local_id, prefix, prefix_length, prefix_max_length) VALUES "

def prefixTuple (roaId : Nat) (p : RoaPrefix) : String :=
  "(" ++ toString roaId ++ ", " ++ hexifyX p.prefixBytes ++ ", " ++ toString p.prefixLength.toNat ++ ", "
    ++ toString p.prefixMaxLength.toNat ++ "),"

structure Multiinsert where
  executed : Nat
  buffered : List RoaPrefix
  idx : Nat
  rows : List RoaPrefix

def Multiinsert.execute (fails : Nat → Option Err) (s : Multiinsert) : Except Err Multiinsert :=
  match fails s.executed with
  | some e => .error e
  | none => .ok ⟨s.executed + 1, [], 0, s.rows ++ s.buffered⟩

theorem Multiinsert.execute_eq_ok_iff {fails : Nat → Option Err} {s s' : Multiinsert}
    : s.execute fails = .ok s'
      ↔ fails s.executed = none ∧ s' = ⟨s.executed + 1, [], 0, s.rows ++ s.buffered⟩ := by
  unfold execute
  cases fails s.executed with
  | none => simp [eq_comm]
  | some => simp

def insertPrefixes (fails : Nat → Option Err) (roaId : Nat) (s : Multiinsert)
    : List RoaPrefix → Except Err Unit × List RoaPrefix
  | [] => (.ok (), s.rows)
  | p :: rest =>
    let idx := if s.idx = 0 then multiinsertPre.length else s.idx
    let ret := (prefixTuple roaId p).length
    if ret ≥ multiinsertLen - idx then
      if idx = multiinsertPre.length then
        (.error .internal, s.rows)
      else
        -- the prefix that did not fit is the first one of the next statement
        match _hexecute : s.execute fails with
        | .error e => (.error e, s.rows)
        | .ok s' => insertPrefixes fails roaId s' (p :: rest)
    else if rest.isEmpty then
      match Multiinsert.execute fails { s with buffered := s.buffered ++ [p] } with
      | .error e => (.error e, s.rows)
      | .ok s' => insertPrefixes fails roaId s' rest
    else
      insertPrefixes fails roaId
        { s with buffered := s.buffered ++ [p], idx := idx + ret } rest
  termination_by ps => (ps.length, s.idx)
  decreasing_by
    . apply Prod.Lex.right
      rw [(Multiinsert.execute_eq_ok_iff.mp _hexecute).2]
      grind
    . apply Prod.Lex.left
      simp
    . apply Prod.Lex.left
      simp

/--
The rows of `rpki_roa_prefix` go with the row of the ROA when it is deleted, by the foreign key. The
second delete of the error path is for a table without one; it names a column the table does not have.
-/
def addRoaInternalWith (env : Env) (faults : Faults) (w : World) (row : RoaRow) : Except Err Unit × World :=
  match dupsigscm (w.roa.map RoaRow.sig) row.sig, faults.getmaxid, faults.insert with
  | .error e, _, _ => (.error e, w)
  | .ok (), some e, _ => (.error e, w)
  | .ok (), none, some e => (.error e, w)
  | .ok (), none, none =>
    if w.hasKey .roa row.filename row.dirId then
      (.error .sql, w)
    else
      let (sta, rows) := insertPrefixes faults.prefixes row.localId ⟨0, [], 0, []⟩ row.prefixes
      let w := { w with
        roa := insertAt (env.place .roa (w.objs .roa) row.toObj) { row with prefixes := rows } w.roa }
      match sta with
      | .ok () => (.ok (), w)
      | .error e => (.error e, w.deleteWhere .roa fun o => isObj row.filename row.dirId o
          && o.localId = row.localId && o.flags = row.flags)

theorem insertPrefixes_ok {fails : Nat → Option Err} {roaId : Nat} {s : Multiinsert}
    {prefixes rows : List RoaPrefix} (h : insertPrefixes fails roaId s prefixes = (.ok (), rows))
    (hbuffered : prefixes = [] → s.buffered = [])
    : rows = s.rows ++ s.buffered ++ prefixes := by
  fun_induction insertPrefixes fails roaId s prefixes with
  | case1 =>
    cases h
    simp [hbuffered rfl]
  | case2
  | case3
  | case5 => cases h
  | case4 _ _ _ _ _ _ _ _ hexecute ih
  | case6 _ _ _ _ _ _ _ _ hexecute ih =>
    obtain ⟨_, rfl⟩ := Multiinsert.execute_eq_ok_iff.mp hexecute
    simpa using ih h fun _ => rfl
  | case7 s _ _ _ _ _ hlast ih =>
    simpa using ih h fun hrest => absurd (List.isEmpty_iff.mpr hrest) hlast

theorem insertPrefixes_fits {roaId : Nat} {s : Multiinsert} {prefixes : List RoaPrefix}
    (hfits : ∀ p ∈ prefixes, (prefixTuple roaId p).length < multiinsertLen - multiinsertPre.length)
    : (insertPrefixes (fun _ => none) roaId s prefixes).1 = .ok () := by
  fun_induction insertPrefixes (fun _ => none) roaId s prefixes with
  | case1 => rfl
  | case2 s p rest idx ret hfull hidx =>
    have hlt := hfits p List.mem_cons_self
    rw [hidx] at hfull
    omega
  | case3 _ _ _ _ _ _ _ _ hexecute
  | case5 _ _ _ _ _ _ _ _ hexecute => cases hexecute
  | case4 s p rest idx ret hfull hidx _ hexecute ih => exact ih hfits
  | case6 _ p _ _ _ _ _ _ _ ih
  | case7 _ p _ _ _ _ _ ih =>
    exact ih fun p hp => hfits p (List.mem_cons_of_mem _ hp)

theorem addRoaInternalWith_none (env : Env) (w : World) {row : RoaRow}
    (hfits : ∀ p ∈ row.prefixes,
      (prefixTuple row.localId p).length < multiinsertLen - multiinsertPre.length)
    : addRoaInternalWith env .none w row
      = match addRoaInternal env w row with
        | .ok w' => (.ok (), w')
        | .error e => (.error e, w) := by
  unfold addRoaInternalWith addRoaInternal
  cases dupsigscm (w.roa.map RoaRow.sig) row.sig with
  | error => rfl
  | ok =>
    simp only [Faults.none]
    cases w.hasKey .roa row.filename row.dirId with
    | true => rfl
    | false =>
      have hok := @insertPrefixes_fits row.localId ⟨0, [], 0, []⟩ row.prefixes hfits
      have hrows := insertPrefixes_ok (Prod.ext hok rfl) fun _ => rfl
      simp only [hok, hrows]
      rfl

def sampleRoaRow : RoaRow where
  filename := "r.roa"
  dirId := 1
  localId := 1
  flags := 0
  hash := .empty
  ski := "A1"
  sig := "00"
  asn := 64500
  prefixes := [⟨[10, 0, 0, 0], 8, 24⟩, ⟨[192, 0, 2, 0], 24, 24⟩,
    ⟨[32, 1, 13, 184, 0, 0, 0, 0, 0, 0, 0, 0, 0, 0, 0, 0], 32, 48⟩]
  sigval := .unknown

theorem addRoaInternalWith_none_sample
    : addRoaInternalWith .plain .none (.start "" (fun _ => none) 0 true) sampleRoaRow
      = (.ok (), { World.start "" (fun _ => none) 0 true with roa := [sampleRoaRow] }) := by
  rw [addRoaInternalWith_none _ _ (by decide)]
  rfl

end Rpstir.Sqhl
