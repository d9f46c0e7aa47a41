import Mathlib.Data.List.Lex
import Mathlib.Data.List.Sort
import Mathlib.Data.Prod.Lex
import Rpstir.Db.Flags

/-!
This module contains the tables behind the RTR server, and the prepared statements on them as functions.
-/

namespace Rpstir.Rtr

abbrev Serial := UInt32

abbrev Session := UInt16

structure Prefix where
  asn : UInt32
  prefixBytes : List UInt8
  prefixLength : UInt8
  prefixMaxLength : UInt8
  deriving DecidableEq, Repr

namespace Prefix

def key (p : Prefix) : Nat ×ₗ List Nat ×ₗ Nat ×ₗ Nat :=
  toLex (p.asn.toNat, toLex (p.prefixBytes.map UInt8.toNat,
    toLex (p.prefixLength.toNat, p.prefixMaxLength.toNat)))

theorem key_injective : Function.Injective key := by
  intro p q h
  cases p
  cases q
  simp only [key, EmbeddingLike.apply_eq_iff_eq, Prod.mk.injEq, UInt32.toNat_inj,
    UInt8.toNat_inj] at h
  rcases h with ⟨hasn, hbytes, hlen, hmax⟩
  have hbytes := List.map_injective_iff.mpr (fun _ _ => UInt8.toNat_inj.mp) hbytes
  simp [hasn, hbytes, hlen, hmax]

instance : LinearOrder Prefix := LinearOrder.lift' key key_injective

end Prefix

structure RoaRow where
  localId : Nat
  asn : UInt32
  flags : Flags
  deriving DecidableEq, Repr

structure RoaPrefixRow where
  roaLocalId : Nat
  prefixBytes : List UInt8
  prefixLength : UInt8
  prefixMaxLength : UInt8
  deriving DecidableEq, Repr

structure UpdateRow where
  serialNum : Serial
  prevSerialNum : Option Serial
  createTime : Nat
  hasFull : Bool
  deriving DecidableEq, Repr

structure FullRow where
  serialNum : Serial
  pfx : Prefix
  deriving DecidableEq, Repr

structure IncrementalRow where
  serialNum : Serial
  isAnnounce : Bool
  pfx : Prefix
  deriving DecidableEq, Repr

structure Tables where
  session : List Session
  update : List UpdateRow
  full : List FullRow
  incremental : List IncrementalRow
  deriving DecidableEq, Repr

namespace Tables

variable (t : Tables) (serial : Serial)

def findUpdate : Option UpdateRow :=
  t.update.find? (fun r => r.serialNum == serial)

/--
`DB_PSTMT_RTR_GET_LATEST_SERNUM`. Rows with equal `create_time` can come in any order, so this says
which answers the server can give.
-/
def IsLatestSernum : Option Serial → Prop
  | none => t.update = []
  | some serial =>
    ∃ r ∈ t.update, r.serialNum = serial ∧ ∀ r' ∈ t.update, r'.createTime ≤ r.createTime

instance (t : Tables) (latest : Option Serial) : Decidable (t.IsLatestSernum latest) :=
  match latest with
  | none => inferInstanceAs (Decidable (_ = _))
  | some _ => inferInstanceAs (Decidable (∃ r ∈ t.update, _))

def deleteIncompleteIncremental : Tables :=
  { t with incremental := t.incremental.filter fun r => (t.findUpdate r.serialNum).isSome }

def deleteIncompleteFull : Tables :=
  { t with full := t.full.filter fun r => (t.findUpdate r.serialNum).isSome }

def detectInconsistentState (previous current : Serial) : Bool :=
  t.update.any fun r =>
    r.serialNum == current || r.prevSerialNum == some current || r.prevSerialNum == some previous

def roaPrefixes (tests : FlagTests) (roas : List RoaRow) (roaPrefixes : List RoaPrefixRow)
    : List Prefix :=
  roas.flatMap fun roa =>
    roaPrefixes.filterMap fun p =>
      if p.roaLocalId = roa.localId && tests.eval roa.flags then
        some ⟨roa.asn, p.prefixBytes, p.prefixLength, p.prefixMaxLength⟩
      else
        none

def insertFull (prefixes : List Prefix) : Tables :=
  { t with full := prefixes.foldl insert t.full }
where
  insert (full : List FullRow) (p : Prefix) : List FullRow :=
    if ⟨serial, p⟩ ∈ full then full else full ++ [⟨serial, p⟩]

def fullPrefixes : List Prefix :=
  t.full.filterMap fun r => if r.serialNum = serial then some r.pfx else none

/--
`DB_PSTMT_RTR_INSERT_INCREMENTAL`: the rows of `t1` that `t2` does not have. The statement fails,
and inserts nothing, if a row has the primary key of another one.
-/
def insertIncremental (isAnnounce : Bool) (t2 t1 : Serial) : Option Tables :=
  let rows := (t.fullPrefixes t1).filterMap fun p =>
    if ⟨t2, p⟩ ∈ t.full then none else some (⟨serial, isAnnounce, p⟩ : IncrementalRow)
  if rows.any fun r => t.incremental.any fun r' => r'.serialNum == serial && r'.pfx == r.pfx then
    none
  else
    some { t with incremental := t.incremental ++ rows }

def hasChanges : Bool :=
  t.incremental.any fun r => r.serialNum == serial

def insertUpdate (current : Serial) (previous : Option Serial) (now : Nat) : Option Tables :=
  if t.update.any fun r => r.serialNum == current || (previous.isSome && r.prevSerialNum == previous) then
    none
  else
    some { t with update := t.update ++ [⟨current, previous, now, true⟩] }

def deleteUselessFull : Tables :=
  { t with full := t.full.filter fun r => r.serialNum != serial }

def ignoreOldFull (serial1 serial2 : Serial) : Tables :=
  { t with update := t.update.map fun r =>
      if r.serialNum != serial1 && r.serialNum != serial2 then { r with hasFull := false } else r }

def deleteOldFull (serial1 serial2 : Serial) : Tables :=
  { t with full := t.full.filter fun r => !(r.serialNum != serial1 && r.serialNum != serial2) }

def deleteOldUpdate (serial1 serial2 : Serial) (cutoff : Nat) : Tables :=
  { t with update := t.update.filter fun r =>
      !(decide (r.createTime < cutoff) && r.serialNum != serial1 && r.serialNum != serial2) }

def ignoreOldIncremental : Tables :=
  { t with update := t.update.map fun r =>
      match r.prevSerialNum.bind t.findUpdate with
      | none => { r with prevSerialNum := none }
      | some _ => r }

def deleteOldIncremental : Tables :=
  { t with incremental := t.incremental.filter fun r =>
      ((t.findUpdate r.serialNum).bind (·.prevSerialNum)).isSome }

end Tables
end Rpstir.Rtr
