import Rpstir.Sqhl.Lemmas.Rows

/-!
This module contains the rows of all object tables as one type, so that what a statement does to a
table needs to be said only once.
-/

namespace Rpstir.Sqhl

open List

inductive Row where
  | cert (r : CertRow)
  | crl (r : CrlRow)
  | roa (r : RoaRow)
  | manifest (r : ManifestRow)
  | gbr (r : GbrRow)
  deriving DecidableEq

namespace Row

def obj : Row → Obj
  | cert r => r.toObj
  | crl r => r.toObj
  | roa r => r.toObj
  | manifest r => r.toObj
  | gbr r => r.toObj

def withObj (o : Obj) : Row → Row
  | cert r => cert { r with toObj := o }
  | crl r => crl { r with toObj := o }
  | roa r => roa { r with toObj := o }
  | manifest r => manifest { r with toObj := o }
  | gbr r => gbr { r with toObj := o }

def withFlags (flags : Flags) (r : Row) : Row :=
  r.withObj { r.obj with flags := flags }

@[simp]
theorem obj_withObj (r : Row) (o : Obj) : (r.withObj o).obj = o := by
  cases r <;> rfl

@[simp]
theorem withObj_obj (r : Row) : r.withObj r.obj = r := by
  cases r <;> rfl

@[simp]
theorem withObj_withObj (r : Row) (o o' : Obj) : (r.withObj o).withObj o' = r.withObj o' := by
  cases r <;> rfl

def Names (ski subject : String) : Row → Prop
  | cert r => r.aki = some ski ∧ r.issuer = subject
  | crl r => r.aki = some ski ∧ r.issuer = subject
  | roa r => r.ski = ski
  | manifest r => r.ski = ski
  | gbr r => r.ski = ski

end Row

namespace World

variable {tab : Table} {w : World}

def rows (w : World) : Table → List Row
  | .cert => w.cert.map .cert
  | .crl => w.crl.map .crl
  | .roa => w.roa.map .roa
  | .manifest => w.manifest.map .manifest
  | .gbr => w.gbr.map .gbr

theorem map_obj_rows (w : World) (tab : Table) : (w.rows tab).map Row.obj = w.objs tab := by
  cases tab <;> simp [rows, objs, Row.obj]

variable {r : Row}

theorem mem_rows_cert {r : CertRow} : .cert r ∈ w.rows .cert ↔ r ∈ w.cert := by
  simp [rows]

theorem rows_updateByLid (w : World) (tab : Table) (lid : Nat) (f : Obj → Obj)
    : (w.updateByLid tab lid f).rows tab
      = (w.rows tab).map fun r => if r.obj.localId = lid then r.withObj (f r.obj) else r := by
  cases tab <;> simp only [rows, updateByLid, List.map_map]
    <;> exact map_congr_left fun r _ => apply_ite ..

theorem rows_updateByLid_of_ne (w : World) {tab tab' : Table} (h : tab' ≠ tab) (lid : Nat)
    (f : Obj → Obj) : (w.updateByLid tab lid f).rows tab' = w.rows tab' := by
  cases tab <;> cases tab' <;> first | contradiction | rfl

theorem rows_deleteWhere (w : World) (tab : Table) (p : Obj → Bool)
    : (w.deleteWhere tab p).rows tab = (w.rows tab).filter fun r => !p r.obj := by
  cases tab <;> simp only [rows, deleteWhere, List.filter_map] <;> rfl

theorem rows_deleteWhere_of_ne (w : World) {tab tab' : Table} (h : tab' ≠ tab) (p : Obj → Bool)
    : (w.deleteWhere tab p).rows tab' = w.rows tab' := by
  cases tab <;> cases tab' <;> first | contradiction | rfl

def UniqueLids (w : World) : Prop :=
  ∀ tab, ((w.objs tab).map Obj.localId).Nodup

theorem UniqueLids.eq (h : w.UniqueLids) {r' : Row} (hr : r ∈ w.rows tab) (hr' : r' ∈ w.rows tab)
    (hid : r.obj.localId = r'.obj.localId) : r = r' := by
  have hnodup := h tab
  rw [← map_obj_rows, List.map_map] at hnodup
  exact inj_on_of_nodup_map hnodup hr hr' hid

end World

theorem SameDb.rows {w w' : World} (h : SameDb w w') (tab : Table) : w'.rows tab = w.rows tab := by
  cases tab <;> simp only [World.rows]
  . rw [h.cert]
  . rw [h.crl]
  . rw [h.roa]
  . rw [h.manifest]
  . rw [h.gbr]

end Rpstir.Sqhl
