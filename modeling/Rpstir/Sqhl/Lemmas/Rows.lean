import Mathlib.Data.List.Nodup
import Rpstir.Sqhl.Lemmas.Basic
import Rpstir.Sqhl.Lemmas.Steps

/-!
This module contains how the rows of the certificate table change while an operation runs.
-/

namespace Rpstir.Sqhl

open List

variable {env : Env}

theorem valid_validFlags (prevFlags : Flags) (isValid : Bool)
    : (validFlags prevFlags isValid).valid = isValid := by
  cases isValid with
  | false => simp [Flags.valid_eq, validFlags, Flags.nochain]
  | true => simp [Flags.valid_eq, validFlags, Flags.validated, Flags.nochain]

theorem trusted_validFlags (prevFlags : Flags) (isValid : Bool)
    : (validFlags prevFlags isValid).has Flags.trusted = prevFlags.has Flags.trusted := by
  cases isValid with
  | false => simp [Flags.has_trusted, validFlags, Flags.nochain]
  | true => simp [Flags.has_trusted, validFlags, Flags.validated, Flags.nochain]

theorem valid_onman (flags : Flags) : (flags ||| Flags.onman).valid = flags.valid := by
  simp [Flags.valid_eq, Flags.onman]

theorem valid_clearPara (flags : Flags)
    : (flags &&& ~~~(Flags.hasparacert ||| Flags.istarget)).valid = flags.valid := by
  simp [Flags.valid_eq, Flags.hasparacert, Flags.istarget]

theorem trusted_clearPara (flags : Flags)
    : (flags &&& ~~~(Flags.hasparacert ||| Flags.istarget)).has Flags.trusted
      = flags.has Flags.trusted := by
  simp [Flags.has_trusted, Flags.hasparacert, Flags.istarget]

abbrev Key := Option String × String

structure CertIdent where
  localId : Nat
  filename : String
  dirId : Nat
  ski : String
  subject : String
  aki : Option String
  issuer : String
  sn : List UInt8
  trusted : Bool
  deriving DecidableEq, Repr

def CertRow.ident (r : CertRow) : CertIdent where
  localId := r.localId
  filename := r.filename
  dirId := r.dirId
  ski := r.ski
  subject := r.subject
  aki := r.aki
  issuer := r.issuer
  sn := r.sn
  trusted := r.flags.has Flags.trusted

def CertIdent.key (i : CertIdent) : Key := (some i.ski, i.subject)

def CertIdent.parentKey (i : CertIdent) : Key := (i.aki, i.issuer)

def World.UniqueIds (w : World) : Prop :=
  (w.cert.map fun r => r.localId).Nodup

theorem World.UniqueIds.eq {w : World} (h : w.UniqueIds) {r r' : CertRow} (hr : r ∈ w.cert)
    (hr' : r' ∈ w.cert) (hid : r.localId = r'.localId) : r = r' :=
  inj_on_of_nodup_map h hr hr' hid

theorem le_foldr_max {l : List Nat} {n : Nat} (h : n ∈ l) : n ≤ l.foldr max 0 := by
  induction l with
  | nil => cases h
  | cons _ l ih =>
    rw [foldr_cons]
    rcases mem_cons.mp h with rfl | h
    . exact Nat.le_max_left ..
    . exact Nat.le_trans (ih h) (Nat.le_max_right ..)

theorem World.lt_nextId {w : World} {tab : Table} {o : Obj} (h : o ∈ w.objs tab)
    : o.localId < w.nextId tab := by
  unfold nextId
  apply Nat.lt_succ_of_le
  apply le_foldr_max
  exact List.mem_map_of_mem h

theorem insertAt_perm {α : Type} (n : Nat) (a : α) (l : List α)
    : (insertAt n a l).Perm (a :: l) := by
  unfold insertAt
  apply perm_middle.trans
  rw [take_append_drop]

theorem World.map_localId_updateByLid (w : World) {lid : Nat} {f : Obj → Obj}
    (hf : ∀ o, (f o).localId = o.localId)
    : (w.updateByLid .cert lid f).cert.map (fun r => r.localId)
      = w.cert.map fun r => r.localId := by
  simp only [updateByLid, List.map_map]
  apply map_congr_left
  intro r _
  simp only [Function.comp_apply]
  split
  . exact hf r.toObj
  . rfl

theorem Change.ids_sublist {w w' : World} (h : Change env w w')
    : (w'.cert.map fun r => r.localId).Sublist (w.cert.map fun r => r.localId) := by
  cases h with
  | update tab _ _ hf =>
    cases tab with
    | cert =>
      rw [World.map_localId_updateByLid]
      intro o
      obtain ⟨_, _, heq⟩ := hf o
      rw [heq]
    | crl
    | roa
    | manifest
    | gbr => exact .refl _
  | delete tab =>
    cases tab with
    | cert => exact filter_sublist.map _
    | crl
    | roa
    | manifest
    | gbr => exact .refl _
  | verify x pkey =>
    have hsame : SameRows w (localVerify env w x pkey).2 := SameRows.localVerify w x pkey
    rw [hsame.map_cert _ fun _ => rfl]
  | roaSigval => exact .refl _
  | sameDb hsame => rw [hsame.cert]

theorem Changes.ids_sublist {w w' : World} (h : Changes env w w')
    : (w'.cert.map fun r => r.localId).Sublist (w.cert.map fun r => r.localId) := by
  induction h with
  | refl => exact .refl _
  | tail _ hchange ih => exact hchange.ids_sublist.trans ih

theorem World.UniqueIds.step {w w' : World} (h : w.UniqueIds) (hstep : Step env w w')
    : w'.UniqueIds := by
  cases hstep with
  | change hchange => exact h.sublist hchange.ids_sublist
  | insert n row _ hid =>
    unfold UniqueIds at h ⊢
    rw [((insertAt_perm n row w.cert).map _).nodup_iff, map_cons, nodup_cons]
    refine ⟨?_, h⟩
    intro hmem
    obtain ⟨r, hr, hrid⟩ := List.mem_map.mp hmem
    have hobj : r.toObj ∈ w.objs .cert := List.mem_map_of_mem hr
    have hlt := lt_nextId hobj
    rw [← hid, ← hrid] at hlt
    exact Nat.lt_irrefl _ hlt
  | other hcert =>
    unfold UniqueIds
    rw [hcert]
    exact h

def Keeps (w w' : World) : Prop :=
  ∀ r' ∈ w'.cert, ∃ r ∈ w.cert, r'.ident = r.ident

theorem Keeps.forall_ident {P : CertIdent → Prop} {w w' : World} (hkeeps : Keeps w w')
    (h : ∀ r ∈ w.cert, P r.ident) : ∀ r ∈ w'.cert, P r.ident := by
  intro r' hr'
  obtain ⟨r, hr, heq⟩ := hkeeps r' hr'
  rw [heq]
  exact h r hr

theorem Keeps.refl (w : World) : Keeps w w := fun r hr => ⟨r, hr, rfl⟩

theorem Keeps.trans {w w' w'' : World} (h : Keeps w w') (h' : Keeps w' w'') : Keeps w w'' := by
  intro r'' hr''
  obtain ⟨r', hr', heq'⟩ := h' r'' hr''
  obtain ⟨r, hr, heq⟩ := h r' hr'
  exact ⟨r, hr, heq'.trans heq⟩

def Weakens (w w' : World) : Prop :=
  ∀ r' ∈ w'.cert, ∃ r ∈ w.cert, r'.ident = r.ident
    ∧ (r'.flags.valid = true → r.flags.valid = true)

namespace Weakens

variable {w w' w'' : World}

theorem keeps (h : Weakens w w') : Keeps w w' := by
  intro r' hr'
  obtain ⟨r, hr, heq, _⟩ := h r' hr'
  exact ⟨r, hr, heq⟩

theorem of_cert_eq (hcert : w'.cert = w.cert) : Weakens w w' := by
  intro r hr
  rw [hcert] at hr
  exact ⟨r, hr, rfl, id⟩

theorem trans (h : Weakens w w') (h' : Weakens w' w'') : Weakens w w'' := by
  intro r'' hr''
  obtain ⟨r', hr', heq', hvalid'⟩ := h' r'' hr''
  obtain ⟨r, hr, heq, hvalid⟩ := h r' hr'
  exact ⟨r, hr, heq'.trans heq, fun hv => hvalid (hvalid' hv)⟩

theorem deleteWhere (w : World) (tab : Table) (p : Obj → Bool)
    : Weakens w (w.deleteWhere tab p) := by
  intro r hr
  exact ⟨r, World.mem_deleteWhere_cert hr, rfl, id⟩

end Weakens

end Rpstir.Sqhl
