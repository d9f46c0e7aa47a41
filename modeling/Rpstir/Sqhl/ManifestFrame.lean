import Rpstir.Sqhl.Lemmas.Frame

/-!
This module contains the effect of the update of the objects on a manifest on the objects of other
directories.
-/

namespace Rpstir.Sqhl

open List Option

variable {env : Env}

structure Removed (D : Nat) (fileList : List FileAndHash) (w' : World) (d : CertRow) : Prop where
  dir : d.dirId = D
  listed : ∃ fah ∈ fileList, d.filename = fah.file
  gone : ∀ r ∈ w'.cert, r.localId ≠ d.localId

/--
The frame of the update of the objects on a manifest of the directory `D`, in a database in which no
other directory has an object that is not on a manifest yet and has the name of an entry. A row
outside `D` stays and keeps all its columns, but it is marked if it is below a certificate that had to
be deleted, and it loses the flags that link it to a paracertificate if that was the one.
-/
theorem updateManifestObjs_frame {fuel D : Nat} {w w' : World} {fileList : List FileAndHash}
    {sta : Except Err Unit} (hids : w.UniqueLids)
    (hnames : ∀ fah ∈ fileList, ∀ tab, manifestTable fah.file = some tab → ∀ o ∈ w.objs tab,
      o.filename = fah.file → o.flags.test Flags.onman false = true → o.dirId = D)
    (h : updateManifestObjs env fuel w fileList = some (sta, w')) {tab : Table} {r : Row}
    (hr : r ∈ w.rows tab) (hdir : r.obj.dirId ≠ D)
    : ∃ nochain para, r.withFlags (marked r.obj.flags nochain para) ∈ w'.rows tab
      ∧ (nochain = true → r.BelowGone w (Removed D fileList w'))
      ∧ (para = true → r.SkiGone w (Removed D fileList w')) := by
  have hframe : Frame (fun r => r.obj.dirId ≠ D) (Removed D fileList w') w w' := by
    apply (Frame.refl w).updateManifestObjs hids _ h
    . intro _ _ hkeep hlisted hgone
      exact ⟨not_not.mp hkeep, hlisted, hgone⟩
    intro fah hfah tab htab r hr hname honman hkeep
    apply hkeep
    apply hnames fah hfah tab htab r.obj _ hname honman
    rw [← World.map_obj_rows]
    exact List.mem_map_of_mem hr
  obtain ⟨_, hr', flags, _, rfl, _, hrow⟩ := hframe.forth tab r hr hdir
  obtain ⟨rfl, nochain, para, rfl, hnochain, hpara⟩ := hrow hdir
  exact ⟨nochain, para, hr', hnochain, hpara⟩

def badHashList : List FileAndHash := [⟨"A.cer", [9]⟩]

def badHashChild : CertRow :=
  { (X509.plain "C" "A" 3 2).plainRow "C.cer" Flags.validated 2 with dirId := 2 }

def badHashWorld : World :=
  let w := World.start "/r" (plainFiles [("A.cer", .cert (X509.plain "A" "T" 2 1))]) 50 false
  { w with
    dir := [⟨"/r", 1⟩, ⟨"/s", 2⟩]
    cert := [(X509.plain "A" "T" 2 1).plainRow "A.cer" Flags.validated 1, badHashChild]
    manifest := [{
      filename := "M.mft"
      dirId := 1
      localId := 1
      flags := Flags.validated
      hash := .empty
      ski := "M"
      files := joinFiles badHashList }] }

theorem updateManifestObjs_frame_badHash
    : ∃ w', updateManifestObjs Env.plain 10 badHashWorld badHashList = some (.ok (), w')
      ∧ ∃ nochain para, (Row.cert badHashChild).withFlags (marked badHashChild.flags nochain para)
          ∈ w'.rows .cert
        ∧ (nochain = true → (Row.cert badHashChild).BelowGone badHashWorld (Removed 1 badHashList w'))
        ∧ (para = true → (Row.cert badHashChild).SkiGone badHashWorld (Removed 1 badHashList w')) := by
  have h : (updateManifestObjs Env.plain 10 badHashWorld badHashList).map (fun res =>
      decide (res.1 = .ok ())) = some true := by decide
  obtain ⟨⟨_, w'⟩, hupdate, h⟩ := map_eq_some_iff.mp h
  obtain rfl := of_decide_eq_true h
  have hids : badHashWorld.UniqueLids := by
    intro tab
    cases tab <;> decide
  have hnames : ∀ fah ∈ badHashList, ∀ tab, manifestTable fah.file = some tab
      → ∀ o ∈ badHashWorld.objs tab, o.filename = fah.file
        → o.flags.test Flags.onman false = true → o.dirId = 1 := by
    intro fah hfah tab htab
    cases mem_singleton.mp hfah
    obtain rfl : Table.cert = tab := some.inj htab
    decide
  exact ⟨w', hupdate, updateManifestObjs_frame hids hnames hupdate (World.mem_rows_cert.mpr (by decide))
    (by decide)⟩

theorem updateManifestObjs_marks_outside
    : ∃ w', updateManifestObjs Env.plain 10 badHashWorld badHashList = some (.ok (), w')
      ∧ (∃ m ∈ badHashWorld.manifest, m.dirId = 1)
      ∧ ∃ r ∈ badHashWorld.cert, r.dirId ≠ 1 ∧ r ∉ w'.cert := by
  have h : (updateManifestObjs Env.plain 10 badHashWorld badHashList).map (fun res =>
      decide (res.1 = .ok () ∧ badHashChild ∉ res.2.cert)) = some true := by decide
  obtain ⟨⟨_, w'⟩, hupdate, h⟩ := map_eq_some_iff.mp h
  obtain ⟨rfl, hchild⟩ := of_decide_eq_true h
  exact ⟨w', hupdate, by decide, badHashChild, by decide, by decide, hchild⟩

end Rpstir.Sqhl
