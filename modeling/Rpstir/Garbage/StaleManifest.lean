import Mathlib.Data.List.Nodup
import Rpstir.Garbage.Basic

/-!
This module contains what a run of the garbage collector does to the flags of each object, and when it
marks the objects that stale manifests list.
-/

namespace Rpstir.Garbage

open List Option

theorem rows_mapRows (db : Db) (f : Row → Row) (tab tab' : Table)
    : (db.mapRows f tab).rows tab' = if tab = tab' then (db.rows tab').map f else db.rows tab' := by
  cases tab <;> cases tab' <;> simp [Db.mapRows, Db.rows]

variable {tab : Table}

theorem rows_with_cert (db : Db) (certs : List CertRow) (h : tab ≠ .cert)
    : Db.rows { db with cert := certs } tab = db.rows tab := by
  cases tab with
  | cert => exact absurd rfl h
  | crl
  | gbr
  | roa => rfl

def stalecrlBit : Nat := 5

def stalemanBit : Nat := 6

def Row.isStaleMan (r : Row) : Bool := r.flags.getLsbD stalemanBit

def Row.setStaleMan (isSet : Bool) (r : Row) : Row :=
  { r with flags := r.flags.assign stalemanBit isSet }

theorem test_staleman (flags : Flags) (isSet : Bool)
    : flags.test Flags.staleman isSet = (flags.getLsbD stalemanBit == isSet) := by
  have htest : flags.test Flags.staleman true = flags.getLsbD stalemanBit :=
    Flags.test_twoPow flags stalemanBit (by decide)
  cases isSet with
  | true => simp [htest]
  | false => simp [Flags.test_false_eq_not_test_true, htest]

section Passes

variable {regexp : String → String → Option Bool} {isSet : Bool} {db db' : Db}

def matched (regexp : String → String → Option Bool) (found : List ManifestRow) (r : Row) : Bool :=
  found.any fun m => regexp r.filename m.files = some true

def markRow (regexp : String → String → Option Bool) (isSet : Bool) (found : List ManifestRow)
    (r : Row) : Row :=
  if matched regexp found r then r.setStaleMan isSet else r

theorem updateRow_eq (m : ManifestRow) (r : Row)
    : updateRow regexp isSet m.files r = markRow regexp isSet [m] r := by
  unfold updateRow markRow matched
  rw [test_staleman]
  simp only [any_cons, any_nil, Bool.or_false]
  cases hmatch : decide (regexp r.filename m.files = some true) with
  | false => simp
  | true =>
    cases hflag : r.flags.getLsbD stalemanBit == !isSet with
    | true =>
      simp only [Bool.and_self, if_true, Row.setStaleMan]
      have htest : r.flags.test Flags.staleman (!isSet) = true := by rw [test_staleman, hflag]
      rw [← Flags.add_sub_eq_assign (by decide) htest]
      rfl
    | false =>
      have heq : r.flags.getLsbD stalemanBit = isSet := by
        cases isSet <;> simpa using hflag
      simp only [Bool.false_and, Bool.false_eq_true, if_false, if_true, Row.setStaleMan,
        Flags.assign_of_eq (show stalemanBit < 32 by decide) heq]

def WellFormed (regexp : String → String → Option Bool) (db : Db) (found : List ManifestRow) : Prop :=
  ∀ tab, ∀ r ∈ db.rows tab, ∀ m ∈ found, regexp r.filename m.files ≠ none

theorem filename_markRow (found : List ManifestRow) (r : Row)
    : (markRow regexp isSet found r).filename = r.filename := by
  unfold markRow
  split <;> rfl

theorem dirId_markRow (found : List ManifestRow) (r : Row)
    : (markRow regexp isSet found r).dirId = r.dirId := by
  unfold markRow
  split <;> rfl

variable {found : List ManifestRow} {m : ManifestRow} {f : Row → Row}

theorem matched_congr {r r' : Row} (h : r'.filename = r.filename)
    : matched regexp found r' = matched regexp found r := by
  unfold matched
  rw [h]

theorem markRow_markRow (found found' : List ManifestRow) (r : Row)
    : markRow regexp isSet found' (markRow regexp isSet found r)
      = markRow regexp isSet (found ++ found') r := by
  have happend : matched regexp (found ++ found') r
      = (matched regexp found r || matched regexp found' r) := any_append
  have hset : (r.setStaleMan isSet).setStaleMan isSet = r.setStaleMan isSet := by
    simp only [Row.setStaleMan]
    rw [Flags.assign_of_eq (by decide)]
    rw [Flags.getLsbD_assign _ (by decide), if_pos rfl]
  have hmatch : matched regexp found' (markRow regexp isSet found r) = matched regexp found' r :=
    matched_congr (filename_markRow found r)
  unfold markRow at hmatch ⊢
  rw [happend, hmatch]
  cases matched regexp found r <;> cases matched regexp found' r <;> simp [hset]

theorem updateStaleMan_eq (h : ∀ r ∈ db.rows tab, regexp r.filename m.files ≠ none)
    : updateStaleMan regexp isSet tab m.files db = db.mapRows (markRow regexp isSet [m]) tab := by
  unfold updateStaleMan
  rw [if_neg]
  . congr 1
    funext r
    exact updateRow_eq m r
  . rw [List.any_eq_true]
    rintro ⟨r, hr, htest⟩
    rw [Bool.and_eq_true, decide_eq_true_eq] at htest
    exact h r hr htest.2

def Db.mapAll (db : Db) (f : Row → Row) : Db where
  cert := db.cert.map fun r => { r with toRow := f r.toRow }
  crl := db.crl.map fun r => { r with toRow := f r.toRow }
  gbr := db.gbr.map f
  roa := db.roa.map f
  manifest := db.manifest

theorem rows_mapAll (db : Db) (f : Row → Row) (tab : Table)
    : (db.mapAll f).rows tab = (db.rows tab).map f := by
  cases tab <;> simp [Db.mapAll, Db.rows]

theorem mapAll_mapAll (db : Db) (f g : Row → Row) : (db.mapAll f).mapAll g = db.mapAll (g ∘ f) := by
  simp [Db.mapAll, Function.comp_def]

theorem mapAll_id (db : Db) (h : ∀ r, f r = r) : db.mapAll f = db := by
  obtain rfl : f = id := funext h
  simp [Db.mapAll]

theorem mapRows_all (db : Db) (f : Row → Row)
    : (((db.mapRows f .cert).mapRows f .crl).mapRows f .gbr).mapRows f .roa = db.mapAll f := rfl

theorem handleMan2_some (hwf : ∀ r ∈ db.rows tab, regexp r.filename m.files ≠ none)
    (h : handleMan2 regexp isSet tab m.files db = some db')
    : db' = db.mapRows (markRow regexp isSet [m]) tab := by
  unfold handleMan2 at h
  split at h
  . cases h
    exact updateStaleMan_eq hwf
  . cases h

theorem handleManifest_some (hwf : WellFormed regexp db [m])
    (h : (handleMan2 regexp isSet .cert m.files db >>= handleMan2 regexp isSet .crl m.files
      >>= handleMan2 regexp isSet .gbr m.files >>= handleMan2 regexp isSet .roa m.files) = some db')
    : db' = db.mapAll (markRow regexp isSet [m]) := by
  simp only [bind_eq_bind, bind_eq_some_iff] at h
  obtain ⟨_, ⟨_, ⟨_, hcert, hcrl⟩, hgbr⟩, hroa⟩ := h
  have hwf' (tab : Table) : ∀ r ∈ db.rows tab, regexp r.filename m.files ≠ none :=
    fun r hr => hwf tab r hr m mem_cons_self
  have h1 := handleMan2_some (hwf' .cert) hcert
  subst h1
  -- the other tables are as they were
  have h2 := handleMan2_some (by rw [rows_mapRows]; exact hwf' .crl) hcrl
  subst h2
  have h3 := handleMan2_some (by rw [rows_mapRows, rows_mapRows]; exact hwf' .gbr) hgbr
  subst h3
  have h4 := handleMan2_some (by rw [rows_mapRows, rows_mapRows, rows_mapRows]; exact hwf' .roa) hroa
  rw [h4, mapRows_all]

theorem wellFormed_mapAll (hf : ∀ r, (f r).filename = r.filename) (hwf : WellFormed regexp db found)
    : WellFormed regexp (db.mapAll f) found := by
  intro tab r hr m hm
  rw [rows_mapAll] at hr
  obtain ⟨r₀, hr0, rfl⟩ := List.mem_map.mp hr
  rw [hf]
  exact hwf tab r₀ hr0 m hm

theorem handleManifests_some (hwf : WellFormed regexp db found)
    (h : handleManifests (handleMan2 regexp isSet) found db = some db')
    : db' = db.mapAll (markRow regexp isSet found) := by
  unfold handleManifests at h
  split at h
  . clear * - hwf h
    induction found generalizing db with
    | nil =>
      cases h
      exact (mapAll_id _ fun _ => rfl).symm
    | cons m found ih =>
      rw [foldlM_cons, bind_eq_bind, bind_eq_some_iff] at h
      obtain ⟨_, hm, h⟩ := h
      have heq := handleManifest_some (fun tab r hr m' hm' => hwf tab r hr m' (by
        rw [mem_singleton.mp hm']
        exact mem_cons_self)) hm
      subst heq
      have hwf' : WellFormed regexp db found :=
        fun tab r hr m' hm' => hwf tab r hr m' (mem_cons_of_mem _ hm')
      rw [ih (wellFormed_mapAll (filename_markRow [m]) hwf') h, mapAll_mapAll]
      congr 1
      funext r
      exact markRow_markRow [m] found r
  . cases h

def Db.staleManifests (db : Db) (now : Nat) : List ManifestRow :=
  db.manifest.filter fun m => m.nextUpd ≤ now

def Db.currentManifests (db : Db) (now : Nat) : List ManifestRow :=
  db.manifest.filter fun m => now < m.nextUpd

def markTwice (regexp : String → String → Option Bool) (db : Db) (now : Nat) (r : Row) : Row :=
  markRow regexp false (db.currentManifests now) (markRow regexp true (db.staleManifests now) r)

theorem markStaleManifests_some {now : Nat} (hwf : WellFormed regexp db db.manifest)
    (h : markStaleManifests regexp now db = some db')
    : db' = db.mapAll (markTwice regexp db now) := by
  simp only [markStaleManifests, bind_eq_bind, bind_eq_some_iff] at h
  obtain ⟨_, hstale, hcurrent⟩ := h
  have hwf' {p : ManifestRow → Bool} : WellFormed regexp db (db.manifest.filter p) :=
    fun tab r hr m hm => hwf tab r hr m (mem_of_mem_filter hm)
  have h1 := handleManifests_some hwf' hstale
  subst h1
  rw [handleManifests_some (wellFormed_mapAll (filename_markRow _) hwf') hcurrent, mapAll_mapAll]
  rfl

theorem isStaleMan_markRow (found : List ManifestRow) (r : Row)
    : (markRow regexp isSet found r).isStaleMan
      = if matched regexp found r then isSet else r.isStaleMan := by
  unfold markRow
  split
  . rw [Row.isStaleMan, Row.setStaleMan, Flags.getLsbD_assign _ (by decide), if_pos rfl]
  . rfl

theorem getLsbD_markRow (found : List ManifestRow) (r : Row) {j : Nat} (hj : j ≠ stalemanBit)
    : (markRow regexp isSet found r).flags.getLsbD j = r.flags.getLsbD j := by
  unfold markRow
  split
  . rw [Row.setStaleMan, Flags.getLsbD_assign _ (by decide), if_neg hj.symm]
  . rfl

theorem isStaleMan_markTwice (now : Nat) (r : Row)
    : (markTwice regexp db now r).isStaleMan
      = ((r.isStaleMan || matched regexp (db.staleManifests now) r)
        && !matched regexp (db.currentManifests now) r) := by
  unfold markTwice
  rw [isStaleMan_markRow, matched_congr (filename_markRow _ r), isStaleMan_markRow]
  cases matched regexp (db.currentManifests now) r <;>
  cases matched regexp (db.staleManifests now) r <;> simp

end Passes

section StaleCrl

structure SameButStaleCrl (r r' : CertRow) : Prop where
  filename : r'.filename = r.filename
  dirId : r'.dirId = r.dirId
  localId : r'.localId = r.localId
  flags : ∀ j, j ≠ stalecrlBit → r'.flags.getLsbD j = r.flags.getLsbD j

theorem SameButStaleCrl.refl (r : CertRow) : SameButStaleCrl r r := ⟨rfl, rfl, rfl, fun _ _ => rfl⟩

theorem SameButStaleCrl.trans {r r' r'' : CertRow} (h : SameButStaleCrl r r')
    (h' : SameButStaleCrl r' r'') : SameButStaleCrl r r'' where
  filename := h'.filename.trans h.filename
  dirId := h'.dirId.trans h.dirId
  localId := h'.localId.trans h.localId
  flags := fun j hj => (h'.flags j hj).trans (h.flags j hj)

theorem sameButStaleCrl_assign (r : CertRow) {flags : Flags} {isSet : Bool}
    (h : flags = r.flags.assign stalecrlBit isSet) : SameButStaleCrl r { r with flags := flags } where
  filename := rfl
  dirId := rfl
  localId := rfl
  flags := by
    intro _ hj
    rw [h, Flags.getLsbD_assign _ (by decide), if_neg hj.symm]

def OnlyStaleCrl (db db' : Db) : Prop :=
  ∃ f : CertRow → CertRow, db' = { db with cert := db.cert.map f }
    ∧ ∀ r ∈ db.cert, SameButStaleCrl r (f r)

theorem OnlyStaleCrl.refl (db : Db) : OnlyStaleCrl db db :=
  ⟨id, by simp, fun r _ => .refl r⟩

theorem OnlyStaleCrl.trans {db db' db'' : Db} (h : OnlyStaleCrl db db') (h' : OnlyStaleCrl db' db'')
    : OnlyStaleCrl db db'' := by
  obtain ⟨f, rfl, hf⟩ := h
  obtain ⟨g, rfl, hg⟩ := h'
  refine ⟨g ∘ f, by simp, ?_⟩
  intro r hr
  exact (hf r hr).trans (hg (f r) (List.mem_map_of_mem hr))

theorem onlyStaleCrl_handleIfStale (db : Db) (issuer : String) (aki : Option String) (cnt : Nat)
    : OnlyStaleCrl db (handleIfStale db issuer aki cnt) := by
  unfold handleIfStale
  split
  . exact .refl db
  refine ⟨_, rfl, ?_⟩
  intro r _
  split
  . next h =>
    rw [Bool.and_eq_true, Bool.and_eq_true] at h
    exact sameButStaleCrl_assign r (@Flags.add_sub_eq_assign _ stalecrlBit (by decide) true h.1.2)
  . exact .refl r

theorem onlyStaleCrl_markStaleCrls (now : Nat) (db : Db) : OnlyStaleCrl db (markStaleCrls now db) := by
  unfold markStaleCrls
  generalize db.crl.filter (fun c => decide (c.nextUpd ≤ now)) = found
  induction found generalizing db with
  | nil => exact .refl db
  | cons c found ih => exact (onlyStaleCrl_handleIfStale db _ _ _).trans (ih _)

theorem onlyStaleCrl_foldl {now : Nat} {db : Db} {found : List CertRow}
    (hids : (found.map CertRow.localId).Nodup)
    (hset : ∀ r ∈ db.cert, ∀ c ∈ found, c.localId = r.localId → r.flags.test Flags.stalecrl true = true)
    : OnlyStaleCrl db (found.foldl (fun db r =>
        handleIfCurrent db r.localId (countCurrentCRLs db now r.issuer r.aki)) db) := by
  induction found generalizing db with
  | nil => exact .refl db
  | cons c found ih =>
    rw [map_cons, nodup_cons] at hids
    rw [foldl_cons]
    generalize countCurrentCRLs db now c.issuer c.aki = cnt
    unfold handleIfCurrent
    split
    . exact ih hids.2 fun r hr c' hc' => hset r hr c' (mem_cons_of_mem _ hc')
    have hstep : OnlyStaleCrl db { db with
        cert := db.cert.map fun r =>
          if r.localId = c.localId then { r with flags := r.flags - Flags.stalecrl } else r } := by
      refine ⟨_, rfl, ?_⟩
      intro r hr
      split
      . next hid =>
        have htest := hset r hr c mem_cons_self hid.symm
        exact sameButStaleCrl_assign r
          (@Flags.add_sub_eq_assign _ stalecrlBit (by decide) false htest)
      . exact .refl r
    apply hstep.trans
    apply ih hids.2
    intro r hr c' hc' hid
    obtain ⟨r₀, hr0, rfl⟩ := List.mem_map.mp hr
    split at hid
    . next hc =>
      have hmem : c'.localId ∈ found.map CertRow.localId := List.mem_map_of_mem hc'
      rw [hid] at hmem
      exact absurd (hc ▸ hmem) hids.1
    . next hc =>
      rw [if_neg hc]
      exact hset r₀ hr0 c' (mem_cons_of_mem _ hc') hid

theorem onlyStaleCrl_recheckCerts {now : Nat} {db : Db} (hids : (db.cert.map CertRow.localId).Nodup)
    : OnlyStaleCrl db (recheckCerts now db) := by
  apply onlyStaleCrl_foldl
  . exact hids.sublist (filter_sublist.map _)
  . intro _ hr _ hc hid
    obtain ⟨hc, htest⟩ := mem_filter.mp hc
    rw [← inj_on_of_nodup_map hids hc hr hid]
    exact htest

end StaleCrl

def ListedIn (found : List ManifestRow) (r : Row) : Prop :=
  ∃ m ∈ found, m.dirId = r.dirId ∧ r.filename ∈ m.fileList

structure Marked (db : Db) (now : Nat) (r r' : Row) : Prop where
  filename : r'.filename = r.filename
  dirId : r'.dirId = r.dirId
  staleman : r'.isStaleMan = true
    ↔ (r.isStaleMan = true ∨ ListedIn (db.staleManifests now) r)
      ∧ ¬ListedIn (db.currentManifests now) r
  flags : ∀ j, j ≠ stalecrlBit → j ≠ stalemanBit → r'.flags.getLsbD j = r.flags.getLsbD j

def Agrees (regexp : String → String → Option Bool) (db : Db) (now : Nat) (r : Row) : Prop :=
  (r.isStaleMan = true → (matched regexp (db.currentManifests now) r = true
      ↔ ListedIn (db.currentManifests now) r))
    ∧ (r.isStaleMan = false → (matched regexp (db.staleManifests now) r = true
        ∧ matched regexp (db.currentManifests now) r = false
      ↔ ListedIn (db.staleManifests now) r ∧ ¬ListedIn (db.currentManifests now) r))

section Run

variable {regexp : String → String → Option Bool} {db db' : Db} {now : Nat}

structure Updated (regexp : String → String → Option Bool) (db : Db) (now : Nat) (r r' : Row) : Prop where
  filename : r'.filename = r.filename
  dirId : r'.dirId = r.dirId
  staleman : r'.isStaleMan = (markTwice regexp db now r).isStaleMan
  flags : ∀ j, j ≠ stalecrlBit → j ≠ stalemanBit → r'.flags.getLsbD j = r.flags.getLsbD j

theorem updated_markTwice (r : Row) : Updated regexp db now r (markTwice regexp db now r) where
  filename := (filename_markRow _ _).trans (filename_markRow _ r)
  dirId := (dirId_markRow _ _).trans (dirId_markRow _ r)
  staleman := rfl
  flags := fun _ _ hj => (getLsbD_markRow _ _ hj).trans (getLsbD_markRow _ r hj)

theorem marked_iff_agrees {r r' : Row} (h : Updated regexp db now r r')
    : Marked db now r r' ↔ Agrees regexp db now r := by
  have hstale := h.staleman
  rw [isStaleMan_markTwice] at hstale
  have hiff : (r'.isStaleMan = true ↔ (r.isStaleMan = true ∨ ListedIn (db.staleManifests now) r)
      ∧ ¬ListedIn (db.currentManifests now) r) ↔ Agrees regexp db now r := by
    rw [hstale, Agrees]
    cases r.isStaleMan <;> cases matched regexp (db.staleManifests now) r <;>
    cases matched regexp (db.currentManifests now) r <;> simp
  rw [← hiff]
  exact ⟨fun hm => hm.staleman, fun hm => ⟨h.filename, h.dirId, hm, h.flags⟩⟩

theorem updated_cert {r r1 r2 : CertRow} {row : Row} (h1 : SameButStaleCrl r r1)
    (hrow : row = markTwice regexp db now r1.toRow) (h2 : SameButStaleCrl { r1 with toRow := row } r2)
    : Updated regexp db now r.toRow r2.toRow := by
  have hmark := @updated_markTwice regexp db now r1.toRow
  rw [← hrow] at hmark
  refine ⟨h2.filename.trans (hmark.filename.trans h1.filename),
    h2.dirId.trans (hmark.dirId.trans h1.dirId), ?_, ?_⟩
  . have hflag : r2.toRow.isStaleMan = row.isStaleMan := h2.flags stalemanBit (by decide)
    have hflag1 : r1.toRow.isStaleMan = r.toRow.isStaleMan := h1.flags stalemanBit (by decide)
    rw [hflag, hrow, isStaleMan_markTwice, isStaleMan_markTwice, hflag1, matched_congr h1.filename,
      matched_congr h1.filename]
  . intro j hj hj'
    exact (h2.flags j hj).trans ((hmark.flags j hj hj').trans (h1.flags j hj))

theorem garbage_rows (hwf : WellFormed regexp db db.manifest)
    (hids : (db.cert.map CertRow.localId).Nodup) (h : garbage regexp now db = some db') (tab : Table)
    : List.Forall₂ (Updated regexp db now) (db.rows tab) (db'.rows tab) := by
  simp only [garbage, bind_eq_bind, bind_eq_some_iff] at h
  obtain ⟨db1, hmark, hrecheck⟩ := h
  cases hrecheck
  obtain ⟨f, hcrl, hf⟩ := onlyStaleCrl_markStaleCrls now db
  rw [hcrl] at hmark
  have hwf' : WellFormed regexp { db with cert := db.cert.map f } db.manifest := by
    intro tab r hr
    by_cases htab : tab = .cert
    . subst htab
      simp only [Db.rows, List.map_map, List.mem_map, Function.comp_apply] at hr
      obtain ⟨r₀, hr0, rfl⟩ := hr
      rw [(hf r₀ hr0).filename]
      exact hwf .cert _ (List.mem_map_of_mem hr0)
    . rw [rows_with_cert db _ htab] at hr
      exact hwf tab r hr
  have hdb1 := markStaleManifests_some hwf' hmark
  have hids' : (db1.cert.map CertRow.localId).Nodup := by
    have heq : db1.cert.map CertRow.localId = db.cert.map CertRow.localId := by
      rw [hdb1]
      simp only [Db.mapAll, List.map_map]
      exact map_congr_left fun r hr => (hf r hr).localId
    rw [heq]
    exact hids
  obtain ⟨_, hrecheck, hg⟩ := @onlyStaleCrl_recheckCerts now db1 hids'
  rw [hrecheck]
  by_cases htab : tab = .cert
  . subst htab
    have hcert : db1.cert = db.cert.map fun r =>
        { f r with toRow := markTwice regexp db now (f r).toRow } := by
      rw [hdb1]
      simp only [Db.mapAll, List.map_map]
      rfl
    rw [hcert] at hg
    simp only [Db.rows, hcert, List.map_map]
    rw [forall₂_map_left_iff, forall₂_map_right_iff, forall₂_same]
    intro r hr
    exact updated_cert (hf r hr) rfl (hg _ (List.mem_map_of_mem hr))
  have hrows : db1.rows tab = (db.rows tab).map (markTwice regexp db now) := by
    rw [hdb1, rows_mapAll, rows_with_cert db _ htab]
    rfl
  rw [rows_with_cert db1 _ htab, hrows, forall₂_map_right_iff, forall₂_same]
  exact fun r _ => updated_markTwice r

/--
The objects that a run marks are those on a stale manifest if and only if, as far as the marks go, the
regular expressions select the objects that the manifests list.
-/
theorem garbage_staleMan (hwf : WellFormed regexp db db.manifest)
    (hids : (db.cert.map CertRow.localId).Nodup) (h : garbage regexp now db = some db')
    : (∀ tab, List.Forall₂ (Marked db now) (db.rows tab) (db'.rows tab))
      ↔ ∀ tab, ∀ r ∈ db.rows tab, Agrees regexp db now r := by
  apply forall_congr'
  intro tab
  have hrows := garbage_rows hwf hids h tab
  generalize db.rows tab = rows, db'.rows tab = rows' at hrows ⊢
  induction hrows with
  | nil => simp
  | cons hupdated _ ih =>
    rw [forall₂_cons, forall_mem_cons]
    exact and_congr (marked_iff_agrees hupdated) ih

end Run

def matchHere : List Char → List Char → Bool
  | [], _ => true
  | _ :: _, [] => false
  | p :: pattern, c :: text => (p = '.' || p = c) && matchHere pattern text

def dotRegexp (pattern text : String) : Option Bool :=
  some (text.toList.tails.any (matchHere pattern.toList))

def staleDb : Db where
  cert := [⟨⟨"a.cer", 1, Flags.validated⟩, 1, "CN=A", none⟩, ⟨⟨"b.cer", 2, Flags.validated⟩, 2, "CN=B", none⟩]
  crl := [⟨⟨"a.crl", 1, Flags.validated⟩, "CN=A", none, 8⟩]
  gbr := []
  roa := [⟨"b.roa", 2, Flags.validated ||| Flags.staleman⟩]
  manifest := [⟨1, ["a.crl", "a.cer"], 5⟩, ⟨2, ["b.cer", "b.roa"], 20⟩]

theorem garbage_staleMan_staleDb
    : ∃ db', garbage dotRegexp 10 staleDb = some db'
      ∧ ∀ tab, List.Forall₂ (Marked staleDb 10) (staleDb.rows tab) (db'.rows tab) := by
  have hrun : (garbage dotRegexp 10 staleDb).isSome = true := by decide +kernel
  obtain ⟨db', h⟩ := isSome_iff_exists.mp hrun
  refine ⟨db', h, (garbage_staleMan ?_ (by decide) h).mpr ?_⟩
  . intro tab _ _ _ _
    simp [dotRegexp]
  . intro tab
    cases tab <;> simp only [Agrees, ListedIn] <;> decide +kernel

def namesakeDb : Db where
  cert := []
  crl := []
  gbr := []
  roa := [⟨"ab.roa", 1, Flags.validated⟩, ⟨"ab.roa", 2, Flags.validated⟩, ⟨"b.roa", 1, Flags.validated⟩]
  manifest := [⟨1, ["ab.roa"], 5⟩]

theorem garbage_marks_namesake
    : ∃ db', garbage dotRegexp 10 namesakeDb = some db'
      ∧ db'.rows .roa = (namesakeDb.rows .roa).map (Row.setStaleMan true)
      ∧ ¬∀ tab, List.Forall₂ (Marked namesakeDb 10) (namesakeDb.rows tab) (db'.rows tab) := by
  have hrun : (garbage dotRegexp 10 namesakeDb).map (fun db' => db'.rows .roa)
      = some ((namesakeDb.rows .roa).map (Row.setStaleMan true)) := by
    decide +kernel
  obtain ⟨db', h, hroa⟩ := map_eq_some_iff.mp hrun
  refine ⟨db', h, hroa, ?_⟩
  intro hmarked
  have hrows := hmarked .roa
  rw [hroa, forall₂_map_right_iff, forall₂_same] at hrows
  have hother := (hrows ⟨"ab.roa", 2, Flags.validated⟩ (by decide)).staleman.mp (by decide)
  simp only [ListedIn] at hother
  revert hother
  decide

end Rpstir.Garbage
