import Rpstir.Sqhl.Lemmas.Rows
import Rpstir.Sqhl.ManifestNames

/-!
This module contains the two ways in which the table of an object follows from its file name.
-/

namespace Rpstir.Sqhl

open List Option

def ObjType.table : ObjType → Table
  | cer => .cert
  | crl => .crl
  | roa => .roa
  | man => .manifest
  | gbr => .gbr
  | unknown => .cert

-- the switch of `add_object`
def addObject.add (env : Env) (fuel : Nat) (w : World) (outfile outdir outfull : String) (id : Nat)
    (utrust : Bool) : ObjType → Option (Except Err Unit × World)
  | .cer | .unknown =>
    (addCert env fuel w outfile outfull id utrust false).map fun res => (res.1.map fun _ => (), res.2)
  | .crl => addCrl env fuel w outfile outfull id
  | .roa => addRoa env fuel w outfile outdir outfull id utrust
  | .man => addManifest env fuel w outfile outdir outfull id utrust
  | .gbr => addGhostbusters env fuel w outfile outdir outfull id utrust

def addObject (env : Env) (fuel : Nat) (w : World) (outfile outdir outfull : String) (utrust : Bool)
    : Option (Except Err Unit × World) :=
  let w := { w with useParacerts := false }
  -- `isokfile`
  if (w.fs outfull).isNone then
    some (.error .coFile, w)
  else
    let (id, w) := findorcreatedir w outdir
    addObject.add env fuel w outfile outdir outfull id utrust (inferFiletype outfull)

def Obj.key (o : Obj) : String × Nat × Nat := (o.filename, o.dirId, o.localId)

def World.keys (w : World) (tab : Table) : List (String × Nat × Nat) :=
  (w.objs tab).map Obj.key

def NewRows (P : Table → String → Prop) (w w' : World) : Prop :=
  ∀ tab, ∀ k ∈ w'.keys tab, k ∈ w.keys tab ∨ P tab k.1

namespace NewRows

variable {P : Table → String → Prop} {env : Env} {w w' w'' : World} {fuel id : Nat}
variable {outfile outdir outfull : String} {utrust : Bool}

variable {res : Except Err Unit}

theorem refl (w : World) : NewRows P w w :=
  fun _ _ hk => .inl hk

theorem trans (h : NewRows P w w') (h' : NewRows P w' w'') : NewRows P w w'' := by
  intro tab k hk
  rcases h' tab k hk with hk' | hP
  . exact h tab k hk'
  . exact .inr hP

theorem sameKeys (h : ∀ tab, w'.keys tab = w.keys tab) : NewRows P w w' := by
  intro tab _ hk
  rw [h tab] at hk
  exact .inl hk

theorem sameObjs (h : ∀ tab, w'.objs tab = w.objs tab) : NewRows P w w' := by
  apply sameKeys
  intro tab
  rw [World.keys, World.keys, h tab]

theorem sameRows (h : SameRows w w') : NewRows P w w' := by
  apply sameObjs
  intro tab
  cases tab with
  | cert => exact h.map_cert CertRow.toObj fun _ => rfl
  | crl => exact congrArg (List.map CrlRow.toObj) h.crl
  | roa =>
    have hroa := congrArg (List.map RoaRow.toObj) h.roa
    rwa [List.map_map, List.map_map] at hroa
  | manifest => exact congrArg (List.map ManifestRow.toObj) h.manifest
  | gbr => exact congrArg (List.map GbrRow.toObj) h.gbr

theorem change (h : Change env w w') : NewRows P w w' := by
  cases h with
  | update tab _ _ hf =>
    apply sameKeys
    intro tab'
    unfold World.keys
    by_cases htab : tab' = tab
    . rw [htab, World.objs_updateByLid, List.map_map]
      apply map_congr_left
      intro o _
      rcases hf o with ⟨_, _, heq⟩
      simp only [Function.comp_apply]
      split
      . rw [heq]
        rfl
      . rfl
    . rw [World.objs_updateByLid_of_ne _ _ _ _ htab]
  | delete tab =>
    intro tab' _ hk
    left
    rcases List.mem_map.mp hk with ⟨o, ho, rfl⟩
    apply List.mem_map_of_mem
    by_cases htab : tab' = tab
    . rw [htab, World.objs_deleteWhere] at ho
      rw [htab]
      exact (mem_filter.mp ho).1
    . rwa [World.objs_deleteWhere_of_ne _ _ _ htab] at ho
  | verify x pkey => exact sameRows (.localVerify w x pkey)
  | roaSigval ski valu => exact sameRows (.setRoaSigval w ski valu)
  | sameDb h => exact sameRows h.sameRows

theorem changes (h : Changes env w w') : NewRows P w w' := by
  induction h with
  | refl => exact refl w
  | tail _ h ih => exact ih.trans (change h)

theorem insert {tab : Table} {o : Obj} (hother : ∀ tab', tab' = tab ∨ w'.objs tab' = w.objs tab')
    (hmem : ∀ o' ∈ w'.objs tab, o' = o ∨ o' ∈ w.objs tab) (hP : P tab o.filename)
    : NewRows P w w' := by
  intro tab' _ hk
  rcases hother tab' with htab | hsame
  . rcases List.mem_map.mp hk with ⟨o', ho', rfl⟩
    rw [htab] at ho' ⊢
    rcases hmem o' ho' with rfl | hold
    . exact .inr hP
    . exact .inl (List.mem_map_of_mem hold)
  . rw [World.keys, hsame] at hk
    exact .inl hk

theorem mem_map_insertAt {α : Type} {f : α → Obj} {n : Nat} {a : α} {l : List α}
    : ∀ o ∈ (insertAt n a l).map f, o = f a ∨ o ∈ l.map f := by
  intro o ho
  rcases List.mem_map.mp ho with ⟨_, hb, rfl⟩
  rcases mem_insertAt.mp hb with rfl | hb
  . exact .inl rfl
  . exact .inr (List.mem_map_of_mem hb)

theorem traversal : Traversal env P (NewRows P) where
  refl := refl
  trans := trans
  changes := changes
  other _ _ h := sameObjs h
  insertCert _ row _ _ hP :=
    @insert P _ _ .cert row.toObj (by rintro ⟨⟩ <;> simp [World.objs]) mem_map_insertAt hP
  insertCrl _ row hP :=
    @insert P _ _ .crl row.toObj (by rintro ⟨⟩ <;> simp [World.objs]) mem_map_insertAt hP
  insertRoa _ row hP :=
    @insert P _ _ .roa row.toObj (by rintro ⟨⟩ <;> simp [World.objs]) mem_map_insertAt hP
  insertManifest _ row hP :=
    @insert P _ _ .manifest row.toObj (by rintro ⟨⟩ <;> simp [World.objs]) mem_map_insertAt hP
  insertGbr _ row hP :=
    @insert P _ _ .gbr row.toObj (by rintro ⟨⟩ <;> simp [World.objs]) mem_map_insertAt hP

theorem addObject_add {typ : ObjType}
    (h : addObject.add env fuel w outfile outdir outfull id utrust typ = some (res, w'))
    (hP : P typ.table outfile) (hcert : P .cert (outfile ++ ".cer")) : NewRows P w w' := by
  have hcertificate (hP : P .cert outfile)
      (h : addObject.add env fuel w outfile outdir outfull id utrust .cer = some (res, w'))
      : NewRows P w w' := by
    obtain ⟨⟨_, _⟩, hadd, heq⟩ := map_eq_some_iff.mp h
    cases heq
    exact traversal.addCert hadd hP
  cases typ with
  | cer
  | unknown => exact hcertificate hP h
  | crl => exact traversal.addCrl h hP
  | roa => exact traversal.addRoa hcert h hP
  | man => exact traversal.addManifest hcert h hP
  | gbr => exact traversal.addGhostbusters hcert h hP

theorem addObject (h : addObject env fuel w outfile outdir outfull utrust = some (res, w'))
    (hP : P (inferFiletype outfull).table outfile) (hcert : P .cert (outfile ++ ".cer"))
    : NewRows P w w' := by
  have hparacerts : NewRows P w { w with useParacerts := false } :=
    sameObjs fun tab => by cases tab <;> rfl
  apply hparacerts.trans
  unfold Sqhl.addObject at h
  dsimp only at h
  split at h
  . cases h
    exact refl _
  . exact ((@traversal P env).findorcreatedir _ outdir).trans (addObject_add h hP hcert)

end NewRows

def StoredIn (name : String) (tab : Table) : Prop :=
  ∃ env fuel w outdir utrust res w',
    addObject env fuel w name outdir (outdir ++ "/" ++ name) utrust = some (res, w') ∧
      ∃ k ∈ w'.keys tab, k.1 = name ∧ k ∉ w.keys tab

section Infer

variable {name : String} {tab : Table}

theorem suffix_path_iff {sfx dir name : List Char} (h : '/' ∉ sfx)
    : sfx <:+ dir ++ '/' :: name ↔ sfx <:+ name := by
  constructor
  . intro hsuffix
    rcases suffix_or_suffix_of_suffix hsuffix (suffix_append dir ('/' :: name)) with hs | hs
    . rcases suffix_cons_iff.mp hs with rfl | hs
      . exact absurd mem_cons_self h
      . exact hs
    . exact absurd (hs.subset mem_cons_self) h
  . intro hsuffix
    exact hsuffix.trans ((suffix_cons '/' name).trans (suffix_append dir _))

theorem endsWith_path {sfx : String} (h : '/' ∉ sfx.toList) (outdir name : String)
    : endsWith (outdir ++ "/" ++ name) sfx = endsWith name sfx := by
  rw [Bool.eq_iff_iff, endsWith, endsWith, isSuffixOf_iff_suffix, isSuffixOf_iff_suffix]
  rw [String.toList_append, String.toList_append, append_assoc]
  exact suffix_path_iff h

theorem inferFiletype_path (outdir name : String)
    : inferFiletype (outdir ++ "/" ++ name) = inferFiletype name := by
  have hrules : ∀ rule ∈ filetypeRules, '/' ∉ rule.1.toList := by decide
  have hfind : filetypeRules.find? (fun rule => endsWith (outdir ++ "/" ++ name) rule.1)
      = filetypeRules.find? fun rule => endsWith name rule.1 := by
    generalize filetypeRules = rules at hrules
    induction rules with
    | nil => rfl
    | cons rule rules ih =>
      rw [forall_mem_cons] at hrules
      rw [find?_cons, find?_cons, endsWith_path hrules.1, ih hrules.2]
  rw [inferFiletype, inferFiletype, hfind]

theorem eq_table_of_storedIn (h : StoredIn name tab) : tab = (inferFiletype name).table := by
  rcases h with ⟨_, _, _, _, _, _, _, hadd, k, hk, hname, hnew⟩
  have hrows := NewRows.addObject
    (P := fun tab k => (tab = (inferFiletype name).table ∧ k = name) ∨ k = name ++ ".cer") hadd
    (.inl ⟨by rw [inferFiletype_path], rfl⟩) (.inr rfl)
  rcases hrows tab k hk with hold | ⟨htab, -⟩ | hcer
  . exact absurd hold hnew
  . exact htab
  . have hlength := congrArg String.length (hname.symm.trans hcer)
    rw [String.length_append] at hlength
    have hpos : (".cer" : String).length = 4 := by decide
    omega

def sampleCms : Cms where
  cert := some (X509.plain "E" "T" 2 1)
  certIndefLth := false
  certExtKeyUsage := false
  ski := some "E"
  signature := some "S"
  asID := 64496
  prefixes := some []
  fileList := []
  body := 2

def emptyTables (dir : List DirRow) (fs : String → Option File) : World :=
  { World.start "" fs 50 false with dir := dir, useParacerts := false }

def sampleCert : X509 := X509.plain "E" "T" 2 1

def sampleCertRow (filename : String) (dirId : Nat) : CertRow where
  filename := filename
  dirId := dirId
  localId := 1
  flags := Flags.ca ||| Flags.nochain
  hash := .empty
  subject := "E"
  issuer := "T"
  sn := replicate 19 0 ++ [2]
  ski := "E"
  aki := some "T"
  sig := "E2"
  valfrom := 0
  valto := 100
  sigval := .unknown

theorem addCert2_sample {dir : List DirRow} {fs : String → Option File} {path filename : String}
    {cf : CertFields} (hcf : cert2fields filename sampleCert = .ok cf)
    (hfs : fs path = some (.cert sampleCert)) (id : Nat)
    : addCert2 Env.plain 10 (emptyTables dir fs) cf sampleCert id false path
        =
      some (.ok (sampleCertRow filename id),
        { emptyTables dir fs with
          cert := [sampleCertRow filename id], certSrch := .parent "" "" }) := by
  have hcheck : addCert2.check Env.plain (emptyTables dir fs) cf sampleCert false path
      = .ok Flags.ca := by
    cases hcf
    unfold addCert2.check
    rw [show (emptyTables dir fs).fs path = some (.cert sampleCert) from hfs]
    rfl
  unfold addCert2
  rw [hcheck]
  cases hcf
  rfl

def withEE (fs : String → Option File) (name : String) : World :=
  { emptyTables [⟨"", 1⟩, ⟨"/EEcertificates", 2⟩] fs with
    cert := [sampleCertRow (name ++ ".cer") 2], certSrch := .parent "" "" }

theorem extractAndAddCert_sample (name : String) (isRoa : Bool)
    : ∃ fs, extractAndAddCert Env.plain 10 (emptyTables [⟨"", 1⟩] fun _ => some (.cms sampleCms))
          sampleCms "" false isRoa name
        =
      some (.ok ⟨"E", false⟩, withEE fs name) := by
  refine ⟨fun p => if p = "/EEcertificates" ++ "/" ++ (name ++ ".cer") then
    some (.cert sampleCert) else some (.cms sampleCms), ?_⟩
  have hadd := @addCert2_sample [⟨"", 1⟩, ⟨"/EEcertificates", 2⟩]
    (fun p => if p = "/EEcertificates" ++ "/" ++ (name ++ ".cer") then
      some (.cert sampleCert) else some (.cms sampleCms))
    ("/EEcertificates" ++ "/" ++ (name ++ ".cer")) (name ++ ".cer") _ rfl (if_pos rfl) 2
  show (addCert2 Env.plain 10 _ _ _ 2 false _ >>= _) = _
  erw [hadd]
  show some (Except.ok (EECert.mk "E" ((Flags.ca ||| Flags.nochain).has Flags.validated)), _) = _
  rfl

theorem verifyRoa_sample (fs : String → Option File) (name : String)
    : verifyRoa Env.plain (withEE fs name) sampleCms (some "E")
        =
      (⟨.ok (), false⟩, withEE fs name) := by
  have hvalid : (Flags.ca ||| Flags.nochain).valid = false := by decide
  have hrow : (withEE fs name).cert.filter (isParentRow (some "E") none) = [] := by
    simp [withEE, isParentRow, sampleCertRow, hvalid]
  have hparent : parentCert (withEE fs name) (some "E") none = (none, withEE fs name) := by
    unfold parentCert findParentCert
    rw [show (withEE fs name).initParentSrch = withEE fs name from rfl]
    dsimp only
    rw [hrow]
    rfl
  unfold verifyRoa
  rw [hparent]
  rfl

theorem addRoa_insert_sample (fs : String → Option File) (name outfull : String)
    : ∃ w', addRoa.insert Env.plain (withEE fs name) sampleCms "E" name outfull 1 = (.ok (), w') ∧
        w'.keys .roa = [(name, 1, 1)] := by
  unfold addRoa.insert
  simp only [verifyRoa_sample]
  exact ⟨_, rfl, rfl⟩

theorem storedIn_of_add {f : File} {k : String × Nat × Nat}
    (h : ∃ w', addObject.add Env.plain 10 (emptyTables [⟨"", 1⟩] fun _ => some f) name ""
      ("" ++ "/" ++ name) 1 false (inferFiletype name) = some (.ok (), w') ∧ w'.keys tab = [k])
    (hname : k.1 = name) : StoredIn name tab := by
  rcases h with ⟨w', hadd, hkeys⟩
  refine ⟨Env.plain, 10, World.start "" (fun _ => some f) 50 false, "", false, .ok (), w', ?_, k, ?_,
    hname, ?_⟩
  . rw [← inferFiletype_path ""] at hadd
    exact hadd
  . rw [hkeys]
    exact mem_singleton_self k
  . cases tab <;> exact not_mem_nil

theorem storedIn_table (name : String) : StoredIn name (inferFiletype name).table := by
  have hcert (h : inferFiletype name = .cer ∨ inferFiletype name = .unknown)
      : StoredIn name .cert := by
    apply @storedIn_of_add name .cert (.cert sampleCert) (name, 1, 1) _ rfl
    rcases h with h | h
    . rw [h]
      exact ⟨_, rfl, rfl⟩
    . rw [h]
      exact ⟨_, rfl, rfl⟩
  cases h : inferFiletype name with
  | cer => exact hcert (.inl h)
  | unknown => exact hcert (.inr h)
  | crl =>
    apply @storedIn_of_add name .crl (.crl X509Crl.plain) (name, 1, 1) _ rfl
    rw [h]
    exact ⟨_, rfl, rfl⟩
  | roa =>
    apply @storedIn_of_add name .roa (.cms sampleCms) (name, 1, 1) _ rfl
    rcases extractAndAddCert_sample name true with ⟨fs, hextract⟩
    rcases addRoa_insert_sample fs name ("" ++ "/" ++ name) with ⟨w', hinsert, hkeys⟩
    refine ⟨w', ?_, hkeys⟩
    rw [h]
    show (extractAndAddCert Env.plain 10 (emptyTables [⟨"", 1⟩] fun _ => some (.cms sampleCms))
      sampleCms "" false true name >>= _) = _
    rw [hextract]
    show deleteAddedCert 10
      (addRoa.insert Env.plain (withEE fs name) sampleCms "E" name ("" ++ "/" ++ name) 1).2 name ""
      (addRoa.insert Env.plain (withEE fs name) sampleCms "E" name ("" ++ "/" ++ name) 1).1 = _
    rw [hinsert]
    rfl
  | man
  | gbr =>
    apply @storedIn_of_add name _ (.cms sampleCms) (name, 1, 1) _ rfl
    rcases extractAndAddCert_sample name false with ⟨fs, hextract⟩
    rw [h]
    exact ⟨_, (congrArg (· >>= _) hextract :), rfl⟩

theorem strstr_iff {s e : String} : strstr s e = true ↔ e.toList <:+: s.toList := by
  simp only [strstr, List.any_eq_true, mem_tails, isPrefixOf_iff_prefix,
    infix_iff_prefix_suffix, and_comm]

theorem strstr_of_endsWith {sfx e : String} (h : endsWith name sfx = true) (he : strstr sfx e = true)
    : strstr name e = true := by
  rw [strstr_iff] at he ⊢
  rw [endsWith, isSuffixOf_iff_suffix] at h
  exact he.trans h.isInfix

theorem type_eq_of_endsWith {rule rule' : String × ObjType} (hrule : rule ∈ filetypeRules)
    (hrule' : rule' ∈ filetypeRules) (h : endsWith name rule.1 = true)
    (h' : endsWith name rule'.1 = true) : rule.2 = rule'.2 := by
  have hrules : ∀ rule ∈ filetypeRules, ∀ rule' ∈ filetypeRules,
      endsWith rule.1 rule'.1 = true → rule.2 = rule'.2 := by decide
  rw [endsWith, isSuffixOf_iff_suffix] at h h'
  rcases suffix_or_suffix_of_suffix h h' with hs | hs
  . refine (hrules rule' hrule' rule hrule ?_).symm
    rwa [endsWith, isSuffixOf_iff_suffix]
  . refine hrules rule hrule rule' hrule' ?_
    rwa [endsWith, isSuffixOf_iff_suffix]

theorem inferFiletype_cases (name : String)
    : (∃ rule ∈ filetypeRules, endsWith name rule.1 = true ∧ inferFiletype name = rule.2) ∨
      ((∀ rule ∈ filetypeRules, endsWith name rule.1 = false) ∧ inferFiletype name = .unknown) := by
  unfold inferFiletype
  cases hfind : filetypeRules.find? fun rule => endsWith name rule.1 with
  | none =>
    rw [find?_eq_none] at hfind
    exact .inr ⟨fun rule hrule => by simpa using hfind rule hrule, rfl⟩
  | some rule =>
    have hends : endsWith name rule.1 = true := by simpa using find?_some hfind
    exact .inl ⟨rule, mem_of_find?_eq_some hfind, hends, rfl⟩

end Infer

def extensionsBefore : ObjType → List String
  | .cer => []
  | .crl => [".cer"]
  | .roa => [".cer", ".crl"]
  | .gbr => [".cer", ".crl", ".roa"]
  | .man => [".cer", ".crl", ".roa", ".gbr"]
  | .unknown => []

/--
The name has no extension of another type that is found before its own. A name without a suffix that
is known has `.cer` in it, or none of the other extensions.
-/
structure NoForeignExtension (name : String) : Prop where
  known : ∀ rule ∈ filetypeRules, endsWith name rule.1 = true →
    ∀ e ∈ extensionsBefore rule.2, strstr name e = false
  unknown : (∀ rule ∈ filetypeRules, endsWith name rule.1 = false) → strstr name ".cer" = true ∨
    ∀ e ∈ [".crl", ".roa", ".gbr"], strstr name e = false

structure MftName where
  text : String
  allowed : ∃ hash, checkMftFilename ⟨text, hash⟩ = .ok ()

section Agreement

variable {name : String}

theorem manifestTable_of_rule {rule : String × ObjType} (hrule : rule ∈ filetypeRules)
    (hends : endsWith name rule.1 = true)
    : (∀ tab, manifestTable name = some tab → tab = rule.2.table) ↔
        ∀ e ∈ extensionsBefore rule.2, strstr name e = false := by
  have hrules : ∀ rule ∈ filetypeRules, rule.2 ≠ .unknown ∧
      (rule.2 = .cer → strstr rule.1 ".cer" = true) ∧ (rule.2 = .crl → strstr rule.1 ".crl" = true) ∧
      (rule.2 = .roa → strstr rule.1 ".roa" = true) ∧ (rule.2 = .gbr → strstr rule.1 ".gbr" = true) := by
    decide
  obtain ⟨hknown, hcer, hcrl, hroa, hgbr⟩ := hrules rule hrule
  have hstrstr {e : String} (h : strstr rule.1 e = true) := strstr_of_endsWith hends h
  unfold manifestTable
  cases htype : rule.2 with
  | unknown => exact absurd htype hknown
  | _ => split_ifs <;> simp_all [extensionsBefore, ObjType.table]

theorem manifestTable_of_unknown
    : (∀ tab, manifestTable name = some tab → tab = .cert) ↔
        strstr name ".cer" = true ∨ ∀ e ∈ [".crl", ".roa", ".gbr"], strstr name e = false := by
  cases h1 : strstr name ".cer" <;> cases h2 : strstr name ".crl" <;>
    cases h3 : strstr name ".roa" <;> cases h4 : strstr name ".gbr" <;>
    simp [manifestTable, h1, h2, h3, h4]

theorem manifestTable_eq_iff (name : String)
    : (∀ tab, manifestTable name = some tab → tab = (inferFiletype name).table) ↔
        NoForeignExtension name := by
  rcases inferFiletype_cases name with ⟨rule, hrule, hends, htype⟩ | ⟨hnone, htype⟩
  . rw [htype, manifestTable_of_rule hrule hends]
    constructor
    . intro h
      refine ⟨?_, ?_⟩
      . intro _ hrule' hends'
        rwa [type_eq_of_endsWith hrule' hrule hends' hends]
      . intro hnone
        rw [hnone rule hrule] at hends
        contradiction
    . intro h
      exact h.known rule hrule hends
  rw [htype, ObjType.table, manifestTable_of_unknown]
  constructor
  . intro h
    refine ⟨?_, fun _ => h⟩
    intro rule hrule hends
    rw [hnone rule hrule] at hends
    contradiction
  . intro h
    exact h.unknown hnone

end Agreement

theorem object_type_agreement_iff (name : MftName)
    : (∀ tab tab', manifestTable name.text = some tab → StoredIn name.text tab' → tab = tab') ↔
        NoForeignExtension name.text := by
  rw [← manifestTable_eq_iff]
  constructor
  . intro h tab htab
    exact h tab _ htab (storedIn_table name.text)
  . intro h tab tab' htab hstored
    rw [h tab htab, eq_table_of_storedIn hstored]

theorem object_type_differs
    : (∃ hash, checkMftFilename ⟨"a.cer.roa", hash⟩ = .ok ()) ∧
        manifestTable "a.cer.roa" = some .cert ∧ StoredIn "a.cer.roa" .roa := by
  refine ⟨⟨replicate 32 0, rfl⟩, by decide, ?_⟩
  have htype : inferFiletype "a.cer.roa" = .roa := by decide
  have hstored := storedIn_table "a.cer.roa"
  rwa [htype] at hstored

end Rpstir.Sqhl
