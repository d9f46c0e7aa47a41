import Rpstir.Sqhl.Verify

/-!
This module contains the functions that share the static search `certSrch`, and what they return after
any sequence of calls.
-/

namespace Rpstir.Sqhl

open List Option
namespace ParentSearch

inductive Columns where
  | akiIssuer
  | skiAki
  deriving DecidableEq, Repr

structure Srch where
  columns : Columns
  vec3 : String
  vec4 : String
  deriving DecidableEq, Repr

inductive Pointers where
  | null
  | current
  | old (aki issuer : String)
  deriving DecidableEq, Repr

structure Statics where
  certSrch : Option Srch
  parent : Pointers
  deriving DecidableEq, Repr

def Statics.init : Statics := ⟨none, .null⟩

namespace Srch

def new (columns : Columns) : Srch := ⟨columns, "", ""⟩

def fetch (s : Srch) (r : CertRow) : Srch :=
  match s.columns with
  | .akiIssuer => ⟨.akiIssuer, r.aki.getD "", r.issuer⟩
  | .skiAki => ⟨.skiAki, r.ski, r.aki.getD ""⟩

def addCert2List (w : World) (s : Srch) (r : CertRow) : CertAnsr :=
  ⟨w.path r.toObj, s.vec4, s.vec3, r.flags, r.localId⟩

def search (w : World) : Srch → List CertRow → List CertAnsr × Srch
  | s, [] => ([], s)
  | s, r :: rows =>
    let s := s.fetch r
    let (ansrs, s') := search w s rows
    (addCert2List w s r :: ansrs, s')

end Srch

namespace Statics

def parentAKI (s : Statics) : Option String :=
  match s.parent with
  | .null => none
  | .current => s.certSrch.map (·.vec3)
  | .old aki _ => some aki

def parentIssuer (s : Statics) : Option String :=
  match s.parent with
  | .null => none
  | .current => s.certSrch.map (·.vec4)
  | .old _ issuer => some issuer

def findParentCert (w : World) (s : Statics) (ski subject : Option String)
    : List CertAnsr × Statics :=
  let rows := w.cert.filter (isParentRow ski subject)
  match s.certSrch with
  | none =>
    let (ansrs, srch) := (Srch.new .akiIssuer).search w rows
    (ansrs, ⟨some srch, .current⟩)
  | some srch =>
    let (ansrs, srch) := srch.search w rows
    (ansrs, { s with certSrch := some srch })

def isRowByAKI (ski aki : Option String) (r : CertRow) : Bool :=
  (if ski.isSome then some r.ski = ski else r.aki.isSome ∧ r.aki = aki) && r.flags.valid

def findCertByAKI (w : World) (s : Statics) (ski aki : Option String) : List CertAnsr × Statics :=
  let (ansrs, srch) :=
    (s.certSrch.getD (.new .skiAki)).search w (w.cert.filter (isRowByAKI ski aki))
  (ansrs, { s with certSrch := some srch })

def findTrustAnchors (w : World) (s : Statics) : List CertAnsr × Statics :=
  let rows := w.cert.filter fun r => r.flags.test Flags.trusted true
  let (ansrs, srch) := (Srch.new .skiAki).search w rows
  let parent :=
    match s.parent, s.certSrch with
    | .current, some old => .old old.vec3 old.vec4
    | parent, _ => parent
  (ansrs, ⟨some srch, parent⟩)

def setParent (s : Statics) (aki issuer : String) : Option Statics :=
  match s.parent with
  | .null => none
  | .current => some { s with certSrch := s.certSrch.map fun srch => ⟨srch.columns, aki, issuer⟩ }
  | .old _ _ => some { s with parent := .old aki issuer }

def parentCert.choose (w : World) (s : Statics) : List CertAnsr → Option Parent × Statics
  | [a] =>
    if a.flags.has (Flags.istarget ||| Flags.hasparacert) then (none, s) else (a.read w, s)
  | [a₀, a₁] =>
    if (a₀.flags &&& paraFlags).has (a₁.flags &&& paraFlags) then
      (none, s)
    else
      let a :=
        if (w.useParacerts && a₀.flags.has Flags.isparacert)
            || (!w.useParacerts && !a₀.flags.has Flags.isparacert) then a₀ else a₁
      match s.setParent a.aki a.issuer with
      | none => (none, s)
      | some s => (a.read w, s)
  | _ => (none, s)

def parentCert (w : World) (s : Statics) (ski subject : Option String) : Option Parent × Statics :=
  let (ansrs, s) := s.findParentCert w ski subject
  parentCert.choose w s ansrs

end Statics

inductive Call where
  | findCertByAKI (ski aki : Option String)
  | findTrustAnchors
  | findParentCert (ski subject : Option String)
  deriving DecidableEq, Repr

def Call.run (s : Statics) : World × Call → Statics
  | (w, .findCertByAKI ski aki) => (s.findCertByAKI w ski aki).2
  | (w, .findTrustAnchors) => (s.findTrustAnchors w).2
  | (w, .findParentCert ski subject) => (s.findParentCert w ski subject).2

def after (history : List (World × Call)) : Statics :=
  history.foldl Call.run .init

def CertAnsr.ofRow (w : World) (r : CertRow) : CertAnsr :=
  ⟨w.path r.toObj, r.issuer, r.aki.getD "", r.flags, r.localId⟩

structure Correct (s : Statics) (w : World) (ski subject : Option String) : Prop where
  findParentCert : (s.findParentCert w ski subject).1
    = (w.cert.filter (isParentRow ski subject)).map (CertAnsr.ofRow w)
  parentCert : ∀ parent s', s.parentCert w ski subject = (some parent, s') →
    ∃ r ∈ w.cert, isParentRow ski subject r = true ∧ parent.path = w.path r.toObj ∧
      parent.flags = r.flags ∧ s'.parentAKI = some (r.aki.getD "") ∧ s'.parentIssuer = some r.issuer

def ParentFirst (history : List (World × Call)) : Prop :=
  (∀ x ∈ history, x.2 ≠ .findTrustAnchors) ∧
    ∀ x ∈ history.head?, ∀ ski aki, x.2 ≠ .findCertByAKI ski aki

def SetUp (s : Statics) : Prop :=
  ∃ aki issuer, s = ⟨some ⟨.akiIssuer, aki, issuer⟩, .current⟩

def SetUpByOther (s : Statics) : Prop :=
  ∃ srch, s.certSrch = some srch ∧ srch.columns = .skiAki

theorem Srch.columns_search (w : World) (s : Srch) (rows : List CertRow)
    : (s.search w rows).2.columns = s.columns := by
  induction rows generalizing s with
  | nil => rfl
  | cons r rows ih =>
    refine (ih (s.fetch r)).trans ?_
    unfold Srch.fetch
    split <;> simp [*]

theorem Srch.search_akiIssuer (w : World) (aki issuer : String) (rows : List CertRow)
    : Srch.search w ⟨.akiIssuer, aki, issuer⟩ rows
        =
      (rows.map (CertAnsr.ofRow w),
        (rows.getLast?.map fun r => ⟨.akiIssuer, r.aki.getD "", r.issuer⟩).getD
          ⟨.akiIssuer, aki, issuer⟩) := by
  induction rows generalizing aki issuer with
  | nil => rfl
  | cons r rows ih =>
    simp only [Srch.search, Srch.fetch, ih]
    cases rows with
    | nil
    | cons => rfl

section Runs

variable {s : Statics} {w : World} {history : List (World × Call)}

theorem setUpByOther_search {srch : Srch} (h : srch.columns = .skiAki) (rows : List CertRow)
    (parent : Pointers) : SetUpByOther ⟨some (srch.search w rows).2, parent⟩ :=
  ⟨_, rfl, (Srch.columns_search w srch rows).trans h⟩

theorem SetUpByOther.run (h : SetUpByOther s) (x : World × Call) : SetUpByOther (Call.run s x) := by
  rcases h with ⟨_, hsrch, hcolumns⟩
  rcases x with ⟨_, call⟩
  cases call with
  | findCertByAKI =>
    simp only [Call.run, Statics.findCertByAKI, hsrch, getD_some]
    exact setUpByOther_search hcolumns _ _
  | findTrustAnchors => exact setUpByOther_search rfl _ _
  | findParentCert =>
    simp only [Call.run, Statics.findParentCert, hsrch]
    exact setUpByOther_search hcolumns _ _

theorem SetUpByOther.foldl (h : SetUpByOther s) : SetUpByOther (history.foldl Call.run s) := by
  induction history generalizing s with
  | nil => exact h
  | cons x history ih => exact ih (h.run x)

theorem setUpByOther_findTrustAnchors : SetUpByOther (Call.run s (w, .findTrustAnchors)) :=
  setUpByOther_search rfl _ _

theorem setUpByOther_findCertByAKI (ski aki : Option String)
    : SetUpByOther (Call.run .init (w, .findCertByAKI ski aki)) :=
  setUpByOther_search rfl _ _

theorem setUp_search (aki issuer : String) (rows : List CertRow)
    : SetUp ⟨some (Srch.search w ⟨.akiIssuer, aki, issuer⟩ rows).2, .current⟩ := by
  rw [Srch.search_akiIssuer]
  cases rows.getLast? with
  | none => exact ⟨aki, issuer, rfl⟩
  | some => exact ⟨_, _, rfl⟩

theorem setUp_findParentCert (ski subject : Option String)
    : SetUp (Call.run .init (w, .findParentCert ski subject)) := by
  exact setUp_search "" "" _

theorem SetUp.run (h : SetUp s) {x : World × Call} (hx : x.2 ≠ .findTrustAnchors)
    : SetUp (Call.run s x) := by
  rcases h with ⟨_, _, rfl⟩
  rcases x with ⟨_, call⟩
  cases call with
  | findCertByAKI
  | findParentCert =>
    exact setUp_search _ _ _
  | findTrustAnchors => exact absurd rfl hx

theorem SetUp.foldl (h : SetUp s) (hcalls : ∀ x ∈ history, x.2 ≠ .findTrustAnchors)
    : SetUp (history.foldl Call.run s) := by
  induction history generalizing s with
  | nil => exact h
  | cons x history ih =>
    exact ih (h.run (hcalls x mem_cons_self)) fun y hy => hcalls y (mem_cons_of_mem x hy)

theorem setUp_after (h : ParentFirst history) : after history = .init ∨ SetUp (after history) := by
  cases history with
  | nil => exact .inl rfl
  | cons x history =>
    right
    have hcalls : ∀ y ∈ history, y.2 ≠ .findTrustAnchors :=
      fun y hy => h.1 y (mem_cons_of_mem x hy)
    rcases x with ⟨_, call⟩
    cases call with
    | findCertByAKI ski aki => exact absurd rfl (h.2 _ rfl ski aki)
    | findTrustAnchors => exact absurd rfl (h.1 _ mem_cons_self)
    | findParentCert ski subject => exact (setUp_findParentCert ski subject).foldl hcalls

theorem setUpByOther_after (h : ¬ParentFirst history) : SetUpByOther (after history) := by
  rw [ParentFirst, not_and_or] at h
  rcases h with h | h
  . simp only [ne_eq, not_forall, not_not] at h
    rcases h with ⟨⟨w, call⟩, hmem, hcall⟩
    cases hcall
    rcases append_of_mem hmem with ⟨_, _, rfl⟩
    rw [after, foldl_append, foldl_cons]
    exact setUpByOther_findTrustAnchors.foldl
  simp only [ne_eq, not_forall, not_not] at h
  rcases h with ⟨⟨w, call⟩, hhead, ski, aki, hcall⟩
  cases hcall
  cases history with
  | nil => contradiction
  | cons =>
    cases hhead
    exact (setUpByOther_findCertByAKI ski aki).foldl

theorem findParentCert_of_setUp (h : s = .init ∨ SetUp s) (w : World) (ski subject : Option String)
    : ∃ aki issuer, s.findParentCert w ski subject
        =
      ((w.cert.filter (isParentRow ski subject)).map (CertAnsr.ofRow w),
        ⟨some (((w.cert.filter (isParentRow ski subject)).getLast?.map fun r =>
          ⟨.akiIssuer, r.aki.getD "", r.issuer⟩).getD ⟨.akiIssuer, aki, issuer⟩), .current⟩) := by
  rcases h with rfl | ⟨aki, issuer, rfl⟩
  . refine ⟨"", "", ?_⟩
    simp only [Statics.findParentCert, Statics.init, Srch.new, Srch.search_akiIssuer]
  . refine ⟨aki, issuer, ?_⟩
    simp only [Statics.findParentCert, Srch.search_akiIssuer]

theorem read_ofRow {r : CertRow} {parent : Parent} (h : (CertAnsr.ofRow w r).read w = some parent)
    : parent.path = w.path r.toObj ∧ parent.flags = r.flags := by
  rcases map_eq_some_iff.mp h with ⟨_, -, rfl⟩
  exact ⟨rfl, rfl⟩

theorem choose_ofRow {rows : List CertRow} {aki issuer : String} {parent : Parent} {s' : Statics}
    (h : Statics.parentCert.choose w
      ⟨some ((rows.getLast?.map fun r => ⟨.akiIssuer, r.aki.getD "", r.issuer⟩).getD
        ⟨.akiIssuer, aki, issuer⟩), .current⟩ (rows.map (CertAnsr.ofRow w)) = (some parent, s'))
    : ∃ r ∈ rows, parent.path = w.path r.toObj ∧ parent.flags = r.flags ∧
        s'.parentAKI = some (r.aki.getD "") ∧ s'.parentIssuer = some r.issuer := by
  match rows with
  | [] => simp [Statics.parentCert.choose] at h
  | [r] =>
    simp only [map_cons, map_nil, Statics.parentCert.choose] at h
    split at h
    . simp at h
    . rw [Prod.mk.injEq] at h
      rcases h with ⟨hread, rfl⟩
      rcases read_ofRow hread with ⟨hpath, hflags⟩
      exact ⟨r, mem_cons_self, hpath, hflags, rfl, rfl⟩
  | [r₀, r1] =>
    have hchosen (c : Bool) : ∃ r ∈ [r₀, r1],
        (if c then CertAnsr.ofRow w r₀ else CertAnsr.ofRow w r1) = CertAnsr.ofRow w r := by
      cases c
      . exact ⟨r1, by simp, rfl⟩
      . exact ⟨r₀, by simp, rfl⟩
    simp only [map_cons, map_nil, Statics.parentCert.choose, Statics.setParent] at h
    split at h
    . simp at h
    rcases hchosen (w.useParacerts && (CertAnsr.ofRow w r₀).flags.has Flags.isparacert ||
      !w.useParacerts && !(CertAnsr.ofRow w r₀).flags.has Flags.isparacert) with ⟨r, hr, heq⟩
    rw [heq, Prod.mk.injEq] at h
    rcases h with ⟨hread, rfl⟩
    rcases read_ofRow hread with ⟨hpath, hflags⟩
    exact ⟨r, hr, hpath, hflags, rfl, rfl⟩
  | _ :: _ :: _ :: _ => simp [Statics.parentCert.choose] at h

theorem correct_of_setUp (h : s = .init ∨ SetUp s) (w : World) (ski subject : Option String)
    : Correct s w ski subject := by
  rcases findParentCert_of_setUp h w ski subject with ⟨_, _, hfind⟩
  refine ⟨by rw [hfind], ?_⟩
  intro _ _ hparent
  rw [Statics.parentCert, hfind] at hparent
  rcases choose_ofRow hparent with ⟨r, hr, hrest⟩
  rcases mem_filter.mp hr with ⟨hmem, hrow⟩
  exact ⟨r, hmem, hrow, hrest⟩

def Statics.toCertSrch (s : Statics) : CertSrch :=
  match s.certSrch with
  | none => .unset
  | some ⟨.akiIssuer, aki, issuer⟩ => .parent aki issuer
  | some ⟨.skiAki, _, _⟩ => .byAKI

theorem Srch.search_skiAki {srch : Srch} (h : srch.columns = .skiAki) (w : World)
    (rows : List CertRow)
    : (srch.search w rows).1 = rows.map (Sqhl.addCert2List { w with certSrch := .byAKI }) := by
  induction rows generalizing srch with
  | nil => rfl
  | cons r rows ih =>
    have hfetch : srch.fetch r = ⟨.skiAki, r.ski, r.aki.getD ""⟩ := by
      rw [Srch.fetch, h]
    rw [map_cons, ← @ih (srch.fetch r) (by rw [hfetch])]
    simp only [Srch.search, hfetch]
    rfl

theorem toCertSrch_skiAki {srch : Srch} (h : srch.columns = .skiAki) (parent : Pointers)
    : Statics.toCertSrch ⟨some srch, parent⟩ = .byAKI := by
  rcases srch with ⟨columns, _, _⟩
  cases h
  rfl

theorem fetchParent_akiIssuer (w : World) (rows : List CertRow) (aki issuer : String)
    (parent : Pointers)
    : ({ w with certSrch := .parent aki issuer } : World).fetchParent (rows.map (CertAnsr.ofRow w))
        =
      { w with certSrch :=
        Statics.toCertSrch ⟨some (Srch.search w ⟨.akiIssuer, aki, issuer⟩ rows).2, parent⟩ } := by
  rw [Srch.search_akiIssuer, World.fetchParent, getLast?_map]
  cases rows.getLast? with
  | none
  | some => rfl

theorem findParentCert_toCertSrch (s : Statics) (w : World) (ski subject : Option String)
    : Sqhl.findParentCert { w with certSrch := s.toCertSrch } ski subject
        =
      ((s.findParentCert w ski subject).1,
        { w with certSrch := (s.findParentCert w ski subject).2.toCertSrch }) := by
  have hparent (aki issuer : String) (parent : Pointers)
      : Sqhl.findParentCert { w with certSrch := .parent aki issuer } ski subject
          =
        ((Srch.search w ⟨.akiIssuer, aki, issuer⟩ (w.cert.filter (isParentRow ski subject))).1,
          { w with certSrch := Statics.toCertSrch ⟨some (Srch.search w ⟨.akiIssuer, aki, issuer⟩
            (w.cert.filter (isParentRow ski subject))).2, parent⟩ }) := by
    rw [← fetchParent_akiIssuer, Srch.search_akiIssuer]
    rfl
  rcases s with ⟨_ | ⟨columns, vec3, vec4⟩, parent⟩
  . exact hparent "" "" .current
  cases columns with
  | akiIssuer => exact hparent vec3 vec4 parent
  | skiAki =>
    have hcolumns := Srch.columns_search w ⟨.skiAki, vec3, vec4⟩
      (w.cert.filter (isParentRow ski subject))
    have hansrs := @Srch.search_skiAki ⟨.skiAki, vec3, vec4⟩ rfl w
      (w.cert.filter (isParentRow ski subject))
    simp only [Statics.findParentCert]
    rw [toCertSrch_skiAki hcolumns, hansrs]
    rfl

def sampleRow : CertRow where
  filename := "c.cer"
  dirId := 1
  localId := 1
  flags := Flags.validated
  hash := .empty
  subject := "subject"
  issuer := "issuer"
  sn := []
  ski := "ski"
  aki := some "aki"
  sig := ""
  valfrom := 0
  valto := 0
  sigval := .unknown

def sampleWorld : World where
  dir := [⟨"/d", 1⟩]
  cert := [sampleRow]
  crl := []
  roa := []
  manifest := []
  gbr := []
  tdir := "/d"
  fs _ := none
  now := 0
  allowex := false
  useParacerts := false
  certSrch := .unset
  checked := []

theorem not_correct_of_setUpByOther (h : SetUpByOther s)
    : ¬Correct s sampleWorld (some "ski") (some "subject") := by
  rcases h with ⟨⟨_, _, _⟩, hsrch, hcolumns⟩
  intro hcorrect
  have hfind := hcorrect.findParentCert
  have hrows : sampleWorld.cert.filter (isParentRow (some "ski") (some "subject")) = [sampleRow] := by
    decide
  cases hcolumns
  simp only [Statics.findParentCert, hsrch, hrows, Srch.search, Srch.fetch] at hfind
  exact absurd hfind (by decide)

end Runs

end ParentSearch
end Rpstir.Sqhl
