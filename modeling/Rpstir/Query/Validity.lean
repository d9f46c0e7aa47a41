import Mathlib.Data.Nat.Digits.Defs
import Mathlib.Data.String.Basic
import Rpstir.Data.Walk
import Rpstir.Db.Query
import Rpstir.Garbage.Basic
import Rpstir.Sqhl.Basic

/-!
This module contains the check of `querySupport.c` that a certificate has a chain of parents, and the
tables for which it is right.
-/

open Relation

namespace Rpstir.Query

open List Option

open Sqhl (CertRow)

inductive Wanted where
  | ski (ski : String)
  | localId (localID : BitVec 32)

def initSearch (config : Config) (now : Nat) (r : CertRow) : Bool :=
  (config.allowStaleValidationChain || decide (now < r.valto)) &&
    r.flags.test Flags.validated true &&
    (config.allowStaleValidationChain || r.flags.test Flags.nochain false) &&
    (config.allowStaleCrl || r.flags.test Flags.stalecrl false) &&
    (config.allowStaleManifest || r.flags.test Flags.staleman false) &&
    (config.allowNotYet || r.flags.test Flags.notyet false) &&
    (config.allowNoManifest ||
      (r.flags.test Flags.onman true || r.flags.test Flags.ca false || r.flags.test Flags.trusted true))

def Wanted.key : Wanted → CertRow → Bool
  | .ski k, r => r.ski = k
  -- `%d` prints the number with a sign
  | .localId localID, r => (r.localId : Int) = localID.toInt

def Wanted.prevSKI : Wanted → String
  | .ski k => k
  | .localId _ => ""

def Wanted.text : Wanted → String
  | .ski k => " and ski=\"" ++ k ++ "\""
  | .localId localID => " and local_id=\"" ++ toString localID.toInt ++ "\""

/--
The key with its terminator fits into `prevSKI`.
-/
def Wanted.Short : Wanted → Prop
  | .ski k => k.utf8ByteSize < 128
  | .localId _ => True

namespace checkValidity

structure State where
  firstTime : Bool
  prevSKI : String
  nextSKI : String
  nextSubject : String

def found (config : Config) (now : Nat) (certs : List CertRow) (key : CertRow → Bool) : Option CertRow :=
  (certs.filter fun r => initSearch config now r && key r).getLast?

def parentKey (nextSKI nextSubject : String) (r : CertRow) : Bool :=
  r.ski = nextSKI && r.subject = nextSubject

def parentText (nextSKI nextSubject : String) : String :=
  " and ski=\"" ++ nextSKI ++ "\" and subject=\"" ++ Garbage.mysqlEscapeString nextSubject ++ "\""

def goesOn (s : State) : Bool :=
  s.firstTime || !(s.nextSKI == s.prevSKI || s.nextSKI == "")

def round (config : Config) (now : Nat) (certs : List CertRow) (wanted : Wanted) (s : State)
    : Nat ⊕ State :=
  if goesOn s then
    let key := if s.firstTime then wanted.key else parentKey s.nextSKI s.nextSubject
    let prevSKI := if s.firstTime then wanted.prevSKI else s.nextSKI
    match found config now certs key with
    | some r => .inr ⟨false, prevSKI, r.aki.getD "", r.issuer⟩
    | none =>
      if !config.allowStaleValidationChain then
        .inl 0
      else
        .inl (if certs.any key then 0 else 1)
  else
    .inl 1

def insertion (wanted : Wanted) (s : State) : String :=
  if s.firstTime then wanted.text else parentText s.nextSKI s.nextSubject

end checkValidity

/--
`validWhereStr` when it is filled in: the length of the tests that `initSearch` has written, and of the text
that is behind them from the last round or the last call.
-/
structure WhereStr where
  tests : Nat
  inserted : Nat

/--
The bound of `xsnprintf` counts the text that is overwritten.
-/
def WhereStr.Fits (w : WhereStr) (text : String) : Prop :=
  w.tests + w.inserted + text.utf8ByteSize < whereStrSize

instance (w : WhereStr) (text : String) : Decidable (w.Fits text) :=
  inferInstanceAs (Decidable (_ < _))

def WhereStr.insert (w : WhereStr) (text : String) : WhereStr :=
  { w with inserted := text.utf8ByteSize }

namespace checkValidity

/--
A round with the text that it puts into the where string. The result `none` is the `abort` of `xsnprintf`.
-/
def checkedRound (config : Config) (now : Nat) (certs : List CertRow) (wanted : Wanted)
    (s : State × WhereStr) : Option (Nat × WhereStr) ⊕ (State × WhereStr) :=
  if goesOn s.1 then
    if s.2.Fits (insertion wanted s.1) then
      let w := s.2.insert (insertion wanted s.1)
      match round config now certs wanted s.1 with
      | .inl ret => .inl (some (ret, w))
      | .inr s => .inr (s, w)
    else
      .inl none
  else
    .inl (some (1, s.2))

end checkValidity

open checkValidity in
def checkValidity (fuel : Nat) (config : Config) (now : Nat) (certs : List CertRow) (w : WhereStr)
    (wanted : Wanted) : Option (Option (Nat × WhereStr)) :=
  Walk.run (checkedRound config now certs wanted) fuel (⟨true, "", "", ""⟩, w)

section Spec

variable (config : Config) (now : Nat) (certs : List CertRow)

structure Passes (r : CertRow) : Prop where
  mem : r ∈ certs
  tests : initSearch config now r = true

inductive Reaches : CertRow → Prop where
  | trusted {r : CertRow} (hr : Passes config now certs r) (htrusted : r.flags.has Flags.trusted = true)
      : Reaches r
  | parent {r p : CertRow} (hr : Passes config now certs r) (haki : r.aki = some p.ski)
      (hissuer : r.issuer = p.subject) (hp : Reaches p) : Reaches r

def Wanted.Names : Wanted → CertRow → Prop
  | .ski k, r => r.ski = k
  | .localId localID, r => r.localId = localID.toNat

def Decides (w : WhereStr) (wanted : Wanted) : Prop :=
  ∃ ret w' fuel₀, (∀ fuel ≥ fuel₀, checkValidity fuel config now certs w wanted = some (some (ret, w'))) ∧
    (ret = 1 ↔ ∃ r, Passes config now certs r ∧ wanted.Names r ∧ Reaches config now certs r)

/--
The same of the rounds, without a look at the size of the where string.
-/
def Traces (wanted : Wanted) : Prop :=
  ∃ ret, Walk.Ends (checkValidity.round config now certs wanted) ⟨true, "", "", ""⟩ ret ∧
    (ret = 1 ↔ ∃ r, Passes config now certs r ∧ wanted.Names r ∧ Reaches config now certs r)

def lastParent (r : CertRow) : Option CertRow :=
  checkValidity.found config now certs (checkValidity.parentKey (r.aki.getD "") r.issuer)

def lastWithSki (ski : String) : Option CertRow :=
  checkValidity.found config now certs (Wanted.ski ski).key

def Stops (r : CertRow) : Prop :=
  r.aki.getD "" = r.ski ∨ r.aki.getD "" = ""

structure Follows (r p : CertRow) : Prop where
  passes : Passes config now certs r
  not_stops : ¬Stops r
  lastParent_eq : lastParent config now certs r = some p

/--
The tables for which it is enough to follow one parent and to stop where the check stops: the parents
that it follows do not lead back; a row without a key of its issuer has a chain; any other row has one
exactly if the check stops at the parent that it follows or this parent has a chain; and likewise for the
last one of the rows with a key.
-/
structure Sound : Prop where
  acyclic : ∀ r, ¬TransGen (Follows config now certs) r r
  anchors : ∀ r, Passes config now certs r → r.aki.getD "" = "" → Reaches config now certs r
  parents : ∀ r, Passes config now certs r → r.aki.getD "" ≠ "" →
    (Reaches config now certs r ↔ ∃ p ∈ lastParent config now certs r, Stops p ∨ Reaches config now certs p)
  keys : ∀ ski, (Wanted.ski ski).Short → ∀ p ∈ lastWithSki config now certs ski,
    (Stops p ∨ Reaches config now certs p ↔
      ∃ r, Passes config now certs r ∧ r.ski = ski ∧ Reaches config now certs r)

def parentTextOf (r : CertRow) : String :=
  checkValidity.parentText (r.aki.getD "") r.issuer

/--
Any two texts that are put into the where string one after the other fit into it together: the text that
was left there and the first one, the first one and the one for the parent of the row that it finds, and
those for the parents of a row and of its parent.
-/
structure TextsFit (w : WhereStr) : Prop where
  first : ∀ wanted : Wanted, wanted.Short → w.Fits wanted.text
  second : ∀ wanted : Wanted, wanted.Short → ∀ r ∈ checkValidity.found config now certs wanted.key,
    ¬(r.aki.getD "" = wanted.prevSKI ∨ r.aki.getD "" = "") →
      (w.insert wanted.text).Fits (parentTextOf r)
  parents : ∀ r, Passes config now certs r → r.aki.getD "" ≠ "" →
    ∀ p ∈ lastParent config now certs r, ¬Stops p → (w.insert (parentTextOf r)).Fits (parentTextOf p)

end Spec

section Loop

open checkValidity Walk

variable {config : Config} {now : Nat} {certs : List CertRow} {wanted : Wanted} {r p : CertRow}
  {key : CertRow → Bool} {prevSKI : String} {ret : Nat}

theorem found_eq_some (h : found config now certs key = some r)
    : Passes config now certs r ∧ key r = true := by
  have hmem := mem_of_getLast? h
  rw [mem_filter, Bool.and_eq_true] at hmem
  exact ⟨⟨hmem.1, hmem.2.1⟩, hmem.2.2⟩

theorem found_eq_none (h : found config now certs key = none) (hr : Passes config now certs r)
    : key r = false := by
  rw [found, getLast?_eq_none_iff, filter_eq_nil_iff] at h
  have hnot := h r hr.mem
  rw [hr.tests, Bool.true_and, Bool.not_eq_true] at hnot
  exact hnot

def State.at (prevSKI : String) (r : CertRow) : State :=
  ⟨false, prevSKI, r.aki.getD "", r.issuer⟩

theorem round_stop (h : r.aki.getD "" = prevSKI ∨ r.aki.getD "" = "")
    : round config now certs wanted (State.at prevSKI r) = .inl 1 := by
  have htest : (r.aki.getD "" == prevSKI || r.aki.getD "" == "") = true := by simpa using h
  simp only [checkValidity.round, goesOn, State.at, htest, Bool.not_true, Bool.or_self, Bool.false_eq_true,
    ↓reduceIte]

theorem round_some (h : ¬(r.aki.getD "" = prevSKI ∨ r.aki.getD "" = ""))
    (hp : lastParent config now certs r = some p)
    : round config now certs wanted (State.at prevSKI r) = .inr (State.at p.ski p) := by
  have hkey := (found_eq_some hp).2
  rw [parentKey, Bool.and_eq_true, decide_eq_true_eq] at hkey
  rw [not_or] at h
  rw [lastParent] at hp
  simp [checkValidity.round, goesOn, State.at, h, hp, hkey.1]

theorem round_none (hstale : config.allowStaleValidationChain = false)
    (h : ¬(r.aki.getD "" = prevSKI ∨ r.aki.getD "" = "")) (hp : lastParent config now certs r = none)
    : round config now certs wanted (State.at prevSKI r) = .inl 0 := by
  rw [not_or] at h
  rw [lastParent] at hp
  simp [checkValidity.round, goesOn, State.at, h, hp, hstale]

theorem round_first_some (h : found config now certs wanted.key = some r)
    : round config now certs wanted ⟨true, "", "", ""⟩ = .inr (State.at wanted.prevSKI r) := by
  simp only [checkValidity.round, goesOn, Bool.true_or, ↓reduceIte, h, State.at]

theorem round_first_none (hstale : config.allowStaleValidationChain = false)
    (h : found config now certs wanted.key = none)
    : round config now certs wanted ⟨true, "", "", ""⟩ = .inl 0 := by
  simp only [checkValidity.round, goesOn, Bool.true_or, ↓reduceIte, h, hstale, Bool.not_false]

end Loop

section Chain

open checkValidity Walk

variable {config : Config} {now : Nat} {certs : List CertRow} {wanted : Wanted} {r p : CertRow} {ret : Nat}
  (hstale : config.allowStaleValidationChain = false)

theorem ends_stop (h : Stops r) : Ends (round config now certs wanted) (State.at r.ski r) ret ↔ ret = 1 :=
  Ends.iff_of_inl (round_stop h)

theorem lastParent_passes (hp : p ∈ lastParent config now certs r) : Passes config now certs p :=
  (found_eq_some hp).1

include hstale

theorem ends_at {prevSKI : String} (h : ¬(r.aki.getD "" = prevSKI ∨ r.aki.getD "" = ""))
    : Ends (round config now certs wanted) (State.at prevSKI r) 1 ↔
        ∃ p ∈ lastParent config now certs r, Ends (round config now certs wanted) (State.at p.ski p) 1 := by
  cases hp : lastParent config now certs r with
  | none =>
    rw [Ends.iff_of_inl (round_none hstale h hp)]
    simp
  | some =>
    rw [Ends.iff_of_inr (round_some h hp)]
    simp

theorem exists_ends_at {prevSKI : String}
    (hp : ∀ p ∈ lastParent config now certs r, ∃ ret, Ends (round config now certs wanted) (State.at p.ski p) ret)
    : ∃ ret, Ends (round config now certs wanted) (State.at prevSKI r) ret := by
  by_cases h : r.aki.getD "" = prevSKI ∨ r.aki.getD "" = ""
  . exact ⟨1, (Ends.iff_of_inl (round_stop h)).mpr rfl⟩
  cases hparent : lastParent config now certs r with
  | none => exact ⟨0, (Ends.iff_of_inl (round_none hstale h hparent)).mpr rfl⟩
  | some p =>
    obtain ⟨ret, hends⟩ := hp p hparent
    exact ⟨ret, (Ends.iff_of_inr (round_some h hparent)).mpr hends⟩

section Sound

variable (hsound : Sound config now certs)

omit hstale in
include hsound in
theorem wellFounded_follows : WellFounded (flip (Follows config now certs)) := by
  refine wellFounded_of_acyclic (l := certs) ?_ hsound.acyclic
  intro _ _ hfollows
  exact ⟨hfollows.passes.mem, (lastParent_passes hfollows.lastParent_eq).mem⟩

include hsound

theorem exists_ends (hr : Passes config now certs r)
    : ∃ ret, Ends (round config now certs wanted) (State.at r.ski r) ret := by
  induction r using (wellFounded_follows hsound).induction with
  | h r ih =>
    by_cases hstops : Stops r
    . exact ⟨1, (ends_stop hstops).mpr rfl⟩
    . apply exists_ends_at hstale
      intro p hp
      exact ih p ⟨hr, hstops, hp⟩ (lastParent_passes hp)

theorem ends_one_iff (hr : Passes config now certs r)
    : Ends (round config now certs wanted) (State.at r.ski r) 1 ↔ Stops r ∨ Reaches config now certs r := by
  induction r using (wellFounded_follows hsound).induction with
  | h r ih =>
    by_cases hstops : Stops r
    . exact iff_of_true ((ends_stop hstops).mpr rfl) (.inl hstops)
    . rw [ends_at hstale hstops, or_iff_right hstops, hsound.parents r hr fun haki => hstops (.inr haki)]
      refine exists_congr fun p => and_congr_right fun hp => ?_
      exact ih p ⟨hr, hstops, hp⟩ (lastParent_passes hp)

end Sound

section Decides

variable (hids : ∀ r ∈ certs, r.localId < 2 ^ 31) (hunique : (certs.map (·.localId)).Nodup)

omit hstale

include hids in
theorem key_iff_names (hr : Passes config now certs r) : wanted.key r = true ↔ wanted.Names r := by
  cases wanted with
  | ski => simp [Wanted.key, Wanted.Names]
  | localId localID =>
    have hlt := hids r hr.mem
    have hcond := BitVec.toInt_eq_toNat_cond localID
    simp only [Wanted.key, Wanted.Names, decide_eq_true_eq]
    split at hcond
    . omega
    . omega

include hunique in
theorem eq_of_localId {localID : BitVec 32} (hr : Passes config now certs r) (hp : Passes config now certs p)
    (hnames : (Wanted.localId localID).Names r) (hnames' : (Wanted.localId localID).Names p) : r = p :=
  inj_on_of_nodup_map hunique hr.mem hp.mem (hnames.trans hnames'.symm)

include hids hunique in
theorem found_localId (hr : Passes config now certs r)
    : found config now certs (Wanted.localId (BitVec.ofNat 32 r.localId)).key = some r := by
  have hnames : (Wanted.localId (BitVec.ofNat 32 r.localId)).Names r := by
    have hlt := hids r hr.mem
    rw [Wanted.Names, BitVec.toNat_ofNat, Nat.mod_eq_of_lt (by omega)]
  have hkey := (key_iff_names hids hr).mpr hnames
  cases h : found config now certs (Wanted.localId (BitVec.ofNat 32 r.localId)).key with
  | none =>
    rw [found_eq_none h hr] at hkey
    cases hkey
  | some =>
    obtain ⟨hp, hkey'⟩ := found_eq_some h
    rw [eq_of_localId hunique hp hr ((key_iff_names hids hp).mp hkey') hnames]

theorem traces_iff_of_some (h : found config now certs wanted.key = some r)
    : Traces config now certs wanted ↔
        ∃ ret, Ends (round config now certs wanted) (State.at wanted.prevSKI r) ret ∧
          (ret = 1 ↔ ∃ r, Passes config now certs r ∧ wanted.Names r ∧ Reaches config now certs r) := by
  simp only [Traces, Ends.iff_of_inr (round_first_some h)]

include hstale

theorem traces_of_none (hids : ∀ r ∈ certs, r.localId < 2 ^ 31)
    (h : found config now certs wanted.key = none) : Traces config now certs wanted := by
  refine ⟨0, (Ends.iff_of_inl (round_first_none hstale h)).mpr rfl, iff_of_false Nat.zero_ne_one ?_⟩
  rintro ⟨r, hr, hnames, -⟩
  have hkey := (key_iff_names hids hr).mpr hnames
  rw [found_eq_none h hr] at hkey
  cases hkey

theorem Sound.ends_localId (hsound : Sound config now certs) (hr : Passes config now certs r)
    : Ends (round config now certs wanted) (State.at "" r) 1 ↔ Reaches config now certs r := by
  by_cases haki : r.aki.getD "" = ""
  . exact iff_of_true ((Ends.iff_of_inl (round_stop (.inl haki))).mpr rfl) (hsound.anchors r hr haki)
  . rw [ends_at hstale (not_or.mpr ⟨haki, haki⟩), hsound.parents r hr haki]
    refine exists_congr fun p => and_congr_right fun hp => ?_
    exact ends_one_iff hstale hsound (lastParent_passes hp)

include hids hunique

theorem Sound.traces (hsound : Sound config now certs) (hshort : wanted.Short)
    : Traces config now certs wanted := by
  cases h : found config now certs wanted.key with
  | none => exact traces_of_none hstale hids h
  | some r =>
    obtain ⟨hr, hkey⟩ := found_eq_some h
    have hnames := (key_iff_names hids hr).mp hkey
    rw [traces_iff_of_some h]
    cases wanted with
    | ski k =>
      have hk : r.ski = k := hnames
      have hprev : (Wanted.ski k).prevSKI = r.ski := hk.symm
      obtain ⟨ret, hends⟩ := exists_ends hstale hsound hr
      rw [hprev]
      refine ⟨ret, hends, ?_⟩
      rw [hends.eq_iff, ends_one_iff hstale hsound hr]
      exact hsound.keys k hshort r h
    | localId localID =>
      have hends : ∃ ret, Ends (round config now certs (.localId localID)) (State.at "" r) ret := by
        apply exists_ends_at hstale
        intro _ hp
        exact exists_ends hstale hsound (lastParent_passes hp)
      obtain ⟨ret, hends⟩ := hends
      refine ⟨ret, hends, ?_⟩
      rw [hends.eq_iff, hsound.ends_localId hstale hr]
      constructor
      . intro hreaches
        exact ⟨r, hr, hnames, hreaches⟩
      . rintro ⟨_, hr', hnames', hreaches⟩
        rw [eq_of_localId hunique hr hr' hnames hnames']
        exact hreaches

end Decides

section Converse

variable {prevSKI : String}

include hstale

theorem ends_congr (wanted wanted' : Wanted) (h : Ends (round config now certs wanted) (State.at prevSKI r) ret)
    : Ends (round config now certs wanted') (State.at prevSKI r) ret := by
  obtain ⟨fuel, hrun⟩ := h
  induction fuel generalizing prevSKI r with
  | zero => cases hrun
  | succ fuel ih =>
    by_cases h : r.aki.getD "" = prevSKI ∨ r.aki.getD "" = ""
    . rw [run_inl (round_stop h)] at hrun
      cases hrun
      exact (Ends.iff_of_inl (round_stop h)).mpr rfl
    cases hp : lastParent config now certs r with
    | none =>
      rw [run_inl (round_none hstale h hp)] at hrun
      cases hrun
      exact (Ends.iff_of_inl (round_none hstale h hp)).mpr rfl
    | some =>
      rw [run_inr (round_some h hp)] at hrun
      exact (Ends.iff_of_inr (round_some h hp)).mpr (ih hrun)

variable (hids : ∀ r ∈ certs, r.localId < 2 ^ 31) (hunique : (certs.map (·.localId)).Nodup)
  (hall : ∀ wanted : Wanted, wanted.Short → Traces config now certs wanted)

include hids hunique hall

theorem ends_localId_of_traces (hr : Passes config now certs r) (wanted : Wanted)
    : ∃ ret, Ends (round config now certs wanted) (State.at "" r) ret ∧
        (ret = 1 ↔ Reaches config now certs r) := by
  have h := found_localId hids hunique hr
  have hnames := (key_iff_names hids hr).mp (found_eq_some h).2
  obtain ⟨ret, hends, hret⟩ := (traces_iff_of_some h).mp (hall _ trivial)
  refine ⟨ret, ends_congr hstale _ wanted hends, hret.trans ?_⟩
  constructor
  . rintro ⟨_, hr', hnames', hreaches⟩
    rw [eq_of_localId hunique hr hr' hnames hnames']
    exact hreaches
  . intro hreaches
    exact ⟨r, hr, hnames, hreaches⟩

theorem reaches_iff_of_traces (hr : Passes config now certs r) (wanted : Wanted)
    : Ends (round config now certs wanted) (State.at "" r) 1 ↔ Reaches config now certs r := by
  obtain ⟨_, hends, hret⟩ := ends_localId_of_traces hstale hids hunique hall hr wanted
  rw [← hret, hends.eq_iff]

theorem ends_one_of_traces (hr : Passes config now certs r) (wanted : Wanted)
    : Ends (round config now certs wanted) (State.at r.ski r) 1 ↔ Stops r ∨ Reaches config now certs r := by
  by_cases hstops : Stops r
  . exact iff_of_true ((ends_stop hstops).mpr rfl) (.inl hstops)
  . have haki : ¬r.aki.getD "" = "" := fun haki => hstops (.inr haki)
    rw [or_iff_right hstops, ← reaches_iff_of_traces hstale hids hunique hall hr wanted, ends_at hstale hstops,
      ends_at hstale (not_or.mpr ⟨haki, haki⟩)]

theorem acyclic_of_traces : ¬TransGen (Follows config now certs) r r := by
  intro hcycle
  obtain ⟨p, hfollows, -⟩ := TransGen.head'_iff.mp hcycle
  have haki : ¬r.aki.getD "" = "" := fun haki => hfollows.not_stops (.inr haki)
  obtain ⟨_, hends, -⟩ :=
    ends_localId_of_traces hstale hids hunique hall hfollows.passes (Wanted.ski "")
  rw [Ends.iff_of_inr (round_some (not_or.mpr ⟨haki, haki⟩) hfollows.lastParent_eq),
    ← Ends.iff_of_inr (round_some hfollows.not_stops hfollows.lastParent_eq)] at hends
  refine not_ends_of_cycle ?_ hends
  refine hcycle.lift (fun r => State.at r.ski r) ?_
  intro r p hfollows
  exact round_some hfollows.not_stops hfollows.lastParent_eq

theorem sound_of_traces : Sound config now certs where
  acyclic r := acyclic_of_traces hstale hids hunique hall
  anchors := by
    intro r hr haki
    apply (reaches_iff_of_traces hstale hids hunique hall hr (Wanted.ski "")).mp
    exact (Ends.iff_of_inl (round_stop (.inl haki))).mpr rfl
  parents := by
    intro r hr haki
    rw [← reaches_iff_of_traces hstale hids hunique hall hr (Wanted.ski ""),
      ends_at hstale (not_or.mpr ⟨haki, haki⟩)]
    refine exists_congr fun p => and_congr_right fun hp => ?_
    exact ends_one_of_traces hstale hids hunique hall (lastParent_passes hp) _
  keys := by
    intro k hshort p hp
    obtain ⟨hpasses, hkey⟩ := found_eq_some hp
    have hprev : (Wanted.ski k).prevSKI = p.ski := by simpa [Wanted.key, Wanted.prevSKI, eq_comm] using hkey
    obtain ⟨_, hends, hret⟩ := (traces_iff_of_some hp).mp (hall (.ski k) hshort)
    rw [hprev] at hends
    rw [← ends_one_of_traces hstale hids hunique hall hpasses (.ski k), ← hends.eq_iff, hret]
    rfl

end Converse

end Chain

section Texts

open checkValidity Walk

variable {config : Config} {now : Nat} {certs : List CertRow} {wanted : Wanted} {r p : CertRow}
  {s s' : State} {w w' : WhereStr} {ret : Nat} {res : Nat × WhereStr}

theorem goesOn_at {prevSKI : String} (h : ¬(r.aki.getD "" = prevSKI ∨ r.aki.getD "" = ""))
    : goesOn (State.at prevSKI r) = true := by
  simpa [goesOn, State.at] using h

theorem not_goesOn_at {prevSKI : String} (h : r.aki.getD "" = prevSKI ∨ r.aki.getD "" = "")
    : goesOn (State.at prevSKI r) = false := by
  simpa [goesOn, State.at, or_iff_not_imp_left] using h

theorem checkedRound_stop (hgoes : goesOn s = false)
    : checkedRound config now certs wanted (s, w) = .inl (some (1, w)) := by
  simp only [checkedRound, hgoes, Bool.false_eq_true, ↓reduceIte]

theorem checkedRound_abort (hgoes : goesOn s = true) (hfits : ¬w.Fits (insertion wanted s))
    : checkedRound config now certs wanted (s, w) = .inl none := by
  simp only [checkedRound, hgoes, hfits, ↓reduceIte]

theorem checkedRound_inl (hgoes : goesOn s = true) (hfits : w.Fits (insertion wanted s))
    (hround : round config now certs wanted s = .inl ret)
    : checkedRound config now certs wanted (s, w) = .inl (some (ret, w.insert (insertion wanted s))) := by
  simp only [checkedRound, hgoes, hfits, hround, ↓reduceIte]

theorem checkedRound_inr (hgoes : goesOn s = true) (hfits : w.Fits (insertion wanted s))
    (hround : round config now certs wanted s = .inr s')
    : checkedRound config now certs wanted (s, w) = .inr (s', w.insert (insertion wanted s)) := by
  simp only [checkedRound, hgoes, hfits, hround, ↓reduceIte]

theorem ends_of_checked (h : Ends (checkedRound config now certs wanted) (s, w) (some (ret, w')))
    : Ends (round config now certs wanted) s ret := by
  obtain ⟨fuel, hrun⟩ := h
  induction fuel generalizing s w with
  | zero => cases hrun
  | succ fuel ih =>
    cases hgoes : goesOn s with
    | false =>
      rw [run_inl (checkedRound_stop hgoes)] at hrun
      cases hrun
      have hround : round config now certs wanted s = .inl 1 := by
        simp only [checkValidity.round, hgoes, Bool.false_eq_true, ↓reduceIte]
      exact (Ends.iff_of_inl hround).mpr rfl
    | true =>
      by_cases hfits : w.Fits (insertion wanted s)
      . cases hround : round config now certs wanted s with
        | inl =>
          rw [run_inl (checkedRound_inl hgoes hfits hround)] at hrun
          cases hrun
          exact (Ends.iff_of_inl hround).mpr rfl
        | inr =>
          rw [run_inr (checkedRound_inr hgoes hfits hround)] at hrun
          exact (Ends.iff_of_inr hround).mpr (ih hrun)
      . rw [run_inl (checkedRound_abort hgoes hfits)] at hrun
        cases hrun

theorem fits_of_checked (h : Ends (checkedRound config now certs wanted) (s, w) (some res))
    (hgoes : goesOn s = true) : w.Fits (insertion wanted s) := by
  by_contra hfits
  cases (Ends.iff_of_inl (checkedRound_abort hgoes hfits)).mp h

theorem checked_next (h : Ends (checkedRound config now certs wanted) (s, w) (some res))
    (hgoes : goesOn s = true) (hround : round config now certs wanted s = .inr s')
    : Ends (checkedRound config now certs wanted) (s', w.insert (insertion wanted s)) (some res) :=
  (Ends.iff_of_inr (checkedRound_inr hgoes (fits_of_checked h hgoes) hround)).mp h

theorem decides_iff
    : Decides config now certs w wanted ↔
        ∃ ret w', Ends (checkedRound config now certs wanted) (⟨true, "", "", ""⟩, w) (some (ret, w')) ∧
          (ret = 1 ↔ ∃ r, Passes config now certs r ∧ wanted.Names r ∧ Reaches config now certs r) := by
  constructor
  . rintro ⟨ret, w', fuel, hrun, hret⟩
    exact ⟨ret, w', ⟨fuel, hrun fuel (Nat.le_refl _)⟩, hret⟩
  . rintro ⟨ret, w', ⟨fuel, hrun⟩, hret⟩
    exact ⟨ret, w', fuel, fun _ hle => run_mono hrun hle, hret⟩

theorem Decides.traces (h : Decides config now certs w wanted) : Traces config now certs wanted := by
  obtain ⟨ret, _, hends, hret⟩ := decides_iff.mp h
  exact ⟨ret, ends_of_checked hends, hret⟩

theorem checked_second (h : Decides config now certs w wanted)
    (hr : found config now certs wanted.key = some r)
    : ∃ res, Ends (checkedRound config now certs wanted) (State.at wanted.prevSKI r, w.insert wanted.text)
        (some res) := by
  obtain ⟨ret, w', hends, -⟩ := decides_iff.mp h
  exact ⟨(ret, w'), checked_next hends rfl (round_first_some hr)⟩

theorem textsFit_of_decides (hids : ∀ r ∈ certs, r.localId < 2 ^ 31)
    (hunique : (certs.map (·.localId)).Nodup)
    (hall : ∀ wanted : Wanted, wanted.Short → Decides config now certs w wanted)
    : TextsFit config now certs w where
  first wanted hshort := by
    obtain ⟨_, _, hends, -⟩ := decides_iff.mp (hall wanted hshort)
    exact fits_of_checked hends rfl
  second wanted hshort r hr haki := by
    obtain ⟨_, hends⟩ := checked_second (hall wanted hshort) hr
    exact fits_of_checked hends (goesOn_at haki)
  parents r hr haki p hp hstops := by
    -- the call for the local id of the row goes on to its parent even if the row is self-signed
    obtain ⟨_, hends⟩ := checked_second (hall (.localId _) trivial) (found_localId hids hunique hr)
    have haki := not_or.mpr ⟨haki, haki⟩
    have hends := checked_next hends (goesOn_at haki) (round_some haki hp)
    exact fits_of_checked hends (goesOn_at hstops)

variable (hstale : config.allowStaleValidationChain = false)

include hstale

theorem TextsFit.checked_at (hfit : TextsFit config now certs w) {fuel : Nat} {prevSKI text : String}
    (hr : Passes config now certs r)
    (hfits : ¬(r.aki.getD "" = prevSKI ∨ r.aki.getD "" = "") → (w.insert text).Fits (parentTextOf r))
    (hrun : run (round config now certs wanted) fuel (State.at prevSKI r) = some ret)
    : ∃ w', Ends (checkedRound config now certs wanted) (State.at prevSKI r, w.insert text) (some (ret, w')) := by
  induction fuel generalizing prevSKI text r with
  | zero => cases hrun
  | succ fuel ih =>
    by_cases h : r.aki.getD "" = prevSKI ∨ r.aki.getD "" = ""
    . rw [run_inl (round_stop h)] at hrun
      cases hrun
      exact ⟨_, (Ends.iff_of_inl (checkedRound_stop (not_goesOn_at h))).mpr rfl⟩
    cases hp : lastParent config now certs r with
    | none =>
      have hround : round config now certs wanted (State.at prevSKI r) = .inl 0 := round_none hstale h hp
      rw [run_inl hround] at hrun
      cases hrun
      exact ⟨_, (Ends.iff_of_inl (checkedRound_inl (goesOn_at h) (hfits h) hround)).mpr rfl⟩
    | some p =>
      have hround : round config now certs wanted (State.at prevSKI r) = .inr (State.at p.ski p) :=
        round_some h hp
      rw [run_inr hround] at hrun
      obtain ⟨w', hends⟩ := ih (lastParent_passes hp) (hfit.parents r hr (not_or.mp h).2 p hp) hrun
      exact ⟨w', (Ends.iff_of_inr (checkedRound_inr (goesOn_at h) (hfits h) hround)).mpr hends⟩

theorem TextsFit.decides (hfit : TextsFit config now certs w) (hshort : wanted.Short)
    (htraces : Traces config now certs wanted) : Decides config now certs w wanted := by
  obtain ⟨ret, hends, hret⟩ := htraces
  suffices hchecked : ∃ w', Ends (checkedRound config now certs wanted) (⟨true, "", "", ""⟩, w) (some (ret, w')) by
    obtain ⟨w', hchecked⟩ := hchecked
    exact decides_iff.mpr ⟨ret, w', hchecked, hret⟩
  cases hr : found config now certs wanted.key with
  | none =>
    have hround := round_first_none hstale hr
    rw [Ends.iff_of_inl hround] at hends
    subst hends
    exact ⟨_, (Ends.iff_of_inl (checkedRound_inl rfl (hfit.first wanted hshort) hround)).mpr rfl⟩
  | some r =>
    have hround := round_first_some hr
    obtain ⟨fuel, hrun⟩ := (Ends.iff_of_inr hround).mp hends
    obtain ⟨w', hends⟩ :=
      hfit.checked_at hstale (found_eq_some hr).1 (hfit.second wanted hshort r hr) hrun
    exact ⟨w', (Ends.iff_of_inr (checkedRound_inr rfl (hfit.first wanted hshort) hround)).mpr hends⟩

end Texts

def strictConfig : Config :=
  ⟨false, false, false, false, false⟩

def anchorRow : CertRow :=
  { filename := "anchor.cer", dirId := 1, localId := 1, flags := Flags.ca ||| Flags.trusted ||| Flags.validated,
    hash := .empty, subject := "CN=anchor", issuer := "CN=anchor", sn := [1], ski := "A1", aki := some "A1",
    sig := "00", valfrom := 0, valto := 10, sigval := .unknown }

def childRow : CertRow :=
  { filename := "child.cer", dirId := 1, localId := 2, flags := Flags.ca ||| Flags.validated ||| Flags.onman,
    hash := .empty, subject := "CN=child", issuer := "CN=anchor", sn := [2], ski := "C2", aki := some "A1",
    sig := "01", valfrom := 0, valto := 10, sigval := .unknown }

def selfSignedRow : CertRow :=
  { filename := "self.cer", dirId := 1, localId := 3, flags := Flags.ca ||| Flags.validated ||| Flags.onman,
    hash := .empty, subject := "CN=self", issuer := "CN=self", sn := [3], ski := "B3", aki := some "B3",
    sig := "02", valfrom := 0, valto := 10, sigval := .unknown }

theorem reaches_of_mem {r : CertRow} (hr : r ∈ [anchorRow, childRow])
    : Reaches strictConfig 5 [anchorRow, childRow] r := by
  have hanchor : Reaches strictConfig 5 [anchorRow, childRow] anchorRow :=
    .trusted ⟨mem_cons_self, by decide⟩ (by decide)
  rcases mem_cons.mp hr with rfl | hr
  . exact hanchor
  . obtain rfl := mem_singleton.mp hr
    exact .parent ⟨by decide, by decide⟩ rfl rfl hanchor

theorem sound_anchored : Sound strictConfig 5 [anchorRow, childRow] where
  acyclic := by
    intro r hcycle
    obtain ⟨p, hfollows, -⟩ := TransGen.head'_iff.mp hcycle
    obtain ⟨_, -, hfollows'⟩ := TransGen.tail'_iff.mp hcycle
    have heq {r p : CertRow} (h : Follows strictConfig 5 [anchorRow, childRow] r p)
        : r = childRow ∧ p = anchorRow := by
      rcases mem_cons.mp h.passes.mem with rfl | hr
      . exact absurd (.inl (by decide)) h.not_stops
      . obtain rfl := mem_singleton.mp hr
        refine ⟨rfl, some.inj (h.lastParent_eq.symm.trans ?_)⟩
        decide
    exact absurd ((heq hfollows).1.symm.trans (heq hfollows').2) (by decide)
  anchors := fun r hr _ => reaches_of_mem hr.mem
  parents := by
    intro r hr _
    refine iff_of_true (reaches_of_mem hr.mem) ⟨anchorRow, ?_, .inr (reaches_of_mem mem_cons_self)⟩
    rcases mem_cons.mp hr.mem with rfl | hr
    . decide
    . obtain rfl := mem_singleton.mp hr
      decide
  keys := by
    intro _ _ p hp
    obtain ⟨hpasses, hkey⟩ := found_eq_some hp
    have hreaches := reaches_of_mem hpasses.mem
    exact iff_of_true (.inr hreaches) ⟨p, hpasses, of_decide_eq_true hkey, hreaches⟩

def firstWhereStr : WhereStr where
  tests := 186
  inserted := 0

theorem utf8ByteSize_le (s : String) : s.utf8ByteSize ≤ 4 * s.length := by
  rw [← s.ofList_toList, String.utf8ByteSize_ofList, String.length_ofList]
  induction s.toList with
  | nil => exact Nat.le_refl 0
  | cons c cs ih =>
    rw [String.utf8Len_cons, length_cons]
    have hle := c.utf8Size_le_four
    omega

theorem toString_size_le (localID : BitVec 32) : (toString localID.toInt).utf8ByteSize ≤ 41 := by
  have hle : -2 ^ 31 ≤ localID.toInt := localID.le_toInt
  have hlt : localID.toInt < 2 ^ 31 := localID.toInt_lt
  have hminus : "-".utf8ByteSize = 1 := by decide
  have hrepr (n : Nat) (h : n < 10 ^ 10) : n.repr.utf8ByteSize ≤ 40 := by
    have hlength := Nat.repr_length n 10 (by decide) h
    have hsize := utf8ByteSize_le n.repr
    omega
  cases h : localID.toInt with
  | ofNat m =>
    rw [h, Int.ofNat_eq_natCast] at hlt
    exact Nat.le_succ_of_le (hrepr m (by omega))
  | negSucc m =>
    have hsize := hrepr m.succ (by omega)
    change ("-" ++ m.succ.repr).utf8ByteSize ≤ 41
    rw [String.utf8ByteSize_append]
    omega

theorem text_size_le {wanted : Wanted} (hshort : wanted.Short) : wanted.text.utf8ByteSize ≤ 138 := by
  cases wanted with
  | ski k =>
    have hshort : k.utf8ByteSize < 128 := hshort
    have hstart : " and ski=\"".utf8ByteSize = 10 := by decide
    have hend : "\"".utf8ByteSize = 1 := by decide
    rw [Wanted.text, String.utf8ByteSize_append, String.utf8ByteSize_append]
    omega
  | localId localID =>
    have hstart : " and local_id=\"".utf8ByteSize = 15 := by decide
    have hend : "\"".utf8ByteSize = 1 := by decide
    have hsize := toString_size_le localID
    rw [Wanted.text, String.utf8ByteSize_append, String.utf8ByteSize_append]
    omega

theorem parentTextOf_size_le {r : CertRow} (hr : r ∈ [anchorRow, childRow])
    : (parentTextOf r).utf8ByteSize ≤ 50 := by
  rcases mem_cons.mp hr with rfl | hr
  . decide
  . obtain rfl := mem_singleton.mp hr
    decide

theorem textsFit_anchored : TextsFit strictConfig 5 [anchorRow, childRow] firstWhereStr where
  first wanted hshort := by
    have hle := text_size_le hshort
    have hsize : whereStrSize = 1024 := rfl
    simp only [WhereStr.Fits, firstWhereStr]
    omega
  second wanted hshort r hr _ := by
    have hle := text_size_le hshort
    have hle' := parentTextOf_size_le (found_eq_some hr).1.mem
    have hsize : whereStrSize = 1024 := rfl
    simp only [WhereStr.Fits, WhereStr.insert, firstWhereStr]
    omega
  parents r hr _ p hp _ := by
    have hle := parentTextOf_size_le hr.mem
    have hle' := parentTextOf_size_le (lastParent_passes hp).mem
    have hsize : whereStrSize = 1024 := rfl
    simp only [WhereStr.Fits, WhereStr.insert, firstWhereStr]
    omega

theorem exists_trusted {config : Config} {now : Nat} {certs : List CertRow} {r : CertRow}
    (h : Reaches config now certs r) : ∃ p ∈ certs, p.flags.has Flags.trusted = true := by
  induction h with
  | trusted hr htrusted => exact ⟨_, hr.mem, htrusted⟩
  | parent _ _ _ _ ih => exact ih

end Rpstir.Query
