import Mathlib.Data.List.Lattice
import Rpstir.Rtr.History
import Rpstir.Rtr.Lemmas.ResetQuery
import Rpstir.Rtr.SerialQuery

/-!
This module contains the proof that the answer to a serial query leads from the prefixes of the serial
number of the client to the prefixes of the serial number in its End of Data.
-/

namespace Rpstir.Rtr

open List Option

variable {t t' : Tables} {e : Env} {p : Proc} {n : Next}

def FromRow (t : Tables) (r' : UpdateRow) : Prop :=
  ∃ r ∈ t.update, r.serialNum = r'.serialNum ∧
    (r'.prevSerialNum = r.prevSerialNum ∨ r'.prevSerialNum = none)

variable {r : UpdateRow}

theorem FromRow.of_mem (hr : r ∈ t.update) : FromRow t r := by
  exact ⟨r, hr, rfl, Or.inl rfl⟩

variable {rows : List IncrementalRow}

theorem FromRow.of_mem_map {f : UpdateRow → UpdateRow} {r' : UpdateRow} (hr' : r' ∈ t.update.map f)
    (hserial : ∀ r, (f r).serialNum = r.serialNum)
    (hprev : ∀ r, (f r).prevSerialNum = r.prevSerialNum ∨ (f r).prevSerialNum = none)
    : FromRow t r' := by
  rcases List.mem_map.mp hr' with ⟨r, hr, rfl⟩
  exact ⟨r, hr, (hserial r).symm, hprev r⟩

theorem Proc.step_fromRow (h : p.step e t = some (t', n)) {r' : UpdateRow} (hr' : r' ∈ t'.update)
    : FromRow t r' ∨
      (p.pc = .insertUpdate ∧ r'.serialNum = p.currentSerial ∧
        r'.prevSerialNum = if p.firstTime then none else some p.previousSerial) := by
  rcases p with ⟨pc, _, firstTime, previousSerial, currentSerial, _⟩
  cases pc with
  | insertUpdate =>
    simp only [Proc.step] at h
    split at h
    . cases h
      exact Or.inl (.of_mem hr')
    next t1 hinsert =>
    cases h
    rw [Tables.insertUpdate_eq_some hinsert, List.mem_append, mem_singleton] at hr'
    rcases hr' with hr' | rfl
    . exact Or.inl (.of_mem hr')
    . exact Or.inr ⟨rfl, rfl, rfl⟩
  | insertAnnouncements | insertWithdrawals =>
    left
    simp only [Proc.step] at h
    split at h
    . cases h
      exact .of_mem hr'
    . next t1 hinsert =>
      cases h
      rcases Tables.insertIncremental_eq_some hinsert with ⟨_, rfl, -⟩
      exact .of_mem hr'
  | ignoreOldFull =>
    cases h
    left
    apply FromRow.of_mem_map hr'
    . intro r
      split <;> rfl
    . intro r
      split <;> exact Or.inl rfl
  | ignoreOldIncremental =>
    cases h
    left
    apply FromRow.of_mem_map hr'
    . intro r
      split <;> rfl
    . intro r
      split
      . exact Or.inr rfl
      . exact Or.inl rfl
  | deleteOldUpdate =>
    cases h
    exact Or.inl (.of_mem (mem_of_mem_filter hr'))
  | hasValidSession | getLatestSernum | goodSerials | insertFull | hasIncrementalChanges =>
    left
    simp only [Proc.step] at h
    split at h <;> cases h <;> exact .of_mem hr'
  | deleteIncompleteIncremental | deleteIncompleteFull | deleteFull | deleteOldFull
  | deleteOldIncremental =>
    cases h
    exact Or.inl (.of_mem hr')

def IncrementalRow.key (r : IncrementalRow) : Serial × Prefix := (r.serialNum, r.pfx)

def KeysNodup (t : Tables) : Prop := (t.incremental.map IncrementalRow.key).Nodup

theorem KeysNodup.sublist (h : KeysNodup t) (hsub : t'.incremental.Sublist t.incremental)
    : KeysNodup t' := by
  exact List.Nodup.sublist (hsub.map _) h

theorem KeysNodup.insertIncremental (h : KeysNodup t) (hfull : t.full.Nodup) {serial t1 t2 : Serial}
    {isAnnounce : Bool} (hinsert : t.insertIncremental serial isAnnounce t2 t1 = some t')
    : KeysNodup t' := by
  unfold Tables.insertIncremental at hinsert
  dsimp only at hinsert
  split at hinsert
  . contradiction
  next hkeys =>
  rw [some.injEq] at hinsert
  rw [← hinsert, KeysNodup, map_append, nodup_append]
  refine ⟨h, ?_, ?_⟩
  . rw [map_filterMap]
    apply (Tables.fullPrefixes_nodup hfull).filterMap
    intro _ q k hp hq
    simp only [mem_def, map_eq_some_iff, ite_none_left_eq_some,
      some.injEq] at hp hq
    rcases hp with ⟨r, ⟨-, rfl⟩, rfl⟩
    rcases hq with ⟨r, ⟨-, rfl⟩, hkey⟩
    exact (Prod.mk.inj hkey).2.symm
  intro k hk _ hk' heq
  rcases List.mem_map.mp hk with ⟨r, hr, rfl⟩
  rcases List.mem_map.mp hk' with ⟨r', hr', rfl⟩
  have hserial : r'.serialNum = serial := by
    simp only [mem_filterMap, ite_none_left_eq_some, some.injEq] at hr'
    rcases hr' with ⟨q, -, -, rfl⟩
    rfl
  apply hkeys
  rw [List.any_eq_true]
  refine ⟨r', hr', ?_⟩
  rw [List.any_eq_true]
  have hkey := Prod.mk.inj heq
  exact ⟨r, hr, by simp [hkey.1, hkey.2, hserial]⟩

theorem KeysNodup.step (hkeys : KeysNodup t) (hfull : t.full.Nodup)
    (h : p.step e t = some (t', n)) : KeysNodup t' := by
  rcases p with ⟨pc, _, _, _, _, _⟩
  cases pc with
  | insertAnnouncements | insertWithdrawals =>
    simp only [Proc.step] at h
    split at h
    . cases h
      exact hkeys
    . next t1 hinsert =>
      cases h
      exact hkeys.insertIncremental hfull hinsert
  | insertUpdate =>
    simp only [Proc.step] at h
    split at h
    . cases h
      exact hkeys
    . next t1 hinsert =>
      cases h
      rw [Tables.insertUpdate_eq_some hinsert]
      exact hkeys
  | hasValidSession | getLatestSernum | goodSerials | insertFull | hasIncrementalChanges =>
    simp only [Proc.step] at h
    split at h <;> cases h <;> exact hkeys
  | deleteIncompleteIncremental | deleteOldIncremental =>
    cases h
    exact hkeys.sublist filter_sublist
  | deleteIncompleteFull | deleteFull | ignoreOldFull | deleteOldFull | deleteOldUpdate
  | ignoreOldIncremental =>
    cases h
    exact hkeys

theorem KeysNodup.nodup_pfx (h : KeysNodup t) (serial : Serial)
    : ((t.incrementalRows serial).map (·.pfx)).Nodup := by
  rw [Tables.incrementalRows, nodup_map_iff_inj_on]
  . intro _ hr _ hr' heq
    rw [mem_filter, beq_iff_eq] at hr hr'
    apply inj_on_of_nodup_map h hr.1 hr'.1
    simp [IncrementalRow.key, hr.2, hr'.2, heq]
  . exact (List.Nodup.of_map _ h).filter _

theorem Tables.map_serialQryGetNext (serial : Serial) (firstRow : Option Prefix) (limit : Nat)
    : (t.serialQryGetNext serial firstRow limit).map (·.pfx)
        =
      Paging.page ((t.incrementalRows serial).map (·.pfx)) firstRow limit := by
  unfold serialQryGetNext Paging.page
  rw [map_take, List.filter_map]
  congr 1
  apply map_insertionSort
  intro _ _ _ _
  rfl

section Changed

variable {snapshot : Serial → List Prefix} {prev serial : Serial}

def changed (snapshot : Serial → List Prefix) (prev serial : Serial) : List Prefix :=
  (snapshot serial).filter (· ∉ snapshot prev) ++ (snapshot prev).filter (· ∉ snapshot serial)

theorem mem_changed {q : Prefix}
    : q ∈ changed snapshot prev serial
        ↔
      InDelta snapshot prev serial (decide (q ∈ snapshot serial)) q := by
  by_cases hq : q ∈ snapshot serial <;> simp [changed, InDelta, hq]

theorem InDelta.eq_decide {b : Bool} {q : Prefix} (h : InDelta snapshot prev serial b q)
    : b = decide (q ∈ snapshot serial) := by
  cases b <;> simp_all [InDelta]

def changePdu (snapshot : Serial → List Prefix) (serial : Serial) (q : Prefix) : Pdu :=
  .ipPrefix q (decide (q ∈ snapshot serial))

theorem applyPdus_append (pdus pdus' : List Pdu) (prefixes : Set Prefix)
    : applyPdus (pdus ++ pdus') prefixes = applyPdus pdus' (applyPdus pdus prefixes) := by
  rw [applyPdus, filterMap_append, Delta.applyChanges_append]
  rfl

theorem applyPdus_concat {pdu : Pdu} (h : pdu.change = none) (pdus : List Pdu) (prefixes : Set Prefix)
    : applyPdus (pdus ++ [pdu]) prefixes = applyPdus pdus prefixes := by
  simp [applyPdus, h]

theorem applyPdus_map_changePdu {read : List Prefix}
    (hall : ∀ q ∈ changed snapshot prev serial, q ∈ read)
    : applyPdus (read.map (changePdu snapshot serial)) { q | q ∈ snapshot prev }
        =
      { q | q ∈ snapshot serial } := by
  have hchanges : (read.map (changePdu snapshot serial)).filterMap Pdu.change
      = read.map fun q => (decide (q ∈ snapshot serial), q) := by
    rw [filterMap_map, ← filterMap_eq_map]
    rfl
  rw [applyPdus, hchanges]
  apply Delta.applyChanges_map_eq
  . simp
  . intro q hq
    have hq := mt (hall q) hq
    rw [mem_changed] at hq
    by_cases hserial : q ∈ snapshot serial <;> simp_all [InDelta]

end Changed

variable {snapshot : Serial → List Prefix} {last : Option UpdateRow}

variable {prev : Serial}

section

variable (h : StoreInv snapshot last t) (hr : r ∈ t.update) (hprev : r.prevSerialNum = some prev)

include h hr hprev

theorem StoreInv.mem_incrementalRows {row : IncrementalRow}
    (hrow : row ∈ t.incrementalRows r.serialNum)
    : row.isAnnounce = decide (row.pfx ∈ snapshot r.serialNum) := by
  rcases row with ⟨_, isAnnounce, q⟩
  rw [Tables.incrementalRows, mem_filter, beq_iff_eq] at hrow
  rcases hrow with ⟨hmem, rfl⟩
  exact ((h.mem_incremental r hr prev hprev isAnnounce q).mp hmem).eq_decide

theorem StoreInv.mem_pfx_incrementalRows (q : Prefix)
    : q ∈ (t.incrementalRows r.serialNum).map (·.pfx) ↔ q ∈ changed snapshot prev r.serialNum := by
  rw [mem_changed, ← h.mem_incremental r hr prev hprev, List.mem_map]
  constructor
  . rintro ⟨_, hrow, rfl⟩
    rw [← h.mem_incrementalRows hr hprev hrow]
    rw [Tables.incrementalRows, mem_filter, beq_iff_eq] at hrow
    rw [← hrow.2]
    exact hrow.1
  . intro hmem
    refine ⟨⟨r.serialNum, decide (q ∈ snapshot r.serialNum), q⟩, ?_, rfl⟩
    rw [Tables.incrementalRows, mem_filter, beq_iff_eq]
    exact ⟨hmem, rfl⟩

end

structure ReadPart (snapshot : Serial → List Prefix) (prev serial : Serial) (firstRow : Option Prefix)
    (before out : List Pdu) (read : List Prefix) : Prop where
  out_eq : out = before ++ read.map (changePdu snapshot serial)
  firstRow_eq : firstRow = read.getLast?
  readUpTo : Paging.ReadUpTo read (changed snapshot prev serial)

theorem ReadPart.page {serial : Serial} {firstRow : Option Prefix} {before out : List Pdu}
    {read : List Prefix} (h : ReadPart snapshot prev serial firstRow before out read)
    (hstore : StoreInv snapshot last t) (hkeys : KeysNodup t) (hr : r ∈ t.update)
    (hserial : r.serialNum = serial) (hprev : r.prevSerialNum = some prev) (limit : Nat)
    (hrows : t.serialQryGetNext serial firstRow limit = rows)
    : ReadPart snapshot prev serial (rows.getLast?.map (·.pfx) <|> firstRow) before
        (out ++ rows.map fun r => .ipPrefix r.pfx r.isAnnounce) (read ++ rows.map (·.pfx)) ∧
      (rows.length < limit → ∀ q ∈ changed snapshot prev serial, q ∈ read ++ rows.map (·.pfx)) := by
  subst hserial
  have hmem := hstore.mem_pfx_incrementalRows hr hprev
  have hpage := (h.readUpTo.congr hmem).page (hkeys.nodup_pfx r.serialNum) limit
  have hpfx := t.map_serialQryGetNext r.serialNum firstRow limit
  rw [← h.firstRow_eq, ← hpfx, hrows, length_map] at hpage
  refine ⟨⟨?_, ?_, ?_⟩, ?_⟩
  . rw [h.out_eq, append_assoc, map_append, List.map_map]
    congr 2
    apply map_congr_left
    intro row hrow
    have hrow : row ∈ t.incrementalRows r.serialNum := by
      rw [← hrows] at hrow
      have := mem_of_mem_take hrow
      rw [mem_insertionSort] at this
      exact mem_of_mem_filter this
    rw [hstore.mem_incrementalRows hr hprev hrow]
    rfl
  . rw [h.firstRow_eq, getLast?_append, getLast?_map]
    cases rows.getLast? <;> rfl
  . exact hpage.1.congr fun q => (hmem q).symm
  . intro hlt q hq
    exact hpage.2 hlt q ((hmem q).mpr hq)

namespace SerialSystem

variable {s s' : SerialSystem}

def Usable (s : SerialSystem) (r : UpdateRow) : Prop :=
  r ∈ s.system.tables.update ∧ r.serialNum = s.query.state.serNum ∧ r.prevSerialNum.isSome

structure Walking (s : SerialSystem) (prev : Serial) (before out : List Pdu) (read : List Prefix)
    : Prop where
  serial_used : s.query.serial ∈ s.used
  prev_used : prev ∈ s.used
  serNum_used : s.query.state.serNum ∈ s.used
  before_eq : applyPdus before (s.system.prefixSet s.query.serial) = s.system.prefixSet prev
  link : ∀ r, s.Usable r → r.prevSerialNum = some prev
  readPart : ∀ r, s.Usable r →
    ReadPart s.system.snapshot prev s.query.state.serNum s.query.state.firstRow before out read

structure LeadsTo (s : SerialSystem) (out : List Pdu) (serial : Serial) : Prop where
  client_used : s.query.serial ∈ s.used
  serial_used : serial ∈ s.used
  apply_eq : applyPdus out (s.system.prefixSet s.query.serial) = s.system.prefixSet serial

def Answered (s : SerialSystem) : Prop :=
  (∃ session serial, s.query.sent.getLast? = some (.endOfData session serial) ∧
    s.LeadsTo s.query.sent serial) ∨
  s.query.sent.getLast? = some .cacheReset ∨
  ∃ code, s.query.sent.getLast? = some (.errorReport code)

structure Starting (s : SerialSystem) : Prop where
  sent_eq : s.query.sent = []
  dataSent_eq : s.query.state.dataSent = false
  noNewData_eq : s.query.state.noNewData = false
  firstRow_eq : s.query.state.firstRow = none

def Initialized (s : SerialSystem) : Prop :=
  s.query.sent = [] ∧
    (s.query.state.notReady = true ∨ s.query.state.badSerNum = true ∨
      (s.query.state.noNewData = true ∧ s.LeadsTo [] s.query.state.serNum) ∨
      (s.query.state.noNewData = false ∧ ∃ prev, s.Walking prev [] [] []))

def QueryInv (s : SerialSystem) : Prop :=
  match s.query.pc with
  | .readSerNumAsPrev => s.Starting
  | .readSerNumAsCurrent => s.Starting
  | .hasRowsRtrUpdate => s.Starting
  | .getNext =>
    (s.query.state.dataSent = true → ∃ prev before read, s.Walking prev before s.query.sent read) ∧
      (s.query.state.dataSent = false → s.Initialized)
  | .serialQryGetNext maxRows pdus =>
    s.query.state.dataSent = true ∧ pdus.length ≤ maxRows ∧
      ∃ prev before read, s.Walking prev before (s.query.sent ++ pdus) read
  | .checkSerNum pdus =>
    s.query.state.dataSent = true ∧
      ∃ prev before read, s.Walking prev before (s.query.sent ++ pdus) read ∧
        ∀ r, s.Usable r → ∀ q ∈ changed s.system.snapshot prev s.query.state.serNum, q ∈ read
  | .findNextSerNum pdus =>
    s.query.state.dataSent = true ∧ s.LeadsTo (s.query.sent ++ pdus) s.query.state.serNum
  | .done => s.Answered

structure Later (s s' : SerialSystem) : Prop where
  query_eq : s'.query = s.query
  used_subset : s.used ⊆ s'.used
  snapshot_eq : ∀ serial ∈ s.used, s'.system.snapshot serial = s.system.snapshot serial
  fromRow : ∀ r' ∈ s'.system.tables.update, r'.serialNum ∈ s.used → FromRow s.system.tables r'

namespace Later

variable {prev : Serial} {before out : List Pdu} {read : List Prefix}

section

variable (h : Later s s')

include h

theorem prefixSet_eq {serial : Serial} (hused : serial ∈ s.used)
    : s'.system.prefixSet serial = s.system.prefixSet serial := by
  rw [System.prefixSet, System.prefixSet, h.snapshot_eq serial hused]

theorem usable (hused : s.query.state.serNum ∈ s.used) {r' : UpdateRow}
    (hr' : s'.Usable r') : ∃ r, s.Usable r ∧ r'.prevSerialNum = r.prevSerialNum := by
  rcases hr' with ⟨hmem, hserial, hprev⟩
  rw [h.query_eq] at hserial
  rcases h.fromRow r' hmem (by rw [hserial]; exact hused) with ⟨r, hr, heq, hlink | hlink⟩
  . refine ⟨r, ⟨hr, heq.trans hserial, ?_⟩, hlink⟩
    rw [← hlink]
    exact hprev
  . rw [hlink] at hprev
    contradiction

theorem changed_eq (hprev : prev ∈ s.used) (hserial : s.query.state.serNum ∈ s.used)
    : changed s'.system.snapshot prev s.query.state.serNum
        =
      changed s.system.snapshot prev s.query.state.serNum := by
  rw [changed, h.snapshot_eq _ hprev, h.snapshot_eq _ hserial]
  rfl

theorem leadsTo {serial : Serial} (hleads : s.LeadsTo out serial)
    : s'.LeadsTo out serial where
  client_used := h.query_eq ▸ h.used_subset hleads.client_used
  serial_used := h.used_subset hleads.serial_used
  apply_eq := by
    rw [h.query_eq, h.prefixSet_eq hleads.client_used, h.prefixSet_eq hleads.serial_used]
    exact hleads.apply_eq

theorem walking (hwalk : s.Walking prev before out read)
    : s'.Walking prev before out read where
  serial_used := h.query_eq ▸ h.used_subset hwalk.serial_used
  prev_used := h.used_subset hwalk.prev_used
  serNum_used := h.query_eq ▸ h.used_subset hwalk.serNum_used
  before_eq := by
    rw [h.query_eq, h.prefixSet_eq hwalk.serial_used, h.prefixSet_eq hwalk.prev_used]
    exact hwalk.before_eq
  link := by
    intro r' hr'
    rcases h.usable hwalk.serNum_used hr' with ⟨r, hr, hlink⟩
    exact hlink.trans (hwalk.link r hr)
  readPart := by
    intro r' hr'
    rcases h.usable hwalk.serNum_used hr' with ⟨r, hr, -⟩
    rcases hwalk.readPart r hr with ⟨hout, hfirst, hread⟩
    rw [h.query_eq]
    refine ⟨?_, hfirst, ?_⟩
    . rw [hout]
      unfold changePdu
      rw [h.snapshot_eq _ hwalk.serNum_used]
    . rw [h.changed_eq hwalk.prev_used hwalk.serNum_used]
      exact hread

theorem answered (hanswered : s.Answered) : s'.Answered := by
  unfold Answered at hanswered ⊢
  rw [h.query_eq]
  rcases hanswered with ⟨session, serial, hlast, hleads⟩ | hanswered
  . exact Or.inl ⟨session, serial, hlast, h.leadsTo hleads⟩
  . exact Or.inr hanswered

theorem initialized (hinit : s.Initialized) : s'.Initialized := by
  unfold Initialized at hinit ⊢
  rw [h.query_eq]
  rcases hinit with ⟨hsent, hready | hbad | ⟨hnew, hleads⟩ | ⟨hnew, prev, hwalk⟩⟩
  . exact ⟨hsent, Or.inl hready⟩
  . exact ⟨hsent, Or.inr (Or.inl hbad)⟩
  . exact ⟨hsent, Or.inr (Or.inr (Or.inl ⟨hnew, h.leadsTo hleads⟩))⟩
  . exact ⟨hsent, Or.inr (Or.inr (Or.inr ⟨hnew, prev, h.walking hwalk⟩))⟩

theorem starting (hstart : s.Starting) : s'.Starting := by
  rcases hstart with ⟨_, _, _, _⟩
  constructor <;> rw [h.query_eq] <;> assumption

theorem queryInv (hinv : s.QueryInv) : s'.QueryInv := by
  unfold QueryInv at hinv ⊢
  rw [h.query_eq]
  generalize s.query.pc = pc at hinv ⊢
  cases pc with
  | readSerNumAsPrev | readSerNumAsCurrent | hasRowsRtrUpdate => exact h.starting hinv
  | getNext =>
    refine ⟨?_, fun hsent => h.initialized (hinv.2 hsent)⟩
    intro hsent
    rcases hinv.1 hsent with ⟨prev, before, read, hwalk⟩
    exact ⟨prev, before, read, h.walking hwalk⟩
  | serialQryGetNext =>
    rcases hinv with ⟨hsent, hlength, prev, before, read, hwalk⟩
    exact ⟨hsent, hlength, prev, before, read, h.walking hwalk⟩
  | checkSerNum =>
    rcases hinv with ⟨hsent, prev, before, read, hwalk, hall⟩
    refine ⟨hsent, prev, before, read, h.walking hwalk, ?_⟩
    intro _ hr'
    rcases h.usable hwalk.serNum_used hr' with ⟨r, hr, -⟩
    rw [h.changed_eq hwalk.prev_used hwalk.serNum_used]
    exact hall r hr
  | findNextSerNum => exact ⟨hinv.1, h.leadsTo hinv.2⟩
  | done => exact h.answered hinv

end

end Later
structure Inv (s : SerialSystem) : Prop where
  system : s.system.Inv
  keys : KeysNodup s.system.tables
  serialNum_used : ∀ r ∈ s.system.tables.update, r.serialNum ∈ s.used
  prev_used : ∀ r ∈ s.system.tables.update, ∀ prev, r.prevSerialNum = some prev → prev ∈ s.used
  query : s.QueryInv

variable {serial : Serial} {system : System}

theorem snapshot_record (h : p.pc = .insertFull → serial ≠ p.currentSerial)
    : (system.record e p t).snapshot serial = system.snapshot serial := by
  unfold System.record
  split
  . next hpc => exact Function.update_of_ne (h hpc) _ _
  all_goals rfl

theorem Inv.statement (hinv : s.Inv) (hnext : s.system.next (.statement e) = some system)
    (hdistinct : s.Distinct (.update (.statement e))) (hlater : s.system.LaterSecond (.statement e))
    (hs' : s' = { s with system := system, used := s.used ∪ system.tables.update.map (·.serialNum) })
    : s'.Inv := by
  have hsystem := hinv.system.next hnext hlater
  rcases System.next_statement hnext with ⟨p, t, _, hproc, hstep, rfl⟩
  have hdistinct := hdistinct p hproc
  subst hs'
  constructor
  case system => exact hsystem
  case keys => exact hinv.keys.step hinv.system.full.store.nodup hstep
  case serialNum_used =>
    intro r' hr'
    exact mem_union_right _ (List.mem_map_of_mem hr')
  case prev_used =>
    intro r' hr' prev hprev
    refine mem_union_left ?_ _
    rcases Proc.step_fromRow hstep hr' with ⟨r, hr, -, hlink | hlink⟩ | ⟨hpc, -, hlink⟩
    . rw [hprev] at hlink
      exact hinv.prev_used r hr prev hlink.symm
    . rw [hprev] at hlink
      contradiction
    -- The row that is inserted links to the one that was inserted before it.
    have hproc := hinv.system.proc p hproc
    rw [ProcInv, hpc] at hproc
    rw [hprev] at hlink
    cases hfirst : p.firstTime with
    | true => simp [hfirst] at hlink
    | false =>
      rcases hproc.1.previous_mem hfirst with ⟨r, hr, -, hserial⟩
      rw [hfirst, if_neg Bool.false_ne_true, some.injEq] at hlink
      rw [hlink, ← hserial]
      exact hinv.serialNum_used r hr
  case query =>
    apply Later.queryInv _ hinv.query
    refine ⟨rfl, fun serial hserial => mem_union_left hserial _, ?_, ?_⟩
    . intro serial hserial
      apply snapshot_record
      rintro hpc rfl
      exact hdistinct (Or.inl hpc) hserial
    intro r' hr' hused
    rcases Proc.step_fromRow hstep hr' with hold | ⟨hpc, hserial, -⟩
    . exact hold
    . rw [hserial] at hused
      exact absurd hused (hdistinct (Or.inr hpc))

theorem Inv.of_tables_eq (hinv : s.Inv) (hsystem : system.Inv)
    (htables : system.tables = s.system.tables) (hsnapshot : system.snapshot = s.system.snapshot)
    : Inv { s with system := system, used := s.used ∪ system.tables.update.map (·.serialNum) } where
  system := hsystem
  keys := by
    rw [htables]
    exact hinv.keys
  serialNum_used := by
    intro r hr
    exact mem_union_right _ (List.mem_map_of_mem hr)
  prev_used := by
    intro r hr prev hprev
    rw [htables] at hr
    exact mem_union_left (hinv.prev_used r hr prev hprev) _
  query := by
    apply Later.queryInv _ hinv.query
    refine ⟨rfl, fun serial hserial => mem_union_left hserial _, ?_, ?_⟩
    . intro serial _
      exact congrFun hsnapshot serial
    . intro r hr _
      rw [htables] at hr
      exact .of_mem hr

section Query

variable {q : SerialQuery} {out before : List Pdu} {read : List Prefix} {prev serial : Serial}

theorem answered_fail : Answered { s with query := q.fail } := by
  refine Or.inr (Or.inr ⟨.internalError, ?_⟩)
  exact getLast?_concat

theorem queryInv_getNext (hpc : s.query.pc = .getNext)
    (h : if s.query.state.dataSent then ∃ prev before read, s.Walking prev before s.query.sent read
      else s.Initialized)
    : s.QueryInv := by
  unfold QueryInv
  rw [hpc]
  split at h <;> simp_all

theorem Inv.walking (hinv : s.Inv) (hleads : s.LeadsTo out prev) {r : UpdateRow}
    (hr : r ∈ s.system.tables.update) (hprev : r.prevSerialNum = some prev)
    (hserial : q.serial = s.query.serial) (hserNum : q.state.serNum = r.serialNum)
    (hfirst : q.state.firstRow = none) : Walking { s with query := q } prev out out [] where
  serial_used := hserial ▸ hleads.client_used
  prev_used := hleads.serial_used
  serNum_used := hserNum ▸ hinv.serialNum_used r hr
  before_eq := hserial ▸ hleads.apply_eq
  link := by
    rintro r' ⟨hr', hserial', -⟩
    rw [hinv.system.store.linked.ext_serialNum hr' hr (hserial'.trans hserNum)]
    exact hprev
  readPart := by
    intro r' _
    exact ⟨by simp, hfirst, .nil⟩

theorem Inv.page (hinv : s.Inv) (hwalk : s.Walking prev before out read) {limit : Nat}
    (hrows : s.system.tables.serialQryGetNext s.query.state.serNum s.query.state.firstRow limit = rows)
    (hserial : q.serial = s.query.serial) (hserNum : q.state.serNum = s.query.state.serNum)
    (hfirst : q.state.firstRow = (rows.getLast?.map (·.pfx) <|> s.query.state.firstRow))
    : Walking { s with query := q } prev before
        (out ++ rows.map fun r => .ipPrefix r.pfx r.isAnnounce) (read ++ rows.map (·.pfx)) ∧
      (rows.length < limit → ∀ r, Usable { s with query := q } r →
        ∀ p ∈ changed s.system.snapshot prev q.state.serNum, p ∈ read ++ rows.map (·.pfx)) := by
  have husable : ∀ r, Usable { s with query := q } r → s.Usable r := by
    rintro r ⟨hr, hserial', hprev⟩
    exact ⟨hr, hserial'.trans hserNum, hprev⟩
  have hpage : ∀ r, s.Usable r → _ := fun r hr =>
    (hwalk.readPart r hr).page hinv.system.store hinv.keys hr.1 hr.2.1 (hwalk.link r hr) limit hrows
  refine ⟨⟨hserial ▸ hwalk.serial_used, hwalk.prev_used, hserNum ▸ hwalk.serNum_used,
    hserial ▸ hwalk.before_eq, fun r hr => hwalk.link r (husable r hr), ?_⟩, ?_⟩
  . intro r hr
    rw [hserNum, hfirst]
    exact (hpage r (husable r hr)).1
  . intro hlt r hr
    rw [hserNum]
    exact (hpage r (husable r hr)).2 hlt

theorem Inv.doQuery (hinv : s.Inv) {maxRows : Nat} {pdus : List Pdu}
    (hwalk : s.Walking prev before (s.query.sent ++ pdus) read) (hlength : pdus.length ≤ maxRows)
    (hsent : s.query.state.dataSent = true)
    : QueryInv { s with query := s.query.doQuery maxRows pdus (s.system.tables.serialQryGetNext
        s.query.state.serNum s.query.state.firstRow (maxRows - pdus.length)) } := by
  generalize hrows : s.system.tables.serialQryGetNext s.query.state.serNum s.query.state.firstRow
    (maxRows - pdus.length) = rows
  have hrowsLength : rows.length ≤ maxRows - pdus.length := by
    rw [← hrows, Tables.serialQryGetNext]
    exact length_take_le _ _
  unfold SerialQuery.doQuery
  split
  . exact answered_fail
  next hnew =>
  have hnew := mapM_fillPduIpPrefix hnew
  have hpage : ∀ pc sent, _ := fun pc sent =>
    hinv.page hwalk hrows (q := ⟨s.query.serial, pc, { s.query.state with
      firstRow := rows.getLast?.map (·.pfx) <|> s.query.state.firstRow }, sent⟩) rfl rfl rfl
  rw [← hnew, append_assoc] at hpage
  dsimp only
  split
  . apply queryInv_getNext rfl
    rw [if_pos hsent]
    exact ⟨_, _, _, (hpage _ _).1⟩
  . next hfull =>
    refine ⟨hsent, _, _, _, (hpage _ _).1, (hpage _ _).2 ?_⟩
    rw [length_append, hnew, length_map] at hfull
    omega

theorem Walking.leadsTo (hwalk : s.Walking prev before out read) {r : UpdateRow} (hr : s.Usable r)
    (hall : ∀ q ∈ changed s.system.snapshot prev s.query.state.serNum, q ∈ read)
    : s.LeadsTo out s.query.state.serNum where
  client_used := hwalk.serial_used
  serial_used := hwalk.serNum_used
  apply_eq := by
    rw [(hwalk.readPart r hr).out_eq, applyPdus_append, hwalk.before_eq]
    exact applyPdus_map_changePdu hall

theorem exists_of_readSerNumAsPrev {next : Serial} (h : t.readSerNumAsPrev serial = some next)
    : ∃ r ∈ t.update, r.prevSerialNum = some serial ∧ r.serialNum = next := by
  rcases map_eq_some_iff.mp h with ⟨r, hfind, hnext⟩
  have hprev := find?_some hfind
  exact ⟨r, mem_of_find?_eq_some hfind, by simpa using hprev, hnext⟩

theorem Initialized.preQuery (hinit : s.Initialized) (e : SerialQueryEnv)
    : QueryInv { s with query := s.query.preQuery e s.system.tables } := by
  rcases hinit with ⟨hsent, hinit⟩
  unfold SerialQuery.preQuery
  split
  . exact answered_fail
  next hrows =>
  split
  . exact Or.inr (Or.inr ⟨.noData, getLast?_concat⟩)
  next hready =>
  split
  . exact Or.inr (Or.inl getLast?_concat)
  next hbad =>
  split
  . exact answered_fail
  split
  . next session _ =>
    rcases hinit with h | h | ⟨hnew, hleads⟩ | ⟨hnew, prev, hwalk⟩
    . exact absurd h hready
    . exact absurd h hbad
    . rw [if_pos hnew]
      refine Or.inl ⟨session, s.query.state.serNum, ?_, ?_⟩
      . simp [SerialQuery.finish]
      . refine ⟨hleads.client_used, hleads.serial_used, ?_⟩
        simp only [SerialQuery.finish, hsent]
        exact hleads.apply_eq
    rw [if_neg (by simp [hnew])]
    refine ⟨rfl, by simp; omega, prev, [.cacheResponse session], [], ?_⟩
    rcases hwalk with ⟨hclient, hprev, hserNum, hbefore, hlink, hread⟩
    refine ⟨hclient, hprev, hserNum, hbefore, hlink, ?_⟩
    intro r hr
    rcases hread r hr with ⟨-, hfirst, hupTo⟩
    exact ⟨by simp [hsent], hfirst, hupTo⟩
  . exact answered_fail

theorem Inv.step (hinv : s.Inv) {e : SerialQueryEnv} (h : s.query.step e s.system.tables = some q)
    : QueryInv { s with query := q } := by
  have hquery := hinv.query
  unfold QueryInv at hquery
  unfold SerialQuery.step at h
  cases hpc : s.query.pc with
  | readSerNumAsPrev =>
    simp only [hpc] at h hquery
    split at h
    . cases h
      exact answered_fail
    split at h
    . next next hnext =>
      cases h
      rcases exists_of_readSerNumAsPrev hnext with ⟨r, hr, hprev, rfl⟩
      have hserial := hinv.prev_used r hr _ hprev
      have hleads : s.LeadsTo [] s.query.serial := ⟨hserial, hserial, rfl⟩
      apply queryInv_getNext rfl
      rw [hquery.dataSent_eq]
      refine ⟨hquery.sent_eq, Or.inr (Or.inr (Or.inr ⟨hquery.noNewData_eq, s.query.serial, ?_⟩))⟩
      exact hinv.walking hleads hr hprev rfl rfl hquery.firstRow_eq
    . cases h
      exact ⟨hquery.1, hquery.2, hquery.3, hquery.4⟩
  | readSerNumAsCurrent =>
    simp only [hpc] at h hquery
    split at h
    . cases h
      exact answered_fail
    split at h
    . next hfound =>
      cases h
      rw [Tables.findUpdate_isSome] at hfound
      rcases hfound with ⟨r, hr, hserial⟩
      have hserial : s.query.serial ∈ s.used := by
        rw [← hserial]
        exact hinv.serialNum_used r hr
      apply queryInv_getNext rfl
      rw [hquery.dataSent_eq]
      exact ⟨hquery.sent_eq, Or.inr (Or.inr (Or.inl ⟨rfl, hserial, hserial, rfl⟩))⟩
    . cases h
      exact ⟨hquery.1, hquery.2, hquery.3, hquery.4⟩
  | hasRowsRtrUpdate =>
    simp only [hpc] at h hquery
    split at h
    . cases h
      exact answered_fail
    split at h
    all_goals
      cases h
      apply queryInv_getNext rfl
      rw [hquery.dataSent_eq]
      simp [Initialized, hquery.sent_eq]
  | getNext =>
    simp only [hpc] at h hquery
    split at h
    . next hsent =>
      rcases hquery.1 hsent with ⟨prev, before, read, hwalk⟩
      split at h
      . cases h
        exact answered_fail
      . cases h
        rw [← append_nil s.query.sent] at hwalk
        exact hinv.doQuery hwalk (Nat.zero_le _) hsent
    . next hsent =>
      cases h
      exact (hquery.2 (by simpa using hsent)).preQuery e
  | serialQryGetNext =>
    simp only [hpc] at h hquery
    rcases hquery with ⟨hsent, hlength, prev, before, read, hwalk⟩
    split at h
    . cases h
      exact answered_fail
    . cases h
      exact hinv.doQuery hwalk hlength hsent
  | checkSerNum =>
    simp only [hpc] at h hquery
    rcases hquery with ⟨hsent, prev, before, read, hwalk, hall⟩
    split at h
    . cases h
      exact answered_fail
    split at h
    . next hlinked =>
      cases h
      rw [isSome_iff_exists] at hlinked
      rcases hlinked with ⟨_, hlinked⟩
      rcases bind_eq_some_iff.mp hlinked with ⟨r, hfind, hprev⟩
      have hr := Tables.findUpdate_eq_some hfind
      have husable : s.Usable r := ⟨hr.1, hr.2, by simp [hprev]⟩
      have hleads := hwalk.leadsTo husable (hall r husable)
      exact ⟨hsent, hleads.1, hleads.2, hleads.3⟩
    . cases h
      refine Or.inr (Or.inr ⟨.noData, ?_⟩)
      simp [SerialQuery.finish, ← append_assoc]
  | findNextSerNum =>
    simp only [hpc] at h hquery
    rcases hquery with ⟨hsent, hleads⟩
    split at h
    . next next hnext =>
      cases h
      rw [ite_none_left_eq_some] at hnext
      rcases exists_of_readSerNumAsPrev hnext.2 with ⟨r, hr, hprev, rfl⟩
      apply queryInv_getNext rfl
      rw [if_pos hsent]
      exact ⟨s.query.state.serNum, _, [], hinv.walking hleads hr hprev rfl rfl rfl⟩
    cases h
    refine Or.inl ⟨s.query.state.session, s.query.state.serNum, ?_, hleads.1, hleads.2, ?_⟩
    . simp [SerialQuery.finish, ← append_assoc]
    . simp only [SerialQuery.finish, ← append_assoc]
      rw [applyPdus_concat rfl]
      exact hleads.3
  | done =>
    simp only [hpc] at h
    contradiction

end Query

theorem Inv.next (hinv : s.Inv) {ev : SerialEvent} (hdistinct : s.Distinct ev)
    (hlater : s.LaterSecond ev) (h : s.next ev = some s') : s'.Inv := by
  cases ev with
  | update ev =>
    rcases map_eq_some_iff.mp h with ⟨system, hnext, rfl⟩
    cases ev with
    | statement => exact hinv.statement hnext hdistinct hlater rfl
    | start =>
      have hsystem := hinv.system.next hnext hlater
      rcases System.next_start hnext with ⟨-, rfl⟩
      exact hinv.of_tables_eq hsystem rfl rfl
    | kill =>
      have hsystem := hinv.system.next hnext hlater
      rw [System.next_kill hnext] at hsystem ⊢
      exact hinv.of_tables_eq hsystem rfl rfl
  | query =>
    rcases map_eq_some_iff.mp h with ⟨_, hstep, rfl⟩
    exact ⟨hinv.system, hinv.keys, hinv.serialNum_used, hinv.prev_used, hinv.step hstep⟩

variable {session : Session}

theorem reachable_inv (hreach : (ltsDistinct session serial).Reachable s) : s.Inv := by
  apply hreach.invariant_restrict
  . rintro s rfl
    refine ⟨.init session, ?_, ?_, ?_, ?_⟩
    . exact nodup_nil
    . simp [init, System.init]
    . simp [init, System.init]
    . exact ⟨rfl, rfl, rfl, rfl⟩
  . intro s _ _ _ hinv hok hstep
    exact hinv.next hok.1 hok.2 hstep

theorem serial_doQuery (q : SerialQuery) (maxRows : Nat) (pdus : List Pdu) (rows : List IncrementalRow)
    : (q.doQuery maxRows pdus rows).serial = q.serial := by
  unfold SerialQuery.doQuery
  split
  . rfl
  . dsimp only
    split <;> rfl

theorem serial_preQuery (q : SerialQuery) (e : SerialQueryEnv) (t : Tables)
    : (q.preQuery e t).serial = q.serial := by
  unfold SerialQuery.preQuery
  dsimp only
  repeat' split
  all_goals rfl

theorem serial_step {q q' : SerialQuery} {e : SerialQueryEnv} (h : q.step e t = some q')
    : q'.serial = q.serial := by
  unfold SerialQuery.step at h
  repeat' split at h
  all_goals cases h
  all_goals first
    | rfl
    | exact serial_doQuery _ _ _ _
    | exact serial_preQuery _ _ _

theorem serial_eq_of_reachable (hreach : (lts session serial).Reachable s)
    : s.query.serial = serial := by
  apply hreach.invariant
  . rintro s rfl
    rfl
  intro s ev _ hserial h
  cases ev with
  | update =>
    rcases map_eq_some_iff.mp h with ⟨_, -, rfl⟩
    exact hserial
  | query =>
    rcases map_eq_some_iff.mp h with ⟨_, hstep, rfl⟩
    exact (serial_step hstep).trans hserial

end SerialSystem

def queryAcrossUpdate : List SerialEvent :=
  twoRuns.map .update ++ replicate 3 (.query ⟨2, false⟩) ++
    (Event.run none (.ofPrefixes (some 2) 1000120 [[10, 0, 2, 0]]) 15).map .update ++
    replicate 6 (.query ⟨3, false⟩)

end Rpstir.Rtr
