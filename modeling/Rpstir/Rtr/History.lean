import Rpstir.Data.Delta
import Rpstir.Rtr.Lemmas.NoChange

/-!
This module contains what the RTR tables say about the history of prefix sets, between any two
statements of any sequence of runs of `rpki-rtr-update`.
-/

namespace Rpstir.Rtr

open List Option

def Tables.delta (t : Tables) (serial : Serial) : Delta Prefix where
  announce := { p | ⟨serial, true, p⟩ ∈ t.incremental }
  withdraw := { p | ⟨serial, false, p⟩ ∈ t.incremental }

@[simp]
theorem Tables.mem_delta_announce (t : Tables) (serial : Serial) (p : Prefix)
    : p ∈ (t.delta serial).announce ↔ ⟨serial, true, p⟩ ∈ t.incremental := by
  rfl

def Tables.LinkPath (t : Tables) : Serial → List UpdateRow → Prop
  | _, [] => True
  | serial, r :: path => r ∈ t.update ∧ r.prevSerialNum = some serial ∧ t.LinkPath r.serialNum path

def System.prefixSet (s : System) (serial : Serial) : Set Prefix :=
  { p | p ∈ s.snapshot serial }

variable {session : Session} {s : System}

variable {last : Option UpdateRow} {r : UpdateRow} {serial prev : Serial}

theorem StoreInv.delta_eq (h : StoreInv s.snapshot last s.tables) (hr : r ∈ s.tables.update)
    (hprev : r.prevSerialNum = some prev)
    : s.tables.delta r.serialNum
        =
      Delta.between (s.prefixSet prev) (s.prefixSet r.serialNum) := by
  have hmem := h.mem_incremental r hr prev hprev
  unfold Tables.delta Delta.between System.prefixSet
  congr
  . ext q
    exact hmem true q
  . ext q
    exact hmem false q

theorem StoreInv.isChain_delta (h : StoreInv s.snapshot last s.tables) {path : List UpdateRow}
    (hpath : s.tables.LinkPath serial path)
    : (serial :: path.map (·.serialNum)).IsChain fun a b =>
        s.tables.delta b = Delta.between (s.prefixSet a) (s.prefixSet b) := by
  induction path generalizing serial with
  | nil => simp
  | cons _ path ih =>
    rcases hpath with ⟨hr, hprev, hpath⟩
    rw [map_cons, isChain_cons_cons]
    exact ⟨h.delta_eq hr hprev, ih hpath⟩

/--
The incremental data along the links from one retained serial number to a later one leads from the
prefixes of the one to the prefixes of the other. No step announces a prefix that is present or
withdraws one that is absent, and no serial number does both to one prefix.
-/
theorem applyAll_delta_eq_prefixSet (hreach : ((System.lts session).restrict System.LaterSecond).Reachable s)
    (serial : Serial) (path : List UpdateRow) (hpath : s.tables.LinkPath serial path)
    : Delta.applyAll (path.map fun r => s.tables.delta r.serialNum) (s.prefixSet serial)
        =
      s.prefixSet ((serial :: path.map (·.serialNum)).getLast (cons_ne_nil _ _)) ∧
      Delta.AllFit (path.map fun r => s.tables.delta r.serialNum) (s.prefixSet serial) ∧
      ∀ any, ∀ p ∈ (s.tables.delta any).announce, p ∉ (s.tables.delta any).withdraw := by
  have hstore := (System.reachable_inv hreach).store
  have hchain := hstore.isChain_delta hpath
  have happly := Delta.applyAll_of_isChain hchain
  have hfit := Delta.allFit_of_isChain hchain
  rw [List.map_map] at happly hfit
  exact ⟨happly, hfit, hstore.announce_or_withdraw⟩

def System.nextLaterSecond (s : System) (ev : Event) : Option System :=
  if s.LaterSecond ev then s.next ev else none

def System.afterEvents (session : Session) (es : List Event)
    (h : (es.foldlM System.nextLaterSecond (System.init session)).isSome) : System :=
  (es.foldlM System.nextLaterSecond (System.init session)).get h

theorem System.reachable_afterEvents (session : Session) (es : List Event)
    (h : (es.foldlM System.nextLaterSecond (System.init session)).isSome)
    : ((System.lts session).restrict System.LaterSecond).Reachable
        (System.afterEvents session es h) := by
  apply Lts.reachable_restrict_of_foldlM
  exact (some_get h).symm

def twoRuns : List Event :=
  Event.run none (.ofPrefixes none 1000000 [[10, 0, 0, 0]]) 11 ++
    Event.run none (.ofPrefixes (some 1) 1000060 [[10, 0, 1, 0]]) 15

theorem applyAll_delta_eq_prefixSet_twoRuns
    : ∃ s : System, ((System.lts 0).restrict System.LaterSecond).Reachable s ∧
        s.tables.LinkPath 1 [⟨2, some 1, 1000060, true⟩] ∧
        Delta.applyAll [s.tables.delta 2] (s.prefixSet 1) = s.prefixSet 2 := by
  have hreach := System.reachable_afterEvents 0 twoRuns (by decide)
  have hpath : (System.afterEvents 0 twoRuns (by decide)).tables.LinkPath 1
      [⟨2, some 1, 1000060, true⟩] := ⟨by decide, rfl, trivial⟩
  exact ⟨_, hreach, hpath, (applyAll_delta_eq_prefixSet hreach 1 _ hpath).1⟩

/--
The `prev_serial_num` links form one simple path, which ends at the row that was inserted last. Only the
first row of the path can name a predecessor that is not in the table.
-/
def OnePath (rows : List UpdateRow) (lastInserted : Option UpdateRow) : Prop :=
  ∃ path : List UpdateRow, path.Perm rows ∧ (path.map (·.serialNum)).Nodup ∧
    path.IsChain (fun a b => b.prevSerialNum = some a.serialNum) ∧
    (∀ r ∈ path.head?, ∀ prev, r.prevSerialNum = some prev → ∀ r' ∈ path, r'.serialNum ≠ prev) ∧
    path.getLast?.map UpdateRow.id = lastInserted.map UpdateRow.id ∧
    ∀ r ∈ path.getLast?, r.hasFull = true

structure System.Consistent (s : System) : Prop where
  full : ∀ r ∈ s.tables.update, r.hasFull = true →
    { p | p ∈ s.tables.fullPrefixes r.serialNum } = s.prefixSet r.serialNum
  incremental : ∀ r ∈ s.tables.update, ∀ prev, r.prevSerialNum = some prev →
    s.tables.delta r.serialNum = Delta.between (s.prefixSet prev) (s.prefixSet r.serialNum)
  onePath : OnePath s.tables.update s.lastInserted

def System.LatestUnchanged (s : System) : Prop :=
  ∀ serial, s.atStart.IsLatestSernum (some serial) →
    s.tables.IsLatestSernum (some serial) ∧
    (∀ p, p ∈ s.tables.fullPrefixes serial ↔ p ∈ s.atStart.fullPrefixes serial) ∧
    s.tables.delta serial = s.atStart.delta serial

def System.PredecessorRetained (s : System) (serial : Serial) : Prop :=
  ∃ r ∈ s.atStart.update, r.serialNum = serial ∧
    ∃ r' ∈ s.tables.update, r.prevSerialNum = some r'.serialNum

def System.LatestUnchangedOrExpired (s : System) : Prop :=
  ∀ serial, s.atStart.IsLatestSernum (some serial) →
    s.tables.IsLatestSernum (some serial) ∧
    (∀ p, p ∈ s.tables.fullPrefixes serial ↔ p ∈ s.atStart.fullPrefixes serial) ∧
    (s.tables.delta serial = s.atStart.delta serial ∨
      (¬s.PredecessorRetained serial ∧ s.tables.delta serial = ⟨∅, ∅⟩))

theorem System.Inv.consistent (hinv : s.Inv) : s.Consistent where
  full := by
    intro r hr hfull
    ext p
    simp only [Set.mem_ofPred_eq, Tables.mem_fullPrefixes]
    exact hinv.full.store.fullOf r hr hfull p
  incremental := fun r hr prev hprev => hinv.store.delta_eq hr hprev
  onePath := by
    have hlinked := hinv.store.linked
    exact ⟨s.tables.update, List.Perm.refl _, hlinked.nodup, hlinked.chain, hlinked.dangling,
      hinv.store.last_eq, hinv.store.last_hasFull⟩

theorem Linked.isLatestSernum {t : Tables} (h : Linked t.update) (hr : r ∈ t.update.getLast?)
    : t.IsLatestSernum (some r.serialNum) := by
  refine ⟨r, mem_of_getLast? hr, rfl, ?_⟩
  intro _ hr'
  rcases h.eq_or_createTime_lt_getLast hr' hr with heq | _
  . rw [heq]
  . omega

theorem KeepsLatest.latestUnchangedOrExpired
    (hstart : Linked s.atStart.update) (hnow : Linked s.tables.update)
    (h : ∀ r0 ∈ s.atStart.update.getLast?, KeepsLatest s.atStart s.tables r0)
    : s.LatestUnchangedOrExpired := by
  rintro _ ⟨r0, hr0, rfl, hle⟩
  have hkeeps := h r0 (hstart.mem_getLast?_of_createTime_le hr0 hle)
  refine ⟨?_, ?_, ?_⟩
  . rcases hkeeps.row with ⟨r, hr, hid, -⟩
    rw [← (UpdateRow.id_eq_iff.mp hid).1]
    exact hnow.isLatestSernum hr
  . intro p
    rw [Tables.mem_fullPrefixes, Tables.mem_fullPrefixes]
    exact hkeeps.mem_full p
  rcases hkeeps.mem_incremental with hsame | ⟨hremoved, hgone⟩
  . left
    unfold Tables.delta
    congr
    . ext p
      exact hsame true p
    . ext p
      exact hsame false p
  right
  refine ⟨?_, ?_⟩
  . rintro ⟨r, hr, heq, r', hr', hprev⟩
    rw [hstart.ext_serialNum hr hr0 heq] at hprev
    exact hgone r' hr' hprev
  . simp [Tables.delta, hremoved]

/--
Between any two statements of any sequence of runs, wherever runs are killed, the tables are consistent
with the history. A run that finds no change, and is not forced to make an update, leaves the latest
serial number and its data as they are, up to incremental data whose predecessor has expired.
-/
theorem consistent_of_reachable
    (hreach : ((System.lts session).restrict System.LaterSecond).Reachable s)
    : s.Consistent ∧ (s.noChange = true → s.forced = false → s.LatestUnchangedOrExpired) := by
  have hinv := System.reachable_inv hreach
  have hrun := System.reachable_runInv hreach
  refine ⟨hinv.consistent, ?_⟩
  intro hno hforced
  exact KeepsLatest.latestUnchangedOrExpired hrun.linked hinv.store.linked
    (hrun.keepsLatest hno hforced)

def expiringRuns : List Event :=
  twoRuns ++ Event.run none (.ofPrefixes (some 2) 2000000 [[10, 0, 1, 0]]) 15

def forcedRuns : List Event :=
  Event.run none (.ofPrefixes none 1000000 [[10, 0, 0, 0]]) 11 ++
    Event.run (some (some 7)) (.ofPrefixes (some 1) 1000060 [[10, 0, 0, 0]]) 15

theorem consistent_of_reachable_expiringRuns
    : ∃ s : System, ((System.lts 0).restrict System.LaterSecond).Reachable s ∧
        s.noChange = true ∧ s.forced = false ∧ s.LatestUnchangedOrExpired := by
  have hreach := System.reachable_afterEvents 0 expiringRuns (by decide)
  exact ⟨_, hreach, rfl, rfl, (consistent_of_reachable hreach).2 rfl rfl⟩

theorem not_latestUnchanged
    : (∃ s : System, ((System.lts 0).restrict System.LaterSecond).Reachable s ∧
        s.noChange = true ∧ s.forced = false ∧ ¬s.LatestUnchanged) ∧
      ∃ s : System, ((System.lts 0).restrict System.LaterSecond).Reachable s ∧
        s.noChange = true ∧ ¬s.LatestUnchanged := by
  constructor
  . refine ⟨_, System.reachable_afterEvents 0 expiringRuns (by decide), rfl, rfl, ?_⟩
    intro h
    have hdelta := (h 2 (by decide)).2.2
    have hmem : (⟨65000, [10, 0, 1, 0], 24, 24⟩ : Prefix) ∈
        ((System.afterEvents 0 expiringRuns (by decide)).atStart.delta 2).announce := by
      rw [Tables.mem_delta_announce]
      decide
    rw [← hdelta, Tables.mem_delta_announce] at hmem
    revert hmem
    decide
  refine ⟨_, System.reachable_afterEvents 0 forcedRuns (by decide), rfl, ?_⟩
  intro h
  have hlatest := (h 1 (by decide)).1
  revert hlatest
  decide

end Rpstir.Rtr
