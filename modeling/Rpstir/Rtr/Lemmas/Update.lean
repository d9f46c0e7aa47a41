import Rpstir.Rtr.Lemmas.Full
import Rpstir.Rtr.Lemmas.Store

/-!
This module contains what holds before each statement of `rpki-rtr-update`.
-/

namespace Rpstir.Rtr

open List Option

variable {snapshot : Serial → List Prefix} {last : Option UpdateRow} {t t' : Tables} {p : Proc}
  {firstTime : Bool} {current previous : Serial}

def IsPrevious (t : Tables) (firstTime : Bool) (previous : Serial) : Prop :=
  if firstTime then
    t.update = []
  else
    ∃ r ∈ t.update.getLast?, r.serialNum = previous

def IncrementalComplete (t : Tables) : Prop :=
  ∀ row ∈ t.incremental, ∃ r ∈ t.update, r.serialNum = row.serialNum

def DeltaOf (snapshot : Serial → List Prefix) (t : Tables) (prev serial : Serial) (kinds : List Bool)
    : Prop :=
  ∀ b q, ⟨serial, b, q⟩ ∈ t.incremental ↔ b ∈ kinds ∧ InDelta snapshot prev serial b q

structure KeepsLast (rows : List UpdateRow) (current previous : Serial) : Prop where
  last_kept : ∀ r ∈ rows.getLast?, Kept current previous r
  kept_later : rows.Pairwise fun a b => Kept current previous a → Kept current previous b

def ProcInv (snapshot : Serial → List Prefix) (t : Tables) (p : Proc) : Prop :=
  match p.pc with
  | .hasValidSession | .getLatestSernum => True
  | .deleteIncompleteIncremental => IsPrevious t p.firstTime p.previousSerial
  | .deleteIncompleteFull | .insertFull =>
    IsPrevious t p.firstTime p.previousSerial ∧ IncrementalComplete t
  | .goodSerials =>
    IsPrevious t p.firstTime p.previousSerial ∧ p.firstTime = false ∧ IncrementalComplete t
  | .insertAnnouncements =>
    IsPrevious t p.firstTime p.previousSerial ∧ p.firstTime = false ∧
      DeltaOf snapshot t p.previousSerial p.currentSerial []
  | .insertWithdrawals =>
    IsPrevious t p.firstTime p.previousSerial ∧ p.firstTime = false ∧
      DeltaOf snapshot t p.previousSerial p.currentSerial [true]
  | .hasIncrementalChanges =>
    IsPrevious t p.firstTime p.previousSerial ∧ p.firstTime = false ∧
      DeltaOf snapshot t p.previousSerial p.currentSerial [true, false]
  | .insertUpdate =>
    IsPrevious t p.firstTime p.previousSerial ∧
      (p.firstTime = false → DeltaOf snapshot t p.previousSerial p.currentSerial [true, false])
  | .deleteFull => IsPrevious t p.firstTime p.previousSerial
  | .ignoreOldFull | .deleteOldFull | .deleteOldUpdate | .ignoreOldIncremental
  | .deleteOldIncremental => KeepsLast t.update p.currentSerial p.previousSerial

theorem IsPrevious.of_latest (hlinked : Linked t.update) {latest : Option Serial}
    (hlatest : t.IsLatestSernum latest) (hfirst : firstTime = latest.isNone)
    (hprev : ∀ serial ∈ latest, previous = serial) : IsPrevious t firstTime previous := by
  cases latest with
  | none =>
    rw [hfirst]
    exact hlatest
  | some serial =>
    rw [hfirst]
    rcases hlatest with ⟨r, hr, hserial, hle⟩
    exact ⟨r, hlinked.mem_getLast?_of_createTime_le hr hle, hserial.trans (hprev serial rfl).symm⟩

section

variable (h : IsPrevious t firstTime previous)

include h

theorem IsPrevious.previous_mem (hfirst : firstTime = false)
    : ∃ r ∈ t.update, r ∈ t.update.getLast? ∧ r.serialNum = previous := by
  rw [IsPrevious, hfirst] at h
  rcases h with ⟨r, hr, hserial⟩
  exact ⟨r, mem_of_getLast? hr, hr, hserial⟩

theorem IsPrevious.fullOf (hstore : StoreInv snapshot last t) (hfull : FullInv snapshot t)
    (hfirst : firstTime = false) : FullOf snapshot t previous := by
  rcases h.previous_mem hfirst with ⟨r, hmem, hlast, hserial⟩
  rw [← hserial]
  exact hfull.fullOf r hmem (hstore.last_hasFull r hlast)

theorem IsPrevious.current_ne (hfirst : firstTime = false) (hfresh : Fresh t current)
    : previous ≠ current := by
  rcases h.previous_mem hfirst with ⟨r, hmem, -, hserial⟩
  rw [← hserial]
  exact (hfresh r hmem).1

end

namespace StoreInv

section

variable (hstore : StoreInv snapshot last t)

include hstore

theorem deleteIncompleteIncremental
    : StoreInv snapshot last t.deleteIncompleteIncremental ∧
        IncrementalComplete t.deleteIncompleteIncremental := by
  constructor
  . apply hstore.filterIncremental
    intro r hr _ _ _
    rw [Tables.findUpdate_isSome]
    exact ⟨r, hr, rfl⟩
  . intro _ hrow
    simp only [Tables.deleteIncompleteIncremental, mem_filter, Tables.findUpdate_isSome] at hrow
    exact hrow.2

variable {serial prev t1 t2 : Serial}

theorem insertFull (prefixes : List Prefix) (hfresh : Fresh t serial)
    : StoreInv (Function.update snapshot serial prefixes) last (t.insertFull serial prefixes) := by
  exact (hstore.setSnapshot prefixes hfresh).setFull

theorem insertIncremental {b : Bool} {kinds : List Bool}
    (h : t.insertIncremental serial b t2 t1 = some t') (hfresh : Fresh t serial)
    (hdelta : DeltaOf snapshot t prev serial kinds)
    (hrows : ∀ q, ⟨t1, q⟩ ∈ t.full ∧ ⟨t2, q⟩ ∉ t.full ↔ InDelta snapshot prev serial b q)
    : StoreInv snapshot last t' ∧ t'.update = t.update ∧ t'.full = t.full ∧
        DeltaOf snapshot t' prev serial (kinds ++ [b]) := by
  rcases Tables.insertIncremental_eq_some h with ⟨_, rfl, hmem, hkeys⟩
  refine ⟨?_, rfl, rfl, ?_⟩
  . apply hstore.setIncremental
    . intro r hr _ b' q
      simp [hmem, (hfresh r hr).1]
    intro s q hannounce hwithdraw
    rcases List.mem_append.mp hannounce with hannounce | hannounce
    . rcases List.mem_append.mp hwithdraw with hwithdraw | hwithdraw
      . exact hstore.announce_or_withdraw s q hannounce hwithdraw
      . exact hkeys _ hwithdraw _ hannounce ((hmem _).mp hwithdraw).1 rfl
    rcases List.mem_append.mp hwithdraw with hwithdraw | hwithdraw
    . exact hkeys _ hannounce _ hwithdraw ((hmem _).mp hannounce).1 rfl
    . have htrue := ((hmem _).mp hannounce).2.1
      have hfalse := ((hmem _).mp hwithdraw).2.1
      rw [← htrue] at hfalse
      contradiction
  intro b' q
  rw [List.mem_append, hdelta b' q, hmem, hrows q, List.mem_append, mem_singleton]
  constructor
  . rintro (⟨hb, hq⟩ | ⟨-, rfl, hq⟩)
    . exact ⟨Or.inl hb, hq⟩
    . exact ⟨Or.inr rfl, hq⟩
  . rintro ⟨hb | rfl, hq⟩
    . exact Or.inl ⟨hb, hq⟩
    . exact Or.inr ⟨rfl, rfl, hq⟩

theorem insertUpdate {link : Option Serial} {now : Nat} (h : t.insertUpdate current link now = some t')
    (hlink : link = if firstTime then none else some previous)
    (hclock : ∀ r ∈ last, r.createTime < now)
    (hprev : IsPrevious t firstTime previous) (hfresh : Fresh t current)
    (hdelta : firstTime = false → DeltaOf snapshot t previous current [true, false])
    : StoreInv snapshot t'.update.getLast? t' := by
  rw [Tables.insertUpdate_eq_some h]
  rw [getLast?_concat]
  refine hstore.append (r := ⟨current, link, now, true⟩) hfresh ?_ hclock ?_ rfl ?_
  . cases hfirst : firstTime with
    | true => simp [hlink, hfirst]
    | false => simp [hlink, hfirst, hprev.current_ne hfirst hfresh]
  . intro r hr
    cases hfirst : firstTime with
    | true =>
      rw [IsPrevious, hfirst, if_pos rfl] at hprev
      rw [hprev] at hr
      contradiction
    | false =>
      rcases hprev.previous_mem hfirst with ⟨_, -, hr', hserial⟩
      rw [mem_unique hr hr', hserial, hlink, hfirst]
      rfl
  intro _ hprev' b q
  cases hfirst : firstTime with
  | true =>
    rw [hlink, hfirst] at hprev'
    contradiction
  | false =>
    rw [hlink, hfirst, if_neg (by simp), some.injEq] at hprev'
    rw [← hprev', hdelta hfirst b q]
    cases b <;> simp

end

end StoreInv

namespace KeepsLast

theorem of_isPrevious (hlinked : Linked t.update) (hprev : IsPrevious t firstTime previous)
    (hfresh : Fresh t current) : KeepsLast t.update current previous := by
  cases hfirst : firstTime with
  | true =>
    rw [IsPrevious, hfirst, if_pos rfl] at hprev
    constructor <;> simp [hprev]
  | false =>
    rcases hprev.previous_mem hfirst with ⟨last, hmem, hlast, hserial⟩
    constructor
    . intro _ hr
      rw [mem_unique hr hlast]
      exact Or.inr hserial
    apply List.Pairwise.imp_of_mem _ hlinked.times
    intro a _ ha hb hlt hkept
    rcases hkept with hkept | hkept
    . exact absurd hkept (hfresh a ha).1
    have heq : a = last := hlinked.ext_serialNum ha hmem (hkept.trans hserial.symm)
    rcases hlinked.eq_or_createTime_lt_getLast hb hlast with hb | hb
    . rw [hb]
      exact Or.inr hserial
    . rw [heq] at hlt
      omega

theorem append (h : KeepsLast t.update current previous) {r : UpdateRow} (hr : Kept current previous r)
    : KeepsLast (t.update ++ [r]) current previous where
  last_kept := by
    intro _ hr'
    rw [getLast?_concat, mem_some] at hr'
    rw [← hr']
    exact hr
  kept_later := by
    rw [pairwise_append]
    refine ⟨h.kept_later, by simp, ?_⟩
    intro _ _ _ hb _
    rw [mem_singleton] at hb
    rw [hb]
    exact hr

theorem map (h : KeepsLast t.update current previous) (f : UpdateRow → UpdateRow) (hid : ∀ r, (f r).id = r.id)
    : KeepsLast (t.update.map f) current previous where
  last_kept := by
    intro r hr
    rw [getLast?_map, Option.mem_map] at hr
    rcases hr with ⟨r', hr', rfl⟩
    rw [Kept, (UpdateRow.id_eq_iff.mp (hid r')).1]
    exact h.last_kept r' hr'
  kept_later := by
    rw [pairwise_map]
    simp only [Kept, (UpdateRow.id_eq_iff.mp (hid _)).1]
    exact h.kept_later

theorem suffix (h : KeepsLast t.update current previous) {update : List UpdateRow} (hsuffix : update <:+ t.update)
    (hlast : update.getLast? = t.update.getLast?) : KeepsLast update current previous where
  last_kept := by
    rw [hlast]
    exact h.last_kept
  kept_later := h.kept_later.sublist hsuffix.sublist

variable (h : KeepsLast t.update current previous) (hlinked : Linked t.update) (cutoff : Nat)

include h hlinked cutoff

theorem deleteOldUpdate_isSuffix
    : (t.deleteOldUpdate current previous cutoff).update <:+ t.update := by
  apply filter_isSuffix_of_pairwise
  apply (h.kept_later.and hlinked.times).imp
  rintro _ _ ⟨hkept, _⟩ ha
  simp only [Kept, Bool.not_eq_true', Bool.and_eq_false_iff, decide_eq_false_iff_not, bne_eq_false_iff_eq]
    at hkept ha ⊢
  rcases ha with (ha | ha) | ha
  . left
    left
    omega
  . rcases hkept (Or.inl ha) with hb | hb
    . exact Or.inl (Or.inr hb)
    . exact Or.inr hb
  . rcases hkept (Or.inr ha) with hb | hb
    . exact Or.inl (Or.inr hb)
    . exact Or.inr hb

theorem deleteOldUpdate_getLast?
    : (t.deleteOldUpdate current previous cutoff).update.getLast?
        =
      t.update.getLast? := by
  have hsuffix := h.deleteOldUpdate_isSuffix hlinked cutoff
  cases hlast : t.update.getLast? with
  | none =>
    rw [getLast?_eq_none_iff] at hlast ⊢
    rw [hlast] at hsuffix
    exact suffix_nil.mp hsuffix
  | some last =>
    rw [← hlast]
    apply hsuffix.getLast?_eq
    apply ne_nil_of_mem (a := last)
    have hkept := h.last_kept last hlast
    simp only [Tables.deleteOldUpdate, mem_filter]
    refine ⟨mem_of_getLast? hlast, ?_⟩
    rcases hkept with hkept | hkept <;> simp [hkept]

end KeepsLast

namespace StoreInv

section

variable (hstore : StoreInv snapshot last t)

include hstore

theorem ignoreOldFull (hkeeps : KeepsLast t.update current previous)
    : StoreInv snapshot last (t.ignoreOldFull current previous) ∧
        KeepsLast (t.ignoreOldFull current previous).update current previous := by
  constructor
  . apply hstore.mapUpdate
    . intro r
      split <;> rfl
    . intro r hr
      rcases hkeeps.last_kept r hr with hkept | hkept <;> simp [hkept, hstore.last_hasFull r hr]
    . intro r hr
      left
      split <;> rfl
  . apply hkeeps.map
    intro r
    split <;> rfl

section

variable (hkeeps : KeepsLast t.update current previous)

include hkeeps

theorem deleteOldUpdate (cutoff : Nat)
    : StoreInv snapshot last (t.deleteOldUpdate current previous cutoff) ∧
        KeepsLast (t.deleteOldUpdate current previous cutoff).update current previous := by
  have hsuffix := hkeeps.deleteOldUpdate_isSuffix hstore.linked cutoff
  have hlast := hkeeps.deleteOldUpdate_getLast? hstore.linked cutoff
  exact ⟨hstore.suffix hsuffix hlast, hkeeps.suffix hsuffix hlast⟩

theorem ignoreOldIncremental
    : StoreInv snapshot last t.ignoreOldIncremental ∧
        KeepsLast t.ignoreOldIncremental.update current previous := by
  constructor
  . apply hstore.mapUpdate
    . intro r
      split <;> rfl
    . intro r hr
      split <;> exact hstore.last_hasFull r hr
    intro r hr
    split
    . next hnone =>
      right
      refine ⟨rfl, ?_⟩
      intro _ hr' hprev
      rw [hprev, bind_some, t.findUpdate_of_mem hstore.linked.nodup hr'] at hnone
      contradiction
    . left
      rfl
  . apply hkeeps.map
    intro r
    split <;> rfl

end

theorem deleteOldIncremental : StoreInv snapshot last t.deleteOldIncremental := by
  apply hstore.filterIncremental
  intro _ hr hprev _ _
  rw [t.findUpdate_of_mem hstore.linked.nodup hr]
  exact hprev

end

end StoreInv

end Rpstir.Rtr
