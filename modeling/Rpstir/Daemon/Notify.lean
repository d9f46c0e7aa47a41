import Mathlib.Data.Set.List
import Rpstir.Daemon.Lemmas.Outgoing

/-!
This module contains the Serial Notify PDUs that a connection thread sends over time.
-/

namespace Rpstir

open List Option

def Rtr.Pdu.endOfDataSerial : Rtr.Pdu → Option UInt32
  | endOfData _ serial => some serial
  | _ => none

namespace Daemon

open Wire

/--
What happens to a connection: something in its environment, or an action of its thread. A database thread
pushes a response that has the PDUs of a query, and posts the semaphore; the control thread does `post`.
-/
inductive CxnEvent where
  | arrive (bytes : List UInt8)
  | close
  | select
  | post
  | respond (pdus : List Rtr.Pdu) (isDone : Bool)
  | semPost
  | act (a : CxnAction)

namespace CxnEvent

def clockReadings : CxnEvent → List Nat
  | act (.write now) => [now]
  | act (.check now copied _) => [now, copied]
  | _ => []

def serials : CxnEvent → List UInt32
  | respond pdus _ => pdus.filterMap Rtr.Pdu.endOfDataSerial
  | act (.check _ _ global) => if global.dataAvailable then [global.serialNumber] else []
  | _ => []

end CxnEvent

namespace Cxn

def handle (c : Cxn) : CxnEvent → Option Cxn
  | .arrive bytes => if c.closed then none else some { c with unread := c.unread ++ bytes }
  | .close => some { c with closed := true }
  | .select => if c.readable && !c.selected then some { c with selected := true } else none
  | .post => if c.selected then some { c.semPost with selected := false } else none
  | .respond pdus isDone => some (c.pushResponse ⟨pdus.map fillPdu, isDone⟩)
  | .semPost => some c.semPost
  | .act a => (c.next a).map Prod.fst

end Cxn

structure SentAt where
  time : Nat
  state : CxnState
  pdu : Pdu
  deriving DecidableEq

namespace SentAt

def notified (x : SentAt) : Option UInt32 :=
  match x.pdu with
  | ⟨_, .serialNotify, _, _, serial⟩ => some serial
  | _ => none

def ended (x : SentAt) : Option UInt32 :=
  match x.pdu with
  | ⟨_, .endOfData, _, _, serial⟩ => some serial
  | _ => none

end SentAt

structure History where
  cxn : Cxn
  clock : Nat
  log : List SentAt
  serials : List UInt32
  deriving DecidableEq

namespace History

def init (cache : CacheState) (start : Nat) : History where
  cxn := Cxn.init cache start
  clock := start
  log := []
  serials := if cache.dataAvailable then [cache.serialNumber] else []

def next (h : History) (ev : Nat × CxnEvent) : Option History :=
  if (h.clock :: ev.1 :: ev.2.clockReadings).Pairwise (· ≤ ·) then
    (h.cxn.handle ev.2).map fun c =>
      { cxn := c
        clock := ev.2.clockReadings.getLastD ev.1
        log := h.log ++ (c.sent.drop h.cxn.sent.length).map fun x => ⟨ev.1, h.cxn.state, x.pdu⟩
        serials := h.serials ++ ev.2.serials }
  else
    none

def lts (cache : CacheState) (start : Nat) : Lts History (Nat × CxnEvent) :=
  Lts.ofNext (init cache start) next

end History

def serialOffset (base serial : UInt32) : Nat :=
  (serial - base).toNat

theorem serialNumberGreater_iff {base s t : UInt32} (hs : serialOffset base s < 2 ^ 31)
    (ht : serialOffset base t < 2 ^ 31)
    : serialNumberGreater s t = true ↔ serialOffset base t < serialOffset base s := by
  have hs' := s.toNat_lt
  simp only [serialOffset, UInt32.toNat_sub] at hs ht ⊢
  unfold serialNumberGreater
  split
  . next heq =>
    rw [heq]
    simp
  next hne =>
  simp only [Bool.or_eq_true, Bool.and_eq_true, decide_eq_true_eq, UInt32.lt_iff_toNat_lt,
    UInt32.toNat_sub, gt_iff_lt, UInt32.reduceToNat]
  omega

namespace CxnPc

def ended : CxnPc → Bool
  | cleanup => true
  | cleanupPost => true
  | cleanupWait => true
  | cleanupTryPop => true
  | exited => true
  | _ => false

end CxnPc

def SentAt.announced (x : SentAt) : Option UInt32 :=
  x.notified <|> x.ended

def OfSerials (serials : List UInt32) (pdu : Pdu) : Prop :=
  ∃ x : Rtr.Pdu, (∀ serial ∈ x.endOfDataSerial, serial ∈ serials) ∧ pdu = fillPdu x

namespace Cxn

variable {old new cache : CacheState} {a : CxnAction}

inductive Told (c : Cxn) (serials : List UInt32) : CxnAction → Cxn → Prop where
  | ended {a : CxnAction} {c' : Cxn} (hended : c'.pc.ended = true) (hsent : c'.sent = c.sent) : Told c serials a c'
  | send {a : CxnAction} {c' : Cxn} (l : List Sent) (hlive : c.pc.ended = false) (hpc : c.pc ≠ .sendNotify)
      (hpc' : c'.pc ≠ .sendNotify) (htime : c'.nextCacheStateCheckTime = c.nextCacheStateCheckTime)
      (hcache : c'.localCacheState = c.localCacheState) (hsent : c'.sent = c.sent ++ l)
      (hl : ∀ x ∈ l, ∀ time state, (SentAt.mk time state x.pdu).announced = none)
      : Told c serials a c'
  | endOfData {a : CxnAction} {c' : Cxn} (session : UInt16) (serial : UInt32) (origin : Option Origin)
      (doNotify : Bool) (hserial : serial ∈ serials) (hlive : c.pc.ended = false)
      (hpc : c.pc ≠ .sendNotify) (hpc' : c'.pc ≠ .sendNotify)
      (htime : c'.nextCacheStateCheckTime = c.nextCacheStateCheckTime)
      (hupdates : Updates c.localCacheState ⟨true, session, serial⟩ c'.localCacheState doNotify)
      (hsent : c'.sent = c.sent ++ [⟨origin, fillPduEndOfData session serial⟩])
      : Told c serials a c'
  | notify {c' : Cxn} (now : Nat) (hpc : c.pc = .sendNotify) (hpc' : c'.pc = .waitOnSemaphore)
      (htime : c'.nextCacheStateCheckTime = now + cxnNotifyInterval)
      (hcache : c'.localCacheState = c.localCacheState)
      (hsent : c'.sent = c.sent ++ [⟨none, fillPduSerialNotify c.localCacheState.session
        c.localCacheState.serialNumber⟩])
      : Told c serials (.write now) c'
  | check {c' : Cxn} (now copied : Nat) (global : CacheState) (doNotify : Bool)
      (hlive : c.pc.ended = false) (hpc : c.pc ≠ .sendNotify)
      (hpc' : c'.pc = if doNotify then .sendNotify else .waitOnSemaphore)
      (hstate : doNotify = true → c'.state = .ready) (hdue : c.nextCacheStateCheckTime ≤ now)
      (htime : c'.nextCacheStateCheckTime = copied + cxnCacheStateInterval)
      (hupdates : Updates c.localCacheState global c'.localCacheState doNotify)
      (hsent : c'.sent = c.sent)
      : Told c serials (.check now copied global) c'

variable {serials : List UInt32}

theorem Told.quiet {c c' : Cxn} (hlive : c.pc.ended = false) (hpc : c.pc ≠ .sendNotify)
    (hpc' : c'.pc ≠ .sendNotify) (htime : c'.nextCacheStateCheckTime = c.nextCacheStateCheckTime)
    (hcache : c'.localCacheState = c.localCacheState) (hsent : c'.sent = c.sent)
    : Told c serials a c' :=
  .send [] hlive hpc hpc' htime hcache (by rw [hsent, append_nil]) (by simp)

theorem afterHandlePdu_ne_sendNotify (fromRecvBuffer : Bool)
    : CxnPc.afterHandlePdu fromRecvBuffer ≠ .sendNotify := by
  cases fromRecvBuffer <;> simp [CxnPc.afterHandlePdu]

variable {effect : CxnEffect} {code : ErrorCode} {doNotify fromRecvBuffer : Bool}

theorem Handles.told {c c' : Cxn} {q : Received} (queue : List Received)
    (hlive : c.pc.ended = false) (hpc : c.pc ≠ .sendNotify)
    (h : Handles { c with toProcessQueue := queue } q fromRecvBuffer c' effect)
    : Told c serials a c' := by
  cases h with
  | cacheReset
  | push
  | report => exact .quiet hlive hpc (by simp) rfl rfl rfl
  | defer => exact .quiet hlive hpc (afterHandlePdu_ne_sendNotify _) rfl rfl rfl
  | exit => exact .ended rfl rfl

theorem announced_encapsulateRequest {requestBuffer : List UInt8} {d : ErrorData} (time : Nat)
    (state : CxnState)
    : (SentAt.mk time state (encapsulateRequest requestBuffer (fillPduErrorReport code d))).announced
        = none := by
  dsimp only [encapsulateRequest, fillPduErrorReport]
  split <;> rfl

theorem announced_errorReport {embedded text : List UInt8} {pdu : Pdu}
    (h : errorReport code embedded text = some pdu) (time : Nat) (state : CxnState)
    : (SentAt.mk time state pdu).announced = none := by
  unfold errorReport at h
  split at h
  . contradiction
  . cases h
    rfl

theorem told_sendResponse {c c' : Cxn} {x : Rtr.Pdu} {cache : CacheState}
    {origin : Option Origin} (hx : ∀ serial ∈ x.endOfDataSerial, serial ∈ serials)
    (hlive : c.pc.ended = false) (hpc : c.pc ≠ .sendNotify) (hpc' : c'.pc ≠ .sendNotify)
    (htime : c'.nextCacheStateCheckTime = c.nextCacheStateCheckTime) (hcache : c'.localCacheState = cache)
    (hsent : c'.sent = c.sent ++ [⟨origin, encapsulateRequest c.requestBuffer (fillPdu x)⟩])
    (hupdate : endOfDataState (fillPdu x) = none ∧ cache = c.localCacheState ∨
      ∃ new doNotify, endOfDataState (fillPdu x) = some new ∧
        Updates c.localCacheState new cache doNotify)
    : Told c serials a c' := by
  have hother (hstate : endOfDataState (fillPdu x) = none)
      (hnone : ∀ time state, (SentAt.mk time state
        (encapsulateRequest c.requestBuffer (fillPdu x))).announced = none) : Told c serials a c' := by
    rw [hstate] at hupdate
    rcases hupdate with ⟨-, hsame⟩ | ⟨new, doNotify, hnew, -⟩
    . refine .send _ hlive hpc hpc' htime (hcache.trans hsame) hsent ?_
      intro _ hy
      rw [mem_singleton.mp hy]
      exact hnone
    . contradiction
  cases x with
  | cacheResponse
  | cacheReset => exact hother rfl fun _ _ => rfl
  | ipPrefix =>
    unfold fillPdu at hother
    dsimp only at hother
    split at hother
    . exact hother rfl fun _ _ => rfl
    . exact hother rfl fun _ _ => rfl
  | endOfData session serial =>
    rcases hupdate with ⟨hstate, -⟩ | ⟨new, doNotify, hnew, hupdates⟩
    . contradiction
    . cases hnew
      rw [← hcache] at hupdates
      exact .endOfData session serial origin doNotify (hx serial rfl) hlive hpc hpc' htime hupdates hsent
  | errorReport code =>
    cases code with
    | internalError
    | noData => exact hother rfl announced_encapsulateRequest

theorem Steps.told {c c' : Cxn} (h : c.Pending (OfSerials serials)) (hsteps : Steps c a c' effect)
    : Told c serials a c' := by
  have hpending := h.pc
  have hreading {n : Nat} {bytes unread : List UInt8} (hreads : c.Reads n bytes unread)
      : c.pc.ended = false ∧ c.pc ≠ .sendNotify := by
    have hread := hreads.reading
    revert hread
    cases c.pc <;> simp [CxnPc.reading, CxnPc.ended]
  cases hsteps with
  | wait hpc hpos
  | timeout hpc hstate
  | toProcessDone hpc hqueue
  | noResponse hpc hqueue
  | postResponse response hpc => exact .quiet (by rw [hpc]; rfl) (by simp [hpc]) (by simp) rfl rfl rfl
  | wouldBlock pc hpc hpc' =>
    refine .quiet (by rw [hpc]; rfl) (by simp [hpc]) ?_ rfl rfl rfl
    rcases hpc' with ⟨-, rfl⟩ | ⟨-, rfl⟩ <;> simp
  | readMore n bytes unread hreads
  | receive n bytes unread pdu hreads hread
  | readError n bytes unread code embedded text pdu hreads =>
    exact .quiet (hreading hreads).1 (hreading hreads).2 (by simp) rfl rfl rfl
  | handlePdu q fromRecvBuffer hpc hhandles =>
    exact Handles.told c.toProcessQueue (by rw [hpc]; rfl) (by simp [hpc]) hhandles
  | tryPopToProcess q queue hpc hstate hqueue hhandles =>
    exact Handles.told queue (by rw [hpc]; rfl) (by simp [hpc]) hhandles
  | postRequest fromRecvBuffer hpc =>
    exact .quiet (by rw [hpc]; rfl) (by simp [hpc]) (afterHandlePdu_ne_sendNotify _) rfl rfl rfl
  | popResponse response queue pc hpc hqueue hpc' =>
    refine .quiet (by rw [hpc]; rfl) (by simp [hpc]) ?_ rfl rfl rfl
    rw [Cxn.popResponse, hpc']
    split <;> simp
  | responded response stop pc hpc hpc' =>
    refine .quiet (by rw [hpc]; rfl) (by simp [hpc]) ?_ rfl rfl rfl
    rw [hpc']
    split
    . simp
    . split <;> simp
  | cleanupPop response queue pc hpc hqueue hpc' =>
    refine .ended ?_ rfl
    rw [Cxn.popResponse, hpc']
    split <;> rfl
  | sendCacheReset now q fromRecvBuffer hpc =>
    refine .send _ (by rw [hpc]; rfl) (by simp [hpc]) (afterHandlePdu_ne_sendNotify _) rfl rfl rfl ?_
    intro x hx
    rw [mem_singleton.mp hx]
    exact fun _ _ => rfl
  | sendError now _ hpc =>
    rw [hpc] at hpending
    rcases hpending with ⟨code, embedded, text, hreport⟩
    refine .send _ (by rw [hpc]; rfl) (by simp [hpc]) (by simp) rfl rfl rfl ?_
    intro x hx
    rw [mem_singleton.mp hx]
    exact announced_errorReport hreport
  | sendResponse now response pdu _ stop cache hpc hcache hupdate =>
    rw [hpc] at hpending
    rcases hpending pdu mem_cons_self with ⟨x, hx, rfl⟩
    exact told_sendResponse hx (by rw [hpc]; rfl) (by simp [hpc]) (by simp) rfl rfl rfl hupdate
  | sendNotify now hpc => exact .notify now hpc rfl rfl rfl rfl
  | check now copied global cache _ pc hpc hcache hpc' hupdate =>
    rcases hupdate with ⟨rfl, rfl, rfl⟩ | ⟨hdue, rfl, doNotify, hupdates, rfl⟩
    . exact .quiet (by rw [hpc]; rfl) (by simp [hpc]) (by simp) rfl rfl rfl
    refine .check now copied global doNotify (by rw [hpc]; rfl) (by simp [hpc]) rfl ?_ hdue rfl hupdates rfl
    rintro rfl
    rcases hpc' with _ | ⟨-, hready⟩
    . contradiction
    . exact hready
  | _ => exact .ended rfl rfl

theorem Updates.offset_le {base : UInt32} (h : Updates old new cache doNotify)
    (hold : old.dataAvailable = true → serialOffset base old.serialNumber < 2 ^ 31)
    (hnew : new.dataAvailable = true → serialOffset base new.serialNumber < 2 ^ 31)
    : (old.dataAvailable = true → cache.dataAvailable = true ∧
        serialOffset base old.serialNumber ≤ serialOffset base cache.serialNumber ∧
        (doNotify = true →
          serialOffset base old.serialNumber < serialOffset base cache.serialNumber)) ∧
      (new.dataAvailable = true → cache.dataAvailable = true ∧
        serialOffset base new.serialNumber ≤ serialOffset base cache.serialNumber) := by
  cases h with
  | noData hdata => exact ⟨fun h => ⟨h, le_refl _, by simp⟩, fun h => by simp [hdata] at h⟩
  | newer hdata hgreater =>
    refine ⟨?_, fun _ => ⟨rfl, le_refl _⟩⟩
    intro hdata'
    have hlt := (serialNumberGreater_iff (hnew hdata) (hold hdata')).mp (hgreater hdata')
    exact ⟨rfl, hlt.le, fun _ => hlt⟩
  | notNewer hdata hdata' hgreater =>
    refine ⟨fun h => ⟨h, le_refl _, by simp⟩, fun _ => ⟨hdata', ?_⟩⟩
    by_contra hlt
    rw [(serialNumberGreater_iff (hnew hdata) (hold hdata')).mpr (by omega)] at hgreater
    contradiction

theorem Updates.mem_serials (h : Updates old new cache doNotify)
    (hold : old.dataAvailable = true → old.serialNumber ∈ serials)
    (hnew : new.dataAvailable = true → new.serialNumber ∈ serials)
    (hdata : cache.dataAvailable = true) : cache.serialNumber ∈ serials := by
  cases h with
  | noData => exact hold hdata
  | newer hdata' => exact hnew hdata'
  | notNewer _ hdata' => exact hold hdata'

theorem Updates.dataAvailable (h : Updates old new cache true) : cache.dataAvailable = true := by
  cases h
  rfl

end Cxn

namespace History

variable {serial : UInt32} {doNotify : Bool}

structure Takes (h : History) (time : Nat) (ev : CxnEvent) (h' : History) : Prop where
  clock : (h.clock :: time :: ev.clockReadings).Pairwise (· ≤ ·)
  clock_eq : h'.clock = ev.clockReadings.getLastD time
  handle : h.cxn.handle ev = some h'.cxn
  log : h'.log = h.log ++
    (h'.cxn.sent.drop h.cxn.sent.length).map fun x => ⟨time, h.cxn.state, x.pdu⟩
  serials : h'.serials = h.serials ++ ev.serials

theorem takes_of_next {h h' : History} {time : Nat} {ev : CxnEvent}
    (hnext : h.next (time, ev) = some h') : h.Takes time ev h' := by
  unfold next at hnext
  rw [ite_none_right_eq_some] at hnext
  rcases hnext with ⟨hclock, hnext⟩
  rcases map_eq_some_iff.mp hnext with ⟨_, hc, rfl⟩
  exact ⟨hclock, rfl, hc, rfl, rfl⟩

variable {h h' : History} {time : Nat} {ev : CxnEvent}

theorem Takes.le_clock (ht : h.Takes time ev h') : h.clock ≤ time ∧ time ≤ h'.clock := by
  have hclock := ht.clock
  rw [pairwise_cons, pairwise_cons] at hclock
  refine ⟨hclock.1 time mem_cons_self, ?_⟩
  rw [ht.clock_eq]
  rcases mem_cons.mp getLastD_mem_cons with heq | hmem
  . rw [heq]
  . exact hclock.2.1 _ hmem

variable {l : List Sent}

section

variable (ht : h.Takes time ev h')

include ht

theorem Takes.log_of_sent (hsent : h'.cxn.sent = h.cxn.sent ++ l)
    : h'.log = h.log ++ l.map fun x => ⟨time, h.cxn.state, x.pdu⟩ := by
  rw [ht.log, hsent, drop_left]

theorem Takes.log_eq (hsent : h'.cxn.sent = h.cxn.sent) : h'.log = h.log := by
  have hlog := ht.log_of_sent (hsent.trans (append_nil _).symm)
  rw [map_nil, append_nil] at hlog
  exact hlog

theorem Takes.forall_mem_log (hsent : h'.cxn.sent = h.cxn.sent ++ l) {p : SentAt → Prop}
    : (∀ x ∈ h'.log, p x) ↔ (∀ x ∈ h.log, p x) ∧ ∀ x ∈ l, p ⟨time, h.cxn.state, x.pdu⟩ := by
  rw [ht.log_of_sent hsent, forall_mem_append, List.forall_mem_map]

theorem Takes.pairwise_log {x : Sent} (hsent : h'.cxn.sent = h.cxn.sent ++ [x])
    {p : SentAt → SentAt → Prop} (hlog : h.log.Pairwise p)
    (hx : ∀ a ∈ h.log, p a ⟨time, h.cxn.state, x.pdu⟩) : h'.log.Pairwise p := by
  rw [ht.log_of_sent hsent]
  exact pairwise_append.mpr ⟨hlog, pairwise_singleton _ _, by simpa using hx⟩

theorem Takes.mem_serials (hmem : serial ∈ h.serials) : serial ∈ h'.serials := by
  rw [ht.serials]
  exact mem_append_left _ hmem

end

structure Idle (c c' : Cxn) : Prop where
  pc : c'.pc = c.pc
  state : c'.state = c.state
  time : c'.nextCacheStateCheckTime = c.nextCacheStateCheckTime
  cache : c'.localCacheState = c.localCacheState
  sent : c'.sent = c.sent

theorem handle_cases {c c' : Cxn} (hhandle : c.handle ev = some c')
    : (∃ unread closed selected semaphore, c' = { c with unread, closed, selected, semaphore }) ∨
        (∃ pdus isDone, ev = .respond pdus isDone ∧ c' = c.pushResponse ⟨pdus.map fillPdu, isDone⟩) ∨
        ∃ a effect, ev = .act a ∧ c.Steps a c' effect := by
  cases ev with
  | arrive
  | select
  | post =>
    simp only [Cxn.handle] at hhandle
    split at hhandle <;> cases hhandle
    exact .inl ⟨_, _, _, _, rfl⟩
  | close
  | semPost =>
    cases hhandle
    exact .inl ⟨_, _, _, _, rfl⟩
  | respond pdus isDone =>
    cases hhandle
    exact .inr (.inl ⟨pdus, isDone, rfl, rfl⟩)
  | act a =>
    rcases map_eq_some_iff.mp hhandle with ⟨⟨_, effect⟩, hnext, rfl⟩
    exact .inr (.inr ⟨a, effect, rfl, Cxn.next_steps hnext⟩)

theorem idle_or_act {c c' : Cxn} (hhandle : c.handle ev = some c')
    : Idle c c' ∨ ∃ a effect, ev = .act a ∧ c.Steps a c' effect := by
  rcases handle_cases hhandle with ⟨_, _, _, _, rfl⟩ | ⟨_, _, -, rfl⟩ | hact
  . exact .inl ⟨rfl, rfl, rfl, rfl, rfl⟩
  . exact .inl ⟨rfl, rfl, rfl, rfl, rfl⟩
  . exact .inr hact

theorem pending_handle {c c' : Cxn} {serials : List UInt32} (hp : c.Pending (OfSerials serials))
    (hhandle : c.handle ev = some c') : c'.Pending (OfSerials (serials ++ ev.serials)) := by
  have hmono : c.Pending (OfSerials (serials ++ ev.serials)) := by
    apply hp.mono
    rintro pdu ⟨x, hx, rfl⟩
    exact ⟨x, fun serial hserial => mem_append_left _ (hx serial hserial), rfl⟩
  rcases handle_cases hhandle with ⟨_, _, _, _, rfl⟩ | ⟨_, _, rfl, rfl⟩ | ⟨_, _, rfl, hsteps⟩
  . exact ⟨hmono.pc, hmono.responses, hmono.request⟩
  . apply hmono.pushResponse
    intro pdu hpdu
    rcases List.mem_map.mp hpdu with ⟨x, hx, rfl⟩
    refine ⟨x, ?_, rfl⟩
    intro serial hserial
    exact mem_append_right _ (mem_filterMap.mpr ⟨x, hx, hserial⟩)
  . exact hmono.steps hsteps

variable {x : SentAt}

theorem announced_of_notified (hx : serial ∈ x.notified) : serial ∈ x.announced := by
  rw [SentAt.announced, mem_def.mp hx]
  rfl

theorem announced_of_ended (hx : serial ∈ x.ended) : serial ∈ x.announced := by
  rcases x with ⟨_, _, ⟨_, pduType, _, _, _⟩⟩
  cases pduType with
  | endOfData => exact hx
  | _ => cases hx

theorem notified_of_announced (hx : x.announced = none) : x.notified = none := by
  by_contra hne
  rcases ne_none_iff_exists'.mp hne with ⟨_, hserial⟩
  have hmem := announced_of_notified (mem_def.mpr hserial)
  simp [hx] at hmem

structure Timed (h : History) : Prop where
  apart : h.log.Pairwise fun a b =>
    a.notified.isSome = true → b.notified.isSome = true → a.time + cxnNotifyInterval ≤ b.time
  ready : ∀ x ∈ h.log, x.notified.isSome = true → x.state = .ready
  timer : h.cxn.pc.ended = false → h.cxn.pc ≠ .sendNotify → ∀ x ∈ h.log, x.notified.isSome = true →
    x.time + cxnNotifyInterval ≤ h.cxn.nextCacheStateCheckTime
  due : h.cxn.pc = .sendNotify → h.cxn.state = .ready ∧ ∀ x ∈ h.log, x.notified.isSome = true →
    x.time + cxnNotifyInterval ≤ h.clock

theorem Timed.idle (hi : h.Timed) (ht : h.Takes time ev h') (hidle : Idle h.cxn h'.cxn) : h'.Timed := by
  have hlog := ht.log_eq hidle.sent
  refine ⟨hlog ▸ hi.apart, hlog ▸ hi.ready, ?_, ?_⟩
  . rw [hidle.pc, hidle.time, hlog]
    exact hi.timer
  rw [hidle.pc, hidle.state, hlog]
  intro hpc
  refine ⟨(hi.due hpc).1, ?_⟩
  intro x hx hnotified
  have hdue := (hi.due hpc).2 x hx hnotified
  have hclock := ht.le_clock
  omega

theorem Timed.send (hi : h.Timed) (ht : h.Takes time ev h') (hlive : h.cxn.pc.ended = false)
    (hpc : h.cxn.pc ≠ .sendNotify) (hpc' : h'.cxn.pc ≠ .sendNotify)
    (htime : h'.cxn.nextCacheStateCheckTime = h.cxn.nextCacheStateCheckTime)
    (hsent : h'.cxn.sent = h.cxn.sent ++ l)
    (hl : ∀ x ∈ l, ∀ time state, (SentAt.mk time state x.pdu).notified = none) : h'.Timed := by
  refine ⟨?_, ?_, ?_, fun hpc => absurd hpc hpc'⟩
  . rw [ht.log_of_sent hsent, pairwise_append, pairwise_map]
    refine ⟨hi.apart, pairwise_of_forall_mem_list ?_, ?_⟩
    . intro a ha b hb hnotified
      simp [hl a ha] at hnotified
    . intro a ha
      rw [List.forall_mem_map]
      intro b hb _ hnotified
      simp [hl b hb] at hnotified
  . rw [ht.forall_mem_log hsent]
    exact ⟨hi.ready, fun x hx hnotified => by simp [hl x hx] at hnotified⟩
  . intro _ _
    rw [htime, ht.forall_mem_log hsent]
    exact ⟨hi.timer hlive hpc, fun x hx hnotified => by simp [hl x hx] at hnotified⟩

theorem Timed.step (hi : h.Timed) {a : CxnAction} (ht : h.Takes time (.act a) h') {serials : List UInt32}
    (htold : h.cxn.Told serials a h'.cxn) : h'.Timed := by
  cases htold with
  | ended hended hsent =>
    have hlog := ht.log_eq hsent
    refine ⟨hlog ▸ hi.apart, hlog ▸ hi.ready, fun hlive => ?_, fun hpc => ?_⟩
    . rw [hended] at hlive
      contradiction
    . rw [hpc] at hended
      contradiction
  | send _ hlive hpc hpc' htime hcache hsent hl =>
    exact hi.send ht hlive hpc hpc' htime hsent fun x hx time state =>
      notified_of_announced (hl x hx time state)
  | endOfData _ _ _ doNotify _ hlive hpc hpc' htime hupdates hsent =>
    exact hi.send ht hlive hpc hpc' htime hsent (forall_mem_singleton.mpr fun _ _ => rfl)
  | notify now hpc hpc' htime hcache hsent =>
    have hclock := ht.le_clock
    have hnow : time ≤ now := by
      have hpairwise := ht.clock
      simp only [CxnEvent.clockReadings, pairwise_cons, mem_cons] at hpairwise
      exact hpairwise.2.1 now (.inl rfl)
    rcases hi.due hpc with ⟨hready, hdue⟩
    refine ⟨ht.pairwise_log hsent hi.apart ?_, ?_, ?_, by simp [hpc']⟩
    . intro a ha hnotified _
      exact (hdue a ha hnotified).trans hclock.1
    . rw [ht.forall_mem_log hsent]
      exact ⟨hi.ready, fun _ _ _ => hready⟩
    . rw [htime, ht.forall_mem_log hsent]
      intro _ _
      refine ⟨fun y hy hnotified => ?_, fun _ _ _ => Nat.add_le_add_right hnow _⟩
      have := hdue y hy hnotified
      omega
  | check now copied _ doNotify hlive hpc hpc' hstate hdue htime hupdates hsent =>
    have hlog := ht.log_eq hsent
    have htimer := hi.timer hlive hpc
    have hcopied : now ≤ copied ∧ h'.clock = copied := by
      have hpairwise := ht.clock
      simp only [CxnEvent.clockReadings, pairwise_cons, mem_cons] at hpairwise
      exact ⟨hpairwise.2.2.1 copied (.inl rfl), ht.clock_eq⟩
    have hlater : ∀ x ∈ h.log, x.notified.isSome = true → x.time + cxnNotifyInterval ≤ copied :=
      fun x hx hnotified => ((htimer x hx hnotified).trans hdue).trans hcopied.1
    refine ⟨hlog ▸ hi.apart, hlog ▸ hi.ready, ?_, ?_⟩
    . rw [hlog, htime]
      exact fun _ _ x hx hnotified => Nat.le_add_right_of_le (hlater x hx hnotified)
    rw [hlog, hcopied.2]
    intro hnotify
    rw [hpc'] at hnotify
    cases doNotify with
    | false => contradiction
    | true => exact ⟨hstate rfl, hlater⟩

structure Ordered (base : UInt32) (h : History) : Prop where
  cache : h.cxn.pc.ended = false → h.cxn.localCacheState.dataAvailable = true →
    h.cxn.localCacheState.serialNumber ∈ h.serials
  told : h.cxn.pc.ended = false → ∀ x ∈ h.log, ∀ serial ∈ x.announced,
    h.cxn.localCacheState.dataAvailable = true ∧
      serialOffset base serial ≤ serialOffset base h.cxn.localCacheState.serialNumber
  newer : h.cxn.pc = .sendNotify → h.cxn.localCacheState.dataAvailable = true ∧
    ∀ x ∈ h.log, ∀ serial ∈ x.announced,
      serialOffset base serial < serialOffset base h.cxn.localCacheState.serialNumber
  mem_serials : ∀ x ∈ h.log, ∀ serial ∈ x.announced, serial ∈ h.serials
  increasing : h.log.Pairwise fun a b => ∀ serial ∈ b.notified, ∀ earlier ∈ a.announced,
    serialOffset base earlier < serialOffset base serial

variable {base : UInt32}

theorem Ordered.idle (ho : h.Ordered base) (ht : h.Takes time ev h') (hidle : Idle h.cxn h'.cxn)
    : h'.Ordered base := by
  have hlog := ht.log_eq hidle.sent
  refine ⟨?_, ?_, ?_, ?_, hlog ▸ ho.increasing⟩
  . rw [hidle.pc, hidle.cache]
    exact fun hlive hdata => ht.mem_serials (ho.cache hlive hdata)
  . rw [hidle.pc, hidle.cache, hlog]
    exact ho.told
  . rw [hidle.pc, hidle.cache, hlog]
    exact ho.newer
  . rw [hlog]
    exact fun x hx serial hserial => ht.mem_serials (ho.mem_serials x hx serial hserial)

theorem Ordered.updates (ho : h.Ordered base) {new cache : CacheState}
    (hlive : h.cxn.pc.ended = false) (hupdates : Cxn.Updates h.cxn.localCacheState new cache doNotify)
    (hw : ∀ serial ∈ h.serials, serialOffset base serial < 2 ^ 31)
    (hnew : new.dataAvailable = true → serialOffset base new.serialNumber < 2 ^ 31)
    : ∀ x ∈ h.log, ∀ serial ∈ x.announced, cache.dataAvailable = true ∧
        serialOffset base serial ≤ serialOffset base cache.serialNumber ∧
        (doNotify = true → serialOffset base serial < serialOffset base cache.serialNumber) := by
  intro x hx serial hserial
  rcases ho.told hlive x hx serial hserial with ⟨hdata, hle⟩
  rcases (hupdates.offset_le (fun hdata => hw _ (ho.cache hlive hdata)) hnew).1 hdata with
    ⟨hdata', hle', hlt⟩
  refine ⟨hdata', hle.trans hle', ?_⟩
  intro hnotify
  exact hle.trans_lt (hlt hnotify)

theorem Ordered.step (ho : h.Ordered base) {a : CxnAction} (ht : h.Takes time (.act a) h')
    (hw : ∀ serial ∈ h'.serials, serialOffset base serial < 2 ^ 31)
    (htold : h.cxn.Told h.serials a h'.cxn) : h'.Ordered base := by
  have hmem : ∀ x ∈ h.log, ∀ serial ∈ x.announced, serial ∈ h'.serials :=
    fun x hx serial hserial => ht.mem_serials (ho.mem_serials x hx serial hserial)
  have hcache (hlive : h.cxn.pc.ended = false) (hdata : h.cxn.localCacheState.dataAvailable = true)
      : h.cxn.localCacheState.serialNumber ∈ h'.serials := ht.mem_serials (ho.cache hlive hdata)
  have hold {new cache : CacheState} {doNotify : Bool} (hlive : h.cxn.pc.ended = false)
      (hupdates : Cxn.Updates h.cxn.localCacheState new cache doNotify) :=
    ho.updates hlive hupdates fun s hs => hw s (ht.mem_serials hs)
  cases htold with
  | ended hended hsent =>
    have hlog := ht.log_eq hsent
    have hlive : h'.cxn.pc.ended ≠ false := by simp [hended]
    refine ⟨fun h => absurd h hlive, fun h => absurd h hlive, ?_, hlog ▸ hmem, hlog ▸ ho.increasing⟩
    intro hpc
    rw [hpc] at hended
    contradiction
  | send _ hlive hpc hpc' htime hcache' hsent hl =>
    refine ⟨?_, ?_, fun hpc => absurd hpc hpc', ?_, ?_⟩
    . rw [hcache']
      exact fun _ => hcache hlive
    . rw [hcache', ht.forall_mem_log hsent]
      exact fun _ => ⟨ho.told hlive, fun x hx serial hserial => by simp [hl x hx] at hserial⟩
    . rw [ht.forall_mem_log hsent]
      exact ⟨hmem, fun x hx serial hserial => by simp [hl x hx] at hserial⟩
    rw [ht.log_of_sent hsent, pairwise_append, pairwise_map]
    refine ⟨ho.increasing, pairwise_of_forall_mem_list ?_, ?_⟩
    . intro a ha b hb serial hserial _ hearlier
      simp [hl a ha] at hearlier
    . intro a ha
      rw [List.forall_mem_map]
      intro b hb serial hserial
      have hserial := announced_of_notified hserial
      simp [hl b hb] at hserial
  | endOfData _ serial _ doNotify hserial hlive hpc hpc' htime hupdates hsent =>
    have hserial := ht.mem_serials hserial
    have hold := hold hlive hupdates fun _ => hw _ hserial
    refine ⟨fun _ => hupdates.mem_serials (hcache hlive) fun _ => hserial, ?_,
      fun hpc => absurd hpc hpc', ?_, ht.pairwise_log hsent ho.increasing ?_⟩
    . rw [ht.forall_mem_log hsent, forall_mem_singleton]
      refine fun _ => ⟨fun x hx s hs => ⟨(hold x hx s hs).1, (hold x hx s hs).2.1⟩, ?_⟩
      rintro s ⟨⟩
      exact (hupdates.offset_le (fun hdata => hw _ (hcache hlive hdata)) fun _ => hw _ hserial).2 rfl
    . rw [ht.forall_mem_log hsent, forall_mem_singleton]
      refine ⟨hmem, ?_⟩
      rintro s ⟨⟩
      exact hserial
    . rintro a ha s ⟨⟩
  | notify now hpc hpc' htime hcache' hsent =>
    have hlive : h.cxn.pc.ended = false := by rw [hpc]; rfl
    rcases ho.newer hpc with ⟨hdata, hnewer⟩
    refine ⟨?_, ?_, by simp [hpc'], ?_, ht.pairwise_log hsent ho.increasing ?_⟩
    . rw [hcache']
      exact fun _ => hcache hlive
    . rw [hcache', ht.forall_mem_log hsent, forall_mem_singleton]
      refine fun _ => ⟨fun x hx s hs => ⟨hdata, (hnewer x hx s hs).le⟩, ?_⟩
      rintro s ⟨⟩
      exact ⟨hdata, le_refl _⟩
    . rw [ht.forall_mem_log hsent, forall_mem_singleton]
      refine ⟨hmem, ?_⟩
      rintro s ⟨⟩
      exact hcache hlive hdata
    . rintro a ha s ⟨⟩
      exact hnewer a ha
  | check now _ global doNotify hlive hpc hpc' _ _ htime hupdates hsent =>
    have hlog := ht.log_eq hsent
    have hglobal : global.dataAvailable = true → global.serialNumber ∈ h'.serials := by
      intro hdata
      rw [ht.serials]
      exact mem_append_right _ (by simp [CxnEvent.serials, hdata])
    have hold := hold hlive hupdates fun hdata => hw _ (hglobal hdata)
    refine ⟨fun _ => hupdates.mem_serials (hcache hlive) hglobal, ?_, ?_, hlog ▸ hmem,
      hlog ▸ ho.increasing⟩
    . rw [hlog]
      exact fun _ x hx s hs => ⟨(hold x hx s hs).1, (hold x hx s hs).2.1⟩
    . intro hnotify
      rw [hpc'] at hnotify
      cases doNotify with
      | false => contradiction
      | true =>
        refine ⟨hupdates.dataAvailable, ?_⟩
        rw [hlog]
        exact fun x hx s hs => (hold x hx s hs).2.2 rfl

structure Disciplined (h : History) : Prop where
  pending : h.cxn.Pending (OfSerials h.serials)
  timed : h.Timed
  ordered : ∀ base, (∀ serial ∈ h.serials, serialOffset base serial < 2 ^ 31) → h.Ordered base

theorem disciplined_init (cache : CacheState) (start : Nat) : (init cache start).Disciplined where
  pending := Cxn.pending_init cache start
  timed := ⟨.nil, by simp [init], by simp [init], by simp [init, Cxn.init]⟩
  ordered base hw := by
    refine ⟨?_, by simp [init], by simp [init, Cxn.init], by simp [init], .nil⟩
    intro _ (hdata : cache.dataAvailable = _)
    simp [init, Cxn.init, hdata]

theorem Disciplined.next (hd : h.Disciplined) (hnext : h.next (time, ev) = some h') : h'.Disciplined := by
  have ht := takes_of_next hnext
  have hpending : h'.cxn.Pending (OfSerials h'.serials) := by
    rw [ht.serials]
    exact pending_handle hd.pending ht.handle
  have hordered {base : UInt32} (hw : ∀ serial ∈ h'.serials, serialOffset base serial < 2 ^ 31)
      : h.Ordered base :=
    hd.ordered base fun serial hserial => hw serial (ht.mem_serials hserial)
  rcases idle_or_act ht.handle with hidle | ⟨_, _, rfl, hsteps⟩
  . exact ⟨hpending, hd.timed.idle ht hidle, fun base hw => (hordered hw).idle ht hidle⟩
  have htold := hsteps.told hd.pending
  exact ⟨hpending, hd.timed.step ht htold, fun base hw => (hordered hw).step ht hw htold⟩

/--
Serial Notify PDUs are `CXN_NOTIFY_INTERVAL` apart, and sent by a thread that is ready. If the serial
numbers that the cache takes are in a window of fewer than 2 ^ 31 consecutive ones, each notified one is
greater than those that were notified or ended an answer before.
-/
theorem serial_notify_discipline {cache : CacheState} {start : Nat}
    (hreach : (lts cache start).Reachable h)
    : (h.log.Pairwise fun a b =>
        a.notified.isSome = true → b.notified.isSome = true → a.time + cxnNotifyInterval ≤ b.time) ∧
      (∀ x ∈ h.log, x.notified.isSome = true → x.state = .ready) ∧
      ∀ (base : UInt32) (size : Nat), size < 2 ^ 31 →
        (∀ serial ∈ h.serials, serialOffset base serial < size) →
        (h.log.Pairwise fun a b => ∀ serial ∈ b.notified, ∀ earlier ∈ a.notified,
          serialNumberGreater serial earlier = true) ∧
        h.log.Pairwise fun a b => ∀ serial ∈ b.notified, ∀ earlier ∈ a.ended,
          serialNumberGreater serial earlier = true := by
  have hd : h.Disciplined := by
    apply hreach.invariant
    . intro h hinit
      rw [hinit]
      exact disciplined_init cache start
    . rintro h ⟨time, _⟩ _ hd hnext
      exact hd.next hnext
  refine ⟨hd.timed.apart, hd.timed.ready, ?_⟩
  intro base size hsize hserials
  have hw : ∀ serial ∈ h.serials, serialOffset base serial < 2 ^ 31 := by
    intro serial hserial
    exact (hserials serial hserial).trans hsize
  have ho := hd.ordered base hw
  have hgreater : h.log.Pairwise fun a b => ∀ serial ∈ b.notified, ∀ earlier ∈ a.announced,
      serialNumberGreater serial earlier = true := by
    refine ho.increasing.imp_of_mem ?_
    intro a b ha hb hlt serial hserial earlier hearlier
    rw [serialNumberGreater_iff (hw _ (ho.mem_serials b hb _ (announced_of_notified hserial)))
      (hw _ (ho.mem_serials a ha _ hearlier))]
    exact hlt serial hserial earlier hearlier
  constructor
  . exact hgreater.imp fun hab serial hserial earlier hearlier =>
      hab serial hserial earlier (announced_of_notified hearlier)
  . refine hgreater.imp ?_
    intro a b hab serial hserial earlier hearlier
    exact hab serial hserial earlier (announced_of_ended hearlier)

def notifiedTwice : List (Nat × CxnEvent) :=
  [(60, .act .timeout), (60, .act (.read .wouldBlock)), (60, .act (.check 60 60 ⟨true, 0, 6⟩)),
    (60, .act (.write 61)), (70, .arrive [0, 2, 0, 0, 0, 0, 0, 8]), (70, .select), (70, .post),
    (70, .act .step), (70, .act (.read (.receive 8))), (70, .act .step), (70, .act .step),
    (70, .act (.check 70 70 ⟨true, 0, 6⟩)), (71, .respond [.cacheResponse 0, .endOfData 0 6] true),
    (71, .semPost), (71, .act .step), (71, .act (.read .wouldBlock)), (71, .act .step),
    (71, .act (.write 71)), (71, .act (.write 71)), (71, .act .step), (71, .act .step),
    (71, .act (.check 71 71 ⟨true, 0, 6⟩)), (121, .act .timeout), (121, .act (.read .wouldBlock)),
    (121, .act (.check 121 121 ⟨true, 0, 7⟩)), (122, .act (.write 122))]

theorem serial_notify_discipline_notifiedTwice
    : ∃ h, (lts ⟨true, 0, 5⟩ 0).Reachable h ∧
        (h.log.filterMap fun x => x.notified.map (x.time, ·)) = [(60, 6), (122, 7)] ∧
        h.log.filterMap SentAt.ended = [6] ∧
        (h.log.Pairwise fun a b => a.notified.isSome = true → b.notified.isSome = true →
          a.time + cxnNotifyInterval ≤ b.time) ∧
        h.log.Pairwise fun a b => ∀ serial ∈ b.notified, ∀ earlier ∈ a.ended,
          serialNumberGreater serial earlier = true := by
  have hrun : ∃ h, (lts ⟨true, 0, 5⟩ 0).Reachable h ∧
      ((h.log.filterMap fun x => x.notified.map (x.time, ·)) = [(60, 6), (122, 7)] ∧
        h.log.filterMap SentAt.ended = [6] ∧
        h.serials.all (fun serial => serialOffset 5 serial < 3) = true) :=
    Lts.exists_reachable_of_foldlM notifiedTwice (by decide +kernel)
  rcases hrun with ⟨h, hreach, hnotified, hended, hall⟩
  have hserials : ∀ serial ∈ h.serials, serialOffset 5 serial < 3 := by
    intro serial hmem
    exact of_decide_eq_true (List.all_eq_true.mp hall serial hmem)
  exact ⟨h, hreach, hnotified, hended, (serial_notify_discipline hreach).1,
    ((serial_notify_discipline hreach).2.2 5 3 (by decide) hserials).2⟩

end History

end Daemon

end Rpstir
