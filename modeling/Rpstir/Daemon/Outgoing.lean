import Rpstir.Daemon.Framing
import Rpstir.Daemon.Lemmas.Outgoing

/-!
This module contains the theorem about the PDUs that the daemon sends: each of them fits into the send
buffer, has the right length, and is accepted by `parse_pdu`.
-/

namespace Rpstir

open List Option

variable {pdu : Pdu}

namespace Rtr

def Prefix.InFamily (p : Prefix) : Prop :=
  p.prefixBytes.length ∈ [4, 16] →
    p.prefixLength ≤ p.prefixMaxLength ∧ p.prefixMaxLength.toNat ≤ 8 * p.prefixBytes.length

instance (p : Prefix) : Decidable p.InFamily :=
  inferInstanceAs (Decidable (_ → _))

structure Tables.InFamily (t : Tables) : Prop where
  full : ∀ r ∈ t.full, r.pfx.InFamily
  incremental : ∀ r ∈ t.incremental, r.pfx.InFamily

instance (t : Tables) : Decidable t.InFamily :=
  decidable_of_iff ((∀ r ∈ t.full, r.pfx.InFamily) ∧ ∀ r ∈ t.incremental, r.pfx.InFamily)
    ⟨fun h => ⟨h.1, h.2⟩, fun h => ⟨h.full, h.incremental⟩⟩

def Pdu.InFamily : Pdu → Prop
  | ipPrefix p _ => p.prefixBytes.length ∈ [4, 16] ∧ p.InFamily
  | _ => True

theorem inFamily_fillPduIpPrefix {p : Prefix} {isAnnounce : Bool} (hp : p.InFamily)
    (h : fillPduIpPrefix p isAnnounce = some pdu) : pdu.InFamily := by
  unfold fillPduIpPrefix at h
  split at h
  . next hlength =>
    cases h
    exact ⟨by simp [hlength], hp⟩
  . next hlength =>
    cases h
    exact ⟨by simp [hlength], hp⟩
  . contradiction

theorem inFamily_of_mapM {α : Type} {f : α → Option Pdu} {rows : List α} {pdus : List Pdu}
    (hf : ∀ r ∈ rows, ∀ pdu, f r = some pdu → pdu.InFamily) (h : rows.mapM f = some pdus)
    : ∀ pdu ∈ pdus, pdu.InFamily := by
  induction rows generalizing pdus with
  | nil =>
    cases h
    simp
  | cons r rows ih =>
    rw [mapM_cons] at h
    rcases bind_eq_some_iff.mp h with ⟨_, hx, h⟩
    rcases bind_eq_some_iff.mp h with ⟨_, hxs, h⟩
    cases h
    rw [forall_mem_cons] at hf ⊢
    exact ⟨hf.1 _ hx, ih hf.2 hxs⟩

namespace Tables

variable {t : Tables}

variable {firstRow : Option Prefix} {serial : Serial} {limit : Nat}

theorem InFamily.serialQryGetNext (h : t.InFamily) {r : IncrementalRow}
    (hr : r ∈ t.serialQryGetNext serial firstRow limit) : r.pfx.InFamily := by
  have hmem := mem_of_mem_take hr
  rw [mem_insertionSort, mem_filter] at hmem
  exact h.incremental r (mem_of_mem_filter hmem.1)

theorem InFamily.resetQryGetNext (h : t.InFamily) {p : Prefix}
    (hp : p ∈ t.resetQryGetNext serial firstRow limit) : p.InFamily := by
  have hmem := mem_of_mem_take hp
  rw [mem_insertionSort, mem_filter, fullPrefixes, mem_filterMap] at hmem
  rcases hmem.1 with ⟨r, hr, heq⟩
  rw [ite_none_right_eq_some, some.injEq] at heq
  rw [← heq.2]
  exact h.full r hr

end Tables

theorem inFamily_append {l l' : List Pdu} (h : ∀ pdu ∈ l, pdu.InFamily) (h' : ∀ pdu ∈ l', pdu.InFamily)
    : ∀ pdu ∈ l ++ l', pdu.InFamily := by
  intro pdu hpdu
  rcases List.mem_append.mp hpdu with hpdu | hpdu
  . exact h pdu hpdu
  . exact h' pdu hpdu

end Rtr

namespace Daemon

open Wire

variable {ι κ : Type}

namespace DbQueryState

open Rtr

theorem inFamily_start (query : DbQuery) : ∀ pdu ∈ (start query).pdus, pdu.InFamily := by
  cases query <;> simp [start, pdus, SerialQuery.start, Query.start]

variable {e : SerialQueryEnv} {t : Tables} {q q' : SerialQuery} {maxRows : Nat}

theorem inFamily_doQuery {l : List Rtr.Pdu} {rows : List IncrementalRow}
    (hsent : ∀ pdu ∈ q.sent, pdu.InFamily) (hl : ∀ pdu ∈ l, pdu.InFamily)
    (hrows : ∀ r ∈ rows, r.pfx.InFamily)
    : ∀ pdu ∈ (serialQuery (q.doQuery maxRows l rows)).pdus, pdu.InFamily := by
  unfold SerialQuery.doQuery
  split
  . exact inFamily_append hsent (by simp [Pdu.InFamily])
  next new hnew =>
  have hall : ∀ pdu ∈ q.sent ++ (l ++ new), pdu.InFamily := by
    refine inFamily_append hsent (inFamily_append hl (inFamily_of_mapM ?_ hnew))
    intro r hr pdu hpdu
    exact inFamily_fillPduIpPrefix (hrows r hr) hpdu
  dsimp only
  split <;> exact hall

theorem inFamily_preQuery (hsent : ∀ pdu ∈ q.sent, pdu.InFamily)
    : ∀ pdu ∈ (serialQuery (q.preQuery e t)).pdus, pdu.InFamily := by
  have hfinish {q' : SerialQuery} {l : List Rtr.Pdu} (hq' : q'.sent = q.sent)
      (hl : ∀ pdu ∈ l, pdu.InFamily)
      : ∀ pdu ∈ (serialQuery (q'.finish l)).pdus, pdu.InFamily :=
    inFamily_append (hq' ▸ hsent) hl
  have hfail : ∀ pdu ∈ (serialQuery q.fail).pdus, pdu.InFamily := hfinish rfl (by simp [Pdu.InFamily])
  unfold SerialQuery.preQuery
  split
  . exact hfail
  split
  . exact hfinish rfl (by simp [Pdu.InFamily])
  split
  . exact hfinish rfl (by simp [Pdu.InFamily])
  split
  . exact hfail
  split
  . dsimp only
    split
    . exact hfinish rfl (by simp [Pdu.InFamily])
    . exact inFamily_append hsent (by simp [Pdu.InFamily])
  . exact hfail

theorem inFamily_serialQuery_step (ht : t.InFamily) (h : ∀ pdu ∈ (serialQuery q).pdus, pdu.InFamily)
    (hstep : q.step e t = some q') : ∀ pdu ∈ (serialQuery q').pdus, pdu.InFamily := by
  have hsent : ∀ pdu ∈ q.sent, pdu.InFamily := by
    intro pdu hpdu
    exact h pdu (mem_pdus_of_mem_sent hpdu)
  have hfail : ∀ pdu ∈ (serialQuery q.fail).pdus, pdu.InFamily :=
    inFamily_append hsent (by simp [Pdu.InFamily])
  unfold SerialQuery.step at hstep
  split at hstep
  iterate 3
    . split at hstep
      . cases hstep
        exact hfail
      . split at hstep <;> cases hstep <;> exact hsent
  . split at hstep
    . split at hstep
      . cases hstep
        exact hfail
      . cases hstep
        exact inFamily_doQuery hsent (by simp) fun r hr => ht.serialQryGetNext hr
    . cases hstep
      exact inFamily_preQuery hsent
  . next l hpc =>
    split at hstep
    . cases hstep
      exact hfail
    cases hstep
    simp only [pdus, hpc] at h
    refine inFamily_doQuery hsent ?_ fun r hr => ht.serialQryGetNext hr
    intro pdu hpdu
    exact h pdu (mem_append_right _ hpdu)
  . next l hpc =>
    simp only [pdus, hpc] at h
    split at hstep
    . cases hstep
      exact hfail
    split at hstep
    . cases hstep
      exact h
    . cases hstep
      show ∀ pdu ∈ q.sent ++ (l ++ _), pdu.InFamily
      rw [← append_assoc]
      exact inFamily_append h (by simp [Pdu.InFamily])
  . next l hpc =>
    simp only [pdus, hpc] at h
    split at hstep
    . cases hstep
      exact h
    . cases hstep
      show ∀ pdu ∈ q.sent ++ (l ++ _), pdu.InFamily
      rw [← append_assoc]
      exact inFamily_append h (by simp [Pdu.InFamily])
  . contradiction

theorem inFamily_fillPdus {q : Query} {session : Session} {rows : List Prefix}
    (h : ∀ pdu ∈ q.sent, pdu.InFamily) (hrows : ∀ p ∈ rows, p.InFamily)
    : ∀ pdu ∈ (q.fillPdus session maxRows rows).sent, pdu.InFamily := by
  have hheader : ∀ pdu ∈ (if q.state.dataSent then [] else [Rtr.Pdu.cacheResponse session]),
      pdu.InFamily := by
    split <;> simp [Pdu.InFamily]
  unfold Query.fillPdus
  dsimp only
  generalize (if q.state.dataSent then [] else [Rtr.Pdu.cacheResponse session]) = header at hheader ⊢
  split
  . exact inFamily_append h (by simp [Pdu.InFamily])
  next new hnew =>
  have hall : ∀ pdu ∈ q.sent ++ (header ++ new), pdu.InFamily := by
    refine inFamily_append h (inFamily_append hheader (inFamily_of_mapM ?_ hnew))
    intro p hp pdu hpdu
    exact inFamily_fillPduIpPrefix (hrows p hp) hpdu
  split
  . exact hall
  . exact inFamily_append hall (by simp [Pdu.InFamily])

theorem inFamily_resetQuery_step {q q' : Query} {e : QueryEnv} (ht : t.InFamily)
    (h : ∀ pdu ∈ q.sent, pdu.InFamily) (hstep : q.step e t = some q')
    : ∀ pdu ∈ q'.sent, pdu.InFamily := by
  have hfail (code : Rtr.ErrorCode) : ∀ pdu ∈ (q.fail code).sent, pdu.InFamily :=
    inFamily_append h (by simp [Pdu.InFamily])
  unfold Query.step at hstep
  split at hstep
  . split at hstep
    . cases hstep
      exact hfail _
    split at hstep
    . split at hstep <;> cases hstep <;> exact h
    . contradiction
  . split at hstep
    . cases hstep
      exact hfail _
    . split at hstep <;> cases hstep <;> exact h
  . split at hstep
    . cases hstep
      exact hfail _
    split at hstep
    . cases hstep
      exact hfail _
    split at hstep
    . cases hstep
      exact hfail _
    split at hstep
    . cases hstep
      exact h
    . cases hstep
      exact hfail _
  . split at hstep
    . cases hstep
      exact hfail _
    cases hstep
    exact inFamily_fillPdus h fun p hp => ht.resetQryGetNext hp
  . contradiction

theorem inFamily_step {q q' : DbQueryState} {e : DbEnv} (ht : e.tables.InFamily)
    (h : ∀ pdu ∈ q.pdus, pdu.InFamily) (hstep : q.step e = some q') : ∀ pdu ∈ q'.pdus, pdu.InFamily := by
  cases q with
  | serialQuery =>
    rcases map_eq_some_iff.mp hstep with ⟨q'', hq, rfl⟩
    exact inFamily_serialQuery_step ht h hq
  | resetQuery =>
    rcases map_eq_some_iff.mp hstep with ⟨q'', hq, rfl⟩
    exact inFamily_resetQuery_step ht h hq

end DbQueryState

variable {embedded text : List UInt8} {requestBuffer : List UInt8} {code : ErrorCode}

def Transmits (pdu : Pdu) : Prop :=
  ∃ bytes, dumpPdu maxPduSize pdu = some bytes ∧ pdu.length.toNat = bytes.length ∧
    bytes.length ≤ maxPduSize ∧ (parsePdu bytes = .good pdu ∨ parsePdu bytes = .warning pdu)

theorem Transmits.of_filled (h : Filled pdu) (hle : pdu.length.toNat ≤ maxPduSize)
    : Transmits pdu := by
  have hwf := h.wellFormed
  refine ⟨pdu.bytes, dumpPdu_of_le hwf.length hle, hwf.length, hwf.length ▸ hle, ?_⟩
  exact accepts_iff.mpr ⟨hwf, [], by simp⟩

section

variable
  (hle : pduHeaderLength + pduErrorHeadersLength + embedded.length + text.length ≤ maxPduSize)

include hle

theorem toNat_length_fillPduErrorReport
    : Filled (fillPduErrorReport code (errorData embedded text)) ∧
        (fillPduErrorReport code (errorData embedded text)).length.toNat ≤ maxPduSize := by
  have hmax : maxPduSize < 2 ^ 32 := by decide
  have hembedded : (UInt32.ofNat embedded.length).toNat = embedded.length :=
    UInt32.toNat_ofNat_of_lt' (by show _ < 2 ^ 32; omega)
  have htext : (UInt32.ofNat text.length).toNat = text.length :=
    UInt32.toNat_ofNat_of_lt' (by show _ < 2 ^ 32; omega)
  have hlength : pduHeaderLength + pduErrorHeadersLength +
      (errorData embedded text).encapsulatedPduLength.toNat +
        (errorData embedded text).errorTextLength.toNat ≤ maxPduSize := by
    simp only [errorData, hembedded, htext]
    exact hle
  refine ⟨.errorReport _ _ (by omega), ?_⟩
  refine (UInt32.toNat_ofNat_of_lt' ?_).trans_le hlength
  show _ < 2 ^ 32
  omega

theorem Transmits.errorData : Transmits (fillPduErrorReport code (errorData embedded text)) :=
  .of_filled (toNat_length_fillPduErrorReport hle).1 (toNat_length_fillPduErrorReport hle).2

end

theorem Transmits.errorReport (h : errorReport code embedded text = some pdu) : Transmits pdu := by
  unfold Daemon.errorReport at h
  split at h
  . contradiction
  . cases h
    apply Transmits.errorData
    rw [length_take]
    omega

theorem encapsulateRequest_of_ne (h : pdu.pduType ≠ .errorReport)
    : Cxn.encapsulateRequest requestBuffer pdu = pdu := by
  unfold Cxn.encapsulateRequest
  split
  . exact absurd rfl h
  . rfl

theorem Transmits.encapsulateRequest (hlength : requestBuffer.length ≤ maxQueryPduLength)
    : Transmits (Cxn.encapsulateRequest requestBuffer
        (fillPduErrorReport code (Daemon.errorData [] []))) := by
  have hle : pduHeaderLength + pduErrorHeadersLength + requestBuffer.length + 0 ≤ maxPduSize := by
    have hsum : pduHeaderLength + pduErrorHeadersLength + maxQueryPduLength ≤ maxPduSize := by decide
    omega
  have hrequest : Transmits (fillPduErrorReport code (Daemon.errorData requestBuffer [])) :=
    .errorData hle
  dsimp only [Cxn.encapsulateRequest, fillPduErrorReport]
  split
  . exact hrequest
  . exact .errorData (by decide)

theorem Transmits.fillPdu {x : Rtr.Pdu} (hx : x.InFamily)
    (hlength : requestBuffer.length ≤ maxQueryPduLength)
    : Transmits (Cxn.encapsulateRequest requestBuffer (fillPdu x)) := by
  cases x with
  | cacheResponse session =>
    exact .of_filled (.cacheResponse session) (Nat.le_of_ble_eq_true rfl)
  | ipPrefix p =>
    rcases hx with ⟨hfamily, hx⟩
    rcases hx hfamily with ⟨hle, hbits⟩
    unfold Daemon.fillPdu
    dsimp only
    split
    . next hfour =>
      have hmax : p.prefixMaxLength ≤ 32 := by
        rw [hfour] at hbits
        exact hbits
      exact .of_filled (.ipv4Prefix _ _ _ _ _ (UInt8.le_trans hle hmax) hmax) (Nat.le_of_ble_eq_true rfl)
    next hfour =>
    have hsixteen : p.prefixBytes.length = 16 := by simpa [hfour] using hfamily
    have hmax : p.prefixMaxLength ≤ 128 := by
      rw [hsixteen] at hbits
      exact hbits
    exact .of_filled (.ipv6Prefix _ _ _ _ _ (UInt8.le_trans hle hmax) hmax) (Nat.le_of_ble_eq_true rfl)
  | endOfData session serial =>
    exact .of_filled (.endOfData session serial) (Nat.le_of_ble_eq_true rfl)
  | cacheReset =>
    rw [encapsulateRequest_of_ne (by simp [Daemon.fillPdu, fillPduCacheReset, fillPduHeaderOnly])]
    exact .of_filled .cacheReset (by decide)
  | errorReport code =>
    cases code with
    | internalError
    | noData => exact .encapsulateRequest hlength

namespace Cxn

def outgoing (c : Cxn) : Option Pdu :=
  match c.pc with
  | .sendCacheReset _ _ => some fillPduCacheReset
  | .sendError report => some report.pdu
  | .sendResponse _ (pdu :: _) _ => some (encapsulateRequest c.requestBuffer pdu)
  | .sendNotify => some (fillPduSerialNotify c.localCacheState.session c.localCacheState.serialNumber)
  | _ => none

theorem Steps.sent {c c' : Cxn} {a : CxnAction} {effect : CxnEffect} (h : Steps c a c' effect)
    : c'.sent = c.sent ∨ ∃ x, c'.sent = c.sent ++ [x] ∧ c.outgoing = some x.pdu := by
  cases h with
  | handlePdu _ _ _ hhandles
  | tryPopToProcess _ _ _ _ _ hhandles => cases hhandles <;> exact .inl rfl
  | sendCacheReset _ _ _ hpc
  | sendError _ _ hpc
  | sendResponse _ _ _ _ _ _ hpc
  | sendNotify _ hpc => exact .inr ⟨_, rfl, by simp [outgoing, hpc]⟩
  | _ => exact .inl rfl

theorem Pending.outgoing {c : Cxn}
    (h : c.Pending fun pdu => ∃ x : Rtr.Pdu, x.InFamily ∧ pdu = fillPdu x)
    (hpdu : c.outgoing = some pdu) : Transmits pdu := by
  have hpc := h.pc
  unfold Cxn.outgoing at hpdu
  split at hpdu
  . cases hpdu
    exact .of_filled .cacheReset (by decide)
  . next hat =>
    cases hpdu
    rw [hat] at hpc
    rcases hpc with ⟨_, _, _, hreport⟩
    exact .errorReport hreport
  . next hat =>
    cases hpdu
    rw [hat] at hpc
    rcases hpc _ mem_cons_self with ⟨x, hx, rfl⟩
    exact .fillPdu hx h.request
  . cases hpdu
    exact .of_filled (.serialNotify _ _) (Nat.le_of_ble_eq_true rfl)
  . contradiction

end Cxn

namespace System

def ReadsInFamily (_ : System ι κ) : Event ι κ → Prop
  | .db _ e => e.tables.InFamily
  | _ => True

instance (s : System ι κ) : (ev : Event ι κ) → Decidable (s.ReadsInFamily ev)
  | .db _ e => inferInstanceAs (Decidable e.tables.InFamily)
  | .arrive _ _ | .close _ | .select _ | .post _ | .cxn _ _ => .isTrue trivial

variable [DecidableEq ι] [DecidableEq κ]

variable {cxns : ι → CacheState × Nat} {s s' : System ι κ}

theorem pending_of_reachable (hreach : ((lts cxns).restrict ReadsInFamily).Reachable s)
    : s.Pending Rtr.Pdu.InFamily := by
  apply hreach.invariant_restrict
  . intro s hs
    rw [hs]
    exact pending_init cxns
  . intro s _ _ _ h hok hstep
    refine h.next DbQueryState.inFamily_start ?_ hstep
    rintro _ _ rfl _ _ hq hq'
    exact DbQueryState.inFamily_step hok hq hq'

theorem sent_of_next {ev : Event ι κ} (hstep : s.next ev = some s') (i : ι)
    : (s'.cxns i).sent = (s.cxns i).sent ∨
        ∃ x, (s'.cxns i).sent = (s.cxns i).sent ++ [x] ∧ (s.cxns i).outgoing = some x.pdu := by
  have hset {j : ι} {c : Cxn} (hsent : c.sent = (s.cxns j).sent)
      : ((s.setCxn j c).cxns i).sent = (s.cxns i).sent := setCxn_congr Cxn.sent hsent i
  cases next_steps hstep with
  | arrive
  | close
  | select
  | post => exact .inl (hset rfl)
  | @cxn j _ c effect hsteps =>
    have heffect : ((s.setCxn j c).applyEffect j effect).cxns = (s.setCxn j c).cxns := by
      cases effect <;> rfl
    rw [heffect]
    by_cases hij : i = j
    . rw [hij, setCxn_cxns_self]
      exact hsteps.sent
    . rw [setCxn_cxns_of_ne _ _ hij]
      exact .inl rfl
  | db hsteps =>
    left
    cases hsteps with
    | sendResponse
    | postResponse => exact hset rfl
    | _ => rfl

theorem transmits_of_mem_sent (hreach : ((lts cxns).restrict ReadsInFamily).Reachable s) (i : ι)
    : ∀ x ∈ (s.cxns i).sent, Transmits x.pdu := by
  induction hreach with
  | init hs =>
    rw [hs]
    simp [init, Cxn.init]
  | step hs hstep ih =>
    rcases sent_of_next hstep.2 i with hsame | ⟨_, hsent, hy⟩
    . rwa [hsame]
    . rw [hsent, List.forall_mem_append, forall_mem_singleton]
      exact ⟨ih, ((pending_of_reachable hs).cxns i).outgoing hy⟩

/--
Every PDU that is passed to `send_pdu`, now or before, is dumped successfully to as many bytes as its
length says. They fit into the send buffer, and `parse_pdu` accepts them as this PDU.
-/
theorem outgoing_pdus_transmit (cxns : ι → CacheState × Nat) {s : System ι κ}
    (hreach : ((lts cxns).restrict ReadsInFamily).Reachable s) (i : ι) (pdu : Pdu)
    (hpdu : (s.cxns i).outgoing = some pdu ∨ ∃ x ∈ (s.cxns i).sent, x.pdu = pdu)
    : ∃ bytes, dumpPdu maxPduSize pdu = some bytes ∧ pdu.length.toNat = bytes.length ∧
        bytes.length ≤ maxPduSize ∧ (parsePdu bytes = .good pdu ∨ parsePdu bytes = .warning pdu) := by
  rcases hpdu with hpdu | ⟨x, hx, rfl⟩
  . exact ((pending_of_reachable hreach).cxns i).outgoing hpdu
  . exact transmits_of_mem_sent hreach i x hx

def announcedTables : Rtr.Tables :=
  ⟨[0], [⟨2, some 1, 0, true⟩], [], [⟨2, true, ⟨64500, [10, 0, 0, 0], 8, 24⟩⟩]⟩

theorem outgoing_pdus_transmit_ipv4Prefix
    : ∃ s : System Unit Unit, ((lts fun _ => (⟨false, 0, 0⟩, 0)).restrict ReadsInFamily).Reachable s ∧
        ∃ pdu, (s.cxns ()).outgoing = some pdu ∧ pdu.pduType = .ipv4Prefix ∧
          ∃ bytes, dumpPdu maxPduSize pdu = some bytes ∧ pdu.length.toNat = bytes.length ∧
            bytes.length ≤ maxPduSize ∧
            (parsePdu bytes = .good pdu ∨ parsePdu bytes = .warning pdu) := by
  have hrun : ∃ s : System Unit Unit,
      ((lts fun _ => (⟨false, 0, 0⟩, 0)).restrict ReadsInFamily).Reachable s ∧
        (s.cxns ()).outgoing.any (fun pdu => pdu.pduType == .ipv4Prefix) = true :=
    Lts.exists_reachable_restrict_of_foldlM
      (queryReceived serialQueryBytes [8, 4] ++
        replicate 12 (.db () ⟨announcedTables, false, none, 0⟩) ++
        [.cxn () .step, .cxn () (.read .wouldBlock), .cxn () .step, .cxn () (.write 0)])
      (by decide +kernel)
  rcases hrun with ⟨s, hreach, hany⟩
  rcases Option.any_eq_true _ _ |>.mp hany with ⟨pdu, hpdu, htype⟩
  exact ⟨s, hreach, pdu, hpdu, by simpa using htype,
    outgoing_pdus_transmit _ hreach () pdu (.inl hpdu)⟩

end System

end Daemon

end Rpstir
