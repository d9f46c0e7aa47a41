import Rpstir.Rtr.Lemmas.SerialQuery

/-!
This module contains the answers to queries on tables that do not change: they do not depend on the
numbers of rows that the calls ask for.
-/

namespace Rpstir.Rtr

open List Option

namespace Tables

structure KeysUnique (t : Tables) : Prop where
  update : (t.update.map (·.serialNum)).Nodup
  full : t.full.Nodup
  incremental : KeysNodup t

inductive Links (t : Tables) : Serial → List Serial → Prop where
  | last {serial : Serial} (h : t.readSerNumAsPrev serial = none) : Links t serial []
  | next {serial next : Serial} {serials : List Serial} (h : t.readSerNumAsPrev serial = some next)
      (hlinks : Links t next serials) : Links t serial (next :: serials)

def sortedRows (t : Tables) (serial : Serial) : List IncrementalRow :=
  (t.incrementalRows serial).insertionSort (·.pfx ≤ ·.pfx)

def sortedPrefixes (t : Tables) (serial : Serial) : List Prefix :=
  (t.fullPrefixes serial).insertionSort (· ≤ ·)

end Tables

def Prefix.IsAddress (p : Prefix) : Prop :=
  p.prefixBytes.length = 4 ∨ p.prefixBytes.length = 16

def IncrementalRow.pdu (r : IncrementalRow) : Pdu :=
  .ipPrefix r.pfx r.isAnnounce

theorem fillPduIpPrefix_of_isAddress {p : Prefix} (h : p.IsAddress) (isAnnounce : Bool)
    : fillPduIpPrefix p isAnnounce = some (.ipPrefix p isAnnounce) := by
  rcases h with h | h <;> simp [fillPduIpPrefix, h]

theorem mapM_fillPduIpPrefix_of_isAddress {ρ : Type} {pfx : ρ → Prefix} {isAnnounce : ρ → Bool}
    {rows : List ρ} (h : ∀ r ∈ rows, (pfx r).IsAddress)
    : rows.mapM (fun r => fillPduIpPrefix (pfx r) (isAnnounce r))
      = some (rows.map fun r => .ipPrefix (pfx r) (isAnnounce r)) := by
  induction rows with
  | nil => rfl
  | cons r rows ih =>
    rw [forall_mem_cons] at h
    rw [mapM_cons, fillPduIpPrefix_of_isAddress h.1, ih h.2]
    rfl

section Serial

def Tables.serialAnswer (t : Tables) (session : Session) (serial : Serial) : List Serial → List Pdu
  | [] =>
    if (t.findUpdate serial).isSome then [.cacheResponse session, .endOfData session serial]
    else if t.update.isEmpty then [.errorReport .noData]
    else [.cacheReset]
  | next :: serials =>
    .cacheResponse session
      :: (next :: serials).flatMap (fun s => (t.sortedRows s).map IncrementalRow.pdu)
      ++ [.endOfData session (serials.getLastD next)]

variable {t : Tables} {session : Session}

structure SerialQuery.Reads (t : Tables) (session : Session) (serial : Serial)
    (read rest : List IncrementalRow) (q : SerialQuery) : Prop where
  serNum : q.state.serNum = serial
  firstRow : q.state.firstRow = read.getLast?.map (·.pfx)
  dataSent : q.state.dataSent = true
  session : q.state.session = session
  sortedRows : t.sortedRows serial = read ++ rest

abbrev SerialQuery.Delivers (t : Tables) : SerialQuery → List Pdu → Prop :=
  Paging.Delivers (fun maxRows q => q.step { maxRows := maxRows } t) (fun q => q.pc = .done)
    (fun q => q.sent)

variable {serial : Serial}

theorem Tables.isSome_prev_of_readSerNumAsPrev (hkeys : t.KeysUnique) {next : Serial}
    (h : t.readSerNumAsPrev serial = some next)
    : ((t.findUpdate next).bind (·.prevSerialNum)).isSome = true := by
  obtain ⟨r, hfind, rfl⟩ := map_eq_some_iff.mp h
  have hprev : r.prevSerialNum = some serial := by simpa using find?_some hfind
  rw [findUpdate_of_mem hkeys.update (mem_of_find?_eq_some hfind), bind_some, hprev]
  rfl

variable {read rest : List IncrementalRow} {q : SerialQuery}

theorem SerialQuery.Reads.page (h : q.Reads t session serial read rest) (hkeys : t.KeysUnique)
    (limit : Nat) : t.serialQryGetNext q.state.serNum q.state.firstRow limit = rest.take limit := by
  rw [Tables.serialQryGetNext, h.serNum, h.firstRow]
  congr 1
  exact Paging.sort_filter_of_split IncrementalRow.pfx h.sortedRows
    (hkeys.incremental.nodup_pfx serial)

theorem SerialQuery.Reads.mem (h : q.Reads t session serial read rest) {r : IncrementalRow}
    (hr : r ∈ rest) : r ∈ t.incremental := by
  have hmem : r ∈ t.sortedRows serial := by
    rw [h.sortedRows]
    exact mem_append_right read hr
  rw [Tables.sortedRows, mem_insertionSort] at hmem
  exact mem_of_mem_filter hmem

def Tables.remaining (t : Tables) (session : Session) (serial : Serial) (rest : List IncrementalRow)
    (serials : List Serial) : List Pdu :=
  rest.map IncrementalRow.pdu
    ++ serials.flatMap (fun s => (t.sortedRows s).map IncrementalRow.pdu)
    ++ [.endOfData session (serials.getLastD serial)]

variable {pdus : List Pdu} (hkeys : t.KeysUnique) (haddress : ∀ r ∈ t.incremental, r.pfx.IsAddress)

include hkeys haddress

theorem SerialQuery.Reads.doQuery (h : q.Reads t session serial read rest) {maxRows : Nat}
    (hmaxRows : pdus.length < maxRows)
    : ∃ q', q.doQuery maxRows pdus
          (t.serialQryGetNext q.state.serNum q.state.firstRow (maxRows - pdus.length)) = q'
      ∧ ((∃ page rest', rest = page ++ rest' ∧ page ≠ [] ∧ q'.pc = .getNext
          ∧ q'.Reads t session serial (read ++ page) rest'
          ∧ q'.sent = q.sent ++ (pdus ++ page.map IncrementalRow.pdu))
        ∨ (q'.pc = .checkSerNum (pdus ++ rest.map IncrementalRow.pdu)
          ∧ q'.Reads t session serial (read ++ rest) [] ∧ q'.sent = q.sent)) := by
  have hfill : (rest.take (maxRows - pdus.length)).mapM
      (fun r => fillPduIpPrefix r.pfx r.isAnnounce)
      = some ((rest.take (maxRows - pdus.length)).map IncrementalRow.pdu) :=
    mapM_fillPduIpPrefix_of_isAddress fun r hr => haddress r (h.mem (mem_of_mem_take hr))
  have hfirst (page : List IncrementalRow) : (page.getLast?.map (·.pfx) <|> q.state.firstRow)
      = (read ++ page).getLast?.map (·.pfx) := by
    rw [h.firstRow, getLast?_append]
    cases page.getLast? <;> rfl
  refine ⟨_, rfl, ?_⟩
  rw [h.page hkeys]
  unfold SerialQuery.doQuery
  simp only [hfill, hfirst]
  split
  . next hfull =>
    left
    simp only [length_append, length_map, length_take] at hfull
    refine ⟨rest.take (maxRows - pdus.length), rest.drop (maxRows - pdus.length),
      (take_append_drop _ _).symm, ?_, rfl, ⟨h.serNum, rfl, h.dataSent, h.session, ?_⟩, rfl⟩
    . apply ne_nil_of_length_pos
      rw [length_take]
      omega
    . rw [append_assoc, take_append_drop]
      exact h.sortedRows
  next hpart =>
  right
  have hall : rest.take (maxRows - pdus.length) = rest := by
    apply take_of_length_le
    simp only [length_append, length_map, length_take] at hpart
    omega
  simp only [hall]
  refine ⟨trivial, ⟨h.serNum, rfl, h.dataSent, h.session, ?_⟩, trivial⟩
  rw [append_nil]
  exact h.sortedRows

def SerialQuery.EndsWell (t : Tables) (session : Session) (serial : Serial) (serials : List Serial)
    : Prop :=
  ∀ {read : List IncrementalRow} {q : SerialQuery} {pdus : List Pdu},
    q.Reads t session serial read [] → q.pc = .checkSerNum pdus →
    q.Delivers t (pdus ++ t.remaining session serial [] serials)

variable {serials : List Serial}

theorem SerialQuery.Reads.delivers (hends : EndsWell t session serial serials)
    (h : q.Reads t session serial read rest) {maxRows : Nat} (hmaxRows : pdus.length < maxRows)
    : ∃ q' page left, q.doQuery maxRows pdus
          (t.serialQryGetNext q.state.serNum q.state.firstRow (maxRows - pdus.length)) = q'
      ∧ q'.sent = q.sent ++ page ∧ pdus ++ t.remaining session serial rest serials = page ++ left
      ∧ q'.Delivers t left := by
  -- by the number of rows that are left; a full page takes some of them
  induction hn : rest.length using Nat.strongRecOn generalizing read rest q maxRows pdus with
  | ind n ih =>
    obtain ⟨q', hq', hcase⟩ := h.doQuery hkeys haddress hmaxRows
    rcases hcase with ⟨page, rest', rfl, hne, hpc, hreads, hsent⟩ | ⟨hpc, hreads, hsent⟩
    . refine ⟨q', pdus ++ page.map IncrementalRow.pdu, t.remaining session serial rest' serials, hq',
        hsent, by simp [Tables.remaining], ?_⟩
      apply Paging.Delivers.of_step
      intro size _
      have hlt : rest'.length < n := by
        have hpos := length_pos_of_ne_nil hne
        rw [length_append] at hn
        omega
      obtain ⟨q'', page', left, hq'', hsent', hleft, hdelivers⟩ :=
        @ih rest'.length hlt (read ++ page) rest' q' [] hreads size (by simp; omega) rfl
      refine ⟨q'', page', left, ?_, hsent', hleft, hdelivers⟩
      rw [← hq'']
      simp [SerialQuery.step, hpc, hreads.dataSent]
    . refine ⟨q', [], _, hq', by rw [hsent, append_nil], rfl, ?_⟩
      have hdelivers := hends hreads hpc
      simpa [Tables.remaining] using hdelivers

theorem SerialQuery.Reads.delivers_getNext (hends : EndsWell t session serial serials)
    (h : q.Reads t session serial read rest) (hpc : q.pc = .getNext)
    : q.Delivers t (t.remaining session serial rest serials) := by
  apply Paging.Delivers.of_step
  intro size _
  obtain ⟨q', page, left, hq', hsent, hleft, hdelivers⟩ :=
    h.delivers hkeys haddress hends (show ([] : List Pdu).length < size by rw [length_nil]; omega)
  refine ⟨q', page, left, ?_, hsent, hleft, hdelivers⟩
  rw [← hq']
  simp [SerialQuery.step, hpc, h.dataSent]

omit hkeys haddress in
theorem SerialQuery.Reads.checkSerNum {out : List Pdu} (h : q.Reads t session serial read rest)
    (hprev : ((t.findUpdate serial).bind (·.prevSerialNum)).isSome = true)
    (hpc : q.pc = .checkSerNum pdus)
    (hdelivers : { q with pc := .findNextSerNum pdus }.Delivers t out) : q.Delivers t out := by
  refine Paging.Delivers.of_quiet_step ?_ ?_ hdelivers
  . intro _ _
    simp [SerialQuery.step, hpc, h.serNum, hprev]
  . rfl

theorem SerialQuery.endsWell (hlinks : t.Links serial serials)
    (hprev : ((t.findUpdate serial).bind (·.prevSerialNum)).isSome = true)
    : EndsWell t session serial serials := by
  induction hlinks with
  | @last serial hlast =>
    intro read q pdus h hpc
    have hstep : ∀ size, 2 ≤ size → { q with pc := .findNextSerNum pdus }.step { maxRows := size } t
        = some (q.finish (pdus ++ [.endOfData session serial])) := by
      intro size _
      simp [SerialQuery.step, h.serNum, hlast, h.session, SerialQuery.finish]
    apply h.checkSerNum hprev hpc
    refine Paging.Delivers.of_last_step hstep rfl ?_
    simp [Tables.remaining, SerialQuery.finish]
  | @next serial next serials hnext hlinks ih =>
    intro read q pdus h hpc
    have hends : EndsWell t session next serials := ih (Tables.isSome_prev_of_readSerNumAsPrev hkeys hnext)
    apply h.checkSerNum hprev hpc
    apply Paging.Delivers.of_step
    intro size _
    let q' : SerialQuery := { q with
      pc := .getNext
      state := { q.state with serNum := next, firstRow := none }
      sent := q.sent ++ pdus }
    have hreads : q'.Reads t session next [] (t.sortedRows next) := ⟨rfl, rfl, h.dataSent, h.session, rfl⟩
    refine ⟨q', pdus, t.remaining session next (t.sortedRows next) serials, ?_, rfl, ?_, ?_⟩
    . simp [SerialQuery.step, h.serNum, hnext, q']
    . simp only [Tables.remaining, map_nil, nil_append, flatMap_cons, getLastD_cons,
        append_assoc]
    . exact hreads.delivers_getNext hkeys haddress hends rfl

omit hkeys haddress in
theorem delivers_preQuery (hpc : q.pc = .getNext) (hdataSent : q.state.dataSent = false)
    (h : ∀ size, 2 ≤ size → (q.preQuery { maxRows := size } t).pc = .done
      ∧ (q.preQuery { maxRows := size } t).sent = q.sent ++ pdus) : q.Delivers t pdus := by
  apply Paging.Delivers.of_step
  intro size hsize
  refine ⟨q.preQuery { maxRows := size } t, pdus, [], ?_, (h size hsize).2, (append_nil _).symm, ?_⟩
  . simp [SerialQuery.step, hpc, hdataSent]
  . exact .of_done (h size hsize).1

theorem serialQuery_delivers (hsession : t.session = [session]) (hlinks : t.Links serial serials)
    : (SerialQuery.start serial).Delivers t (t.serialAnswer session serial serials) := by
  -- the first calls send nothing
  have quiet {q : SerialQuery} (q' : SerialQuery) {pdus : List Pdu}
      (hstep : ∀ size, q.step { maxRows := size } t = some q') (hsent : q'.sent = q.sent)
      (h : q'.Delivers t pdus) : q.Delivers t pdus :=
    .of_quiet_step (fun size _ => hstep size) hsent h
  cases hlinks with
  | last hlast =>
    refine quiet { SerialQuery.start serial with pc := .readSerNumAsCurrent }
      (by simp [SerialQuery.step, SerialQuery.start, hlast]) rfl ?_
    by_cases hfound : (t.findUpdate serial).isSome = true
    . simp only [Tables.serialAnswer, hfound, if_true]
      refine quiet { SerialQuery.start serial with
        pc := .getNext, state := ⟨serial, none, false, false, true, false, 0⟩ }
        (by simp [SerialQuery.step, SerialQuery.start, hfound]) rfl ?_
      apply delivers_preQuery rfl rfl
      intro size hsize
      simp [SerialQuery.preQuery, SerialQuery.start, SerialQuery.finish, hsession,
        Nat.not_lt.mpr hsize]
    refine quiet { SerialQuery.start serial with pc := .hasRowsRtrUpdate }
      (by simp [SerialQuery.step, SerialQuery.start, hfound]) rfl ?_
    by_cases hempty : t.update.isEmpty = true
    . simp only [Tables.serialAnswer, hfound, hempty, if_true, Bool.false_eq_true, if_false]
      refine quiet { SerialQuery.start serial with
        pc := .getNext, state := ⟨0, none, false, false, false, true, 0⟩ }
        (by simp [SerialQuery.step, SerialQuery.start, show t.update = [] by simpa using hempty]) rfl ?_
      apply delivers_preQuery rfl rfl
      intro size hsize
      simp [SerialQuery.preQuery, SerialQuery.start, SerialQuery.finish, Nat.not_lt.mpr hsize]
    simp only [Tables.serialAnswer, hfound, hempty, Bool.false_eq_true, if_false]
    refine quiet { SerialQuery.start serial with
      pc := .getNext, state := ⟨0, none, true, false, false, false, 0⟩ }
      (by simp only [SerialQuery.step, SerialQuery.start, hempty, Bool.false_eq_true, if_false,
        implies_true]) rfl ?_
    apply delivers_preQuery rfl rfl
    intro size hsize
    simp [SerialQuery.preQuery, SerialQuery.start, SerialQuery.finish, Nat.not_lt.mpr hsize]
  | @next _ next serials hnext hlinks =>
    have hends : SerialQuery.EndsWell t session next serials :=
      SerialQuery.endsWell hkeys haddress hlinks (Tables.isSome_prev_of_readSerNumAsPrev hkeys hnext)
    refine quiet { SerialQuery.start serial with
      pc := .getNext, state := ⟨next, none, false, false, false, false, 0⟩ }
      (by simp [SerialQuery.step, SerialQuery.start, hnext]) rfl ?_
    apply Paging.Delivers.of_step
    intro size hsize
    let q' : SerialQuery := { SerialQuery.start serial with
      pc := .serialQryGetNext size [.cacheResponse session]
      state := ⟨next, none, false, true, false, false, session⟩ }
    have hreads : q'.Reads t session next [] (t.sortedRows next) := ⟨rfl, rfl, rfl, rfl, rfl⟩
    refine ⟨q', [], _, ?_, rfl, rfl, ?_⟩
    . simp [SerialQuery.step, SerialQuery.preQuery, SerialQuery.start, hsession, Nat.not_lt.mpr hsize,
        q']
    apply Paging.Delivers.of_step
    intro _ _
    obtain ⟨q'', page, left, hq'', hsent, hleft, hdelivers⟩ := hreads.delivers hkeys haddress hends
      (show [Pdu.cacheResponse session].length < size by rw [length_singleton]; omega)
    refine ⟨q'', page, left, congrArg some hq'', hsent, ?_, hdelivers⟩
    rw [← hleft]
    simp [Tables.remaining]

end Serial

section Reset

def Tables.resetAnswer (t : Tables) (session : Session) : Option Serial → List Pdu
  | none => [.errorReport .noData]
  | some serial =>
    if (t.findUpdate serial).any (·.hasFull) then
      .cacheResponse session :: (t.sortedPrefixes serial).map (fun p => .ipPrefix p true)
        ++ [.endOfData session serial]
    else
      [.errorReport .noData]

variable {t : Tables} {session : Session} {latest : Option Serial}

structure Query.Reads (t : Tables) (serial : Serial) (read rest : List Prefix) (q : Query) : Prop where
  serNum : q.state.serNum = serial
  firstRow : q.state.firstRow = read.getLast?
  ready : q.state.notReady = false
  sortedPrefixes : t.sortedPrefixes serial = read ++ rest

abbrev Query.Delivers (t : Tables) (latest : Option Serial) : Query → List Pdu → Prop :=
  Paging.Delivers (fun maxRows q => q.step ⟨latest, maxRows, false⟩ t) (fun q => q.pc = .done)
    (fun q => q.sent)

def Query.header (session : Session) (q : Query) : List Pdu :=
  if q.state.dataSent then [] else [.cacheResponse session]

abbrev announce (prefixes : List Prefix) : List Pdu :=
  prefixes.map fun p => .ipPrefix p true

variable {read rest : List Prefix} {q : Query} {serial : Serial}

section

variable (h : q.Reads t serial read rest) (hkeys : t.KeysUnique)
  (haddress : ∀ r ∈ t.full, r.pfx.IsAddress)

include h hkeys in
theorem Query.Reads.page (limit : Nat)
    : t.resetQryGetNext q.state.serNum q.state.firstRow limit = rest.take limit := by
  rw [Tables.resetQryGetNext, Paging.page, h.serNum, h.firstRow]
  congr 1
  have hsort := Paging.sort_filter_of_split id h.sortedPrefixes
    (by rw [List.map_id]; exact Tables.fullPrefixes_nodup hkeys.full)
  simpa using hsort

include h haddress in
theorem Query.Reads.isAddress {p : Prefix} (hp : p ∈ rest) : p.IsAddress := by
  have hmem : p ∈ t.sortedPrefixes serial := by
    rw [h.sortedPrefixes]
    exact mem_append_right read hp
  rw [Tables.sortedPrefixes, mem_insertionSort, Tables.fullPrefixes, mem_filterMap] at hmem
  obtain ⟨r, hr, hpfx⟩ := hmem
  rw [ite_none_right_eq_some, some.injEq] at hpfx
  rw [← hpfx.2]
  exact haddress r hr

include h hkeys haddress in
theorem Query.Reads.delivers (hsession : t.session = [session]) (hpc : q.pc = .getSession)
    : q.Delivers t latest (q.header session ++ announce rest ++ [.endOfData session serial]) := by
  induction hn : rest.length using Nat.strongRecOn generalizing read rest q with
  | ind n ih =>
    apply Paging.Delivers.of_step
    intro maxRows hmaxRows
    refine ⟨{ q with pc := .resetQryGetNext session maxRows }, [], _, ?_, ?_, (nil_append _).symm, ?_⟩
    . simp [Query.step, hpc, h.ready, hsession, Nat.not_lt.mpr hmaxRows]
    . simp
    apply Paging.Delivers.of_step
    intro _ _
    have hlimit : (if q.state.dataSent then maxRows else maxRows - 1)
        = maxRows - (q.header session).length := by
      unfold Query.header
      split <;> rfl
    have hheader : (q.header session).length < maxRows := by
      unfold Query.header
      split
      . rw [length_nil]
        omega
      . rw [length_singleton]
        omega
    generalize hlimit' : maxRows - (q.header session).length = limit at hlimit
    have hfill : (rest.take limit).mapM (fun p => fillPduIpPrefix p true)
        = some (announce (rest.take limit)) :=
      mapM_fillPduIpPrefix_of_isAddress fun p hp => h.isAddress haddress (mem_of_mem_take hp)
    have hfirst : ((rest.take limit).getLast? <|> q.state.firstRow)
        = (read ++ rest.take limit).getLast? := by
      rw [h.firstRow, getLast?_append]
      cases (rest.take limit).getLast? <;> rfl
    have hsplit : t.sortedPrefixes serial = (read ++ rest.take limit) ++ rest.drop limit := by
      rw [append_assoc, take_append_drop]
      exact h.sortedPrefixes
    have hlength : (q.header session ++ announce (rest.take limit)).length
        = (q.header session).length + min limit rest.length := by
      simp
    have hmap : announce rest = announce (rest.take limit) ++ announce (rest.drop limit) := by
      rw [← map_append, take_append_drop]
    by_cases hfull : limit ≤ rest.length
    . refine ⟨{ pc := .getSession
                state := { q.state with dataSent := true, firstRow := (read ++ rest.take limit).getLast? }
                sent := q.sent ++ (q.header session ++ announce (rest.take limit)) },
        q.header session ++ announce (rest.take limit),
        announce (rest.drop limit) ++ [.endOfData session serial], ?_, rfl, ?_, ?_⟩
      . rw [← hfirst]
        simp only [Query.step, Bool.false_eq_true, if_false, hlimit, h.page hkeys limit, Query.fillPdus, hfill]
        rw [← Query.header, if_pos (by rw [hlength]; omega)]
      . rw [hmap]
        simp only [append_assoc]
      . have hlt : (rest.drop limit).length < n := by
          rw [length_drop]
          omega
        exact ih (rest.drop limit).length hlt ⟨h.serNum, rfl, h.ready, hsplit⟩ rfl rfl
    have hall : rest.take limit = rest := take_of_length_le (by omega)
    have hpage := h.page hkeys limit
    rw [hall] at hfill hlength hpage
    rw [h.serNum] at hpage
    refine ⟨{ pc := .done
              state := { q.state with dataSent := true, firstRow := rest.getLast? <|> q.state.firstRow }
              sent := q.sent ++ (q.header session ++ announce rest)
                ++ [.endOfData session serial] }, _, [], ?_, ?_, (append_nil _).symm, .of_done rfl⟩
    . simp only [Query.step, Bool.false_eq_true, if_false, hlimit, h.serNum, hpage, Query.fillPdus, hfill]
      rw [← Query.header, if_neg (by rw [hlength]; omega)]
    . simp only [append_assoc]

end

theorem resetQuery_delivers (hkeys : t.KeysUnique) (hsession : t.session = [session])
    (haddress : ∀ r ∈ t.full, r.pfx.IsAddress) (hlatest : t.IsLatestSernum latest)
    : Query.start.Delivers t latest (t.resetAnswer session latest) := by
  -- the answer if there are no data
  have hnoData {q : Query} (hpc : q.pc = .getSession) (hnotReady : q.state.notReady = true)
      : q.Delivers t latest [.errorReport .noData] := by
    have hstep : ∀ size, 2 ≤ size → q.step ⟨latest, size, false⟩ t = some (q.fail .noData) := by
      intro size hsize
      simp [Query.step, hpc, hnotReady, Nat.not_lt.mpr hsize]
    exact .of_last_step hstep rfl rfl
  -- the first calls send nothing
  have quiet {q : Query} (q' : Query) {pdus : List Pdu}
      (hstep : ∀ size, q.step ⟨latest, size, false⟩ t = some q') (hsent : q'.sent = q.sent)
      (h : q'.Delivers t latest pdus) : q.Delivers t latest pdus :=
    .of_quiet_step (fun size _ => hstep size) hsent h
  cases latest with
  | none =>
    exact quiet ⟨.getSession, ⟨0, none, false, true⟩, []⟩ (by simp [Query.step, Query.start, hlatest])
      rfl (hnoData rfl rfl)
  | some serial =>
    refine quiet ⟨.readSerNumAsCurrent, ⟨serial, none, false, false⟩, []⟩
      (by simp [Query.step, Query.start, hlatest]) rfl ?_
    obtain ⟨r, hr, rfl, -⟩ := hlatest
    have hfind := Tables.findUpdate_of_mem hkeys.update hr
    simp only [Tables.resetAnswer, hfind, any_some]
    cases hfull : r.hasFull with
    | true =>
      have hreads : Query.Reads t r.serialNum [] (t.sortedPrefixes r.serialNum)
          ⟨.getSession, ⟨r.serialNum, none, false, false⟩, []⟩ := ⟨rfl, rfl, rfl, rfl⟩
      exact quiet ⟨.getSession, ⟨r.serialNum, none, false, false⟩, []⟩
        (by simp [Query.step, hfind, hfull]) rfl (hreads.delivers hkeys haddress hsession rfl)
    | false =>
      exact quiet ⟨.getSession, ⟨r.serialNum, none, false, true⟩, []⟩
        (by simp [Query.step, hfind, hfull]) rfl (hnoData rfl rfl)

end Reset

/--
On tables that do not change the answers do not depend on the numbers of rows that the calls ask for:
a serial query gets the rows of each serial number along the links, and a reset query those of the
latest serial number.
-/
theorem answers_independent_of_page_size {t : Tables} {session : Session} (hkeys : t.KeysUnique)
    (hsession : t.session = [session]) (hincremental : ∀ r ∈ t.incremental, r.pfx.IsAddress)
    (hfull : ∀ r ∈ t.full, r.pfx.IsAddress)
    : (∀ serial serials, t.Links serial serials →
        (SerialQuery.start serial).Delivers t (t.serialAnswer session serial serials))
      ∧ (∀ latest, t.IsLatestSernum latest →
        Query.start.Delivers t latest (t.resetAnswer session latest)) :=
  ⟨fun _ _ => serialQuery_delivers hkeys hincremental hsession,
    fun _ => resetQuery_delivers hkeys hsession hfull⟩

section Samples

def samplePrefix (asn : UInt32) (size : Nat) : Prefix :=
  ⟨asn, replicate size 10, 8, 24⟩

def sampleTables : Tables where
  session := [7]
  update := [⟨1, none, 0, false⟩, ⟨2, some 1, 1, false⟩, ⟨3, some 2, 2, true⟩]
  full := [⟨3, samplePrefix 2 4⟩, ⟨3, samplePrefix 1 16⟩]
  incremental := [⟨3, true, samplePrefix 2 4⟩, ⟨3, false, samplePrefix 1 4⟩,
    ⟨2, true, samplePrefix 1 4⟩, ⟨2, true, samplePrefix 1 16⟩]

theorem answers_independent_of_page_size_sampleTables
    : (SerialQuery.start 1).Delivers sampleTables
        [.cacheResponse 7, .ipPrefix (samplePrefix 1 4) true, .ipPrefix (samplePrefix 1 16) true,
          .ipPrefix (samplePrefix 1 4) false, .ipPrefix (samplePrefix 2 4) true, .endOfData 7 3]
      ∧ Query.start.Delivers sampleTables (some 3)
        [.cacheResponse 7, .ipPrefix (samplePrefix 1 16) true, .ipPrefix (samplePrefix 2 4) true,
          .endOfData 7 3] := by
  have hkeys : sampleTables.KeysUnique := ⟨by decide +kernel, by decide +kernel, by
    unfold KeysNodup
    decide +kernel⟩
  have hlinks : sampleTables.Links 1 [2, 3] := .next rfl (.next rfl (.last rfl))
  have hanswers := answers_independent_of_page_size hkeys rfl
    (by simp [sampleTables, samplePrefix, Prefix.IsAddress])
    (by simp [sampleTables, samplePrefix, Prefix.IsAddress])
  exact ⟨hanswers.1 1 [2, 3] hlinks, hanswers.2 (some 3) (by decide)⟩

def oddTables : Tables where
  session := [7]
  update := [⟨1, none, 0, true⟩]
  full := [⟨1, samplePrefix 1 4⟩, ⟨1, samplePrefix 2 5⟩]
  incremental := []

def circularTables : Tables where
  session := [7]
  update := [⟨1, some 2, 0, true⟩, ⟨2, some 1, 1, true⟩]
  full := []
  incremental := []

def circularStep (maxRows : Nat) (q : SerialQuery) : Option SerialQuery :=
  q.step { maxRows := maxRows } circularTables

def circularRun (n : Nat) : Option SerialQuery :=
  Paging.run circularStep (fun _ => 2) n (SerialQuery.start 1)

theorem answers_depend_on_page_size
    : ((Paging.run (fun maxRows q => q.step ⟨some 1, maxRows, false⟩ oddTables) (fun _ => 2) 6
          Query.start).map fun q => (q.pc, q.sent))
        = some (.done, [.cacheResponse 7, .ipPrefix (samplePrefix 1 4) true, .errorReport .internalError])
      ∧ ((Paging.run (fun maxRows q => q.step ⟨some 1, maxRows, false⟩ oddTables) (fun _ => 9) 4
          Query.start).map fun q => (q.pc, q.sent))
        = some (.done, [.errorReport .internalError])
      ∧ ((Paging.run (fun maxRows q => q.step { maxRows := maxRows } sampleTables) (fun _ => 2) 4
          (SerialQuery.start 9)).map fun q => (q.pc, q.sent)) = some (.done, [.cacheReset])
      ∧ ∀ n, ∃ q, circularRun n = some q ∧ q.pc ≠ .done := by
  refine ⟨by decide +kernel, by decide +kernel, by decide +kernel, ?_⟩
  intro n
  have hclosed : ∀ q ∈ (List.range 12).filterMap circularRun, ∃ q' ∈ (List.range 12).filterMap circularRun,
      circularStep 2 q = some q' := by
    decide +kernel
  have hnot : ∀ q ∈ (List.range 12).filterMap circularRun, q.pc ≠ .done := by decide +kernel
  obtain ⟨q, hq, hrun⟩ := Paging.run_of_closed hclosed n
    (by decide +kernel : SerialQuery.start 1 ∈ (List.range 12).filterMap circularRun)
  exact ⟨q, hrun, hnot q hq⟩

end Samples

end Rpstir.Rtr
