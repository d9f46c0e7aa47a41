import Rpstir.Daemon.Reader
import Rpstir.Wire.Prefix

/-!
This module contains what a connection thread reads from a byte stream, however the socket splits the
stream.
-/

namespace Rpstir.Daemon

open List Option

open Wire

inductive Item where
  | accepted (pdu : Pdu)
  | error (code : ErrorCode)
  | incomplete
  deriving DecidableEq

def Item.ofResult : ParseResult → Item
  | .good pdu => .accepted pdu
  | .warning pdu => .accepted pdu
  | .truncated _ => .incomplete
  | .error e => .error (parseErrorCode (.error e))

def firstItem (stream : List UInt8) : Item :=
  match parsePdu (stream.take pduHeaderLength) with
  | .truncated (some length) =>
    if length.toNat > maxPduSize then
      .error ErrorCode.corruptData
    else
      .ofResult (parsePdu (stream.take length.toNat))
  | result => .ofResult result

namespace handled

def go (closed : Bool) : Nat → List UInt8 → List Pdu × Outcome
  | 0, _ => ([], .waiting)
  | fuel + 1, stream =>
    match firstItem stream with
    | .incomplete => ([], if closed then .endOfStream else .waiting)
    | .error code => ([], .errorReported code)
    | .accepted pdu =>
      match handlePduOutcome pdu with
      | some outcome => ([pdu], outcome)
      | none =>
        let (pdus, outcome) := go closed fuel (stream.drop pdu.length.toNat)
        (pdu :: pdus, outcome)

end handled

def handled (closed : Bool) (stream : List UInt8) : List Pdu × Outcome :=
  handled.go closed (stream.length + 1) stream

variable {buffer more : List UInt8}

def Blocked (buffer : List UInt8) : ReaderPc → Prop
  | .idle => False
  | .header count =>
    0 < buffer.length ∧ 0 < count ∧ count = pduHeaderLength - buffer.length ∧
      ∃ length, parsePdu buffer = .truncated length
  | .body count =>
    ∃ length : UInt32, parsePdu (buffer.take pduHeaderLength) = .truncated (some length) ∧
      pduHeaderLength ≤ buffer.length ∧ 0 < count ∧ count = length.toNat - buffer.length ∧
      length.toNat ≤ maxPduSize ∧ parsePdu buffer = .truncated (some length)

def ReadResult.Right (buffer : List UInt8) : ReadResult → Prop
  | .block pc => Blocked buffer pc
  | .handle pdu => pdu.WellFormed ∧ buffer = pdu.bytes ∧ ∀ more, firstItem (buffer ++ more) = .accepted pdu
  | .sendError code _ => ∀ more, firstItem (buffer ++ more) = .error code
  | .pastEnd => False

variable {pdu : Pdu}

theorem Item.ofResult_of_accepts (h : Accepts buffer pdu)
    : Item.ofResult (parsePdu buffer) = .accepted pdu := by
  rcases h with h | h <;> rw [h] <;> rfl

theorem eq_bytes_of_accepts (h : Accepts buffer pdu) (hle : buffer.length ≤ pdu.bytes.length)
    : pdu.WellFormed ∧ buffer = pdu.bytes := by
  rcases accepts_iff.mp h with ⟨hwf, rest, rfl⟩
  have hrest : rest = [] := by
    rw [length_append] at hle
    exact length_eq_zero_iff.mp (by omega)
  simp [hwf, hrest]

theorem length_bytes_le_of_accepts (h : Accepts buffer pdu) : pdu.bytes.length ≤ buffer.length := by
  rcases accepts_iff.mp h with ⟨-, _, rfl⟩
  simp

variable {pc : ReaderPc} {n fuel' fuel : Nat}

theorem readBlock_right {pc : Int → ReaderPc} {done : ReadResult}
    (haccepts : ∀ pdu, Accepts buffer pdu → n ≤ buffer.length)
    (herror : ∀ e, parsePdu buffer = .error e →
      ∀ more, firstItem (buffer ++ more) = .error (parseErrorCode (.error e)))
    (hblock : ∀ length, buffer.length < n → parsePdu buffer = .truncated length →
      Blocked buffer (pc (n - buffer.length))) (hdone : n ≤ buffer.length → done.Right buffer)
    : (readBlock buffer (n - buffer.length) pc done).Right buffer := by
  unfold readBlock
  split
  next hcount =>
    split
    next pdu h =>
      have := haccepts pdu (Or.inl h)
      omega
    next pdu h =>
      have := haccepts pdu (Or.inr h)
      omega
    next length h => exact hblock length (by omega) h
    next e h => exact herror e h
  next hcount => exact hdone (by omega)

theorem readAndHandlePdu_right
    (haccepts : ∀ pdu, Accepts buffer pdu → buffer.length ≤ pdu.bytes.length)
    (hitem : ∀ more, ∃ more', firstItem (buffer ++ more) = .ofResult (parsePdu (buffer ++ more')))
    (htruncated : ∀ length, parsePdu buffer ≠ .truncated length)
    : (readAndHandlePdu (parsePdu buffer)).Right buffer := by
  have hpdu : ∀ pdu, Accepts buffer pdu → (ReadResult.handle pdu).Right buffer := by
    intro pdu h
    have heq := eq_bytes_of_accepts h (haccepts pdu h)
    refine ⟨heq.1, heq.2, ?_⟩
    intro more
    rcases hitem more with ⟨more', hmore⟩
    rw [hmore, parsePdu_append_of_accepts h, Item.ofResult_of_accepts h]
  cases h : parsePdu buffer with
  | good pdu => exact hpdu pdu (Or.inl h)
  | warning pdu => exact hpdu pdu (Or.inr h)
  | truncated length => exact absurd h (htruncated length)
  | error =>
    intro more
    rcases hitem more with ⟨more', hmore⟩
    rw [hmore, parsePdu_append_of_error h]
    rfl

theorem firstItem_of_short_error {e : ParseError} (hle : buffer.length ≤ pduHeaderLength)
    (h : parsePdu buffer = .error e) (more : List UInt8)
    : firstItem (buffer ++ more) = .error (parseErrorCode (.error e)) := by
  unfold firstItem
  rw [take_append, take_of_length_le hle, parsePdu_append_of_error h]
  rfl

section Body

variable {length : UInt32} (hheader : parsePdu (buffer.take pduHeaderLength) = .truncated (some length))
  (hmax : length.toNat ≤ maxPduSize) (hge : pduHeaderLength ≤ buffer.length)
  (hle : buffer.length ≤ length.toNat)

include hheader

theorem hasLength_of_header : (parsePdu buffer).HasLength length := by
  have h := hasLength_of_truncated_some hheader (buffer.drop pduHeaderLength)
  rw [take_append_drop] at h
  exact h

theorem length_bytes_eq_of_header {pdu : Pdu} (h : Accepts buffer pdu)
    : pdu.bytes.length = length.toNat := by
  have hlength := hasLength_of_header hheader
  have hpdu : pdu.length = length := by
    rcases h with h | h <;> simpa [h, ParseResult.HasLength] using hlength
  rw [← (accepts_iff.mp h).1.length, hpdu]

theorem eq_some_of_header {length' : Option UInt32} (h : parsePdu buffer = .truncated length')
    : length' = some length := by
  simpa [h, ParseResult.HasLength] using hasLength_of_header hheader

include hmax hge hle

theorem firstItem_of_header (more : List UInt8)
    : firstItem (buffer ++ more)
        =
      .ofResult (parsePdu (buffer ++ more.take (length.toNat - buffer.length))) := by
  unfold firstItem
  rw [take_append_of_le_length hge, hheader]
  dsimp only
  rw [if_neg (by omega), take_append, take_of_length_le hle]

theorem body_right : (readAndParsePdu.body buffer (length.toNat - buffer.length)).Right buffer := by
  have hitem := firstItem_of_header hheader hmax hge hle
  apply readBlock_right
  . intro pdu h
    rw [← length_bytes_eq_of_header hheader h]
    exact length_bytes_le_of_accepts h
  . intro _ h more
    rw [hitem, parsePdu_append_of_error h]
    rfl
  . intro length' _ h
    have hsome := eq_some_of_header hheader h
    rw [hsome] at h
    exact ⟨length, hheader, hge, by omega, rfl, hmax, h⟩
  intro _
  apply readAndHandlePdu_right
  . intro pdu h
    rw [length_bytes_eq_of_header hheader h]
    exact hle
  . intro more
    exact ⟨_, hitem more⟩
  . intro length' h
    rw [eq_some_of_header hheader h] at h
    have := (length_lt_of_truncated_some h).2
    omega

end Body

theorem firstItem_of_whole_header (hlen : buffer.length = pduHeaderLength)
    (h : ∀ length, parsePdu buffer ≠ .truncated (some length)) (more : List UInt8)
    : firstItem (buffer ++ more) = .ofResult (parsePdu buffer) := by
  unfold firstItem
  rw [← hlen, take_left]
  split
  next length heq => exact absurd heq (h length)
  next => rfl

theorem afterHeader_right (hlen : buffer.length = pduHeaderLength) (recvLength : UInt32)
    : (readAndParsePdu.afterHeader recvLength buffer).Right buffer := by
  have htake : buffer.take pduHeaderLength = buffer := take_of_length_le (by omega)
  unfold readAndParsePdu.afterHeader
  split
  next length h =>
    cases length with
    | none =>
      have := length_lt_of_truncated_none h
      omega
    | some =>
      dsimp only [getD_some]
      split
      next hlarge =>
        intro more
        unfold firstItem
        rw [take_append_of_le_length (by omega), htake, h]
        dsimp only
        rw [if_pos hlarge]
      next hmax =>
        apply body_right _ (by omega) (by omega)
        . exact (length_lt_of_truncated_some h).2.le
        . rw [htake]
          exact h
  next h =>
    apply readAndHandlePdu_right
    . intro pdu _
      rw [pdu.length_bytes]
      omega
    . intro more
      refine ⟨[], ?_⟩
      rw [append_nil]
      exact firstItem_of_whole_header hlen (fun length => h (some length)) more
    . exact h

theorem header_right (hpos : 0 < buffer.length) (hle : buffer.length ≤ pduHeaderLength)
    (recvLength : UInt32)
    : (readAndParsePdu.header recvLength buffer (pduHeaderLength - buffer.length)).Right buffer := by
  apply readBlock_right
  . intro pdu h
    have := length_bytes_le_of_accepts h
    rw [pdu.length_bytes] at this
    omega
  . intro _ h
    exact firstItem_of_short_error hle h
  . intro length _ h
    exact ⟨hpos, by omega, rfl, length, h⟩
  . intro _
    exact afterHeader_right (by omega) recvLength

theorem readAndParsePdu_right (hpos : 0 < buffer.length) (hle : buffer.length ≤ pduHeaderLength)
    (recvLength : UInt32) : (readAndParsePdu recvLength buffer).Right buffer := by
  unfold readAndParsePdu
  split
  next h => exact firstItem_of_short_error hle h
  next => exact header_right hpos hle recvLength

variable {stream : List UInt8}

theorem eq_append_of_take (h : Item.ofResult (parsePdu (stream.take n)) = .accepted pdu)
    : pdu.WellFormed ∧ ∃ rest, stream = pdu.bytes ++ rest := by
  have haccepts : Accepts (stream.take n) pdu := by
    cases hparse : parsePdu (stream.take n) <;> simp_all [Item.ofResult, Accepts]
  rcases accepts_iff.mp haccepts with ⟨hwf, rest, hrest⟩
  refine ⟨hwf, rest ++ stream.drop n, ?_⟩
  rw [← append_assoc, ← hrest, take_append_drop]

theorem eq_append_of_firstItem (h : firstItem stream = .accepted pdu)
    : pdu.WellFormed ∧ ∃ rest, stream = pdu.bytes ++ rest := by
  unfold firstItem at h
  split at h
  . split at h
    . cases h
    . exact eq_append_of_take h
  . exact eq_append_of_take h

theorem handled.go_of_lt {closed : Bool} (h : stream.length < fuel) (h' : stream.length < fuel')
    : go closed fuel stream = go closed fuel' stream := by
  induction fuel generalizing fuel' stream with
  | zero => omega
  | succ fuel ih =>
    cases fuel' with
    | zero => omega
    | succ fuel' =>
      rw [go, go]
      split
      . rfl
      . rfl
      next pdu hitem =>
        rcases eq_append_of_firstItem hitem with ⟨hwf, rest, rfl⟩
        rw [length_append, pdu.length_bytes, pduHeaderLength] at h h'
        have hdrop : (pdu.bytes ++ rest).drop pdu.length.toNat = rest := by
          rw [hwf.length, drop_left]
        rw [hdrop, ih (by omega) (by omega : rest.length < fuel')]

theorem handled_eq (closed : Bool) (stream : List UInt8)
    : handled closed stream
        =
      match firstItem stream with
      | .incomplete => ([], if closed then .endOfStream else .waiting)
      | .error code => ([], .errorReported code)
      | .accepted pdu =>
        match handlePduOutcome pdu with
        | some outcome => ([pdu], outcome)
        | none =>
          let (pdus, outcome) := handled closed (stream.drop pdu.length.toNat)
          (pdu :: pdus, outcome) := by
  conv_lhs => rw [handled, handled.go]
  split
  . rfl
  . rfl
  next pdu hitem =>
    rcases eq_append_of_firstItem hitem with ⟨hwf, rest, rfl⟩
    have hdrop : (pdu.bytes ++ rest).drop pdu.length.toNat = rest := by
      rw [hwf.length, drop_left]
    rw [hdrop, handled, handled.go_of_lt]
    . rw [length_append, pdu.length_bytes, pduHeaderLength]
      omega
    . omega

theorem handled_bytes_append (closed : Bool) (hwf : pdu.WellFormed)
    (hitem : firstItem (pdu.bytes ++ stream) = .accepted pdu)
    : handled closed (pdu.bytes ++ stream)
        =
      match handlePduOutcome pdu with
      | some outcome => ([pdu], outcome)
      | none => (pdu :: (handled closed stream).1, (handled closed stream).2) := by
  rw [handled_eq, hitem]
  dsimp only
  rw [hwf.length, drop_left]

theorem firstItem_eq_ofResult
    (h : ∀ length, (parsePdu buffer).HasLength length →
      parsePdu (buffer.take pduHeaderLength) = .truncated (some length) →
        length.toNat ≤ maxPduSize ∧ buffer.length ≤ length.toNat)
    : firstItem buffer = .ofResult (parsePdu buffer) := by
  have hsplit := take_append_drop pduHeaderLength buffer
  unfold firstItem
  split
  . next length hheader =>
    have hlength := hasLength_of_truncated_some hheader (buffer.drop pduHeaderLength)
    rw [hsplit] at hlength
    rcases h length hlength hheader with ⟨_, hle⟩
    rw [if_neg (by omega), take_of_length_le hle]
  next hheader =>
  cases hresult : parsePdu (buffer.take pduHeaderLength) with
  | good => rw [← hresult, ← parsePdu_append_of_accepts (.inl hresult), hsplit]
  | warning => rw [← hresult, ← parsePdu_append_of_accepts (.inr hresult), hsplit]
  | error => rw [← parsePdu_append_of_error hresult, hsplit]
  | truncated length =>
    cases length with
    | some length => exact absurd hresult (hheader length)
    | none =>
      have hlt := length_lt_of_truncated_none hresult
      rw [length_take] at hlt
      rw [← hresult, take_of_length_le (by omega)]

theorem firstItem_of_truncated {length : Option UInt32} (h : parsePdu buffer = .truncated length)
    (hmax : ∀ l ∈ length, l.toNat ≤ maxPduSize) : firstItem buffer = .incomplete := by
  rw [firstItem_eq_ofResult, h]
  . rfl
  . intro l hl _
    rw [h] at hl
    cases hl
    exact ⟨hmax l rfl, (length_lt_of_truncated_some h).2.le⟩

theorem Blocked.firstItem_eq (h : Blocked buffer pc) : firstItem buffer = .incomplete := by
  cases pc with
  | idle => exact h.elim
  | header =>
    rcases h with ⟨_, hpos, hcount, length, hparse⟩
    apply firstItem_of_truncated hparse
    intro l hl
    cases hl
    have := (length_lt_of_truncated_some hparse).1
    omega
  | body =>
    rcases h with ⟨length, _, _, hpos, hcount, hmax, hparse⟩
    apply firstItem_of_truncated hparse
    intro l hl
    cases hl
    exact hmax

namespace Reader

variable {r : Reader} {bytes : List UInt8}

def Ok (r : Reader) : Prop :=
  r.pc = .idle ∨ Blocked r.buffer r.pc

theorem Ok.firstItem_pending (h : r.Ok) : firstItem r.pending = .incomplete := by
  rcases r with ⟨_, _, pc⟩
  rcases h with h | h
  . dsimp only at h
    subst h
    rfl
  . cases pc with
    | idle => exact h.elim
    | header
    | body => exact h.firstItem_eq

theorem Ok.count_pos (h : r.Ok) : 0 < r.count := by
  rcases r with ⟨_, _, pc⟩
  cases pc with
  | idle => simp [count, pduHeaderLength]
  | header =>
    rcases h with h | h
    . cases h
    . exact h.2.1
  | body =>
    rcases h with h | ⟨_, _, _, h, _⟩
    . cases h
    . exact h

theorem Ok.receive_right (h : r.Ok) (hpos : 0 < bytes.length) (hle : (bytes.length : Int) ≤ r.count)
    : (r.receive bytes).Right (r.pending ++ bytes) := by
  rcases r with ⟨buffer, recvLength, pc⟩
  cases pc with
  | idle =>
    apply readAndParsePdu_right
    . simpa [pending] using hpos
    . simp only [count, pending, nil_append] at hle ⊢
      omega
  | header count =>
    rcases h with h | ⟨_, _, hcount, _⟩
    . cases h
    have hcount' : count - bytes.length = pduHeaderLength - (buffer ++ bytes).length := by
      rw [length_append]
      dsimp only at hcount
      omega
    have hright : (readAndParsePdu.header recvLength (buffer ++ bytes)
        (pduHeaderLength - (buffer ++ bytes).length)).Right (buffer ++ bytes) := by
      simp only [Reader.count] at hle
      dsimp only at hcount
      apply header_right <;> rw [length_append] <;> omega
    rwa [← hcount'] at hright
  | body count =>
    rcases h with h | ⟨length, hheader, hge, _, hcount, hmax, _⟩
    . cases h
    dsimp only at hheader hge hcount
    have hcount' : count - bytes.length = length.toNat - (buffer ++ bytes).length := by
      rw [length_append]
      omega
    have hright : (readAndParsePdu.body (buffer ++ bytes)
        (length.toNat - (buffer ++ bytes).length)).Right (buffer ++ bytes) := by
      simp only [Reader.count] at hle
      apply body_right _ hmax
      . rw [length_append]
        omega
      . rw [length_append]
        omega
      . rwa [take_append_of_le_length hge]
    rwa [← hcount'] at hright

theorem Ok.after (h : r.Ok) (hpos : 0 < bytes.length) (hle : (bytes.length : Int) ≤ r.count)
    : (r.after bytes).Ok := by
  have hright := h.receive_right hpos hle
  unfold Ok Reader.after
  cases hres : r.receive bytes with
  | block =>
    rw [hres] at hright
    exact Or.inr hright
  | handle
  | sendError
  | pastEnd => exact Or.inl rfl

theorem pending_after_of_block (h : r.receive bytes = .block pc) (hpc : pc ≠ .idle)
    : (r.after bytes).pending = r.pending ++ bytes := by
  have hafter : (r.after bytes).pc = pc := by
    simp only [Reader.after, h]
  conv_lhs => unfold pending
  rw [hafter]
  cases pc with
  | idle => exact absurd rfl hpc
  | header
  | body => rfl

theorem pending_after_of_handle {pdu : Pdu} (h : r.receive bytes = .handle pdu)
    : (r.after bytes).pending = [] := by
  have hafter : (r.after bytes).pc = .idle := by
    simp only [Reader.after, h]
  unfold pending
  rw [hafter]

theorem Ok.length_le (h : r.Ok) (hle : (bytes.length : Int) ≤ r.count)
    : (r.pending ++ bytes).length ≤ maxPduSize ∧
      ∀ more pdu, Accepts (r.pending ++ bytes ++ more) pdu →
        (r.pending ++ bytes).length ≤ pdu.bytes.length := by
  have hheaderLength (pdu : Pdu) : pduHeaderLength ≤ pdu.bytes.length := by
    rw [pdu.length_bytes]
    omega
  have hshort (hshort : (r.pending ++ bytes).length ≤ pduHeaderLength)
      : (r.pending ++ bytes).length ≤ maxPduSize ∧
        ∀ more pdu, Accepts (r.pending ++ bytes ++ more) pdu →
          (r.pending ++ bytes).length ≤ pdu.bytes.length := by
    refine ⟨hshort.trans (by decide), ?_⟩
    intro more pdu _
    exact hshort.trans (hheaderLength pdu)
  rcases r with ⟨buffer, _, pc⟩
  cases pc with
  | idle =>
    apply hshort
    simpa [pending, count] using hle
  | header =>
    rcases h with h | ⟨_, _, hcount, _⟩
    . cases h
    . apply hshort
      simp only [Reader.count, pending, length_append] at hle ⊢
      dsimp only at hcount
      omega
  | body =>
    rcases h with h | ⟨length, hheader, hge, _, hcount, hmax, _⟩
    . cases h
    simp only [Reader.count, pending] at hle ⊢
    dsimp only at hheader hge hcount
    have hlen : (buffer ++ bytes).length ≤ length.toNat := by
      rw [length_append]
      omega
    refine ⟨hlen.trans hmax, ?_⟩
    intro more pdu haccepts
    rw [length_bytes_eq_of_header _ haccepts]
    . exact hlen
    . rw [append_assoc, take_append_of_le_length hge]
      exact hheader

end Reader

namespace Reading

variable {stream : List UInt8} {closed : Bool} {s s' : Reading}

def Reads (stream : List UInt8) (s : Reading) (current : List UInt8) : Prop :=
  stream = s.accepted.flatMap Pdu.bytes ++ (current ++ s.unread) ∧
    ∀ pdu, Accepts (current ++ s.unread) pdu → current.length ≤ pdu.bytes.length

structure Inv (stream : List UInt8) (closed : Bool) (s : Reading) : Prop where
  closed_eq : s.closed = closed
  buffer_le : s.reader.buffer.length ≤ maxPduSize
  running : s.outcome = none → s.reader.Ok ∧ Reads stream s s.reader.pending ∧
    handled closed stream
      =
    (s.accepted ++ (handled closed (s.reader.pending ++ s.unread)).1,
      (handled closed (s.reader.pending ++ s.unread)).2)
  stopped : ∀ outcome, s.outcome = some outcome → outcome ≠ .pastEnd ∧ (∃ current, Reads stream s current) ∧
    handled closed stream = (s.accepted, outcome)

theorem inv_start : Inv stream closed (start stream closed) where
  closed_eq := rfl
  buffer_le := Nat.zero_le _
  running := by
    intro _
    refine ⟨Or.inl rfl, ⟨rfl, ?_⟩, rfl⟩
    intro _ _
    exact Nat.zero_le _
  stopped := by
    intro _ h
    cases h

theorem handlePduOutcome_ne_pastEnd (pdu : Pdu) : handlePduOutcome pdu ≠ some .pastEnd := by
  unfold handlePduOutcome
  split <;> simp

theorem Inv.received (h : s.Inv stream closed) (hnone : s.outcome = none) {bytes unread : List UInt8}
    (hunread : s.unread = bytes ++ unread) (hpos : 0 < bytes.length)
    (hle : (bytes.length : Int) ≤ s.reader.count) : (s.received bytes unread).Inv stream closed := by
  rcases h.running hnone with ⟨hok, ⟨hstream, -⟩, hhandled⟩
  have hright := hok.receive_right hpos hle
  have hlen := hok.length_le hle
  rw [hunread, ← append_assoc s.reader.pending] at hstream hhandled
  unfold Reading.received
  cases hres : s.reader.receive bytes with
  | block =>
    rw [hres] at hright
    have hpending := Reader.pending_after_of_block hres (by rintro rfl; exact hright)
    refine ⟨h.closed_eq, hlen.1, ?_, ?_⟩
    . intro _
      refine ⟨hok.after hpos hle, ?_, ?_⟩
      . rw [hpending]
        exact ⟨hstream, fun pdu => hlen.2 unread pdu⟩
      . rw [hpending]
        exact hhandled
    . intro outcome houtcome
      rw [hnone] at houtcome
      cases houtcome
  | handle pdu =>
    rw [hres] at hright
    rcases hright with ⟨hwf, hbytes, hitem⟩
    have hreads : Reads stream
        { s with unread := unread, reader := s.reader.after bytes, accepted := s.accepted ++ [pdu],
                 outcome := handlePduOutcome pdu } [] := by
      refine ⟨?_, fun _ _ => Nat.zero_le _⟩
      rw [hstream, hbytes]
      simp
    rw [hbytes] at hitem hhandled
    rw [handled_bytes_append closed hwf (hitem unread)] at hhandled
    refine ⟨h.closed_eq, hlen.1, ?_, ?_⟩
    . intro hrunning
      dsimp only at hrunning
      have hpending := Reader.pending_after_of_handle hres
      refine ⟨hok.after hpos hle, ?_, ?_⟩
      . rw [hpending]
        exact hreads
      . rw [hhandled, hrunning, hpending]
        simp
    intro outcome houtcome
    dsimp only at houtcome
    refine ⟨?_, ⟨[], hreads⟩, ?_⟩
    . rintro rfl
      exact handlePduOutcome_ne_pastEnd pdu houtcome
    . rw [hhandled, houtcome]
  | sendError =>
    rw [hres] at hright
    refine ⟨h.closed_eq, hlen.1, ?_, ?_⟩
    . intro hrunning
      cases hrunning
    intro outcome houtcome
    cases houtcome
    refine ⟨by simp, ⟨s.reader.pending ++ bytes, hstream, fun pdu => hlen.2 unread pdu⟩, ?_⟩
    rw [hhandled, handled_eq, hright]
    simp
  | pastEnd =>
    rw [hres] at hright
    exact hright.elim

theorem Inv.next (h : s.Inv stream closed) {e : ReadEvent} (hs' : s.next e = some s')
    : s'.Inv stream closed := by
  cases e with
  | wouldBlock =>
    simp only [Reading.next, ite_none_right_eq_some, some.injEq] at hs'
    rcases hs' with ⟨-, rfl⟩
    exact h
  | receive n =>
    simp only [Reading.next, ite_none_right_eq_some, some.injEq] at hs'
    rcases hs' with ⟨⟨hnone, hpos, hle, hn⟩, rfl⟩
    have hlen : (s.unread.take n).length = n := length_take_of_le hn
    apply h.received hnone (take_append_drop n s.unread).symm
    . rw [hlen]
      exact hpos
    . rw [hlen]
      exact hle
  | eof =>
    simp only [Reading.next, ite_none_right_eq_some, some.injEq] at hs'
    rcases hs' with ⟨⟨hnone, hunread, hclosed⟩, rfl⟩
    rcases h.running hnone with ⟨hok, hreads, hhandled⟩
    refine ⟨h.closed_eq, h.buffer_le, ?_, ?_⟩
    . intro h
      cases h
    intro _ heq
    cases heq
    refine ⟨by decide, ⟨s.reader.pending, hreads⟩, ?_⟩
    rw [hhandled, hunread, append_nil, handled_eq, hok.firstItem_pending, ← h.closed_eq,
      hclosed]
    simp

theorem inv_of_reachable (h : (lts stream closed).Reachable s) : s.Inv stream closed := by
  apply h.invariant
  . rintro s rfl
    exact inv_start
  . intro s _ _ hinv hstep
    exact hinv.next hstep

theorem Inv.final (h : s.Inv stream closed) {outcome : Outcome} (hfinal : s.final = some outcome)
    : (s.accepted, outcome) = handled closed stream := by
  unfold Reading.final at hfinal
  split at hfinal
  next hcond =>
    cases hfinal
    rcases hcond with ⟨hnone, hunread, hclosed⟩
    rcases h.running hnone with ⟨hok, -, hhandled⟩
    rw [hhandled, hunread, append_nil, handled_eq, hok.firstItem_pending, ← h.closed_eq, hclosed]
    simp
  next => exact (h.stopped outcome hfinal).2.2.symm

def remaining (s : Reading) : Nat :=
  s.unread.length + if s.outcome = none then 1 else 0

theorem outcome_eq_none_of_final (h : s.final = none) : s.outcome = none := by
  unfold Reading.final at h
  split at h
  . cases h
  . exact h

theorem Inv.exists_next (h : s.Inv stream closed) (hfinal : s.final = none)
    : ∃ e s', e ≠ .wouldBlock ∧ s.next e = some s' := by
  have hnone := outcome_eq_none_of_final hfinal
  by_cases hunread : s.unread = []
  . refine ⟨.eof, { s with outcome := some .endOfStream }, by simp, ?_⟩
    have hclosed : s.closed = true := by
      unfold Reading.final at hfinal
      apply Bool.eq_true_of_not_eq_false
      intro hopen
      rw [if_pos ⟨hnone, hunread, hopen⟩] at hfinal
      cases hfinal
    simp [Reading.next, hnone, hunread, hclosed]
  have hcount := (h.running hnone).1.count_pos
  have hlen := length_pos_iff.mpr hunread
  refine ⟨.receive 1, s.received (s.unread.take 1) (s.unread.drop 1), by simp, ?_⟩
  simp only [Reading.next]
  rw [if_pos ⟨hnone, by omega, by omega, hlen⟩]

theorem unread_received (bytes unread : List UInt8) : (s.received bytes unread).unread = unread := by
  unfold Reading.received
  split <;> rfl

theorem remaining_next_lt {e : ReadEvent} (he : e ≠ .wouldBlock) (hs' : s.next e = some s')
    : s'.remaining < s.remaining := by
  cases e with
  | wouldBlock => exact absurd rfl he
  | receive =>
    simp only [Reading.next, ite_none_right_eq_some, some.injEq] at hs'
    rcases hs' with ⟨⟨hnone, _, -, _⟩, rfl⟩
    unfold remaining
    rw [unread_received, length_drop, hnone, if_pos rfl]
    split <;> omega
  | eof =>
    simp only [Reading.next, ite_none_right_eq_some, some.injEq] at hs'
    rcases hs' with ⟨⟨hnone, -⟩, rfl⟩
    simp [remaining, hnone]

/--
However the socket splits the stream, the thread handles the PDUs of the stream and comes to the outcome of
the stream; up to then it always gets on, whenever `recv` does not block. The receive buffer never
overflows, no byte after the end of a PDU is read with it, and `read_block` never asks for one.
-/
theorem accepted_eq_handled (hreach : (lts stream closed).Reachable s)
    : (∀ outcome, s.final = some outcome → (s.accepted, outcome) = handled closed stream) ∧
      (s.final = none → ∃ e s', e ≠ .wouldBlock ∧ s.next e = some s') ∧
      (∀ e s', e ≠ .wouldBlock → s.next e = some s' → s'.remaining < s.remaining) ∧
      s.reader.buffer.length ≤ maxPduSize ∧ (∃ current, Reads stream s current) ∧
      s.outcome ≠ some .pastEnd := by
  have hinv := inv_of_reachable hreach
  refine ⟨fun outcome => hinv.final, hinv.exists_next, fun e s' => remaining_next_lt, hinv.buffer_le,
    ?_, ?_⟩
  . cases houtcome : s.outcome with
    | none => exact ⟨_, (hinv.running houtcome).2.1⟩
    | some outcome => exact (hinv.stopped outcome houtcome).2.1
  . intro houtcome
    exact (hinv.stopped _ houtcome).1 rfl

theorem accepted_eq_handled_resetQuery
    : ∃ s, (lts [0, 2, 0, 0, 0, 0, 0, 8, 0, 99] false).Reachable s ∧
        s.final = some (.errorReported ErrorCode.unsupportedType) ∧
        (s.accepted, Outcome.errorReported ErrorCode.unsupportedType)
          = handled false [0, 2, 0, 0, 0, 0, 0, 8, 0, 99] ∧
        s.accepted = [fillPduResetQuery] := by
  have hrun : ∃ s, (lts [0, 2, 0, 0, 0, 0, 0, 8, 0, 99] false).Reachable s ∧
      (s.final = some (.errorReported ErrorCode.unsupportedType) ∧
        s.accepted = [fillPduResetQuery]) := by
    apply Lts.exists_reachable_of_foldlM
      [.wouldBlock, .receive 3, .receive 5, .receive 1, .receive 1]
    decide
  rcases hrun with ⟨s, hreach, hfinal, haccepted⟩
  exact ⟨s, hreach, hfinal, (accepted_eq_handled hreach).1 _ hfinal, haccepted⟩

end Reading
end Rpstir.Daemon
