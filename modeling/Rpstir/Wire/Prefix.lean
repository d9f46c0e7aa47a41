import Rpstir.Wire.Codec

/-!
This module contains what `parse_pdu` says about an initial part of a buffer.
-/

namespace Rpstir.Wire

open List

variable {buffer more : List UInt8}

theorem extractField_lawful (size : Nat) : (extractField size).Lawful :=
  .bind (.take size) fun _ => .pure _

theorem extractU8_lawful : extractU8.Lawful :=
  .bind (extractField_lawful 1) fun _ => .pure _

theorem extractU16_lawful : extractU16.Lawful :=
  .bind (extractField_lawful 2) fun _ => .pure _

theorem extractU32_lawful : extractU32.Lawful :=
  .bind (extractField_lawful 4) fun _ => .pure _

namespace parsePdu

theorem header_lawful : header.Lawful := by
  refine .bind extractU8_lawful fun _ => ?_
  refine .bind (.check _ _) fun _ => ?_
  refine .bind extractU8_lawful fun _ => ?_
  refine .bind (.ofOption _ _) fun _ => ?_
  refine .bind extractU16_lawful fun _ => ?_
  exact .bind extractU32_lawful fun _ => .pure _

theorem serialNumber_lawful (length : UInt32) : (serialNumber length).Lawful := by
  refine .bind (.check _ _) fun _ => ?_
  exact .bind extractU32_lawful fun _ => .pure _

theorem headerOnly_lawful (length : UInt32) : (headerOnly length).Lawful :=
  .bind (.check _ _) fun _ => .pure _

theorem ipPrefixData_lawful (size : Nat) (bits : UInt8) (length : UInt32)
    : (ipPrefixData size bits length).Lawful := by
  refine .bind (.check _ _) fun _ => ?_
  refine .bind extractU8_lawful fun _ => ?_
  refine .bind extractU8_lawful fun _ => ?_
  refine .bind (.check _ _) fun _ => ?_
  refine .bind extractU8_lawful fun _ => ?_
  refine .bind (.check _ _) fun _ => ?_
  refine .bind extractU8_lawful fun _ => ?_
  refine .bind (.take _) fun _ => ?_
  exact .bind extractU32_lawful fun _ => .pure _

theorem errorData_lawful (length : UInt32) : (errorData length).Lawful := by
  refine .bind (.check _ _) fun _ => ?_
  refine .bind extractU32_lawful fun _ => ?_
  refine .bind (.check _ _) fun _ => ?_
  refine .bind (.take _) fun _ => ?_
  refine .bind extractU32_lawful fun _ => ?_
  refine .bind (.check _ _) fun _ => ?_
  exact .bind (.take _) fun _ => .pure _

theorem data_lawful (pduType : PduType) (length : UInt32) : (data pduType length).Lawful := by
  cases pduType with
  | serialNotify
  | serialQuery
  | endOfData => exact serialNumber_lawful length
  | resetQuery
  | cacheResponse
  | cacheReset => exact headerOnly_lawful length
  | ipv4Prefix => exact ipPrefixData_lawful 4 32 length
  | ipv6Prefix => exact ipPrefixData_lawful 16 128 length
  | errorReport => exact errorData_lawful length

end parsePdu

variable {pdu : Pdu} {length : UInt32} {n : Nat}

theorem parsePdu_append_of_error {e : ParseError} (h : parsePdu buffer = .error e)
    : parsePdu (buffer ++ more) = .error e := by
  unfold parsePdu at h
  split at h
  next e' hheader =>
    rw [parsePdu, parsePdu.header_lawful.fail hheader]
    exact h
  . cases h
  next hheader =>
    rcases parsePdu.header_lawful.done hheader with ⟨_, rfl, hused⟩
    rw [parsePdu, append_assoc, hused]
    dsimp only
    split at h
    next e' hdata =>
      rw [(parsePdu.data_lawful _ _).fail hdata]
      exact h
    . cases h
    . split at h <;> cases h

theorem parsePdu_append_of_accepts (h : Accepts buffer pdu)
    : parsePdu (buffer ++ more) = parsePdu buffer := by
  rcases accepts_iff.mp h with ⟨hwf, _, rfl⟩
  rw [append_assoc, parsePdu_bytes_append hwf, parsePdu_bytes_append hwf]

theorem extractField_width (size : Nat) : (extractField size).Width size :=
  .bind (.take size) fun _ => .pure _

theorem extractU8_width : extractU8.Width 1 :=
  .bind (extractField_width 1) fun _ => .pure _

theorem extractU16_width : extractU16.Width 2 :=
  .bind (extractField_width 2) fun _ => .pure _

theorem extractU32_width : extractU32.Width 4 :=
  .bind (extractField_width 4) fun _ => .pure _

namespace parsePdu

theorem header_width : header.Width pduHeaderLength :=
  .bind extractU8_width fun _ => .bind (.check _ _) fun _ => .bind extractU8_width fun _ =>
    .bind (.ofOption _ _) fun _ => .bind extractU16_width fun _ => .bind extractU32_width fun _ =>
      .pure _

def NeedsMore {α : Type} (p : UInt32 → PduParser (Bool × α)) : Prop :=
  ∀ length buffer, (p length).run buffer = .truncated → pduHeaderLength + buffer.length < length.toNat

theorem needsMore_of_width {α : Type} {p : PduParser (Bool × α)} (hp : p.Width n)
    : NeedsMore fun length =>
        .check (length.toNat = pduHeaderLength + n) .corruptData >>= fun _ => p := by
  intro length _ h
  rcases ByteParser.bind_eq_truncated_iff.mp h with h | ⟨_, _, hcheck, h⟩
  . have := (ByteParser.Width.check _ _).truncated h
    omega
  . rw [ByteParser.check_eq_done_iff, decide_eq_true_eq] at hcheck
    have := hp.truncated h
    rw [hcheck.1, hcheck.2]
    omega

theorem serialNumber_needsMore : NeedsMore serialNumber :=
  needsMore_of_width (.bind extractU32_width fun _ => .pure _)

theorem headerOnly_needsMore : NeedsMore headerOnly :=
  needsMore_of_width (.pure _)

theorem ipPrefixData_needsMore (size : Nat) (bits : UInt8) : NeedsMore (ipPrefixData size bits) := by
  have hn : 8 + size = 1 + (1 + (0 + (1 + (0 + (1 + (size + (4 + 0))))))) := by omega
  unfold ipPrefixData
  rw [hn]
  apply needsMore_of_width
  exact .bind extractU8_width fun _ => .bind extractU8_width fun _ => .bind (.check _ _) fun _ =>
    .bind extractU8_width fun _ => .bind (.check _ _) fun _ => .bind extractU8_width fun _ =>
      .bind (.take size) fun _ => .bind extractU32_width fun _ => .pure _

theorem errorData_needsMore : NeedsMore errorData := by
  intro _ _ h
  have hwidth (n : Nat) : (ByteParser.take n : PduParser _).Width n := .take n
  simp only [errorData, ByteParser.bind_eq_truncated_iff, ByteParser.check_eq_done_iff,
    decide_eq_true_eq] at h
  unfold pduErrorHeadersLength at h
  rcases h with h | ⟨_, _, ⟨_, rfl⟩, h | ⟨_, _, hfirst, h | ⟨_, _, ⟨_, rfl⟩,
    h | ⟨_, _, henc, h | ⟨textLength, _, hsecond, h | ⟨_, _, ⟨heq, rfl⟩, h | ⟨_, _, htext, h⟩⟩⟩⟩⟩⟩⟩
  . have := (ByteParser.Width.check _ _).truncated h
    omega
  . have := extractU32_width.truncated h
    omega
  . have := (ByteParser.Width.check _ _).truncated h
    omega
  . have := extractU32_width.done hfirst
    have := (hwidth _).truncated h
    omega
  . have := extractU32_width.done hfirst
    have := (hwidth _).done henc
    have := extractU32_width.truncated h
    omega
  . have := (ByteParser.Width.check _ _).truncated h
    omega
  . have := extractU32_width.done hfirst
    have := (hwidth _).done henc
    have := extractU32_width.done hsecond
    have := (hwidth _).truncated h
    omega
  . cases h

theorem data_needsMore (pduType : PduType) : NeedsMore (data pduType) := by
  cases pduType with
  | serialNotify
  | serialQuery
  | endOfData => exact serialNumber_needsMore
  | resetQuery
  | cacheResponse
  | cacheReset => exact headerOnly_needsMore
  | ipv4Prefix => exact ipPrefixData_needsMore 4 32
  | ipv6Prefix => exact ipPrefixData_needsMore 16 128
  | errorReport => exact errorData_needsMore

end parsePdu

theorem length_lt_of_truncated_none (h : parsePdu buffer = .truncated none)
    : buffer.length < pduHeaderLength := by
  unfold parsePdu at h
  split at h
  . cases h
  next hheader => exact parsePdu.header_width.truncated hheader
  . split at h
    . cases h
    . cases h
    . split at h <;> cases h

theorem length_lt_of_truncated_some (h : parsePdu buffer = .truncated (some length))
    : pduHeaderLength ≤ buffer.length ∧ buffer.length < length.toNat := by
  unfold parsePdu at h
  split at h
  . cases h
  . cases h
  next hheader =>
    split at h
    . cases h
    next hdata =>
      cases h
      have := parsePdu.header_width.done hheader
      have := parsePdu.data_needsMore _ _ _ hdata
      omega
    . split at h <;> cases h

def ParseResult.HasLength (length : UInt32) : ParseResult → Prop
  | .good pdu => pdu.length = length
  | .warning pdu => pdu.length = length
  | .truncated length' => length' = some length
  | .error _ => True

theorem hasLength_of_truncated_some (h : parsePdu buffer = .truncated (some length))
    (more : List UInt8) : (parsePdu (buffer ++ more)).HasLength length := by
  unfold parsePdu at h
  split at h
  . cases h
  . cases h
  next header rest hheader =>
    rcases parsePdu.header_lawful.done hheader with ⟨_, rfl, hused⟩
    have hlength : header.length = length := by
      split at h
      . cases h
      . cases h
        rfl
      . split at h <;> cases h
    rw [parsePdu, append_assoc, hused]
    dsimp only
    split
    . trivial
    . exact congrArg some hlength
    . split <;> exact hlength

def ParseResult.isTruncated : ParseResult → Bool
  | .truncated _ => true
  | _ => false

theorem parsePdu_append (h : (parsePdu buffer).isTruncated = false) (more : List UInt8)
    : parsePdu (buffer ++ more) = parsePdu buffer := by
  cases hparse : parsePdu buffer with
  | good => rw [← hparse, parsePdu_append_of_accepts (.inl hparse)]
  | warning => rw [← hparse, parsePdu_append_of_accepts (.inr hparse)]
  | truncated =>
    rw [hparse] at h
    cases h
  | error => exact parsePdu_append_of_error hparse

theorem length_le_of_accepts (h : Accepts buffer pdu) : pdu.length.toNat ≤ buffer.length := by
  rcases accepts_iff.mp h with ⟨hwf, _, rfl⟩
  rw [hwf.length, length_append]
  apply Nat.le_add_right

theorem truncated_take_of_accepts (h : Accepts buffer pdu) (hn : n < pdu.length.toNat)
    : (parsePdu (buffer.take n)).isTruncated = true := by
  by_contra hnot
  rw [Bool.not_eq_true] at hnot
  -- the verdict on the initial part is the one on the buffer
  have happend := parsePdu_append hnot (buffer.drop n)
  rw [take_append_drop] at happend
  have haccepts : Accepts (buffer.take n) pdu := by
    unfold Accepts at h ⊢
    rw [← happend]
    exact h
  have hle := length_le_of_accepts haccepts
  rw [length_take] at hle
  omega

def lengthField (buffer : List UInt8) : Nat :=
  Bytes.decode ((buffer.drop 4).take 4)

theorem lengthField_header (header : Header) (rest : List UInt8)
    : lengthField (header.bytes ++ rest) = header.length.toNat := by
  have hbytes : header.bytes ++ rest
      = (header.protocolVersion :: header.pduType.code :: Bytes.encode 2 header.sessionId.toNat)
        ++ (Bytes.encode 4 header.length.toNat ++ rest) := by
    simp [Header.bytes]
  rw [lengthField, hbytes, drop_left' (by simp), take_left' (by simp),
    Bytes.decode_encode header.length.toNat_lt]

theorem length_lt_lengthField (h : (parsePdu buffer).isTruncated = true)
    (hlength : pduHeaderLength ≤ buffer.length) : buffer.length < lengthField buffer := by
  cases hparse : parsePdu buffer with
  | good
  | warning
  | error =>
    rw [hparse] at h
    cases h
  | truncated length =>
    cases length with
    | none =>
      have hlt := length_lt_of_truncated_none hparse
      omega
    | some length =>
      have hlt := (length_lt_of_truncated_some hparse).2
      unfold parsePdu at hparse
      split at hparse
      . cases hparse
      . cases hparse
      next header rest hheader =>
        have hlength' : header.length = length := by
          split at hparse
          . cases hparse
          . cases hparse
            rfl
          . split at hparse <;> cases hparse
        rcases parsePdu.header_eq_done_iff.mp hheader with ⟨_, rfl⟩
        rw [lengthField_header, hlength']
        exact hlt

/--
What `parse_pdu` says about a buffer and about its initial parts: a verdict other than `PDU_TRUNCATED`
is the verdict on every extension, every initial part of an accepted PDU is truncated, and a buffer with
a whole header is truncated only if it is shorter than its length field says.
-/
theorem parsePdu_initial_parts (buffer : List UInt8)
    : ((parsePdu buffer).isTruncated = false → ∀ more, parsePdu (buffer ++ more) = parsePdu buffer)
      ∧ (∀ pdu, Accepts buffer pdu → pdu.length.toNat ≤ buffer.length
        ∧ ∀ n < pdu.length.toNat, (parsePdu (buffer.take n)).isTruncated = true)
      ∧ ((parsePdu buffer).isTruncated = true → 8 ≤ buffer.length
        → buffer.length < lengthField buffer) :=
  ⟨parsePdu_append, fun _ h => ⟨length_le_of_accepts h, fun _ => truncated_take_of_accepts h⟩,
    length_lt_lengthField⟩

theorem parsePdu_initial_parts_resetQuery
    : parsePdu [0, 2, 0, 0, 0, 0, 0, 8] = .good fillPduResetQuery
      ∧ (parsePdu [0, 2, 0, 0, 0, 0, 0, 8, 7]) = .good fillPduResetQuery
      ∧ (parsePdu [0, 2, 0, 0, 0]).isTruncated = true := by
  have hparse : parsePdu [0, 2, 0, 0, 0, 0, 0, 8] = .good fillPduResetQuery := by decide +kernel
  obtain ⟨hmore, htake, -⟩ := parsePdu_initial_parts [0, 2, 0, 0, 0, 0, 0, 8]
  refine ⟨hparse, ?_, (htake fillPduResetQuery (.inl hparse)).2 5 (by decide)⟩
  have hmore' := hmore (by rw [hparse]; rfl) [7]
  rw [hparse] at hmore'
  exact hmore'

end Rpstir.Wire
