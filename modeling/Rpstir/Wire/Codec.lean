import Rpstir.Wire.Basic

/-!
This module contains the wire format of each PDU, and what `parse_pdu` and `dump_pdu` have to do with
it.
-/

namespace Rpstir.Wire

open List Option

variable {buffer rest : List UInt8}

theorem extractUint_eq_decode (l : List UInt8) : extractUint l = Bytes.decode l := by
  have h := Bytes.foldl_or_eq_decode l 0 l.length 0 (by simp)
  rw [zero_mul, zero_add] at h
  exact h

variable {pdu : Pdu} {pduType : PduType} {size n : Nat}

theorem extractField_eq_done_iff
    : (extractField size).run buffer = .done n rest
        ↔
      n < 256 ^ size ∧ buffer = Bytes.encode size n ++ rest := by
  unfold extractField
  rw [ByteParser.bind_eq_done_iff]
  constructor
  . rintro ⟨⟨l, hlen⟩, _, htake, hpure⟩
    rw [ByteParser.take_eq_done_iff] at htake
    cases hpure
    subst hlen
    rw [extractUint_eq_decode, Bytes.encode_decode]
    exact ⟨Bytes.decode_lt l, htake⟩
  . rintro ⟨hn, rfl⟩
    refine ⟨⟨_, Bytes.length_encode size n⟩, rest, ByteParser.take_eq_done_iff.mpr rfl, ?_⟩
    rw [extractUint_eq_decode, Bytes.decode_encode hn]
    rfl

@[simp]
theorem extractU8_eq_done_iff {v : UInt8}
    : extractU8.run buffer = .done v rest ↔ buffer = v :: rest := by
  unfold extractU8
  simp only [ByteParser.bind_eq_done_iff, extractField_eq_done_iff, ByteParser.pure_eq_done_iff]
  constructor
  . rintro ⟨_, _, ⟨_, rfl⟩, rfl, rfl⟩
    rfl
  . rintro rfl
    exact ⟨v.toNat, rest, ⟨v.toNat_lt, by simp [Bytes.encode]⟩, by simp, rfl⟩

@[simp]
theorem extractU16_eq_done_iff {v : UInt16}
    : extractU16.run buffer = .done v rest ↔ buffer = Bytes.encode 2 v.toNat ++ rest := by
  unfold extractU16
  simp only [ByteParser.bind_eq_done_iff, extractField_eq_done_iff, ByteParser.pure_eq_done_iff]
  constructor
  . rintro ⟨_, _, ⟨hn, rfl⟩, rfl, rfl⟩
    rw [UInt16.toNat_ofNat_of_lt' hn]
  . rintro rfl
    exact ⟨v.toNat, rest, ⟨v.toNat_lt, rfl⟩, by simp, rfl⟩

@[simp]
theorem extractU32_eq_done_iff {v : UInt32}
    : extractU32.run buffer = .done v rest ↔ buffer = Bytes.encode 4 v.toNat ++ rest := by
  unfold extractU32
  simp only [ByteParser.bind_eq_done_iff, extractField_eq_done_iff, ByteParser.pure_eq_done_iff]
  constructor
  . rintro ⟨_, _, ⟨hn, rfl⟩, rfl, rfl⟩
    rw [UInt32.toNat_ofNat_of_lt' hn]
  . rintro rfl
    exact ⟨v.toNat, rest, ⟨v.toNat_lt, rfl⟩, by simp, rfl⟩

theorem PduType.ofCode_eq_some_iff {code : UInt8}
    : PduType.ofCode code = some pduType ↔ code = pduType.code := by
  constructor
  . intro h
    unfold ofCode at h
    split at h <;> cases h <;> rfl
  . rintro rfl
    cases pduType <;> rfl

def Header.bytes (h : Header) : List UInt8 :=
  h.protocolVersion :: h.pduType.code ::
    (Bytes.encode 2 h.sessionId.toNat ++ Bytes.encode 4 h.length.toNat)

theorem Header.length_bytes (h : Header) : h.bytes.length = pduHeaderLength := by
  simp [bytes, pduHeaderLength]

theorem parsePdu.header_eq_done_iff {h : Header}
    : parsePdu.header.run buffer = .done h rest
        ↔
      h.protocolVersion = rtrProtocolVersion ∧ buffer = h.bytes ++ rest := by
  simp only [parsePdu.header, ByteParser.bind_eq_done_iff, extractU8_eq_done_iff,
    ByteParser.check_eq_done_iff, ByteParser.ofOption_eq_done_iff, extractU16_eq_done_iff,
    extractU32_eq_done_iff, ByteParser.pure_eq_done_iff, decide_eq_true_eq]
  constructor
  . rintro ⟨_, _, rfl, _, _, ⟨hversion, rfl⟩, _, _, rfl, _, _, ⟨hcode, rfl⟩,
      sessionId, _, rfl, length, _, rfl, rfl, rfl⟩
    rw [PduType.ofCode_eq_some_iff] at hcode
    simp [hversion, hcode, Header.bytes]
  . rintro ⟨hversion, rfl⟩
    exact ⟨_, _, rfl, (), _, ⟨hversion, rfl⟩, _, _, rfl, _, _,
      ⟨PduType.ofCode_eq_some_iff.mpr rfl, rfl⟩, _, _, by simp, _, _, rfl, rfl, rfl⟩

def IpPrefixData.bytes {size : Nat} (d : IpPrefixData size) : List UInt8 :=
  d.flags :: d.prefixLength :: d.maxLength :: d.reserved ::
    (d.prefixBytes.val ++ Bytes.encode 4 d.asNumber.toNat)

def ErrorData.bytes (d : ErrorData) : List UInt8 :=
  Bytes.encode 4 d.encapsulatedPduLength.toNat ++ (d.encapsulatedPdu.val ++
    (Bytes.encode 4 d.errorTextLength.toNat ++ d.errorText.val))

def PduType.Data.bytes : {pduType : PduType} → pduType.Data → List UInt8
  | .serialNotify, serial => Bytes.encode 4 (UInt32.toNat serial)
  | .serialQuery, serial => Bytes.encode 4 (UInt32.toNat serial)
  | .resetQuery, _ => []
  | .cacheResponse, _ => []
  | .ipv4Prefix, d => IpPrefixData.bytes d
  | .ipv6Prefix, d => IpPrefixData.bytes d
  | .endOfData, serial => Bytes.encode 4 (UInt32.toNat serial)
  | .cacheReset, _ => []
  | .errorReport, d => ErrorData.bytes d

def PduType.Data.Valid : {pduType : PduType} → pduType.Data → Prop
  | .ipv4Prefix, d => IpPrefixData.prefixLength d ≤ 32 ∧ IpPrefixData.maxLength d ≤ 32
  | .ipv6Prefix, d => IpPrefixData.prefixLength d ≤ 128 ∧ IpPrefixData.maxLength d ≤ 128
  | _, _ => True

def PduType.Data.warns : {pduType : PduType} → pduType.Data → Bool
  | .ipv4Prefix, d => parsePdu.ipPrefixWarns d
  | .ipv6Prefix, d => parsePdu.ipPrefixWarns d
  | _, _ => false

theorem IpPrefixData.length_bytes (d : IpPrefixData size) : d.bytes.length = 8 + size := by
  simp [bytes, d.prefixBytes.property]
  omega

theorem ErrorData.length_bytes (d : ErrorData)
    : d.bytes.length
        =
      pduErrorHeadersLength + d.encapsulatedPduLength.toNat + d.errorTextLength.toNat := by
  simp [bytes, d.encapsulatedPdu.property, d.errorText.property, pduErrorHeadersLength]
  omega

def parsePdu.Reads {α : Type} (p : UInt32 → PduParser (Bool × α)) (bytes : α → List UInt8)
    (valid : α → Prop) (warns : α → Bool) : Prop :=
  ∀ length buffer rest a w, (p length).run buffer = .done (w, a) rest
    ↔
  length.toNat = pduHeaderLength + (bytes a).length ∧ valid a ∧ w = warns a ∧
    buffer = bytes a ++ rest

theorem parsePdu.serialNumber_reads
    : Reads serialNumber (fun serial => Bytes.encode 4 serial.toNat) (fun _ => True)
        (fun _ => false) := by
  intro _ _ _ serial _
  simp only [serialNumber, ByteParser.bind_eq_done_iff, ByteParser.check_eq_done_iff,
    extractU32_eq_done_iff, ByteParser.pure_eq_done_iff, decide_eq_true_eq, Prod.mk.injEq,
    Bytes.length_encode]
  constructor
  . rintro ⟨_, _, ⟨hlen, rfl⟩, _, _, rfl, ⟨rfl, rfl⟩, rfl⟩
    exact ⟨hlen, trivial, rfl, rfl⟩
  . rintro ⟨hlen, -, rfl, rfl⟩
    exact ⟨(), _, ⟨hlen, rfl⟩, _, _, rfl, ⟨rfl, rfl⟩, rfl⟩

theorem parsePdu.headerOnly_reads
    : Reads headerOnly (fun _ => []) (fun _ => True) (fun _ => false) := by
  intro _ _ _ _ _
  simp only [headerOnly, ByteParser.bind_eq_done_iff, ByteParser.check_eq_done_iff,
    ByteParser.pure_eq_done_iff, decide_eq_true_eq, Prod.mk.injEq]
  constructor
  . rintro ⟨_, _, ⟨hlen, rfl⟩, ⟨rfl, _⟩, rfl⟩
    exact ⟨hlen, trivial, rfl, rfl⟩
  . rintro ⟨hlen, -, rfl, rfl⟩
    exact ⟨(), _, ⟨hlen, rfl⟩, ⟨rfl, trivial⟩, rfl⟩

theorem parsePdu.ipPrefixData_reads (size : Nat) (bits : UInt8)
    : Reads (ipPrefixData size bits) IpPrefixData.bytes
        (fun d => d.prefixLength ≤ bits ∧ d.maxLength ≤ bits) ipPrefixWarns := by
  intro _ _ _ d _
  simp only [ipPrefixData, ByteParser.bind_eq_done_iff, ByteParser.check_eq_done_iff,
    extractU8_eq_done_iff, extractU32_eq_done_iff, ByteParser.take_eq_done_iff,
    ByteParser.pure_eq_done_iff, decide_eq_true_eq, Prod.mk.injEq, IpPrefixData.length_bytes]
  constructor
  . rintro ⟨_, _, ⟨hlen, rfl⟩, _, _, rfl, prefixLength, _, rfl, _, _, ⟨hbits, rfl⟩,
      maxLength, _, rfl, _, _, ⟨hmax, rfl⟩, reserved, _, rfl, prefixBytes, _, rfl, asNumber, _, rfl,
      ⟨rfl, rfl⟩, rfl⟩
    exact ⟨hlen, ⟨hbits, hmax⟩, rfl, by simp [IpPrefixData.bytes]⟩
  . rintro ⟨hlen, ⟨hbits, hmax⟩, rfl, rfl⟩
    exact ⟨(), _, ⟨hlen, rfl⟩, _, _, rfl, _, _, rfl, (), _, ⟨hbits, rfl⟩, _, _, rfl, (), _,
      ⟨hmax, rfl⟩, _, _, rfl, _, _, append_assoc _ _ _, _, _, rfl, ⟨rfl, rfl⟩, rfl⟩

theorem parsePdu.errorData_reads
    : Reads errorData ErrorData.bytes (fun _ => True) (fun _ => false) := by
  intro _ _ _ _ _
  simp only [errorData, ByteParser.bind_eq_done_iff, ByteParser.check_eq_done_iff,
    extractU32_eq_done_iff, ByteParser.take_eq_done_iff, ByteParser.pure_eq_done_iff,
    decide_eq_true_eq, Prod.mk.injEq, ErrorData.length_bytes]
  constructor
  . rintro ⟨_, _, ⟨_, rfl⟩, _, _, rfl, _, _, ⟨_, rfl⟩, _, _, rfl,
      textLength, _, rfl, _, _, ⟨hlen, rfl⟩, text, _, rfl, ⟨rfl, rfl⟩, rfl⟩
    exact ⟨by dsimp only; omega, trivial, rfl, by simp [ErrorData.bytes]⟩
  . rintro ⟨hlen, -, rfl, rfl⟩
    refine ⟨(), _, ⟨by omega, rfl⟩, _, _, ?_, (), _, ⟨by omega, rfl⟩, _, _, rfl, _, _, rfl, (), _,
      ⟨by omega, rfl⟩, _, _, rfl, ⟨rfl, rfl⟩, rfl⟩
    simp [ErrorData.bytes]

theorem parsePdu.data_reads (pduType : PduType)
    : Reads (data pduType) PduType.Data.bytes PduType.Data.Valid PduType.Data.warns := by
  cases pduType with
  | serialNotify
  | serialQuery
  | endOfData => exact serialNumber_reads
  | resetQuery
  | cacheResponse
  | cacheReset => exact headerOnly_reads
  | ipv4Prefix => exact ipPrefixData_reads 4 32
  | ipv6Prefix => exact ipPrefixData_reads 16 128
  | errorReport => exact errorData_reads

namespace Pdu

def header (pdu : Pdu) : Header :=
  ⟨pdu.protocolVersion, pdu.pduType, pdu.sessionId, pdu.length⟩

def bytes (pdu : Pdu) : List UInt8 :=
  pdu.header.bytes ++ pdu.data.bytes

structure WellFormed (pdu : Pdu) : Prop where
  protocolVersion : pdu.protocolVersion = rtrProtocolVersion
  length : pdu.length.toNat = pdu.bytes.length
  data : pdu.data.Valid

theorem length_bytes (pdu : Pdu) : pdu.bytes.length = pduHeaderLength + pdu.data.bytes.length := by
  rw [bytes, length_append, Header.length_bytes]

def result (pdu : Pdu) : ParseResult :=
  if parsePdu.sessionIdWarns pdu.pduType pdu.sessionId || pdu.data.warns then
    .warning pdu
  else
    .good pdu

theorem eq_of_result {pdu' : Pdu} (h : pdu.result = .good pdu' ∨ pdu.result = .warning pdu')
    : pdu = pdu' := by
  unfold result at h
  split at h <;> simpa using h

end Pdu

theorem parsePdu_bytes_append (h : pdu.WellFormed) (rest : List UInt8)
    : parsePdu (pdu.bytes ++ rest) = pdu.result := by
  have hheader : parsePdu.header.run (pdu.bytes ++ rest)
      = .done pdu.header (pdu.data.bytes ++ rest) := by
    rw [parsePdu.header_eq_done_iff, Pdu.bytes, append_assoc]
    exact ⟨h.protocolVersion, rfl⟩
  have hdata : (parsePdu.data pdu.pduType pdu.length).run (pdu.data.bytes ++ rest)
      = .done (pdu.data.warns, pdu.data) rest := by
    rw [parsePdu.data_reads]
    refine ⟨?_, h.data, rfl, rfl⟩
    rw [h.length, Pdu.length_bytes]
  unfold parsePdu
  rw [hheader]
  unfold Pdu.header
  dsimp only
  rw [hdata]
  rfl

def Accepts (buffer : List UInt8) (pdu : Pdu) : Prop :=
  parsePdu buffer = .good pdu ∨ parsePdu buffer = .warning pdu

theorem accepts_iff
    : Accepts buffer pdu ↔ pdu.WellFormed ∧ (∃ rest, buffer = pdu.bytes ++ rest) := by
  unfold Accepts
  constructor
  . intro h
    unfold parsePdu at h
    split at h
    . simp at h
    . simp at h
    next header mid hheader =>
      split at h
      . simp at h
      . simp at h
      next data rest hdata =>
        rw [parsePdu.header_eq_done_iff] at hheader
        rw [parsePdu.data_reads] at hdata
        rcases hheader with ⟨hversion, rfl⟩
        rcases hdata with ⟨hlen, hvalid, rfl, rfl⟩
        have hpdu : Pdu.mk header.protocolVersion header.pduType header.sessionId header.length data
            = pdu := Pdu.eq_of_result h
        subst hpdu
        refine ⟨⟨hversion, ?_, hvalid⟩, rest, ?_⟩
        . rw [Pdu.length_bytes]
          exact hlen
        . rw [Pdu.bytes, append_assoc]
          rfl
  . rintro ⟨hwf, rest, rfl⟩
    rw [parsePdu_bytes_append hwf]
    unfold Pdu.result
    split <;> simp

namespace dumpPdu

variable {buflen : Nat}

theorem write_bind_write (bytes bytes' buffer : List UInt8)
    : (write buflen bytes buffer).bind (write buflen bytes') = write buflen (bytes ++ bytes') buffer := by
  unfold write
  split
  next h =>
    rw [if_pos (by rw [length_append]; omega)]
    rfl
  next h =>
    simp only [bind_some, length_append, Nat.add_assoc, append_assoc]

theorem errorData_eq_write (d : ErrorData) (buffer : List UInt8)
    : errorData buflen d buffer = write buflen d.bytes buffer := by
  unfold ErrorData.bytes
  simp only [← append_assoc, ← write_bind_write, bind_assoc]
  rfl

variable {length serial : UInt32}

theorem swap_append {l : List UInt8} {offset : Nat} (hl : l.length = offset) (n : Nat)
    : swap offset (l ++ littleEndian 4 n) = l ++ Bytes.encode 4 n := by
  have hlen : (littleEndian 4 n).length = 4 := by simp [littleEndian]
  subst hl
  rw [swap, take_left, drop_left, drop_append, take_of_length_le (by omega),
    drop_of_length_le (by omega), drop_of_length_le (by omega)]
  simp [littleEndian]

theorem write_bind_swap {buffer : List UInt8} (init : List UInt8) (offset : List UInt8 → Nat)
    (hoffset : offset (buffer ++ (init ++ littleEndian 4 n)) = buffer.length + init.length)
    : ((write buflen (init ++ littleEndian 4 n) buffer).bind
          fun buffer => some (swap (offset buffer) buffer))
        =
      write buflen (init ++ Bytes.encode 4 n) buffer := by
  have hlen : (littleEndian 4 n).length = 4 := by simp [littleEndian]
  unfold write
  rw [length_append, length_append, hlen, Bytes.length_encode]
  split
  . rfl
  . rw [bind_some, hoffset, ← append_assoc, swap_append (by simp), append_assoc]

theorem serialNumber_eq_write {buffer : List UInt8} (hlength : length.toNat = pduHeaderLength + 4)
    (hbuffer : buffer.length = pduHeaderLength)
    : ((write buflen ((littleEndian 4 serial.toNat).take (length.toNat - pduHeaderLength)) buffer).bind
          fun buffer => some (swap pduHeaderLength buffer))
        =
      write buflen (Bytes.encode 4 serial.toNat) buffer := by
  rw [take_of_length_le (by simp [littleEndian]; omega)]
  exact write_bind_swap [] (fun _ => pduHeaderLength) (by simp [hbuffer])

theorem ipPrefixData_eq_write {d : IpPrefixData size} {buffer : List UInt8}
    (hlength : length.toNat = pduHeaderLength + d.bytes.length)
    : ((write buflen (d.memory.take (length.toNat - pduHeaderLength)) buffer).bind
          fun buffer => some (swap (buffer.length - 4) buffer))
        =
      write buflen d.bytes buffer := by
  rw [IpPrefixData.length_bytes] at hlength
  rw [take_of_length_le]
  . apply write_bind_swap _ (fun buffer => buffer.length - 4)
    simp [littleEndian]
    omega
  . simp [IpPrefixData.memory, littleEndian, d.prefixBytes.property]
    omega

theorem data_eq_write {d : pduType.Data} {buffer : List UInt8}
    (hlength : length.toNat = pduHeaderLength + d.bytes.length)
    (hbuffer : buffer.length = pduHeaderLength)
    : data buflen length pduType d buffer = write buflen d.bytes buffer := by
  have hnil : (write buflen (List.take (length.toNat - pduHeaderLength) []) buffer).bind some
      = write buflen [] buffer := by
    rw [take_nil, bind_fun_some]
  cases pduType with
  | serialNotify
  | serialQuery
  | endOfData => exact serialNumber_eq_write hlength hbuffer
  | resetQuery
  | cacheResponse
  | cacheReset => exact hnil
  | ipv4Prefix
  | ipv6Prefix => exact ipPrefixData_eq_write hlength
  | errorReport => exact errorData_eq_write d buffer

end dumpPdu

section

variable (h : pdu.length.toNat = pdu.bytes.length)

include h

theorem dumpPdu_eq_write {buflen : Nat}
    : dumpPdu buflen pdu = dumpPdu.write buflen pdu.bytes [] := by
  rw [Pdu.length_bytes] at h
  have hheader : dumpPdu buflen pdu
      = (dumpPdu.write buflen pdu.header.bytes []).bind
          (dumpPdu.data buflen pdu.length pdu.pduType pdu.data) := by
    have hbytes : pdu.header.bytes
        = [pdu.protocolVersion, pdu.pduType.code] ++ Bytes.encode 2 pdu.sessionId.toNat ++
            Bytes.encode 4 pdu.length.toNat := by
      simp [Pdu.header, Header.bytes]
    rw [hbytes, ← dumpPdu.write_bind_write, ← dumpPdu.write_bind_write]
    simp only [bind_assoc]
    rfl
  rw [hheader, Pdu.bytes, ← dumpPdu.write_bind_write]
  apply Option.bind_congr
  intro _ hbuffer
  apply dumpPdu.data_eq_write h
  unfold dumpPdu.write at hbuffer
  split at hbuffer
  . cases hbuffer
  . cases hbuffer
    exact Header.length_bytes _

theorem dumpPdu_of_le {buflen : Nat} (hle : pdu.length.toNat ≤ buflen)
    : dumpPdu buflen pdu = some pdu.bytes := by
  rw [dumpPdu_eq_write h, dumpPdu.write, if_neg (by simp; omega), nil_append]

theorem dumpPdu_of_lt {buflen : Nat} (hlt : buflen < pdu.length.toNat) : dumpPdu buflen pdu = none := by
  rw [dumpPdu_eq_write h, dumpPdu.write, if_pos (by simp; omega)]

end

inductive Filled : Pdu → Prop where
  | serialNotify (session : UInt16) (serial : UInt32) : Filled (fillPduSerialNotify session serial)
  | serialQuery (session : UInt16) (serial : UInt32) : Filled (fillPduSerialQuery session serial)
  | resetQuery : Filled fillPduResetQuery
  | cacheResponse (session : UInt16) : Filled (fillPduCacheResponse session)
  | ipv4Prefix (flags prefixLength maxLength : UInt8) (prefixBytes : FixedBytes 4) (asn : UInt32)
    (hbits : prefixLength ≤ 32) (hmax : maxLength ≤ 32)
    : Filled (fillPduIpv4Prefix flags prefixLength maxLength prefixBytes asn)
  | ipv6Prefix (flags prefixLength maxLength : UInt8) (prefixBytes : FixedBytes 16) (asn : UInt32)
    (hbits : prefixLength ≤ 128) (hmax : maxLength ≤ 128)
    : Filled (fillPduIpv6Prefix flags prefixLength maxLength prefixBytes asn)
  | endOfData (session : UInt16) (serial : UInt32) : Filled (fillPduEndOfData session serial)
  | cacheReset : Filled fillPduCacheReset
  | errorReport (code : ErrorCode) (d : ErrorData)
    (hlength : pduHeaderLength + pduErrorHeadersLength + d.encapsulatedPduLength.toNat +
      d.errorTextLength.toNat < 2 ^ 32)
    : Filled (fillPduErrorReport code d)

theorem Filled.wellFormed (h : Filled pdu) : pdu.WellFormed := by
  cases h with
  | serialNotify
  | serialQuery
  | resetQuery
  | cacheResponse
  | endOfData
  | cacheReset => exact ⟨rfl, rfl, trivial⟩
  | ipv4Prefix _ _ _ _ _ hbits hmax
  | ipv6Prefix _ _ _ _ _ hbits hmax =>
    refine ⟨rfl, ?_, hbits, hmax⟩
    rw [Pdu.length_bytes]
    refine .trans ?_ (congrArg (pduHeaderLength + ·) (IpPrefixData.length_bytes _).symm)
    rfl
  | errorReport _ d hlength =>
    refine ⟨rfl, ?_, trivial⟩
    rw [Pdu.length_bytes]
    refine (UInt32.toNat_ofNat_of_lt' hlength).trans ?_
    rw [Nat.add_assoc, Nat.add_assoc, ← Nat.add_assoc pduErrorHeadersLength]
    exact congrArg (pduHeaderLength + ·) d.length_bytes.symm

theorem dump_parse_round_trip
    : (∀ pdu, Filled pdu → ∀ buflen : Nat,
        (pdu.length.toNat ≤ buflen →
          ∃ bytes, dumpPdu buflen pdu = some bytes ∧ bytes.length = pdu.length.toNat ∧
            (parsePdu bytes = .good pdu ∨ parsePdu bytes = .warning pdu)) ∧
        (buflen < pdu.length.toNat → dumpPdu buflen pdu = none)) ∧
      ∀ buffer pdu, parsePdu buffer = .good pdu ∨ parsePdu buffer = .warning pdu →
        pdu.length.toNat ≤ buffer.length ∧
        ∀ buflen : Nat, pdu.length.toNat ≤ buflen →
          dumpPdu buflen pdu = some (buffer.take pdu.length.toNat) := by
  constructor
  . intro pdu hfilled buflen
    have hwf := hfilled.wellFormed
    refine ⟨?_, dumpPdu_of_lt hwf.length⟩
    intro hle
    refine ⟨pdu.bytes, dumpPdu_of_le hwf.length hle, hwf.length.symm, ?_⟩
    exact accepts_iff.mpr ⟨hwf, [], by simp⟩
  intro buffer pdu h
  rcases accepts_iff.mp h with ⟨hwf, _, rfl⟩
  rw [hwf.length, take_left]
  constructor
  . simp
  . intro buflen hle
    apply dumpPdu_of_le hwf.length
    rw [hwf.length]
    exact hle

theorem dump_parse_round_trip_errorReport
    : dumpPdu 21 (fillPduErrorReport ErrorCode.noData ⟨3, ⟨[1, 2, 3], rfl⟩, 2, ⟨[4, 5], rfl⟩⟩)
        = some [0, 10, 0, 2, 0, 0, 0, 21, 0, 0, 0, 3, 1, 2, 3, 0, 0, 0, 2, 4, 5] ∧
      dumpPdu 20 (fillPduErrorReport ErrorCode.noData ⟨3, ⟨[1, 2, 3], rfl⟩, 2, ⟨[4, 5], rfl⟩⟩)
        = none ∧
      parsePdu [0, 2, 0, 1, 0, 0, 0, 8, 99] = .warning ⟨0, .resetQuery, 1, 8, ()⟩ ∧
      dumpPdu 8 ⟨0, .resetQuery, 1, 8, ()⟩ = some [0, 2, 0, 1, 0, 0, 0, 8] := by
  have hfilled : Filled (fillPduErrorReport ErrorCode.noData
      ⟨3, ⟨[1, 2, 3], rfl⟩, 2, ⟨[4, 5], rfl⟩⟩) := .errorReport _ _ (by decide)
  have hparse : parsePdu [0, 2, 0, 1, 0, 0, 0, 8, 99] = .warning ⟨0, .resetQuery, 1, 8, ()⟩ := by
    decide
  exact ⟨by decide, (dump_parse_round_trip.1 _ hfilled 20).2 (by decide), hparse,
    (dump_parse_round_trip.2 _ _ (Or.inr hparse)).2 8 (by decide)⟩

end Rpstir.Wire
