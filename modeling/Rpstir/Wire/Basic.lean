import Rpstir.Data.ByteParser

/-!
This module contains the PDUs of the RTR protocol as `rpki-rtr/pdu.h` declares them, and the functions
that fill them in, dump them into a buffer and parse them from one.
-/

namespace Rpstir.Wire

inductive PduType where
  | serialNotify
  | serialQuery
  | resetQuery
  | cacheResponse
  | ipv4Prefix
  | ipv6Prefix
  | endOfData
  | cacheReset
  | errorReport
  deriving DecidableEq, Repr

namespace PduType

def code : PduType → UInt8
  | serialNotify => 0
  | serialQuery => 1
  | resetQuery => 2
  | cacheResponse => 3
  | ipv4Prefix => 4
  | ipv6Prefix => 6
  | endOfData => 7
  | cacheReset => 8
  | errorReport => 10

def ofCode (code : UInt8) : Option PduType :=
  match code with
  | 0 => some serialNotify
  | 1 => some serialQuery
  | 2 => some resetQuery
  | 3 => some cacheResponse
  | 4 => some ipv4Prefix
  | 6 => some ipv6Prefix
  | 7 => some endOfData
  | 8 => some cacheReset
  | 10 => some errorReport
  | _ => none

end PduType

def rtrProtocolVersion : UInt8 := 0

def flagWithdrawAnnounce : UInt8 := 0x1

def flagsReserved : UInt8 := 0x2 ||| 0x4 ||| 0x8 ||| 0x10 ||| 0x20 ||| 0x40 ||| 0x80

abbrev ErrorCode := UInt16

namespace ErrorCode

def corruptData : ErrorCode := 0

def internalError : ErrorCode := 1

def noData : ErrorCode := 2

def invalidRequest : ErrorCode := 3

def unsupportedVersion : ErrorCode := 4

def unsupportedType : ErrorCode := 5

def unknownWithdraw : ErrorCode := 6

def duplicateAnnounce : ErrorCode := 7

def isFatal (code : ErrorCode) : Bool :=
  code != noData

end ErrorCode

structure IpPrefixData (size : Nat) where
  flags : UInt8
  prefixLength : UInt8
  maxLength : UInt8
  reserved : UInt8
  prefixBytes : FixedBytes size
  asNumber : UInt32
  deriving DecidableEq, Repr

abbrev Ip4PrefixData := IpPrefixData 4

abbrev Ip6PrefixData := IpPrefixData 16

structure ErrorData where
  encapsulatedPduLength : UInt32
  encapsulatedPdu : FixedBytes encapsulatedPduLength.toNat
  errorTextLength : UInt32
  errorText : FixedBytes errorTextLength.toNat
  deriving DecidableEq, Repr

def PduType.Data : PduType → Type
  | serialNotify => UInt32
  | serialQuery => UInt32
  | resetQuery => Unit
  | cacheResponse => Unit
  | ipv4Prefix => Ip4PrefixData
  | ipv6Prefix => Ip6PrefixData
  | endOfData => UInt32
  | cacheReset => Unit
  | errorReport => ErrorData

instance : (pduType : PduType) → DecidableEq pduType.Data
  | .serialNotify => inferInstanceAs (DecidableEq UInt32)
  | .serialQuery => inferInstanceAs (DecidableEq UInt32)
  | .resetQuery => inferInstanceAs (DecidableEq Unit)
  | .cacheResponse => inferInstanceAs (DecidableEq Unit)
  | .ipv4Prefix => inferInstanceAs (DecidableEq Ip4PrefixData)
  | .ipv6Prefix => inferInstanceAs (DecidableEq Ip6PrefixData)
  | .endOfData => inferInstanceAs (DecidableEq UInt32)
  | .cacheReset => inferInstanceAs (DecidableEq Unit)
  | .errorReport => inferInstanceAs (DecidableEq ErrorData)

structure Pdu where
  protocolVersion : UInt8
  pduType : PduType
  sessionId : UInt16
  length : UInt32
  data : pduType.Data
  deriving DecidableEq

def pduHeaderLength : Nat := 8

def pduErrorHeadersLength : Nat := 8

inductive ParseError where
  | corruptData
  | internalError
  | unsupportedProtocolVersion
  | unsupportedPduType
  | invalidValue
  deriving DecidableEq, Repr

inductive ParseResult where
  | good (pdu : Pdu)
  | warning (pdu : Pdu)
  | truncated (length : Option UInt32)
  | error (e : ParseError)
  deriving DecidableEq

def extractUint (buffer : List UInt8) : Nat :=
  buffer.zipIdx.foldl (fun ret (b, i) => ret ||| b.toNat <<< (8 * (buffer.length - 1 - i))) 0

abbrev PduParser := ByteParser ParseError

def extractField (size : Nat) : PduParser Nat := do
  let bytes ← .take size
  return extractUint bytes.val

def extractU8 : PduParser UInt8 := do
  return UInt8.ofNat (← extractField 1)

def extractU16 : PduParser UInt16 := do
  return UInt16.ofNat (← extractField 2)

def extractU32 : PduParser UInt32 := do
  return UInt32.ofNat (← extractField 4)

structure Header where
  protocolVersion : UInt8
  pduType : PduType
  sessionId : UInt16
  length : UInt32
  deriving DecidableEq, Repr

namespace parsePdu

def sessionIdWarns (pduType : PduType) (sessionId : UInt16) : Bool :=
  match pduType with
  | .serialNotify | .serialQuery | .cacheResponse | .endOfData => false
  | .resetQuery | .ipv4Prefix | .ipv6Prefix | .cacheReset => sessionId != 0
  | .errorReport =>
    sessionId != ErrorCode.corruptData && sessionId != ErrorCode.internalError &&
      sessionId != ErrorCode.noData && sessionId != ErrorCode.invalidRequest &&
      sessionId != ErrorCode.unsupportedVersion && sessionId != ErrorCode.unsupportedType &&
      sessionId != ErrorCode.unknownWithdraw && sessionId != ErrorCode.duplicateAnnounce

def header : PduParser Header := do
  let protocolVersion ← extractU8
  .check (protocolVersion = rtrProtocolVersion) .unsupportedProtocolVersion
  let code ← extractU8
  let pduType ← .ofOption (PduType.ofCode code) .unsupportedPduType
  let sessionId ← extractU16
  let length ← extractU32
  return ⟨protocolVersion, pduType, sessionId, length⟩

def serialNumber (length : UInt32) : PduParser (Bool × UInt32) := do
  .check (length.toNat = pduHeaderLength + 4) .corruptData
  let serialNumber ← extractU32
  return (false, serialNumber)

def headerOnly (length : UInt32) : PduParser (Bool × Unit) := do
  .check (length.toNat = pduHeaderLength) .corruptData
  return (false, ())

def ipPrefixWarns {size : Nat} (d : IpPrefixData size) : Bool :=
  d.flags &&& flagsReserved != 0 || d.maxLength < d.prefixLength || d.reserved != 0

def ipPrefixData (size : Nat) (bits : UInt8) (length : UInt32)
    : PduParser (Bool × IpPrefixData size) := do
  .check (length.toNat = pduHeaderLength + (8 + size)) .corruptData
  let flags ← extractU8
  let prefixLength ← extractU8
  .check (prefixLength ≤ bits) .invalidValue
  let maxLength ← extractU8
  .check (maxLength ≤ bits) .invalidValue
  let reserved ← extractU8
  let prefixBytes ← .take size
  let asNumber ← extractU32
  let d := ⟨flags, prefixLength, maxLength, reserved, prefixBytes, asNumber⟩
  return (ipPrefixWarns d, d)

def ip4PrefixData : UInt32 → PduParser (Bool × Ip4PrefixData) :=
  ipPrefixData 4 32

def ip6PrefixData : UInt32 → PduParser (Bool × Ip6PrefixData) :=
  ipPrefixData 16 128

def errorData (length : UInt32) : PduParser (Bool × ErrorData) := do
  let headersLength := pduHeaderLength + pduErrorHeadersLength
  .check (headersLength ≤ length.toNat) .corruptData
  let encapsulatedPduLength ← extractU32
  .check (headersLength + encapsulatedPduLength.toNat ≤ length.toNat) .corruptData
  let encapsulatedPdu ← .take encapsulatedPduLength.toNat
  let errorTextLength ← extractU32
  .check (length.toNat = headersLength + encapsulatedPduLength.toNat + errorTextLength.toNat)
    .corruptData
  let errorText ← .take errorTextLength.toNat
  return (false, ⟨encapsulatedPduLength, encapsulatedPdu, errorTextLength, errorText⟩)

def data : (pduType : PduType) → UInt32 → PduParser (Bool × pduType.Data)
  | .serialNotify => serialNumber
  | .serialQuery => serialNumber
  | .resetQuery => headerOnly
  | .cacheResponse => headerOnly
  | .ipv4Prefix => ip4PrefixData
  | .ipv6Prefix => ip6PrefixData
  | .endOfData => serialNumber
  | .cacheReset => headerOnly
  | .errorReport => errorData

end parsePdu

def parsePdu (buffer : List UInt8) : ParseResult :=
  match parsePdu.header.run buffer with
  | .fail e => .error e
  | .truncated => .truncated none
  | .done header rest =>
    match (parsePdu.data header.pduType header.length).run rest with
    | .fail e => .error e
    | .truncated => .truncated (some header.length)
    | .done (warns, data) _ =>
      let pdu := ⟨header.protocolVersion, header.pduType, header.sessionId, header.length, data⟩
      if parsePdu.sessionIdWarns header.pduType header.sessionId || warns then
        .warning pdu
      else
        .good pdu

def littleEndian (size n : Nat) : List UInt8 :=
  (Bytes.encode size n).reverse

def IpPrefixData.memory {size : Nat} (d : IpPrefixData size) : List UInt8 :=
  [d.flags, d.prefixLength, d.maxLength, d.reserved] ++ d.prefixBytes.val ++
    littleEndian 4 d.asNumber.toNat

def PduType.Data.memory : {pduType : PduType} → pduType.Data → List UInt8
  | .serialNotify, serial => littleEndian 4 (UInt32.toNat serial)
  | .serialQuery, serial => littleEndian 4 (UInt32.toNat serial)
  | .resetQuery, _ => []
  | .cacheResponse, _ => []
  | .ipv4Prefix, d => IpPrefixData.memory d
  | .ipv6Prefix, d => IpPrefixData.memory d
  | .endOfData, serial => littleEndian 4 (UInt32.toNat serial)
  | .cacheReset, _ => []
  | .errorReport, _ => []

namespace dumpPdu

def write (buflen : Nat) (bytes buffer : List UInt8) : Option (List UInt8) :=
  if buffer.length + bytes.length > buflen then none else some (buffer ++ bytes)

def swap (offset : Nat) (buffer : List UInt8) : List UInt8 :=
  buffer.take offset ++ ((buffer.drop offset).take 4).reverse ++ buffer.drop (offset + 4)

def errorData (buflen : Nat) (d : ErrorData) (buffer : List UInt8) : Option (List UInt8) := do
  let buffer ← write buflen (Bytes.encode 4 d.encapsulatedPduLength.toNat) buffer
  let buffer ← write buflen d.encapsulatedPdu.val buffer
  let buffer ← write buflen (Bytes.encode 4 d.errorTextLength.toNat) buffer
  write buflen d.errorText.val buffer

def data (buflen : Nat) (length : UInt32)
    : (pduType : PduType) → pduType.Data → List UInt8 → Option (List UInt8)
  | .errorReport, d, buffer => errorData buflen d buffer
  | pduType, d, buffer => do
    let buffer ← write buflen (d.memory.take (length.toNat - pduHeaderLength)) buffer
    match pduType with
    | .ipv4Prefix | .ipv6Prefix => return swap (buffer.length - 4) buffer
    | .serialNotify | .serialQuery | .endOfData => return swap pduHeaderLength buffer
    | _ => return buffer

end dumpPdu

def dumpPdu (buflen : Nat) (pdu : Pdu) : Option (List UInt8) := do
  let buffer ← dumpPdu.write buflen [pdu.protocolVersion, pdu.pduType.code] []
  let buffer ← dumpPdu.write buflen (Bytes.encode 2 pdu.sessionId.toNat) buffer
  let buffer ← dumpPdu.write buflen (Bytes.encode 4 pdu.length.toNat) buffer
  dumpPdu.data buflen pdu.length pdu.pduType pdu.data buffer

section Fill

def fillPduWithSerialNumber (pduType : PduType) (sessionOrZero : UInt16) (serial : pduType.Data)
    : Pdu :=
  ⟨rtrProtocolVersion, pduType, sessionOrZero, UInt32.ofNat (pduHeaderLength + 4), serial⟩

def fillPduHeaderOnly (pduType : PduType) (sessionOrZero : UInt16) (data : pduType.Data) : Pdu :=
  ⟨rtrProtocolVersion, pduType, sessionOrZero, UInt32.ofNat pduHeaderLength, data⟩

def fillPduSerialNotify (session : UInt16) (serial : UInt32) : Pdu :=
  fillPduWithSerialNumber .serialNotify session serial

def fillPduSerialQuery (session : UInt16) (serial : UInt32) : Pdu :=
  fillPduWithSerialNumber .serialQuery session serial

def fillPduResetQuery : Pdu :=
  fillPduHeaderOnly .resetQuery 0 ()

def fillPduCacheResponse (session : UInt16) : Pdu :=
  fillPduHeaderOnly .cacheResponse session ()

def fillPduIpv4Prefix (flags prefixLength maxLength : UInt8) (prefixBytes : FixedBytes 4)
    (asn : UInt32) : Pdu :=
  ⟨rtrProtocolVersion, .ipv4Prefix, 0, UInt32.ofNat (pduHeaderLength + 12),
    (⟨flags, prefixLength, maxLength, 0, prefixBytes, asn⟩ : Ip4PrefixData)⟩

def fillPduIpv6Prefix (flags prefixLength maxLength : UInt8) (prefixBytes : FixedBytes 16)
    (asn : UInt32) : Pdu :=
  ⟨rtrProtocolVersion, .ipv6Prefix, 0, UInt32.ofNat (pduHeaderLength + 24),
    (⟨flags, prefixLength, maxLength, 0, prefixBytes, asn⟩ : Ip6PrefixData)⟩

def fillPduEndOfData (session : UInt16) (serial : UInt32) : Pdu :=
  fillPduWithSerialNumber .endOfData session serial

def fillPduCacheReset : Pdu :=
  fillPduHeaderOnly .cacheReset 0 ()

def fillPduErrorReport (code : ErrorCode) (d : ErrorData) : Pdu :=
  ⟨rtrProtocolVersion, .errorReport, code,
    UInt32.ofNat (pduHeaderLength + pduErrorHeadersLength + d.encapsulatedPduLength.toNat +
      d.errorTextLength.toNat), d⟩

end Fill
end Rpstir.Wire
