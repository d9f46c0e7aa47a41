import Rpstir.Data.Lts
import Rpstir.Wire.Basic

/-!
This module contains how a connection thread reads PDUs from its socket, from one `recv` or `read` to the
next one.
-/

namespace Rpstir.Daemon

open Wire

def maxPduSize : Nat := 1024

def parseErrorCode : ParseResult → ErrorCode
  | .error .corruptData => ErrorCode.corruptData
  | .error .internalError => ErrorCode.internalError
  | .error .unsupportedProtocolVersion => ErrorCode.unsupportedVersion
  | .error .unsupportedPduType => ErrorCode.unsupportedType
  | .error .invalidValue => ErrorCode.invalidRequest
  | _ => ErrorCode.internalError

def errorText (text : String) : List UInt8 :=
  text.toList.map fun c => UInt8.ofNat c.toNat

inductive ReaderPc where
  | idle
  | header (count : Int)
  | body (count : Int)
  deriving DecidableEq, Repr

/--
What a connection thread does after it has read some bytes: read more of them, handle the PDU, or send an
Error Report and exit. The report encapsulates the receive buffer, except for a read past the end.
-/
inductive ReadResult where
  | block (pc : ReaderPc)
  | handle (pdu : Pdu)
  | sendError (code : ErrorCode) (text : List UInt8)
  | pastEnd
  deriving DecidableEq

def readAndHandlePdu : ParseResult → ReadResult
  | .good pdu => .handle pdu
  | .warning pdu => .handle pdu
  | retval => .sendError (parseErrorCode retval) []

def readBlock (buffer : List UInt8) (count : Int) (pc : Int → ReaderPc) (done : ReadResult)
    : ReadResult :=
  if 0 < count then
    match parsePdu buffer with
    | .good _ => .pastEnd
    | .warning _ => .pastEnd
    | .truncated _ => .block (pc count)
    | .error e => .sendError (parseErrorCode (.error e)) []
  else
    done

namespace readAndParsePdu

def body (buffer : List UInt8) (count : Int) : ReadResult :=
  readBlock buffer count .body (readAndHandlePdu (parsePdu buffer))

def afterHeader (recvLength : UInt32) (buffer : List UInt8) : ReadResult :=
  match parsePdu buffer with
  | .truncated length =>
    let recvLength := length.getD recvLength
    if recvLength.toNat > maxPduSize then
      .sendError ErrorCode.corruptData (errorText "PDU too large")
    else
      body buffer (recvLength.toNat - buffer.length)
  | retval => readAndHandlePdu retval

def header (recvLength : UInt32) (buffer : List UInt8) (count : Int) : ReadResult :=
  readBlock buffer count .header (afterHeader recvLength buffer)

end readAndParsePdu

def readAndParsePdu (recvLength : UInt32) (buffer : List UInt8) : ReadResult :=
  match parsePdu buffer with
  | .error e => .sendError (parseErrorCode (.error e)) []
  | _ => readAndParsePdu.header recvLength buffer (pduHeaderLength - buffer.length)

structure Reader where
  buffer : List UInt8
  recvLength : UInt32
  pc : ReaderPc
  deriving DecidableEq, Repr

namespace Reader

def start : Reader where
  buffer := []
  recvLength := 0
  pc := .idle

def count (r : Reader) : Int :=
  match r.pc with
  | .idle => pduHeaderLength
  | .header count => count
  | .body count => count

def pending (r : Reader) : List UInt8 :=
  match r.pc with
  | .idle => []
  | _ => r.buffer

def receive (r : Reader) (bytes : List UInt8) : ReadResult :=
  let buffer := r.pending ++ bytes
  match r.pc with
  | .idle => readAndParsePdu r.recvLength buffer
  | .header count => readAndParsePdu.header r.recvLength buffer (count - bytes.length)
  | .body count => readAndParsePdu.body buffer (count - bytes.length)

def after (r : Reader) (bytes : List UInt8) : Reader where
  buffer := r.pending ++ bytes
  recvLength :=
    match parsePdu (r.pending ++ bytes) with
    | .good pdu => pdu.length
    | .warning pdu => pdu.length
    | .truncated length => length.getD r.recvLength
    | .error _ => r.recvLength
  pc :=
    match r.receive bytes with
    | .block pc => pc
    | _ => .idle

end Reader

inductive Outcome where
  | endOfStream
  | errorReported (code : ErrorCode)
  | errorReportReceived
  | pastEnd
  | waiting
  deriving DecidableEq, Repr

def handlePduOutcome (pdu : Pdu) : Option Outcome :=
  match pdu.pduType with
  | .serialQuery => none
  | .resetQuery => none
  | .errorReport => some .errorReportReceived
  | _ => some (.errorReported ErrorCode.invalidRequest)

/--
A connection thread as far as it reads from its socket. `unread` has the bytes that the client will have
sent and the thread has not read; after them the client closes the connection or stays silent.
-/
structure Reading where
  unread : List UInt8
  closed : Bool
  reader : Reader
  accepted : List Pdu
  outcome : Option Outcome
  deriving DecidableEq

inductive ReadEvent where
  | wouldBlock
  | receive (n : Nat)
  | eof
  deriving DecidableEq, Repr

namespace Reading

def start (stream : List UInt8) (closed : Bool) : Reading where
  unread := stream
  closed := closed
  reader := .start
  accepted := []
  outcome := none

def received (s : Reading) (bytes unread : List UInt8) : Reading :=
  let s' := { s with unread := unread, reader := s.reader.after bytes }
  match s.reader.receive bytes with
  | .block _ => s'
  | .handle pdu => { s' with accepted := s.accepted ++ [pdu], outcome := handlePduOutcome pdu }
  | .sendError code _ => { s' with outcome := some (.errorReported code) }
  | .pastEnd => { s' with outcome := some .pastEnd }

def next (s : Reading) : ReadEvent → Option Reading
  | .wouldBlock =>
    if s.outcome = none ∧ s.reader.pc = .idle then
      some s
    else
      none
  | .receive n =>
    if s.outcome = none ∧ 0 < n ∧ (n : Int) ≤ s.reader.count ∧ n ≤ s.unread.length then
      some (s.received (s.unread.take n) (s.unread.drop n))
    else
      none
  | .eof =>
    if s.outcome = none ∧ s.unread = [] ∧ s.closed = true then
      some { s with outcome := some .endOfStream }
    else
      none

def lts (stream : List UInt8) (closed : Bool) : Lts Reading ReadEvent :=
  Lts.ofNext (start stream closed) next

def final (s : Reading) : Option Outcome :=
  if s.outcome = none ∧ s.unread = [] ∧ s.closed = false then
    some .waiting
  else
    s.outcome

end Reading
end Rpstir.Daemon
