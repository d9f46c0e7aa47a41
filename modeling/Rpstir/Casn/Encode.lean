import Rpstir.Casn.Basic
import Rpstir.Data.BubbleSort

/-!
This module contains the encoder of `casn.c`, with a pass for the size and one that writes. A buffer is
the list of its bytes from a pointer to its end; an access outside it, a null pointer and a lack of fuel
give `none`. Sizes are below 2^31.
-/

namespace Rpstir.Casn

inductive Mode where
  | size
  | read
  deriving DecidableEq, Repr

/--
The DER form of the contents of a time, that is `write_casn_time` of what `read_casn_time` reads.
-/
abbrev TimeToDer := Nat → List UInt8 → Option (List UInt8)

mutual

def chosenAlternative : Casn → Option Casn
  | .mk hdr members items =>
    if (Casn.mk hdr members items).isUntaggedChoice then
      -- the loop looks for a CHOSEN alternative of a choice with a DEFAULT
      if hdr.isDefault then none else firstAlternative members
    else
      some (.mk hdr members items)

def firstAlternative : List Casn → Option Casn
  | [] => none
  | m :: ms => if m.hdr.filled then chosenAlternative m else firstAlternative ms

end

def encodeTagLth (c : Casn) : Option (List UInt8 × Casn × Bool) :=
  if c.hdr.type = asnNotasn1 then
    some ([], c, false)
  else
    match chosenAlternative c with
    | none => none
    | some t =>
      let outer := tagBytes t.hdr.tag ++ [0]
      let isTagged := t.hdr.type = asnChoice && t.hdr.tag < asnChoice && !constructed t.hdr.tag
      if (t.hdr.explicit && t.hdr.type ≠ asnChoice) || isTagged then
        match if t.hdr.type = asnChoice then t.findFilled else some t with
        | none => none
        | some m =>
          let tag := if m.hdr.type = 0 then m.hdr.tag else m.hdr.type
          let inner := if m.hdr.type = asnNotasn1 then [] else tagBytes tag ++ [0]
          some (outer ++ inner, m, c.isUntaggedChoice || t.hdr.type = asnChoice)
      else
        some (outer, t, c.isUntaggedChoice)

def memcpy (mode : Mode) (buf bytes : List UInt8) : Option (List UInt8) :=
  match mode with
  | .size => some buf
  | .read =>
    if bytes.length ≤ buf.length then some (bytes ++ buf.drop bytes.length) else none

def writeAt (off : Nat) (f : List UInt8 → Option (Int × List UInt8)) (buf : List UInt8)
    : Option (Int × List UInt8) :=
  (f (buf.drop off)).map fun (i, rest) => (i, buf.take off ++ rest)

/--
Sets the length of the item at the start of the buffer, whose contents end at `e`, and moves the
contents to make room for it. The result is the number of additional bytes.
-/
def setCasnLth (mode : Mode) (s : List UInt8) (e : Int) : Option (Nat × List UInt8) :=
  match s with
  | [] => none
  | b :: rest =>
    -- behind the last byte of a tag of several bytes there is one step less
    let start := if b &&& 0x1f = 0x1f then (rest.takeWhile fun b => b &&& 0x80 ≠ 0).length + 2 else 2
    let lth := e - start
    let fwd := calcLthLth lth
    match mode with
    | .size => some (fwd, s)
    | .read =>
      if fwd = 0 then
        if start - 1 < s.length then some (0, s.set (start - 1) (UInt8.ofInt lth)) else none
      else
        let e := e.toNat
        if e + fwd ≤ s.length then
          let field := UInt8.ofNat (0x80 + fwd) :: Bytes.encode fwd lth.toNat
          some (fwd, s.take (start - 1) ++ field ++ (s.take e).drop start ++ s.drop (e + fwd))
        else
          none

def setAllLths (mode : Mode) : Nat → List UInt8 → Nat → Int → Option (Nat × List UInt8)
  | 0, _, _, _ => none
  | fuel + 1, top, tagEnd, valEnd =>
    match getTag top with
    | none => none
    | some (_, num) =>
      let c := num + 1
      if c < tagEnd then
        match setAllLths mode fuel (top.drop c) (tagEnd - c) (valEnd - c) with
        | none => none
        | some (lth, rest) =>
          match setCasnLth mode (top.take c ++ rest) (valEnd + lth) with
          | none => none
          | some (fwd, top) => some (lth + fwd, top)
      else
        setCasnLth mode top valEnd

def trimBits : List UInt8 → List UInt8
  | [] => []
  | _ :: bits =>
    let bits := (bits.reverse.dropWhile fun b => b = 0).reverse
    let unused := match bits.getLast? with
      | some b => ((List.range 8).takeWhile fun i => !b.toNat.testBit i).length
      | none => 0
    UInt8.ofNat unused :: bits

def derContents (timeToDer : TimeToDer) (c : Casn) : Option (List UInt8) :=
  if c.hdr.type = asnBitstring && c.hdr.enum then some (trimBits c.hdr.contents)
  else if c.hdr.type = asnUtctime || c.hdr.type = asnGentime then
    timeToDer c.hdr.type c.hdr.contents
  else some c.hdr.contents

def fixBoolean (mode : Mode) (c : Casn) (buf : List UInt8) : Option (List UInt8) :=
  if mode = .read && c.hdr.type = asnBoolean then
    match buf with
    | [] => none
    | b :: rest => some ((if b ≠ 0 then 0xff else b) :: rest)
  else
    some buf

def isPrimitive (c : Casn) : Bool :=
  (!constructed c.hdr.type && !constructed c.hdr.tag) || c.hdr.type = 0
    || (!constructed c.hdr.type && c.hdr.explicit)

def memcmp : List UInt8 → List UInt8 → Ordering
  | a :: as, b :: bs => if a < b then .lt else if b < a then .gt else memcmp as bs
  | _, _ => .eq

section Recursion

variable (encode : Mode → Casn → List UInt8 → Option (Int × List UInt8))

def readsize.loop (mode : Mode) : Int → List Casn → List UInt8 → Option (Int × List UInt8)
  | lth, [], buf => some (lth, buf)
  | lth, m :: ms, buf =>
    match encode mode m buf with
    | none => none
    | some (i, buf) =>
      if i < 0 then
        some (i - lth, buf)
      else
        writeAt i.toNat (readsize.loop mode (lth + i) ms) buf

def readsize.table : List Casn → Option (Except Int (List (List UInt8)))
  | [] => some (.ok [])
  | m :: ms =>
    match encode .size m [] with
    | none => none
    | some (lth, _) =>
      if lth < 0 then
        some (.error lth)
      else if lth = 0 then
        readsize.table ms
      else
        match encode .read m (List.replicate (lth.toNat + 1) 0) with
        | none => none
        | some (_, entry) => (readsize.table ms).map fun table => table.map (entry :: ·)

def readsize.set (ms : List Casn) (buf : List UInt8) : Option (Int × List UInt8) :=
  match readsize.table encode ms with
  | none => none
  | some (.error lth) => some (lth, buf)
  | some (.ok table) =>
    match BubbleSort.bubbleSort (fun a b => memcmp a b = .gt) (table.length * table.length) table with
    | none => none
    | some table =>
      let bytes := table.flatMap List.dropLast
      (memcpy .read buf bytes).map fun buf => (bytes.length, buf)

def readsize.item (timeToDer : TimeToDer) (mode : Mode) (c : Casn) (buf : List UInt8)
    : Option (Int × List UInt8) :=
  if c.isPrimitive then
    match c.derContents timeToDer with
    | none => some (-1, buf)
    | some bytes =>
      match memcpy mode buf bytes with
      | none => none
      | some buf => (fixBoolean mode c buf).map fun buf => (bytes.length, buf)
  else if c.hdr.type = asnSet && mode = .read then
    readsize.set encode (if c.hdr.isOf then c.items else c.members) buf
  else if c.hdr.isOf then
    readsize.loop encode mode 0 c.items buf
  else if asnChoice ≤ c.hdr.type then
    match if c.hdr.type = asnChoice && c.hdr.tag < asnChoice then c.findFilled else some c with
    | none => some (-1, buf)
    | some m => encode mode m buf
  else
    match c.members with
    | [] => none
    | m :: ms => readsize.loop encode mode 0 (m :: ms) buf

def readsize (timeToDer : TimeToDer) (mode : Mode) (c : Casn) (buf : List UInt8)
    : Option (Int × List UInt8) :=
  let lth := c.checkFilled (mode = .read)
  if lth ≤ 0 then
    some (lth, buf)
  else
    match if c.hdr.type = asnChoice && !constructed c.hdr.tag then c.findFilled else some c with
    | none => some (-1, buf)
    | some c => readsize.item encode timeToDer mode c buf

end Recursion

def checkDefault (c : Casn) : Option Int :=
  if !c.hdr.isDefault then
    none
  else if c.hdr.type = asnBoolean then
    let isZero := decide (c.hdr.contents.headD 0 = 0)
    let bits := c.hdr.min.toNat
    if bits.testBit 1 && isZero != !bits.testBit 2 then some (-1)
    else if isZero == !bits.testBit 0 then some 0
    else none
  else if !c.hdr.enum then
    some (-1)
  else
    match c.members.find? fun m => m.hdr.isDefault with
    | none => some (-1)
    | some m => if m.hdr.contents = c.hdr.contents then some 0 else none

def encodesize (timeToDer : TimeToDer) : Nat → Mode → Casn → List UInt8 → Option (Int × List UInt8)
  | 0, _, _, _ => none
  | fuel + 1, mode, c, buf =>
    let lth := c.checkFilled true
    if lth ≤ 0 then
      some (lth, buf)
    else
      match c.checkDefault with
      | some lth => some (lth, buf)
      | none =>
        match encodeTagLth c with
        | none => some (-1, buf)
        | some (tags, t, moved) =>
          match memcpy mode buf tags with
          | none => none
          | some buf =>
            let isChoice := moved && t.hdr.type = asnChoice && t.hdr.explicit
            let contents :=
              if isChoice then
                match t.findFilled with
                | none => none
                | some m => writeAt tags.length (encodesize timeToDer fuel mode m) buf
              else
                writeAt tags.length (readsize (encodesize timeToDer fuel) timeToDer mode t) buf
            match contents with
            | none => none
            | some (i, buf) =>
              if i < 0 && !isChoice then
                some (i - tags.length, buf)
              else if tags = [] then
                some (i, buf)
              else
                let top := match mode with
                  | .size => tags
                  | .read => buf
                match setAllLths mode tags.length top tags.length (tags.length + i) with
                | none => none
                | some (fwd, top) =>
                  let buf := match mode with
                    | .size => buf
                    | .read => top
                  some (tags.length + i + fwd, buf)

def sizeCasn (timeToDer : TimeToDer) (fuel : Nat) (c : Casn) : Option Int :=
  let ansr := c.checkFilled false
  if ansr ≤ 0 then some ansr else (encodesize timeToDer fuel .size c []).map (·.1)

def encodeCasn (timeToDer : TimeToDer) (fuel : Nat) (c : Casn) (buf : List UInt8)
    : Option (Int × List UInt8) :=
  let ansr := c.checkFilled false
  if ansr ≤ 0 then some (ansr, buf) else encodesize timeToDer fuel .read c buf

end Rpstir.Casn
