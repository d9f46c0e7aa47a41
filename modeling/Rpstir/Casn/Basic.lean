import Rpstir.Data.Bytes

/-!
This module contains the objects of the library `casn` as trees, and its functions on tags and lengths.
Left out are items DEFINED BY others, pointers to items that are not constructed yet, and real numbers.
-/

namespace Rpstir
namespace Casn

def asnBoolean : Nat := 1
def asnInteger : Nat := 2
def asnBitstring : Nat := 3
def asnUtctime : Nat := 0x17
def asnGentime : Nat := 0x18
def asnSequence : Nat := 0x30
def asnSet : Nat := 0x31
def asnChoice : Nat := 0x120
def asnNone : Nat := 0x101
def asnNotasn1 : Nat := 0x103

def constructed (type : Nat) : Bool :=
  type.testBit 5

/--
The fields of a `struct casn`, with the flags one by one. The contents are those of a primitive item, and
`min` has the bits for the default of a BOOLEAN.
-/
structure Hdr where
  type : Nat
  tag : Nat
  filled : Bool
  optional : Bool
  isOf : Bool
  isDefault : Bool
  explicit : Bool
  enum : Bool
  min : Int
  contents : List UInt8
  deriving DecidableEq, Repr

end Casn

/--
The members are the structures one level below: the members of a SEQUENCE or SET, the alternatives of a
CHOICE, the one blank member of a SEQUENCE OF or SET OF, or the named values of an enumerated item. The
items are what has been injected into a SEQUENCE OF or SET OF.
-/
inductive Casn where
  | mk (hdr : Casn.Hdr) (members items : List Casn)

namespace Casn

def hdr : Casn → Hdr
  | mk hdr _ _ => hdr

def members : Casn → List Casn
  | mk _ members _ => members

def items : Casn → List Casn
  | mk _ _ items => items

def tagBytes.go : Nat → Nat → List UInt8
  | 0, _ => []
  | fuel + 1, tag => if tag = 0 then [] else UInt8.ofNat tag :: tagBytes.go fuel (tag / 256)

def tagBytes (tag : Nat) : List UInt8 :=
  tagBytes.go 8 tag

def getTag.more : List UInt8 → Nat → Nat → Nat → Option (Nat × Nat)
  | [], _, _, _ => none
  | b :: rest, shift, ansr, num =>
    let ansr := ansr ||| b.toNat <<< shift
    if b &&& 0x80 ≠ 0 then
      getTag.more rest (shift + 8) ansr (num + 1)
    else
      some (ansr, num + 1)

def getTag : List UInt8 → Option (Nat × Nat)
  | [] => none
  | b :: rest => if b &&& 0x1f = 0x1f then getTag.more rest 8 b.toNat 1 else some (b.toNat, 1)

def numBytes.go : Nat → Nat → Nat
  | 0, _ => 0
  | fuel + 1, lth => if lth = 0 then 0 else numBytes.go fuel (lth / 256) + 1

def calcLthLth (lth : Int) : Nat :=
  if lth < 128 then 0 else numBytes.go 4 lth.toNat

def isUntaggedChoice (c : Casn) : Bool :=
  c.hdr.type = asnChoice && c.hdr.tag = asnChoice && !c.hdr.explicit

def findFilled (c : Casn) : Option Casn :=
  c.members.find? fun m => m.hdr.filled

def checkFilled (c : Casn) (read : Bool) : Int :=
  if c.hdr.filled then 1
  else if !(c.hdr.isDefault || c.hdr.optional) && c.hdr.type ≠ asnNone && read then -1
  else 0

end Casn
end Rpstir
