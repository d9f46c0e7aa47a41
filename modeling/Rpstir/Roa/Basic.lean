import Rpstir.Casn.Encode

/-!
This module contains the test of `roa_validate.c` that the address blocks of a ROA are within its EE
certificate. A certificate has at most one extension with address blocks.
-/

namespace Rpstir.Roa

structure AddressBits where
  unused : Nat
  bytes : List UInt8
  unused_le : unused ≤ 7
  length_pos : 0 < bytes.length
  length_le : bytes.length ≤ 16

inductive AddressOrRange where
  | addressPrefix (address : AddressBits)
  | addressRange (min max : AddressBits)

inductive IPAddressChoice where
  | inherit
  | addressesOrRanges (ranges : List AddressOrRange)

structure IPAddressFamily where
  addressFamily : List UInt8
  ipAddressChoice : IPAddressChoice

structure ROAIPAddressFamily where
  addressFamily : List UInt8
  addresses : List AddressBits
  nonempty : addresses ≠ []

structure ROAIPAddrBlocks where
  families : List ROAIPAddressFamily
  nonempty : families ≠ []

inductive Err where
  | noipext
  | roaipmismatch
  deriving DecidableEq, Repr

structure CertRange where
  lo : FixedBytes 18
  hi : FixedBytes 18

def limit (fill : UInt8) (address : AddressBits) (f : Nat → Nat) : FixedBytes 18 :=
  ⟨(address.bytes ++ List.replicate (18 - address.bytes.length) fill).modify (address.bytes.length - 1)
      fun b => UInt8.ofNat (f b.toNat),
    by
      have hle := address.length_le
      simp
      omega⟩

def setuprange (lo hi : AddressBits) : CertRange where
  lo := limit 0x00 lo fun b => b &&& (0xff <<< lo.unused)
  hi := limit 0xff hi fun b => b ||| (0xff >>> (8 - hi.unused))

def AddressOrRange.certrange : AddressOrRange → CertRange
  | addressPrefix address => setuprange address address
  | addressRange min max => setuprange min max

def IPAddressChoice.isInherit : IPAddressChoice → Bool
  | inherit => true
  | addressesOrRanges _ => false

def IPAddressChoice.ranges : IPAddressChoice → List AddressOrRange
  | inherit => []
  | addressesOrRanges ranges => ranges

def certrangecmp (range1 range2 : CertRange) : Ordering :=
  match Casn.memcmp range1.lo.val range2.lo.val with
  | .eq => Casn.memcmp range1.hi.val range2.hi.val
  | ret => ret

def certrangeContains (range1 range2 : CertRange) : Bool :=
  Casn.memcmp range2.lo.val range1.lo.val ≠ .lt && Casn.memcmp range2.hi.val range1.hi.val ≠ .gt

def certrangeBefore (range1 range2 : CertRange) : Bool :=
  Casn.memcmp range1.hi.val range2.lo.val = .lt

structure Qsort where
  sort : List CertRange → List CertRange
  perm (ranges : List CertRange) : (sort ranges).Perm ranges
  sorted (ranges : List CertRange) : (sort ranges).Pairwise fun r r' => certrangecmp r r' ≠ .gt

/--
The loops over the sorted ranges of the ROA and the ranges of the certificate, both from where they have
got. Each round takes the next range of the certificate.
-/
def matchRanges : List CertRange → List CertRange → Bool
  | _, [] => true
  | [], _ :: _ => false
  | c :: certs, r :: roas =>
    if certrangeContains c r then
      matchRanges certs ((r :: roas).dropWhile (certrangeContains c))
    else if certrangeBefore r c then
      false
    else
      matchRanges certs (r :: roas)

def matchAddresses (q : Qsort) (roaFamily : ROAIPAddressFamily) (ranges : List AddressOrRange) : Bool :=
  let roaRanges := q.sort (roaFamily.addresses.map fun address => setuprange address address)
  matchRanges (ranges.map AddressOrRange.certrange) roaRanges

def matchFamily (q : Qsort) (roaFamily : ROAIPAddressFamily)
    : List IPAddressFamily → Bool → Except Err Unit
  | [], matchedCertFamily => if matchedCertFamily then .ok () else .error .roaipmismatch
  | certFamily :: certFamilies, matchedCertFamily =>
    if certFamily.addressFamily ≠ roaFamily.addressFamily then
      matchFamily q roaFamily certFamilies matchedCertFamily
    else if matchAddresses q roaFamily certFamily.ipAddressChoice.ranges then
      matchFamily q roaFamily certFamilies true
    else
      .error .roaipmismatch

def matchFamilies (q : Qsort) (certFamilies : List IPAddressFamily)
    : List ROAIPAddressFamily → Except Err Unit
  | [] => .ok ()
  | roaFamily :: roaFamilies =>
    match matchFamily q roaFamily certFamilies false with
    | .ok () => matchFamilies q certFamilies roaFamilies
    | .error err => .error err

def checkIPAddrs (q : Qsort) (certIpAddrBlock : Option (List IPAddressFamily))
    (roaIPAddrBlocks : ROAIPAddrBlocks) : Except Err Unit :=
  match certIpAddrBlock with
  | none => .error .noipext
  | some certFamilies =>
    if certFamilies.any fun certFamily => certFamily.ipAddressChoice.isInherit then
      .error .roaipmismatch
    else
      matchFamilies q certFamilies roaIPAddrBlocks.families

end Rpstir.Roa
