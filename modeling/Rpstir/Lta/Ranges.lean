import Mathlib.Data.List.Basic
import Mathlib.Data.Nat.Bitwise

/-!
This module contains the ranges of the local trust anchor tool, and their expansion and perforation by
rules (`rpwork.c`). Pointers into a list are indices. A result `none` is a run that leaves the array or
that `internal_error` ends.
-/

namespace Rpstir.Lta

inductive Typ where
  | ipv4
  | ipv6
  | asnum
  | terminator
  deriving DecidableEq, Repr

def Typ.toNat : Typ → Nat
  | ipv4 => 4
  | ipv6 => 6
  | asnum => 8
  | terminator => 0

abbrev Lim := BitVec 128

namespace Lim

def lead (lth : Nat) (lim : Lim) : Nat :=
  lim.toNat / 2 ^ (8 * (16 - lth))

def setLead (lth : Nat) (lim : Lim) (val : Nat) : Lim :=
  BitVec.ofNat 128 (val % 2 ^ (8 * lth) * 2 ^ (8 * (16 - lth)) + lim.toNat % 2 ^ (8 * (16 - lth)))

def memcpy (lth : Nat) (dst src : Lim) : Lim :=
  dst.setLead lth (src.lead lth)

end Lim

-- the bytes that are zero become 255 up to the last one that is not
def decrementIprange (lth : Nat) (lim : Lim) : Lim :=
  lim.setLead lth (lim.lead lth + (2 ^ (8 * lth) - 1))

def incrementIprange (lth : Nat) (lim : Lim) : Lim :=
  lim.setLead lth (lim.lead lth + 1)

structure IpRange where
  typ : Typ
  lolim : Lim
  hilim : Lim
  deriving DecidableEq, Repr

def nextRange (ranges : List IpRange) (i : Nat) : Option Nat :=
  match ranges[i]?, ranges[i + 1]? with
  | some r, some r' => if r'.typ = r.typ then some (i + 1) else none
  | _, _ => none

def ejectRange (ranges : List IpRange) (num : Nat) : Option (List IpRange × Option Nat) :=
  match ranges[num]? with
  | none => none
  | some r =>
    match ranges.eraseIdx num with
    | [] => some ([], none)
    | r₀ :: rest =>
      match (r₀ :: rest)[num]? with
      | none => none
      | some r' => some (r₀ :: rest, if r'.typ = r.typ then some num else none)

def injectRange (ranges : List IpRange) (num : Nat) (r : IpRange) : Option (List IpRange) :=
  if num ≤ ranges.length then some (ranges.insertIdx num r) else none

def touches (lop hip : IpRange) (lth : Nat) : Ordering :=
  compare ((incrementIprange lth lop.hilim).lead lth) (hip.lolim.lead lth)

def typLth (typ : Typ) : Nat :=
  if typ = .ipv6 then 16 else 4

def perforate.go (rules : List IpRange) (lth : Nat)
    : Nat → List IpRange → Option Nat → Option Nat → Nat → Option (List IpRange × Nat)
  | fuel + 1, certs, some i, some j, did =>
    match certs[i]?, rules[j]? with
    | some c, some r =>
      if c.hilim.lead lth < r.lolim.lead lth then
        perforate.go rules lth fuel certs (nextRange certs i) (some j) did
      else if r.hilim.lead lth < c.lolim.lead lth then
        perforate.go rules lth fuel certs (some i) (nextRange rules j) did
      else if c.lolim.lead lth < r.lolim.lead lth then
        if c.hilim.lead lth ≤ r.hilim.lead lth then
          let hilim := decrementIprange lth (Lim.memcpy lth c.hilim r.lolim)
          let certs := certs.set i { c with hilim := hilim }
          perforate.go rules lth fuel certs (nextRange certs i) (some j) (did + 1)
        else
          let hilim := decrementIprange lth (Lim.memcpy lth 0 r.lolim)
          let lolim := incrementIprange lth (Lim.memcpy lth c.lolim r.hilim)
          let certs := certs.set i { c with lolim := lolim }
          match injectRange certs i ⟨c.typ, Lim.memcpy lth 0 c.lolim, hilim⟩ with
          | none => none
          | some certs =>
            perforate.go rules lth fuel certs (some (i + 1)) (nextRange rules j) (did + 1)
      else if c.hilim.lead lth ≤ r.hilim.lead lth then
        match ejectRange certs i with
        | none => none
        | some (certs, i) => perforate.go rules lth fuel certs i (some j) (did + 1)
      else
        let lolim := incrementIprange lth (Lim.memcpy lth c.lolim r.hilim)
        let certs := certs.set i { c with lolim := lolim }
        perforate.go rules lth fuel certs (some i) (nextRange rules j) (did + 1)
    | _, _ => none
  | _ + 1, certs, _, _, did => some (certs, did)
  | 0, _, _, _, _ => none

def perforate (fuel : Nat) (rules : List IpRange) (numrulerange : Nat) (certs : List IpRange)
    (numcertrange : Nat) : Option (List IpRange × Nat) :=
  match certs[numcertrange]? with
  | none => none
  | some c =>
    perforate.go rules (typLth c.typ) fuel certs (some numcertrange) (some numrulerange) 0

/--
The local variables of `expand`: the current range of the certificate, the place where the next range
is injected (one behind `lastcert`), and the number of changes.
-/
structure Expansion where
  certs : List IpRange
  cert : Option Nat
  inject : Nat
  did : Nat

def expand.low (rules : List IpRange) (lth j : Nat) (r : IpRange) (e : Expansion)
    : Option (Expansion × Option Nat × Bool) :=
  let inject : Option (Expansion × Option Nat × Bool) :=
    match injectRange e.certs e.inject ⟨r.typ, Lim.memcpy lth 0 r.lolim, Lim.memcpy lth 0 r.hilim⟩ with
    | none => none
    | some certs =>
      some (⟨certs, some e.inject, e.inject + 1, e.did + 1⟩, nextRange rules j, false)
  match e.cert with
  | none => inject
  | some i =>
    match e.certs[i]? with
    | none => none
    | some c =>
      match touches r c lth with
      | .lt => inject
      | .eq =>
        let certs := e.certs.set i { c with lolim := Lim.memcpy lth c.lolim r.lolim }
        let rule := if r.hilim.lead lth ≤ c.hilim.lead lth then nextRange rules j else some j
        some ({ e with certs := certs, did := e.did + 1 }, rule, false)
      | .gt =>
        if touches c r lth = .lt then
          some ({ e with cert := nextRange e.certs i, inject := i + 1 }, some j, true)
        else
          let moved : Bool := decide (r.lolim.lead lth < c.lolim.lead lth)
          let c' := if moved then { c with lolim := Lim.memcpy lth c.lolim r.lolim } else c
          let did := if moved then e.did + 1 else e.did
          if c.hilim.lead lth < r.hilim.lead lth then
            let certs := e.certs.set i { c' with hilim := Lim.memcpy lth c.hilim r.hilim }
            some ({ e with certs := certs, did := did + 1 }, nextRange rules j, false)
          else
            some ({ e with certs := e.certs.set i c', did := did }, some j, false)

def expand.high (rules : List IpRange) (lth j : Nat) (r : IpRange) (e : Expansion)
    : Option (Expansion × Option Nat) :=
  match e.cert with
  | none => none
  | some i =>
    match e.certs[i]? with
    | none => none
    | some c =>
      if r.hilim.lead lth ≤ c.hilim.lead lth then
        some ({ e with did := e.did + 1 }, nextRange rules j)
      else if touches c r lth ≠ .lt then
        let certs := e.certs.set i { c with hilim := Lim.memcpy lth c.hilim r.hilim }
        some ({ e with certs := certs, cert := nextRange certs i, inject := i + 1 }, nextRange rules j)
      else
        some ({ e with cert := nextRange e.certs i, inject := i + 1 }, some j)

def expand.go (rules : List IpRange) (lth : Nat)
    : Nat → Expansion → Option Nat → Option (List IpRange × Nat)
  | fuel + 1, e, some j =>
    match rules[j]? with
    | none => none
    | some r =>
      match expand.low rules lth j r e with
      | none => none
      | some (e, rule, true) => expand.go rules lth fuel e rule
      | some (e, none, false) => some (e.certs, e.did)
      | some (e, some j, false) =>
        match rules[j]? with
        | none => none
        | some r =>
          match expand.high rules lth j r e with
          | none => none
          | some (e, rule) => expand.go rules lth fuel e rule
  | _ + 1, e, none => some (e.certs, e.did)
  | 0, _, _ => none

/--
The expansion where `RESOURCE_NOUNION` is not set; `modify_paracert` does not expand where it is.
-/
def expand (fuel : Nat) (rules : List IpRange) (numrulerange : Nat) (certs : List IpRange)
    (numcertrange : Nat) : Option (List IpRange × Nat) :=
  match rules[numrulerange]? with
  | none => none
  | some r =>
    expand.go rules (typLth r.typ) fuel ⟨certs, some numcertrange, numcertrange, 0⟩
      (some numrulerange)

def runThroughTyplist (run fuel : Nat) (rules : List IpRange) (numrulerange : Nat)
    (certs : List IpRange) (numcertrange : Nat) : Option (List IpRange × Nat) :=
  if run = 0 then
    expand fuel rules numrulerange certs numcertrange
  else
    perforate fuel rules numrulerange certs numcertrange

def modifyTyp (run fuel : Nat) (rules : List IpRange) (numrulerange : Nat) (typ : Typ)
    (certs : List IpRange) : Option (List IpRange × Nat) :=
  match rules[numrulerange]? with
  | none => none
  | some r =>
    let numcertrange :=
      (certs.takeWhile fun c => c.typ ≠ .terminator && decide (c.typ.toNat < typ.toNat)).length
    if r.typ = typ then
      runThroughTyplist run fuel rules numrulerange certs numcertrange
    else
      some (certs, 0)

def skipTyp (rules : List IpRange) (numrulerange : Nat) (typ : Typ) : Nat :=
  numrulerange + ((rules.drop numrulerange).takeWhile fun r => r.typ = typ).length

def modifyRanges (run fuel : Nat) (rules certs : List IpRange) : Option (List IpRange × Nat) :=
  let num6 := skipTyp rules 0 .ipv4
  let numAs := skipTyp rules num6 .ipv6
  match modifyTyp run fuel rules 0 .ipv4 certs with
  | none => none
  | some (certs, changes4) =>
    match modifyTyp run fuel rules num6 .ipv6 certs with
    | none => none
    | some (certs, changes6) =>
      match modifyTyp run fuel rules numAs .asnum certs with
      | none => none
      | some (certs, changesAs) => some (certs, changes4 + changes6 + changesAs)

end Rpstir.Lta
