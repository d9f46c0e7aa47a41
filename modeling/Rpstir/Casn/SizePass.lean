import Rpstir.Casn.Encode

/-!
This module contains the agreement of the two passes of the encoder, unless the encoding ends with a
BOOLEAN that has no contents.
-/

namespace Rpstir.Casn

open List Option

inductive IsId : List UInt8 → Prop where
  | short {b : UInt8} (h : b &&& 0x1f ≠ 0x1f) : IsId [b]
  | long {b last : UInt8} {more : List UInt8} (h : b &&& 0x1f = 0x1f)
      (hmore : ∀ m ∈ more, m &&& 0x80 ≠ 0) (hlast : last &&& 0x80 = 0) : IsId (b :: more ++ [last])

inductive IsTags : List UInt8 → Prop where
  | one {id : List UInt8} (h : IsId id) : IsTags (id ++ [0])
  | cons {id tags : List UInt8} (h : IsId id) (htags : IsTags tags) : IsTags (id ++ 0 :: tags)

def lthEnd : List UInt8 → Nat
  | [] => 2
  | b :: rest =>
    if b &&& 0x1f = 0x1f then (rest.takeWhile fun b => b &&& 0x80 ≠ 0).length + 2 else 2

variable {tags id more s rest pre : List UInt8} {fuel : Nat} {moved st b : Bool} {t m : Casn}

theorem getTag_more {last : UInt8} (hmore : ∀ m ∈ more, m &&& 0x80 ≠ 0) (hlast : last &&& 0x80 = 0)
    (rest : List UInt8) (shift ansr num : Nat)
    : ∃ tag, getTag.more (more ++ last :: rest) shift ansr num = some (tag, num + more.length + 1) := by
  induction more generalizing shift ansr num with
  | nil => exact ⟨_, by simp [getTag.more, hlast]; rfl⟩
  | cons m more ih =>
    rw [forall_mem_cons] at hmore
    obtain ⟨tag, htag⟩ := ih hmore.2 (shift + 8) (ansr ||| m.toNat <<< shift) (num + 1)
    refine ⟨tag, ?_⟩
    simp only [cons_append, getTag.more, if_pos hmore.1, htag, length_cons]
    congr 2
    omega

theorem getTag_id (h : IsId id) (rest : List UInt8)
    : ∃ tag, getTag (id ++ rest) = some (tag, id.length) := by
  cases h with
  | short h => exact ⟨_, by simp [getTag, h]; rfl⟩
  | @long b _ _ h hmore hlast =>
    obtain ⟨tag, htag⟩ := getTag_more hmore hlast rest 8 b.toNat 1
    refine ⟨tag, ?_⟩
    simp only [cons_append, append_assoc, nil_append, getTag, h, if_true, htag,
      length_cons, length_append, length_nil]
    congr 2
    omega

theorem lthEnd_id (h : IsId id) (rest rest' : List UInt8)
    : lthEnd (id ++ 0 :: rest) = lthEnd (id ++ 0 :: rest') ∧ 2 ≤ lthEnd (id ++ 0 :: rest)
      ∧ lthEnd (id ++ 0 :: rest) ≤ id.length + 1 := by
  cases h with
  | short h => simp [lthEnd, h]
  | @long b last more h hmore hlast =>
    have htake (rest : List UInt8)
        : (more ++ last :: rest).takeWhile (fun b => b &&& 0x80 ≠ 0) = more := by
      rw [takeWhile_append_of_pos (by simpa using hmore)]
      simp [hlast]
    simp only [lthEnd, cons_append, append_assoc, nil_append, h, if_true, htake]
    simp

theorem setCasnLth_eq (hs : s ≠ []) (mode : Mode) (e : Int)
    : setCasnLth mode s e =
      let fwd := calcLthLth (e - lthEnd s)
      match mode with
      | .size => some (fwd, s)
      | .read =>
        if fwd = 0 then
          if lthEnd s - 1 < s.length then some (0, s.set (lthEnd s - 1) (UInt8.ofInt (e - lthEnd s)))
          else none
        else if e.toNat + fwd ≤ s.length then
          some (fwd, s.take (lthEnd s - 1)
            ++ UInt8.ofNat (0x80 + fwd) :: Bytes.encode fwd (e - lthEnd s).toNat
            ++ (s.take e.toNat).drop (lthEnd s) ++ s.drop (e.toNat + fwd))
        else none := by
  cases s with
  | nil => exact absurd rfl hs
  | cons =>
    cases mode with
    | size => rfl
    | read => simp [setCasnLth, lthEnd]

theorem calcLthLth_eq_zero {lth : Int} : calcLthLth lth = 0 ↔ lth < 128 := by
  unfold calcLthLth
  split
  . next h => simp [h]
  . next h =>
    have hne : lth.toNat ≠ 0 := by omega
    simp [numBytes.go, hne, h]

theorem setCasnLth_spec (h : IsId id) (hpre : ∃ rest, pre = id ++ 0 :: rest)
    : ∃ out, out.length = pre.length + calcLthLth (pre.length - lthEnd pre)
      ∧ ∀ rest, calcLthLth (pre.length - lthEnd pre) ≤ rest.length →
        setCasnLth .read (pre ++ rest) pre.length
          = some (calcLthLth (pre.length - lthEnd pre),
            out ++ rest.drop (calcLthLth (pre.length - lthEnd pre))) := by
  obtain ⟨body, rfl⟩ := hpre
  generalize hl : (id ++ 0 :: body).length = len
  have hend (rest : List UInt8) : lthEnd (id ++ 0 :: body ++ rest) = lthEnd (id ++ 0 :: body) := by
    rw [append_assoc, cons_append]
    exact (lthEnd_id h _ _).1
  obtain ⟨-, htwo, hle⟩ := lthEnd_id h body body
  have hlen : id.length + 1 ≤ len := by
    rw [← hl]
    simp
  generalize lthEnd (id ++ 0 :: body) = start at hend htwo hle
  generalize hfwd : calcLthLth ((len : Int) - start) = fwd
  have hne (rest : List UInt8) : id ++ 0 :: body ++ rest ≠ [] := by simp
  by_cases hzero : fwd = 0
  . subst hzero
    refine ⟨(id ++ 0 :: body).set (start - 1) (UInt8.ofInt (len - start)), by simp [hl], ?_⟩
    intro rest _
    rw [setCasnLth_eq (hne rest)]
    simp only [hend, hfwd, if_true]
    rw [if_pos (by rw [length_append]; omega), set_append_left _ _ (by omega), drop_zero]
  refine ⟨(id ++ 0 :: body).take (start - 1)
    ++ UInt8.ofNat (0x80 + fwd) :: Bytes.encode fwd ((len : Int) - start).toNat
    ++ (id ++ 0 :: body).drop start, ?_, ?_⟩
  . simp only [length_append, length_cons, Bytes.length_encode, length_take,
      length_drop] at hl ⊢
    omega
  intro rest _
  rw [setCasnLth_eq (hne rest)]
  simp only [hend, hfwd, if_neg hzero, Int.toNat_natCast]
  have htake : (id ++ 0 :: body ++ rest).take len = id ++ 0 :: body := by
    rw [← hl, take_left]
  have hdrop : (id ++ 0 :: body ++ rest).drop (len + fwd) = rest.drop fwd := by
    rw [← hl, ← drop_drop, drop_left]
  rw [if_pos (by rw [length_append, hl]; omega), htake, hdrop,
    take_append_of_le_length (by omega)]

theorem setAllLths_one (h : IsId id) (mode : Mode) (rest : List UInt8) (valEnd : Int)
    : setAllLths mode (fuel + 1) (id ++ 0 :: rest) (id ++ [0]).length valEnd
      = setCasnLth mode (id ++ 0 :: rest) valEnd := by
  obtain ⟨tag, htag⟩ := getTag_id h (0 :: rest)
  simp [setAllLths, htag]

theorem setAllLths_cons (h : IsId id) (htags : tags ≠ []) (mode : Mode) (rest : List UInt8) (valEnd : Int)
    : setAllLths mode (fuel + 1) (id ++ 0 :: rest) (id ++ 0 :: tags).length valEnd
      = (setAllLths mode fuel rest tags.length (valEnd - (id.length + 1))).bind fun found =>
        (setCasnLth mode (id ++ 0 :: found.2) (valEnd + found.1)).map fun (fwd, top) => (found.1 + fwd, top) := by
  obtain ⟨tag, htag⟩ := getTag_id h (0 :: rest)
  have hpos := length_pos_of_ne_nil htags
  have htop : id ++ 0 :: rest = (id ++ [0]) ++ rest := by simp
  have hc : id.length + 1 = (id ++ [0]).length := by simp
  have htagEnd : (id ++ 0 :: tags).length - (id.length + 1) = tags.length := by
    simp only [length_append, length_cons]
    omega
  simp only [setAllLths, htag]
  rw [if_pos (by simp; omega), htagEnd, htop, hc, drop_left, take_left, ← hc]
  push_cast
  cases setAllLths mode fuel rest tags.length (valEnd - (id.length + 1)) with
  | none => rfl
  | some found =>
    simp only [append_assoc, singleton_append, bind_some]
    cases setCasnLth mode (id ++ 0 :: found.2) (valEnd + found.1) <;> rfl

theorem IsTags.ne_nil (h : IsTags tags) : tags ≠ [] := by
  cases h <;> simp

theorem setAllLths_spec (h : IsTags tags) (bytes : List UInt8) (hfuel : tags.length ≤ fuel)
    : ∃ fwd out, out.length = tags.length + bytes.length + fwd
      ∧ (fwd = 0 ↔ tags.length + bytes.length + fwd < 128 + lthEnd tags)
      ∧ setAllLths .size fuel tags tags.length (tags.length + bytes.length) = some (fwd, tags)
      ∧ ∀ rest, fwd ≤ rest.length →
        setAllLths .read fuel (tags ++ bytes ++ rest) tags.length (tags.length + bytes.length)
          = some (fwd, out ++ rest.drop fwd) := by
  induction h generalizing fuel with
  | @one id hid =>
    cases fuel with
    | zero => simp at hfuel
    | succ =>
      obtain ⟨out, hout, hread⟩ := setCasnLth_spec hid ⟨bytes, rfl⟩
      have hlen : (id ++ 0 :: bytes).length = (id ++ [0]).length + bytes.length := by
        simp only [length_append, length_cons, length_nil]
        omega
      rw [(lthEnd_id hid _ []).1, hlen] at hout hread
      push_cast at hout hread
      have hzero := @calcLthLth_eq_zero ((id ++ [0]).length + bytes.length - lthEnd (id ++ [0]))
      generalize hfwd : calcLthLth _ = fwd at hout hread hzero
      refine ⟨fwd, out, hout, by omega, ?_, fun rest hrest => ?_⟩
      . rw [setAllLths_one hid, setCasnLth_eq (by simp)]
        simp only [hfwd]
      . rw [append_assoc, append_assoc, singleton_append, setAllLths_one hid, ← hread rest hrest]
        simp
  | @cons id tags hid htags ih =>
    cases fuel with
    | zero => simp at hfuel
    | succ fuel =>
      have hlen : (id ++ 0 :: tags).length = id.length + 1 + tags.length := by
        simp only [length_append, length_cons]
        omega
      obtain ⟨fwd1, out1, hout1, _, hsize1, hread1⟩ := @ih fuel (by omega)
      have hle := (lthEnd_id hid tags tags).2.2
      obtain ⟨out, hout, hread⟩ := setCasnLth_spec hid ⟨out1, rfl⟩
      have hlen1 : (id ++ 0 :: out1).length = (id ++ 0 :: tags).length + bytes.length + fwd1 := by
        simp only [length_append, length_cons, hout1]
        omega
      rw [(lthEnd_id hid _ tags).1, hlen1] at hout hread
      push_cast at hout hread
      have hzero := @calcLthLth_eq_zero
        ((id ++ 0 :: tags).length + bytes.length + fwd1 - lthEnd (id ++ 0 :: tags))
      generalize hfwd : calcLthLth _ = fwd2 at hout hread hzero
      have hvalEnd : ((id ++ 0 :: tags).length : Int) + bytes.length - (id.length + 1)
          = tags.length + bytes.length := by
        omega
      refine ⟨fwd1 + fwd2, out, by omega, by omega, ?_, fun rest hrest => ?_⟩
      . rw [setAllLths_cons hid htags.ne_nil, hvalEnd, hsize1, bind_some, setCasnLth_eq (by simp)]
        simp only [hfwd, map_some]
      . have hsplit : id ++ 0 :: tags ++ bytes ++ rest = id ++ 0 :: (tags ++ bytes ++ rest) := by simp
        have hjoin : id ++ 0 :: (out1 ++ rest.drop fwd1) = id ++ 0 :: out1 ++ rest.drop fwd1 := by simp
        rw [hsplit, setAllLths_cons hid htags.ne_nil, hvalEnd, hread1 rest (by omega), bind_some, hjoin,
          hread (rest.drop fwd1) (by rw [length_drop]; omega), map_some, drop_drop]

def smear : Bool → List UInt8 → Option (List UInt8)
  | false, rest => some rest
  | true, [] => none
  | true, b :: rest => some ((if b ≠ 0 then 0xff else b) :: rest)

theorem smear_false (rest : List UInt8) : smear false rest = some rest := by
  rfl

theorem smear_zero (st : Bool) : smear st [0] = some [0] := by
  cases st <;> rfl

theorem smear_drop {rest' : List UInt8} (h : smear st rest = some rest')
    : rest'.length = rest.length ∧ ∀ n, 0 < n → rest'.drop n = rest.drop n := by
  cases st with
  | false =>
    cases h
    exact ⟨rfl, fun _ _ => rfl⟩
  | true =>
    cases rest with
    | nil => cases h
    | cons =>
      cases h
      refine ⟨rfl, ?_⟩
      intro n _
      cases n with
      | zero => omega
      | succ => rfl

theorem eq_nil_of_smear (h : smear st rest = none) : rest = [] := by
  cases st <;> cases rest <;> first | rfl | cases h

def encodesNothing (c : Casn) : Bool :=
  !c.hdr.filled || c.checkDefault.isSome

section Bare

variable (bare : Casn → Bool)

def bareAfter (st : Bool) (ms : List Casn) : Bool :=
  ms.foldl (fun st m => if m.encodesNothing then st else bare m) st

theorem bareAfter_cons (st : Bool) (m : Casn) (ms : List Casn)
    : bareAfter bare st (m :: ms) = bareAfter bare (if m.encodesNothing then st else bare m) ms := by
  rfl

def bareItem (c : Casn) : Bool :=
  if c.isPrimitive then c.hdr.type = asnBoolean && c.hdr.contents.isEmpty
  else if c.hdr.type = asnSet then false
  else if c.hdr.isOf then bareAfter bare false c.items
  else if asnChoice ≤ c.hdr.type then
    match if c.hdr.type = asnChoice && c.hdr.tag < asnChoice then c.findFilled else some c with
    | none => false
    | some m => bare m
  else bareAfter bare false c.members

def bareContents (c : Casn) : Bool :=
  match if c.hdr.type = asnChoice && !constructed c.hdr.tag then c.findFilled else some c with
  | none => false
  | some c => bareItem bare c

end Bare

variable {p : Casn → Prop}

/--
The encoding ends with a BOOLEAN without contents that is not below a SET, and no item around it has a
length of several bytes.
-/
def endsBare (timeToDer : TimeToDer) : Nat → Casn → Bool
  | 0, _ => false
  | fuel + 1, c =>
    if c.encodesNothing then
      false
    else
      match encodeTagLth c with
      | none => false
      | some (tags, t, moved) =>
        let st :=
          if moved && t.hdr.type = asnChoice && t.hdr.explicit then
            match t.findFilled with
            | none => false
            | some m => endsBare timeToDer fuel m
          else
            bareContents (endsBare timeToDer fuel) t
        match encodesize timeToDer (fuel + 1) .size c [] with
        | none => false
        | some (n, _) => st && n < 128 + lthEnd tags

structure Tagged (c : Casn) : Prop where
  isAsn1 : c.hdr.type ≠ asnNotasn1
  tag : c.isUntaggedChoice = true ∨ IsId (tagBytes c.hdr.tag)
  type : c.hdr.type = 0 ∨ c.hdr.type = asnChoice ∨ IsId (tagBytes c.hdr.type)
  alternative : c.hdr.type = asnChoice → constructed c.hdr.tag = false →
    ∀ m ∈ c.members, m.hdr.type ≠ asnChoice

def completeContents (timeToDer : TimeToDer) (complete : Casn → Bool) (c : Casn) : Bool :=
  match if c.hdr.type = asnChoice && !constructed c.hdr.tag then c.findFilled else some c with
  | none => false
  | some c =>
    if c.isPrimitive then (c.derContents timeToDer).isSome
    else if c.hdr.isOf then c.items.all complete
    else if asnChoice ≤ c.hdr.type then
      match if c.hdr.type = asnChoice && c.hdr.tag < asnChoice then c.findFilled else some c with
      | none => false
      | some m => complete m
    else c.members.all complete

def complete (timeToDer : TimeToDer) : Nat → Casn → Bool
  | 0, _ => true
  | fuel + 1, c =>
    if c.checkFilled true ≤ 0 then
      c.checkFilled true = 0
    else
      match c.checkDefault with
      | some lth => lth = 0
      | none =>
        match encodeTagLth c with
        | none => false
        | some (_, t, moved) =>
          if moved && t.hdr.type = asnChoice && t.hdr.explicit then
            t.findFilled.all (complete timeToDer fuel)
          else
            completeContents timeToDer (complete timeToDer fuel) t

def AlternativeComplete (timeToDer : TimeToDer) (c : Casn) : Prop :=
  c.hdr.type = asnChoice → c.hdr.explicit = true → ∀ m, c.findFilled = some m →
    ∀ fuel, complete timeToDer fuel m = true

/--
The property holds of every item that can be encoded. The members of a primitive item are its named
values, which are not.
-/
inductive All (p : Casn → Prop) : Casn → Prop where
  | mk {c : Casn} (self : p c) (members : c.isPrimitive = false → ∀ m ∈ c.members, All p m)
      (items : ∀ m ∈ c.items, All p m) : All p c

def Encodable (timeToDer : TimeToDer) (c : Casn) : Prop :=
  c.hdr.filled = true → c.Tagged ∧ c.AlternativeComplete timeToDer

def Agrees (encode : Mode → Casn → List UInt8 → Option (Int × List UInt8)) (bare : Bool) (c : Casn)
    : Prop :=
  ∀ n buf, encode .size c [] = some (n, buf) → 0 ≤ n →
    ∃ bytes : List UInt8, (bytes.length : Int) = n
      ∧ (c.encodesNothing = true → bytes = []) ∧ (c.encodesNothing = false → bytes ≠ [])
      ∧ ∀ buf, bytes.length ≤ buf.length →
        encode .read c buf = (smear bare (buf.drop bytes.length)).map fun rest => (n, bytes ++ rest)

theorem All.self {c : Casn} (h : c.All p) : p c := by
  cases h with
  | mk hself => exact hself

theorem All.of_mem_members {c : Casn} (h : c.All p) (hprim : c.isPrimitive = false) (hm : m ∈ c.members)
    : m.All p := by
  cases h with
  | mk _ hmembers => exact hmembers hprim m hm

theorem isPrimitive_choice {c : Casn} (h : c.hdr.type = asnChoice) : c.isPrimitive = false := by
  rw [isPrimitive, h]
  rfl

theorem All.of_mem_items {c : Casn} (h : c.All p) (hm : m ∈ c.items) : m.All p := by
  cases h with
  | mk _ _ hitems => exact hitems m hm

theorem findFilled_some {c : Casn} (h : c.findFilled = some m) : m ∈ c.members ∧ m.hdr.filled = true :=
  ⟨mem_of_find?_eq_some h, by simpa using find?_some h⟩

theorem writeAt_append {bytes : List UInt8} (f : List UInt8 → Option (Int × List UInt8))
    (rest : List UInt8)
    : writeAt bytes.length f (bytes ++ rest) = (f rest).map fun (i, rest) => (i, bytes ++ rest) := by
  rw [writeAt, drop_left, take_left]

theorem all_of_choice {c : Casn} (hc : c.All p)
    (hm : (if c.hdr.type = asnChoice && b then c.findFilled else some c) = some m) : m.All p := by
  split at hm
  . next hchoice =>
    simp only [Bool.and_eq_true, decide_eq_true_eq] at hchoice
    exact hc.of_mem_members (isPrimitive_choice hchoice.1) (findFilled_some hm).1
  . cases hm
    exact hc

def Writes (write : List UInt8 → Option (Int × List UInt8)) (n : Int) (st : Bool) : Prop :=
  ∃ bytes : List UInt8, (bytes.length : Int) = n ∧ ∀ buf, bytes.length ≤ buf.length →
    write buf = (smear st (buf.drop bytes.length)).map fun rest => (n, bytes ++ rest)

theorem memcmp_swap (a b : List UInt8) : memcmp b a = (memcmp a b).swap := by
  induction a generalizing b with
  | nil => cases b <;> rfl
  | cons x a ih =>
    cases b with
    | nil => rfl
    | cons y b =>
      simp only [memcmp]
      by_cases hlt : x < y
      . rw [if_neg (UInt8.lt_asymm hlt), if_pos hlt, if_pos hlt]
        rfl
      by_cases hgt : y < x
      . rw [if_pos hgt, if_neg hlt, if_pos hgt]
        rfl
      . rw [if_neg hgt, if_neg hlt, if_neg hlt, if_neg hgt]
        exact ih b

section Loops

variable {encode : Mode → Casn → List UInt8 → Option (Int × List UInt8)} {bare : Casn → Bool}

variable {buf : List UInt8} {timeToDer : TimeToDer} {ms : List Casn} {lth n : Int}

variable (hbuf : ∀ {c buf i buf'}, encode .size c buf = some (i, buf') → buf' = buf)

include hbuf

theorem loop_size_cons (h : readsize.loop encode .size lth (m :: ms) [] = some (n, buf))
    (hlth : 0 ≤ lth) (hn : 0 ≤ n)
    : ∃ i buf, encode .size m [] = some (i, []) ∧ 0 ≤ i
      ∧ readsize.loop encode .size (lth + i) ms [] = some (n, buf) := by
  simp only [readsize.loop] at h
  split at h
  . cases h
  next i buf' hsize =>
  have hbuf' := hbuf hsize
  subst hbuf'
  split at h
  . cases h
    omega
  obtain ⟨⟨_, buf'⟩, hloop, hn'⟩ := map_eq_some_iff.mp h
  rw [drop_nil] at hloop
  cases hn'
  exact ⟨i, buf', hsize, by omega, hloop⟩

section

variable (hms : ∀ m ∈ ms, Agrees encode (bare m) m)

include hms

theorem loop_agrees (hbare : ∀ m : Casn, m.encodesNothing = true → bare m = false)
    (h : readsize.loop encode .size lth ms [] = some (n, buf)) (hlth : 0 ≤ lth) (hn : 0 ≤ n)
    : ∃ bytes : List UInt8, lth + bytes.length = n
      ∧ (bytes = [] → ∀ st, bareAfter bare st ms = st)
      ∧ ∀ st rest rest', smear st rest = some rest' → bytes.length ≤ rest.length →
        readsize.loop encode .read lth ms rest'
          = (smear (bareAfter bare st ms) (rest.drop bytes.length)).map
            fun rest => (n, bytes ++ rest) := by
  induction ms generalizing lth buf with
  | nil =>
    cases h
    refine ⟨[], by simp, fun _ _ => rfl, ?_⟩
    intro st rest rest' hst _
    simp [readsize.loop, bareAfter, hst]
  | cons m ms ih =>
    rw [forall_mem_cons] at hms
    obtain ⟨i, buf, hsize, hpos, hloop⟩ := loop_size_cons hbuf h hlth hn
    obtain ⟨bytes1, hlen1, hnothing, hsome, hread1⟩ := hms.1 i [] hsize hpos
    obtain ⟨bytes2, _, hempty, hread2⟩ := ih hms.2 hloop (by omega)
    have hi : i.toNat = bytes1.length := by omega
    refine ⟨bytes1 ++ bytes2, by rw [length_append]; omega, ?_, ?_⟩
    . intro hnil st
      rw [append_eq_nil_iff] at hnil
      have hskip : m.encodesNothing = true := by
        by_contra hne
        exact hsome (by simpa using hne) hnil.1
      rw [bareAfter_cons, if_pos hskip, hempty hnil.2]
    intro st rest rest' hst hlen
    rw [length_append] at hlen
    obtain ⟨_, hdrop⟩ := smear_drop hst
    have hread : encode .read m rest'
        = (smear (if m.encodesNothing then st else bare m) (rest.drop bytes1.length)).map
          fun rest => (i, bytes1 ++ rest) := by
      rw [hread1 rest' (by omega)]
      cases hskip : m.encodesNothing with
      | true =>
        obtain rfl := hnothing hskip
        simp [hbare m hskip, smear_false, hst]
      | false =>
        rw [hdrop _ (length_pos_of_ne_nil (hsome hskip))]
        simp
    simp only [readsize.loop, hread, bareAfter_cons]
    cases hsmear : smear (if m.encodesNothing then st else bare m) (rest.drop bytes1.length) with
    | none =>
      -- nothing is behind the member, so the others are empty
      have hle : rest.length ≤ bytes1.length := drop_eq_nil_iff.mp (eq_nil_of_smear hsmear)
      obtain rfl : bytes2 = [] := eq_nil_of_length_eq_zero (by omega)
      rw [hempty rfl, append_nil, hsmear]
      rfl
    | some rest1 =>
      simp only [map_some]
      rw [if_neg (by omega), hi, writeAt_append, hread2 _ _ rest1 hsmear (by rw [length_drop]; omega),
        Option.map_map, drop_drop, length_append]
      congr 1
      funext rest
      simp

theorem table_agrees (h : readsize.loop encode .size lth ms [] = some (n, buf)) (hlth : 0 ≤ lth)
    (hn : 0 ≤ n)
    : ∃ table, readsize.table encode ms = some (.ok table)
      ∧ lth + (table.flatMap dropLast).length = n := by
  induction ms generalizing lth buf with
  | nil =>
    cases h
    exact ⟨[], rfl, by simp⟩
  | cons _ ms ih =>
    rw [forall_mem_cons] at hms
    obtain ⟨i, buf, hsize, hpos, hloop⟩ := loop_size_cons hbuf h hlth hn
    obtain ⟨bytes, _, -, -, hread⟩ := hms.1 i [] hsize hpos
    obtain ⟨table, htable, _⟩ := ih hms.2 hloop (by omega)
    simp only [readsize.table, hsize]
    rw [if_neg (by omega)]
    by_cases hzero : i = 0
    . rw [if_pos hzero]
      exact ⟨table, htable, by omega⟩
    have hi : i.toNat = bytes.length := by omega
    have hzeros : List.drop bytes.length (replicate (bytes.length + 1) (0 : UInt8)) = [0] := by
      rw [drop_replicate, Nat.add_sub_cancel_left]
      rfl
    rw [if_neg hzero, hi, hread _ (by simp), hzeros, smear_zero, htable]
    refine ⟨(bytes ++ [0]) :: table, rfl, ?_⟩
    rw [flatMap_cons, dropLast_concat, length_append]
    omega

theorem set_agrees (h : readsize.loop encode .size 0 ms [] = some (n, buf)) (hn : 0 ≤ n)
    : Writes (readsize.set encode ms) n false := by
  obtain ⟨table, htable, _⟩ := table_agrees hbuf hms h (Int.le_refl 0) hn
  have hasymm (a b : List UInt8) (hgt : decide (memcmp a b = .gt) = true)
      : decide (memcmp b a = .gt) = false := by
    rw [decide_eq_true_eq] at hgt
    rw [memcmp_swap, hgt]
    rfl
  obtain ⟨sorted, hsort, hperm⟩ := BubbleSort.bubbleSort_perm hasymm (BubbleSort.inversions_le _ table)
  have hlen : (sorted.flatMap dropLast).length = (table.flatMap dropLast).length :=
    (hperm.flatMap_right _).length_eq
  refine ⟨sorted.flatMap dropLast, by omega, ?_⟩
  intro buf hle
  simp only [readsize.set, htable, hsort, memcpy, if_pos hle, map_some, smear_false]
  simp only [some.injEq, Prod.mk.injEq, and_true]
  omega

end

omit hbuf in
theorem primitive_agrees {c : Casn} (hprim : c.isPrimitive = true)
    (h : readsize.item encode timeToDer .size c [] = some (n, buf)) (hn : 0 ≤ n)
    : Writes (readsize.item encode timeToDer .read c) n (bareItem bare c) := by
  unfold readsize.item at h
  unfold Writes readsize.item bareItem
  simp only [hprim, if_true] at h ⊢
  split at h
  . cases h
    omega
  next contents hcontents =>
  cases h
  by_cases hbool : c.hdr.type = asnBoolean
  . have heq : contents = c.hdr.contents := by
      simp only [derContents, hbool] at hcontents
      exact (some.inj hcontents).symm
    subst heq
    cases hbytes : c.hdr.contents with
    | nil =>
      refine ⟨[], rfl, ?_⟩
      intro buf _
      cases buf <;> simp [memcpy, fixBoolean, hbool, smear]
    | cons b bytes =>
      refine ⟨(if b ≠ 0 then 0xff else b) :: bytes, rfl, ?_⟩
      intro buf hle
      rw [length_cons] at hle
      simp [memcpy, fixBoolean, hbool, smear, hle]
  . refine ⟨contents, rfl, ?_⟩
    intro buf hle
    simp [memcpy, fixBoolean, hbool, smear, hle]

variable (hih : ∀ m : Casn, m.All (Encodable timeToDer) → Agrees encode (bare m) m)
  (hbare : ∀ m : Casn, m.encodesNothing = true → bare m = false)

include hih hbare

theorem item_agrees {c : Casn} (hc : c.All (Encodable timeToDer))
    (h : readsize.item encode timeToDer .size c [] = some (n, buf)) (hn : 0 ≤ n)
    : Writes (readsize.item encode timeToDer .read c) n (bareItem bare c) := by
  cases hprim : c.isPrimitive with
  | true => exact primitive_agrees hprim h hn
  | false =>
    have hmembers : ∀ m ∈ c.members, Agrees encode (bare m) m := fun m hm =>
      hih m (hc.of_mem_members hprim hm)
    have hitems : ∀ m ∈ c.items, Agrees encode (bare m) m := fun m hm => hih m (hc.of_mem_items hm)
    have hloop {ms : List Casn} (hms : ∀ m ∈ ms, Agrees encode (bare m) m)
        (h : readsize.loop encode .size 0 ms [] = some (n, buf))
        : Writes (readsize.loop encode .read 0 ms) n (bareAfter bare false ms) := by
      obtain ⟨bytes, hlen, -, hread⟩ := loop_agrees hbuf hms hbare h (Int.le_refl 0) hn
      exact ⟨bytes, by omega, fun buf => hread false buf buf rfl⟩
    unfold readsize.item at h
    unfold readsize.item bareItem
    simp only [hprim, Bool.false_eq_true, if_false, reduceCtorEq, decide_false, Bool.and_false,
      decide_true, Bool.and_true, decide_eq_true_eq] at h ⊢
    by_cases hset : c.hdr.type = asnSet
    . have hnot : ¬asnChoice ≤ c.hdr.type := by
        rw [hset]
        decide
      simp only [hset, if_true]
      rw [if_neg hnot] at h
      by_cases hof : c.hdr.isOf = true
      . rw [if_pos hof] at h
        simp only [hof, if_true]
        exact set_agrees hbuf hitems h hn
      rw [if_neg hof] at h
      simp only [hof, Bool.false_eq_true, if_false]
      split at h
      . cases h
      . next m ms hms =>
        rw [← hms] at h
        exact set_agrees hbuf hmembers h hn
    simp only [hset, if_false]
    by_cases hof : c.hdr.isOf = true
    . simp only [hof, if_true] at h ⊢
      exact hloop hitems h
    simp only [hof, Bool.false_eq_true, if_false] at h ⊢
    by_cases hchoice : asnChoice ≤ c.hdr.type
    . simp only [hchoice, if_true] at h ⊢
      cases hm : (if c.hdr.type = asnChoice && c.hdr.tag < asnChoice then c.findFilled else some c) with
      | none =>
        rw [hm] at h
        cases h
        omega
      | some m =>
        rw [hm] at h
        obtain ⟨bytes, hlen, -, -, hread⟩ := hih m (all_of_choice hc hm) n buf h hn
        exact ⟨bytes, hlen, hread⟩
    simp only [hchoice, if_false] at h ⊢
    split at h
    . cases h
    . next m ms hms =>
      rw [← hms] at h ⊢
      exact hloop hmembers h

theorem readsize_agrees {c : Casn} (hc : c.All (Encodable timeToDer)) (hfilled : c.hdr.filled = true)
    (h : readsize encode timeToDer .size c [] = some (n, buf)) (hn : 0 ≤ n)
    : Writes (readsize encode timeToDer .read c) n (bareContents bare c) := by
  have hcheck (read : Bool) : ¬c.checkFilled read ≤ 0 := by simp [checkFilled, hfilled]
  unfold readsize at h
  unfold readsize bareContents
  simp only [hcheck, if_false] at h ⊢
  cases hm : (if c.hdr.type = asnChoice && !constructed c.hdr.tag then c.findFilled else some c) with
  | none =>
    rw [hm] at h
    cases h
    omega
  | some m =>
    rw [hm] at h
    exact item_agrees hbuf hih hbare (all_of_choice hc hm) h hn

end Loops

mutual

theorem chosenAlternative_spec {p : Casn → Prop} {c : Casn} (h : chosenAlternative c = some t)
    (hc : c.All p) (hfilled : c.hdr.filled = true)
    : t.All p ∧ t.hdr.filled = true ∧ t.isUntaggedChoice = false := by
  match c with
  | .mk hdr members items =>
    simp only [chosenAlternative] at h
    split at h
    . next huntagged =>
      split at h
      . cases h
      . have hchoice : hdr.type = asnChoice := by
          simp only [isUntaggedChoice, Bool.and_eq_true, decide_eq_true_eq] at huntagged
          exact huntagged.1.1
        exact firstAlternative_spec h fun m hm => hc.of_mem_members (isPrimitive_choice hchoice) hm
    . next hnot =>
      cases h
      exact ⟨hc, hfilled, by simpa using hnot⟩

theorem firstAlternative_spec {p : Casn → Prop} {ms : List Casn} (h : firstAlternative ms = some t)
    (hms : ∀ m ∈ ms, m.All p) : t.All p ∧ t.hdr.filled = true ∧ t.isUntaggedChoice = false := by
  match ms with
  | [] => cases h
  | m :: ms =>
    rw [forall_mem_cons] at hms
    simp only [firstAlternative] at h
    split at h
    . next hfilled => exact chosenAlternative_spec h hms.1 hfilled
    . exact firstAlternative_spec h hms.2

end

theorem encodeTagLth_spec {timeToDer : TimeToDer} {c : Casn}
    (h : encodeTagLth c = some (tags, t, moved)) (hc : c.All (Encodable timeToDer))
    (hfilled : c.hdr.filled = true)
    : IsTags tags ∧ t.All (Encodable timeToDer) ∧ t.hdr.filled = true := by
  unfold encodeTagLth at h
  rw [if_neg (hc.self hfilled).1.isAsn1] at h
  split at h
  . cases h
  next u hu =>
  obtain ⟨hall, hufilled, huntagged⟩ := chosenAlternative_spec hu hc hfilled
  have hid : IsId (tagBytes u.hdr.tag) := by
    rcases (hall.self hufilled).1.tag with hchoice | hid
    . rw [huntagged] at hchoice
      cases hchoice
    . exact hid
  dsimp only at h
  split at h
  . next hinner =>
    split at h
    . cases h
    next m hm =>
    -- the inner tag is the type of the item, or the tag of an ANY
    have hmall : m.All (Encodable timeToDer) ∧ m.hdr.filled = true ∧ m.hdr.type ≠ asnChoice := by
      split at hm
      . next htype =>
        obtain ⟨hmem, hmfilled⟩ := findFilled_some hm
        have hprim : constructed u.hdr.tag = false := by
          simp only [htype, ne_eq, not_true_eq_false, decide_false, Bool.and_false, decide_true,
            Bool.true_and, Bool.false_or, Bool.and_eq_true, Bool.not_eq_true'] at hinner
          exact hinner.2
        exact ⟨hall.of_mem_members (isPrimitive_choice htype) hmem, hmfilled, (hall.self hufilled).1.alternative htype hprim m hmem⟩
      . next htype =>
        cases hm
        exact ⟨hall, hufilled, htype⟩
    obtain ⟨hmall, hmfilled, hmtype⟩ := hmall
    have hmid : IsId (tagBytes (if m.hdr.type = 0 then m.hdr.tag else m.hdr.type)) := by
      split
      . rcases (hmall.self hmfilled).1.tag with hchoice | hid
        . simp [isUntaggedChoice, hmtype] at hchoice
        . exact hid
      next hzero =>
      rcases (hmall.self hmfilled).1.type with h | h | h
      . exact absurd h hzero
      . exact absurd h hmtype
      . exact h
    rw [if_neg (hmall.self hmfilled).1.isAsn1] at h
    cases h
    refine ⟨?_, hmall, hmfilled⟩
    rw [append_assoc, singleton_append]
    exact .cons hid (.one hmid)
  . cases h
    exact ⟨.one hid, hall, hufilled⟩

section Passes

variable {timeToDer : TimeToDer}

variable {buf buf' : List UInt8} {c : Casn}

def encodeContents (timeToDer : TimeToDer) (fuel : Nat) (moved : Bool) (mode : Mode) (t : Casn)
    (buf : List UInt8) : Option (Int × List UInt8) :=
  if moved && t.hdr.type = asnChoice && t.hdr.explicit then
    t.findFilled.bind fun m => encodesize timeToDer fuel mode m buf
  else
    readsize (encodesize timeToDer fuel) timeToDer mode t buf

def endsBareContents (timeToDer : TimeToDer) (fuel : Nat) (moved : Bool) (t : Casn) : Bool :=
  if moved && t.hdr.type = asnChoice && t.hdr.explicit then
    match t.findFilled with
    | none => false
    | some m => endsBare timeToDer fuel m
  else
    bareContents (endsBare timeToDer fuel) t

theorem checkDefault_le {lth : Int} (h : c.checkDefault = some lth) : lth ≤ 0 := by
  unfold checkDefault at h
  grind

theorem filled_of_checkFilled (hcheck : ¬c.checkFilled true ≤ 0) : c.hdr.filled = true := by
  by_contra hne
  apply hcheck
  simp only [checkFilled, if_neg hne]
  split <;> omega

theorem encodesize_nothing (h : c.encodesNothing = true) (fuel : Nat)
    : ∃ lth ≤ 0, ∀ mode buf, encodesize timeToDer (fuel + 1) mode c buf = some (lth, buf) := by
  by_cases hcheck : c.checkFilled true ≤ 0
  . exact ⟨_, hcheck, fun mode buf => by simp only [encodesize, if_pos hcheck]⟩
  have hdefault : c.checkDefault.isSome = true := by
    simpa [encodesNothing, filled_of_checkFilled hcheck] using h
  obtain ⟨lth, hlth⟩ := isSome_iff_exists.mp hdefault
  exact ⟨lth, checkDefault_le hlth, fun mode buf => by simp only [encodesize, if_neg hcheck, hlth]⟩

theorem endsBare_nothing (h : c.encodesNothing = true) (fuel : Nat)
    : endsBare timeToDer fuel c = false := by
  cases fuel with
  | zero => rfl
  | succ => simp [endsBare, h]

theorem encodesize_something (h : c.encodesNothing = false) (fuel : Nat) (mode : Mode)
    (buf : List UInt8)
    : encodesize timeToDer (fuel + 1) mode c buf
      = match encodeTagLth c with
        | none => some (-1, buf)
        | some (tags, t, moved) =>
          match (memcpy mode buf tags).bind
              (writeAt tags.length (encodeContents timeToDer fuel moved mode t)) with
          | none => none
          | some (i, buf) =>
            if i < 0 && !(moved && t.hdr.type = asnChoice && t.hdr.explicit) then
              some (i - tags.length, buf)
            else if tags = [] then
              some (i, buf)
            else
              let top := match mode with
                | .size => tags
                | .read => buf
              match setAllLths mode tags.length top tags.length (tags.length + i) with
              | none => none
              | some (fwd, top) =>
                let buf := match mode with
                  | .size => buf
                  | .read => top
                some (tags.length + i + fwd, buf) := by
  simp only [encodesNothing, Bool.or_eq_false_iff, Bool.not_eq_false', isSome_eq_false_iff,
    isNone_iff_eq_none] at h
  have hcheck : ¬c.checkFilled true ≤ 0 := by simp [checkFilled, h.1]
  simp only [encodesize, if_neg hcheck, h.2]
  cases encodeTagLth c with
  | none => rfl
  | some found =>
    obtain ⟨tags, t, moved⟩ := found
    have hcontents (buf : List UInt8)
        : writeAt tags.length (encodeContents timeToDer fuel moved mode t) buf
          = if moved && t.hdr.type = asnChoice && t.hdr.explicit then
              match t.findFilled with
              | none => none
              | some m => writeAt tags.length (encodesize timeToDer fuel mode m) buf
            else
              writeAt tags.length (readsize (encodesize timeToDer fuel) timeToDer mode t) buf := by
      simp only [writeAt, encodeContents]
      split
      . cases t.findFilled <;> rfl
      . rfl
    dsimp only
    cases memcpy mode buf tags with
    | none => rfl
    | some =>
      rw [bind_some]
      exact hcontents _ ▸ rfl

section SizeMode

variable {encode : Mode → Casn → List UInt8 → Option (Int × List UInt8)} {complete : Casn → Bool}
variable {i : Int}

variable (hencode : ∀ {c buf i buf'}, encode .size c buf = some (i, buf') →
  buf' = buf ∧ (complete c = true → 0 ≤ i))

include hencode

theorem loop_size {ms : List Casn} {lth : Int} (h : readsize.loop encode .size lth ms buf = some (i, buf'))
    : buf' = buf ∧ (0 ≤ lth → ms.all complete = true → 0 ≤ i) := by
  induction ms generalizing lth buf i buf' with
  | nil =>
    cases h
    exact ⟨rfl, fun hlth _ => hlth⟩
  | cons _ ms ih =>
    simp only [List.all_cons, Bool.and_eq_true]
    simp only [readsize.loop] at h
    split at h
    . cases h
    next hm =>
    obtain ⟨rfl, hpos⟩ := hencode hm
    split at h
    . next hneg =>
      cases h
      exact ⟨rfl, fun _ hms => absurd (hpos hms.1) (Int.not_le.mpr hneg)⟩
    next hneg =>
    obtain ⟨⟨_, _⟩, hrest, heq⟩ := map_eq_some_iff.mp h
    cases heq
    obtain ⟨rfl, hpos'⟩ := ih hrest
    exact ⟨take_append_drop _ _, fun hlth hms => hpos' (by omega) hms.2⟩

theorem readsize_size {c : Casn} (h : readsize encode timeToDer .size c buf = some (i, buf'))
    : buf' = buf ∧ (completeContents timeToDer complete c = true → 0 ≤ i) := by
  unfold readsize at h
  unfold completeContents
  dsimp only at h
  split at h
  . cases h
    refine ⟨rfl, fun _ => ?_⟩
    simp only [checkFilled, reduceCtorEq, decide_false, Bool.and_false, Bool.false_eq_true, if_false]
    split <;> omega
  cases hm : (if c.hdr.type = asnChoice && !constructed c.hdr.tag then c.findFilled else some c) with
  | none =>
    rw [hm] at h
    cases h
    exact ⟨rfl, nofun⟩
  | some c =>
  rw [hm] at h
  dsimp only at h ⊢
  unfold readsize.item at h
  split at h
  . next hprim =>
    rw [if_pos hprim]
    split at h
    . next hnone =>
      cases h
      simp [hnone]
    . simp only [memcpy, fixBoolean] at h
      cases h
      exact ⟨rfl, fun _ => Int.natCast_nonneg _⟩
  next hprim =>
  rw [if_neg hprim]
  simp only [reduceCtorEq, decide_false, Bool.and_false, Bool.false_eq_true, if_false] at h
  split at h
  . next hof =>
    rw [if_pos hof]
    exact (loop_size hencode h).imp_right fun hpos => hpos (Int.le_refl 0)
  next hof =>
  rw [if_neg hof]
  split at h
  . next hchoice =>
    rw [if_pos hchoice]
    cases hm : (if c.hdr.type = asnChoice && c.hdr.tag < asnChoice then c.findFilled else some c) with
    | none =>
      rw [hm] at h
      cases h
      exact ⟨rfl, nofun⟩
    | some =>
      rw [hm] at h
      exact hencode h
  next hchoice =>
  rw [if_neg hchoice]
  split at h
  . cases h
  . next hmembers =>
    rw [hmembers]
    exact (loop_size hencode h).imp_right fun hpos => hpos (Int.le_refl 0)

end SizeMode

theorem encodesize_size {i : Int} (h : encodesize timeToDer fuel .size c buf = some (i, buf'))
    : buf' = buf ∧ (complete timeToDer fuel c = true → 0 ≤ i) := by
  induction fuel generalizing c i buf buf' with
  | zero => cases h
  | succ fuel ih =>
    simp only [complete]
    by_cases hcheck : c.checkFilled true ≤ 0
    . simp only [encodesize, if_pos hcheck] at h ⊢
      cases h
      simp +contextual
    rw [if_neg hcheck]
    cases hdefault : c.checkDefault with
    | some =>
      simp only [encodesize, if_neg hcheck, hdefault] at h ⊢
      cases h
      simp +contextual
    | none =>
      have hskip : c.encodesNothing = false := by
        simp [encodesNothing, filled_of_checkFilled hcheck, hdefault]
      rw [encodesize_something hskip] at h
      split at h
      . next hnone =>
        cases h
        simp
      next tags t moved htag =>
      dsimp only
      simp only [memcpy, bind_some] at h
      split at h
      . cases h
      next j buf1 hwrite =>
      obtain ⟨⟨_, buf2⟩, hcontents, heq⟩ := map_eq_some_iff.mp hwrite
      cases heq
      have hpart : buf2 = buf.drop tags.length ∧
          ((if moved && t.hdr.type = asnChoice && t.hdr.explicit then
            t.findFilled.all (complete timeToDer fuel)
          else completeContents timeToDer (complete timeToDer fuel) t) = true → 0 ≤ j) := by
        unfold encodeContents at hcontents
        split at hcontents
        . next hchoice =>
          obtain ⟨_, hm, hm'⟩ := bind_eq_some_iff.mp hcontents
          rw [if_pos hchoice, hm]
          exact ih hm'
        . next hchoice =>
          rw [if_neg hchoice]
          exact readsize_size ih hcontents
      rw [hpart.1, take_append_drop] at h
      split at h
      . next hneg =>
        cases h
        refine ⟨rfl, fun hc => absurd (hpart.2 hc) ?_⟩
        simp only [Bool.and_eq_true, decide_eq_true_eq] at hneg
        omega
      split at h
      . cases h
        exact ⟨rfl, hpart.2⟩
      . split at h
        . cases h
        . cases h
          exact ⟨rfl, fun hc => by have := hpart.2 hc; omega⟩

theorem encodeContents_agrees (ht : t.All (Encodable timeToDer)) (hfilled : t.hdr.filled = true)
    (hih : ∀ c : Casn, c.All (Encodable timeToDer) →
      Agrees (encodesize timeToDer fuel) (endsBare timeToDer fuel c) c) {i : Int} {buf : List UInt8}
    (h : encodeContents timeToDer fuel moved .size t [] = some (i, buf))
    (hi : ¬(i < 0 && !(moved && t.hdr.type = asnChoice && t.hdr.explicit)) = true)
    : Writes (encodeContents timeToDer fuel moved .read t) i (endsBareContents timeToDer fuel moved t) := by
  unfold encodeContents at h
  unfold Writes encodeContents endsBareContents
  split at h
  . next hchoice =>
    obtain ⟨m, hm, hsize⟩ := bind_eq_some_iff.mp h
    simp only [Bool.and_eq_true, decide_eq_true_eq] at hchoice
    have hall : m.All (Encodable timeToDer) :=
      ht.of_mem_members (isPrimitive_choice hchoice.1.2) (findFilled_some hm).1
    have hpos : 0 ≤ i :=
      (encodesize_size hsize).2 ((ht.self hfilled).2 hchoice.1.2 hchoice.2 m hm fuel)
    obtain ⟨bytes, hlen, -, -, hread⟩ := hih m hall i buf hsize hpos
    refine ⟨bytes, hlen, ?_⟩
    intro buf hbuf
    simp only [hchoice, decide_true, Bool.and_self, if_true, hm, bind_some, hread buf hbuf]
  next hchoice =>
  have hpos : 0 ≤ i := by simpa [hchoice] using hi
  obtain ⟨bytes, hlen, hread⟩ := readsize_agrees (fun h => (encodesize_size h).1) hih
    (fun m hm => endsBare_nothing hm fuel) ht hfilled h hpos
  refine ⟨bytes, hlen, ?_⟩
  intro buf hbuf
  rw [if_neg (by simp [hchoice]), hread buf hbuf]
  simp only [hchoice, Bool.false_eq_true, if_false]

theorem encodesize_agrees (fuel : Nat) (hc : c.All (Encodable timeToDer))
    : Agrees (encodesize timeToDer fuel) (endsBare timeToDer fuel c) c := by
  induction fuel generalizing c with
  | zero =>
    intro n buf h
    cases h
  | succ fuel ih =>
    intro n buf h _
    cases hskip : c.encodesNothing with
    | true =>
      obtain ⟨_, _, hencode⟩ := @encodesize_nothing timeToDer c hskip fuel
      rw [hencode] at h
      cases h
      refine ⟨[], by simp; omega, fun _ => rfl, fun hne => absurd hne (by simp), ?_⟩
      intro buf _
      rw [hencode, endsBare_nothing hskip]
      simp [smear_false]
    | false =>
      have hsize := h
      rw [encodesize_something hskip] at h
      split at h
      . cases h
        omega
      next tags t moved htag =>
      have hcfilled : c.hdr.filled = true := by
        simp only [encodesNothing, Bool.or_eq_false_iff, Bool.not_eq_false'] at hskip
        exact hskip.1
      obtain ⟨htags, hall, hfilled⟩ := encodeTagLth_spec htag hc hcfilled
      have hne := htags.ne_nil
      split at h
      . cases h
      next hwrite =>
      obtain ⟨⟨_, _⟩, hcontents, heq⟩ := map_eq_some_iff.mp hwrite
      rw [drop_nil] at hcontents
      cases heq
      split at h
      . cases h
        simp only [Bool.and_eq_true, decide_eq_true_eq] at *
        omega
      next hi =>
      obtain ⟨bytes, hlen, hread⟩ := encodeContents_agrees hall hfilled (fun c hc => ih hc)
        hcontents hi
      subst hlen
      obtain ⟨fwd, out, hout, _, hlths, hrlths⟩ := setAllLths_spec htags bytes (Nat.le_refl _)
      simp only [hlths] at h
      cases h
      have hbare : endsBare timeToDer (fuel + 1) c
          = (endsBareContents timeToDer fuel moved t && decide (fwd = 0)) := by
        simp only [endsBare, hskip, htag, hsize, Bool.false_eq_true, if_false, endsBareContents]
        congr 1
        simp only [decide_eq_decide]
        omega
      refine ⟨out, by omega, fun hyes => absurd hyes (by simp), ?_, ?_⟩
      . intro _ hnil
        have hpos := length_pos_of_ne_nil hne
        rw [hnil, length_nil] at hout
        omega
      intro buf _
      rw [encodesize_something hskip, hbare]
      have hdrop : buf.drop out.length = ((buf.drop tags.length).drop bytes.length).drop fwd := by
        rw [drop_drop, drop_drop, hout, Nat.add_assoc]
      have hrest : fwd ≤ ((buf.drop tags.length).drop bytes.length).length := by
        simp only [length_drop]
        omega
      simp only [htag, memcpy]
      rw [if_pos (by omega), bind_some, writeAt_append,
        hread _ (by rw [length_drop]; omega), hdrop]
      generalize (buf.drop tags.length).drop bytes.length = rest at hrest
      cases hsmear : smear (endsBareContents timeToDer fuel moved t) rest with
      | none =>
        -- only the end of the buffer is in the way of the rewriting
        obtain rfl := eq_nil_of_smear hsmear
        have hzero : fwd = 0 := by simpa using hrest
        simp [hzero, hsmear]
      | some rest' =>
        obtain ⟨_, hdrop'⟩ := smear_drop hsmear
        have hlths' := hrlths rest' (by omega)
        simp only [map_some]
        rw [if_neg hi, if_neg hne, ← append_assoc]
        simp only [hlths']
        by_cases hzero : fwd = 0
        . subst hzero
          simp [hsmear]
        . simp [hzero, smear_false, hdrop' fwd (by omega)]

end Passes

/--
The second pass writes exactly the bytes that the first one counts, in every buffer that has room for
them, unless the encoding ends with a BOOLEAN without contents.
-/
theorem encodeCasn_writes_size {timeToDer : TimeToDer} {fuel : Nat} {c : Casn} {n : Int}
    (hc : c.All (Encodable timeToDer)) (h : sizeCasn timeToDer fuel c = some n) (hn : 0 ≤ n)
    : (∃ bytes : List UInt8, (bytes.length : Int) = n ∧ ∀ buf, bytes.length ≤ buf.length →
        encodeCasn timeToDer fuel c buf = some (n, bytes ++ buf.drop bytes.length))
      ↔ endsBare timeToDer fuel c = false := by
  unfold sizeCasn at h
  unfold encodeCasn
  dsimp only at h ⊢
  split at h
  . next hcheck =>
    -- nothing is encoded
    have hskip : c.encodesNothing = true := by
      by_contra hne
      simp only [encodesNothing, Bool.not_eq_true, Bool.or_eq_false_iff, Bool.not_eq_false'] at hne
      simp [checkFilled, hne.1] at hcheck
    cases h
    have hzero : c.checkFilled false = 0 := by omega
    refine iff_of_true ⟨[], by simp [hzero], ?_⟩ (endsBare_nothing hskip fuel)
    intro buf _
    rw [if_pos hcheck]
    rfl
  next hcheck =>
  obtain ⟨⟨n', buf'⟩, hsize, heq⟩ := map_eq_some_iff.mp h
  cases heq
  obtain ⟨bytes, hlen, -, -, hread⟩ := encodesize_agrees fuel hc n' buf' hsize hn
  simp only [if_neg hcheck]
  constructor
  . rintro ⟨_, _, hread'⟩
    -- a buffer of exactly the counted size
    have hexact := hread bytes (Nat.le_refl _)
    rw [hread' bytes (by omega)] at hexact
    cases hbare : endsBare timeToDer fuel c with
    | false => rfl
    | true =>
      rw [hbare] at hexact
      simp [smear] at hexact
  intro hbare
  refine ⟨bytes, hlen, ?_⟩
  intro buf hbuf
  rw [hread buf hbuf, hbare, smear_false]
  rfl

def plain (type : Nat) (enum : Bool) (contents : List UInt8) (members : List Casn) : Casn :=
  .mk { type := type, tag := type, filled := true, optional := false, isOf := false, isDefault := false,
        explicit := false, enum := enum, min := 0, contents := contents }
    members []

theorem plain_all {timeToDer : TimeToDer} {type : Nat} {enum : Bool} (contents : List UInt8)
    {members : List Casn} (htype : type < asnChoice) (hid : IsId (tagBytes type))
    (hmembers : constructed type = true → ∀ m ∈ members, m.All (Encodable timeToDer))
    (hasn1 : type ≠ asnNotasn1)
    : (plain type enum contents members).All (Encodable timeToDer) := by
  have hne : type ≠ asnChoice := Nat.ne_of_lt htype
  refine .mk (fun _ => ⟨⟨hasn1, .inr hid, .inr (.inr hid), fun h => absurd h hne⟩, fun h => absurd h hne⟩)
    (fun hprim => hmembers ?_) nofun
  by_contra hnot
  simp [isPrimitive, plain, hdr, hnot] at hprim

/--
A BOOLEAN and an enumerated INTEGER, whose named values are filled with ASN_NOTYPE for a tag.
-/
def sampleSequence : Casn :=
  plain asnSequence false []
    [plain asnBoolean false [7] [], plain asnInteger true [5] [plain 0x104 false [5] []]]

theorem encodeCasn_writes_size_sequence
    : ∃ bytes : List UInt8, (bytes.length : Int) = 8 ∧ ∀ buf, bytes.length ≤ buf.length →
      encodeCasn (fun _ _ => none) 2 sampleSequence buf = some (8, bytes ++ buf.drop bytes.length) := by
  have hall : sampleSequence.All (Encodable fun _ _ => none) := by
    refine plain_all [] (by decide) (.short (by decide)) (fun _ => ?_) (by decide)
    simp only [forall_mem_cons]
    exact ⟨plain_all [7] (by decide) (.short (by decide)) nofun (by decide),
      plain_all [5] (by decide) (.short (by decide)) nofun (by decide), nofun⟩
  exact (encodeCasn_writes_size hall (by decide +kernel) (by decide)).mpr (by decide +kernel)

theorem encodeCasn_changes_next_byte
    : sizeCasn (fun _ _ => none) 1 (plain asnBoolean false [] []) = some 2
      ∧ encodeCasn (fun _ _ => none) 1 (plain asnBoolean false [] []) [0, 0, 1]
        = some (2, [1, 0, 0xff]) := by
  decide +kernel

end Rpstir.Casn
