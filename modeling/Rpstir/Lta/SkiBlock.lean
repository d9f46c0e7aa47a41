import Rpstir.Data.Fold
import Rpstir.Lta.Text

/-!
This module contains the part of the constraints file that belongs to one SKI, and what is right about
the rules of a block that is accepted. The file is the list of its lines.
-/

namespace Rpstir.Lta

open List

open Scan txt2loc

namespace nextCmd

/--
The copy of a line to a buffer that has `room` characters left, with one blank for the white space
between words. The flag says that there was white space.
-/
def clean : Nat → Bool → List Char → Option (List Char)
  | _, _, [] => some ['\n']
  | room, blank, c :: ip =>
    if ¬isGraph c then
      clean room true ip
    else if blank then
      match room with
      | room + 2 => (clean room false ip).map (' ' :: c :: ·)
      | _ => none
    else
      match room with
      | room + 1 => (clean room false ip).map (c :: ·)
      | 0 => none

def ofLine (siz : Nat) (line : List Char) : Option (Option (List Char)) :=
  -- the buffer has twice the size of `SKIBUFSIZ`
  if 255 ≤ line.length ∨ ¬line.head?.any isGraph then some none
  else if line.head? = some ';' then none
  else some (clean (siz - 3) false line)

end nextCmd

def commands (siz : Nat) (file : List (List Char)) : List (Option (List Char)) :=
  file.filterMap (nextCmd.ofLine siz)

def nextword (cc : List Char) : List Char :=
  (cc.dropWhile isGraph).dropWhile isblank

structure SkiBlock where
  ruleranges : List IpRange
  skibuf : List Char
  rest : List (Option (List Char))
  deriving DecidableEq, Repr

namespace getIPBlock

def endsBlock (typ : Typ) (skibuf : List Char) : Bool :=
  match typ with
  | .ipv4 => skibuf.head? = some 'I'
  | .ipv6 => ['A', 'S'].isPrefixOf skibuf
  | .asnum => skibuf.head? = some 'S'
  | .terminator => false

def disorder (last : Option IpRange) (r : IpRange) : Option String :=
  match last with
  | none => none
  | some p =>
    if r.typ = p.typ then
      match touches p r (if r.typ = .ipv4 then 4 else 16) with
      | .lt => none
      | .eq => some "Ranges touch "
      | .gt => some "Ranges out of order "
    else
      none

end getIPBlock

open getIPBlock in
def getIPBlock (inet : Inet) (garbage : Nat) (errbuf : String) (typ : Typ)
    : List IpRange → List (Option (List Char)) → Except String SkiBlock
  | ruleranges, [] => .ok ⟨ruleranges, [], []⟩
  | _, none :: _ => .error errbuf
  | ruleranges, some skibuf :: cmds =>
    if ¬skibuf.head?.any isGraph then
      getIPBlock inet garbage errbuf typ ruleranges cmds
    else if endsBlock typ skibuf then
      .ok ⟨ruleranges, skibuf, cmds⟩
    else if (nextword skibuf).head?.any fun c => isGraph c && c ≠ '-' then
      .error errbuf
    else
      match txt2loc inet garbage typ skibuf with
      | none => .error errbuf
      | some r =>
        match disorder ruleranges.getLast? r with
        | some message => .error message
        | none => getIPBlock inet garbage errbuf typ (ruleranges ++ [r]) cmds

namespace getSKIBlock

def startIPv4 : List (Option (List Char)) → Except String (List (Option (List Char)))
  | none :: _ => .error "Invalid IPv4 "
  | [] => .error "Missing IPv4 "
  | some skibuf :: cmds => if skibuf = "IPv4\n".toList then .ok cmds else .error "Invalid IPv4 "

def require (cond : Bool) (message : String) : Except String Unit :=
  if cond then .ok () else .error message

def ofCommands (inet : Inet) (garbage : Nat) (errbuf : String) (cmds : List (Option (List Char)))
    : Except String SkiBlock := do
  let cmds ← startIPv4 cmds
  let b ← (getIPBlock inet garbage errbuf .ipv4 [] cmds).mapError fun message =>
    if message = "" then "Bad/disordered IPv4 group " else message
  require (b.skibuf = "IPv6\n".toList) "Missing/invalid IPv6 "
  let b ← (getIPBlock inet garbage errbuf .ipv6 b.ruleranges b.rest).mapError fun _ =>
    "Bad/disordered IPv6 group "
  require (b.skibuf = "AS#\n".toList) "Missing/invalid AS# "
  let b ← (getIPBlock inet garbage errbuf .asnum b.ruleranges b.rest).mapError fun _ =>
    "Bad/disordered AS# group "
  require (b.ruleranges ≠ []) "Empty SKI block "
  return b

end getSKIBlock

def getSKIBlock (inet : Inet) (garbage siz : Nat) (errbuf : String) (file : List (List Char))
    : Except String SkiBlock :=
  getSKIBlock.ofCommands inet garbage errbuf (commands siz file)

def readSection (typ : Typ) : List (Option (List Char)) → List (List Char) × List (Option (List Char))
  | some cmd :: cmds =>
    if ¬cmd.head?.any isGraph then
      readSection typ cmds
    else if getIPBlock.endsBlock typ cmd then
      ([], cmds)
    else
      (cmd :: (readSection typ cmds).1, (readSection typ cmds).2)
  | _ => ([], [])

def blockLines (cmds : List (Option (List Char))) (typ : Typ) : List (List Char) :=
  let v4 := readSection .ipv4 cmds.tail
  let v6 := readSection .ipv6 v4.2
  match typ with
  | .ipv4 => v4.1
  | .ipv6 => v6.1
  | .asnum => (readSection .asnum v6.2).1
  | .terminator => []

def Apart (p r : IpRange) : Prop :=
  r.typ = p.typ → touches p r (if r.typ = .ipv4 then 4 else 16) = .lt

variable {cmds : List (Option (List Char))} {line : List Char} {r : IpRange}

theorem getIPBlock.apart_of_disorder {last : Option IpRange} (h : disorder last r = none)
    : ∀ p ∈ last, Apart p r := by
  intro p hp htyp
  cases hp
  rw [disorder] at h
  rw [if_pos htyp] at h
  split at h
  . assumption
  . cases h
  . cases h

variable {b : SkiBlock}

section

variable {inet : Inet} {garbage : Nat} {errbuf : String} {typ : Typ}

theorem getIPBlock_ok {rules : List IpRange}
    (h : getIPBlock inet garbage errbuf typ rules cmds = .ok b)
    : ∃ rs, b.ruleranges = rules ++ rs ∧ b.rest = (readSection typ cmds).2 ∧
        List.Forall₂ (fun line r => txt2loc inet garbage typ line = some r) (readSection typ cmds).1 rs ∧
        (rules.IsChain Apart → b.ruleranges.IsChain Apart) := by
  fun_induction getIPBlock inet garbage errbuf typ rules cmds with
  | case1 =>
    cases h
    exact ⟨[], (append_nil _).symm, rfl, .nil, id⟩
  | case2
  | case5
  | case6
  | case7 => cases h
  | case3 rules skibuf cmds hgraph ih =>
    obtain ⟨rs, hrules, hrest, hlines, hchain⟩ := ih h
    rw [readSection, if_pos hgraph]
    exact ⟨rs, hrules, hrest, hlines, hchain⟩
  | case4 rules skibuf cmds hgraph hends =>
    cases h
    rw [readSection, if_neg hgraph, if_pos hends]
    exact ⟨[], (append_nil _).symm, rfl, .nil, id⟩
  | case8 rules skibuf cmds hgraph hends _ r hr hdisorder ih =>
    obtain ⟨rs, hrules, hrest, hlines, hchain⟩ := ih h
    rw [readSection, if_neg hgraph, if_neg hends]
    refine ⟨r :: rs, ?_, hrest, .cons hr hlines, ?_⟩
    . rw [hrules, append_assoc, singleton_append]
    intro hrules
    apply hchain
    apply hrules.append (.singleton r)
    intro p hp _ hr'
    cases hr'
    exact getIPBlock.apart_of_disorder hdisorder p hp

theorem Apart.lt {p : IpRange} {line' : List Char} (h : Apart p r)
    (hp : txt2loc inet garbage typ line = some p) (hr : txt2loc inet garbage typ line' = some r)
    (hmax : p.hilim.lead (typLth typ) + 1 < 2 ^ (8 * typLth typ))
    : p.hilim.lead (typLth typ) + 1 < r.lolim.lead (typLth typ) := by
  have hptyp := typ_of_txt2loc hp
  have hrtyp := typ_of_txt2loc hr
  have htouches := h (hrtyp.trans hptyp.symm)
  rw [hrtyp] at htouches
  cases typ with
  | ipv4
  | ipv6 => exact lt_of_touches (by decide) htouches hmax
  | asnum =>
    -- the test has all bytes, and those behind the number are 255 in the one and 0 in the other limit
    obtain ⟨-, hhi⟩ := toNat_of_txt2loc hp
    obtain ⟨hlo, -⟩ := toNat_of_txt2loc hr
    have hlead (lim : Lim) : lim.lead 16 = lim.toNat := Nat.div_one _
    have hmax' : p.hilim.lead 4 + 1 < 2 ^ 32 := hmax
    have hlt := lt_of_touches (Nat.le_refl 16) htouches
    rw [hlead, hlead, hhi, hlo] at hlt
    change p.hilim.lead 4 + 1 < r.lolim.lead 4
    omega
  | terminator => cases hp

end

def Fits (typ : Typ) (i : Span) : Prop :=
  i.lo ≤ i.hi ∧ i.hi < 2 ^ (8 * typLth typ)

structure Denoted (inet : Inet) (typ : Typ) (lines : List (List Char)) (ranges : List IpRange) : Prop where
  meaning_eq : lines.map (meaning inet typ) = ranges.map fun r => some (r.interval (typLth typ))
  separated : Span.Separated (ranges.map fun r => r.interval (typLth typ))
  fits : ∀ line ∈ lines, ∀ i, meaning inet typ line = some i → Fits typ i

structure WellWritten (inet : Inet) (typ : Typ) (lines : List (List Char)) : Prop where
  exists_meaning : ∀ line ∈ lines, ∃ i, meaning inet typ line = some i ∧ Fits typ i
  below : ∀ line ∈ lines.dropLast, ∀ i, meaning inet typ line = some i → i.hi + 1 < 2 ^ (8 * typLth typ)

section

variable {inet : Inet} {garbage : Nat} {typ : Typ} {lines : List (List Char)} {ranges : List IpRange}

theorem Denoted.wellWritten (h : Denoted inet typ lines ranges) : WellWritten inet typ lines where
  exists_meaning := by
    intro line hline
    have hmem : meaning inet typ line ∈ ranges.map fun r => some (r.interval (typLth typ)) := by
      rw [← h.meaning_eq]
      exact List.mem_map_of_mem hline
    obtain ⟨r, hr, heq⟩ := List.mem_map.mp hmem
    exact ⟨r.interval (typLth typ), heq.symm, h.fits line hline _ heq.symm⟩
  below := by
    intro line hline i hi
    have hmem : some i ∈ ranges.dropLast.map fun r => some (r.interval (typLth typ)) := by
      rw [map_dropLast, ← h.meaning_eq, ← map_dropLast, ← hi]
      exact List.mem_map_of_mem hline
    obtain ⟨r, hr, heq⟩ := List.mem_map.mp hmem
    cases heq
    -- the last range lies behind this one
    have hne : ranges ≠ [] := ne_nil_of_mem (mem_of_mem_dropLast hr)
    have hpairwise := h.separated.pairwise
    rw [← dropLast_append_getLast hne, map_append, pairwise_append] at hpairwise
    have hlast := hpairwise.2.2 _ (List.mem_map_of_mem hr) _ (List.mem_map_of_mem mem_cons_self)
    have hlt := Lim.lead_lt (typLth_le typ) (ranges.getLast hne).lolim
    exact Nat.lt_trans hlast hlt

theorem WellWritten.tail (h : WellWritten inet typ (line :: lines))
    : WellWritten inet typ lines where
  exists_meaning := fun line hline => h.exists_meaning line (mem_cons_of_mem _ hline)
  below := by
    intro line hline
    apply h.below
    cases lines with
    | nil => cases hline
    | cons => exact mem_cons_of_mem _ hline

section

variable (h : WellWritten inet typ lines)
  (hlines : List.Forall₂ (fun line r => txt2loc inet garbage typ line = some r) lines ranges)

include h hlines

theorem WellWritten.interval_eq
    : lines.map (meaning inet typ) = ranges.map fun r => some (r.interval (typLth typ)) := by
  induction hlines with
  | nil => rfl
  | @cons line r lines ranges hr _ ih =>
    obtain ⟨_, hi, hle, hlt⟩ := h.exists_meaning line mem_cons_self
    rw [map_cons, map_cons, ih h.tail, hi,
      txt2loc_meaning hr hi (Nat.lt_of_le_of_lt hle hlt) hlt]

theorem WellWritten.isChain (hchain : ranges.IsChain Apart)
    : (ranges.map fun r => r.interval (typLth typ)).IsChain fun i i' => i.hi + 1 < i'.lo := by
  induction hlines with
  | nil => exact .nil
  | @cons line r _ ranges hr hlines ih =>
    apply (ih h.tail hchain.tail).cons
    cases hlines with
    | nil => exact fun _ hi => nomatch hi
    | @cons _ _ _ _ hr' =>
      intro i' hi'
      cases hi'
      obtain ⟨i, hi, hle, hlt⟩ := h.exists_meaning line mem_cons_self
      have hbelow := h.below line mem_cons_self i hi
      have heq := txt2loc_meaning hr hi (Nat.lt_of_le_of_lt hle hlt) hlt
      rw [← heq] at hbelow
      exact (hchain.rel_head? rfl).lt hr hr' hbelow

theorem WellWritten.denoted (hchain : ranges.IsChain Apart) : Denoted inet typ lines ranges where
  meaning_eq := h.interval_eq hlines
  separated := by
    apply Span.Separated.of_isChain
    . intro i hi
      obtain ⟨r, hr, rfl⟩ := List.mem_map.mp hi
      have hmem : some (r.interval (typLth typ)) ∈ lines.map (meaning inet typ) := by
        rw [h.interval_eq hlines]
        exact List.mem_map.mpr ⟨r, hr, rfl⟩
      obtain ⟨line, hline, heq⟩ := List.mem_map.mp hmem
      obtain ⟨i, hi, hfits⟩ := h.exists_meaning line hline
      rw [heq] at hi
      cases hi
      exact hfits.1
    . exact h.isChain hlines hchain
  fits := by
    intro line hline i hi
    obtain ⟨_, hi', hfits⟩ := h.exists_meaning line hline
    rw [hi] at hi'
    cases hi'
    exact hfits

end

theorem filter_typ (typ' : Typ)
    (hlines : List.Forall₂ (fun line r => txt2loc inet garbage typ line = some r) lines ranges)
    : ranges.filter (fun r => r.typ = typ') = if typ = typ' then ranges else [] := by
  have htyp : ∀ r ∈ ranges, r.typ = typ := by
    intro r hr
    obtain ⟨line, -, hline⟩ := hlines.exists_of_mem_right hr
    exact typ_of_txt2loc hline
  split
  . next heq =>
    rw [filter_eq_self]
    intro r hr
    simp [htyp r hr, heq]
  . next hne =>
    rw [filter_eq_nil_iff]
    intro r hr
    simp [htyp r hr, hne]

theorem tail_of_startIPv4 {cmds' : List (Option (List Char))}
    (h : getSKIBlock.startIPv4 cmds = .ok cmds') : cmds.tail = cmds' := by
  unfold getSKIBlock.startIPv4 at h
  split at h
  . cases h
  . cases h
  . split at h
    . cases h
      rfl
    . cases h

theorem getSKIBlock.ofCommands_ok {errbuf : String}
    (h : ofCommands inet garbage errbuf cmds = .ok b) (typ : Typ)
    : List.Forall₂ (fun line r => txt2loc inet garbage typ line = some r) (blockLines cmds typ)
          (b.ruleranges.filter fun r => r.typ = typ) ∧
        (b.ruleranges.filter fun r => r.typ = typ).IsChain Apart := by
  obtain ⟨_, hstart, h⟩ := Except.bind_eq_ok_iff.mp h
  obtain ⟨_, h4, h⟩ := Except.bind_eq_ok_iff.mp h
  obtain ⟨_, -, h⟩ := Except.bind_eq_ok_iff.mp h
  obtain ⟨_, h6, h⟩ := Except.bind_eq_ok_iff.mp h
  obtain ⟨_, -, h⟩ := Except.bind_eq_ok_iff.mp h
  obtain ⟨_, hAs, h⟩ := Except.bind_eq_ok_iff.mp h
  obtain ⟨_, -, h⟩ := Except.bind_eq_ok_iff.mp h
  cases h
  obtain ⟨_, hr4, hrest4, hlines4, hchain4⟩ := getIPBlock_ok (Except.mapError_eq_ok_iff.mp h4)
  obtain ⟨_, hr6, hrest6, hlines6, hchain6⟩ := getIPBlock_ok (Except.mapError_eq_ok_iff.mp h6)
  obtain ⟨_, hrAs, -, hlinesAs, hchainAs⟩ := getIPBlock_ok (Except.mapError_eq_ok_iff.mp hAs)
  have hchain := hchainAs (hchain6 (hchain4 .nil))
  rw [hrest6] at hlinesAs
  rw [hrest4] at hlines6 hlinesAs
  rw [← tail_of_startIPv4 hstart] at hlines4 hlines6 hlinesAs
  rw [hrAs, hr6, hr4, nil_append] at hchain ⊢
  rw [filter_append, filter_append, filter_typ typ hlines4, filter_typ typ hlines6,
    filter_typ typ hlinesAs]
  cases typ with
  | ipv4 => simpa using ⟨hlines4, hchain.left_of_append.left_of_append⟩
  | ipv6 => simpa using ⟨hlines6, hchain.left_of_append.right_of_append⟩
  | asnum => simpa using ⟨hlinesAs, hchain.right_of_append⟩
  | terminator => exact ⟨.nil, .nil⟩

/--
The rules of a block that is accepted are what its lines say exactly if every line says something in
order that fits, and only the last one of a type goes up to the last number.
-/
theorem getSKIBlock_denoted_iff {siz : Nat} {errbuf : String} {file : List (List Char)} {b : SkiBlock}
    (h : getSKIBlock inet garbage siz errbuf file = .ok b)
    : (∀ typ, Denoted inet typ (blockLines (commands siz file) typ)
          (b.ruleranges.filter fun r => r.typ = typ))
        ↔
      ∀ typ, WellWritten inet typ (blockLines (commands siz file) typ) := by
  constructor
  . intro hdenoted typ
    exact (hdenoted typ).wellWritten
  . intro hwritten typ
    obtain ⟨hlines, hchain⟩ := getSKIBlock.ofCommands_ok h typ
    exact (hwritten typ).denoted hlines hchain

end

theorem sampleInet_text6 : ∀ (a : List Char) (x : FixedBytes 16), none = some x →
    a ≠ [] ∧ (∀ c ∈ a, isAddress6 c = true) ∧ a.length < 46 := by
  intro a x h
  cases h

def sampleInet : Inet where
  pton4 a := if a = "10.0.0.0".toList then some ⟨[10, 0, 0, 0], rfl⟩ else none
  pton6 _ := none
  text4 := by
    intro a x h
    split at h
    . next ha =>
      rw [ha]
      exact ⟨by decide, List.all_eq_true.mp (by decide), by decide⟩
    . cases h
  text6 := sampleInet_text6

def skiFile : List (List Char) :=
  ["IPv4\n".toList, "10.0.0.0/8\n".toList, "IPv6\n".toList, "AS#\n".toList,
    ";a comment\n".toList, "64496  - 64511\n".toList]

def sampleBlock : SkiBlock where
  ruleranges :=
    [⟨.ipv4, Lim.setLead 4 0 0x0a000000, Lim.setLead 4 (BitVec.allOnes 128) 0x0affffff⟩,
      ⟨.asnum, Lim.setLead 4 0 64496, Lim.setLead 4 (BitVec.allOnes 128) 64511⟩]
  skibuf := []
  rest := []

theorem getSKIBlock_skiFile : getSKIBlock sampleInet 0 128 "" skiFile = .ok sampleBlock := by
  decide +kernel

theorem wellWritten_skiFile (typ : Typ)
    : WellWritten sampleInet typ (blockLines (commands 128 skiFile) typ) := by
  cases typ with
  | ipv4 =>
    refine ⟨?_, fun _ h => nomatch h⟩
    intro line hline
    rw [mem_singleton.mp hline]
    exact ⟨⟨0x0a000000, 0x0affffff⟩, by decide +kernel, by decide, by decide⟩
  | ipv6
  | terminator => exact ⟨forall_mem_nil _, forall_mem_nil _⟩
  | asnum =>
    refine ⟨?_, fun _ h => nomatch h⟩
    intro line hline
    rw [mem_singleton.mp hline]
    exact ⟨⟨64496, 64511⟩, by decide +kernel, by decide, by decide⟩

theorem getSKIBlock_denoted_sample
    : getSKIBlock sampleInet 0 128 "" skiFile = .ok sampleBlock ∧
        ∀ typ, Denoted sampleInet typ (blockLines (commands 128 skiFile) typ)
          (sampleBlock.ruleranges.filter fun r => r.typ = typ) :=
  ⟨getSKIBlock_skiFile, (getSKIBlock_denoted_iff getSKIBlock_skiFile).mpr wellWritten_skiFile⟩

def largeNumberFile : List (List Char) :=
  ["IPv4\n".toList, "IPv6\n".toList, "AS#\n".toList, "4294967296\n".toList]

theorem getSKIBlock_accepts_4294967296
    : ∃ b, getSKIBlock sampleInet 0 128 "" largeNumberFile = .ok b ∧
        ¬∀ typ, Denoted sampleInet typ (blockLines (commands 128 largeNumberFile) typ)
          (b.ruleranges.filter fun r => r.typ = typ) := by
  refine ⟨⟨[⟨.asnum, 0, Lim.setLead 4 (BitVec.allOnes 128) 0⟩], [], []⟩, by decide +kernel, ?_⟩
  intro h
  have hdenoted := h .asnum
  have hfits := hdenoted.fits _ mem_cons_self ⟨4294967296, 4294967296⟩ (by decide +kernel)
  exact absurd hfits.2 (by decide)

end Rpstir.Lta
