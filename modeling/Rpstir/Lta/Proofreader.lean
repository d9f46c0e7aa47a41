import Rpstir.Lta.Text

/-!
This module contains `sort_resources`, `overlap` and `process_type`, the parts of the proofreader of
constraints files, and when they do what they are for. The file is the list of what `fgets` reads from
it.
-/

namespace Rpstir.Lta

open List Option

open Scan txt2loc

structure Entry where
  range : IpRange
  text : List Char
  deriving DecidableEq, Repr

variable (inet : Inet) (garbage : Nat) (typ : Typ)

def diffLth : Nat :=
  if typ = .asnum ∨ typ = .ipv4 then 4 else 6

def diffIpaddr (lop hip : IpRange) : Ordering :=
  compare (lop.lolim.lead (diffLth lop.typ)) (hip.lolim.lead (diffLth lop.typ))

def sortResources (fuel : Nat) (entries : List Entry) : Option (List Entry) :=
  BubbleSort.bubbleSort (fun a b => diffIpaddr a.range b.range = .gt) fuel entries

def overlapLth : Nat :=
  if typ = .ipv4 then 4 else 16

def IpRange.inside (lth : Nat) (lim : Lim) (r : IpRange) : Bool :=
  r.lolim.lead lth < lim.lead lth && lim.lead lth < r.hilim.lead lth

def overlap (lop hip : IpRange) : Int :=
  if lop.typ ≠ hip.typ then
    0
  else if lop.typ.toNat > 0 then
    let lth := overlapLth lop.typ
    if (hip.inside lth lop.lolim || hip.inside lth lop.hilim)
        || (lop.inside lth hip.lolim || lop.inside lth hip.hilim) then
      -1
    else
      0
  else
    0

inductive Warning where
  | invalidLine (locbuf : List Char)
  | overlapAt (locbuf : List Char)
  deriving DecidableEq, Repr

namespace processType

def addLine (locbuf : List Char) (entries : List Entry) (warnings : List Warning)
    : List Entry × List Warning :=
  match txt2loc inet garbage typ locbuf with
  | none => (entries, warnings ++ [.invalidLine (cut locbuf)])
  | some r =>
    (entries ++ [⟨r, cut locbuf⟩],
      if entries.getLast?.any fun e => overlap e.range r ≠ 0 then
        warnings ++ [.overlapAt (cut locbuf)]
      else
        warnings)

structure Section where
  entries : List Entry
  warnings : List Warning
  locbuf : List Char
  rest : List (List Char)
  deriving DecidableEq, Repr

def readLines (inet : Inet) (garbage : Nat) (typ : Typ) (ending : List Char)
    : List Entry → List Warning → List Char → List (List Char) → Option Section
  | entries, warnings, locbuf, file =>
    if ending.isPrefixOf locbuf then
      some ⟨entries, warnings, locbuf, file⟩
    else
      let (entries, warnings) := addLine inet garbage typ locbuf entries warnings
      match file with
      | [] => if ending = "SKI ".toList then some ⟨entries, warnings, [], []⟩ else none
      | line :: file => readLines inet garbage typ ending entries warnings line file

end processType

structure Proofread where
  written : List (List Char)
  warnings : List Warning
  inbuf : List Char
  rest : List (List Char)
  deriving DecidableEq, Repr

def processType (ending : List Char) (fuel : Nat) (inbuf : List Char) (file : List (List Char))
    : Option Proofread :=
  -- the buffer `locbuf` has 80 bytes, and `strcpy` writes behind it if the line is longer
  if 80 ≤ inbuf.length then
    none
  else
    match processType.readLines inet garbage typ ending [] [] inbuf file with
    | none => none
    | some s =>
      match sortResources fuel s.entries with
      | none => none
      | some entries => some ⟨entries.map Entry.text, s.warnings, s.locbuf, s.rest⟩

def Entry.low (e : Entry) : Nat :=
  e.range.lolim.lead (typLth typ)

section

variable {typ : Typ} {entries : List Entry}

theorem Lim.lead_lt_lead {lth lth' : Nat} (hle : lth ≤ lth') {lim lim' : Lim}
    (h : lim.lead lth < lim'.lead lth) : lim.lead lth' < lim'.lead lth' := by
  have hdiv (lim : Lim) : lim.lead lth = lim.lead lth' / 2 ^ (8 * (16 - lth) - 8 * (16 - lth')) := by
    have hsplit : 8 * (16 - lth) = 8 * (16 - lth') + (8 * (16 - lth) - 8 * (16 - lth')) := by omega
    rw [lead, lead, Nat.div_div_eq_div_mul, ← Nat.pow_add, ← hsplit]
  rw [hdiv, hdiv lim'] at h
  exact Nat.lt_of_not_le fun hle' => Nat.not_le_of_lt h (Nat.div_le_div_right hle')

theorem diffLth_le (htyp : typ ≠ .terminator) : diffLth typ ≤ typLth typ := by
  cases typ with
  | terminator => exact absurd rfl htyp
  | _ => decide

theorem sortResources_spec (htyp : typ ≠ .terminator) (hentries : ∀ e ∈ entries, e.range.typ = typ)
    : ∃ sorted, (∀ fuel ≥ entries.length * entries.length, sortResources fuel entries = some sorted) ∧
        sorted.Perm entries ∧
        ((sorted.Pairwise fun e e' => e.low typ ≤ e'.low typ) ↔
          entries.Pairwise fun e e' =>
            e.range.lolim.lead (diffLth typ) = e'.range.lolim.lead (diffLth typ) →
              e.low typ ≤ e'.low typ) := by
  let key (e : Entry) : Nat := e.range.lolim.lead (diffLth typ)
  have hcongr (fuel : Nat) : sortResources fuel entries
      = BubbleSort.bubbleSort (fun a b => decide (key b < key a)) fuel entries := by
    apply BubbleSort.bubbleSort_congr
    intro a ha b _
    rw [diffIpaddr, hentries a ha, decide_eq_decide, Nat.compare_eq_gt]
  have hasymm : ∀ a b, decide (key b < key a) = true → decide (key a < key b) = false := by
    intro a b h
    rw [decide_eq_true_eq] at h
    rw [decide_eq_false_iff_not]
    omega
  obtain ⟨sorted, hsort, hperm⟩ :=
    BubbleSort.bubbleSort_perm hasymm (BubbleSort.inversions_le _ entries)
  refine ⟨sorted, ?_, hperm, ?_⟩
  . intro fuel hfuel
    rw [hcongr]
    exact BubbleSort.bubbleSort_mono hsort hfuel
  . apply BubbleSort.bubbleSort_pairwise_iff _ hsort
    intro a b hlt
    exact Lim.lead_lt_lead (diffLth_le htyp) hlt

end

section

variable {typ : Typ} {a b : IpRange}

theorem overlap_comm (htyp : a.typ = b.typ) : overlap a b = overlap b a := by
  rw [overlap, overlap, htyp]
  dsimp only
  rw [Bool.or_comm]

theorem overlap_ne_zero_iff (htyp : typ ≠ .terminator) (ha : a.typ = typ) (hb : b.typ = typ)
    (hale : a.lolim.lead (overlapLth typ) ≤ a.hilim.lead (overlapLth typ))
    (hble : b.lolim.lead (overlapLth typ) ≤ b.hilim.lead (overlapLth typ))
    : overlap a b ≠ 0 ↔
        Span.Crosses (a.interval (overlapLth typ)) (b.interval (overlapLth typ)) := by
  have hpos : a.typ.toNat > 0 := by
    rw [ha]
    cases typ with
    | terminator => exact absurd rfl htyp
    | _ => decide
  rw [Span.crosses_iff hale hble, overlap, if_neg (by rw [ha, hb]; simp), if_pos hpos, ha]
  simp only [IpRange.inside, Bool.or_eq_true, Bool.and_eq_true, decide_eq_true_eq,
    IpRange.interval_lo, IpRange.interval_hi]
  split
  . next h => exact iff_of_true (by decide) h
  . next h => exact iff_of_false (by decide) h

end

def typeLines (ending : List Char) (lines : List (List Char)) : List (List Char) :=
  lines.takeWhile fun line => !ending.isPrefixOf line

def Ends (ending : List Char) (lines : List (List Char)) : Prop :=
  (∃ line ∈ lines, ending.isPrefixOf line) ∨ ending = "SKI ".toList

def entryOf (line : List Char) : Option Entry :=
  (txt2loc inet garbage typ line).map fun r => ⟨r, cut line⟩

def validLines (lines : List (List Char)) : List (List Char) :=
  lines.filter fun line => (txt2loc inet garbage typ line).isSome

namespace processType

def Clear (e e' : Entry) : Prop :=
  overlap e.range e'.range = 0

def Warned (entries : List Entry) (warnings : List Warning) : Prop :=
  (∃ locbuf, .overlapAt locbuf ∈ warnings) ↔ ¬entries.IsChain Clear

section

variable {inet : Inet} {garbage : Nat} {typ : Typ} {ending : List Char} {entries : List Entry}
  {warnings : List Warning} {locbuf : List Char} {file : List (List Char)} {s : Section}

theorem addLine_entries : (addLine inet garbage typ locbuf entries warnings).1
    = entries ++ (entryOf inet garbage typ locbuf).toList := by
  unfold addLine entryOf
  split
  . next h => simp [h]
  . next h => simp [h]

theorem addLine_warned (h : Warned entries warnings)
    : Warned (addLine inet garbage typ locbuf entries warnings).1
        (addLine inet garbage typ locbuf entries warnings).2 := by
  unfold addLine
  split
  . simpa [Warned] using h
  next r hr =>
  have hlast : (entries.getLast?.any fun e => overlap e.range r ≠ 0) = true ↔
      ¬∀ e ∈ entries.getLast?, overlap e.range r = 0 := by
    cases entries.getLast? <;> simp
  have hchain : (entries ++ [(⟨r, cut locbuf⟩ : Entry)]).IsChain Clear ↔
      entries.IsChain Clear ∧ ∀ e ∈ entries.getLast?, overlap e.range r = 0 := by
    rw [isChain_append]
    simp [Clear]
  unfold Warned at h ⊢
  rw [hchain]
  split
  . next hany =>
    apply iff_of_true
    . exact ⟨cut locbuf, mem_append_right _ mem_cons_self⟩
    . exact fun hboth => hlast.mp hany hboth.2
  . next hany =>
    have hnone := not_not.mp (mt hlast.mpr hany)
    rw [h]
    exact not_congr (and_iff_left hnone).symm

theorem typeLines_eq_nil {lines : List (List Char)} (h : ending.isPrefixOf locbuf = true)
    : typeLines ending (locbuf :: lines) = [] := by
  simp [typeLines, h]

theorem filterMap_typeLines {lines : List (List Char)} (h : ¬ending.isPrefixOf locbuf = true)
    : (typeLines ending (locbuf :: lines)).filterMap (entryOf inet garbage typ)
        =
      (entryOf inet garbage typ locbuf).toList
        ++ (typeLines ending lines).filterMap (entryOf inet garbage typ) := by
  have hline : (!ending.isPrefixOf locbuf) = true := by
    cases hending : ending.isPrefixOf locbuf with
    | false => rfl
    | true => exact absurd hending h
  rw [typeLines, takeWhile_cons, if_pos hline, filterMap_cons]
  cases entryOf inet garbage typ locbuf with
  | none
  | some => rfl

theorem readLines_spec (hends : Ends ending (locbuf :: file)) (hwarned : Warned entries warnings)
    : ∃ s, readLines inet garbage typ ending entries warnings locbuf file = some s ∧
        s.entries = entries ++ (typeLines ending (locbuf :: file)).filterMap (entryOf inet garbage typ) ∧
        Warned s.entries s.warnings := by
  have hwarned' := @addLine_warned inet garbage typ _ _ locbuf hwarned
  induction file generalizing entries warnings locbuf with
  | nil =>
    unfold readLines
    split
    . next hending =>
      refine ⟨_, rfl, ?_, hwarned⟩
      rw [typeLines_eq_nil hending, filterMap_nil, append_nil]
    next hending =>
    have hski : ending = "SKI ".toList := by
      rcases hends with ⟨line, hline, hends⟩ | hski
      . rw [mem_singleton.mp hline] at hends
        exact absurd hends hending
      . exact hski
    dsimp only
    rw [if_pos hski]
    refine ⟨_, rfl, ?_, hwarned'⟩
    rw [addLine_entries, filterMap_typeLines hending]
    exact congrArg _ (append_nil _).symm
  | cons line file ih =>
    unfold readLines
    split
    . next hending =>
      refine ⟨_, rfl, ?_, hwarned⟩
      rw [typeLines_eq_nil hending, filterMap_nil, append_nil]
    next hending =>
    have hends' : Ends ending (line :: file) := by
      refine hends.imp_left ?_
      rintro ⟨line', hline', hends'⟩
      cases mem_cons.mp hline' with
      | inl heq =>
        rw [heq] at hends'
        exact absurd hends' hending
      | inr hmem => exact ⟨line', hmem, hends'⟩
    obtain ⟨s, hread, hentries, hwarned''⟩ := ih hends' hwarned' (addLine_warned hwarned')
    refine ⟨s, hread, ?_, hwarned''⟩
    rw [hentries, addLine_entries, filterMap_typeLines hending, append_assoc]

end

end processType

theorem txt2loc.cut_isPrefix (line : List Char) : cut line <+: line := by
  unfold cut
  split
  . exact prefix_refl line
  . next a b h =>
    split
    . exact ( rdropWhile_prefix isblank a).trans (append_of_strchr h ▸ prefix_append a _)
    . exact prefix_refl line

section

variable {inet : Inet} {garbage : Nat} {typ : Typ} {lines : List (List Char)}

theorem map_range_entries (lines : List (List Char))
    : (lines.filterMap (entryOf inet garbage typ)).map Entry.range
        =
      lines.filterMap (txt2loc inet garbage typ) := by
  rw [map_filterMap]
  congr 1
  funext line
  cases h : txt2loc inet garbage typ line <;> simp [entryOf, h]

theorem map_text_entries (lines : List (List Char))
    : (lines.filterMap (entryOf inet garbage typ)).map Entry.text
        =
      (validLines inet garbage typ lines).map cut := by
  induction lines with
  | nil => rfl
  | cons line lines ih =>
    unfold validLines at ih ⊢
    cases h : txt2loc inet garbage typ line with
    | none
    | some => simpa [entryOf, h] using ih

theorem cut_eq_of_perm (h : (lines.map cut).Perm lines) : ∀ line ∈ lines, cut line = line := by
  have hsum : (lines.map fun line => (cut line).length).sum = (lines.map List.length).sum := by
    rw [← (h.map List.length).sum_nat, List.map_map]
    rfl
  intro line hline
  apply (cut_isPrefix line).eq_of_length
  exact eq_of_sum_map_eq (fun line _ => (cut_isPrefix line).length_le) hsum line hline

end

def WritesInOrder (lines : List (List Char)) (p : Proofread) : Prop :=
  p.written.Perm (validLines inet garbage typ lines) ∧
    p.written.Pairwise fun line line' =>
      ∀ r r', txt2loc inet garbage typ line = some r → txt2loc inet garbage typ line' = some r' →
        r.lolim.lead (typLth typ) ≤ r'.lolim.lead (typLth typ)

def WarnsOfOverlap (lines : List (List Char)) (p : Proofread) : Prop :=
  (∃ locbuf, .overlapAt locbuf ∈ p.warnings) ↔
    ¬(lines.filterMap (txt2loc inet garbage typ)).Pairwise fun r r' =>
      ¬Span.Shares (r.interval (overlapLth typ)) (r'.interval (overlapLth typ))

section

variable {inet : Inet} {garbage : Nat} {typ : Typ} {lines : List (List Char)} {p : Proofread}
  {sorted : List Entry}

theorem warnsOfOverlap_iff (htyp : typ ≠ .terminator)
    (hle : ∀ r ∈ lines.filterMap (txt2loc inet garbage typ),
      r.lolim.lead (overlapLth typ) ≤ r.hilim.lead (overlapLth typ))
    (hwarned : processType.Warned (lines.filterMap (entryOf inet garbage typ)) p.warnings)
    : WarnsOfOverlap inet garbage typ lines p ↔
        ((lines.filterMap (txt2loc inet garbage typ)).Pairwise fun r r' =>
            ¬Span.Shares (r.interval (overlapLth typ)) (r'.interval (overlapLth typ))) ∨
          ¬(lines.filterMap (txt2loc inet garbage typ)).IsChain fun r r' =>
            ¬Span.Crosses (r.interval (overlapLth typ)) (r'.interval (overlapLth typ)) := by
  have htyps : ∀ r ∈ lines.filterMap (txt2loc inet garbage typ), r.typ = typ := by
    intro r hr
    obtain ⟨_, -, hline⟩ := mem_filterMap.mp hr
    exact typ_of_txt2loc hline
  have hclear : (lines.filterMap (entryOf inet garbage typ)).IsChain processType.Clear ↔
      (lines.filterMap (txt2loc inet garbage typ)).IsChain fun r r' =>
        ¬Span.Crosses (r.interval (overlapLth typ)) (r'.interval (overlapLth typ)) := by
    rw [← map_range_entries] at hle htyps ⊢
    rw [isChain_map]
    apply List.IsChain.iff_of_mem_imp
    intro _ _ he he'
    have hr := List.mem_map_of_mem (f := Entry.range) he
    have hr' := List.mem_map_of_mem (f := Entry.range) he'
    rw [processType.Clear, ← overlap_ne_zero_iff htyp (htyps _ hr) (htyps _ hr') (hle _ hr) (hle _ hr'),
      not_not]
  have hnone : ((lines.filterMap (txt2loc inet garbage typ)).Pairwise fun r r' =>
        ¬Span.Shares (r.interval (overlapLth typ)) (r'.interval (overlapLth typ))) →
      (lines.filterMap (txt2loc inet garbage typ)).IsChain fun r r' =>
        ¬Span.Crosses (r.interval (overlapLth typ)) (r'.interval (overlapLth typ)) := by
    intro hpairwise
    refine hpairwise.isChain.imp ?_
    intro r r' hshares hcrosses
    exact hshares hcrosses.1
  unfold processType.Warned at hwarned
  unfold WarnsOfOverlap
  tauto

theorem writesInOrder_iff (hperm : sorted.Perm (lines.filterMap (entryOf inet garbage typ)))
    (hwritten : p.written = sorted.map Entry.text)
    : WritesInOrder inet garbage typ lines p ↔
        (∀ line ∈ validLines inet garbage typ lines, cut line = line) ∧
          sorted.Pairwise fun e e' => e.low typ ≤ e'.low typ := by
  have htexts : p.written.Perm ((validLines inet garbage typ lines).map cut) := by
    rw [hwritten, ← map_text_entries]
    exact hperm.map _
  have hpairwise (hcut : ∀ line ∈ validLines inet garbage typ lines, cut line = line)
      : (p.written.Pairwise fun line line' => ∀ r r', txt2loc inet garbage typ line = some r →
          txt2loc inet garbage typ line' = some r' →
            r.lolim.lead (typLth typ) ≤ r'.lolim.lead (typLth typ)) ↔
        sorted.Pairwise fun e e' => e.low typ ≤ e'.low typ := by
    have hentry : ∀ e ∈ sorted, txt2loc inet garbage typ e.text = some e.range := by
      intro e he
      obtain ⟨line, hline, heq⟩ := mem_filterMap.mp (hperm.subset he)
      obtain ⟨r, hr, rfl⟩ := map_eq_some_iff.mp heq
      have hvalid : line ∈ validLines inet garbage typ lines :=
        mem_filter.mpr ⟨hline, by rw [hr]; rfl⟩
      rw [hcut line hvalid, hr]
    rw [hwritten, pairwise_map]
    apply List.Pairwise.iff_of_mem
    intro e e' he he'
    rw [hentry e he, hentry e' he']
    simp [Entry.low]
  constructor
  . rintro ⟨hvalid, hordered⟩
    have hcut := cut_eq_of_perm (htexts.symm.trans hvalid)
    exact ⟨hcut, (hpairwise hcut).mp hordered⟩
  . rintro ⟨hcut, hordered⟩
    refine ⟨?_, (hpairwise hcut).mpr hordered⟩
    rwa [map_congr_left hcut, List.map_id'] at htexts

end

def SortsAscending (entries : List Entry) : Prop :=
  ∃ sorted fuel₀, (∀ fuel ≥ fuel₀, sortResources fuel entries = some sorted) ∧
    sorted.Perm entries ∧ sorted.Pairwise fun e e' => e.low typ ≤ e'.low typ

def TiesInOrder (ranges : List IpRange) : Prop :=
  ranges.Pairwise fun r r' => r.lolim.lead (diffLth typ) = r'.lolim.lead (diffLth typ) →
    r.lolim.lead (typLth typ) ≤ r'.lolim.lead (typLth typ)

def OverlapExact (a b : IpRange) : Prop :=
  overlap a b = overlap b a ∧
    (overlap a b ≠ 0 ↔ Span.Shares (a.interval (overlapLth typ)) (b.interval (overlapLth typ)))

def EndsDiffer (a b : IpRange) : Prop :=
  a.interval (overlapLth typ) ≠ b.interval (overlapLth typ) ∧
    a.hilim.lead (overlapLth typ) ≠ b.lolim.lead (overlapLth typ) ∧
    b.hilim.lead (overlapLth typ) ≠ a.lolim.lead (overlapLth typ)

def Proofreads (ending inbuf : List Char) (file : List (List Char)) : Prop :=
  ∃ p fuel₀, (∀ fuel ≥ fuel₀, processType inet garbage typ ending fuel inbuf file = some p) ∧
    WritesInOrder inet garbage typ (typeLines ending (inbuf :: file)) p ∧
    WarnsOfOverlap inet garbage typ (typeLines ending (inbuf :: file)) p

/--
The first line fits into the buffer, no valid line has blanks before its dash, and among the ranges of the
lines those that the sort takes for equal are in order, and either no two of them share an address or two
neighbours do, other than at an end or as a whole.
-/
structure Readable (inet : Inet) (garbage : Nat) (typ : Typ) (inbuf : List Char)
    (lines : List (List Char)) : Prop where
  fits : inbuf.length < 80
  uncut : ∀ line ∈ validLines inet garbage typ lines, cut line = line
  ties : TiesInOrder typ (lines.filterMap (txt2loc inet garbage typ))
  neighbours :
    ((lines.filterMap (txt2loc inet garbage typ)).Pairwise fun r r' =>
        ¬Span.Shares (r.interval (overlapLth typ)) (r'.interval (overlapLth typ))) ∨
      ¬(lines.filterMap (txt2loc inet garbage typ)).IsChain fun r r' =>
        ¬(Span.Shares (r.interval (overlapLth typ)) (r'.interval (overlapLth typ)) ∧
          EndsDiffer typ r r')

section

variable {inet : Inet} {garbage : Nat} {typ : Typ} {ending inbuf : List Char} {file : List (List Char)}
  {entries : List Entry} {a b : IpRange}

variable (htyp : typ ≠ .terminator) (hentries : ∀ e ∈ entries, e.range.typ = typ)
  (ha : a.typ = typ) (hb : b.typ = typ)
  (hale : a.lolim.lead (overlapLth typ) ≤ a.hilim.lead (overlapLth typ))
  (hble : b.lolim.lead (overlapLth typ) ≤ b.hilim.lead (overlapLth typ))
  (hends : Ends ending (inbuf :: file))
  (hle : ∀ r ∈ (typeLines ending (inbuf :: file)).filterMap (txt2loc inet garbage typ),
    r.lolim.lead (overlapLth typ) ≤ r.hilim.lead (overlapLth typ))

theorem tiesInOrder_map
    : TiesInOrder typ (entries.map Entry.range) ↔
        entries.Pairwise fun e e' =>
          e.range.lolim.lead (diffLth typ) = e'.range.lolim.lead (diffLth typ) →
            e.low typ ≤ e'.low typ :=
  pairwise_map

include htyp

include hentries in
theorem sortsAscending_iff
    : SortsAscending typ entries ↔ TiesInOrder typ (entries.map Entry.range) := by
  obtain ⟨sorted, hsort, hperm, hiff⟩ := sortResources_spec htyp hentries
  rw [tiesInOrder_map, ← hiff]
  constructor
  . rintro ⟨_, fuel0, hsort', -, hordered⟩
    have heq := hsort (max fuel0 (entries.length * entries.length)) (Nat.le_max_right _ _)
    rw [hsort' _ (Nat.le_max_left _ _)] at heq
    cases heq
    exact hordered
  . intro hordered
    exact ⟨sorted, _, hsort, hperm, hordered⟩

include ha hb hale hble in
theorem overlapExact_iff
    : OverlapExact typ a b ↔ EndsDiffer typ a b := by
  rw [OverlapExact, overlap_ne_zero_iff htyp ha hb hale hble]
  constructor
  . rintro ⟨-, hiff⟩
    -- in each of the three cases an address is shared, and the test would have to find it
    have hshares := @Span.shares_iff (a.interval (overlapLth typ)) (b.interval (overlapLth typ))
      hale hble
    refine ⟨fun heq => ?_, fun heq => ?_, fun heq => ?_⟩
    . rw [heq] at hshares hiff
      exact (hiff.mpr (hshares.mpr ⟨hble, hble⟩)).2.1 rfl
    . have hboth := hshares.mpr ⟨Nat.le_trans hale (heq ▸ hble), Nat.le_of_eq heq.symm⟩
      exact (hiff.mpr hboth).2.2.1 heq
    . have hboth := hshares.mpr ⟨Nat.le_of_eq heq.symm, Nat.le_trans hble (heq ▸ hale)⟩
      exact (hiff.mpr hboth).2.2.2 heq
  . intro hends
    refine ⟨overlap_comm (ha.trans hb.symm), fun hcrosses => hcrosses.1, fun hshares => ⟨hshares, hends⟩⟩

include hends hle in
theorem proofreads_iff
    : Proofreads inet garbage typ ending inbuf file ↔
        Readable inet garbage typ inbuf (typeLines ending (inbuf :: file)) := by
  have hwarned : processType.Warned [] [] := by simp [processType.Warned]
  obtain ⟨s, hread, hentries, hwarned'⟩ :=
    @processType.readLines_spec inet garbage typ _ _ _ _ _ hends hwarned
  rw [nil_append] at hentries
  rw [hentries] at hwarned'
  have htyps : ∀ e ∈ s.entries, e.range.typ = typ := by
    intro e he
    rw [hentries] at he
    obtain ⟨_, -, hline⟩ := mem_filterMap.mp he
    obtain ⟨r, hr, rfl⟩ := map_eq_some_iff.mp hline
    exact typ_of_txt2loc hr
  obtain ⟨sorted, hsort, hperm, hiff⟩ := sortResources_spec htyp htyps
  rw [hentries] at hperm
  rw [← tiesInOrder_map, hentries, map_range_entries] at hiff
  have hprocess (hfits : inbuf.length < 80) (fuel : Nat)
      (hfuel : fuel ≥ s.entries.length * s.entries.length)
      : processType inet garbage typ ending fuel inbuf file
          = some ⟨sorted.map Entry.text, s.warnings, s.locbuf, s.rest⟩ := by
    rw [processType, if_neg (by omega), hread]
    dsimp only
    rw [hsort fuel hfuel]
  have hwrites := writesInOrder_iff (p := ⟨sorted.map Entry.text, s.warnings, s.locbuf, s.rest⟩) hperm rfl
  have hwarns := warnsOfOverlap_iff (p := ⟨sorted.map Entry.text, s.warnings, s.locbuf, s.rest⟩)
    htyp hle hwarned'
  constructor
  . rintro ⟨p, fuel0, hp, hwritten, hwarning⟩
    have hfits : inbuf.length < 80 := by
      apply Nat.lt_of_not_le
      intro hlong
      have hnone := hp fuel0 (Nat.le_refl _)
      rw [processType, if_pos hlong] at hnone
      cases hnone
    have heq := hp (max fuel0 (s.entries.length * s.entries.length)) (Nat.le_max_left _ _)
    rw [hprocess hfits _ (Nat.le_max_right _ _)] at heq
    cases heq
    obtain ⟨hcut, hordered⟩ := hwrites.mp hwritten
    exact ⟨hfits, hcut, hiff.mp hordered, hwarns.mp hwarning⟩
  . intro h
    exact ⟨_, _, hprocess h.fits, hwrites.mpr ⟨h.uncut, hiff.mpr h.ties⟩, hwarns.mpr h.neighbours⟩

include hentries ha hb hale hble hends hle in
theorem proofreader_iff
    : SortsAscending typ entries ∧ OverlapExact typ a b ∧
          Proofreads inet garbage typ ending inbuf file
        ↔
      TiesInOrder typ (entries.map Entry.range) ∧ EndsDiffer typ a b ∧
        Readable inet garbage typ inbuf (typeLines ending (inbuf :: file)) := by
  rw [sortsAscending_iff htyp hentries, overlapExact_iff htyp ha hb hale hble,
    proofreads_iff htyp hends hle]

end

def noInet : Inet where
  pton4 _ := none
  pton6 _ := none
  text4 := fun _ _ h => nomatch h
  text6 := fun _ _ h => nomatch h

def asRange (n : Nat) : IpRange where
  typ := .asnum
  lolim := Lim.setLead 4 0 n
  hilim := Lim.setLead 4 (BitVec.allOnes 128) n

theorem not_shares_seven_five
    : ¬Span.Shares ((asRange 7).interval (overlapLth .asnum))
        ((asRange 5).interval (overlapLth .asnum)) := by
  rw [Span.shares_iff (by decide) (by decide)]
  decide

theorem proofreader_seven_five
    : SortsAscending .asnum [⟨asRange 7, "7\n".toList⟩, ⟨asRange 5, "5\n".toList⟩] ∧
        OverlapExact .asnum (asRange 7) (asRange 5) ∧
        Proofreads noInet 0 .asnum "SKI ".toList "7\n".toList ["5\n".toList] := by
  have hlines : validLines noInet 0 .asnum (typeLines "SKI ".toList ["7\n".toList, "5\n".toList])
      = ["7\n".toList, "5\n".toList] := by decide +kernel
  have hranges : (typeLines "SKI ".toList ["7\n".toList, "5\n".toList]).filterMap
      (txt2loc noInet 0 .asnum) = [asRange 7, asRange 5] := by decide +kernel
  have hties : TiesInOrder .asnum [asRange 7, asRange 5] := by
    unfold TiesInOrder
    decide
  have hends : EndsDiffer .asnum (asRange 7) (asRange 5) := ⟨by decide, by decide, by decide⟩
  refine (@proofreader_iff noInet 0 .asnum _ _ _ _ (asRange 7) (asRange 5) (by decide) (by decide) rfl rfl
    (by decide) (by decide) (.inr rfl) ?_).mpr ⟨hties, hends, ?_, ?_, ?_, ?_⟩
  . rw [hranges]
    decide
  . decide
  . rw [hlines]
    decide
  . rw [hranges]
    exact hties
  . rw [hranges]
    exact .inl (.cons (forall_mem_singleton.mpr not_shares_seven_five) (.cons (forall_mem_nil _) .nil))

/--
Low addresses of IPv6 that differ behind the sixth byte stay as they are, a range does not overlap with
itself, and there is no warning of two equal lines.
-/
theorem proofreader_misses
    : ¬SortsAscending .ipv6 [⟨⟨.ipv6, 2, 2⟩, "::2\n".toList⟩, ⟨⟨.ipv6, 1, 1⟩, "::1\n".toList⟩] ∧
        ¬OverlapExact .ipv6 ⟨.ipv6, 1, 1⟩ ⟨.ipv6, 1, 1⟩ ∧
        ¬Proofreads noInet 0 .asnum "SKI ".toList "5\n".toList ["5\n".toList] := by
  have hranges : (typeLines "SKI ".toList ["5\n".toList, "5\n".toList]).filterMap
      (txt2loc noInet 0 .asnum) = [asRange 5, asRange 5] := by decide +kernel
  refine ⟨?_, ?_, ?_⟩
  . rw [sortsAscending_iff (by decide) (by decide)]
    unfold TiesInOrder
    decide
  . rw [@overlapExact_iff .ipv6 _ _ (by decide) rfl rfl (by decide) (by decide)]
    exact fun h => h.1 rfl
  rw [proofreads_iff (by decide) (.inr rfl) (by rw [hranges]; decide)]
  intro h
  have hneighbours := h.neighbours
  rcases hneighbours with hnone | hsome
  . have hshares := rel_of_pairwise_cons hnone mem_cons_self
    rw [Span.shares_iff (by decide) (by decide)] at hshares
    exact absurd hshares (by decide)
  . apply hsome
    refine .cons_cons ?_ (.singleton _)
    exact fun hboth => hboth.2.1 rfl

end Rpstir.Lta
