import Mathlib.Data.List.Infix
import Rpstir.Chaser.Basic

/-!
This module contains what the checks of `chaser.c` do to a string, without the buffer it is in.
-/

namespace Rpstir.Chaser

open List Option

open CString

def EndsInDot (text : List Char) : Prop :=
  ['/', '.'] <:+ text

instance (text : List Char) : Decidable (EndsInDot text) :=
  inferInstanceAs (Decidable (['/', '.'] <:+ text))

def collapseText : Char → List Char → Collapsed
  | _, [] => ⟨[], false, false⟩
  | prev, ch :: rest =>
    if ch = '/' ∧ prev = '/' then
      (collapseText prev rest).drop
    else if ch = '.' ∧ prev = '.' then
      (collapseText ch rest).copyDots ch
    else if ch = '.' ∧ prev = '/' then
      match rest with
      | [] => ⟨[], true, false⟩
      | next :: rest' =>
        if next = '/' then
          (collapseText prev rest').drop
        else
          (collapseText ch (next :: rest')).copy ch
    else
      (collapseText ch rest).copy ch

variable {c : Char} {text : List Char}

theorem endsInDot_cons (h : EndsInDot text) : EndsInDot (c :: text) :=
  h.trans (suffix_cons c text)

theorem endsInDot_of_cons (h : EndsInDot (c :: text)) (hne : ¬(c = '/' ∧ text = ['.']))
    : EndsInDot text := by
  rcases suffix_cons_iff.mp h with heq | h
  . cases heq
    exact absurd ⟨rfl, rfl⟩ hne
  . exact h

variable {uri stale : List Char} {prev next : Char}

theorem slash_ne_nul : '/' ≠ nul := by decide

theorem dot_ne_nul : '.' ≠ nul := by decide

theorem collapse_text (hnul : nul ∉ text) (hend : ¬EndsInDot (prev :: text))
    : collapse prev (text ++ nul :: stale) = some (collapseText prev text) := by
  fun_induction collapseText prev text with
  | case1 =>
    rw [collapse.eq_def]
    rfl
  | case2 prev ch rest hslash ih =>
    obtain ⟨rfl, rfl⟩ := hslash
    have ih := ih (not_mem_of_not_mem_cons hnul) fun h => hend (endsInDot_cons h)
    rw [collapse.eq_def]
    simp [slash_ne_nul, ih]
  | case3 prev ch rest hslash hdots ih =>
    obtain ⟨rfl, rfl⟩ := hdots
    have ih := ih (not_mem_of_not_mem_cons hnul) fun h => hend (endsInDot_cons h)
    rw [collapse.eq_def]
    simp [dot_ne_nul, ih]
  | case4 prev ch hslash hdots hdot =>
    rw [hdot.1, hdot.2] at hend
    exact absurd suffix_rfl hend
  | case5 prev ch hslash hdots hdot rest ih =>
    obtain ⟨rfl, rfl⟩ := hdot
    have ih := ih (not_mem_of_not_mem_cons (not_mem_of_not_mem_cons hnul))
      fun h => hend (endsInDot_cons (endsInDot_cons h))
    simp [collapse, dot_ne_nul, ih]
  | case6 prev ch hslash hdots hdot next rest hnext ih =>
    obtain ⟨rfl, rfl⟩ := hdot
    have hnul := not_mem_of_not_mem_cons hnul
    have ih := ih hnul fun h => hend (endsInDot_cons h)
    rw [cons_append] at ih
    simp [collapse, dot_ne_nul, hnext, (ne_of_not_mem_cons hnul).symm, ih]
  | case7 prev ch rest hslash hdots hdot ih =>
    have ih := ih (not_mem_of_not_mem_cons hnul) fun h => hend (endsInDot_cons h)
    rw [collapse.eq_def]
    simp [(ne_of_not_mem_cons hnul).symm, hslash, hdots, hdot, ih]

-- after a dot every character is copied
theorem head_of_collapse {rest : Mem} {c : Collapsed} (hnul : next ≠ nul)
    (h : collapse '.' (next :: rest) = some c) : c.text.head? = some next := by
  rw [collapse.eq_def] at h
  simp only [hnul, Char.reduceEq, and_true, and_false, if_false] at h
  split at h <;>
  . obtain ⟨_, _, rfl⟩ := map_eq_some_iff.mp h
    rfl

theorem head_collapseText (next : Char) (rest : List Char)
    : (collapseText '.' (next :: rest)).text.head? = some next := by
  rw [collapseText.eq_def]
  simp only [Char.reduceEq, and_true, and_false, if_false]
  split <;> rfl

theorem exists_of_collapse {mem : Mem} {c : Collapsed} (h : collapse prev mem = some c)
    : ∃ text, nul ∉ text ∧ text.length < mem.length ∧ ¬EndsInDot (prev :: text)
      ∧ c = collapseText prev text := by
  fun_induction collapse prev mem generalizing c with
  | case1
  | case5 => cases h
  | case2 =>
    cases h
    exact ⟨[], not_mem_nil, by simp, fun hdot => by simpa using hdot.length_le, rfl⟩
  | case3 prev ch rest hnul hslash ih =>
    obtain ⟨c', hc', rfl⟩ := map_eq_some_iff.mp h
    obtain ⟨text, htext, hlength, hend, rfl⟩ := ih hc'
    obtain ⟨rfl, rfl⟩ := hslash
    refine ⟨'/' :: text, not_mem_cons_of_ne_of_not_mem (Ne.symm hnul) htext, by simpa using hlength,
      fun h => hend (endsInDot_of_cons h (by simp)), ?_⟩
    simp [collapseText.eq_def _ (_ :: _)]
  | case4 prev ch rest hnul hslash hdots ih =>
    obtain ⟨c', hc', rfl⟩ := map_eq_some_iff.mp h
    obtain ⟨text, htext, hlength, hend, rfl⟩ := ih hc'
    obtain ⟨rfl, rfl⟩ := hdots
    refine ⟨'.' :: text, not_mem_cons_of_ne_of_not_mem (Ne.symm hnul) htext, by simpa using hlength,
      fun h => hend (endsInDot_of_cons h (by simp)), ?_⟩
    simp [collapseText.eq_def _ (_ :: _)]
  | case6 prev ch hnul hslash hdots hdot next rest hnext ih =>
    obtain ⟨c', hc', rfl⟩ := map_eq_some_iff.mp h
    obtain ⟨text, htext, hlength, hend, rfl⟩ := ih hc'
    obtain ⟨rfl, rfl⟩ := hdot
    refine ⟨'.' :: '/' :: text, ?_, by simpa using hlength, ?_, rfl⟩
    . simp [htext, slash_ne_nul.symm, dot_ne_nul.symm]
    . exact fun h => hend (endsInDot_of_cons (endsInDot_of_cons h (by simp)) (by simp))
  | case7 prev ch hnul hslash hdots hdot next rest hnext ih =>
    rw [not_or] at hnext
    obtain ⟨c', hc', rfl⟩ := map_eq_some_iff.mp h
    obtain ⟨text, htext, hlength, hend, rfl⟩ := ih hc'
    obtain ⟨rfl, rfl⟩ := hdot
    have hhead := head_of_collapse hnext.2 hc'
    cases text with
    | nil => cases hhead
    | cons _ text =>
      rw [head_collapseText] at hhead
      cases hhead
      refine ⟨'.' :: next :: text, not_mem_cons_of_ne_of_not_mem (Ne.symm hnul) htext,
        by simpa using hlength, fun h => hend (endsInDot_of_cons h (by simp)), ?_⟩
      simp [collapseText, hnext.1]
  | case8 prev ch rest hnul hslash hdots hdot ih =>
    obtain ⟨c', hc', rfl⟩ := map_eq_some_iff.mp h
    obtain ⟨text, htext, hlength, hend, rfl⟩ := ih hc'
    refine ⟨ch :: text, not_mem_cons_of_ne_of_not_mem (Ne.symm hnul) htext, by simpa using hlength, ?_, ?_⟩
    . exact fun h => hend (endsInDot_of_cons h fun heq => hdot ⟨(List.cons.inj heq.2).1, heq.1⟩)
    . simp [collapseText.eq_def _ (_ :: _), hslash, hdots, hdot]

theorem collapse_of_endsInDot {mem : List Char} (hnul : nul ∉ text)
    (hend : EndsInDot (prev :: text)) {read : Option (List Char)}
    (hread : collapse '/' mem = read.map (collapseText '/'))
    : collapse prev (text ++ nul :: mem) = read.map fun z => collapseText prev (text ++ '/' :: z) := by
  induction prev, text using collapseText.induct with
  | case1 =>
    have hle := hend.length_le
    simp at hle
  | case2 prev ch rest hslash ih =>
    obtain ⟨rfl, rfl⟩ := hslash
    have ih := ih (not_mem_of_not_mem_cons hnul) (endsInDot_of_cons hend (by simp))
    rw [collapse.eq_def]
    simp [slash_ne_nul, ih, Function.comp_def, collapseText.eq_def _ (_ :: _)]
  | case3 prev ch rest hslash hdots ih =>
    obtain ⟨rfl, rfl⟩ := hdots
    have ih := ih (not_mem_of_not_mem_cons hnul) (endsInDot_of_cons hend (by simp))
    rw [collapse.eq_def]
    simp [dot_ne_nul, ih, Function.comp_def, collapseText.eq_def _ (_ :: _)]
  | case4 prev ch hslash hdots hdot =>
    obtain ⟨rfl, rfl⟩ := hdot
    simp [collapse, dot_ne_nul, hread, Function.comp_def, collapseText]
  | case5 prev ch hslash hdots hdot rest ih =>
    obtain ⟨rfl, rfl⟩ := hdot
    have ih := ih (not_mem_of_not_mem_cons (not_mem_of_not_mem_cons hnul))
      (endsInDot_of_cons (endsInDot_of_cons hend (by simp)) (by simp))
    simp [collapse, dot_ne_nul, ih, Function.comp_def, collapseText]
  | case6 prev ch hslash hdots hdot next rest hnext ih =>
    obtain ⟨rfl, rfl⟩ := hdot
    have hnul := not_mem_of_not_mem_cons hnul
    have ih := ih hnul (endsInDot_of_cons hend (by simp))
    simp only [cons_append] at ih
    simp [collapse, dot_ne_nul, hnext, (ne_of_not_mem_cons hnul).symm, ih, Function.comp_def, collapseText]
  | case7 prev ch rest hslash hdots hdot ih =>
    have hend := endsInDot_of_cons hend fun h => hdot ⟨(List.cons.inj h.2).1, h.1⟩
    have ih := ih (not_mem_of_not_mem_cons hnul) hend
    rw [collapse.eq_def]
    simp [(ne_of_not_mem_cons hnul).symm, hslash, hdots, hdot, ih, Function.comp_def,
      collapseText.eq_def _ (_ :: _)]

theorem length_collapseText (prev : Char) (text : List Char)
    : (collapseText prev text).text.length ≤ text.length := by
  fun_induction collapseText prev text <;> simp_all [Collapsed.drop, Collapsed.copy, Collapsed.copyDots] <;> omega

theorem nul_notMem_collapseText (h : nul ∉ text) : nul ∉ (collapseText prev text).text := by
  fun_induction collapseText prev text <;> simp_all [Collapsed.drop, Collapsed.copy, Collapsed.copyDots]

section DotDot

def atDots (text : List Char) : Bool :=
  text.take 3 = ['/', '.', '.'] && (text[3]? = none || text[3]? = some '/')

def findDotsText : List Char → Option Nat
  | [] => none
  | c :: rest => if atDots (c :: rest) then some 0 else (findDotsText rest).map (· + 1)

variable {text : List Char}

theorem length_of_atDots (h : atDots text = true) : 3 ≤ text.length := by
  rw [atDots, Bool.and_eq_true, decide_eq_true_eq] at h
  have hlength := congrArg List.length h.1
  simp at hlength
  omega

variable {i : Nat}

theorem findDotsText_lt (h : findDotsText text = some i) : i + 3 ≤ text.length := by
  induction text generalizing i with
  | nil => cases h
  | cons _ _ ih =>
    unfold findDotsText at h
    split at h
    . next hat =>
      cases h
      exact Nat.le_trans (by omega) (length_of_atDots hat)
    . obtain ⟨_, hj, rfl⟩ := map_eq_some_iff.mp h
      have hlt := ih hj
      simp
      omega

theorem findSlash_le {s : Mem} {k : Nat} (h : findSlash s i = some k) : k ≤ i := by
  induction i with
  | zero => cases h
  | succ i ih =>
    unfold findSlash at h
    split at h
    . cases h
      exact Nat.le_refl _
    . exact Nat.le_succ_of_le (ih h)

inductive DotDot where
  | done (text : List Char)
  | invalid
  | outside
  deriving DecidableEq, Repr

def DotDot.IsResult (size : Nat) (result : Option (Ret × Mem)) : DotDot → Prop
  | .done text => ∃ ret stale, ret ≠ .invalid ∧ result = some (ret, text ++ nul :: stale)
    ∧ (text ++ nul :: stale).length = size
  | .invalid => ∃ mem, result = some (.invalid, mem) ∧ mem.length = size
  | .outside => result = none

theorem DotDot.IsResult.isSome_iff {d : DotDot} {size : Nat} {result : Option (Ret × Mem)}
    (h : d.IsResult size result) : result.isSome = true ↔ d ≠ .outside := by
  cases d with
  | done =>
    obtain ⟨_, _, -, rfl, -⟩ := h
    simp
  | invalid =>
    obtain ⟨_, rfl, -⟩ := h
    simp
  | outside => simp [show result = none from h]

def removeDotDotText (text : List Char) : DotDot :=
  if text.length < 2 then
    .outside
  else
    match _hdots : findDotsText text with
    | none => .done text
    | some dotsLo =>
      if dotsLo < 1 then
        .invalid
      else
        match _hslash : findSlash text (dotsLo - 1) with
        | none => .invalid
        | some dirLo => removeDotDotText (text.take dirLo ++ text.drop (dotsLo + 3))
  termination_by text.length
  decreasing_by
    have hlt := findDotsText_lt _hdots
    have hle := findSlash_le _hslash
    simp
    omega

theorem removeDotDotText_done {text' : List Char} (h : removeDotDotText text = .done text')
    : text'.length ≤ text.length ∧ ∀ c ∈ text', c ∈ text := by
  fun_induction removeDotDotText text with
  | case1
  | case3
  | case4 => cases h
  | case2 =>
    cases h
    exact ⟨Nat.le_refl _, fun _ hc => hc⟩
  | case5 text hlen dotsLo hdots hlo _ hslash ih =>
    have hdirLe := findSlash_le hslash
    obtain ⟨hlength, hmem⟩ := ih h
    constructor
    . simp only [length_append, length_take, length_drop] at hlength
      omega
    . intro c hc
      rcases List.mem_append.mp (hmem c hc) with hc | hc
      . exact mem_of_mem_take hc
      . exact mem_of_mem_drop hc

variable {mem : List Char}

theorem startsDots_append (h : 3 ≤ text.length)
    : startsDots (text ++ mem) = some (decide (text.take 3 = ['/', '.', '.'])) := by
  obtain ⟨c0, c1, c2, rest, rfl⟩ : ∃ c0 c1 c2 rest, text = c0 :: c1 :: c2 :: rest := by
    match text, h with
    | c0 :: c1 :: c2 :: rest, _ => exact ⟨c0, c1, c2, rest, rfl⟩
  unfold startsDots
  simp only [cons_append]
  split
  . next h0 => simp [h0]
  next h0 =>
  split
  . next h1 => simp [h1]
  . next h1 =>
    rw [not_not] at h0 h1
    simp [h0, h1]

variable {len : Nat}

theorem sizeSubTwo_of_le (h : 2 ≤ len) (hlen : len < 2 ^ 64) : sizeSubTwo len = len - 2 := by
  unfold sizeSubTwo
  omega

theorem sizeSubTwo_of_lt (h : len < 2) : 2 ^ 64 - 2 ≤ sizeSubTwo len := by
  unfold sizeSubTwo
  omega

theorem findDots_text (hlen : 2 ≤ len) (hsize : len < 2 ^ 64) (hi : i + text.length = len)
    : findDots len i (text ++ nul :: mem) = some ((findDotsText text).map (i + ·)) := by
  have hbound := sizeSubTwo_of_le hlen hsize
  induction text generalizing i with
  | nil =>
    simp only [length_nil, Nat.add_zero] at hi
    rw [nil_append, findDots, if_neg (by omega)]
    rfl
  | cons c rest ih =>
    rw [length_cons] at hi
    have ih' := @ih (i + 1) (by omega)
    by_cases hlt : i < sizeSubTwo len
    . have hstarts := @startsDots_append (c :: rest) (nul :: mem) (by rw [length_cons]; omega)
      rw [cons_append] at hstarts
      -- the component ends at the end of the string or at a slash
      have hend : (decide (i + 3 = len)
            || (decide (i + 3 < len) && decide ((rest ++ nul :: mem)[2]? = some '/')))
          = (decide ((c :: rest)[3]? = none) || decide ((c :: rest)[3]? = some '/')) := by
        rw [getElem?_cons_succ]
        by_cases hrest : rest.length = 2
        . have hnone : rest[2]? = none := getElem?_eq_none (by omega)
          rw [hnone, decide_eq_true (by omega)]
          rfl
        . rw [getElem?_append_left (by omega), getElem?_eq_getElem (by omega),
            decide_eq_false (by omega), decide_eq_true (by omega)]
          simp
      rw [cons_append, findDots, if_pos hlt, hstarts]
      dsimp only
      rw [hend, findDotsText, atDots]
      split
      . rfl
      rw [ih']
      cases findDotsText rest with
      | none => rfl
      | some =>
        simp only [map_some, some.injEq]
        omega
    have hnone : findDotsText (c :: rest) = none := by
      cases hfind : findDotsText (c :: rest) with
      | none => rfl
      | some =>
        have hlength := findDotsText_lt hfind
        rw [length_cons] at hlength
        omega
    rw [cons_append, findDots, if_neg hlt, hnone]
    rfl

theorem findDots_outside {mem : Mem} (hlen : len < 2) (hi : i + mem.length < 2 ^ 64 - 2)
    : findDots len i mem = none := by
  have hbound := sizeSubTwo_of_lt hlen
  induction mem generalizing i with
  | nil =>
    rw [findDots, if_pos (by omega)]
  | cons _ _ ih =>
    rw [length_cons] at hi
    rw [findDots, if_pos (by omega)]
    split
    . rfl
    . rw [decide_eq_false (by omega), decide_eq_false (by omega), Bool.false_and, Bool.or_false,
        Bool.and_false, if_neg Bool.false_ne_true]
      exact ih (by omega)

theorem findSlash_append (hi : i < text.length) : findSlash (text ++ mem) i = findSlash text i := by
  induction i with
  | zero => rfl
  | succ i ih => rw [findSlash, findSlash, getElem?_append_left hi, ih (by omega)]

variable {stale : List Char}

theorem removeDir_text {dirLo dotsLo : Nat} (hdir : dirLo ≤ dotsLo)
    (hdots : dotsLo + 3 ≤ text.length)
    : ∃ stale', removeDir (text ++ nul :: stale) text.length dirLo (dotsLo + 2)
        = (text.take dirLo ++ text.drop (dotsLo + 3)) ++ nul :: stale'
      ∧ ((text.take dirLo ++ text.drop (dotsLo + 3)) ++ nul :: stale').length
        = (text ++ nul :: stale).length := by
  have htake : (text ++ nul :: stale).take dirLo = text.take dirLo :=
    take_append_of_le_length (by omega)
  have hmoved : ((text ++ nul :: stale).take (text.length + 1)).drop (dotsLo + 2 + 1)
      = text.drop (dotsLo + 3) ++ [nul] := by
    rw [take_length_add_append, drop_append_of_le_length (by omega)]
    rfl
  refine ⟨(text ++ nul :: stale).drop (text.length + 1 - (dotsLo + 2 + 1 - dirLo)), ?_, ?_⟩
  . rw [removeDir, htake, hmoved]
    simp
  . simp
    omega

theorem removeDotDot_succ {fuel : Nat} {isModified : Bool} (hnul : nul ∉ text)
    (hlen : 2 ≤ text.length) (hsize : text.length < 2 ^ 64)
    : removeDotDot (fuel + 1) isModified (text ++ nul :: stale)
      = match findDotsText text with
        | none => some (if isModified then .modified else .unmodified, text ++ nul :: stale)
        | some dotsLo =>
          if dotsLo < 1 then
            some (.invalid, text ++ nul :: stale)
          else
            match findSlash text (dotsLo - 1) with
            | none => some (.invalid, text ++ nul :: stale)
            | some dirLo => removeDotDot fuel true
                (removeDir (text ++ nul :: stale) text.length dirLo (dotsLo + 2)) := by
  have hfind := @findDots_text text 0 stale text.length hlen hsize (by omega)
  rw [removeDotDot, strlen_append hnul, bind_eq_bind, bind_some, hfind,
    bind_eq_bind, bind_some]
  cases hdots : findDotsText text with
  | none => rfl
  | some =>
    have hlt := findDotsText_lt hdots
    simp only [map_some, Nat.zero_add]
    rw [findSlash_append (by omega)]
    rfl

theorem removeDotDot_text {fuel : Nat} {isModified : Bool} (hnul : nul ∉ text)
    (hfuel : text.length < fuel) (hsize : (text ++ nul :: stale).length < 2 ^ 64 - 2)
    : (removeDotDotText text).IsResult (text ++ nul :: stale).length
        (removeDotDot fuel isModified (text ++ nul :: stale)) := by
  have hlt : text.length < 2 ^ 64 := by
    rw [length_append] at hsize
    omega
  obtain ⟨fuel, rfl⟩ : ∃ fuel', fuel = fuel' + 1 := ⟨fuel - 1, by omega⟩
  fun_induction removeDotDotText text generalizing fuel isModified stale with
  | case1 text hlen =>
    rw [removeDotDot, strlen_append hnul, bind_eq_bind, bind_some, findDots_outside hlen (by omega)]
    rfl
  | case2 text hlen hdots =>
    refine ⟨if isModified then .modified else .unmodified, stale, ?_, ?_, rfl⟩
    . cases isModified <;> exact (nomatch ·)
    . rw [removeDotDot_succ hnul (by omega) hlt, hdots]
  | case3 text hlen dotsLo hdots hlo =>
    refine ⟨_, ?_, rfl⟩
    rw [removeDotDot_succ hnul (by omega) hlt, hdots]
    exact if_pos hlo
  | case4 text hlen dotsLo hdots hlo hslash =>
    refine ⟨_, ?_, rfl⟩
    rw [removeDotDot_succ hnul (by omega) hlt, hdots]
    dsimp only
    rw [if_neg hlo, hslash]
  | case5 text hlen dotsLo hdots hlo dirLo hslash ih =>
    have hdotsLt := findDotsText_lt hdots
    have hdirLe := findSlash_le hslash
    obtain ⟨stale', hremove, hlength⟩ := @removeDir_text text stale dirLo dotsLo (by omega) hdotsLt
    have hshorter : (text.take dirLo ++ text.drop (dotsLo + 3)).length < text.length := by
      simp
      omega
    have hnul' : nul ∉ text.take dirLo ++ text.drop (dotsLo + 3) := by
      rw [List.mem_append, not_or]
      exact ⟨fun h => hnul (mem_of_mem_take h), fun h => hnul (mem_of_mem_drop h)⟩
    have hstep : removeDotDot (fuel + 1) isModified (text ++ nul :: stale)
        = removeDotDot fuel true ((text.take dirLo ++ text.drop (dotsLo + 3)) ++ nul :: stale') := by
      rw [removeDotDot_succ hnul (by omega) hlt, hdots]
      dsimp only
      rw [if_neg hlo, hslash]
      exact congrArg (removeDotDot fuel true) hremove
    obtain ⟨fuel, rfl⟩ : ∃ fuel', fuel = fuel' + 1 := ⟨fuel - 1, by omega⟩
    rw [hstep, ← hlength]
    exact @ih stale' true hnul' (by rw [hlength]; exact hsize) (by omega) fuel (by omega)

end DotDot

theorem hasBadChar_text (hnul : nul ∉ text)
    : hasBadChar (text ++ nul :: stale) = some (text.any isBadChar) := by
  induction text with
  | nil => rfl
  | cons c text ih =>
    rw [mem_cons, not_or] at hnul
    rw [cons_append, hasBadChar, if_neg (Ne.symm hnul.1), ih hnul.2, any_cons]
    cases isBadChar c <;> rfl

def trailingSlashText (text : List Char) : Option (List Char) :=
  let endOfAuthority := findFrom text 0
  let endOfModule := findFrom text (endOfAuthority + 2)
  if endOfAuthority = 0 then
    none
  else if endOfModule = 0 ∧ endOfAuthority = text.length - 1 then
    none
  else if endOfModule = 0 ∧ text.getLast? ≠ some '/' then
    if text.length + rsyncScheme.length + 1 > dbUriLen then none else some (text ++ ['/'])
  else if endOfModule = text.length - 1 ∨ text.getLast? ≠ some '/' then
    some text
  else
    some text.dropLast

theorem length_trailingSlashText (h : trailingSlashText text = some uri)
    : uri.length ≤ text.length
      ∨ uri.length ≤ text.length + 1 ∧ uri.length + rsyncScheme.length ≤ dbUriLen := by
  unfold trailingSlashText at h
  dsimp only at h
  split at h
  . cases h
  split at h
  . cases h
  split at h
  . split at h
    . cases h
    next hfits =>
    cases h
    right
    rw [length_append, length_singleton]
    omega
  split at h
  . cases h
    exact .inl (Nat.le_refl _)
  . cases h
    left
    rw [length_dropLast]
    omega

theorem checkTrailingSlash_text (hnul : nul ∉ text)
    (hroom : ∀ uri, trailingSlashText text = some uri → uri.length < (text ++ nul :: stale).length)
    : match trailingSlashText text with
      | some uri => nul ∉ uri ∧ ∃ ret stale', ret ≠ .invalid ∧ ret ≠ .tooLong
        ∧ checkTrailingSlash (text ++ nul :: stale) = some (ret, uri ++ nul :: stale')
        ∧ (uri ++ nul :: stale').length = (text ++ nul :: stale).length
      | none => ∃ ret mem, (ret = .invalid ∨ ret = .tooLong)
        ∧ checkTrailingSlash (text ++ nul :: stale) = some (ret, mem)
        ∧ mem.length = (text ++ nul :: stale).length := by
  have htake : (text ++ nul :: stale).take text.length = text := take_left
  unfold checkTrailingSlash
  rw [strlen_append hnul]
  simp only [bind_eq_bind, bind_some, htake]
  unfold trailingSlashText at hroom ⊢
  by_cases hauthority : findFrom text 0 = 0
  . simp only [if_pos hauthority]
    exact ⟨.invalid, _, .inl rfl, rfl, rfl⟩
  by_cases hempty : findFrom text (findFrom text 0 + 2) = 0 ∧ findFrom text 0 = text.length - 1
  . simp only [if_neg hauthority, if_pos hempty]
    exact ⟨.invalid, _, .inl rfl, rfl, rfl⟩
  by_cases hmodule : findFrom text (findFrom text 0 + 2) = 0 ∧ text.getLast? ≠ some '/'
  . by_cases hlong : text.length + rsyncScheme.length + 1 > dbUriLen
    . simp only [if_neg hauthority, if_neg hempty, if_pos hmodule, if_pos hlong]
      exact ⟨.tooLong, _, .inr rfl, rfl, rfl⟩
    simp only [if_neg hauthority, if_neg hempty, if_pos hmodule, if_neg hlong] at hroom ⊢
    have hlt := hroom _ rfl
    have hnul' : nul ∉ text ++ ['/'] := by
      rw [List.mem_append, not_or]
      exact ⟨hnul, by decide⟩
    rw [strcpy_eq hlt, bind_some]
    refine ⟨hnul', .modified, _, (nomatch ·), (nomatch ·), rfl, ?_⟩
    simp only [length_append, length_cons, length_nil, length_drop] at hlt ⊢
    omega
  by_cases hslash : findFrom text (findFrom text 0 + 2) = text.length - 1 ∨ text.getLast? ≠ some '/'
  . simp only [if_neg hauthority, if_neg hempty, if_neg hmodule, if_pos hslash]
    exact ⟨hnul, .unmodified, stale, (nomatch ·), (nomatch ·), rfl, rfl⟩
  simp only [if_neg hauthority, if_neg hempty, if_neg hmodule, if_neg hslash]
  refine ⟨fun h => hnul (mem_of_mem_dropLast h), .modified, _, (nomatch ·), (nomatch ·), rfl, ?_⟩
  have hlast : text.getLast? = some '/' := by
    rw [not_or, not_not] at hslash
    exact hslash.2
  have hne : text ≠ [] := by
    rintro rfl
    cases hlast
  have hpos := length_pos_iff.mpr hne
  simp only [length_append, length_cons, length_dropLast, length_drop]
  omega

inductive UriResult where
  | uri (text : List Char)
  | dropped
  | outside
  deriving DecidableEq, Repr

def UriResult.IsResult (size : Nat) (result : Option (Option (List Char) × Mem)) : UriResult → Prop
  | .uri text => ∃ mem, result = some (some text, mem) ∧ mem.length = size
  | .dropped => ∃ mem, result = some (none, mem) ∧ mem.length = size
  | .outside => result = none

def scrubText (ch : Char) (rest : List Char) : DotDot :=
  let c := collapseText ch rest
  if c.foundDots then removeDotDotText (ch :: c.text) else .done (ch :: c.text)

def uriOfText (ch : Char) (rest : List Char) : UriResult :=
  match scrubText ch rest with
  | .done text =>
    match trailingSlashText text with
    | some uri => .uri uri
    | none => .dropped
  | .invalid => .dropped
  | .outside => .outside

variable {ch : Char} {rest : List Char}

theorem scrubText_done (h : scrubText ch rest = .done text)
    : text.length ≤ (ch :: rest).length ∧ (nul ∉ ch :: rest → nul ∉ text) := by
  have hle := length_collapseText ch rest
  unfold scrubText at h
  dsimp only at h
  have htext : text.length ≤ (ch :: (collapseText ch rest).text).length
      ∧ ∀ c ∈ text, c ∈ ch :: (collapseText ch rest).text := by
    split at h
    . exact removeDotDotText_done h
    . cases h
      exact ⟨Nat.le_refl _, fun _ hc => hc⟩
  constructor
  . simp only [length_cons] at htext ⊢
    omega
  intro hnul hmem
  rw [mem_cons, not_or] at hnul
  rcases mem_cons.mp (htext.2 nul hmem) with heq | hmem
  . exact hnul.1 heq
  . exact nul_notMem_collapseText hnul.2 hmem

theorem length_uriOfText (h : uriOfText ch rest = .uri uri)
    : uri.length ≤ (ch :: rest).length
      ∨ uri.length ≤ (ch :: rest).length + 1 ∧ uri.length + rsyncScheme.length ≤ dbUriLen := by
  unfold uriOfText at h
  split at h
  . next hscrub =>
    have htext := (scrubText_done hscrub).1
    split at h
    . next hslash =>
      cases h
      have hlength := length_trailingSlashText hslash
      omega
    . cases h
  . cases h
  . cases h

theorem appendSection_text (hnul : nul ∉ text)
    (hroom : ∀ uri, trailingSlashText text = some uri → uri.length < (text ++ nul :: stale).length)
    : ∃ mem, appendSection (text ++ nul :: stale) = some (trailingSlashText text, mem)
      ∧ mem.length = (text ++ nul :: stale).length := by
  have hcheck := checkTrailingSlash_text hnul hroom
  unfold appendSection
  cases hslash : trailingSlashText text with
  | some =>
    rw [hslash] at hcheck
    obtain ⟨hnul', ret, _, hvalid, hshort, hcheck, hlength⟩ := hcheck
    refine ⟨_, ?_, hlength⟩
    rw [hcheck, bind_eq_bind, bind_some]
    cases ret with
    | unmodified
    | modified =>
      dsimp only
      rw [strlen_append hnul', bind_eq_bind, bind_some, take_left]
      rfl
    | invalid => exact absurd rfl hvalid
    | tooLong => exact absurd rfl hshort
  | none =>
    rw [hslash] at hcheck
    obtain ⟨ret, mem, hret, hcheck, hlength⟩ := hcheck
    refine ⟨mem, ?_, hlength⟩
    rw [hcheck]
    rcases hret with rfl | rfl <;> rfl

theorem checkUriChars_text (hnul : nul ∉ ch :: text) (hbad : hasBadChar (ch :: rest) = some false)
    (hcollapse : collapse ch rest = some (collapseText ch text)) (hlen : text.length < rest.length)
    (hsize : (ch :: rest).length < 2 ^ 64 - 2)
    : (scrubText ch text).IsResult (ch :: rest).length (checkUriChars (ch :: rest)) := by
  have hle := length_collapseText ch text
  rw [mem_cons, not_or] at hnul
  have hnul' : nul ∉ ch :: (collapseText ch text).text :=
    not_mem_cons_of_ne_of_not_mem hnul.1 (nul_notMem_collapseText hnul.2)
  simp only [checkUriChars, scrubText, hbad, hcollapse, bind_eq_bind, bind_some,
    Bool.false_eq_true, if_false]
  generalize collapseText ch text = c at *
  have hlength : (ch :: c.text ++ nul :: (ch :: rest).drop (c.text.length + 2)).length
      = (ch :: rest).length := by
    simp
    omega
  cases hdots : c.foundDots with
  | false =>
    refine ⟨if c.isModified then .modified else .unmodified, _, ?_, rfl, hlength⟩
    cases c.isModified <;> exact (nomatch ·)
  | true =>
    have hfuel : (ch :: c.text).length < (ch :: rest).length := by
      simp only [length_cons]
      omega
    have hremove := @removeDotDot_text (ch :: c.text) ((ch :: rest).drop (c.text.length + 2))
      (ch :: rest).length false hnul' hfuel (by rw [hlength]; exact hsize)
    rw [hlength] at hremove ⊢
    cases hres : removeDotDotText (ch :: c.text) with
    | done =>
      rw [hres] at hremove
      obtain ⟨ret, stale, hret, hremove, hlength'⟩ := hremove
      rw [hremove]
      refine ⟨if ret = .modified || c.isModified then .modified else .unmodified, stale, ?_, ?_, hlength'⟩
      . split <;> exact (nomatch ·)
      cases ret with
      | invalid => exact absurd rfl hret
      | unmodified
      | modified
      | tooLong => rfl
    | invalid =>
      rw [hres] at hremove
      obtain ⟨mem, hremove, hlength'⟩ := hremove
      refine ⟨mem, ?_, hlength'⟩
      rw [hremove]
      rfl
    | outside =>
      rw [hres] at hremove
      rw [hremove]
      rfl

theorem checkSection_text (hnul : nul ∉ ch :: text) (hbad : hasBadChar (ch :: rest) = some false)
    (hcollapse : collapse ch rest = some (collapseText ch text)) (hlen : text.length < rest.length)
    (hsize : (ch :: rest).length < 2 ^ 64 - 2)
    (hroom : ∀ uri, uriOfText ch text = .uri uri → uri.length < (ch :: rest).length)
    : (uriOfText ch text).IsResult (ch :: rest).length (checkSection (ch :: rest)) := by
  have hcheck := checkUriChars_text hnul hbad hcollapse hlen hsize
  unfold uriOfText at hroom ⊢
  cases hscrub : scrubText ch text with
  | done text' =>
    rw [hscrub] at hcheck hroom
    obtain ⟨ret, stale, hret, hcheck, hlength⟩ := hcheck
    have hnul' := (scrubText_done hscrub).2 hnul
    have hroom' : ∀ uri, trailingSlashText text' = some uri
        → uri.length < (text' ++ nul :: stale).length := by
      intro uri huri
      rw [hlength]
      apply hroom
      dsimp only
      rw [huri]
    obtain ⟨mem, happend, hmem⟩ := appendSection_text hnul' hroom'
    have hsection : checkSection (ch :: rest) = some (trailingSlashText text', mem) := by
      rw [checkSection, hcheck, ← happend]
      cases ret with
      | invalid => exact absurd rfl hret
      | unmodified
      | modified
      | tooLong => rfl
    dsimp only
    cases hslash : trailingSlashText text' with
    | some
    | none =>
      rw [hslash] at hsection
      exact ⟨mem, hsection, hmem.trans hlength⟩
  | invalid =>
    rw [hscrub] at hcheck
    obtain ⟨mem, hcheck, hlength⟩ := hcheck
    refine ⟨mem, ?_, hlength⟩
    rw [checkSection, hcheck]
    rfl
  | outside =>
    rw [hscrub] at hcheck
    rw [checkSection, hcheck]
    rfl

theorem checkSection_bad {mem : Mem} (h : hasBadChar mem = some true)
    : checkSection mem = some (none, mem) := by
  simp only [checkSection, checkUriChars, h, bind_eq_bind, bind_some, if_true]
  rfl

theorem checkSection_outside {rest : Mem} (hbad : hasBadChar (ch :: rest) = some false)
    (hcollapse : collapse ch rest = none) : checkSection (ch :: rest) = none := by
  simp only [checkSection, checkUriChars, hbad, hcollapse, bind_eq_bind, bind_some,
    Bool.false_eq_true, if_false, bind_none]

theorem checkSection_nul {stale : Mem} (hsize : stale.length < 2 ^ 64 - 3)
    : checkSection (nul :: stale) = none
      ∨ ∃ mem, checkSection (nul :: stale) = some (none, mem) ∧ mem.length = stale.length + 1 := by
  have hbad : hasBadChar (nul :: stale) = some false := if_pos rfl
  cases hcollapse : collapse nul stale with
  | none => exact .inl (checkSection_outside hbad hcollapse)
  | some c =>
    have hlen : c.text.length < stale.length := by
      obtain ⟨text, _, hlt, _, rfl⟩ := exists_of_collapse hcollapse
      exact Nat.lt_of_le_of_lt (length_collapseText _ _) hlt
    simp only [checkSection, checkUriChars, hbad, hcollapse, bind_eq_bind, bind_some,
      Bool.false_eq_true, if_false]
    have hlength : (nul :: c.text ++ nul :: (nul :: stale).drop (c.text.length + 2)).length
        = stale.length + 1 := by
      simp
      omega
    cases c.foundDots with
    | true =>
      left
      have hremove : removeDotDot
          (nul :: c.text ++ nul :: (nul :: stale).drop (c.text.length + 2)).length false
          (nul :: c.text ++ nul :: (nul :: stale).drop (c.text.length + 2)) = none := by
        change (some 0 >>= fun len => findDots len 0 _ >>= _) = none
        rw [bind_eq_bind, bind_some, findDots_outside (by omega) (by omega)]
        rfl
      simp only [if_true, hremove, bind_none]
    | false =>
      right
      obtain ⟨mem, happend, hmem⟩ := @appendSection_text []
        (c.text ++ nul :: (nul :: stale).drop (c.text.length + 2)) not_mem_nil (fun _ h => nomatch h)
      refine ⟨mem, ?_, hmem.trans hlength⟩
      cases c.isModified <;> exact happend

end Rpstir.Chaser
