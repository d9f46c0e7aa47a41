import Mathlib.Data.Nat.Digits.Defs
import Rpstir.Data.CString
import Rpstir.Sqhl.RoaInsert

/-!
This module contains the INSERT statements that `add_roa_internal` builds in a buffer of fixed size, and
that they have each prefix once.
-/

namespace Rpstir.Sqhl

open CString

structure MultiinsertText where
  buf : List Char
  idx : Nat
  i : Nat
  statements : List (List Char)
  deriving DecidableEq, Repr

def MultiinsertText.start (s : MultiinsertText) : MultiinsertText :=
  if s.idx = 0 then
    let pre := multiinsertPre.toList
    { s with buf := pre ++ s.buf.drop pre.length, idx := pre.length }
  else
    s

def executeText (fails : Nat → Option Err) (statements : List (List Char)) (buf : List Char)
    : Option (Option Err × List (List Char)) :=
  (read buf).map fun statement => (fails statements.length, statements ++ [statement])

/--
The loop over the prefixes. The result is the status and the statements, or `none` if a statement that
does not end in the buffer is executed.
-/
def insertPrefixTexts (fails : Nat → Option Err) (roaId : UInt32) (prefixes : List RoaPrefix)
    (s : MultiinsertText) : Option (Except Err Unit × List (List Char)) :=
  match hp : prefixes[s.i]? with
  | none => some (.ok (), s.statements)
  | some p =>
    let idx := s.start.idx
    let text := (prefixTuple roaId.toNat p).toList
    let buf := snprintf idx (multiinsertLen - idx) text s.start.buf
    if text.length ≥ multiinsertLen - idx then
      if _hidx : idx = multiinsertPre.toList.length then
        some (.error .internal, s.statements)
      else
        let buf := buf.set (idx - 1) nul
        match executeText fails s.statements buf with
        | none => none
        | some (some e, statements) => some (.error e, statements)
        -- the prefix that did not fit is the first one of the next statement: `i--` and then `i++`
        | some (none, statements) => insertPrefixTexts fails roaId prefixes ⟨buf, 0, s.i, statements⟩
    else if s.i ≥ prefixes.length - 1 then
      let buf := buf.set (idx + text.length - 1) nul
      match executeText fails s.statements buf with
      | none => none
      | some (some e, statements) => some (.error e, statements)
      | some (none, statements) => insertPrefixTexts fails roaId prefixes ⟨buf, 0, s.i + 1, statements⟩
    else
      insertPrefixTexts fails roaId prefixes ⟨buf, idx + text.length, s.i + 1, s.statements⟩
  termination_by (prefixes.length - s.i, s.idx)
  decreasing_by
    all_goals have hlt := (List.getElem?_eq_some_iff.mp hp).1
    . have hpos : s.idx ≠ 0 := by
        intro hzero
        exact _hidx (by simp [idx, MultiinsertText.start, hzero])
      apply Prod.Lex.right
      exact Nat.pos_of_ne_zero hpos
    . apply Prod.Lex.left
      omega
    . apply Prod.Lex.left
      omega

def prefixRow (roaId : Nat) (p : RoaPrefix) : String :=
  "(" ++ toString roaId ++ ", " ++ hexifyX p.prefixBytes ++ ", " ++ toString p.prefixLength.toNat ++ ", "
    ++ toString p.prefixMaxLength.toNat ++ ")"

def insertStatement (roaId : Nat) (rows : List RoaPrefix) : List Char :=
  multiinsertPre.toList ++ [','].intercalate (rows.map fun p => (prefixRow roaId p).toList)

def collected (roaId : Nat) (rows : List RoaPrefix) : List Char :=
  multiinsertPre.toList ++ rows.flatMap fun p => (prefixTuple roaId p).toList

variable {roaId : Nat}

theorem toList_prefixTuple (p : RoaPrefix)
    : (prefixTuple roaId p).toList = (prefixRow roaId p).toList ++ [','] := by
  simp [prefixTuple, prefixRow]

theorem collected_append (rows : List RoaPrefix) (p : RoaPrefix)
    : collected roaId (rows ++ [p]) = collected roaId rows ++ (prefixTuple roaId p).toList := by
  simp [collected]

variable {rows : List RoaPrefix} {n : Nat} {e : Err}

theorem collected_eq (h : rows ≠ [])
    : collected roaId rows = insertStatement roaId rows ++ [','] := by
  have hrows : (rows.flatMap fun p => (prefixTuple roaId p).toList)
      = [','].intercalate (rows.map fun p => (prefixRow roaId p).toList) ++ [','] := by
    induction rows with
    | nil => contradiction
    | cons p rows ih =>
      cases rows with
      | nil => simp [toList_prefixTuple]
      | cons =>
        rw [List.flatMap_cons, ih (by simp), toList_prefixTuple]
        simp [List.intercalate]
  rw [collected, insertStatement, hrows, List.append_assoc]

theorem nul_notMem_toString (n : Nat) : nul ∉ (toString n).toList := by
  intro h
  rw [Nat.toString_eq_repr, Nat.toList_repr] at h
  have hdigit := Nat.isDigit_of_mem_toDigits (by decide) (by decide) h
  exact absurd hdigit (by decide)

theorem nul_notMem_hexifyX (bytes : List UInt8) : nul ∉ (hexifyX bytes).toList := by
  have hdigit (n : Nat) : hexDigit n ≠ nul := Nat.digitChar_ne nul (by decide)
  unfold hexifyX
  split
  . decide
  . simp [Ne.symm (hdigit _)]
    decide

theorem nul_notMem_prefixTuple (p : RoaPrefix) : nul ∉ (prefixTuple roaId p).toList := by
  simp only [prefixTuple, String.toList_append, List.mem_append, not_or]
  exact ⟨⟨⟨⟨⟨⟨⟨⟨by decide, nul_notMem_toString _⟩, by decide⟩, nul_notMem_hexifyX _⟩, by decide⟩,
    nul_notMem_toString _⟩, by decide⟩, nul_notMem_toString _⟩, by decide⟩

theorem nul_notMem_insertStatement (h : rows ≠ []) : nul ∉ insertStatement roaId rows := by
  intro hmem
  have hcollected : nul ∈ collected roaId rows := by
    rw [collected_eq h]
    exact List.mem_append_left _ hmem
  rcases List.mem_append.mp hcollected with hpre | hrows
  . exact absurd hpre (by decide)
  . rcases List.mem_flatMap.mp hrows with ⟨p, -, hp⟩
    exact nul_notMem_prefixTuple p hp

theorem length_hexifyX (bytes : List UInt8) : (hexifyX bytes).toList.length ≤ 3 + 2 * bytes.length := by
  unfold hexifyX
  split
  . simp
  . simp only [String.toList_append, List.length_append, String.toList_ofList, List.length_flatMap]
    simp
    omega

theorem length_prefixTuple {p : RoaPrefix} (hbytes : p.prefixBytes.length ≤ 16) (hid : roaId < 10 ^ 10)
    : (prefixTuple roaId p).toList.length ≤ 61 := by
  have hlength {n : Nat} (e : Nat) (he : 0 < e) (hn : n < 10 ^ e) : (toString n).toList.length ≤ e := by
    rw [Nat.toString_eq_repr, Nat.toList_repr]
    exact Nat.toDigits_length 10 n e he hn
  have hbyte (b : UInt8) : (toString b.toNat).toList.length ≤ 3 :=
    hlength 3 (by decide) (by have := b.toNat_lt; omega)
  have hroaId := hlength 10 (by decide) hid
  have hhex := length_hexifyX p.prefixBytes
  have hprefixLength := hbyte p.prefixLength
  have hmaxLength := hbyte p.prefixMaxLength
  simp only [prefixTuple, String.toList_append, List.length_append]
  have hchars : "(".toList.length = 1 ∧ ", ".toList.length = 2 ∧ "),".toList.length = 2 := by decide
  omega

structure Batched (roaId : Nat) (statements : List (List Char)) (batches : List (List RoaPrefix))
    : Prop where
  statements_eq : statements = batches.map (insertStatement roaId)
  ne_nil : ∀ b ∈ batches, b ≠ []
  fits : ∀ b ∈ batches, (insertStatement roaId b).length < multiinsertLen

structure Batching (roaId : Nat) (prefixes : List RoaPrefix) (s : MultiinsertText)
    (batches : List (List RoaPrefix)) (batch : List RoaPrefix) : Prop where
  batched : Batched roaId s.statements batches
  take : prefixes.take s.i = batches.flatten ++ batch
  length_buf : s.buf.length = multiinsertLen
  buf : s.idx = 0 ∧ batch = [] ∨
    batch ≠ [] ∧ s.idx = (collected roaId batch).length ∧ s.idx ≤ multiinsertLen ∧
      s.buf.take s.idx = collected roaId batch ∧ s.i < prefixes.length

namespace Batching

variable {prefixes batch : List RoaPrefix} {s : MultiinsertText} {batches : List (List RoaPrefix)}

variable {text : List Char} {p : RoaPrefix}

theorem start (h : Batching roaId prefixes s batches batch)
    : s.start.buf.length = multiinsertLen ∧ s.start.idx ≤ multiinsertLen ∧
        s.start.idx = (collected roaId batch).length ∧
        s.start.buf.take s.start.idx = collected roaId batch := by
  have hpre : 0 < multiinsertPre.toList.length ∧ multiinsertPre.toList.length ≤ multiinsertLen := by
    decide
  unfold MultiinsertText.start
  rcases h.buf with ⟨hzero, rfl⟩ | ⟨_, hlength, hle, htake, -⟩
  . rw [if_pos hzero]
    refine ⟨?_, hpre.2, by simp [collected], by simp [collected]⟩
    rw [List.length_append, List.length_drop, h.length_buf]
    omega
  have hpos : s.idx ≠ 0 := by
    rw [hlength, collected, List.length_append]
    omega
  rw [if_neg hpos]
  exact ⟨h.length_buf, hle, hlength, htake⟩

variable {buf : List Char}

theorem read_statement (hbuf : buf.length = multiinsertLen) (hne : batch ≠ [])
    (hn : n + 1 = (collected roaId batch).length) (hle : n < multiinsertLen)
    (htake : buf.take (n + 1) = collected roaId batch)
    : (insertStatement roaId batch).length = n ∧
        read (buf.set n nul) = some (insertStatement roaId batch) := by
  have hlength : (insertStatement roaId batch).length = n := by
    rw [collected_eq hne, List.length_append, List.length_singleton] at hn
    omega
  refine ⟨hlength, read_set (by omega) ?_ (nul_notMem_insertStatement hne)⟩
  rw [← Nat.min_eq_left (Nat.le_succ n), ← List.take_take, htake, collected_eq hne, ← hlength,
    List.take_left]

section

variable (h : Batching roaId prefixes s batches batch)

include h

theorem execute (fails : Nat → Option Err) {i : Nat} (hbuf : buf.length = multiinsertLen)
    (hne : rows ≠ []) (hn : n + 1 = (collected roaId rows).length) (hle : n < multiinsertLen)
    (htake : buf.take (n + 1) = collected roaId rows)
    (hprefixes : prefixes.take i = batches.flatten ++ rows)
    : executeText fails s.statements (buf.set n nul)
        = some (fails s.statements.length, s.statements ++ [insertStatement roaId rows]) ∧
      Batching roaId prefixes ⟨buf.set n nul, 0, i, s.statements ++ [insertStatement roaId rows]⟩
        (batches ++ [rows]) [] := by
  rcases read_statement hbuf hne hn hle htake with ⟨hlength, hread⟩
  constructor
  . rw [executeText, hread, Option.map_some]
  refine ⟨⟨?_, ?_, ?_⟩, by simp [hprefixes], by simp [hbuf], .inl ⟨rfl, rfl⟩⟩
  . rw [h.batched.statements_eq, List.map_append]
    rfl
  . intro b hb
    rcases List.mem_append.mp hb with hb | hb
    . exact h.batched.ne_nil b hb
    . rw [List.mem_singleton.mp hb]
      exact hne
  intro b hb
  rcases List.mem_append.mp hb with hb | hb
  . exact h.batched.fits b hb
  . rw [List.mem_singleton.mp hb, hlength]
    exact hle

theorem isPrefix : batches.flatten <+: prefixes := by
  refine List.IsPrefix.trans ?_ (List.take_prefix s.i prefixes)
  rw [h.take]
  exact List.prefix_append _ _

theorem ne_nil (hidx : s.start.idx ≠ multiinsertPre.toList.length) : batch ≠ [] := by
  rintro rfl
  exact hidx (by simp [h.start.2.2.1, collected])

theorem truncated (fails : Nat → Option Err)
    (hidx : s.start.idx ≠ multiinsertPre.toList.length) (buf : List Char)
    (hbuf : buf = (snprintf s.start.idx (multiinsertLen - s.start.idx) text s.start.buf).set
      (s.start.idx - 1) nul)
    : executeText fails s.statements buf
        = some (fails s.statements.length, s.statements ++ [insertStatement roaId batch]) ∧
      Batching roaId prefixes ⟨buf, 0, s.i, s.statements ++ [insertStatement roaId batch]⟩
        (batches ++ [batch]) [] := by
  rcases h.start with ⟨hlength, _, hstart, htake⟩
  have hsize : s.start.idx + (multiinsertLen - s.start.idx) = s.start.buf.length := by omega
  have hne := h.ne_nil hidx
  have hpos : 0 < s.start.idx := by
    rw [hstart, collected_eq hne, List.length_append]
    exact Nat.lt_add_left _ Nat.one_pos
  rw [hbuf]
  refine h.execute fails ((length_snprintf hsize).trans hlength) hne ?_ (by omega) ?_ h.take
  . omega
  . rw [Nat.sub_add_cancel hpos, take_snprintf_offset hsize]
    exact htake

section Room

variable (hp : prefixes[s.i]? = some p) (htext : text = (prefixTuple roaId p).toList)
  (hroom : ¬text.length ≥ multiinsertLen - s.start.idx)

include htext hroom in
theorem take_snprintf_collected
    : (snprintf s.start.idx (multiinsertLen - s.start.idx) text s.start.buf).length = multiinsertLen ∧
        s.start.idx + text.length = (collected roaId (batch ++ [p])).length ∧
        (snprintf s.start.idx (multiinsertLen - s.start.idx) text s.start.buf).take
          (s.start.idx + text.length) = collected roaId (batch ++ [p]) := by
  rcases h.start with ⟨hlength, _, hstart, htake⟩
  have hsize : s.start.idx + (multiinsertLen - s.start.idx) = s.start.buf.length := by omega
  refine ⟨(length_snprintf hsize).trans hlength, ?_, ?_⟩
  . rw [collected_append, List.length_append, hstart, htext]
  . rw [take_snprintf hsize (by omega), htake, collected_append, htext]

include hp

theorem take_succ : prefixes.take (s.i + 1) = batches.flatten ++ (batch ++ [p]) := by
  rw [List.take_add_one, hp, h.take, Option.toList_some, List.append_assoc]

include htext hroom

theorem last (fails : Nat → Option Err) (buf : List Char)
    (hbuf : buf = (snprintf s.start.idx (multiinsertLen - s.start.idx) text s.start.buf).set
      (s.start.idx + text.length - 1) nul)
    : executeText fails s.statements buf
        = some (fails s.statements.length, s.statements ++ [insertStatement roaId (batch ++ [p])]) ∧
      Batching roaId prefixes
        ⟨buf, 0, s.i + 1, s.statements ++ [insertStatement roaId (batch ++ [p])]⟩
        (batches ++ [batch ++ [p]]) [] := by
  rcases h.take_snprintf_collected htext hroom with ⟨hlength, hidx, htake⟩
  have hpos : 0 < s.start.idx + text.length := by
    rw [hidx, collected_eq (by simp), List.length_append]
    exact Nat.lt_add_left _ Nat.one_pos
  rw [hbuf]
  refine h.execute fails hlength (by simp) ?_ (by omega) ?_ (h.take_succ hp)
  . omega
  . rw [Nat.sub_add_cancel hpos]
    exact htake

theorem collect (hmore : ¬s.i ≥ prefixes.length - 1)
    : Batching roaId prefixes
        ⟨snprintf s.start.idx (multiinsertLen - s.start.idx) text s.start.buf, s.start.idx + text.length,
          s.i + 1, s.statements⟩ batches (batch ++ [p]) := by
  rcases h.take_snprintf_collected htext hroom with ⟨hlength, hidx, htake⟩
  refine ⟨h.batched, h.take_succ hp, hlength, .inr ⟨by simp, hidx, ?_, htake, ?_⟩⟩
  . show s.start.idx + text.length ≤ multiinsertLen
    omega
  . show s.i + 1 < prefixes.length
    omega

end Room

end

end Batching

variable {fails : Nat → Option Err} {batches : List (List RoaPrefix)} {prefixes : List RoaPrefix}
  {s : MultiinsertText}

def Inserts (fails : Nat → Option Err) (roaId : Nat) (prefixes : List RoaPrefix)
    (result : Option (Except Err Unit × List (List Char))) : Prop :=
  ∃ sta statements batches, result = some (sta, statements) ∧ Batched roaId statements batches ∧
    batches.flatten <+: prefixes ∧
    ((∀ n, fails n = none) → sta = .ok () ∧ batches.flatten = prefixes)

theorem Batching.inserts_of_error {prefixes batch : List RoaPrefix}
    (h : Batching roaId prefixes s batches batch) (hfails : fails n = some e)
    : Inserts fails roaId prefixes (some (.error e, s.statements)) := by
  refine ⟨_, _, batches, rfl, h.batched, h.isPrefix, ?_⟩
  intro hnone
  rw [hnone] at hfails
  contradiction

theorem drop_eq_cons {i : Nat} {p : RoaPrefix} (hp : prefixes[i]? = some p)
    : prefixes.drop i = p :: prefixes.drop (i + 1) := by
  rcases List.getElem?_eq_some_iff.mp hp with ⟨hlt, rfl⟩
  exact List.drop_eq_getElem_cons hlt

theorem Multiinsert.execute_of_none {s : Multiinsert} (h : fails s.executed = none)
    : s.execute fails = .ok ⟨s.executed + 1, [], 0, s.rows ++ s.buffered⟩ := by
  simp only [execute, h]

theorem Multiinsert.execute_of_some {s : Multiinsert} (h : fails s.executed = some e)
    : s.execute fails = .error e := by
  simp only [execute, h]

theorem MultiinsertText.start_idx (s : MultiinsertText)
    : s.start.idx = if s.idx = 0 then multiinsertPre.length else s.idx := by
  unfold start
  split
  . exact String.length_toList
  . rfl

/--
The statements have the rows of the batches, and the status is that of the model without texts.
-/
theorem insertPrefixTexts_spec {roaId : UInt32} {batch : List RoaPrefix}
    (h : Batching roaId.toNat prefixes s batches batch) (rows : List RoaPrefix)
    : ((∀ p ∈ prefixes, (prefixTuple roaId.toNat p).toList.length
        < multiinsertLen - multiinsertPre.toList.length)
          → Inserts fails roaId.toNat prefixes (insertPrefixTexts fails roaId prefixes s)) ∧
      ∃ statements, insertPrefixTexts fails roaId prefixes s
        = some ((insertPrefixes fails roaId.toNat ⟨s.statements.length, batch, s.idx, rows⟩
            (prefixes.drop s.i)).1, statements) := by
  have hlength (p : RoaPrefix)
      : (prefixTuple roaId.toNat p).toList.length = (prefixTuple roaId.toNat p).length :=
    String.length_toList
  fun_induction insertPrefixTexts fails roaId prefixes s generalizing batches batch rows with
  | case1 s hp =>
    -- The last prefix has been inserted, or there is none.
    rw [List.getElem?_eq_none_iff] at hp
    rw [List.drop_eq_nil_of_le hp, insertPrefixes]
    refine ⟨fun _ => ?_, _, rfl⟩
    have hbatch : batch = [] := by
      rcases h.buf with ⟨-, hnil⟩ | ⟨-, -, -, -, _⟩
      . exact hnil
      . omega
    have htake := h.take
    rw [List.take_of_length_le hp, hbatch, List.append_nil] at htake
    exact ⟨_, _, batches, rfl, h.batched, h.isPrefix, fun _ => ⟨rfl, htake.symm⟩⟩
  | case2 s p hp =>
    next htruncated hidx =>
    constructor
    . intro hfits
      rw [hidx] at htruncated
      exact absurd htruncated (Nat.not_le_of_lt (hfits p (List.mem_of_getElem? hp)))
    refine ⟨s.statements, ?_⟩
    rw [String.length_toList] at hidx
    rw [drop_eq_cons hp, insertPrefixes, ← s.start_idx, ← hlength, if_pos htruncated, if_pos hidx]
  | case3 =>
    next hidx buf hexecute =>
    rw [(h.truncated fails hidx buf rfl).1] at hexecute
    exact absurd hexecute (Option.some_ne_none _)
  | case4 s p hp =>
    next htruncated hidx buf e statements hexecute =>
    rcases h.truncated fails hidx buf rfl with ⟨heq, hnext⟩
    rw [heq, Option.some.injEq, Prod.mk.injEq] at hexecute
    rw [hexecute.2] at hnext
    refine ⟨fun _ => hnext.inserts_of_error hexecute.1, statements, ?_⟩
    rw [String.length_toList] at hidx
    rw [drop_eq_cons hp, insertPrefixes, ← s.start_idx, ← hlength, if_pos htruncated, if_neg hidx]
    split
    . next heq =>
      rw [Multiinsert.execute_of_some hexecute.1] at heq
      cases heq
      rfl
    . next heq =>
      rw [Multiinsert.execute_of_some hexecute.1] at heq
      cases heq
  | case5 s p hp =>
    next htruncated hidx buf statements hexecute ih =>
    rcases h.truncated fails hidx buf rfl with ⟨heq, hnext⟩
    rw [heq, Option.some.injEq, Prod.mk.injEq] at hexecute
    rw [hexecute.2] at hnext
    rcases ih hnext (rows ++ batch) with ⟨hinserts, statements', hih⟩
    refine ⟨hinserts, statements', ?_⟩
    have hlen : statements.length = s.statements.length + 1 := by
      rw [← hexecute.2, List.length_append, List.length_singleton]
    rw [hih, hlen]
    rw [String.length_toList] at hidx
    rw [drop_eq_cons hp, insertPrefixes.eq_2 _ _ ⟨s.statements.length, batch, s.idx, rows⟩,
      ← s.start_idx, ← hlength, if_pos htruncated, if_neg hidx]
    split
    . next heq =>
      rw [Multiinsert.execute_of_none hexecute.1] at heq
      cases heq
    . next heq =>
      rw [Multiinsert.execute_of_none hexecute.1] at heq
      cases heq
      rfl
  | case6 s p hp =>
    next hroom hlast buf hexecute =>
    rw [(h.last hp rfl hroom fails buf rfl).1] at hexecute
    exact absurd hexecute (Option.some_ne_none _)
  | case7 s p hp =>
    next hroom hlast buf e statements hexecute =>
    rcases h.last hp rfl hroom fails buf rfl with ⟨heq, hnext⟩
    rw [heq, Option.some.injEq, Prod.mk.injEq] at hexecute
    rw [hexecute.2] at hnext
    refine ⟨fun _ => hnext.inserts_of_error hexecute.1, statements, ?_⟩
    have hnil : (prefixes.drop (s.i + 1)).isEmpty = true := by
      rw [List.isEmpty_iff, List.drop_eq_nil_iff]
      omega
    rw [drop_eq_cons hp, insertPrefixes, ← s.start_idx, ← hlength, if_neg hroom, if_pos hnil,
      Multiinsert.execute_of_some hexecute.1]
  | case8 s p hp =>
    next hroom hlast buf statements hexecute ih =>
    rcases h.last hp rfl hroom fails buf rfl with ⟨heq, hnext⟩
    rw [heq, Option.some.injEq, Prod.mk.injEq] at hexecute
    rw [hexecute.2] at hnext
    have hnil : (prefixes.drop (s.i + 1)).isEmpty = true := by
      rw [List.isEmpty_iff, List.drop_eq_nil_iff]
      omega
    rcases ih hnext (rows ++ (batch ++ [p])) with ⟨hinserts, statements', hih⟩
    refine ⟨hinserts, statements', ?_⟩
    rw [hih, drop_eq_cons hp, insertPrefixes.eq_2, ← s.start_idx, ← hlength, if_neg hroom, if_pos hnil,
      Multiinsert.execute_of_none hexecute.1, ← hexecute.2, List.length_append]
    rfl
  | case9 s p hp =>
    next hroom hmore ih =>
    rcases ih (h.collect hp rfl hroom hmore) rows with ⟨hinserts, statements', hih⟩
    refine ⟨hinserts, statements', ?_⟩
    have hcons : ¬(prefixes.drop (s.i + 1)).isEmpty = true := by
      rw [List.isEmpty_iff, List.drop_eq_nil_iff]
      omega
    rw [hih, drop_eq_cons hp, insertPrefixes.eq_2, ← s.start_idx, ← hlength, if_neg hroom, if_neg hcons]

theorem insertPrefixTexts_complete (roaId : UInt32) (prefixes : List RoaPrefix)
    (hfamily : ∀ p ∈ prefixes, p.prefixBytes.length = 4 ∨ p.prefixBytes.length = 16) (buf : List Char)
    (hbuf : buf.length = multiinsertLen)
    : ∃ batches : List (List RoaPrefix),
        insertPrefixTexts (fun _ => none) roaId prefixes ⟨buf, 0, 0, []⟩
          = some (.ok (), batches.map (insertStatement roaId.toNat)) ∧
        batches.flatten = prefixes ∧
        ∀ b ∈ batches, b ≠ [] ∧ (insertStatement roaId.toNat b).length < multiinsertLen := by
  have hfits : ∀ p ∈ prefixes, (prefixTuple roaId.toNat p).toList.length
      < multiinsertLen - multiinsertPre.toList.length := by
    intro p hp
    have hbytes : p.prefixBytes.length ≤ 16 := by
      rcases hfamily p hp with h | h <;> omega
    have hid : roaId.toNat < 10 ^ 10 := by
      have := roaId.toNat_lt
      omega
    have hroom : 61 < multiinsertLen - multiinsertPre.toList.length := by decide
    exact (length_prefixTuple hbytes hid).trans_lt hroom
  have hstart : Batching roaId.toNat prefixes ⟨buf, 0, 0, []⟩ [] [] :=
    ⟨⟨rfl, by simp, by simp⟩, rfl, hbuf, .inl ⟨rfl, rfl⟩⟩
  rcases (insertPrefixTexts_spec hstart []).1 hfits with ⟨_, _, batches, heq, hbatched, -, hall⟩
  rcases hall fun _ => rfl with ⟨rfl, hflatten⟩
  rw [hbatched.statements_eq] at heq
  exact ⟨batches, heq, hflatten, fun b hb => ⟨hbatched.ne_nil b hb, hbatched.fits b hb⟩⟩

theorem insertPrefixTexts_complete_two_thousand
    : ∃ batches : List (List RoaPrefix),
        insertPrefixTexts (fun _ => none) 7 (List.replicate 2000 ⟨[10, 0, 0, 0], 8, 24⟩)
            ⟨List.replicate multiinsertLen 'x', 0, 0, []⟩
          = some (.ok (), batches.map (insertStatement 7)) ∧
        batches.flatten = List.replicate 2000 ⟨[10, 0, 0, 0], 8, 24⟩ ∧
        ∀ b ∈ batches, b ≠ [] ∧ (insertStatement 7 b).length < multiinsertLen := by
  refine insertPrefixTexts_complete 7 (List.replicate 2000 ⟨[10, 0, 0, 0], 8, 24⟩) ?_
    (List.replicate multiinsertLen 'x') List.length_replicate
  intro _ hp
  rw [List.eq_of_mem_replicate hp]
  exact .inl rfl

end Rpstir.Sqhl
