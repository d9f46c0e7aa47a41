import Rpstir.Chaser.Text
import Rpstir.Data.List

/-!
This module contains when the URI that `handle_uri_string` appends for a section depends on that section
only.
-/

namespace Rpstir.Chaser

open List Option

open CString

def behindScheme (s : List Char) : List Char := s.drop rsyncScheme.length

def sectionUri (s : List Char) : Option (List Char) :=
  if isRsync s then
    match behindScheme s with
    | [] => none
    | ch :: rest =>
      if (ch :: rest).any isBadChar || EndsInDot (ch :: rest) then
        none
      else
        match uriOfText ch rest with
        | .uri uri => some uri
        | .dropped => none
        | .outside => none
  else
    none

/--
The checks of the section read behind its end: there is nothing behind its scheme, or its last path
component is a dot.
-/
def ReadsBehind (s : List Char) : Prop :=
  isRsync s = true ∧ (behindScheme s = []
    ∨ (behindScheme s).any isBadChar = false ∧ EndsInDot (behindScheme s))

/--
The sections after this one are not handled: it is empty, or the search for `..` in it leaves the
buffer.
-/
def Stops (s : List Char) : Prop :=
  s = [] ∨ isRsync s = true ∧ ∃ ch rest, behindScheme s = ch :: rest
    ∧ (ch :: rest).any isBadChar = false ∧ ¬EndsInDot (ch :: rest) ∧ uriOfText ch rest = .outside

def Untainted (s : List Char) : Prop :=
  ∀ ch rest z uri, isRsync s = true → behindScheme s = ch :: rest → (ch :: rest).any isBadChar = false
    → EndsInDot (ch :: rest) → nul ∉ z → ¬EndsInDot ('/' :: z) → s.length + z.length < dbUriLen
    → uriOfText ch (rest ++ '/' :: z) ≠ .uri uri

theorem nul_notMem_rsyncScheme : nul ∉ rsyncScheme := by decide

theorem isRsync_text {s stale : List Char} : isRsync (s ++ nul :: stale) = isRsync s := by
  by_cases hlen : rsyncScheme.length ≤ s.length
  . rw [isRsync, isRsync, take_append_of_le_length hlen]
  have hshort : isRsync s = false := by
    apply decide_eq_false
    intro heq
    have hlength := congrArg List.length heq
    rw [length_map, length_take] at hlength
    omega
  rw [hshort]
  apply decide_eq_false
  intro heq
  apply nul_notMem_rsyncScheme
  rw [← heq]
  have hmem : nul ∈ (s ++ nul :: stale).take rsyncScheme.length := by
    rw [take_append, List.mem_append]
    right
    obtain ⟨k, hk⟩ : ∃ k, rsyncScheme.length - s.length = k + 1 :=
      ⟨rsyncScheme.length - s.length - 1, by omega⟩
    rw [hk]
    exact mem_cons_self
  exact List.mem_map_of_mem hmem

theorem length_of_isRsync {s : List Char} (h : isRsync s = true) : rsyncScheme.length ≤ s.length := by
  have hlength := congrArg List.length (of_decide_eq_true h)
  rw [length_map, length_take] at hlength
  omega

theorem sectionUri_of_readsBehind {s : List Char} (h : ReadsBehind s) : sectionUri s = none := by
  unfold sectionUri
  rw [if_pos h.1]
  rcases h.2 with hempty | ⟨_, hend⟩
  . rw [hempty]
  split
  . rfl
  . next hbehind =>
    rw [hbehind] at hend
    rw [if_pos (by simp [hend])]

theorem sectionUri_of_stops {s : List Char} (h : Stops s) : sectionUri s = none := by
  rcases h with rfl | ⟨hrsync, _, _, hbehind, hbad, hend, houtside⟩
  . rfl
  . unfold sectionUri
    rw [if_pos hrsync, hbehind]
    dsimp only
    rw [if_neg (by simp [hbad, hend]), houtside]

structure Fits (s : Mem) (sections : List (List Char)) : Prop where
  size : s.length ≤ dbUriLen + 1
  needed : (sections.map List.length).sum + sections.length ≤ s.length
  slash : s.length = dbUriLen + 1 ∨ (sections.map List.length).sum + sections.length < s.length

variable {s stale : List Char} {mem : Mem}

def sizeAfter (s : List Char) (size : Nat) : Nat :=
  if isRsync s then size - rsyncScheme.length else size

theorem handleSection_rsync (h : isRsync s = true)
    : handleSection (s ++ nul :: stale) = checkSection (behindScheme s ++ nul :: stale) := by
  rw [handleSection, isRsync_text, if_pos h, drop_append_of_le_length (length_of_isRsync h)]
  rfl

theorem length_behindScheme (h : isRsync s = true)
    : (behindScheme s).length + rsyncScheme.length = s.length := by
  have hle := length_of_isRsync h
  rw [behindScheme, length_drop]
  omega

theorem nul_notMem_behindScheme (hnul : nul ∉ s) : nul ∉ behindScheme s :=
  fun h => hnul (mem_of_mem_drop h)

variable {sections : List (List Char)} {z t rest uri : List Char} {ch : Char} {k i : Nat}

section

variable (hnul : nul ∉ s) (hsize : (s ++ nul :: stale).length ≤ dbUriLen + 1)

include hnul hsize

section

variable (hrsync : isRsync s = true) (hbehind : behindScheme s = ch :: rest)
  (hbad : (ch :: rest).any isBadChar = false)

include hrsync hbehind hbad

theorem handleSection_collapse {text : List Char} (htext : nul ∉ text)
    (hcollapse : collapse ch (rest ++ nul :: stale) = some (collapseText ch text))
    (hlt : text.length < (rest ++ nul :: stale).length)
    (hroom : ∀ uri, uriOfText ch text = .uri uri → uri.length < (ch :: (rest ++ nul :: stale)).length)
    : (uriOfText ch text).IsResult (sizeAfter s (s ++ nul :: stale).length)
        (handleSection (s ++ nul :: stale)) := by
  have hlen := length_behindScheme hrsync
  have hnul' := nul_notMem_behindScheme hnul
  rw [hbehind] at hlen hnul'
  have hlength : (ch :: (rest ++ nul :: stale)).length = sizeAfter s (s ++ nul :: stale).length := by
    rw [sizeAfter, if_pos hrsync, ← cons_append, length_append, length_append]
    omega
  have hsize' : (ch :: (rest ++ nul :: stale)).length < 2 ^ 64 - 2 := by
    rw [hlength, sizeAfter, if_pos hrsync]
    unfold dbUriLen at hsize
    omega
  have hbad' : hasBadChar (ch :: (rest ++ nul :: stale)) = some false := by
    rw [← cons_append, hasBadChar_text hnul', hbad]
  rw [handleSection_rsync hrsync, hbehind, ← hlength]
  exact checkSection_text (not_mem_cons_of_ne_of_not_mem (ne_of_not_mem_cons hnul') htext) hbad' hcollapse
    hlt hsize' hroom

theorem handleSection_across (hend : EndsInDot (ch :: rest)) (hz : nul ∉ z)
    (hread : collapse '/' stale = some (collapseText '/' z)) (hlt : z.length < stale.length)
    (hroom : ∀ uri, uriOfText ch (rest ++ '/' :: z) = .uri uri →
      uri.length < (ch :: (rest ++ nul :: stale)).length)
    : (uriOfText ch (rest ++ '/' :: z)).IsResult (sizeAfter s (s ++ nul :: stale).length)
        (handleSection (s ++ nul :: stale)) := by
  have hnul' := nul_notMem_behindScheme hnul
  rw [hbehind] at hnul'
  have hrest := not_mem_of_not_mem_cons hnul'
  have hcollapse := @collapse_of_endsInDot rest ch stale hrest hend (some z) hread
  apply handleSection_collapse hnul hsize hrsync hbehind hbad _ hcollapse _ hroom
  . rw [List.mem_append, not_or]
    exact ⟨hrest, not_mem_cons_of_ne_of_not_mem (by decide) hz⟩
  . simpa using hlt

theorem handleSection_inside (hend : ¬EndsInDot (ch :: rest))
    (hroom : ∀ uri, uriOfText ch rest = .uri uri → uri.length < (ch :: (rest ++ nul :: stale)).length)
    : (uriOfText ch rest).IsResult (sizeAfter s (s ++ nul :: stale).length)
        (handleSection (s ++ nul :: stale)) := by
  have hnul' := nul_notMem_behindScheme hnul
  rw [hbehind] at hnul'
  have hrest := not_mem_of_not_mem_cons hnul'
  exact handleSection_collapse hnul hsize hrsync hbehind hbad hrest (collapse_text hrest hend) (by simp) hroom

end

theorem handleSection_readsBehind (hreads : ReadsBehind s) (huntainted : Untainted s)
    : handleSection (s ++ nul :: stale) = none
      ∨ ∃ mem, handleSection (s ++ nul :: stale) = some (none, mem)
        ∧ mem.length = sizeAfter s (s ++ nul :: stale).length := by
  obtain ⟨hrsync, hreads⟩ := hreads
  have hlen := length_behindScheme hrsync
  have hnul' := nul_notMem_behindScheme hnul
  cases htext : behindScheme s with
  | nil =>
    rw [htext, length_nil, Nat.zero_add] at hlen
    rw [handleSection_rsync hrsync, htext, sizeAfter, if_pos hrsync, length_append, ← hlen,
      Nat.add_sub_cancel_left]
    apply checkSection_nul
    unfold dbUriLen at hsize
    simp at hsize
    omega
  | cons ch rest =>
    rw [htext] at hreads hnul'
    obtain ⟨hbad, hend⟩ := hreads.resolve_left (cons_ne_nil _ _)
    cases hread : collapse '/' stale with
    | none =>
      left
      have hcollapse := @collapse_of_endsInDot rest ch stale (not_mem_of_not_mem_cons hnul') hend none hread
      rw [handleSection_rsync hrsync, htext]
      apply checkSection_outside _ hcollapse
      rw [← cons_append, hasBadChar_text hnul', hbad]
    | some =>
      obtain ⟨z, hz, hlt, hzend, rfl⟩ := exists_of_collapse hread
      have hdropped : ∀ uri, uriOfText ch (rest ++ '/' :: z) ≠ .uri uri := by
        intro uri
        apply huntainted ch rest z uri hrsync htext hbad hend hz hzend
        rw [length_append, length_cons] at hsize
        omega
      have hresult := handleSection_across hnul hsize hrsync htext hbad hend hz hread hlt
        fun uri huri => absurd huri (hdropped uri)
      cases huri : uriOfText ch (rest ++ '/' :: z) with
      | uri uri => exact absurd huri (hdropped uri)
      | dropped =>
        rw [huri] at hresult
        exact .inr hresult
      | outside =>
        rw [huri] at hresult
        exact .inl hresult

theorem handleSection_text
    (hslash : (s ++ nul :: stale).length = dbUriLen + 1 ∨ s.length + 2 ≤ (s ++ nul :: stale).length)
    (hreads : ¬ReadsBehind s) (hstops : ¬Stops s)
    : ∃ mem, handleSection (s ++ nul :: stale) = some (sectionUri s, mem)
      ∧ mem.length = sizeAfter s (s ++ nul :: stale).length := by
  unfold sectionUri
  cases hrsync : isRsync s with
  | false =>
    refine ⟨s ++ nul :: stale, ?_, ?_⟩
    . rw [handleSection, isRsync_text, hrsync]
      rfl
    . rw [sizeAfter, hrsync]
      rfl
  | true =>
    have hbehind := length_behindScheme hrsync
    have hnul' := nul_notMem_behindScheme hnul
    rw [if_pos rfl]
    cases htext : behindScheme s with
    | nil => exact absurd ⟨hrsync, .inl htext⟩ hreads
    | cons ch text =>
      dsimp only
      rw [htext] at hbehind hnul'
      cases hbad : (ch :: text).any isBadChar with
      | true =>
        refine ⟨ch :: text ++ nul :: stale, ?_, ?_⟩
        . rw [handleSection_rsync hrsync, htext, checkSection_bad (by rw [hasBadChar_text hnul', hbad])]
          rfl
        . rw [sizeAfter, if_pos hrsync, length_append, length_append]
          omega
      | false =>
        have hend : ¬EndsInDot (ch :: text) := by
          intro hend
          apply hreads
          rw [ReadsBehind, htext]
          exact ⟨hrsync, .inr ⟨hbad, hend⟩⟩
        have hroom : ∀ uri, uriOfText ch text = .uri uri
            → uri.length < (ch :: (text ++ nul :: stale)).length := by
          intro uri huri
          have hlength := length_uriOfText huri
          simp only [length_append, length_cons] at hslash hlength hbehind ⊢
          omega
        have hcheck := handleSection_inside hnul hsize hrsync htext hbad hend hroom
        rw [if_neg (by simp [hend])]
        cases hresult : uriOfText ch text with
        | uri
        | dropped =>
          rw [hresult] at hcheck
          exact hcheck
        | outside => exact absurd (.inr ⟨hrsync, ch, text, htext, hbad, hend, hresult⟩) hstops

theorem handleSection_stops
    (hne : s ≠ []) (hstops : Stops s) : handleSection (s ++ nul :: stale) = none := by
  obtain ⟨hrsync, _, _, htext, hbad, hend, houtside⟩ := hstops.resolve_left hne
  have hcheck := handleSection_inside hnul hsize hrsync htext hbad hend
    fun uri huri => nomatch houtside.symm.trans huri
  rw [houtside] at hcheck
  exact hcheck

end

theorem handleSections_cons (hnul : nul ∉ s) (hne : s ≠ []) (hfits : Fits mem (s :: sections))
    (huntainted : Untainted s)
    : (Stops s ∨ ReadsBehind s) ∧ handleSections mem (s :: sections) = ([], false)
      ∨ ¬Stops s ∧ ∃ mem', Fits mem' sections ∧ handleSections mem (s :: sections)
        = (sectionUri s :: (handleSections mem' sections).1, (handleSections mem' sections).2) := by
  have hneeded := hfits.needed
  have hsize := hfits.size
  have hslash := hfits.slash
  simp only [map_cons, sum_cons, length_cons] at hneeded hslash
  have hcopy := @strcpy_eq s mem (by omega)
  have hlength : (s ++ nul :: mem.drop (s.length + 1)).length = mem.length := by
    simp only [length_append, length_cons, length_drop]
    omega
  rw [← hlength] at hsize hslash
  have hhandle {res : Option (Option (List Char) × Mem)}
      (h : handleSection (s ++ nul :: mem.drop (s.length + 1)) = res)
      : (strcpy s mem >>= handleSection) = res := by
    rw [hcopy]
    exact h
  have hfits' {mem' : Mem} (h : mem'.length = sizeAfter s (s ++ nul :: mem.drop (s.length + 1)).length)
      : Fits mem' sections := by
    have hscheme : isRsync s = true → rsyncScheme.length ≤ s.length := length_of_isRsync
    unfold sizeAfter at h
    constructor
    . split at h <;> omega
    . split at h
      . next hrsync =>
        have hle := hscheme hrsync
        omega
      . omega
    right
    split at h
    . next hrsync =>
      have hle := hscheme hrsync
      omega
    . omega
  by_cases hstops : Stops s
  . left
    refine ⟨.inl hstops, ?_⟩
    rw [handleSections, if_neg hne, hhandle (handleSection_stops hnul hsize hne hstops)]
  by_cases hreads : ReadsBehind s
  . rcases handleSection_readsBehind hnul hsize hreads huntainted with hnone | ⟨mem', hsome, hmem'⟩
    . left
      refine ⟨.inr hreads, ?_⟩
      rw [handleSections, if_neg hne, hhandle hnone]
    . right
      refine ⟨hstops, mem', hfits' hmem', ?_⟩
      rw [handleSections, if_neg hne, hhandle hsome, sectionUri_of_readsBehind hreads]
  right
  have hslash' : (s ++ nul :: mem.drop (s.length + 1)).length = dbUriLen + 1
      ∨ s.length + 2 ≤ (s ++ nul :: mem.drop (s.length + 1)).length := by
    omega
  obtain ⟨mem', hsome, hmem'⟩ := handleSection_text hnul hsize hslash' hreads hstops
  refine ⟨hstops, mem', hfits' hmem', ?_⟩
  rw [handleSections, if_neg hne, hhandle hsome]

def uriAt (buf : Mem) (input : List Char) (k : Nat) : Option (List Char) :=
  ((handleUriString buf input).1[k]?).join

section

variable (hnul : ∀ s ∈ sections, nul ∉ s) (hfits : Fits mem sections)
  (huntainted : ∀ s ∈ sections, Untainted s)

include hnul hfits huntainted

theorem uriAt_handleSections
    (hlater : sections.Pairwise fun s t => Stops s ∨ ReadsBehind s → sectionUri t = none)
    (hk : sections[k]? = some s) : ((handleSections mem sections).1[k]?).join = sectionUri s := by
  induction sections generalizing mem k with
  | nil => cases hk
  | cons t sections ih =>
    rw [pairwise_cons] at hlater
    -- nothing is appended from a section on that stops the loop
    have hstopped (hstops : Stops t ∨ ReadsBehind t) : sectionUri s = none := by
      cases k with
      | zero =>
        cases hk
        exact hstops.elim sectionUri_of_stops sectionUri_of_readsBehind
      | succ => exact hlater.1 s (mem_of_getElem? hk) hstops
    by_cases hne : t = []
    . rw [hstopped (.inl (.inl hne)), handleSections, if_pos hne]
      rfl
    rcases handleSections_cons (hnul t mem_cons_self) hne hfits
      (huntainted t mem_cons_self) with ⟨hstops, heq⟩ | ⟨_, mem', hfits', heq⟩
    . rw [hstopped hstops, heq]
      rfl
    rw [heq]
    cases k with
    | zero =>
      cases hk
      rfl
    | succ =>
      exact ih (fun s hs => hnul s (mem_cons_of_mem _ hs)) hfits'
        (fun s hs => huntainted s (mem_cons_of_mem _ hs)) hlater.2 hk

theorem length_handleSections_of_stops (hi : sections[i]? = some s) (hstops : Stops s)
    : (handleSections mem sections).1.length ≤ i := by
  induction sections generalizing mem i with
  | nil => cases hi
  | cons t sections ih =>
    by_cases hne : t = []
    . rw [handleSections, if_pos hne]
      exact Nat.zero_le _
    rcases handleSections_cons (hnul t mem_cons_self) hne hfits
      (huntainted t mem_cons_self) with ⟨_, heq⟩ | ⟨hnot, mem', hfits', heq⟩
    . rw [heq]
      exact Nat.zero_le _
    rw [heq]
    cases i with
    | zero =>
      cases hi
      exact absurd hstops hnot
    | succ =>
      exact Nat.succ_le_succ (ih (fun s hs => hnul s (mem_cons_of_mem _ hs)) hfits'
        (fun s hs => huntainted s (mem_cons_of_mem _ hs)) hi)

end

theorem fits_splitOn {buf : Mem} {input : List Char} (hbuf : buf.length = dbUriLen + 1)
    (hinput : input.length ≤ dbUriLen) : Fits buf (input.splitOn ';') := by
  have hlength := length_splitOn ';' input
  exact ⟨by omega, by omega, .inl hbuf⟩

section Alone

variable {buf : Mem} (hbuf : buf.length = dbUriLen + 1) (hsemi : ';' ∉ s) (hnul : nul ∉ s)
variable (hlen : s.length ≤ dbUriLen)
include hbuf hlen

include hsemi hnul in
theorem uriAt_alone (huntainted : Untainted s) : uriAt buf s 0 = sectionUri s := by
  have hfits := fits_splitOn hbuf hlen
  rw [splitOn_eq_singleton hsemi] at hfits
  rw [uriAt, handleUriString, splitOn_eq_singleton hsemi]
  apply uriAt_handleSections _ hfits _ (pairwise_singleton _ _) rfl
  . intro t ht
    rw [mem_singleton.mp ht]
    exact hnul
  . intro t ht
    rw [mem_singleton.mp ht]
    exact huntainted

theorem handleSections_outside (hne : s ≠ [])
    (houtside : handleSection (s ++ nul :: buf.drop (s.length + 1)) = none)
    : handleSections buf (s :: sections) = ([], false) := by
  rw [handleSections, if_neg hne, strcpy_eq (by omega), bind_eq_bind, bind_some,
    houtside]

end Alone

theorem collapse_replicate (prev : Char) (n : Nat) : collapse prev (replicate n 'x') = none := by
  induction n generalizing prev with
  | zero => rfl
  | succ n ih =>
    rw [replicate_succ, collapse.eq_def]
    simp [ih, nul]

def unterminated : Mem := replicate (dbUriLen + 1) 'x'

theorem length_unterminated : unterminated.length = dbUriLen + 1 :=
  length_replicate ..

theorem handleSection_unterminated (hnul : nul ∉ s) (hreads : ReadsBehind s)
    : handleSection (s ++ nul :: unterminated.drop (s.length + 1)) = none := by
  obtain ⟨hrsync, hreads⟩ := hreads
  have hnul' := nul_notMem_behindScheme hnul
  rw [handleSection_rsync hrsync, unterminated, drop_replicate]
  cases htext : behindScheme s with
  | nil => exact checkSection_outside (if_pos rfl) (collapse_replicate _ _)
  | cons ch rest =>
    rw [htext] at hreads hnul'
    obtain ⟨hbad, hend⟩ := hreads.resolve_left (cons_ne_nil _ _)
    have hcollapse := @collapse_of_endsInDot rest ch
      (replicate (dbUriLen + 1 - (s.length + 1)) 'x') (fun h => hnul' (mem_cons_of_mem _ h))
      hend none (collapse_replicate _ _)
    apply checkSection_outside _ hcollapse
    rw [← cons_append, hasBadChar_text hnul', hbad]

def tainting (s z : List Char) : Mem :=
  replicate (s.length + 1) 'x' ++ z
    ++ nul :: replicate (dbUriLen - (s.length + z.length + 1)) 'x'

theorem length_tainting (h : s.length + z.length < dbUriLen)
    : (tainting s z).length = dbUriLen + 1 := by
  simp only [tainting, length_append, length_replicate, length_cons]
  omega

theorem drop_tainting : (tainting s z).drop (s.length + 1)
    = z ++ nul :: replicate (dbUriLen - (s.length + z.length + 1)) 'x' := by
  rw [tainting, append_assoc, drop_left' (length_replicate ..)]

theorem uriAt_tainting (hsemi : ';' ∉ s) (hnul : nul ∉ s) (hrsync : isRsync s = true)
    (htext : behindScheme s = ch :: rest) (hbad : (ch :: rest).any isBadChar = false)
    (hend : EndsInDot (ch :: rest)) (hz : nul ∉ z) (hzend : ¬EndsInDot ('/' :: z))
    (hlen : s.length + z.length < dbUriLen) (huri : uriOfText ch (rest ++ '/' :: z) = .uri uri)
    : uriAt (tainting s z) s 0 = some uri := by
  have hbehind := length_behindScheme hrsync
  rw [htext] at hbehind
  have hsome : ∃ mem, handleSection (s ++ nul :: (tainting s z).drop (s.length + 1))
      = some (some uri, mem) := by
    rw [drop_tainting]
    generalize hstale : z ++ nul :: replicate (dbUriLen - (s.length + z.length + 1)) 'x' = stale
    have hstaleLen : stale.length + s.length = dbUriLen := by
      rw [← hstale]
      simp only [length_append, length_cons, length_replicate]
      omega
    have hread : collapse '/' stale = some (collapseText '/' z) := by
      rw [← hstale]
      exact collapse_text hz hzend
    have hsize : (s ++ nul :: stale).length ≤ dbUriLen + 1 := by
      rw [length_append, length_cons]
      omega
    have hresult := handleSection_across hnul hsize hrsync htext hbad hend hz hread (by omega) ?_
    . rw [huri] at hresult
      exact ⟨_, hresult.choose_spec.1⟩
    . intro uri' huri'
      have hlength := length_uriOfText huri'
      simp only [length_append, length_cons] at hlength hbehind ⊢
      omega
  obtain ⟨mem, hsome⟩ := hsome
  have hne : s ≠ [] := by
    rintro rfl
    cases hrsync
  rw [uriAt, handleUriString, splitOn_eq_singleton hsemi, handleSections, if_neg hne,
    strcpy_eq (by rw [length_tainting hlen]; omega), bind_eq_bind, bind_some, hsome]
  rfl

def Noninterfering (input : List Char) : Prop :=
  ∀ buf buf' : Mem, buf.length = dbUriLen + 1 → buf'.length = dbUriLen + 1
    → ∀ k s, (input.splitOn ';')[k]? = some s → uriAt buf input k = uriAt buf' s 0

variable {input : List Char}

theorem untainted_of_noninterfering (hnul : nul ∉ input) (h : Noninterfering input)
    {s : List Char} (hs : s ∈ input.splitOn ';') : Untainted s := by
  intro _ _ z _ hrsync htext hbad hend hz hzend hlen huri
  obtain ⟨hsemi, hsub⟩ := mem_splitOn hs
  have hnul' : nul ∉ s := fun hn => hnul (hsub.subset hn)
  have hreads : ReadsBehind s := by
    rw [ReadsBehind, htext]
    exact ⟨hrsync, .inr ⟨hbad, hend⟩⟩
  have hne : s ≠ [] := by
    rintro rfl
    cases hrsync
  obtain ⟨k, hk⟩ := mem_iff_getElem?.mp hs
  -- the same section with two buffers
  have htainted := uriAt_tainting hsemi hnul' hrsync htext hbad hend hz hzend hlen huri
  have hoff : uriAt unterminated s 0 = none := by
    rw [uriAt, handleUriString, splitOn_eq_singleton hsemi,
      handleSections_outside length_unterminated (by omega) hne
        (handleSection_unterminated hnul' hreads)]
    rfl
  have heq := h (tainting s z) (tainting s z) (length_tainting hlen) (length_tainting hlen) k s hk
  have hneq := h (tainting s z) unterminated (length_tainting hlen) length_unterminated k s hk
  rw [← heq.symm.trans hneq, htainted] at hoff
  cases hoff

theorem sectionUri_of_noninterfering (hnul : nul ∉ input) (hlen : input.length ≤ dbUriLen)
    (h : Noninterfering input) {buf : Mem} (hbuf : buf.length = dbUriLen + 1)
    (hk : (input.splitOn ';')[k]? = some t) (hshort : (handleUriString buf input).1.length ≤ k)
    : sectionUri t = none := by
  have ht := mem_of_getElem? hk
  obtain ⟨hsemi, hsub⟩ := mem_splitOn ht
  have halone := uriAt_alone hbuf hsemi (fun hn => hnul (hsub.subset hn))
    (Nat.le_trans hsub.length_le hlen) (untainted_of_noninterfering hnul h ht)
  rw [← halone, ← h buf buf hbuf hbuf k t hk, uriAt, getElem?_eq_none hshort]
  rfl

/--
The URI of a section depends on that section only if no section ends in a dot component, and only
sections that are dropped anyway come after one that stops the loop or is read across.
-/
theorem handleUriString_noninterference (hnul : nul ∉ input) (hlen : input.length ≤ dbUriLen)
    : ((∀ s ∈ input.splitOn ';', Untainted s)
          ∧ (input.splitOn ';').Pairwise (fun s t => Stops s ∨ ReadsBehind s → sectionUri t = none)
        → Noninterfering input)
      ∧ (Noninterfering input
        → (∀ s ∈ input.splitOn ';', Untainted s)
          ∧ (input.splitOn ';').Pairwise (fun s t => Stops s → sectionUri t = none)
          ∧ ∀ s later, input.splitOn ';' = s :: later → ReadsBehind s
            → ∀ t ∈ later, sectionUri t = none) := by
  constructor
  . rintro ⟨huntainted, hlater⟩ _ _ hbuf hbuf' k s hk
    have hs := mem_of_getElem? hk
    obtain ⟨hsemi, hsub⟩ := mem_splitOn hs
    have halone := uriAt_alone hbuf' hsemi (fun hn => hnul (hsub.subset hn))
      (Nat.le_trans hsub.length_le hlen) (huntainted s hs)
    rw [halone, uriAt, handleUriString]
    apply uriAt_handleSections _ (fits_splitOn hbuf hlen) huntainted hlater hk
    intro t ht hn
    exact hnul ((mem_splitOn ht).2.subset hn)
  intro h
  have huntainted : ∀ s ∈ input.splitOn ';', Untainted s :=
    fun s hs => untainted_of_noninterfering hnul h hs
  refine ⟨huntainted, ?_, ?_⟩
  . rw [pairwise_iff_getElem]
    intro _ _ hi hj hij hstops
    have hnul' : ∀ s ∈ input.splitOn ';', nul ∉ s :=
      fun s hs hn => hnul ((mem_splitOn hs).2.subset hn)
    have hshort := length_handleSections_of_stops hnul' (fits_splitOn length_unterminated hlen)
      huntainted (getElem?_eq_getElem hi) hstops
    exact sectionUri_of_noninterfering hnul hlen h length_unterminated
      (getElem?_eq_getElem hj) (Nat.le_trans hshort (Nat.le_of_lt hij))
  intro s later hsplit hreads t ht
  have hs : s ∈ input.splitOn ';' := by
    rw [hsplit]
    exact mem_cons_self
  have hsub := (mem_splitOn hs).2
  have hne : s ≠ [] := by
    rintro rfl
    cases hreads.1
  obtain ⟨k, hk⟩ := mem_iff_getElem?.mp ht
  have hk' : (input.splitOn ';')[k + 1]? = some t := by
    rw [hsplit]
    exact hk
  apply sectionUri_of_noninterfering hnul hlen h length_unterminated hk'
  rw [handleUriString, hsplit, handleSections_outside length_unterminated
    (Nat.le_trans hsub.length_le hlen) hne
    (handleSection_unterminated (fun hn => hnul (hsub.subset hn)) hreads)]
  exact Nat.zero_le _

theorem handleUriString_noninterference_two
    : Noninterfering "rsync://example.com/a//b/;rsync://example.com/c/../d".toList := by
  have hsplit : "rsync://example.com/a//b/;rsync://example.com/c/../d".toList.splitOn ';'
      = ["rsync://example.com/a//b/".toList, "rsync://example.com/c/../d".toList] := by
    decide +kernel
  have hend : ∀ s ∈ ["rsync://example.com/a//b/".toList, "rsync://example.com/c/../d".toList],
      ¬EndsInDot (behindScheme s) := by
    decide +kernel
  apply (handleUriString_noninterference (by decide +kernel) (by decide +kernel)).1
  rw [hsplit]
  constructor
  . intro s hs ch rest _ _ _ htext _ hdot
    rw [← htext] at hdot
    exact absurd hdot (hend s hs)
  apply pairwise_pair.mpr
  rintro ((hempty | ⟨_, ch, rest, htext, _, _, houtside⟩) | ⟨_, hempty | ⟨_, hdot⟩⟩)
  . exact absurd hempty (by decide +kernel)
  . have hcons : behindScheme "rsync://example.com/a//b/".toList
        = 'e' :: "xample.com/a//b/".toList := by decide +kernel
    cases hcons.symm.trans htext
    exact absurd houtside (by decide +kernel)
  . exact absurd hempty (by decide +kernel)
  . exact absurd hdot (hend _ mem_cons_self)

/--
The last section is the same in the first two inputs. What is appended for it has a part of the other
section in one of them. In the third one the last section is not handled.
-/
theorem handleUriString_leaks_section
    : uriAt (replicate (dbUriLen + 1) nul)
        "rsync://rpki.example.net/repository;rsync://a/b/.".toList 1 = some "a/b/et/repository".toList
      ∧ uriAt (replicate (dbUriLen + 1) nul) "rsync://a/b/.".toList 0 = some "a/b/".toList
      ∧ uriAt (replicate (dbUriLen + 1) nul) ";rsync://a/b".toList 1 = none
      ∧ uriAt (replicate (dbUriLen + 1) nul) "rsync://a/b".toList 0 = some "a/b/".toList := by
  decide +kernel

end Rpstir.Chaser
