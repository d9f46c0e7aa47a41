import Rpstir.Chaser.Noninterference

/-!
This module contains the sections of an input that `handle_uri_string` gets to, and what it appends for
them.
-/

namespace Rpstir.Chaser

open List

open CString

/--
The URI that the rules of the scanners give for a section, whatever is behind it in the buffer.
-/
def normalUri (s : List Char) : Option (List Char) :=
  if isRsync s then
    match behindScheme s with
    | [] => none
    | ch :: rest =>
      if (ch :: rest).any isBadChar then
        none
      else
        match uriOfText ch rest with
        | .uri uri => some uri
        | .dropped => none
        | .outside => none
  else
    none

def Processes (input : List Char) : Prop :=
  ∀ buf : Mem, buf.length = dbUriLen + 1 →
    (handleUriString buf input).2 = true ∧
      (handleUriString buf input).1.filterMap id = (input.splitOn ';').filterMap normalUri

def heads (sections : List (List Char)) : List (List Char) :=
  sections.takeWhile (· ≠ [])

theorem sectionUri_eq_normalUri {s : List Char} (h : ¬ReadsBehind s) : sectionUri s = normalUri s := by
  unfold sectionUri normalUri
  cases hrsync : isRsync s with
  | false => rfl
  | true =>
    cases htext : behindScheme s with
    | nil => rfl
    | cons ch rest =>
      cases hbad : (ch :: rest).any isBadChar with
      | true => simp only [hbad, Bool.true_or, if_true]
      | false =>
        have hend : ¬EndsInDot (ch :: rest) := by
          intro hend
          exact h ⟨hrsync, .inr (by rw [htext]; exact ⟨hbad, hend⟩)⟩
        cases huri : uriOfText ch rest <;>
          simp only [hbad, hend, huri, decide_false, Bool.or_self, Bool.false_eq_true, if_false, if_true]

theorem untainted_of_not_readsBehind {s : List Char} (h : ¬ReadsBehind s) : Untainted s := by
  intro _ _ _ _ hrsync htext hbad hend
  exact absurd ⟨hrsync, .inr (by rw [htext]; exact ⟨hbad, hend⟩)⟩ h

variable {sections : List (List Char)}

theorem handleSections_heads {mem : Mem} (hnul : ∀ s ∈ sections, nul ∉ s) (hfits : Fits mem sections)
    (hreads : ∀ s ∈ heads sections, ¬ReadsBehind s)
    : ((handleSections mem sections).2 = true ↔ ∀ s ∈ heads sections, ¬Stops s) ∧
        ((∀ s ∈ heads sections, ¬Stops s) →
          (handleSections mem sections).1 = (heads sections).map normalUri) := by
  induction sections generalizing mem with
  | nil => simp [handleSections, heads]
  | cons s sections ih =>
    by_cases hne : s = []
    . simp [handleSections, heads, hne]
    have hheads : heads (s :: sections) = s :: heads sections := by simp [heads, hne]
    rw [hheads, forall_mem_cons] at hreads
    rw [forall_mem_cons] at hnul
    rw [hheads, forall_mem_cons, map_cons]
    rcases handleSections_cons hnul.1 hne hfits (untainted_of_not_readsBehind hreads.1) with
      ⟨hbad, heq⟩ | ⟨hstops, mem', hfits', heq⟩
    . have hstops := hbad.resolve_right hreads.1
      simp [heq, hstops]
    . rw [heq, and_iff_right hstops, sectionUri_eq_normalUri hreads.1]
      have hrest := ih hnul.2 hfits' hreads.2
      exact ⟨hrest.1, fun h => congrArg _ (hrest.2 h)⟩

theorem filterMap_normalUri_iff
    : (heads sections).filterMap normalUri = sections.filterMap normalUri ↔
        ∀ s ∈ sections.dropWhile (· ≠ []), normalUri s = none := by
  have hsplit : sections.filterMap normalUri
      = (heads sections).filterMap normalUri ++ (sections.dropWhile (· ≠ [])).filterMap normalUri := by
    rw [← filterMap_append, heads, takeWhile_append_dropWhile]
  rw [hsplit, self_eq_append_right, filterMap_eq_nil_iff]

/--
Every section is handled if all before the first empty one stay inside the buffer and what is behind it has
no URI; if one of the later sections is read across its end then it depends on what the earlier ones left
in the buffer.
-/
theorem handleUriString_processes {input : List Char} (hnul : nul ∉ input) (hlen : input.length ≤ dbUriLen)
    : ((∀ s ∈ heads (input.splitOn ';'), ¬ReadsBehind s ∧ ¬Stops s) ∧
          (∀ s ∈ (input.splitOn ';').dropWhile (· ≠ []), normalUri s = none) → Processes input) ∧
        (Processes input → (∀ s ∈ (heads (input.splitOn ';')).head?, ¬ReadsBehind s) ∧
          ((∀ s ∈ heads (input.splitOn ';'), ¬ReadsBehind s) →
            (∀ s ∈ heads (input.splitOn ';'), ¬Stops s) ∧
              ∀ s ∈ (input.splitOn ';').dropWhile (· ≠ []), normalUri s = none)) := by
  have hnul' : ∀ s ∈ input.splitOn ';', nul ∉ s := fun s hs hmem => hnul ((mem_splitOn hs).2.subset hmem)
  have hrun {buf : Mem} (hbuf : buf.length = dbUriLen + 1)
      (hreads : ∀ s ∈ heads (input.splitOn ';'), ¬ReadsBehind s) :=
    handleSections_heads hnul' (fits_splitOn hbuf hlen) hreads
  refine ⟨?_, ?_⟩
  . rintro ⟨hheads, hrest⟩ buf hbuf
    have hrun := hrun hbuf fun s hs => (hheads s hs).1
    have hstops : ∀ s ∈ heads (input.splitOn ';'), ¬Stops s := fun s hs => (hheads s hs).2
    refine ⟨hrun.1.mpr hstops, ?_⟩
    rw [handleUriString, hrun.2 hstops, filterMap_map]
    exact filterMap_normalUri_iff.mpr hrest
  intro h
  constructor
  . intro s hs hreads
    obtain ⟨later, hsplit, hne⟩ : ∃ later, input.splitOn ';' = s :: later ∧ s ≠ [] := by
      rw [heads, Option.mem_def, head?_takeWhile, Option.filter_eq_some_iff, head?_eq_some_iff] at hs
      exact ⟨hs.1.choose, hs.1.choose_spec, by simpa using hs.2⟩
    have hsub : s.Sublist input := (mem_splitOn (hsplit ▸ mem_cons_self)).2
    have hdone := (h unterminated length_unterminated).1
    rw [handleUriString, hsplit, handleSections_outside length_unterminated
      (Nat.le_trans hsub.length_le hlen) hne
      (handleSection_unterminated (fun hn => hnul (hsub.subset hn)) hreads)] at hdone
    cases hdone
  . intro hreads
    have hrun := hrun length_unterminated hreads
    have hdone := h unterminated length_unterminated
    have hstops := hrun.1.mp hdone.1
    refine ⟨hstops, filterMap_normalUri_iff.mp ?_⟩
    rw [← hdone.2, handleUriString, hrun.2 hstops, filterMap_map]
    rfl

theorem handleUriString_processes_two : Processes "http://a;rsync://a/b".toList := by
  apply (handleUriString_processes (by decide) (by decide)).1
  rw [show heads ("http://a;rsync://a/b".toList.splitOn ';')
    = ["http://a".toList, "rsync://a/b".toList] by decide +kernel]
  have hhttp : isRsync "http://a".toList = false := by decide
  simp only [forall_mem_cons, ReadsBehind, Stops, hhttp, Bool.false_eq_true, false_and, or_false]
  refine ⟨⟨by decide, ⟨by decide, ?_⟩, fun _ hs => by cases hs⟩, by decide +kernel⟩
  rintro (hempty | ⟨_, _, _, htext, _, _, houtside⟩)
  . cases hempty
  . cases (show behindScheme "rsync://a/b".toList = ['a', '/', 'b'] by decide).symm.trans htext
    exact absurd houtside (by decide +kernel)

theorem handleUriString_leaves_out
    : handleUriString (replicate (dbUriLen + 1) nul) ";rsync://a/b".toList = ([], true) ∧
        normalUri "rsync://a/b".toList = some "a/b/".toList ∧
        handleUriString (replicate (dbUriLen + 1) nul) "rsync://a/b/..;rsync://a/b".toList = ([], false) := by
  decide +kernel

end Rpstir.Chaser
