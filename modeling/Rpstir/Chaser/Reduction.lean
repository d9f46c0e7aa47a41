import Mathlib.Data.Char
import Mathlib.Data.List.Lex
import Mathlib.Data.List.Sort

/-!
This module contains how `main` of `chaser.c` reduces the list of collected URIs before it prints them. A
URI that was collected is not empty.
-/

namespace Rpstir.Chaser

open List Option

def compareStr : List Char → List Char → Bool
  | [], _ => true
  | _ :: _, [] => false
  | a :: as, b :: bs => a < b || (a = b && compareStr as bs)

def isSubsumed (str1 str2 : List Char) : Bool :=
  str1.isPrefixOf str2 &&
    (str1.length == str2.length || str1.getLast? == some '/' || str2[str1.length]? == some '/')

def removeSubsumed (lo : List Char) : List (List Char) → List (Option (List Char))
  | [] => []
  | hi :: rest =>
    if isSubsumed lo hi then none :: removeSubsumed lo rest else some hi :: removeSubsumed hi rest

/--
What is in front of `new_max` at the end, from `lo` on: the entries that are not null.
-/
def compact : List (Option (List Char)) → List (Option (List Char))
  | [] => []
  | none :: uris => compact uris
  | some uri :: uris => some uri :: compact uris

def printedUris (uris : List (List Char)) : List (Option (List Char)) :=
  match uris.insertionSort (compareStr · ·) with
  | [] => []
  | lo :: rest => compact (some lo :: removeSubsumed lo rest)

theorem compact_eq (uris : List (Option (List Char)))
    : compact uris = (uris.filterMap id).map some := by
  induction uris with
  | nil => rfl
  | cons uri uris ih => cases uri <;> simp [compact, ih]

theorem compareStr_iff {str1 str2 : List Char} : compareStr str1 str2 = true ↔ str1 ≤ str2 := by
  induction str1 generalizing str2 with
  | nil => simpa [compareStr] using not_lt.mp (not_lt_nil str2)
  | cons _ str1 ih =>
    cases str2 with
    | nil => simp [compareStr]
    | cons =>
      simp only [compareStr, Bool.or_eq_true, Bool.and_eq_true, decide_eq_true_eq, ih]
      rw [le_iff_lt_or_eq, le_iff_lt_or_eq, cons_lt_cons_iff, List.cons.injEq]
      tauto

def directory (uri : List Char) : List Char :=
  if uri.getLast? = some '/' then uri else uri ++ ['/']

def Subsumes (uri other : List Char) : Prop :=
  uri ≠ other ∧ directory uri <+: other

section Order

variable {u v w : List Char}

theorem prefix_directory (u : List Char) : u <+: directory u := by
  unfold directory
  split
  . exact prefix_rfl
  . exact prefix_append u _

theorem Subsumes.isPrefix (h : Subsumes u w) : u <+: w :=
  (prefix_directory u).trans h.2

theorem Subsumes.lt (h : Subsumes u w) : u < w :=
  lt_of_le_of_ne (not_lt.mp h.isPrefix.le) h.1

theorem Subsumes.trans (huv : Subsumes u v) (hvw : Subsumes v w) : Subsumes u w :=
  ⟨(huv.lt.trans hvw.lt).ne, huv.2.trans hvw.isPrefix⟩

theorem Subsumes.of_lt (huw : Subsumes u w) (hvw : v <+: w) (hlt : u < v) : Subsumes u v := by
  have hlength : u.length < v.length := by
    by_contra hle
    have hvu := prefix_of_prefix_length_le hvw huw.isPrefix (Nat.le_of_not_lt hle)
    exact hlt.not_ge (not_lt.mp hvu.le)
  refine ⟨hlt.ne, prefix_of_prefix_length_le huw.2 hvw ?_⟩
  unfold directory
  split
  . exact hlength.le
  . simp
    omega

theorem isSubsumed_iff : isSubsumed u w = true ↔ u = w ∨ Subsumes u w := by
  simp only [isSubsumed, Bool.and_eq_true, Bool.or_eq_true, isPrefixOf_iff_prefix, beq_iff_eq]
  constructor
  . rintro ⟨⟨t, rfl⟩, h⟩
    cases t with
    | nil => exact .inl (append_nil u).symm
    | cons c t =>
      refine .inr ⟨by simp, ?_⟩
      unfold directory
      split
      . exact prefix_append u _
      . next hlast =>
        have hc : c = '/' := by simpa [hlast] using h
        exact ⟨t, by simp [hc]⟩
  . rintro (rfl | h)
    . simp
    refine ⟨h.isPrefix, ?_⟩
    obtain ⟨t, ht⟩ := h.2
    unfold directory at ht
    split at ht
    . next hlast => exact .inl (.inr hlast)
    . simp [← ht]

end Order

def Top (uris : List (List Char)) (u : List Char) : Prop :=
  u ∈ uris ∧ ∀ t ∈ uris, ¬Subsumes t u

section Pass

variable {uris : List (List Char)} {lo : List Char} {rest : List (List Char)}

variable {hi u w : List Char}

theorem exists_top (hu : u ∈ uris) (h : Subsumes u w) : ∃ t, Top uris t ∧ Subsumes t w ∧ t ≤ u := by
  induction hn : u.length using Nat.strong_induction_on generalizing u with
  | h n ih =>
    by_cases htop : ∃ t ∈ uris, Subsumes t u
    . obtain ⟨t, ht, htu⟩ := htop
      have hlt : t.length < n :=
        hn ▸ lt_of_le_of_ne htu.isPrefix.length_le fun heq => htu.1 (htu.isPrefix.eq_of_length heq)
      obtain ⟨t', htop', hw, hle⟩ := ih _ hlt ht (htu.trans h) rfl
      exact ⟨t', htop', hw, hle.trans htu.lt.le⟩
    . exact ⟨u, ⟨hu, by simpa using htop⟩, h, le_rfl⟩

def kept (lo : List Char) (rest : List (List Char)) : List (List Char) :=
  (removeSubsumed lo rest).filterMap id

theorem kept_of_subsumed (h : isSubsumed lo hi = true) : kept lo (hi :: rest) = kept lo rest := by
  simp [kept, removeSubsumed, h]

theorem kept_of_not (h : ¬isSubsumed lo hi = true) : kept lo (hi :: rest) = hi :: kept hi rest := by
  simp [kept, removeSubsumed, h]

theorem mem_of_mem_kept (h : u ∈ kept lo rest) : u ∈ rest := by
  induction rest generalizing lo with
  | nil => exact h
  | cons hi rest ih =>
    by_cases hsub : isSubsumed lo hi = true
    . rw [kept_of_subsumed hsub] at h
      exact mem_cons_of_mem hi (ih h)
    . rw [kept_of_not hsub, mem_cons] at h
      exact mem_cons.mpr (h.imp_right ih)

variable (hsorted : (lo :: rest).Pairwise (· ≤ ·))
include hsorted

theorem kept_of_gapless
    (hgapless : ∀ u ∈ uris, ∀ v ∈ uris, ∀ w ∈ uris, Subsumes u w → u < v → v < w → ∃ t ∈ uris, Subsumes t v)
    (hlo : Top uris lo) (hrest : ∀ u ∈ rest, u ∈ uris)
    (hbefore : ∀ t, Top uris t → t ≤ lo ∨ t ∈ rest)
    : (kept lo rest).Nodup ∧ ∀ u, u ∈ kept lo rest ↔ u ∈ rest ∧ Top uris u ∧ u ≠ lo := by
  induction rest generalizing lo with
  | nil => simp [kept, removeSubsumed]
  | cons hi rest ih =>
    have hle := (pairwise_cons.mp hsorted).1
    have htail := (pairwise_cons.mp hsorted).2
    rw [forall_mem_cons] at hrest
    by_cases hsub : isSubsumed lo hi = true
    . have hnot : ¬(Top uris hi ∧ hi ≠ lo) := by
        rintro ⟨htop, hne⟩
        rcases isSubsumed_iff.mp hsub with heq | hsub
        . exact hne heq.symm
        . exact htop.2 lo hlo.1 hsub
      have hdrop (u : List Char) : u ∈ hi :: rest ∧ Top uris u ∧ u ≠ lo ↔ u ∈ rest ∧ Top uris u ∧ u ≠ lo := by
        rw [mem_cons]
        constructor
        . rintro ⟨rfl | hu, htop⟩
          . exact absurd htop hnot
          . exact ⟨hu, htop⟩
        . exact fun h => ⟨.inr h.1, h.2⟩
      simp only [kept_of_subsumed hsub, hdrop]
      refine ih (hsorted.sublist (by simp)) hlo hrest.2 ?_
      intro t ht
      rcases hbefore t ht with ht' | ht'
      . exact .inl ht'
      rcases mem_cons.mp ht' with rfl | ht'
      . exact .inl (le_of_eq (not_not.mp fun hne => hnot ⟨ht, hne⟩))
      . exact .inr ht'
    . have hne : lo ≠ hi := fun heq => hsub (isSubsumed_iff.mpr (.inl heq))
      have hlt : lo < hi := lt_of_le_of_ne (hle hi mem_cons_self) hne
      have htop : Top uris hi := by
        refine ⟨hrest.1, ?_⟩
        intro t ht hthi
        obtain ⟨t', htop', hthi', -⟩ := exists_top ht hthi
        have hle' : t' ≤ lo := by
          rcases hbefore t' htop' with hle' | hmem
          . exact hle'
          rcases mem_cons.mp hmem with rfl | hmem
          . exact absurd hthi' fun h => h.1 rfl
          . exact absurd hthi'.lt (not_lt.mpr ((pairwise_cons.mp htail).1 t' hmem))
        have hlt' : t' < lo := by
          refine lt_of_le_of_ne hle' ?_
          rintro rfl
          exact hsub (isSubsumed_iff.mpr (.inr hthi'))
        obtain ⟨s, hs, hslo⟩ := hgapless t' htop'.1 lo hlo.1 hi hrest.1 hthi' hlt' hlt
        exact hlo.2 s hs hslo
      obtain ⟨hnodup, hmem⟩ := ih htail htop hrest.2 fun t ht => by
        rcases hbefore t ht with hle' | hmem
        . exact .inl (hle'.trans hlt.le)
        . exact (mem_cons.mp hmem).imp_left le_of_eq
      rw [kept_of_not hsub]
      refine ⟨nodup_cons.mpr ⟨fun h => ((hmem hi).mp h).2.2 rfl, hnodup⟩, ?_⟩
      intro u
      rw [mem_cons, mem_cons, hmem]
      constructor
      . rintro (rfl | ⟨hu, htop, -⟩)
        . exact ⟨.inl rfl, htop, hne.symm⟩
        . exact ⟨.inr hu, htop, (hlt.trans_le ((pairwise_cons.mp htail).1 u hu)).ne'⟩
      . rintro ⟨rfl | hu, htop, -⟩
        . exact .inl rfl
        . by_cases heq : u = hi
          . exact .inl heq
          . exact .inr ⟨hu, htop, heq⟩

theorem exists_subsumer (hw : w ∈ rest) (hkept : w ∉ kept lo rest)
    : ∃ lo' ∈ lo :: kept lo rest, isSubsumed lo' w = true ∧ ∀ v ∈ lo :: kept lo rest, v < w → v ≤ lo' := by
  induction rest generalizing lo with
  | nil => simp at hw
  | cons hi rest ih =>
    have hle := (pairwise_cons.mp hsorted).1
    have htail := (pairwise_cons.mp hsorted).2
    by_cases hsub : isSubsumed lo hi = true
    . rw [kept_of_subsumed hsub] at hkept ⊢
      rcases mem_cons.mp hw with rfl | hw
      . refine ⟨lo, mem_cons_self, hsub, ?_⟩
        intro v hv hlt
        rcases mem_cons.mp hv with rfl | hv
        . exact le_rfl
        . exact absurd hlt (not_lt.mpr ((pairwise_cons.mp htail).1 v (mem_of_mem_kept hv)))
      . exact ih (hsorted.sublist (by simp)) hw hkept
    . rw [kept_of_not hsub] at hkept ⊢
      rw [mem_cons, not_or] at hkept
      obtain ⟨lo', hlo', hsub', hmax⟩ := ih htail ((mem_cons.mp hw).resolve_left hkept.1) hkept.2
      refine ⟨lo', mem_cons_of_mem lo hlo', hsub', ?_⟩
      intro v hv hlt
      rcases mem_cons.mp hv with rfl | hv
      . refine hle lo' ?_
        exact mem_cons.mpr ((mem_cons.mp hlo').imp_right mem_of_mem_kept)
      . exact hmax v hv hlt

end Pass

def Reduces (uris : List (List Char)) (printed : List (Option (List Char))) : Prop :=
  ∃ l : List (List Char), printed = l.map some ∧ l.Nodup ∧ ∀ u, u ∈ l ↔ Top uris u

/--
Each URI that no other one contains is printed once, and no other, exactly if between a URI and one that
it contains there are, in the order of the bytes, only URIs that some URI contains.
-/
theorem printedUris_reduces_iff (uris : List (List Char))
    : Reduces uris (printedUris uris) ↔
        ∀ u ∈ uris, ∀ v ∈ uris, ∀ w ∈ uris, Subsumes u w → u < v → v < w → ∃ t ∈ uris, Subsumes t v := by
  have : Std.Total fun a b => compareStr a b = true := ⟨fun a b => by simpa [compareStr_iff] using le_total a b⟩
  have : IsTrans _ fun a b => compareStr a b = true := ⟨fun a b c => by simpa [compareStr_iff] using le_trans⟩
  have hsorted := pairwise_insertionSort (fun a b => compareStr a b = true) uris
  have hmem (u : List Char) : u ∈ uris.insertionSort (compareStr · ·) ↔ u ∈ uris :=
    (perm_insertionSort _ uris).mem_iff
  unfold printedUris
  split
  . next hnil =>
    have hempty : uris = [] := by simpa [hnil, eq_nil_iff_forall_not_mem] using hmem
    simp [hempty, Reduces, Top]
  next lo rest hcons =>
  rw [hcons] at hsorted
  simp only [hcons] at hmem
  simp only [compareStr_iff] at hsorted
  have hprinted : compact (some lo :: removeSubsumed lo rest) = (lo :: kept lo rest).map some :=
    compact_eq _
  have hle := (pairwise_cons.mp hsorted).1
  rw [hprinted]
  constructor
  . rintro ⟨_, hl, -, htop⟩ u hu v hv w hw huw huv hvw
    obtain rfl := map_injective_iff.mpr (some_injective _) hl
    by_contra hnone
    have hv' := (htop v).mpr ⟨hv, by simpa using hnone⟩
    have hw' : w ∉ lo :: kept lo rest := fun h => ((htop w).mp h).2 u hu huw
    obtain ⟨t, htopt, htw, htu⟩ := exists_top hu huw
    rw [mem_cons, not_or] at hw'
    obtain ⟨lo', hlo', hsub, hmax⟩ :=
      exists_subsumer hsorted ((mem_cons.mp ((hmem w).mpr hw)).resolve_left hw'.1) hw'.2
    rcases isSubsumed_iff.mp hsub with rfl | hsub
    . exact absurd hlo' (by simpa using hw')
    . have hlt : t < lo' := (htu.trans_lt huv).trans_le (hmax v hv' hvw)
      exact ((htop lo').mp hlo').2 t htopt.1 (htw.of_lt hsub.isPrefix hlt)
  . intro hgapless
    have hlo : Top uris lo := by
      refine ⟨(hmem lo).mp mem_cons_self, ?_⟩
      intro t ht hsub
      rcases mem_cons.mp ((hmem t).mpr ht) with rfl | ht
      . exact hsub.1 rfl
      . exact hsub.lt.not_ge (hle t ht)
    obtain ⟨hnodup, hkept⟩ := kept_of_gapless hsorted hgapless hlo
      (fun u hu => (hmem u).mp (mem_cons_of_mem lo hu))
      fun t ht => (mem_cons.mp ((hmem t).mpr ht.1)).imp_left le_of_eq
    refine ⟨lo :: kept lo rest, rfl, nodup_cons.mpr ⟨fun h => ((hkept lo).mp h).2.2 rfl, hnodup⟩, ?_⟩
    intro u
    rw [mem_cons, hkept]
    constructor
    . rintro (rfl | h)
      . exact hlo
      . exact h.2.1
    . intro h
      by_cases heq : u = lo
      . exact .inl heq
      . exact .inr ⟨(mem_cons.mp ((hmem u).mpr h.1)).resolve_left heq, h, heq⟩

theorem printedUris_not_reduced
    : printedUris ["h/m/c/e".toList, "h/m/c-d".toList, "h/m/c".toList]
        = [some "h/m/c".toList, some "h/m/c-d".toList, some "h/m/c/e".toList] ∧
      Subsumes "h/m/c".toList "h/m/c/e".toList := by
  refine ⟨by decide, by decide, ?_⟩
  decide

end Rpstir.Chaser
