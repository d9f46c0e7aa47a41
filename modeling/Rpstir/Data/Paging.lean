import Mathlib.Data.List.Pairwise
import Mathlib.Data.List.Sort

/-!
This module contains reading a set page by page: each page has the least elements that are greater than
the last element of the page before it.
-/

universe u

namespace Paging

open List Option

variable {α : Type u} [LinearOrder α]

def page (l : List α) (last : Option α) (limit : Nat) : List α :=
  ((l.filter fun a => last.all fun b => decide (b < a)).insertionSort (· ≤ ·)).take limit

structure ReadUpTo (read l : List α) : Prop where
  sorted : read.Pairwise (· < ·)
  subset : ∀ a ∈ read, a ∈ l
  lt_rest : ∀ a ∈ l, a ∉ read → ∀ b ∈ read, b < a

namespace ReadUpTo

variable {read l l' : List α}

theorem nil : ReadUpTo [] l := by
  constructor <;> simp

variable (h : ReadUpTo read l)

include h

theorem congr (hmem : ∀ a, a ∈ l' ↔ a ∈ l) : ReadUpTo read l' where
  sorted := h.sorted
  subset := by
    intro a ha
    rw [hmem]
    exact h.subset a ha
  lt_rest := by
    intro a ha
    rw [hmem] at ha
    exact h.lt_rest a ha

theorem le_getLast {a last : α} (ha : a ∈ read) (hlast : last ∈ read.getLast?) : a ≤ last := by
  rcases mem_getLast?_eq_getLast hlast with ⟨hne, rfl⟩
  rw [← dropLast_concat_getLast hne, List.mem_append, mem_singleton] at ha
  rcases ha with ha | ha
  . exact le_of_lt (h.sorted.rel_dropLast_getLast ha)
  . exact le_of_eq ha

theorem mem_filter_iff {a : α}
    : a ∈ l.filter (fun a => read.getLast?.all fun b => decide (b < a)) ↔ a ∈ l ∧ a ∉ read := by
  rw [mem_filter, and_congr_right_iff]
  intro ha
  cases hlast : read.getLast? with
  | none =>
    rw [getLast?_eq_none_iff] at hlast
    simp [hlast]
  | some last =>
    simp only [all_some, decide_eq_true_eq]
    constructor
    . intro hlt hread
      exact absurd hlt (not_lt.mpr (h.le_getLast hread hlast))
    . intro hread
      exact h.lt_rest a ha hread last (mem_of_getLast? hlast)

theorem page (hnodup : l.Nodup) (limit : Nat)
    : ReadUpTo (read ++ page l read.getLast? limit) l ∧
        ((page l read.getLast? limit).length < limit →
          ∀ a ∈ l, a ∈ read ++ Paging.page l read.getLast? limit) := by
  unfold Paging.page
  generalize hrest : l.filter (fun a => read.getLast?.all fun b => decide (b < a)) = rest
  have hmem : ∀ a, a ∈ rest.insertionSort (· ≤ ·) ↔ a ∈ l ∧ a ∉ read := by
    intro a
    rw [mem_insertionSort, ← hrest]
    exact h.mem_filter_iff
  have hnodup' : (rest.insertionSort (· ≤ ·)).Nodup := by
    rw [(perm_insertionSort _ _).nodup_iff, ← hrest]
    exact hnodup.filter _
  have hsorted : (rest.insertionSort (· ≤ ·)).Pairwise (· < ·) := by
    apply ((pairwise_insertionSort _ rest).and hnodup').imp
    rintro a b ⟨hle, hne⟩
    exact lt_of_le_of_ne hle hne
  generalize rest.insertionSort (· ≤ ·) = sorted at hmem hsorted
  have hsplit := sorted.take_append_drop limit
  refine ⟨⟨?_, ?_, ?_⟩, ?_⟩
  . rw [pairwise_append]
    refine ⟨h.sorted, hsorted.sublist (take_sublist _ _), ?_⟩
    intro a ha b hb
    have hb := (hmem b).mp (mem_of_mem_take hb)
    exact h.lt_rest b hb.1 hb.2 a ha
  . intro a ha
    rcases List.mem_append.mp ha with ha | ha
    . exact h.subset a ha
    . exact ((hmem a).mp (mem_of_mem_take ha)).1
  . intro a ha hread b hb
    rw [List.mem_append, not_or] at hread
    rcases List.mem_append.mp hb with hb | hb
    . exact h.lt_rest a ha hread.1 b hb
    have ha := (hmem a).mpr ⟨ha, hread.1⟩
    rw [← hsplit] at ha hsorted
    rcases List.mem_append.mp ha with ha | ha
    . exact absurd ha hread.2
    . exact (pairwise_append.mp hsorted).2.2 b hb a ha
  intro hlt a ha
  rw [List.mem_append]
  by_cases hread : a ∈ read
  . exact Or.inl hread
  right
  have hlen : sorted.length ≤ limit := by
    rw [length_take] at hlt
    omega
  rw [take_of_length_le hlen]
  exact (hmem a).mpr ⟨ha, hread⟩

end ReadUpTo

section Keyed

variable {β : Type _} (key : β → α)

theorem sort_filter_of_split {l read rest : List β}
    (hsplit : l.insertionSort (key · ≤ key ·) = read ++ rest) (hnodup : (l.map key).Nodup)
    : (l.filter fun b => (read.getLast?.map key).all fun k => decide (k < key b)).insertionSort
        (key · ≤ key ·) = rest := by
  have hperm : l.Perm (read ++ rest) := by
    rw [← hsplit]
    exact (perm_insertionSort _ _).symm
  have hsorted : (read ++ rest).Pairwise (key · < key ·) := by
    have hle : (read ++ rest).Pairwise (key · ≤ key ·) := by
      rw [← hsplit]
      exact pairwise_insertionSort _ _
    have hne : (read ++ rest).Pairwise (key · ≠ key ·) :=
      pairwise_map.mp ((hperm.map key).nodup_iff.mp hnodup)
    apply (hle.and hne).imp
    rintro a b ⟨hle, hne⟩
    exact lt_of_le_of_ne hle hne
  rw [pairwise_append] at hsorted
  obtain ⟨hread, hrest, hlt⟩ := hsorted
  have hfilter : (read ++ rest).filter (fun b => (read.getLast?.map key).all fun k => decide (k < key b))
      = rest := by
    cases hlast : read.getLast? with
    | none =>
      rw [getLast?_eq_none_iff] at hlast
      simp [hlast]
    | some =>
      obtain ⟨hne, rfl⟩ := mem_getLast?_eq_getLast hlast
      rw [filter_append, filter_eq_nil_iff.mpr, filter_eq_self.mpr, nil_append]
      . intro b hb
        simpa using hlt _ (getLast_mem hne) b hb
      intro b hb
      rw [← dropLast_concat_getLast hne, List.mem_append, mem_singleton] at hb
      have hle : key b ≤ key (read.getLast hne) := by
        rcases hb with hb | rfl
        . exact le_of_lt (hread.rel_dropLast_getLast hb)
        . exact le_rfl
      simpa using hle
  refine List.Perm.eq_of_pairwise ?_ (pairwise_insertionSort (key · ≤ key ·) _)
    (hrest.imp le_of_lt) ?_
  . intro a b ha hb hab hba
    apply inj_on_of_nodup_map hnodup
    . rw [mem_insertionSort] at ha
      exact mem_of_mem_filter ha
    . exact hperm.mem_iff.mpr (mem_append_right read hb)
    . exact le_antisymm hab hba
  . rw [← hfilter]
    exact (perm_insertionSort _ _).trans (hperm.filter _)

end Keyed

section Calls

variable {σ π : Type} (step : Nat → σ → Option σ)

def run : (Nat → Nat) → Nat → σ → Option σ
  | _, 0, q => some q
  | sizes, n + 1, q => (step (sizes 0) q).bind (run (fun k => sizes (k + 1)) n)

variable (done : σ → Prop) (sent : σ → List π)

def Delivers (q : σ) (out : List π) : Prop :=
  ∀ sizes : Nat → Nat, (∀ k, 2 ≤ sizes k) →
    ∃ n q', run step sizes n q = some q' ∧ done q' ∧ sent q' = sent q ++ out

variable {step done sent}

variable {out : List π} {q : σ}

theorem Delivers.of_done (h : done q) : Delivers step done sent q [] := by
  intro _ _
  exact ⟨0, q, rfl, h, (append_nil _).symm⟩

theorem Delivers.of_step
    (h : ∀ size, 2 ≤ size → ∃ q' page rest, step size q = some q' ∧ sent q' = sent q ++ page
      ∧ out = page ++ rest ∧ Delivers step done sent q' rest) : Delivers step done sent q out := by
  intro sizes hsizes
  obtain ⟨q', page, rest, hstep, hsent, rfl, hrest⟩ := h (sizes 0) (hsizes 0)
  obtain ⟨n, q'', hrun, hdone, hsent'⟩ := hrest (fun k => sizes (k + 1)) fun k => hsizes (k + 1)
  refine ⟨n + 1, q'', ?_, hdone, ?_⟩
  . rw [run, hstep]
    exact hrun
  . rw [hsent', hsent, append_assoc]

theorem Delivers.of_quiet_step {q' : σ} (hstep : ∀ size, 2 ≤ size → step size q = some q')
    (hsent : sent q' = sent q) (h : Delivers step done sent q' out)
    : Delivers step done sent q out := by
  apply Delivers.of_step
  intro size hsize
  exact ⟨q', [], out, hstep size hsize, by rw [hsent, append_nil], rfl, h⟩

theorem Delivers.of_last_step {q' : σ} (hstep : ∀ size, 2 ≤ size → step size q = some q')
    (hdone : done q') (hsent : sent q' = sent q ++ out) : Delivers step done sent q out := by
  apply Delivers.of_step
  intro size hsize
  exact ⟨q', out, [], hstep size hsize, hsent, (append_nil _).symm, .of_done hdone⟩

theorem run_of_closed {states : List σ} {size : Nat}
    (h : ∀ q ∈ states, ∃ q' ∈ states, step size q = some q') (n : Nat) (hq : q ∈ states)
    : ∃ q' ∈ states, run step (fun _ => size) n q = some q' := by
  induction n generalizing q with
  | zero => exact ⟨q, hq, rfl⟩
  | succ n ih =>
    obtain ⟨q', hq', hstep⟩ := h q hq
    rw [run, hstep]
    exact ih hq'

end Calls

end Paging
