import Mathlib.Data.List.Chain
import Mathlib.Data.Set.Insert

/-!
This module contains deltas between sets: what is announced and what is withdrawn to get from one set
to the next, and what a sequence of deltas does along a path of versions.
-/

universe u v

structure Delta (α : Type u) where
  announce : Set α
  withdraw : Set α

namespace Delta

open List

variable {α : Type u} {ι : Type v}

def apply (d : Delta α) (s : Set α) : Set α :=
  (s \ d.withdraw) ∪ d.announce

def between (s t : Set α) : Delta α where
  announce := t \ s
  withdraw := s \ t

structure Fits (d : Delta α) (s : Set α) : Prop where
  announce_new : ∀ a ∈ d.announce, a ∉ s
  withdraw_old : ∀ a ∈ d.withdraw, a ∈ s
  announce_or_withdraw : ∀ a ∈ d.announce, a ∉ d.withdraw

@[simp]
theorem apply_between (s t : Set α) : (between s t).apply s = t := by
  ext a
  simp only [apply, between, Set.mem_union, Set.mem_sdiff]
  tauto

theorem between_fits (s t : Set α) : (between s t).Fits s where
  announce_new := by
    intro a ha
    exact ha.2
  withdraw_old := by
    intro a ha
    exact ha.1
  announce_or_withdraw := by
    intro a ha ha'
    exact ha'.2 ha.1

def applyAll (ds : List (Delta α)) (s : Set α) : Set α :=
  ds.foldl (fun s d => d.apply s) s

def AllFit : List (Delta α) → Set α → Prop
  | [], _ => True
  | d :: ds, s => d.Fits s ∧ AllFit ds (d.apply s)

variable {content : ι → Set α} {delta : ι → Delta α}

variable {is : List ι} {as : List α} {s t : Set α} {i : ι} {a b : α}

section

variable (h : (i :: is).IsChain fun a b => delta b = between (content a) (content b))

include h

theorem applyAll_of_isChain
    : applyAll (is.map delta) (content i) = content ((i :: is).getLast (cons_ne_nil _ _)) := by
  induction is generalizing i with
  | nil => rfl
  | cons _ is ih =>
    rw [isChain_cons_cons] at h
    rw [getLast_cons (cons_ne_nil _ _)]
    rw [← ih h.2]
    simp [applyAll, h.1]

theorem allFit_of_isChain : AllFit (is.map delta) (content i) := by
  induction is generalizing i with
  | nil => trivial
  | cons _ is ih =>
    rw [isChain_cons_cons] at h
    rw [map_cons, AllFit, h.1, apply_between]
    exact ⟨between_fits _ _, ih h.2⟩

end

def applyChange (s : Set α) : Bool × α → Set α
  | (true, a) => insert a s
  | (false, a) => s \ {a}

def applyChanges (cs : List (Bool × α)) (s : Set α) : Set α :=
  cs.foldl applyChange s

@[simp]
theorem applyChanges_nil (s : Set α) : applyChanges [] s = s := by
  rfl

theorem applyChanges_append (cs cs' : List (Bool × α)) (s : Set α)
    : applyChanges (cs ++ cs') s = applyChanges cs' (applyChanges cs s) := by
  exact foldl_append

theorem mem_applyChange {announce : Bool}
    : a ∈ applyChange s (announce, b) ↔ (a = b ∧ announce = true) ∨ (a ≠ b ∧ a ∈ s) := by
  cases announce with
  | true =>
    by_cases hab : a = b <;> simp [applyChange, hab]
  | false =>
    simp [applyChange, and_comm]

theorem mem_applyChanges_map {announce : α → Bool}
    : a ∈ applyChanges (as.map fun a => (announce a, a)) s
        ↔
      (a ∈ as ∧ announce a = true) ∨ (a ∉ as ∧ a ∈ s) := by
  induction as generalizing s with
  | nil => simp
  | cons b as ih =>
    unfold applyChanges at ih ⊢
    rw [map_cons, foldl_cons, ih, mem_applyChange]
    by_cases hab : a = b
    . subst hab
      by_cases ha : a ∈ as <;> simp [ha]
    . simp [hab]

theorem applyChanges_map_eq {announce : α → Bool} (hannounce : ∀ a, announce a = true ↔ a ∈ t)
    (hcover : ∀ a, a ∉ as → (a ∈ s ↔ a ∈ t))
    : applyChanges (as.map fun a => (announce a, a)) s = t := by
  ext a
  rw [mem_applyChanges_map, hannounce]
  by_cases ha : a ∈ as
  . simp [ha]
  . simp [ha, hcover a ha]

end Delta
