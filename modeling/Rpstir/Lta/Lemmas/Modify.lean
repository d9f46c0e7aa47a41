import Mathlib.Data.List.TakeWhile
import Rpstir.Lta.Lemmas.Resources

/-!
This module contains the proof that `modify_paracert` subtracts the rules from the ranges of a certificate.
-/

namespace Rpstir.Lta

open List

namespace Resources

variable (r : Resources) {typ : Typ}

theorem takeWhile_toList (htyp : typ ≠ .terminator)
    : r.toList.takeWhile (fun c => c.typ ≠ .terminator && decide (c.typ.toNat < typ.toNat)) = r.pre typ := by
  have htake := r.takeWhile_ranges (p := fun c => c.typ ≠ .terminator && decide (c.typ.toNat < typ.toNat)) htyp
    fun c hc => by simp [hc]
  rw [toList, takeWhile_append, htake, takeWhile_cons_of_neg (by simp [terminatorRange]), append_nil]
  split
  . next h => exact ((htake ▸ takeWhile_prefix _ : r.pre typ <+: r.ranges).eq_of_length h).symm
  . rfl

/--
An array with the blocks of the rules. Where `modify_paracert` looks for the block of a type there is some
range, so that it does not read behind the array: the ranges of an SKI block have no terminator.
-/
def AreRules (ruleranges : List IpRange) : Prop :=
  ∀ typ ≠ .terminator, ∃ rest, ruleranges = r.pre typ ++ r.block typ ++ rest ∧ EndsBlock typ rest ∧
    r.block typ ++ rest ≠ []

theorem areRules_ranges (h : r.block .asnum ≠ []) : r.AreRules r.ranges := by
  intro typ htyp
  have hend {t : Typ} (ht : t ≠ typ) : EndsBlock typ (r.block t) :=
    append_nil (r.block t) ▸ r.ends_append ht fun _ hc => nomatch hc
  cases typ with
  | terminator => exact absurd rfl htyp
  | ipv4 => exact ⟨_, append_assoc .., r.ends_append (by decide) (hend (by decide)), by simp [h]⟩
  | ipv6 => exact ⟨_, rfl, hend (by decide), by simp [h]⟩
  | asnum => exact ⟨[], (append_nil _).symm, fun _ hc => (nomatch hc), by simpa using h⟩

variable {r} {cert rules : Resources} {ruleranges : List IpRange} {fuel : Nat}

theorem skipTyp_eq (typ : Typ) (h : rules.AreRules ruleranges) (htyp : typ ≠ .terminator)
    : skipTyp ruleranges (rules.pre typ).length typ = (rules.pre typ ++ rules.block typ).length := by
  obtain ⟨rest, rfl, hends, -⟩ := h typ htyp
  have hrest : rest.takeWhile (fun r => decide (r.typ = typ)) = [] := by
    cases rest with
    | nil => rfl
    | cons c => exact takeWhile_cons_of_neg (by simpa using hends c rfl)
  rw [skipTyp, append_assoc, drop_left, takeWhile_append_of_pos (by simpa using rules.typ_eq typ), hrest,
    append_nil, length_append]

/--
The certificate has ranges of the type, or none of it and of those behind it, where `perforate` takes the
terminator for a range that must not be in conflict with the first rule.
-/
def Perforable (cert rules : Resources) (typ : Typ) : Prop :=
  ∀ r ∈ (rules.block typ).head?, cert.block typ ≠ [] ∨ cert.post typ = [terminatorRange] ∧ r.lolim.lead 4 ≠ 0

theorem modifyTyp_eq (typ : Typ) (hrules : rules.AreRules ruleranges) (htyp : typ ≠ .terminator)
    (hperforable : cert.Perforable rules typ) (hfuel : (cert.block typ).length + ruleranges.length + 1 < fuel)
    : ∃ (res : Resources) (did : Nat), res.Without typ cert rules ∧ (∀ t ≠ typ, res.block t = cert.block t) ∧
        (did = 0 → ∀ x, ¬(cert.Holds typ x ∧ rules.Holds typ x)) ∧
        modifyTyp 1 fuel ruleranges (rules.pre typ).length typ cert.toList = some (res.toList, did) := by
  obtain ⟨rest, rfl, hends, hne⟩ := hrules typ htyp
  obtain ⟨r, hr, hrtyp⟩ := rules.getElem?_pre hends hne
  simp only [length_append] at hfuel
  simp only [modifyTyp, hr, cert.takeWhile_toList htyp]
  by_cases hboth : cert.block typ ≠ [] ∧ r.typ = typ
  . obtain ⟨res, did, hres, hother, hdid, hrun⟩ := perforate_eq htyp hboth.1 (hrtyp.mp hboth.2) hends
    refine ⟨res, did, hres, hother, hdid, ?_⟩
    rw [if_pos hboth.2]
    exact hrun fuel (by omega)
  have hnone : ∀ x, ¬(cert.Holds typ x ∧ rules.Holds typ x) := fun x hx =>
    hboth ⟨(cert.block_ne_nil_iff typ).mpr ⟨x, hx.1⟩, hrtyp.mpr ((rules.block_ne_nil_iff typ).mpr ⟨x, hx.2⟩)⟩
  refine ⟨cert, 0, fun t x => ⟨fun hx => ⟨hx, ?_⟩, And.left⟩, fun _ _ => rfl, fun _ => hnone, ?_⟩
  . rintro rfl hrule
    exact hnone x ⟨hx, hrule⟩
  split
  . next h =>
    have hcert : cert.block typ = [] := by simpa [h] using hboth
    obtain ⟨r', _, hblock⟩ := exists_cons_of_ne_nil (hrtyp.mp h)
    obtain ⟨hpost, hpos⟩ := (hperforable r' (by simp [hblock])).resolve_left (not_not.mpr hcert)
    have htoList := cert.toList_eq typ
    rw [hcert, hpost, append_nil] at htoList
    refine perforate_terminator (by simp [htoList]) (by simp [htoList]) ?_ hpos (by omega)
    rw [hblock]
    exact getElem?_cursor
  . rfl

theorem modifyRanges_eq (hrules : rules.AreRules ruleranges) (hcert : ∀ typ, cert.Perforable rules typ)
    (hfuel : cert.toList.length + ruleranges.length < fuel)
    : ∃ (res : Resources) (changes : Nat), res.Diff cert rules ∧
        (changes = 0 → ¬∃ typ x, cert.Holds typ x ∧ rules.Holds typ x) ∧
        modifyRanges 1 fuel ruleranges cert.toList = some (res.toList, changes) := by
  have hlength (typ : Typ) : (cert.block typ).length + ruleranges.length + 1 < fuel := by
    have hpost := length_pos_iff.mpr (cert.post_ne_nil typ)
    rw [cert.toList_eq typ, length_append, length_append] at hfuel
    omega
  obtain ⟨res4, did4, h4, hother4, hdid4, hrun4⟩ := modifyTyp_eq .ipv4 hrules (by decide) (hcert _) (hlength _)
  have hblock6 : res4.block .ipv6 = cert.block .ipv6 := hother4 _ (by decide)
  have hpost6 : res4.post .ipv6 = cert.post .ipv6 := by rw [post, post, hother4 _ (by decide)]
  obtain ⟨res6, did6, h6, hother6, hdid6, hrun6⟩ := @modifyTyp_eq res4 _ _ fuel .ipv6 hrules (by decide)
    (by rw [Perforable, hblock6, hpost6]; exact hcert _) (hblock6 ▸ hlength _)
  have hblockAs : res6.block .asnum = cert.block .asnum := by rw [hother6 _ (by decide), hother4 _ (by decide)]
  obtain ⟨res, didAs, hAs, -, hdidAs, hrunAs⟩ := @modifyTyp_eq res6 _ _ fuel .asnum hrules (by decide)
    (by rw [Perforable, hblockAs]; exact hcert _) (hblockAs ▸ hlength _)
  refine ⟨res, did4 + did6 + didAs, fun typ x => ?_, ?_, ?_⟩
  . rw [hAs, h6, h4]
    cases typ with
    | terminator => simp [cert.holds_terminator x]
    | ipv4
    | ipv6
    | asnum => simp
  . rintro hzero ⟨typ, x, hx⟩
    cases typ with
    | terminator => exact cert.holds_terminator x hx.1
    | ipv4 => exact hdid4 (by omega) x hx
    | ipv6 => exact hdid6 (by omega) x (by simpa [h4 .ipv6] using hx)
    | asnum => exact hdidAs (by omega) x (by simpa [h6 .asnum, h4 .asnum] using hx)
  . have h6 : skipTyp ruleranges 0 .ipv4 = (rules.pre .ipv6).length := skipTyp_eq .ipv4 hrules (by decide)
    have hAs : skipTyp ruleranges (rules.pre .ipv6).length .ipv6 = (rules.pre .asnum).length :=
      skipTyp_eq .ipv6 hrules (by decide)
    simp only [modifyRanges, h6, hAs]
    rw [show 0 = (rules.pre .ipv4).length from rfl, hrun4]
    simp only [hrun6, hrunAs]

end Resources

end Rpstir.Lta
