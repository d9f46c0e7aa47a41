import Rpstir.Lta.Perforate

/-!
This module contains arrays of ranges that have a block for each type and a terminator, and the
perforation of one such array by another one as a subtraction of sets.
-/

namespace Rpstir.Lta

open List Option

def terminatorRange : IpRange :=
  ⟨.terminator, 0, 0⟩

theorem perforate_terminator {rules certs : List IpRange} {fuel numrulerange numcertrange : Nat} {r : IpRange}
    (hcert : certs[numcertrange]? = some terminatorRange) (hlast : certs[numcertrange + 1]? = none)
    (hrule : rules[numrulerange]? = some r) (hr : r.lolim.lead 4 ≠ 0) (hfuel : 2 ≤ fuel)
    : perforate fuel rules numrulerange certs numcertrange = some (certs, 0) := by
  obtain ⟨fuel, rfl⟩ : ∃ n, fuel = n + 2 := ⟨fuel - 2, by omega⟩
  have hbefore : terminatorRange.hilim.lead (typLth terminatorRange.typ)
      < r.lolim.lead (typLth terminatorRange.typ) := by
    have hzero : terminatorRange.hilim.lead (typLth terminatorRange.typ) = 0 := by decide
    rw [hzero]
    exact Nat.pos_of_ne_zero hr
  simp only [perforate, perforate.go, hcert, hrule, if_pos hbefore, nextRange, hlast]

structure Resources where
  block : Typ → List IpRange
  typ_eq : ∀ typ, ∀ r ∈ block typ, r.typ = typ
  ordered : ∀ typ, Span.Ordered ((block typ).map (IpRange.interval (typLth typ)))
  terminator : block .terminator = []

namespace Resources

def Holds (r : Resources) (typ : Typ) (x : Nat) : Prop :=
  Lta.Holds typ (r.block typ) x

def ranges (r : Resources) : List IpRange :=
  r.block .ipv4 ++ r.block .ipv6 ++ r.block .asnum

def toList (r : Resources) : List IpRange :=
  r.ranges ++ [terminatorRange]

def pre (r : Resources) : Typ → List IpRange
  | .ipv4 => []
  | .ipv6 => r.block .ipv4
  | .asnum => r.block .ipv4 ++ r.block .ipv6
  | .terminator => r.ranges

def post (r : Resources) : Typ → List IpRange
  | .ipv4 => r.block .ipv6 ++ r.block .asnum ++ [terminatorRange]
  | .ipv6 => r.block .asnum ++ [terminatorRange]
  | .asnum => [terminatorRange]
  | .terminator => [terminatorRange]

variable (r : Resources)

theorem toList_eq (typ : Typ) : r.toList = r.pre typ ++ r.block typ ++ r.post typ := by
  cases typ <;> simp [toList, ranges, pre, post, r.terminator]

theorem post_ne_nil (typ : Typ) : r.post typ ≠ [] := by
  cases typ <;> simp [post]

variable {typ : Typ}

theorem ends_append {typ' : Typ} {post : List IpRange} (hne : typ' ≠ typ)
    (hpost : EndsBlock typ post) : EndsBlock typ (r.block typ' ++ post) := by
  cases h : r.block typ' with
  | nil => exact hpost
  | cons c =>
    have htyp := r.typ_eq typ' c (by simp [h])
    intro _ hc'
    simp only [cons_append, head?_cons, mem_some_iff] at hc'
    rw [← hc', htyp]
    exact hne

theorem ends_post (htyp : typ ≠ .terminator) : EndsBlock typ (r.post typ) := by
  have hterminator : EndsBlock typ [terminatorRange] := by
    intro _ hc
    cases hc
    exact htyp.symm
  cases typ with
  | ipv4 =>
    rw [post, append_assoc]
    exact r.ends_append (by decide) (r.ends_append (by decide) hterminator)
  | ipv6 => exact r.ends_append (by decide) hterminator
  | asnum => exact hterminator
  | terminator => exact absurd rfl htyp

theorem isBlock (htyp : typ ≠ .terminator) : IsBlock typ (r.block typ) (r.post typ) where
  typ_eq := r.typ_eq typ
  ends := r.ends_post htyp
  ordered := r.ordered typ

theorem takeWhile_ranges {p : IpRange → Bool} (htyp : typ ≠ .terminator)
    (hp : ∀ c, c.typ ≠ .terminator → (p c = true ↔ c.typ.toNat < typ.toNat))
    : r.ranges.takeWhile p = r.pre typ := by
  have hblock {t : Typ} {c : IpRange} (hc : c ∈ r.block t) : p c = true ↔ t.toNat < typ.toNat := by
    obtain rfl := r.typ_eq t c hc
    apply hp
    intro hterminator
    rw [hterminator, r.terminator] at hc
    cases hc
  have hbefore {t : Typ} (ht : t.toNat < typ.toNat) (l : List IpRange)
      : (r.block t ++ l).takeWhile p = r.block t ++ l.takeWhile p :=
    takeWhile_append_of_pos fun _ hc => (hblock hc).mpr ht
  have hbehind {t : Typ} (ht : ¬t.toNat < typ.toNat) {l : List IpRange} (hl : l.takeWhile p = [])
      : (r.block t ++ l).takeWhile p = [] := by
    cases h : r.block t with
    | nil => exact hl
    | cons c => exact takeWhile_cons_of_neg (mt (hblock (h ▸ mem_cons_self)).mp ht)
  rw [ranges, append_assoc, ← append_nil (r.block .asnum)]
  cases typ with
  | terminator => exact absurd rfl htyp
  | ipv4 => exact hbehind (by decide) (hbehind (by decide) (hbehind (by decide) rfl))
  | ipv6 => rw [hbefore (by decide), hbehind (by decide) (hbehind (by decide) rfl), append_nil, pre]
  | asnum => rw [hbefore (by decide), hbefore (by decide), hbehind (by decide) rfl, append_nil, pre]

theorem block_ne_nil_iff (typ : Typ) : r.block typ ≠ [] ↔ ∃ x, r.Holds typ x := by
  constructor
  . intro h
    obtain ⟨c, _, hc⟩ := exists_cons_of_ne_nil h
    have hmem : c.interval (typLth typ) ∈ (r.block typ).map (IpRange.interval (typLth typ)) :=
      List.mem_map_of_mem (by simp [hc])
    exact ⟨_, _, hmem, Nat.le_refl _, (r.ordered typ).le _ hmem⟩
  . rintro ⟨x, c, hc, -⟩ hnil
    rw [hnil] at hc
    cases hc

theorem holds_terminator (x : Nat) : ¬r.Holds .terminator x := by
  intro h
  exact (r.block_ne_nil_iff .terminator).mpr ⟨x, h⟩ r.terminator

theorem getElem?_pre {rest : List IpRange} (hends : EndsBlock typ rest) (hne : r.block typ ++ rest ≠ [])
    : ∃ c, (r.pre typ ++ r.block typ ++ rest)[(r.pre typ).length]? = some c ∧
        (c.typ = typ ↔ r.block typ ≠ []) := by
  rw [append_assoc, getElem?_append_right (Nat.le_refl _), Nat.sub_self]
  cases hblock : r.block typ with
  | nil =>
    obtain ⟨c, _, rfl⟩ := exists_cons_of_ne_nil (nil_append rest ▸ hblock ▸ hne)
    have hc := hends c rfl
    exact ⟨c, rfl, by simp [hc]⟩
  | cons c =>
    have hc := r.typ_eq typ c (by simp [hblock])
    exact ⟨c, rfl, by simp [hc]⟩

def set (typ : Typ) (cs : List IpRange) (post : List IpRange) (htyp : typ ≠ .terminator)
    (hcs : IsBlock typ cs post) : Resources where
  block := Function.update r.block typ cs
  typ_eq := by
    intro typ'
    by_cases h : typ' = typ
    . subst h
      rw [Function.update_self]
      exact hcs.typ_eq
    . rw [Function.update_of_ne h]
      exact r.typ_eq typ'
  ordered := by
    intro typ'
    by_cases h : typ' = typ
    . subst h
      rw [Function.update_self]
      exact hcs.ordered
    . rw [Function.update_of_ne h]
      exact r.ordered typ'
  terminator := by
    rw [Function.update_of_ne htyp.symm]
    exact r.terminator

theorem set_toList {cs post : List IpRange} (htyp : typ ≠ .terminator) (hcs : IsBlock typ cs post)
    : (r.set typ cs post htyp hcs).toList = r.pre typ ++ cs ++ r.post typ := by
  cases typ with
  | terminator => exact absurd rfl htyp
  | ipv4
  | ipv6
  | asnum => simp [toList, ranges, pre, Resources.post, set]

def Without (typ : Typ) (cert rules : Resources) : Prop :=
  ∀ t x, r.Holds t x ↔ cert.Holds t x ∧ (t = typ → ¬rules.Holds t x)

def Diff (cert rules : Resources) : Prop :=
  ∀ typ x, r.Holds typ x ↔ cert.Holds typ x ∧ ¬rules.Holds typ x

/--
The perforation of the block of a type. The array of the rules may also end without a terminator.
-/
theorem perforate_eq (htyp : typ ≠ .terminator) {cert rules : Resources}
    (hcert : cert.block typ ≠ []) (hrules : rules.block typ ≠ []) {rest : List IpRange}
    (hrest : EndsBlock typ rest)
    : ∃ (res : Resources) (did : Nat), res.Without typ cert rules ∧
        (∀ t ≠ typ, res.block t = cert.block t) ∧
        (did = 0 → ∀ x, ¬(cert.Holds typ x ∧ rules.Holds typ x)) ∧
        ∀ fuel > (cert.block typ).length + (rules.block typ).length,
          perforate fuel (rules.pre typ ++ rules.block typ ++ rest) (rules.pre typ).length cert.toList
            (cert.pre typ).length = some (res.toList, did) := by
  obtain ⟨cs, did, hrun, hdid, hblock, hholds⟩ := @perforate.checked_subtracts typ (cert.pre typ)
    (cert.block typ) (cert.post typ) (rules.pre typ) (rules.block typ) rest
    ⟨rules.typ_eq typ, hrest, rules.ordered typ⟩ (cert.isBlock htyp) hrules hcert (cert.post_ne_nil typ)
  refine ⟨cert.set typ cs _ htyp hblock, did, ?_, fun t ht => Function.update_of_ne ht .., ?_,
    fun fuel hfuel => ?_⟩
  . intro t x
    by_cases h : t = typ
    . subst h
      simpa [Holds, set] using hholds x
    . simp [Holds, set, h]
  . rintro rfl x ⟨hx, hrule⟩
    rw [Holds, ← hdid rfl] at hx
    exact ((hholds x).mp hx).2 hrule
  . rw [set_toList, cert.toList_eq typ]
    exact perforate.perforate_of_checked (hrun fuel hfuel)

end Resources

end Rpstir.Lta
