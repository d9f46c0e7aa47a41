import Rpstir.Lta.Basic
import Rpstir.Lta.ConflictText

/-!
This module contains `conflict_test` of `rpwork.c` and what it tests.
-/

namespace Rpstir.Lta

open List Option

def numBehind (typ : Typ) (ranges : List IpRange) : Nat :=
  ((ranges.take (ranges.length - 1)).takeWhile fun r => r.typ.toNat ≤ typ.toNat).length

/--
The perforation of the ranges of a type that come behind those of the type `before`, if both lists have
some. The result `none` is the use of a list with no range at all.
-/
def perfTyp (fuel : Nat) (before typ : Typ) (lessp fromp : List IpRange) : Option (List IpRange) :=
  let lessnum := numBehind before lessp
  let fromnum := numBehind before fromp
  match fromp[fromnum]?, lessp[lessnum]? with
  | some f, some l =>
    if f.typ = typ ∧ l.typ = typ then
      (perforate fuel lessp lessnum fromp fromnum).map Prod.fst
    else
      some fromp
  | _, _ => none

def perfAFromB (fuel : Nat) (lessp fromp : List IpRange) : Option (List IpRange) := do
  let (from4, _) ← perforate fuel lessp 0 fromp 0
  let from6 ← perfTyp fuel .ipv4 .ipv6 lessp from4
  perfTyp fuel .ipv6 .asnum lessp from6

def conflictTest (fuel : Nat) (perf : Bool) (origcert paracert : Certificate) (ruleranges : List Rule)
    (skibuf : List Char) : Option (Nat × List Char) := do
  let fromranges := mkCertranges (if !perf then origcert else paracert)
  let lessranges := mkCertranges (if !perf then paracert else origcert)
  let fromranges ← perfAFromB fuel lessranges fromranges
  let lessranges := ruleranges.map (·.range) ++ [terminatorRange]
  let savranges := fromranges
  let fromranges ← perfAFromB fuel lessranges fromranges
  if fromranges.length > 1 then
    let savranges ← perfAFromB fuel fromranges savranges
    let skibuf ← findWhere ruleranges none savranges []
    return (1, skibuf)
  else
    return (0, skibuf)

variable {cert : Resources} {x lo hi : Nat}

namespace Resources

variable (r : Resources)

variable {c : IpRange} {fuel : Nat} {behind rules rest : List IpRange}

theorem numBehind_eq {before typ : Typ} (htyp : typ ≠ .terminator)
    (hnext : ∀ t : Typ, t.toNat ≤ before.toNat ↔ t.toNat < typ.toNat)
    : numBehind before r.toList = (r.pre typ).length := by
  have hlength : r.toList.length - 1 = r.ranges.length := by simp [toList]
  rw [numBehind, hlength, toList, take_left,
    r.takeWhile_ranges htyp fun c _ => decide_eq_true_iff.trans (hnext c.typ)]

theorem perfTyp_eq (cert rules : Resources) (before typ : Typ) (htyp : typ ≠ .terminator)
    (hnext : ∀ t : Typ, t.toNat ≤ before.toNat ↔ t.toNat < typ.toNat)
    : ∃ (res : Resources) (fuel0 : Nat), res.Without typ cert rules ∧ ∀ fuel ≥ fuel0,
        perfTyp fuel before typ rules.toList cert.toList = some res.toList := by
  obtain ⟨f, hf, hftyp⟩ := cert.getElem?_pre (cert.ends_post htyp) (by simp [cert.post_ne_nil])
  obtain ⟨l, hl, hltyp⟩ := rules.getElem?_pre (rules.ends_post htyp) (by simp [rules.post_ne_nil])
  rw [← toList_eq] at hf hl
  simp only [perfTyp, numBehind_eq _ htyp hnext, hf, hl]
  by_cases h : f.typ = typ ∧ l.typ = typ
  . obtain ⟨res, _, hres, -, -, hrun⟩ := perforate_eq htyp (hftyp.mp h.1) (hltyp.mp h.2) (rules.ends_post htyp)
    refine ⟨res, (cert.block typ).length + (rules.block typ).length + 1, hres, fun fuel hfuel => ?_⟩
    rw [if_pos h, rules.toList_eq typ, hrun fuel hfuel]
    rfl
  refine ⟨cert, 0, fun t x => ?_, fun fuel _ => if_neg h⟩
  -- one of the two has no range of the type
  refine ⟨fun hx => ⟨hx, fun ht hx' => ?_⟩, fun hx => hx.1⟩
  subst ht
  apply h
  exact ⟨hftyp.mpr ((cert.block_ne_nil_iff _).mpr ⟨x, hx⟩),
    hltyp.mpr ((rules.block_ne_nil_iff _).mpr ⟨x, hx'⟩)⟩

def First (typ : Typ) : Prop :=
  typ ≠ .terminator ∧ r.pre typ = [] ∧ r.block typ ≠ []

theorem not_holds_ipv4 {typ : Typ} (hne : .ipv4 ≠ typ) (hpre : r.pre typ = []) (x : Nat)
    : ¬r.Holds .ipv4 x := by
  intro h
  apply (r.block_ne_nil_iff .ipv4).mpr ⟨x, h⟩
  cases typ with
  | ipv4 => exact absurd rfl hne
  | ipv6 => exact hpre
  | asnum => exact (append_eq_nil_iff.mp hpre).1
  | terminator => exact (append_eq_nil_iff.mp (append_eq_nil_iff.mp hpre).1).1

theorem perfTyp_terminator {before typ : Typ} (htyp : typ ≠ .terminator)
    : perfTyp fuel before typ (c :: rest) [terminatorRange] = some [terminatorRange] := by
  have hlt : numBehind before (c :: rest) < (c :: rest).length := by
    have hle : numBehind before (c :: rest) ≤ _ := (takeWhile_sublist _).length_le
    rw [length_take, length_cons] at hle
    rw [length_cons]
    omega
  have hzero : numBehind before [terminatorRange] = 0 := rfl
  have htypeq : terminatorRange.typ ≠ typ := htyp.symm
  simp only [perfTyp, hzero, getElem?_cons_zero, getElem?_eq_getElem hlt, htypeq, false_and,
    if_false]

theorem perfAFromB_empty (hcert : cert.ranges = []) (hrules : rules.head? = some c)
    (hc : c.lolim.lead 4 ≠ 0) (hfuel : 2 ≤ fuel)
    : perfAFromB fuel rules cert.toList = some cert.toList := by
  obtain ⟨rest, rfl⟩ := head?_eq_some_iff.mp hrules
  have htoList : cert.toList = [terminatorRange] := by rw [toList, hcert, nil_append]
  have hrun : perforate fuel (c :: rest) 0 [terminatorRange] 0 = some ([terminatorRange], 0) :=
    perforate_terminator rfl rfl rfl hc hfuel
  rw [htoList]
  simp only [perfAFromB, hrun, bind_eq_bind, bind_some]
  rw [perfTyp_terminator (by decide), bind_some, perfTyp_terminator (by decide)]

theorem perfAFromB_first {typ : Typ} {rules : Resources} (hcert : cert.First typ)
    (hrules : rules.First typ)
    : ∃ (res : Resources) (fuel0 : Nat), res.Diff cert rules ∧ ∀ fuel ≥ fuel0,
        perfAFromB fuel rules.toList cert.toList = some res.toList := by
  obtain ⟨htyp, hcertPre, hcertBlock⟩ := hcert
  obtain ⟨-, hrulesPre, hrulesBlock⟩ := hrules
  obtain ⟨from4, _, hfrom4, -, -, hrun4⟩ := perforate_eq htyp hcertBlock hrulesBlock (rules.ends_post htyp)
  obtain ⟨from6, fuel6, hfrom6, hrun6⟩ := perfTyp_eq from4 rules .ipv4 .ipv6 (by decide) fun t => by cases t <;> decide
  obtain ⟨res, fuelAs, hres, hrunAs⟩ := perfTyp_eq from6 rules .ipv6 .asnum (by decide) fun t => by cases t <;> decide
  refine ⟨res, (cert.block typ).length + (rules.block typ).length + 1 + max fuel6 fuelAs, fun t x => ?_,
    fun fuel hfuel => ?_⟩
  . rw [hres, hfrom6, hfrom4]
    cases t with
    | terminator => simp [cert.holds_terminator x]
    | ipv6
    | asnum => simp; tauto
    | ipv4 =>
      by_cases h4 : Typ.ipv4 = typ
      . subst h4
        simp
      . have hnone := cert.not_holds_ipv4 h4 hcertPre x
        simp [hnone]
  rw [← rules.toList_eq, hcertPre, hrulesPre] at hrun4
  have hrun4' := hrun4 fuel (by omega)
  simp only [length_nil] at hrun4'
  simp only [perfAFromB, hrun4', hrun6 fuel (by omega), hrunAs fuel (by omega), bind_eq_bind,
    bind_some]

theorem ranges_eq_nil_iff : r.ranges = [] ↔ ∀ typ x, ¬r.Holds typ x := by
  have hblock : ∀ typ, r.block typ = [] ↔ ∀ x, ¬r.Holds typ x := by
    intro typ
    have h := r.block_ne_nil_iff typ
    rw [← not_exists, ← h, ne_eq, not_not]
  rw [ranges, append_eq_nil_iff, append_eq_nil_iff, hblock, hblock, hblock]
  constructor
  . rintro ⟨⟨h4, h6⟩, has⟩ typ
    cases typ with
    | ipv4 => exact h4
    | ipv6 => exact h6
    | asnum => exact has
    | terminator => exact r.holds_terminator
  . intro h
    exact ⟨⟨h _, h _⟩, h _⟩

end Resources

abbrev Numbers := Typ → Nat → Prop

def Numbers.First (s : Numbers) (typ : Typ) : Prop :=
  (∃ x, s typ x) ∧ ∀ t, t.toNat < typ.toNat → ∀ x, ¬s t x

def Numbers.Empty (s : Numbers) : Prop :=
  ∀ typ x, ¬s typ x

/--
The lists can be compared by `perf_A_from_B`: they begin with ranges of the same type, or `fromp` is empty
and its terminator is not a part of the first range of `lessp`.
-/
def Comparable (lessp : List IpRange) (less fromp : Numbers) : Prop :=
  (∃ typ, less.First typ ∧ fromp.First typ) ∨
    (fromp.Empty ∧ ∃ c ∈ lessp.head?, c.lolim.lead 4 ≠ 0)

namespace Resources

variable (r : Resources)

theorem first_of_numbers {typ : Typ} (h : Numbers.First r.Holds typ) : r.First typ := by
  obtain ⟨⟨x, hx⟩, hbefore⟩ := h
  have hnil : ∀ t, t.toNat < typ.toNat → r.block t = [] := by
    intro t ht
    by_contra hne
    obtain ⟨x, hx⟩ := (r.block_ne_nil_iff t).mp hne
    exact hbefore t ht x hx
  have htyp : typ ≠ .terminator := by
    rintro rfl
    exact r.holds_terminator x hx
  refine ⟨htyp, ?_, (r.block_ne_nil_iff typ).mpr ⟨x, hx⟩⟩
  cases typ with
  | ipv4 => rfl
  | ipv6 => exact hnil .ipv4 (by decide)
  | asnum => exact append_eq_nil_iff.mpr ⟨hnil .ipv4 (by decide), hnil .ipv6 (by decide)⟩
  | terminator => exact absurd rfl htyp

theorem perfAFromB_eq {rules : Resources} (h : Comparable rules.toList rules.Holds cert.Holds)
    : ∃ (res : Resources) (fuel0 : Nat), res.Diff cert rules ∧ ∀ fuel ≥ fuel0,
        perfAFromB fuel rules.toList cert.toList = some res.toList := by
  rcases h with ⟨_, hrules, hcert⟩ | ⟨hempty, _, hhead, hc⟩
  . exact perfAFromB_first (cert.first_of_numbers hcert) (rules.first_of_numbers hrules)
  . have hnil := cert.ranges_eq_nil_iff.mpr hempty
    refine ⟨cert, 2, fun t x => ?_, fun fuel hfuel => perfAFromB_empty hnil hhead hc hfuel⟩
    simp [hempty t x]

theorem one_lt_length_toList_iff : 1 < r.toList.length ↔ ∃ typ x, r.Holds typ x := by
  have hlength : r.toList.length = r.ranges.length + 1 := by simp [toList]
  have hnil := r.ranges_eq_nil_iff
  rw [← length_eq_zero_iff] at hnil
  constructor
  . intro _
    by_contra hnone
    push Not at hnone
    have hzero := hnil.mpr hnone
    omega
  . rintro ⟨typ, x, hx⟩
    by_contra hle
    exact hnil.mp (by omega) typ x hx

end Resources

/--
What `conflict_test` compares with the rules: the part of the original certificate that the paracertificate
does not have, or the other way round.
-/
def difference (perf : Bool) (orig para : Resources) : Numbers := fun typ x =>
  if !perf then orig.Holds typ x ∧ ¬para.Holds typ x else para.Holds typ x ∧ ¬orig.Holds typ x

def remainder (perf : Bool) (orig para rules : Resources) : Numbers := fun typ x =>
  difference perf orig para typ x ∧ ¬rules.Holds typ x

def FindsOverlap (perf : Bool) (origcert paracert : Certificate) (orig para rules : Resources)
    (ruleranges : List Rule) : Prop :=
  ∃ ansr fuel₀, (∀ fuel ≥ fuel₀, ∀ skibuf,
      (conflictTest fuel perf origcert paracert ruleranges skibuf).map Prod.fst = some ansr) ∧
    (0 < ansr ↔ ∃ typ x, difference perf orig para typ x ∧ rules.Holds typ x) ∧
    (ansr = 0 ↔ ¬∃ typ x, difference perf orig para typ x ∧ rules.Holds typ x)

/--
The rules are those of an SKI block, and what is left of the difference can be subtracted from it again. If
there is no difference they can also be the ranges of a certificate with the terminator, which have no texts.
-/
def Collectable (perf : Bool) (orig para rules : Resources) (ruleranges : List Rule) : Prop :=
  (difference perf orig para).Empty ∧ ruleranges.map (·.range) = rules.toList ∨
    ruleranges.map (·.range) = rules.ranges ∧
      ((remainder perf orig para rules).Empty ∨
        HasTexts ruleranges rules ∧
          ∃ typ, (remainder perf orig para rules).First typ ∧ (difference perf orig para).First typ)

theorem perfAFromB_rules {rules : Resources} {ruleranges : List Rule}
    (h : Comparable rules.toList rules.Holds cert.Holds)
    (hranges : Numbers.Empty cert.Holds ∧ ruleranges.map (·.range) = rules.toList ∨
      ruleranges.map (·.range) = rules.ranges)
    : ∃ (res : Resources) (fuel0 : Nat), res.Diff cert rules ∧ ∀ fuel ≥ fuel0,
        perfAFromB fuel (ruleranges.map (·.range) ++ [terminatorRange]) cert.toList = some res.toList := by
  rcases hranges with ⟨hempty, hranges⟩ | hranges
  . have hnil := cert.ranges_eq_nil_iff.mpr hempty
    rcases h with ⟨_, -, ⟨x, hx⟩, -⟩ | ⟨-, c, hhead, hc⟩
    . exact absurd hx (hempty _ x)
    have hhead' : (rules.toList ++ [terminatorRange]).head? = some c := by
      rw [head?_append, hhead, some_or]
    refine ⟨cert, 2, fun t x => ?_, fun fuel hfuel => ?_⟩
    . simp [hempty t x]
    . rw [hranges]
      exact Resources.perfAFromB_empty hnil hhead' hc hfuel
  . rw [hranges]
    exact Resources.perfAFromB_eq h

section Conflict

variable {perf : Bool} {origcert paracert : Certificate} {orig para rules : Resources}
  {ruleranges : List Rule}
  (horig : mkCertranges origcert = orig.toList) (hpara : mkCertranges paracert = para.toList)
  (hfirst : Comparable (if !perf then para else orig).toList (if !perf then para else orig).Holds
    (if !perf then orig else para).Holds)
  (hsecond : Comparable rules.toList rules.Holds (difference perf orig para))
  (hcollectable : Collectable perf orig para rules ruleranges)

include horig hpara hfirst hsecond hcollectable

/--
The first two comparisons: the difference, and what is left of it without the rules.
-/
theorem conflictTest_eq
    : ∃ (diff rest : Resources) (fuel0 : Nat), diff.Holds = difference perf orig para ∧
        rest.Holds = remainder perf orig para rules ∧
        ∀ fuel ≥ fuel0, ∀ skibuf, conflictTest fuel perf origcert paracert ruleranges skibuf
          = if rest.toList.length > 1 then do
              let savranges ← perfAFromB fuel rest.toList diff.toList
              let skibuf ← findWhere ruleranges none savranges []
              return (1, skibuf)
            else
              return (0, skibuf) := by
  obtain ⟨diff, fuel1, hdiff, hrun1⟩ := Resources.perfAFromB_eq hfirst
  have hholds : diff.Holds = difference perf orig para := by
    funext typ x
    apply propext
    rw [hdiff]
    cases perf <;> rfl
  rw [← hholds] at hsecond
  obtain ⟨rest, fuel2, hrest, hrun2⟩ := perfAFromB_rules hsecond (by
    rw [hholds]
    exact hcollectable.imp_right And.left)
  have hfrom : mkCertranges (if !perf then origcert else paracert) = (if !perf then orig else para).toList := by
    cases perf <;> simp [horig, hpara]
  have hless : mkCertranges (if !perf then paracert else origcert) = (if !perf then para else orig).toList := by
    cases perf <;> simp [horig, hpara]
  refine ⟨diff, rest, max fuel1 fuel2, hholds, ?_, fun fuel hfuel skibuf => ?_⟩
  . funext typ x
    apply propext
    rw [hrest, hholds]
    rfl
  . simp only [conflictTest, hfrom, hless, hrun1 fuel (by omega), hrun2 fuel (by omega), bind_eq_bind,
      bind_some]

theorem conflictTest_of_empty (hempty : (remainder perf orig para rules).Empty)
    : ∃ fuel0, ∀ fuel ≥ fuel0, ∀ skibuf,
        conflictTest fuel perf origcert paracert ruleranges skibuf = some (0, skibuf) := by
  obtain ⟨diff, rest, fuel0, -, hrest, hrun⟩ := conflictTest_eq horig hpara hfirst hsecond hcollectable
  refine ⟨fuel0, fun fuel hfuel skibuf => ?_⟩
  rw [hrun fuel hfuel, if_neg]
  . rfl
  rw [gt_iff_lt, rest.one_lt_length_toList_iff, hrest]
  rintro ⟨typ, x, hx⟩
  exact hempty typ x hx

theorem conflictTest_of_remainder (hne : ∃ typ x, remainder perf orig para rules typ x)
    : HasTexts ruleranges rules ∧ ∃ (found : Resources) (fuel0 : Nat),
        (∀ typ x, found.Holds typ x ↔ difference perf orig para typ x ∧ rules.Holds typ x) ∧
        ∀ fuel ≥ fuel0, ∀ skibuf, conflictTest fuel perf origcert paracert ruleranges skibuf
          = (findWhere ruleranges none found.toList []).map fun skibuf => (1, skibuf) := by
  obtain ⟨diff, rest, fuel0, hdiff, hrest, hrun⟩ := conflictTest_eq horig hpara hfirst hsecond hcollectable
  obtain ⟨t, x, hx⟩ := hne
  obtain ⟨htexts, typ, hfirst3, hfirstDiff⟩ : HasTexts ruleranges rules ∧
      ∃ typ, (remainder perf orig para rules).First typ ∧ (difference perf orig para).First typ := by
    rcases hcollectable with ⟨hempty, -⟩ | ⟨-, hempty | htexts⟩
    . exact absurd hx.1 (hempty t x)
    . exact absurd hx (hempty t x)
    . exact htexts
  rw [← hrest] at hfirst3
  rw [← hdiff] at hfirstDiff
  obtain ⟨found, fuel1, hfound, hrun3⟩ := Resources.perfAFromB_eq (.inl ⟨typ, hfirst3, hfirstDiff⟩)
  refine ⟨htexts, found, max fuel0 fuel1, fun t x => ?_, fun fuel hfuel skibuf => ?_⟩
  . rw [hfound, hdiff, hrest, remainder]
    tauto
  have hlength : rest.toList.length > 1 := by
    rw [gt_iff_lt, rest.one_lt_length_toList_iff, hrest]
    exact ⟨t, x, hx⟩
  rw [hrun fuel (by omega), if_pos hlength, hrun3 fuel (by omega), bind_eq_bind, bind_some, map_eq_bind]
  rfl

end Conflict

def oneRange (typ : Typ) (lo hi : Nat) : IpRange :=
  ⟨typ, Lim.setLead 4 0 lo, Lim.setLead 4 (BitVec.allOnes 128) hi⟩

def oneCert (lo hi : Nat) : Certificate :=
  ⟨none, none, some [(1, [((oneRange .ipv4 lo hi).lolim, (oneRange .ipv4 lo hi).hilim)])], none⟩

theorem interval_oneRange {typ : Typ} (hlo : lo < 2 ^ 32) (hhi : hi < 2 ^ 32)
    : (oneRange typ lo hi).interval 4 = ⟨lo, hi⟩ := by
  have hlead : ∀ lim : Lim, ∀ n < 2 ^ 32, (lim.setLead 4 n).lead 4 = n := by
    intro lim n hn
    rw [Lim.lead_setLead (by decide), Nat.mod_eq_of_lt hn]
  rw [IpRange.interval, oneRange, hlead _ _ hlo, hlead _ _ hhi]

theorem ordered_oneRange {typ : Typ} (hle : lo ≤ hi) (hhi : hi < 2 ^ 32)
    : Span.Ordered ([oneRange typ lo hi].map (IpRange.interval 4)) := by
  rw [map_singleton, interval_oneRange (Nat.lt_of_le_of_lt hle hhi) hhi]
  exact ⟨by simpa using hle, pairwise_singleton _ _⟩

def asRanges (asnum : Option Nat) : List IpRange :=
  asnum.toList.map fun n => oneRange .asnum (n % 2 ^ 32) (n % 2 ^ 32)

/--
One range of IPv4 addresses, and an AS number if one is given.
-/
def oneResource (lo hi : Nat) (asnum : Option Nat) (hle : lo ≤ hi) (hhi : hi < 2 ^ 32) : Resources where
  block
    | .ipv4 => [oneRange .ipv4 lo hi]
    | .asnum => asRanges asnum
    | _ => []
  typ_eq := by
    intro typ r hr
    cases typ with
    | ipv4 => rw [mem_singleton.mp hr]; rfl
    | asnum =>
      obtain ⟨n, -, rfl⟩ := List.mem_map.mp hr
      rfl
    | ipv6
    | terminator => cases hr
  ordered := by
    intro typ
    cases typ with
    | ipv4 => exact ordered_oneRange hle hhi
    | asnum =>
      cases asnum with
      | none => exact .nil
      | some n => exact ordered_oneRange (Nat.le_refl _) (Nat.mod_lt n (by decide))
    | ipv6
    | terminator => exact .nil
  terminator := rfl

section OneResource

variable {lo hi : Nat} {asnum : Option Nat} {hle : lo ≤ hi} {hhi : hi < 2 ^ 32}

theorem holds_ipv4_oneResource
    : (oneResource lo hi asnum hle hhi).Holds .ipv4 x ↔ lo ≤ x ∧ x ≤ hi := by
  have hinterval : (oneRange .ipv4 lo hi).interval 4 = ⟨lo, hi⟩ :=
    interval_oneRange (Nat.lt_of_le_of_lt hle hhi) hhi
  simp [Resources.Holds, oneResource, Holds, Span.Covered, Span.Mem, typLth, hinterval]

theorem not_holds_oneResource {typ : Typ} (htyp : typ ≠ .ipv4)
    : ¬(oneResource lo hi none hle hhi).Holds typ x := by
  cases typ with
  | ipv4 => exact absurd rfl htyp
  | _ => simp [Resources.Holds, oneResource, asRanges, Holds, Span.Covered]

theorem holds_oneResource {typ : Typ}
    : (oneResource lo hi none hle hhi).Holds typ x ↔ typ = .ipv4 ∧ lo ≤ x ∧ x ≤ hi := by
  by_cases htyp : typ = .ipv4
  . subst htyp
    rw [holds_ipv4_oneResource, and_iff_right rfl]
  . exact iff_of_false (not_holds_oneResource htyp) fun h => htyp h.1

theorem first_oneResource : Numbers.First (oneResource lo hi asnum hle hhi).Holds .ipv4 := by
  refine ⟨⟨lo, holds_ipv4_oneResource.mpr ⟨Nat.le_refl lo, hle⟩⟩, fun t ht x hx => ?_⟩
  cases t with
  | terminator => exact Resources.holds_terminator _ x hx
  | ipv4
  | ipv6
  | asnum => exact absurd ht (by decide)

end OneResource

def tenResource : Resources := oneResource 167772160 184549375 none (by decide) (by decide)
def tenLowResource : Resources := oneResource 167772160 176160767 none (by decide) (by decide)
def tenHighResource : Resources := oneResource 176160768 184549375 none (by decide) (by decide)
def elevenResource : Resources := oneResource 180355072 201326591 (some 64500) (by decide) (by decide)

def elevenRules : List Rule :=
  [⟨oneRange .ipv4 180355072 201326591, some "10.192.0.0 - 11.255.255.255".toList⟩,
    ⟨oneRange .asnum 64500 64500, some "64500".toList⟩]

theorem difference_ten {typ : Typ}
    : difference false tenResource tenLowResource typ x ↔ typ = .ipv4 ∧ 176160768 ≤ x ∧ x ≤ 184549375 := by
  simp only [difference, tenResource, tenLowResource, holds_oneResource, Bool.not_false, if_true]
  grind

theorem first_ten {s : Numbers} {y : Nat} (hy : s .ipv4 y)
    (hs : ∀ typ x, s typ x → difference false tenResource tenLowResource typ x) : s.First .ipv4 := by
  refine ⟨⟨y, hy⟩, fun t ht x hx => ?_⟩
  rw [(difference_ten.mp (hs t x hx)).1] at ht
  exact Nat.lt_irrefl _ ht

theorem first_difference_ten : (difference false tenResource tenLowResource).First .ipv4 :=
  first_ten (difference_ten.mpr ⟨rfl, by decide, by decide⟩ : difference _ _ _ _ 176160768) fun _ _ hx => hx

theorem comparable_ten : Comparable tenLowResource.toList tenLowResource.Holds tenResource.Holds :=
  .inl ⟨.ipv4, first_oneResource, first_oneResource⟩

end Rpstir.Lta
