import Rpstir.Lta.Lemmas.Ranges

/-!
This module contains the proof that `perforate` subtracts the block of the rules from the block of the
certificate, and that none of its increments and decrements wraps.
-/

namespace Rpstir.Lta

open List Option

namespace perforate

def decrement (lth : Nat) (lim : Lim) : Option Lim :=
  if 0 < lim.lead lth then some (decrementIprange lth lim) else none

def increment (lth : Nat) (lim : Lim) : Option Lim :=
  if lim.lead lth + 1 < 2 ^ (8 * lth) then some (incrementIprange lth lim) else none

def checkedGo (rules : List IpRange) (lth : Nat)
    : Nat → List IpRange → Option Nat → Option Nat → Nat → Option (List IpRange × Nat)
  | fuel + 1, certs, some i, some j, did =>
    match certs[i]?, rules[j]? with
    | some c, some r =>
      if c.hilim.lead lth < r.lolim.lead lth then
        checkedGo rules lth fuel certs (nextRange certs i) (some j) did
      else if r.hilim.lead lth < c.lolim.lead lth then
        checkedGo rules lth fuel certs (some i) (nextRange rules j) did
      else if c.lolim.lead lth < r.lolim.lead lth then
        if c.hilim.lead lth ≤ r.hilim.lead lth then
          match decrement lth (Lim.memcpy lth c.hilim r.lolim) with
          | none => none
          | some hilim =>
            let certs := certs.set i { c with hilim := hilim }
            checkedGo rules lth fuel certs (nextRange certs i) (some j) (did + 1)
        else
          match decrement lth (Lim.memcpy lth 0 r.lolim),
            increment lth (Lim.memcpy lth c.lolim r.hilim) with
          | some hilim, some lolim =>
            let certs := certs.set i { c with lolim := lolim }
            match injectRange certs i ⟨c.typ, Lim.memcpy lth 0 c.lolim, hilim⟩ with
            | none => none
            | some certs =>
              checkedGo rules lth fuel certs (some (i + 1)) (nextRange rules j) (did + 1)
          | _, _ => none
      else if c.hilim.lead lth ≤ r.hilim.lead lth then
        match ejectRange certs i with
        | none => none
        | some (certs, i) => checkedGo rules lth fuel certs i (some j) (did + 1)
      else
        match increment lth (Lim.memcpy lth c.lolim r.hilim) with
        | none => none
        | some lolim =>
          let certs := certs.set i { c with lolim := lolim }
          checkedGo rules lth fuel certs (some i) (nextRange rules j) (did + 1)
    | _, _ => none
  | _ + 1, certs, _, _, did => some (certs, did)
  | 0, _, _, _, _ => none

def checked (fuel : Nat) (rules : List IpRange) (numrulerange : Nat) (certs : List IpRange)
    (numcertrange : Nat) : Option (List IpRange × Nat) :=
  match certs[numcertrange]? with
  | none => none
  | some c => checkedGo rules (typLth c.typ) fuel certs (some numcertrange) (some numrulerange) 0

variable {numrulerange numcertrange : Nat}

section Checked

variable {lth fuel did : Nat} {lim lim' : Lim} {rules certs : List IpRange} {i j : Option Nat}
  {res : List IpRange × Nat}

theorem eq_of_decrement (h : decrement lth lim = some lim') : decrementIprange lth lim = lim' := by
  unfold decrement at h
  split at h
  . exact some.inj h
  . cases h

theorem eq_of_increment (h : increment lth lim = some lim') : incrementIprange lth lim = lim' := by
  unfold increment at h
  split at h
  . exact some.inj h
  . cases h

theorem go_of_checkedGo (h : checkedGo rules lth fuel certs i j did = some res)
    : go rules lth fuel certs i j did = some res := by
  fun_induction checkedGo rules lth fuel certs i j did with
  | case1 fuel certs i j did c r hr hc hbefore ih =>
    simp only [go, hc, hr, if_pos hbefore]
    exact ih h
  | case2 fuel certs i j did c r hr hc hbefore hbehind ih =>
    simp only [go, hc, hr, if_neg hbefore, if_pos hbehind]
    exact ih h
  | case4 fuel certs i j did c r hr hc hbefore hbehind hlow hhigh hilim hdec certs' ih =>
    simp only [go, hc, hr, if_neg hbefore, if_neg hbehind, if_pos hlow, if_pos hhigh,
      eq_of_decrement hdec]
    exact ih h
  | case6 fuel certs i j did c r hr hc hbefore hbehind hlow hhigh hilim lolim hinc hdec certs'
      certs'' hinject ih =>
    simp only [go, hc, hr, if_neg hbefore, if_neg hbehind, if_pos hlow, if_neg hhigh,
      eq_of_decrement hdec, eq_of_increment hinc]
    rw [hinject]
    exact ih h
  | case9 fuel certs i j did c r hr hc hbefore hbehind hlow hhigh certs' _ heject ih =>
    simp only [go, hc, hr, if_neg hbefore, if_neg hbehind, if_neg hlow, if_pos hhigh, heject]
    exact ih h
  | case11 fuel certs i j did c r hr hc hbefore hbehind hlow hhigh lolim hinc certs' ih =>
    simp only [go, hc, hr, if_neg hbefore, if_neg hbehind, if_neg hlow, if_neg hhigh,
      eq_of_increment hinc]
    exact ih h
  | case13 fuel certs i j did hnone =>
    rw [go]
    . exact h
    . exact hnone
  | _ => cases h

theorem perforate_of_checked (h : checked fuel rules numrulerange certs numcertrange = some res)
    : perforate fuel rules numrulerange certs numcertrange = some res := by
  unfold checked at h
  unfold perforate
  cases hc : certs[numcertrange]? with
  | none =>
    rw [hc] at h
    cases h
  | some =>
    rw [hc] at h
    exact go_of_checkedGo h

end Checked

section Block

variable {typ : Typ} {lth : Nat} {pre cs post rpre rs rpost : List IpRange}

def Subtracted (typ : Typ) (lth : Nat) (pre cs post rs : List IpRange) (did : Nat)
    (res : Option (List IpRange × Nat)) : Prop :=
  ∃ cs' did', res = some (pre ++ cs' ++ post, did') ∧ (∀ c ∈ cs', c.typ = typ) ∧
    cs'.map (IpRange.interval lth)
      = Span.subtract (cs.map (IpRange.interval lth)) (rs.map (IpRange.interval lth)) ∧
    (did' = did ∧ cs' = cs ∨ did < did')

def Subtracts (typ : Typ) (lth : Nat) (pre cs post rs : List IpRange) (did : Nat)
    (run : Nat → Option (List IpRange × Nat)) : Prop :=
  ∃ res, (∀ fuel, cs.length + rs.length < fuel → run fuel = res) ∧ Subtracted typ lth pre cs post rs did res

theorem Subtracts.of_rest {cs0 rs0 : List IpRange} {run run' : Nat → Option (List IpRange × Nat)}
    (kept cs rs : List IpRange) {did did0 : Nat} (h : Subtracts typ lth (pre ++ kept) cs post rs did run')
    (hdid : did = did0 ∧ cs0 = kept ++ cs ∨ did = did0 + 1)
    (hrun : ∀ fuel, run (fuel + 1) = run' fuel)
    (hlt : cs.length + rs.length < cs0.length + rs0.length) (hkept : ∀ c ∈ kept, c.typ = typ)
    (heq : Span.subtract (cs0.map (IpRange.interval lth)) (rs0.map (IpRange.interval lth))
      = kept.map (IpRange.interval lth)
        ++ Span.subtract (cs.map (IpRange.interval lth)) (rs.map (IpRange.interval lth)))
    : Subtracts typ lth pre cs0 post rs0 did0 run := by
  obtain ⟨_, hres, cs', did', rfl, hcs', hmap, hdid'⟩ := h
  refine ⟨_, ?_, kept ++ cs', did', rfl, List.forall_mem_append.mpr ⟨hkept, hcs'⟩, ?_, ?_⟩
  . intro fuel hfuel
    obtain ⟨fuel, rfl⟩ := Nat.exists_eq_add_one.mpr (Nat.zero_lt_of_lt hfuel)
    rw [hrun, hres fuel (by omega), append_assoc pre]
  . rw [map_append, hmap, heq]
  . rcases hdid with ⟨rfl, rfl⟩ | rfl
    . exact hdid'.imp_left fun h => ⟨h.1, by rw [h.2]⟩
    . omega

theorem decrement_memcpy (hlth : lth ≤ 16) {src : Lim} (h : 0 < src.lead lth) (dst : Lim)
    : ∃ lim, decrement lth (Lim.memcpy lth dst src) = some lim ∧ lim.lead lth = src.lead lth - 1 := by
  have hlead := Lim.lead_memcpy hlth dst src
  rw [← hlead] at h ⊢
  exact ⟨_, if_pos h, Lim.lead_decrementIprange hlth h⟩

theorem increment_memcpy (hlth : lth ≤ 16) {src : Lim} (h : src.lead lth + 1 < 2 ^ (8 * lth))
    (dst : Lim)
    : ∃ lim, increment lth (Lim.memcpy lth dst src) = some lim ∧ lim.lead lth = src.lead lth + 1 := by
  have hlead := Lim.lead_memcpy hlth dst src
  rw [← hlead] at h ⊢
  exact ⟨_, if_pos h, Lim.lead_incrementIprange hlth h⟩

theorem checkedGo_subtracted (hlth : lth ≤ 16) (hne : post ≠ []) (hpost : EndsBlock typ post)
    (hrpost : EndsBlock typ rpost) (pre rpre : List IpRange) (did : Nat) {cs rs : List IpRange}
    (hcs : ∀ c ∈ cs, c.typ = typ) (hrs : ∀ r ∈ rs, r.typ = typ)
    : Subtracts typ lth pre cs post rs did fun fuel => checkedGo (rpre ++ rs ++ rpost) lth fuel
        (pre ++ cs ++ post) (cursor pre.length cs) (cursor rpre.length rs) did := by
  match cs, rs with
  | [], rs =>
    refine ⟨_, ?_, [], did, rfl, hcs, by simp [Span.subtract_nil_left], .inl ⟨rfl, rfl⟩⟩
    intro fuel hfuel
    cases fuel with
    | zero => omega
    | succ => simp [checkedGo, cursor]
  | c :: cs, [] =>
    refine ⟨_, ?_, c :: cs, did, rfl, hcs, by simp [Span.subtract_nil_right], .inl ⟨rfl, rfl⟩⟩
    intro fuel hfuel
    cases fuel with
    | zero => omega
    | succ => simp [checkedGo, cursor]
  | c :: cs, r :: rs =>
    have hc : c.typ = typ := hcs c mem_cons_self
    have hcs' := forall_mem_of_forall_mem_cons hcs
    have hrs' := forall_mem_of_forall_mem_cons hrs
    have hnextRule := nextRange_cursor rpre (hrs r mem_cons_self) hrs' hrpost
    have hsubtract := Span.subtract.eq_3 (c.interval lth) (cs.map (IpRange.interval lth))
      (r.interval lth) (rs.map (IpRange.interval lth))
    simp only [IpRange.interval_lo, IpRange.interval_hi] at hsubtract
    have hmoved (lolim : Lim) : ∀ c' ∈ { c with lolim := lolim } :: cs, c'.typ = typ :=
      forall_mem_cons.mpr ⟨hc, hcs'⟩
    have hroom (h : ¬c.hilim.lead lth ≤ r.hilim.lead lth)
        : r.hilim.lead lth + 1 < 2 ^ (8 * lth) := by
      have hlt := Lim.lead_lt hlth c.hilim
      omega
    have hlt : cs.length + (r :: rs).length < (c :: cs).length + (r :: rs).length := by simp
    have hlt' : (c :: cs).length + rs.length < (c :: cs).length + (r :: rs).length := by simp
    by_cases hbefore : c.hilim.lead lth < r.lolim.lead lth
    . simp only [hbefore, ↓reduceIte] at hsubtract
      have h := checkedGo_subtracted hlth hne hpost hrpost (pre ++ [c]) rpre did hcs' hrs
      refine h.of_rest [c] cs (r :: rs) (.inl ⟨rfl, rfl⟩) ?_ hlt (forall_mem_singleton.mpr hc) hsubtract
      intro fuel
      simp only [checkedGo, cursor_cons, getElem?_cursor, hbefore, ↓reduceIte,
        nextRange_cursor pre hc hcs' hpost, ← append_cons]
    by_cases hbehind : r.hilim.lead lth < c.lolim.lead lth
    . simp only [hbefore, hbehind, ↓reduceIte] at hsubtract
      have h := checkedGo_subtracted hlth hne hpost hrpost (pre ++ []) (rpre ++ [r]) did hcs hrs'
      refine h.of_rest [] (c :: cs) rs (.inl ⟨rfl, rfl⟩) ?_ hlt' (forall_mem_nil _) hsubtract
      intro fuel
      simp only [checkedGo, cursor_cons, getElem?_cursor, hbefore, hbehind, ↓reduceIte, hnextRule, append_nil,
        ← append_cons]
    by_cases hlow : c.lolim.lead lth < r.lolim.lead lth
    . by_cases hhigh : c.hilim.lead lth ≤ r.hilim.lead lth
      . simp only [hbefore, hbehind, hlow, hhigh, ↓reduceIte] at hsubtract
        obtain ⟨hilim, hdec, hhilim⟩ := decrement_memcpy hlth (Nat.zero_lt_of_lt hlow) c.hilim
        have hc' : ({ c with hilim := hilim } : IpRange).typ = typ := hc
        have h := checkedGo_subtracted hlth hne hpost hrpost (pre ++ [{ c with hilim := hilim }]) rpre (did + 1)
          hcs' hrs
        refine h.of_rest [{ c with hilim := hilim }] cs (r :: rs) (.inr rfl) ?_ hlt (forall_mem_singleton.mpr hc) ?_
        . intro fuel
          simp only [checkedGo, cursor_cons, getElem?_cursor, hbefore, hbehind, hlow, hhigh, ↓reduceIte, hdec,
            set_cursor, nextRange_cursor pre hc' hcs' hpost, ← append_cons]
        . simpa [IpRange.interval, hhilim] using hsubtract
      . simp only [hbefore, hbehind, hlow, hhigh, ↓reduceIte] at hsubtract
        obtain ⟨hilim, hdec, hhilim⟩ := decrement_memcpy hlth (Nat.zero_lt_of_lt hlow) 0
        obtain ⟨lolim, hinc, hlolim⟩ := increment_memcpy hlth (hroom hhigh) c.lolim
        have h := checkedGo_subtracted hlth hne hpost hrpost
          (pre ++ [⟨c.typ, Lim.memcpy lth 0 c.lolim, hilim⟩]) (rpre ++ [r]) (did + 1) (hmoved lolim) hrs'
        refine h.of_rest [⟨c.typ, Lim.memcpy lth 0 c.lolim, hilim⟩] ({ c with lolim := lolim } :: cs) rs
          (.inr rfl) ?_ hlt' (forall_mem_singleton.mpr hc) ?_
        . intro fuel
          simp only [checkedGo, cursor_cons, getElem?_cursor, hbefore, hbehind, hlow, hhigh, ↓reduceIte, hdec,
            hinc, set_cursor, injectRange_cursor, hnextRule, length_append, length_singleton, ← append_cons rpre]
        . simpa [IpRange.interval, hhilim, hlolim, Lim.lead_memcpy hlth] using hsubtract
    by_cases hhigh : c.hilim.lead lth ≤ r.hilim.lead lth
    . simp only [hbefore, hbehind, hlow, hhigh, ↓reduceIte] at hsubtract
      have h := checkedGo_subtracted hlth hne hpost hrpost (pre ++ []) rpre (did + 1) hcs' hrs
      refine h.of_rest [] cs (r :: rs) (.inr rfl) ?_ hlt (forall_mem_nil _) hsubtract
      intro fuel
      simp only [checkedGo, cursor_cons, getElem?_cursor, hbefore, hbehind, hlow, hhigh, ↓reduceIte,
        ejectRange_cursor hc hcs' hne hpost, append_nil]
    . simp only [hbefore, hbehind, hlow, hhigh, ↓reduceIte] at hsubtract
      obtain ⟨lolim, hinc, hlolim⟩ := increment_memcpy hlth (hroom hhigh) c.lolim
      have h := checkedGo_subtracted hlth hne hpost hrpost (pre ++ []) (rpre ++ [r]) (did + 1) (hmoved lolim)
        hrs'
      refine h.of_rest [] ({ c with lolim := lolim } :: cs) rs (.inr rfl) ?_ hlt' (forall_mem_nil _) ?_
      . intro fuel
        simp only [checkedGo, cursor_cons, getElem?_cursor, hbefore, hbehind, hlow, hhigh, ↓reduceIte, hinc,
          set_cursor, hnextRule, append_nil, ← append_cons]
      . simpa [IpRange.interval, hlolim] using hsubtract
termination_by cs.length + rs.length

theorem checked_subtracts (hrs : IsBlock typ rs rpost) (hcs : IsBlock typ cs post) (hrules : rs ≠ [])
    (hcerts : cs ≠ []) (hpost : post ≠ [])
    : ∃ cs' did,
        (∀ fuel, cs.length + rs.length < fuel →
          checked fuel (rpre ++ rs ++ rpost) rpre.length (pre ++ cs ++ post) pre.length
            = some (pre ++ cs' ++ post, did)) ∧
        (did = 0 → cs' = cs) ∧ IsBlock typ cs' post ∧
        ∀ x, Holds typ cs' x ↔ Holds typ cs x ∧ ¬Holds typ rs x := by
  obtain ⟨_, hrun, cs', did, rfl, htyp, hmap, hdid⟩ := checkedGo_subtracted (typLth_le typ) hpost hcs.ends hrs.ends
    pre rpre 0 hcs.typ_eq hrs.typ_eq
  have hspec := Span.subtract_spec hcs.ordered hrs.ordered
  rw [← hmap] at hspec
  refine ⟨cs', did, ?_, fun h => (hdid.resolve_right (by omega)).2, ⟨htyp, hcs.ends, hspec.1⟩, hspec.2⟩
  obtain ⟨c, cs, rfl⟩ := exists_cons_of_ne_nil hcerts
  obtain ⟨_, rs, rfl⟩ := exists_cons_of_ne_nil hrules
  intro fuel hfuel
  rw [checked, getElem?_cursor]
  dsimp only
  rw [hcs.typ_eq c mem_cons_self]
  exact hrun fuel hfuel

end Block

end perforate

/--
The block of the certificate becomes what is left of it without the addresses of the rules, by a run
that does not wrap, and nothing else changes.
-/
theorem perforate_subtracts {typ : Typ} {rpre rs rpost pre cs post : List IpRange} {fuel : Nat}
    (hrs : IsBlock typ rs rpost) (hcs : IsBlock typ cs post) (hrules : rs ≠ []) (hcerts : cs ≠ [])
    (hpost : post ≠ []) (hfuel : cs.length + rs.length < fuel)
    : ∃ cs' did,
        perforate.checked fuel (rpre ++ rs ++ rpost) rpre.length (pre ++ cs ++ post) pre.length
          = some (pre ++ cs' ++ post, did) ∧
        perforate fuel (rpre ++ rs ++ rpost) rpre.length (pre ++ cs ++ post) pre.length
          = some (pre ++ cs' ++ post, did) ∧
        IsBlock typ cs' post ∧ ∀ x, Holds typ cs' x ↔ Holds typ cs x ∧ ¬Holds typ rs x := by
  obtain ⟨cs', did, hrun, -, hblock, hholds⟩ := perforate.checked_subtracts hrs hcs hrules hcerts hpost
  have hchecked := hrun fuel hfuel
  exact ⟨cs', did, hchecked, perforate.perforate_of_checked hchecked, hblock, hholds⟩

def tenBlock : List IpRange :=
  [⟨.ipv4, 0x0a000000000000000000000000000000, 0x0a00000fffffffffffffffffffffffff⟩,
    ⟨.ipv4, 0x0a000020000000000000000000000000, 0x0a0000ffffffffffffffffffffffffff⟩]

def tenRules : List IpRange :=
  [⟨.ipv4, 0x0a000008000000000000000000000000, 0x0a000027ffffffffffffffffffffffff⟩]

def behindTen : List IpRange :=
  [⟨.asnum, 0x00000005000000000000000000000000, 0x00000005ffffffffffffffffffffffff⟩,
    ⟨.terminator, 0, 0⟩]

theorem tenBlock_isBlock : IsBlock .ipv4 tenBlock behindTen where
  typ_eq := by decide
  ends := by simp [EndsBlock, behindTen]
  ordered := ⟨by decide, by decide⟩

theorem tenRules_isBlock : IsBlock .ipv4 tenRules behindTen where
  typ_eq := by decide
  ends := by simp [EndsBlock, behindTen]
  ordered := ⟨by decide, by decide⟩

theorem perforate_subtracts_ten
    : ∃ cs' did,
        perforate.checked 4 ([] ++ tenRules ++ behindTen) ([] : List IpRange).length
          ([] ++ tenBlock ++ behindTen) ([] : List IpRange).length = some ([] ++ cs' ++ behindTen, did) ∧
        perforate 4 ([] ++ tenRules ++ behindTen) ([] : List IpRange).length
          ([] ++ tenBlock ++ behindTen) ([] : List IpRange).length = some ([] ++ cs' ++ behindTen, did) ∧
        IsBlock .ipv4 cs' behindTen ∧
        ∀ x, Holds .ipv4 cs' x ↔ Holds .ipv4 tenBlock x ∧ ¬Holds .ipv4 tenRules x :=
  perforate_subtracts tenRules_isBlock tenBlock_isBlock (by decide) (by decide) (by decide)
    (by decide)

end Rpstir.Lta
