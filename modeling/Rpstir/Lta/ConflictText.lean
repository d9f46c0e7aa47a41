import Rpstir.Lta.Lemmas.Resources

/-!
This module contains the part of `conflict_test` of `rpwork.c` that collects the texts of the rules for the
error message. The result `none` is a run that leaves `ruleranges`, `savranges` or `skibuf`, or one that
reads the text of a rule that has none.
-/

namespace Rpstir.Lta

open List Option

structure Rule where
  range : IpRange
  text : Option (List Char)
  deriving DecidableEq, Repr

def skibufsiz : Nat := 128

def Rule.Contains (rule : Rule) (sav : IpRange) : Prop :=
  rule.range.lolim ≤ sav.lolim ∧ sav.hilim ≤ rule.range.hilim

instance (rule : Rule) (sav : IpRange) : Decidable (rule.Contains sav) :=
  inferInstanceAs (Decidable (_ ∧ _))

def copyText (rule : Rule) (sav : IpRange) (skibuf : List Char) : Option (List Char) :=
  if rule.Contains sav then
    match rule.text with
    | none => none
    | some text =>
      let skibuf := skibuf ++ text ++ [' ']
      if skibuf.length < skibufsiz then some skibuf else none
  else
    some skibuf

-- the array `ruleranges` has no terminator
def copyTexts (typ : Typ) (sav : IpRange) : List Rule → List Char → Option (List Char)
  | [], _ => none
  | rule :: rules, skibuf =>
    if rule.range.typ = typ then
      (copyText rule sav skibuf).bind (copyTexts typ sav rules)
    else
      some skibuf

/--
The loop over `savranges`. With `some typ` it passes over the ranges of this type that are left; the range
behind them is passed over by the next `jj++`.
-/
def findWhere (rules : List Rule) : Option Typ → List IpRange → List Char → Option (List Char)
  | none, [], skibuf => some skibuf
  | some _, [], _ => none
  | some typ, sav :: savs, skibuf =>
    findWhere rules (if sav.typ = typ then some typ else none) savs skibuf
  | none, sav :: savs, skibuf =>
    match sav.typ with
    | .ipv4 => (copyTexts .ipv4 sav rules skibuf).bind (findWhere rules (some .ipv4) savs)
    | .ipv6 => (copyTexts .ipv6 sav rules skibuf).bind (findWhere rules (some .ipv6) savs)
    -- the texts for AS numbers are looked for among the IPv4 rules
    | .asnum => (copyTexts .ipv4 sav rules skibuf).bind (findWhere rules (some .asnum) savs)
    | .terminator => findWhere rules none savs skibuf

def rulesTyp : Typ → Typ
  | .ipv6 => .ipv6
  | _ => .ipv4

def longestText (typ : Typ) (rules : List Rule) : Nat :=
  ((rules.filter fun rule => rule.range.typ = typ).map fun rule => (rule.text.getD []).length + 1).foldr max 0

/--
The rules of an SKI block: they have texts, and the three texts that the loop copies at most fit into
`skibuf`.
-/
structure HasTexts (ruleranges : List Rule) (rules : Resources) : Prop where
  ranges_eq : ruleranges.map (·.range) = rules.ranges
  isSome : ∀ rule ∈ ruleranges, rule.text.isSome = true
  fits : 2 * longestText .ipv4 ruleranges + longestText .ipv6 ruleranges < skibufsiz

variable {typ : Typ} {sav : IpRange} {skibuf : List Char} {rule : Rule} {rules ofTyp rest : List Rule}

theorem length_text_lt_longestText (hmem : rule ∈ rules) (htyp : rule.range.typ = typ)
    : (rule.text.getD []).length < longestText typ rules := by
  unfold longestText
  induction rules with
  | nil => cases hmem
  | cons head rules ih =>
    rcases mem_cons.mp hmem with rfl | hmem
    . rw [filter_cons_of_pos (by simpa using htyp), map_cons, foldr_cons]
      omega
    . have hlt := ih hmem
      rw [filter_cons]
      split
      . rw [map_cons, foldr_cons]
        omega
      . exact hlt

theorem copyText_eq_some (htext : rule.text.isSome = true)
    (hfits : skibuf.length + (rule.text.getD []).length + 1 < skibufsiz)
    : ∃ out, copyText rule sav skibuf = some out ∧
        out.length ≤ skibuf.length + (rule.text.getD []).length + 1 := by
  obtain ⟨text, htext⟩ := isSome_iff_exists.mp htext
  rw [htext, getD_some] at hfits ⊢
  unfold copyText
  split
  . have hlength : (skibuf ++ text ++ [' ']).length = skibuf.length + text.length + 1 := by
      rw [length_append, length_append, length_singleton]
    refine ⟨skibuf ++ text ++ [' '], ?_, Nat.le_of_eq hlength⟩
    simp only [htext]
    rw [if_pos (by omega)]
  . exact ⟨skibuf, rfl, by omega⟩

theorem copyTexts_of_not_contains (htyp : ∀ rule ∈ ofTyp, rule.range.typ = typ)
    (hrest : ∃ rule ∈ rest.head?, rule.range.typ ≠ typ) (hnot : ∀ rule ∈ ofTyp, ¬rule.Contains sav)
    : copyTexts typ sav (ofTyp ++ rest) skibuf = some skibuf := by
  induction ofTyp with
  | nil =>
    obtain ⟨rule, hhead, hne⟩ := hrest
    obtain ⟨_, rfl⟩ := head?_eq_some_iff.mp hhead
    exact if_neg hne
  | cons rule ofTyp ih =>
    rw [forall_mem_cons] at htyp hnot
    rw [cons_append, copyTexts, if_pos htyp.1, copyText, if_neg hnot.1]
    exact ih htyp.2 hnot.2

/--
Of rules that are disjoint at most one contains the range, so at most one text is copied.
-/
theorem copyTexts_eq_some {room : Nat} (htyp : ∀ rule ∈ ofTyp, rule.range.typ = typ)
    (hrest : ∃ rule ∈ rest.head?, rule.range.typ ≠ typ)
    (hone : ofTyp.Pairwise fun a b => ¬(a.Contains sav ∧ b.Contains sav))
    (htext : ∀ rule ∈ ofTyp, rule.text.isSome = true ∧ (rule.text.getD []).length < room)
    (hroom : skibuf.length + room < skibufsiz)
    : ∃ out, copyTexts typ sav (ofTyp ++ rest) skibuf = some out ∧ out.length ≤ skibuf.length + room := by
  induction ofTyp with
  | nil =>
    have hcopy := @copyTexts_of_not_contains typ sav skibuf [] rest (by simp) hrest (by simp)
    exact ⟨skibuf, hcopy, by omega⟩
  | cons rule ofTyp ih =>
    rw [forall_mem_cons] at htyp htext
    rw [pairwise_cons] at hone
    by_cases hcontains : rule.Contains sav
    . have hlt := htext.1.2
      obtain ⟨out, hcopy, hlength⟩ := @copyText_eq_some sav skibuf rule htext.1.1 (by omega)
      have hothers : ∀ other ∈ ofTyp, ¬other.Contains sav :=
        fun other hother h => hone.1 other hother ⟨hcontains, h⟩
      refine ⟨out, ?_, by omega⟩
      rw [cons_append, copyTexts, if_pos htyp.1, hcopy, bind_some]
      exact copyTexts_of_not_contains htyp.2 hrest hothers
    . rw [cons_append, copyTexts, if_pos htyp.1, copyText, if_neg hcontains, bind_some]
      exact ih htyp.2 hone.2 htext.2

theorem copyTexts_eq_none (htyp : ∀ rule ∈ rules, rule.range.typ = typ)
    : copyTexts typ sav rules skibuf = none := by
  induction rules generalizing skibuf with
  | nil => rfl
  | cons rule rules ih =>
    rw [forall_mem_cons] at htyp
    rw [copyTexts, if_pos htyp.1]
    cases copyText rule sav skibuf with
    | none => rfl
    | some skibuf => exact ih htyp.2

section FindWhere

variable {cs savs post : List IpRange}

theorem findWhere_cons (htyp : sav.typ = typ) (hne : typ ≠ .terminator)
    : findWhere rules none (sav :: savs) skibuf
      = (copyTexts (rulesTyp typ) sav rules skibuf).bind (findWhere rules (some typ) savs) := by
  rw [findWhere, htyp]
  cases typ with
  | terminator => exact absurd rfl hne
  | ipv4
  | ipv6
  | asnum => rfl

theorem findWhere_pass (hcs : ∀ c ∈ cs, c.typ = typ) (hne : sav.typ ≠ typ)
    : findWhere rules (some typ) (cs ++ sav :: savs) skibuf = findWhere rules none savs skibuf := by
  induction cs with
  | nil => rw [nil_append, findWhere, if_neg hne]
  | cons c cs ih =>
    rw [forall_mem_cons] at hcs
    rw [cons_append, findWhere, if_pos hcs.1]
    exact ih hcs.2

def Collects (rules : List Rule) (room : Nat) (savs : List IpRange) : Prop :=
  ∀ skibuf : List Char, skibuf.length + room < skibufsiz →
    ∃ out, findWhere rules none savs skibuf = some out

theorem Collects.block {room more : Nat} (htyp : typ ≠ .terminator) (hcs : IsBlock typ cs post)
    (hpost : post ≠ [])
    (hcopy : ∀ c ∈ cs, ∀ skibuf : List Char, skibuf.length + room < skibufsiz →
      ∃ out, copyTexts (rulesTyp typ) c rules skibuf = some out ∧ out.length ≤ skibuf.length + room)
    (h : ∀ savs, savs <:+ post → Collects rules more savs)
    : ∀ savs, savs <:+ cs ++ post → Collects rules (room + more) savs := by
  intro savs hsavs skibuf hskibuf
  induction cs with
  | nil => exact h savs hsavs skibuf (by omega)
  | cons c cs ih =>
    have hcs' : IsBlock typ cs post :=
      ⟨fun c hc => hcs.typ_eq c (mem_cons_of_mem _ hc), hcs.ends, hcs.ordered.tail⟩
    rw [cons_append] at hsavs
    rcases suffix_cons_iff.mp hsavs with rfl | hsavs
    . -- the text for `c` is copied, and the loop goes on behind the head of `post`
      obtain ⟨d, post', rfl⟩ := exists_cons_of_ne_nil hpost
      obtain ⟨out, hout, hlength⟩ := hcopy c mem_cons_self skibuf (by omega)
      obtain ⟨out', hout'⟩ := h post' (suffix_cons d post') out (by omega)
      refine ⟨out', ?_⟩
      rw [findWhere_cons (hcs.typ_eq c mem_cons_self) htyp, hout, bind_some,
        findWhere_pass hcs'.typ_eq (hcs.ends d (by simp)), hout']
    . exact ih hcs' (fun c hc => hcopy c (mem_cons_of_mem _ hc)) hsavs

end FindWhere

theorem Lim.lead_mono (lth : Nat) {a b : Lim} (h : a ≤ b) : a.lead lth ≤ b.lead lth :=
  Nat.div_le_div_right h

namespace Resources

variable (r : Resources)

theorem filter_ranges (typ : Typ) : r.ranges.filter (fun c => c.typ = typ) = r.block typ := by
  have hfilter (t : Typ) : (r.block t).filter (fun c => c.typ = typ) = if t = typ then r.block t else [] := by
    split
    . next heq =>
      rw [filter_eq_self]
      intro c hc
      simp [r.typ_eq t c hc, heq]
    . next hne =>
      rw [filter_eq_nil_iff]
      intro c hc
      simp [r.typ_eq t c hc, hne]
  rw [ranges, filter_append, filter_append, hfilter, hfilter, hfilter]
  cases typ <;> simp [r.terminator]

/--
The loops over the rules of one type come to a rule of another type, if they come to any rule at all.
-/
def EndsLoops : Prop :=
  r.block .asnum ≠ [] ∨ r.block .ipv4 ≠ [] ∧ r.block .ipv6 ≠ []

variable {r}

theorem EndsLoops.exists_ne (h : r.EndsLoops) (typ : Typ)
    : ∃ c ∈ r.ranges, c.typ ≠ rulesTyp typ := by
  have hother {t : Typ} (hne : r.block t ≠ []) (ht : t ≠ .terminator)
      : ∃ c ∈ r.ranges, c.typ = t := by
    obtain ⟨c, hc⟩ := exists_mem_of_ne_nil _ hne
    rw [← r.filter_ranges, mem_filter, decide_eq_true_eq] at hc
    exact ⟨c, hc⟩
  rcases h with has | ⟨h4, h6⟩
  . obtain ⟨c, hc, htyp⟩ := hother has (by decide)
    refine ⟨c, hc, ?_⟩
    rw [htyp]
    cases typ <;> decide
  obtain ⟨c4, hc4, htyp4⟩ := hother h4 (by decide)
  obtain ⟨c6, hc6, htyp6⟩ := hother h6 (by decide)
  by_cases h : rulesTyp typ = .ipv4
  . exact ⟨c6, hc6, by rw [htyp6, h]; decide⟩
  . exact ⟨c4, hc4, by rw [htyp4]; exact fun heq => h heq.symm⟩

end Resources

namespace HasTexts

variable {ruleranges : List Rule} {res found : Resources}

/--
A range of a certificate is contained in at most one of the rules that it is compared with.
-/
theorem pairwise_not_contains (h : HasTexts ruleranges res) {ofTyp : List Rule}
    (hsub : ofTyp <+ ruleranges) (htyp : ∀ rule ∈ ofTyp, rule.range.typ = rulesTyp typ)
    (hsav : sav ∈ found.block typ) : ofTyp.Pairwise fun a b => ¬(a.Contains sav ∧ b.Contains sav) := by
  have hblock : ofTyp.map (·.range) <+ res.block (rulesTyp typ) := by
    have hfilter := (hsub.map (·.range)).filter fun c => decide (c.typ = rulesTyp typ)
    rw [h.ranges_eq, res.filter_ranges, filter_eq_self.mpr (by simpa using htyp)] at hfilter
    exact hfilter
  have hordered := pairwise_map.mp (res.ordered (rulesTyp typ)).pairwise
  have hle : sav.lolim.lead (typLth (rulesTyp typ)) ≤ sav.hilim.lead (typLth (rulesTyp typ)) := by
    have hle := (found.ordered typ).le _ (List.mem_map_of_mem hsav)
    cases typ <;> exact hle
  apply (pairwise_map.mp (hordered.sublist hblock)).imp
  rintro a b hlt ⟨ha, hb⟩
  rw [IpRange.interval_hi, IpRange.interval_lo] at hlt
  have hlo := Lim.lead_mono (typLth (rulesTyp typ)) hb.1
  have hhi := Lim.lead_mono (typLth (rulesTyp typ)) ha.2
  omega

theorem copyTexts_eq_some (h : HasTexts ruleranges res) (hends : res.EndsLoops)
    (hsav : sav ∈ found.block typ) (hroom : skibuf.length + longestText (rulesTyp typ) ruleranges < skibufsiz)
    : ∃ out, copyTexts (rulesTyp typ) sav ruleranges skibuf = some out ∧
        out.length ≤ skibuf.length + longestText (rulesTyp typ) ruleranges := by
  obtain ⟨p, hp⟩ : ∃ p : Rule → Bool, ∀ rule, p rule = true ↔ rule.range.typ = rulesTyp typ :=
    ⟨fun rule => decide (rule.range.typ = rulesTyp typ), fun _ => decide_eq_true_iff⟩
  have hsub : ruleranges.takeWhile p <+ ruleranges := takeWhile_sublist p
  have htyp : ∀ rule ∈ ruleranges.takeWhile p, rule.range.typ = rulesTyp typ := by
    intro rule hrule
    exact (hp rule).mp (all_eq_true.mp all_takeWhile rule hrule)
  have hrest : ∃ rule ∈ (ruleranges.dropWhile p).head?, rule.range.typ ≠ rulesTyp typ := by
    have hne : ruleranges.dropWhile p ≠ [] := by
      intro hnil
      obtain ⟨c, hc, hne⟩ := hends.exists_ne typ
      rw [← h.ranges_eq] at hc
      obtain ⟨rule, hrule, rfl⟩ := List.mem_map.mp hc
      rw [← takeWhile_append_dropWhile (p := p) (l := ruleranges), hnil, append_nil] at hrule
      exact hne (htyp rule hrule)
    refine ⟨_, head?_eq_some_head hne, ?_⟩
    rw [ne_eq, ← hp, Bool.not_eq_true]
    exact head_dropWhile_not p hne
  rw [← takeWhile_append_dropWhile (p := p) (l := ruleranges)]
  have hcopy := Lta.copyTexts_eq_some htyp hrest (h.pairwise_not_contains hsub htyp hsav)
    (fun rule hrule => ⟨h.isSome rule (hsub.subset hrule),
      length_text_lt_longestText (hsub.subset hrule) (htyp rule hrule)⟩) hroom
  rwa [takeWhile_append_dropWhile] at hcopy ⊢

/--
The texts of the rules are collected without leaving an array, whatever part of the rules was found.
-/
theorem collects (h : HasTexts ruleranges res) (hends : res.EndsLoops) (found : Resources)
    : ∃ out, findWhere ruleranges none found.toList [] = some out := by
  have hblock (typ : Typ) (htyp : typ ≠ .terminator) {more : Nat}
      (hmore : ∀ savs, savs <:+ found.post typ → Collects ruleranges more savs)
      : ∀ savs, savs <:+ found.block typ ++ found.post typ →
        Collects ruleranges (longestText (rulesTyp typ) ruleranges + more) savs :=
    .block htyp (found.isBlock htyp) (found.post_ne_nil typ)
      (fun c hc skibuf => h.copyTexts_eq_some hends hc) hmore
  have hterminator : ∀ savs, savs <:+ [terminatorRange] → Collects ruleranges 0 savs := by
    intro savs hsavs skibuf _
    rcases suffix_cons_iff.mp hsavs with rfl | hsavs
    . exact ⟨skibuf, rfl⟩
    . rw [suffix_nil.mp hsavs]
      exact ⟨skibuf, rfl⟩
  have hasnum := hblock .asnum (by decide) hterminator
  have hipv6 := hblock .ipv6 (by decide) hasnum
  have hipv4 := hblock .ipv4 (by decide) (by simpa [Resources.post] using hipv6)
  apply hipv4 found.toList _ []
  . have hfits := h.fits
    simp only [rulesTyp, length_nil]
    omega
  . rw [found.toList_eq .ipv4]
    exact suffix_rfl

theorem findWhere_eq_none (typ : Typ) (hrules : ∀ rule ∈ ruleranges, rule.range.typ = rulesTyp typ)
    (htyp : typ ≠ .terminator) (hpre : found.pre typ = []) (hblock : found.block typ ≠ [])
    : findWhere ruleranges none found.toList skibuf = none := by
  obtain ⟨c, cs, hcs⟩ := exists_cons_of_ne_nil hblock
  have hc := found.typ_eq typ c (by simp [hcs])
  rw [found.toList_eq typ, hpre, hcs, nil_append, cons_append, findWhere_cons hc htyp,
    copyTexts_eq_none hrules, bind_none]

/--
If all rules have the type of the ranges that were found, then the loop over them leaves `ruleranges`.
-/
theorem not_collects (h : HasTexts ruleranges res) (hends : ¬res.EndsLoops)
    (hne : ∃ typ x, found.Holds typ x) (hsub : ∀ typ x, found.Holds typ x → res.Holds typ x)
    : findWhere ruleranges none found.toList skibuf = none := by
  have hnil {t : Typ} (ht : res.block t = []) : found.block t = [] := by
    by_contra hfound
    obtain ⟨x, hx⟩ := (found.block_ne_nil_iff t).mp hfound
    exact (res.block_ne_nil_iff t).mpr ⟨x, hsub t x hx⟩ ht
  have htyp {t : Typ} (ht : res.ranges = res.block t) : ∀ rule ∈ ruleranges, rule.range.typ = t := by
    intro rule hrule
    have hmem := List.mem_map_of_mem (f := (·.range)) hrule
    rw [h.ranges_eq, ht] at hmem
    exact res.typ_eq t _ hmem
  rw [Resources.EndsLoops, not_or, not_not, not_and_or, not_not, not_not] at hends
  obtain ⟨has, hblocks⟩ := hends
  obtain ⟨t, x, hx⟩ := hne
  have hfound := (found.block_ne_nil_iff t).mpr ⟨x, hx⟩
  rcases hblocks with h4 | h6
  . have ht : t = .ipv6 := by
      cases t with
      | ipv6 => rfl
      | ipv4 => exact absurd (hnil h4) hfound
      | asnum => exact absurd (hnil has) hfound
      | terminator => exact absurd found.terminator hfound
    subst ht
    have hranges : res.ranges = res.block .ipv6 := by simp [Resources.ranges, h4, has]
    exact findWhere_eq_none .ipv6 (htyp hranges) (by decide) (hnil h4) hfound
  . have ht : t = .ipv4 := by
      cases t with
      | ipv4 => rfl
      | ipv6 => exact absurd (hnil h6) hfound
      | asnum => exact absurd (hnil has) hfound
      | terminator => exact absurd found.terminator hfound
    subst ht
    have hranges : res.ranges = res.block .ipv4 := by simp [Resources.ranges, h6, has]
    exact findWhere_eq_none .ipv4 (htyp hranges) (by decide) rfl hfound

end HasTexts

end Rpstir.Lta
