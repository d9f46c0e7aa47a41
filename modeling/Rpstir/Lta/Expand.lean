import Rpstir.Lta.Lemmas.Merge
import Rpstir.Lta.Perforate

/-!
This module contains the proof that `expand` puts the block of the rules and the block of the certificate
together by a walk, and for which blocks the result is their union.
-/

namespace Rpstir.Lta

open List Option

structure IsSeparated (typ : Typ) (block post : List IpRange) : Prop where
  typ_eq : ∀ r ∈ block, r.typ = typ
  ends : EndsBlock typ post
  separated : Span.Separated (block.map (IpRange.interval (typLth typ)))

theorem touches_eq {lth : Nat} (hlth : lth ≤ 16) (p r : IpRange)
    : touches p r lth = compare ((p.hilim.lead lth + 1) % 2 ^ (8 * lth)) (r.lolim.lead lth) := by
  rw [touches, incrementIprange, Lim.lead_setLead hlth]

theorem touches_lt_iff {lth : Nat} (hlth : lth ≤ 16) {p r : IpRange}
    : touches p r lth = .lt ↔ ((p.interval lth).hi + 1) % 2 ^ (8 * lth) < (r.interval lth).lo := by
  rw [touches_eq hlth, Nat.compare_eq_lt]
  rfl

theorem touches_eq_iff {lth : Nat} (hlth : lth ≤ 16) {p r : IpRange}
    : touches p r lth = .eq ↔ ((p.interval lth).hi + 1) % 2 ^ (8 * lth) = (r.interval lth).lo := by
  rw [touches_eq hlth, Nat.compare_eq_eq]
  rfl

namespace expand

def resume (rules : List IpRange) (lth fuel : Nat) (e : Expansion)
    : Option Nat → Option (List IpRange × Nat)
  | none => some (e.certs, e.did)
  | some j =>
    match rules[j]? with
    | none => none
    | some r =>
      match high rules lth j r e with
      | none => none
      | some (e, rule) => go rules lth fuel e rule

section Round

variable {rules : List IpRange} {lth fuel j : Nat} {r : IpRange} {e e' : Expansion} {rule : Option Nat}

theorem go_resume (hr : rules[j]? = some r) (h : low rules lth j r e = some (e', rule, false))
    : go rules lth (fuel + 1) e (some j) = resume rules lth fuel e' rule := by
  rw [go, hr]
  dsimp only
  rw [h]
  cases rule with
  | none
  | some => rfl

theorem go_continue (hr : rules[j]? = some r) (h : low rules lth j r e = some (e', rule, true))
    : go rules lth (fuel + 1) e (some j) = go rules lth fuel e' rule := by
  rw [go, hr]
  dsimp only
  rw [h]

theorem resume_high (hr : rules[j]? = some r) (h : high rules lth j r e = some (e', rule))
    : resume rules lth fuel e (some j) = go rules lth fuel e' rule := by
  rw [resume, hr]
  dsimp only
  rw [h]

end Round

section Steps

/-
The branches of a round at a range `c` of the certificate.
-/
variable {rules pre cs post : List IpRange} {lth j inj did : Nat} {c r : IpRange}

def injected (lth : Nat) (r : IpRange) : IpRange :=
  ⟨r.typ, Lim.memcpy lth 0 r.lolim, Lim.memcpy lth 0 r.hilim⟩

theorem interval_injected (hlth : lth ≤ 16) : (injected lth r).interval lth = r.interval lth := by
  rw [injected, IpRange.interval, Lim.lead_memcpy hlth, Lim.lead_memcpy hlth]
  rfl

theorem low_before (h : touches r c lth = .lt)
    : low rules lth j r ⟨pre ++ c :: cs ++ post, some pre.length, pre.length, did⟩
        =
      some
        (⟨pre ++ [injected lth r] ++ (c :: cs) ++ post, some pre.length, pre.length + 1, did + 1⟩,
          nextRange rules j, false) := by
  simp only [low, getElem?_cursor, h, injectRange_cursor, injected]

theorem low_end
    : low rules lth j r ⟨pre ++ cs ++ post, none, pre.length, did⟩
        =
      some
        (⟨pre ++ [injected lth r] ++ cs ++ post, some pre.length, pre.length + 1, did + 1⟩,
          nextRange rules j, false) := by
  simp only [low, injectRange_cursor, injected]

theorem low_adjacent (h : touches r c lth = .eq)
    : low rules lth j r ⟨pre ++ c :: cs ++ post, some pre.length, inj, did⟩
        =
      some
        (⟨pre ++ { c with lolim := Lim.memcpy lth c.lolim r.lolim } :: cs ++ post, some pre.length, inj,
          did + 1⟩, if (r.interval lth).hi ≤ (c.interval lth).hi then nextRange rules j else some j,
          false) := by
  simp only [low, getElem?_cursor, h, set_cursor]
  rfl

theorem low_behind (h : touches r c lth = .gt) (hbehind : touches c r lth = .lt)
    : low rules lth j r ⟨pre ++ c :: cs ++ post, some pre.length, inj, did⟩
        =
      some
        (⟨pre ++ c :: cs ++ post, nextRange (pre ++ c :: cs ++ post) pre.length, (pre ++ [c]).length, did⟩,
          some j, true) := by
  simp only [low, getElem?_cursor, h, hbehind, ↓reduceIte, length_append, length_singleton]

def lowered (lth : Nat) (r c : IpRange) : IpRange :=
  if r.lolim.lead lth < c.lolim.lead lth then { c with lolim := Lim.memcpy lth c.lolim r.lolim } else c

theorem typ_lowered : (lowered lth r c).typ = c.typ := by
  unfold lowered
  split <;> rfl

theorem hilim_lowered : (lowered lth r c).hilim = c.hilim := by
  unfold lowered
  split <;> rfl

theorem lead_lolim_lowered (hlth : lth ≤ 16)
    : (lowered lth r c).lolim.lead lth = min (r.lolim.lead lth) (c.lolim.lead lth) := by
  unfold lowered
  split
  . rw [Lim.lead_memcpy hlth]
    omega
  . omega

theorem low_raise (h : touches r c lth = .gt) (hbehind : touches c r lth ≠ .lt)
    (hhi : c.hilim.lead lth < r.hilim.lead lth)
    : ∃ did',
        low rules lth j r ⟨pre ++ c :: cs ++ post, some pre.length, inj, did⟩
          =
        some
          (⟨pre ++ { lowered lth r c with hilim := Lim.memcpy lth c.hilim r.hilim } :: cs ++ post,
            some pre.length, inj, did'⟩, nextRange rules j, false) := by
  simp only [low, getElem?_cursor, h, hbehind, hhi, ↓reduceIte, set_cursor, decide_eq_true_eq]
  exact ⟨_, rfl⟩

theorem low_inside (h : touches r c lth = .gt) (hbehind : touches c r lth ≠ .lt)
    (hhi : ¬c.hilim.lead lth < r.hilim.lead lth)
    : ∃ did',
        low rules lth j r ⟨pre ++ c :: cs ++ post, some pre.length, inj, did⟩
          =
        some
          (⟨pre ++ lowered lth r c :: cs ++ post, some pre.length, inj, did'⟩, some j, false) := by
  simp only [low, getElem?_cursor, h, hbehind, hhi, ↓reduceIte, set_cursor, decide_eq_true_eq]
  exact ⟨_, rfl⟩

theorem high_inside (hhi : r.hilim.lead lth ≤ c.hilim.lead lth)
    : high rules lth j r ⟨pre ++ c :: cs ++ post, some pre.length, inj, did⟩
        =
      some (⟨pre ++ c :: cs ++ post, some pre.length, inj, did + 1⟩, nextRange rules j) := by
  simp only [high, getElem?_cursor, hhi, ↓reduceIte]

theorem high_raise (hhi : ¬r.hilim.lead lth ≤ c.hilim.lead lth) (htouch : touches c r lth ≠ .lt)
    : high rules lth j r ⟨pre ++ c :: cs ++ post, some pre.length, inj, did⟩
        =
      some
        (⟨pre ++ { c with hilim := Lim.memcpy lth c.hilim r.hilim } :: cs ++ post,
          nextRange (pre ++ { c with hilim := Lim.memcpy lth c.hilim r.hilim } :: cs ++ post) pre.length,
          (pre ++ [{ c with hilim := Lim.memcpy lth c.hilim r.hilim }]).length, did⟩, nextRange rules j) := by
  simp only [high, getElem?_cursor, hhi, htouch, ↓reduceIte, set_cursor, ne_eq, not_false_eq_true,
    length_append, length_singleton]

theorem high_behind (hhi : ¬r.hilim.lead lth ≤ c.hilim.lead lth) (htouch : touches c r lth = .lt)
    : high rules lth j r ⟨pre ++ c :: cs ++ post, some pre.length, inj, did⟩
        =
      some
        (⟨pre ++ c :: cs ++ post, nextRange (pre ++ c :: cs ++ post) pre.length, (pre ++ [c]).length, did⟩,
          some j) := by
  simp only [high, getElem?_cursor, hhi, htouch, ↓reduceIte, ne_eq, not_true_eq_false, length_append,
    length_singleton]

end Steps

def Merged (typ : Typ) (lth : Nat) (pre : List IpRange) (out : List Span) (post : List IpRange)
    (res : Option (List IpRange × Nat)) : Prop :=
  ∃ cs' did, res = some (pre ++ cs' ++ post, did) ∧ (∀ c ∈ cs', c.typ = typ) ∧
    cs'.map (IpRange.interval lth) = out

section Block

variable {typ : Typ} {lth fuel : Nat} {pre cs post rpre rs rpost : List IpRange} {c r : IpRange}

theorem Merged.cons {x : Span} {out : List Span} {res : Option (List IpRange × Nat)}
    (h : Merged typ lth (pre ++ [c]) out post res) (hc : c.typ = typ) (hx : c.interval lth = x)
    : Merged typ lth pre (x :: out) post res := by
  obtain ⟨cs', did, hres, hcs', hmap⟩ := h
  refine ⟨c :: cs', did, ?_, forall_mem_cons.mpr ⟨hc, hcs'⟩, ?_⟩
  . simpa using hres
  . rw [map_cons, hmap, hx]

def Walks (typ : Typ) (lth fuel : Nat) (post rpost : List IpRange) : Prop :=
  ∀ (pre cs rpre rs : List IpRange) (did : Nat), (∀ c ∈ cs, c.typ = typ) → (∀ r ∈ rs, r.typ = typ) →
    Span.Separated (rs.map (IpRange.interval lth)) → cs.length + rs.length < fuel →
    Merged typ lth pre
      (Span.merge (2 ^ (8 * lth)) false (cs.map (IpRange.interval lth)) (rs.map (IpRange.interval lth)))
      post
      (go (rpre ++ rs ++ rpost) lth fuel ⟨pre ++ cs ++ post, cursor pre.length cs, pre.length, did⟩
        (cursor rpre.length rs))

section Walk

variable (hlth : lth ≤ 16) (hpost : EndsBlock typ post) (hrpost : EndsBlock typ rpost)
  (hwalks : Walks typ lth fuel post rpost) (hcs : ∀ c ∈ cs, c.typ = typ) (hrs : ∀ r ∈ rs, r.typ = typ)
  (hsep : Span.Separated (rs.map (IpRange.interval lth))) (hfuel : cs.length + rs.length < fuel)

include hlth hpost hrpost hwalks hcs hrs hsep hfuel

theorem resume_merged (pre rpre : List IpRange) (did : Nat) (hc : c.typ = typ)
    : Merged typ lth pre
        (Span.merge (2 ^ (8 * lth)) true ((c :: cs).map (IpRange.interval lth))
          (rs.map (IpRange.interval lth)))
        post
        (resume (rpre ++ rs ++ rpost) lth fuel ⟨pre ++ c :: cs ++ post, some pre.length, pre.length, did⟩
          (cursor rpre.length rs)) := by
  cases rs with
  | nil =>
    refine ⟨c :: cs, did, rfl, forall_mem_cons.mpr ⟨hc, hcs⟩, ?_⟩
    rw [map_nil, Span.merge_nil_right]
  | cons q rs =>
    have hq : q.typ = typ := hrs q mem_cons_self
    have hrs' := forall_mem_of_forall_mem_cons hrs
    have hnextRule := nextRange_cursor rpre hq hrs' hrpost
    rw [length_cons] at hfuel
    rw [map_cons, map_cons, Span.merge]
    by_cases hhi : (q.interval lth).hi ≤ (c.interval lth).hi
    . rw [cursor_cons, resume_high getElem?_cursor (high_inside hhi), if_pos hhi, hnextRule,
        append_cons rpre, ← map_cons]
      exact hwalks pre (c :: cs) (rpre ++ [q]) rs (did + 1) (forall_mem_cons.mpr ⟨hc, hcs⟩) hrs'
        hsep.tail (by rw [length_cons]; omega)
    rw [if_neg hhi]
    by_cases htouch : touches c q lth = .lt
    . have hlt : ¬(q.interval lth).lo ≤ ((c.interval lth).hi + 1) % 2 ^ (8 * lth) := by
        rw [Nat.not_le]
        exact (touches_lt_iff hlth).mp htouch
      rw [cursor_cons, resume_high getElem?_cursor (high_behind hhi htouch), if_neg hlt,
        nextRange_cursor pre hc hcs hpost, append_cons pre, ← map_cons, ← cursor_cons rpre.length q rs]
      have h := hwalks (pre ++ [c]) cs rpre (q :: rs) did hcs hrs hsep (by rw [length_cons]; omega)
      exact h.cons hc rfl
    have hle : (q.interval lth).lo ≤ ((c.interval lth).hi + 1) % 2 ^ (8 * lth) := by
      rw [← Nat.not_lt]
      exact (touches_lt_iff hlth).not.mp htouch
    have hc' : ({ c with hilim := Lim.memcpy lth c.hilim q.hilim } : IpRange).typ = typ := hc
    rw [cursor_cons, resume_high getElem?_cursor (high_raise hhi htouch), if_pos hle,
      nextRange_cursor pre hc' hcs hpost, hnextRule, append_cons rpre, append_cons pre]
    refine (hwalks _ cs (rpre ++ [q]) rs did hcs hrs' hsep.tail (by omega)).cons hc' ?_
    rw [IpRange.interval, Lim.lead_memcpy hlth]
    rfl

end Walk

section Walk

variable (hlth : lth ≤ 16) (hpost : EndsBlock typ post) (hrpost : EndsBlock typ rpost)
  (hwalks : Walks typ lth fuel post rpost) (hcs : ∀ c ∈ cs, c.typ = typ)
  (hrs : ∀ q ∈ r :: rs, q.typ = typ) (hsep : Span.Separated ((r :: rs).map (IpRange.interval lth)))

include hlth hpost hrpost hwalks hcs hrs hsep

theorem resume_injected (pre rpre : List IpRange) (did : Nat) (hfuel : cs.length + rs.length < fuel)
    : Merged typ lth pre
        (r.interval lth ::
          Span.merge (2 ^ (8 * lth)) false (cs.map (IpRange.interval lth)) (rs.map (IpRange.interval lth)))
        post
        (resume (rpre ++ r :: rs ++ rpost) lth fuel
          ⟨pre ++ [injected lth r] ++ cs ++ post, some pre.length, pre.length + 1, did⟩
          (nextRange (rpre ++ r :: rs ++ rpost) rpre.length)) := by
  have hr : (injected lth r).typ = typ := hrs r mem_cons_self
  have hrs' := forall_mem_of_forall_mem_cons hrs
  rw [nextRange_cursor rpre (hrs r mem_cons_self) hrs' hrpost, append_cons rpre]
  cases rs with
  | nil =>
    refine ⟨injected lth r :: cs, did, ?_, forall_mem_cons.mpr ⟨hr, hcs⟩, ?_⟩
    . simp [resume, cursor]
    . rw [map_nil, Span.merge_nil_right, map_cons, interval_injected hlth]
  | cons q rs =>
    obtain ⟨hlt, _⟩ := hsep.lt_of_mem mem_cons_self
    rw [← interval_injected hlth] at hlt
    have hw : (q.interval lth).hi < 2 ^ (8 * lth) := Lim.lead_lt hlth q.hilim
    have hhi : ¬(q.interval lth).hi ≤ ((injected lth r).interval lth).hi := by omega
    have htouch : touches (injected lth r) q lth = .lt := by
      rw [touches_lt_iff hlth, Nat.mod_eq_of_lt (by omega)]
      exact hlt
    rw [cursor_cons, ← append_cons pre, resume_high getElem?_cursor (high_behind hhi htouch),
      nextRange_cursor pre hr hcs hpost, append_cons pre, ← cursor_cons _ q rs]
    exact (hwalks (pre ++ [injected lth r]) cs (rpre ++ [r]) (q :: rs) did hcs hrs' hsep.tail hfuel).cons hr
      (interval_injected hlth)

end Walk

theorem go_walks (hlth : lth ≤ 16) (hpost : EndsBlock typ post) (hrpost : EndsBlock typ rpost) (fuel : Nat)
    : Walks typ lth fuel post rpost := by
  induction fuel with
  | zero =>
    intro pre cs rpre rs did hcs hrs hsep hfuel
    omega
  | succ fuel ih =>
    intro pre cs rpre rs did hcs hrs hsep hfuel
    cases rs with
    | nil =>
      refine ⟨cs, did, rfl, hcs, ?_⟩
      rw [map_nil, Span.merge_nil_right]
    | cons r rs =>
      have hr : r.typ = typ := hrs r mem_cons_self
      have hrs' := forall_mem_of_forall_mem_cons hrs
      have hnextRule := nextRange_cursor rpre hr hrs' hrpost
      rw [length_cons] at hfuel
      rw [cursor_cons rpre.length]
      have hinjected (cs : List IpRange) (hcs : ∀ c ∈ cs, c.typ = typ) (hfuel : cs.length + rs.length < fuel) :=
        resume_injected hlth hpost hrpost ih hcs hrs hsep pre rpre (did + 1) hfuel
      cases cs with
      | nil =>
        have hcursor : cursor pre.length ([] : List IpRange) = none := rfl
        rw [hcursor, go_resume getElem?_cursor low_end, map_nil, Span.merge_nil_left, map_cons]
        have h := hinjected [] hcs (by omega)
        rw [map_nil, Span.merge_nil_left] at h
        exact h
      | cons c cs =>
        have hc : c.typ = typ := hcs c mem_cons_self
        have hcs' := forall_mem_of_forall_mem_cons hcs
        rw [length_cons] at hfuel
        have hfuel' : cs.length + (r :: rs).length < fuel := by
          rw [length_cons]
          omega
        rw [cursor_cons, map_cons, map_cons, Span.merge]
        by_cases hbefore : touches r c lth = .lt
        . rw [go_resume getElem?_cursor (low_before hbefore), if_pos ((touches_lt_iff hlth).mp hbefore)]
          exact hinjected (c :: cs) hcs (by rw [length_cons]; omega)
        rw [if_neg ((touches_lt_iff hlth).not.mp hbefore)]
        by_cases hadj : touches r c lth = .eq
        . rw [if_pos ((touches_eq_iff hlth).mp hadj)]
          have hc' : ({ c with lolim := Lim.memcpy lth c.lolim r.lolim } : IpRange).typ = typ := hc
          have hlower : ({ c with lolim := Lim.memcpy lth c.lolim r.lolim } : IpRange).interval lth
              = ⟨(r.interval lth).lo, (c.interval lth).hi⟩ := by
            rw [IpRange.interval, Lim.lead_memcpy hlth]
            rfl
          rw [go_resume getElem?_cursor (low_adjacent hadj)]
          by_cases hhi : (r.interval lth).hi ≤ (c.interval lth).hi
          . rw [if_pos hhi, if_pos hhi, hnextRule, append_cons rpre, ← hlower, ← map_cons]
            exact resume_merged hlth hpost hrpost ih hcs' hrs' hsep.tail (by omega) pre (rpre ++ [r]) _ hc'
          . rw [if_neg hhi, if_neg hhi, ← hlower, ← map_cons, ← map_cons, ← cursor_cons _ r rs]
            exact resume_merged hlth hpost hrpost ih hcs' hrs hsep hfuel' pre rpre _ hc'
        rw [if_neg ((touches_eq_iff hlth).not.mp hadj)]
        have hgt : touches r c lth = .gt := by
          cases h : touches r c lth with
          | lt => exact absurd h hbefore
          | eq => exact absurd h hadj
          | gt => rfl
        by_cases hbehind : touches c r lth = .lt
        . rw [go_continue getElem?_cursor (low_behind hgt hbehind), if_pos ((touches_lt_iff hlth).mp hbehind),
            nextRange_cursor pre hc hcs' hpost, append_cons pre, ← map_cons, ← cursor_cons _ r rs]
          exact (ih (pre ++ [c]) cs rpre (r :: rs) did hcs' hrs hsep hfuel').cons hc rfl
        rw [if_neg ((touches_lt_iff hlth).not.mp hbehind)]
        by_cases hhi : (c.interval lth).hi < (r.interval lth).hi
        . obtain ⟨did', hlow⟩ := @low_raise (rpre ++ r :: rs ++ rpost) pre cs post lth rpre.length pre.length did
            c r hgt hbehind hhi
          have hc' : ({ lowered lth r c with hilim := Lim.memcpy lth c.hilim r.hilim } : IpRange).typ = typ :=
            typ_lowered.trans hc
          have hraise : ({ lowered lth r c with hilim := Lim.memcpy lth c.hilim r.hilim } : IpRange).interval lth
              = ⟨min (r.interval lth).lo (c.interval lth).lo, (r.interval lth).hi⟩ := by
            rw [IpRange.interval, lead_lolim_lowered hlth, Lim.lead_memcpy hlth]
            rfl
          rw [go_resume getElem?_cursor hlow, if_pos hhi, hnextRule, append_cons rpre, ← hraise, ← map_cons]
          exact resume_merged hlth hpost hrpost ih hcs' hrs' hsep.tail (by omega) pre (rpre ++ [r]) _ hc'
        obtain ⟨did', hlow⟩ := @low_inside (rpre ++ r :: rs ++ rpost) pre cs post lth rpre.length pre.length did
          c r hgt hbehind hhi
        have hlower : (lowered lth r c).interval lth
            = ⟨min (r.interval lth).lo (c.interval lth).lo, (c.interval lth).hi⟩ := by
          rw [IpRange.interval, lead_lolim_lowered hlth, hilim_lowered]
          rfl
        rw [go_resume getElem?_cursor hlow, if_neg hhi, ← hlower, ← map_cons, ← map_cons,
          ← cursor_cons _ r rs]
        exact resume_merged hlth hpost hrpost ih hcs' hrs hsep hfuel' pre rpre _ (typ_lowered.trans hc)

end Block

section Cases

variable {rules certs : List IpRange} {lth fuel i j did n : Nat} {r : IpRange} {e e' : Expansion}
  {rule : Option Nat} {ends : Bool} {typ : Typ}

/--
What a comparison does: a range is injected, or the current one is changed and may be left.
-/
inductive Moves (rules : List IpRange) (j : Nat) (e e' : Expansion) (rule : Option Nat) : Prop where
  | inject {r : IpRange} (hcerts : injectRange e.certs e.inject r = some e'.certs)
      (hcert : e'.cert = some e.inject ∧ e'.inject = e.inject + 1) (hrule : rule = nextRange rules j)
  | set {i : Nat} {c c' : IpRange} (hi : e.cert = some i) (hc : e.certs[i]? = some c) (hc' : c'.typ = c.typ)
      (hcerts : e'.certs = e.certs.set i c')
      (hcert : e'.cert = e.cert ∧ e'.inject = e.inject ∨
        e'.cert = nextRange e'.certs i ∧ e'.inject = i + 1)
      (hrule : rule = nextRange rules j ∨ rule = some j)

theorem eq_set_of_getElem? {c : IpRange} (h : certs[i]? = some c) : certs = certs.set i c := by
  obtain ⟨_, hget⟩ := List.getElem?_eq_some_iff.mp h
  rw [← hget, set_getElem_self]

theorem low_moves (h : low rules lth j r e = some (e', rule, ends)) : Moves rules j e e' rule := by
  unfold low at h
  dsimp only at h
  split at h
  . split at h
    . cases h
    next certs hcerts =>
      cases h
      exact .inject hcerts ⟨rfl, rfl⟩ rfl
  next hi =>
    split at h
    . cases h
    next hc =>
      split at h
      . split at h
        . cases h
        next certs hcerts =>
          cases h
          exact .inject hcerts ⟨rfl, rfl⟩ rfl
      . cases h
        refine .set hi hc ?_ rfl (.inl ⟨rfl, rfl⟩) ?_
        . rfl
        . split
          . exact .inl rfl
          . exact .inr rfl
      split at h
      . cases h
        exact .set hi hc rfl (eq_set_of_getElem? hc) (.inr ⟨rfl, rfl⟩) (.inr rfl)
      split at h
      . cases h
        refine .set hi hc ?_ rfl (.inl ⟨rfl, rfl⟩) (.inl rfl)
        split <;> rfl
      . cases h
        refine .set hi hc ?_ rfl (.inl ⟨rfl, rfl⟩) (.inr rfl)
        split <;> rfl

theorem high_moves (h : high rules lth j r e = some (e', rule)) : Moves rules j e e' rule := by
  unfold high at h
  split at h
  . cases h
  next hi =>
    split at h
    . cases h
    next hc =>
      have hset := eq_set_of_getElem? hc
      split at h
      . cases h
        exact .set hi hc rfl hset (.inl ⟨rfl, rfl⟩) (.inl rfl)
      split at h
      . cases h
        refine .set hi hc ?_ rfl (.inr ⟨rfl, rfl⟩) (.inl rfl)
        rfl
      . cases h
        exact .set hi hc rfl hset (.inr ⟨rfl, rfl⟩) (.inr rfl)

theorem go_moves {P : Expansion → Option Nat → Prop}
    (hmoves : ∀ {e e' j rule}, P e (some j) → Moves rules j e e' rule → P e' rule) (hP : P e rule)
    (h : go rules lth fuel e rule = some (certs, did)) : ∃ e', P e' none ∧ e'.certs = certs := by
  fun_induction go rules lth fuel e rule with
  | case3 fuel e j r hr e' rule hlow ih => exact ih (hmoves hP (low_moves hlow)) h
  | case4 fuel e j r hr e' hlow =>
    cases h
    exact ⟨e', hmoves hP (low_moves hlow), rfl⟩
  | case7 fuel e j r hr e' _ hlow _ _ _ rule hhigh ih =>
    exact ih (hmoves (hmoves hP (low_moves hlow)) (high_moves hhigh)) h
  | case8 fuel e =>
    cases h
    exact ⟨e, hP, rfl⟩
  | _ => cases h

def Left (rules : List IpRange) (typ : Typ) (rule : Option Nat) (n : Nat) : Prop :=
  ∃ rpre rs rpost, rules = rpre ++ rs ++ rpost ∧ (∀ r ∈ rs, r.typ = typ) ∧ EndsBlock typ rpost ∧
    rule = cursor rpre.length rs ∧ rs.length ≤ n

theorem Left.next (h : Left rules typ (some j) n)
    : ∃ m, n = m + 1 ∧ Left rules typ (nextRange rules j) m := by
  obtain ⟨rpre, rs, rpost, hrules, hrs, hrpost, hcursor, hle⟩ := h
  cases rs with
  | nil => cases hcursor
  | cons r rs =>
    obtain ⟨m, rfl⟩ := Nat.exists_eq_add_one.mpr (Nat.zero_lt_of_lt hle)
    cases hcursor
    have hrs' := forall_mem_of_forall_mem_cons hrs
    refine ⟨m, rfl, rpre ++ [r], rs, rpost, ?_, hrs', hrpost, ?_, Nat.le_of_succ_le_succ hle⟩
    . rw [hrules]
      simp
    . rw [hrules, nextRange_cursor rpre (hrs r mem_cons_self) hrs' hrpost]

theorem length_of_inject (h : injectRange e.certs e.inject r = some certs)
    : e.inject ≤ e.certs.length ∧ certs = e.certs.insertIdx e.inject r := by
  simpa [injectRange, eq_comm] using h

theorem Left.moves (hleft : Left rules typ (some j) n) (h : Moves rules j e e' rule)
    : ∃ m, Left rules typ rule m ∧ e'.certs.length + m ≤ e.certs.length + n := by
  obtain ⟨m, _, hnext⟩ := hleft.next
  cases h with
  | inject hcerts _ hrule =>
    obtain ⟨hle, hcerts⟩ := length_of_inject hcerts
    rw [hcerts, length_insertIdx_of_le_length hle, hrule]
    exact ⟨m, hnext, by omega⟩
  | set _ _ _ hcerts _ hrule =>
    rw [hcerts, length_set]
    rcases hrule with rfl | rfl
    . exact ⟨m, hnext, by omega⟩
    . exact ⟨n, hleft, Nat.le_refl _⟩

theorem length_go (hleft : Left rules typ rule n)
    (h : go rules lth fuel e rule = some (certs, did)) : certs.length ≤ e.certs.length + n := by
  obtain ⟨e', ⟨m, -, hle⟩, rfl⟩ := go_moves
    (P := fun e' rule => ∃ m, Left rules typ rule m ∧ e'.certs.length + m ≤ e.certs.length + n)
    (by
      rintro _ _ _ rule ⟨m, hleft, hle⟩ hmoves
      obtain ⟨m', hleft', hle'⟩ := hleft.moves hmoves
      exact ⟨m', hleft', hle'.trans hle⟩)
    ⟨n, hleft, Nat.le_refl _⟩ h
  exact (Nat.le_add_right _ _).trans hle

theorem length_resume (hleft : Left rules typ rule n)
    (h : resume rules lth fuel e rule = some (certs, did)) : certs.length ≤ e.certs.length + n := by
  unfold resume at h
  split at h
  . cases h
    omega
  split at h
  . cases h
  split at h
  . cases h
  next hhigh =>
    obtain ⟨_, hm, hle⟩ := hleft.moves (high_moves hhigh)
    exact Nat.le_trans (length_go hm h) hle

structure Behind (i : Nat) (typ : Typ) (e : Expansion) : Prop where
  lt_inject : i < e.inject
  le_cert : ∀ k ∈ e.cert, i ≤ k
  typ_eq : ∃ c, e.certs[i]? = some c ∧ c.typ = typ

theorem exists_typ_set {k : Nat} {c c' : IpRange} (h : ∃ c, certs[i]? = some c ∧ c.typ = typ)
    (hc : certs[k]? = some c) (hc' : c'.typ = c.typ)
    : ∃ c, (certs.set k c')[i]? = some c ∧ c.typ = typ := by
  obtain ⟨x, hx, htyp⟩ := h
  by_cases hik : k = i
  . subst hik
    have hxc : c = x := some.inj (hc.symm.trans hx)
    subst hxc
    refine ⟨c', ?_, hc'.trans htyp⟩
    rw [getElem?_set_self (List.getElem?_eq_some_iff.mp hx).1]
  . exact ⟨x, (getElem?_set_ne hik).trans hx, htyp⟩

theorem eq_of_nextRange {k : Nat} (h : k ∈ nextRange certs i) : k = i + 1 := by
  unfold nextRange at h
  split at h
  . split at h
    . exact (some.inj h).symm
    . cases h
  . cases h

theorem Behind.moves (hbehind : Behind i typ e) (h : Moves rules j e e' rule) : Behind i typ e' := by
  obtain ⟨hinject, hcert, htyp⟩ := hbehind
  cases h with
  | inject hcerts hcert' _ =>
    obtain ⟨-, hcerts⟩ := length_of_inject hcerts
    refine ⟨?_, ?_, ?_⟩
    . rw [hcert'.2]
      exact Nat.lt_succ_of_lt hinject
    . rw [hcert'.1]
      rintro _ ⟨⟩
      exact Nat.le_of_lt hinject
    . rw [hcerts, getElem?_insertIdx_of_lt hinject]
      exact htyp
  | @set k _ _ hk hc hc' hcerts hcert' _ =>
    have hik := hcert k hk
    have htyp' := hcerts ▸ exists_typ_set htyp hc hc'
    rcases hcert' with ⟨hcert', hinject'⟩ | ⟨hcert', hinject'⟩
    . exact ⟨hinject' ▸ hinject, hcert' ▸ hcert, htyp'⟩
    . refine ⟨hinject' ▸ Nat.lt_succ_of_le hik, ?_, htyp'⟩
      rw [hcert']
      intro _ hk'
      rw [eq_of_nextRange hk']
      exact Nat.le_succ_of_le hik

theorem Behind.go (hbehind : Behind i typ e)
    (h : go rules lth fuel e rule = some (certs, did)) : ∃ c, certs[i]? = some c ∧ c.typ = typ := by
  obtain ⟨_, hbehind', rfl⟩ := go_moves (P := fun e _ => Behind i typ e) Behind.moves hbehind h
  exact hbehind'.typ_eq

end Cases

section Empty

variable {typ : Typ} {lth fuel did did' : Nat} {pre post rpre rs rpost certs : List IpRange} {r x : IpRange}

theorem go_empty (hrs : ∀ q ∈ r :: rs, q.typ = typ) (hrpost : EndsBlock typ rpost)
    (htouch : touches r x lth ≠ .lt)
    (h : go (rpre ++ r :: rs ++ rpost) lth fuel
      ⟨pre ++ [x] ++ post, some pre.length, pre.length, did⟩ (some rpre.length) = some (certs, did'))
    : certs.length ≤ (pre ++ [x] ++ post).length + rs.length ∨
        ∃ c, certs[pre.length]? = some c ∧ c.typ = x.typ := by
  have hrs' := forall_mem_of_forall_mem_cons hrs
  have hleft : Left (rpre ++ r :: rs ++ rpost) typ (nextRange (rpre ++ r :: rs ++ rpost) rpre.length)
      rs.length := by
    refine ⟨rpre ++ [r], rs, rpost, by simp, hrs', hrpost, ?_, Nat.le_refl _⟩
    exact nextRange_cursor rpre (hrs r mem_cons_self) hrs' hrpost
  -- the first rule is used without a range of its own
  have hlength (y : IpRange) : (pre ++ [y] ++ post).length = (pre ++ [x] ++ post).length := by simp
  have hbehind (y : IpRange) (hy : y.typ = x.typ) (did : Nat)
      : Behind pre.length x.typ
          ⟨pre ++ [y] ++ post, nextRange (pre ++ [y] ++ post) pre.length, (pre ++ [y]).length, did⟩ := by
    refine ⟨by simp, ?_, y, getElem?_cursor, hy⟩
    intro _ hk
    rw [eq_of_nextRange hk]
    exact Nat.le_succ _
  cases fuel with
  | zero => cases h
  | succ =>
    cases hfirst : touches r x lth with
    | lt => exact absurd hfirst htouch
    | eq =>
      rw [go_resume getElem?_cursor (low_adjacent hfirst)] at h
      by_cases hhi : (r.interval lth).hi ≤ (x.interval lth).hi
      . rw [if_pos hhi] at h
        exact .inl (hlength _ ▸ length_resume hleft h)
      rw [if_neg hhi] at h
      have hx (y : IpRange) (hy : y = { x with lolim := Lim.memcpy lth x.lolim r.lolim })
          : ¬r.hilim.lead lth ≤ y.hilim.lead lth := hy ▸ hhi
      generalize hy : { x with lolim := Lim.memcpy lth x.lolim r.lolim } = y at h
      by_cases hnext : touches y r lth = .lt
      . rw [resume_high getElem?_cursor (high_behind (hx y hy.symm) hnext)] at h
        exact .inr ((hbehind y (hy ▸ rfl) _).go h)
      . rw [resume_high getElem?_cursor (high_raise (hx y hy.symm) hnext)] at h
        exact .inl (hlength _ ▸ length_go hleft h)
    | gt =>
      by_cases hnext : touches x r lth = .lt
      . rw [go_continue getElem?_cursor (low_behind hfirst hnext)] at h
        exact .inr ((hbehind x rfl _).go h)
      by_cases hhi : x.hilim.lead lth < r.hilim.lead lth
      . obtain ⟨did'', hlow⟩ := @low_raise (rpre ++ r :: rs ++ rpost) pre [] post lth rpre.length pre.length did
          x r hfirst hnext hhi
        rw [go_resume getElem?_cursor hlow] at h
        exact .inl (hlength _ ▸ length_resume hleft h)
      obtain ⟨did'', hlow⟩ := @low_inside (rpre ++ r :: rs ++ rpost) pre [] post lth rpre.length pre.length did
        x r hfirst hnext hhi
      have hinside : r.hilim.lead lth ≤ (lowered lth r x).hilim.lead lth := by
        rw [hilim_lowered]
        omega
      rw [go_resume getElem?_cursor hlow, resume_high getElem?_cursor (high_inside hinside)] at h
      exact .inl (hlength _ ▸ length_go hleft h)

theorem go_before (pre rpre : List IpRange) (did : Nat) (hlth : lth ≤ 16)
    (hpost : EndsBlock typ (x :: post)) (hrs : ∀ q ∈ r :: rs, q.typ = typ)
    (hrpost : EndsBlock typ rpost) (hsep : Span.Separated ((r :: rs).map (IpRange.interval lth)))
    (htouch : touches r x lth = .lt) (hfuel : rs.length + 1 < fuel)
    : Merged typ lth pre ((r :: rs).map (IpRange.interval lth)) (x :: post)
        (go (rpre ++ r :: rs ++ rpost) lth fuel
          ⟨pre ++ [x] ++ post, some pre.length, pre.length, did⟩ (some rpre.length)) := by
  cases fuel with
  | zero => omega
  | succ fuel =>
    rw [go_resume getElem?_cursor (low_before htouch)]
    have h := resume_injected hlth hpost hrpost (go_walks hlth hpost hrpost fuel)
      (forall_mem_nil _) hrs hsep pre rpre (did + 1) (by rw [length_nil]; omega)
    rw [map_nil, Span.merge_nil_left] at h
    simpa using h

end Empty

end expand

def Unites (typ : Typ) (pre cs post rs : List IpRange) (res : Option (List IpRange × Nat)) : Prop :=
  ∃ cs' did, res = some (pre ++ cs' ++ post, did) ∧ IsSeparated typ cs' post ∧
    ∀ x, Holds typ cs' x ↔ Holds typ cs x ∨ Holds typ rs x

/--
The blocks that `expand` puts together: for an empty block of the certificate the first rule lies before
the range of another type or the terminator behind it, as `touches` compares them; otherwise no rule
touches two ranges of the certificate, and no comparison with the address behind the last one is made.
-/
def Expandable (typ : Typ) (cs post rs : List IpRange) : Prop :=
  if cs = [] then
    ∀ r ∈ rs.head?, ∀ x ∈ post.head?, touches r x (typLth typ) = .lt
  else
    Span.Mergeable (2 ^ (8 * typLth typ)) (cs.map (IpRange.interval (typLth typ)))
      (rs.map (IpRange.interval (typLth typ)))

section Unites

variable {typ : Typ} {rpre rs rpost pre cs post : List IpRange} {res : Option (List IpRange × Nat)}

theorem hi_lt_of_mem {lth : Nat} (hlth : lth ≤ 16) {l : List IpRange}
    : ∀ d ∈ l.map (IpRange.interval lth), d.hi < 2 ^ (8 * lth) := by
  rw [List.forall_mem_map]
  intro r _
  exact Lim.lead_lt hlth r.hilim

theorem unites_iff {out : List Span} (hpost : EndsBlock typ post)
    (h : expand.Merged typ (typLth typ) pre out post res)
    : Unites typ pre cs post rs res ↔
        Span.IsUnion (cs.map (IpRange.interval (typLth typ))) (rs.map (IpRange.interval (typLth typ)))
          out := by
  obtain ⟨cs', did, hres, htyp, rfl⟩ := h
  constructor
  . rintro ⟨cs'', _, hres', hsep, hholds⟩
    have heq : pre ++ cs'' ++ post = pre ++ cs' ++ post :=
      congrArg Prod.fst (some.inj (hres'.symm.trans hres))
    have heq' : cs'' = cs' := append_cancel_left (append_cancel_right heq)
    rw [← heq']
    exact ⟨hsep.separated, hholds⟩
  . intro hunion
    exact ⟨cs', did, hres, ⟨htyp, hpost, hunion.separated⟩, hunion.covered⟩

theorem not_unites {did : Nat} {certs : List IpRange} {x : IpRange} (hx : x.typ ≠ typ)
    (hrs : Span.Separated (rs.map (IpRange.interval (typLth typ)))) (hrules : rs ≠ [])
    (h : certs.length < pre.length + rs.length + post.length ∨
      ∃ c, certs[pre.length]? = some c ∧ c.typ = x.typ)
    : ¬Unites typ pre [] post rs (some (certs, did)) := by
  rintro ⟨cs', _, hres, hsep, hholds⟩
  have hmap : cs'.map (IpRange.interval (typLth typ)) = rs.map (IpRange.interval (typLth typ)) := by
    apply hsep.separated.eq_of_covered hrs
    intro y
    exact (hholds y).trans (or_iff_right (Span.covered_nil y))
  have hlength : cs'.length = rs.length := by
    simpa using congrArg List.length hmap
  have hcerts : certs = pre ++ cs' ++ post := congrArg Prod.fst (some.inj hres)
  rcases h with h | ⟨c, hc, htyp⟩
  . rw [hcerts, length_append, length_append] at h
    omega
  cases cs' with
  | nil =>
    exact hrules (length_eq_zero_iff.mp hlength.symm)
  | cons =>
    rw [hcerts, getElem?_cursor] at hc
    cases hc
    exact hx (htyp.symm.trans (hsep.typ_eq c mem_cons_self))

theorem expand_eq_go {fuel : Nat} {r : IpRange} (hr : r.typ = typ)
    : expand fuel (rpre ++ r :: rs ++ rpost) rpre.length (pre ++ cs ++ post) pre.length
        =
      expand.go (rpre ++ r :: rs ++ rpost) (typLth typ) fuel
        ⟨pre ++ cs ++ post, some pre.length, pre.length, 0⟩ (some rpre.length) := by
  rw [expand, getElem?_cursor]
  dsimp only
  rw [hr]

theorem expand_unites_iff {fuel : Nat} (hrs : IsSeparated typ rs rpost) (hcs : IsSeparated typ cs post)
    (hrules : rs ≠ []) (hpost : post ≠ []) (hfuel : cs.length + rs.length < fuel)
    : Unites typ pre cs post rs
        (expand fuel (rpre ++ rs ++ rpost) rpre.length (pre ++ cs ++ post) pre.length) ↔
      Expandable typ cs post rs := by
  have hlth := typLth_le typ
  obtain ⟨r, rs, rfl⟩ := exists_cons_of_ne_nil hrules
  obtain ⟨x, post, rfl⟩ := exists_cons_of_ne_nil hpost
  rw [expand_eq_go (hrs.typ_eq r mem_cons_self)]
  cases cs with
  | nil =>
    have hcerts : pre ++ [] ++ x :: post = pre ++ [x] ++ post := by simp
    rw [Expandable, if_pos rfl, hcerts]
    have hfirst : (∀ q ∈ (r :: rs).head?, ∀ y ∈ (x :: post).head?, touches q y (typLth typ) = .lt) ↔
        touches r x (typLth typ) = .lt := by simp
    rw [hfirst]
    by_cases htouch : touches r x (typLth typ) = .lt
    . have h := expand.go_before pre rpre 0 hlth hcs.ends hrs.typ_eq hrs.ends hrs.separated htouch
        (by simpa using hfuel)
      refine iff_of_true ((unites_iff hcs.ends h).mpr ⟨hrs.separated, ?_⟩) htouch
      intro y
      exact (or_iff_right (Span.covered_nil y)).symm
    refine iff_of_false ?_ htouch
    intro hunites
    have ⟨cs', did, hres, _⟩ := hunites
    have hempty := expand.go_empty hrs.typ_eq hrs.ends htouch hres
    rw [hres] at hunites
    refine not_unites (hcs.ends x rfl) hrs.separated hrules ?_ hunites
    refine hempty.imp_left ?_
    intro hle
    simp only [length_append, length_cons, length_nil] at hle ⊢
    omega
  | cons c cs =>
    have h := expand.go_walks hlth hcs.ends hrs.ends fuel pre (c :: cs) rpre (r :: rs) 0 hcs.typ_eq hrs.typ_eq
      hrs.separated hfuel
    rw [cursor_cons, cursor_cons] at h
    rw [unites_iff hcs.ends h]
    apply Span.isUnion_merge_iff hcs.separated hrs.separated
    . exact hi_lt_of_mem hlth
    . exact hi_lt_of_mem hlth

end Unites

def gapBlock : List IpRange :=
  [⟨.ipv4, 0x0a000000000000000000000000000000, 0x0a000003ffffffffffffffffffffffff⟩,
    ⟨.ipv4, 0x0a000008000000000000000000000000, 0x0a00000bffffffffffffffffffffffff⟩]

def gapRules : List IpRange :=
  [⟨.ipv4, 0x0a000002000000000000000000000000, 0x0a000009ffffffffffffffffffffffff⟩]

def nextRules : List IpRange :=
  [⟨.ipv4, 0x0a000004000000000000000000000000, 0x0a000005ffffffffffffffffffffffff⟩]

theorem gapBlock_isSeparated : IsSeparated .ipv4 gapBlock behindTen where
  typ_eq := by decide
  ends := by simp [EndsBlock, behindTen]
  separated := ⟨by decide, by decide⟩

theorem nextRules_isSeparated : IsSeparated .ipv4 nextRules behindTen where
  typ_eq := by decide
  ends := by simp [EndsBlock, behindTen]
  separated := ⟨by decide, by decide⟩

theorem nextRules_expandable : Expandable .ipv4 gapBlock behindTen nextRules := by
  have hcs : gapBlock.map (IpRange.interval 4)
      = [⟨0x0a000000, 0x0a000003⟩, ⟨0x0a000008, 0x0a00000b⟩] := by decide
  have hrs : nextRules.map (IpRange.interval 4) = [⟨0x0a000004, 0x0a000005⟩] := by decide
  refine ⟨?_, ?_⟩
  . rw [typLth, if_neg (by decide), hcs, hrs]
    simp [Span.TouchesOne]
  . rw [typLth, if_neg (by decide), hcs, hrs, Span.WrapFree.singleton_iff]
    simp [Span.WrapFree.Ends]

theorem expand_unites_next
    : Unites .ipv4 [] gapBlock behindTen nextRules
        (expand 4 ([] ++ nextRules ++ behindTen) ([] : List IpRange).length
          ([] ++ gapBlock ++ behindTen) ([] : List IpRange).length) :=
  (expand_unites_iff nextRules_isSeparated gapBlock_isSeparated (by decide) (by decide) (by decide)).mpr
    nextRules_expandable

theorem expand_overlaps
    : ¬Unites .ipv4 [] gapBlock behindTen gapRules
        (expand 4 ([] ++ gapRules ++ behindTen) 0 ([] ++ gapBlock ++ behindTen) 0) := by
  have hrun : expand 4 ([] ++ gapRules ++ behindTen) 0 ([] ++ gapBlock ++ behindTen) 0
      = some
        ([⟨.ipv4, 0x0a000000000000000000000000000000, 0x0a000009ffffffffffffffffffffffff⟩,
          ⟨.ipv4, 0x0a000008000000000000000000000000, 0x0a00000bffffffffffffffffffffffff⟩] ++ behindTen, 1) := by
    decide +kernel
  rw [hrun]
  rintro ⟨_, _, hres, hsep, -⟩
  have hcs' := append_cancel_right (congrArg Prod.fst (some.inj hres))
  rw [nil_append] at hcs'
  have hpairwise := hsep.separated.pairwise
  rw [← hcs'] at hpairwise
  exact absurd hpairwise (by decide)

end Rpstir.Lta
