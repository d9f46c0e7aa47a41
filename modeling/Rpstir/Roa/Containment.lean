import Mathlib.Data.List.Nodup
import Rpstir.Casn.Memcmp
import Rpstir.Data.ByteBits
import Rpstir.Data.Intervals
import Rpstir.Data.List
import Rpstir.Roa.Basic

/-!
This module contains the proof that `checkIPAddrs` passes ROAs whose prefixes the certificate contains,
and no others.
-/

namespace Rpstir.Roa

open List

def AddressBits.value (address : AddressBits) : Nat :=
  Bytes.decode address.bytes / 2 ^ address.unused

def AddressBits.free (address : AddressBits) : Nat :=
  address.unused + 8 * (16 - address.bytes.length)

def AddressBits.low (address : AddressBits) : Nat :=
  address.value * 2 ^ address.free

def AddressBits.high (address : AddressBits) : Nat :=
  (address.value + 1) * 2 ^ address.free - 1

def AddressBits.interval (address : AddressBits) : Span :=
  ⟨address.low, address.high⟩

def AddressOrRange.interval : AddressOrRange → Span
  | addressPrefix address => address.interval
  | addressRange min max => ⟨min.low, max.high⟩

def CertRange.interval (r : CertRange) : Span :=
  ⟨Bytes.decode r.lo.val, Bytes.decode r.hi.val⟩

section Compare

variable {c r : CertRange}

theorem certrangeContains_iff
    : certrangeContains c r = true ↔ c.interval.lo ≤ r.interval.lo ∧ r.interval.hi ≤ c.interval.hi := by
  have hlo := Casn.memcmp_eq_lt_iff (r.lo.property.trans c.lo.property.symm)
  have hhi := Casn.memcmp_eq_gt_iff (r.hi.property.trans c.hi.property.symm)
  simp only [certrangeContains, Bool.and_eq_true, decide_eq_true_eq, ne_eq, hlo, hhi, Nat.not_lt]
  rfl

theorem certrangeBefore_iff : certrangeBefore r c = true ↔ r.interval.hi < c.interval.lo := by
  have h := Casn.memcmp_eq_lt_iff (r.hi.property.trans c.lo.property.symm)
  simp only [certrangeBefore, decide_eq_true_eq, h]
  rfl

theorem certrangecmp_ne_gt_iff
    : certrangecmp r c ≠ .gt ↔
        r.interval.lo < c.interval.lo ∨
          (r.interval.lo = c.interval.lo ∧ r.interval.hi ≤ c.interval.hi) := by
  have hlo := Casn.memcmp_eq_compare (r.lo.property.trans c.lo.property.symm)
  have hhi := Casn.memcmp_eq_compare (r.hi.property.trans c.hi.property.symm)
  rw [certrangecmp, hlo, hhi, CertRange.interval, CertRange.interval]
  cases hcompare : compare (Bytes.decode r.lo.val) (Bytes.decode c.lo.val) with
  | lt =>
    have hlt := Nat.compare_eq_lt.mp hcompare
    simp [hlt]
  | eq =>
    have heq := Nat.compare_eq_eq.mp hcompare
    simp only [heq, Nat.lt_irrefl, true_and, false_or, ne_eq, Nat.compare_eq_gt, Nat.not_lt]
  | gt =>
    have hgt := Nat.compare_eq_gt.mp hcompare
    simp only [ne_eq, not_true_eq_false, false_iff]
    omega

def Qsort.merge : Qsort where
  sort ranges := ranges.mergeSort fun r r' => certrangecmp r r' ≠ .gt
  perm ranges := mergeSort_perm ..
  sorted ranges := by
    have hsorted := @List.pairwise_mergeSort _ (fun r r' => decide (certrangecmp r r' ≠ .gt))
      (fun r₁ r₂ r₃ => by
        simp only [decide_eq_true_eq, certrangecmp_ne_gt_iff]
        omega)
      (fun r₁ r₂ => by
        simp only [Bool.or_eq_true, decide_eq_true_eq, certrangecmp_ne_gt_iff]
        omega)
      ranges
    simpa using hsorted

end Compare

section Limits

variable (address : AddressBits)

theorem exists_concat : ∃ front b, address.bytes = front ++ [b] := by
  obtain ⟨front, b, h⟩ := (eq_nil_or_concat address.bytes).resolve_left
    (length_pos_iff.mp address.length_pos)
  exact ⟨front, b, h.trans (concat_eq_append ..)⟩

theorem decode_limit (fill : UInt8) (f : Nat → Nat)
    : ∃ (front : List UInt8) (b : UInt8), Bytes.decode address.bytes = Bytes.decode front * 256 + b.toNat ∧
        Bytes.decode (limit fill address f).val
          = (Bytes.decode front * 256 + (UInt8.ofNat (f b.toNat)).toNat)
              * 2 ^ (8 * (18 - address.bytes.length))
            + Bytes.decode (replicate (18 - address.bytes.length) fill) := by
  obtain ⟨front, b, h⟩ := exists_concat address
  refine ⟨front, b, by rw [h, Bytes.decode_concat], ?_⟩
  have hpow : ∀ k, 256 ^ k = 2 ^ (8 * k) := fun k => by rw [Nat.pow_mul]
  have hlength : address.bytes.length - 1 = front.length := by simp [h]
  rw [limit]
  dsimp only
  rw [hlength]
  nth_rewrite 1 [h]
  rw [modify_length_append, Bytes.decode_append, Bytes.decode_concat, length_replicate, hpow]

theorem two_pow_free
    : 2 ^ address.unused * 2 ^ (8 * (18 - address.bytes.length)) = 2 ^ address.free * 2 ^ 16 := by
  have hle := address.length_le
  rw [← Nat.pow_add, ← Nat.pow_add, AddressBits.free]
  congr 1
  omega

theorem setuprange_lo (hi : AddressBits)
    : Bytes.decode (setuprange address hi).lo.val = address.low * 2 ^ 16 := by
  obtain ⟨_, b, hbytes, hlimit⟩ :=
    decode_limit address 0x00 fun b => b &&& (0xff <<< address.unused)
  have hle := address.unused_le
  rw [setuprange]
  rw [hlimit, ByteBits.toNat_clear, ← ByteBits.div_mul_concat _ _ (by omega), ← hbytes,
    Bytes.decode_replicate_zero, Nat.add_zero, AddressBits.low, AddressBits.value, Nat.mul_assoc,
    Nat.mul_assoc, two_pow_free]

theorem setuprange_hi (lo : AddressBits)
    : Bytes.decode (setuprange lo address).hi.val + 1 = (address.high + 1) * 2 ^ 16 := by
  obtain ⟨front, b, hbytes, hlimit⟩ :=
    decode_limit address 0xff fun b => b ||| (0xff >>> (8 - address.unused))
  have hle := address.unused_le
  have hmask : 0xff >>> (8 - address.unused) = 2 ^ address.unused - 1 := by
    have hall : ∀ u ≤ 7, 0xff >>> (8 - u) = 2 ^ u - 1 := by decide
    exact hall _ hle
  have hmax := Bytes.decode_replicate_max (18 - address.bytes.length)
  have hones : 2 ^ address.unused - 1 + 1 = 2 ^ address.unused :=
    Nat.sub_add_cancel (Nat.two_pow_pos _)
  have hhigh : address.high + 1 = (address.value + 1) * 2 ^ address.free :=
    Nat.sub_add_cancel (Nat.mul_pos (Nat.succ_pos _) (Nat.two_pow_pos _))
  rw [setuprange]
  rw [hlimit, hmask, ByteBits.toNat_set _ (by omega), ← Nat.add_assoc (Bytes.decode front * 256),
    ← ByteBits.div_mul_concat _ _ (by omega), ← hbytes, Nat.add_assoc, hmax]
  have hpow : 256 ^ (18 - address.bytes.length) = 2 ^ (8 * (18 - address.bytes.length)) := by
    rw [Nat.pow_mul]
  calc (Bytes.decode address.bytes / 2 ^ address.unused * 2 ^ address.unused + (2 ^ address.unused - 1))
        * 2 ^ (8 * (18 - address.bytes.length)) + 256 ^ (18 - address.bytes.length)
    _ = (address.value * 2 ^ address.unused + (2 ^ address.unused - 1 + 1))
          * 2 ^ (8 * (18 - address.bytes.length)) := by
      rw [hpow, AddressBits.value]
      ring
    _ = (address.value + 1) * (2 ^ address.unused * 2 ^ (8 * (18 - address.bytes.length))) := by
      rw [hones]
      ring
    _ = (address.high + 1) * 2 ^ 16 := by
      rw [two_pow_free, hhigh]
      ring

theorem AddressBits.low_le_high : address.low ≤ address.high := by
  have hpos : 0 < 2 ^ address.free := Nat.two_pow_pos _
  rw [low, high, Nat.add_mul, Nat.one_mul]
  omega

end Limits

def Within (r c : Span) : Prop :=
  ∀ x, r.Mem x → c.Mem x

theorem within_iff {r c : Span} (hr : r.lo ≤ r.hi) : Within r c ↔ c.lo ≤ r.lo ∧ r.hi ≤ c.hi := by
  constructor
  . intro h
    exact ⟨(h r.lo ⟨Nat.le_refl _, hr⟩).1, (h r.hi ⟨hr, Nat.le_refl _⟩).2⟩
  . rintro ⟨hlo, hhi⟩ _ ⟨hx, hx'⟩
    exact ⟨Nat.le_trans hlo hx, Nat.le_trans hx' hhi⟩

section Ranges

variable (c : AddressOrRange) (p : AddressBits)

theorem certrange_lo : c.certrange.interval.lo = c.interval.lo * 2 ^ 16 := by
  cases c <;> exact setuprange_lo ..

theorem certrange_hi : c.certrange.interval.hi + 1 = (c.interval.hi + 1) * 2 ^ 16 := by
  cases c <;> exact setuprange_hi ..

theorem contains_certrange_iff
    : certrangeContains c.certrange (setuprange p p) = true ↔ Within p.interval c.interval := by
  have hlo := certrange_lo c
  have hhi := certrange_hi c
  have hplo := certrange_lo (.addressPrefix p)
  have hphi := certrange_hi (.addressPrefix p)
  rw [certrangeContains_iff, within_iff p.low_le_high]
  simp only [AddressOrRange.certrange, AddressOrRange.interval] at hplo hphi
  omega

end Ranges

section Match

variable {certs roas : List CertRange}

theorem contains_of_matchRanges (h : matchRanges certs roas = true)
    : ∀ r ∈ roas, ∃ c ∈ certs, certrangeContains c r = true := by
  fun_induction matchRanges certs roas with
  | case1 =>
    intro r hr
    cases hr
  | case2
  | case4 => cases h
  | case3 c certs r roas hcontains ih =>
    intro r' hr'
    rw [← takeWhile_append_dropWhile (p := certrangeContains c) (l := r :: roas)] at hr'
    rcases List.mem_append.mp hr' with hr' | hr'
    . exact ⟨c, mem_cons_self, mem_takeWhile_imp hr'⟩
    . obtain ⟨c', hc', hcontains'⟩ := ih h r' hr'
      exact ⟨c', mem_cons_of_mem _ hc', hcontains'⟩
  | case5 c certs r roas hcontains hbefore ih =>
    intro r' hr'
    obtain ⟨c', hc', hcontains'⟩ := ih h r' hr'
    exact ⟨c', mem_cons_of_mem _ hc', hcontains'⟩

theorem contains_tail {c r : CertRange} (hcerts : Span.Ordered ((c :: certs).map CertRange.interval))
    (hsorted : (r :: roas).Pairwise fun r r' => r.interval.lo ≤ r'.interval.lo)
    (hle : ∀ r' ∈ r :: roas, r'.interval.lo ≤ r'.interval.hi)
    (hin : ∀ r' ∈ r :: roas, ∃ c' ∈ c :: certs, certrangeContains c' r' = true)
    (hnot : certrangeContains c r = false)
    : c.interval.hi < r.interval.lo ∧ ∀ r' ∈ r :: roas, ∃ c' ∈ certs, certrangeContains c' r' = true := by
  obtain ⟨c', hc', hcontains⟩ := hin r mem_cons_self
  rcases mem_cons.mp hc' with rfl | hc'
  . rw [hcontains] at hnot
    cases hnot
  have hbehind : c.interval.hi < r.interval.lo := by
    have horder := rel_of_pairwise_cons hcerts.pairwise (List.mem_map_of_mem hc')
    exact Nat.lt_of_lt_of_le horder (certrangeContains_iff.mp hcontains).1
  refine ⟨hbehind, fun r' hr' => ?_⟩
  obtain ⟨c'', hc'', hcontains''⟩ := hin r' hr'
  rcases mem_cons.mp hc'' with rfl | hc''
  . have hlo : r.interval.lo ≤ r'.interval.lo := by
      rcases mem_cons.mp hr' with rfl | hr'
      . exact Nat.le_refl _
      . exact rel_of_pairwise_cons hsorted hr'
    have hhi := (certrangeContains_iff.mp hcontains'').2
    have hr := hle r' hr'
    omega
  . exact ⟨c'', hc'', hcontains''⟩

theorem matchRanges_of_contains (hcerts : Span.Ordered (certs.map CertRange.interval))
    (hsorted : roas.Pairwise fun r r' => r.interval.lo ≤ r'.interval.lo)
    (hle : ∀ r ∈ roas, r.interval.lo ≤ r.interval.hi)
    (hin : ∀ r ∈ roas, ∃ c ∈ certs, certrangeContains c r = true)
    : matchRanges certs roas = true := by
  fun_induction matchRanges certs roas with
  | case1 => rfl
  | case2 r =>
    obtain ⟨c, hc, -⟩ := hin r mem_cons_self
    cases hc
  | case3 c certs r roas hcontains ih =>
    have hsuffix := dropWhile_suffix (l := r :: roas) (certrangeContains c)
    have hsorted' := hsorted.sublist hsuffix.sublist
    have hle' : ∀ r' ∈ (r :: roas).dropWhile (certrangeContains c), r'.interval.lo ≤ r'.interval.hi :=
      fun r' hr' => hle r' (hsuffix.subset hr')
    have hin' : ∀ r' ∈ (r :: roas).dropWhile (certrangeContains c),
        ∃ c' ∈ c :: certs, certrangeContains c' r' = true :=
      fun r' hr' => hin r' (hsuffix.subset hr')
    have hhead := head?_dropWhile_not (certrangeContains c) (r :: roas)
    refine ih hcerts.tail hsorted' hle' ?_
    generalize (r :: roas).dropWhile (certrangeContains c) = rest at *
    cases rest with
    | nil =>
      intro r' hr'
      cases hr'
    | cons => exact (contains_tail hcerts hsorted' hle' hin' (by simpa using hhead)).2
  | case4 c certs r roas hcontains hbefore =>
    obtain ⟨_, -⟩ := contains_tail hcerts hsorted hle hin (by simpa using hcontains)
    rw [certrangeBefore_iff] at hbefore
    have hr := hle r mem_cons_self
    have hc := hcerts.head
    omega
  | case5 c certs r roas hcontains hbefore ih =>
    obtain ⟨-, hin'⟩ := contains_tail hcerts hsorted hle hin (by simpa using hcontains)
    exact ih hcerts.tail hsorted hle hin'

end Match

def ROAIPAddressFamily.CoveredBy (roaFamily : ROAIPAddressFamily) (ranges : List AddressOrRange) : Prop :=
  ∀ p ∈ roaFamily.addresses, ∃ c ∈ ranges, Within p.interval c.interval

def InOrder (ranges : List AddressOrRange) : Prop :=
  Span.Ordered (ranges.map AddressOrRange.interval)

section Family

variable {q : Qsort} {roaFamily : ROAIPAddressFamily} {ranges : List AddressOrRange}

theorem ordered_certrange (h : InOrder ranges)
    : Span.Ordered ((ranges.map AddressOrRange.certrange).map CertRange.interval) := by
  rw [List.map_map]
  refine ⟨?_, ?_⟩
  . intro _ hr
    obtain ⟨c, hc, rfl⟩ := List.mem_map.mp hr
    have hle := h.le _ (List.mem_map_of_mem hc)
    have hlo := certrange_lo c
    have hhi := certrange_hi c
    simp only [Function.comp_apply]
    omega
  have hpairwise := h.pairwise
  rw [pairwise_map] at hpairwise ⊢
  refine hpairwise.imp fun {c c'} hlt => ?_
  have hhi := certrange_hi c
  have hlo := certrange_lo c'
  simp only [Function.comp_apply]
  omega

theorem coveredBy_of_matchAddresses (h : matchAddresses q roaFamily ranges = true)
    : roaFamily.CoveredBy ranges := by
  intro p hp
  have hmem : setuprange p p ∈ q.sort (roaFamily.addresses.map fun address => setuprange address address) :=
    (q.perm _).mem_iff.mpr (List.mem_map_of_mem hp)
  obtain ⟨_, hr, hcontains⟩ := contains_of_matchRanges h _ hmem
  obtain ⟨c, hc, rfl⟩ := List.mem_map.mp hr
  exact ⟨c, hc, (contains_certrange_iff c p).mp hcontains⟩

theorem matchAddresses_of_coveredBy (hranges : InOrder ranges) (h : roaFamily.CoveredBy ranges)
    : matchAddresses q roaFamily ranges = true := by
  have hmem : ∀ r ∈ q.sort (roaFamily.addresses.map fun address => setuprange address address),
      ∃ p ∈ roaFamily.addresses, setuprange p p = r := by
    intro r hr
    exact List.mem_map.mp ((q.perm _).mem_iff.mp hr)
  apply matchRanges_of_contains (ordered_certrange hranges)
  . refine (q.sorted _).imp fun h => ?_
    have hcmp := certrangecmp_ne_gt_iff.mp h
    omega
  . intro r hr
    obtain ⟨p, -, rfl⟩ := hmem r hr
    have hle := p.low_le_high
    have hlo := certrange_lo (.addressPrefix p)
    have hhi := certrange_hi (.addressPrefix p)
    simp only [AddressOrRange.certrange, AddressOrRange.interval, AddressBits.interval] at hlo hhi
    omega
  . intro r hr
    obtain ⟨p, hp, rfl⟩ := hmem r hr
    obtain ⟨c, hc, hwithin⟩ := h p hp
    exact ⟨c.certrange, List.mem_map_of_mem hc, (contains_certrange_iff c p).mpr hwithin⟩

theorem matchFamily_eq_ok_iff (certFamilies : List IPAddressFamily) (matchedCertFamily : Bool)
    : matchFamily q roaFamily certFamilies matchedCertFamily = .ok () ↔
        (∀ f ∈ certFamilies, f.addressFamily = roaFamily.addressFamily →
          matchAddresses q roaFamily f.ipAddressChoice.ranges = true) ∧
        (matchedCertFamily = true ∨ ∃ f ∈ certFamilies, f.addressFamily = roaFamily.addressFamily) := by
  induction certFamilies generalizing matchedCertFamily with
  | nil => cases matchedCertFamily <;> simp [matchFamily]
  | cons f certFamilies ih =>
    rw [matchFamily]
    split
    next hne => simp [ih, hne]
    next heq =>
      have heq := Decidable.not_not.mp heq
      split
      next hmatch => simp [ih, heq, hmatch]
      next hmatch => simp [heq, hmatch]

theorem matchFamilies_eq_ok_iff (certFamilies : List IPAddressFamily)
    (roaFamilies : List ROAIPAddressFamily)
    : matchFamilies q certFamilies roaFamilies = .ok () ↔
        ∀ roaFamily ∈ roaFamilies, matchFamily q roaFamily certFamilies false = .ok () := by
  induction roaFamilies with
  | nil => simp [matchFamilies]
  | cons roaFamily roaFamilies ih =>
    rw [matchFamilies]
    cases h : matchFamily q roaFamily certFamilies false with
    | ok => simp [ih, h]
    | error => simp [h]

end Family

def certFamilies (certIpAddrBlock : Option (List IPAddressFamily)) : List IPAddressFamily :=
  certIpAddrBlock.getD []

def Contained (certIpAddrBlock : Option (List IPAddressFamily)) (roa : ROAIPAddrBlocks) : Prop :=
  ∀ roaFamily ∈ roa.families, ∀ p ∈ roaFamily.addresses,
    ∃ f ∈ certFamilies certIpAddrBlock, f.addressFamily = roaFamily.addressFamily ∧
      ∃ c ∈ f.ipAddressChoice.ranges, Within p.interval c.interval

structure Canonical (certIpAddrBlock : Option (List IPAddressFamily)) : Prop where
  families : ((certFamilies certIpAddrBlock).map IPAddressFamily.addressFamily).Nodup
  noInherit : ∀ f ∈ certFamilies certIpAddrBlock, f.ipAddressChoice.isInherit = false
  inOrder : ∀ f ∈ certFamilies certIpAddrBlock, InOrder f.ipAddressChoice.ranges

variable {cert : Option (List IPAddressFamily)} {roa : ROAIPAddrBlocks}

theorem contained_of_checkIPAddrs {q : Qsort} (h : checkIPAddrs q cert roa = .ok ())
    : Contained cert roa := by
  unfold checkIPAddrs at h
  split at h
  . cases h
  next families =>
    split at h
    . cases h
    intro roaFamily hroa p hp
    have hmatch := (matchFamilies_eq_ok_iff _ _).mp h roaFamily hroa
    rw [matchFamily_eq_ok_iff] at hmatch
    obtain ⟨hall, hsome⟩ := hmatch
    obtain ⟨f, hf, heq⟩ := hsome.resolve_left (by simp)
    exact ⟨f, hf, heq, coveredBy_of_matchAddresses (hall f hf heq) p hp⟩

theorem checkIPAddrs_of_contained (q : Qsort) (hcert : Canonical cert) (h : Contained cert roa)
    : checkIPAddrs q cert roa = .ok () := by
  unfold checkIPAddrs
  -- the ROA has a prefix, so that the certificate has a block
  cases cert with
  | none =>
    obtain ⟨roaFamily, hroa⟩ := exists_mem_of_ne_nil _ roa.nonempty
    obtain ⟨p, hp⟩ := exists_mem_of_ne_nil _ roaFamily.nonempty
    obtain ⟨f, hf, -⟩ := h roaFamily hroa p hp
    cases hf
  | some families =>
    have hany : (families.any fun f => f.ipAddressChoice.isInherit) = false := by
      rw [List.any_eq_false]
      intro f hf
      simp [hcert.noInherit f hf]
    dsimp only
    rw [hany, if_neg (by simp), matchFamilies_eq_ok_iff]
    intro roaFamily hroa
    rw [matchFamily_eq_ok_iff]
    obtain ⟨p, hp⟩ := exists_mem_of_ne_nil _ roaFamily.nonempty
    obtain ⟨f, hf, heq, -⟩ := h roaFamily hroa p hp
    refine ⟨fun f' hf' heq' => ?_, .inr ⟨f, hf, heq⟩⟩
    apply matchAddresses_of_coveredBy (hcert.inOrder f' hf')
    intro p hp
    obtain ⟨_, hf'', heq'', c, hc, hwithin⟩ := h roaFamily hroa p hp
    have hsame := inj_on_of_nodup_map hcert.families hf'' hf' (heq''.trans heq'.symm)
    rw [hsame] at hc
    exact ⟨c, hc, hwithin⟩

theorem checkIPAddrs_contained (q : Qsort) (cert : Option (List IPAddressFamily)) (roa : ROAIPAddrBlocks)
    : (checkIPAddrs q cert roa = .ok () → Contained cert roa) ∧
        (Canonical cert → (checkIPAddrs q cert roa = .ok () ↔ Contained cert roa)) :=
  ⟨contained_of_checkIPAddrs,
    fun hcert => ⟨contained_of_checkIPAddrs, checkIPAddrs_of_contained q hcert⟩⟩

def addressBits (bytes : List UInt8) (hpos : 0 < bytes.length) (hle : bytes.length ≤ 16) : AddressBits :=
  ⟨0, bytes, Nat.zero_le 7, hpos, hle⟩

def tenRoa : ROAIPAddrBlocks :=
  ⟨[⟨[0, 1], [addressBits [192, 0, 2] (by decide) (by decide), addressBits [10, 1] (by decide) (by decide)],
      by simp⟩,
    ⟨[0, 2], [addressBits [32, 1, 13, 184, 0, 1] (by decide) (by decide)], by simp⟩], by simp⟩

def tenCert : Option (List IPAddressFamily) :=
  some [⟨[0, 1], .addressesOrRanges [.addressPrefix (addressBits [10] (by decide) (by decide)),
      .addressRange (addressBits [192, 0, 2] (by decide) (by decide))
        (addressBits [192, 0, 3] (by decide) (by decide))]⟩,
    ⟨[0, 2], .addressesOrRanges [.addressPrefix (addressBits [32, 1, 13, 184] (by decide) (by decide))]⟩]

theorem tenCert_canonical : Canonical tenCert where
  families := by decide
  noInherit := by decide
  inOrder := by
    intro f hf
    have hordered : ∀ f ∈ certFamilies tenCert,
        (∀ r ∈ f.ipAddressChoice.ranges.map AddressOrRange.interval, r.lo ≤ r.hi)
        ∧ (f.ipAddressChoice.ranges.map AddressOrRange.interval).Pairwise fun r r' => r.hi < r'.lo := by
      decide
    exact ⟨(hordered f hf).1, (hordered f hf).2⟩

theorem checkIPAddrs_contained_ten
    : Canonical tenCert ∧ Contained tenCert tenRoa ∧ checkIPAddrs .merge tenCert tenRoa = .ok () := by
  have hends : ∀ roaFamily ∈ tenRoa.families, ∀ p ∈ roaFamily.addresses,
      ∃ f ∈ certFamilies tenCert, f.addressFamily = roaFamily.addressFamily ∧
        ∃ c ∈ f.ipAddressChoice.ranges, c.interval.lo ≤ p.interval.lo ∧ p.interval.hi ≤ c.interval.hi := by
    decide
  have hcontained : Contained tenCert tenRoa := by
    intro roaFamily hroa p hp
    obtain ⟨f, hf, hfamily, c, hc, hlo, hhi⟩ := hends roaFamily hroa p hp
    exact ⟨f, hf, hfamily, c, hc, fun _ hx => ⟨hlo.trans hx.1, hx.2.trans hhi⟩⟩
  exact ⟨tenCert_canonical, hcontained,
    ((checkIPAddrs_contained .merge tenCert tenRoa).2 tenCert_canonical).mpr hcontained⟩

end Rpstir.Roa
