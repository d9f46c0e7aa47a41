import Mathlib.Data.List.Perm.Subperm
import Rpstir.Data.List
import Rpstir.Sqhl.Lemmas.Table

/-!
This module contains the frame of the update of the objects on a manifest: what it can do to rows that
none of the entries is about.
-/

namespace Rpstir.Sqhl

open List Option

variable {env : Env}

inductive UnderCert (w : World) (d : CertRow) : String → String → Prop where
  | self : UnderCert w d d.ski d.subject
  | child {r : CertRow} {ski subject : String} (hr : r ∈ w.cert) (h : UnderCert w d ski subject)
      (hnames : (Row.cert r).Names ski subject) : UnderCert w d r.ski r.subject

def marked (flags : Flags) (nochain para : Bool) : Flags :=
  (if para then flags &&& ~~~(Flags.hasparacert ||| Flags.istarget) else flags)
    ||| (if nochain then Flags.nochain else 0#32)

theorem marked_false (flags : Flags) : marked flags false false = flags := by
  simp [marked]

theorem validFlags_marked (flags : Flags) (nochain para : Bool)
    : validFlags (marked flags nochain para) false = marked flags true para := by
  cases nochain <;> simp [validFlags, marked, BitVec.or_assoc]

theorem clearPara_marked (flags : Flags) (nochain para : Bool)
    : marked flags nochain para &&& ~~~(Flags.hasparacert ||| Flags.istarget)
      = marked flags nochain true := by
  have hdisj : Flags.nochain &&& ~~~(Flags.hasparacert ||| Flags.istarget) = Flags.nochain := by
    decide
  unfold marked
  rw [BitVec.and_or_distrib_right]
  congr 1
  . cases para <;> simp [BitVec.and_assoc]
  . cases nochain <;> simp [hdisj]

def Row.BelowGone (w : World) (gone : CertRow → Prop) (r : Row) : Prop :=
  ∃ d ∈ w.cert, gone d ∧ ∃ ski subject, UnderCert w d ski subject ∧ r.Names ski subject

def Row.SkiGone (w : World) (gone : CertRow → Prop) (r : Row) : Prop :=
  ∃ d ∈ w.cert, gone d ∧ ∃ c, r = .cert c ∧ c.ski = d.ski

def Row.OkFlags (w : World) (gone : CertRow → Prop) (r : Row) (flags : Flags) : Prop :=
  ∃ nochain para, flags = marked r.obj.flags nochain para
    ∧ (nochain = true → r.BelowGone w gone) ∧ (para = true → r.SkiGone w gone)

namespace Row.OkFlags

variable {w : World} {gone : CertRow → Prop} {r : Row} {flags : Flags}

theorem refl (r : Row) : r.OkFlags w gone r.obj.flags :=
  ⟨false, false, (marked_false _).symm, by simp, by simp⟩

theorem mark (h : r.OkFlags w gone flags) (hbelow : r.BelowGone w gone)
    : r.OkFlags w gone (validFlags flags false) := by
  obtain ⟨_, para, rfl, _, hpara⟩ := h
  exact ⟨true, para, validFlags_marked .., fun _ => hbelow, hpara⟩

theorem clear (h : r.OkFlags w gone flags) (hski : r.SkiGone w gone)
    : r.OkFlags w gone (flags &&& ~~~(Flags.hasparacert ||| Flags.istarget)) := by
  obtain ⟨nochain, _, rfl, hnochain, _⟩ := h
  exact ⟨nochain, true, clearPara_marked .., hnochain, fun _ => hski⟩

end Row.OkFlags

def Row.Becomes (w : World) (keep : Row → Prop) (gone : CertRow → Prop) (r r' : Row) : Prop :=
  ∃ flags hash, r' = r.withObj { r.obj with flags := flags, hash := hash }
    ∧ (flags.valid = true → r.obj.flags.valid = true)
    ∧ (keep r → hash = r.obj.hash ∧ r.OkFlags w gone flags)

namespace Row.Becomes

variable {w : World} {keep : Row → Prop} {gone : CertRow → Prop} {r r' : Row}

theorem refl (r : Row) : r.Becomes w keep gone r :=
  ⟨r.obj.flags, r.obj.hash, (withObj_obj r).symm, id, fun _ => ⟨rfl, .refl r⟩⟩

section

variable (h : r.Becomes w keep gone r')

include h

theorem localId : r'.obj.localId = r.obj.localId := by
  obtain ⟨_, _, rfl, _⟩ := h
  rw [obj_withObj]

theorem filename : r'.obj.filename = r.obj.filename := by
  obtain ⟨_, _, rfl, _⟩ := h
  rw [obj_withObj]

theorem names {ski subject : String}
    : r'.Names ski subject ↔ r.Names ski subject := by
  obtain ⟨_, _, rfl, _⟩ := h
  cases r <;> rfl

theorem okFlags (hkeep : keep r)
    : r.OkFlags w gone r'.obj.flags := by
  obtain ⟨flags, _, rfl, _, h⟩ := h
  rw [obj_withObj]
  exact (h hkeep).2

theorem valid (hvalid : r'.obj.flags.valid = true)
    : r.obj.flags.valid = true := by
  obtain ⟨flags, _, rfl, h, _⟩ := h
  rw [obj_withObj] at hvalid
  exact h hvalid

variable {flags : Flags}

theorem withFlags (hvalid : flags.valid = true → r.obj.flags.valid = true)
    (hflags : keep r → r.OkFlags w gone flags)
    : r.Becomes w keep gone (r'.withObj { r'.obj with flags := flags }) := by
  obtain ⟨_, hash, rfl, _, h⟩ := h
  refine ⟨flags, hash, ?_, hvalid, fun hkeep => ⟨(h hkeep).1, hflags hkeep⟩⟩
  rw [withObj_withObj, obj_withObj]

theorem other (hkeep : ¬keep r) (hvalid : flags.valid = true → r.obj.flags.valid = true)
    (hash : StoredHash)
    : r.Becomes w keep gone (r'.withObj { r'.obj with flags := flags, hash := hash }) := by
  obtain ⟨_, _, rfl, _⟩ := h
  refine ⟨flags, hash, ?_, hvalid, fun hk => absurd hk hkeep⟩
  rw [withObj_withObj, obj_withObj]

end

end Row.Becomes

structure Frame (keep : Row → Prop) (gone : CertRow → Prop) (w₀ w : World) : Prop where
  dir : w.dir = w₀.dir
  fs : w.fs = w₀.fs
  lists : ∀ tab, ∃ l, l.Sublist (w₀.rows tab)
    ∧ List.Forall₂ (Row.Becomes w₀ keep gone) l (w.rows tab)
  forth : ∀ tab, ∀ r ∈ w₀.rows tab, keep r → ∃ r' ∈ w.rows tab, r.Becomes w₀ keep gone r'

namespace Frame

variable {keep : Row → Prop} {gone : CertRow → Prop} {w₀ w w' : World}

variable {tab : Table} {d : CertRow} {fuel : Nat} {data : PropData}

theorem back (h : Frame keep gone w₀ w) (tab : Table) (r' : Row) (hr' : r' ∈ w.rows tab)
    : ∃ r ∈ w₀.rows tab, r.Becomes w₀ keep gone r' := by
  obtain ⟨_, hsub, hrel⟩ := h.lists tab
  obtain ⟨r, hr, hbecomes⟩ := hrel.exists_of_mem_right hr'
  exact ⟨r, hsub.subset hr, hbecomes⟩

theorem uniqueLids (h : Frame keep gone w₀ w) (hids : w₀.UniqueLids) : w.UniqueLids := by
  intro tab
  obtain ⟨l, hsub, hrel⟩ := h.lists tab
  have hlids : (w.objs tab).map Obj.localId = l.map fun r => r.obj.localId := by
    rw [← World.map_obj_rows, List.map_map]
    symm
    apply forall₂_eq_eq_eq ▸ forall₂_map_left_iff.mpr (forall₂_map_right_iff.mpr _)
    exact hrel.imp fun _ _ hbecomes => hbecomes.localId.symm
  have hnodup := hids tab
  rw [← World.map_obj_rows, List.map_map] at hnodup
  rw [hlids]
  exact hnodup.sublist (hsub.map _)

theorem refl (w₀ : World) : Frame keep gone w₀ w₀ where
  dir := rfl
  fs := rfl
  lists := fun _ => ⟨_, .refl _, forall₂_same.mpr fun r _ => .refl r⟩
  forth := fun _ r hr _ => ⟨r, hr, .refl r⟩

theorem sameDb (h : Frame keep gone w₀ w) (hsame : SameDb w w') : Frame keep gone w₀ w' where
  dir := hsame.dir.trans h.dir
  fs := hsame.fs.trans h.fs
  lists := by
    intro tab
    rw [hsame.rows]
    exact h.lists tab
  forth := by
    intro tab
    rw [hsame.rows]
    exact h.forth tab

variable {rows : List CertRow} {file : String} {o : Obj} {lid : Nat} {r : Row} {row : CertRow}

theorem update (h : Frame keep gone w₀ w) {f : Obj → Obj}
    (hf : ∀ r ∈ w₀.rows tab, r.obj.localId = lid → ∀ r' ∈ w.rows tab, r.Becomes w₀ keep gone r'
      → r.Becomes w₀ keep gone (r'.withObj (f r'.obj)))
    : Frame keep gone w₀ (w.updateByLid tab lid f) := by
  have hrow : ∀ r ∈ w₀.rows tab, ∀ r' ∈ w.rows tab, r.Becomes w₀ keep gone r'
      → r.Becomes w₀ keep gone (if r'.obj.localId = lid then r'.withObj (f r'.obj) else r') := by
    intro r hr r' hr' hbecomes
    split
    . next hid => exact hf r hr (hbecomes.localId.symm.trans hid) r' hr' hbecomes
    . exact hbecomes
  constructor
  . rw [← h.dir]
    cases tab <;> rfl
  . rw [← h.fs]
    cases tab <;> rfl
  . intro tab'
    obtain ⟨l, hsub, hrel⟩ := h.lists tab'
    by_cases htab : tab' = tab
    . subst htab
      rw [World.rows_updateByLid]
      refine ⟨l, hsub, forall₂_map_right_iff.mpr (hrel.imp_mem ?_)⟩
      exact fun r hr r' hr' => hrow r (hsub.subset hr) r' hr'
    . rw [World.rows_updateByLid_of_ne w htab]
      exact ⟨l, hsub, hrel⟩
  intro tab' r hr hkeep
  obtain ⟨r', hr', hbecomes⟩ := h.forth tab' r hr hkeep
  by_cases htab : tab' = tab
  . subst htab
    rw [World.rows_updateByLid]
    exact ⟨_, List.mem_map_of_mem hr', hrow r hr r' hr' hbecomes⟩
  . rw [World.rows_updateByLid_of_ne w htab]
    exact ⟨r', hr', hbecomes⟩

theorem delete (h : Frame keep gone w₀ w) {p : Obj → Bool}
    (hp : ∀ r ∈ w₀.rows tab, ∀ r', r.Becomes w₀ keep gone r' → p r'.obj = true → ¬keep r)
    : Frame keep gone w₀ (w.deleteWhere tab p) := by
  constructor
  . rw [← h.dir]
    cases tab <;> rfl
  . rw [← h.fs]
    cases tab <;> rfl
  . intro tab'
    obtain ⟨l, hsub, hrel⟩ := h.lists tab'
    by_cases htab : tab' = tab
    . subst htab
      obtain ⟨l1, hsub1, hrel1⟩ := hrel.exists_filter_right fun r => !p r.obj
      rw [World.rows_deleteWhere]
      exact ⟨l1, hsub1.trans hsub, hrel1⟩
    . rw [World.rows_deleteWhere_of_ne w htab]
      exact ⟨l, hsub, hrel⟩
  intro tab' r hr hkeep
  obtain ⟨r', hr', hbecomes⟩ := h.forth tab' r hr hkeep
  by_cases htab : tab' = tab
  . subst htab
    rw [World.rows_deleteWhere]
    refine ⟨r', mem_filter.mpr ⟨hr', ?_⟩, hbecomes⟩
    by_contra hdelete
    exact hp r hr r' hbecomes (by simpa using hdelete) hkeep
  . rw [World.rows_deleteWhere_of_ne w htab]
    exact ⟨r', hr', hbecomes⟩

theorem becomes (hids : w₀.UniqueLids) (h : Frame keep gone w₀ w) {r' : Row} (hr' : r' ∈ w.rows tab)
    (hr : r ∈ w₀.rows tab) (hid : r.obj.localId = r'.obj.localId) : r.Becomes w₀ keep gone r' := by
  obtain ⟨_, hr0, hbecomes⟩ := h.back tab r' hr'
  rw [hids.eq hr hr0 (hid.trans hbecomes.localId)]
  exact hbecomes

theorem mark (h : Frame keep gone w₀ w) {prevFlags : Flags}
    (hflags : ∀ r ∈ w₀.rows tab, r.obj.localId = lid
      → r.BelowGone w₀ gone ∧ (keep r → r.OkFlags w₀ gone prevFlags))
    : Frame keep gone w₀ (updateValidFlags w tab lid prevFlags false) := by
  apply h.update
  intro r hr hid _ _ hbecomes
  obtain ⟨hbelow, hok⟩ := hflags r hr hid
  apply hbecomes.withFlags
  . simp [valid_validFlags]
  . exact fun hkeep => (hok hkeep).mark hbelow

section

variable (hids : w₀.UniqueLids) (h : Frame keep gone w₀ w) (hd : d ∈ w₀.cert) (hgone : gone d)

include h hids hd hgone

theorem selected {ski subject : String} (hunder : UnderCert w₀ d ski subject)
    {r' : Row} (hr' : r' ∈ w.rows tab) (hnames : r'.Names ski subject)
    : ∀ r ∈ w₀.rows tab, r.obj.localId = r'.obj.localId
      → r.BelowGone w₀ gone ∧ (keep r → r.OkFlags w₀ gone r'.obj.flags) := by
  intro r hr hid
  have hbecomes := h.becomes hids hr' hr hid
  exact ⟨⟨d, hd, hgone, ski, subject, hunder, hbecomes.names.mp hnames⟩, hbecomes.okFlags⟩

omit h hids hd hgone in
theorem foldl_invalidateObj {α : Type} {obj : α → Obj} {IS AK : α → Option String}
    {l : List α} (hl : ∀ a ∈ l, ∀ r ∈ w₀.rows tab, r.obj.localId = (obj a).localId
      → r.BelowGone w₀ gone ∧ (keep r → r.OkFlags w₀ gone (obj a).flags))
    (h : Frame keep gone w₀ w)
    : Frame keep gone w₀ (l.foldl (fun w a => invalidateObj tab (IS a) (AK a) w (obj a)) w) := by
  refine foldlRecOn (motive := Frame keep gone w₀) _ _ h ?_
  intro w h a ha
  unfold invalidateObj
  split
  . exact h
  . exact h.mark (hl a ha)

theorem invalidateChildObjs (hunder : UnderCert w₀ d data.ski data.subject)
    : Frame keep gone w₀ (invalidateChildObjs w data) := by
  unfold Sqhl.invalidateChildObjs
  dsimp only
  have hroas : Frame keep gone w₀ (invalidateChildRoas w data.ski) := by
    apply h.foldl_invalidateObj
    intro r hr
    simp only [mem_filter, Bool.and_eq_true, decide_eq_true_eq] at hr
    have hmem : Row.roa r ∈ w.rows .roa := List.mem_map_of_mem hr.1
    exact h.selected hids hd hgone hunder hmem hr.2.1
  generalize invalidateChildRoas w data.ski = w at hroas
  have hgbrs : Frame keep gone w₀ (invalidateChildGbrs w data.ski) := by
    apply hroas.foldl_invalidateObj
    intro r hr
    simp only [mem_filter, Bool.and_eq_true, decide_eq_true_eq] at hr
    have hmem : Row.gbr r ∈ w.rows .gbr := List.mem_map_of_mem hr.1
    exact hroas.selected hids hd hgone hunder hmem hr.2.1
  generalize invalidateChildGbrs w data.ski = w at hgbrs
  have hmfts : Frame keep gone w₀ (invalidateChildMfts w data.ski) := by
    apply hgbrs.foldl_invalidateObj
    intro r hr
    simp only [mem_filter, Bool.and_eq_true, decide_eq_true_eq] at hr
    have hmem : Row.manifest r ∈ w.rows .manifest := List.mem_map_of_mem hr.1
    exact hgbrs.selected hids hd hgone hunder hmem hr.2.1
  generalize invalidateChildMfts w data.ski = w at hmfts
  apply hmfts.foldl_invalidateObj
  intro r hr
  simp only [mem_filter, Bool.and_eq_true, decide_eq_true_eq] at hr
  have hmem : Row.crl r ∈ w.rows .crl := List.mem_map_of_mem hr.1
  exact hmfts.selected hids hd hgone hunder hmem hr.2.1

structure OkEntry (keep : Row → Prop) (gone : CertRow → Prop) (w₀ : World) (d : CertRow) (data : PropData)
    : Prop where
  below : ∀ r ∈ w₀.rows .cert, r.obj.localId = data.id → r.BelowGone w₀ gone
  flags : ∀ r ∈ w₀.rows .cert, r.obj.localId = data.id → keep r
    → r.OkFlags w₀ gone data.flags
  under : UnderCert w₀ d data.ski data.subject

theorem okEntry_of_mem_childrenSrch (hunder : UnderCert w₀ d data.ski data.subject) {c : PropData}
    (hc : c ∈ childrenSrch w data false) : OkEntry keep gone w₀ d c := by
  obtain ⟨r', hr', rfl⟩ := List.mem_map.mp hc
  simp only [mem_filter, isChildRow, Bool.and_eq_true, decide_eq_true_eq] at hr'
  have hmem : Row.cert r' ∈ w.rows .cert := List.mem_map_of_mem hr'.1
  have hnames : (Row.cert r').Names data.ski data.subject := ⟨hr'.2.1.1.1, hr'.2.1.2⟩
  have hselected := h.selected hids hd hgone hunder hmem hnames
  refine ⟨fun r hr hid => (hselected r hr hid).1, fun r hr hid => (hselected r hr hid).2, ?_⟩
  obtain ⟨r, hr, hbecomes⟩ := h.back .cert _ hmem
  obtain ⟨r₀, hr0, rfl⟩ := List.mem_map.mp hr
  have hchild : UnderCert w₀ d r₀.ski r₀.subject := .child hr0 hunder (hbecomes.names.mp hnames)
  obtain ⟨_, _, heq, _⟩ := hbecomes
  cases heq
  exact hchild

end

structure LoopInv (keep : Row → Prop) (gone : CertRow → Prop) (w₀ : World) (d : CertRow) (w : World)
    (stack : List PropData) : Prop where
  frame : Frame keep gone w₀ w
  entries : ∀ data ∈ stack, OkEntry keep gone w₀ d data

section

variable (hids : w₀.UniqueLids)

include hids

variable {stack : List PropData}

theorem LoopInv.push (hd : d ∈ w₀.cert) (hgone : gone d) (h : LoopInv keep gone w₀ d w stack)
    (hunder : UnderCert w₀ d data.ski data.subject)
    : LoopInv keep gone w₀ d (Sqhl.invalidateChildObjs w data)
      ((childrenSrch (Sqhl.invalidateChildObjs w data) data false).reverse ++ stack) := by
  have hobjs := h.frame.invalidateChildObjs hids hd hgone hunder
  refine ⟨hobjs, ?_⟩
  intro c hc
  rw [List.mem_append, mem_reverse] at hc
  rcases hc with hc | hc
  . exact hobjs.okEntry_of_mem_childrenSrch hids hd hgone hunder hc
  . exact h.entries c hc

theorem LoopInv.visit (hd : d ∈ w₀.cert) (hgone : gone d)
    (h : LoopInv keep gone w₀ d w (data :: stack)) {doIt : Bool}
    (hvisit : invalidateChildCert w data true = (doIt, w'))
    : LoopInv keep gone w₀ d w'
      (if doIt then (childrenSrch w' data false).reverse ++ stack else stack) := by
  have hdata := h.entries data mem_cons_self
  have hstack : ∀ c ∈ stack, OkEntry keep gone w₀ d c :=
    fun c hc => h.entries c (mem_cons_of_mem _ hc)
  unfold invalidateChildCert at hvisit
  rw [if_pos rfl] at hvisit
  split at hvisit
  . cases hvisit
    exact ⟨h.frame, hstack⟩
  . cases hvisit
    have hmark := h.frame.mark fun r hr hid => ⟨hdata.below r hr hid, hdata.flags r hr hid⟩
    exact LoopInv.push hids hd hgone ⟨hmark, hstack⟩ hdata.under

theorem invalidateChildren (h : Frame keep gone w₀ w) (hd : d ∈ w₀.cert) (hgone : gone d)
    {fuel : Nat} (hinvalidate : invalidateChildren fuel w d.ski d.subject lid = some w')
    : Frame keep gone w₀ w' := by
  obtain ⟨_, doIt, w1, hroot, hloop⟩ := propagate_root hinvalidate
  obtain ⟨rfl, rfl⟩ : true = doIt ∧ _ = w1 := by simpa [invalidateChildCert] using hroot
  generalize hdata : (⟨d.ski, d.subject, 0, lid, "", "", none, none⟩ : PropData) = data at hloop
  have hunder : UnderCert w₀ d data.ski data.subject := by
    rw [← hdata]
    exact .self
  have hstart : LoopInv keep gone w₀ d w [] := ⟨h, fun _ hc => by cases hc⟩
  have hpushed := hstart.push hids hd hgone hunder
  rw [append_nil] at hpushed
  have hend := propagate_invariant
    (fun _ _ _ _ _ hinv hvisit => hinv.visit hids hd hgone (some.inj hvisit)) hpushed hloop
  exact hend.frame

theorem clearParaFlags (h : Frame keep gone w₀ w) (hd : d ∈ w₀.cert) (hgone : gone d)
    : Frame keep gone w₀
      ((findCertByAKI w d.ski).1.foldl clearParaFlags (findCertByAKI w d.ski).2) := by
  have hsame := h.sameDb (.findCertByAKI w d.ski)
  refine foldlRecOn (motive := Frame keep gone w₀) _ _ hsame ?_
  intro _ h1 _ ha
  obtain ⟨_, hr', hski, hid', hflags⟩ := findCertByAKI_ansr ha
  unfold Sqhl.clearParaFlags
  split
  . apply h1.update
    intro _ hr hid _ _ hbecomes
    have hrow := h.becomes hids (World.mem_rows_cert.mpr hr') hr (hid.trans hid')
    apply hbecomes.withFlags
    . intro hvalid
      rw [hflags, valid_clearPara] at hvalid
      exact hrow.valid hvalid
    intro hkeep
    rw [hflags]
    apply (hrow.okFlags hkeep).clear
    refine ⟨d, hd, hgone, ?_⟩
    obtain ⟨r₀, _, rfl⟩ := List.mem_map.mp hr
    obtain ⟨_, _, heq, _⟩ := hrow
    cases heq
    exact ⟨r₀, rfl, hski⟩
  . exact h1

theorem revokeCertAndChildren (h : Frame keep gone w₀ w) {d : CertRow} (hd : d ∈ w₀.cert)
    (hkeep : ¬keep (.cert d)) (hgone : gone d)
    (hrow : (Row.cert d).Becomes w₀ keep gone (.cert row))
    (hrevoke : revokeCertAndChildren fuel w row = some w') : Frame keep gone w₀ w' := by
  have hdelete : Frame keep gone w₀ (w.deletebylid .cert row.localId) := by
    apply h.delete
    intro r hr r' hbecomes hid
    have hid' : r'.obj.localId = row.localId := by simpa using hid
    have heq : r = .cert d := by
      apply hids.eq hr (World.mem_rows_cert.mpr hd)
      rw [← hbecomes.localId, hid']
      exact hrow.localId
    rw [heq]
    exact hkeep
  have hkey : row.ski = d.ski ∧ row.subject = d.subject := by
    obtain ⟨_, _, heq, _⟩ := hrow
    cases heq
    exact ⟨rfl, rfl⟩
  unfold Sqhl.revokeCertAndChildren at hrevoke
  rw [hkey.1, hkey.2] at hrevoke
  refine invalidateChildren hids ?_ hd hgone hrevoke
  split
  . exact hdelete.clearParaFlags hids hd hgone
  . exact hdelete

end

theorem test_onman_marked (flags : Flags) (nochain para : Bool)
    : (marked flags nochain para).test Flags.onman false = flags.test Flags.onman false := by
  rw [Flags.test_false_eq_not_test_true, Flags.test_false_eq_not_test_true, Flags.test_onman,
    Flags.test_onman]
  cases nochain <;> cases para
    <;> simp [marked, Flags.hasparacert, Flags.istarget, Flags.nochain]

theorem manifestObj_eq_some (h : Sqhl.manifestObj w tab file = some o)
    : o ∈ w.objs tab ∧ o.filename = file ∧ o.flags.test Flags.onman false = true := by
  have hmem := mem_of_getLast? h
  simpa only [mem_filter, Bool.and_eq_true, decide_eq_true_eq] using hmem

theorem manifestObj (h : Frame keep gone w₀ w)
    (hnames : ∀ r ∈ w₀.rows tab, r.obj.filename = file → r.obj.flags.test Flags.onman false = true
      → ¬keep r) (ho : manifestObj w tab file = some o)
    : ∃ r ∈ w₀.rows tab, r.obj.localId = o.localId ∧ r.obj.filename = file ∧ ¬keep r := by
  have hmem := mem_of_getLast? ho
  simp only [mem_filter, Bool.and_eq_true, decide_eq_true_eq, ← World.map_obj_rows,
    List.mem_map] at hmem
  obtain ⟨⟨r', hr', rfl⟩, hname, honman⟩ := hmem
  obtain ⟨r, hr, hbecomes⟩ := h.back tab r' hr'
  have hfilename := hbecomes.filename.symm.trans hname
  refine ⟨r, hr, hbecomes.localId.symm, hfilename, ?_⟩
  intro hkeep
  obtain ⟨_, _, hflags, _⟩ := hbecomes.okFlags hkeep
  rw [hflags, test_onman_marked] at honman
  exact hnames r hr hfilename honman hkeep

theorem revokeRows (hids : w₀.UniqueLids) (h : Frame keep gone w₀ w)
    (hrows : ∀ row ∈ rows, ∃ d ∈ w₀.cert, ¬keep (.cert d) ∧ gone d
      ∧ (Row.cert d).Becomes w₀ keep gone (.cert row))
    (hrevoke : rows.foldlM (Sqhl.revokeCertAndChildren fuel) w = some w') : Frame keep gone w₀ w' := by
  induction rows generalizing w with
  | nil =>
    cases hrevoke
    exact h
  | cons row rows ih =>
    obtain ⟨_, hrow, hrevoke⟩ := bind_eq_some_iff.mp hrevoke
    obtain ⟨d, hd, hkeep, hgone, hbecomes⟩ := hrows row mem_cons_self
    apply ih (h.revokeCertAndChildren hids hd hkeep hgone hbecomes hrow) _ hrevoke
    exact fun row hrow => hrows row (mem_cons_of_mem _ hrow)

theorem not_mem_of_revokeRows (env : Env)
    (hrevoke : (row :: rows).foldlM (Sqhl.revokeCertAndChildren fuel) w = some w')
    : ∀ r ∈ w'.cert, r.localId ≠ row.localId := by
  obtain ⟨_, hrow, hrevoke⟩ := bind_eq_some_iff.mp hrevoke
  have hchanges : Changes env (w.deletebylid .cert row.localId) w' :=
    (Changes.after_deletebylid hrow).trans
      (Changes.foldlM (fun _ _ _ _ => .revokeCertAndChildren) hrevoke)
  intro r hr hid
  have hmem := hchanges.ids_sublist.subset (List.mem_map_of_mem hr)
  obtain ⟨_, hr1, hid1⟩ := List.mem_map.mp hmem
  have hne := (mem_filter.mp hr1).2
  simp [hid1, hid] at hne

theorem deleteBadHash (env : Env) (hids : w₀.UniqueLids) (h : Frame keep gone w₀ w)
    (hr : r ∈ w₀.rows tab) (hkeep : ¬keep r)
    (hdelete : deleteBadHash fuel w tab r.obj.localId = some w')
    (hgone : ∀ d, r = .cert d → (∀ r' ∈ w'.cert, r'.localId ≠ d.localId) → gone d)
    : Frame keep gone w₀ w' := by
  unfold Sqhl.deleteBadHash at hdelete
  split at hdelete
  . obtain ⟨d, hd, rfl⟩ := List.mem_map.mp hr
    have hrows : ∀ row ∈ w.cert.filter fun row => row.localId = (Row.cert d).obj.localId,
        row.localId = d.localId ∧ (Row.cert d).Becomes w₀ keep gone (.cert row) := by
      intro row hrow
      rw [mem_filter, decide_eq_true_eq] at hrow
      exact ⟨hrow.2, h.becomes hids (World.mem_rows_cert.mpr hrow.1) hr hrow.2.symm⟩
    generalize (w.cert.filter fun row => row.localId = (Row.cert d).obj.localId) = rows
      at hdelete hrows
    cases rows with
    | nil =>
      cases hdelete
      exact h
    | cons row =>
      have hout := not_mem_of_revokeRows env hdelete
      rw [(hrows row mem_cons_self).1] at hout
      apply h.revokeRows hids _ hdelete
      exact fun row hrow => ⟨d, hd, hkeep, hgone d rfl hout, (hrows row hrow).2⟩
  cases hdelete
  apply h.delete
  intro _ hr1 r' hbecomes hid
  have hid' : r'.obj.localId = r.obj.localId := by simpa using hid
  rw [hids.eq hr1 hr (hbecomes.localId.symm.trans hid')]
  exact hkeep

section

variable (hids : w₀.UniqueLids) (h : Frame keep gone w₀ w)

include hids h

theorem setOnman (ho : o ∈ w.objs tab) (honman : o.flags.test Flags.onman false = true)
    (hkeep : ∀ r ∈ w₀.rows tab, r.obj.localId = o.localId → ¬keep r) {hash : List UInt8}
    : Frame keep gone w₀ (setOnman w tab o hash) := by
  rw [← World.map_obj_rows] at ho
  obtain ⟨r1, hr1, rfl⟩ := List.mem_map.mp ho
  apply h.update
  intro r hr hid r' hr' hbecomes
  have heq : r' = r1 := (h.uniqueLids hids).eq hr' hr1 (hbecomes.localId.trans hid)
  subst heq
  apply hbecomes.other (hkeep r hr hid)
  rw [Flags.add_onman _ honman, valid_onman]
  exact hbecomes.valid

theorem updateManifestObj {fah : FileAndHash}
    (hnames : ∀ tab, manifestTable fah.file = some tab → ∀ r ∈ w₀.rows tab,
      r.obj.filename = fah.file → r.obj.flags.test Flags.onman false = true → ¬keep r) (hupdate : updateManifestObj env fuel w fah = some w')
    (hgone : ∀ d ∈ w₀.cert, ¬keep (.cert d) → d.filename = fah.file
      → (∀ r' ∈ w'.cert, r'.localId ≠ d.localId) → gone d)
    : Frame keep gone w₀ w' := by
  unfold Sqhl.updateManifestObj at hupdate
  split at hupdate
  . cases hupdate
    exact h
  next tab htab =>
  split at hupdate
  . cases hupdate
    exact h
  next ho =>
  obtain ⟨r, hr, hid, hname, hkeep⟩ := h.manifestObj (hnames tab htab) ho
  split at hupdate
  . cases hupdate
    exact h
  split at hupdate
  . cases hupdate
    exact h
  split at hupdate
  . cases hupdate
    refine h.setOnman hids (manifestObj_eq_some ho).1 (manifestObj_eq_some ho).2.2 ?_
    intro _ hr1 hid1
    rw [hids.eq hr1 hr (hid1.trans hid.symm)]
    exact hkeep
  rw [← hid] at hupdate
  apply h.deleteBadHash env hids hr hkeep hupdate
  rintro d rfl hout
  have hd : d ∈ w₀.cert := by
    cases tab with
    | cert => exact World.mem_rows_cert.mp hr
    | crl
    | roa
    | manifest
    | gbr => simp [World.rows] at hr
  exact hgone d hd hkeep hname hout

theorem updateManifestObjs {fileList : List FileAndHash}
    (hnames : ∀ fah ∈ fileList, ∀ tab, manifestTable fah.file = some tab → ∀ r ∈ w₀.rows tab,
      r.obj.filename = fah.file → r.obj.flags.test Flags.onman false = true → ¬keep r) {sta : Except Err Unit}
    (hupdate : updateManifestObjs env fuel w fileList = some (sta, w'))
    (hgone : ∀ d ∈ w₀.cert, ¬keep (.cert d) → (∃ fah ∈ fileList, d.filename = fah.file)
      → (∀ r' ∈ w'.cert, r'.localId ≠ d.localId) → gone d)
    : Frame keep gone w₀ w' := by
  induction fileList generalizing w with
  | nil =>
    cases hupdate
    exact h
  | cons fah _ ih =>
    unfold Sqhl.updateManifestObjs at hupdate
    split at hupdate
    . cases hupdate
      exact h
    obtain ⟨w1, hobj, hupdate⟩ := bind_eq_some_iff.mp hupdate
    have hchanges : Changes env w1 w' := .updateManifestObjs hupdate
    refine ih (h.updateManifestObj hids (hnames fah mem_cons_self) hobj ?_) ?_ hupdate ?_
    . intro d hd hkeep hname hout
      apply hgone d hd hkeep ⟨fah, mem_cons_self, hname⟩
      intro r' hr' hid
      have hmem := hchanges.ids_sublist.subset (List.mem_map_of_mem hr')
      obtain ⟨r1, hr1, hid1⟩ := List.mem_map.mp hmem
      exact hout r1 hr1 (hid1.trans hid)
    . exact fun fah hfah => hnames fah (mem_cons_of_mem _ hfah)
    . intro d hd hkeep hlisted hout
      obtain ⟨fah', hfah', hname⟩ := hlisted
      exact hgone d hd hkeep ⟨fah', mem_cons_of_mem _ hfah', hname⟩ hout

end

end Frame

end Rpstir.Sqhl
