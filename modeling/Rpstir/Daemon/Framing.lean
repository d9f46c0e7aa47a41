import Rpstir.Daemon.Lemmas.Framing
import Rpstir.Daemon.Lemmas.Ownership

/-!
This module contains the order of the PDUs that the connection threads send, next to any number of database
threads, each of which works on a part of an answer at a time.
-/

namespace Rpstir.Daemon

open List Option

open Wire

variable {ι κ : Type}

variable {q : DbQueryState} {r : RequestRef ι} {a : Rtr.Answer}

namespace DbQueryState

def Framed : DbQueryState → Prop
  | serialQuery q => q.Framed
  | resetQuery q => q.Framed

theorem framed_start (query : DbQuery) : (start query).Framed := by
  cases query with
  | serialQuery serial => exact Rtr.SerialQuery.framed_start serial
  | resetQuery => exact Rtr.Query.framed_start

theorem Framed.step {q q' : DbQueryState} (h : q.Framed) {e : DbEnv} (hstep : q.step e = some q')
    : q'.Framed ∧ q.sent <+: q'.sent := by
  cases q with
  | serialQuery =>
    rcases map_eq_some_iff.mp hstep with ⟨q', hq', rfl⟩
    exact Rtr.SerialQuery.Framed.step h hq'
  | resetQuery =>
    rcases map_eq_some_iff.mp hstep with ⟨q', hq', rfl⟩
    exact Rtr.Query.Framed.step h hq'

structure Between (q : DbQueryState) (a : Rtr.Answer) : Prop where
  framed : q.Framed
  run : Rtr.Answer.fresh.run q.sent = some a

theorem Framed.run_of_isDone (h : q.Framed) (hdone : q.isDone = true)
    : Rtr.Answer.fresh.run q.sent = some .closed := by
  cases q with
  | serialQuery q =>
    have hpc : q.pc = .done := by simpa [isDone] using hdone
    simpa [sent, Rtr.SerialQuery.made, Rtr.SerialQuery.answer, hpc] using Rtr.SerialQuery.Framed.run h
  | resetQuery q =>
    have hpc : q.pc = .done := by simpa [isDone] using hdone
    have hrun : Rtr.Answer.fresh.run q.sent = some q.answer := h
    simpa [sent, Rtr.Query.answer, hpc] using hrun

theorem Framed.between (h : q.Framed) (hbetween : q.betweenCalls = true) : ∃ a, q.Between a := by
  cases q with
  | serialQuery q =>
    have hpc : q.pc = .getNext := by simpa [betweenCalls] using hbetween
    refine ⟨q.answer, h, ?_⟩
    simpa [sent, Rtr.SerialQuery.made, hpc] using Rtr.SerialQuery.Framed.run h
  | resetQuery q => exact ⟨q.answer, h, h⟩

end DbQueryState

namespace DbPc

def Serves (a : Rtr.Answer) : DbPc ι → Prop
  | serviceRequest _ none => a = .fresh
  | serviceRequest _ (some q) => q.Between a
  | query _ q _ numSent =>
    q.Framed ∧ numSent ≤ q.sent.length ∧ Rtr.Answer.fresh.run (q.sent.take numSent) = some a
  | sendResponse _ pdus none => ∃ l, pdus = List.map fillPdu l ∧ a.run l = some .closed
  | sendResponse _ pdus (some q) => ∃ l a', pdus = List.map fillPdu l ∧ a.run l = some a' ∧ q.Between a'
  | postResponse _ (some q) => q.Between a
  | bagAdd rq => rq.queryState.Between a
  | _ => True

theorem serves_afterStatement {q' : DbQueryState} {starting : Bool} {numSent : Nat}
    (h : (query r q starting numSent).Serves a) {e : DbEnv} (hstep : q.step e = some q')
    : (afterStatement r starting numSent q').Serves a := by
  rcases h with ⟨hframed, hle, hrun⟩
  rcases hframed.step hstep with ⟨hframed', _, hmore⟩
  -- What was sent before this call is the same after the step.
  have htake : q'.sent.take numSent = q.sent.take numSent := by
    rw [← hmore, take_append_of_le_length hle]
  have hdrop {a' : Rtr.Answer} (hrun' : Rtr.Answer.fresh.run q'.sent = some a')
      : a.run (q'.sent.drop numSent) = some a' := by
    rw [← Rtr.Answer.run_append_of_run hrun, ← htake, take_append_drop]
    exact hrun'
  unfold afterStatement
  split
  . next hdone => exact ⟨_, rfl, hdrop (hframed'.run_of_isDone hdone)⟩
  split
  . next hbetween =>
    rw [Bool.and_eq_true] at hbetween
    rcases hframed'.between hbetween.1 with ⟨a', hbetween⟩
    exact ⟨_, a', rfl, hdrop hbetween.run, hbetween⟩
  refine ⟨hframed', ?_, ?_⟩
  . rw [← hmore, length_append]
    omega
  . rw [htake]
    exact hrun

end DbPc

namespace System

structure Supplies (s : System ι κ) (i : ι) (a : Rtr.Answer) : Prop where
  queue : ∀ r ∈ s.requestQueue, r.cxn = i → a = .fresh
  bag : ∀ rq ∈ s.currentlyProcessing, rq.request.cxn = i → rq.queryState.Between a
  threads : ∀ k r, (s.threads k).working = some r → r.cxn = i → (s.threads k).Serves a

def Framed (s : System ι κ) : Prop :=
  ∀ i, ∃ a, (s.cxns i).Framed a ∧
    ((s.cxns i).pc.live = true → (s.cxns i).state = .responding → s.Supplies i a)

def AnswersLater (s : System ι κ) : Event ι κ → Prop
  | .cxn i .step => ∀ q ∈ (s.cxns i).pc.handled, (s.cxns i).AnswersLater q
  | _ => True

instance (s : System ι κ) : (ev : Event ι κ) → Decidable (s.AnswersLater ev)
  | .cxn i .step => inferInstanceAs (Decidable (∀ q ∈ (s.cxns i).pc.handled, _))
  | .cxn _ .timeout | .cxn _ (.read _) | .cxn _ (.write _) | .cxn _ (.check _ _ _) | .cxn _ .abort
  | .arrive _ _ | .close _ | .select _ | .post _ | .db _ _ => .isTrue trivial

theorem framed_init (cxns : ι → CacheState × Nat) : (init cxns : System ι κ).Framed := by
  intro _
  refine ⟨.fresh, ⟨.idle 0, rfl, fun _ => ⟨rfl, .inl ⟨0, rfl, rfl, rfl, ?_, fun _ => rfl⟩⟩⟩, ?_⟩
  . constructor <;> simp [init, Cxn.init, CxnPc.Numbered]
  . intro _ _
    contradiction

variable [DecidableEq ι] [DecidableEq κ]

variable {s t s' : System ι κ} {k : κ} {pc : DbPc ι} {i : ι} {c : Cxn}

omit [DecidableEq ι] in
theorem Supplies.setThread (h : s.Supplies i a) (hthreads : t.threads = s.threads)
    (hqueue : ∀ r ∈ t.requestQueue, r ∈ s.requestQueue)
    (hbag : ∀ rq ∈ t.currentlyProcessing, rq ∈ s.currentlyProcessing ∨
      (rq.request.cxn = i → rq.queryState.Between a))
    (hpc : ∀ r, pc.working = some r → r.cxn = i → pc.Serves a)
    : (t.setThread k pc).Supplies i a := by
  constructor
  . intro r hr
    exact h.queue r (hqueue r hr)
  . intro rq hrq
    rcases hbag rq hrq with hold | hnew
    . exact h.bag rq hold
    . exact hnew
  intro l r
  by_cases hlk : l = k
  . rw [hlk, setThread_threads_self]
    exact hpc r
  . rw [setThread_threads_of_ne _ _ hlk, hthreads]
    exact h.threads l r

omit [DecidableEq ι] in
theorem Framed.setThread (h : s.Framed) (hcxns : t.cxns = s.cxns) (hthreads : t.threads = s.threads)
    (hqueue : ∀ r ∈ t.requestQueue, r ∈ s.requestQueue)
    (hbag : ∀ i a, s.Supplies i a → ∀ rq ∈ t.currentlyProcessing, rq ∈ s.currentlyProcessing ∨
      (rq.request.cxn = i → rq.queryState.Between a))
    (hpc : ∀ i a, s.Supplies i a → (s.cxns i).request.cancelRequest = false →
      ∀ r, pc.working = some r → r.cxn = i → pc.Serves a) : (t.setThread k pc).Framed := by
  intro i
  rcases h i with ⟨a, hframed, hsupplies⟩
  change ∃ a, (t.cxns i).Framed a ∧ _
  refine ⟨a, by rw [hcxns]; exact hframed, ?_⟩
  intro hlive hstate
  change (t.cxns i).pc.live = true at hlive
  change (t.cxns i).state = .responding at hstate
  rw [hcxns] at hlive hstate
  have hsupplies := hsupplies hlive hstate
  rcases hframed with ⟨_, -, hcancel⟩
  exact hsupplies.setThread hthreads hqueue (hbag i a hsupplies) (hpc i a hsupplies (hcancel hlive).1)

omit [DecidableEq κ] in
theorem Framed.setCxn (h : s.Framed) (hframing : c.framing = (s.cxns i).framing)
    (hpc : c.pc = (s.cxns i).pc) : (s.setCxn i c).Framed := by
  intro j
  rcases h j with ⟨a, hframed, hsupplies⟩
  have hsupplies' (hlive : (s.cxns j).pc.live = true) (hstate : (s.cxns j).state = .responding)
      : (s.setCxn i c).Supplies j a :=
    ⟨(hsupplies hlive hstate).queue, (hsupplies hlive hstate).bag, (hsupplies hlive hstate).threads⟩
  by_cases hij : j = i
  . rw [hij] at hframed hsupplies' ⊢
    rw [setCxn_cxns_self, hpc]
    refine ⟨a, hframed.congr hframing hpc, fun hlive hstate => hsupplies' hlive ?_⟩
    have hstate' : c.state = (s.cxns i).state := congrArg (·.2.1) hframing
    rw [← hstate']
    exact hstate
  . rw [setCxn_cxns_of_ne _ _ hij]
    exact ⟨a, hframed, hsupplies'⟩

theorem Framed.sendResponse [Fintype κ] (h : s.Framed) (howned : s.Owned) {pdus : List Pdu}
    {queryState : Option DbQueryState} (hpc : s.threads k = .sendResponse r pdus queryState)
    : (s.respond k r pdus queryState).Framed := by
  have hworking : (s.threads k).working = some r := by rw [hpc]; rfl
  have hworking' {r' : RequestRef ι} (hr' : (DbPc.postResponse r queryState).working = some r') : r' = r := by
    cases queryState with
    | none => contradiction
    | some => exact (some.inj hr').symm
  intro i
  rcases h i with ⟨a, hframed, hsupplies⟩
  by_cases hi : i = r.cxn
  . rw [hi] at hframed hsupplies ⊢
    have hcxn : (s.respond k r pdus queryState).cxns r.cxn
        = (s.cxns r.cxn).pushResponse ⟨pdus, queryState.isNone⟩ :=
      setCxn_cxns_self _ _ _
    rw [hcxn]
    by_cases hanswering : (s.cxns r.cxn).pc.live = true ∧ (s.cxns r.cxn).state = .responding
    . have hserves := (hsupplies hanswering.1 hanswering.2).threads k r hworking rfl
      rw [hpc] at hserves
      have hsole := howned.unreferenced hworking
      have hset (a' : Rtr.Answer) (hserves' : (DbPc.postResponse r queryState).Serves a')
          : (s.respond k r pdus queryState).Supplies r.cxn a' := by
        constructor
        . intro r' hr' hi'
          exact absurd hi' (hsole.queue r' hr')
        . intro rq hrq hi'
          exact absurd hi' (hsole.bag rq hrq)
        intro l r' hr' hi'
        by_cases hlk : l = k
        . rw [hlk, setThread_threads_self]
          exact hserves'
        . rw [setThread_threads_of_ne _ _ hlk] at hr'
          refine absurd hi' (hsole.threads l r' ?_)
          rw [setThread_threads_of_ne _ _ hlk]
          exact hr'
      cases queryState with
      | none =>
        rcases hserves with ⟨l, rfl, hrun⟩
        exact ⟨.closed, hframed.pushResponse hrun (fun _ => rfl), fun _ _ => hset _ trivial⟩
      | some =>
        rcases hserves with ⟨l, a', rfl, hrun, hbetween⟩
        exact ⟨a', hframed.pushResponse hrun (by simp), fun _ _ => hset _ hbetween⟩
    . exact ⟨a, hframed.pushResponse_of_not hanswering _,
        fun hlive hstate => absurd ⟨hlive, hstate⟩ hanswering⟩
  have hcxn : (s.respond k r pdus queryState).cxns i = s.cxns i :=
    setCxn_cxns_of_ne _ _ hi
  rw [hcxn]
  refine ⟨a, hframed, ?_⟩
  intro hlive hstate
  refine (hsupplies hlive hstate).setThread (t := s.setCxn r.cxn _) rfl (fun _ hr => hr) (fun _ hrq => .inl hrq) ?_
  intro r' hr' hi'
  rw [hworking' hr'] at hi'
  exact absurd hi'.symm hi

theorem Framed.db_step [Fintype κ] (h : s.Framed) (howned : s.Owned) (hsteps : s.DbSteps k s')
    : s'.Framed := by
  -- The thread has no request before and after the step.
  have hidle {t : System ι κ} {pc : DbPc ι} (hcxns : t.cxns = s.cxns) (hthreads : t.threads = s.threads)
      (hqueue : t.requestQueue = s.requestQueue)
      (hbag : t.currentlyProcessing = s.currentlyProcessing) (hpc : pc.working = none)
      : (t.setThread k pc).Framed := by
    refine h.setThread hcxns hthreads ?_ ?_ ?_
    . intro r hr
      rwa [hqueue] at hr
    . intro i a _ rq hrq
      rw [hbag] at hrq
      exact .inl hrq
    . intro i a _ _ r hr
      rw [hpc] at hr
      contradiction
  -- The thread goes on with the request that it has.
  have hgo {pc pc' : DbPc ι} {r : RequestRef ι} (hpc : s.threads k = pc) (hworking : pc.working = some r)
      (hworking' : pc'.working = some r)
      (hserves : ∀ a, (s.cxns r.cxn).request.cancelRequest = false → pc.Serves a → pc'.Serves a)
      : (s.setThread k pc').Framed := by
    refine h.setThread rfl rfl (fun _ hr => hr) (fun _ _ _ _ hrq => .inl hrq) ?_
    intro i a hsupplies hcancel r' hr' hi
    rw [hworking', some.injEq] at hr'
    have hold := hsupplies.threads k r (by rw [hpc]; exact hworking) (by rw [hr']; exact hi)
    rw [hpc] at hold
    refine hserves a ?_ hold
    rw [hr', hi]
    exact hcancel
  cases hsteps with
  | wait
  | startIteration
  | endIteration
  | notCancelled
  | noRoom
  | noRequest
  | postDb => exact hidle rfl rfl rfl rfl rfl
  | found _ rq hrq =>
    have hmem := mem_of_getElem? hrq
    refine h.setThread rfl rfl (fun _ hr => hr) ?_ ?_
    . intro i a _ rq' hrq'
      exact .inl (mem_of_mem_eraseIdx hrq')
    . intro i a hsupplies _ r hr hi
      cases hr
      exact hsupplies.bag rq hmem hi
  | popRequest r queue hpc hqueue =>
    refine h.setThread rfl rfl ?_ (fun _ _ _ _ hrq => .inl hrq) ?_
    . intro r' hr'
      rw [hqueue]
      exact mem_cons_of_mem r hr'
    . intro i a hsupplies _ r' hr' hi
      cases hr'
      exact hsupplies.queue r (by rw [hqueue]; exact mem_cons_self) hi
  | cancelled r queryState hpc hcancel =>
    refine hgo hpc rfl rfl ?_
    intro a hnot
    rw [hcancel] at hnot
    contradiction
  | startQuery r hpc =>
    refine hgo hpc rfl rfl ?_
    intro a _ hfresh
    rw [show a = .fresh from hfresh]
    exact ⟨DbQueryState.framed_start _, Nat.zero_le _, rfl⟩
  | resumeQuery r q hpc =>
    refine hgo hpc rfl rfl ?_
    intro a _ hbetween
    refine ⟨hbetween.framed, Nat.le_refl _, ?_⟩
    rw [take_length]
    exact hbetween.run
  | statement r _ q _ _ _ hpc hstep =>
    refine hgo hpc rfl (DbPc.working_afterStatement _ _ _ _) ?_
    intro a _ hserves
    exact DbPc.serves_afterStatement hserves hstep
  | sendResponse r _ queryState hpc => exact h.sendResponse howned hpc
  | postResponse r queryState hpc =>
    have hset : (s.setCxn r.cxn (s.cxns r.cxn).semPost).Framed := h.setCxn rfl rfl
    refine hset.setThread rfl rfl (fun _ hr => hr) (fun _ _ _ _ hrq => .inl hrq) ?_
    intro i a hsupplies _ r' hr' hi
    cases queryState with
    | none => contradiction
    | some q =>
      cases hr'
      have hpc : (s.setCxn r.cxn (s.cxns r.cxn).semPost).threads k = .postResponse r (some q) := hpc
      have hold := hsupplies.threads k r (by rw [hpc]; rfl) hi
      rw [hpc] at hold
      exact hold
  | bagAdd _ rq hpc =>
    refine h.setThread rfl rfl (fun _ hr => hr) ?_ ?_
    . intro i a hsupplies rq' hrq'
      simp only [List.mem_append, mem_cons] at hrq'
      rcases hrq' with hrq' | rfl | hrq'
      . exact .inl (mem_of_mem_take hrq')
      . right
        intro hi
        have hold := hsupplies.threads k rq'.request (by rw [hpc]; rfl) hi
        rw [hpc] at hold
        exact hold
      . exact .inl (mem_of_mem_drop hrq')
    . intro i a _ _ r hr
      contradiction

omit [DecidableEq κ] in
theorem Framed.cxn_step [Fintype κ] (h : s.Framed) (howned : s.Owned) {action : CxnAction}
    {effect : CxnEffect} (hok : s.AnswersLater (.cxn i action))
    (hsteps : (s.cxns i).Steps action c effect) : ((s.setCxn i c).applyEffect i effect).Framed := by
  have hcxns (j : ι) : ((s.setCxn i c).applyEffect i effect).cxns j = (s.setCxn i c).cxns j := by
    cases effect <;> rfl
  intro j
  rw [hcxns]
  rcases h j with ⟨a, hframed, hsupplies⟩
  by_cases hij : j = i
  . rw [hij] at hframed hsupplies ⊢
    rw [setCxn_cxns_self]
    have hinv := (howned i).inv
    have hnil (r : DbResponse) (hr : r ∈ (s.cxns i).pc.response) (hdone : r.isDone = true)
        : (s.cxns i).responseQueue = [] := by
      apply (howned i).queue_nil
      have hle := hinv.released_le
      have hnot : ¬ (s.cxns i).released < (s.cxns i).generation := by
        rw [hinv.released_lt_iff]
        intro hout
        have := hout.2.1 r hr
        simp [hdone] at this
      omega
    have hlater (hstep : action = .step) : ∀ q ∈ (s.cxns i).pc.handled, (s.cxns i).AnswersLater q := by
      rw [hstep] at hok
      exact hok
    have hnew := hframed.steps hinv hnil hlater hsteps
    by_cases hpush : effect = .pushRequest
    . -- A new request, which only the queue knows.
      rw [hpush] at hnew hsteps ⊢
      refine ⟨_, hnew, fun _ _ => ?_⟩
      cases (hsteps.spec hinv).2 with
      | push =>
        have hrefs := (howned i).refs_eq
        have hunref := unreferenced_of_refs (s := s) (i := i) (by omega)
        exact ⟨fun _ _ _ => rfl, fun rq hrq hi => absurd hi (hunref.bag rq hrq),
          fun k r hr hi => absurd hi (hunref.threads k r hr)⟩
    rw [if_neg hpush] at hnew
    refine ⟨a, hnew, ?_⟩
    intro hlive hstate
    rcases hsteps.answering hlive hstate with heffect | ⟨hlive', hstate'⟩
    . exact absurd heffect hpush
    have hold := hsupplies hlive' hstate'
    cases effect with
    | none
    | postDb => exact ⟨hold.queue, hold.bag, hold.threads⟩
    | pushRequest => exact absurd rfl hpush
  rw [setCxn_cxns_of_ne _ _ hij]
  refine ⟨a, hframed, ?_⟩
  intro hlive hstate
  have hold := hsupplies hlive hstate
  cases effect with
  | none
  | postDb => exact ⟨hold.queue, hold.bag, hold.threads⟩
  | pushRequest =>
    refine ⟨?_, hold.bag, hold.threads⟩
    intro r hr hi
    rcases List.mem_append.mp hr with hr | hr
    . exact hold.queue r hr hi
    . rw [mem_singleton.mp hr] at hi
      exact absurd hi.symm hij

theorem Framed.next [Fintype κ] {s s' : System ι κ} (h : s.Framed) (howned : s.Owned) {ev : Event ι κ}
    (hok : s.AnswersLater ev) (hstep : s.next ev = some s') : s'.Framed := by
  cases next_steps hstep with
  | arrive
  | close
  | select
  | post => exact h.setCxn rfl rfl
  | cxn hsteps => exact h.cxn_step howned hok hsteps
  | db hsteps => exact h.db_step howned hsteps

/--
In the runs in which a Serial Query of another session waits for the answer before it, the PDUs that a
thread sends are answers in the order of the queries, and Serial Notify PDUs between them.
-/
theorem answers_framed [Fintype κ] (cxns : ι → CacheState × Nat) {s : System ι κ}
    (hreach : ((lts cxns).restrict AnswersLater).Reachable s) (i : ι)
    : (Frame.run (s.cxns i).sent).isSome = true := by
  have hframed : s.Framed := by
    apply hreach.invariant_restrict
    . intro s hs
      rw [hs]
      exact framed_init cxns
    . intro s _ _ hs h hok hstep
      exact h.next (owned hs) hok hstep
  rcases hframed i with ⟨_, ⟨_, hrun, -⟩, -⟩
  rw [hrun]
  rfl

end System

def queryReceived (query : List UInt8) (reads : List Nat) : List (Event Unit Unit) :=
  [.arrive () query, .select (), .post (), .cxn () .step] ++
    reads.map (fun n => .cxn () (.read (.receive n))) ++
    [.cxn () .step, .cxn () .step, .cxn () (.check 0 0 ⟨false, 0, 0⟩)]

def dbSteps (n : Nat) (update : List Rtr.UpdateRow) : List (Event Unit Unit) :=
  replicate n (.db () ⟨⟨[0], update, [], []⟩, false, none, 0⟩)

def responseSent (n : Nat) : List (Event Unit Unit) :=
  [.cxn () .step, .cxn () (.read .wouldBlock), .cxn () .step] ++
    replicate n (.cxn () (.write 0)) ++
    [.cxn () .step, .cxn () .step, .cxn () (.check 0 0 ⟨false, 0, 0⟩)]

def serialQueryBytes : List UInt8 := [0, 1, 0, 0, 0, 0, 0, 12, 0, 0, 0, 1]

namespace System

theorem answers_framed_serialQuery
    : ∃ s : System Unit Unit,
        ((lts fun _ => (⟨false, 0, 0⟩, 0)).restrict AnswersLater).Reachable s ∧
          (s.cxns ()).sent.map (·.pdu.pduType) = [.cacheResponse, .endOfData] ∧
          (Frame.run (s.cxns ()).sent).isSome = true := by
  have hrun : ∃ s : System Unit Unit,
      ((lts fun _ => (⟨false, 0, 0⟩, 0)).restrict AnswersLater).Reachable s ∧
        (s.cxns ()).sent.map (·.pdu.pduType) = [.cacheResponse, .endOfData] :=
    Lts.exists_reachable_restrict_of_foldlM
      (queryReceived serialQueryBytes [8, 4] ++ dbSteps 12 [⟨2, some 1, 0, true⟩] ++ responseSent 2)
      (by decide)
  rcases hrun with ⟨s, hreach, hsent⟩
  exact ⟨s, hreach, hsent, answers_framed _ hreach ()⟩

/--
The row of a serial number is deleted while the query reads its changes: the answer ends with an Error
Report that is not fatal, and the client gets an answer to its next query. In the other run, a client
sends a Serial Query of another session after the first part of an answer.
-/
theorem answers_not_framed
    : (∃ s : System Unit Unit, (lts fun _ => (⟨false, 0, 0⟩, 0)).Reachable s ∧
        (s.cxns ()).sent.map (·.pdu.pduType) = [.cacheResponse, .errorReport, .errorReport]) ∧
      ∃ s : System Unit Unit, (lts fun _ => (⟨false, 0, 0⟩, 0)).Reachable s ∧
        (s.cxns ()).sent.map (·.pdu.pduType) = [.cacheResponse, .cacheReset] := by
  constructor
  . exact Lts.exists_reachable_of_foldlM
      (queryReceived serialQueryBytes [8, 4] ++ dbSteps 8 [⟨2, some 1, 0, true⟩] ++ dbSteps 3 [] ++
        responseSent 2 ++ queryReceived [0, 2, 0, 0, 0, 0, 0, 8] [8] ++ dbSteps 9 [] ++
        responseSent 1) (by decide)
  exact Lts.exists_reachable_of_foldlM
    (queryReceived serialQueryBytes [8, 4] ++
      dbSteps 12 [⟨2, some 1, 0, true⟩, ⟨3, some 2, 1, true⟩] ++
      [.cxn () .step, .cxn () (.read .wouldBlock), .cxn () .step, .cxn () .step,
        .cxn () (.write 0), .cxn () .step, .cxn () (.check 0 0 ⟨false, 0, 0⟩)] ++
      [.arrive () [0, 1, 0, 9, 0, 0, 0, 12, 0, 0, 0, 1], .select (), .post (), .cxn () .step,
        .cxn () (.read (.receive 8)), .cxn () (.read (.receive 4)), .cxn () .step,
        .cxn () (.write 0)]) (by decide)

end System

end Rpstir.Daemon
