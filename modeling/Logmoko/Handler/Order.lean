import Logmoko.Handler.Shutdown
import Logmoko.Lib.Submission

/-!
# 一つの thread の record の順

一つの handler に対して、thread は `log_impl` の呼び出しを一つずつ行う。
呼び出しは位置を claim して受理されるか、ring が一杯か停止の後なので断られる。

これは依頼の列（`Submission`）であり、どんな interleaving でも、
一つの thread の record は渡した順に claim される（`handler_program_order`）。
-/

namespace Logmoko

open Transition Submission

variable {ι : Type}

/-- 答えを待っている record。claim した後の呼び出しは、もう待っていない。 -/
def LogImplPc.pending : LogImplPc → Option LogRecord
  | .loadRunning record => some record
  | .enqueue c pc => if pc.claimed then none else some c.record
  | _ => none

/-- 依頼の列から見た一 step。 -/
def handlerEvents (s : HandlerState ι) : HandlerAction ι → List (Event ι LogRecord)
  | .logImpl p record => [.submit p record]
  | .producer p casFails =>
    match s.producers p with
    | .loadRunning record => if s.running then [] else [.reject p record]
    | .enqueue c (.cas pos) =>
      if s.mem.ring.head = pos ∧ casFails = false then [.accept p c.record] else []
    | .enqueue c (.ret ok) => if ok then [] else [.reject p c.record]
    | _ => []
  | .thread | .spuriousWakeup | .destroy => []

/-- 動作列の中で thread `p` が渡した record。 -/
def loggedBy [DecidableEq ι] (p : ι) : List (HandlerAction ι) → List LogRecord :=
  List.filterMap fun
    | .logImpl q record => if q = p then some record else none
    | .producer _ _ | .thread | .spuriousWakeup | .destroy => none

variable [DecidableEq ι] {s s' : HandlerState ι} {a : HandlerAction ι}

/-- 位置を変えた producer のほかは、待っている record も変わらない。 -/
theorem pending_setProducer (s : HandlerState ι) (p : ι) (x : LogImplPc) :
    (fun q => ((s.setProducer p x).producers q).pending)
      = Function.update (fun q => (s.producers q).pending) p x.pending := by
  funext q
  by_cases hq : q = p
  · subst hq
    rw [setProducer_self, Function.update_self]
  · rw [setProducer_of_ne s x hq, Function.update_of_ne hq]

/-- 待っている record を変えない producer の step。 -/
theorem pending_setProducer_same {p : ι} {x : LogImplPc}
    (h : x.pending = (s.producers p).pending) :
    (fun q => ((s.setProducer p x).producers q).pending) = fun q => (s.producers q).pending := by
  rw [pending_setProducer, h]
  exact Function.update_eq_self p fun q => (s.producers q).pending

/-- CAS のほかの step は、claim の列にも、claim したかどうかにも触らない。 -/
theorem EnqueueMove.claims_eq {m m' : Shared} {c : EnqueueCall} {b : Bool} {pc pc' : EnqueuePc}
    (h : EnqueueMove m c b pc m' pc') (hpc : ∀ pos, pc ≠ .cas pos) :
    m'.hist.claims = m.hist.claims ∧ pc'.claimed = pc.claimed := by
  cases h with
  | casOk | casFail => exact absurd rfl (hpc _)
  | loadHead | seqReady | seqFull | seqAhead | write | publish => exact ⟨rfl, rfl⟩

/-- claim の列の record。 -/
def History.claimed (h : History) : List LogRecord := h.claims.map EnqueueCall.record

/-- 依頼の列は handler の一 step と足並みをそろえる。受理の列は claim の列である。 -/
structure OrderInv (tr : List (Event ι LogRecord)) (s : HandlerState ι) : Prop where
  log : Log tr fun p => (s.producers p).pending
  claimed : (acceptances tr).map Prod.snd = s.mem.hist.claimed

theorem orderInv_initial (type : HandlerType) (name : CStr) (k : Nat) :
    OrderInv [] (handlerInitial ι type name k) := ⟨.start, rfl⟩

/-- 何も起こらない step。 -/
theorem OrderInv.quiet {tr : List (Event ι LogRecord)} (h : OrderInv tr s)
    (hevents : handlerEvents s a = [])
    (hp : (fun p => (s'.producers p).pending) = fun p => (s.producers p).pending)
    (hc : s'.mem.hist.claims = s.mem.hist.claims) : OrderInv (tr ++ handlerEvents s a) s' := by
  rw [hevents, List.append_nil]
  refine ⟨hp ▸ h.log, ?_⟩
  rw [h.claimed, History.claimed, History.claimed, hc]

/-- 一つのことが起こる step。 -/
theorem OrderInv.event {tr : List (Event ι LogRecord)} {e : Event ι LogRecord} (h : OrderInv tr s)
    (hevents : handlerEvents s a = [e])
    (hstep : Step (fun p => (s.producers p).pending) e fun p => (s'.producers p).pending)
    (hc : s'.mem.hist.claimed = s.mem.hist.claimed ++ (acceptances [e]).map Prod.snd) :
    OrderInv (tr ++ handlerEvents s a) s' := by
  rw [hevents]
  refine ⟨h.log.step hstep, ?_⟩
  rw [hc, ← h.claimed, acceptances, List.filterMap_append, List.map_append]

theorem OrderInv.enqueue {tr : List (Event ι LogRecord)} (h : OrderInv tr s) {p : ι} {b : Bool}
    {c : EnqueueCall} {pc pc' : EnqueuePc} {m : Shared} (hp : s.producers p = .enqueue c pc)
    (he : enqueueStep .unbounded c b s.mem pc = some (m, pc')) :
    OrderInv (tr ++ handlerEvents s (.producer p b))
      { s.setProducer p (.enqueue c pc') with mem := m } := by
  have hquiet : (∀ pos, pc ≠ .cas pos) → handlerEvents s (.producer p b) = [] →
      OrderInv (tr ++ handlerEvents s (.producer p b))
        { s.setProducer p (.enqueue c pc') with mem := m } := by
    intro hpc hevents
    obtain ⟨hclaims, hclaimed⟩ := (enqueueStep_move he).claims_eq hpc
    refine h.quiet hevents (pending_setProducer_same ?_) hclaims
    rw [hp, LogImplPc.pending, LogImplPc.pending, hclaimed]
  cases pc with
  | cas pos =>
    simp only [enqueueStep] at he
    by_cases hc : s.mem.ring.head = pos ∧ b = false
    · rw [if_pos hc] at he
      obtain ⟨rfl, rfl⟩ := Prod.mk.inj (Option.some.inj he)
      refine h.event (e := .accept p c.record) (by simp [handlerEvents, hp, hc]) ?_ ?_
      · show Step _ _ fun q => ((s.setProducer p _).producers q).pending
        rw [pending_setProducer]
        exact .accept (by simp [hp, LogImplPc.pending, EnqueuePc.claimed])
      · simp [History.claimed, acceptances]
    · rw [if_neg hc] at he
      obtain ⟨rfl, rfl⟩ := Prod.mk.inj (Option.some.inj he)
      refine h.quiet ?_ (pending_setProducer_same ?_) rfl
      · simp only [handlerEvents, hp]
        rw [if_neg hc]
      · rw [hp]
        rfl
  | ret ok => simp [enqueueStep] at he
  | loadHead | loadSeq _ | writing _ _ => exact hquiet (by simp) (by simp [handlerEvents, hp])

theorem orderInv_step {tr : List (Event ι LogRecord)} (h : OrderInv tr s)
    (hs : handlerStep .unbounded s a = some s') : OrderInv (tr ++ handlerEvents s a) s' := by
  cases handlerStep_move hs with
  | @logImpl p record hp =>
    refine h.event rfl ?_ (by simp [acceptances, HandlerState.setProducer])
    show Step _ _ fun q => ((s.setProducer p _).producers q).pending
    rw [pending_setProducer]
    exact .submit (by rw [hp]; rfl)
  | @stopped p _ record hp hr =>
    refine h.event (e := .reject p record) (by simp [handlerEvents, hp, hr]) ?_
      (by simp [acceptances, HandlerState.setProducer])
    rw [pending_setProducer]
    exact .reject (by rw [hp]; rfl)
  | @enqueueRet p _ c ok hp =>
    cases ok with
    | true =>
      refine h.quiet (by simp [handlerEvents, hp]) (pending_setProducer_same ?_) rfl
      rw [hp]
      rfl
    | false =>
      refine h.event (e := .reject p c.record) (by simp [handlerEvents, hp]) ?_
        (by simp [acceptances, History.claimed, History.closeCall])
      show Step _ _ fun q => ((s.setProducer p _).producers q).pending
      rw [pending_setProducer]
      exact .reject (by rw [hp]; rfl)
  | enqueue hp he => exact h.enqueue hp he
  | enter hp hr =>
    refine h.quiet (by simp [handlerEvents, hp, hr]) (pending_setProducer_same ?_) rfl
    rw [hp]
    rfl
  | addDropped hp | addLogCalls hp | fence hp | loadSleeping hp | loadAwake hp | wakeLock hp
  | wakeSignal hp | wakeUnlock hp =>
    refine h.quiet (by simp [handlerEvents, hp]) (pending_setProducer_same ?_) rfl
    rw [hp]
    rfl
  -- 残りは producer の step ではない
  | consumeStore | consumeTail | drainReady | drainEmpty | process | flush | loadRunning
  | loadStopped | lock | storeSleeping | rePeekReady | rePeekEmpty | reloadRunning
  | reloadStopped | condWait | woken | clearSleeping | unlock | finalFlush | spuriousWakeup
  | storeRunning | destroyLock | broadcast | destroyUnlock | join => exact h.quiet rfl rfl rfl

/-! ## 断られたもの -/

/-- 断られた呼び出しがあるのは、drop を数えたか、数える手前か、停止した後である。 -/
def RejectInv (tr : List (Event ι LogRecord)) (s : HandlerState ι) : Prop :=
  (∀ p, rejected p tr = []) ∨ 0 < s.dropped ∨ s.running = false ∨ ∃ p, s.producers p = .addDropped

theorem rejected_append (p : ι) (tr tr' : List (Event ι LogRecord)) :
    rejected p (tr ++ tr') = rejected p tr ++ rejected p tr' := List.filterMap_append

/-- `dropped` は減らず、`running` は 0 のままである。 -/
theorem HandlerMove.counters_mono (hs : HandlerMove s a s') :
    s.dropped ≤ s'.dropped ∧ (s.running = false → s'.running = false) := by
  cases hs with
  | addDropped => exact ⟨Nat.le_succ _, id⟩
  | storeRunning => exact ⟨Nat.le_refl _, fun _ => rfl⟩
  | _ => exact ⟨Nat.le_refl _, id⟩

/-- drop を数える手前の producer は、数えるまでそこにいる。 -/
theorem HandlerMove.addDropped_stays (hs : HandlerMove s a s') {p : ι}
    (hp : s.producers p = .addDropped) : 0 < s'.dropped ∨ s'.producers p = .addDropped := by
  have hother : ∀ {q : ι} {x y : LogImplPc}, s.producers q = y → y ≠ .addDropped →
      (s.setProducer q x).producers p = .addDropped := by
    intro q x y hq hy
    have hne : p ≠ q := by
      rintro rfl
      exact hy (hq.symm.trans hp)
    rw [setProducer_of_ne s x hne, hp]
  cases hs with
  | addDropped => exact Or.inl (Nat.succ_pos _)
  | logImpl hq | enter hq | stopped hq | enqueue hq | enqueueRet hq | addLogCalls hq | fence hq
  | loadSleeping hq | loadAwake hq | wakeLock hq | wakeSignal hq | wakeUnlock hq =>
    exact Or.inr (hother hq (by simp))
  | _ => exact Or.inr hp

theorem rejectInv_step {tr : List (Event ι LogRecord)} (h : RejectInv tr s)
    (hs : handlerStep .unbounded s a = some s') : RejectInv (tr ++ handlerEvents s a) s' := by
  have hmove := handlerStep_move hs
  obtain ⟨hdropped, hrunning⟩ := hmove.counters_mono
  rcases h with h | h | h | ⟨p, hp⟩
  · -- この step が断るのは、停止を読んだときと、0 を返したときである
    by_cases hnone : ∀ p, rejected p (handlerEvents s a) = []
    · exact Or.inl fun p => by rw [rejected_append, h p, hnone p]; rfl
    · refine Or.inr (Or.inr ?_)
      cases hmove with
      | stopped _ hr => exact Or.inl hr
      | @enqueueRet p _ c ok hp =>
        cases ok with
        | true => exact absurd (fun q => by simp [handlerEvents, hp, rejected]) hnone
        | false => exact Or.inr ⟨p, setProducer_self s p _⟩
      | @enqueue p b c pc m pc' hp he =>
        refine absurd (fun q => ?_) hnone
        cases pc with
        | cas pos =>
          simp only [handlerEvents, hp]
          split <;> rfl
        | ret ok => simp [enqueueStep] at he
        | loadHead | loadSeq _ | writing _ _ => simp [handlerEvents, hp, rejected]
      | logImpl hp => exact absurd (fun q => by simp [handlerEvents, rejected]) hnone
      | enter hp hr => exact absurd (fun q => by simp [handlerEvents, hp, hr, rejected]) hnone
      | addDropped hp | addLogCalls hp | fence hp | loadSleeping hp | loadAwake hp | wakeLock hp
      | wakeSignal hp | wakeUnlock hp =>
        exact absurd (fun q => by simp [handlerEvents, hp, rejected]) hnone
      | _ => exact absurd (fun q => rfl) hnone
  · exact Or.inr (Or.inl (Nat.lt_of_lt_of_le h hdropped))
  · exact Or.inr (Or.inr (Or.inl (hrunning h)))
  · rcases hmove.addDropped_stays hp with hpos | hp'
    · exact Or.inr (Or.inl hpos)
    · exact Or.inr (Or.inr (Or.inr ⟨p, hp'⟩))

theorem RejectInv.eq_nil {tr : List (Event ι LogRecord)} (h : RejectInv tr s)
    (hidle : ∀ q, s.producers q = .idle) (hdropped : s.dropped = 0) (hrunning : s.running = true)
    (p : ι) : rejected p tr = [] := by
  rcases h with h | h | h | ⟨q, hq⟩
  · exact h p
  · omega
  · simp [hrunning] at h
  · rw [hidle q] at hq
    cases hq

/-- 静かに止まる実行では、断られた呼び出しがあるのは、drop を数えたか、数える手前のときである。 -/
def UnrejectedInv (tr : List (Event ι LogRecord)) (s : HandlerState ι) : Prop :=
  (∀ p, rejected p tr = []) ∨ 0 < s.dropped ∨ ∃ p, s.producers p = .addDropped

theorem UnrejectedInv.step {tr : List (Event ι LogRecord)} (h : UnrejectedInv tr s)
    (hstop : StopInv s) (hs : handlerStep .unbounded s a = some s') :
    UnrejectedInv (tr ++ handlerEvents s a) s' := by
  have hmove := handlerStep_move hs
  by_cases hproducer : ∃ p b, a = .producer p b
  · -- 動ける producer がいる間は、停止は始まっていない
    obtain ⟨p, b, rfl⟩ := hproducer
    have hrunning : s'.running = true :=
      hmove.producer_frame.2.1.trans (hstop.before (hstop.notCalled_of_producer hmove)).1
    rcases rejectInv_step (h.imp_right fun h => h.imp_right Or.inr) hs with h | h | h | h
    · exact Or.inl h
    · exact Or.inr (Or.inl h)
    · simp [hrunning] at h
    · exact Or.inr (Or.inr h)
  · have hnone : ∀ p, rejected p (handlerEvents s a) = [] := by
      intro p
      cases a with
      | producer q b => exact absurd ⟨q, b, rfl⟩ hproducer
      | logImpl | thread | spuriousWakeup | destroy => rfl
    rcases h with h | h | ⟨p, hp⟩
    · exact Or.inl fun p => by rw [rejected_append, h p, hnone p]; rfl
    · exact Or.inr (Or.inl (Nat.lt_of_lt_of_le h hmove.counters_mono.1))
    · rcases hmove.addDropped_stays hp with hpos | hp'
      · exact Or.inr (Or.inl hpos)
      · exact Or.inr (Or.inr ⟨p, hp'⟩)

/-! ## 主結果 -/

/-- 渡した record は、動作列だけで決まる。 -/
theorem submitted_handlerEvents (p : ι) (s : HandlerState ι) (a : HandlerAction ι) :
    submitted p (handlerEvents s a) = loggedBy p [a] := by
  cases a with
  | logImpl q record => rfl
  | thread | spuriousWakeup | destroy => rfl
  | producer q b =>
    show submitted p (handlerEvents s (.producer q b)) = []
    simp only [handlerEvents]
    repeat' split
    all_goals rfl

theorem submitted_emitted {as : List (HandlerAction ι)}
    (h : run (handlerStep .unbounded) s as = some s') (p : ι) :
    submitted p (emitted (handlerStep .unbounded) handlerEvents s as) = loggedBy p as := by
  induction as generalizing s with
  | nil => rfl
  | cons a as ih =>
    obtain ⟨u, hu, ht⟩ := run_cons_eq_some.mp h
    have hcons : loggedBy p (a :: as) = loggedBy p [a] ++ loggedBy p as := by
      rw [← List.singleton_append]
      exact List.filterMap_append
    rw [emitted_cons hu, hcons, ← submitted_handlerEvents p s a, ← ih ht]
    exact List.filterMap_append

variable {type : HandlerType} {name : CStr} {k : Nat} {as : List (HandlerAction ι)}

theorem orderInv_run
    (hrun : run (handlerStep .unbounded) (handlerInitial ι type name k) as = some s) :
    OrderInv (emitted (handlerStep .unbounded) handlerEvents (handlerInitial ι type name k) as) s ∧
      RejectInv (emitted (handlerStep .unbounded) handlerEvents (handlerInitial ι type name k) as)
        s := by
  have hstep : ∀ tr (s : HandlerState ι) a s', OrderInv tr s ∧ RejectInv tr s → True →
      handlerStep .unbounded s a = some s' →
      OrderInv (tr ++ handlerEvents s a) s' ∧ RejectInv (tr ++ handlerEvents s a) s' := by
    rintro tr s a s' ⟨ho, hr⟩ - hs
    exact ⟨orderInv_step ho hs, rejectInv_step hr hs⟩
  have h := emitted_invariant (P := fun _ _ => True) handlerEvents
    (fun tr s => OrderInv tr s ∧ RejectInv tr s) [] hstep
    ⟨orderInv_initial type name k, Or.inl fun _ => rfl⟩ (along_of_forall fun _ _ => trivial) hrun
  rwa [List.nil_append] at h

/-- 組 `owners` が claim の持ち主を並べたものであるとき、thread `p` の claim。 -/
def claimsOf (p : ι) (owners : List ι) (claims : List EnqueueCall) : List EnqueueCall :=
  (owners.zip claims).filterMap fun o => if o.1 = p then some o.2 else none

theorem map_claimsOf (p : ι) (owners : List ι) (h : History) :
    (claimsOf p owners h.claims).map EnqueueCall.record
      = (owners.zip h.claimed).filterMap fun o => if o.1 = p then some o.2 else none := by
  rw [claimsOf, History.claimed, List.map_filterMap, List.zip_map_right, List.filterMap_map]
  congr 1
  funext o
  show Option.map _ (if o.1 = p then some o.2 else none) = if o.1 = p then some o.2.record else none
  split <;> rfl

/-- 依頼の列から読める、claim の持ち主。 -/
def owners (tr : List (Event ι LogRecord)) : List ι := (acceptances tr).map Prod.fst

theorem OrderInv.length_owners {tr : List (Event ι LogRecord)}
    (h : OrderInv tr s) : (owners tr).length = s.mem.hist.claims.length := by
  have hlen := congrArg List.length h.claimed
  simp only [History.claimed, List.length_map] at hlen
  rw [owners, List.length_map, hlen]

/-- claim の record に持ち主を付けたものが、受理の列である。 -/
theorem OrderInv.map_claimsOf {tr : List (Event ι LogRecord)} (h : OrderInv tr s) (p : ι) :
    (claimsOf p (owners tr) s.mem.hist.claims).map EnqueueCall.record = accepted p tr := by
  rw [Logmoko.map_claimsOf, accepted_eq_filterMap, owners, ← List.zip_of_prod rfl h.claimed]

/-- thread `p` の claim は、渡した record の部分列である。 -/
theorem OrderInv.sublist {tr : List (Event ι LogRecord)} (h : OrderInv tr s) (p : ι) :
    ((claimsOf p (owners tr) s.mem.hist.claims).map EnqueueCall.record).Sublist
      (submitted p tr) := by
  rw [h.map_claimsOf]
  exact (List.sublist_append_left _ _).trans (accepted_sublist h.log p)

/-- 断られたものが無ければ、返った呼び出しの record はみな claim されている。 -/
theorem OrderInv.complete_of_unrejected {tr : List (Event ι LogRecord)} (h : OrderInv tr s) {p : ι}
    (hnone : rejected p tr = []) (hidle : s.producers p = .idle) :
    (claimsOf p (owners tr) s.mem.hist.claims).map EnqueueCall.record = submitted p tr := by
  have heq := accepted_eq h.log hnone
  have hpending : (s.producers p).pending = none := by
    rw [hidle]
    rfl
  rw [h.map_claimsOf]
  rwa [hpending, Option.toList_none, List.append_nil] at heq

/-- 呼び出しがみな返り、drop も停止も無ければ、渡した record はみな claim されている。 -/
theorem OrderInv.complete {tr : List (Event ι LogRecord)} (h : OrderInv tr s)
    (hreject : RejectInv tr s) (hidle : ∀ q, s.producers q = .idle) (hdropped : s.dropped = 0)
    (hrunning : s.running = true) (p : ι) :
    (claimsOf p (owners tr) s.mem.hist.claims).map EnqueueCall.record = submitted p tr :=
  h.complete_of_unrejected (hreject.eq_nil hidle hdropped hrunning p) (hidle p)

/-- 静かに止まる実行で、呼び出しがみな返り drop も無ければ、断られた呼び出しは無い。 -/
theorem rejected_eq_nil
    (hquiet : Along (handlerStep .unbounded) QuietShutdown (handlerInitial ι type name k) as)
    (hrun : run (handlerStep .unbounded) (handlerInitial ι type name k) as = some s)
    (hidle : ∀ q, s.producers q = .idle) (hdropped : s.dropped = 0) (p : ι) :
    rejected p (emitted (handlerStep .unbounded) handlerEvents (handlerInitial ι type name k) as)
      = [] := by
  have hinv := emitted_invariant handlerEvents (fun tr s => StopInv s ∧ UnrejectedInv tr s) []
    (fun tr s a s' h hq hs => ⟨stopInv_step h.1 hq hs, h.2.step h.1 hs⟩)
    ⟨stopInv_initial type name k, Or.inl fun _ => rfl⟩ hquiet hrun
  rw [List.nil_append] at hinv
  rcases hinv.2 with h | h | ⟨q, hq⟩
  · exact h p
  · omega
  · rw [hidle q] at hq
    cases hq

/--
**一つの thread の record は、渡した順に claim される。**

claim の一つ一つには、それを出した thread がいる。どんな interleaving でも、thread `p` の claim の
record は、`p` が `log_impl` に渡した record の部分列で、順は変わらない。
誰も呼び出しの途中になく、drop が一つも数えられておらず、停止が始まっていなければ、
抜けるものもない。
-/
theorem handler_program_order
    (hrun : run (handlerStep .unbounded) (handlerInitial ι type name k) as = some s) :
    ∃ owners : List ι, owners.length = s.mem.hist.claims.length ∧ ∀ p,
      ((claimsOf p owners s.mem.hist.claims).map EnqueueCall.record).Sublist (loggedBy p as) ∧
      ((∀ q, s.producers q = .idle) → s.dropped = 0 → s.running = true →
        (claimsOf p owners s.mem.hist.claims).map EnqueueCall.record = loggedBy p as) := by
  obtain ⟨horder, hreject⟩ := orderInv_run hrun
  refine ⟨owners _, horder.length_owners, ?_⟩
  intro p
  rw [← submitted_emitted hrun p]
  exact ⟨horder.sublist p, fun hidle hdropped hrunning =>
    horder.complete hreject hidle hdropped hrunning p⟩

/-- 二つの thread が入り混じって一つずつ渡す。後から渡した方が先に claim する。 -/
def crossingRun : List (HandlerAction Bool) :=
  [.logImpl false (sampleRecord 2 65), .producer false false, .producer false false,
    .logImpl true (sampleRecord 3 66)] ++
    List.replicate 15 (.producer true false) ++ List.replicate 15 (.producer false false)

theorem handler_program_order_crossingRun :
    ∃ s, run (handlerStep .unbounded) (handlerInitial Bool .file .empty 1) crossingRun = some s ∧
      (s.mem.hist.claims.map fun c => c.record.logLevel) = [3, 2] ∧
      ∃ owners : List Bool, owners.length = 2 ∧ ∀ p,
        (claimsOf p owners s.mem.hist.claims).map EnqueueCall.record = loggedBy p crossingRun := by
  have hpc : (run (handlerStep .unbounded) (handlerInitial Bool .file .empty 1) crossingRun).map
      (fun s => ((s.mem.hist.claims.map fun c => c.record.logLevel),
        (decide (∀ q, s.producers q = .idle), s.dropped, s.running)))
        = some ([3, 2], true, 0, true) := by decide +kernel
  obtain ⟨s, hs, hp⟩ := Option.map_eq_some_iff.mp hpc
  simp only [Prod.mk.injEq, decide_eq_true_eq] at hp
  obtain ⟨hlevels, hidle, hdropped, hrunning⟩ := hp
  obtain ⟨owners, hlen, hall⟩ := handler_program_order hs
  refine ⟨s, hs, hlevels, owners, ?_, fun p => (hall p).2 hidle hdropped hrunning⟩
  rw [hlen, ← List.length_map fun c : EnqueueCall => c.record.logLevel, hlevels]
  rfl

end Logmoko
