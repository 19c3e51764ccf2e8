import Logmoko.Process.Move

/-!
# 呼び出しから consumer まで

設定を終えた registry の上で、任意個の thread が log を呼び、handler ごとの consumer が
それを受け取る。一人の caller が handler に渡す record は、その caller の呼び出しのうち
handler に届くものを、呼び出した順に一度ずつ並べたものである（`offered_run`）。

これと handler ごとの順（`Handler/Order.lean`）を合わせると、thread の呼び出しの順は
consumer が受け取る順にそのまま現れる（`process_order`）。
-/

namespace Logmoko

open Transition Submission

variable {ι : Type} [DecidableEq ι]

/-- これから handler `a` に渡す record の中身。 -/
def CallerPc.offersLeft (r : Registry) (a : Nat) : CallerPc → List LogPayload
  | .idle => []
  | .next record cursor | .inHandler record _ cursor =>
    (cursor.filter fun b => b = a ∧ r.Accepts record.logLevel b).map fun _ => record.payload

/-- 動作が `p` の呼び出しで、handler `a` に届くなら、運ぶ中身。 -/
def callTo (d : DispatchState) (p : ι) (a : Nat) : ProcessAction ι → List LogPayload
  | .log q call => if q = p ∧ d.Qualifies call a then [call.payload] else []
  | .offer _ | .logImpl _ _ | .consumer _ | .spuriousWakeup _ | .destroy => []

/-- 動作列の中の `p` の呼び出し。 -/
def calledBy (p : ι) : List (ProcessAction ι) → List LogCall :=
  List.filterMap fun
    | .log q call => if q = p then some call else none
    | .offer _ | .logImpl _ _ | .consumer _ | .spuriousWakeup _ | .destroy => none

variable {s s' t : ProcessState ι} {act : ProcessAction ι} {as : List (ProcessAction ι)}
  {p : ι} {a : Nat} {d : DispatchState}

/-- 呼び出しの中身は、動作列だけで決まる。 -/
theorem flatMap_callTo (d : DispatchState) (p : ι) (a : Nat) (as : List (ProcessAction ι)) :
    as.flatMap (callTo d p a)
      = ((calledBy p as).filter fun call => d.Qualifies call a).map LogCall.payload := by
  induction as with
  | nil => rfl
  | cons act as ih =>
    rw [List.flatMap_cons, ih]
    cases act with
    | offer | logImpl | consumer | spuriousWakeup | destroy => rfl
    | log q call =>
      by_cases hq : q = p
      · by_cases hqual : d.Qualifies call a <;> simp [callTo, calledBy, hq, hqual]
      · simp [callTo, calledBy, hq]

/-! ## 一 step -/

/-- loop の残りから handler `a` に渡るものは、先頭の分と後の分からなる。 -/
theorem offersLeft_cons (r : Registry) (record : LogRecord) (b : Nat) (cursor : List Nat) :
    CallerPc.offersLeft r a (.next record (b :: cursor))
      = (if b = a ∧ r.Accepts record.logLevel b then [record.payload] else [])
        ++ CallerPc.offersLeft r a (.next record cursor) := by
  simp only [CallerPc.offersLeft, List.filter_cons, decide_eq_true_eq]
  split <;> rfl

/-- 始まった呼び出しは、handler `a` に届くときに限り、一度だけ渡す。 -/
theorem offersLeft_begun (hd : DispatchInv d) {call : LogCall} {record : LogRecord} {lg : Logger}
    (hl : call.logger.bind d.registry.logger? = some lg) (hle : lg.logLevel ≤ call.fn.level)
    (hlevel : record.logLevel = call.fn.level) (hpayload : record.payload = call.payload) :
    CallerPc.offersLeft d.registry a (.next record lg.handlerRefList)
      = if d.Qualifies call a then [call.payload] else [] := by
  obtain ⟨g, hg, hlg⟩ := Option.bind_eq_some_iff.mp hl
  obtain ⟨hmem, rfl⟩ := logger?_eq_some hlg
  have hqual : d.Qualifies call a ↔ a ∈ lg.handlerRefList ∧ d.registry.Accepts call.fn.level a := by
    simp [DispatchState.Qualifies, Registry.Accepts, hg, hlg, hle, hd.attach.mem_iff hmem]
  simp only [CallerPc.offersLeft, hlevel, hpayload]
  by_cases hq : d.Qualifies call a
  · have hone : lg.handlerRefList.filter
        (fun b => b = a ∧ d.registry.Accepts call.fn.level b) = [a] := by
      have hnodup : (lg.handlerRefList.map id).Nodup := by
        rw [List.map_id]
        exact hd.refs.nodup lg hmem
      refine Keyed.filter_eq_singleton hnodup (hqual.mp hq).1 ?_
      intro b _
      rw [decide_eq_true_iff, and_iff_left_iff_imp]
      rintro rfl
      exact (hqual.mp hq).2
    rw [if_pos hq, hone]
    rfl
  · have hnone : lg.handlerRefList.filter
        (fun b => b = a ∧ d.registry.Accepts call.fn.level b) = [] := by
      rw [List.filter_eq_nil_iff]
      intro b hb hyes
      obtain ⟨rfl, haccepts⟩ := of_decide_eq_true hyes
      exact hq (hqual.mpr ⟨hb, haccepts⟩)
    rw [if_neg hq, hnone]
    rfl

/-- 何も始まらなかった呼び出しは、どの handler にも届かない。 -/
theorem not_qualifies_of_ignored (hd : DispatchInv d) {call : LogCall}
    (hoff : ∀ lg, call.logger.bind d.registry.logger? = some lg →
      lg.initialized = true → call.fn.level < lg.logLevel) : ¬ d.Qualifies call a := by
  rintro ⟨g, hg, -, ⟨lg, hlg, hle⟩, -⟩
  have hbind : call.logger.bind d.registry.logger? = some lg :=
    Option.bind_eq_some_iff.mpr ⟨g, hg, hlg⟩
  exact absurd (hoff lg hbind (hd.loggers lg (logger?_eq_some hlg).1)) (not_lt.mpr hle)

theorem loggedBy_ite (p q : ι) (a b : Nat) (record : LogRecord) (P : Prop) [Decidable P] :
    (loggedBy p (if b = a ∧ P then [HandlerAction.logImpl q record] else [])).map LogRecord.payload
      = if q = p then (if b = a ∧ P then [record.payload] else []) else [] := by
  by_cases hq : q = p <;> by_cases hb : b = a ∧ P <;> simp [loggedBy, hq, hb]

/-- 渡したものと残りの和は、始まった呼び出しの分だけ増える。 -/
theorem offered_step (hd : DispatchInv d) (h : CallersInv d.registry s)
    (hs : processStep s act = some s') :
    (loggedBy p (handlerActs a s act)).map LogRecord.payload
        ++ (s'.callers p).offersLeft d.registry a
      = (s.callers p).offersLeft d.registry a ++ callTo d p a act := by
  cases processStep_move hs with
  | @ignored q call buf hp ht hoff =>
    rw [h.registry ht] at hoff
    have hno := not_qualifies_of_ignored (a := a) hd hoff
    simp [handlerActs, callTo, loggedBy, hno]
  | @begun q call record lg buf hp ht hl hle hlevel hpayload =>
    rw [h.registry ht] at hl
    by_cases hq : q = p
    · subst hq
      rw [setCaller_self, hp, offersLeft_begun hd hl hle hlevel hpayload]
      simp [handlerActs, loggedBy, callTo, CallerPc.offersLeft]
    · rw [setCaller_of_ne _ _ (Ne.symm hq)]
      simp [handlerActs, loggedBy, callTo, hq]
  | @finished q record hp =>
    by_cases hq : q = p
    · subst hq
      rw [setCaller_self, hp]
      simp [handlerActs, hp, loggedBy, callTo, CallerPc.offersLeft]
    · rw [setCaller_of_ne _ _ (Ne.symm hq)]
      simp [handlerActs, hp, loggedBy, callTo]
  | @skipped q record b cursor hp hlevel =>
    rw [h.registry (h.notCalled hp rfl)] at hlevel
    by_cases hq : q = p
    · subst hq
      rw [setCaller_self, hp, offersLeft_cons]
      simp [handlerActs, hp, h.registry (h.notCalled hp rfl), hlevel, loggedBy, callTo]
    · rw [setCaller_of_ne _ _ (Ne.symm hq)]
      simp [handlerActs, hp, h.registry (h.notCalled hp rfl), hlevel, loggedBy, callTo]
  | @offered q record b cursor u hp hlevel hu =>
    have hacts : handlerActs a s (.offer q)
        = if b = a ∧ d.registry.Accepts record.logLevel b then [.logImpl q record] else [] := by
      simp only [handlerActs, hp, h.registry (h.notCalled hp rfl)]
    rw [hacts, loggedBy_ite]
    by_cases hq : q = p
    · subst hq
      rw [setCaller_self, hp, offersLeft_cons, if_pos rfl, callTo, List.append_nil]
      rfl
    · rw [setCaller_of_ne _ _ (Ne.symm hq), if_neg hq]
      simp [ProcessState.setHandler, callTo]
  | @inside q casFails record b cursor u hp hu =>
    simp only [handlerActs, hp, callTo, List.append_nil]
    split <;> rfl
  | @returned q casFails record b cursor u hp hu hidle =>
    have hnone : loggedBy p (handlerActs a s (.logImpl q casFails)) = [] := by
      simp only [handlerActs, hp]
      split <;> rfl
    rw [hnone, callTo, List.append_nil]
    by_cases hq : q = p
    · subst hq
      rw [setCaller_self, hp]
      rfl
    · rw [setCaller_of_ne _ _ (Ne.symm hq)]
      rfl
  | consumer | spuriousWakeup =>
    rw [callTo, List.append_nil, handlerActs]
    split <;> rfl
  | destroyLoggers ht | keepHandler ht | destroyHandler ht | freeHandler ht | destroyed ht =>
    simp only [handlerActs, ht, callTo, List.append_nil]
    first | rfl | (split <;> rfl)

/-! ## 実行 -/

variable {env : Env} {auto : Option Cfg} {r : Registry} {ops : List RegistryOp} {k : Nat → Nat}

theorem map_loggedBy_emitted (p : ι) (a : Nat) (s : ProcessState ι)
    (as : List (ProcessAction ι)) :
    (loggedBy p (emitted processStep (handlerActs a) s as)).map LogRecord.payload
      = emitted processStep (fun s act => (loggedBy p (handlerActs a s act)).map LogRecord.payload)
          s as := by
  have hflat : ∀ l : List (HandlerAction ι), (loggedBy p l).map LogRecord.payload
      = l.flatMap fun x => (loggedBy p [x]).map LogRecord.payload := by
    intro l
    induction l with
    | nil => rfl
    | cons x l ih =>
      rw [List.flatMap_cons, ← ih, ← List.map_append]
      exact congrArg _ (List.filterMap_append (l := [x]))
  rw [hflat, flatMap_emitted]
  congr 1
  funext s act
  exact (hflat _).symm

/-- `p` が handler `a` に渡したものは、届く呼び出しの中身のうち、まだ渡していない分を除いたものである。 -/
theorem offered_run (hd : DispatchInv d)
    (hquiet : Along processStep CallersDone (processInitial ι d.registry k) as)
    (h : run processStep (processInitial ι d.registry k) as = some s) (p : ι) (a : Nat) :
    (loggedBy p (emitted processStep (handlerActs a) (processInitial ι d.registry k) as)).map
        LogRecord.payload ++ (s.callers p).offersLeft d.registry a
      = ((calledBy p as).filter fun call => d.Qualifies call a).map LogCall.payload := by
  rw [map_loggedBy_emitted, ← flatMap_callTo, ← emitted_of_action h]
  exact emitted_balance (CallersInv d.registry) _ _
    (fun s : ProcessState ι => (s.callers p).offersLeft d.registry a)
    (fun _ _ _ hI hq hs => callersInv_step hI hq hs) (fun _ _ _ hI _ hs => offered_step hd hI hs)
    (callersInv_initial d.registry k) hquiet h

/-- handler `a` の依頼の列。 -/
def handlerTrace (a : Nat) (s₀ : ProcessState ι) (as : List (ProcessAction ι)) :
    List (Event ι LogRecord) :=
  emitted (handlerStep .unbounded) handlerEvents (s₀.handlers a)
    (emitted processStep (handlerActs a) s₀ as)

theorem orderInv_process (h : run processStep (processInitial ι r k) as = some s) (a : Nat) :
    OrderInv (handlerTrace a (processInitial ι r k) as) (s.handlers a) ∧
      RejectInv (handlerTrace a (processInitial ι r k) as) (s.handlers a) := by
  obtain ⟨type, name, hstart⟩ := handlers_initial ι r k a
  have hhandler := run_handler a h
  unfold handlerTrace
  rw [hstart] at hhandler ⊢
  exact orderInv_run hhandler

theorem map_payload (l : List EnqueueCall) :
    (l.map fun c => c.record.payload) = (l.map EnqueueCall.record).map LogRecord.payload := by
  rw [List.map_map]
  rfl

/-- `p` の claim は、`p` の届く呼び出しの部分列である。 -/
theorem claims_sublist_calls (hd : DispatchInv d)
    (hquiet : Along processStep CallersDone (processInitial ι d.registry k) as)
    (h : run processStep (processInitial ι d.registry k) as = some s) (p : ι) (a : Nat) :
    ((claimsOf p (owners (handlerTrace a (processInitial ι d.registry k) as))
        (s.handlers a).mem.hist.claims).map fun c => c.record.payload).Sublist
      (((calledBy p as).filter fun call => d.Qualifies call a).map LogCall.payload) := by
  have hsublist := (orderInv_process h a).1.sublist p
  rw [handlerTrace, submitted_emitted (run_handler a h) p] at hsublist
  rw [map_payload, ← offered_run hd hquiet h p a]
  exact (hsublist.map _).trans (List.sublist_append_left _ _)

/-- 断られたものが無ければ、呼び出しの外にいる `p` の届く呼び出しは、みな claim されている。 -/
theorem claims_eq_calls (hd : DispatchInv d)
    (hquiet : Along processStep CallersDone (processInitial ι d.registry k) as)
    (h : run processStep (processInitial ι d.registry k) as = some s) {p : ι} {a : Nat}
    (hidle : s.callers p = .idle)
    (hnone : rejected p (handlerTrace a (processInitial ι d.registry k) as) = []) :
    ((claimsOf p (owners (handlerTrace a (processInitial ι d.registry k) as))
        (s.handlers a).mem.hist.claims).map fun c => c.record.payload)
      = ((calledBy p as).filter fun call => d.Qualifies call a).map LogCall.payload := by
  have hproducer : (s.handlers a).producers p = .idle :=
    (callersInv_run hquiet h).producers_idle (by simp [hidle])
  rw [map_payload, (orderInv_process h a).1.complete_of_unrejected hnone hproducer, handlerTrace,
    submitted_emitted (run_handler a h) p, ← offered_run hd hquiet h p a, hidle,
    CallerPc.offersLeft, List.append_nil]

/--
**呼び出しの順は、consumer が受け取る順に現れる。**

`lmk_init` の後の操作で設定を終えた registry から、任意個の thread が log を呼ぶ。
`lmk_destroy` は誰も呼び出しの中にいないときに始まるものとする。どんな interleaving でも、
どの handler `a` についても、claim には持ち主がいて、

* thread `p` の claim は、`p` の呼び出しのうち `a` に届くものの部分列で、呼び出した順に並ぶ
* 誰も呼び出しの中におらず、`a` が止められておらず、drop も数えられていなければ、抜けるものはない
* consumer が受け取った request は、claim を先頭から順に運ぶ
-/
theorem process_order (hinit : lmkInit env auto Registry.initial = some r)
    (hsetup : run (dispatchStep env) (dispatchInitial r) (ops.map .op) = some d)
    (hfit : Along (dispatchStep env) (fun s _ => s.LoggersFit) (dispatchInitial r) (ops.map .op))
    (hk : ∀ a, 1 ≤ k a) (hrun : run processStep (processInitial ι d.registry k) as = some s)
    (hquiet : Along processStep CallersDone (processInitial ι d.registry k) as) (a : Nat) :
    ∃ owners : List ι, owners.length = (s.handlers a).mem.hist.claims.length ∧
      (∀ p, ((claimsOf p owners (s.handlers a).mem.hist.claims).map
          fun c => c.record.payload).Sublist
        (((calledBy p as).filter fun call => d.Qualifies call a).map LogCall.payload)) ∧
      ((∀ p, s.callers p = .idle) → (s.handlers a).running = true → (s.handlers a).dropped = 0 →
        ∀ p, ((claimsOf p owners (s.handlers a).mem.hist.claims).map fun c => c.record.payload)
          = ((calledBy p as).filter fun call => d.Qualifies call a).map LogCall.payload) ∧
      List.Forall₂ Carries (s.handlers a).mem.hist.consumed
        ((s.handlers a).mem.hist.claims.take (s.handlers a).mem.hist.consumed.length) := by
  have hd : DispatchInv d := (dispatchInv_initial hinit).run hfit hsetup
  obtain ⟨horder, hreject⟩ := orderInv_process hrun a
  refine ⟨owners _, horder.length_owners, fun p => claims_sublist_calls hd hquiet hrun p a, ?_, ?_⟩
  · intro hidle hrunning hdropped p
    have hproducers : ∀ q, (s.handlers a).producers q = .idle :=
      fun q => (callersInv_run hquiet hrun).producers_idle (by simp [hidle q])
    exact claims_eq_calls hd hquiet hrun (hidle p) (hreject.eq_nil hproducers hdropped hrunning p)
  · obtain ⟨type, name, hstart⟩ := handlers_initial ι d.registry k a
    have hhandler := run_handler a hrun
    rw [hstart] at hhandler
    exact (ringInv_handler (hk a) ⟨_, hhandler⟩).delivered

/-- 二つの thread が呼び、後から呼んだ方が先に渡す。consumer は一つ受け取る。 -/
def overtakingRun : List (ProcessAction Bool) :=
  [.log false (helloCall (ascii "hi")), .log true (helloCall (ascii "yo")), .offer true] ++
    List.replicate 16 (.logImpl true false) ++ [.offer true, .offer false] ++
    List.replicate 16 (.logImpl false false) ++ [.offer false] ++
    List.replicate 4 (.consumer 2)

theorem process_order_overtakingRun :
    ∃ d s,
      run (dispatchStep .loopback) (dispatchInitial readyRegistry) (helloOps.map .op) = some d ∧
      run processStep (processInitial Bool d.registry fun _ => 1) overtakingRun = some s ∧
      (s.handlers 2).mem.hist.consumed.length = 1 ∧
      ((s.handlers 2).mem.hist.claims.map fun c => c.record.payload.bytes)
        = [ascii "yo", ascii "hi"] ∧
      ∃ owners : List Bool, owners.length = 2 ∧ ∀ p,
        ((claimsOf p owners (s.handlers 2).mem.hist.claims).map fun c => c.record.payload)
          = ((calledBy p overtakingRun).filter fun call => d.Qualifies call 2).map
              LogCall.payload := by
  have hstart : Along (dispatchStep .loopback) (fun s _ => s.LoggersFit)
      (dispatchInitial readyRegistry) (helloOps.map .op) := by decide +kernel
  have hsome : (run (dispatchStep .loopback) (dispatchInitial readyRegistry)
      (helloOps.map .op)).isSome := by decide +kernel
  obtain ⟨d, hd⟩ := Option.isSome_iff_exists.mp hsome
  have hpc : ((run (dispatchStep .loopback) (dispatchInitial readyRegistry)
      (helloOps.map .op)).bind fun d =>
        (run processStep (processInitial Bool d.registry fun _ => 1) overtakingRun).map fun s =>
          ((decide (∀ p, (s.callers p).isIdle = true), (s.handlers 2).running,
            (s.handlers 2).dropped), (s.handlers 2).mem.hist.consumed.length,
            (s.handlers 2).mem.hist.claims.map fun c => c.record.payload.bytes))
        = some ((true, true, 0), 1, [ascii "yo", ascii "hi"]) := by decide +kernel
  rw [hd, Option.bind_some] at hpc
  obtain ⟨s, hs, hp⟩ := Option.map_eq_some_iff.mp hpc
  simp only [Prod.mk.injEq, decide_eq_true_eq, CallerPc.isIdle_iff] at hp
  obtain ⟨⟨hidle, hrunning, hdropped⟩, hconsumed, hclaims⟩ := hp
  have hquiet : Along processStep CallersDone (processInitial Bool d.registry fun _ => 1)
      overtakingRun := by
    refine callersDone_of_notDestroy ?_
    simp [overtakingRun]
  obtain ⟨owners, hlen, -, hall, -⟩ :=
    process_order (lmkInit_readyRegistry .loopback) hd hstart (fun _ => Nat.le_refl 1) hs hquiet 2
  refine ⟨d, s, hd, hs, hconsumed, hclaims, owners, ?_, hall hidle hrunning hdropped⟩
  rw [hlen, ← List.length_map fun c : EnqueueCall => c.record.payload.bytes, hclaims]
  rfl

end Logmoko
