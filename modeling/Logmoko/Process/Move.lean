import Logmoko.Process.Model

/-!
# process の一 step

`processStep` の場合分けを `ProcessMove` に一度だけ並べ、一つの handler から見た動作列
（`handlerActs`）を取り出す。process の実行は、どの handler から見ても、
その handler の系の実行である（`run_handler`）。

caller が log の呼び出しの外にいれば、その caller はどの handler の中にもいない（`CallersInv`）。
-/

namespace Logmoko

open Transition

variable {ι : Type} [DecidableEq ι]

/-! ## 場合分け -/

/-- process の一 step がすること。 -/
inductive ProcessMove (s : ProcessState ι) : ProcessAction ι → ProcessState ι → Prop where
  | ignored {p call} (buf : ι → Nat → UInt8) (hp : s.callers p = .idle)
      (ht : s.teardown = .notCalled)
      (hoff : ∀ lg, call.logger.bind s.registry.logger? = some lg →
        lg.initialized = true → call.fn.level < lg.logLevel) :
    ProcessMove s (.log p call) { s with tlsLogBuf := buf }
  | begun {p call record lg buf} (hp : s.callers p = .idle) (ht : s.teardown = .notCalled)
      (hl : call.logger.bind s.registry.logger? = some lg) (hle : lg.logLevel ≤ call.fn.level)
      (hlevel : record.logLevel = call.fn.level) (hpayload : record.payload = call.payload) :
    ProcessMove s (.log p call)
      ({ s with tlsLogBuf := buf }.setCaller p (.next record lg.handlerRefList))
  | finished {p record} (hp : s.callers p = .next record []) :
    ProcessMove s (.offer p) (s.setCaller p .idle)
  | skipped {p record a cursor} (hp : s.callers p = .next record (a :: cursor))
      (hlevel : ¬ s.registry.Accepts record.logLevel a) :
    ProcessMove s (.offer p) (s.setCaller p (.next record cursor))
  | offered {p record a cursor h} (hp : s.callers p = .next record (a :: cursor))
      (hlevel : s.registry.Accepts record.logLevel a)
      (hs : handlerStep .unbounded (s.handlers a) (.logImpl p record) = some h) :
    ProcessMove s (.offer p) ((s.setHandler a h).setCaller p (.inHandler record a cursor))
  | inside {p casFails record a cursor h} (hp : s.callers p = .inHandler record a cursor)
      (hs : handlerStep .unbounded (s.handlers a) (.producer p casFails) = some h) :
    ProcessMove s (.logImpl p casFails) (s.setHandler a h)
  | returned {p casFails record a cursor h} (hp : s.callers p = .inHandler record a cursor)
      (hs : handlerStep .unbounded (s.handlers a) (.producer p casFails) = some h)
      (hidle : h.producers p = .idle) :
    ProcessMove s (.logImpl p casFails) ((s.setHandler a h).setCaller p (.next record cursor))
  | consumer {a hd h} (hh : s.registry.handler? a = some hd)
      (hs : handlerStep .unbounded (s.handlers a) .thread = some h) :
    ProcessMove s (.consumer a) (s.setHandler a h)
  | spuriousWakeup {a hd h} (hh : s.registry.handler? a = some hd)
      (hs : handlerStep .unbounded (s.handlers a) .spuriousWakeup = some h) :
    ProcessMove s (.spuriousWakeup a) (s.setHandler a h)
  | destroyLoggers {q} (ht : s.teardown = .notCalled)
      (hq : Cursor.forEachEntry loggerEntries (destroyLoggerEntry s.registry.fuel)
        s.registry.fuel (s.registry, .empty) = some q) :
    ProcessMove s .destroy
      { s with registry := q.1, teardown := .handlers (q.1.handlers.map LogHandler.addr) }
  | keepHandler {a cursor hd} (ht : s.teardown = .handlers (a :: cursor))
      (hh : s.registry.handler? a = some hd) (href : hd.nrLoggerRef > 0) :
    ProcessMove s .destroy { s with teardown := .handlers cursor }
  | destroyHandler {a cursor hd h} (ht : s.teardown = .handlers (a :: cursor))
      (hh : s.registry.handler? a = some hd) (href : hd.nrLoggerRef = 0)
      (hd : (s.handlers a).destroy ≠ .joined)
      (hs : handlerStep .unbounded (s.handlers a) .destroy = some h) :
    ProcessMove s .destroy (s.setHandler a h)
  | freeHandler {a cursor hd} (ht : s.teardown = .handlers (a :: cursor))
      (hh : s.registry.handler? a = some hd) (href : hd.nrLoggerRef = 0)
      (hd : (s.handlers a).destroy = .joined) :
    ProcessMove s .destroy
      { s with
        registry := (lmkDestroyLogHandler s.registry (some a)).1, teardown := .handlers cursor }
  | destroyed (ht : s.teardown = .handlers []) :
    ProcessMove s .destroy
      { s with
        registry := { s.registry with initialized := false, config := none }, teardown := .done }

variable {s s' t : ProcessState ι} {act : ProcessAction ι} {as : List (ProcessAction ι)}
  {p : ι} {a : Nat}

omit [DecidableEq ι] in
theorem CallerPc.isIdle_iff {x : CallerPc} : x.isIdle = true ↔ x = .idle := by
  cases x <;> simp [CallerPc.isIdle]

omit [DecidableEq ι] in
theorem setHandler_self (s : ProcessState ι) (a : Nat) (h : HandlerState ι) :
    (s.setHandler a h).handlers a = h :=
  Function.update_self ..

omit [DecidableEq ι] in
theorem setHandler_of_ne (s : ProcessState ι) {a b : Nat} (h : HandlerState ι) (hne : b ≠ a) :
    (s.setHandler a h).handlers b = s.handlers b :=
  Function.update_of_ne hne ..

theorem setCaller_self (s : ProcessState ι) (p : ι) (x : CallerPc) :
    (s.setCaller p x).callers p = x :=
  Function.update_self ..

theorem setCaller_of_ne (s : ProcessState ι) {p q : ι} (x : CallerPc) (hne : q ≠ p) :
    (s.setCaller p x).callers q = s.callers q :=
  Function.update_of_ne hne ..

theorem handlers_setCaller (s : ProcessState ι) (p : ι) (x : CallerPc) :
    (s.setCaller p x).handlers = s.handlers := rfl

theorem stepHandler_eq_some {b : HandlerAction ι} (h : s.stepHandler a b = some s') :
    ∃ hd u, s.registry.handler? a = some hd ∧
      handlerStep .unbounded (s.handlers a) b = some u ∧ s' = s.setHandler a u := by
  obtain ⟨hd, hh, h⟩ := Option.bind_eq_some_iff.mp h
  obtain ⟨u, hu, rfl⟩ := Option.map_eq_some_iff.mp h
  exact ⟨hd, u, hh, hu, rfl⟩

theorem beginLog_move {call : LogCall} (hp : s.callers p = .idle) (ht : s.teardown = .notCalled) :
    ProcessMove s (.log p call) (beginLog s p call) := by
  unfold beginLog
  cases hl : call.logger.bind s.registry.logger? with
  | none => exact .ignored s.tlsLogBuf hp ht (by simp [hl])
  | some lg =>
    have hvalid := call.fn.validLogLevel
    dsimp only
    by_cases hle : call.fn.level ≥ lg.logLevel
    · rw [if_pos hle]
      by_cases hi : lg.initialized = false
      · rw [if_pos hi]
        exact .ignored _ hp ht (by simp [hl, hi])
      · have hvalid' : ¬ ¬ ValidLogLevel (call.record (Buffer.overlay (s.tlsLogBuf p) 0
            (vsnprintf logMsgMaxSize call.text).written)
            (vsnprintf logMsgMaxSize call.text).ret).logLevel := not_not.mpr hvalid
        rw [if_neg hi, if_neg hvalid']
        refine (if_pos hle).symm ▸ ?_
        exact .begun hp ht hl hle rfl (payload_record _ call)
    · rw [if_neg hle]
      refine .ignored s.tlsLogBuf hp ht ?_
      intro lg' hl' _
      obtain rfl : lg = lg' := Option.some.inj (hl.symm.trans hl')
      exact not_le.mp hle

theorem processStep_move (h : processStep s act = some s') : ProcessMove s act s' := by
  cases act with
  | log p call =>
    obtain ⟨⟨hp, -, ht⟩, h⟩ := Option.ite_none_right_eq_some.mp h
    obtain rfl := Option.some.inj h
    exact beginLog_move (CallerPc.isIdle_iff.mp hp) ht
  | offer p =>
    have h : offerNext s p = some s' := h
    unfold offerNext at h
    cases hp : s.callers p with
    | idle | inHandler record a cursor =>
      rw [hp] at h
      exact absurd h (by simp)
    | next record cursor =>
      rw [hp] at h
      cases cursor with
      | nil =>
        obtain rfl := Option.some.inj h
        exact .finished hp
      | cons a cursor =>
        obtain ⟨hd, hh, h⟩ := Option.bind_eq_some_iff.mp h
        have haccepts : s.registry.Accepts record.logLevel a ↔ hd.logLevel ≤ record.logLevel := by
          simp [Registry.Accepts, hh]
        by_cases hle : record.logLevel ≥ hd.logLevel
        · rw [if_pos hle] at h
          obtain ⟨u, hu, rfl⟩ := Option.map_eq_some_iff.mp h
          obtain ⟨-, v, -, hv, rfl⟩ := stepHandler_eq_some hu
          exact .offered hp (haccepts.mpr hle) hv
        · rw [if_neg hle] at h
          obtain rfl := Option.some.inj h
          exact .skipped hp (haccepts.not.mpr hle)
  | logImpl p casFails =>
    have h : stepLogImpl s p casFails = some s' := h
    unfold stepLogImpl at h
    cases hp : s.callers p with
    | idle | next record cursor =>
      rw [hp] at h
      exact absurd h (by simp)
    | inHandler record a cursor =>
      rw [hp] at h
      obtain ⟨u, hu, rfl⟩ := Option.map_eq_some_iff.mp h
      obtain ⟨-, v, -, hv, rfl⟩ := stepHandler_eq_some hu
      split
      · next hidle =>
        refine .returned hp hv ?_
        simpa [ProcessState.setHandler, LogImplPc.isIdle_iff] using hidle
      · exact .inside hp hv
  | consumer a =>
    obtain ⟨hd, u, hh, hu, rfl⟩ := stepHandler_eq_some h
    exact .consumer hh hu
  | spuriousWakeup a =>
    obtain ⟨hd, u, hh, hu, rfl⟩ := stepHandler_eq_some h
    exact .spuriousWakeup hh hu
  | destroy =>
    have h : teardownStep s = some s' := h
    unfold teardownStep at h
    cases ht : s.teardown with
    | notCalled =>
      rw [ht] at h
      obtain ⟨q, hq, rfl⟩ := Option.map_eq_some_iff.mp h
      exact .destroyLoggers ht hq
    | done =>
      rw [ht] at h
      exact absurd h (by simp)
    | handlers cursor =>
      rw [ht] at h
      cases cursor with
      | nil =>
        obtain rfl := Option.some.inj h
        exact .destroyed ht
      | cons a cursor =>
        obtain ⟨hd, hh, h⟩ := Option.bind_eq_some_iff.mp h
        by_cases href : hd.nrLoggerRef > 0
        · rw [if_pos href] at h
          obtain rfl := Option.some.inj h
          exact .keepHandler ht hh href
        · rw [if_neg href] at h
          have href : hd.nrLoggerRef = 0 := Nat.eq_zero_of_not_pos href
          by_cases hj : (s.handlers a).destroy = .joined
          · rw [if_pos hj] at h
            obtain rfl := Option.some.inj h
            exact .freeHandler ht hh href hj
          · rw [if_neg hj] at h
            obtain ⟨-, u, -, hu, rfl⟩ := stepHandler_eq_some h
            exact .destroyHandler ht hh href hj hu

/-! ## 一つの handler から見た動作列 -/

/-- handler の counter が 0 である。 -/
def Registry.Unreferenced (r : Registry) (a : Nat) : Prop :=
  ∃ hd ∈ r.handler? a, hd.nrLoggerRef = 0

instance (r : Registry) : DecidablePred r.Unreferenced :=
  fun _ => inferInstanceAs (Decidable (∃ hd ∈ _, _))

/-- process の一 step のうち、handler `a` の系の動作であるもの。 -/
def handlerActs (a : Nat) (s : ProcessState ι) : ProcessAction ι → List (HandlerAction ι)
  | .log _ _ => []
  | .offer p =>
    match s.callers p with
    | .next record (b :: _) =>
      if b = a ∧ s.registry.Accepts record.logLevel b then [.logImpl p record] else []
    | .next _ [] | .idle | .inHandler _ _ _ => []
  | .logImpl p casFails =>
    match s.callers p with
    | .inHandler _ b _ => if b = a then [.producer p casFails] else []
    | .idle | .next _ _ => []
  | .consumer b => if b = a then [.thread] else []
  | .spuriousWakeup b => if b = a then [.spuriousWakeup] else []
  | .destroy =>
    match s.teardown with
    | .handlers (b :: _) =>
      if b = a ∧ s.registry.Unreferenced b ∧ (s.handlers b).destroy ≠ .joined then [.destroy]
      else []
    | .notCalled | .handlers [] | .done => []

/-- 番地 `b` の handler の一 step は、番地 `a` から見ると、`a` の一 step か、何も起こらない step である。 -/
theorem run_setHandler {b : Nat} {x : HandlerAction ι} {h : HandlerState ι}
    (hs : handlerStep .unbounded (s.handlers b) x = some h) :
    run (handlerStep .unbounded) (s.handlers a) (if b = a then [x] else [])
      = some ((s.setHandler b h).handlers a) := by
  by_cases hb : b = a
  · subst hb
    rw [if_pos rfl, setHandler_self]
    exact run_cons_eq_some.mpr ⟨h, hs, rfl⟩
  · rw [if_neg hb, setHandler_of_ne s h (Ne.symm hb)]
    rfl

/-- handler `a` に触らない step。 -/
theorem run_untouched (hacts : handlerActs a s act = []) (hsame : s'.handlers a = s.handlers a) :
    run (handlerStep .unbounded) (s.handlers a) (handlerActs a s act) = some (s'.handlers a) := by
  rw [hacts, hsame]
  rfl

theorem run_handlerActs (a : Nat) (h : processStep s act = some s') :
    run (handlerStep .unbounded) (s.handlers a) (handlerActs a s act) = some (s'.handlers a) := by
  cases processStep_move h with
  | ignored | begun => exact run_untouched rfl rfl
  | finished hp | destroyLoggers hp | destroyed hp =>
    exact run_untouched (by simp [handlerActs, hp]) rfl
  | skipped hp hlevel => exact run_untouched (by simp [handlerActs, hp, hlevel]) rfl
  | offered hp hlevel hs =>
    simp only [handlerActs, hp, hlevel, and_true]
    exact run_setHandler hs
  | inside hp hs | returned hp hs =>
    simp only [handlerActs, hp]
    exact run_setHandler hs
  | consumer hh hs | spuriousWakeup hh hs => exact run_setHandler hs
  | @keepHandler b cursor hd ht hh href =>
    have hno : ¬ s.registry.Unreferenced b := by
      rintro ⟨hd', hh', href'⟩
      obtain rfl : hd = hd' := Option.some.inj (hh.symm.trans hh')
      exact Nat.ne_of_gt href href'
    exact run_untouched (by simp [handlerActs, ht, hno]) rfl
  | @destroyHandler b cursor hd u ht hh href hj hs =>
    have hyes : s.registry.Unreferenced b := ⟨hd, hh, href⟩
    simp only [handlerActs, ht, hyes, hj, ne_eq, not_false_eq_true, and_true]
    exact run_setHandler hs
  | freeHandler ht hh href hj => exact run_untouched (by simp [handlerActs, ht, hj]) rfl

/-- process の実行は、どの handler から見ても、その handler の系の実行である。 -/
theorem run_handler (a : Nat) (h : run processStep s as = some t) :
    run (handlerStep .unbounded) (s.handlers a) (emitted processStep (handlerActs a) s as)
      = some (t.handlers a) :=
  run_emitted (f := fun s : ProcessState ι => s.handlers a) (fun _ _ _ => run_handlerActs a) h

/-! ## caller と handler -/

/-- 動作をする caller。consumer と `destroy` の動作には無い。 -/
def HandlerAction.caller : HandlerAction ι → Option ι
  | .logImpl p _ | .producer p _ => some p
  | .thread | .spuriousWakeup | .destroy => none

/-- 一 step は、動作をした caller のほかの位置を変えない。 -/
theorem producers_of_caller_ne {u u' : HandlerState ι} {x : HandlerAction ι}
    (hs : handlerStep .unbounded u x = some u') (hp : x.caller ≠ some p) :
    u'.producers p = u.producers p := by
  have hne : ∀ {q : ι}, some q ≠ some p → p ≠ q := fun h he => h (congrArg some he.symm)
  cases handlerStep_move hs with
  | logImpl | enter | stopped | enqueue | enqueueRet | addDropped | addLogCalls | fence
  | loadSleeping | loadAwake | wakeLock | wakeSignal | wakeUnlock =>
    exact setProducer_of_ne u _ (hne hp)
  | _ => rfl

/-- `lmk_destroy` は、どの caller も呼び出しの外にいる間に呼ばれる。 -/
def CallersDone (s : ProcessState ι) : ProcessAction ι → Prop
  | .destroy => s.teardown = .notCalled → ∀ p, s.callers p = .idle
  | _ => True

/-- `lmk_destroy` を呼ばない動作列。 -/
theorem callersDone_of_notDestroy (h : ∀ act ∈ as, act ≠ .destroy) :
    Along processStep CallersDone s as := by
  refine (along_of_forall_mem (R := fun act : ProcessAction ι => act ≠ .destroy) h).mono ?_
  intro u act hne
  cases act with
  | destroy => exact absurd rfl hne
  | log | offer | logImpl | consumer | spuriousWakeup => trivial

/--
終了が始まるまで registry は変わらず、始まった後は誰も呼び出しの中にいない。
handler の中にいる caller は、その handler を呼んでいるところである。
-/
structure CallersInv (r : Registry) (s : ProcessState ι) : Prop where
  registry : s.teardown = .notCalled → s.registry = r
  stopped : s.teardown ≠ .notCalled → ∀ p, s.callers p = .idle
  inside : ∀ p a, (s.handlers a).producers p ≠ .idle →
    ∃ record cursor, s.callers p = .inHandler record a cursor

theorem handlers_initial (ι : Type) (r : Registry) (k : Nat → Nat) (a : Nat) : ∃ type name,
    (processInitial ι r k).handlers a = handlerInitial ι type name (k a) := by
  simp only [processInitial]
  cases r.handler? a with
  | none => exact ⟨_, _, rfl⟩
  | some hd => exact ⟨_, _, rfl⟩

omit [DecidableEq ι] in
theorem callersInv_initial (r : Registry) (k : Nat → Nat) :
    CallersInv r (processInitial ι r k) where
  registry _ := rfl
  stopped h := absurd rfl h
  inside p a h := by
    obtain ⟨type, name, heq⟩ := handlers_initial ι r k a
    rw [heq] at h
    exact absurd rfl h

variable {r : Registry}

/-- handler の位置だけが変わる step。 -/
theorem CallersInv.setHandler (h : CallersInv r s) {x : HandlerAction ι} {u : HandlerState ι}
    (hs : handlerStep .unbounded (s.handlers a) x = some u)
    (hin : ∀ p, x.caller = some p → ∃ record cursor, s.callers p = .inHandler record a cursor) :
    CallersInv r (s.setHandler a u) where
  registry := h.registry
  stopped := h.stopped
  inside p b hb := by
    by_cases hab : b = a
    · subst hab
      rw [setHandler_self] at hb
      by_cases hp : x.caller = some p
      · exact hin p hp
      · rw [producers_of_caller_ne hs hp] at hb
        exact h.inside p b hb
    · rw [setHandler_of_ne s u hab] at hb
      exact h.inside p b hb

/-- 一人の caller の位置だけが変わる step。 -/
theorem CallersInv.setCaller (h : CallersInv r s) {x : CallerPc} (ht : s.teardown = .notCalled)
    (hx : ∀ b, (s.handlers b).producers p ≠ .idle →
      ∃ record cursor, x = .inHandler record b cursor) :
    CallersInv r (s.setCaller p x) where
  registry := h.registry
  stopped hne := absurd ht hne
  inside q b hb := by
    by_cases hq : q = p
    · subst hq
      rw [setCaller_self]
      exact hx b hb
    · rw [setCaller_of_ne s x hq]
      exact h.inside q b hb

/-- handler の位置と、それを呼んでいる caller の位置が変わる step。 -/
theorem CallersInv.call (h : CallersInv r s) {x : HandlerAction ι} {u : HandlerState ι}
    {y : CallerPc} (ht : s.teardown = .notCalled)
    (hs : handlerStep .unbounded (s.handlers a) x = some u) (hx : x.caller = some p)
    (hout : ∀ b, b ≠ a → (s.handlers b).producers p = .idle)
    (hin : u.producers p ≠ .idle → ∃ record cursor, y = .inHandler record a cursor) :
    CallersInv r ((s.setHandler a u).setCaller p y) where
  registry := h.registry
  stopped hne := absurd ht hne
  inside q b hb := by
    rw [handlers_setCaller] at hb
    by_cases hq : q = p
    · subst hq
      rw [setCaller_self]
      by_cases hab : b = a
      · subst hab
        rw [setHandler_self] at hb
        exact hin hb
      · rw [setHandler_of_ne s u hab] at hb
        exact absurd (hout b hab) hb
    · rw [setCaller_of_ne _ y hq]
      refine h.inside q b ?_
      by_cases hab : b = a
      · subst hab
        rw [setHandler_self] at hb
        rwa [producers_of_caller_ne hs (by simpa [hx] using Ne.symm hq)] at hb
      · rwa [setHandler_of_ne s u hab] at hb

omit [DecidableEq ι] in
/-- handler の中にいない caller は、どの handler でも外にいる。 -/
theorem CallersInv.producers_idle (h : CallersInv r s)
    (hp : ∀ record cursor, s.callers p ≠ .inHandler record a cursor) :
    (s.handlers a).producers p = .idle := by
  by_contra hne
  obtain ⟨record, cursor, hin⟩ := h.inside p a hne
  exact hp record cursor hin

omit [DecidableEq ι] in
/-- 呼び出しの中に誰かがいる間は、終了は始まっていない。 -/
theorem CallersInv.notCalled (h : CallersInv r s) {x : CallerPc} (hp : s.callers p = x)
    (hx : x.isIdle = false) : s.teardown = .notCalled := by
  by_contra ht
  rw [h.stopped ht p] at hp
  rw [← hp] at hx
  cases hx

theorem callersInv_step (h : CallersInv r s) (hq : CallersDone s act)
    (hs : processStep s act = some s') : CallersInv r s' := by
  cases processStep_move hs with
  | ignored => exact ⟨h.registry, h.stopped, h.inside⟩
  | @begun p call record lg buf hp ht =>
    have hbuf : CallersInv r { s with tlsLogBuf := buf } := ⟨h.registry, h.stopped, h.inside⟩
    exact hbuf.setCaller ht fun b hb => absurd (h.producers_idle (by simp [hp])) hb
  | finished hp | skipped hp =>
    refine h.setCaller (h.notCalled hp rfl) ?_
    exact fun b hb => absurd (h.producers_idle (by simp [hp])) hb
  | offered hp hlevel hu =>
    refine h.call (h.notCalled hp rfl) hu rfl ?_ fun _ => ⟨_, _, rfl⟩
    exact fun b _ => h.producers_idle (by simp [hp])
  | inside hp hu =>
    refine h.setHandler hu ?_
    rintro q ⟨⟩
    exact ⟨_, _, hp⟩
  | returned hp hu hidle =>
    refine h.call (h.notCalled hp rfl) hu rfl ?_ fun hne => absurd hidle hne
    intro b hb
    exact h.producers_idle (by simp [hp, Ne.symm hb])
  | consumer hh hu | spuriousWakeup hh hu => exact h.setHandler hu (by rintro q ⟨⟩)
  | destroyLoggers ht => exact ⟨fun hd => absurd hd (by simp), fun _ => hq ht, h.inside⟩
  | keepHandler ht | freeHandler ht | destroyed ht =>
    refine ⟨fun hd => absurd hd (by simp), fun _ => h.stopped (by simp [ht]), h.inside⟩
  | destroyHandler ht hh href hj hu => exact h.setHandler hu (by rintro q ⟨⟩)

theorem callersInv_run {k : Nat → Nat}
    (hquiet : Along processStep CallersDone (processInitial ι r k) as)
    (h : run processStep (processInitial ι r k) as = some s) : CallersInv r s :=
  run_invariant (fun _ _ _ => callersInv_step) (callersInv_initial r k) hquiet h

end Logmoko
