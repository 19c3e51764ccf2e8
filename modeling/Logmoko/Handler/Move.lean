import Logmoko.Handler.Model
import Logmoko.Ring.Preservation

/-!
# handler の step の場合分けと ring への射影

`HandlerMove` は桁あふれのない算術での一 step を列挙する。
以後の不変量は `handlerStep` を開かず、これで場合を分ける。

handler の状態から ring の系の状態への射影 `toRing` は、enqueue の外にいる producer と
slot を持たない consumer を `idle` と見なす。handler の一 step は ring の高々一 step に写るので、
ring の不変量はそのまま handler の不変量になる（`ringInv_handler`）。
-/

namespace Logmoko

open Transition

variable {ι : Type} [DecidableEq ι]

/-- 次の slot が ready である。 -/
def Ring.TailReady (r : Ring) : Prop := (r.slotAt r.tail).sequence = r.tail + 1

instance (r : Ring) : Decidable r.TailReady := inferInstanceAs (Decidable (_ = _))

/-- 桁あふれのない算術での handler の一 step が何をしうるか。 -/
inductive HandlerMove (s : HandlerState ι) : HandlerAction ι → HandlerState ι → Prop where
  | logImpl {p record} (h : s.producers p = .idle) :
    HandlerMove s (.logImpl p record)
      { s.setProducer p (.loadRunning record) with calls := s.calls + 1 }
  | enter {p b record} (h : s.producers p = .loadRunning record) (hr : s.running = true) :
    HandlerMove s (.producer p b)
      { s.setProducer p (.enqueue ⟨s.mem.hist.nextCall, record, s.name⟩ .loadHead) with
        mem := { s.mem with hist := s.mem.hist.openCall } }
  | stopped {p b record} (h : s.producers p = .loadRunning record) (hr : s.running = false) :
    HandlerMove s (.producer p b) (s.setProducer p .idle)
  | enqueue {p b c pc m pc'} (h : s.producers p = .enqueue c pc)
      (he : enqueueStep .unbounded c b s.mem pc = some (m, pc')) :
    HandlerMove s (.producer p b) { s.setProducer p (.enqueue c pc') with mem := m }
  | enqueueRet {p b c ok} (h : s.producers p = .enqueue c (.ret ok)) :
    HandlerMove s (.producer p b)
      { s.setProducer p (if ok then .addLogCalls else .addDropped) with
        mem := { s.mem with hist := s.mem.hist.closeCall c.id ok } }
  | addDropped {p b} (h : s.producers p = .addDropped) :
    HandlerMove s (.producer p b) { s.setProducer p .idle with dropped := s.dropped + 1 }
  | addLogCalls {p b} (h : s.producers p = .addLogCalls) :
    HandlerMove s (.producer p b) { s.setProducer p .fence with nrLogCalls := s.nrLogCalls + 1 }
  | fence {p b} (h : s.producers p = .fence) :
    HandlerMove s (.producer p b) (s.setProducer p .loadSleeping)
  | loadSleeping {p b} (h : s.producers p = .loadSleeping) (hs : s.sleeping = true) :
    HandlerMove s (.producer p b) (s.setProducer p .wakeLock)
  | loadAwake {p b} (h : s.producers p = .loadSleeping) (hs : s.sleeping = false) :
    HandlerMove s (.producer p b) (s.setProducer p .idle)
  | wakeLock {p b} (h : s.producers p = .wakeLock) (hl : s.wakeupLock = none) :
    HandlerMove s (.producer p b)
      { s.setProducer p .wakeSignal with wakeupLock := some (.producer p) }
  | wakeSignal {p b} (h : s.producers p = .wakeSignal) :
    HandlerMove s (.producer p b) { s.setProducer p .wakeUnlock with thread := s.thread.signal }
  | wakeUnlock {p b} (h : s.producers p = .wakeUnlock) :
    HandlerMove s (.producer p b) { s.setProducer p .idle with wakeupLock := none }
  | drainReady (h : s.thread = .drainPeek) (hr : s.mem.ring.TailReady) :
    HandlerMove s .thread { s with thread := .process }
  | drainEmpty (h : s.thread = .drainPeek) (hr : ¬ s.mem.ring.TailReady) :
    HandlerMove s .thread { s with thread := .afterDrain s.type }
  | process (h : s.thread = .process) :
    HandlerMove s .thread
      { s with thread := .consumeStore (s.mem.ring.slotAt s.mem.ring.tail).req }
  | consumeStore {req} (h : s.thread = .consumeStore req) :
    HandlerMove s .thread { s with mem := s.mem.release req, thread := .consumeTail }
  | consumeTail (h : s.thread = .consumeTail) :
    HandlerMove s .thread
      { s with
        mem := { s.mem with ring := { s.mem.ring with tail := s.mem.ring.tail + 1 } }
        thread := .drainPeek }
  | flush (h : s.thread = .flush) : HandlerMove s .thread { s with thread := .loadRunning }
  | loadRunning (h : s.thread = .loadRunning) (hr : s.running = true) :
    HandlerMove s .thread { s with thread := .lock }
  | loadStopped (h : s.thread = .loadRunning) (hr : s.running = false) :
    HandlerMove s .thread { s with thread := .afterStop s.type }
  | lock (h : s.thread = .lock) (hl : s.wakeupLock = none) :
    HandlerMove s .thread { s with wakeupLock := some .consumer, thread := .storeSleeping }
  | storeSleeping (h : s.thread = .storeSleeping) :
    HandlerMove s .thread { s with sleeping := true, thread := .rePeek }
  | rePeekReady (h : s.thread = .rePeek) (hr : s.mem.ring.TailReady) :
    HandlerMove s .thread { s with thread := .clearSleeping }
  | rePeekEmpty (h : s.thread = .rePeek) (hr : ¬ s.mem.ring.TailReady) :
    HandlerMove s .thread { s with thread := .reloadRunning }
  | reloadRunning (h : s.thread = .reloadRunning) (hr : s.running = true) :
    HandlerMove s .thread { s with thread := .condWait }
  | reloadStopped (h : s.thread = .reloadRunning) (hr : s.running = false) :
    HandlerMove s .thread { s with thread := .clearSleeping }
  | condWait (h : s.thread = .condWait) :
    HandlerMove s .thread { s with wakeupLock := none, thread := .parked }
  | woken (h : s.thread = .woken) (hl : s.wakeupLock = none) :
    HandlerMove s .thread { s with wakeupLock := some .consumer, thread := .rePeek }
  | clearSleeping (h : s.thread = .clearSleeping) :
    HandlerMove s .thread { s with sleeping := false, thread := .unlock }
  | unlock (h : s.thread = .unlock) :
    HandlerMove s .thread { s with wakeupLock := none, thread := .drainPeek }
  | finalFlush (h : s.thread = .finalFlush) : HandlerMove s .thread { s with thread := .exited }
  | spuriousWakeup (h : s.thread = .parked) :
    HandlerMove s .spuriousWakeup { s with thread := .woken }
  | storeRunning (h : s.destroy = .notCalled) :
    HandlerMove s .destroy { s with running := false, destroy := .lock }
  | destroyLock (h : s.destroy = .lock) (hl : s.wakeupLock = none) :
    HandlerMove s .destroy { s with wakeupLock := some .destroyer, destroy := .broadcast }
  | broadcast (h : s.destroy = .broadcast) :
    HandlerMove s .destroy { s with thread := s.thread.signal, destroy := .unlock }
  | destroyUnlock (h : s.destroy = .unlock) :
    HandlerMove s .destroy { s with wakeupLock := none, destroy := .join }
  | join (h : s.destroy = .join) (hx : s.thread = .exited) :
    HandlerMove s .destroy { s with destroy := .joined }

variable {s s' : HandlerState ι} {a : HandlerAction ι}

@[simp] theorem setProducer_self (s : HandlerState ι) (p : ι) (x : LogImplPc) :
    (s.setProducer p x).producers p = x :=
  Function.update_self ..

theorem setProducer_of_ne (s : HandlerState ι) {p q : ι} (x : LogImplPc) (h : q ≠ p) :
    (s.setProducer p x).producers q = s.producers q :=
  Function.update_of_ne h ..

theorem logImplStep_move {p : ι} {b : Bool} (h : logImplStep .unbounded s p b = some s') :
    HandlerMove s (.producer p b) s' := by
  unfold logImplStep at h
  split at h
  · simp at h
  · next record hp =>
    split at h
    · next hr =>
      rw [← Option.some.inj h]
      exact .enter hp hr
    · next hr =>
      rw [← Option.some.inj h]
      exact .stopped hp (by simpa using hr)
  · next c ok hp =>
    rw [← Option.some.inj h]
    exact .enqueueRet hp
  · next c pc hne hp =>
    obtain ⟨⟨m, pc'⟩, he, hs⟩ := Option.map_eq_some_iff.mp h
    rw [← hs]
    exact .enqueue hp he
  · next hp => rw [← Option.some.inj h]; exact .addDropped hp
  · next hp => rw [← Option.some.inj h]; exact .addLogCalls hp
  · next hp => rw [← Option.some.inj h]; exact .fence hp
  · next hp =>
    rw [← Option.some.inj h]
    by_cases hs : s.sleeping = true
    · rw [if_pos hs]
      exact .loadSleeping hp hs
    · rw [if_neg hs]
      exact .loadAwake hp (by simpa using hs)
  · next hp =>
    split at h
    · next hl =>
      rw [← Option.some.inj h]
      exact .wakeLock hp hl
    · simp at h
  · next hp => rw [← Option.some.inj h]; exact .wakeSignal hp
  · next hp => rw [← Option.some.inj h]; exact .wakeUnlock hp

theorem threadStep_move (h : threadStep .unbounded s = some s') : HandlerMove s .thread s' := by
  unfold threadStep at h
  split at h
  · next ht =>
    rw [← Option.some.inj h]
    by_cases hr : s.mem.ring.TailReady
    · rw [if_pos ((peek_isSome_iff _).mpr hr)]
      exact .drainReady ht hr
    · rw [if_neg (fun hp => hr ((peek_isSome_iff _).mp hp))]
      exact .drainEmpty ht hr
  · next ht => rw [← Option.some.inj h]; exact .process ht
  · next req ht => rw [← Option.some.inj h]; exact .consumeStore ht
  · next ht => rw [← Option.some.inj h]; exact .consumeTail ht
  · next ht => rw [← Option.some.inj h]; exact .flush ht
  · next ht =>
    rw [← Option.some.inj h]
    by_cases hr : s.running = true
    · rw [if_pos hr]
      exact .loadRunning ht hr
    · rw [if_neg hr]
      exact .loadStopped ht (by simpa using hr)
  · next ht =>
    split at h
    · next hl =>
      rw [← Option.some.inj h]
      exact .lock ht hl
    · simp at h
  · next ht => rw [← Option.some.inj h]; exact .storeSleeping ht
  · next ht =>
    rw [← Option.some.inj h]
    by_cases hr : s.mem.ring.TailReady
    · rw [if_pos ((peek_isSome_iff _).mpr hr)]
      exact .rePeekReady ht hr
    · rw [if_neg (fun hp => hr ((peek_isSome_iff _).mp hp))]
      exact .rePeekEmpty ht hr
  · next ht =>
    rw [← Option.some.inj h]
    by_cases hr : s.running = true
    · rw [if_pos hr]
      exact .reloadRunning ht hr
    · rw [if_neg hr]
      exact .reloadStopped ht (by simpa using hr)
  · next ht => rw [← Option.some.inj h]; exact .condWait ht
  · simp at h
  · next ht =>
    split at h
    · next hl =>
      rw [← Option.some.inj h]
      exact .woken ht hl
    · simp at h
  · next ht => rw [← Option.some.inj h]; exact .clearSleeping ht
  · next ht => rw [← Option.some.inj h]; exact .unlock ht
  · next ht => rw [← Option.some.inj h]; exact .finalFlush ht
  · simp at h

theorem LogImplPc.isIdle_iff {x : LogImplPc} : x.isIdle = true ↔ x = .idle := by
  cases x <;> simp [LogImplPc.isIdle]

theorem ThreadPc.isExited_iff {t : ThreadPc} : t.isExited = true ↔ t = .exited := by
  cases t <;> simp [ThreadPc.isExited]

theorem destroyStep_move (h : destroyStep s = some s') : HandlerMove s .destroy s' := by
  unfold destroyStep at h
  split at h
  · next hd => rw [← Option.some.inj h]; exact .storeRunning hd
  · next hd =>
    split at h
    · next hl =>
      rw [← Option.some.inj h]
      exact .destroyLock hd hl
    · simp at h
  · next hd => rw [← Option.some.inj h]; exact .broadcast hd
  · next hd => rw [← Option.some.inj h]; exact .destroyUnlock hd
  · next hd =>
    split at h
    · next hx =>
      rw [← Option.some.inj h]
      exact .join hd (ThreadPc.isExited_iff.mp hx)
    · simp at h
  · simp at h

/-- handler の一 step は `HandlerMove` のどれかである。 -/
theorem handlerStep_move (h : handlerStep .unbounded s a = some s') : HandlerMove s a s' := by
  cases a with
  | logImpl p record =>
    simp only [handlerStep] at h
    split at h
    · next hp =>
      rw [← Option.some.inj h]
      exact .logImpl hp
    · simp at h
  | producer p b => exact logImplStep_move h
  | thread => exact threadStep_move h
  | spuriousWakeup =>
    simp only [handlerStep] at h
    split at h
    · next ht =>
      rw [← Option.some.inj h]
      exact .spuriousWakeup ht
    · simp at h
  | destroy => exact destroyStep_move h

/-! ## ring への射影 -/

/-- 位置 `log_impl` を ring の producer として見る。 -/
def LogImplPc.toProducer : LogImplPc → Producer
  | .enqueue c pc => .inCall c pc
  | _ => .idle

/-- 位置 `thread_routine` を ring の consumer として見る。 -/
def ThreadPc.toConsumer : ThreadPc → RingConsumer
  | .process => .peeked
  | .consumeStore req => .processed req
  | .consumeTail => .released
  | _ => .idle

/-- handler を ring の系として見る。 -/
def HandlerState.toRing (s : HandlerState ι) : RingState ι :=
  { mem := s.mem
    producers := fun p => (s.producers p).toProducer
    consumer := s.thread.toConsumer }

@[simp] theorem toConsumer_signal (t : ThreadPc) : t.signal.toConsumer = t.toConsumer := by
  cases t <;> rfl

@[simp] theorem toConsumer_afterDrain (type : HandlerType) :
    (ThreadPc.afterDrain type).toConsumer = .idle := by
  cases type <;> rfl

@[simp] theorem toConsumer_afterStop (type : HandlerType) :
    (ThreadPc.afterStop type).toConsumer = .idle := by
  cases type <;> rfl

omit [DecidableEq ι] in
theorem toRing_eq_of (hm : s'.mem = s.mem)
    (hp : ∀ p, (s'.producers p).toProducer = (s.producers p).toProducer)
    (ht : s'.thread.toConsumer = s.thread.toConsumer) : s'.toRing = s.toRing := by
  unfold HandlerState.toRing
  rw [hm, ht, funext hp]

/-- ring から見える位置を変えない producer の step は、ring の系では何もしない。 -/
theorem toProducer_setProducer {p : ι} {x : LogImplPc}
    (hx : x.toProducer = (s.producers p).toProducer) (q : ι) :
    ((s.setProducer p x).producers q).toProducer = (s.producers q).toProducer := by
  by_cases hq : q = p
  · subst hq
    rw [setProducer_self, hx]
  · rw [setProducer_of_ne s x hq]

theorem toProducer_update (f : ι → LogImplPc) (p : ι) (x : LogImplPc) :
    (fun q => (Function.update f p x q).toProducer)
      = Function.update (fun q => (f q).toProducer) p x.toProducer := by
  funext q
  by_cases hq : q = p
  · subst hq
    simp
  · simp [Function.update_of_ne hq]

/-- producer の step の射影。 -/
theorem toRing_producer {p : ι} {x : LogImplPc} {m : Shared} {b : Bool}
    (hring : ringStep .unbounded s.toRing (.producer p b) = some
      { s.toRing with
        mem := m
        producers := Function.update s.toRing.producers p x.toProducer }) :
    run (ringStep .unbounded) s.toRing [.producer p b]
      = some ({ s.setProducer p x with mem := m } : HandlerState ι).toRing := by
  simp only [run, hring, Option.bind_some, Option.some.injEq]
  simp only [HandlerState.toRing, HandlerState.setProducer, toProducer_update]

theorem exists_run_of_toRing_eq (h : s'.toRing = s.toRing) :
    ∃ acts, run (ringStep .unbounded) s.toRing acts = some s'.toRing :=
  ⟨[], by rw [h]; rfl⟩

/-- handler の一 step は、ring の系の高々一 step に写る。 -/
theorem exists_ring_run (h : handlerStep .unbounded s a = some s') :
    ∃ acts, run (ringStep .unbounded) s.toRing acts = some s'.toRing := by
  cases handlerStep_move h with
  | @enter p b record hp hr =>
    refine ⟨[.call p record s.name], ?_⟩
    have hidle : s.toRing.producers p = .idle := by simp [HandlerState.toRing, hp,
      LogImplPc.toProducer]
    simp only [run, ringStep, hidle, Option.bind_some, Option.some.injEq]
    simp only [HandlerState.toRing, HandlerState.setProducer, toProducer_update]
    rfl
  | @enqueue p b c pc m pc' hp he =>
    refine ⟨[.producer p b], toRing_producer ?_⟩
    have hcall : s.toRing.producers p = .inCall c pc := by simp [HandlerState.toRing, hp,
      LogImplPc.toProducer]
    cases pc with
    | ret ok => simp [enqueueStep] at he
    | loadHead | loadSeq _ | cas _ | writing _ _ =>
      simp only [ringStep, hcall]
      rw [show s.toRing.mem = s.mem from rfl, he]
      rfl
  | @enqueueRet p b c ok hp =>
    refine ⟨[.producer p b], toRing_producer ?_⟩
    have hcall : s.toRing.producers p = .inCall c (.ret ok) := by simp [HandlerState.toRing, hp,
      LogImplPc.toProducer]
    simp only [ringStep, hcall]
    cases ok <;> rfl
  | drainReady ht hr =>
    refine ⟨[.peek], ?_⟩
    have hr' : (lmkRingPeekSlot .unbounded s.mem.ring).isSome = true := (peek_isSome_iff _).mpr hr
    simp [run, ringStep, HandlerState.toRing, ht, ThreadPc.toConsumer, hr']
  | process ht =>
    exact ⟨[.process], by simp [run, ringStep, HandlerState.toRing, ht, ThreadPc.toConsumer]⟩
  | consumeStore ht =>
    refine ⟨[.release], ?_⟩
    simp only [run, ringStep, HandlerState.toRing, ht, ThreadPc.toConsumer, Option.bind_some]
    rfl
  | consumeTail ht =>
    refine ⟨[.advance], ?_⟩
    simp only [run, ringStep, HandlerState.toRing, ht, ThreadPc.toConsumer, Option.bind_some]
    rfl
  -- 以下の step は ring から見える位置を変えない
  | @logImpl p record hp | @stopped p _ _ hp hr | @addDropped p _ hp | @addLogCalls p _ hp
  | @fence p _ hp | @loadSleeping p _ hp | @loadAwake p _ hp | @wakeLock p _ hp hl
  | @wakeUnlock p _ hp =>
    refine exists_run_of_toRing_eq (toRing_eq_of rfl ?_ rfl)
    intro q
    exact toProducer_setProducer (by simp [hp, LogImplPc.toProducer]) q
  | @wakeSignal p b hp =>
    refine exists_run_of_toRing_eq (toRing_eq_of rfl ?_ (toConsumer_signal _))
    intro q
    exact toProducer_setProducer (by simp [hp, LogImplPc.toProducer]) q
  | drainEmpty ht hr =>
    refine exists_run_of_toRing_eq (toRing_eq_of rfl (fun _ => rfl) ?_)
    rw [toConsumer_afterDrain, ht]
    rfl
  | flush ht | loadRunning ht hr | lock ht hl | storeSleeping ht | rePeekReady ht hr
  | rePeekEmpty ht hr | reloadRunning ht hr | reloadStopped ht hr | condWait ht | woken ht hl
  | clearSleeping ht | unlock ht | finalFlush ht
  | spuriousWakeup ht =>
    refine exists_run_of_toRing_eq (toRing_eq_of rfl (fun _ => rfl) ?_)
    rw [ht]
    rfl
  | loadStopped ht hr =>
    refine exists_run_of_toRing_eq (toRing_eq_of rfl (fun _ => rfl) ?_)
    rw [toConsumer_afterStop, ht]
    rfl
  | broadcast => exact exists_run_of_toRing_eq (toRing_eq_of rfl (fun _ => rfl) (by simp))
  | storeRunning | destroyLock | destroyUnlock | join => exact exists_run_of_toRing_eq rfl

/-- handler の系で到達できる状態は、ring の系としても到達できる。 -/
theorem reachable_toRing {s₀ : HandlerState ι} (h : Reachable (handlerStep .unbounded) s₀ s) :
    Reachable (ringStep .unbounded) s₀.toRing s.toRing := by
  refine Reachable.simulates (f := HandlerState.toRing) ?_ h
  intro u a u' _ hs
  exact exists_ring_run hs

omit [DecidableEq ι] in
variable {type : HandlerType} {name : CStr} {k : Nat}

theorem ringInv_handler (hk : 1 ≤ k)
    (h : Reachable (handlerStep .unbounded) (handlerInitial ι type name k) s) : RingInv s.toRing :=
  ringInv_reachable hk (reachable_toRing h)

end Logmoko
