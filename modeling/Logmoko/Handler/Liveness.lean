import Logmoko.Handler.Shutdown
import Logmoko.Handler.Wakeup

/-!
# 停止は終わり、consumer は追いつく

handler の thread が止まってしまわないことを二つ示す。

* `destroy_returns` — `destroy` が始まれば、どんな interleaving でも決まった数の step の内に
  consumer が抜け、join が返る
* `consumer_catches_up` — producer がみな外にいれば、consumer は一人で ring を空にして眠る

どちらも、進めない状態が無いことと、step ごとに減る量があることからなる。
進めない状態が無いことには、`wakeup_lock` の持ち主が必ず lock を持つ位置にいること
（`LockInv`）を使う。減る量は、受け取っていない record の個数と実行位置で決まる。
-/

namespace Logmoko

open Transition

variable {ι : Type}

/-! ## lock の持ち主 -/

/-- `wakeup_lock` の持ち主は、lock を持つ位置にいる。 -/
structure LockInv (s : HandlerState ι) : Prop where
  consumer : s.wakeupLock = some .consumer → s.thread.HoldsLock
  producer : ∀ p, s.wakeupLock = some (.producer p) → (s.producers p).HoldsLock
  destroyer : s.wakeupLock = some .destroyer → s.destroy.HoldsLock

theorem lockInv_initial (type : HandlerType) (name : CStr) (k : Nat) :
    LockInv (handlerInitial ι type name k) := by
  constructor <;> simp [handlerInitial]

theorem ThreadPc.HoldsLock.signal {t : ThreadPc} (h : t.HoldsLock) : t.signal.HoldsLock := by
  cases t <;> first | exact h.elim | trivial

variable {s s' : HandlerState ι} {a : HandlerAction ι}

/-- lock を空ける step の後には、持ち主がいない。 -/
theorem LockInv.released (hl : s.wakeupLock = none) : LockInv s := by
  constructor <;> simp [hl]

/-- lock に触らない consumer の step。 -/
theorem LockInv.setThread (h : LockInv s) {t : ThreadPc} {m : Shared} {b : Bool}
    (ht : s.thread.HoldsLock → t.HoldsLock) :
    LockInv { s with mem := m, sleeping := b, thread := t } where
  consumer hl := ht (h.consumer hl)
  producer := h.producer
  destroyer := h.destroyer

/-- lock に触らない destroyer の step。 -/
theorem LockInv.setDestroy (h : LockInv s) {d : DestroyPc} {t : ThreadPc} {b : Bool}
    (ht : s.thread.HoldsLock → t.HoldsLock) (hd : s.destroy.HoldsLock → d.HoldsLock) :
    LockInv { s with running := b, thread := t, destroy := d } where
  consumer hl := ht (h.consumer hl)
  producer := h.producer
  destroyer hl := hd (h.destroyer hl)

variable [DecidableEq ι]

/-- lock に触らない producer の step。 -/
theorem LockInv.setProducer (h : LockInv s) {p : ι} {x : LogImplPc} {m : Shared} {t : ThreadPc}
    {n₁ n₂ n₃ : Nat} (hx : (s.producers p).HoldsLock → x.HoldsLock)
    (ht : s.thread.HoldsLock → t.HoldsLock) :
    LockInv { s.setProducer p x with
      mem := m, thread := t, nrLogCalls := n₁, dropped := n₂, calls := n₃ } where
  consumer hl := ht (h.consumer hl)
  producer q hl := by
    show ((s.setProducer p x).producers q).HoldsLock
    by_cases hq : q = p
    · subst hq
      rw [setProducer_self]
      exact hx (h.producer q hl)
    · rw [setProducer_of_ne s x hq]
      exact h.producer q hl
  destroyer := h.destroyer

theorem lockInv_step (h : LockInv s) (hs : handlerStep .unbounded s a = some s') : LockInv s' := by
  cases handlerStep_move hs with
  | logImpl hp | enter hp | stopped hp | enqueue hp | enqueueRet hp | addDropped hp
  | addLogCalls hp | fence hp | loadSleeping hp | loadAwake hp =>
    refine h.setProducer ?_ id
    rw [hp]
    exact False.elim
  | @wakeLock p _ hp hl =>
    refine ⟨nofun, ?_, nofun⟩
    intro q hq
    obtain rfl : p = q := by simpa using hq
    show ((s.setProducer p _).producers p).HoldsLock
    rw [setProducer_self]
    trivial
  | wakeSignal => exact h.setProducer (fun _ => trivial) ThreadPc.HoldsLock.signal
  | wakeUnlock | condWait | unlock | destroyUnlock => exact LockInv.released rfl
  | drainReady ht | drainEmpty ht | process ht | consumeStore ht | consumeTail ht | flush ht
  | loadRunning ht | loadStopped ht | finalFlush ht | spuriousWakeup ht =>
    refine h.setThread ?_
    rw [ht]
    exact False.elim
  | storeSleeping | rePeekReady | rePeekEmpty | reloadRunning | reloadStopped | clearSleeping =>
    exact h.setThread fun _ => trivial
  | lock | woken => exact ⟨fun _ => trivial, nofun, nofun⟩
  | storeRunning hd | join hd =>
    refine h.setDestroy id ?_
    rw [hd]
    exact False.elim
  | destroyLock => exact ⟨nofun, nofun, fun _ => trivial⟩
  | broadcast => exact h.setDestroy ThreadPc.HoldsLock.signal fun _ => trivial

/-! ## 受け取っていない record -/

/-- claim されていて、まだ手放されていない位置の個数。 -/
def HandlerState.pending (s : HandlerState ι) : Nat := s.mem.ring.head - s.mem.released

omit [DecidableEq ι] in
/-- slot を持つ consumer には、受け取っていない record がある。 -/
theorem pending_pos_of_holds (h : RingInv s.toRing) (hc : s.thread.toConsumer.Holds) :
    0 < s.pending := by
  have hok : s.mem.ConsumerOk s.thread.toConsumer := h.consumer
  have htail : s.mem.ring.tail + s.thread.toConsumer.lag = s.mem.released := h.tail_eq
  have hlag : s.thread.toConsumer.lag = 0 := by
    revert hc
    cases s.thread.toConsumer <;> simp [RingConsumer.Holds, RingConsumer.lag]
  have hlt : s.mem.ring.tail < s.mem.ring.head := by
    revert hok hc
    cases s.thread.toConsumer with
    | peeked | processed req => exact fun _ hok => hok.1
    | idle | released => exact fun hc _ => hc.elim
  unfold HandlerState.pending
  omega

omit [DecidableEq ι] in
/-- slot を手放すと、受け取っていない record が一つ減る。 -/
theorem pending_release (s : HandlerState ι) (req : LogRequest) (t : ThreadPc) :
    ({ s with mem := s.mem.release req, thread := t } : HandlerState ι).pending
      = s.pending - 1 := by
  show s.mem.ring.head - (s.mem.hist.consumed ++ [req]).length
    = s.mem.ring.head - s.mem.hist.consumed.length - 1
  rw [List.length_append, List.length_singleton]
  omega

omit [DecidableEq ι] in
theorem pending_le_size (h : RingInv s.toRing) : s.pending ≤ s.mem.ring.size := by
  have : s.mem.ring.head ≤ s.mem.released + s.mem.ring.size := h.head_le
  unfold HandlerState.pending
  omega

/-! ## 停止までの step 数 -/

/-- 停止を待つ consumer に残る step の個数の上界。`n` は受け取っていない record の個数である。 -/
def ThreadPc.stopSteps (n : Nat) : ThreadPc → Nat
  | .exited => 0
  | .finalFlush => 1
  | .loadRunning => 2
  | .flush => 3
  | .consumeStore _ => 4 * n + 2
  | .process => 4 * n + 3
  | .drainPeek => 4 * n + 4
  | .consumeTail | .unlock => 4 * n + 5
  | .clearSleeping => 4 * n + 6
  | .reloadRunning => 4 * n + 7
  | .rePeek => 4 * n + 8
  | .storeSleeping | .woken => 4 * n + 9
  | .lock | .parked => 4 * n + 10
  | .condWait => 4 * n + 11

/-- destroyer に残る step の個数。 -/
def DestroyPc.stopSteps : DestroyPc → Nat
  | .notCalled => 5
  | .lock => 4
  | .broadcast => 3
  | .unlock => 2
  | .join => 1
  | .joined => 0

/-- 停止までに残る step の個数の上界。 -/
def HandlerState.stopSteps (s : HandlerState ι) : Nat :=
  s.thread.stopSteps s.pending + s.destroy.stopSteps

theorem ThreadPc.stopSteps_le (n : Nat) (t : ThreadPc) : t.stopSteps n ≤ 4 * n + 11 := by
  cases t <;> simp only [ThreadPc.stopSteps] <;> omega

theorem ThreadPc.stopSteps_signal_le (n : Nat) (t : ThreadPc) :
    t.signal.stopSteps n ≤ t.stopSteps n := by
  cases t <;> simp only [ThreadPc.stopSteps, ThreadPc.signal] <;> omega

theorem ThreadPc.stopSteps_afterDrain_lt (n : Nat) (type : HandlerType) :
    (ThreadPc.afterDrain type).stopSteps n < 4 := by
  cases type <;> simp [ThreadPc.afterDrain, ThreadPc.stopSteps]

theorem ThreadPc.stopSteps_afterStop_lt (n : Nat) (type : HandlerType) :
    (ThreadPc.afterStop type).stopSteps n < 2 := by
  cases type <;> simp [ThreadPc.afterStop, ThreadPc.stopSteps]

/-- `running` が 0 なら、consumer のどの step も残りを減らす。 -/
theorem stopSteps_thread_lt (hring : RingInv s.toRing) (hrun : s.running = false)
    (hs : HandlerMove s .thread s') : s'.thread.stopSteps s'.pending < s.thread.stopSteps s.pending
    := by
  cases hs with
  | drainEmpty ht =>
    have := ThreadPc.stopSteps_afterDrain_lt s.pending s.type
    rw [ht]
    show (ThreadPc.afterDrain s.type).stopSteps s.pending < 4 * s.pending + 4
    omega
  | loadStopped ht =>
    have := ThreadPc.stopSteps_afterStop_lt s.pending s.type
    show (ThreadPc.afterStop s.type).stopSteps s.pending < _
    rw [ht]
    exact this
  | @consumeStore req ht =>
    -- 手放した分の 4 が、次の一周の分を払う
    have hpos := pending_pos_of_holds hring (by rw [ht]; trivial)
    rw [pending_release, ht]
    simp only [ThreadPc.stopSteps]
    omega
  | loadRunning ht hr | reloadRunning ht hr => simp [hrun] at hr
  | drainReady ht | process ht | consumeTail ht | flush ht | lock ht | storeSleeping ht
  | rePeekReady ht | rePeekEmpty ht | reloadStopped ht | condWait ht | woken ht
  | clearSleeping ht | unlock ht | finalFlush ht =>
    rw [ht]
    simp [ThreadPc.stopSteps, HandlerState.pending, Shared.released]

/-- `destroy` が始まった後は、どの step も残りを減らす。 -/
theorem stopSteps_lt (hring : RingInv s.toRing) (hstop : StopInv s) (hd : s.destroy ≠ .notCalled)
    (hq : QuietShutdown s a) (hs : handlerStep .unbounded s a = some s') :
    s'.stopSteps < s.stopSteps := by
  have hmove := handlerStep_move hs
  unfold HandlerState.stopSteps
  cases a with
  | logImpl p record => exact absurd hq hd
  | producer p b => exact absurd (hstop.notCalled_of_producer hmove) hd
  | thread =>
    have hlt := stopSteps_thread_lt hring (hstop.after hd).1 hmove
    rw [hmove.thread_frame.1]
    omega
  | spuriousWakeup =>
    cases hmove with
    | spuriousWakeup ht =>
      rw [ht]
      simp [ThreadPc.stopSteps, HandlerState.pending]
  | destroy =>
    cases hmove with
    | storeRunning hd' => exact absurd hd' hd
    | broadcast hd' =>
      have := ThreadPc.stopSteps_signal_le s.pending s.thread
      rw [hd']
      show s.thread.signal.stopSteps s.pending + _ < _
      simp only [DestroyPc.stopSteps]
      omega
    | destroyLock hd' | destroyUnlock hd' | join hd' =>
      rw [hd']
      simp [DestroyPc.stopSteps, HandlerState.pending]

/-! ## 進めない状態 -/

omit [DecidableEq ι] in
/-- lock を持つ consumer は進める。 -/
theorem threadStep_of_holdsLock (h : s.thread.HoldsLock) :
    (threadStep .unbounded s).isSome := by
  unfold threadStep
  cases ht : s.thread with
  | storeSleeping | rePeek | reloadRunning | condWait | clearSleeping | unlock => rfl
  | drainPeek | process | consumeStore _ | consumeTail | flush | loadRunning | lock | parked
  | woken | finalFlush | exited =>
    rw [ht] at h
    exact h.elim

omit [DecidableEq ι] in
/-- lock が空いていれば、眠っているか抜けた consumer のほかは進める。 -/
theorem threadStep_of_free (hl : s.wakeupLock = none) (hp : s.thread ≠ .parked)
    (hx : s.thread ≠ .exited) : (threadStep .unbounded s).isSome := by
  unfold threadStep
  cases ht : s.thread with
  | parked => exact absurd ht hp
  | exited => exact absurd ht hx
  | lock | woken => simp [hl]
  | drainPeek | process | consumeStore _ | consumeTail | flush | loadRunning | storeSleeping
  | rePeek | reloadRunning | condWait | clearSleeping | unlock | finalFlush => rfl

/-- `destroy` が始まった後で consumer も destroyer も進めないなら、停止は終わっている。 -/
theorem stopped_of_stuck (hwake : WakeInv s) (hlock : LockInv s) (hstop : StopInv s)
    (hd : s.destroy ≠ .notCalled) (hthread : handlerStep .unbounded s .thread = none)
    (hdestroy : handlerStep .unbounded s .destroy = none) :
    s.thread = .exited ∧ s.destroy = .joined := by
  have ht : ¬ (threadStep .unbounded s).isSome := by
    rw [show threadStep .unbounded s = none from hthread]
    exact Bool.false_ne_true
  have hdes : destroyStep s = none := hdestroy
  -- 持ち主がいれば、その持ち主が進める
  have hfree : s.wakeupLock = none := by
    cases hl : s.wakeupLock with
    | none => rfl
    | some owner =>
      cases owner with
      | consumer => exact absurd (threadStep_of_holdsLock (hlock.consumer hl)) ht
      | producer p =>
        have := hlock.producer p hl
        rw [(hstop.after hd).2 p] at this
        exact this.elim
      | destroyer =>
        have := hlock.destroyer hl
        unfold destroyStep at hdes
        cases hdd : s.destroy <;> simp [hdd, DestroyPc.HoldsLock] at this hdes
  have hexit : s.thread = .exited := by
    by_contra hx
    by_cases hp : s.thread = .parked
    · -- 眠ったままなら、destroyer はまだ broadcast の手前にいて、進める
      have hw := hwake.stopped (by rw [hp]; trivial) (hstop.after hd).1
      unfold destroyStep at hdes
      cases hdd : s.destroy <;> simp [hdd, DestroyPc.Waking, hfree] at hw hdes
    · exact ht (threadStep_of_free hfree hp hx)
  refine ⟨hexit, ?_⟩
  unfold destroyStep at hdes
  cases hdd : s.destroy <;> simp_all [ThreadPc.isExited]

/-! ## 停止は終わる -/

/-- join は、consumer が抜けた後にだけ返る。 -/
def JoinInv (s : HandlerState ι) : Prop := s.destroy = .joined → s.thread = .exited

theorem joinInv_step (h : JoinInv s) (hs : handlerStep .unbounded s a = some s') : JoinInv s' := by
  intro hd
  have hmove := handlerStep_move hs
  cases a with
  | logImpl p record => cases hmove with | logImpl => exact h hd
  | producer p b =>
    obtain ⟨hd', -, ht⟩ := hmove.producer_frame
    have hx := h (hd'.symm.trans hd)
    rcases ht with ht | ht <;> rw [ht, hx]
    rfl
  | thread =>
    have hx := h (hmove.thread_frame.1.symm.trans hd)
    -- 抜けた consumer はもう動かない
    have hs' : threadStep .unbounded s = some s' := hs
    simp [threadStep, hx] at hs'
  | spuriousWakeup =>
    cases hmove with
    | spuriousWakeup ht =>
      have hx := h hd
      simp [ht] at hx
  | destroy =>
    cases hmove with
    | join _ hx => exact hx
    | storeRunning | destroyLock | broadcast | destroyUnlock => cases hd

/-- 停止の議論に使う不変量。 -/
structure StoppingInv (s : HandlerState ι) : Prop where
  ring : RingInv s.toRing
  wake : WakeInv s
  lock : LockInv s
  stop : StopInv s
  join : JoinInv s

variable {type : HandlerType} {name : CStr} {k : Nat} {as bs : List (HandlerAction ι)}
  {t : HandlerState ι}

theorem StoppingInv.step (h : StoppingInv s) (hq : QuietShutdown s a)
    (hs : handlerStep .unbounded s a = some s') : StoppingInv s' where
  ring := ringInv_handlerStep h.ring hs
  wake := wakeInv_step h.wake hs
  lock := lockInv_step h.lock hs
  stop := stopInv_step h.stop hq hs
  join := joinInv_step h.join hs

omit [DecidableEq ι] in
theorem stoppingInv_initial (type : HandlerType) (name : CStr) (hk : 1 ≤ k) :
    StoppingInv (handlerInitial ι type name k) :=
  ⟨ringInv_initial hk, wakeInv_initial type name k, lockInv_initial type name k,
    stopInv_initial type name k, fun hd => by cases hd⟩

theorem stoppingInv_run (hk : 1 ≤ k)
    (hrun : run (handlerStep .unbounded) (handlerInitial ι type name k) as = some s)
    (hquiet : Along (handlerStep .unbounded) QuietShutdown (handlerInitial ι type name k) as) :
    StoppingInv s := by
  exact run_invariant (fun _ _ _ h hq hs => h.step hq hs) (stoppingInv_initial type name hk) hquiet
    hrun

theorem destroy_step (hd : s.destroy ≠ .notCalled) (hs : handlerStep .unbounded s a = some s') :
    s'.destroy ≠ .notCalled := by
  intro he
  have hmove := handlerStep_move hs
  cases a with
  | logImpl p record => cases hmove with | logImpl => exact hd he
  | producer p b => exact hd (hmove.producer_frame.1.symm.trans he)
  | thread => exact hd (hmove.thread_frame.1.symm.trans he)
  | spuriousWakeup => cases hmove with | spuriousWakeup => exact hd he
  | destroy => cases hmove <;> cases he

theorem size_handler (h : Reachable (handlerStep .unbounded) (handlerInitial ι type name k) s) :
    s.mem.ring.size = 2 ^ k :=
  size_reachable (reachable_toRing h)

omit [DecidableEq ι] in
/-- 停止が始まった後に残っている step 数。 -/
theorem stopSteps_le (hring : RingInv s.toRing) (hsize : s.mem.ring.size = 2 ^ k)
    (hd : s.destroy ≠ .notCalled) : s.stopSteps ≤ 4 * 2 ^ k + 15 := by
  have hpending := pending_le_size hring
  rw [hsize] at hpending
  have hthread := ThreadPc.stopSteps_le s.pending s.thread
  have hdestroy : s.destroy.stopSteps ≤ 4 := by
    revert hd
    cases s.destroy <;> simp [DestroyPc.stopSteps]
  have : s.stopSteps = s.thread.stopSteps s.pending + s.destroy.stopSteps := rfl
  omega

/--
**停止は終わる。** すべての `log_impl` が返ってから `destroy` が始まったとする。

その後は、consumer と destroyer と偽の起床がどんな順に動いても、高々 `4 * 2 ^ k + 15` step で
動けるものがなくなる。join が返るのは consumer が抜けた後に限られ、
どちらかが動けないうちは必ずもう一方が動ける。だから最後には consumer が抜けて join が返る。
-/
theorem destroy_returns (hk : 1 ≤ k)
    (hrun : run (handlerStep .unbounded) (handlerInitial ι type name k) as = some s)
    (hquiet : Along (handlerStep .unbounded) QuietShutdown (handlerInitial ι type name k) as)
    (hd : s.destroy ≠ .notCalled) (hrun' : run (handlerStep .unbounded) s bs = some t)
    (hquiet' : Along (handlerStep .unbounded) QuietShutdown s bs) :
    bs.length ≤ 4 * 2 ^ k + 15 ∧ (t.destroy = .joined → t.thread = .exited) ∧
      (handlerStep .unbounded t .thread = none → handlerStep .unbounded t .destroy = none →
        t.thread = .exited ∧ t.destroy = .joined) := by
  have hs := stoppingInv_run hk hrun hquiet
  have hstep : ∀ (u : HandlerState ι) a u', StoppingInv u ∧ u.destroy ≠ .notCalled →
      QuietShutdown u a → handlerStep .unbounded u a = some u' →
      StoppingInv u' ∧ u'.destroy ≠ .notCalled := by
    rintro u a u' ⟨hu, hud⟩ hq hstep
    exact ⟨hu.step hq hstep, destroy_step hud hstep⟩
  obtain ⟨ht, htd⟩ := run_invariant hstep ⟨hs, hd⟩ hquiet' hrun'
  refine ⟨?_, ht.join, stopped_of_stuck ht.wake ht.lock ht.stop htd⟩
  have hlen := run_length_le (μ := HandlerState.stopSteps) hstep
    (fun u a u' hu hq hstep => stopSteps_lt hu.1.ring hu.1.stop hu.2 hq hstep) ⟨hs, hd⟩
    hquiet' hrun'
  have hle := stopSteps_le hs.ring (size_handler ⟨as, hrun⟩) hd
  omega

/-- 眠った consumer に record を一つ渡し、`log_impl` が返ってから `running` に 0 を書く。 -/
def stoppingRun : List (HandlerAction Unit) :=
  List.replicate 8 .thread ++ .logImpl () (sampleRecord 2 65) ::
    List.replicate 18 (.producer () false) ++ [.destroy]

/-- 停止の残り。join は consumer が抜けるのを待つ。 -/
def stoppingRest : List (HandlerAction Unit) :=
  List.replicate 3 .destroy ++ List.replicate 12 .thread ++ [.destroy]

theorem destroy_returns_stoppingRun :
    ∃ s t, run (handlerStep .unbounded) (handlerInitial Unit .file .empty 1) stoppingRun = some s ∧
      run (handlerStep .unbounded) s stoppingRest = some t ∧ stoppingRest.length ≤ 23 ∧
      t.thread = .exited ∧ t.destroy = .joined := by
  have hpc : (run (handlerStep .unbounded) (handlerInitial Unit .file .empty 1)
      (stoppingRun ++ stoppingRest)).map (fun t => t.destroy) = some .joined := by decide +kernel
  have hpc' : (run (handlerStep .unbounded) (handlerInitial Unit .file .empty 1) stoppingRun).map
      (fun s => decide (s.destroy = .notCalled)) = some false := by decide +kernel
  have hquiet : Along (handlerStep .unbounded) QuietShutdown
      (handlerInitial Unit .file .empty 1) (stoppingRun ++ stoppingRest) := by decide +kernel
  obtain ⟨t, ht, hjoined⟩ := Option.map_eq_some_iff.mp hpc
  obtain ⟨s, hs, hrest⟩ := run_append_eq_some.mp ht
  obtain ⟨s', hs', hd⟩ := Option.map_eq_some_iff.mp hpc'
  obtain rfl := Option.some.inj (hs.symm.trans hs')
  obtain ⟨hquiet₁, hquiet₂⟩ := (along_append hs).mp hquiet
  obtain ⟨hlen, hjoin, -⟩ :=
    destroy_returns (Nat.le_refl 1) hs hquiet₁ (of_decide_eq_false hd) hrest hquiet₂
  exact ⟨s, t, hs, hrest, hlen, hjoin hjoined, hjoined⟩

/-! ## 眠るまでの step 数 -/

/-- record が残っている間の、次の record を手放すまでの step 数。 -/
def ThreadPc.busySteps : ThreadPc → Nat
  | .consumeStore _ => 1
  | .process => 2
  | .drainPeek => 3
  | .consumeTail | .unlock => 4
  | .clearSleeping => 5
  | .rePeek => 6
  | .storeSleeping | .woken => 7
  | .lock => 8
  | .loadRunning => 9
  | .flush => 10
  | .reloadRunning | .condWait | .parked | .finalFlush | .exited => 0

/-- 残っていないときの、眠るまでの step 数。 -/
def ThreadPc.idleSteps : ThreadPc → Nat
  | .parked => 0
  | .condWait => 1
  | .reloadRunning => 2
  | .rePeek => 3
  | .storeSleeping | .woken => 4
  | .lock => 5
  | .loadRunning => 6
  | .flush => 7
  | .drainPeek => 8
  | .consumeTail | .unlock => 9
  | .clearSleeping => 10
  | .process | .consumeStore _ | .finalFlush | .exited => 0

/-- record を `n` 個残した consumer が眠るまでの step 数の上界。 -/
def ThreadPc.catchUpSteps (n : Nat) (t : ThreadPc) : Nat :=
  if n = 0 then t.idleSteps else 10 * n + t.busySteps

theorem ThreadPc.catchUpSteps_le (n : Nat) (t : ThreadPc) : t.catchUpSteps n ≤ 10 * n + 10 := by
  unfold ThreadPc.catchUpSteps
  split
  · have : t.idleSteps ≤ 10 := by cases t <;> simp [ThreadPc.idleSteps]
    omega
  · have : t.busySteps ≤ 10 := by cases t <;> simp [ThreadPc.busySteps]
    omega

/-- `destroy` が呼ばれるまで、`running` は 1 で、consumer は停止を読んでいない。 -/
def RunningInv (s : HandlerState ι) : Prop :=
  s.destroy = .notCalled → s.running = true ∧ ¬ s.thread.Stopped

theorem runningInv_step (h : RunningInv s) (hs : handlerStep .unbounded s a = some s') :
    RunningInv s' := by
  intro hd
  have hmove := handlerStep_move hs
  cases a with
  | logImpl p record => cases hmove with | logImpl => exact h hd
  | producer p b =>
    obtain ⟨hd', hr, ht⟩ := hmove.producer_frame
    obtain ⟨hrun, hn⟩ := h (hd'.symm.trans hd)
    refine ⟨hr.trans hrun, ?_⟩
    rcases ht with ht | ht <;> rw [ht]
    · exact hn
    · exact fun hsig => hn hsig.of_signal
  | thread =>
    obtain ⟨hd', hr, -⟩ := hmove.thread_frame
    obtain ⟨hrun, hn⟩ := h (hd'.symm.trans hd)
    exact ⟨hr.trans hrun, hmove.thread_stopped hrun hn⟩
  | spuriousWakeup => cases hmove with | spuriousWakeup => exact ⟨(h hd).1, id⟩
  | destroy => cases hmove <;> cases hd

/-- producer がみな外にいて、`destroy` は呼ばれていない。 -/
structure Quiescent (s : HandlerState ι) : Prop where
  ring : RingInv s.toRing
  wake : WakeInv s
  lock : LockInv s
  running : s.running = true
  notStopped : ¬ s.thread.Stopped
  idle : ∀ p, s.producers p = .idle
  notCalled : s.destroy = .notCalled

omit [DecidableEq ι] in
/-- consumer の外に lock の持ち主はいない。 -/
theorem Quiescent.lock_free (h : Quiescent s) (ht : ¬ s.thread.HoldsLock) :
    s.wakeupLock = none := by
  cases hl : s.wakeupLock with
  | none => rfl
  | some owner =>
    cases owner with
    | consumer => exact absurd (h.lock.consumer hl) ht
    | producer p =>
      have := h.lock.producer p hl
      rw [h.idle p] at this
      exact this.elim
    | destroyer =>
      have := h.lock.destroyer hl
      rw [h.notCalled] at this
      exact this.elim

omit [DecidableEq ι] in
/-- 手放し終えた consumer から見て、次の slot が ready なのは record が残っているときである。 -/
theorem Quiescent.ready_iff (h : Quiescent s) (hlag : s.toRing.consumer.lag = 0) :
    s.mem.ring.TailReady ↔ 0 < s.pending := by
  have htail : s.mem.ring.tail + s.toRing.consumer.lag = s.mem.released := h.ring.tail_eq
  unfold HandlerState.pending
  constructor
  · intro hr
    have hlt : s.mem.ring.tail < s.mem.ring.head := (h.ring.published_of_ready hlag hr).1
    omega
  · intro hpos
    by_contra hr
    have := tail_eq_head_of_not_ready h.ring h.idle hlag hr
    omega

/-- 眠っていない consumer の step は、静かな状態を保ち、眠るまでの残りを減らす。 -/
theorem Quiescent.step (h : Quiescent s) (hs : HandlerMove s .thread s')
    (hstep : handlerStep .unbounded s .thread = some s') :
    Quiescent s' ∧ s'.thread.catchUpSteps s'.pending < s.thread.catchUpSteps s.pending := by
  obtain ⟨hd, hr, hp⟩ := hs.thread_frame
  have hq : Quiescent s' :=
    ⟨ringInv_handlerStep h.ring hstep, wakeInv_step h.wake hstep, lockInv_step h.lock hstep,
      hr.trans h.running, hs.thread_stopped h.running h.notStopped,
      fun p => by rw [hp]; exact h.idle p, hd.trans h.notCalled⟩
  refine ⟨hq, ?_⟩
  cases hs with
  | drainReady ht hready | rePeekReady ht hready =>
    -- 空でないと分かったので、record の残っている側の step 数を見る
    have hpos := (h.ready_iff (by simp [HandlerState.toRing, ht, ThreadPc.toConsumer,
      RingConsumer.lag])).mp hready
    rw [ht]
    show ThreadPc.catchUpSteps s.pending _ < _
    simp only [ThreadPc.catchUpSteps, ThreadPc.busySteps, if_neg (Nat.ne_of_gt hpos)]
    omega
  | drainEmpty ht hready | rePeekEmpty ht hready =>
    have hzero : s.pending = 0 := by
      have := mt (h.ready_iff (by simp [HandlerState.toRing, ht, ThreadPc.toConsumer,
        RingConsumer.lag])).mpr hready
      omega
    rw [ht]
    show ThreadPc.catchUpSteps s.pending _ < _
    cases htype : s.type <;> simp [ThreadPc.catchUpSteps, ThreadPc.idleSteps, hzero,
      ThreadPc.afterDrain]
  | @consumeStore req ht =>
    have hpos := pending_pos_of_holds h.ring (by rw [ht]; trivial)
    rw [pending_release, ht]
    simp only [ThreadPc.catchUpSteps, ThreadPc.busySteps, ThreadPc.idleSteps]
    split <;> split <;> omega
  | process ht =>
    have hpos := pending_pos_of_holds h.ring (by rw [ht]; trivial)
    rw [ht]
    show ThreadPc.catchUpSteps s.pending _ < _
    simp only [ThreadPc.catchUpSteps, ThreadPc.busySteps, if_neg (Nat.ne_of_gt hpos)]
    omega
  | reloadRunning ht | condWait ht =>
    -- 二度目の peek は空だったので、record は残っていない
    have hzero : s.pending = 0 := by
      by_contra hne
      have hready := (h.ready_iff (by simp [HandlerState.toRing, ht, ThreadPc.toConsumer,
        RingConsumer.lag])).mpr (Nat.pos_of_ne_zero hne)
      obtain ⟨p, hp⟩ := h.wake.ready (by rw [ht]; trivial) hready
      rw [h.idle p] at hp
      exact hp
    rw [ht]
    show ThreadPc.catchUpSteps s.pending _ < _
    simp [ThreadPc.catchUpSteps, ThreadPc.idleSteps, hzero]
  | loadStopped _ hr' | reloadStopped _ hr' => simp [h.running] at hr'
  | finalFlush ht => exact absurd (by rw [ht]; trivial) h.notStopped
  | consumeTail ht | flush ht | loadRunning ht | lock ht | storeSleeping ht | woken ht
  | clearSleeping ht | unlock ht =>
    rw [ht]
    show ThreadPc.catchUpSteps s.pending _ < _
    simp only [ThreadPc.catchUpSteps, ThreadPc.busySteps, ThreadPc.idleSteps]
    split <;> omega

/--
**consumer は追いつく。** `destroy` の前の到達できるどの状態でも、producer がみな外にいるなら、
consumer は一人で高々 `10 * 2 ^ k + 10` step 動けば眠る。

そのとき ring は空で、受け入れた record はすべて、claim の順に受け取られている。
ほかの誰かに起こされるのを待つことはない。
-/
theorem consumer_catches_up (hk : 1 ≤ k)
    (hrun : run (handlerStep .unbounded) (handlerInitial ι type name k) as = some s)
    (hidle : ∀ p, s.producers p = .idle) (hd : s.destroy = .notCalled) :
    ∃ n t, n ≤ 10 * 2 ^ k + 10 ∧
      run (handlerStep .unbounded) s (List.replicate n .thread) = some t ∧
      t.thread = .parked ∧ t.mem.hist.claims = s.mem.hist.claims ∧ t.Drained := by
  have hreach : Reachable (handlerStep .unbounded) (handlerInitial ι type name k) s := ⟨as, hrun⟩
  obtain ⟨hrunning, hstopped⟩ :=
    hreach.invariant (fun _ _ _ => runningInv_step) (fun _ => ⟨rfl, id⟩) hd
  have hlock : LockInv s :=
    hreach.invariant (fun _ _ _ => lockInv_step) (lockInv_initial type name k)
  have hstart : Quiescent s ∧ s.mem.hist.claims = s.mem.hist.claims :=
    ⟨⟨ringInv_handler hk hreach, wakeInv_reachable hreach, hlock, hrunning, hstopped, hidle, hd⟩,
      rfl⟩
  have hstep : ∀ u : HandlerState ι, Quiescent u ∧ u.mem.hist.claims = s.mem.hist.claims →
      ¬ u.thread = .parked → ∃ u', handlerStep .unbounded u .thread = some u' ∧
        (Quiescent u' ∧ u'.mem.hist.claims = s.mem.hist.claims) ∧
        u'.thread.catchUpSteps u'.pending < u.thread.catchUpSteps u.pending := by
    rintro u ⟨hu, hclaims⟩ hnot
    have hsome : (threadStep .unbounded u).isSome := by
      by_cases hheld : u.thread.HoldsLock
      · exact threadStep_of_holdsLock hheld
      · refine threadStep_of_free (hu.lock_free hheld) hnot ?_
        intro hx
        exact hu.notStopped (by rw [hx]; trivial)
    obtain ⟨u', hu'⟩ := Option.isSome_iff_exists.mp hsome
    have hu' : handlerStep .unbounded u .thread = some u' := hu'
    obtain ⟨hq, hlt⟩ := hu.step (handlerStep_move hu') hu'
    refine ⟨u', hu', ⟨hq, ?_⟩, hlt⟩
    rw [← hclaims]
    cases handlerStep_move hu' <;> rfl
  obtain ⟨n, t, hn, hrun', ⟨hq, hclaims⟩, hparked⟩ :=
    exists_replicate_run HandlerAction.thread hstep hstart
  refine ⟨n, t, ?_, hrun', hparked, hclaims, ?_⟩
  · have hpending := pending_le_size hstart.1.ring
    rw [size_handler hreach] at hpending
    have := ThreadPc.catchUpSteps_le s.pending s.thread
    omega
  · have hlag : t.toRing.consumer.lag = 0 := by
      simp [HandlerState.toRing, hparked, ThreadPc.toConsumer, RingConsumer.lag]
    have hready : ¬ t.mem.ring.TailReady := by
      intro hr
      obtain ⟨p, hp⟩ := hq.wake.ready (by rw [hparked]; trivial) hr
      rw [hq.idle p] at hp
      exact hp
    have hreach' : Reachable (handlerStep .unbounded) (handlerInitial ι type name k) t :=
      ⟨as ++ List.replicate n .thread, run_append_eq_some.mpr ⟨s, hrun, hrun'⟩⟩
    exact drained_of_tail_eq hq.ring (callInv_reachable (reachable_toRing hreach')) hq.idle hlag
      (tail_eq_head_of_not_ready hq.ring hq.idle hlag hready)

/-- consumer が一度も動かないうちに、producer が record を一つ入れて返る。 -/
def behindRun : List (HandlerAction Unit) :=
  .logImpl () (sampleRecord 2 65) :: List.replicate 15 (.producer () false)

theorem consumer_catches_up_behindRun :
    ∃ s n t,
      run (handlerStep .unbounded) (handlerInitial Unit .socket .empty 1) behindRun = some s ∧
      s.mem.hist.consumed.length = 0 ∧ n ≤ 30 ∧
      run (handlerStep .unbounded) s (List.replicate n .thread) = some t ∧
      t.mem.hist.consumed.length = 1 := by
  have hpc : (run (handlerStep .unbounded) (handlerInitial Unit .socket .empty 1) behindRun).map
      (fun s => (((s.producers ()).isIdle, s.destroy),
        s.mem.hist.consumed.length, s.mem.hist.claims.length))
        = some ((true, .notCalled), 0, 1) := by decide +kernel
  obtain ⟨s, hs, hp⟩ := Option.map_eq_some_iff.mp hpc
  simp only [Prod.mk.injEq, LogImplPc.isIdle_iff] at hp
  obtain ⟨⟨hidle, hd⟩, hconsumed, hclaims⟩ := hp
  obtain ⟨n, t, hn, hrun, -, hsame, hdrained⟩ :=
    consumer_catches_up (Nat.le_refl 1) hs (fun _ => hidle) hd
  refine ⟨s, n, t, hs, hconsumed, hn, hrun, ?_⟩
  rw [hdrained.delivered.length_eq, hsame, hclaims]

end Logmoko
