import Logmoko.Handler.Move

/-!
# 起こし損ねがないこと

consumer は ring が空だと確かめてから眠り、producer は公開の後に `sleeping` を読んで
必要なら signal を送る。この受け渡しの正しさを、一つの不変量 `WakeInv` にまとめる。

* lock を持つ位置にいる thread は、本当に `wakeup_lock` の持ち主である
* consumer が空を確かめてから眠り終えるまで、`sleeping` は 1 である
* その間に次の slot が ready になったなら、公開した producer はまだ signal を終えていない
* `running` を確かめた後に 0 になったなら、destroyer はまだ broadcast を終えていない

主結果は `no_lost_wakeup` である。
-/

namespace Logmoko

open Transition

/-! ## 実行位置の分類 -/

/-- consumer が `wakeup_lock` を持つ位置。 -/
def ThreadPc.HoldsLock : ThreadPc → Prop
  | .storeSleeping | .rePeek | .reloadRunning | .condWait | .clearSleeping | .unlock => True
  | _ => False

/-- producer が `wakeup_lock` を持つ位置。 -/
def LogImplPc.HoldsLock : LogImplPc → Prop
  | .wakeSignal | .wakeUnlock => True
  | _ => False

/-- destroyer が `wakeup_lock` を持つ位置。 -/
def DestroyPc.HoldsLock : DestroyPc → Prop
  | .broadcast | .unlock => True
  | _ => False

/-- `sleeping` が 1 である位置。 -/
def ThreadPc.Sleeping : ThreadPc → Prop
  | .rePeek | .reloadRunning | .condWait | .parked | .woken | .clearSleeping => True
  | _ => False

/-- 眠る前の二度目の peek が空だった後、まだ起こされていない位置。 -/
def ThreadPc.SawEmpty : ThreadPc → Prop
  | .reloadRunning | .condWait | .parked => True
  | _ => False

/-- さらに `running` が 1 だと読んだ後の位置。 -/
def ThreadPc.SawRunning : ThreadPc → Prop
  | .condWait | .parked => True
  | _ => False

/-- slot を公開した後、まだ signal を終えていない producer の位置。 -/
def LogImplPc.Waking : LogImplPc → Prop
  | .enqueue _ (.ret ok) => ok = true
  | .addLogCalls | .fence | .loadSleeping | .wakeLock | .wakeSignal => True
  | _ => False

/-- `running` に 0 を書いた後、まだ broadcast を終えていない destroyer の位置。 -/
def DestroyPc.Waking : DestroyPc → Prop
  | .lock | .broadcast => True
  | _ => False

theorem ThreadPc.SawEmpty.sleeping {t : ThreadPc} (h : t.SawEmpty) : t.Sleeping := by
  cases t <;> first | exact h.elim | trivial

theorem ThreadPc.SawRunning.sawEmpty {t : ThreadPc} (h : t.SawRunning) : t.SawEmpty := by
  cases t <;> first | exact h.elim | trivial

/-- signal の後も眠ろうとしている consumer は、lock を持っている。 -/
theorem ThreadPc.SawEmpty.holdsLock_of_signal {t : ThreadPc} (h : t.signal.SawEmpty) :
    t.HoldsLock := by
  cases t <;> first | exact h.elim | trivial

theorem ThreadPc.HoldsLock.of_signal {t : ThreadPc} (h : t.signal.HoldsLock) : t.HoldsLock := by
  cases t <;> first | exact h.elim | trivial

theorem ThreadPc.Sleeping.of_signal {t : ThreadPc} (h : t.signal.Sleeping) : t.Sleeping := by
  cases t <;> first | exact h.elim | trivial

theorem ThreadPc.afterDrain_not_sleeping (type : HandlerType) :
    ¬ (ThreadPc.afterDrain type).Sleeping := by
  cases type <;> exact id

theorem ThreadPc.afterDrain_not_holdsLock (type : HandlerType) :
    ¬ (ThreadPc.afterDrain type).HoldsLock := by
  cases type <;> exact id

theorem ThreadPc.afterStop_not_sleeping (type : HandlerType) :
    ¬ (ThreadPc.afterStop type).Sleeping := by
  cases type <;> exact id

theorem ThreadPc.afterStop_not_holdsLock (type : HandlerType) :
    ¬ (ThreadPc.afterStop type).HoldsLock := by
  cases type <;> exact id

variable {ι : Type}

/-- 眠りと起こしの受け渡しの不変量。 -/
structure WakeInv (s : HandlerState ι) : Prop where
  threadLock : s.thread.HoldsLock → s.wakeupLock = some .consumer
  producerLock : ∀ p, (s.producers p).HoldsLock → s.wakeupLock = some (.producer p)
  destroyLock : s.destroy.HoldsLock → s.wakeupLock = some .destroyer
  sleeping : s.thread.Sleeping → s.sleeping = true
  ready : s.thread.SawEmpty → s.mem.ring.TailReady → ∃ p, (s.producers p).Waking
  stopped : s.thread.SawRunning → s.running = false → s.destroy.Waking

theorem wakeInv_initial (type : HandlerType) (name : CStr) (k : Nat) :
    WakeInv (handlerInitial ι type name k) where
  threadLock h := h.elim
  producerLock _ h := h.elim
  destroyLock h := h.elim
  sleeping h := h.elim
  ready h := h.elim
  stopped h := h.elim

variable {s s' : HandlerState ι}

/-! ## ring に効く step -/

/-- 次の slot を ready にする enqueue の step は、公開だけである。 -/
theorem EnqueueMove.waking_or_ready {m m' : Shared} {c : EnqueueCall} {b : Bool}
    {pc pc' : EnqueuePc} (h : EnqueueMove m c b pc m' pc') (hr : m'.ring.TailReady) :
    (LogImplPc.enqueue c pc').Waking ∨ m.ring.TailReady := by
  cases h with
  | publish => exact Or.inl rfl
  | loadHead | seqReady | seqFull | seqAhead | casOk | casFail => exact Or.inr hr
  | @write _ pos stage hne =>
    exact Or.inr ((Ring.sequence_setReq m.ring pos _ m.ring.tail).symm.trans hr)

variable [DecidableEq ι]

/-! ## producer の step -/

/-- producer `p` の外にある lock の持ち主は、`p` の step で変わらない。 -/
theorem producerLock_setProducer {p : ι} {x : LogImplPc} {owner : Option (Owner ι)}
    (hx : x.HoldsLock → owner = some (.producer p))
    (hother : ∀ q, q ≠ p → (s.producers q).HoldsLock → owner = some (.producer q)) (q : ι)
    (hq : ((s.setProducer p x).producers q).HoldsLock) : owner = some (.producer q) := by
  by_cases hqp : q = p
  · subst hqp
    rw [setProducer_self] at hq
    exact hx hq
  · rw [setProducer_of_ne s x hqp] at hq
    exact hother q hqp hq

/--
lock を取らない producer の step。眠ろうとしている間に次の slot が ready なのは、
この producer がまだ signal を終えていないか、別の producer が公開したときである。
-/
theorem WakeInv.setProducer (h : WakeInv s) {p : ι} {x : LogImplPc} {m : Shared} {n₁ n₂ n₃ : Nat}
    (hx : ¬ x.HoldsLock)
    (hready : s.thread.SawEmpty → m.ring.TailReady →
      x.Waking ∨ s.mem.ring.TailReady ∧ ¬ (s.producers p).Waking) :
    WakeInv { s.setProducer p x with mem := m, nrLogCalls := n₁, dropped := n₂, calls := n₃ } where
  threadLock := h.threadLock
  producerLock :=
    producerLock_setProducer (fun hp => absurd hp hx) fun q _ hq => h.producerLock q hq
  destroyLock := h.destroyLock
  sleeping := h.sleeping
  ready ht hr := by
    rcases hready ht hr with hw | ⟨hr', hnot⟩
    · exact ⟨p, (setProducer_self s p x).symm ▸ hw⟩
    · obtain ⟨q, hq⟩ := h.ready ht hr'
      have hqp : q ≠ p := fun he => hnot (he ▸ hq)
      exact ⟨q, (setProducer_of_ne s x hqp).symm ▸ hq⟩
  stopped := h.stopped

theorem WakeInv.wakeLock (h : WakeInv s) {p : ι} (hl : s.wakeupLock = none) :
    WakeInv { s.setProducer p .wakeSignal with wakeupLock := some (.producer p) } where
  threadLock ht := absurd (h.threadLock ht) (by simp [hl])
  producerLock :=
    producerLock_setProducer (fun _ => rfl) fun q _ hq =>
      absurd (h.producerLock q hq) (by simp [hl])
  destroyLock hd := absurd (h.destroyLock hd) (by simp [hl])
  sleeping := h.sleeping
  ready _ _ := ⟨p, (setProducer_self s p _).symm ▸ trivial⟩
  stopped := h.stopped

/-- signal を送る producer が lock を持つので、consumer は眠る手前にはいない。 -/
theorem WakeInv.wakeSignal (h : WakeInv s) {p : ι} (hp : s.producers p = .wakeSignal) :
    WakeInv { s.setProducer p .wakeUnlock with thread := s.thread.signal } := by
  have hown : s.wakeupLock = some (.producer p) := h.producerLock p (by rw [hp]; trivial)
  have hnot : ¬ s.thread.HoldsLock := by
    intro ht
    have := h.threadLock ht
    simp [hown] at this
  exact {
    threadLock := fun ht => absurd ht.of_signal hnot
    producerLock := producerLock_setProducer (fun _ => hown) fun q _ hq => h.producerLock q hq
    destroyLock := h.destroyLock
    sleeping := fun ht => h.sleeping ht.of_signal
    ready := fun ht _ => absurd ht.holdsLock_of_signal hnot
    stopped := fun ht _ => absurd ht.sawEmpty.holdsLock_of_signal hnot }

theorem WakeInv.wakeUnlock (h : WakeInv s) {p : ι} (hp : s.producers p = .wakeUnlock) :
    WakeInv { s.setProducer p .idle with wakeupLock := none } := by
  have hown : s.wakeupLock = some (.producer p) := h.producerLock p (by rw [hp]; trivial)
  exact {
    threadLock := fun ht => by
      have := h.threadLock ht
      simp [hown] at this
    producerLock := producerLock_setProducer (fun hx => hx.elim) fun q hqp hq => by
      have := h.producerLock q hq
      simp [hown, hqp.symm] at this
    destroyLock := fun hd => by
      have := h.destroyLock hd
      simp [hown] at this
    sleeping := h.sleeping
    ready := fun ht hr => by
      obtain ⟨q, hq⟩ := h.ready ht hr
      have hqp : q ≠ p := by
        rintro rfl
        rw [hp] at hq
        exact hq
      exact ⟨q, (setProducer_of_ne s _ hqp).symm ▸ hq⟩
    stopped := h.stopped }

/-! ## consumer の step -/

omit [DecidableEq ι] in
/-- lock の持ち主を変えない consumer の step。 -/
theorem WakeInv.setThread (h : WakeInv s) {t : ThreadPc} {m : Shared} {b : Bool}
    (hlock : t.HoldsLock → s.wakeupLock = some .consumer) (hsleep : t.Sleeping → b = true)
    (hready : t.SawEmpty → m.ring.TailReady → ∃ p, (s.producers p).Waking)
    (hstop : t.SawRunning → s.running = false → s.destroy.Waking) :
    WakeInv { s with mem := m, sleeping := b, thread := t } where
  threadLock := hlock
  producerLock := h.producerLock
  destroyLock := h.destroyLock
  sleeping := hsleep
  ready := hready
  stopped := hstop

omit [DecidableEq ι] in
/-- 眠りに関わらない位置への step。 -/
theorem WakeInv.setAwake (h : WakeInv s) {t : ThreadPc} {m : Shared} {b : Bool}
    (hlock : ¬ t.HoldsLock) (hsleep : ¬ t.Sleeping) :
    WakeInv { s with mem := m, sleeping := b, thread := t } :=
  h.setThread (fun ht => absurd ht hlock) (fun ht => absurd ht hsleep)
    (fun ht => absurd ht.sleeping hsleep) fun ht => absurd ht.sawEmpty.sleeping hsleep

omit [DecidableEq ι] in
/-- 空いている lock を consumer が取る step。 -/
theorem WakeInv.threadTakes (h : WakeInv s) {t : ThreadPc} (hl : s.wakeupLock = none)
    (hsleep : t.Sleeping → s.sleeping = true) (hempty : ¬ t.SawEmpty) :
    WakeInv { s with wakeupLock := some .consumer, thread := t } where
  threadLock _ := rfl
  producerLock q hq := absurd (h.producerLock q hq) (by simp [hl])
  destroyLock hd := absurd (h.destroyLock hd) (by simp [hl])
  sleeping := hsleep
  ready ht := absurd ht hempty
  stopped ht := absurd ht.sawEmpty hempty

omit [DecidableEq ι] in
/-- consumer が lock を手放す step。 -/
theorem WakeInv.threadReleases (h : WakeInv s) {t : ThreadPc} (hown : s.thread.HoldsLock)
    (hlock : ¬ t.HoldsLock) (hsleep : t.Sleeping → s.thread.Sleeping)
    (hempty : t.SawEmpty → s.thread.SawRunning) :
    WakeInv { s with wakeupLock := none, thread := t } where
  threadLock ht := absurd ht hlock
  producerLock q hq := by
    have := h.producerLock q hq
    simp [h.threadLock hown] at this
  destroyLock hd := by
    have := h.destroyLock hd
    simp [h.threadLock hown] at this
  sleeping ht := h.sleeping (hsleep ht)
  ready ht := h.ready (hempty ht).sawEmpty
  stopped ht := h.stopped (hempty ht.sawEmpty)

/-! ## destroyer の step -/

omit [DecidableEq ι] in
/-- broadcast を送る destroyer が lock を持つので、consumer は眠る手前にはいない。 -/
theorem WakeInv.broadcast (h : WakeInv s) (hd : s.destroy = .broadcast) :
    WakeInv { s with thread := s.thread.signal, destroy := .unlock } := by
  have hown : s.wakeupLock = some .destroyer := h.destroyLock (by rw [hd]; trivial)
  have hnot : ¬ s.thread.HoldsLock := by
    intro ht
    have := h.threadLock ht
    simp [hown] at this
  exact {
    threadLock := fun ht => absurd ht.of_signal hnot
    producerLock := h.producerLock
    destroyLock := fun _ => hown
    sleeping := fun ht => h.sleeping ht.of_signal
    ready := fun ht _ => absurd ht.holdsLock_of_signal hnot
    stopped := fun ht _ => absurd ht.sawEmpty.holdsLock_of_signal hnot }

/-! ## 実行全体 -/

variable {a : HandlerAction ι}

theorem WakeInv.producer (h : WakeInv s) {p : ι} {b : Bool}
    (hs : HandlerMove s (.producer p b) s') : WakeInv s' := by
  cases hs with
  | enter hp hr =>
    exact h.setProducer id fun _ hr' => Or.inr ⟨hr', by rw [hp]; exact id⟩
  | stopped hp hr =>
    exact h.setProducer id fun _ hr' => Or.inr ⟨hr', by rw [hp]; exact id⟩
  | @enqueue _ _ c pc m pc' hp he =>
    refine h.setProducer id ?_
    intro _ hr
    rcases (enqueueStep_move he).waking_or_ready hr with hw | hr'
    · exact Or.inl hw
    · refine Or.inr ⟨hr', ?_⟩
      rw [hp]
      -- 位置 `ret` からは enqueue の step が無い
      cases pc with
      | ret ok => simp [enqueueStep] at he
      | loadHead | loadSeq _ | cas _ | writing _ _ => exact id
  | @enqueueRet _ _ c ok hp =>
    cases ok with
    | true => exact h.setProducer id fun _ _ => Or.inl trivial
    | false =>
      refine h.setProducer id fun _ hr => Or.inr ⟨hr, ?_⟩
      rw [hp]
      exact Bool.false_ne_true
  | addDropped hp => exact h.setProducer id fun _ hr => Or.inr ⟨hr, by rw [hp]; exact id⟩
  | addLogCalls => exact h.setProducer id fun _ _ => Or.inl trivial
  | fence => exact h.setProducer id fun _ _ => Or.inl trivial
  | loadSleeping => exact h.setProducer id fun _ _ => Or.inl trivial
  | loadAwake _ hsl =>
    -- consumer が空を確かめた後なら `sleeping` は 1 なので、0 は読めない
    refine h.setProducer id ?_
    intro ht _
    have := h.sleeping ht.sleeping
    simp [hsl] at this
  | wakeLock _ hl => exact h.wakeLock hl
  | wakeSignal hp => exact h.wakeSignal hp
  | wakeUnlock hp => exact h.wakeUnlock hp

theorem WakeInv.thread (h : WakeInv s) (hs : HandlerMove s .thread s') :
    WakeInv s' := by
  cases hs with
  | drainReady | process | consumeStore | consumeTail | flush | loadRunning | finalFlush =>
    exact h.setAwake id id
  | drainEmpty =>
    exact h.setAwake (ThreadPc.afterDrain_not_holdsLock _) (ThreadPc.afterDrain_not_sleeping _)
  | loadStopped =>
    exact h.setAwake (ThreadPc.afterStop_not_holdsLock _) (ThreadPc.afterStop_not_sleeping _)
  | lock _ hl => exact h.threadTakes hl (fun ht => ht.elim) id
  | storeSleeping ht =>
    have hown := h.threadLock (by rw [ht]; trivial)
    exact h.setThread (fun _ => hown) (fun _ => rfl) (fun hf => hf.elim) fun hf => hf.elim
  | rePeekReady ht | reloadStopped ht =>
    have hown := h.threadLock (by rw [ht]; trivial)
    have hsl := h.sleeping (by rw [ht]; trivial)
    exact h.setThread (fun _ => hown) (fun _ => hsl) (fun hf => hf.elim) fun hf => hf.elim
  | rePeekEmpty ht hr =>
    -- `sleeping` を書いた後の peek が空なので、この瞬間には起こすべき record が無い
    have hown := h.threadLock (by rw [ht]; trivial)
    have hsl := h.sleeping (by rw [ht]; trivial)
    exact h.setThread (fun _ => hown) (fun _ => hsl) (fun _ hr' => absurd hr' hr)
      fun hf => hf.elim
  | reloadRunning ht hrun =>
    have hown := h.threadLock (by rw [ht]; trivial)
    have hsl := h.sleeping (by rw [ht]; trivial)
    have hready := h.ready (by rw [ht]; trivial)
    exact h.setThread (fun _ => hown) (fun _ => hsl) (fun _ => hready) (by simp [hrun])
  | condWait ht =>
    -- lock を手放すのと眠るのは一つの step で、間に signal は入らない
    exact h.threadReleases (by rw [ht]; trivial) id (fun _ => by rw [ht]; trivial)
      fun _ => by rw [ht]; trivial
  | woken ht hl =>
    have hsl := h.sleeping (by rw [ht]; trivial)
    exact h.threadTakes hl (fun _ => hsl) id
  | clearSleeping ht =>
    have hown := h.threadLock (by rw [ht]; trivial)
    exact h.setThread (fun _ => hown) (fun hf => hf.elim) (fun hf => hf.elim) fun hf => hf.elim
  | unlock ht =>
    exact h.threadReleases (by rw [ht]; trivial) id (fun hf => hf.elim) fun hf => hf.elim

theorem WakeInv.destroy (h : WakeInv s) (hs : HandlerMove s .destroy s') : WakeInv s' := by
  cases hs with
  | storeRunning hd =>
    exact {
      threadLock := h.threadLock, producerLock := h.producerLock, sleeping := h.sleeping
      ready := h.ready
      destroyLock := fun hf => hf.elim
      stopped := fun _ _ => trivial }
  | destroyLock hd hl =>
    exact {
      threadLock := fun ht => absurd (h.threadLock ht) (by simp [hl])
      producerLock := fun q hq => absurd (h.producerLock q hq) (by simp [hl])
      destroyLock := fun _ => rfl
      sleeping := h.sleeping
      ready := h.ready
      stopped := fun _ _ => trivial }
  | broadcast hd => exact h.broadcast hd
  | destroyUnlock hd =>
    have hown : s.wakeupLock = some .destroyer := h.destroyLock (by rw [hd]; trivial)
    -- broadcast は済んでいるので、0 を見落としたまま眠ろうとしている consumer はもういない
    have hstop : s.thread.SawRunning → s.running ≠ false := fun ht hrun => by
      have := h.stopped ht hrun
      rw [hd] at this
      exact this
    exact {
      threadLock := fun ht => absurd (h.threadLock ht) (by simp [hown])
      producerLock := fun q hq => absurd (h.producerLock q hq) (by simp [hown])
      destroyLock := fun hf => hf.elim
      sleeping := h.sleeping
      ready := h.ready
      stopped := fun ht hrun => absurd hrun (hstop ht) }
  | join hd hx =>
    exact {
      threadLock := h.threadLock, producerLock := h.producerLock, sleeping := h.sleeping
      ready := h.ready
      destroyLock := fun hf => hf.elim
      stopped := fun ht => by
        rw [show s.thread = .exited from hx] at ht
        exact ht.elim }

/-- handler の一 step は眠りと起こしの不変量を保つ。 -/
theorem wakeInv_step (h : WakeInv s) (hs : handlerStep .unbounded s a = some s') : WakeInv s' := by
  cases a with
  | logImpl p record =>
    cases handlerStep_move hs with
    | logImpl hp => exact h.setProducer id fun _ hr => Or.inr ⟨hr, by rw [hp]; exact id⟩
  | producer p b => exact h.producer (handlerStep_move hs)
  | thread => exact h.thread (handlerStep_move hs)
  | spuriousWakeup =>
    cases handlerStep_move hs with
    | spuriousWakeup ht =>
      have hsl := h.sleeping (by rw [ht]; trivial)
      exact h.setThread (fun hf => hf.elim) (fun _ => hsl) (fun hf => hf.elim) fun hf => hf.elim
  | destroy => exact h.destroy (handlerStep_move hs)

variable {type : HandlerType} {name : CStr} {k : Nat}

theorem wakeInv_reachable
    (h : Reachable (handlerStep .unbounded) (handlerInitial ι type name k) s) : WakeInv s :=
  h.invariant (fun _ _ _ => wakeInv_step) (wakeInv_initial type name k)

/--
**起こし損ねはない。** 到達できるどの状態でも、次のすべてが同時に成り立つことはない。

* consumer が眠っていて、まだ起こされていない
* 次の slot が ready であるか、`running` が 0 である
* slot を公開した producer はどれも signal の step を過ぎている
* `running` に 0 を書いた destroyer は broadcast を過ぎている
-/
theorem no_lost_wakeup
    (h : Reachable (handlerStep .unbounded) (handlerInitial ι type name k) s) :
    ¬ (s.thread = .parked ∧ (s.mem.ring.TailReady ∨ s.running = false) ∧
      (∀ p, ¬ (s.producers p).Waking) ∧ ¬ s.destroy.Waking) := by
  rintro ⟨ht, hwork, hproducers, hdestroy⟩
  have hinv := wakeInv_reachable h
  rcases hwork with hr | hrun
  · obtain ⟨p, hp⟩ := hinv.ready (by rw [ht]; trivial) hr
    exact hproducers p hp
  · exact hdestroy (hinv.stopped (by rw [ht]; trivial) hrun)

/-- consumer が眠っているか。 -/
def ThreadPc.isParked : ThreadPc → Bool
  | .parked => true
  | _ => false

theorem ThreadPc.isParked_iff {t : ThreadPc} : t.isParked = true ↔ t = .parked := by
  cases t <;> simp [ThreadPc.isParked]

/-- consumer が眠った後に producer が公開し、まだ signal を送っていない実行。 -/
def parkedRun : List (HandlerAction Unit) :=
  List.replicate 8 .thread ++ .logImpl () (sampleRecord 2 65) ::
    List.replicate 12 (.producer () false)

theorem no_lost_wakeup_parkedRun :
    ∃ s, run (handlerStep .unbounded) (handlerInitial Unit .file .empty 1) parkedRun = some s ∧
      s.thread = .parked ∧ s.mem.ring.TailReady ∧ ¬ s.destroy.Waking ∧
      ¬ ∀ p, ¬ (s.producers p).Waking := by
  have hpc : (run (handlerStep .unbounded) (handlerInitial Unit .file .empty 1) parkedRun).map
      (fun s => (s.thread.isParked, s.destroy, decide s.mem.ring.TailReady))
        = some (true, .notCalled, true) := by decide +kernel
  obtain ⟨s, hs, hp⟩ := Option.map_eq_some_iff.mp hpc
  simp only [Prod.mk.injEq, decide_eq_true_eq, ThreadPc.isParked_iff] at hp
  obtain ⟨ht, hd, hr⟩ := hp
  have hdestroy : ¬ s.destroy.Waking := by
    rw [hd]
    exact id
  refine ⟨s, hs, ht, hr, hdestroy, ?_⟩
  intro hall
  exact no_lost_wakeup ⟨parkedRun, hs⟩ ⟨ht, Or.inl hr, hall, hdestroy⟩

end Logmoko
