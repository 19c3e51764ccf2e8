import Logmoko.Handler.Counters

/-!
# 停止のときに record を失わないか

`destroy` は `running` に 0 を書き、consumer は ring が空だと分かった後にそれを読んで抜ける。
空の peek と `running` の load の間（file と console では flush を含む）に
record の公開と `destroy` の store がともに入ると、consumer はもう一度 peek せずに抜け、
その record は受け取られないまま残る。

すべての `log_impl` が `destroy` の前に返っている実行について、
失われないのは store がこの隙間に入らないとき、そのときに限る（`shutdown_drains_iff`）。
-/

namespace Logmoko

open Transition

/-- 空の peek の後で、`running` をまだ読んでいない位置。 -/
def ThreadPc.InStopWindow : ThreadPc → Prop
  | .flush | .loadRunning => True
  | _ => False

instance : DecidablePred ThreadPc.InStopWindow
  | .flush | .loadRunning => inferInstanceAs (Decidable True)
  | .drainPeek | .process | .consumeStore _ | .consumeTail | .lock | .storeSleeping | .rePeek
  | .reloadRunning | .condWait | .parked | .woken | .clearSleeping | .unlock | .finalFlush
  | .exited => inferInstanceAs (Decidable False)

/-- 停止を読み終えた位置。 -/
def ThreadPc.Stopped : ThreadPc → Prop
  | .finalFlush | .exited => True
  | _ => False

instance (x : LogImplPc) : Decidable (x = .idle) := decidable_of_iff _ LogImplPc.isIdle_iff

variable {ι : Type}

/-- どの `log_impl` も、`destroy` の最初の step より前に返っている。 -/
def QuietShutdown (s : HandlerState ι) : HandlerAction ι → Prop
  | .destroy => s.destroy = .notCalled → ∀ p, s.producers p = .idle
  | .logImpl _ _ => s.destroy = .notCalled
  | _ => True

/-- `destroy` の store が、受け取っていない record のある隙間に入らない。 -/
def StopsOutsideWindow (s : HandlerState ι) : HandlerAction ι → Prop
  | .destroy => s.destroy = .notCalled → s.thread.InStopWindow → s.mem.ring.tail = s.mem.ring.head
  | _ => True

instance [Fintype ι] (s : HandlerState ι) (a : HandlerAction ι) : Decidable (QuietShutdown s a) :=
  match a with
  | .destroy => inferInstanceAs (Decidable (_ → ∀ _, _))
  | .logImpl _ _ => inferInstanceAs (Decidable (_ = _))
  | .producer _ _ | .thread | .spuriousWakeup => inferInstanceAs (Decidable True)

instance (s : HandlerState ι) (a : HandlerAction ι) : Decidable (StopsOutsideWindow s a) :=
  match a with
  | .destroy => inferInstanceAs (Decidable (_ → _ → _))
  | .logImpl _ _ | .producer _ _ | .thread | .spuriousWakeup => inferInstanceAs (Decidable True)

/--
受け入れた record がすべて受け取られている。1 を返した呼び出しの位置は手放されていて、
手放された request の列は claim の列全体に対応し、ring には ready な slot が無い。
-/
structure HandlerState.Drained (s : HandlerState ι) : Prop where
  tail_eq : s.mem.ring.tail = s.mem.ring.head
  noneReady : ∀ i, i < s.mem.ring.size → ¬ s.mem.ring.Occupied i
  delivered : List.Forall₂ Carries s.mem.hist.consumed s.mem.hist.claims
  accepted : ∀ id, (id, true) ∈ s.mem.hist.returned →
    ∃ pos c, s.mem.hist.claims[pos]? = some c ∧ c.id = id ∧ pos < s.mem.hist.consumed.length

/-! ## 停止の前後 -/

/-- 最後の peek が空だった後の位置。 -/
def ThreadPc.PastDrain (t : ThreadPc) : Prop := t.InStopWindow ∨ t.Stopped

theorem ThreadPc.Stopped.of_signal {t : ThreadPc} (h : t.signal.Stopped) : t.Stopped := by
  cases t <;> first | exact h.elim | trivial

@[simp] theorem ThreadPc.pastDrain_signal {t : ThreadPc} :
    t.signal.PastDrain ↔ t.PastDrain := by
  cases t <;> exact Iff.rfl

theorem ThreadPc.afterDrain_not_stopped (type : HandlerType) :
    ¬ (ThreadPc.afterDrain type).Stopped := by
  cases type <;> exact id

theorem ThreadPc.afterStop_stopped (type : HandlerType) : (ThreadPc.afterStop type).Stopped := by
  cases type <;> trivial

/-- `destroy` の最初の step の前と後。 -/
structure StopInv (s : HandlerState ι) : Prop where
  before : s.destroy = .notCalled → s.running = true ∧ ¬ s.thread.Stopped
  after : s.destroy ≠ .notCalled → s.running = false ∧ ∀ p, s.producers p = .idle

theorem stopInv_initial (type : HandlerType) (name : CStr) (k : Nat) :
    StopInv (handlerInitial ι type name k) :=
  ⟨fun _ => ⟨rfl, id⟩, fun h => absurd rfl h⟩

variable [DecidableEq ι] {s s' : HandlerState ι} {a : HandlerAction ι}

/-- 動ける producer がいるのは、`destroy` が始まる前だけである。 -/
theorem StopInv.notCalled_of_producer (h : StopInv s) {p : ι} {b : Bool}
    (hs : HandlerMove s (.producer p b) s') : s.destroy = .notCalled := by
  by_contra hd
  have hp := (h.after hd).2 p
  cases hs <;> simp_all

theorem HandlerMove.producer_frame {p : ι} {b : Bool} (hs : HandlerMove s (.producer p b) s') :
    s'.destroy = s.destroy ∧ s'.running = s.running ∧
      (s'.thread = s.thread ∨ s'.thread = s.thread.signal) := by
  cases hs with
  | wakeSignal => exact ⟨rfl, rfl, Or.inr rfl⟩
  | enter | stopped | enqueue | enqueueRet | addDropped | addLogCalls | fence | loadSleeping
  | loadAwake | wakeLock | wakeUnlock => exact ⟨rfl, rfl, Or.inl rfl⟩

theorem HandlerMove.thread_frame (hs : HandlerMove s .thread s') :
    s'.destroy = s.destroy ∧ s'.running = s.running ∧ s'.producers = s.producers := by
  cases hs <;> exact ⟨rfl, rfl, rfl⟩

/-- 停止を読み終えた位置に入るのは、`running` が 0 だと読んだときだけである。 -/
theorem HandlerMove.thread_stopped (hs : HandlerMove s .thread s') (hr : s.running = true)
    (hn : ¬ s.thread.Stopped) : ¬ s'.thread.Stopped := by
  cases hs with
  | drainEmpty => exact ThreadPc.afterDrain_not_stopped _
  | loadStopped _ hr' => simp [hr] at hr'
  | finalFlush ht =>
    rw [ht] at hn
    exact absurd trivial hn
  | drainReady | process | consumeStore | consumeTail | flush | loadRunning | lock | storeSleeping
  | rePeekReady | rePeekEmpty | reloadRunning | reloadStopped | condWait | woken | clearSleeping
  | unlock => exact id

theorem stopInv_step (h : StopInv s) (hq : QuietShutdown s a)
    (hs : handlerStep .unbounded s a = some s') : StopInv s' := by
  cases a with
  | logImpl p record =>
    cases handlerStep_move hs with
    | logImpl hp => exact ⟨h.before, fun hd => absurd hq hd⟩
  | producer p b =>
    have hd := h.notCalled_of_producer (handlerStep_move hs)
    obtain ⟨hd', hr', ht'⟩ := (handlerStep_move hs).producer_frame
    obtain ⟨hr, hn⟩ := h.before hd
    refine ⟨fun _ => ⟨hr'.trans hr, ?_⟩, fun hne => absurd (hd'.trans hd) hne⟩
    rcases ht' with ht' | ht' <;> rw [ht']
    · exact hn
    · exact fun hsig => hn hsig.of_signal
  | thread =>
    obtain ⟨hd', hr', hp'⟩ := (handlerStep_move hs).thread_frame
    refine ⟨fun hd => ?_, fun hd => ?_⟩
    · obtain ⟨hr, hn⟩ := h.before (hd'.symm.trans hd)
      exact ⟨hr'.trans hr, (handlerStep_move hs).thread_stopped hr hn⟩
    · rw [hr', hp']
      exact h.after fun he => hd (hd'.trans he)
  | spuriousWakeup =>
    cases handlerStep_move hs with
    | spuriousWakeup ht => exact ⟨fun hd => ⟨(h.before hd).1, id⟩, h.after⟩
  | destroy =>
    cases handlerStep_move hs with
    | storeRunning hd => exact ⟨nofun, fun _ => ⟨rfl, hq hd⟩⟩
    | destroyLock hd | broadcast hd | destroyUnlock hd | join hd =>
      exact ⟨nofun, fun _ => h.after (by rw [hd]; nofun)⟩

/-! ## 残りを受け取ってから抜ける -/

/-- ring の不変量は handler の一 step でも保たれる。 -/
theorem ringInv_handlerStep (h : RingInv s.toRing) (hs : handlerStep .unbounded s a = some s') :
    RingInv s'.toRing := by
  obtain ⟨acts, hacts⟩ := exists_ring_run hs
  exact Reachable.invariant (fun _ _ _ => ringInv_step) h ⟨acts, hacts⟩

omit [DecidableEq ι] in
/-- producer がみな外にいて次の slot が ready でなければ、ring は空である。 -/
theorem tail_eq_head_of_not_ready (h : RingInv s.toRing) (hidle : ∀ p, s.producers p = .idle)
    (hlag : s.toRing.consumer.lag = 0) (hr : ¬ s.mem.ring.TailReady) :
    s.mem.ring.tail = s.mem.ring.head := by
  have ht : s.mem.ring.tail + s.toRing.consumer.lag = s.mem.released := h.tail_eq
  have hle : s.mem.released ≤ s.mem.ring.head := h.released_le
  by_contra hne
  rcases h.taken s.mem.ring.tail (by omega : s.mem.released ≤ _)
    (by omega : _ < s.mem.ring.head) with ⟨p, hp⟩ | hp
  · simp [HandlerState.toRing, hidle p, LogImplPc.toProducer, Producer.writes] at hp
  · exact hr hp.1

/-- `destroy` が始まった後、最後の peek を終えた consumer は何も残していない。 -/
def DrainInv (s : HandlerState ι) : Prop :=
  s.destroy ≠ .notCalled → s.thread.PastDrain → s.mem.ring.tail = s.mem.ring.head

theorem drainInv_thread (hring : RingInv s.toRing) (hstop : StopInv s) (h : DrainInv s)
    (hs : HandlerMove s .thread s') : DrainInv s' := by
  intro hd hpast
  obtain ⟨hd', -, -⟩ := hs.thread_frame
  have hdes : s.destroy ≠ .notCalled := fun he => hd (hd'.trans he)
  obtain ⟨hrun, hidle⟩ := hstop.after hdes
  cases hs with
  | drainEmpty ht hr =>
    -- この peek は `destroy` の後なので、公開されたものを見落とさない
    have hlag : s.toRing.consumer.lag = 0 := by
      simp [HandlerState.toRing, ht, ThreadPc.toConsumer, RingConsumer.lag]
    exact tail_eq_head_of_not_ready (s := s) hring hidle hlag hr
  | flush ht | loadStopped ht hr => exact h hdes (by rw [ht]; exact Or.inl trivial)
  | finalFlush ht => exact h hdes (by rw [ht]; exact Or.inr trivial)
  | drainReady | process | consumeStore | consumeTail | loadRunning | lock | storeSleeping
  | rePeekReady | rePeekEmpty | reloadRunning | reloadStopped | condWait | woken | clearSleeping
  | unlock => exact (hpast.elim id id).elim

theorem drainInv_step (hring : RingInv s.toRing) (hstop : StopInv s) (h : DrainInv s)
    (hq : QuietShutdown s a) (hw : StopsOutsideWindow s a)
    (hs : handlerStep .unbounded s a = some s') : DrainInv s' := by
  cases a with
  | logImpl p record =>
    cases handlerStep_move hs with
    | logImpl hp => exact fun hd => absurd hq hd
  | producer p b =>
    have hd := hstop.notCalled_of_producer (handlerStep_move hs)
    exact fun hne => absurd ((handlerStep_move hs).producer_frame.1.trans hd) hne
  | thread => exact drainInv_thread hring hstop h (handlerStep_move hs)
  | spuriousWakeup =>
    cases handlerStep_move hs with
    | spuriousWakeup ht => exact fun _ hpast => (hpast.elim id id).elim
  | destroy =>
    cases handlerStep_move hs with
    | storeRunning hd =>
      -- 隙間にいるなら仮定が空だと言い、停止を読み終えているはずはない
      rintro - (hwin | hst)
      · exact hw hd hwin
      · exact absurd hst (hstop.before hd).2
    | broadcast hd =>
      exact fun _ hpast => h (by rw [hd]; nofun) (ThreadPc.pastDrain_signal.mp hpast)
    | destroyLock hd | destroyUnlock hd | join hd =>
      exact fun _ hpast => h (by rw [hd]; nofun) hpast

/-! ## 残したまま抜ける -/

/-- 受け取っていない record を残して、consumer がもう peek しない。 -/
structure Lost (s : HandlerState ι) : Prop where
  called : s.destroy ≠ .notCalled
  past : s.thread.PastDrain
  rest : s.mem.ring.tail ≠ s.mem.ring.head

theorem lost_step (hstop : StopInv s) (h : Lost s) (hq : QuietShutdown s a)
    (hs : handlerStep .unbounded s a = some s') : Lost s' := by
  obtain ⟨hd, hpast, hne⟩ := h
  obtain ⟨hrun, -⟩ := hstop.after hd
  cases a with
  | logImpl p record => exact absurd hq hd
  | producer p b => exact absurd (hstop.notCalled_of_producer (handlerStep_move hs)) hd
  | thread =>
    cases handlerStep_move hs with
    | flush => exact ⟨hd, Or.inl trivial, hne⟩
    | loadStopped => exact ⟨hd, Or.inr (ThreadPc.afterStop_stopped _), hne⟩
    | finalFlush => exact ⟨hd, Or.inr trivial, hne⟩
    | loadRunning _ hr => simp [hrun] at hr
    -- 残りの step は、もう peek しない位置からは起こらない
    | drainReady ht | drainEmpty ht | process ht | consumeStore ht | consumeTail ht | lock ht
    | storeSleeping ht | rePeekReady ht | rePeekEmpty ht | reloadRunning ht | reloadStopped ht
    | condWait ht | woken ht | clearSleeping ht | unlock ht =>
      rw [ht] at hpast
      exact (hpast.elim id id).elim
  | spuriousWakeup =>
    cases handlerStep_move hs with
    | spuriousWakeup ht =>
      rw [ht] at hpast
      exact (hpast.elim id id).elim
  | destroy =>
    cases handlerStep_move hs with
    | storeRunning hd' => exact absurd hd' hd
    | broadcast => exact ⟨nofun, ThreadPc.pastDrain_signal.mpr hpast, hne⟩
    | destroyLock | destroyUnlock | join => exact ⟨nofun, hpast, hne⟩

/-! ## 主結果 -/

omit [DecidableEq ι] in
/-- 誰も `log_impl` の中におらず `tail` が `head` に追いついていれば、何も残っていない。 -/
theorem drained_of_tail_eq (hring : RingInv s.toRing)
    (hcall : CallInv s.mem.hist s.toRing.producers)
    (hidle : ∀ p, s.producers p = .idle) (hlag : s.toRing.consumer.lag = 0)
    (ht : s.mem.ring.tail = s.mem.ring.head) : s.Drained := by
  have hrel : s.mem.ring.tail + s.toRing.consumer.lag = s.mem.released := hring.tail_eq
  have hlen : s.mem.hist.consumed.length = s.mem.hist.claims.length := by
    have : s.mem.ring.head = s.mem.hist.claims.length := hring.head_eq
    show s.mem.released = _
    omega
  have hrec : s.mem.ring.nrRecords = 0 := by
    have : s.mem.ring.nrRecords = s.mem.ring.head - s.mem.released :=
      hring.nrRecords_eq fun p => by
        simp [HandlerState.toRing, hidle p, LogImplPc.toProducer, Producer.writes]
    omega
  refine ⟨ht, fun i hi hocc => ?_, ?_, fun id hid => ?_⟩
  · have : i ∈ (Finset.range s.mem.ring.size).filter s.mem.ring.Occupied :=
      Finset.mem_filter.mpr ⟨Finset.mem_range.mpr hi, hocc⟩
    rw [Finset.card_eq_zero.mp hrec] at this
    simp at this
  · have hdel : List.Forall₂ Carries s.mem.hist.consumed
        (s.mem.hist.claims.take s.mem.hist.consumed.length) := hring.delivered
    rwa [hlen, List.take_length] at hdel
  · -- 1 を返した呼び出しは claim されていて、claim はすべて手放されている
    have hclaim : id ∈ s.mem.hist.claimIds := (hcall.returned_claimed id true hid).mpr rfl
    obtain ⟨c, hc, rfl⟩ := List.mem_map.mp hclaim
    obtain ⟨pos, hpos, rfl⟩ := List.getElem_of_mem hc
    exact ⟨pos, _, List.getElem?_eq_getElem hpos, rfl, by omega⟩

variable {type : HandlerType} {name : CStr} {k : Nat} {as : List (HandlerAction ι)}

theorem drainInv_run (hk : 1 ≤ k)
    (hrun : run (handlerStep .unbounded) (handlerInitial ι type name k) as = some s)
    (hquiet : Along (handlerStep .unbounded) QuietShutdown (handlerInitial ι type name k) as)
    (hstops : Along (handlerStep .unbounded) StopsOutsideWindow (handlerInitial ι type name k) as) :
    DrainInv s := by
  have hinit : DrainInv (handlerInitial ι type name k) := fun hd => absurd rfl hd
  have hstep : ∀ (s : HandlerState ι) a s', RingInv s.toRing ∧ StopInv s ∧ DrainInv s →
      QuietShutdown s a ∧ StopsOutsideWindow s a → handlerStep .unbounded s a = some s' →
      RingInv s'.toRing ∧ StopInv s' ∧ DrainInv s' := by
    rintro s a s' ⟨hring, hstop, hdrain⟩ ⟨hq, hw⟩ hs
    exact ⟨ringInv_handlerStep hring hs, stopInv_step hstop hq hs,
      drainInv_step hring hstop hdrain hq hw hs⟩
  have hring : RingInv (handlerInitial ι type name k).toRing := ringInv_initial hk
  exact (run_invariant hstep ⟨hring, stopInv_initial type name k, hinit⟩
    (hquiet.and hstops) hrun).2.2

/-- 隙間に入った store の後は、最後まで record が残る。 -/
theorem lost_of_not_stopsOutside (hstop : StopInv s)
    (hquiet : Along (handlerStep .unbounded) QuietShutdown s as)
    (hrun : run (handlerStep .unbounded) s as = some s')
    (hbad : ¬ Along (handlerStep .unbounded) StopsOutsideWindow s as) : Lost s' := by
  induction as generalizing s with
  | nil => exact absurd trivial hbad
  | cons a as ih =>
    obtain ⟨u, hu, hrest⟩ := run_cons_eq_some.mp hrun
    obtain ⟨hq, hquiet'⟩ := (along_cons hu).mp hquiet
    have hstop' := stopInv_step hstop hq hu
    by_cases hw : StopsOutsideWindow s a
    · exact ih hstop' hquiet' hrest fun h => hbad ((along_cons hu).mpr ⟨hw, h⟩)
    · -- ここで store が隙間に入った
      cases a with
      | destroy =>
        simp only [StopsOutsideWindow, Classical.not_imp] at hw
        obtain ⟨hd, hwin, hne⟩ := hw
        have hlost : Lost u := by
          cases handlerStep_move hu with
          | storeRunning => exact ⟨nofun, Or.inl hwin, hne⟩
          | destroyLock hd' | broadcast hd' | destroyUnlock hd' | join hd' =>
            rw [hd] at hd'
            cases hd'
        refine (run_invariant (I := fun s => StopInv s ∧ Lost s) ?_ ⟨hstop', hlost⟩
          hquiet' hrest).2
        rintro v b w ⟨hv, hl⟩ hqv hs
        exact ⟨stopInv_step hv hqv hs, lost_step hv hl hqv hs⟩
      | logImpl _ _ | producer _ _ | thread | spuriousWakeup => exact absurd trivial hw

/--
**停止で record を失わない条件。**

すべての `log_impl` が `destroy` の最初の step より前に返っている実行で consumer が抜けたとき、
受け入れた record がすべて受け取られているのは、`destroy` の store が
「空の peek の後、`running` の load の前」で record の残っている瞬間に入らなかったとき、
そのときに限る。
-/
theorem shutdown_drains_iff (hk : 1 ≤ k)
    (hrun : run (handlerStep .unbounded) (handlerInitial ι type name k) as = some s)
    (hquiet : Along (handlerStep .unbounded) QuietShutdown (handlerInitial ι type name k) as)
    (hexit : s.thread = .exited) :
    s.Drained ↔
      Along (handlerStep .unbounded) StopsOutsideWindow (handlerInitial ι type name k) as := by
  have hstop : StopInv s :=
    run_invariant (fun _ _ _ h hq hs => stopInv_step h hq hs) (stopInv_initial type name k)
      hquiet hrun
  have hd : s.destroy ≠ .notCalled := fun hd =>
    (hstop.before hd).2 (by rw [hexit]; trivial)
  constructor
  · intro hdrained
    by_contra hbad
    exact (lost_of_not_stopsOutside (stopInv_initial type name k) hquiet hrun hbad).rest
      hdrained.tail_eq
  · intro hstops
    have htail := drainInv_run hk hrun hquiet hstops hd (by rw [hexit]; exact Or.inr trivial)
    have hlag : s.toRing.consumer.lag = 0 := by
      simp [HandlerState.toRing, hexit, ThreadPc.toConsumer, RingConsumer.lag]
    exact drained_of_tail_eq (ringInv_handler hk ⟨as, hrun⟩)
      (callInv_reachable (reachable_toRing ⟨as, hrun⟩)) (hstop.after hd).2 hlag htail

/-- 一つの record を入れた後で停止し、consumer はそれを受け取ってから抜ける。 -/
def drainedRun : List (HandlerAction Unit) :=
  .logImpl () (sampleRecord 2 65) :: List.replicate 15 (.producer () false) ++
    .destroy :: List.replicate 8 .thread

theorem shutdown_drains_iff_drainedRun :
    ∃ s, run (handlerStep .unbounded) (handlerInitial Unit .file .empty 1) drainedRun = some s ∧
      s.thread = .exited ∧ s.mem.hist.returned = [(0, true)] ∧ s.Drained := by
  have hpc : (run (handlerStep .unbounded) (handlerInitial Unit .file .empty 1) drainedRun).map
      (fun s => (s.thread.isExited, s.mem.hist.returned)) = some (true, [(0, true)]) := by
    decide +kernel
  obtain ⟨s, hs, hp⟩ := Option.map_eq_some_iff.mp hpc
  simp only [Prod.mk.injEq, ThreadPc.isExited_iff] at hp
  obtain ⟨hexit, hret⟩ := hp
  exact ⟨s, hs, hexit, hret,
    (shutdown_drains_iff (by decide) hs (by decide +kernel) hexit).mpr (by decide +kernel)⟩

/--
consumer の peek が空振りした直後に record が入って `log_impl` が返り、続けて `destroy` が
`running` に 0 を書く。consumer は flush の後に 0 を読んで抜ける。
-/
def lostRun : List (HandlerAction Unit) :=
  .thread :: .logImpl () (sampleRecord 2 65) :: List.replicate 15 (.producer () false) ++
    .destroy :: List.replicate 3 .thread

theorem shutdown_loses_record :
    ∃ s, run (handlerStep .unbounded) (handlerInitial Unit .file .empty 1) lostRun = some s ∧
      Along (handlerStep .unbounded) QuietShutdown (handlerInitial Unit .file .empty 1) lostRun ∧
      s.thread = .exited ∧ s.mem.hist.returned = [(0, true)] ∧ s.mem.hist.consumed.length = 0 ∧
      s.nrLogCalls = 1 ∧ s.dropped = 0 ∧ s.mem.ring.TailReady ∧
      s.mem.ring.tail ≠ s.mem.ring.head ∧ ¬ s.Drained := by
  have hpc : (run (handlerStep .unbounded) (handlerInitial Unit .file .empty 1) lostRun).map
      (fun s => ((s.thread.isExited, s.mem.hist.returned, s.mem.hist.consumed.length),
        (s.nrLogCalls, s.dropped), decide s.mem.ring.TailReady,
        decide (s.mem.ring.tail = s.mem.ring.head)))
        = some ((true, [(0, true)], 0), (1, 0), true, false) := by decide +kernel
  obtain ⟨s, hs, hp⟩ := Option.map_eq_some_iff.mp hpc
  simp only [Prod.mk.injEq, ThreadPc.isExited_iff, decide_eq_true_eq, decide_eq_false_iff_not]
    at hp
  obtain ⟨⟨hexit, hret, hcons⟩, ⟨hcalls, hdropped⟩, hready, hne⟩ := hp
  exact ⟨s, hs, by decide +kernel, hexit, hret, hcons, hcalls, hdropped, hready, hne,
    fun hdrained => hne hdrained.tail_eq⟩

end Logmoko
