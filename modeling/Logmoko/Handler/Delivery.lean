import Logmoko.Format.Model
import Logmoko.Handler.Shutdown
import Logmoko.Handler.Wakeup

/-!
# consumer が取り出す request の列

どの handler の consumer も、peek が slot を返すたびに request を一つ取り出して処理する。
処理の中身は handler の種類によるが、何をどの順に取り出すかは種類によらない。

* `taken_run` — 取り出した request は、claim の列の先頭から一つずつ運んだものである
* `taken_eq_of_parked` / `taken_eq_of_exited` — 休んでいる consumer は、claim をすべて取り出している

書式関数に渡る引数は、request を経ても `log_impl` に渡した record だけで決まる
（`Carries.formatArgs_eq`）。
-/

namespace Logmoko

open Transition

variable {ι : Type}

/-! ## 一つの request -/

/-- 呼び出し `c` の record の本文。写した分を C の文字列として読む。 -/
def EnqueueCall.text (c : EnqueueCall) : List UInt8 :=
  (c.record.data.take c.copyLen).takeWhile (· ≠ 0)

theorem EnqueueCall.zero_notMem_text (c : EnqueueCall) : 0 ∉ c.text := by
  intro h
  have := List.mem_takeWhile_imp h
  simp at this

/-- 呼び出し `c` の record を書式関数に渡すときの引数。 -/
def EnqueueCall.formatArgs (timestamp : CStr) (c : EnqueueCall) : FormatArgs :=
  { logLevel := c.record.logLevel, levelStr := lmkGetLogLevelStr c.record.logLevel, timestamp
    fileName := c.record.fileName, lineNo := c.record.lineNo, handlerName := c.handlerName
    message := ⟨c.text, c.zero_notMem_text⟩ }

theorem EnqueueCall.copyLen_lt (c : EnqueueCall) : c.copyLen < logMsgMaxSize := by
  have : 0 < logMsgMaxSize := by decide
  unfold EnqueueCall.copyLen
  split <;> omega

theorem EnqueueCall.copyLen_le (c : EnqueueCall) : c.copyLen ≤ c.record.data.length := by
  have := c.record.dataLen_le
  unfold EnqueueCall.copyLen
  split <;> omega

variable {req : LogRequest} {c : EnqueueCall}

/-- 運ばれた本文は、写した分である。 -/
theorem Carries.read_data (h : Carries req c) :
    Buffer.read req.data 0 c.copyLen = c.record.data.take c.copyLen := by
  refine List.ext_getElem? ?_
  intro i
  by_cases hi : i < c.copyLen
  · have hlen : i < c.record.data.length := lt_of_lt_of_le hi c.copyLen_le
    rw [Buffer.getElem?_read _ _ hi, List.getElem?_take_of_lt hi, Nat.zero_add, h.data i hi,
      List.getD_eq_getElem?_getD, List.getElem?_eq_getElem hlen]
    rfl
  · rw [List.getElem?_eq_none (by simpa using hi), List.getElem?_eq_none]
    rw [List.length_take]
    omega

/-- 写した分の次が NUL なので、読み出しはそこで終わる。 -/
theorem Carries.untilNul_eq (h : Carries req c) : untilNul req.data logMsgMaxSize = c.text := by
  obtain ⟨k, hk⟩ := Nat.exists_eq_add_of_lt c.copyLen_lt
  have hsplit : Buffer.read req.data 0 logMsgMaxSize =
      c.record.data.take c.copyLen ++ 0 :: Buffer.read req.data (c.copyLen + 1) k := by
    rw [show logMsgMaxSize = c.copyLen + (1 + k) by omega, Buffer.read_add, h.read_data,
      Buffer.read_add, Nat.zero_add]
    have hone : Buffer.read req.data c.copyLen 1 = [0] := by
      rw [← h.nul]
      rfl
    rw [hone]
    rfl
  rw [untilNul, hsplit, EnqueueCall.text, List.takeWhile_append]
  split
  · next hall =>
    rw [List.takeWhile_cons_of_neg (by simp), List.append_nil,
      List.IsPrefix.eq_of_length (List.takeWhile_prefix _) hall]
  · rfl

/-- 書式関数に渡る引数は、呼び出しの record だけで決まる。 -/
theorem Carries.message_eq (h : Carries req c) : req.message = ⟨c.text, c.zero_notMem_text⟩ :=
  (CStr.mk.injEq ..).mpr h.untilNul_eq

theorem Carries.formatArgs_eq (h : Carries req c) (timestamp : CStr) :
    Logmoko.formatArgs timestamp req = c.formatArgs timestamp := by
  simp only [Logmoko.formatArgs, EnqueueCall.formatArgs, h.logLevel, h.lineNo, h.fileName,
    h.handlerName, h.message_eq]

/-! ## 取り出した個数 -/

/-- slot を持っている間は 1。 -/
def ThreadPc.held : ThreadPc → Nat
  | .process | .consumeStore _ => 1
  | _ => 0

@[simp] theorem ThreadPc.held_signal (t : ThreadPc) : t.signal.held = t.held := by
  cases t <;> rfl

@[simp] theorem ThreadPc.held_afterDrain (type : HandlerType) :
    (ThreadPc.afterDrain type).held = 0 := by
  cases type <;> rfl

@[simp] theorem ThreadPc.held_afterStop (type : HandlerType) :
    (ThreadPc.afterStop type).held = 0 := by
  cases type <;> rfl

/-- これまでに取り出した request の個数。 -/
def HandlerState.taken (s : HandlerState ι) : Nat := s.mem.released + s.thread.held

/-- 一 step で取り出す request。 -/
def takenBy (s : HandlerState ι) : HandlerAction ι → List LogRequest
  | .thread =>
    match s.thread with
    | .drainPeek =>
      if s.mem.ring.TailReady then [(s.mem.ring.slotAt s.mem.ring.tail).req] else []
    | _ => []
  | .logImpl _ _ | .producer _ _ | .spuriousWakeup | .destroy => []

/-- 取り出した request の列 `reqs` は、claim の列の先頭から一つずつ運んでいる。 -/
def Delivered (reqs : List LogRequest) (s : HandlerState ι) : Prop :=
  List.Forall₂ Carries reqs (s.mem.hist.claims.take s.taken)

/-- enqueue の一 step は、claim の列に足すだけで、手放した列には触らない。 -/
theorem EnqueueMove.hist_frame {m m' : Shared} {b : Bool} {pc pc' : EnqueuePc}
    (h : EnqueueMove m c b pc m' pc') :
    m.hist.claims <+: m'.hist.claims ∧ m'.hist.consumed = m.hist.consumed := by
  cases h with
  | casOk => exact ⟨List.prefix_append _ _, rfl⟩
  | loadHead | seqReady | seqFull | seqAhead | casFail | write | publish =>
    exact ⟨List.prefix_rfl, rfl⟩

variable [DecidableEq ι] {s s' : HandlerState ι} {a : HandlerAction ι}

/-- claim の列は伸びるだけである。 -/
theorem HandlerMove.claims_prefix (h : HandlerMove s a s') :
    s.mem.hist.claims <+: s'.mem.hist.claims := by
  cases h with
  | enqueue _ he => exact (enqueueStep_move he).hist_frame.1
  | _ => exact List.prefix_rfl

/-- 取り出した個数は、その step で取り出した分だけ増える。 -/
theorem HandlerMove.taken_eq (h : HandlerMove s a s') :
    s'.taken = s.taken + (takenBy s a).length := by
  unfold HandlerState.taken Shared.released
  cases h with
  | drainReady ht hr => simp [takenBy, ht, hr, ThreadPc.held]
  | drainEmpty ht hr =>
    show _ + (ThreadPc.afterDrain s.type).held = _
    rw [ThreadPc.held_afterDrain]
    simp [takenBy, ht, hr, ThreadPc.held]
  | loadStopped ht =>
    show _ + (ThreadPc.afterStop s.type).held = _
    rw [ThreadPc.held_afterStop]
    simp [takenBy, ht, ThreadPc.held]
  | consumeStore ht =>
    simp [takenBy, ht, ThreadPc.held, Shared.release, History.consume]
  | process ht | consumeTail ht | flush ht | loadRunning ht | lock ht
  | storeSleeping ht | rePeekReady ht | rePeekEmpty ht | reloadRunning ht | reloadStopped ht
  | condWait ht | woken ht | clearSleeping ht | unlock ht | finalFlush ht | spuriousWakeup ht =>
    simp [takenBy, ht, ThreadPc.held]
  | enqueue _ he =>
    rw [(enqueueStep_move he).hist_frame.2]
    rfl
  | wakeSignal | broadcast => simp [takenBy, HandlerState.setProducer]
  | logImpl | enter | stopped | enqueueRet | addDropped | addLogCalls | fence | loadSleeping
  | loadAwake | wakeLock | wakeUnlock | storeRunning | destroyLock | destroyUnlock | join => rfl

omit [DecidableEq ι] in
/-- slot を持たない consumer の `tail` は、手放した個数である。 -/
theorem tail_eq_released (h : RingInv s.toRing) (hlag : s.toRing.consumer.lag = 0) :
    s.mem.ring.tail = s.mem.released := by
  have htail : s.mem.ring.tail + s.toRing.consumer.lag = s.mem.released := h.tail_eq
  omega

omit [DecidableEq ι] in
theorem taken_le (h : RingInv s.toRing) : s.taken ≤ s.mem.hist.claims.length := by
  have hle : s.mem.released ≤ s.mem.ring.head := h.released_le
  have hhead : s.mem.ring.head = s.mem.hist.claims.length := h.head_eq
  have hok : s.mem.ConsumerOk s.thread.toConsumer := h.consumer
  have htail : s.mem.ring.tail + s.thread.toConsumer.lag = s.mem.released := h.tail_eq
  unfold HandlerState.taken
  cases ht : s.thread with
  | process | consumeStore req =>
    rw [ht] at hok htail
    have hlt : s.mem.ring.tail < s.mem.ring.head := hok.1
    simp only [ThreadPc.toConsumer, RingConsumer.lag] at htail
    simp only [ThreadPc.held]
    omega
  | drainPeek | consumeTail | flush | loadRunning | lock | storeSleeping | rePeek | reloadRunning
  | condWait | parked | woken | clearSleeping | unlock | finalFlush | exited =>
    simp only [ThreadPc.held]
    omega

/-- 一 step は、取り出した分を後ろに足して `Delivered` を保つ。 -/
theorem Delivered.step {reqs : List LogRequest} (hring : RingInv s.toRing)
    (h : Delivered reqs s) (hs : handlerStep .unbounded s a = some s') :
    Delivered (reqs ++ takenBy s a) s' := by
  have hmove := handlerStep_move hs
  have hring' := ringInv_handlerStep hring hs
  have hle := taken_le hring
  obtain ⟨rest, hrest⟩ := hmove.claims_prefix
  unfold Delivered at h ⊢
  rw [hmove.taken_eq, ← hrest]
  cases htaken : takenBy s a with
  | nil =>
    rw [List.append_nil, List.length_nil, Nat.add_zero, List.take_append_of_le_length hle]
    exact h
  | cons req tl =>
    -- 取り出すのは、peek が slot を返す step だけである
    cases hmove with
    | drainReady ht hr =>
      have hreq : takenBy s .thread = [(s.mem.ring.slotAt s.mem.ring.tail).req] := by
        simp [takenBy, ht, hr]
      rw [hreq] at htaken
      obtain ⟨rfl, rfl⟩ := List.cons.inj htaken
      have hpub : s.mem.Published s.mem.ring.tail := by
        have hok : s.mem.ConsumerOk .peeked := hring'.consumer
        exact hok.2
      obtain ⟨-, c, hc, hcarries⟩ := hpub
      have htail : s.mem.ring.tail = s.taken := by
        rw [tail_eq_released hring (by simp [HandlerState.toRing, ht, ThreadPc.toConsumer,
          RingConsumer.lag]), HandlerState.taken, ht]
        rfl
      obtain rfl : rest = [] := by simpa using hrest
      rw [htail] at hc
      rw [List.append_nil, List.length_singleton, List.take_add_one, hc]
      exact List.rel_append h (.cons hcarries .nil)
    | _ => simp_all [takenBy]

/-! ## 実行全体 -/

variable {type : HandlerType} {name : CStr} {k : Nat} {as : List (HandlerAction ι)}

/-- 取り出した request は、claim の列の先頭から一つずつ運んだものである。 -/
theorem taken_run (hk : 1 ≤ k)
    (hrun : run (handlerStep .unbounded) (handlerInitial ι type name k) as = some s) :
    Delivered (emitted (handlerStep .unbounded) takenBy (handlerInitial ι type name k) as) s := by
  have hstep : ∀ reqs (s : HandlerState ι) a s', RingInv s.toRing ∧ Delivered reqs s → True →
      handlerStep .unbounded s a = some s' →
      RingInv s'.toRing ∧ Delivered (reqs ++ takenBy s a) s' := by
    rintro reqs s a s' ⟨hring, hd⟩ - hs
    exact ⟨ringInv_handlerStep hring hs, hd.step hring hs⟩
  have hinit : Delivered [] (handlerInitial ι type name k) := List.Forall₂.nil
  have hring : RingInv (handlerInitial ι type name k).toRing := ringInv_initial hk
  have h := emitted_invariant (P := fun _ _ => True) takenBy
    (fun reqs s => RingInv s.toRing ∧ Delivered reqs s) [] hstep ⟨hring, hinit⟩
    (along_of_forall fun _ _ => trivial) hrun
  rw [List.nil_append] at h
  exact h.2

/-! ## 休んでいる consumer -/

omit [DecidableEq ι] in
/-- ring が空で slot も持っていなければ、claim をすべて取り出している。 -/
theorem taken_eq_of_empty (hring : RingInv s.toRing) (hheld : s.thread.held = 0)
    (hlag : s.toRing.consumer.lag = 0) (ht : s.mem.ring.tail = s.mem.ring.head) :
    s.taken = s.mem.hist.claims.length := by
  have hhead : s.mem.ring.head = s.mem.hist.claims.length := hring.head_eq
  rw [HandlerState.taken, hheld, ← tail_eq_released hring hlag, ht, hhead, Nat.add_zero]

omit [DecidableEq ι] in
/-- 誰も `log_impl` の中におらず consumer が眠っていれば、claim をすべて取り出している。 -/
theorem taken_eq_of_parked (hring : RingInv s.toRing) (hwake : WakeInv s)
    (hidle : ∀ p, s.producers p = .idle) (ht : s.thread = .parked) :
    s.taken = s.mem.hist.claims.length := by
  have hlag : s.toRing.consumer.lag = 0 := by
    simp [HandlerState.toRing, ht, ThreadPc.toConsumer, RingConsumer.lag]
  have hready : ¬ s.mem.ring.TailReady := by
    intro hr
    obtain ⟨p, hp⟩ := hwake.ready (by rw [ht]; trivial) hr
    rw [hidle p] at hp
    exact hp.elim
  exact taken_eq_of_empty hring (by rw [ht]; rfl) hlag
    (tail_eq_head_of_not_ready hring hidle hlag hready)

/-- 停止が隙間に入らなければ、抜けた consumer は claim をすべて取り出している。 -/
theorem taken_eq_of_exited (hk : 1 ≤ k)
    (hrun : run (handlerStep .unbounded) (handlerInitial ι type name k) as = some s)
    (hquiet : Along (handlerStep .unbounded) QuietShutdown (handlerInitial ι type name k) as)
    (hstops : Along (handlerStep .unbounded) StopsOutsideWindow (handlerInitial ι type name k) as)
    (ht : s.thread = .exited) : s.taken = s.mem.hist.claims.length := by
  have hstop : StopInv s :=
    run_invariant (fun _ _ _ h hq hs => stopInv_step h hq hs) (stopInv_initial type name k)
      hquiet hrun
  have hd : s.destroy ≠ .notCalled := fun hd =>
    (hstop.before hd).2 (by rw [ht]; trivial)
  refine taken_eq_of_empty (ringInv_handler hk ⟨as, hrun⟩) (by rw [ht]; rfl) ?_
    (drainInv_run hk hrun hquiet hstops hd (by rw [ht]; exact Or.inr trivial))
  simp [HandlerState.toRing, ht, ThreadPc.toConsumer, RingConsumer.lag]

/--
動作列 `as` の後で consumer が休んでいる。誰も `log_impl` の中におらず眠っているか、
停止が隙間に入らずに抜けている。
-/
def HandlerRests (s₀ : HandlerState ι) (as : List (HandlerAction ι)) (s : HandlerState ι) : Prop :=
  (∀ p, s.producers p = .idle) ∧ s.thread = .parked ∨
    s.thread = .exited ∧ Along (handlerStep .unbounded) QuietShutdown s₀ as ∧
      Along (handlerStep .unbounded) StopsOutsideWindow s₀ as

/-- 休んでいる consumer は、claim をすべて取り出している。 -/
theorem HandlerRests.taken_eq (hk : 1 ≤ k)
    (hrun : run (handlerStep .unbounded) (handlerInitial ι type name k) as = some s)
    (h : HandlerRests (handlerInitial ι type name k) as s) :
    s.taken = s.mem.hist.claims.length := by
  rcases h with ⟨hidle, ht⟩ | ⟨ht, hquiet, hstops⟩
  · exact taken_eq_of_parked (ringInv_handler hk ⟨as, hrun⟩) (wakeInv_reachable ⟨as, hrun⟩)
      hidle ht
  · exact taken_eq_of_exited hk hrun hquiet hstops ht

end Logmoko
