import Logmoko.Ring.System

/-!
# handler の thread たち

一つの handler を、次の三種の thread の interleaving として写す。

* producer — `log_impl`（`running` の確認、enqueue、counter、`maybe_wake`）
* consumer — `thread_routine`（drain、flush、停止の確認、condition variable での待ち）
* destroyer — `destroy`（`running = 0`、broadcast、join）

file・console・socket・syslog の四つの `thread_routine` は同じ形をしている。
違いは drain の後に flush があるか（file と console）、
抜ける前に最後の flush があるか（file だけ）で、`HandlerType` で分ける。

動作はどれも原子的な操作ひとつである。mutex は持ち主で、condition variable は
consumer が眠っているか（`parked`）、起こされて lock を待っているか（`woken`）で表す。
待つのは consumer だけなので、signal も broadcast も consumer を起こすだけである。
偽の起床（spurious wakeup）は独立した動作として許す。
-/

namespace Logmoko

open Transition

/-- handler の種類。 -/
inductive HandlerType where
  | console
  | file
  | socket
  | syslog
deriving DecidableEq

/-- `log_impl` の実行位置。`idle` は呼び出しの外である。 -/
inductive LogImplPc where
  | idle
  | loadRunning (record : LogRecord)
  | enqueue (c : EnqueueCall) (pc : EnqueuePc)
  | addDropped
  | addLogCalls
  /-- ここから `maybe_wake`。 -/
  | fence
  | loadSleeping
  | wakeLock
  | wakeSignal
  | wakeUnlock

/-- 呼び出しの外にいるか。 -/
def LogImplPc.isIdle : LogImplPc → Bool
  | .idle => true
  | _ => false

/-- `thread_routine` の実行位置。 -/
inductive ThreadPc where
  | drainPeek
  | process
  | consumeStore (req : LogRequest)
  | consumeTail
  | flush
  | loadRunning
  | lock
  | storeSleeping
  | rePeek
  | reloadRunning
  | condWait
  | parked
  | woken
  | clearSleeping
  | unlock
  | finalFlush
  | exited

/-- `destroy` の実行位置。 -/
inductive DestroyPc where
  | notCalled
  | lock
  | broadcast
  | unlock
  | join
  | joined
deriving DecidableEq

/-- `wakeup_lock` の持ち主。 -/
inductive Owner (ι : Type) where
  | producer (p : ι)
  | consumer
  | destroyer
deriving DecidableEq

/-- handler の状態。`calls` は `log_impl` が呼ばれた回数の控えで、program の変数ではない。 -/
structure HandlerState (ι : Type) where
  type : HandlerType
  name : CStr
  mem : Shared
  producers : ι → LogImplPc
  thread : ThreadPc
  destroy : DestroyPc
  running : Bool
  sleeping : Bool
  wakeupLock : Option (Owner ι)
  nrLogCalls : Nat
  dropped : Nat
  calls : Nat

/-- handler の系の動作。 -/
inductive HandlerAction (ι : Type) where
  | logImpl (p : ι) (record : LogRecord)
  | producer (p : ι) (casFails : Bool)
  | thread
  | spuriousWakeup
  | destroy

/-- `init` を終えて thread を起こした直後の状態。 -/
def handlerInitial (ι : Type) (type : HandlerType) (name : CStr) (k : Nat) : HandlerState ι :=
  { type, name
    mem := { ring := lmkRingInit (2 ^ k), hist := .empty }
    producers := fun _ => .idle
    thread := .drainPeek, destroy := .notCalled, running := true, sleeping := false
    wakeupLock := none, nrLogCalls := 0, dropped := 0, calls := 0 }

/-- signal と broadcast。眠っている consumer を起こす。 -/
def ThreadPc.signal : ThreadPc → ThreadPc
  | .parked => .woken
  | t => t

/-- ring が空だと分かった後の位置。file と console は flush を挟む。 -/
def ThreadPc.afterDrain : HandlerType → ThreadPc
  | .file | .console => .flush
  | .socket | .syslog => .loadRunning

/-- `running` が 0 だと読んだ後の位置。file は最後の flush を挟む。 -/
def ThreadPc.afterStop : HandlerType → ThreadPc
  | .file => .finalFlush
  | .console | .socket | .syslog => .exited

section

variable {ι : Type} [DecidableEq ι]

/-- producer `p` の位置を書き換える。 -/
def HandlerState.setProducer (s : HandlerState ι) (p : ι) (x : LogImplPc) : HandlerState ι :=
  { s with producers := Function.update s.producers p x }

/-- `log_impl` の一 step。 -/
def logImplStep (A : CursorArith) (s : HandlerState ι) (p : ι) (casFails : Bool) :
    Option (HandlerState ι) :=
  match s.producers p with
  | .idle => none
  | .loadRunning record =>
    if s.running then
      let c : EnqueueCall := { id := s.mem.hist.nextCall, record, handlerName := s.name }
      some { s.setProducer p (.enqueue c .loadHead) with
        mem := { s.mem with hist := s.mem.hist.openCall } }
    else some (s.setProducer p .idle)
  | .enqueue c (.ret ok) =>
    some { s.setProducer p (if ok then .addLogCalls else .addDropped) with
      mem := { s.mem with hist := s.mem.hist.closeCall c.id ok } }
  | .enqueue c pc =>
    (enqueueStep A c casFails s.mem pc).map fun (m, pc') =>
      { s.setProducer p (.enqueue c pc') with mem := m }
  | .addDropped => some { s.setProducer p .idle with dropped := s.dropped + 1 }
  | .addLogCalls => some { s.setProducer p .fence with nrLogCalls := s.nrLogCalls + 1 }
  | .fence => some (s.setProducer p .loadSleeping)
  | .loadSleeping => some (s.setProducer p (if s.sleeping then .wakeLock else .idle))
  | .wakeLock =>
    if s.wakeupLock = none then
      some { s.setProducer p .wakeSignal with wakeupLock := some (.producer p) }
    else none
  | .wakeSignal => some { s.setProducer p .wakeUnlock with thread := s.thread.signal }
  | .wakeUnlock => some { s.setProducer p .idle with wakeupLock := none }

/-- `thread_routine` の一 step。眠っている間と抜けた後は動かない。 -/
def threadStep (A : CursorArith) (s : HandlerState ι) : Option (HandlerState ι) :=
  match s.thread with
  | .drainPeek =>
    some { s with thread :=
      if (lmkRingPeekSlot A s.mem.ring).isSome then .process else .afterDrain s.type }
  | .process =>
    some { s with thread := .consumeStore (s.mem.ring.slotAt s.mem.ring.tail).req }
  | .consumeStore req =>
    some { s with
      mem := { ring := consumeStore A s.mem.ring, hist := s.mem.hist.consume req }
      thread := .consumeTail }
  | .consumeTail =>
    some { s with mem := { s.mem with ring := consumeTail A s.mem.ring }, thread := .drainPeek }
  | .flush => some { s with thread := .loadRunning }
  | .loadRunning =>
    some { s with thread := if s.running then .lock else .afterStop s.type }
  | .lock =>
    if s.wakeupLock = none then
      some { s with wakeupLock := some .consumer, thread := .storeSleeping }
    else none
  | .storeSleeping => some { s with sleeping := true, thread := .rePeek }
  | .rePeek =>
    some { s with thread :=
      if (lmkRingPeekSlot A s.mem.ring).isSome then .clearSleeping else .reloadRunning }
  | .reloadRunning =>
    some { s with thread := if s.running then .condWait else .clearSleeping }
  | .condWait => some { s with wakeupLock := none, thread := .parked }
  | .parked => none
  | .woken =>
    if s.wakeupLock = none then some { s with wakeupLock := some .consumer, thread := .rePeek }
    else none
  | .clearSleeping => some { s with sleeping := false, thread := .unlock }
  | .unlock => some { s with wakeupLock := none, thread := .drainPeek }
  | .finalFlush => some { s with thread := .exited }
  | .exited => none

/-- consumer が抜けているか。 -/
def ThreadPc.isExited : ThreadPc → Bool
  | .exited => true
  | _ => false

/-- `destroy` の一 step。最初の step が `running = 0` の store である。 -/
def destroyStep (s : HandlerState ι) : Option (HandlerState ι) :=
  match s.destroy with
  | .notCalled => some { s with running := false, destroy := .lock }
  | .lock =>
    if s.wakeupLock = none then
      some { s with wakeupLock := some .destroyer, destroy := .broadcast }
    else none
  | .broadcast => some { s with thread := s.thread.signal, destroy := .unlock }
  | .unlock => some { s with wakeupLock := none, destroy := .join }
  | .join => if s.thread.isExited then some { s with destroy := .joined } else none
  | .joined => none

/-- handler の系の一 step。 -/
def handlerStep (A : CursorArith) (s : HandlerState ι) :
    HandlerAction ι → Option (HandlerState ι)
  | .logImpl p record =>
    match s.producers p with
    | .idle => some { s.setProducer p (.loadRunning record) with calls := s.calls + 1 }
    | _ => none
  | .producer p casFails => logImplStep A s p casFails
  | .thread => threadStep A s
  | .spuriousWakeup =>
    match s.thread with
    | .parked => some { s with thread := .woken }
    | _ => none
  | .destroy => destroyStep s

end

end Logmoko
