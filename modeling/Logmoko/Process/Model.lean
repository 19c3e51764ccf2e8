import Logmoko.Dispatch.History
import Logmoko.Handler.Liveness
import Logmoko.Handler.Order

/-!
# process 全体

`lmk_log_*` を呼ぶ任意個の thread と、registry にあるすべての handler の consumer を、
一つの遷移系にする。

* caller — `lmk_log_common` と `lmk_log_impl` の loop。record を渡す handler ごとに、
  その `log_impl` の step を踏む
* consumer — handler ごとに一つの `thread_routine`
* 終了 — `lmk_destroy`。logger を壊し、handler を list の順に一つずつ壊す

整形の buffer は thread ごとにある。registry は、log を呼ぶ thread がいる間は変わらない。
設定を終えた registry から始めるので、`lmk_log_common` の中の `lmk_init` は何もしない。
-/

namespace Logmoko

open Transition

/-- caller の実行位置。`cursor` は、まだ見ていない参照先である。 -/
inductive CallerPc where
  | idle
  | next (record : LogRecord) (cursor : List Nat)
  | inHandler (record : LogRecord) (handler : Nat) (cursor : List Nat)

/-- 呼び出しの外にいるか。 -/
def CallerPc.isIdle : CallerPc → Bool
  | .idle => true
  | _ => false

/-- `lmk_destroy` の実行位置。`cursor` は、まだ壊し終えていない handler である。 -/
inductive TeardownPc where
  | notCalled
  | handlers (cursor : List Nat)
  | done
deriving DecidableEq

/-- process の状態。 -/
structure ProcessState (ι : Type) where
  registry : Registry
  tlsLogBuf : ι → Nat → UInt8
  callers : ι → CallerPc
  handlers : Nat → HandlerState ι
  teardown : TeardownPc

/-- process の動作。 -/
inductive ProcessAction (ι : Type) where
  | log (p : ι) (call : LogCall)
  | offer (p : ι)
  | logImpl (p : ι) (casFails : Bool)
  | consumer (handler : Nat)
  | spuriousWakeup (handler : Nat)
  | destroy

/--
設定を終えた registry から始まる状態。番地 `a` の handler の ring の大きさは `2 ^ k a` である。
registry に無い番地の handler は、どの動作も受け付けない。
-/
def processInitial (ι : Type) (r : Registry) (k : Nat → Nat) : ProcessState ι :=
  { registry := r
    tlsLogBuf := fun _ _ => 0
    callers := fun _ => .idle
    handlers := fun a =>
      match r.handler? a with
      | some hd => handlerInitial ι hd.body.type hd.name (k a)
      | none => handlerInitial ι .console .empty (k a)
    teardown := .notCalled }

section

variable {ι : Type} [DecidableEq ι]

/-- caller `p` の位置を書き換える。 -/
def ProcessState.setCaller (s : ProcessState ι) (p : ι) (x : CallerPc) : ProcessState ι :=
  { s with callers := Function.update s.callers p x }

/-- 番地 `a` の handler を書き換える。 -/
def ProcessState.setHandler (s : ProcessState ι) (a : Nat) (h : HandlerState ι) :
    ProcessState ι :=
  { s with handlers := Function.update s.handlers a h }

/-- 番地 `a` の handler の一 step。解放された handler は動けない。 -/
def ProcessState.stepHandler (s : ProcessState ι) (a : Nat) (act : HandlerAction ι) :
    Option (ProcessState ι) :=
  (s.registry.handler? a).bind fun _ =>
    (handlerStep .unbounded (s.handlers a) act).map fun h => s.setHandler a h

/--
`lmk_log_common` から `lmk_log_impl` の loop の手前まで。整形は自分の buffer に行うので、
ほかの thread の step の間に入っても変わらない。
-/
def beginLog (s : ProcessState ι) (p : ι) (call : LogCall) : ProcessState ι :=
  match call.logger.bind s.registry.logger? with
  | none => s
  | some lg =>
    if call.fn.level ≥ lg.logLevel then
      let result := vsnprintf logMsgMaxSize call.text
      let buf := Buffer.overlay (s.tlsLogBuf p) 0 result.written
      let record := call.record buf result.ret
      let s := { s with tlsLogBuf := Function.update s.tlsLogBuf p buf }
      if lg.initialized = false then s
      else if ¬ ValidLogLevel record.logLevel then s
      else if record.logLevel ≥ lg.logLevel then s.setCaller p (.next record lg.handlerRefList)
      else s
    else s

/-- loop の一回り。参照先の level を満たせば、その `log_impl` に入る。 -/
def offerNext (s : ProcessState ι) (p : ι) : Option (ProcessState ι) :=
  match s.callers p with
  | .next _ [] => some (s.setCaller p .idle)
  | .next record (a :: cursor) =>
    (s.registry.handler? a).bind fun hd =>
      if record.logLevel ≥ hd.logLevel then
        (s.stepHandler a (.logImpl p record)).map fun s =>
          s.setCaller p (.inHandler record a cursor)
      else some (s.setCaller p (.next record cursor))
  | .idle | .inHandler _ _ _ => none

/-- 呼び出している `log_impl` の一 step。返れば loop に戻る。 -/
def stepLogImpl (s : ProcessState ι) (p : ι) (casFails : Bool) : Option (ProcessState ι) :=
  match s.callers p with
  | .inHandler record a cursor =>
    (s.stepHandler a (.producer p casFails)).map fun s =>
      if ((s.handlers a).producers p).isIdle then s.setCaller p (.next record cursor) else s
  | .idle | .next _ _ => none

/--
`lmk_destroy` の一 step。最初の step が logger の loop の全体で、その後は handler を順に、
`destroy` が返るまで一 step ずつ壊す。参照の残る handler は飛ばす（source は保存した cursor で後で
見直すが、logger の loop がすべての handler を外した後なので、この枝に入ることはない）。
-/
def teardownStep (s : ProcessState ι) : Option (ProcessState ι) :=
  match s.teardown with
  | .notCalled =>
    let fuel := s.registry.fuel
    (Cursor.forEachEntry loggerEntries (destroyLoggerEntry fuel) fuel (s.registry, .empty)).map
      fun q => { s with registry := q.1, teardown := .handlers (q.1.handlers.map LogHandler.addr) }
  | .handlers [] =>
    some { s with
      registry := { s.registry with initialized := false, config := none }, teardown := .done }
  | .handlers (a :: cursor) =>
    (s.registry.handler? a).bind fun hd =>
      if hd.nrLoggerRef > 0 then some { s with teardown := .handlers cursor }
      else if (s.handlers a).destroy = .joined then
        some { s with
          registry := (lmkDestroyLogHandler s.registry (some a)).1
          teardown := .handlers cursor }
      else s.stepHandler a .destroy
  | .done => none

/-- process の一 step。 -/
def processStep (s : ProcessState ι) : ProcessAction ι → Option (ProcessState ι)
  | .log p call =>
    if (s.callers p).isIdle ∧ s.registry.LoggerLive call.logger ∧ s.teardown = .notCalled then
      some (beginLog s p call)
    else none
  | .offer p => offerNext s p
  | .logImpl p casFails => stepLogImpl s p casFails
  | .consumer a => s.stepHandler a .thread
  | .spuriousWakeup a => s.stepHandler a .spuriousWakeup
  | .destroy => teardownStep s

end

/-- 番地 1 の logger に番地 2 の console handler を付ける操作。 -/
def helloOps : List RegistryOp :=
  [.getLogger (some consoleName), .getConsoleLogHandler, .attachLogHandler (some 1) (some 2)]

end Logmoko
