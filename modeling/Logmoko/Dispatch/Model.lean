import Logmoko.Lib.Run
import Logmoko.Format.Model
import Logmoko.Registry.System

/-!
# log の呼び出し

`logmoko_logger.c` の `lmk_log_common` と `lmk_log_impl` を写し、registry の操作と並べて
一つの遷移系にする。

record は logger に付いた handler の `log_impl` に順に渡される。渡された record を受け取るか
（`running` が 1 で ring に空きがあるか）は、呼び出しごとに handler の番地で決まる `accepts` で表す。
`vsnprintf` が展開した後の byte 列は呼び出しが持つ。

解放済みの handler を参照する呼び出しは `none`（未定義動作）になる。
-/

namespace Logmoko

/-! ## 書式の展開 -/

/-- `int` の最大値。 -/
def intMax : Nat := 2 ^ 31 - 1

/--
`vsnprintf` の結果。`text` は書式を展開した byte 列で、変換に失敗すれば `none` である。
展開した長さが `int` に収まらないときも失敗して負の値を返す。
-/
def vsnprintf (size : Nat) (text : Option (List UInt8)) : FormatResult :=
  match text with
  | some text =>
    if text.length ≤ intMax then snprintf size text else { ret := -1, written := fun _ => none }
  | none => { ret := -1, written := fun _ => none }

/-- 返り値から `data_len` を決める。負なら 0、溢れていれば buffer の大きさより一つ小さい値である。 -/
def clampDataLen (n : Int) : Nat :=
  let n : Int := if n < 0 then 0 else n
  let n : Int := if n ≥ logMsgMaxSize then (logMsgMaxSize : Int) - 1 else n
  n.toNat

theorem clampDataLen_le (n : Int) : clampDataLen n ≤ logMsgMaxSize := by
  unfold clampDataLen logMsgMaxSize
  dsimp only
  split <;> split <;> omega

/-! ## 呼び出し -/

/-- 公開されている五つの関数。 -/
inductive LogFn where
  | logTrace
  | logDebug
  | logInfo
  | logWarn
  | logError
deriving DecidableEq

/-- 関数が `lmk_log_common` に渡す level。 -/
def LogFn.level : LogFn → Int
  | .logTrace => 0
  | .logDebug => 1
  | .logInfo => 2
  | .logWarn => 3
  | .logError => 4

/-- 五つの関数の呼び出し一回。`text` は書式を展開した byte 列である。 -/
structure LogCall where
  fn : LogFn
  logger : Option Nat
  fileName : CStr
  lineNo : Int
  text : Option (List UInt8)

/-- `lmk_log_impl` が埋める record。`data` は整形の buffer を指す。 -/
def LogCall.record (call : LogCall) (buf : Nat → UInt8) (n : Int) : LogRecord :=
  { logLevel := call.fn.level, data := Buffer.read buf 0 logMsgMaxSize, dataLen := clampDataLen n
    lineNo := call.lineNo, fileName := call.fileName
    dataLen_le := by
      rw [Buffer.length_read]
      exact clampDataLen_le n }

/-- `lmk_log_impl` の loop の本体。参照先の level を満たす record だけを渡す。 -/
def offerTo (r : Registry) (record : LogRecord) (offers : List Nat) (a : Nat) :
    Option (List Nat) :=
  (r.handler? a).map fun hd =>
    if record.logLevel ≥ hd.logLevel then offers ++ [hd.addr] else offers

/-- 返すのは、record を渡した handler の番地の列と返り値である。 -/
def lmkLogImpl (r : Registry) (logger : Option Nat) (record : LogRecord) :
    Option (List Nat × Int) :=
  match logger.bind r.logger? with
  | none => some ([], lmkENg)
  | some lg =>
    if lg.initialized = false then some ([], lmkENg)
    else if ¬ ValidLogLevel record.logLevel then some ([], lmkENg)
    else if record.logLevel ≥ lg.logLevel then
      (lg.handlerRefList.foldlM (offerTo r record) []).map fun offers => (offers, lmkEOk)
    else some ([], lmkEOk)

/-- `LMK_IS_LOG_ENABLED` が偽なら何もしない。返すのは buffer と、渡した record の列である。 -/
def lmkLogCommon (r : Registry) (buf : Nat → UInt8) (call : LogCall) :
    Option ((Nat → UInt8) × List (Nat × LogRecord)) :=
  match call.logger.bind r.logger? with
  | none => some (buf, [])
  | some lg =>
    if call.fn.level ≥ lg.logLevel then
      let result := vsnprintf logMsgMaxSize call.text
      let buf := Buffer.overlay buf 0 result.written
      let record := call.record buf result.ret
      (lmkLogImpl r call.logger record).map fun p => (buf, p.1.map fun a => (a, record))
    else some (buf, [])

/-! ## 系 -/

/--
系の状態。`offers` は `log_impl` に渡された record、`received` はそのうち受け取られた record の
控えである。`attachments` は付いている logger と handler の組を付けた順に並べたもので、
program の変数ではない。
-/
structure DispatchState where
  registry : Registry
  tlsLogBuf : Nat → UInt8
  attachments : List (Nat × Nat)
  offers : List (Nat × LogRecord)
  received : List (Nat × LogRecord)

/-- 組の列を、呼び出しだけから決める。付いていれば足さない。 -/
def updateAttachments (attachments : List (Nat × Nat)) : RegistryOp → List (Nat × Nat)
  | .attachLogHandler (some g) (some a) =>
    if (g, a) ∈ attachments then attachments else attachments ++ [(g, a)]
  | .detachLogHandler (some g) (some a) => attachments.erase (g, a)
  | .destroyLogger (some g) => attachments.filter fun p => p.1 ≠ g
  | _ => attachments

/-- 系の動作。 -/
inductive DispatchAction where
  | op (op : RegistryOp)
  | log (call : LogCall) (accepts : Nat → Bool)

/-- 一つの logger か handler だけを作り、壊し、書き換える操作。 -/
def RegistryOp.Single : RegistryOp → Prop
  | .initFromFile _ | .cfgApply _ | .destroy => False
  | _ => True

instance : DecidablePred RegistryOp.Single
  | .initFromFile _ | .cfgApply _ | .destroy => isFalse id
  | .init | .getLogger _ | .setLogLevel _ _ | .destroyLogger _ | .attachLogHandler _ _
  | .detachLogHandler _ _ | .getConsoleLogHandler | .getFileLogHandler _ _
  | .getSocketLogHandler _ | .getSyslogLogHandler _ _ _ | .destroyLogHandler _
  | .setHandlerLogLevel _ _ | .setLogFormat _ _ | .setLogRotation _ _ _ | .setLogFilename _ _
  | .attachLogListener _ _ _ | .setSocketPsk _ _ => isTrue trivial

/-- 初期化された registry から始める。 -/
def dispatchInitial (r : Registry) : DispatchState :=
  { registry := r, tlsLogBuf := fun _ => 0
    attachments := r.loggers.flatMap fun l => l.handlerRefList.map fun a => (l.addr, a)
    offers := [], received := [] }

/-- 初期化は済んでいるので、操作の中の `lmk_init` は何もしない。 -/
def dispatchStep (env : Env) (s : DispatchState) : DispatchAction → Option DispatchState
  | .op op =>
    if op.Single then
      (registryStep env s.registry { auto := none, op }).map fun r =>
        { s with registry := r, attachments := updateAttachments s.attachments op }
    else none
  | .log call accepts =>
    if s.registry.LoggerLive call.logger then
      (lmkInit env none s.registry).bind fun r =>
        (lmkLogCommon r s.tlsLogBuf call).map fun p =>
          { s with
            registry := r, tlsLogBuf := p.1, offers := s.offers ++ p.2
            received := s.received ++ p.2.filter fun o => accepts o.1 }
    else none

end Logmoko
