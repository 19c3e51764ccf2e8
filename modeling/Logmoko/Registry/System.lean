import Logmoko.Lib.Run
import Logmoko.Registry.Config

/-!
# registry の操作列

公開関数の呼び出しを一つの動作とする遷移系である。呼び出し側の約束
（pointer は生きているか NULL）は `ArgsLive` で表し、守らない呼び出しは動作に含めない。

`lmk_init` は自動設定の file を読む。file の中身は呼び出しごとに変わりうるので、
動作がその時点の解析結果を持つ（`none` は読めなかったことを表す）。
`lmk_init` の中から呼ばれる関数も `lmk_init` を呼ぶが、旗が既に 1 なので何もせずに戻る。
-/

namespace Logmoko

open Transition

/-- libc の代わり。読める host は `127.0.0.1` だけである。 -/
def Env.loopback : Env where
  inetPton host := if host.bytes = ascii "127.0.0.1" then some 0x0100007f else none
  deriveKey _ := []

/-! ## 初期化と終了 -/

/-- 読めなかった file は何も変えずに失敗を返す。 -/
def lmkParseAndApply (env : Env) (r : Registry) : Option Cfg → Option (Registry × Int)
  | some cfg => (lmkCfgApply env r cfg).map fun r => (r, lmkEOk)
  | none => some (r, lmkENg)

def Config.withDefaults (c : Config) : Config :=
  { logBufferSize := if c.logBufferSize = 0 then cfgDefaultLogBufferSize else c.logBufferSize
    ringBufferSize := if c.ringBufferSize = 0 then cfgDefaultRingBufferSize else c.ringBufferSize }

/-- 自動設定の file の解析結果が `auto` であるときの初期化。二度目からは何もしない。 -/
def lmkInit (env : Env) (auto : Option Cfg) (r : Registry) : Option Registry :=
  if r.initialized then some r
  else
    let r : Registry :=
      { initialized := true, config := some { logBufferSize := 0, ringBufferSize := 0 }
        loggers := [], handlers := [] }
    (lmkParseAndApply env r auto).map fun p =>
      { p.1 with config := p.1.config.map Config.withDefaults }

/-- 設定 file の指定。NULL なら自動設定の file を読み直す。 -/
inductive ConfigPath where
  | null
  | file (parsed : Option Cfg)

def lmkInitFromFile (env : Env) (auto : Option Cfg) (r : Registry) :
    ConfigPath → Option (Registry × Int)
  | .null => (lmkInit env auto r).bind fun r => lmkParseAndApply env r auto
  | .file parsed => (lmkInit env auto r).bind fun r => lmkParseAndApply env r parsed

/-- `lmk_destroy` の中の呼び出しと返り値の控え。program の変数ではない。 -/
structure DestroyLog where
  detachCodes : List Int
  loggers : List (Nat × Int)
  handlers : List (Nat × Int)

/-- 空の控え。 -/
def DestroyLog.empty : DestroyLog := { detachCodes := [], loggers := [], handlers := [] }

/-- logger の list を回る loop の本体。 -/
def destroyLoggerEntry (fuel : Nat) (s : Registry × DestroyLog) (a : Nat) :
    Option (Registry × DestroyLog) :=
  (lmkDestroyLogger fuel s.1 (some a)).map fun p =>
    (p.1, { s.2 with
      detachCodes := s.2.detachCodes ++ p.2.2
      loggers := s.2.loggers ++ [(a, p.2.1)] })

/-- handler の list を回る loop の本体。 -/
def destroyHandlerEntry (s : Registry × DestroyLog) (a : Nat) : Option (Registry × DestroyLog) :=
  let p := lmkDestroyLogHandler s.1 (some a)
  some (p.1, { s.2 with handlers := s.2.handlers ++ [(a, p.2)] })

/-- 走査中の `g_lmk_logger_list`。 -/
def loggerEntries (s : Registry × DestroyLog) : List Nat := s.1.loggers.map Logger.addr

/-- 走査中の `g_lmk_handler_list`。 -/
def handlerEntries (s : Registry × DestroyLog) : List Nat := s.1.handlers.map LogHandler.addr

/-- 燃料 `fuel` はどの loop にも等しく与える。 -/
def lmkDestroy (fuel : Nat) (r : Registry) : Option (Registry × DestroyLog) :=
  if r.initialized then
    (Cursor.forEachEntry loggerEntries (destroyLoggerEntry fuel) fuel (r, .empty)).bind fun s =>
      (Cursor.forEachEntry handlerEntries destroyHandlerEntry fuel s).map fun p =>
        ({ p.1 with initialized := false, config := none }, p.2)
  else some (r, .empty)

/-! ## 動作 -/

/-- 公開関数の呼び出し。 -/
inductive RegistryOp where
  | init
  | initFromFile (path : ConfigPath)
  | cfgApply (cfg : Cfg)
  | destroy
  | getLogger (name : Option CStr)
  | setLogLevel (logger : Option Nat) (level : Int)
  | destroyLogger (logger : Option Nat)
  | attachLogHandler (logger handler : Option Nat)
  | detachLogHandler (logger handler : Option Nat)
  | getConsoleLogHandler
  | getFileLogHandler (name filename : Option CStr)
  | getSocketLogHandler (name : Option CStr)
  | getSyslogLogHandler (name ident : Option CStr) (facility : Int)
  | destroyLogHandler (handler : Option Nat)
  | setHandlerLogLevel (handler : Option Nat) (level : Int)
  | setLogFormat (handler : Option Nat) (fn : Option FormatFn)
  | setLogRotation (handler : Option Nat) (maxFileSize maxBackupFiles : Int)
  | setLogFilename (handler : Option Nat) (filename : Option CStr)
  | attachLogListener (handler : Option Nat) (host : Option CStr) (port : Int)
  | setSocketPsk (handler : Option Nat) (psk : Option CStr)

/-- 動作。`auto` はその時点の自動設定の file の解析結果である。 -/
structure RegistryAction where
  auto : Option Cfg
  op : RegistryOp

/-- pointer は NULL か、生きている logger を指す。 -/
def Registry.LoggerLive (r : Registry) (p : Option Nat) : Prop :=
  ∀ a ∈ p, a ∈ r.loggers.map Logger.addr

/-- pointer は NULL か、生きている handler を指す。 -/
def Registry.HandlerLive (r : Registry) (p : Option Nat) : Prop :=
  ∀ a ∈ p, a ∈ r.handlers.map LogHandler.addr

instance (r : Registry) : DecidablePred r.LoggerLive :=
  fun _ => inferInstanceAs (Decidable (∀ _, _))
instance (r : Registry) : DecidablePred r.HandlerLive :=
  fun _ => inferInstanceAs (Decidable (∀ _, _))

/-- 呼び出し側の約束。 -/
def ArgsLive (r : Registry) : RegistryOp → Prop
  | .setLogLevel logger _ | .destroyLogger logger => r.LoggerLive logger
  | .attachLogHandler logger handler | .detachLogHandler logger handler =>
    r.LoggerLive logger ∧ r.HandlerLive handler
  | .destroyLogHandler handler | .setHandlerLogLevel handler _ | .setLogFormat handler _
  | .setLogRotation handler _ _ | .setLogFilename handler _ | .attachLogListener handler _ _
  | .setSocketPsk handler _ => r.HandlerLive handler
  | .init | .initFromFile _ | .cfgApply _ | .destroy | .getLogger _ | .getConsoleLogHandler
  | .getFileLogHandler _ _ | .getSocketLogHandler _ | .getSyslogLogHandler _ _ _ => True

instance (r : Registry) : DecidablePred (ArgsLive r)
  | .setLogLevel logger _ | .destroyLogger logger =>
    inferInstanceAs (Decidable (r.LoggerLive logger))
  | .attachLogHandler logger handler | .detachLogHandler logger handler =>
    inferInstanceAs (Decidable (r.LoggerLive logger ∧ r.HandlerLive handler))
  | .destroyLogHandler handler | .setHandlerLogLevel handler _ | .setLogFormat handler _
  | .setLogRotation handler _ _ | .setLogFilename handler _ | .attachLogListener handler _ _
  | .setSocketPsk handler _ => inferInstanceAs (Decidable (r.HandlerLive handler))
  | .init | .initFromFile _ | .cfgApply _ | .destroy | .getLogger _ | .getConsoleLogHandler
  | .getFileLogHandler _ _ | .getSocketLogHandler _ | .getSyslogLogHandler _ _ _ =>
    inferInstanceAs (Decidable True)

/-- 走査の燃料。どの list の長さよりも小さくない。 -/
def Registry.fuel (r : Registry) : Nat :=
  r.loggers.length + r.handlers.length + (r.loggers.map fun l => l.handlerRefList.length).sum

/-- 呼び出し一回。`lmk_init` を先に呼ぶ関数はその後の状態で動く。 -/
def runOp (env : Env) (auto : Option Cfg) (r : Registry) : RegistryOp → Option Registry
  | .init => lmkInit env auto r
  | .initFromFile path => (lmkInitFromFile env auto r path).map Prod.fst
  | .cfgApply cfg => lmkCfgApply env r cfg
  | .destroy => (lmkDestroy r.fuel r).map Prod.fst
  | .getLogger name => (lmkInit env auto r).bind fun r => (lmkGetLogger r name).map Prod.fst
  | .setLogLevel logger level =>
    (lmkInit env auto r).map fun r => lmkSetLogLevel r logger level
  | .destroyLogger logger =>
    (lmkInit env auto r).bind fun r => (lmkDestroyLogger r.fuel r logger).map Prod.fst
  | .attachLogHandler logger handler =>
    (lmkInit env auto r).map fun r => (lmkAttachLogHandler r logger handler).1
  | .detachLogHandler logger handler =>
    (lmkInit env auto r).bind fun r => (lmkDetachLogHandler r logger handler).map Prod.fst
  | .getConsoleLogHandler =>
    (lmkInit env auto r).bind fun r => (lmkGetConsoleLogHandler r).map Prod.fst
  | .getFileLogHandler name filename =>
    (lmkInit env auto r).bind fun r => (lmkGetFileLogHandler r name filename).map Prod.fst
  | .getSocketLogHandler name =>
    (lmkInit env auto r).bind fun r => (lmkGetSocketLogHandler r name).map Prod.fst
  | .getSyslogLogHandler name ident facility =>
    (lmkInit env auto r).bind fun r => (lmkGetSyslogLogHandler r name ident facility).map Prod.fst
  | .destroyLogHandler handler => some (lmkDestroyLogHandler r handler).1
  | .setHandlerLogLevel handler level =>
    (lmkInit env auto r).map fun r => lmkSetHandlerLogLevel r handler level
  | .setLogFormat handler fn => some (lmkSetLogFormat r handler fn)
  | .setLogRotation handler maxFileSize maxBackupFiles =>
    some (lmkSetLogRotation r handler maxFileSize maxBackupFiles)
  | .setLogFilename handler filename => lmkSetLogFilename r handler filename
  | .attachLogListener handler host port => some (lmkAttachLogListener env r handler host port)
  | .setSocketPsk handler psk => some (lmkSetSocketPsk env r handler psk)

/-- registry の系の一 step。 -/
def registryStep (env : Env) (r : Registry) (act : RegistryAction) : Option Registry :=
  if ArgsLive r act.op then runOp env act.auto r act.op else none

end Logmoko
