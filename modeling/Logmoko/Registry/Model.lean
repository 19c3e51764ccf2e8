import Logmoko.Handler.Model
import Logmoko.Lib.Cursor
import Logmoko.Lib.Keyed

/-!
# logger と handler の registry

`g_lmk_logger_list`、`g_lmk_handler_list` と、それを読み書きする関数を写す。

構造体は番地 `addr` で区別する。pointer の引数は `Option Nat` で、NULL は `none` である。
呼び出し側が渡す pointer は生きているか NULL なので、その参照先は必ず見つかる。
program の中に残った pointer（logger の `handler_ref_list`）は生きているとは限らないので、
解放済みの handler への書き込みは `none`（未定義動作）とする。

確保は必ず成功し、thread の生成も成功するものとする。
どの公開関数も先頭で `lmk_init` を呼ぶ。その一行は、関数ごとにではなく
`registryStep`（`Registry/System.lean`）で一度に写す。
-/

namespace Logmoko

/-! ## data -/

/-- 書式関数への pointer。利用者の関数は番号で区別する。 -/
inductive FormatFn where
  | simple
  | json
  | user (fn : Nat)
deriving DecidableEq

/-- 構造体 `lmk_log_server`。 -/
structure LogServer where
  sinAddr : UInt32
  sinPort : Nat
deriving DecidableEq

/-- handler の種類ごとの部分。`psk` は `psk_enabled` が 1 のときの鍵である。 -/
inductive HandlerBody where
  | console
  | file (filename : CStr) (maxFileSize maxBackupFiles : Int)
  | socket (logServerList : List LogServer) (psk : Option (List UInt8))
  | syslog (ident : CStr) (facility : Int)
deriving DecidableEq

/-- handler の種類。 -/
def HandlerBody.type : HandlerBody → HandlerType
  | .console => .console
  | .file _ _ _ => .file
  | .socket _ _ => .socket
  | .syslog _ _ => .syslog

/-- 構造体 `lmk_log_handler`。`nrLoggerRef` は 32 bit の `unsigned int` である。 -/
structure LogHandler where
  addr : Nat
  name : CStr
  logLevel : Int
  nrLoggerRef : Nat
  initialized : Bool
  formatFn : Option FormatFn
  ringMask : Nat
  body : HandlerBody
deriving DecidableEq

/-- 構造体 `lmk_logger`。`handlerRefList` は参照先の handler の番地の列である。 -/
structure Logger where
  addr : Nat
  name : CStr
  logLevel : Int
  handlerRefList : List Nat
  initialized : Bool
deriving DecidableEq

/-- 構造体 `lmk_config`。 -/
structure Config where
  logBufferSize : Nat
  ringBufferSize : Nat
deriving DecidableEq

/-- 大域変数。 -/
structure Registry where
  initialized : Bool
  config : Option Config
  loggers : List Logger
  handlers : List LogHandler
deriving DecidableEq

/-- program の開始時の状態。 -/
def Registry.initial : Registry :=
  { initialized := false, config := none, loggers := [], handlers := [] }

/-- libc と OpenSSL の関数。`inetPton` は読めない文字列に `none` を返す。 -/
structure Env where
  inetPton : CStr → Option UInt32
  deriveKey : CStr → List UInt8

/-! ## 定数 -/

def lmkEOk : Int := 0
def lmkENg : Int := -1

def logLevelTrace : Int := 0
def logLevelInfo : Int := 2
def logLevelOff : Int := 5

/-- level の検査 `LMK_IS_VALID_LOG_LEVEL`。 -/
def ValidLogLevel (level : Int) : Prop := logLevelTrace ≤ level ∧ level ≤ logLevelOff

instance (level : Int) : Decidable (ValidLogLevel level) := inferInstanceAs (Decidable (_ ∧ _))

def defaultMaxFileSize : Int := 20 * 1024 * 1024
def defaultMaxBackupFiles : Int := 10

/-- 名前 `"console"`。 -/
def consoleName : CStr := ⟨[99, 111, 110, 115, 111, 108, 101], by decide⟩

/-! ## memory -/

/-- 生きている構造体の番地の最大値。 -/
def maxAddr (addrs : List Nat) : Nat := addrs.foldr max 0

/-- 新しく確保した構造体の番地。生きているどの番地とも異なる。 -/
def Registry.freshAddr (r : Registry) : Nat :=
  maxAddr (r.handlers.map LogHandler.addr ++ r.loggers.map Logger.addr) + 1

/-- pointer の先の logger。 -/
def Registry.logger? (r : Registry) (addr : Nat) : Option Logger :=
  r.loggers.find? fun l => l.addr = addr

/-- pointer の先の handler。 -/
def Registry.handler? (r : Registry) (addr : Nat) : Option LogHandler :=
  r.handlers.find? fun h => h.addr = addr

/-- 番地 `addr` の logger を書き換える。 -/
def Registry.setLogger (r : Registry) (addr : Nat) (f : Logger → Logger) : Registry :=
  { r with loggers := Keyed.modify Logger.addr addr f r.loggers }

/-- 番地 `addr` の handler を書き換える。 -/
def Registry.setHandler (r : Registry) (addr : Nat) (f : LogHandler → LogHandler) : Registry :=
  { r with handlers := Keyed.modify LogHandler.addr addr f r.handlers }

/--
名前の複写。長さを `int` に入れてから `name_len + 1` byte を確保するので、
長さは 32 bit に切り詰められる。`int` に収まらない値は確保に失敗するか未定義動作になる。
-/
def copyName (name : CStr) : Option CStr :=
  let nameLen := name.length % 2 ^ 32
  if nameLen + 1 < 2 ^ 31 then some (name.take nameLen) else none

/-! ## 検索 -/

def lmkSearchLoggerByName (r : Registry) (name : CStr) : Option Logger :=
  r.loggers.find? fun l => l.name = name

def lmkSearchLogHandlerByName (r : Registry) (name : CStr) : Option LogHandler :=
  r.handlers.find? fun h => h.name = name

/-! ## 構造体の書き換え -/

/-- 参照を末尾に足す。 -/
def Logger.addRef (a : Nat) (l : Logger) : Logger :=
  { l with handlerRefList := l.handlerRefList ++ [a] }

/-- 参照を外す。 -/
def Logger.dropRef (a : Nat) (l : Logger) : Logger :=
  { l with handlerRefList := l.handlerRefList.erase a }

def Logger.setLevel (level : Int) (l : Logger) : Logger := { l with logLevel := level }

/-- 参照の counter を一つ増やす。32 bit で巻き戻る。 -/
def LogHandler.addRef (h : LogHandler) : LogHandler :=
  { h with nrLoggerRef := (h.nrLoggerRef + 1) % 2 ^ 32 }

/-- 参照の counter を一つ減らす。32 bit で巻き戻る。 -/
def LogHandler.dropRef (h : LogHandler) : LogHandler :=
  { h with nrLoggerRef := if h.nrLoggerRef = 0 then 2 ^ 32 - 1 else h.nrLoggerRef - 1 }

def LogHandler.setLevel (level : Int) (h : LogHandler) : LogHandler := { h with logLevel := level }

def LogHandler.setFormat (fn : Option FormatFn) (h : LogHandler) : LogHandler :=
  { h with formatFn := fn }

def LogHandler.setBody (f : HandlerBody → HandlerBody) (h : LogHandler) : LogHandler :=
  { h with body := f h.body }

/-! ## logger -/

def lmkGetLogger (r : Registry) : Option CStr → Option (Registry × Option Nat)
  | none => some (r, none)
  | some name =>
    match lmkSearchLoggerByName r name with
    | some logger => some (r, some logger.addr)
    | none => (copyName name).map fun name' =>
      let logger : Logger :=
        { addr := r.freshAddr, name := name', logLevel := logLevelInfo
          handlerRefList := [], initialized := true }
      ({ r with loggers := r.loggers ++ [logger] }, some logger.addr)

def lmkSetLogLevel (r : Registry) (logger : Option Nat) (level : Int) : Registry :=
  match logger with
  | none => r
  | some a =>
    if ValidLogLevel level then r.setLogger a (.setLevel level) else r

/-- 既に付いていれば何もせずに成功する。 -/
def lmkAttachLogHandler (r : Registry) (logger handler : Option Nat) : Registry × Int :=
  match logger.bind r.logger?, handler.bind r.handler? with
  | some lg, some hd =>
    if hd.initialized = false then (r, lmkENg)
    else if hd.addr ∈ lg.handlerRefList then (r, lmkEOk)
    else
      let r := r.setLogger lg.addr (.addRef hd.addr)
      (r.setHandler hd.addr .addRef, lmkEOk)
  | _, _ => (r, lmkENg)

/-- 参照を外してから handler の counter を減らす。handler が解放済みなら未定義動作である。 -/
def lmkDetachLogHandler (r : Registry) (logger handler : Option Nat) : Option (Registry × Int) :=
  match logger.bind r.logger?, handler with
  | some lg, some a =>
    if a ∈ lg.handlerRefList then
      let r := r.setLogger lg.addr (.dropRef a)
      (r.handler? a).map fun _ => (r.setHandler a .dropRef, lmkEOk)
    else some (r, lmkENg)
  | _, _ => some (r, lmkENg)

/-- 走査中の `handler_ref_list`。二つ目の成分は detach の返り値の控えである。 -/
def refEntries (logger : Nat) (s : Registry × List Int) : List Nat :=
  ((s.1.logger? logger).map Logger.handlerRefList).getD []

/-- `lmk_destroy_logger` の loop の本体。 -/
def detachEntry (logger : Nat) (s : Registry × List Int) (handler : Nat) :
    Option (Registry × List Int) :=
  (lmkDetachLogHandler s.1 (some logger) (some handler)).map fun p => (p.1, s.2 ++ [p.2])

/-- 返り値の三つ目は、loop の中の detach の返り値の控えである。 -/
def lmkDestroyLogger (fuel : Nat) (r : Registry) : Option Nat → Option (Registry × Int × List Int)
  | none => some (r, lmkENg, [])
  | some a =>
    (Cursor.forEachEntry (refEntries a) (detachEntry a) fuel (r, [])).map fun p =>
      ({ p.1 with loggers := p.1.loggers.filter fun l => l.addr ≠ a }, lmkEOk, p.2)

/-! ## handler -/

/-- 同じ名前の handler があればそれを、無ければ新しく作って返す。四つの factory に共通の部分である。 -/
def getOrCreateHandler (r : Registry) (name : CStr) (body : HandlerBody) :
    Option (Registry × Option Nat) :=
  match lmkSearchLogHandlerByName r name with
  | some handler => some (r, some handler.addr)
  | none =>
    (copyName name).bind fun name' => r.config.map fun config =>
      let handler : LogHandler :=
        { addr := r.freshAddr, name := name', logLevel := logLevelTrace, nrLoggerRef := 0
          initialized := true, formatFn := none
          ringMask := lmkNextPow2 config.ringBufferSize - 1, body }
      ({ r with handlers := r.handlers ++ [handler] }, some handler.addr)

/-- 名前は引数に取らず、いつも `"console"` である。 -/
def lmkGetConsoleLogHandler (r : Registry) : Option (Registry × Option Nat) :=
  getOrCreateHandler r consoleName .console

def lmkGetFileLogHandler (r : Registry) (name filename : Option CStr) :
    Option (Registry × Option Nat) :=
  match name, filename with
  | some name, some filename =>
    getOrCreateHandler r name (.file filename defaultMaxFileSize defaultMaxBackupFiles)
  | _, _ => some (r, none)

def lmkGetSocketLogHandler (r : Registry) : Option CStr → Option (Registry × Option Nat)
  | some name => getOrCreateHandler r name (.socket [] none)
  | none => some (r, none)

def lmkGetSyslogLogHandler (r : Registry) (name ident : Option CStr) (facility : Int) :
    Option (Registry × Option Nat) :=
  match name with
  | some name =>
    getOrCreateHandler r name (.syslog ((ident.getD .empty).take 63) facility)
  | none => some (r, none)

/-- 参照されている handler は壊さずに失敗を返す。 -/
def lmkDestroyLogHandler (r : Registry) (handler : Option Nat) : Registry × Int :=
  match handler.bind r.handler? with
  | some hd =>
    if hd.nrLoggerRef > 0 then (r, lmkENg)
    else ({ r with handlers := r.handlers.filter fun h => h.addr ≠ hd.addr }, lmkEOk)
  | none => (r, lmkENg)

/-- handler を書き換える設定関数に共通の部分。NULL なら何もしない。 -/
def onHandler (r : Registry) (handler : Option Nat) (f : LogHandler → LogHandler) : Registry :=
  match handler with
  | some a => r.setHandler a f
  | none => r

def lmkSetHandlerLogLevel (r : Registry) (handler : Option Nat) (level : Int) : Registry :=
  if ValidLogLevel level then onHandler r handler (.setLevel level) else r

def lmkSetLogFormat (r : Registry) (handler : Option Nat) (fn : Option FormatFn) : Registry :=
  onHandler r handler (.setFormat fn)

/-- file 以外の handler は変えない。 -/
def HandlerBody.setRotation (maxFileSize maxBackupFiles : Int) : HandlerBody → HandlerBody
  | .file filename _ _ => .file filename maxFileSize maxBackupFiles
  | body => body

def lmkSetLogRotation (r : Registry) (handler : Option Nat) (maxFileSize maxBackupFiles : Int) :
    Registry :=
  onHandler r handler (.setBody (.setRotation maxFileSize maxBackupFiles))

/-- file 以外の handler は変えない。 -/
def HandlerBody.setFilename (filename : CStr) : HandlerBody → HandlerBody
  | .file _ maxFileSize maxBackupFiles => .file filename maxFileSize maxBackupFiles
  | body => body

/-- 検査より先に `handler->lock` を取るので、NULL を渡すと落ちる。 -/
def lmkSetLogFilename (r : Registry) (handler : Option Nat) (filename : Option CStr) :
    Option Registry :=
  handler.map fun a =>
    match filename with
    | some filename => r.setHandler a (.setBody (.setFilename filename))
    | none => r

/-- socket 以外の handler は変えない。 -/
def HandlerBody.attachListener (server : LogServer) : HandlerBody → HandlerBody
  | .socket servers psk => .socket (servers ++ [server]) psk
  | body => body

/-- 読めない host は `0.0.0.0` のまま、port は 16 bit に切り詰めて登録する。 -/
def lmkAttachLogListener (env : Env) (r : Registry) (handler : Option Nat) (host : Option CStr)
    (port : Int) : Registry :=
  match host with
  | some host =>
    if port ≤ 0 then r
    else
      let server : LogServer :=
        { sinAddr := (env.inetPton host).getD 0, sinPort := (port % 2 ^ 16).toNat }
      onHandler r handler (.setBody (.attachListener server))
  | none => r

/-- socket 以外の handler は変えない。 -/
def HandlerBody.setPsk (key : List UInt8) : HandlerBody → HandlerBody
  | .socket servers _ => .socket servers (some key)
  | body => body

def lmkSetSocketPsk (env : Env) (r : Registry) (handler : Option Nat) (psk : Option CStr) :
    Registry :=
  match psk with
  | some psk => onHandler r handler (.setBody (.setPsk (env.deriveKey psk)))
  | none => r

end Logmoko
