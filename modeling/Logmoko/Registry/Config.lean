import Logmoko.Registry.Model

/-!
# 設定の適用

解析済みの設定 `lmk_cfg` と、それを registry に反映する `lmk_cfg_apply` を写す。
handler の section を順に、続いて logger の section を順に処理する。

`char` の配列は、大きさに収まる文字列 `CharArray n` で表す。
section の中の値が空文字列や負の値であることが「未設定」にあたる。
-/

namespace Logmoko

/-- 大きさ `n` の `char` の配列に入った文字列。終端の NUL の分だけ短い。 -/
structure CharArray (n : Nat) where
  str : CStr
  fits : str.length < n

theorem pos_32 : 0 < 32 := by decide

theorem pos_64 : 0 < 64 := by decide

theorem pos_256 : 0 < 256 := by decide

/-- 空文字列を NULL に読み替える。`s[0] ? s : NULL` にあたる。 -/
def CharArray.orNull {n : Nat} (a : CharArray n) : Option CStr :=
  if a.str.bytes = [] then none else some a.str

/-- `memset` で 0 にした配列。 -/
def CharArray.zero {n : Nat} (h : 0 < n) : CharArray n := ⟨.empty, h⟩

/-- 0 で埋めた配列への `strncpy`。終端の NUL を残すために `n - 1` byte までを写す。 -/
def CharArray.strncpy {n : Nat} (h : 0 < n) (s : CStr) : CharArray n where
  str := s.take (n - 1)
  fits := by
    have := List.length_take_le (n - 1) s.bytes
    simp only [CStr.length, CStr.take]
    omega

/-- 構造体 `lmk_cfg_listener`。 -/
structure CfgListener where
  host : CharArray 64
  port : Int

/-- 構造体 `lmk_cfg_handler`。種類の `none` と level の `-1` は未設定である。 -/
@[ext]
structure CfgHandler where
  name : CharArray 64
  type : Option HandlerType
  level : Int
  filename : CharArray 256
  listeners : List CfgListener
  maxFileSize : Int
  maxBackupFiles : Int
  format : CharArray 32
  ident : CharArray 64
  facility : CharArray 32
  psk : CharArray 256
  nr_listeners_le : listeners.length ≤ 16

/-- section の見出しを読んだ直後の値。 -/
def CfgHandler.start (name : CharArray 64) : CfgHandler :=
  { name, type := none, level := -1, filename := .zero (by decide), listeners := []
    maxFileSize := 0, maxBackupFiles := 0, format := .zero (by decide), ident := .zero (by decide)
    facility := .zero (by decide), psk := .zero (by decide), nr_listeners_le := by decide }

/-- 構造体 `lmk_cfg_logger`。 -/
@[ext]
structure CfgLogger where
  name : CharArray 64
  level : Int
  handlerNames : List (CharArray 64)
  nr_handlers_le : handlerNames.length ≤ 16

/-- section の見出しを読んだ直後の値。 -/
def CfgLogger.start (name : CharArray 64) : CfgLogger :=
  { name, level := -1, handlerNames := [], nr_handlers_le := by decide }

/-- 構造体 `lmk_cfg`。 -/
@[ext]
structure Cfg where
  logBufferSize : Int
  ringBufferSize : Int
  handlers : List CfgHandler
  loggers : List CfgLogger
  nr_handlers_le : handlers.length ≤ 32
  nr_loggers_le : loggers.length ≤ 64

def cfgDefaultRingBufferSize : Nat := 1024
def cfgDefaultLogBufferSize : Nat := 2048

/-! ## 名前から値へ -/

/-- ASCII の文字列を byte 列にする。 -/
def ascii (s : String) : List UInt8 := s.toList.map fun c => c.toNat.toUInt8

/-- 知らない名前は既定の書式になる。 -/
def lmkGetFormatFn : Option CStr → Option FormatFn
  | none => none
  | some name =>
    if name.strcasecmp (ascii "default") then none
    else if name.strcasecmp (ascii "simple") then some .simple
    else if name.strcasecmp (ascii "json") then some .json
    else none

/-- 知らない名前は `LOG_USER` になる。facility の番号は 3 bit 左にずれている。 -/
def lmkParseSyslogFacility : Option CStr → Int
  | none => 1 * 8
  | some s =>
    if s.strcasecmp (ascii "user") then 1 * 8
    else if s.strcasecmp (ascii "daemon") then 3 * 8
    else if s.strcasecmp (ascii "local0") then 16 * 8
    else if s.strcasecmp (ascii "local1") then 17 * 8
    else if s.strcasecmp (ascii "local2") then 18 * 8
    else if s.strcasecmp (ascii "local3") then 19 * 8
    else if s.strcasecmp (ascii "local4") then 20 * 8
    else if s.strcasecmp (ascii "local5") then 21 * 8
    else if s.strcasecmp (ascii "local6") then 22 * 8
    else if s.strcasecmp (ascii "local7") then 23 * 8
    else 1 * 8

/-! ## section の適用 -/

/-- file の handler の回転の設定。大きさと個数がともに未設定なら触らない。 -/
def applyRotation (r : Registry) (ch : CfgHandler) (handler : Option Nat) : Registry :=
  if ch.maxFileSize > 0 ∨ ch.maxBackupFiles > 0 then
    lmkSetLogRotation r handler
      (if ch.maxFileSize > 0 then ch.maxFileSize else defaultMaxFileSize)
      (if ch.maxBackupFiles > 0 then ch.maxBackupFiles else defaultMaxBackupFiles)
  else r

/-- socket の handler の鍵を設定し、listener を書かれた順に足していく。 -/
def applySocket (env : Env) (r : Registry) (ch : CfgHandler) (handler : Option Nat) : Registry :=
  ch.listeners.foldl
    (fun r l => lmkAttachLogListener env r handler (some l.host.str) l.port)
    (if ch.psk.str.bytes = [] then r else lmkSetSocketPsk env r handler (some ch.psk.str))

/-- section の種類に応じて handler を取り出し、種類ごとの設定をする。 -/
def applyHandlerType (env : Env) (r : Registry) (ch : CfgHandler) :
    HandlerType → Option (Registry × Option Nat)
  | .console => lmkGetConsoleLogHandler r
  | .file =>
    (lmkGetFileLogHandler r (some ch.name.str) ch.filename.orNull).map fun p =>
      (applyRotation p.1 ch p.2, p.2)
  | .syslog =>
    lmkGetSyslogLogHandler r (some ch.name.str) ch.ident.orNull
      (lmkParseSyslogFacility ch.facility.orNull)
  | .socket =>
    (lmkGetSocketLogHandler r (some ch.name.str)).map fun p =>
      (applySocket env p.1 ch p.2, p.2)

/-- 種類によらない level の設定。 -/
def applyLevel (r : Registry) (ch : CfgHandler) (handler : Option Nat) : Registry :=
  if ch.level ≠ -1 then lmkSetHandlerLogLevel r handler ch.level else r

def applyFormat (r : Registry) (ch : CfgHandler) (handler : Option Nat) : Registry :=
  if ch.format.str.bytes = [] then r
  else lmkSetLogFormat r handler (lmkGetFormatFn (some ch.format.str))

/-- handler の section 一つ。 -/
def applyCfgHandler (env : Env) (r : Registry) (ch : CfgHandler) : Option Registry :=
  match ch.type with
  | none => some r
  | some type =>
    (applyHandlerType env r ch type).map fun p => applyFormat (applyLevel p.1 ch p.2) ch p.2

/-- logger の section に書かれた名前の handler を探して付ける。無い名前は飛ばす。 -/
def attachByName (logger : Option Nat) (r : Registry) (name : CharArray 64) : Registry :=
  match lmkSearchLogHandlerByName r name.str with
  | some handler => (lmkAttachLogHandler r logger (some handler.addr)).1
  | none => r

def applyLoggerLevel (r : Registry) (cl : CfgLogger) (logger : Option Nat) : Registry :=
  if cl.level ≠ -1 then lmkSetLogLevel r logger cl.level else r

/-- logger の section 一つ。 -/
def applyCfgLogger (r : Registry) (cl : CfgLogger) : Option Registry :=
  (lmkGetLogger r (some cl.name.str)).map fun p =>
    cl.handlerNames.foldl (attachByName p.2) (applyLoggerLevel p.1 cl p.2)

/-- 正の値だけを採り、それ以外は既定値にする。 -/
def sizeOrDefault (size : Int) (default : Nat) : Nat := if size > 0 then size.toNat else default

/-- 設定が定める `lmk_config`。 -/
def Cfg.config (cfg : Cfg) : Config :=
  { logBufferSize := sizeOrDefault cfg.logBufferSize cfgDefaultLogBufferSize
    ringBufferSize := sizeOrDefault cfg.ringBufferSize cfgDefaultRingBufferSize }

/-- registry が初期化されていなければ `g_lmk_config` は NULL で、書き込めずに落ちる。 -/
def lmkCfgApply (env : Env) (r : Registry) (cfg : Cfg) : Option Registry :=
  r.config.bind fun _ =>
    (cfg.handlers.foldlM (applyCfgHandler env) { r with config := some cfg.config }).bind fun r =>
      cfg.loggers.foldlM applyCfgLogger r

end Logmoko
