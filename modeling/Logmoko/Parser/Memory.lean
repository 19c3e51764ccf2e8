import Logmoko.Lib.Cells
import Logmoko.Lib.Traced
import Logmoko.Parser.Model

/-!
# memory の上の解析

`lmk_cfg_parse_file` を、512 byte の行の buffer と構造体 `lmk_cfg` からなる memory の上の計算として写す。
`Parser/Model` が列として扱ったものは、ここでは大きさの決まった配列である。

* 添字は使うたびに検査され、配列の外に出れば計算は失敗する
* 標準関数に渡す `char *` は、buffer の中で終わる文字列を指していなければならない
* 書き込みは一つずつ記録される。buffer には前の行の残りがあり、構造体には `memset` と
  前の key の値が残る
-/

namespace Logmoko.Raw

open StrBuf Cells Traced

/-! ## 構造体 -/

/-- 構造体 `lmk_cfg_listener`。 -/
structure CfgListener where
  host : Vector UInt8 64
  port : Int

/-- 構造体 `lmk_cfg_handler`。 -/
structure CfgHandler where
  name : Vector UInt8 64
  type : Int
  level : Int
  filename : Vector UInt8 256
  listeners : Vector CfgListener 16
  nrListeners : Nat
  maxFileSize : Int
  maxBackupFiles : Int
  format : Vector UInt8 32
  ident : Vector UInt8 64
  facility : Vector UInt8 32
  psk : Vector UInt8 256

/-- 構造体 `lmk_cfg_logger`。 -/
structure CfgLogger where
  name : Vector UInt8 64
  level : Int
  handlerNames : Vector (Vector UInt8 64) 16
  nrHandlers : Nat

/-- 構造体 `lmk_cfg`。 -/
structure Cfg where
  logBufferSize : Int
  ringBufferSize : Int
  handlers : Vector CfgHandler 32
  nrHandlers : Nat
  loggers : Vector CfgLogger 64
  nrLoggers : Nat

/-! `memset` で 0 にした値。 -/

def CfgListener.zero : CfgListener := { host := .replicate 64 0, port := 0 }

def CfgHandler.zero : CfgHandler :=
  { name := .replicate 64 0, type := 0, level := 0, filename := .replicate 256 0
    listeners := .replicate 16 .zero, nrListeners := 0, maxFileSize := 0, maxBackupFiles := 0
    format := .replicate 32 0, ident := .replicate 64 0, facility := .replicate 32 0
    psk := .replicate 256 0 }

def CfgLogger.zero : CfgLogger :=
  { name := .replicate 64 0, level := 0, handlerNames := .replicate 16 (.replicate 64 0)
    nrHandlers := 0 }

def Cfg.zero : Cfg :=
  { logBufferSize := 0, ringBufferSize := 0, handlers := .replicate 32 .zero, nrHandlers := 0
    loggers := .replicate 64 .zero, nrLoggers := 0 }

/-- 解析が読み書きする memory。 -/
structure Mem where
  line : Vector UInt8 cfgLineMax
  cfg : Cfg

/-- section の種類と、読んでいる section の添字。`lmk_cfg_parse_file` の局所変数である。 -/
structure Cursor where
  sec : CfgSec
  curHandler : Option Nat
  curLogger : Option Nat

def Cursor.start : Cursor := { sec := .none, curHandler := none, curLogger := none }

/-! ## 読み書き -/

def loadLine (p : Nat) : Exec Mem UInt8 := read fun m => m.line[p]?

def storeLine (p : Nat) (b : UInt8) : Exec Mem Unit :=
  write fun m => (store m.line p b).map fun line => { m with line }

/-- 標準関数に渡す文字列。 -/
def lineStr (p : Nat) : Exec Mem CStr :=
  read fun m => (readStr m.line p).map fun _ => cstrAt m.line.toList p

def readCfg {α : Type} (f : Cfg → Option α) : Exec Mem α := read fun m => f m.cfg

def writeCfg (f : Cfg → Option Cfg) : Exec Mem Unit :=
  write fun m => (f m.cfg).map fun cfg => { m with cfg }

/-- `handlers[i]` の書き換え。 -/
def writeHandler (i : Nat) (f : CfgHandler → Option CfgHandler) : Exec Mem Unit :=
  writeCfg fun c => (modifyAt c.handlers i f).map fun handlers => { c with handlers }

/-- `loggers[i]` の書き換え。 -/
def writeLogger (i : Nat) (f : CfgLogger → Option CfgLogger) : Exec Mem Unit :=
  writeCfg fun c => (modifyAt c.loggers i f).map fun loggers => { c with loggers }

/-- `handlers[i].listeners[j]` の書き換え。 -/
def writeListener (i j : Nat) (f : CfgListener → Option CfgListener) : Exec Mem Unit :=
  writeHandler i fun h => (modifyAt h.listeners j f).map fun listeners => { h with listeners }

/-! ## 文字列 -/

/-- 空白の間だけ進む。 -/
def skipSpace {n : Nat} (buf : Vector UInt8 n) (s : Nat) : Option Nat :=
  if h : s < n then
    if isSpace buf[s] then skipSpace buf (s + 1) else some s
  else none
termination_by n - s

/-- `end` を空白の間だけ前へ戻す。 -/
def trimEnd {n : Nat} (buf : Vector UInt8 n) (s : Nat) : Nat → Option Nat
  | 0 => some 0
  | e + 1 =>
    if s < e + 1 then
      buf[e + 1]?.bind fun b => if isSpace b then trimEnd buf s e else some (e + 1)
    else some (e + 1)

def lmkCfgTrim (s : Nat) : Exec Mem Nat := do
  let s ← read fun m => skipSpace m.line s
  let c ← loadLine s
  if c = 0 then pure s
  else do
    let str ← lineStr s
    let e ← read fun m => trimEnd m.line s (s + str.length - 1)
    storeLine (e + 1) 0
    pure s

def strchr (s : Nat) (c : UInt8) : Exec Mem (Option Nat) := do
  let str ← lineStr s
  pure ((str.bytes.findIdx? (· = c)).map (s + ·))

/-- 返すのは、見つかった部分文字列と、次に始める添字である。 -/
def strtokR (s : Nat) (c : UInt8) : Exec Mem (Option Nat × Nat) := do
  let str ← lineStr s
  let tok := s + (str.bytes.takeWhile (· = c)).length
  let b ← loadLine tok
  if b = 0 then pure (none, tok)
  else do
    let e ← strchr tok c
    match e with
    | some e => do
      storeLine e 0
      pure (some tok, e + 1)
    | none => do
      let rest ← lineStr tok
      pure (some tok, tok + rest.length)

/-! ## 見出し -/

/-- handler の section を始める。返すのは `cur_handler` である。 -/
def openHandler (hname : Nat) : Exec Mem (Option Nat) := do
  let c ← loadLine hname
  let nr ← readCfg fun cfg => some cfg.nrHandlers
  if c ≠ 0 ∧ nr < 32 then do
    writeCfg fun cfg => some { cfg with nrHandlers := nr + 1 }
    writeHandler nr fun _ => some .zero
    let name ← lineStr hname
    writeHandler nr fun h => (strncpy h.name name.bytes 63).map fun name => { h with name }
    writeHandler nr fun h => some { h with level := -1 }
    writeHandler nr fun h => some { h with type := -1 }
    pure (some nr)
  else pure none

def openLogger (lname : Nat) : Exec Mem (Option Nat) := do
  let c ← loadLine lname
  let nr ← readCfg fun cfg => some cfg.nrLoggers
  if c ≠ 0 ∧ nr < 64 then do
    writeCfg fun cfg => some { cfg with nrLoggers := nr + 1 }
    writeLogger nr fun _ => some .zero
    let name ← lineStr lname
    writeLogger nr fun l => (strncpy l.name name.bytes 63).map fun name => { l with name }
    writeLogger nr fun l => some { l with level := -1 }
    pure (some nr)
  else pure none

def openSection (secName : Nat) : Exec Mem Cursor := do
  let name ← lineStr secName
  if name.strcasecmp (ascii "global") then pure ⟨.global, none, none⟩
  else if strncasecmp name.bytes (ascii "handler:") then do
    let hname ← lmkCfgTrim (secName + 8)
    let cur ← openHandler hname
    pure ⟨.handler, cur, none⟩
  else if strncasecmp name.bytes (ascii "logger:") then do
    let lname ← lmkCfgTrim (secName + 7)
    let cur ← openLogger lname
    pure ⟨.logger, none, cur⟩
  else pure ⟨.none, none, none⟩

/-! ## key の値 -/

def setGlobalKey (key val : CStr) : Exec Mem Unit :=
  if key.strcasecmp (ascii "log_buffer_size") then
    writeCfg fun cfg => some { cfg with logBufferSize := atoi val }
  else if key.strcasecmp (ascii "ring_buffer_size") then
    writeCfg fun cfg => some { cfg with ringBufferSize := atoi val }
  else pure ()

/-- 列挙 `LMK_LOG_HANDLER_TYPE_*` の値。 -/
def typeCode : HandlerType → Int
  | .console => 0
  | .file => 1
  | .socket => 2
  | .syslog => 3

def setHandlerType (i : Nat) (val : CStr) : Exec Mem Unit :=
  if val.strcasecmp (ascii "console") then
    writeHandler i fun h => some { h with type := typeCode .console }
  else if val.strcasecmp (ascii "file") then
    writeHandler i fun h => some { h with type := typeCode .file }
  else if val.strcasecmp (ascii "socket") then
    writeHandler i fun h => some { h with type := typeCode .socket }
  else if val.strcasecmp (ascii "syslog") then
    writeHandler i fun h => some { h with type := typeCode .syslog }
  else pure ()

/-- `val` は値の文字列 `str` の添字である。 -/
def addListener (i val : Nat) (str : CStr) : Exec Mem Unit := do
  let nr ← readCfg fun cfg => cfg.handlers[i]?.map CfgHandler.nrListeners
  if nr < 16 then
    match strrchr str.bytes 58 with
    | none => pure ()
    | some colon => do
      writeHandler i fun h => some { h with nrListeners := nr + 1 }
      let hostLen := if 64 ≤ colon then 63 else colon
      writeListener i nr fun l => (strncpy l.host str.bytes hostLen).map fun host => { l with host }
      writeListener i nr fun l => (store l.host hostLen 0).map fun host => { l with host }
      let port ← lineStr (val + colon + 1)
      writeListener i nr fun l => some { l with port := atoi port }
  else pure ()

def setHandlerKey (i : Nat) (key : CStr) (val : Nat) : Exec Mem Unit := do
  let str ← lineStr val
  if key.strcasecmp (ascii "type") then setHandlerType i str
  else if key.strcasecmp (ascii "level") then
    writeHandler i fun h => some { h with level := lmkCfgParseLevel str }
  else if key.strcasecmp (ascii "filename") then
    writeHandler i fun h =>
      (strncpy h.filename str.bytes 255).map fun filename => { h with filename }
  else if key.strcasecmp (ascii "ident") then
    writeHandler i fun h => (strncpy h.ident str.bytes 63).map fun ident => { h with ident }
  else if key.strcasecmp (ascii "facility") then
    writeHandler i fun h =>
      (strncpy h.facility str.bytes 31).map fun facility => { h with facility }
  else if key.strcasecmp (ascii "format") then
    writeHandler i fun h => (strncpy h.format str.bytes 31).map fun format => { h with format }
  else if key.strcasecmp (ascii "max_file_size") then
    writeHandler i fun h => some { h with maxFileSize := atol str }
  else if key.strcasecmp (ascii "max_backup_files") then
    writeHandler i fun h => some { h with maxBackupFiles := atoi str }
  else if key.strcasecmp (ascii "psk") then
    writeHandler i fun h => (strncpy h.psk str.bytes 255).map fun psk => { h with psk }
  else if key.strcasecmp (ascii "listener") then addListener i val str
  else pure ()

/-- 空でない名前を `handler_names` に足す。 -/
def addHandlerName (i nr hname : Nat) : Exec Mem Unit := do
  let c ← loadLine hname
  if c = 0 then pure ()
  else do
    writeLogger i fun l => some { l with nrHandlers := nr + 1 }
    let name ← lineStr hname
    writeLogger i fun l =>
      (modifyAt l.handlerNames nr fun a => strncpy a name.bytes 63).map fun handlerNames =>
        { l with handlerNames }

/-- `strtok_r` の loop。一行の文字数だけの燃料があれば足りる。 -/
def addHandlerNames (i : Nat) : Nat → Option Nat → Nat → Exec Mem Unit
  | 0, _, _ => read fun _ => none
  | _ + 1, none, _ => pure ()
  | fuel + 1, some tok, save => do
    let nr ← readCfg fun cfg => cfg.loggers[i]?.map CfgLogger.nrHandlers
    if nr < 16 then do
      let hname ← lmkCfgTrim tok
      addHandlerName i nr hname
      let next ← strtokR save 44
      addHandlerNames i fuel next.1 next.2
    else pure ()

def setLoggerKey (i : Nat) (key : CStr) (val : Nat) : Exec Mem Unit :=
  if key.strcasecmp (ascii "level") then do
    let str ← lineStr val
    writeLogger i fun l => some { l with level := lmkCfgParseLevel str }
  else if key.strcasecmp (ascii "handlers") then do
    let first ← strtokR val 44
    addHandlerNames i (cfgLineMax + 1) first.1 first.2
  else pure ()

def setKey (cur : Cursor) (key val : Nat) : Exec Mem Unit := do
  let str ← lineStr key
  match cur.sec, cur.curHandler, cur.curLogger with
  | .global, _, _ => do
    let v ← lineStr val
    setGlobalKey str v
  | .handler, some i, _ => setHandlerKey i str val
  | .logger, _, some i => setLoggerKey i str val
  | _, _, _ => pure ()

/-! ## 行と file -/

/-- loop の本体。 -/
def parseLine (cur : Cursor) : Exec Mem Cursor := do
  let s ← lmkCfgTrim 0
  let c ← loadLine s
  if c = 0 ∨ c = 35 ∨ c = 59 then pure cur
  else if c = 91 then do
    let e ← strchr s 93
    match e with
    | none => pure cur
    | some e => do
      storeLine e 0
      let secName ← lmkCfgTrim (s + 1)
      openSection secName
  else do
    let eq ← strchr s 61
    match eq with
    | none => pure cur
    | some eq => do
      storeLine eq 0
      let key ← lmkCfgTrim s
      let val ← lmkCfgTrim (eq + 1)
      setKey cur key val
      pure cur

/-- 読んだ byte 列と終端の NUL を buffer の先頭に書く。 -/
def fgets (chunk : List UInt8) : Exec Mem Unit :=
  write fun m => (writeFront m.line (chunk ++ [0])).map fun line => { m with line }

/-- 行を読み終わるまでの loop。 -/
def parseLines (input : List UInt8) (cur : Cursor) : Exec Mem Unit :=
  if _h : input = [] then pure ()
  else do
    fgets (input.take (fgetsLength cfgLineMax input))
    let cur ← parseLine cur
    parseLines (input.drop (fgetsLength cfgLineMax input)) cur
termination_by input.length
decreasing_by exact fgets_rest_lt (by decide) (if_neg _h)

/-- `file` は file の中身で、開けなければ `none` である。 -/
def lmkCfgParseFile (file : Option (List UInt8)) : Exec Mem Int :=
  match file with
  | none => pure lmkENg
  | some input => do
    parseLines input .start
    pure lmkEOk

end Logmoko.Raw
