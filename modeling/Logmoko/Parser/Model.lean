import Logmoko.Lib.StrBuf
import Logmoko.Registry.Config

/-!
# 設定 file の解析

`logmoko_config_file.c` の `lmk_cfg_parse_file` を写す。一行ずつ buffer に読み、
buffer に NUL を書き込みながら section の見出しと `key = value` を切り出す。
pointer は buffer の添字である。

buffer には読んだ行と終端の NUL だけを置く。その後ろに残る前の行は読まれない。
-/

namespace Logmoko

open StrBuf

/-! ## 文字列 -/

/-- 添字 `p` が指す文字列。 -/
def cstrAt (buf : List UInt8) (p : Nat) : CStr := ⟨strAt buf p, zero_notMem_strAt buf p⟩

/-- `word` の長さだけを比べる `strncasecmp` が 0 を返すことにあたる。 -/
def strncasecmp (s word : List UInt8) : Bool :=
  (s.take word.length).map toLower == word.map toLower

/-- `int` への変換で下位 32 bit が残る。 -/
def atoi (s : CStr) : Int := (strtol s.bytes).bmod (2 ^ 32)

def atol (s : CStr) : Int := strtol s.bytes

/-- `end` を空白の間だけ前へ戻す。 -/
def trimEnd (buf : List UInt8) (s : Nat) : Nat → Nat
  | 0 => 0
  | e + 1 => if s < e + 1 ∧ isSpace (charAt buf (e + 1)) then trimEnd buf s e else e + 1

/-- 前の空白を飛ばし、後ろの空白の先頭に NUL を書く。 -/
def lmkCfgTrim (buf : List UInt8) (s : Nat) : List UInt8 × Nat :=
  let s := s + ((strAt buf s).takeWhile isSpace).length
  if charAt buf s = 0 then (buf, s)
  else
    let e := trimEnd buf s (s + (strAt buf s).length - 1)
    (buf.set (e + 1) 0, s)

def lmkCfgParseLevel (s : CStr) : Int :=
  if s.strcasecmp (ascii "trace") then 0
  else if s.strcasecmp (ascii "debug") then 1
  else if s.strcasecmp (ascii "info") then 2
  else if s.strcasecmp (ascii "warn") then 3
  else if s.strcasecmp (ascii "error") then 4
  else if s.strcasecmp (ascii "off") then 5
  else -1

/-! ## 設定の書き換え -/

/-- `memset` で 0 にした設定。 -/
def Cfg.initial : Cfg :=
  { logBufferSize := 0, ringBufferSize := 0, handlers := [], loggers := []
    nr_handlers_le := by decide, nr_loggers_le := by decide }

/-- handler の section を一つ足す。 -/
def Cfg.addHandler (cfg : Cfg) (ch : CfgHandler) (h : cfg.handlers.length < 32) : Cfg :=
  { cfg with
    handlers := cfg.handlers ++ [ch]
    nr_handlers_le := List.length_append.trans_le h }

/-- logger の section を一つ足す。 -/
def Cfg.addLogger (cfg : Cfg) (cl : CfgLogger) (h : cfg.loggers.length < 64) : Cfg :=
  { cfg with
    loggers := cfg.loggers ++ [cl]
    nr_loggers_le := List.length_append.trans_le h }

/-- 番号 `i` の handler の section を書き換える。 -/
def Cfg.setHandler (cfg : Cfg) (i : Nat) (ch : CfgHandler) : Cfg :=
  { cfg with
    handlers := cfg.handlers.set i ch
    nr_handlers_le := by simpa using cfg.nr_handlers_le }

theorem Cfg.setHandler_self {cfg : Cfg} {i : Nat} {ch : CfgHandler}
    (h : cfg.handlers[i]? = some ch) : cfg.setHandler i ch = cfg := by
  obtain ⟨hlt, rfl⟩ := List.getElem?_eq_some_iff.mp h
  exact Cfg.ext rfl rfl (List.set_getElem_self hlt) rfl

theorem Cfg.setHandler_setHandler (cfg : Cfg) (i : Nat) (ch ch' : CfgHandler) :
    (cfg.setHandler i ch).setHandler i ch' = cfg.setHandler i ch' :=
  Cfg.ext rfl rfl (List.set_set ..) rfl

theorem Cfg.getElem?_setHandler {cfg : Cfg} {i : Nat} {ch : CfgHandler}
    (h : cfg.handlers[i]? = some ch) (ch' : CfgHandler) :
    (cfg.setHandler i ch').handlers[i]? = some ch' :=
  List.getElem?_set_self (List.getElem?_eq_some_iff.mp h).1

/-- 番号 `i` の logger の section を書き換える。 -/
def Cfg.setLogger (cfg : Cfg) (i : Nat) (cl : CfgLogger) : Cfg :=
  { cfg with
    loggers := cfg.loggers.set i cl
    nr_loggers_le := by simpa using cfg.nr_loggers_le }

theorem Cfg.setLogger_self {cfg : Cfg} {i : Nat} {cl : CfgLogger}
    (h : cfg.loggers[i]? = some cl) : cfg.setLogger i cl = cfg := by
  obtain ⟨hlt, rfl⟩ := List.getElem?_eq_some_iff.mp h
  exact Cfg.ext rfl rfl rfl (List.set_getElem_self hlt)

theorem Cfg.setLogger_setLogger (cfg : Cfg) (i : Nat) (cl cl' : CfgLogger) :
    (cfg.setLogger i cl).setLogger i cl' = cfg.setLogger i cl' :=
  Cfg.ext rfl rfl rfl (List.set_set ..)

theorem Cfg.getElem?_setLogger {cfg : Cfg} {i : Nat} {cl : CfgLogger}
    (h : cfg.loggers[i]? = some cl) (cl' : CfgLogger) :
    (cfg.setLogger i cl').loggers[i]? = some cl' :=
  List.getElem?_set_self (List.getElem?_eq_some_iff.mp h).1

/-- listener を足す。場所が無ければ足さない。 -/
def CfgHandler.addListener (ch : CfgHandler) (l : CfgListener) : CfgHandler :=
  { ch with
    listeners := if ch.listeners.length < 16 then ch.listeners ++ [l] else ch.listeners
    nr_listeners_le := by
      split
      · next h => exact List.length_append.trans_le h
      · exact ch.nr_listeners_le }

/-- 参照する handler の名前を足す。場所が無ければ足さない。 -/
def CfgLogger.addHandlerName (cl : CfgLogger) (name : CharArray 64) : CfgLogger :=
  { cl with
    handlerNames := if cl.handlerNames.length < 16 then cl.handlerNames ++ [name]
      else cl.handlerNames
    nr_handlers_le := by
      split
      · next h => exact List.length_append.trans_le h
      · exact cl.nr_handlers_le }

/-! ## key の値 -/

def setGlobalKey (cfg : Cfg) (key val : CStr) : Cfg :=
  if key.strcasecmp (ascii "log_buffer_size") then { cfg with logBufferSize := atoi val }
  else if key.strcasecmp (ascii "ring_buffer_size") then { cfg with ringBufferSize := atoi val }
  else cfg

/-- 知らない種類は書かれなかったものとして扱う。 -/
def parseHandlerType (old : Option HandlerType) (val : CStr) : Option HandlerType :=
  if val.strcasecmp (ascii "console") then some .console
  else if val.strcasecmp (ascii "file") then some .file
  else if val.strcasecmp (ascii "socket") then some .socket
  else if val.strcasecmp (ascii "syslog") then some .syslog
  else old

/-- 最後の `:` の手前が host、後ろが port である。`:` が無ければ何も足さない。 -/
def parseListener (ch : CfgHandler) (val : CStr) : CfgHandler :=
  match strrchr val.bytes 58 with
  | none => ch
  | some colon => ch.addListener
      { host := .strncpy pos_64 (val.take colon), port := atoi (val.drop (colon + 1)) }

def setHandlerKey (ch : CfgHandler) (key val : CStr) : CfgHandler :=
  if key.strcasecmp (ascii "type") then { ch with type := parseHandlerType ch.type val }
  else if key.strcasecmp (ascii "level") then { ch with level := lmkCfgParseLevel val }
  else if key.strcasecmp (ascii "filename") then
    { ch with filename := .strncpy pos_256 val }
  else if key.strcasecmp (ascii "ident") then { ch with ident := .strncpy pos_64 val }
  else if key.strcasecmp (ascii "facility") then { ch with facility := .strncpy pos_32 val }
  else if key.strcasecmp (ascii "format") then { ch with format := .strncpy pos_32 val }
  else if key.strcasecmp (ascii "max_file_size") then { ch with maxFileSize := atol val }
  else if key.strcasecmp (ascii "max_backup_files") then { ch with maxBackupFiles := atoi val }
  else if key.strcasecmp (ascii "psk") then { ch with psk := .strncpy pos_256 val }
  else if key.strcasecmp (ascii "listener") then parseListener ch val
  else ch

/-- 一行の buffer の大きさ。 -/
def cfgLineMax : Nat := 512

/--
`strtok_r` で切り出した名前を足していく loop。空の名前は飛ばす。
一行の文字数だけの燃料があれば足りる。
-/
def addHandlerNames : Nat → List UInt8 → Option Nat → Nat → CfgLogger → Option CfgLogger
  | 0, _, _, _, _ => none
  | _ + 1, _, none, _, cl => some cl
  | fuel + 1, buf, some tok, save, cl =>
    if cl.handlerNames.length < 16 then
      let (buf, hname) := lmkCfgTrim buf tok
      let cl :=
        if charAt buf hname = 0 then cl
        else cl.addHandlerName (.strncpy pos_64 (cstrAt buf hname))
      let (buf, tok, save) := strtokR buf save 44
      addHandlerNames fuel buf tok save cl
    else some cl

def setLoggerKey (buf : List UInt8) (cl : CfgLogger) (key : CStr) (val : Nat) : Option CfgLogger :=
  if key.strcasecmp (ascii "level") then
    some { cl with level := lmkCfgParseLevel (cstrAt buf val) }
  else if key.strcasecmp (ascii "handlers") then
    let (buf, tok, save) := strtokR buf val 44
    addHandlerNames (cfgLineMax + 1) buf tok save cl
  else some cl

/-! ## 一行 -/

/-- いま読んでいる section の種類。 -/
inductive CfgSec where
  | none
  | global
  | handler
  | logger
deriving DecidableEq

/-- 解析の途中の状態。`curHandler` と `curLogger` は section の番号である。 -/
structure ParseState where
  cfg : Cfg
  sec : CfgSec
  curHandler : Option Nat
  curLogger : Option Nat

/-- handler の section を始める。名前が空か場所が無ければ、この section の値は捨てられる。 -/
def openHandler (st : ParseState) (name : CStr) : ParseState :=
  if h : name.bytes ≠ [] ∧ st.cfg.handlers.length < 32 then
    { st with
      cfg := st.cfg.addHandler (.start (.strncpy pos_64 name)) h.2
      curHandler := some st.cfg.handlers.length }
  else st

/-- logger の section を始める。 -/
def openLogger (st : ParseState) (name : CStr) : ParseState :=
  if h : name.bytes ≠ [] ∧ st.cfg.loggers.length < 64 then
    { st with
      cfg := st.cfg.addLogger (.start (.strncpy pos_64 name)) h.2
      curLogger := some st.cfg.loggers.length }
  else st

/-- 見出しの行。 -/
def openSection (buf : List UInt8) (secName : Nat) (st : ParseState) : ParseState :=
  let st := { st with curHandler := none, curLogger := none }
  if (cstrAt buf secName).strcasecmp (ascii "global") then { st with sec := .global }
  else if strncasecmp (strAt buf secName) (ascii "handler:") then
    let (buf, hname) := lmkCfgTrim buf (secName + 8)
    { openHandler st (cstrAt buf hname) with sec := .handler }
  else if strncasecmp (strAt buf secName) (ascii "logger:") then
    let (buf, lname) := lmkCfgTrim buf (secName + 7)
    { openLogger st (cstrAt buf lname) with sec := .logger }
  else { st with sec := .none }

/-- `key = value` の行。section が始まっていなければ捨てる。 -/
def setKey (buf : List UInt8) (key val : Nat) (st : ParseState) : Option ParseState :=
  match st.sec, st.curHandler, st.curLogger with
  | .global, _, _ =>
    some { st with cfg := setGlobalKey st.cfg (cstrAt buf key) (cstrAt buf val) }
  | .handler, some i, _ =>
    some { st with
      cfg := match st.cfg.handlers[i]? with
        | some ch => st.cfg.setHandler i (setHandlerKey ch (cstrAt buf key) (cstrAt buf val))
        | none => st.cfg }
  | .logger, _, some i =>
    match st.cfg.loggers[i]? with
    | some cl => (setLoggerKey buf cl (cstrAt buf key) val).map fun cl =>
        { st with cfg := st.cfg.setLogger i cl }
    | none => some st
  | _, _, _ => some st

/-- loop の本体。 -/
def parseLine (buf : List UInt8) (st : ParseState) : Option ParseState :=
  let (buf, s) := lmkCfgTrim buf 0
  let c := charAt buf s
  if c = 0 ∨ c = 35 ∨ c = 59 then some st
  else if c = 91 then
    match strchr buf s 93 with
    | none => some st
    | some e =>
      let (buf, secName) := lmkCfgTrim (buf.set e 0) (s + 1)
      some (openSection buf secName st)
  else
    match strchr buf s 61 with
    | none => some st
    | some eq =>
      let (buf, key) := lmkCfgTrim (buf.set eq 0) s
      let (buf, val) := lmkCfgTrim buf (eq + 1)
      setKey buf key val st

/-! ## file -/

/-- 一度に読む長さ。改行までか、`size - 1` byte までである。 -/
def fgetsLength (size : Nat) (input : List UInt8) : Nat :=
  min (size - 1) (match input.findIdx? (· = 10) with
    | some i => i + 1
    | none => input.length)

theorem fgetsLength_newline {size : Nat} {l : List UInt8} (hl : 10 ∉ l) (rest : List UInt8) :
    fgetsLength size (l ++ 10 :: rest) = min (size - 1) (l.length + 1) := by
  unfold fgetsLength
  rw [findIdx?_append_cons hl]

theorem fgetsLength_of_notMem {size : Nat} {l : List UInt8} (hl : 10 ∉ l) :
    fgetsLength size l = min (size - 1) l.length := by
  unfold fgetsLength
  rw [findIdx?_of_notMem hl]

/-- 読んだ行を入れた buffer と、残りの入力。終わりに達していれば `none` を返す。 -/
def fgets (size : Nat) (input : List UInt8) : Option (List UInt8 × List UInt8) :=
  if input = [] then none
  else some (input.take (fgetsLength size input) ++ [0], input.drop (fgetsLength size input))

theorem fgets_rest_lt {size : Nat} {input buf rest : List UInt8} (hsize : 2 ≤ size)
    (h : fgets size input = some (buf, rest)) : rest.length < input.length := by
  unfold fgets at h
  split at h
  · exact absurd h (by simp)
  · next hne =>
    obtain ⟨-, rfl⟩ := Prod.mk.inj (Option.some.inj h)
    have hpos := List.length_pos_iff.mpr hne
    have hlen : 1 ≤ fgetsLength size input := by
      unfold fgetsLength
      split <;> omega
    rw [List.length_drop]
    omega

/-- 行を読み終わるまでの loop。 -/
def parseLines (input : List UInt8) (st : ParseState) : Option ParseState :=
  match _h : fgets cfgLineMax input with
  | none => some st
  | some (buf, rest) => (parseLine buf st).bind fun st => parseLines rest st
termination_by input.length
decreasing_by exact fgets_rest_lt (by decide) _h

/-- `file` は file の中身で、開けなければ `none` である。 -/
def lmkCfgParseFile (file : Option (List UInt8)) (cfg : Cfg) : Option (Int × Cfg) :=
  match file with
  | none => some (lmkENg, cfg)
  | some input =>
    (parseLines input { cfg, sec := .none, curHandler := none, curLogger := none }).map fun st =>
      (lmkEOk, st.cfg)

end Logmoko
