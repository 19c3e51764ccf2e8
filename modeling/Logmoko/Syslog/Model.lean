import Logmoko.Lib.Run
import Logmoko.Format.Model

/-!
# syslog の handler と session

`logmoko_syslog_log_handler.c` と `lmk_get_syslog_log_handler`、`lmk_destroy_log_handler` を写す。

syslog の session は process に一つしか無い。`openlog` はその ident と facility を差し替え、
`syslog` はその時点の値で送り、`closelog` は ident を既定に戻す（facility は残る）。
handler は自分の ident と facility を持つが、それを使うのは作るときの `openlog` だけである。

公開関数は一度に一つずつ呼ばれるが、作る途中や壊す途中にも consumer の thread は動く。
そこで、作る関数は `openlog` までとその後に、壊す関数は `running` を下ろすまでと
`closelog` に分ける。途中の呼び出しは `call` に残る。
-/

namespace Logmoko

/-! ## session -/

/-- process に一つの session。ident の `none` は program の名前を使うことにあたる。 -/
structure SyslogSession where
  ident : Option CStr
  facility : Int
deriving DecidableEq

/-- 一度も `openlog` を呼んでいない session。facility は `LOG_USER` である。 -/
def SyslogSession.initial : SyslogSession := { ident := none, facility := 8 }

def SyslogSession.openlog (ident : Option CStr) (facility : Int) (_ : SyslogSession) :
    SyslogSession := { ident, facility }

def SyslogSession.closelog (s : SyslogSession) : SyslogSession := { s with ident := none }

/-! ## handler -/

/-- 配列 `ident` に入る文字列。渡されなければ空である。 -/
def syslogIdent : Option CStr → CharArray 64
  | some ident => .strncpy pos_64 ident
  | none => .zero pos_64

/--
構造体 `lmk_syslog_log_handler`。`given` は作るときに渡された ident の控えで、
program の変数ではない。`ring` は書き込まれてまだ送られていない record の列である。
-/
structure SyslogHandler where
  addr : Nat
  name : CStr
  ident : CharArray 64
  facility : Int
  nrLoggerRef : Nat
  running : Bool
  ring : List LogRequest
  given : Option CStr
  ident_eq : ident = syslogIdent given

/-- 確保したばかりの handler。 -/
def SyslogHandler.create (addr : Nat) (name : CStr) (ident : Option CStr) (facility : Int) :
    SyslogHandler :=
  { addr, name, ident := syslogIdent ident, facility, nrLoggerRef := 0, running := true, ring := []
    given := ident, ident_eq := rfl }

/-- handler が作るときに開く session。 -/
def SyslogHandler.session (h : SyslogHandler) : SyslogSession :=
  { ident := h.ident.orNull, facility := h.facility }

def lmkToSyslogPriority (level : Int) : Int :=
  if level = 0 ∨ level = 1 then 7
  else if level = 2 then 6
  else if level = 3 then 4
  else if level = 4 then 3
  else 6

/-- 書式 `"[%s] (%s:%d) %s"` の展開。 -/
def syslogText (req : LogRequest) : List UInt8 :=
  ascii "[" ++ (lmkGetLogLevelStr req.logLevel).bytes ++ ascii "] (" ++ req.fileName.bytes ++
    ascii ":" ++ decimal req.lineNo ++ ascii ") " ++ req.message.bytes

/-- `syslog` が送った message と、それを送らせた handler。 -/
structure SyslogMessage where
  handler : SyslogHandler
  priority : Int
  text : List UInt8
  session : SyslogSession

/-! ## 系 -/

/-- 途中の呼び出し。 -/
inductive SyslogCall where
  | creating (handler : SyslogHandler)
  | destroying (addr : Nat)

/-- 系の状態。`otherNames` は syslog 以外の handler の名前、`sent` は送った message の列である。 -/
structure SyslogState where
  handlers : List SyslogHandler
  otherNames : List CStr
  call : Option SyslogCall
  session : SyslogSession
  sent : List SyslogMessage

def SyslogState.initial : SyslogState :=
  { handlers := [], otherNames := [], call := none, session := .initial, sent := [] }

def SyslogState.freshAddr (s : SyslogState) : Nat :=
  maxAddr (s.handlers.map SyslogHandler.addr) + 1

def SyslogState.setHandler (s : SyslogState) (addr : Nat) (f : SyslogHandler → SyslogHandler) :
    SyslogState :=
  { s with handlers := Keyed.modify SyslogHandler.addr addr f s.handlers }

def SyslogState.handler? (s : SyslogState) (addr : Nat) : Option SyslogHandler :=
  s.handlers.find? fun h => h.addr = addr

/--
動作。`allocated` は handler の確保が、`started` は ring の確保と thread の生成がともに
成功したことを、`hasRoom` は ring に空きがあったことを表す。
-/
inductive SyslogAction where
  | getSyslogLogHandler (name ident : Option CStr) (facility : Int) (allocated : Bool)
  | finishInit (started : Bool)
  | createOther (name : CStr)
  | destroyOther (name : CStr)
  | attach (addr : Nat)
  | detach (addr : Nat)
  | destroyLogHandler (addr : Nat)
  | finishDestroy
  | logImpl (addr : Nat) (req : LogRequest) (hasRoom : Bool)
  | emit (addr : Nat)

/-- 名前がどの handler のものでもない。 -/
def SyslogState.NameFree (s : SyslogState) (name : CStr) : Prop :=
  name ∉ s.handlers.map SyslogHandler.name ∧ name ∉ s.otherNames

instance (s : SyslogState) (name : CStr) : Decidable (s.NameFree name) :=
  inferInstanceAs (Decidable (_ ∧ _))

/-- `lmk_get_syslog_log_handler` のうち、`lmk_syslog_log_handler_init` の `openlog` まで。 -/
def SyslogState.getHandler (s : SyslogState) (name ident : Option CStr) (facility : Int)
    (allocated : Bool) : Option SyslogState :=
  match name with
  | none => some s
  | some name =>
    if s.NameFree name ∧ allocated then
      (copyName name).map fun name' =>
        let h := SyslogHandler.create s.freshAddr name' ident facility
        { s with call := some (.creating h), session := s.session.openlog h.ident.orNull facility }
    else some s

/-- `lmk_syslog_log_handler_init` の残り。失敗すれば session を閉じ、handler を捨てる。 -/
def SyslogState.finishInit (s : SyslogState) (started : Bool) : Option SyslogState :=
  match s.call with
  | some (.creating h) =>
    if started then some { s with call := none, handlers := s.handlers ++ [h] }
    else some { s with call := none, session := s.session.closelog }
  | _ => none

/-- `pthread_join` まで。参照されている handler は壊さない。 -/
def SyslogState.destroyHandler (s : SyslogState) (addr : Nat) : Option SyslogState :=
  (s.handler? addr).map fun h =>
    if h.nrLoggerRef > 0 then s
    else
      { s.setHandler addr fun h => { h with running := false } with call := some (.destroying addr) }

/-- consumer は ring を空にしてから終わるので、`closelog` はその後になる。 -/
def SyslogState.finishDestroy (s : SyslogState) : Option SyslogState :=
  match s.call with
  | some (.destroying addr) =>
    if ∀ h ∈ s.handlers, h.addr = addr → h.ring = [] then
      some { s with
        call := none, session := s.session.closelog
        handlers := s.handlers.filter fun h => h.addr ≠ addr }
    else none
  | _ => none

/-- `lmk_syslog_log_handler_log_impl`。止めた handler と一杯の ring には書かない。 -/
def SyslogState.logImpl (s : SyslogState) (addr : Nat) (req : LogRequest) (hasRoom : Bool) :
    SyslogState :=
  s.setHandler addr fun h =>
    if h.running ∧ hasRoom then { h with ring := h.ring ++ [req] } else h

/-- consumer が ring の先頭を送って取り除く。 -/
def SyslogState.emit (s : SyslogState) (addr : Nat) : Option SyslogState :=
  (s.handler? addr).bind fun h =>
    match h.ring with
    | [] => none
    | req :: rest =>
      let message : SyslogMessage :=
        { handler := h, priority := lmkToSyslogPriority req.logLevel, text := syslogText req
          session := s.session }
      some { s.setHandler addr fun h => { h with ring := rest } with sent := s.sent ++ [message] }

/-- 呼び出しの途中では、続きの動作と `log_impl` と consumer だけが動く。 -/
def syslogStep (s : SyslogState) : SyslogAction → Option SyslogState
  | .finishInit started => s.finishInit started
  | .finishDestroy => s.finishDestroy
  | .logImpl addr req hasRoom => some (s.logImpl addr req hasRoom)
  | .emit addr => s.emit addr
  | .getSyslogLogHandler name ident facility allocated =>
    if s.call.isNone then s.getHandler name ident facility allocated else none
  | .destroyLogHandler addr => if s.call.isNone then s.destroyHandler addr else none
  | .createOther name =>
    if s.call.isNone ∧ s.NameFree name then
      some { s with otherNames := s.otherNames ++ [name] }
    else none
  | .destroyOther name =>
    if s.call.isNone then some { s with otherNames := s.otherNames.erase name } else none
  | .attach addr =>
    if s.call.isNone then
      some (s.setHandler addr fun h => { h with nrLoggerRef := (h.nrLoggerRef + 1) % 2 ^ 32 })
    else none
  | .detach addr =>
    if s.call.isNone then
      some (s.setHandler addr fun h =>
        { h with nrLoggerRef := if h.nrLoggerRef = 0 then 2 ^ 32 - 1 else h.nrLoggerRef - 1 })
    else none

end Logmoko
