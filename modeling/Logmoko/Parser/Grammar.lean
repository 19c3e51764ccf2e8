import Logmoko.Parser.Model

/-!
# 設定 file の書き方

設定 file に書ける項目と、その書き方を、解析とは別に定める。

* `CfgItem` — 一行に書かれる項目。見出しか、section の中の `key = value` である
* `ItemLine` / `SkipLine` — 項目の行と、読み飛ばされる行の書き方
* `CfgText` — 行を改行でつないだもの。最後の改行は無くてもよい
* `Describes` — section の並びが一つの設定を表すこと。section の中の順序は問わない
* `Writes` — 設定を file に書いたもの

名前と値は、行の前後と `=`、括弧、コンマの周りの空白と紛れないように、前後に空白を持たない。
-/

namespace Logmoko

open StrBuf

/-! ## 綴り -/

/-- 行の中の空白。 -/
def Spaces (l : List UInt8) : Prop := ∀ b ∈ l, isSpace b = true ∧ b ≠ 10

/-- 大文字と小文字を問わない `word` の綴り。 -/
def Spells (word l : List UInt8) : Prop := l.map toLower = word

/-- 値として書ける文字列。 -/
structure Writable (s : CStr) : Prop where
  stripped : Stripped s.bytes
  noNewline : 10 ∉ s.bytes

/-- 見出しに書ける名前。 -/
structure SectionName (name : CharArray 64) : Prop where
  writable : Writable name.str
  nonempty : name.str.bytes ≠ []
  noBracket : 93 ∉ name.str.bytes

/-- `handlers` に並べられる名前。 -/
structure ListedName (name : CharArray 64) : Prop where
  writable : Writable name.str
  nonempty : name.str.bytes ≠ []
  noComma : 44 ∉ name.str.bytes

/-- 十進の整数。符号と先頭の 0 は任意である。 -/
inductive WritesInt : Int → List UInt8 → Prop
  | unsigned {ds} (hne : ds ≠ []) (hds : ∀ d ∈ ds, isDigit d = true) :
    WritesInt (decimalValue ds) ds
  | plus {ds} (hne : ds ≠ []) (hds : ∀ d ∈ ds, isDigit d = true) :
    WritesInt (decimalValue ds) (43 :: ds)
  | minus {ds} (hne : ds ≠ []) (hds : ∀ d ∈ ds, isDigit d = true) :
    WritesInt (-(decimalValue ds : Int)) (45 :: ds)

/-- `int` の範囲。 -/
def FitsInt (n : Int) : Prop := -2 ^ 31 ≤ n ∧ n < 2 ^ 31

/-- `long` の範囲。 -/
def FitsLong (n : Int) : Prop := -2 ^ 63 ≤ n ∧ n < 2 ^ 63

/-- コンマで区切って並べた名前。 -/
inductive WritesNames : List (CharArray 64) → List UInt8 → Prop
  | nil : WritesNames [] []
  | single {n} (hn : ListedName n) : WritesNames [n] n.str.bytes
  | cons {n m ns a b v} (hn : ListedName n) (ha : Spaces a) (hb : Spaces b)
    (h : WritesNames (m :: ns) v) : WritesNames (n :: m :: ns) (n.str.bytes ++ a ++ 44 :: (b ++ v))

/-! ## 項目 -/

/-- level の名前。 -/
inductive LevelWord where
  | trace
  | debug
  | info
  | warn
  | error
  | off

def LevelWord.word : LevelWord → List UInt8
  | .trace => ascii "trace"
  | .debug => ascii "debug"
  | .info => ascii "info"
  | .warn => ascii "warn"
  | .error => ascii "error"
  | .off => ascii "off"

def LevelWord.level : LevelWord → Int
  | .trace => 0
  | .debug => 1
  | .info => 2
  | .warn => 3
  | .error => 4
  | .off => 5

/-- handler の種類の名前。 -/
def HandlerType.word : HandlerType → List UInt8
  | .console => ascii "console"
  | .file => ascii "file"
  | .socket => ascii "socket"
  | .syslog => ascii "syslog"

inductive GlobalEntry where
  | logBufferSize (n : Int)
  | ringBufferSize (n : Int)

inductive HandlerEntry where
  | type (t : HandlerType)
  | level (l : LevelWord)
  | filename (s : CharArray 256)
  | ident (s : CharArray 64)
  | facility (s : CharArray 32)
  | format (s : CharArray 32)
  | maxFileSize (n : Int)
  | maxBackupFiles (n : Int)
  | psk (s : CharArray 256)
  | listener (l : CfgListener)

inductive LoggerEntry where
  | level (l : LevelWord)
  | handlers (names : List (CharArray 64))

def GlobalEntry.key : GlobalEntry → List UInt8
  | .logBufferSize _ => ascii "log_buffer_size"
  | .ringBufferSize _ => ascii "ring_buffer_size"

def HandlerEntry.key : HandlerEntry → List UInt8
  | .type _ => ascii "type"
  | .level _ => ascii "level"
  | .filename _ => ascii "filename"
  | .ident _ => ascii "ident"
  | .facility _ => ascii "facility"
  | .format _ => ascii "format"
  | .maxFileSize _ => ascii "max_file_size"
  | .maxBackupFiles _ => ascii "max_backup_files"
  | .psk _ => ascii "psk"
  | .listener _ => ascii "listener"

def LoggerEntry.key : LoggerEntry → List UInt8
  | .level _ => ascii "level"
  | .handlers _ => ascii "handlers"

/-- 値の書き方。 -/
def GlobalEntry.Value : GlobalEntry → List UInt8 → Prop
  | .logBufferSize n, v | .ringBufferSize n, v => WritesInt n v ∧ FitsInt n

/-- 値の書き方。listener の host は `:` を含んでもよく、最後の `:` が port との区切りになる。 -/
def HandlerEntry.Value : HandlerEntry → List UInt8 → Prop
  | .type t, v => Spells t.word v
  | .level l, v => Spells l.word v
  | .filename s, v | .psk s, v => Writable s.str ∧ v = s.str.bytes
  | .ident s, v => Writable s.str ∧ v = s.str.bytes
  | .facility s, v | .format s, v => Writable s.str ∧ v = s.str.bytes
  | .maxFileSize n, v => WritesInt n v ∧ FitsLong n
  | .maxBackupFiles n, v => WritesInt n v ∧ FitsInt n
  | .listener l, v => Writable l.host.str ∧ FitsInt l.port ∧
    ∃ port, WritesInt l.port port ∧ v = l.host.str.bytes ++ 58 :: port

/-- 値の書き方。 -/
def LoggerEntry.Value : LoggerEntry → List UInt8 → Prop
  | .level l, v => Spells l.word v
  | .handlers names, v => WritesNames names v

/-- 一行に書かれる項目。 -/
inductive CfgItem where
  | globalSection
  | handlerSection (name : CharArray 64)
  | loggerSection (name : CharArray 64)
  | global (e : GlobalEntry)
  | handler (e : HandlerEntry)
  | logger (e : LoggerEntry)

/-! ## 行 -/

/-- `kind` の見出しの行。 -/
inductive HeaderLine (kind name : List UInt8) : List UInt8 → Prop
  | mk {a b k c d} (ha : Spaces a) (hb : Spaces b) (hk : Spells kind k) (hc : Spaces c)
    (hd : Spaces d) : HeaderLine kind name (a ++ 91 :: (b ++ (k ++ name) ++ c) ++ 93 :: d)

/-- `key = value` の行。 -/
inductive EntryLine (key : List UInt8) (Value : List UInt8 → Prop) : List UInt8 → Prop
  | mk {a k b c v d} (ha : Spaces a) (hk : Spells key k) (hb : Spaces b) (hc : Spaces c)
    (hv : Value v) (hd : Spaces d) : EntryLine key Value (a ++ (k ++ b) ++ 61 :: (c ++ v ++ d))

/-- 項目の行。 -/
def ItemLine : CfgItem → List UInt8 → Prop
  | .globalSection, l => HeaderLine (ascii "global") [] l
  | .handlerSection name, l => SectionName name ∧ HeaderLine (ascii "handler:") name.str.bytes l
  | .loggerSection name, l => SectionName name ∧ HeaderLine (ascii "logger:") name.str.bytes l
  | .global e, l => EntryLine e.key e.Value l
  | .handler e, l => EntryLine e.key e.Value l
  | .logger e, l => EntryLine e.key e.Value l

/-- 空の行と、`#` か `;` で始まる行。 -/
inductive SkipLine : List UInt8 → Prop
  | blank {a} (ha : Spaces a) : SkipLine a
  | comment {a text} (c : UInt8) (hc : c = 35 ∨ c = 59) (ha : Spaces a) (hnul : 0 ∉ text)
    (hnl : 10 ∉ text) : SkipLine (a ++ c :: text)

/-- 項目を順に書いた行の列。読み飛ばされる行がどこに入ってもよい。 -/
inductive CfgLines : List CfgItem → List (List UInt8) → Prop
  | nil : CfgLines [] []
  | skip {items l ls} (hl : SkipLine l) (h : CfgLines items ls) : CfgLines items (l :: ls)
  | item {i items l ls} (hl : ItemLine i l) (h : CfgLines items ls) :
    CfgLines (i :: items) (l :: ls)

/-- 行をつないだ file の中身。最後の改行は無くてもよい。 -/
inductive CfgText : List (List UInt8) → List UInt8 → Prop
  | nil : CfgText [] []
  | last {l} (hl : l ≠ []) : CfgText [l] l
  | line {l ls text} (h : CfgText ls text) : CfgText (l :: ls) (l ++ 10 :: text)

/-! ## 設定 -/

/-- 見出しと、その section の項目。 -/
inductive CfgBlock where
  | global (es : List GlobalEntry)
  | handler (name : CharArray 64) (es : List HandlerEntry)
  | logger (name : CharArray 64) (es : List LoggerEntry)

def CfgBlock.items : CfgBlock → List CfgItem
  | .global es => .globalSection :: es.map .global
  | .handler name es => .handlerSection name :: es.map .handler
  | .logger name es => .loggerSection name :: es.map .logger

/-- 一度だけ書かれた値は `v` である。`v` が初期値なら書かれていなくてもよい。 -/
def WrittenOnce {α : Type} (written : List α) (unset v : α) : Prop :=
  written = [v] ∨ written = [] ∧ v = unset

def GlobalEntry.logBufferSize? : GlobalEntry → Option Int
  | .logBufferSize n => some n
  | _ => none

def GlobalEntry.ringBufferSize? : GlobalEntry → Option Int
  | .ringBufferSize n => some n
  | _ => none

def HandlerEntry.type? : HandlerEntry → Option (Option HandlerType)
  | .type t => some (some t)
  | _ => none

def HandlerEntry.level? : HandlerEntry → Option Int
  | .level l => some l.level
  | _ => none

def HandlerEntry.filename? : HandlerEntry → Option (CharArray 256)
  | .filename s => some s
  | _ => none

def HandlerEntry.ident? : HandlerEntry → Option (CharArray 64)
  | .ident s => some s
  | _ => none

def HandlerEntry.facility? : HandlerEntry → Option (CharArray 32)
  | .facility s => some s
  | _ => none

def HandlerEntry.format? : HandlerEntry → Option (CharArray 32)
  | .format s => some s
  | _ => none

def HandlerEntry.maxFileSize? : HandlerEntry → Option Int
  | .maxFileSize n => some n
  | _ => none

def HandlerEntry.maxBackupFiles? : HandlerEntry → Option Int
  | .maxBackupFiles n => some n
  | _ => none

def HandlerEntry.psk? : HandlerEntry → Option (CharArray 256)
  | .psk s => some s
  | _ => none

def HandlerEntry.listener? : HandlerEntry → Option CfgListener
  | .listener l => some l
  | _ => none

def LoggerEntry.level? : LoggerEntry → Option Int
  | .level l => some l.level
  | _ => none

def LoggerEntry.names : LoggerEntry → List (CharArray 64)
  | .handlers names => names
  | _ => []

/-- handler の section が表す値。listener のほかの key は一度までである。 -/
structure HandlerDescribed (name : CharArray 64) (es : List HandlerEntry) (ch : CfgHandler) :
    Prop where
  name : ch.name = name
  type : WrittenOnce (es.filterMap HandlerEntry.type?) none ch.type
  level : WrittenOnce (es.filterMap HandlerEntry.level?) (-1) ch.level
  filename : WrittenOnce (es.filterMap HandlerEntry.filename?) (.zero (by decide)) ch.filename
  ident : WrittenOnce (es.filterMap HandlerEntry.ident?) (.zero (by decide)) ch.ident
  facility : WrittenOnce (es.filterMap HandlerEntry.facility?) (.zero (by decide)) ch.facility
  format : WrittenOnce (es.filterMap HandlerEntry.format?) (.zero (by decide)) ch.format
  maxFileSize : WrittenOnce (es.filterMap HandlerEntry.maxFileSize?) 0 ch.maxFileSize
  maxBackupFiles : WrittenOnce (es.filterMap HandlerEntry.maxBackupFiles?) 0 ch.maxBackupFiles
  psk : WrittenOnce (es.filterMap HandlerEntry.psk?) (.zero (by decide)) ch.psk
  listeners : es.filterMap HandlerEntry.listener? = ch.listeners

/-- logger の section が表す値。`handlers` は何度書いてもよく、名前は書いた順につながる。 -/
structure LoggerDescribed (name : CharArray 64) (es : List LoggerEntry) (cl : CfgLogger) :
    Prop where
  name : cl.name = name
  level : WrittenOnce (es.filterMap LoggerEntry.level?) (-1) cl.level
  handlerNames : es.flatMap LoggerEntry.names = cl.handlerNames

def CfgBlock.globals : CfgBlock → List GlobalEntry
  | .global es => es
  | _ => []

def CfgBlock.handler? : CfgBlock → Option (CharArray 64 × List HandlerEntry)
  | .handler name es => some (name, es)
  | _ => none

def CfgBlock.logger? : CfgBlock → Option (CharArray 64 × List LoggerEntry)
  | .logger name es => some (name, es)
  | _ => none

/-- section の並びが表す設定。handler と logger の section はそれぞれ書いた順に並ぶ。 -/
structure Describes (blocks : List CfgBlock) (cfg : Cfg) : Prop where
  logBufferSize : WrittenOnce
    ((blocks.flatMap CfgBlock.globals).filterMap GlobalEntry.logBufferSize?) 0 cfg.logBufferSize
  ringBufferSize : WrittenOnce
    ((blocks.flatMap CfgBlock.globals).filterMap GlobalEntry.ringBufferSize?) 0 cfg.ringBufferSize
  handlers : List.Forall₂ (fun b ch => HandlerDescribed b.1 b.2 ch)
    (blocks.filterMap CfgBlock.handler?) cfg.handlers
  loggers : List.Forall₂ (fun b cl => LoggerDescribed b.1 b.2 cl)
    (blocks.filterMap CfgBlock.logger?) cfg.loggers

/-- 設定を書いた file。どの行も 510 byte 以内である。 -/
def Writes (cfg : Cfg) (text : List UInt8) : Prop :=
  ∃ blocks lines, Describes blocks cfg ∧ CfgLines (blocks.flatMap CfgBlock.items) lines ∧
    (∀ l ∈ lines, l.length ≤ 510) ∧ CfgText lines text

end Logmoko
