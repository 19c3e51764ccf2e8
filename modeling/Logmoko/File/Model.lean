import Logmoko.Format.Model
import Logmoko.Lib.Files
import Logmoko.Lib.Run

/-!
# file handler の consumer

`lmk_file_log_handler_thread_routine` を、field の読み書きや file の操作ひとつを一 step として写す。
`lmk_set_log_rotation` と `lmk_set_log_filename` は別の thread から呼ばれるので、
consumer のどの step の間にも入りうる動作とする。回転は `handler->lock` を取らないので、
`filename` を読むことと、読んだ名前で file を操作することは別の step になる。

ring から次の slot が取れるかどうかは外から与える（動作 `slot` と `empty`）。
file の操作の結果は動作が持つ（`FileIo`）。flush と回転は loop の途中と loop の後の二か所から呼ばれる。
どちらから来たかは `FlushSite` で表す。

次のように単純にしている。

* stream は、開いている file の名前と、stdio の buffer に残っている byte 列で表す。いつどれだけが
  file に届くかは動作が決める。回転は stream を閉じてから名前を変えるので、開いている間に
  file の名前が変わることはない
* 名前の差し替えは `free` と、新しい名前の store の二 step である。その間の `filename` は
  解放された領域を指し、そこを読んで何が見えるかは動作が決める（読んで止まることは写さない）。
  pointer の load から文字列を読み終えるまでの間に `free` が入ることも、`free` の直後に読むこととして
  現れる
* `lmk_strdup` は失敗しない
-/

namespace Logmoko

/-- 溜め込む buffer `wbuf` の大きさ。 -/
def writeBufSize : Nat := 64 * 1024

/-- 整形の前に空けておく長さ。 -/
def maxLineSize : Nat := logMsgMaxSize + 512

/-- 配列 `old_path` と `new_path` の大きさ。 -/
def pathBufSize : Nat := 512

/-- 番号 `i` の backup の名前 `"%s.%d"`。512 byte の配列に入る分だけが残る。 -/
def backupPath (filename : CStr) (i : Int) : List UInt8 :=
  (filename.bytes ++ ascii "." ++ decimal i).take (pathBufSize - 1)

/-! ## 状態 -/

/-- flush の呼び出し元。loop の途中なら、整形を待っている request を持つ。 -/
inductive FlushSite where
  | drain (now : Int) (req : LogRequest)
  | idle

/-- `lmk_rotate_log_file` の中の位置。 -/
inductive RotatePc where
  | close
  | shiftInit
  | shift (i : Int)
  | oldPath (i : Int)
  | newPath (i : Int) (old : List UInt8)
  | rename (i : Int) (old new : List UInt8)
  | first
  | firstPath
  | firstName (new : List UInt8)
  | firstRename (old new : List UInt8)
  | openName
  | open (name : List UInt8)
  | reset

/-- consumer の位置。 -/
inductive FilePc where
  | peek
  | checkFp (now : Int) (req : LogRequest)
  | fwrite (site : FlushSite)
  | addSize (site : FlushSite)
  | checkEnabled (site : FlushSite)
  | checkLimit (site : FlushSite)
  | rotate (site : FlushSite) (pc : RotatePc)
  | resetPos (site : FlushSite)
  | format (now : Int) (req : LogRequest)
  | consume
  | idle
  | fflush
  | loadRunning
  | sleep
  | finalFlush
  | finalFflush
  | exited

/-- `filename` の指す先。`replacing g` は、古い名前を解放し、`g` をまだ store していない。 -/
inductive FileName where
  | stored (f : CStr)
  | replacing (g : CStr)

/-- いま持っている、または持とうとしている名前。 -/
def FileName.name : FileName → CStr
  | .stored f | .replacing f => f

/-- 整形した request の控え。 -/
structure Drained where
  fn : Formatter
  timestamp : CStr
  now : Int
  req : LogRequest

/--
実行の控え。program の変数ではない。

`closed` の `j` 番目は、`j` 回目の回転の後、次の回転までに `fwrite` に渡した byte 列である。
-/
structure FileHistory where
  peeked : List (Int × LogRequest)
  drained : List Drained
  outputs : List (List UInt8)
  closed : List (List UInt8)
  current : List UInt8
  closedPath : Option (List UInt8)

/-- 何も起きていない控え。 -/
def FileHistory.empty : FileHistory :=
  { peeked := [], drained := [], outputs := [], closed := [], current := [], closedPath := none }

/-- これまでに `fwrite` に渡した byte 列の全体。 -/
def FileHistory.handed (h : FileHistory) : List UInt8 := h.closed.flatten ++ h.current

/-- file handler と、その thread の状態。 -/
structure FileState where
  fs : List UInt8 → Option (List UInt8)
  filename : FileName
  logFp : Option (Files.OpenFile (List UInt8) UInt8)
  maxFileSize : Int
  maxBackupFiles : Int
  currentFileSize : Int
  formatFn : Formatter
  wbuf : Nat → UInt8
  wpos : Nat
  cache : TsCache
  pc : FilePc
  hist : FileHistory

/-- buffer に溜まっている byte 列。 -/
def FileState.staged (s : FileState) : List UInt8 := Buffer.read s.wbuf 0 s.wpos

/-- `fwrite` が受け取り、まだ file に届いていない byte 列。 -/
def FileState.held (s : FileState) : List UInt8 :=
  match s.logFp with
  | some p => p.held
  | none => []

/-! ## 動作 -/

/--
file の操作の結果。`written` は `fwrite` が受け取る長さの上限、`spilled` は stdio の buffer から
file に届く長さの上限である。`freed` は、解放された名前の領域に見える文字列である。
-/
structure FileIo where
  opens : Bool
  renames : Bool
  written : Nat
  spilled : Nat
  freed : CStr

/-- `filename` を読んで見える文字列。 -/
def FileName.read (io : FileIo) : FileName → CStr
  | .stored f => f
  | .replacing _ => io.freed

/--
consumer の step と、別の thread からの設定。`setFilename` は古い名前を解放し、`storeFilename` が
新しい名前を store する。`setRotation` の二つの store の間は、片方だけを変える呼び出しで表せる。
-/
inductive FileAction where
  | slot (now : Int) (req : LogRequest)
  | empty
  | step (io : FileIo)
  | running (b : Bool)
  | setRotation (maxFileSize maxBackupFiles : Int)
  | setFilename (filename : Option CStr)
  | storeFilename
  | setFormat (fn : Formatter)

/--
`lmk_file_log_handler_init` を終えて thread が動き始めた状態。`opens` は `fopen` の成否で、
`wbuf` の中身は決まっていない。
-/
def fileInitial (opens : Bool) (fs : List UInt8 → Option (List UInt8)) (filename : CStr)
    (maxFileSize maxBackupFiles : Int) (fn : Formatter) (wbuf : Nat → UInt8) : FileState :=
  { fs := if opens then Files.touch filename.bytes fs else fs
    filename := .stored filename
    logFp := if opens then some { path := filename.bytes, held := [] } else none
    maxFileSize, maxBackupFiles
    currentFileSize := if opens then (((fs filename.bytes).getD []).length : Nat) else 0
    formatFn := fn, wbuf, wpos := 0, cache := .empty, pc := .peek, hist := .empty }

/-- `xs` を stream に渡した後の状態。 -/
def FileState.put (s : FileState) (p : Files.OpenFile (List UInt8) UInt8) (xs : List UInt8)
    (io : FileIo) : FileState :=
  { s with fs := p.spill xs io.spilled s.fs, logFp := some (p.push xs io.spilled) }

/-- `fflush` の後の状態。NULL を渡しても、閉じている file には何も起きない。 -/
def FileState.flush (s : FileState) (io : FileIo) : FileState :=
  match s.logFp with
  | some p => s.put p [] io
  | none => s

/-- `rename` の後の状態。 -/
def FileState.rename (s : FileState) (old new : List UInt8) (io : FileIo) : FileState :=
  { s with fs := if io.renames then Files.rename old new s.fs else s.fs }

/-- 回転の一 step。 -/
def rotateStep (io : FileIo) (s : FileState) (site : FlushSite) : RotatePc → Option FileState
  | .close => s.logFp.map fun p =>
    { s with
      fs := p.spill [] io.spilled s.fs
      logFp := none
      hist := { s.hist with
        closed := s.hist.closed ++ [s.hist.current], current := [], closedPath := some p.path }
      pc := .rotate site .shiftInit }
  | .shiftInit => some { s with pc := .rotate site (.shift (s.maxBackupFiles - 1)) }
  | .shift i => some { s with pc := .rotate site (if i ≥ 1 then .oldPath i else .first) }
  | .oldPath i =>
    some { s with pc := .rotate site (.newPath i (backupPath (s.filename.read io) i)) }
  | .newPath i old =>
    some { s with pc := .rotate site (.rename i old (backupPath (s.filename.read io) (i + 1))) }
  | .rename i old new =>
    some { s.rename old new io with pc := .rotate site (.shift (i - 1)) }
  | .first =>
    some { s with pc := .rotate site (if s.maxBackupFiles > 0 then .firstPath else .openName) }
  | .firstPath =>
    some { s with pc := .rotate site (.firstName (backupPath (s.filename.read io) 1)) }
  | .firstName new =>
    some { s with pc := .rotate site (.firstRename (s.filename.read io).bytes new) }
  | .firstRename old new => some { s.rename old new io with pc := .rotate site .openName }
  | .openName => some { s with pc := .rotate site (.open (s.filename.read io).bytes) }
  | .open name => some { s with
      fs := if io.opens then Files.truncate name s.fs else s.fs
      logFp := if io.opens then some { path := name, held := [] } else none
      pc := .rotate site .reset }
  | .reset => some { s with currentFileSize := 0, pc := .resetPos site }

/-- 整形して buffer に足す step。 -/
def formatStep (strftime : Int → CStr) (s : FileState) (now : Int) (req : LogRequest) :
    FileState :=
  let p := lmkFormatLogLine strftime s.formatFn s.cache now s.wbuf s.wpos
    (writeBufSize - s.wpos) req
  { s with
    cache := p.1
    wbuf := p.2.2
    wpos := if p.2.1 > 0 then s.wpos + p.2.1.toNat else s.wpos
    hist := { s.hist with
      drained := s.hist.drained ++
        [{ fn := s.formatFn, timestamp := p.1.text, now := now, req := req }]
      outputs := s.hist.outputs ++ [Buffer.read p.2.2 s.wpos p.2.1.toNat] }
    pc := .consume }

/-- 呼び出し元に応じた、flush の後の位置。 -/
def FlushSite.next : FlushSite → FilePc
  | .drain now req => .format now req
  | .idle => .fflush

/-- consumer の一 step。 -/
def consumerStep (strftime : Int → CStr) (io : FileIo) (s : FileState) : Option FileState :=
  match s.pc with
  | .checkFp now req =>
    if s.logFp.isSome then
      if s.wpos + maxLineSize > writeBufSize then
        some { s with pc := .fwrite (.drain now req) }
      else some { s with pc := .format now req }
    else some { s with pc := .consume }
  | .fwrite site => s.logFp.map fun p =>
    { s.put p (s.staged.take io.written) io with
      hist := { s.hist with current := s.hist.current ++ s.staged }
      pc := .addSize site }
  | .addSize site =>
    some { s with currentFileSize := s.currentFileSize + s.wpos, pc := .checkEnabled site }
  | .checkEnabled site =>
    some { s with pc := if s.maxFileSize > 0 then .checkLimit site else .resetPos site }
  | .checkLimit site =>
    some { s with
      pc := if s.currentFileSize ≥ s.maxFileSize then .rotate site .close else .resetPos site }
  | .rotate site pc => rotateStep io s site pc
  | .resetPos site => some { s with wpos := 0, pc := site.next }
  | .format now req => some (formatStep strftime s now req)
  | .consume => some { s with pc := .peek }
  | .idle =>
    some { s with pc := if s.wpos > 0 ∧ s.logFp.isSome then .fwrite .idle else .loadRunning }
  | .fflush => some { s.flush io with pc := .loadRunning }
  | .sleep => some { s with pc := .peek }
  | .finalFlush =>
    match s.logFp with
    | some p =>
      if s.wpos > 0 then
        some { s.put p (s.staged.take io.written) io with
          hist := { s.hist with current := s.hist.current ++ s.staged }
          wpos := 0
          pc := .finalFflush }
      else some { s with pc := .finalFflush }
    | none => some { s with pc := .finalFflush }
  | .finalFflush => some { s.flush io with pc := .exited }
  | .peek | .loadRunning | .exited => none

/-- file handler の一 step。 -/
def fileStep (strftime : Int → CStr) (s : FileState) : FileAction → Option FileState
  | .slot now req =>
    match s.pc with
    | .peek => some { s with
        pc := .checkFp now req
        hist := { s.hist with peeked := s.hist.peeked ++ [(now, req)] } }
    | _ => none
  | .empty =>
    match s.pc with
    | .peek => some { s with pc := .idle }
    | _ => none
  | .step io => consumerStep strftime io s
  | .running b =>
    match s.pc with
    | .loadRunning => some { s with pc := if b then .sleep else .finalFlush }
    | _ => none
  -- `setFilename` から `storeFilename` までは lock を持っているので、設定の呼び出しは待つ
  | .setRotation maxFileSize maxBackupFiles =>
    match s.filename with
    | .stored _ => some { s with maxFileSize, maxBackupFiles }
    | .replacing _ => none
  | .setFilename filename =>
    match s.filename, filename with
    | .stored _, none => some s
    | .stored _, some g => some { s with filename := .replacing g }
    | .replacing _, _ => none
  | .storeFilename =>
    match s.filename with
    | .stored _ => none
    | .replacing g => some { s with filename := .stored g }
  | .setFormat fn => some { s with formatFn := fn }

end Logmoko
