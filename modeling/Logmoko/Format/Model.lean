import Logmoko.Lib.Buffer
import Logmoko.Ring.Basic
import Logmoko.Registry.Config
import Mathlib.Data.Nat.Digits.Defs
import Mathlib.Data.List.TakeWhile

/-!
# 書式関数と一行の整形

`logmoko_handler.c` の書式関数と `lmk_format_log_line` を写す。

書式関数は利用者が差し替えられるので、引数から「返り値と、書き込んだ位置の byte」を決める
任意の関数 `Formatter` とする。書かれなかった位置には buffer の前の値が残る。
返り値は書いた byte 数と一致するとは限らない。

* `snprintf` — 書式の展開結果 `text` を大きさ `size` の buffer に入れる
* `lmkDefaultFormat` / `lmkSimpleFormat` / `lmkJsonFormat` — 組み込みの三つ
* `lmkFormatLogLine` — 時刻の cache、書式関数の呼び出し、返り値の切り詰め
-/

namespace Logmoko

/-! ## 書式関数 -/

/-- 書式関数の引数のうち、出力先を除いたもの。 -/
structure FormatArgs where
  logLevel : Int
  levelStr : CStr
  timestamp : CStr
  fileName : CStr
  lineNo : Int
  handlerName : CStr
  message : CStr

/-- 書式関数の返り値と、書き込んだ位置の byte。 -/
structure FormatResult where
  ret : Int
  written : Nat → Option UInt8

/-- 型 `lmk_format_fn` の関数。`out_size` を越えては書かない。 -/
structure Formatter where
  call : Nat → FormatArgs → FormatResult
  inBounds : ∀ size args i, size ≤ i → (call size args).written i = none

/--
`snprintf` の結果。`text` は書式を展開した byte 列である。
入りきらない分は捨てて終端の NUL を書くが、返り値は捨てる前の長さである。
-/
def snprintf (size : Nat) (text : List UInt8) : FormatResult where
  ret := text.length
  written i :=
    if i < min text.length (size - 1) then text[i]?
    else if i = min text.length (size - 1) ∧ i < size then some 0
    else none

theorem snprintf_inBounds {size i : Nat} {text : List UInt8} (h : size ≤ i) :
    (snprintf size text).written i = none := by
  unfold snprintf
  dsimp only
  rw [if_neg (by omega), if_neg (by omega)]

/-- 十進表記 `%d`。 -/
def decimal : Int → List UInt8
  | .ofNat 0 => [48]
  | .ofNat n => (Nat.digits 10 n).reverse.map fun d => (48 + d).toUInt8
  | .negSucc n => 45 :: (Nat.digits 10 (n + 1)).reverse.map fun d => (48 + d).toUInt8

/-- 左詰めで幅 5 に揃える `%-5s`。 -/
def padRight5 (s : CStr) : List UInt8 := s.bytes ++ List.replicate (5 - s.length) 32

/-- 書式文字列を展開した byte 列から書式関数を作る。 -/
def Formatter.ofText (text : FormatArgs → List UInt8) : Formatter where
  call size args := snprintf size (text args)
  inBounds _ _ _ h := snprintf_inBounds h

/-- 書式 `"[%-5s %s (%s:%d) %s] : %s\n"` の展開。 -/
def defaultText (a : FormatArgs) : List UInt8 :=
  ascii "[" ++ padRight5 a.levelStr ++ ascii " " ++ a.timestamp.bytes ++ ascii " (" ++
    a.fileName.bytes ++ ascii ":" ++ decimal a.lineNo ++ ascii ") " ++ a.handlerName.bytes ++
    ascii "] : " ++ a.message.bytes ++ [10]

/-- 書式 `"%s [%-5s] %s\n"` の展開。 -/
def simpleText (a : FormatArgs) : List UInt8 :=
  a.timestamp.bytes ++ ascii " [" ++ padRight5 a.levelStr ++ ascii "] " ++ a.message.bytes ++ [10]

def lmkDefaultFormat : Formatter := .ofText defaultText

def lmkSimpleFormat : Formatter := .ofText simpleText

/--
`lmk_json_escape` の loop。`i` は書き込み先の添字で、返すのはそこから後に書く byte 列である。
二重引用符と逆斜線には逆斜線を前置し、改行は二文字にする。
残りが 2 byte 以下になったら、入力が残っていても打ち切る。
-/
def lmkJsonEscape (dstSize : Nat) : Nat → List UInt8 → List UInt8
  | _, [] => []
  | i, c :: src =>
    if i + 2 < dstSize then
      if c = 34 ∨ c = 92 then 92 :: c :: lmkJsonEscape dstSize (i + 2) src
      else if c = 10 then 92 :: 110 :: lmkJsonEscape dstSize (i + 2) src
      else c :: lmkJsonEscape dstSize (i + 1) src
    else []

/-- 配列 `escaped` の大きさ。 -/
def jsonEscapedSize : Nat := 1024

/-- `lmk_json_format` の書式の展開。escape するのは `message` だけである。 -/
def jsonText (a : FormatArgs) : List UInt8 :=
  ascii "\x7b\"timestamp\":\"" ++ a.timestamp.bytes ++ ascii "\",\"level\":\"" ++ a.levelStr.bytes ++
    ascii "\",\"file\":\"" ++ a.fileName.bytes ++ ascii "\",\"line\":" ++ decimal a.lineNo ++
    ascii ",\"handler\":\"" ++ a.handlerName.bytes ++ ascii "\",\"message\":\"" ++
    lmkJsonEscape jsonEscapedSize 0 a.message.bytes ++ ascii "\"\x7d" ++ [10]

def lmkJsonFormat : Formatter := .ofText jsonText

/-- handler の `format_fn` が指す関数。NULL なら既定の書式である。 -/
def formatFnOf (user : Nat → Formatter) : Option FormatFn → Formatter
  | none => lmkDefaultFormat
  | some .simple => lmkSimpleFormat
  | some .json => lmkJsonFormat
  | some (.user fn) => user fn

/-! ## 一行の整形 -/

/-- buffer の先頭から NUL の手前まで。大きさ `size` の中に NUL が無ければ全体である。 -/
def untilNul (buf : Nat → UInt8) (size : Nat) : List UInt8 :=
  (Buffer.read buf 0 size).takeWhile (· ≠ 0)

theorem zero_notMem_untilNul (buf : Nat → UInt8) (size : Nat) : 0 ∉ untilNul buf size := by
  intro h
  have := List.mem_takeWhile_imp h
  simp at this

/-- request の `data` を C の文字列として読む。 -/
def LogRequest.message (req : LogRequest) : CStr :=
  ⟨untilNul req.data logMsgMaxSize, zero_notMem_untilNul _ _⟩

/-- 空の message を level 2 で出す request。 -/
def emptyRequest : LogRequest :=
  { logLevel := 2, data := fun _ => 0, lineNo := 7, fileName := .empty, handlerName := .empty }

/-- 表 `g_log_level_str`。範囲外の level は `UNKNOWN` である。 -/
def lmkGetLogLevelStr (level : Int) : CStr :=
  if level = 0 then ⟨ascii "TRACE", by decide⟩
  else if level = 1 then ⟨ascii "DEBUG", by decide⟩
  else if level = 2 then ⟨ascii "INFO", by decide⟩
  else if level = 3 then ⟨ascii "WARN", by decide⟩
  else if level = 4 then ⟨ascii "ERROR", by decide⟩
  else if level = 5 then ⟨ascii "OFF", by decide⟩
  else ⟨ascii "UNKNOWN", by decide⟩

/-- request と時刻の文字列から、書式関数の引数を揃える。 -/
def formatArgs (timestamp : CStr) (req : LogRequest) : FormatArgs :=
  { logLevel := req.logLevel, levelStr := lmkGetLogLevelStr req.logLevel, timestamp
    fileName := req.fileName, lineNo := req.lineNo, handlerName := req.handlerName
    message := req.message }

/-- 書式関数の返り値を buffer に収まる長さに切り詰める。0 以下の値は 0 になる。 -/
def clampLength (n : Int) (outSize : Nat) : Int :=
  if n > 0 then (if n < outSize then n else (outSize : Int) - 1) else 0

/-- thread ごとの時刻の cache。 -/
structure TsCache where
  lastSec : Int
  text : CStr

/-- thread が動き始めたときの cache。 -/
def TsCache.empty : TsCache := { lastSec := 0, text := .empty }

/-- 秒が変わったときだけ時刻を整形し直す。`strftime` は現地時刻での整形である。 -/
def TsCache.refresh (strftime : Int → CStr) (now : Int) (c : TsCache) : TsCache :=
  if now ≠ c.lastSec then { lastSec := now, text := strftime now } else c

/--
時刻の文字列が決まった後の `lmk_format_log_line`。
buffer `out` の位置 `off` から先の `outSize` byte に書き、書いた長さと書いた後の buffer を返す。
-/
def formatLine (fn : Formatter) (timestamp : CStr) (out : Nat → UInt8) (off outSize : Nat)
    (req : LogRequest) : Int × (Nat → UInt8) :=
  let r := fn.call outSize (formatArgs timestamp req)
  (clampLength r.ret outSize, Buffer.overlay out off r.written)

def lmkFormatLogLine (strftime : Int → CStr) (fn : Formatter) (cache : TsCache) (now : Int)
    (out : Nat → UInt8) (off outSize : Nat) (req : LogRequest) :
    TsCache × Int × (Nat → UInt8) :=
  let cache := cache.refresh strftime now
  (cache, formatLine fn cache.text out off outSize req)

/-! ## 切り詰め -/

theorem clampLength_nonneg {n : Int} {outSize : Nat} (h : 0 < outSize) :
    0 ≤ clampLength n outSize := by
  unfold clampLength
  split
  · split <;> omega
  · omega

theorem clampLength_lt {n : Int} {outSize : Nat} (h : 0 < outSize) :
    clampLength n outSize < outSize := by
  unfold clampLength
  split
  · split <;> omega
  · omega

/-- 収まる長さは、そのまま返る。 -/
theorem clampLength_of_lt {n outSize : Nat} (h : n < outSize) : clampLength n outSize = n := by
  unfold clampLength
  split
  · rw [if_pos (by omega)]
  · omega

end Logmoko
