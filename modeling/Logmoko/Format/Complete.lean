import Logmoko.Format.Escape
import Logmoko.Format.Text
import Logmoko.Lib.StrBuf

/-!
# 一行が改行で終わること

組み込みの三つの書式は、どれも改行で終わる一行を `snprintf` で一度に書く。
行が buffer に収まれば、返り値は行の長さで、その最後の byte は改行である。
収まらなければ途中で切られ、改行は失われる。

余地として空けてある 512 byte は message のためのもので、file 名と handler 名の長さには
上限が無い。行が完結するのは、展開した長さが `int` に変換した大きさより短いとき、
かつそのときに限る（`record_ends_line_iff`）。
-/

namespace Logmoko

/-! ## 組み込みの書式 -/

/-- 組み込みの書式。 -/
inductive BuiltinFormat where
  | default
  | simple
  | json

/-- handler の `format_fn` の値。 -/
def BuiltinFormat.formatFn : BuiltinFormat → Option FormatFn
  | .default => none
  | .simple => some .simple
  | .json => some .json

/-- 書式の展開。 -/
def BuiltinFormat.text : BuiltinFormat → FormatArgs → List UInt8
  | .default => defaultText
  | .simple => simpleText
  | .json => jsonText

theorem formatFnOf_builtin (user : Nat → Formatter) (b : BuiltinFormat) :
    formatFnOf user b.formatFn = .ofText b.text := by
  cases b <;> rfl

/-- 展開した行の長さ。書式の固定の文字の数と、各部分の長さの和である。 -/
def BuiltinFormat.lineLength (a : FormatArgs) : BuiltinFormat → Nat
  | .default => 12 + max 5 a.levelStr.length + a.timestamp.length + a.fileName.length +
      (decimal a.lineNo).length + a.handlerName.length + a.message.length
  | .simple => 5 + max 5 a.levelStr.length + a.timestamp.length + a.message.length
  | .json => 72 + a.levelStr.length + a.timestamp.length + a.fileName.length +
      (decimal a.lineNo).length + a.handlerName.length +
      (lmkJsonEscape jsonEscapedSize 0 a.message.bytes).length

variable {a : FormatArgs} {b : BuiltinFormat} {s : CStr}

theorem length_padRight5 (s : CStr) : (padRight5 s).length = max 5 s.length := by
  unfold padRight5
  rw [List.length_append, List.length_replicate]
  show s.length + (5 - s.length) = _
  omega

theorem length_text (b : BuiltinFormat) (a : FormatArgs) : (b.text a).length = b.lineLength a := by
  cases b with
  | default =>
    show (defaultText a).length = _
    unfold defaultText
    simp only [List.length_append, length_padRight5, BuiltinFormat.lineLength, CStr.length,
      show (ascii "[").length = 1 from rfl, show (ascii " ").length = 1 from rfl,
      show (ascii " (").length = 2 from rfl, show (ascii ":").length = 1 from rfl,
      show (ascii ") ").length = 2 from rfl, show (ascii "] : ").length = 4 from rfl,
      List.length_singleton]
    omega
  | simple =>
    show (simpleText a).length = _
    unfold simpleText
    simp only [List.length_append, length_padRight5, BuiltinFormat.lineLength, CStr.length,
      show (ascii " [").length = 2 from rfl, show (ascii "] ").length = 2 from rfl,
      List.length_singleton]
    omega
  | json =>
    show (jsonText a).length = _
    unfold jsonText
    simp only [List.length_append, BuiltinFormat.lineLength, CStr.length,
      show (ascii "\x7b\"timestamp\":\"").length = 14 from rfl,
      show (ascii "\",\"level\":\"").length = 11 from rfl,
      show (ascii "\",\"file\":\"").length = 10 from rfl,
      show (ascii "\",\"line\":").length = 9 from rfl,
      show (ascii ",\"handler\":\"").length = 12 from rfl,
      show (ascii "\",\"message\":\"").length = 13 from rfl,
      show (ascii "\"\x7d").length = 2 from rfl, List.length_singleton]
    omega

/-- どの書式も改行で終わる。 -/
theorem text_ends (b : BuiltinFormat) (a : FormatArgs) : ∃ t, b.text a = t ++ [10] := by
  cases b <;> exact ⟨_, rfl⟩

/-! ## `int` に変換した大きさ -/

/-- `size_t` の値を `int` に変換したもの。 -/
def intOfSize (outSize : Nat) : Int := Int.bmod outSize (2 ^ 32)

/-- 返り値の切り詰め。大きさは `int` に変換して比べる。 -/
def clampReturn (n : Int) (outSize : Nat) : Int :=
  if n > 0 then (if n < intOfSize outSize then n else intOfSize outSize - 1) else 0

theorem intOfSize_le (outSize : Nat) : intOfSize outSize ≤ outSize := by
  unfold intOfSize Int.bmod
  dsimp only
  split <;> omega

theorem intOfSize_of_lt {outSize : Nat} (h : outSize < 2 ^ 31) : intOfSize outSize = outSize := by
  unfold intOfSize Int.bmod
  dsimp only
  split <;> omega

/-- 時刻の cache を経た `lmk_format_log_line`。`int` に収まらない大きさの buffer も受け付ける。 -/
def lmkFormatLogLineAny (strftime : Int → CStr) (fn : Formatter) (cache : TsCache) (now : Int)
    (out : Nat → UInt8) (off outSize : Nat) (req : LogRequest) :
    TsCache × Int × (Nat → UInt8) :=
  let cache := cache.refresh strftime now
  let r := fn.call outSize (formatArgs cache.text req)
  (cache, clampReturn r.ret outSize, Buffer.overlay out off r.written)

/-- 大きさが `int` に収まる buffer では、`lmkFormatLogLine` と同じである。 -/
theorem lmkFormatLogLineAny_eq {outSize : Nat} (h : outSize < 2 ^ 31) (strftime : Int → CStr)
    (fn : Formatter) (cache : TsCache) (now : Int) (out : Nat → UInt8) (off : Nat)
    (req : LogRequest) :
    lmkFormatLogLineAny strftime fn cache now out off outSize req
      = lmkFormatLogLine strftime fn cache now out off outSize req := by
  unfold lmkFormatLogLineAny lmkFormatLogLine formatLine clampReturn clampLength
  rw [intOfSize_of_lt h]

theorem clampReturn_of_lt {n outSize : Nat} (h : (n : Int) < intOfSize outSize) :
    clampReturn n outSize = n := by
  unfold clampReturn
  rcases Nat.eq_zero_or_pos n with rfl | hn
  · rfl
  · rw [if_pos (by omega), if_pos h]

/-- 切り詰められた返り値は、もとの値にならない。 -/
theorem clampReturn_ne {n outSize : Nat} (hpos : 0 < n) (h : ¬ (n : Int) < intOfSize outSize) :
    clampReturn n outSize ≠ n := by
  unfold clampReturn
  rw [if_pos (by omega), if_neg h]
  omega

/-! ## 完結する行 -/

/-- 位置 `off` から書いた結果が、切り詰められていない `text` であり、改行で終わる。 -/
structure CompleteLine (text : List UInt8) (off : Nat) (r : Int × (Nat → UInt8)) : Prop where
  length : r.1 = text.length
  content : Buffer.read r.2 off text.length = text
  newline : text.getLast? = some 10

/--
**一行が完結するのは、展開した長さが `int` に変換した buffer の大きさより短いとき、
かつそのときに限る。**
-/
theorem record_ends_line_iff (b : BuiltinFormat) (strftime : Int → CStr) (cache : TsCache)
    (now : Int) (out : Nat → UInt8) (off outSize : Nat) (req : LogRequest) :
    CompleteLine (b.text (formatArgs (cache.refresh strftime now).text req)) off
        (lmkFormatLogLineAny strftime (.ofText b.text) cache now out off outSize req).2 ↔
      (b.lineLength (formatArgs (cache.refresh strftime now).text req) : Int)
        < intOfSize outSize := by
  generalize hargs : formatArgs (cache.refresh strftime now).text req = a
  obtain ⟨t, ht⟩ := text_ends b a
  have hpos : 0 < (b.text a).length := by
    rw [ht, List.length_append]
    exact Nat.succ_pos _
  rw [← length_text]
  constructor
  · intro h
    by_contra hlong
    have hret := h.length
    unfold lmkFormatLogLineAny at hret
    dsimp only at hret
    rw [hargs] at hret
    exact clampReturn_ne hpos hlong hret
  · intro h
    have hfit : (b.text a).length < outSize := by
      have := intOfSize_le outSize
      omega
    refine ⟨?_, ?_, ?_⟩
    · unfold lmkFormatLogLineAny
      dsimp only
      rw [hargs]
      exact clampReturn_of_lt h
    · unfold lmkFormatLogLineAny
      dsimp only
      rw [hargs]
      exact Buffer.read_overlay_self fun _ _ hx => snprintf_written hfit hx
    · rw [ht, List.getLast?_concat]

/-! ## 名前の短い記録 -/

/-- 十進表記の長さは、桁数に符号か 0 の一文字を加えたものまでである。 -/
theorem length_decimal_le_digits (n : Int) :
    (decimal n).length ≤ (Nat.digits 10 n.natAbs).length + 1 := by
  match n with
  | .ofNat 0 => exact Nat.le_refl 1
  | .ofNat (n + 1) =>
    rw [decimal, List.length_map, List.length_reverse]
    · exact Nat.le_succ _
    · exact nofun
  | .negSucc n =>
    rw [decimal, List.length_cons, List.length_map, List.length_reverse]
    rfl

/-- `int` の十進表記は 11 文字以内である。 -/
theorem length_decimal_le_eleven {n : Int} (h : n.natAbs ≤ 2147483648) :
    (decimal n).length ≤ 11 := by
  have hdigits : (Nat.digits 10 n.natAbs).length ≤ 10 := by
    rw [Nat.digits_length_le_iff (by decide)]
    omega
  exact Nat.le_trans (length_decimal_le_digits n) (Nat.succ_le_succ hdigits)

theorem length_levelStr_le (level : Int) : (lmkGetLogLevelStr level).length ≤ 7 := by
  unfold lmkGetLogLevelStr
  split_ifs <;> decide

/-- 二つの名前を合わせて 451 byte 以内なら、どの書式の行も 2560 byte の buffer に収まる。 -/
theorem lineLength_lt_of_short_names {timestamp : CStr} {req : LogRequest}
    (hts : timestamp.length ≤ 31) (hmsg : req.message.length ≤ 2047)
    (hline : req.lineNo.natAbs ≤ 2147483648)
    (hnames : req.fileName.length + req.handlerName.length ≤ 451) (b : BuiltinFormat) :
    b.lineLength (formatArgs timestamp req) < maxLineSize := by
  have hlevel := length_levelStr_le req.logLevel
  have hdec := length_decimal_le_eleven hline
  show _ < 2560
  cases b with
  | default =>
    dsimp only [BuiltinFormat.lineLength, formatArgs]
    omega
  | simple =>
    dsimp only [BuiltinFormat.lineLength, formatArgs]
    omega
  | json =>
    have hesc := length_lmkJsonEscape_lt req.message.bytes (show 0 < jsonEscapedSize by decide)
    change _ < 1024 at hesc
    dsimp only [BuiltinFormat.lineLength, formatArgs]
    omega

/-! ## 長い handler 名 -/

theorem overlay_eq_of_written {out : Nat → UInt8} {w : Nat → Option UInt8} {i : Nat} {x : UInt8}
    (h : w i = some x) : Buffer.overlay out 0 w i = x := by
  rw [Buffer.overlay, if_pos (Nat.zero_le i), Nat.sub_zero, h]
  rfl

/-- 2047 byte の message を、500 byte の名前の handler に出す request。 -/
def longRequest : LogRequest where
  logLevel := 2
  data i := if i < 2047 then 109 else 0
  lineNo := 7
  fileName := ⟨ascii "a.c", by decide⟩
  handlerName :=
    ⟨List.replicate 500 104, fun h => absurd (List.eq_of_mem_replicate h) (by decide)⟩

/-- 時刻の文字列。 -/
def newYear : CStr := ⟨ascii "2026-01-01 00:00:00", by decide⟩

theorem message_longRequest : longRequest.message.bytes = List.replicate 2047 109 := by
  have hread : Buffer.read longRequest.data 0 (2047 + 1) = List.replicate 2047 109 ++ 0 :: [] := by
    rw [Buffer.read_add]
    refine congrArg₂ _ (List.eq_replicate_iff.mpr ⟨Buffer.length_read, ?_⟩) rfl
    intro b hb
    obtain ⟨i, hi, rfl⟩ := List.mem_map.mp hb
    rw [Nat.zero_add]
    exact if_pos (List.mem_range.mp hi)
  have hsize : logMsgMaxSize = 2047 + 1 := rfl
  unfold LogRequest.message untilNul
  dsimp only
  rw [hsize, hread]
  refine StrBuf.takeWhile_append_zero ?_
  intro h
  exact absurd (List.eq_of_mem_replicate h) (by decide)

theorem lineLength_longRequest :
    BuiltinFormat.lineLength (formatArgs newYear longRequest) .default = 2587 := by
  have hmsg : longRequest.message.length = 2047 :=
    (congrArg List.length message_longRequest).trans List.length_replicate
  have hhandler : longRequest.handlerName.length = 500 := List.length_replicate
  have hlevel : (lmkGetLogLevelStr longRequest.logLevel).length = 4 := rfl
  have hline : (decimal longRequest.lineNo).length = 1 := by decide
  have hfile : longRequest.fileName.length = 3 := rfl
  have hts : newYear.length = 19 := rfl
  dsimp only [BuiltinFormat.lineLength, formatArgs]
  rw [hmsg, hhandler, hlevel, hline, hfile, hts]
  rfl

/-- 2560 byte の buffer では途中で切られ、書いた 2559 byte は message の文字で終わる。 -/
theorem longRequest_cut :
    ∃ r, (lmkFormatLogLineAny (fun _ => newYear) (.ofText defaultText) .empty 1 (fun _ => 0) 0
        maxLineSize longRequest).2 = r ∧ r.1 = 2559 ∧ r.2 2558 = 109 ∧
      ¬ CompleteLine (defaultText (formatArgs newYear longRequest)) 0 r := by
  generalize hargs : formatArgs newYear longRequest = args
  have hlen : (defaultText args).length = 2587 := by
    rw [← hargs]
    exact (length_text .default _).trans lineLength_longRequest
  have hclamp : clampReturn (2587 : Nat) maxLineSize = 2559 := by
    unfold clampReturn
    rw [intOfSize_of_lt (by decide)]
    decide
  refine ⟨(clampReturn (defaultText args).length maxLineSize, Buffer.overlay (fun _ => 0) 0
    (snprintf maxLineSize (defaultText args)).written), ?_, ?_, ?_, ?_⟩
  · rw [← hargs]
    rfl
  · dsimp only
    rw [hlen, hclamp]
  · -- 切られる位置は message の中にある
    obtain ⟨pre, hpre⟩ : ∃ pre, defaultText args = pre ++ List.replicate 2047 109 ++ [10] := by
      rw [← hargs, ← message_longRequest]
      exact ⟨_, rfl⟩
    have hprelen : pre.length = 539 := by
      have hsum := congrArg List.length hpre
      rw [hlen, List.length_append, List.length_append, List.length_replicate,
        List.length_singleton] at hsum
      omega
    have hlt : 2558 < (pre ++ List.replicate 2047 (109 : UInt8)).length := by
      rw [List.length_append, List.length_replicate, hprelen]
      omega
    have hbyte : (defaultText args)[2558]? = some 109 := by
      rw [hpre, List.getElem?_append_left hlt, List.getElem?_append_right (by omega),
        List.getElem?_replicate, if_pos (by omega)]
    have hwritten : (snprintf maxLineSize (defaultText args)).written 2558 = some 109 := by
      have hmax : maxLineSize = 2560 := rfl
      unfold snprintf
      dsimp only
      rw [hlen, hmax, if_pos (by omega), hbyte]
    dsimp only
    generalize (snprintf maxLineSize (defaultText args)).written = w at hwritten ⊢
    exact overlay_eq_of_written hwritten
  · intro h
    have hret := h.length
    dsimp only at hret
    rw [hlen, hclamp] at hret
    exact absurd hret (by decide)

end Logmoko
