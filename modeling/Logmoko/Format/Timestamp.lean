import Logmoko.Format.Complete

/-!
# 時刻の文字列と、その cache

`lmk_format_log_line` は、秒が変わった時だけ `localtime_r` と `strftime` を呼ぶ。
`lmk_get_timestamp` は同じ書式を毎回整形する。

cache の秒は 0 から始まり、cache の文字列は空である。0 は時刻としても正しい値なので、
thread の最初の一行が時刻 0 に当たると、整形しないまま空の文字列が渡される。
また、どちらの関数も `localtime_r` の失敗を見ないので、年が `int` に収まらない時刻では
初期化していない `struct tm` を整形する。それ以外では cache は整形し直したのと同じである。

`localtime` は time zone の定まった `localtime_r` で、`none` が失敗である。
整形できなかった buffer に残るものは定まらないので、呼び出しごとの `junk` として外から与える。
-/

namespace Logmoko

/-! ## 整形 -/

/-- 分解した時刻 `struct tm` のうち、書式が使うもの。 -/
structure Tm where
  year : Int
  mon : Nat
  mday : Nat
  hour : Nat
  min : Nat
  sec : Nat
  year_ge : -2147483648 ≤ year
  year_lt : year < 2147483648
  mon_lt : mon < 12
  mday_le : mday ≤ 31
  hour_lt : hour < 24
  min_lt : min < 60
  sec_le : sec ≤ 60

/-- 配列 `ts_cache` の大きさ `LMK_TSTAMP_BUFF_SIZE`。 -/
def tstampBuffSize : Nat := 32

/-- 二桁の十進表記。 -/
def twoDigits (n : Nat) : List UInt8 := [(48 + n / 10).toUInt8, (48 + n % 10).toUInt8]

/-- 書式 `"%Y-%m-%d %H:%M:%S"` の展開。年は 1900 からの差で、月は 0 から数える。 -/
def Tm.text (tm : Tm) : List UInt8 :=
  decimal (tm.year + 1900) ++ ascii "-" ++ twoDigits (tm.mon + 1) ++ ascii "-" ++
    twoDigits tm.mday ++ ascii " " ++ twoDigits tm.hour ++ ascii ":" ++ twoDigits tm.min ++
    ascii ":" ++ twoDigits tm.sec

/-- `localtime_r` と、大きさ `size` の buffer への `strftime`。 -/
def formatTime (localtime : Int → Option Tm) (size : Int) (junk : CStr) (now : Int) : CStr :=
  match localtime now with
  | some tm => if (tm.text.length : Int) < size then .lit tm.text else junk
  | none => junk

/-- 時刻の文字列を作る。buffer が NULL か小さければ `LMK_E_NG` を返す。 -/
def lmkGetTimestamp (localtime : Int → Option Tm) (tsBuffNull : Bool) (tsBuffLen : Int)
    (junk : CStr) (now : Int) : Option CStr :=
  if tsBuffNull ∨ tsBuffLen < tstampBuffSize then none
  else some (formatTime localtime tsBuffLen junk now)

/-! ## 一つの thread の記録 -/

/-- `lmk_format_log_line` の一回の呼び出し。`now` は `time` の返り値である。 -/
structure LogLine where
  now : Int
  junk : CStr
  fn : Formatter
  out : Nat → UInt8
  off : Nat
  outSize : Nat
  req : LogRequest

/-- 一回の呼び出し。 -/
def LogLine.format (localtime : Int → Option Tm) (cache : TsCache) (l : LogLine) :
    TsCache × Int × (Nat → UInt8) :=
  lmkFormatLogLine (formatTime localtime tstampBuffSize l.junk) l.fn cache l.now l.out l.off
    l.outSize l.req

/-- 書式関数に渡る時刻の文字列を、呼び出しの順に並べる。 -/
def passedTimestamps (localtime : Int → Option Tm) : TsCache → List LogLine → List CStr
  | _, [] => []
  | cache, l :: lines =>
    let cache := (l.format localtime cache).1
    cache.text :: passedTimestamps localtime cache lines

/-- 書式関数に渡るのは、呼び出しの後の cache の文字列である。 -/
theorem format_eq (localtime : Int → Option Tm) (cache : TsCache) (l : LogLine) :
    l.format localtime cache = ((l.format localtime cache).1,
      formatLine l.fn (l.format localtime cache).1.text l.out l.off l.outSize l.req) := rfl

/--
thread の最初から `nows` の順に時刻が返る限り、どの行に渡る文字列も、
その時刻について `lmk_get_timestamp` が作るものと同じである。
-/
def CacheAgrees (localtime : Int → Option Tm) (nows : List Int) : Prop :=
  ∀ lines : List LogLine, lines.map LogLine.now = nows →
    ∀ (tsBuffLen : Int) (junk : CStr), (tstampBuffSize : Int) ≤ tsBuffLen →
      List.Forall₂ (fun ts now => lmkGetTimestamp localtime false tsBuffLen junk now = some ts)
        (passedTimestamps localtime .empty lines) nows

/-! ## 整形の結果 -/

theorem length_text_lt (tm : Tm) : tm.text.length < tstampBuffSize := by
  have hyear : (decimal (tm.year + 1900)).length ≤ 11 := by
    have hdigits : (Nat.digits 10 (tm.year + 1900).natAbs).length ≤ 10 := by
      rw [Nat.digits_length_le_iff (by decide)]
      have := tm.year_ge
      have := tm.year_lt
      omega
    exact Nat.le_trans (length_decimal_le_digits _) (Nat.succ_le_succ hdigits)
  have hlen : tm.text.length = (decimal (tm.year + 1900)).length + 15 := by
    simp only [Tm.text, List.length_append, twoDigits, List.length_cons, List.length_nil]
    rfl
  show tm.text.length < 32
  omega

/-- 年の表記は空でなく、NUL で始まらない。 -/
theorem decimal_eq_cons (n : Int) : ∃ b s, decimal n = b :: s ∧ b ≠ 0 := by
  match n with
  | .ofNat 0 => exact ⟨48, [], rfl, by decide⟩
  | .ofNat (n + 1) =>
    obtain ⟨b, s, hs, hb, _⟩ := digitBytes_eq_cons (Nat.succ_ne_zero n)
    refine ⟨b, s, (decimal_natCast (Nat.succ_ne_zero n)).trans hs, ?_⟩
    rintro rfl
    exact absurd hb (by decide)
  | .negSucc n => exact ⟨45, _, rfl, by decide⟩

theorem lit_text_ne_empty (tm : Tm) : CStr.lit tm.text ≠ .empty := by
  obtain ⟨b, s, hs, hb⟩ := decimal_eq_cons (tm.year + 1900)
  intro h
  have hbytes := congrArg CStr.bytes h
  simp only [CStr.lit, CStr.empty, Tm.text, hs, List.cons_append, List.takeWhile_cons, ne_eq, hb,
    not_false_eq_true, decide_true, if_true] at hbytes
  cases hbytes

/-- buffer が足りていれば、整形の結果は buffer の大きさによらない。 -/
theorem formatTime_of_some {localtime : Int → Option Tm} {size now : Int} {junk : CStr} {tm : Tm}
    (h : localtime now = some tm) (hsize : (tstampBuffSize : Int) ≤ size) :
    formatTime localtime size junk now = .lit tm.text := by
  have hlt := length_text_lt tm
  simp only [formatTime, h]
  rw [if_pos (by omega)]

/-- `localtime_r` が失敗すると、buffer には何が残るか分からない。 -/
theorem formatTime_of_none {localtime : Int → Option Tm} {size now : Int} {junk : CStr}
    (h : localtime now = none) : formatTime localtime size junk now = junk := by
  simp only [formatTime, h]

theorem lmkGetTimestamp_eq {localtime : Int → Option Tm} {len now : Int} {junk : CStr}
    (hlen : (tstampBuffSize : Int) ≤ len) :
    lmkGetTimestamp localtime false len junk now = some (formatTime localtime len junk now) := by
  unfold lmkGetTimestamp
  rw [if_neg (by simpa using hlen)]

/-! ## cache の一致 -/

section

variable {localtime : Int → Option Tm} {cache : TsCache} {l : LogLine} {tm : Tm}

/-- cache の秒が今の時刻でないか、もう整形してあれば、渡る文字列は今の時刻のものである。 -/
theorem format_cache_eq (h : localtime l.now = some tm)
    (hc : cache.lastSec = l.now → cache.text = .lit tm.text) :
    (l.format localtime cache).1 = { lastSec := l.now, text := .lit tm.text } := by
  show cache.refresh (formatTime localtime tstampBuffSize l.junk) l.now = _
  unfold TsCache.refresh
  by_cases hsec : l.now = cache.lastSec
  · rw [if_neg (not_not.mpr hsec), hsec, ← hc hsec.symm]
  · rw [if_pos hsec, formatTime_of_some h (Int.le_refl _)]

/-- 整形してある cache から先は、どの行にも整形し直したのと同じ文字列が渡る。 -/
theorem passedTimestamps_agree {lines : List LogLine} {tsBuffLen : Int} {junk : CStr}
    (hlen : (tstampBuffSize : Int) ≤ tsBuffLen)
    (hall : ∀ l ∈ lines, (localtime l.now).isSome)
    (hc : ∀ l ∈ lines.head?, ∀ tm, localtime l.now = some tm → cache.lastSec = l.now →
      cache.text = .lit tm.text) :
    List.Forall₂ (fun ts now => lmkGetTimestamp localtime false tsBuffLen junk now = some ts)
      (passedTimestamps localtime cache lines) (lines.map LogLine.now) := by
  induction lines generalizing cache with
  | nil => exact List.Forall₂.nil
  | cons l lines ih =>
    obtain ⟨tm, htm⟩ := Option.isSome_iff_exists.mp (hall l List.mem_cons_self)
    have hcache := format_cache_eq htm (hc l rfl tm htm)
    refine List.Forall₂.cons ?_ (ih (fun l' hl' => hall l' (List.mem_cons_of_mem _ hl')) ?_)
    · rw [lmkGetTimestamp_eq hlen, formatTime_of_some htm hlen, hcache]
    · -- 同じ秒が続く間は、この行の文字列がそのまま使われる
      intro l' _ tm' htm' hsec
      rw [hcache] at hsec ⊢
      rw [← show l.now = l'.now from hsec, htm] at htm'
      rw [Option.some.inj htm']

end

/-- 時刻だけを決めた呼び出し。 -/
def plainLine (now : Int) : LogLine :=
  { now, junk := .empty, fn := lmkDefaultFormat, out := fun _ => 0, off := 0, outSize := 0
    req := emptyRequest }

theorem map_now_plainLine (nows : List Int) : (nows.map plainLine).map LogLine.now = nows := by
  rw [List.map_map]
  exact List.map_id nows

/-- 最初の時刻が 0 なら、最初の行に渡る空の文字列は、整形したものと一致しない。 -/
theorem head_ne_zero_of_agrees {localtime : Int → Option Tm} {nows : List Int}
    (h : CacheAgrees localtime nows) : nows.head? ≠ some 0 := by
  intro hhead
  cases nows with
  | nil => cases hhead
  | cons now nows =>
    obtain rfl : now = 0 := Option.some.inj hhead
    have hfirst := h _ (map_now_plainLine _) tstampBuffSize (.lit [120]) (Int.le_refl _)
    have hts := (List.forall₂_cons.mp hfirst).1
    rw [lmkGetTimestamp_eq (Int.le_refl _)] at hts
    have hempty : formatTime localtime tstampBuffSize (.lit [120]) 0 = .empty := Option.some.inj hts
    cases htm : localtime 0 with
    | some tm =>
      rw [formatTime_of_some htm (Int.le_refl _)] at hempty
      exact lit_text_ne_empty tm hempty
    | none =>
      rw [formatTime_of_none htm] at hempty
      exact absurd hempty (by decide)

/-- `localtime_r` が失敗する時刻では、`lmk_get_timestamp` が作るものは定まらない。 -/
theorem isSome_of_agrees {localtime : Int → Option Tm} {nows : List Int}
    (h : CacheAgrees localtime nows) {now : Int} (hnow : now ∈ nows) :
    (localtime now).isSome := by
  by_contra hnone
  have htm : localtime now = none := Option.not_isSome_iff_eq_none.mp hnone
  obtain ⟨i, hi, rfl⟩ := List.getElem_of_mem hnow
  have hjunk : ∀ junk, ∃ hi' : i < (passedTimestamps localtime .empty (nows.map plainLine)).length,
      (passedTimestamps localtime .empty (nows.map plainLine)).get ⟨i, hi'⟩ = junk := by
    intro junk
    have hall := h _ (map_now_plainLine _) tstampBuffSize junk (Int.le_refl _)
    obtain ⟨hlen, hget⟩ := List.forall₂_iff_get.mp hall
    have hi' : i < (passedTimestamps localtime .empty (nows.map plainLine)).length := hlen ▸ hi
    have hts := hget i hi' hi
    rw [lmkGetTimestamp_eq (Int.le_refl _), List.get_eq_getElem, formatTime_of_none htm] at hts
    exact ⟨hi', (Option.some.inj hts).symm⟩
  obtain ⟨_, hempty⟩ := hjunk .empty
  obtain ⟨_, hlit⟩ := hjunk (.lit [120])
  exact absurd (hempty.symm.trans hlit) (by decide)

/--
時刻の cache が整形し直したのと同じになるのは、thread の最初の時刻が 0 でなく、
どの時刻でも `localtime_r` が成功するとき、そのときに限る。
-/
theorem cacheAgrees_iff (localtime : Int → Option Tm) (nows : List Int) :
    CacheAgrees localtime nows ↔
      nows.head? ≠ some 0 ∧ ∀ now ∈ nows, (localtime now).isSome := by
  constructor
  · intro h
    exact ⟨head_ne_zero_of_agrees h, fun now hnow => isSome_of_agrees h hnow⟩
  · rintro ⟨hhead, hall⟩ lines rfl tsBuffLen junk hlen
    refine passedTimestamps_agree hlen ?_ ?_
    · intro l hl
      exact hall l.now (List.mem_map_of_mem hl)
    · intro l hl tm _ hsec
      refine absurd ?_ hhead
      rw [List.head?_map, Option.mem_def.mp hl, Option.map_some]
      exact congrArg some hsec.symm

/-- UTC の time zone の、1970 年 1 月 1 日の最初の一分。 -/
def epochMinute (now : Int) : Option Tm :=
  if h : 0 ≤ now ∧ now < 60 then
    some { year := 70, mon := 0, mday := 1, hour := 0, min := 0, sec := now.toNat
           year_ge := by decide, year_lt := by decide, mon_lt := by decide, mday_le := by decide
           hour_lt := by decide, min_lt := by decide, sec_le := by omega }
  else none

/-- 最初の一行が時刻 0 に当たると、`1970-01-01 00:00:00` でなく空の文字列が渡る。 -/
theorem cacheAgrees_epoch_false :
    passedTimestamps epochMinute .empty [plainLine 0] = [.empty] ∧
      lmkGetTimestamp epochMinute false 32 .empty 0 =
        some (.lit (ascii "1970-01-01 00:00:00")) ∧
      ¬ CacheAgrees epochMinute [0] := by
  refine ⟨rfl, by decide, ?_⟩
  intro h
  have hall := h [plainLine 0] rfl 32 .empty (by decide)
  have hts := (List.forall₂_cons.mp hall).1
  exact absurd hts (by decide)

end Logmoko
