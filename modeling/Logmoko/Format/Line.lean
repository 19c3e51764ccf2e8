import Logmoko.Format.Model

/-!
# 書式関数が一行を書くこと

任意の書式関数は、返り値と書いた内容が食い違ってよく、buffer の大きさで振る舞いを変えてもよい。
`Formatter.Yields` は、大きさ `size` の buffer に対して行 `line` を過不足なく書くことを述べる。
`snprintf` で一度に書く書式関数は、行が収まる限りこれを満たす。
-/

namespace Logmoko

/-- 大きさ `size` の buffer を渡すと、切り詰めた返り値が `line` の長さで、先頭に `line` が書かれる。 -/
structure Formatter.Yields (fn : Formatter) (args : FormatArgs) (size : Nat)
    (line : List UInt8) : Prop where
  length : clampLength (fn.call size args).ret size = line.length
  written : ∀ i x, (line)[i]? = some x → (fn.call size args).written i = some x

variable {fn : Formatter} {args : FormatArgs} {timestamp : CStr} {req : LogRequest}
  {out : Nat → UInt8} {off size : Nat} {line : List UInt8}

theorem Formatter.Yields.formatLine_fst (h : fn.Yields (formatArgs timestamp req) size line) :
    (formatLine fn timestamp out off size req).1 = line.length := h.length

/-- 行は buffer の中のどの位置に書いても同じである。 -/
theorem Formatter.Yields.read_formatLine (h : fn.Yields (formatArgs timestamp req) size line) :
    Buffer.read (formatLine fn timestamp out off size req).2 off line.length = line :=
  Buffer.read_overlay_self h.written

/-- 行より前にある byte は変わらない。 -/
theorem read_formatLine_before {o len : Nat} (h : o + len ≤ off) :
    Buffer.read (formatLine fn timestamp out off size req).2 o len = Buffer.read out o len :=
  Buffer.read_overlay_before h

/-- 長さは常に buffer に収まる。 -/
theorem formatLine_fst_lt (fn : Formatter) (timestamp : CStr) (out : Nat → UInt8) (off : Nat)
    (req : LogRequest) (h : 0 < size) :
    (formatLine fn timestamp out off size req).1 < size := clampLength_lt h

/-! ## `snprintf` による書式 -/

theorem snprintf_written {text : List UInt8} {i : Nat} {x : UInt8} (h : text.length < size)
    (hx : text[i]? = some x) : (snprintf size text).written i = some x := by
  have hi : i < text.length := (List.getElem?_eq_some_iff.mp hx).1
  show (if i < min text.length (size - 1) then text[i]? else _) = some x
  rw [if_pos (by omega), hx]

/-- 展開した文字列が収まれば、そのまま一行になる。 -/
theorem Formatter.ofText_yields {text : FormatArgs → List UInt8}
    (h : (text args).length < size) : (Formatter.ofText text).Yields args size (text args) where
  length := clampLength_of_lt h
  written _ _ hx := snprintf_written h hx

end Logmoko
