import Mathlib.Data.List.Basic

/-!
# C の文字列

`char *` が指す文字列を、NUL を含まない byte 列として表す。
NUL を含まないことを構造体が持つので、`strcmp` の一致は byte 列の一致である。

大文字小文字を区別しない比較（`strcasecmp`）は "C" locale のものである。
-/

namespace Logmoko

/-- C の文字列。終端の NUL は含めない。 -/
structure CStr where
  bytes : List UInt8
  noNul : 0 ∉ bytes
deriving DecidableEq

/-- 文字列の長さ。`strlen` にあたる。 -/
def CStr.length (s : CStr) : Nat := s.bytes.length

/-- 文字列の literal。NUL の手前までである。 -/
def CStr.lit (bytes : List UInt8) : CStr :=
  ⟨bytes.takeWhile (· ≠ 0), fun h => by simpa using List.all_eq_true.mp List.all_takeWhile 0 h⟩

/-- 空の文字列。 -/
def CStr.empty : CStr := ⟨[], by decide⟩

/-- ASCII の大文字を小文字にする。 -/
def toLower (b : UInt8) : UInt8 := if 65 ≤ b ∧ b ≤ 90 then b + 32 else b

/-- 大文字小文字を区別せずに等しい。`strcasecmp` が 0 を返すことにあたる。 -/
def CStr.strcasecmp (s : CStr) (word : List UInt8) : Bool :=
  s.bytes.map toLower == word.map toLower

/-- 先頭の `n` byte。 -/
def CStr.take (s : CStr) (n : Nat) : CStr :=
  ⟨s.bytes.take n, fun h => s.noNul (List.mem_of_mem_take h)⟩

/-- 先頭の `n` byte を除いた残り。 -/
def CStr.drop (s : CStr) (n : Nat) : CStr :=
  ⟨s.bytes.drop n, fun h => s.noNul (List.mem_of_mem_drop h)⟩

theorem CStr.take_of_length_le {s : CStr} {n : Nat} (h : s.length ≤ n) : s.take n = s := by
  obtain ⟨bytes, noNul⟩ := s
  simp only [CStr.take, CStr.mk.injEq]
  exact List.take_of_length_le h

end Logmoko
