import Mathlib.Data.List.Basic
import Mathlib.Data.List.GetD
import Mathlib.Logic.Nontrivial.Basic

/-!
# 番地から値への写像としての buffer

C の配列への書き込みを、添字から値への写像 `Nat → α` の上の操作として表す。
境界は写像の側には無い。呼び出し側が、書いた範囲を別に述べる。

* `read` — 連続した範囲の値
* `overlay` — 書き込まれた位置だけを差し替える。書かれなかった位置には前の値が残る
* `write` — 列を続けて書き込む（`memcpy`）
-/

namespace Buffer

variable {α : Type*}

/-- 添字 `off` から `len` 個の値。 -/
def read (buf : Nat → α) (off len : Nat) : List α := (List.range len).map fun i => buf (off + i)

/-- 位置 `off` を先頭とする部分的な書き込み。 -/
def overlay (buf : Nat → α) (off : Nat) (w : Nat → Option α) : Nat → α := fun i =>
  if off ≤ i then (w (i - off)).getD (buf i) else buf i

/-- 位置 `off` から列 `xs` を続けて書き込む。 -/
def write (buf : Nat → α) (off : Nat) (xs : List α) : Nat → α := overlay buf off fun i => xs[i]?

variable {buf : Nat → α} {off len m n : Nat} {w : Nat → Option α} {xs : List α}

@[simp] theorem length_read : (read buf off len).length = len := by simp [read]

@[simp] theorem read_zero : read buf off 0 = [] := rfl

theorem getElem?_read (buf : Nat → α) (off : Nat) {i : Nat} (hi : i < len) :
    (read buf off len)[i]? = some (buf (off + i)) := by
  simp [read, hi]

theorem read_add : read buf off (m + n) = read buf off m ++ read buf (off + m) n := by
  simp only [read, List.range_add, List.map_append, List.map_map]
  refine congrArg _ (List.map_congr_left ?_)
  intro i _
  simp [Nat.add_assoc]

/-- 二つの範囲の値は、添字ごとに等しければ等しい。 -/
theorem read_congr {buf' : Nat → α} {off' : Nat}
    (h : ∀ i < len, buf (off + i) = buf' (off' + i)) : read buf off len = read buf' off' len := by
  refine List.map_congr_left ?_
  intro i hi
  exact h i (List.mem_range.mp hi)

theorem take_read (h : m ≤ n) : (read buf off n).take m = read buf off m := by
  obtain ⟨k, rfl⟩ := Nat.exists_eq_add_of_le h
  rw [read_add, List.take_append_of_le_length (by simp), List.take_of_length_le (by simp)]

theorem drop_read (h : m ≤ n) : (read buf off n).drop m = read buf (off + m) (n - m) := by
  obtain ⟨k, rfl⟩ := Nat.exists_eq_add_of_le h
  rw [read_add, List.drop_append_of_le_length (by simp), List.drop_of_length_le (by simp),
    List.nil_append, Nat.add_sub_cancel_left]

/-! ## 書き込みの後 -/

theorem overlay_of_lt {i : Nat} (h : i < off) : overlay buf off w i = buf i := by
  rw [overlay, if_neg (by omega)]

theorem overlay_add (i : Nat) : overlay buf off w (off + i) = (w i).getD (buf (off + i)) := by
  rw [overlay, if_pos (by omega), Nat.add_sub_cancel_left]

/-- 書き込みより前の範囲は変わらない。 -/
theorem read_overlay_before {o : Nat} (h : off + len ≤ o) :
    read (overlay buf o w) off len = read buf off len :=
  read_congr fun _ _ => overlay_of_lt (by omega)

/-- 書き込まれた範囲を読むと、書いた列になる。 -/
theorem read_overlay_self (h : ∀ i x, xs[i]? = some x → w i = some x) :
    read (overlay buf off w) off xs.length = xs := by
  refine List.ext_getElem? ?_
  intro i
  by_cases hi : i < xs.length
  · rw [getElem?_read _ _ hi, overlay_add, h i xs[i] (List.getElem?_eq_getElem hi),
      List.getElem?_eq_getElem hi]
    rfl
  · rw [List.getElem?_eq_none (by simpa using hi), List.getElem?_eq_none (by simpa using hi)]

/-- 前の内容によらず `xs` が読めるなら、`xs` はすべて書き込まれたものである。 -/
theorem written_of_forall_read [Nontrivial α]
    (h : ∀ buf : Nat → α, read (overlay buf off w) off len = xs) {i : Nat} {x : α}
    (hx : xs[i]? = some x) : w i = some x := by
  have hlen : len = xs.length := by
    obtain ⟨c, -⟩ := exists_pair_ne α
    rw [← h fun _ => c, length_read]
  have hi : i < len := hlen ▸ (List.getElem?_eq_some_iff.mp hx).1
  have hget : ∀ c : α, (w i).getD c = x := by
    intro c
    have := getElem?_read (overlay (fun _ => c) off w) off hi
    rw [h, hx, overlay_add] at this
    exact (Option.some.inj this).symm
  obtain ⟨c, hc⟩ := exists_ne x
  cases hw : w i with
  | none =>
    rw [hw] at hget
    exact absurd (hget c) hc
  | some y =>
    rw [hw] at hget
    exact congrArg some (hget c)

@[simp] theorem read_write_self : read (write buf off xs) off xs.length = xs :=
  read_overlay_self fun _ _ h => h

theorem read_write_before {o : Nat} (h : off + len ≤ o) :
    read (write buf o xs) off len = read buf off len := read_overlay_before h

/-- 書き込みより後ろの範囲は変わらない。 -/
theorem read_write_after {o : Nat} (h : o + xs.length ≤ off) :
    read (write buf o xs) off len = read buf off len := by
  refine read_congr ?_
  intro i _
  rw [write, overlay, if_pos (by omega), List.getElem?_eq_none (by omega)]
  rfl

end Buffer
