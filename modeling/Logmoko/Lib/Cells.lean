import Logmoko.Lib.StrBuf

/-!
# 大きさの決まった配列

C の配列を、添字の検査のある書き込みだけで変わる `Vector` として表す。
範囲の外への書き込みは `none` になる。`strncpy` は、写した後を決まった長さまで NUL で埋める。

* `Ends buf p` — 添字 `p` から始まる文字列は buffer の中で終わる
* `LastZero v` — 配列の最後の要素が NUL である。短く切る `strncpy` はこれを保つので、
  文字列はつねに配列の中で終わる（`LastZero.strncpy`）
* `text v` — 配列に入った文字列
* `Filled P zero v k` — 先頭の `k` 個を使い、残りが `zero` のままの配列
-/

namespace Cells

open StrBuf

variable {α : Type} {n i k p q : Nat} {v w : Vector α n} {a b : α} {buf src l : List UInt8}
  {dst dst' : Vector UInt8 n}

/-! ## 書き込み -/

/-- 要素 `i` に書く。 -/
def store (v : Vector α n) (i : Nat) (a : α) : Option (Vector α n) :=
  if h : i < n then some (v.set i a h) else none

/-- 要素 `i` を書き換える。 -/
def modifyAt (v : Vector α n) (i : Nat) (f : α → Option α) : Option (Vector α n) :=
  v[i]?.bind fun a => (f a).bind fun b => store v i b

theorem length_writeFront {v : Vector α n} {l : List α} (h : l.length ≤ n) :
    (l ++ v.toList.drop l.length).toArray.size = n := by
  rw [List.size_toArray, List.length_append, List.length_drop, Vector.length_toList]
  omega

/-- 先頭から列を書く。 -/
def writeFront (v : Vector α n) (l : List α) : Option (Vector α n) :=
  if h : l.length ≤ n then some ⟨(l ++ v.toList.drop l.length).toArray, length_writeFront h⟩
  else none

/-- 文字列の先頭の `k` byte を写し、足りない分を NUL で埋める。 -/
def strncpy (dst : Vector UInt8 n) (src : List UInt8) (k : Nat) : Option (Vector UInt8 n) :=
  writeFront dst (src.take k ++ List.replicate (k - src.length) 0)

theorem store_eq_some (h : i < n) (v : Vector α n) (a : α) : store v i a = some (v.set i a h) :=
  dif_pos h

theorem modifyAt_eq_some {f : α → Option α} (h : i < n) (hf : f v[i] = some b) :
    modifyAt v i f = some (v.set i b h) := by
  unfold modifyAt
  rw [Vector.getElem?_eq_getElem h, Option.bind_some, hf, Option.bind_some, store_eq_some h]

theorem writeFront_eq_some {l : List α} (h : l.length ≤ n) (v : Vector α n) :
    ∃ w, writeFront v l = some w ∧ w.toList = l ++ v.toList.drop l.length := by
  refine ⟨_, dif_pos h, ?_⟩
  rw [Vector.toList_mk]

/-! ## 配列の中の文字列 -/

/-- 添字 `p` から始まる文字列は、buffer の中で終わる。 -/
def Ends (buf : List UInt8) (p : Nat) : Prop := 0 ∈ buf.drop p

/-- 添字 `p` の文字列。buffer の中で終わらなければ読めない。 -/
def readStr (v : Vector UInt8 n) (p : Nat) : Option (List UInt8) :=
  if 0 ∈ v.toList.drop p then some (strAt v.toList p) else none

theorem readStr_eq_some (h : Ends dst.toList p) : readStr dst p = some (strAt dst.toList p) :=
  if_pos h

theorem Ends.lt (h : Ends buf p) : p + (strAt buf p).length < buf.length := by
  obtain ⟨r, hdrop, -⟩ := drop_eq_strAt_append buf p
  have hmem : 0 ∈ r := by
    unfold Ends at h
    rw [hdrop] at h
    exact (List.mem_append.mp h).resolve_left (zero_notMem_strAt buf p)
  have hlen := congrArg List.length hdrop
  rw [List.length_drop, List.length_append] at hlen
  have hpos := List.length_pos_of_mem hmem
  omega

/-- 文字列の途中から始まる文字列も、同じところで終わる。 -/
theorem Ends.add (h : Ends buf p) (hi : i ≤ (strAt buf p).length) : Ends buf (p + i) := by
  obtain ⟨r, hdrop, -⟩ := drop_eq_strAt_append buf p
  unfold Ends at h ⊢
  rw [hdrop] at h
  rw [← List.drop_drop, hdrop, List.drop_append_of_le_length hi]
  exact List.mem_append_right _
    ((List.mem_append.mp h).resolve_left (zero_notMem_strAt buf p))

theorem zero_mem_set (h : (0 : UInt8) ∈ l) (i : Nat) : 0 ∈ l.set i 0 := by
  induction l generalizing i with
  | nil => cases h
  | cons x l ih =>
    cases i with
    | zero => exact List.mem_cons_self
    | succ i =>
      rcases List.mem_cons.mp h with rfl | h
      · exact List.mem_cons_self
      · exact List.mem_cons_of_mem x (ih h i)

/-- NUL を書いても、文字列は buffer の中で終わる。 -/
theorem Ends.set (h : Ends buf p) (i : Nat) : Ends (buf.set i 0) p := by
  unfold Ends at h ⊢
  rw [List.drop_set]
  split
  · exact h
  · exact zero_mem_set h _

theorem strAt_of_ne_zero (hp : p < buf.length) (h : buf[p] ≠ 0) :
    strAt buf p = buf[p] :: strAt buf (p + 1) := by
  unfold strAt
  rw [List.drop_eq_getElem_cons hp, List.takeWhile_cons_of_pos (by simpa using h)]

theorem strAt_of_zero (hp : p < buf.length) (h : buf[p] = 0) : strAt buf p = [] := by
  unfold strAt
  rw [List.drop_eq_getElem_cons hp, List.takeWhile_cons_of_neg (by simp [h])]

theorem charAt_toList (hp : p < n) : charAt dst.toList p = dst[p] := by
  unfold charAt
  rw [List.getD_eq_getElem?_getD, Vector.getElem?_toList, Vector.getElem?_eq_getElem hp]
  rfl

/-! ## 最後の NUL -/

/-- 配列の最後の要素が NUL である。 -/
def LastZero (v : Vector UInt8 n) : Prop := v.toList.getLast? = some 0

/-- 配列に入った文字列。最後の要素は含めない。 -/
def text (v : Vector UInt8 n) : List UInt8 := strAt (v.toList.take (n - 1)) 0

theorem LastZero.ends (h : LastZero dst) : Ends dst.toList 0 := List.mem_of_getLast? h

theorem lastZero_replicate (hn : 0 < n) : LastZero (Vector.replicate n 0) := by
  unfold LastZero
  rw [Vector.toList_replicate, List.getLast?_replicate, if_neg (Nat.ne_of_gt hn)]

/-- 最後の NUL があれば、`text` は先頭から最初の NUL の手前までである。 -/
theorem LastZero.text (h : LastZero dst) : text dst = strAt dst.toList 0 := by
  obtain ⟨ys, hys⟩ := List.getLast?_eq_some_iff.mp h
  have hlen : ys.length = n - 1 := by
    have := congrArg List.length hys
    rw [Vector.length_toList, List.length_append, List.length_singleton] at this
    omega
  unfold Cells.text
  rw [hys, ← hlen, List.take_left]
  show ys.takeWhile _ = (ys ++ [0]).takeWhile _
  rw [List.takeWhile_append]
  split
  · next hall =>
    have hself := (List.takeWhile_prefix (l := ys) _).eq_of_length hall
    rw [hself]
    exact (List.append_nil ys).symm
  · rfl

theorem length_strncpy_bytes (src : List UInt8) (k : Nat) :
    (src.take k ++ List.replicate (k - src.length) 0).length = k := by
  rw [List.length_append, List.length_take, List.length_replicate]
  omega

theorem strncpy_eq_some (h : k ≤ n) (dst : Vector UInt8 n) (src : List UInt8) :
    ∃ dst', strncpy dst src k = some dst' ∧
      dst'.toList = src.take k ++ List.replicate (k - src.length) 0 ++ dst.toList.drop k := by
  have hlen := length_strncpy_bytes src k
  obtain ⟨w, hw, hlist⟩ := writeFront_eq_some (hlen.le.trans h) dst
  rw [hlen] at hlist
  exact ⟨w, hw, hlist⟩

/-- 最後の要素に届かない `strncpy` は、最後の NUL を残す。 -/
theorem LastZero.strncpy (h : LastZero dst) (hk : k < n)
    (hw : dst'.toList = src.take k ++ List.replicate (k - src.length) 0 ++ dst.toList.drop k) :
    LastZero dst' := by
  unfold LastZero at h ⊢
  rw [hw, List.getLast?_append, List.getLast?_drop, if_neg (by rw [Vector.length_toList]; omega), h]
  rfl

theorem LastZero.set (h : LastZero dst) (hi : i < n) : LastZero (dst.set i 0 hi) := by
  unfold LastZero at h ⊢
  rw [Vector.toList_set]
  rw [List.getLast?_eq_getElem?] at h ⊢
  rw [List.length_set, List.getElem?_set]
  split
  · next heq =>
    subst heq
    rw [if_pos (List.getElem?_eq_some_iff.mp h).1]
  · exact h

/-- NUL を含まない列の後ろを NUL で埋めた列の文字列。 -/
theorem strAt_padded (h : 0 ∉ l) (m : Nat) (r : List UInt8) (hr : m = 0 → strAt r 0 = []) :
    strAt (l ++ List.replicate m 0 ++ r) 0 = l := by
  rw [List.append_assoc]
  refine takeWhile_append_of_nil h ?_
  cases m with
  | zero => exact hr rfl
  | succ m => rfl

/-- 写した後の文字列は、写した分である。 -/
theorem text_strncpy (h : 0 ∉ src)
    (hw : dst'.toList = src.take (n - 1) ++ List.replicate (n - 1 - src.length) 0
      ++ dst.toList.drop (n - 1)) : text dst' = src.take (n - 1) := by
  have hfront : dst'.toList.take (n - 1)
      = src.take (n - 1) ++ List.replicate (n - 1 - src.length) 0 ++ [] := by
    rw [hw, List.take_left' (length_strncpy_bytes src (n - 1)), List.append_nil]
  unfold text
  rw [hfront]
  exact strAt_padded (fun hm => h (List.mem_of_mem_take hm)) _ [] fun _ => rfl

/-- 写した直後に NUL を書けば、短い配列にも切った文字列が入る。 -/
theorem text_strncpy_set (h : 0 ∉ src) (hk : k < n) (hsrc : k ≤ src.length)
    (hw : dst'.toList = src.take k ++ List.replicate (k - src.length) 0 ++ dst.toList.drop k) :
    text (dst'.set k 0 hk) = src.take k := by
  have hlen : (src.take k).length = k := List.length_take_of_le hsrc
  have hdrop : dst.toList.drop k ≠ [] := by
    refine List.ne_nil_of_length_pos ?_
    rw [List.length_drop, Vector.length_toList]
    omega
  obtain ⟨x, r, hr⟩ := List.exists_cons_of_ne_nil hdrop
  have hset : (dst'.set k 0 hk).toList = src.take k ++ 0 :: r := by
    rw [Vector.toList_set, hw, Nat.sub_eq_zero_of_le hsrc, List.replicate_zero, List.append_nil,
      List.set_append_right _ _ hlen.le, hlen, Nat.sub_self, hr, List.set_cons_zero]
  have hfront : (src.take k ++ 0 :: r).take (n - 1) = src.take k ++ (0 :: r).take (n - 1 - k) := by
    rw [List.take_append, hlen, List.take_of_length_le (by rw [hlen]; omega)]
  unfold text
  rw [hset, hfront]
  refine takeWhile_append_of_nil (fun hm => h (List.mem_of_mem_take hm)) ?_
  cases n - 1 - k with
  | zero => rfl
  | succ j => rfl

/-! ## 先頭から使う配列 -/

/--
先頭の `k` 個を使っている配列。要素はすべて `P` を満たし、使っていない要素は `zero` のままである。
-/
structure Filled (P : α → Prop) (zero : α) (v : Vector α n) (k : Nat) : Prop where
  count : k ≤ n
  each : ∀ i (h : i < n), P v[i]
  unused : ∀ i (h : i < n), k ≤ i → v[i] = zero

/-- 使っている要素の列。 -/
def used (v : Vector α n) (k : Nat) : List α := v.toList.take k

section Filled

variable {P P' : α → Prop} {zero : α}

theorem filled_replicate (h : P zero) : Filled P zero (Vector.replicate n zero) 0 where
  count := Nat.zero_le n
  each i hi := by
    rw [Vector.getElem_replicate]
    exact h
  unused i hi _ := Vector.getElem_replicate hi

theorem Filled.mono (h : Filled P zero v k) (hP : ∀ a, P a → P' a) : Filled P' zero v k :=
  ⟨h.count, fun i hi => hP _ (h.each i hi), h.unused⟩

/-- 使っている要素を書き換える。 -/
theorem Filled.set (h : Filled P zero v k) (hi : i < n) (hik : i < k) (ha : P a) :
    Filled P zero (v.set i a hi) k where
  count := h.count
  each j hj := by
    rw [Vector.getElem_set]
    split
    · exact ha
    · exact h.each j hj
  unused j hj hkj := by
    rw [Vector.getElem_set, if_neg (Nat.ne_of_lt (Nat.lt_of_lt_of_le hik hkj))]
    exact h.unused j hj hkj

/-- 使う要素を一つ増やす。 -/
theorem Filled.succ (h : Filled P zero v k) (hk : k < n) : Filled P zero v (k + 1) where
  count := hk
  each := h.each
  unused i hi hle := h.unused i hi (Nat.le_of_succ_le hle)

end Filled

theorem length_used (h : k ≤ n) (v : Vector α n) : (used v k).length = k := by
  unfold used
  rw [List.length_take, Vector.length_toList]
  exact Nat.min_eq_left h

theorem length_used_le (v : Vector α n) (k : Nat) : (used v k).length ≤ n := by
  unfold used
  rw [List.length_take, Vector.length_toList]
  exact Nat.min_le_right k n

theorem used_set (hi : i < n) : used (v.set i a hi) k = (used v k).set i a := by
  unfold used
  rw [Vector.toList_set, List.take_set]

theorem used_succ (hk : k < n) : used v (k + 1) = used v k ++ [v[k]] := by
  unfold used
  rw [List.take_add_one, Vector.getElem?_toList, Vector.getElem?_eq_getElem hk]
  rfl

/-- 次の要素を書いて、使う要素を一つ増やす。 -/
theorem used_push (hk : k < n) : used (v.set k a hk) (k + 1) = used v k ++ [a] := by
  rw [used_succ hk, used_set, Vector.getElem_set_self,
    List.set_eq_of_length_le (length_used hk.le v).le]

theorem getElem?_used (hik : i < k) (hi : i < n) : (used v k)[i]? = some v[i] := by
  unfold used
  rw [List.getElem?_take_of_lt hik, Vector.getElem?_toList, Vector.getElem?_eq_getElem hi]

end Cells
