import Mathlib.Logic.Function.Basic
import Mathlib.Data.List.Basic

/-!
# 名前から内容への写像としての file system

名前 `κ` から内容の列への部分写像で file system を表す。名前が無いことは `none` である。

* `rename` — 移し先を置き換える。元が無ければ何もしない
* `truncate` / `touch` — 空にして開くことと、無ければ作って開くこと
* `append` — 末尾への書き込み
* `OpenFile` — buffer を持つ stream。渡した分がいつ file に届くかは決まっていない
* `Ages` — 番号を付けた名前が、新しい順の内容を順に持つこと。番号をずらす回転の不変量である
-/

namespace Files

variable {κ α : Type*} [DecidableEq κ]

/-- `src` の内容を `dst` に移す。 -/
def rename (src dst : κ) (fs : κ → Option (List α)) : κ → Option (List α) :=
  match fs src with
  | none => fs
  | some xs => Function.update (Function.update fs src none) dst (some xs)

/-- 空の file にする。 -/
def truncate (p : κ) (fs : κ → Option (List α)) : κ → Option (List α) :=
  Function.update fs p (some [])

/-- 無ければ空の file を作る。 -/
def touch (p : κ) (fs : κ → Option (List α)) : κ → Option (List α) :=
  Function.update fs p (some ((fs p).getD []))

/-- 末尾に書き足す。 -/
def append (p : κ) (xs : List α) (fs : κ → Option (List α)) : κ → Option (List α) :=
  Function.update fs p (some ((fs p).getD [] ++ xs))

variable {fs : κ → Option (List α)} {src dst p q : κ} {xs ys : List α}

theorem rename_dst (h : fs src = some xs) : rename src dst fs dst = some xs := by
  unfold rename
  rw [h]
  exact Function.update_self _ _ _

theorem rename_of_ne (hs : p ≠ src) (hd : p ≠ dst) : rename src dst fs p = fs p := by
  unfold rename
  cases fs src with
  | none => rfl
  | some xs =>
    dsimp only
    rw [Function.update_of_ne hd, Function.update_of_ne hs]

@[simp] theorem truncate_self : truncate p fs p = some [] := Function.update_self _ _ _

theorem truncate_of_ne (h : q ≠ p) : truncate p fs q = fs q := Function.update_of_ne h _ _

@[simp] theorem touch_self : touch p fs p = some ((fs p).getD []) := Function.update_self _ _ _

theorem touch_of_ne (h : q ≠ p) : touch p fs q = fs q := Function.update_of_ne h _ _

theorem append_self (h : fs p = some xs) : append p ys fs p = some (xs ++ ys) := by
  unfold append
  rw [Function.update_self, h]
  rfl

theorem append_of_ne (h : q ≠ p) : append p ys fs q = fs q := Function.update_of_ne h _ _

theorem append_append (xs ys : List α) :
    append p ys (append p xs fs) = append p (xs ++ ys) fs := by
  unfold append
  rw [Function.update_idem, Function.update_self, Option.getD_some, List.append_assoc]

theorem append_nil (h : fs p = some xs) : append p [] fs = fs := by
  unfold append
  rw [h, Option.getD_some, List.append_nil]
  exact Function.update_eq_self_iff.mpr h.symm

/-! ## buffer を持つ stream -/

/-- 開いている stream。`held` は、渡されたが、まだ file に届いていない分である。 -/
structure OpenFile (κ α : Type*) where
  path : κ
  held : List α

namespace OpenFile

variable {st : OpenFile κ α} {n : Nat}

/-- `xs` を渡し、溜まった分の先頭 `n` 個までが file に届いた後の stream。 -/
def push (st : OpenFile κ α) (xs : List α) (n : Nat) : OpenFile κ α :=
  { st with held := (st.held ++ xs).drop n }

/-- `xs` を渡し、溜まった分の先頭 `n` 個までが file に届いた後の file system。 -/
def spill (st : OpenFile κ α) (xs : List α) (n : Nat) (fs : κ → Option (List α)) :
    κ → Option (List α) :=
  append st.path ((st.held ++ xs).take n) fs

/-- 溜まった分がすべて届いたとしたときの file system。 -/
def settle (st : OpenFile κ α) (fs : κ → Option (List α)) : κ → Option (List α) :=
  append st.path st.held fs

omit [DecidableEq κ] in
@[simp] theorem push_path : (st.push xs n).path = st.path := rfl

omit [DecidableEq κ] in
theorem push_held_eq_nil (h : (st.held ++ xs).length ≤ n) : (st.push xs n).held = [] :=
  List.drop_of_length_le h

theorem settle_self (h : fs st.path = some ys) : st.settle fs st.path = some (ys ++ st.held) :=
  append_self h

theorem settle_of_ne (h : q ≠ st.path) : st.settle fs q = fs q := append_of_ne h

theorem isSome_spill (st : OpenFile κ α) :
    (st.spill xs n fs st.path).isSome = true := by
  unfold spill append
  rw [Function.update_self]
  rfl

/-- いつ届くかによらず、渡した分は末尾に加わる。 -/
theorem settle_push :
    (st.push xs n).settle (st.spill xs n fs) = append st.path xs (st.settle fs) := by
  unfold settle spill
  rw [push_path, append_append, append_append, push, List.take_append_drop]

/-- 届かせるだけでは、すべて届いたとしたときの内容は変わらない。 -/
theorem settle_flush : (st.push [] n).settle (st.spill [] n fs) = st.settle fs := by
  rw [settle_push]
  unfold settle
  rw [append_append, List.append_nil]

/-- 溜まった分がすべて届くなら、stream を閉じても失われるものはない。 -/
theorem spill_flush (h : st.held.length ≤ n) : st.spill [] n fs = st.settle fs := by
  unfold spill settle
  rw [List.append_nil, List.take_of_length_le h]

/-- file の内容と溜まった分を合わせた長さは、渡した分だけ増える。 -/
theorem length_push (h : fs st.path = some ys) (xs : List α) (n : Nat) :
    ∃ zs, st.spill xs n fs st.path = some zs ∧
      zs.length + (st.push xs n).held.length = ys.length + st.held.length + xs.length := by
  refine ⟨_, append_self h, ?_⟩
  rw [List.length_append, Nat.add_assoc, push, ← List.length_append, List.take_append_drop,
    List.length_append, Nat.add_assoc]

end OpenFile

/-! ## 番号を付けた名前の回転 -/

/--
番号 `lo` 以上 `hi` 未満の名前が、新しい順の内容 `newest` を `age` だけずらして持つ。
内容の足りない番号については何も言わない。
-/
def Ages (name : Nat → κ) (fs : κ → Option (List α)) (newest : List (List α))
    (lo hi age : Nat) : Prop :=
  ∀ i, lo ≤ i → i < hi → i + age < newest.length → fs (name i) = newest[i + age]?

section Ages

variable {name : Nat → κ} {newest : List (List α)} {n : Nat}

omit [DecidableEq κ] in
/-- 新しい内容が始まると、持っている内容はどれも一つ古くなる。 -/
theorem Ages.cons {hi : Nat} (h : Ages name fs newest 0 hi 0) (x : List α) :
    Ages name fs (x :: newest) 0 hi 1 := by
  intro i h0 hi' hl
  rw [List.getElem?_cons_succ]
  exact h i h0 hi' (by simpa using hl)

omit [DecidableEq κ] in
/-- 番号の順に読むと、新しい順の内容の先頭になる。 -/
theorem Ages.read {hi : Nat} (h : Ages name fs newest 0 hi 0) {m : Nat} (hhi : m ≤ hi)
    (hl : m ≤ newest.length) :
    ((List.range m).map fun i => (fs (name i)).getD []) = newest.take m := by
  refine List.ext_getElem? ?_
  intro i
  by_cases hi : i < m
  · rw [List.getElem?_map, List.getElem?_range hi, List.getElem?_take_of_lt hi, Option.map_some,
      h i (Nat.zero_le i) (by omega) (by omega), Nat.add_zero,
      List.getElem?_eq_getElem (by omega)]
    rfl
  · rw [List.getElem?_eq_none (by simpa using hi), List.getElem?_eq_none]
    rw [List.length_take]
    omega

omit [DecidableEq κ] in
theorem Ages.mono {lo hi lo' hi' age : Nat} (h : Ages name fs newest lo hi age) (hlo : lo ≤ lo')
    (hhi : hi' ≤ hi) : Ages name fs newest lo' hi' age := fun i h₁ h₂ =>
  h i (by omega) (by omega)

/-- 番号 `i` を `i + 1` に移すと、ずらし終えた範囲が一つ広がる。 -/
theorem Ages.rename (hinj : ∀ a b, a ≤ n → b ≤ n → name a = name b → a = b) {i : Nat}
    (hi : i + 1 ≤ n) (hold : Ages name fs newest 0 (i + 1) 1)
    (hnew : Ages name fs newest (i + 2) (n + 1) 0) :
    Ages name (rename (name i) (name (i + 1)) fs) newest 0 i 1 ∧
      Ages name (rename (name i) (name (i + 1)) fs) newest (i + 1) (n + 1) 0 := by
  have hne : ∀ a b, a ≤ n → b ≤ n → a ≠ b → name a ≠ name b := fun a b ha hb hab h =>
    hab (hinj a b ha hb h)
  constructor
  · intro j h0 hj hl
    rw [rename_of_ne (hne j i (by omega) (by omega) (by omega))
      (hne j (i + 1) (by omega) hi (by omega))]
    exact hold j h0 (by omega) hl
  · intro j hj hjn hl
    rcases Nat.eq_or_lt_of_le hj with rfl | hlt
    · obtain ⟨xs, hxs⟩ : ∃ xs, newest[i + 1]? = some xs := ⟨_, List.getElem?_eq_getElem hl⟩
      rw [rename_dst ((hold i (by omega) (by omega) hl).trans hxs), hxs]
    · rw [rename_of_ne (hne j i (by omega) (by omega) (by omega))
        (hne j (i + 1) (by omega) hi (by omega))]
      exact hnew j hlt hjn hl

/-- 番号 0 を空にすると、ずらし終えた内容の先頭に空の内容が付く。 -/
theorem Ages.truncate (hinj : ∀ a b, a ≤ n → b ≤ n → name a = name b → a = b)
    (h : Ages name fs ([] :: newest) 1 (n + 1) 0) :
    Ages name (truncate (name 0) fs) ([] :: newest) 0 (n + 1) 0 := by
  intro i _ hi hl
  rcases Nat.eq_zero_or_pos i with rfl | hpos
  · exact truncate_self
  · have hne : i ≠ 0 := by omega
    rw [truncate_of_ne fun heq => hne (hinj i 0 (by omega) (by omega) heq)]
    exact h i hpos hi hl

/-- 番号 0 への書き足しは、最も新しい内容だけを伸ばす。 -/
theorem Ages.append (hinj : ∀ a b, a ≤ n → b ≤ n → name a = name b → a = b)
    (h : Ages name fs (xs :: newest) 0 (n + 1) 0) (ys : List α) :
    Ages name (append (name 0) ys fs) ((xs ++ ys) :: newest) 0 (n + 1) 0 := by
  intro i h0 hi hl
  rcases Nat.eq_zero_or_pos i with rfl | hpos
  · exact append_self (h 0 h0 hi (by simp))
  · have hne : i ≠ 0 := by omega
    rw [append_of_ne fun heq => hne (hinj i 0 (by omega) (by omega) heq)]
    obtain ⟨j, rfl⟩ := Nat.exists_eq_succ_of_ne_zero hne
    exact h (j + 1) h0 hi hl

end Ages

end Files
