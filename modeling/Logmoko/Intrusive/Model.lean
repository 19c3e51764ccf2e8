import Logmoko.Lib.Links

/-!
# `logmoko_list` の関数

`struct lmk_list` を先頭に埋め込む intrusive な双方向 list である。
引数の pointer は `Option α` で、`none` が NULL を表す。
NULL や解放された番地の先を読み書きすると、結果は `none` になる。

* `lmkInitList` / `lmkInsertList` / `lmkRemoveList` — link の store を source の順に並べたもの
* `lmkForEachEntry` — `LMK_FOR_EACH_ENTRY` の loop
* `removingBody` — `LMK_SAVE_CURSOR` と `LMK_RESTORE_CURSOR` の間で node を外す本体
-/

namespace Logmoko

open Links

variable {α σ : Type} [DecidableEq α]

/-- 番兵を自分自身につなぐ。 -/
def lmkInitList (h : Heap α) (list : Option α) : Option (Heap α) :=
  match list with
  | none => some h
  | some _ => do
    let h ← h.setPrev list list
    h.setNext list list

/-- 空なら 1。 -/
def lmkIsListEmpty (h : Heap α) (list : Option α) : Option Int :=
  match list with
  | none => some 0
  | some _ => do
    let node ← h.load list
    return if node.next = list then 1 else 0

/-- 末尾への追加。 -/
def lmkInsertList (h : Heap α) (list entry : Option α) : Option (Heap α) :=
  match list, entry with
  | some _, some _ => do
    let node ← h.load list
    let h ← h.setPrev entry node.prev
    let h ← h.setNext entry list
    let node ← h.load list
    let h ← h.setNext node.prev entry
    h.setPrev list entry
  | _, _ => some h

/-- 取り外し。自分自身につながった entry はそのままにする。 -/
def lmkRemoveList (h : Heap α) (entry : Option α) : Option (Heap α) :=
  match entry with
  | none => some h
  | some _ => do
    let node ← h.load entry
    if node.next ≠ entry then
      let h ← h.setNext node.prev node.next
      let node ← h.load entry
      h.setPrev node.next node.prev
    else
      return h

/--
`LMK_FOR_EACH_ENTRY` の loop。本体は cursor を書き換えてよい。
`heapOf` は本体の状態から link の memory を取り出す。燃料が尽きれば `none` である。
-/
def forEachFrom (heapOf : σ → Heap α) (list : Option α)
    (body : σ → Option α → Option (σ × Option α)) : Nat → Option α → σ → Option σ
  | 0, cursor, s => if cursor = list then some s else none
  | fuel + 1, cursor, s =>
    if cursor = list then some s
    else do
      let (s, cursor) ← body s cursor
      let node ← (heapOf s).load cursor
      forEachFrom heapOf list body fuel node.next s

/-- 番兵の `next` から始める loop。 -/
def lmkForEachEntry (heapOf : σ → Heap α) (list : Option α)
    (body : σ → Option α → Option (σ × Option α)) (fuel : Nat) (s : σ) : Option σ := do
  let node ← (heapOf s).load list
  forEachFrom heapOf list body fuel node.next s

/-- 番兵を除いた node の個数。 -/
def lmkGetListSize (h : Heap α) (list : Option α) (fuel : Nat) : Option Nat :=
  match list with
  | none => some 0
  | some _ => lmkForEachEntry (fun _ => h) list (fun size cursor => some (size + 1, cursor)) fuel 0

/--
今の node を外す本体。外した node を `visited` に控え、`dispose` が後始末をする
（`lmk_free` なら番地の割り当てが消える）。
-/
def removingBody (dispose : Heap α → α → Heap α) (s : Heap α × List α) (cursor : Option α) :
    Option ((Heap α × List α) × Option α) := do
  let node ← s.1.load cursor
  let saved := node.prev
  let h ← lmkRemoveList s.1 cursor
  let x ← cursor
  return ((dispose h x, s.2 ++ [x]), saved)

/-! ## 一つの呼び出しが変えるもの -/

variable {h : Heap α} {hd x e : α} {xs ys zs : List α}

theorem lmkInitList_spec (hx : (h x).isSome) :
    ∃ h', lmkInitList h (some x) = some h' ∧ SameCells h h' ∧
      (∀ y, h'.next y = if y = x then some x else h.next y) ∧
      ∀ y, h'.prev y = if y = x then some x else h.prev y := by
  obtain ⟨h₁, e₁, c₁, p₁, n₁⟩ := exists_setPrev h hx (some x)
  obtain ⟨h₂, e₂, c₂, n₂, p₂⟩ := exists_setNext h₁ ((c₁ x).trans hx) (some x)
  refine ⟨h₂, ?_, c₁.trans c₂, ?_, ?_⟩
  · simp only [lmkInitList, e₁, e₂, Option.bind_eq_bind, Option.bind_some]
  · intro y
    rw [n₂, n₁]
  · intro y
    rw [p₂, p₁]

theorem lmkIsListEmpty_spec (hc : Circular h hd xs) :
    lmkIsListEmpty h (some hd) = some (if xs = [] then 1 else 0) := by
  obtain ⟨d, hd', hn⟩ := next_eq_some.mp hc.next.first
  simp only [lmkIsListEmpty, load_some, hd', hn, Option.bind_eq_bind, Option.bind_some,
    Option.pure_def, Option.some.injEq]
  cases xs with
  | nil =>
    show (if hd = hd then (1 : Int) else 0) = _
    rw [if_pos rfl, if_pos rfl]
  | cons x xs =>
    have hne : x ≠ hd := fun heq => (List.nodup_cons.mp hc.nodup).1 (heq ▸ List.mem_cons_self)
    rw [if_neg (by simpa using hne), if_neg (List.cons_ne_nil x xs)]

theorem lmkInsertList_spec (hc : Circular h hd xs) (hcell : (h e).isSome) (he : e ∉ hd :: xs) :
    ∃ h', lmkInsertList h (some hd) (some e) = some h' ∧ SameCells h h' ∧
      (∀ y, h'.next y =
        if y = xs.getLastD hd then some e else if y = e then some hd else h.next y) ∧
      ∀ y, h'.prev y =
        if y = hd then some e else if y = e then some (xs.getLastD hd) else h.prev y := by
  have hehd : hd ≠ e := fun heq => he (heq ▸ List.mem_cons_self)
  have hlast : (h (xs.getLastD hd)).isSome := hc.next.isSome List.getLastD_mem_cons
  obtain ⟨d, hdcell, hdprev⟩ := prev_eq_some.mp hc.prev_head
  obtain ⟨h₁, e₁, c₁, p₁, n₁⟩ := exists_setPrev h hcell (some (xs.getLastD hd))
  obtain ⟨h₂, e₂, c₂, n₂, p₂⟩ := exists_setNext h₁ ((c₁ e).trans hcell) (some hd)
  -- 二度目に読む `list->prev` も、`entry` への二つの store では変わっていない
  have hprev₂ : h₂.prev hd = some (xs.getLastD hd) := by
    rw [p₂, p₁, if_neg hehd, hc.prev_head]
  obtain ⟨d₂, hd₂cell, hd₂prev⟩ := prev_eq_some.mp hprev₂
  have c₁₂ := c₁.trans c₂
  obtain ⟨h₃, e₃, c₃, n₃, p₃⟩ :=
    exists_setNext h₂ ((c₁₂ (xs.getLastD hd)).trans hlast) (some e)
  have c₁₃ := c₁₂.trans c₃
  have hhd : (h hd).isSome := hc.next.isSome List.mem_cons_self
  obtain ⟨h₄, e₄, c₄, p₄, n₄⟩ := exists_setPrev h₃ ((c₁₃ hd).trans hhd) (some e)
  refine ⟨h₄, ?_, c₁₃.trans c₄, ?_, ?_⟩
  · simp only [lmkInsertList, load_some, hdcell, hdprev, e₁, e₂, hd₂cell, hd₂prev, e₃, e₄,
      Option.bind_eq_bind, Option.bind_some]
  · intro y
    rw [n₄, n₃, n₂, n₁]
  · intro y
    rw [p₄, p₃, p₂, p₁]

theorem lmkRemoveList_spec (hc : Circular h hd (ys ++ x :: zs)) :
    ∃ h', lmkRemoveList h (some x) = some h' ∧ SameCells h h' ∧
      (∀ y, h'.next y = if y = ys.getLastD hd then h.next x else h.next y) ∧
      ∀ y, h'.prev y = if y = zs.headD hd then h.prev x else h.prev y := by
  obtain ⟨-, hn₂, -, hp₂⟩ := hc.split
  have hnext := hn₂.first
  have hprev : h.prev x = some (ys.getLastD hd) := by
    rw [hp₂.first]
    simp
  have hnd : (hd :: ys ++ x :: zs).Nodup := hc.nodup
  obtain ⟨-, hx, hdis⟩ := List.nodup_append.mp hnd
  -- 前後の番地は `x` ではない
  have hpx : x ≠ ys.getLastD hd :=
    fun heq => hdis _ List.getLastD_mem_cons x List.mem_cons_self heq.symm
  have hnx : zs.headD hd ≠ x := by
    cases zs with
    | nil => exact hdis hd List.mem_cons_self x List.mem_cons_self
    | cons z zs =>
      rintro rfl
      exact (List.nodup_cons.mp hx).1 List.mem_cons_self
  have hpcell : (h (ys.getLastD hd)).isSome := by
    refine hc.next.isSome ?_
    have : ys.getLastD hd ∈ hd :: ys := List.getLastD_mem_cons
    exact List.mem_append_left (x :: zs) this
  have hncell : (h (zs.headD hd)).isSome := by
    refine hc.next.isSome ?_
    cases zs with
    | nil => exact List.mem_cons_self
    | cons z zs => simp
  obtain ⟨d, hd₀, hdn, hdp⟩ := cell_of_links hnext hprev
  obtain ⟨h₁, e₁, c₁, n₁, p₁⟩ := exists_setNext h hpcell (some (zs.headD hd))
  obtain ⟨d₁, hd₁, hdn₁, hdp₁⟩ := cell_of_links (h := h₁) (x := x)
    (by rw [n₁, if_neg hpx, hnext]) (by rw [p₁, hprev])
  obtain ⟨h₂, e₂, c₂, p₂, n₂⟩ :=
    exists_setPrev h₁ ((c₁ (zs.headD hd)).trans hncell) (some (ys.getLastD hd))
  have hguard : some (zs.headD hd) ≠ some x := fun heq => hnx (Option.some.inj heq)
  refine ⟨h₂, ?_, c₁.trans c₂, ?_, ?_⟩
  · simp only [lmkRemoveList, load_some, hd₀, hdn, hdp, ne_eq, hguard, not_false_eq_true, if_true,
      e₁, hd₁, hdn₁, hdp₁, e₂, Option.bind_eq_bind, Option.bind_some]
  · intro y
    rw [n₂, n₁, hnext]
  · intro y
    rw [p₂, p₁, hprev]

/-- 番兵だけの環では、取り外しは何もしない。 -/
theorem lmkRemoveList_empty (hc : Circular h hd []) : lmkRemoveList h (some hd) = some h := by
  obtain ⟨d, hd', hn⟩ := next_eq_some.mp hc.next.first
  have hself : d.next = some hd := hn
  simp only [lmkRemoveList, load_some, hd', hself, ne_eq, not_true_eq_false, if_false,
    Option.bind_eq_bind, Option.bind_some, Option.pure_def]

end Logmoko
