import Mathlib.Data.List.Basic
import Mathlib.Data.List.Nodup
import Mathlib.Logic.Function.Basic

/-!
# 環状の双方向 link

番地の型 `α` の上の memory を、割り当てられた番地に `next` と `prev` の組を置く部分写像で表す。
pointer は `Option α` で、`none` が NULL である。
割り当てられていない番地や NULL の先は読めず、書けない。

* `Path f a xs b` — `a` から `f` をたどると、`xs` を順に通って `b` に着く
* `Circular h hd xs` — 番兵 `hd` の環が、`next` では `xs`、`prev` では逆順の `xs` である

末尾への追加では `Path.extend`、途中の取り外しでは `Path.bypass` が path を組み直す。
`prev` の側は逆順の path なので、取り外しは同じ補題を二度使う。
-/

namespace Links

variable {α : Type*}

/-! ## memory -/

/-- 一つの番地に置かれた link の組。 -/
structure Node (α : Type*) where
  next : Option α
  prev : Option α

/-- link の memory。`none` は割り当てられていない番地である。 -/
abbrev Heap (α : Type*) := α → Option (Node α)

/-- pointer の先を読む。 -/
def Heap.load (h : Heap α) (p : Option α) : Option (Node α) := p.bind h

/-- 番地 `x` の `next` が指す番地。 -/
def Heap.next (h : Heap α) (x : α) : Option α := (h x).bind Node.next

/-- 番地 `x` の `prev` が指す番地。 -/
def Heap.prev (h : Heap α) (x : α) : Option α := (h x).bind Node.prev

section

variable [DecidableEq α]

/-- pointer の先の `next` への store。 -/
def Heap.setNext (h : Heap α) (p v : Option α) : Option (Heap α) :=
  p.bind fun x => (h x).map fun n => Function.update h x (some { n with next := v })

/-- pointer の先の `prev` への store。 -/
def Heap.setPrev (h : Heap α) (p v : Option α) : Option (Heap α) :=
  p.bind fun x => (h x).map fun n => Function.update h x (some { n with prev := v })

end

variable {h h' : Heap α} {x y a b c : α} {v : Option α}

@[simp] theorem load_some (h : Heap α) (x : α) : h.load (some x) = h x := rfl

theorem next_eq_some {n : α} : h.next x = some n ↔ ∃ d, h x = some d ∧ d.next = some n :=
  Option.bind_eq_some_iff

theorem prev_eq_some {n : α} : h.prev x = some n ↔ ∃ d, h x = some d ∧ d.prev = some n :=
  Option.bind_eq_some_iff

/-- 割り当てられた番地の二つの link を一度に読む。 -/
theorem cell_of_links {n p : α} (hn : h.next x = some n) (hp : h.prev x = some p) :
    ∃ d, h x = some d ∧ d.next = some n ∧ d.prev = some p := by
  obtain ⟨d, hd, hdn⟩ := next_eq_some.mp hn
  obtain ⟨d', hd', hdp⟩ := prev_eq_some.mp hp
  obtain rfl := Option.some.inj (hd.symm.trans hd')
  exact ⟨d, hd, hdn, hdp⟩

/-- 割り当てられた番地の集まりが同じ。 -/
def SameCells (h h' : Heap α) : Prop := ∀ x, (h' x).isSome = (h x).isSome

theorem SameCells.refl (h : Heap α) : SameCells h h := fun _ => rfl

theorem SameCells.trans {h'' : Heap α} (h₁ : SameCells h h') (h₂ : SameCells h' h'') :
    SameCells h h'' := fun x => (h₂ x).trans (h₁ x)

section

variable [DecidableEq α]

/-- 割り当てられた番地の `next` への store は成功し、そこだけを変える。 -/
theorem exists_setNext (h : Heap α) (hx : (h x).isSome) (v : Option α) :
    ∃ h', h.setNext (some x) v = some h' ∧ SameCells h h' ∧
      (∀ y, h'.next y = if y = x then v else h.next y) ∧ ∀ y, h'.prev y = h.prev y := by
  obtain ⟨n, hn⟩ := Option.isSome_iff_exists.mp hx
  refine ⟨Function.update h x (some { n with next := v }), by simp [Heap.setNext, hn], ?_, ?_, ?_⟩
  · intro y
    by_cases hy : y = x
    · subst hy
      simp [hn]
    · rw [Function.update_of_ne hy]
  · intro y
    by_cases hy : y = x
    · subst hy
      simp [Heap.next]
    · simp [Heap.next, hy]
  · intro y
    by_cases hy : y = x
    · subst hy
      simp [Heap.prev, hn]
    · simp [Heap.prev, hy]

/-- 割り当てられた番地の `prev` への store は成功し、そこだけを変える。 -/
theorem exists_setPrev (h : Heap α) (hx : (h x).isSome) (v : Option α) :
    ∃ h', h.setPrev (some x) v = some h' ∧ SameCells h h' ∧
      (∀ y, h'.prev y = if y = x then v else h.prev y) ∧ ∀ y, h'.next y = h.next y := by
  obtain ⟨n, hn⟩ := Option.isSome_iff_exists.mp hx
  refine ⟨Function.update h x (some { n with prev := v }), by simp [Heap.setPrev, hn], ?_, ?_, ?_⟩
  · intro y
    by_cases hy : y = x
    · subst hy
      simp [hn]
    · rw [Function.update_of_ne hy]
  · intro y
    by_cases hy : y = x
    · subst hy
      simp [Heap.prev]
    · simp [Heap.prev, hy]
  · intro y
    by_cases hy : y = x
    · subst hy
      simp [Heap.next, hn]
    · simp [Heap.next, hy]

end

/-! ## path -/

/-- `a` から `f` をたどると、`xs` を順に通って `b` に着く。 -/
def Path (f : α → Option α) : α → List α → α → Prop
  | a, [], b => f a = some b
  | a, x :: xs, b => f a = some x ∧ Path f x xs b

variable {f g : α → Option α} {xs ys zs : List α}

/-- 最初の一歩。 -/
theorem Path.first (hp : Path f a xs b) : f a = some (xs.headD b) := by
  cases xs with
  | nil => exact hp
  | cons x xs => exact hp.1

theorem path_append : Path f a (xs ++ x :: ys) b ↔ Path f a xs x ∧ Path f x ys b := by
  induction xs generalizing a with
  | nil => rfl
  | cons y xs ih =>
    show f a = some y ∧ Path f y (xs ++ x :: ys) b ↔ (f a = some y ∧ Path f y xs x) ∧ Path f x ys b
    rw [ih, and_assoc]

/-- 通る番地で同じ行き先を持てば、同じ path がある。 -/
theorem Path.congr (hp : Path f a xs b) (hfg : ∀ y ∈ a :: xs, g y = f y) : Path g a xs b := by
  induction xs generalizing a with
  | nil => exact (hfg a List.mem_cons_self).trans hp
  | cons x xs ih =>
    refine ⟨(hfg a List.mem_cons_self).trans hp.1, ih hp.2 ?_⟩
    intro y hy
    exact hfg y (List.mem_cons_of_mem _ hy)

/-- path の最後の番地だけを `e` に向け直し、`e` から `c` へつなぐ。 -/
theorem Path.extend {e : α} (hp : Path f a xs b) (hnd : (a :: xs).Nodup)
    (hlast : g (xs.getLastD a) = some e) (he : g e = some c)
    (hfg : ∀ y ∈ a :: xs, y ≠ xs.getLastD a → g y = f y) : Path g a (xs ++ [e]) c := by
  induction xs generalizing a with
  | nil => exact ⟨hlast, he⟩
  | cons x xs ih =>
    rw [List.getLastD_cons] at hlast hfg
    obtain ⟨ha, hxs⟩ := List.nodup_cons.mp hnd
    refine ⟨?_, ih hp.2 hxs hlast ?_⟩
    · rw [hfg a List.mem_cons_self ?_]
      · exact hp.1
      · intro heq
        exact ha (heq ▸ List.getLastD_mem_cons)
    · intro y hy hne
      exact hfg y (List.mem_cons_of_mem _ hy) hne

/-- 最初の一歩を `e` に向け直し、`e` から元の行き先へつなぐ。 -/
theorem Path.prepend {e : α} (hp : Path f a xs b) (ha : g a = some e) (he : g e = f a)
    (hfg : ∀ y ∈ xs, g y = f y) : Path g a (e :: xs) b := by
  refine ⟨ha, ?_⟩
  cases xs with
  | nil => exact he.trans hp
  | cons x xs => exact ⟨he.trans hp.1, hp.2.congr hfg⟩

/-- `x` の手前の番地を `x` の次へ向け直すと、`x` を飛ばした path になる。 -/
theorem Path.bypass (hp : Path f a ys x) (hq : Path f x zs b) (hnd : (a :: ys ++ x :: zs).Nodup)
    (hlast : g (ys.getLastD a) = f x)
    (hfg : ∀ y ∈ a :: ys ++ zs, y ≠ ys.getLastD a → g y = f y) : Path g a (ys ++ zs) b := by
  induction ys generalizing a with
  | nil =>
    obtain ⟨ha, hx⟩ := List.nodup_cons.mp hnd
    have hstep : g a = some (zs.headD b) := hlast.trans hq.first
    cases zs with
    | nil => exact hstep
    | cons z zs =>
      refine ⟨hstep, hq.2.congr ?_⟩
      intro y hy
      refine hfg y (List.mem_cons_of_mem _ hy) ?_
      rintro rfl
      exact ha (List.mem_cons_of_mem _ hy)
  | cons z ys ih =>
    rw [List.getLastD_cons] at hlast hfg
    obtain ⟨ha, hz⟩ := List.nodup_cons.mp hnd
    refine ⟨?_, ih hp.2 hz hlast ?_⟩
    · rw [hfg a List.mem_cons_self ?_]
      · exact hp.1
      · intro heq
        exact ha (List.mem_append_left _ (heq ▸ List.getLastD_mem_cons))
    · intro y hy hne
      exact hfg y (List.mem_cons_of_mem _ hy) hne

/-! ## 環 -/

/-- 番兵 `hd` の環。`next` をたどれば `xs`、`prev` をたどればその逆である。 -/
structure Circular (h : Heap α) (hd : α) (xs : List α) : Prop where
  next : Path h.next hd xs hd
  prev : Path h.prev hd xs.reverse hd
  nodup : (hd :: xs).Nodup

/-- 番兵の `prev` は、最後の node である。 -/
theorem Circular.prev_head {hd : α} (hc : Circular h hd xs) :
    h.prev hd = some (xs.getLastD hd) := by
  rw [hc.prev.first]
  simp

/-- 環の番地はどれも割り当てられている。 -/
theorem Path.isSome (hp : Path h.next a xs b) (hy : y ∈ a :: xs) : (h y).isSome := by
  induction xs generalizing a with
  | nil =>
    obtain rfl := List.mem_singleton.mp hy
    obtain ⟨d, hd, _⟩ := next_eq_some.mp hp
    exact Option.isSome_iff_exists.mpr ⟨d, hd⟩
  | cons x xs ih =>
    rcases List.mem_cons.mp hy with rfl | hy
    · obtain ⟨d, hd, _⟩ := next_eq_some.mp hp.1
      exact Option.isSome_iff_exists.mpr ⟨d, hd⟩
    · exact ih hp.2 hy

/-- 番兵だけの環。 -/
theorem circular_nil {hd : α} (hnext : h.next hd = some hd) (hprev : h.prev hd = some hd) :
    Circular h hd [] := ⟨hnext, hprev, List.nodup_singleton hd⟩

/-- 環の番地の link を変えなければ、環は変わらない。 -/
theorem Circular.congr {hd : α} (hc : Circular h hd xs)
    (hnext : ∀ y ∈ hd :: xs, h'.next y = h.next y)
    (hprev : ∀ y ∈ hd :: xs, h'.prev y = h.prev y) : Circular h' hd xs := by
  refine ⟨hc.next.congr hnext, hc.prev.congr ?_, hc.nodup⟩
  intro y hy
  exact hprev y (by simpa using hy)

/-- 末尾への追加。 -/
theorem Circular.insert {hd e : α} [DecidableEq α] (hc : Circular h hd xs) (he : e ∉ hd :: xs)
    (hnext : ∀ y, h'.next y =
      if y = xs.getLastD hd then some e else if y = e then some hd else h.next y)
    (hprev : ∀ y, h'.prev y =
      if y = hd then some e else if y = e then some (xs.getLastD hd) else h.prev y) :
    Circular h' hd (xs ++ [e]) := by
  have hmem : xs.getLastD hd ∈ hd :: xs := List.getLastD_mem_cons
  have hne : e ≠ xs.getLastD hd := fun heq => he (heq ▸ hmem)
  refine ⟨?_, ?_, ?_⟩
  · refine hc.next.extend hc.nodup (by rw [hnext, if_pos rfl])
      (by rw [hnext, if_neg hne, if_pos rfl]) ?_
    intro y hy hlast
    have hye : y ≠ e := fun heq => he (heq ▸ hy)
    rw [hnext, if_neg hlast, if_neg hye]
  · -- 逆順では `e` が先頭に立ち、その先は前と同じ path である
    rw [List.reverse_append, List.reverse_singleton]
    have hehd : e ≠ hd := fun heq => he (heq ▸ List.mem_cons_self)
    refine hc.prev.prepend (by rw [hprev, if_pos rfl])
      (by rw [hprev, if_neg hehd, if_pos rfl, hc.prev_head]) ?_
    intro y hy
    have hy' : y ∈ xs := List.mem_reverse.mp hy
    have hyhd : y ≠ hd := fun heq => (List.nodup_cons.mp hc.nodup).1 (heq ▸ hy')
    have hye : y ≠ e := fun heq => he (heq ▸ List.mem_cons_of_mem _ hy')
    rw [hprev, if_neg hyhd, if_neg hye]
  · show (hd :: xs ++ [e]).Nodup
    exact List.nodup_append_comm.mp (List.nodup_cons.mpr ⟨he, hc.nodup⟩)

/-- 環の中の node の前後。 -/
theorem Circular.split {hd : α} (hc : Circular h hd (ys ++ x :: zs)) :
    Path h.next hd ys x ∧ Path h.next x zs hd ∧ Path h.prev hd zs.reverse x ∧
      Path h.prev x ys.reverse hd := by
  have hnext := path_append.mp hc.next
  have hprev := hc.prev
  rw [List.reverse_append, List.reverse_cons, List.append_assoc, List.singleton_append,
    path_append] at hprev
  exact ⟨hnext.1, hnext.2, hprev.1, hprev.2⟩

/-- 途中の node の取り外し。 -/
theorem Circular.remove {hd : α} [DecidableEq α] (hc : Circular h hd (ys ++ x :: zs))
    (hnext : ∀ y, h'.next y = if y = ys.getLastD hd then h.next x else h.next y)
    (hprev : ∀ y, h'.prev y = if y = zs.headD hd then h.prev x else h.prev y) :
    Circular h' hd (ys ++ zs) := by
  obtain ⟨hn₁, hn₂, hp₁, hp₂⟩ := hc.split
  have hnd := hc.nodup
  refine ⟨?_, ?_, ?_⟩
  · refine hn₁.bypass hn₂ hnd (by rw [hnext, if_pos rfl]) ?_
    intro y _ hy
    rw [hnext, if_neg hy]
  · -- `prev` の側では `zs` と `ys` が入れ替わる
    rw [List.reverse_append]
    have hlast : zs.reverse.getLastD hd = zs.headD hd := by simp
    refine hp₁.bypass hp₂ ?_ (by rw [hprev, hlast, if_pos rfl]) ?_
    · have hrev : zs.reverse ++ x :: ys.reverse = (ys ++ x :: zs).reverse := by simp
      show (hd :: (zs.reverse ++ x :: ys.reverse)).Nodup
      rw [hrev, List.nodup_cons, List.mem_reverse, List.nodup_reverse, ← List.nodup_cons]
      exact hnd
    · intro y _ hy
      rw [hlast] at hy
      rw [hprev, if_neg hy]
  · exact hnd.sublist (by simp)

/-! ## 環をたどる -/

section

variable [DecidableEq α]

/-- 番兵 `hd` に戻るまで `f` をたどり、通った番地を並べる。燃料が尽きれば `none` である。 -/
def walk (f : α → Option α) (hd : α) : Nat → α → Option (List α)
  | 0, c => if c = hd then some [] else none
  | fuel + 1, c =>
    if c = hd then some []
    else (f c).bind fun c' => (walk f hd fuel c').map fun l => c :: l

@[simp] theorem walk_head {hd : α} {fuel : Nat} : walk f hd fuel hd = some [] := by
  cases fuel with
  | zero => simp only [walk, if_true]
  | succ fuel => simp only [walk, if_true]

/-- path をたどると、通る番地がちょうど並ぶ。 -/
theorem Path.walk_eq {hd : α} {fuel : Nat} (hp : Path f a xs hd) (hhd : hd ∉ xs)
    (hfuel : xs.length ≤ fuel) : (f a).bind (walk f hd fuel) = some xs := by
  induction xs generalizing a fuel with
  | nil =>
    rw [show f a = some hd from hp, Option.bind_some, walk_head]
  | cons x xs ih =>
    have hx : x ≠ hd := fun heq => hhd (heq ▸ List.mem_cons_self)
    cases fuel with
    | zero => simp at hfuel
    | succ fuel =>
      have hrest := ih hp.2 (fun hm => hhd (List.mem_cons_of_mem _ hm))
        (Nat.le_of_succ_le_succ hfuel)
      obtain ⟨c, hc, hw⟩ := Option.bind_eq_some_iff.mp hrest
      rw [hp.1, Option.bind_some, walk, if_neg hx]
      simp only [hc, Option.bind_some, hw, Option.map_some]

/-- 番兵の環を `next` でたどれば `xs`、`prev` でたどればその逆である。 -/
theorem Circular.walk_eq {hd : α} {fuel : Nat} (hc : Circular h hd xs)
    (hfuel : xs.length ≤ fuel) :
    (h.next hd).bind (walk h.next hd fuel) = some xs ∧
      (h.prev hd).bind (walk h.prev hd fuel) = some xs.reverse := by
  have hhd : hd ∉ xs := (List.nodup_cons.mp hc.nodup).1
  refine ⟨hc.next.walk_eq hhd hfuel, hc.prev.walk_eq ?_ ?_⟩
  · rw [List.mem_reverse]
    exact hhd
  · rw [List.length_reverse]
    exact hfuel

end

/-! ## 環の集まり -/

/-- 番兵ごとの列。`none` は番兵でない番地である。 -/
abbrev HeadLists (α : Type*) := α → Option (List α)

/-- `y` は番兵 `hd` の環の番地である。番兵自身も含む。 -/
def HeadLists.Node (L : HeadLists α) (hd y : α) : Prop := ∃ xs, L hd = some xs ∧ y ∈ hd :: xs

/-- `x` はどの列にも入っていない。 -/
def HeadLists.NotMember (L : HeadLists α) (x : α) : Prop := ∀ hd xs, L hd = some xs → x ∉ xs

/-- memory `h` は、列の集まり `L` を互いに交わらない環として持つ。 -/
structure Holds (h : Heap α) (L : HeadLists α) : Prop where
  circular : ∀ hd xs, L hd = some xs → Circular h hd xs
  unique : ∀ hd hd' y, L.Node hd y → L.Node hd' y → hd = hd'

variable {L : HeadLists α} {hd : α}

theorem node_self (hl : L hd = some xs) : L.Node hd hd := ⟨xs, hl, List.mem_cons_self⟩

theorem HeadLists.NotMember.eq_of_node (hx : L.NotMember x) (hn : L.Node hd x) : hd = x := by
  obtain ⟨xs, hl, hm⟩ := hn
  rcases List.mem_cons.mp hm with heq | hm
  · exact heq.symm
  · exact absurd hm (hx hd xs hl)

/-- 空の列の番兵は、どの列にも入っていない。 -/
theorem Holds.notMember_of_nil (hh : Holds h L) (hx : L x = some []) : L.NotMember x := by
  intro hd xs hl hm
  obtain rfl := hh.unique hd x x ⟨xs, hl, List.mem_cons_of_mem _ hm⟩ (node_self hx)
  rw [hx] at hl
  obtain rfl := Option.some.inj hl
  cases hm

/-- 列が一つもなければ、どんな memory でもよい。 -/
theorem holds_empty (h : Heap α) : Holds h fun _ => none := by
  constructor
  · intro hd xs hl
    cases hl
  · rintro hd hd' y ⟨xs, hl, _⟩
    cases hl

/-- 番兵 `hd` の環の番地の link が変わらなければ、その環は変わらない。 -/
theorem Holds.circular_congr (hh : Holds h L) (hl : L hd = some xs)
    (hnext : ∀ y, L.Node hd y → h'.next y = h.next y)
    (hprev : ∀ y, L.Node hd y → h'.prev y = h.prev y) : Circular h' hd xs :=
  (hh.circular hd xs hl).congr (fun y hy => hnext y ⟨xs, hl, hy⟩) fun y hy => hprev y ⟨xs, hl, hy⟩

/-- どの環の番地でもない `x` の中身は、何になってもよい。 -/
theorem Holds.dispose (hh : Holds h L) (hx : ∀ hd, ¬ L.Node hd x)
    (hne : ∀ y, y ≠ x → h' y = h y) : Holds h' L := by
  refine ⟨?_, hh.unique⟩
  intro hd xs hl
  have hcell : ∀ y, L.Node hd y → h' y = h y := by
    intro y hy
    refine hne y ?_
    rintro rfl
    exact hx hd hy
  refine hh.circular_congr hl ?_ ?_
  · intro y hy
    simp only [Heap.next, hcell y hy]
  · intro y hy
    simp only [Heap.prev, hcell y hy]

section

variable [DecidableEq α]

/-- `x` を空の列の番兵にする。 -/
def HeadLists.init (L : HeadLists α) (x : α) : HeadLists α := Function.update L x (some [])

/-- 番兵 `hd` の列の末尾に `e` を足す。`e` はもう番兵ではない。 -/
def HeadLists.insert (L : HeadLists α) (hd e : α) : HeadLists α :=
  Function.update (Function.update L e none) hd ((L hd).map fun xs => xs ++ [e])

/-- `x` をその列から外す。 -/
def HeadLists.remove (L : HeadLists α) (x : α) : HeadLists α :=
  fun hd => (L hd).map fun xs => xs.erase x

theorem node_init {hd y : α} (hn : (L.init x).Node hd y) :
    (hd = x ∧ y = x) ∨ (hd ≠ x ∧ L.Node hd y) := by
  obtain ⟨xs, hl, hm⟩ := hn
  by_cases heq : hd = x
  · subst heq
    rw [HeadLists.init, Function.update_self] at hl
    obtain rfl := Option.some.inj hl
    exact Or.inl ⟨rfl, List.mem_singleton.mp hm⟩
  · rw [HeadLists.init, Function.update_of_ne heq] at hl
    exact Or.inr ⟨heq, xs, hl, hm⟩

/-- 番兵の初期化。 -/
theorem Holds.init (hh : Holds h L) (hx : L.NotMember x)
    (hnext : ∀ y, h'.next y = if y = x then some x else h.next y)
    (hprev : ∀ y, h'.prev y = if y = x then some x else h.prev y) : Holds h' (L.init x) := by
  have hother : ∀ hd y, hd ≠ x → L.Node hd y → y ≠ x := by
    rintro hd y hne hn rfl
    exact hne (hx.eq_of_node hn)
  constructor
  · intro hd xs hl
    by_cases heq : hd = x
    · subst heq
      rw [HeadLists.init, Function.update_self] at hl
      obtain rfl := Option.some.inj hl
      exact circular_nil (by rw [hnext, if_pos rfl]) (by rw [hprev, if_pos rfl])
    · rw [HeadLists.init, Function.update_of_ne heq] at hl
      refine hh.circular_congr hl ?_ ?_
      · intro y hy
        rw [hnext, if_neg (hother hd y heq hy)]
      · intro y hy
        rw [hprev, if_neg (hother hd y heq hy)]
  · intro hd hd' y hn hn'
    rcases node_init hn with ⟨rfl, rfl⟩ | ⟨hne, hold⟩
    · rcases node_init hn' with ⟨rfl, _⟩ | ⟨hne', hold'⟩
      · rfl
      · exact absurd rfl (hother _ _ hne' hold')
    · rcases node_init hn' with ⟨rfl, rfl⟩ | ⟨_, hold'⟩
      · exact absurd rfl (hother _ _ hne hold)
      · exact hh.unique hd hd' y hold hold'

theorem insert_self (hl : L hd = some xs) (e : α) : L.insert hd e hd = some (xs ++ [e]) := by
  rw [HeadLists.insert, Function.update_self, hl, Option.map_some]

theorem insert_of_ne {hd hd' e : α} (hne : hd' ≠ hd) (he : hd' ≠ e) :
    L.insert hd e hd' = L hd' := by
  rw [HeadLists.insert, Function.update_of_ne hne, Function.update_of_ne he]

theorem insert_entry {hd e : α} (hne : e ≠ hd) : L.insert hd e e = none := by
  rw [HeadLists.insert, Function.update_of_ne hne, Function.update_self]

theorem node_insert {hd hd' e y : α} (hl : L hd = some xs) (hne : e ≠ hd)
    (hn : (L.insert hd e).Node hd' y) :
    (hd' = hd ∧ (y = e ∨ L.Node hd y)) ∨ (hd' ≠ hd ∧ hd' ≠ e ∧ L.Node hd' y) := by
  obtain ⟨ys, hl', hm⟩ := hn
  by_cases heq : hd' = hd
  · subst heq
    rw [insert_self hl] at hl'
    obtain rfl := Option.some.inj hl'
    refine Or.inl ⟨rfl, ?_⟩
    rw [← List.cons_append, List.mem_append, List.mem_singleton] at hm
    exact hm.symm.imp_right fun hm => ⟨xs, hl, hm⟩
  · have he : hd' ≠ e := by
      rintro rfl
      rw [insert_entry hne] at hl'
      cases hl'
    rw [insert_of_ne heq he] at hl'
    exact Or.inr ⟨heq, he, ys, hl', hm⟩

/-- 末尾への追加。`e` は、どの列にも入っていず、番兵だとしても空の列の番兵である。 -/
theorem Holds.insert {e : α} (hh : Holds h L) (hl : L hd = some xs) (hne : e ≠ hd)
    (he : L.NotMember e)
    (hnext : ∀ y, h'.next y =
      if y = xs.getLastD hd then some e else if y = e then some hd else h.next y)
    (hprev : ∀ y, h'.prev y =
      if y = hd then some e else if y = e then some (xs.getLastD hd) else h.prev y) :
    Holds h' (L.insert hd e) := by
  have hlast : L.Node hd (xs.getLastD hd) := ⟨xs, hl, List.getLastD_mem_cons⟩
  -- 他の環の番地は、書き換わる三つの番地のどれでもない
  have hother : ∀ hd' y, hd' ≠ hd → hd' ≠ e → L.Node hd' y → y ≠ e ∧ ¬ L.Node hd y := by
    intro hd' y h1 h2 hn
    refine ⟨?_, fun hn' => h1 (hh.unique hd' hd y hn hn')⟩
    rintro rfl
    exact h2 (he.eq_of_node hn)
  have hehd : ¬ L.Node hd e := fun hn => hne (he.eq_of_node hn).symm
  constructor
  · intro hd' ys hl'
    by_cases heq : hd' = hd
    · subst heq
      rw [insert_self hl] at hl'
      obtain rfl := Option.some.inj hl'
      exact (hh.circular hd' xs hl).insert (fun hm => hehd ⟨xs, hl, hm⟩) hnext hprev
    · have hee : hd' ≠ e := by
        rintro rfl
        rw [insert_entry hne] at hl'
        cases hl'
      rw [insert_of_ne heq hee] at hl'
      refine hh.circular_congr hl' ?_ ?_
      · intro y hy
        obtain ⟨h1, h2⟩ := hother hd' y heq hee hy
        have h3 : y ≠ xs.getLastD hd := fun heq => h2 (heq ▸ hlast)
        rw [hnext, if_neg h3, if_neg h1]
      · intro y hy
        obtain ⟨h1, h2⟩ := hother hd' y heq hee hy
        have h3 : y ≠ hd := by
          rintro rfl
          exact h2 (node_self hl)
        rw [hprev, if_neg h3, if_neg h1]
  · intro hd₁ hd₂ y hn₁ hn₂
    rcases node_insert hl hne hn₁ with ⟨rfl, h1⟩ | ⟨h1, h1', hold₁⟩
    · rcases node_insert hl hne hn₂ with ⟨rfl, _⟩ | ⟨h2, h2', hold₂⟩
      · rfl
      · obtain ⟨h3, h4⟩ := hother hd₂ y h2 h2' hold₂
        rcases h1 with h1 | h1
        · exact absurd h1 h3
        · exact absurd h1 h4
    · rcases node_insert hl hne hn₂ with ⟨rfl, h2⟩ | ⟨_, _, hold₂⟩
      · obtain ⟨h3, h4⟩ := hother hd₁ y h1 h1' hold₁
        rcases h2 with h2 | h2
        · exact absurd h2 h3
        · exact absurd h2 h4
      · exact hh.unique hd₁ hd₂ y hold₁ hold₂

/-- 列に入っている node を外した後の集まり。 -/
theorem remove_eq_update (hh : Holds h L) (hl : L hd = some (ys ++ x :: zs)) :
    L.remove x = Function.update L hd (some (ys ++ zs)) := by
  funext hd'
  by_cases heq : hd' = hd
  · subst heq
    have hnd := (hh.circular hd' _ hl).nodup
    have hx : x ∉ ys := by
      intro hm
      have := (List.nodup_cons.mp hnd).2
      rw [List.nodup_append] at this
      exact this.2.2 x hm x List.mem_cons_self rfl
    rw [HeadLists.remove, hl, Option.map_some, Function.update_self, List.erase_append_right _ hx,
      List.erase_cons_head]
  · rw [Function.update_of_ne heq]
    show (L hd').map (fun xs => xs.erase x) = L hd'
    cases hl' : L hd' with
    | none => rfl
    | some xs =>
      have hx : x ∉ xs := by
        intro hm
        exact heq (hh.unique hd' hd x ⟨xs, hl', List.mem_cons_of_mem _ hm⟩ ⟨_, hl, by simp⟩)
      rw [Option.map_some, List.erase_of_not_mem hx]

/-- どの列にも入っていなければ、外しても何も変わらない。 -/
theorem remove_eq_self (hx : L.NotMember x) : L.remove x = L := by
  funext hd
  show (L hd).map (fun xs => xs.erase x) = L hd
  cases hl : L hd with
  | none => rfl
  | some xs => rw [Option.map_some, List.erase_of_not_mem (hx hd xs hl)]

/-- 列に入っている node の取り外し。 -/
theorem Holds.remove (hh : Holds h L) (hl : L hd = some (ys ++ x :: zs))
    (hnext : ∀ y, h'.next y = if y = ys.getLastD hd then h.next x else h.next y)
    (hprev : ∀ y, h'.prev y = if y = zs.headD hd then h.prev x else h.prev y) :
    Holds h' (L.remove x) := by
  rw [remove_eq_update hh hl]
  have hsub : ∀ hd' y, HeadLists.Node (Function.update L hd (some (ys ++ zs))) hd' y →
      L.Node hd' y := by
    rintro hd' y ⟨xs, hl', hm⟩
    by_cases heq : hd' = hd
    · subst heq
      rw [Function.update_self] at hl'
      obtain rfl := Option.some.inj hl'
      refine ⟨_, hl, ?_⟩
      simp only [List.mem_cons, List.mem_append] at hm ⊢
      tauto
    · rw [Function.update_of_ne heq] at hl'
      exact ⟨xs, hl', hm⟩
  have hlast : L.Node hd (ys.getLastD hd) := by
    refine ⟨_, hl, ?_⟩
    have : ys.getLastD hd ∈ hd :: ys := List.getLastD_mem_cons
    simp only [List.mem_cons, List.mem_append] at this ⊢
    tauto
  have hhead : L.Node hd (zs.headD hd) := by
    refine ⟨_, hl, ?_⟩
    cases zs with
    | nil => exact List.mem_cons_self
    | cons z zs => simp
  constructor
  · intro hd' xs hl'
    by_cases heq : hd' = hd
    · subst heq
      rw [Function.update_self] at hl'
      obtain rfl := Option.some.inj hl'
      exact (hh.circular hd' _ hl).remove hnext hprev
    · rw [Function.update_of_ne heq] at hl'
      refine hh.circular_congr hl' ?_ ?_
      · intro y hy
        have hne : y ≠ ys.getLastD hd := fun he => heq (hh.unique hd' hd y hy (he ▸ hlast))
        rw [hnext, if_neg hne]
      · intro y hy
        have hne : y ≠ zs.headD hd := fun he => heq (hh.unique hd' hd y hy (he ▸ hhead))
        rw [hprev, if_neg hne]
  · intro hd₁ hd₂ y hn₁ hn₂
    exact hh.unique hd₁ hd₂ y (hsub hd₁ y hn₁) (hsub hd₂ y hn₂)

end

end Links
