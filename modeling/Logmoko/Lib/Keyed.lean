import Mathlib.Data.List.Nodup

/-!
# 鍵つきの列

要素が鍵 `key` で区別される列と、一つの鍵の要素だけを書き換える操作 `modify` である。
鍵が重複しなければ、書き換わる要素は高々一つで、条件を満たす要素の個数の変化も高々一である。
-/

namespace Keyed

variable {α κ β : Type*} [DecidableEq κ] {key : α → κ} {k : κ} {f : α → α} {l : List α} {x y : α}

/-- 鍵 `k` の要素を `f` で書き換える。 -/
def modify (key : α → κ) (k : κ) (f : α → α) (l : List α) : List α :=
  l.map fun x => if key x = k then f x else x

theorem modify_cons :
    modify key k f (x :: l) = (if key x = k then f x else x) :: modify key k f l := rfl

/-- 書き換えが変えない値の列は変わらない。 -/
theorem map_modify {g : α → β} (hg : ∀ x, g (f x) = g x) :
    (modify key k f l).map g = l.map g := by
  unfold modify
  rw [List.map_map]
  refine List.map_congr_left ?_
  intro x _
  show g (if key x = k then f x else x) = g x
  split
  · exact hg x
  · rfl

theorem mem_modify : y ∈ modify key k f l ↔
    (∃ x ∈ l, key x = k ∧ f x = y) ∨ y ∈ l ∧ key y ≠ k := by
  unfold modify
  rw [List.mem_map]
  constructor
  · rintro ⟨x, hx, rfl⟩
    split
    · next hk => exact Or.inl ⟨x, hx, hk, rfl⟩
    · next hk => exact Or.inr ⟨hx, hk⟩
  · rintro (⟨x, hx, hk, rfl⟩ | ⟨hy, hk⟩)
    · exact ⟨x, hx, by rw [if_pos hk]⟩
    · exact ⟨y, hy, by rw [if_neg hk]⟩

theorem modify_congr {g : α → α} (h : ∀ x ∈ l, key x = k → f x = g x) :
    modify key k f l = modify key k g l := by
  unfold modify
  refine List.map_congr_left ?_
  intro x hx
  split
  · next hk => exact h x hx hk
  · rfl

theorem modify_append {l' : List α} :
    modify key k f (l ++ l') = modify key k f l ++ modify key k f l' := List.map_append ..

/-- 何もしない書き換え。 -/
theorem modify_id (h : ∀ x ∈ l, key x = k → f x = x) : modify key k f l = l := by
  rw [modify_congr (g := id) h]
  unfold modify
  simp

/-- 鍵と書き換えを保つ写像は、書き換えと入れ替えられる。 -/
theorem map_modify_comm {β : Type*} {key' : β → κ} {w : α → β} {g : β → β}
    (hkey : ∀ x, key' (w x) = key x) (hw : ∀ x, w (f x) = g (w x)) :
    (modify key k f l).map w = modify key' k g (l.map w) := by
  unfold modify
  rw [List.map_map, List.map_map]
  refine List.map_congr_left ?_
  intro x _
  show w (if key x = k then f x else x) = if key' (w x) = k then g (w x) else w x
  rw [hkey, apply_ite w, hw]

/-- 同じ鍵の書き換えは合成できる。 -/
theorem modify_modify {g : α → α} (hf : ∀ x, key (f x) = key x) :
    modify key k g (modify key k f l) = modify key k (g ∘ f) l := by
  unfold modify
  rw [List.map_map]
  refine List.map_congr_left ?_
  intro x _
  by_cases hk : key x = k
  · simp [hk, hf]
  · simp [hk]

/-- 異なる鍵の書き換えと、互いに可換な書き換えは入れ替えられる。 -/
theorem modify_comm {g : α → α} {k' : κ} (hf : ∀ x, key (f x) = key x)
    (hg : ∀ x, key (g x) = key x) (hfg : k = k' → ∀ x, f (g x) = g (f x)) :
    modify key k f (modify key k' g l) = modify key k' g (modify key k f l) := by
  unfold modify
  rw [List.map_map, List.map_map]
  refine List.map_congr_left ?_
  intro x _
  simp only [Function.comp_apply]
  by_cases hk : key x = k
  · by_cases hk' : key x = k'
    · rw [if_pos hk', if_pos hk, if_pos (by rw [hg, hk]), if_pos (by rw [hf, hk']),
        hfg (hk.symm.trans hk')]
    · rw [if_neg hk', if_pos hk, if_neg (by rw [hf]; exact hk')]
  · by_cases hk' : key x = k'
    · rw [if_pos hk', if_neg hk, if_neg (by rw [hg]; exact hk), if_pos hk']
    · rw [if_neg hk', if_neg hk, if_neg hk']

/-- 後で同じ鍵を `f` で上書きするなら、先の `f` は省ける。 -/
theorem modify_overwrite {g : α → α} {k' : κ} (hf : ∀ x, key (f x) = key x)
    (hg : ∀ x, key (g x) = key x) (hff : ∀ x ∈ l, key x = k → f (f x) = f x)
    (hfgf : ∀ x ∈ l, key x = k → k = k' → f (g (f x)) = f (g x)) :
    modify key k f (modify key k' g (modify key k f l)) = modify key k f (modify key k' g l) := by
  unfold modify
  simp only [List.map_map]
  refine List.map_congr_left ?_
  intro x hx
  simp only [Function.comp_apply]
  by_cases hk : key x = k
  · by_cases hk' : key x = k'
    · subst hk hk'
      simp [hf, hg, hfgf x hx rfl rfl]
    · subst hk
      simp [hf, hk', hff x hx rfl]
  · rw [if_neg hk]

/-- 書き換えが変えない条件による検索は、書き換えた要素を返す。 -/
theorem find?_modify {q : α → Bool} (hq : ∀ x, q (f x) = q x) :
    (modify key k f l).find? q = (l.find? q).map fun x => if key x = k then f x else x := by
  unfold modify
  rw [List.find?_map]
  congr 2
  funext x
  simp only [Function.comp_apply]
  split
  · exact hq x
  · rfl

theorem find?_modify_self (hf : ∀ x, key (f x) = key x) :
    (modify key k f l).find? (fun x => key x = k) = (l.find? fun x => key x = k).map f := by
  rw [find?_modify fun x => by rw [hf]]
  refine Option.map_congr ?_
  intro x hx
  rw [if_pos (by simpa using List.find?_some hx)]

theorem find?_modify_ne {k' : κ} (hf : ∀ x, key (f x) = key x) (hne : k' ≠ k) :
    (modify key k f l).find? (fun x => key x = k') = l.find? fun x => key x = k' := by
  rw [find?_modify fun x => by rw [hf]]
  refine (Option.map_congr ?_).trans Option.map_id'
  intro x hx
  have hk : key x = k' := by simpa using List.find?_some hx
  rw [if_neg (hk ▸ hne)]

/-- 書き換えが変えない値は、検索の結果でも変わらない。 -/
theorem find?_modify_map {g : α → β} {q : α → Bool} (hq : ∀ x, q (f x) = q x)
    (hg : ∀ x, g (f x) = g x) :
    ((modify key k f l).find? q).map g = (l.find? q).map g := by
  rw [find?_modify hq, Option.map_map]
  refine Option.map_congr ?_
  intro x _
  simp only [Function.comp_apply]
  split
  · exact hg x
  · rfl

/-- 鍵の無い要素だけの列は変わらない。 -/
theorem modify_of_notMem (h : k ∉ l.map key) : modify key k f l = l := by
  unfold modify
  refine (List.map_congr_left ?_).trans l.map_id
  intro x hx
  have hne : key x ≠ k := by
    rintro rfl
    exact h (List.mem_map_of_mem hx)
  exact if_neg hne

omit [DecidableEq κ] in
/-- 鍵が重複しなければ、鍵の等しい要素は等しい。 -/
theorem eq_of_key_eq (hnd : (l.map key).Nodup) (hx : x ∈ l) (hy : y ∈ l) (h : key x = key y) :
    x = y :=
  List.inj_on_of_nodup_map hnd hx hy h

omit [DecidableEq κ] in
/-- 鍵が重複しなければ、一つの要素だけが満たす条件で絞った列は一つの要素だけからなる。 -/
theorem filter_eq_singleton (hnd : (l.map key).Nodup) (hx : x ∈ l) {p : α → Bool}
    (hp : ∀ y ∈ l, p y = true ↔ y = x) : l.filter p = [x] := by
  have hmem : ∀ y, y ∈ l.filter p ↔ y ∈ [x] := by
    intro y
    rw [List.mem_filter, List.mem_singleton]
    constructor
    · rintro ⟨hy, hpy⟩
      exact (hp y hy).mp hpy
    · rintro rfl
      exact ⟨hx, (hp y hx).mpr rfl⟩
  have hperm := (List.perm_ext_iff_of_nodup (hnd.of_map.filter p) (List.nodup_singleton x)).mpr hmem
  exact List.perm_singleton.mp hperm

theorem find?_key (hnd : (l.map key).Nodup) (hx : x ∈ l) :
    l.find? (fun y => key y = key x) = some x := by
  cases hf : l.find? (fun y => key y = key x) with
  | none =>
    have := List.find?_eq_none.mp hf x hx
    simp at this
  | some y =>
    have hk : key y = key x := by simpa using List.find?_some hf
    rw [eq_of_key_eq hnd (List.mem_of_find?_eq_some hf) hx hk]

section

variable {p : α → Bool}

theorem countP_modify_same (h : ∀ x ∈ l, p (f x) = p x) :
    (modify key k f l).countP p = l.countP p := by
  unfold modify
  rw [List.countP_map]
  refine List.countP_congr ?_
  intro x hx
  show p (if key x = k then f x else x) = true ↔ p x = true
  split
  · rw [h x hx]
  · rfl

/-- 書き換わるのは一つの要素だけなので、数はその前後の差だけ変わる。 -/
theorem countP_modify (hnd : (l.map key).Nodup) (hx : x ∈ l) :
    (modify key (key x) f l).countP p + (if p x then 1 else 0)
      = l.countP p + (if p (f x) then 1 else 0) := by
  induction l with
  | nil => simp at hx
  | cons y l ih =>
    obtain ⟨hy, hnd'⟩ := List.nodup_cons.mp hnd
    rw [modify_cons, List.countP_cons, List.countP_cons]
    rcases List.mem_cons.mp hx with rfl | hx'
    · rw [if_pos rfl, modify_of_notMem hy]
      omega
    · have hne : key y ≠ key x := fun he => hy (he ▸ List.mem_map_of_mem hx')
      have := ih hnd' hx'
      rw [if_neg hne]
      omega

/-- 書き換わった要素が新しく条件を満たす。 -/
theorem countP_modify_add (hnd : (l.map key).Nodup) (hx : x ∈ l) (hp : p x = false)
    (hp' : p (f x) = true) : (modify key (key x) f l).countP p = l.countP p + 1 := by
  have h := countP_modify (p := p) (f := f) hnd hx
  rw [hp, hp', if_neg Bool.false_ne_true, if_pos rfl] at h
  exact h

/-- 書き換わった要素が条件を満たさなくなる。 -/
theorem countP_modify_sub (hnd : (l.map key).Nodup) (hx : x ∈ l) (hp : p x = true)
    (hp' : p (f x) = false) : (modify key (key x) f l).countP p + 1 = l.countP p := by
  have h := countP_modify (p := p) (f := f) hnd hx
  rw [hp, hp', if_pos rfl, if_neg Bool.false_ne_true] at h
  exact h

end

end Keyed
