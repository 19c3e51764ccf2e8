import Mathlib.Data.List.Basic

/-!
# 作ってから上書きする

項目の列 `l` を順に適用する操作のうち、一つの項目の適用が「無ければ作る」`create` と
「上書きする」`update` の合成であるものを扱う。

* `foldl_apply` — 作る部分をすべて先に済ませてから上書きしても、結果は変わらない
* `foldl_apply_of_has` — すべて揃っていれば、適用は上書きだけになる
* `foldl_update_idem` — 上書きの列は、`a`、`b`、`a` の順の上書きが `b`、`a` の順の上書きに
  等しいなら、二度目には何もしない
-/

namespace Overwrite

variable {σ α : Type*}

/-- 項目一つの適用。 -/
def apply (create update : σ → α → σ) (s : σ) (a : α) : σ := update (create s a) a

/-- 述語 `Has s a` は、項目 `a` の対象が状態 `s` に揃っていることを表す。 -/
structure Lawful (create update : σ → α → σ) (I : σ → Prop) (Has : σ → α → Prop) : Prop where
  inv_create : ∀ s a, I s → I (create s a)
  inv_update : ∀ s a, I s → I (update s a)
  has_create_self : ∀ s a, I s → Has (create s a) a
  has_create : ∀ s a b, I s → Has s a → Has (create s b) a
  has_update : ∀ s a b, I s → Has s a → Has (update s b) a
  create_of_has : ∀ s a, I s → Has s a → create s a = s
  create_update : ∀ s a b, I s → Has s a → create (update s a) b = update (create s b) a

section

variable {create update : σ → α → σ} {I : σ → Prop} {Has : σ → α → Prop} {s : σ} {a : α}
  {l : List α}

theorem Lawful.inv_foldl_create (L : Lawful create update I Has) (hI : I s) :
    I (l.foldl create s) := by
  induction l generalizing s with
  | nil => exact hI
  | cons b l ih => exact ih (L.inv_create s b hI)

theorem Lawful.inv_foldl_update (L : Lawful create update I Has) (hI : I s) :
    I (l.foldl update s) := by
  induction l generalizing s with
  | nil => exact hI
  | cons b l ih => exact ih (L.inv_update s b hI)

theorem Lawful.has_foldl_create (L : Lawful create update I Has) (hI : I s) (h : Has s a) :
    Has (l.foldl create s) a := by
  induction l generalizing s with
  | nil => exact h
  | cons b l ih => exact ih (L.inv_create s b hI) (L.has_create s a b hI h)

theorem Lawful.has_foldl_update (L : Lawful create update I Has) (hI : I s) (h : Has s a) :
    Has (l.foldl update s) a := by
  induction l generalizing s with
  | nil => exact h
  | cons b l ih => exact ih (L.inv_update s b hI) (L.has_update s a b hI h)

/-- 列の項目はすべて揃う。 -/
theorem Lawful.has_of_mem (L : Lawful create update I Has) (hI : I s) (ha : a ∈ l) :
    Has (l.foldl create s) a := by
  induction l generalizing s with
  | nil => simp at ha
  | cons b l ih =>
    rcases List.mem_cons.mp ha with hab | ha'
    · subst hab
      rw [List.foldl_cons]
      exact L.has_foldl_create (L.inv_create s a hI) (L.has_create_self s a hI)
    · exact ih (L.inv_create s b hI) ha'

/-- 揃っている項目の上書きは、他の項目を作る操作と入れ替えられる。 -/
theorem Lawful.foldl_create_update (L : Lawful create update I Has) (hI : I s) (h : Has s a) :
    l.foldl create (update s a) = update (l.foldl create s) a := by
  induction l generalizing s with
  | nil => rfl
  | cons b l ih =>
    rw [List.foldl_cons, List.foldl_cons, L.create_update s a b hI h]
    exact ih (L.inv_create s b hI) (L.has_create s a b hI h)

/-- 作る部分をすべて先に済ませてよい。 -/
theorem Lawful.foldl_apply (L : Lawful create update I Has) (hI : I s) :
    l.foldl (apply create update) s = l.foldl update (l.foldl create s) := by
  induction l generalizing s with
  | nil => rfl
  | cons a l ih =>
    have hIc := L.inv_create s a hI
    rw [List.foldl_cons, List.foldl_cons, List.foldl_cons, apply,
      ih (L.inv_update _ a hIc), L.foldl_create_update hIc (L.has_create_self s a hI)]

/-- すべて揃っていれば、適用は上書きだけになる。 -/
theorem Lawful.foldl_apply_of_has (L : Lawful create update I Has) (hI : I s)
    (h : ∀ a ∈ l, Has s a) : l.foldl (apply create update) s = l.foldl update s := by
  induction l generalizing s with
  | nil => rfl
  | cons a l ih =>
    have ha := h a List.mem_cons_self
    rw [List.foldl_cons, List.foldl_cons, apply, L.create_of_has s a hI ha]
    exact ih (L.inv_update s a hI) fun b hb =>
      L.has_update s b a hI (h b (List.mem_cons_of_mem a hb))

/-- 適用した後では、もう一度の適用は上書きだけになる。 -/
theorem Lawful.foldl_apply_again (L : Lawful create update I Has) (hI : I s) :
    l.foldl (apply create update) (l.foldl (apply create update) s)
      = l.foldl update (l.foldl update (l.foldl create s)) := by
  have hIc : I (l.foldl create s) := L.inv_foldl_create hI
  rw [L.foldl_apply hI]
  exact L.foldl_apply_of_has (L.inv_foldl_update hIc) fun a ha =>
    L.has_foldl_update hIc (L.has_of_mem hI ha)

end

/-! ## 一つの値の上書き -/

/-- 値を決まったものに置き換えるか、何もしないかのどちらかである。 -/
def Fixes (f : σ → σ) : Prop := (∃ k, ∀ x, f x = k) ∨ ∀ x, f x = x

theorem fixes_ite {c : Prop} [Decidable c] {k : σ} : Fixes fun x => if c then k else x := by
  by_cases hc : c
  · exact Or.inl ⟨k, fun x => if_pos hc⟩
  · exact Or.inr fun x => if_neg hc

theorem Fixes.idem {f : σ → σ} (h : Fixes f) (x : σ) : f (f x) = f x := by
  rcases h with ⟨k, hk⟩ | hid
  · rw [hk, hk]
  · exact hid _

theorem Fixes.overwrite {f : σ → σ} (h : Fixes f) (g : σ → σ) (x : σ) :
    f (g (f x)) = f (g x) := by
  rcases h with ⟨k, hk⟩ | hid
  · rw [hk, hk]
  · rw [hid x]

/-! ## 上書きの列 -/

section

variable {update : σ → α → σ} {J : σ → Prop} {S : α → Prop} {s : σ} {a : α} {l m : List α}

theorem foldl_comm {g : σ → σ} (hJ : ∀ s a, J s → J (update s a))
    (h : ∀ s a, J s → g (update s a) = update (g s) a) (hs : J s) :
    g (l.foldl update s) = l.foldl update (g s) := by
  induction l generalizing s with
  | nil => rfl
  | cons a l ih =>
    rw [List.foldl_cons, List.foldl_cons, ← h s a hs]
    exact ih (hJ s a hs)

variable (hJ : ∀ s a, S a → J s → J (update s a))
  (hidem : ∀ s a, S a → J s → update (update s a) a = update s a)
  (hover : ∀ s a b, S a → S b → J s → update (update (update s a) b) a = update (update s b) a)

include hJ hidem hover

/-- 後で同じ上書きをするなら、先の上書きは省ける。 -/
theorem foldl_update_snoc (hs : J s) (ha : S a) (hl : ∀ b ∈ l, S b) :
    (l ++ [a]).foldl update (update s a) = (l ++ [a]).foldl update s := by
  induction l generalizing s with
  | nil => exact hidem s a ha hs
  | cons b l ih =>
    have hb := hl b List.mem_cons_self
    have hl' : ∀ c ∈ l, S c := fun c hc => hl c (List.mem_cons_of_mem b hc)
    have hsb := hJ s b hb hs
    have hsab := hJ _ b hb (hJ s a ha hs)
    -- 間に `a` を一つ挟み、`a`、`b`、`a` を `b`、`a` に縮めてから外す
    calc (l ++ [a]).foldl update (update (update s a) b)
        = (l ++ [a]).foldl update (update (update (update s a) b) a) := (ih hsab hl').symm
      _ = (l ++ [a]).foldl update (update (update s b) a) := by rw [hover s a b ha hb hs]
      _ = (l ++ [a]).foldl update (update s b) := ih hsb hl'

theorem foldl_update_of_mem (hs : J s) (ha : a ∈ l) (hl : ∀ b ∈ l, S b) :
    l.foldl update (update s a) = l.foldl update s := by
  obtain ⟨l₁, l₂, rfl⟩ := List.append_of_mem ha
  have hsplit : l₁ ++ a :: l₂ = (l₁ ++ [a]) ++ l₂ := by simp
  have hsnoc := foldl_update_snoc hJ hidem hover hs (hl a ha)
    fun b hb => hl b (List.mem_append_left (a :: l₂) hb)
  rw [hsplit]
  calc (l₁ ++ [a] ++ l₂).foldl update (update s a)
      = l₂.foldl update ((l₁ ++ [a]).foldl update (update s a)) := List.foldl_append
    _ = l₂.foldl update ((l₁ ++ [a]).foldl update s) := by rw [hsnoc]
    _ = (l₁ ++ [a] ++ l₂).foldl update s := List.foldl_append.symm

theorem foldl_update_subset (hs : J s) (hm : ∀ b ∈ m, S b) (hlm : ∀ b ∈ l, b ∈ m) :
    m.foldl update (l.foldl update s) = m.foldl update s := by
  induction l generalizing s with
  | nil => rfl
  | cons a l ih =>
    have ha := hlm a List.mem_cons_self
    rw [List.foldl_cons, ih (hJ s a (hm a ha) hs) fun b hb => hlm b (List.mem_cons_of_mem a hb)]
    exact foldl_update_of_mem hJ hidem hover hs ha hm

/-- 同じ列の上書きは、二度目には何もしない。 -/
theorem foldl_update_idem (hs : J s) (hl : ∀ b ∈ l, S b) :
    l.foldl update (l.foldl update s) = l.foldl update s :=
  foldl_update_subset hJ hidem hover hs hl fun _ hb => hb

end

end Overwrite
