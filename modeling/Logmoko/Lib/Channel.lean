import Mathlib.Data.List.Sort

/-!
# 失われ、重なり、前後する通信路

送り出した message の列 `sent` は伸びるだけで、通信路はその番号を好きな順に、何度でも選ぶ。
選ばれなかったものは失われる。受け手に届く列 `delivered sent is` は、選んだ番号の列 `is` の
message を並べたものである。

* `delivered_sublist` — 番号が増えていくなら、届いた列は送った列の部分列である
* `filter_delivered` — `p` を満たすものの番号が増えていき、みな選ばれているなら、`p` を満たす部分は
  等しい
-/

namespace Channel

variable {α : Type*} {sent : List α} {is : List Nat}

/-- 番号の列 `is` を選んだときに届く message。 -/
def delivered (sent : List α) (is : List Nat) : List α := is.filterMap fun i => sent[i]?

@[simp] theorem delivered_nil : delivered sent [] = [] := rfl

theorem delivered_cons {i : Nat} {x : α} (h : sent[i]? = some x) :
    delivered sent (i :: is) = x :: delivered sent is := List.filterMap_cons_some h

theorem mem_of_mem_delivered {x : α} (h : x ∈ delivered sent is) : x ∈ sent := by
  obtain ⟨i, -, hi⟩ := List.mem_filterMap.mp h
  exact List.mem_of_getElem? hi

theorem delivered_range (sent : List α) : delivered sent (List.range sent.length) = sent := by
  induction sent with
  | nil => rfl
  | cons x xs ih =>
    rw [List.length_cons, List.range_succ_eq_map, delivered_cons rfl, delivered,
      List.filterMap_map]
    exact congrArg (x :: ·) ih

/-- `p` を満たす message の番号だけを選べば、届いたもののうち `p` を満たすものになる。 -/
theorem delivered_filter (p : α → Bool) :
    delivered sent (is.filter fun i => sent[i]?.any p) = (delivered sent is).filter p := by
  unfold delivered
  rw [List.filterMap_filter, List.filter_filterMap]
  refine List.filterMap_congr ?_
  intro i _
  cases hx : sent[i]? with
  | none => simp
  | some x => cases hp : p x <;> simp [hp, Option.filter]

/-- 増えていく番号の列は、`0` からの番号のうち選ばれたものを並べたものである。 -/
theorem filter_lt_eq (h : is.Pairwise (· < ·)) (n : Nat) :
    is.filter (· < n) = (List.range n).filter (· ∈ is) := by
  refine List.Pairwise.eq_of_mem_iff (h.filter _)
    ((List.pairwise_lt_range).filter _) ?_
  intro i
  simp [and_comm]

/-- 番号の増えていく通信路では、選ばれた番号の順に並ぶ。 -/
theorem delivered_eq (h : is.Pairwise (· < ·)) :
    delivered sent is = delivered sent ((List.range sent.length).filter (· ∈ is)) := by
  rw [← filter_lt_eq h, delivered, delivered, List.filterMap_filter]
  refine List.filterMap_congr ?_
  intro i _
  by_cases hi : i < sent.length
  · simp [hi]
  · simp [hi]

/-- 前後も重なりもしない通信路では、失われるだけである。 -/
theorem delivered_sublist (h : is.Pairwise (· < ·)) : (delivered sent is).Sublist sent := by
  rw [delivered_eq h]
  have hsub : (delivered sent ((List.range sent.length).filter (· ∈ is))).Sublist
      (delivered sent (List.range sent.length)) := List.filter_sublist.filterMap _
  rwa [delivered_range] at hsub

/--
`p` を満たすものの番号が増えていき、そのどれも失われなければ、`p` を満たすものは送った順に
すべて届く。
-/
theorem filter_delivered {p : α → Bool}
    (h : (is.filter fun i => sent[i]?.any p).Pairwise (· < ·))
    (hall : ∀ i x, sent[i]? = some x → p x = true → i ∈ is) :
    (delivered sent is).filter p = sent.filter p := by
  rw [← delivered_filter, delivered_eq h]
  conv_rhs => rw [← delivered_range sent]
  unfold delivered
  rw [List.filter_filterMap, List.filterMap_filter]
  refine List.filterMap_congr ?_
  intro i _
  cases hx : sent[i]? with
  | none => simp
  | some x =>
    cases hp : p x with
    | false => simp [hx, hp, Option.filter]
    | true => simp [hx, hp, hall i x hx hp, Option.filter]

end Channel
