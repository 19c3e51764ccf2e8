import Logmoko.Intrusive.Model
import Logmoko.Lib.Run

/-!
# intrusive な list は列である

link の memory の上の `lmk_init_list`、`lmk_insert_list`、`lmk_remove_list` は、
番兵ごとの列の上の「空にする」「末尾に足す」「一つ外す」を実現する（`holds_runOps`）。
数える loop、空の判定、今の node を外しながら回る loop も、その列の言葉で言える。

外しながら回る loop では、cursor は控えておいた一つ前の node、つまり番兵へ戻る。
後始末 `dispose` は外した番地に何を残してもよい。割り当てを消しても loop は最後まで回るので、
外した後の link は読まれていない。
-/

namespace Logmoko

open Links Transition

variable {α σ : Type} [DecidableEq α]

/-! ## 操作 -/

/-- list の操作。 -/
inductive ListOp (α : Type) where
  | init (list : Option α)
  | insert (list entry : Option α)
  | remove (entry : Option α)

/-- memory の上の操作。 -/
def opStep (h : Heap α) : ListOp α → Option (Heap α)
  | .init list => lmkInitList h list
  | .insert list entry => lmkInsertList h list entry
  | .remove entry => lmkRemoveList h entry

/-- 列の上の操作。NULL を渡せば何も起きない。 -/
def applyOp (L : HeadLists α) : ListOp α → HeadLists α
  | .init (some x) => L.init x
  | .insert (some hd) (some e) => L.insert hd e
  | .remove (some x) => L.remove x
  | _ => L

/--
操作の使い方。初期化と追加の相手はどの列にも入っていない割り当てられた番地で、
追加の相手が番兵なら別の空の列の番兵である。外す相手は列に入っているか、空の列の番兵である。
-/
def ListOp.Legal (h : Heap α) (L : HeadLists α) : ListOp α → Prop
  | .init (some x) => (h x).isSome ∧ L.NotMember x
  | .insert (some hd) (some e) =>
    (L hd).isSome ∧ (h e).isSome ∧ e ≠ hd ∧ L.NotMember e ∧ (L e = none ∨ L e = some [])
  | .remove (some x) => ¬ L.NotMember x ∨ L x = some []
  | _ => True

variable {h h₀ : Heap α} {L : HeadLists α} {hd x : α} {xs : List α} {op : ListOp α}
  {ops : List (ListOp α)} {fuel : Nat}

/-- 一つの操作は、列の上の操作を実現する。 -/
theorem holds_opStep (hh : Holds h L) (hcells : SameCells h₀ h) (hlegal : op.Legal h₀ L) :
    ∃ h', opStep h op = some h' ∧ Holds h' (applyOp L op) ∧ SameCells h₀ h' := by
  cases op with
  | init list =>
    cases list with
    | none => exact ⟨h, rfl, hh, hcells⟩
    | some x =>
      obtain ⟨h', e, c, hn, hp⟩ := lmkInitList_spec ((hcells x).trans hlegal.1)
      exact ⟨h', e, hh.init hlegal.2 hn hp, hcells.trans c⟩
  | insert list entry =>
    cases list with
    | none => exact ⟨h, rfl, hh, hcells⟩
    | some hd =>
      cases entry with
      | none => exact ⟨h, rfl, hh, hcells⟩
      | some e =>
        obtain ⟨hhd, hcell, hne, hmem, -⟩ := hlegal
        obtain ⟨xs, hl⟩ := Option.isSome_iff_exists.mp hhd
        have he : e ∉ hd :: xs := fun hm => hne (hmem.eq_of_node ⟨xs, hl, hm⟩).symm
        obtain ⟨h', e', c, hn, hp⟩ :=
          lmkInsertList_spec (hh.circular hd xs hl) ((hcells e).trans hcell) he
        exact ⟨h', e', hh.insert hl hne hmem hn hp, hcells.trans c⟩
  | remove entry =>
    cases entry with
    | none => exact ⟨h, rfl, hh, hcells⟩
    | some x =>
      by_cases hx : L x = some []
      · refine ⟨h, lmkRemoveList_empty (hh.circular x [] hx), ?_, hcells⟩
        show Holds h (L.remove x)
        rw [remove_eq_self (hh.notMember_of_nil hx)]
        exact hh
      · have hmem := hlegal.resolve_right hx
        simp only [HeadLists.NotMember, not_forall, not_not] at hmem
        obtain ⟨hd, xs, hl, hm⟩ := hmem
        obtain ⟨ys, zs, rfl⟩ := List.append_of_mem hm
        obtain ⟨h', e, c, hn, hp⟩ := lmkRemoveList_spec (hh.circular hd _ hl)
        exact ⟨h', e, hh.remove hl hn hp, hcells.trans c⟩

/-- 操作の列は、列の上の操作の列を実現する。 -/
theorem holds_runOps (hh : Holds h L) (hcells : SameCells h₀ h)
    (hlegal : Along (fun L op => some (applyOp L op)) (fun L op => op.Legal h₀ L) L ops) :
    ∃ h', run opStep h ops = some h' ∧ Holds h' (ops.foldl applyOp L) ∧ SameCells h₀ h' := by
  induction ops generalizing h L with
  | nil => exact ⟨h, rfl, hh, hcells⟩
  | cons op ops ih =>
    obtain ⟨h₁, e₁, hh₁, c₁⟩ := holds_opStep hh hcells hlegal.1
    obtain ⟨h', e', hh', c'⟩ := ih hh₁ c₁ hlegal.2
    exact ⟨h', run_cons_eq_some.mpr ⟨h₁, e₁, e'⟩, hh', c'⟩

/-! ## loop -/

/-- 数える loop は、通る node の個数を足す。 -/
theorem forEachFrom_count {a : α} {n : Nat} {p : Option α} (hp : Path h.next a xs hd)
    (hhd : hd ∉ xs) (hfuel : xs.length ≤ fuel) (ha : h.next a = p) :
    forEachFrom (fun _ => h) (some hd) (fun size cursor => some (size + 1, cursor)) fuel p n =
      some (n + xs.length) := by
  induction xs generalizing a n fuel p with
  | nil =>
    obtain rfl : p = some hd := ha.symm.trans hp
    cases fuel <;> simp [forEachFrom]
  | cons x xs ih =>
    obtain rfl : p = some x := ha.symm.trans hp.1
    cases fuel with
    | zero => simp at hfuel
    | succ fuel =>
      have hx : some x ≠ some hd := by
        rintro heq
        exact hhd (Option.some.inj heq ▸ List.mem_cons_self)
      obtain ⟨d, hdx, hdn⟩ := next_eq_some.mp hp.2.first
      have hrest := ih (n := n + 1) (p := d.next) hp.2
        (fun hm => hhd (List.mem_cons_of_mem _ hm)) (Nat.le_of_succ_le_succ hfuel)
        (by rw [hdn]; exact hp.2.first)
      rw [forEachFrom, if_neg hx]
      simp only [Option.bind_eq_bind, Option.bind_some, load_some, hdx, hrest, List.length_cons]
      rw [Nat.add_assoc, Nat.add_comm 1]

/-- list の長さ。 -/
theorem lmkGetListSize_spec (hc : Circular h hd xs) (hfuel : xs.length ≤ fuel) :
    lmkGetListSize h (some hd) fuel = some xs.length := by
  obtain ⟨d, hdcell, hdn⟩ := next_eq_some.mp hc.next.first
  have hloop := forEachFrom_count (n := 0) (p := d.next) hc.next
    (List.nodup_cons.mp hc.nodup).1 hfuel (by rw [hdn]; exact hc.next.first)
  simp only [lmkGetListSize, lmkForEachEntry, load_some, hdcell, Option.bind_eq_bind,
    Option.bind_some, hloop, Nat.zero_add]

/-- 先頭の node を外す本体。次に見る cursor は番兵である。 -/
theorem removingBody_spec {dispose : Heap α → α → Heap α} (visited : List α)
    (hdispose : ∀ h x y, y ≠ x → dispose h x y = h y) (hh : Holds h L)
    (hl : L hd = some (x :: xs)) :
    ∃ h', removingBody dispose (h, visited) (some x) = some ((h', visited ++ [x]), some hd) ∧
      Holds h' (Function.update L hd (some xs)) := by
  -- 先頭の node の手前は番兵である
  have hsplit : L hd = some ([] ++ x :: xs) := hl
  have hc := hh.circular hd _ hsplit
  have hprev : h.prev x = some hd := hc.split.2.2.2
  obtain ⟨d, hdx, hdp⟩ := prev_eq_some.mp hprev
  obtain ⟨h₁, e₁, -, hn, hp⟩ := lmkRemoveList_spec hc
  have hrem := hh.remove hsplit hn hp
  rw [remove_eq_update hh hsplit, List.nil_append] at hrem
  refine ⟨dispose h₁ x, ?_, hrem.dispose ?_ (hdispose h₁ x)⟩
  · simp only [removingBody, load_some, hdx, hdp, e₁, Option.bind_eq_bind, Option.bind_some,
      Option.pure_def]
  · -- 外した node は、もうどの環の番地でもない
    rintro hd' ⟨ys, hl', hm⟩
    by_cases heq : hd' = hd
    · subst heq
      rw [Function.update_self] at hl'
      obtain rfl := Option.some.inj hl'
      have hnd : (hd' :: x :: xs).Nodup := hc.nodup
      simp only [List.nodup_cons, List.mem_cons, not_or] at hnd hm
      rcases hm with rfl | hm
      · exact hnd.1.1 rfl
      · exact hnd.2.1 hm
    · rw [Function.update_of_ne heq] at hl'
      exact heq (hh.unique hd' hd x ⟨ys, hl', hm⟩ ⟨_, hl, by simp⟩)

/-- 今の node を外しながら回る loop は、列の node を順に一度ずつ訪れ、空の list を残す。 -/
theorem forEachFrom_removing {dispose : Heap α → α → Heap α} (visited : List α)
    {p : Option α} (hdispose : ∀ h x y, y ≠ x → dispose h x y = h y) (hh : Holds h L)
    (hl : L hd = some xs) (hfuel : xs.length ≤ fuel) (hp : h.next hd = p) :
    ∃ h', forEachFrom Prod.fst (some hd) (removingBody dispose) fuel p (h, visited) =
        some (h', visited ++ xs) ∧ Holds h' (Function.update L hd (some [])) := by
  induction xs generalizing h L fuel p visited with
  | nil =>
    obtain rfl : p = some hd := hp.symm.trans (hh.circular hd [] hl).next.first
    refine ⟨h, ?_, ?_⟩
    · rw [List.append_nil]
      cases fuel <;> simp [forEachFrom]
    · rw [← hl, Function.update_eq_self]
      exact hh
  | cons x xs ih =>
    have hc := hh.circular hd (x :: xs) hl
    obtain rfl : p = some x := hp.symm.trans hc.next.first
    cases fuel with
    | zero => simp at hfuel
    | succ fuel =>
      have hx : some x ≠ some hd := by
        rintro heq
        exact (List.nodup_cons.mp hc.nodup).1 (Option.some.inj heq ▸ List.mem_cons_self)
      obtain ⟨h₁, e₁, hh₁⟩ := removingBody_spec visited hdispose hh hl
      have hl₁ : Function.update L hd (some xs) hd = some xs := Function.update_self _ _ _
      obtain ⟨d, hdcell, hdn⟩ := next_eq_some.mp (hh₁.circular hd xs hl₁).next.first
      obtain ⟨h', e', hh'⟩ := ih (visited ++ [x]) (p := d.next) hh₁ hl₁
        (Nat.le_of_succ_le_succ hfuel) (by rw [hdn]; exact (hh₁.circular hd xs hl₁).next.first)
      refine ⟨h', ?_, ?_⟩
      · rw [forEachFrom, if_neg hx]
        simp only [e₁, Option.bind_eq_bind, Option.bind_some, load_some, hdcell, e']
        rw [List.append_assoc, List.singleton_append]
      · rw [Function.update_idem] at hh'
        exact hh'

/--
**intrusive な list は列である。**

互いに交わらない環をいくつでも持つ memory から、初期化と、列に入っていない番地の追加と、
列に入っている番地の取り外しをどんな順に行っても、操作はどれも成功し、
memory は列の上で同じ操作をした結果を持つ。そのどの番兵 `hd` の列 `xs` についても、
`next` でたどれば `xs`、`prev` でたどればその逆になり、長さと空の判定も `xs` のものである。
今の node を外しながら回る loop は、`xs` の node を順に一度ずつ訪れて終わり、
他の列を変えずに空の list を残す。外した番地に後始末が何を残しても、
割り当てを消しても、そうである。
-/
theorem lmkList_implements_sequences (h₀ : Heap α) (L₀ : HeadLists α) (ops : List (ListOp α))
    (hh : Holds h₀ L₀)
    (hlegal : Along (fun L op => some (applyOp L op)) (fun L op => op.Legal h₀ L) L₀ ops) :
    ∃ h, run opStep h₀ ops = some h ∧ Holds h (ops.foldl applyOp L₀) ∧
      ∀ hd xs, ops.foldl applyOp L₀ hd = some xs → xs.Nodup ∧ ∀ fuel, xs.length ≤ fuel →
        (h.next hd).bind (walk h.next hd fuel) = some xs ∧
        (h.prev hd).bind (walk h.prev hd fuel) = some xs.reverse ∧
        lmkGetListSize h (some hd) fuel = some xs.length ∧
        lmkIsListEmpty h (some hd) = some (if xs = [] then 1 else 0) ∧
        ∀ dispose : Heap α → α → Heap α, (∀ h x y, y ≠ x → dispose h x y = h y) →
          ∃ h', lmkForEachEntry Prod.fst (some hd) (removingBody dispose) fuel (h, []) =
              some (h', xs) ∧
            Holds h' (Function.update (ops.foldl applyOp L₀) hd (some [])) := by
  obtain ⟨h, hrun, hholds, -⟩ := holds_runOps hh (SameCells.refl h₀) hlegal
  refine ⟨h, hrun, hholds, ?_⟩
  intro hd xs hl
  have hc := hholds.circular hd xs hl
  refine ⟨(List.nodup_cons.mp hc.nodup).2, ?_⟩
  intro fuel hfuel
  obtain ⟨hnext, hprev⟩ := hc.walk_eq hfuel
  refine ⟨hnext, hprev, lmkGetListSize_spec hc hfuel, lmkIsListEmpty_spec hc, ?_⟩
  intro dispose hdispose
  obtain ⟨d, hdcell, hdn⟩ := next_eq_some.mp hc.next.first
  obtain ⟨h', e', hh'⟩ := forEachFrom_removing [] (p := d.next) hdispose hholds hl
    hfuel (by rw [hdn]; exact hc.next.first)
  refine ⟨h', ?_, hh'⟩
  simp only [lmkForEachEntry, load_some, hdcell, Option.bind_eq_bind, Option.bind_some]
  exact e'

/-- 三つの番地がある、まだ何も初期化していない memory。 -/
def freshCells : Heap (Fin 3) := fun _ => some { next := none, prev := none }

/-- 番兵 0 に 1 と 2 を足し、1 を外して、もう一度足す。 -/
def reinsertOps : List (ListOp (Fin 3)) :=
  let hd : Fin 3 := ⟨0, Nat.succ_pos 2⟩
  let x : Fin 3 := ⟨1, Nat.one_lt_succ_succ 1⟩
  let y : Fin 3 := ⟨2, Nat.lt_succ_self 2⟩
  [.init (some hd), .init (some x), .insert (some hd) (some x), .insert (some hd) (some y),
    .remove (some x), .insert (some hd) (some x)]

theorem lmkList_implements_sequences_reinsertOps :
    ∃ h, run opStep freshCells reinsertOps = some h ∧
      (h.next 0).bind (walk h.next 0 2) = some [2, 1] ∧
      (h.prev 0).bind (walk h.prev 0 2) = some [1, 2] ∧ lmkGetListSize h (some 0) 2 = some 2 := by
  have hnot : ∀ (L : HeadLists (Fin 3)) x, (∀ hd, x ∉ (L hd).getD []) → L.NotMember x := by
    intro L x hx hd xs hl hm
    refine hx hd ?_
    rw [hl]
    exact hm
  have hlegal : Along (fun L op => some (applyOp L op)) (fun L op => op.Legal freshCells L)
      (fun _ => none) reinsertOps := by
    refine ⟨⟨rfl, hnot _ _ (by decide)⟩, ⟨rfl, hnot _ _ (by decide)⟩,
      ⟨rfl, rfl, by decide, hnot _ _ (by decide), Or.inr rfl⟩,
      ⟨rfl, rfl, by decide, hnot _ _ (by decide), Or.inl rfl⟩, Or.inl ?_,
      ⟨rfl, rfl, by decide, hnot _ _ (by decide), Or.inl rfl⟩, trivial⟩
    intro hmem
    exact hmem 0 [1, 2] rfl (by decide)
  obtain ⟨h, hrun, -, hlists⟩ :=
    lmkList_implements_sequences freshCells (fun _ => none) reinsertOps (holds_empty _) hlegal
  obtain ⟨hn, hp, hsize, -⟩ := (hlists 0 [2, 1] rfl).2 2 (Nat.le_refl 2)
  exact ⟨h, hrun, hn, hp, hsize⟩

end Logmoko
