import Logmoko.Lib.Run

/-!
# 容量つき FIFO queue

抽象的な FIFO queue を遷移系として置く。入れた順の列 `inputs` と出した順の列 `outputs` を
状態に持たせ、`outputs ++ items = inputs` をどの実行も保つことを示す。
実装がこの系に写せれば、「出た列は入れた列の先頭」がそのまま従う。
-/

namespace Fifo

open Transition

variable {α : Type*}

/-- queue の操作。 -/
inductive Op (α : Type*) where
  | enq (a : α)
  | deq

/-- queue の中身と、これまでに入れた列・出した列。 -/
structure Queue (α : Type*) where
  items : List α
  inputs : List α
  outputs : List α

/-- 空の queue。 -/
def empty : Queue α := { items := [], inputs := [], outputs := [] }

/-- 容量 `cap` の queue の一 step。満杯なら入らず、空なら出ない。 -/
def step (cap : Nat) (q : Queue α) : Op α → Option (Queue α)
  | .enq a =>
    if q.items.length < cap then
      some { q with items := q.items ++ [a], inputs := q.inputs ++ [a] }
    else none
  | .deq =>
    match q.items with
    | [] => none
    | a :: rest => some { q with items := rest, outputs := q.outputs ++ [a] }

/-- 出した列に中身を続けると、入れた列になる。 -/
def Balanced (q : Queue α) : Prop := q.outputs ++ q.items = q.inputs

theorem balanced_empty : Balanced (empty : Queue α) := rfl

theorem balanced_step {cap : Nat} {q q' : Queue α} {op : Op α} (h : Balanced q)
    (hs : step cap q op = some q') : Balanced q' := by
  unfold Balanced at *
  cases op with
  | enq a =>
    simp only [step] at hs
    split at hs
    · rw [← Option.some.inj hs]
      simp only [← h, List.append_assoc]
    · simp at hs
  | deq =>
    simp only [step] at hs
    split at hs
    · simp at hs
    · next a rest hi =>
      rw [← Option.some.inj hs]
      simp only [← h, hi, List.append_assoc, List.cons_append, List.nil_append]

/-- **FIFO。** どの実行でも、出した列は入れた列の先頭である。 -/
theorem outputs_prefix {cap : Nat} {q : Queue α} (h : Reachable (step cap) empty q) :
    q.outputs <+: q.inputs := by
  have hb : Balanced q := h.invariant (fun _ _ _ hb hs => balanced_step hb hs) balanced_empty
  exact ⟨q.items, hb⟩

end Fifo
