import Mathlib.Data.List.Basic
import Mathlib.Data.List.Sublists
import Mathlib.Logic.Function.Basic

/-!
# 一度に一つずつ出す依頼

依頼者 `ι` はそれぞれ、値 `α` の依頼を一度に一つだけ出し、それが受理されるか
断られるかするまで次を出さない。受理の順は依頼者の間では決まっていない。

一人の依頼者について見れば、受理された値の列は出した値の列の部分列であり（`accepted_sublist`）、
断られたものが無ければ出した順のままそろっている（`accepted_eq`）。
-/

namespace Submission

variable {ι α : Type*}

/-- 依頼に起こること。 -/
inductive Event (ι α : Type*) where
  | submit (p : ι) (x : α)
  | accept (p : ι) (x : α)
  | reject (p : ι) (x : α)

/-- 依頼者ごとの、答えを待っている値。 -/
abbrev Pending (ι α : Type*) := ι → Option α

section

variable [DecidableEq ι]

/-- 一つの出来事が、待っている値をどう変えうるか。 -/
inductive Step (w : Pending ι α) : Event ι α → Pending ι α → Prop where
  | submit {p x} (h : w p = none) : Step w (.submit p x) (Function.update w p (some x))
  | accept {p x} (h : w p = some x) : Step w (.accept p x) (Function.update w p none)
  | reject {p x} (h : w p = some x) : Step w (.reject p x) (Function.update w p none)

/-- 出来事の列 `tr` の後で、待っている値が `w` である。 -/
inductive Log : List (Event ι α) → Pending ι α → Prop where
  | start : Log [] fun _ => none
  | step {tr w e w'} (h : Log tr w) (hs : Step w e w') : Log (tr ++ [e]) w'

/-- 依頼者 `p` が出した値。 -/
def submitted (p : ι) : List (Event ι α) → List α :=
  List.filterMap fun
    | .submit q x => if q = p then some x else none
    | .accept _ _ | .reject _ _ => none

/-- 依頼者 `p` の受理された値。 -/
def accepted (p : ι) : List (Event ι α) → List α :=
  List.filterMap fun
    | .accept q x => if q = p then some x else none
    | .submit _ _ | .reject _ _ => none

/-- 依頼者 `p` の断られた値。 -/
def rejected (p : ι) : List (Event ι α) → List α :=
  List.filterMap fun
    | .reject q x => if q = p then some x else none
    | .submit _ _ | .accept _ _ => none

end

/-- 受理された値を、依頼者と組にして受理の順に並べたもの。 -/
def acceptances : List (Event ι α) → List (ι × α) :=
  List.filterMap fun
    | .accept p x => some (p, x)
    | .submit _ _ | .reject _ _ => none

variable [DecidableEq ι] {tr : List (Event ι α)} {w : Pending ι α}

/-- 依頼者を決めれば、受理の全体からその依頼者の分が読める。 -/
theorem accepted_eq_filterMap (p : ι) (tr : List (Event ι α)) :
    accepted p tr = (acceptances tr).filterMap fun a => if a.1 = p then some a.2 else none := by
  rw [acceptances, List.filterMap_filterMap]
  unfold accepted
  congr 1
  funext e
  cases e <;> rfl

/-- 受理された値の列は、待っている値を足しても、出した値の列の部分列である。 -/
theorem accepted_sublist (h : Log tr w) (p : ι) :
    (accepted p tr ++ (w p).toList).Sublist (submitted p tr) := by
  induction h with
  | start => exact List.Sublist.refl []
  | @step tr w e w' _ hs ih =>
    unfold accepted submitted at ih ⊢
    rw [List.filterMap_append, List.filterMap_append]
    cases hs with
    | @submit q x hq =>
      by_cases hp : q = p
      · subst hp
        rw [hq] at ih
        simpa using ih.append_right [x]
      · simpa [hp, Function.update_of_ne (Ne.symm hp)] using ih
    | @accept q x hq =>
      by_cases hp : q = p
      · subst hp
        rw [hq] at ih
        simpa using ih
      · simpa [hp, Function.update_of_ne (Ne.symm hp)] using ih
    | @reject q x hq =>
      by_cases hp : q = p
      · subst hp
        rw [hq] at ih
        simpa using (List.sublist_append_left _ _).trans ih
      · simpa [hp, Function.update_of_ne (Ne.symm hp)] using ih

/-- 出した値は、受理されたか、断られたか、待っているかのどれかである。 -/
theorem length_submitted (h : Log tr w) (p : ι) :
    (submitted p tr).length
      = (accepted p tr).length + (rejected p tr).length + (w p).toList.length := by
  induction h with
  | start => rfl
  | @step tr w e w' _ hs ih =>
    unfold accepted submitted rejected at ih ⊢
    rw [List.filterMap_append, List.filterMap_append, List.filterMap_append]
    cases hs with
    | @submit q x hq | @accept q x hq | @reject q x hq =>
      by_cases hp : q = p
      · subst hp
        rw [hq] at ih
        simp at ih ⊢
        omega
      · simpa [hp, Function.update_of_ne (Ne.symm hp)] using ih

/-- 断られたものが無ければ、受理された値は出した順のままそろっている。 -/
theorem accepted_eq (h : Log tr w) {p : ι} (hp : rejected p tr = []) :
    accepted p tr ++ (w p).toList = submitted p tr := by
  refine (accepted_sublist h p).eq_of_length ?_
  rw [length_submitted h, hp, List.length_append]
  rfl

end Submission
