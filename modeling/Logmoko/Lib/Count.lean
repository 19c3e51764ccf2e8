import Mathlib.Data.Finset.Card
import Mathlib.Logic.Function.Basic

/-!
# 条件を満たす process の個数

process ごとの位置 `f : ι → β` のうち、条件 `P` を満たすものが有限個、ちょうど `n` 個であること。
`ι` が有限である必要はない。一つの process の位置を書き換えたとき、個数は
一つ増えるか、一つ減るか、変わらないかのどれかである。
-/

namespace Counting

variable {ι β : Type*} {P : β → Prop} {f : ι → β} {n : Nat} {p : ι} {x : β}

/-- 条件 `P` を満たす process はちょうど `n` 個である。 -/
def CountIs (P : β → Prop) (f : ι → β) (n : Nat) : Prop :=
  ∃ F : Finset ι, F.card = n ∧ ∀ p, p ∈ F ↔ P (f p)

theorem countIs_zero (h : ∀ p, ¬ P (f p)) : CountIs P f 0 :=
  ⟨∅, rfl, fun p => by simp [h p]⟩

theorem CountIs.eq_zero (hc : CountIs P f n) (h : ∀ p, ¬ P (f p)) : n = 0 := by
  obtain ⟨F, rfl, hF⟩ := hc
  rw [Finset.card_eq_zero, Finset.eq_empty_iff_forall_notMem]
  exact fun p hp => h p ((hF p).mp hp)

variable [DecidableEq ι]

/-- 位置を書き換えた process が条件の外に留まるか、内に留まる。 -/
theorem CountIs.stay (hc : CountIs P f n) (h : P x ↔ P (f p)) :
    CountIs P (Function.update f p x) n := by
  obtain ⟨F, hcard, hF⟩ := hc
  refine ⟨F, hcard, ?_⟩
  intro q
  by_cases hq : q = p
  · subst hq
    rw [Function.update_self, hF, h]
  · rw [Function.update_of_ne hq, hF]

/-- 位置を書き換えた process が条件の中に入る。 -/
theorem CountIs.enter (hc : CountIs P f n) (hout : ¬ P (f p)) (hin : P x) :
    CountIs P (Function.update f p x) (n + 1) := by
  obtain ⟨F, hcard, hF⟩ := hc
  have hp : p ∉ F := fun hp => hout ((hF p).mp hp)
  refine ⟨insert p F, by rw [Finset.card_insert_of_notMem hp, hcard], ?_⟩
  intro q
  by_cases hq : q = p
  · subst hq
    simp [hin]
  · simp [hq, hF]

/-- 位置を書き換えた process が条件の外に出る。 -/
theorem CountIs.leave (hc : CountIs P f n) (hin : P (f p)) (hout : ¬ P x) :
    ∃ m, n = m + 1 ∧ CountIs P (Function.update f p x) m := by
  obtain ⟨F, rfl, hF⟩ := hc
  have hp : p ∈ F := (hF p).mpr hin
  refine ⟨(F.erase p).card, (Finset.card_erase_add_one hp).symm, F.erase p, rfl, ?_⟩
  intro q
  by_cases hq : q = p
  · subst hq
    simp [hout]
  · simp [hq, hF]

end Counting
