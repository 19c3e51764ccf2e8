import Mathlib.Data.List.Basic
import Mathlib.Data.List.Count

/-!
# 資源の獲得と解放の記録

誰がどの資源を獲得し、使い、解放したかを、起こった順に並べた列を記録とする。

* `Owns` — 獲得した資源を、まだ誰も解放していないこと
* `Disciplined` — 使用と解放は、持っている者だけがすること
* `ReleasedOnce` — 獲得した資源を、ちょうど一度ずつ解放したこと
* `releasedOnce_of_balanced` — 獲得と解放の回数が等しく、二度獲得していなければよい
-/

namespace Ledger

/-- 記録の一件。`ω` は持ち主、`ρ` は資源である。 -/
inductive Event (ω ρ : Type) where
  | acquire (o : ω) (x : ρ)
  | use (o : ω) (x : ρ)
  | release (o : ω) (x : ρ)
deriving DecidableEq

variable {ω ρ : Type} {tr l : List (Event ω ρ)} {e : Event ω ρ} {o : ω} {x : ρ}

/-- 記録 `tr` の後で、`o` は自分の獲得した `x` を持っている。 -/
def Owns (tr : List (Event ω ρ)) (o : ω) (x : ρ) : Prop :=
  ∃ a b, tr = a ++ .acquire o x :: b ∧ ∀ o', .release o' x ∉ b

/-- 使用と解放は、その資源を持っている者にだけ許される。 -/
def Event.Allowed (tr : List (Event ω ρ)) : Event ω ρ → Prop
  | .acquire _ _ => True
  | .use o x | .release o x => Owns tr o x

/-- 記録のどの一件も、その直前の記録の下で許される。 -/
def Disciplined (tr : List (Event ω ρ)) : Prop := ∀ a e b, tr = a ++ e :: b → e.Allowed a

/-- `o` が獲得した資源は、ちょうど一度ずつ解放されている。 -/
def ReleasedOnce [DecidableEq ω] [DecidableEq ρ] (tr : List (Event ω ρ)) (o : ω) : Prop :=
  ∀ x, .acquire o x ∈ tr → tr.count (.release o x) = 1

theorem owns_acquire : Owns (tr ++ [.acquire o x]) o x := ⟨tr, [], rfl, by simp⟩

theorem Owns.mem (h : Owns tr o x) : .acquire o x ∈ tr := by
  obtain ⟨a, b, rfl, -⟩ := h
  exact List.mem_append_right _ List.mem_cons_self

/-- 解放されない限り、持ち続ける。 -/
theorem Owns.append (h : Owns tr o x) (hl : ∀ o', .release o' x ∉ l) : Owns (tr ++ l) o x := by
  obtain ⟨a, b, rfl, hb⟩ := h
  refine ⟨a, b ++ l, by simp, ?_⟩
  intro o' hm
  rcases List.mem_append.mp hm with hm | hm
  · exact hb o' hm
  · exact hl o' hm

theorem disciplined_nil : Disciplined ([] : List (Event ω ρ)) := by
  intro a e b h
  simp at h

theorem disciplined_snoc : Disciplined (tr ++ [e]) ↔ Disciplined tr ∧ e.Allowed tr := by
  constructor
  · intro h
    refine ⟨?_, h tr e [] rfl⟩
    rintro a e' b rfl
    exact h a e' (b ++ [e]) (by simp)
  · rintro ⟨htr, he⟩ a e' b heq
    rcases List.eq_nil_or_concat' b with rfl | ⟨b, last, rfl⟩
    · obtain ⟨rfl, hlast⟩ := List.append_inj' heq rfl
      obtain rfl : e = e' := List.singleton_inj.mp hlast
      exact he
    · have heq' : tr ++ [e] = (a ++ e' :: b) ++ [last] := by simpa using heq
      exact htr a e' b (List.append_inj' heq' rfl).1

/-! ## 獲得と解放の回数 -/

/-- 資源を順に獲得する。 -/
def acquireAll (o : ω) (xs : List ρ) : List (Event ω ρ) := xs.map (.acquire o)

/-- 資源を順に解放する。 -/
def releaseAll (o : ω) (xs : List ρ) : List (Event ω ρ) := xs.map (.release o)

section

variable [DecidableEq ω] [DecidableEq ρ] {xs : List ρ}

@[simp] theorem count_acquire_acquireAll :
    (acquireAll o xs).count (.acquire o x) = xs.count x :=
  List.count_map_of_injective xs (Event.acquire o) (fun _ _ h => by cases h; rfl) x

@[simp] theorem count_release_releaseAll :
    (releaseAll o xs).count (.release o x) = xs.count x :=
  List.count_map_of_injective xs (Event.release o) (fun _ _ h => by cases h; rfl) x

@[simp] theorem count_release_acquireAll : (acquireAll o xs).count (.release o x) = 0 := by
  rw [List.count_eq_zero]
  simp [acquireAll]

@[simp] theorem count_acquire_releaseAll : (releaseAll o xs).count (.acquire o x) = 0 := by
  rw [List.count_eq_zero]
  simp [releaseAll]

theorem releasedOnce_of_balanced (hone : ∀ x, tr.count (.acquire o x) ≤ 1)
    (hbal : ∀ x, tr.count (.release o x) = tr.count (.acquire o x)) : ReleasedOnce tr o := by
  intro x hm
  have hpos := List.count_pos_iff.mpr hm
  have := hone x
  rw [hbal]
  omega

end

end Ledger
