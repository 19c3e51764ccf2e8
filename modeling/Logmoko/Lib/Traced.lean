import Mathlib.Data.Option.Basic

/-!
# 範囲の検査と書き込みの記録

memory `σ` の上の計算を、範囲の外に触れると失敗し、書き込むたびにその後の memory を記録する
関数として表す。だから「途中のどの時点でも `I` が成り立つ」ことは、記録された memory が
すべて `I` を満たすことである。

`wp I x Q s` は、`s` から始めた `x` が失敗せず、途中でつねに `I` が成り立ち、
終わりの値と memory が `Q` を満たすことを言う。規則は計算の形に沿って
`wp_pure`・`wp_bind`・`wp_read`・`wp_write`・`wp_ite` であり、弱めるのは `wp_mono` である。
-/

namespace Traced

variable {σ α β : Type} {I J : σ → Prop} {Q Q' : α → σ → Prop} {R : β → σ → Prop} {s t : σ} {a : α}

/-- 結果は、値、終わりの memory、書き込みのたびの memory である。 -/
def Exec (σ α : Type) : Type := σ → Option (α × σ × List σ)

namespace Exec

protected def pure (a : α) : Exec σ α := fun s => some (a, s, [])

protected def bind (x : Exec σ α) (f : α → Exec σ β) : Exec σ β := fun s =>
  (x s).bind fun r => (f r.1 r.2.1).map fun r' => (r'.1, r'.2.1, r.2.2 ++ r'.2.2)

instance : Monad (Exec σ) where
  pure := Exec.pure
  bind := Exec.bind

end Exec

/-- memory を読む。範囲の外ならば失敗する。 -/
def read (f : σ → Option α) : Exec σ α := fun s => (f s).map fun a => (a, s, [])

/-- memory に書く。範囲の外ならば失敗する。 -/
def write (f : σ → Option σ) : Exec σ Unit := fun s => (f s).map fun t => ((), t, [t])

/-- 失敗せずに終わり、途中でつねに `I` が、終わりで `Q` が成り立つ。 -/
def wp (I : σ → Prop) (x : Exec σ α) (Q : α → σ → Prop) (s : σ) : Prop :=
  ∃ a t tr, x s = some (a, t, tr) ∧ (∀ u ∈ tr, I u) ∧ Q a t

/-! ## 規則 -/

theorem wp_pure (h : Q a s) : wp I (pure a) Q s :=
  ⟨a, s, [], rfl, fun _ hu => (List.not_mem_nil hu).elim, h⟩

theorem wp_read {f : σ → Option α} (hf : f s = some a) (h : Q a s) : wp I (read f) Q s := by
  refine ⟨a, s, [], ?_, fun _ hu => (List.not_mem_nil hu).elim, h⟩
  unfold read
  rw [hf]
  rfl

theorem wp_write {Q : Unit → σ → Prop} {f : σ → Option σ} (hf : f s = some t) (hI : I t)
    (h : Q () t) : wp I (write f) Q s := by
  refine ⟨(), t, [t], ?_, ?_, h⟩
  · unfold write
    rw [hf]
    rfl
  · intro u hu
    obtain rfl := List.mem_singleton.mp hu
    exact hI

theorem wp_bind {x : Exec σ α} {f : α → Exec σ β} (h : wp I x (fun a t => wp I (f a) R t) s) :
    wp I (x >>= f) R s := by
  obtain ⟨a, t, tr, hx, hI, b, u, tr', hf, hI', hR⟩ := h
  refine ⟨b, u, tr ++ tr', ?_, ?_, hR⟩
  · show (x s).bind _ = _
    rw [hx]
    show ((f a) t).map _ = _
    rw [hf]
    rfl
  · intro v hv
    rcases List.mem_append.mp hv with hv | hv
    · exact hI v hv
    · exact hI' v hv

theorem wp_ite {c : Prop} [Decidable c] {x y : Exec σ α} (hx : c → wp I x Q s)
    (hy : ¬ c → wp I y Q s) : wp I (if c then x else y) Q s := by
  split
  · next h => exact hx h
  · next h => exact hy h

theorem wp_mono {x : Exec σ α} (h : wp I x Q s) (hI : ∀ t, I t → J t)
    (hQ : ∀ a t, Q a t → Q' a t) : wp J x Q' s := by
  obtain ⟨a, t, tr, hx, htr, hq⟩ := h
  exact ⟨a, t, tr, hx, fun u hu => hI u (htr u hu), hQ a t hq⟩

theorem wp_post {x : Exec σ α} (h : wp I x Q s) (hQ : ∀ a t, Q a t → Q' a t) : wp I x Q' s :=
  wp_mono h (fun _ hI => hI) hQ

end Traced
