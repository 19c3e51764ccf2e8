import Mathlib.Data.List.Induction
import Mathlib.Data.Option.Basic

/-!
# 遷移系の実行

遷移系を、動作を受けて次の状態を返す部分関数 `step : σ → α → Option σ` で与える。
非決定性（どの thread が動くか、CAS が偽の失敗をするか）はすべて動作 `α` の側にあるので、
「あらゆる interleaving について」は「あらゆる動作列について」になる。

* `run` — 動作列の実行
* `Along` — 実行の各 step で、直前の状態と動作が条件を満たすこと
* `run_invariant` — 一 step の保存から実行全体の保存を得る帰納法
* `run_length_le` / `exists_replicate_run` — 減っていく量による停止
* `emitted` — 実行の各 step が外に出したもの
* `Reachable.simulates` — 別の遷移系への射影（refinement）
* `run_lockstep` — 一 step ずつ写り合う二つの遷移系
-/

namespace Transition

variable {σ α τ β : Type*}

/-- 動作列を順に実行する。どこかで動作が許されなければ `none`。 -/
def run (step : σ → α → Option σ) : σ → List α → Option σ
  | s, [] => some s
  | s, a :: as => (step s a).bind fun s' => run step s' as

/-- 実行の各 step で、直前の状態と動作が `P` を満たす。 -/
def Along (step : σ → α → Option σ) (P : σ → α → Prop) : σ → List α → Prop
  | _, [] => True
  | s, a :: as => P s a ∧ match step s a with
    | some s' => Along step P s' as
    | none => True

instance decidableAlong (step : σ → α → Option σ) (P : σ → α → Prop)
    [∀ s a, Decidable (P s a)] : ∀ s as, Decidable (Along step P s as)
  | _, [] => inferInstanceAs (Decidable True)
  | s, a :: as =>
    match h : step s a with
    | some s' =>
      have := decidableAlong step P s' as
      decidable_of_iff (P s a ∧ Along step P s' as) (by simp [Along, h])
    | none => decidable_of_iff (P s a) (by simp [Along, h])

/-- 初期状態 `s₀` から到達できる状態。 -/
def Reachable (step : σ → α → Option σ) (s₀ s : σ) : Prop := ∃ as, run step s₀ as = some s

section

variable {step : σ → α → Option σ} {P Q : σ → α → Prop} {s t u : σ} {a : α} {as bs : List α}

@[simp] theorem run_nil : run step s [] = some s := rfl

theorem run_cons_eq_some :
    run step s (a :: as) = some t ↔ ∃ s', step s a = some s' ∧ run step s' as = some t := by
  simp only [run, Option.bind_eq_some_iff]

theorem run_singleton : run step s [a] = step s a := Option.bind_fun_some _

theorem run_append_eq_some :
    run step s (as ++ bs) = some t ↔ ∃ u, run step s as = some u ∧ run step u bs = some t := by
  induction as generalizing s with
  | nil => simp
  | cons a as ih =>
    simp only [List.cons_append, run_cons_eq_some, ih]
    constructor
    · rintro ⟨s', hs, u, hu, ht⟩
      exact ⟨u, ⟨s', hs, hu⟩, ht⟩
    · rintro ⟨u, ⟨s', hs, hu⟩, ht⟩
      exact ⟨s', hs, u, hu, ht⟩

theorem run_snoc_eq_some :
    run step s (as ++ [a]) = some t ↔ ∃ u, run step s as = some u ∧ step u a = some t := by
  simp [run_append_eq_some, run_cons_eq_some]

/-! ## 各 step の条件 -/

theorem along_cons (h : step s a = some t) :
    Along step P s (a :: as) ↔ P s a ∧ Along step P t as := by
  simp [Along, h]

theorem along_singleton (h : P s a) : Along step P s [a] := by
  refine ⟨h, ?_⟩
  cases step s a <;> trivial

theorem along_append (h : run step s as = some t) :
    Along step P s (as ++ bs) ↔ Along step P s as ∧ Along step P t bs := by
  induction as generalizing s with
  | nil =>
    obtain rfl : s = t := Option.some.inj h
    exact ⟨fun h => ⟨trivial, h⟩, fun h => h.2⟩
  | cons a as ih =>
    obtain ⟨u, hu, ht⟩ := run_cons_eq_some.mp h
    rw [List.cons_append, along_cons hu, along_cons hu, ih ht, and_assoc]

/-- 実行の先頭の部分も条件を満たす。 -/
theorem along_of_append (h : Along step P s (as ++ bs)) : Along step P s as := by
  induction as generalizing s with
  | nil => trivial
  | cons a as ih =>
    refine ⟨h.1, ?_⟩
    cases hs : step s a with
    | none => trivial
    | some s' => exact ih ((along_cons hs).mp h).2

theorem Along.mono (hPQ : ∀ s a, P s a → Q s a) (h : Along step P s as) : Along step Q s as := by
  induction as generalizing s with
  | nil => trivial
  | cons a as ih =>
    refine ⟨hPQ s a h.1, ?_⟩
    cases hs : step s a with
    | none => trivial
    | some s' => exact ih ((along_cons hs).mp h).2

theorem Along.and (hP : Along step P s as) (hQ : Along step Q s as) :
    Along step (fun s a => P s a ∧ Q s a) s as := by
  induction as generalizing s with
  | nil => trivial
  | cons a as ih =>
    refine ⟨⟨hP.1, hQ.1⟩, ?_⟩
    cases hs : step s a with
    | none => trivial
    | some s' => exact ih ((along_cons hs).mp hP).2 ((along_cons hs).mp hQ).2

theorem along_of_forall (h : ∀ s a, P s a) : Along step P s as := by
  induction as generalizing s with
  | nil => trivial
  | cons a as ih =>
    refine ⟨h s a, ?_⟩
    cases step s a with
    | none => trivial
    | some s' => exact ih

/-- 動作だけで決まる条件は、実行の各 step で成り立つ。 -/
theorem along_of_forall_mem {R : α → Prop} (h : ∀ a ∈ as, R a) :
    Along step (fun _ a => R a) s as := by
  induction as generalizing s with
  | nil => trivial
  | cons a as ih =>
    refine ⟨h a List.mem_cons_self, ?_⟩
    cases step s a with
    | none => trivial
    | some t => exact ih fun b hb => h b (List.mem_cons_of_mem _ hb)

/-- 条件 `P` の下で一 step が同じ二つの遷移系は、`P` を満たす実行も同じである。 -/
theorem run_of_along_eq {step' : σ → α → Option σ} (heq : ∀ s a, P s a → step s a = step' s a)
    (hP : Along step P s as) (h : run step s as = some t) : run step' s as = some t := by
  induction as generalizing s with
  | nil => exact h
  | cons a as ih =>
    obtain ⟨s', hs, ht⟩ := run_cons_eq_some.mp h
    obtain ⟨hPa, hPs⟩ := (along_cons hs).mp hP
    exact run_cons_eq_some.mpr ⟨s', (heq s a hPa).symm.trans hs, ih hPs ht⟩

/-! ## 不変量 -/

/-- 条件 `P` を満たす一 step が `I` を保てば、`P` を満たす実行全体が `I` を保つ。 -/
theorem run_invariant {I : σ → Prop}
    (hstep : ∀ s a s', I s → P s a → step s a = some s' → I s')
    (hI : I s) (hP : Along step P s as) (h : run step s as = some t) : I t := by
  induction as generalizing s with
  | nil =>
    obtain rfl : s = t := Option.some.inj h
    exact hI
  | cons a as ih =>
    obtain ⟨s', hs, ht⟩ := run_cons_eq_some.mp h
    obtain ⟨hPa, hPs⟩ := (along_cons hs).mp hP
    exact ih (hstep s a s' hI hPa hs) hPs ht

/-- 保たれる `I` は、実行の各 step の直前の状態でも成り立つ。 -/
theorem Along.invariant {I : σ → Prop}
    (hstep : ∀ s a s', I s → P s a → step s a = some s' → I s')
    (hI : I s) (hP : Along step P s as) : Along step (fun s a => I s ∧ P s a) s as := by
  induction as generalizing s with
  | nil => trivial
  | cons a as ih =>
    refine ⟨⟨hI, hP.1⟩, ?_⟩
    cases hs : step s a with
    | none => trivial
    | some s' => exact ih (hstep s a s' hI hP.1 hs) ((along_cons hs).mp hP).2

/-- どの step も保つ性質は、到達できる状態すべてで成り立つ。 -/
theorem Reachable.invariant {I : σ → Prop} (hstep : ∀ s a s', I s → step s a = some s' → I s')
    (hI : I s) (h : Reachable step s t) : I t := by
  obtain ⟨as, has⟩ := h
  exact run_invariant (P := fun _ _ => True) (fun s a s' hs _ h => hstep s a s' hs h) hI
    (along_of_forall fun _ _ => trivial) has

/--
不変量 `J` の下で、`I` を満たす状態からの一 step が `I` を保つのがちょうど `P` のときであれば、
実行の各 step が `P` を満たすことと、途中の状態がすべて `I` を満たすことは同じである。
-/
theorem along_iff_of_prefixes {I J : σ → Prop}
    (hJ : ∀ s a s', J s → step s a = some s' → J s')
    (hstep : ∀ s a s', J s → I s → step s a = some s' → (I s' ↔ P s a))
    (hJs : J s) (hIs : I s) (h : run step s as = some t) :
    Along step P s as ↔ ∀ bs u, bs <+: as → run step s bs = some u → I u := by
  induction as generalizing s with
  | nil =>
    refine ⟨?_, fun _ => trivial⟩
    intro _ bs u hbs hu
    obtain rfl := List.prefix_nil.mp hbs
    obtain rfl : s = u := Option.some.inj hu
    exact hIs
  | cons a as ih =>
    obtain ⟨s', hs, ht⟩ := run_cons_eq_some.mp h
    rw [along_cons hs, ← hstep s a s' hJs hIs hs]
    constructor
    · rintro ⟨hIs', hP⟩ bs u hbs hu
      rcases List.prefix_cons_iff.mp hbs with rfl | ⟨cs, rfl, hcs⟩
      · obtain rfl : s = u := Option.some.inj hu
        exact hIs
      · obtain ⟨v, hv, hu⟩ := run_cons_eq_some.mp hu
        obtain rfl : s' = v := Option.some.inj (hs.symm.trans hv)
        exact (ih (hJ s a s' hJs hs) hIs' ht).mp hP cs u hcs hu
    · intro hall
      have hIs' : I s' := hall [a] s' (by simp) (run_cons_eq_some.mpr ⟨s', hs, rfl⟩)
      refine ⟨hIs', (ih (hJ s a s' hJs hs) hIs' ht).mpr ?_⟩
      intro bs u hbs hu
      exact hall (a :: bs) u (List.cons_prefix_cons.mpr ⟨rfl, hbs⟩)
        (run_cons_eq_some.mpr ⟨s', hs, hu⟩)

/-- 実行の前後で `f` の値が違えば、途中に `f` を変えた step がある。 -/
theorem run_exists_change {f : σ → β} (h : run step s as = some t) (hne : f t ≠ f s) :
    ∃ bs a cs u v, as = bs ++ a :: cs ∧ run step s bs = some u ∧ step u a = some v ∧
      f v ≠ f u := by
  induction as generalizing s with
  | nil =>
    obtain rfl : s = t := Option.some.inj h
    exact absurd rfl hne
  | cons a as ih =>
    obtain ⟨s', hs, ht⟩ := run_cons_eq_some.mp h
    by_cases hf : f s' = f s
    · obtain ⟨bs, b, cs, u, v, has, hu, hv, hne'⟩ := ih ht (by rw [hf]; exact hne)
      refine ⟨a :: bs, b, cs, u, v, ?_, run_cons_eq_some.mpr ⟨s', hs, hu⟩, hv, hne'⟩
      rw [has, List.cons_append]
    · exact ⟨[], a, as, s, s', rfl, rfl, hs, hf⟩

/-! ## 減っていく量 -/

/-- 目標 `Q` に着くまで動作 `a` がいつも取れて `μ` が減るなら、`a` を繰り返すだけで着く。 -/
theorem exists_replicate_run {I Q : σ → Prop} {μ : σ → Nat} (a : α)
    (hstep : ∀ s, I s → ¬ Q s → ∃ s', step s a = some s' ∧ I s' ∧ μ s' < μ s) (hs : I s) :
    ∃ n t, n ≤ μ s ∧ run step s (List.replicate n a) = some t ∧ I t ∧ Q t := by
  induction hm : μ s using Nat.strongRecOn generalizing s with
  | _ m ih =>
    by_cases hQ : Q s
    · exact ⟨0, s, Nat.zero_le _, rfl, hs, hQ⟩
    · obtain ⟨u, hu, hIu, hlt⟩ := hstep s hs hQ
      obtain ⟨n, t, hn, hrun, hIt, hQt⟩ := ih (μ u) (hm ▸ hlt) hIu rfl
      refine ⟨n + 1, t, by omega, ?_, hIt, hQt⟩
      rw [List.replicate_succ]
      exact run_cons_eq_some.mpr ⟨u, hu, hrun⟩

/-! ## 実行が外に出すもの -/

/-- 実行の各 step が出したもの `out` を、順に並べる。 -/
def emitted (step : σ → α → Option σ) (out : σ → α → List β) : σ → List α → List β
  | _, [] => []
  | s, a :: as => out s a ++ match step s a with
    | some s' => emitted step out s' as
    | none => []

theorem emitted_cons {out : σ → α → List β} (h : step s a = some t) :
    emitted step out s (a :: as) = out s a ++ emitted step out t as := by
  rw [emitted, h]

theorem emitted_append {out : σ → α → List β} (h : run step s as = some t) :
    emitted step out s (as ++ bs) = emitted step out s as ++ emitted step out t bs := by
  induction as generalizing s with
  | nil =>
    obtain rfl : s = t := Option.some.inj h
    rfl
  | cons a as ih =>
    obtain ⟨u, hu, ht⟩ := run_cons_eq_some.mp h
    rw [List.cons_append, emitted_cons hu, emitted_cons hu, ih ht, List.append_assoc]

/-- 出したものを一つずつ写しても、並べる順は変わらない。 -/
theorem flatMap_emitted {γ : Type*} (out : σ → α → List β) (g : β → List γ) (s : σ)
    (as : List α) :
    (emitted step out s as).flatMap g = emitted step (fun s a => (out s a).flatMap g) s as := by
  induction as generalizing s with
  | nil => rfl
  | cons a as ih =>
    simp only [emitted, List.flatMap_append]
    cases step s a with
    | none => rfl
    | some u => rw [ih u]

/-- 一 step が `f` の下で別の系の動作列 `out` になるなら、実行は `out` を並べた動作列になる。 -/
theorem run_emitted {step' : τ → β → Option τ} {f : σ → τ} {out : σ → α → List β}
    (hsim : ∀ s a s', step s a = some s' → run step' (f s) (out s a) = some (f s'))
    (h : run step s as = some t) : run step' (f s) (emitted step out s as) = some (f t) := by
  induction as generalizing s with
  | nil =>
    obtain rfl : s = t := Option.some.inj h
    rfl
  | cons a as ih =>
    obtain ⟨u, hu, ht⟩ := run_cons_eq_some.mp h
    rw [emitted_cons hu]
    exact run_append_eq_some.mpr ⟨f u, hsim s a u hu, ih ht⟩

theorem emitted_singleton (out : σ → α → List β) (s : σ) (a : α) :
    emitted step out s [a] = out s a := by
  rw [emitted]
  cases step s a <;> exact List.append_nil _

/-- 写した先の系が出すものは、一 step ごとに写した先で出すものを並べたものである。 -/
theorem emitted_emitted {γ : Type*} {step' : τ → β → Option τ} {f : σ → τ}
    {out : σ → α → List β} {out' : τ → β → List γ} {seen : σ → α → List γ}
    (hsim : ∀ s a s', step s a = some s' → run step' (f s) (out s a) = some (f s'))
    (hseen : ∀ s a s', step s a = some s' → emitted step' out' (f s) (out s a) = seen s a)
    (h : run step s as = some t) :
    emitted step' out' (f s) (emitted step out s as) = emitted step seen s as := by
  induction as generalizing s with
  | nil => rfl
  | cons a as ih =>
    obtain ⟨u, hu, ht⟩ := run_cons_eq_some.mp h
    rw [emitted_cons hu, emitted_cons hu, emitted_append (hsim s a u hu), hseen s a u hu, ih ht]

/-- 写した先の条件は、一 step ごとに確かめればよい。 -/
theorem along_emitted {step' : τ → β → Option τ} {P' : τ → β → Prop} {f : σ → τ}
    {out : σ → α → List β}
    (hsim : ∀ s a s', step s a = some s' → run step' (f s) (out s a) = some (f s'))
    (hcond : ∀ s a, P s a → Along step' P' (f s) (out s a))
    (hP : Along step P s as) (h : run step s as = some t) :
    Along step' P' (f s) (emitted step out s as) := by
  induction as generalizing s with
  | nil => trivial
  | cons a as ih =>
    obtain ⟨u, hu, ht⟩ := run_cons_eq_some.mp h
    obtain ⟨hPa, hPs⟩ := (along_cons hu).mp hP
    rw [emitted_cons hu]
    exact (along_append (hsim s a u hu)).mpr ⟨hcond s a hPa, ih hPs ht⟩

/-- 写した先の条件は、一 step ごとの条件に戻る。 -/
theorem along_of_emitted {step' : τ → β → Option τ} {P' : τ → β → Prop} {f : σ → τ}
    {out : σ → α → List β}
    (hsim : ∀ s a s', step s a = some s' → run step' (f s) (out s a) = some (f s'))
    (hP : Along step' P' (f s) (emitted step out s as)) (h : run step s as = some t) :
    Along step (fun s a => Along step' P' (f s) (out s a)) s as := by
  induction as generalizing s with
  | nil => trivial
  | cons a as ih =>
    obtain ⟨u, hu, ht⟩ := run_cons_eq_some.mp h
    rw [emitted_cons hu] at hP
    obtain ⟨hPa, hPs⟩ := (along_append (hsim s a u hu)).mp hP
    exact (along_cons hu).mpr ⟨hPa, ih hPs ht⟩

/-- どの step が出すものも満たす条件は、出したものがみな満たす。 -/
theorem forall_mem_emitted {out : σ → α → List β} {Q : β → Prop}
    (hout : ∀ s, ∀ a ∈ as, ∀ b ∈ out s a, Q b) : ∀ b ∈ emitted step out s as, Q b := by
  induction as generalizing s with
  | nil => simp [emitted]
  | cons a as ih =>
    intro b hb
    rcases List.mem_append.mp hb with hb | hb
    · exact hout s a List.mem_cons_self b hb
    · cases hs : step s a with
      | none => simp [hs] at hb
      | some u =>
        rw [hs] at hb
        exact ih (fun s a ha => hout s a (List.mem_cons_of_mem _ ha)) b hb

/-- 一 step が、出したものを後ろに足しながら `J` を保つなら、実行もそうである。 -/
theorem emitted_invariant (out : σ → α → List β) (J : List β → σ → Prop) (tr : List β)
    (hstep : ∀ tr s a s', J tr s → P s a → step s a = some s' → J (tr ++ out s a) s')
    (hJ : J tr s) (hP : Along step P s as) (h : run step s as = some t) :
    J (tr ++ emitted step out s as) t := by
  induction as generalizing s tr with
  | nil =>
    obtain rfl : s = t := Option.some.inj h
    rw [emitted, List.append_nil]
    exact hJ
  | cons a as ih =>
    obtain ⟨u, hu, ht⟩ := run_cons_eq_some.mp h
    obtain ⟨hPa, hPs⟩ := (along_cons hu).mp hP
    rw [emitted_cons hu, ← List.append_assoc]
    exact ih _ (hstep tr s a u hJ hPa hu) hPs ht

/-- 一 step が残りの先頭を出すなら、実行は残りの減った分を出す。 -/
theorem emitted_append_remaining (I : σ → Prop) (out : σ → α → List β) (remaining : σ → List β)
    (hI : ∀ s a s', I s → P s a → step s a = some s' → I s')
    (hout : ∀ s a s', I s → P s a → step s a = some s' → out s a ++ remaining s' = remaining s)
    (hs : I s) (hP : Along step P s as) (h : run step s as = some t) :
    emitted step out s as ++ remaining t = remaining s := by
  induction as generalizing s with
  | nil =>
    obtain rfl : s = t := Option.some.inj h
    rfl
  | cons a as ih =>
    obtain ⟨u, hu, ht⟩ := run_cons_eq_some.mp h
    obtain ⟨hPa, hPs⟩ := (along_cons hu).mp hP
    rw [emitted_cons hu, List.append_assoc, ih (hI s a u hs hPa hu) hPs ht]
    exact hout s a u hs hPa hu

/-- 一 step の前後で、受け取ったものと残りの和が出したものと残りの和に等しければ、実行でもそうである。 -/
theorem emitted_balance (I : σ → Prop) (out inn : σ → α → List β) (remaining : σ → List β)
    (hI : ∀ s a s', I s → P s a → step s a = some s' → I s')
    (hout : ∀ s a s', I s → P s a → step s a = some s' →
      out s a ++ remaining s' = remaining s ++ inn s a)
    (hs : I s) (hP : Along step P s as) (h : run step s as = some t) :
    emitted step out s as ++ remaining t = remaining s ++ emitted step inn s as := by
  induction as generalizing s with
  | nil =>
    obtain rfl : s = t := Option.some.inj h
    simp [emitted]
  | cons a as ih =>
    obtain ⟨u, hu, ht⟩ := run_cons_eq_some.mp h
    obtain ⟨hPa, hPs⟩ := (along_cons hu).mp hP
    rw [emitted_cons hu, emitted_cons hu, List.append_assoc, ih (hI s a u hs hPa hu) hPs ht,
      ← List.append_assoc, hout s a u hs hPa hu, List.append_assoc]

/-- 動作だけで決まるものは、動作列に沿って並ぶ。 -/
theorem emitted_of_action {g : α → List β} (h : run step s as = some t) :
    emitted step (fun _ a => g a) s as = as.flatMap g := by
  induction as generalizing s with
  | nil => rfl
  | cons a as ih =>
    obtain ⟨u, hu, ht⟩ := run_cons_eq_some.mp h
    rw [emitted_cons hu, ih ht, List.flatMap_cons]

/-- 一 step が出すものの分だけ `μ` が減るなら、実行が出すものは `μ` の減った分を超えない。 -/
theorem emitted_length_le {I : σ → Prop} {μ : σ → Nat} (out : σ → α → List β)
    (hI : ∀ s a s', I s → P s a → step s a = some s' → I s')
    (hμ : ∀ s a s', I s → P s a → step s a = some s' → (out s a).length + μ s' ≤ μ s)
    (hs : I s) (hP : Along step P s as) (h : run step s as = some t) :
    (emitted step out s as).length + μ t ≤ μ s := by
  induction as generalizing s with
  | nil =>
    obtain rfl : s = t := Option.some.inj h
    exact Nat.le_of_eq (Nat.zero_add _)
  | cons a as ih =>
    obtain ⟨u, hu, ht⟩ := run_cons_eq_some.mp h
    obtain ⟨hPa, hPs⟩ := (along_cons hu).mp hP
    have hle := hμ s a u hs hPa hu
    have hrest := ih (hI s a u hs hPa hu) hPs ht
    rw [emitted_cons hu, List.length_append]
    omega

/-- 一 step ごとに `μ` が減るなら、実行の長さは `μ` の減った分を超えない。 -/
theorem run_length_le {I : σ → Prop} {μ : σ → Nat}
    (hI : ∀ s a s', I s → P s a → step s a = some s' → I s')
    (hμ : ∀ s a s', I s → P s a → step s a = some s' → μ s' < μ s)
    (hs : I s) (hP : Along step P s as) (h : run step s as = some t) :
    as.length + μ t ≤ μ s := by
  have hlen := emitted_length_le (fun _ a => [a]) hI
    (fun s a s' hs hP h => by simpa [Nat.add_comm 1] using Nat.succ_le_of_lt (hμ s a s' hs hP h))
    hs hP h
  rwa [emitted_of_action h, List.flatMap_singleton'] at hlen

/-! ## 射影 -/

/--
到達できる状態からの一 step が、射影 `f` によって下の系の（空かもしれない）動作列に写るなら、
到達できる状態の射影も下の系で到達できる。
-/
theorem Reachable.simulates {step' : τ → β → Option τ} {f : σ → τ}
    (hsim : ∀ u a u', Reachable step s u → step u a = some u' →
      ∃ bs, run step' (f u) bs = some (f u'))
    (h : Reachable step s t) : Reachable step' (f s) (f t) := by
  obtain ⟨as, has⟩ := h
  -- 後ろから帰納するのは、`hsim` が直前の状態の到達可能性を使うからである
  induction as using List.reverseRecOn generalizing t with
  | nil =>
    obtain rfl : s = t := Option.some.inj has
    exact ⟨[], rfl⟩
  | append_singleton as a ih =>
    obtain ⟨u, hu, hs⟩ := run_snoc_eq_some.mp has
    obtain ⟨bs, hbs⟩ := ih hu
    obtain ⟨bs', hbs'⟩ := hsim u a t ⟨as, hu⟩ hs
    exact ⟨bs ++ bs', run_append_eq_some.mpr ⟨f u, hbs, hbs'⟩⟩

/-! ## 足並みをそろえた実行 -/

/--
条件 `P` と不変量 `J` の下で、一 step ずつ `f` で写り合い、出すものも同じなら、
実行の全体も写り合い、出すものも同じである。
-/
theorem run_lockstep {step' : τ → α → Option τ} {f : σ → τ} {J : σ → Prop}
    {out : σ → α → List β} {out' : τ → α → List β}
    (hJ : ∀ s a s', J s → step s a = some s' → J s')
    (hstep : ∀ s a, J s → P s a → step' (f s) a = (step s a).map f)
    (hout : ∀ s a, J s → P s a → out' (f s) a = out s a)
    (hs : J s) (hP : Along step P s as) :
    run step' (f s) as = (run step s as).map f ∧
      emitted step' out' (f s) as = emitted step out s as := by
  induction as generalizing s with
  | nil => exact ⟨rfl, rfl⟩
  | cons a as ih =>
    have ha := hstep s a hs hP.1
    have ho := hout s a hs hP.1
    cases h : step s a with
    | none =>
      rw [h, Option.map_none] at ha
      simp only [run, emitted, h, ha, ho, Option.bind_none, Option.map_none, and_self]
    | some u =>
      rw [h, Option.map_some] at ha
      obtain ⟨hrun, hemit⟩ := ih (hJ s a u hs h) ((along_cons h).mp hP).2
      rw [emitted_cons ha, emitted_cons h, ho, hemit]
      refine ⟨?_, rfl⟩
      simp only [run, h, ha, Option.bind_some]
      exact hrun

end

end Transition
