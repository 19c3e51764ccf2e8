import Mathlib.Data.List.Basic

/-!
# 削除しながらの走査

番兵つきの環状 list を、番兵から順に並べた node の列で表す。番兵は `none` である。
loop の本体は今の node を list から外してよい。外す前に一つ前の node を控え、
本体の後に cursor をそこへ戻してから次へ進む。

本体がいつも今の node を外すなら、走査は列の長さの回数で終わって何も残らない
（`forEachEntry_removes`）。外し損ねると同じ node に戻り続けるので、
燃料をいくら増やしても終わらない。
-/

namespace Cursor

variable {σ α : Type*} [DecidableEq α]

/-- 次の node。 -/
def next (l : List α) : Option α → Option α
  | none => l.head?
  | some x => (l.dropWhile (· ≠ x)).tail.head?

/-- 一つ前の node。 -/
def prev (l : List α) (x : α) : Option α := (l.takeWhile (· ≠ x)).getLast?

/-- 位置 `cursor` からの走査。燃料が尽きれば `none` である。 -/
def eachEntry (nodes : σ → List α) (body : σ → α → Option σ) :
    Nat → Option α → σ → Option σ
  | _, none, s => some s
  | 0, some _, _ => none
  | fuel + 1, some x, s =>
    let saved := prev (nodes s) x
    (body s x).bind fun s' => eachEntry nodes body fuel (next (nodes s') saved) s'

/-- 先頭からの走査。 -/
def forEachEntry (nodes : σ → List α) (body : σ → α → Option σ) (fuel : Nat) (s : σ) : Option σ :=
  eachEntry nodes body fuel (next (nodes s) none) s

variable {nodes : σ → List α} {body : σ → α → Option σ} {I : σ → Prop} {s : σ} {fuel : Nat}

@[simp] theorem prev_head (x : α) (rest : List α) : prev (x :: rest) x = none := by
  simp [prev]

@[simp] theorem forEachEntry_nil (h : nodes s = []) :
    forEachEntry nodes body fuel s = some s := by
  simp [forEachEntry, h, next, eachEntry]

/--
本体が先頭の node を外して `I` を保つなら、列の長さだけの燃料で走査は終わり、node は残らない。
-/
theorem forEachEntry_removes
    (hbody : ∀ s x rest, I s → nodes s = x :: rest →
      ∃ s', body s x = some s' ∧ nodes s' = rest ∧ I s')
    (hI : I s) (hfuel : (nodes s).length ≤ fuel) :
    ∃ t, forEachEntry nodes body fuel s = some t ∧ nodes t = [] ∧ I t := by
  induction hl : nodes s generalizing s fuel with
  | nil => exact ⟨s, forEachEntry_nil hl, hl, hI⟩
  | cons x rest ih =>
    obtain ⟨s', hs', hrest, hI'⟩ := hbody s x rest hI hl
    cases fuel with
    | zero => simp [hl] at hfuel
    | succ fuel =>
      have hlen : (nodes s').length ≤ fuel := by
        rw [hl, List.length_cons] at hfuel
        rw [hrest]
        omega
      obtain ⟨t, ht, hnil, hIt⟩ := ih hI' hlen hrest
      refine ⟨t, ?_, hnil, hIt⟩
      -- 先頭の node の一つ前は番兵なので、次も番兵から進む
      simpa [forEachEntry, hl, next, eachEntry, hs'] using ht

/-- cursor は毎回番兵へ戻るので、走査が終わったなら node は残っていない。 -/
theorem nodes_nil_of_forEachEntry {t : σ}
    (hbody : ∀ s x rest s', I s → nodes s = x :: rest → body s x = some s' → I s')
    (hI : I s) (h : forEachEntry nodes body fuel s = some t) : nodes t = [] ∧ I t := by
  induction fuel generalizing s with
  | zero =>
    cases hl : nodes s with
    | nil =>
      rw [forEachEntry_nil hl] at h
      obtain rfl : s = t := Option.some.inj h
      exact ⟨hl, hI⟩
    | cons x rest => simp [forEachEntry, hl, next, eachEntry] at h
  | succ fuel ih =>
    cases hl : nodes s with
    | nil =>
      rw [forEachEntry_nil hl] at h
      obtain rfl : s = t := Option.some.inj h
      exact ⟨hl, hI⟩
    | cons x rest =>
      have h' : (body s x).bind (fun s' => forEachEntry nodes body fuel s') = some t := by
        simpa [forEachEntry, hl, next, eachEntry] using h
      obtain ⟨s', hs', ht⟩ := Option.bind_eq_some_iff.mp h'
      exact ih (hbody s x rest s' hI hl hs') ht

/-- 本体が関係 `R` に沿って進むなら、走査全体も `R` に沿って進む。 -/
theorem forEachEntry_rel {R : σ → σ → Prop} {t : σ} (hrefl : ∀ s, R s s)
    (htrans : ∀ s t u, R s t → R t u → R s u) (hbody : ∀ s x s', body s x = some s' → R s s')
    (h : forEachEntry nodes body fuel s = some t) : R s t := by
  unfold forEachEntry at h
  generalize next (nodes s) none = cursor at h
  induction fuel generalizing s cursor with
  | zero =>
    cases cursor with
    | none => exact Option.some.inj h ▸ hrefl s
    | some x => simp [eachEntry] at h
  | succ fuel ih =>
    cases cursor with
    | none => exact Option.some.inj h ▸ hrefl s
    | some x =>
      obtain ⟨s', hs', ht⟩ := Option.bind_eq_some_iff.mp h
      exact htrans s s' t (hbody s x s' hs') (ih _ ht)

end Cursor
