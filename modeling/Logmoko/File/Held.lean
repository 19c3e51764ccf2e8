import Logmoko.File.Batch

/-!
# stdio の buffer に残っている分

`fwrite` が受け取った byte 列は、`fflush` か `fclose` まで file に届かないことがある。consumer が
`fflush` を呼ぶのは、溜まっていた分を idle の flush で書いた後と、抜ける前だけである。
残っている分が無いと言えるのは、次の三つのときである。

* 受け取った分がすぐに届く（`FileAction.WritesThrough`）
* drain の途中の flush が、終わるまでに stdio の buffer を空にしている（`SettledInv`）
* 整形の結果がどれも空でない（`HeldInv`）。drain の途中の flush が何か残せば、続けて整形した行が
  溜まるので、idle の flush が `fflush` を呼ぶ
-/

namespace Logmoko

open Transition Files

variable {strftime : Int → CStr} {s s' : FileState} {a : FileAction}
  {p : OpenFile (List UInt8) UInt8}

theorem FileState.held_of_none (hp : s.logFp = none) : s.held = [] := by
  unfold FileState.held
  rw [hp]

/-! ## すぐに届くとき -/

/-- 受け取った分が、すぐにすべて file に届く step。 -/
def FileAction.WritesThrough (s : FileState) : FileAction → Prop
  | .step io => s.held.length + s.wpos ≤ io.spilled
  | _ => True

instance (s : FileState) (a : FileAction) : Decidable (a.WritesThrough s) :=
  match a with
  | .step io => inferInstanceAs (Decidable (s.held.length + s.wpos ≤ io.spilled))
  | .slot _ _ | .empty | .running _ | .setRotation _ _ | .setFilename _ | .storeFilename
  | .setFormat _ => inferInstanceAs (Decidable True)

/-- すぐに届くなら、stdio の buffer には何も残らない。 -/
theorem FileAction.WritesThrough.held_eq (hw : a.WritesThrough s) (hs : s.held = [])
    (h : fileStep strftime s a = some s') : s'.held = [] := by
  cases fileStep_move h with
  | @fwrite io site p hpc hp | @finalFlush io p hpc hp =>
    refine OpenFile.push_held_eq_nil ?_
    have hw : s.held.length + s.wpos ≤ io.spilled := hw
    rw [FileState.held_of_some hp] at hw
    rw [List.length_append, List.length_take, FileState.staged, Buffer.length_read]
    omega
  | @fflush io p hpc hp | @finalFflush io p hpc hp =>
    refine OpenFile.push_held_eq_nil ?_
    rw [← FileState.held_of_some hp, hs]
    exact Nat.zero_le _
  | close | opened | openFailed => rfl
  | _ => exact hs

/-! ## drain の途中の flush が空にするとき -/

/-- drain の途中の flush を終えて、`wpos` を戻す位置。 -/
def FilePc.endsDrainFlush : FilePc → Bool
  | .resetPos (.drain _ _) => true
  | _ => false

/-- drain の途中の flush は、終わるまでに stdio の buffer を空にしている。 -/
def FileAction.SettlesDrain (s : FileState) : FileAction → Prop
  | .step _ => s.pc.endsDrainFlush = true → s.held = []
  | _ => True

instance (s : FileState) (a : FileAction) : Decidable (a.SettlesDrain s) :=
  match a with
  | .step _ => inferInstanceAs (Decidable (s.pc.endsDrainFlush = true → s.held = []))
  | .slot _ _ | .empty | .running _ | .setRotation _ _ | .setFilename _ | .storeFilename
  | .setFormat _ => inferInstanceAs (Decidable True)

/-- flush の途中の位置。 -/
def FilePc.flushing : FilePc → Bool
  | .addSize _ | .checkEnabled _ | .checkLimit _ | .rotate _ _ | .resetPos _ | .fflush => true
  | _ => false

/-- flush の途中でなければ、書いた byte 列はすべて file に届いている。 -/
def SettledInv (s : FileState) : Prop := s.pc.flushing = false → s.held = []

theorem SettledInv.step (hf : FlushedInv s) (hs : SettledInv s) (hsettle : a.SettlesDrain s)
    (hok : a.Succeeds s) (h : fileStep strftime s a = some s') : SettledInv s' := by
  unfold SettledInv at hs ⊢
  cases fileStep_move h with
  | resetPos hpc =>
    intro hflush
    cases ‹FlushSite› with
    | drain now req => exact hsettle (by rw [hpc]; rfl)
    | idle => cases hflush
  | fflush hpc hp | finalFflush hpc hp =>
    exact fun _ => hok.push_held hp (by rw [hpc]; rfl)
  | fflushSkip hpc hp => exact fun _ => FileState.held_of_none hp
  | finalFlush hpc hp hw =>
    have hz := hf (by rw [hpc]; rfl) (by rw [hp]; rfl)
    omega
  | running hpc =>
    rw [hpc] at hs
    exact fun _ => hs rfl
  | setRotation | keepFilename | freeFilename | storeFilename | setFormat => exact hs
  | slot hpc | ringEmpty hpc | noStream hpc | noRoom hpc | room hpc | format hpc | consume hpc
  | idleFlush hpc | idleSkip hpc | sleep hpc | finalSkip hpc | finalFflushSkip hpc =>
    rw [hpc] at hs
    exact fun _ => hs rfl
  | _ => exact fun h => absurd h (by simp [FilePc.flushing])

/-! ## 整形の結果が空でないとき -/

/-- 位置ごとに、残っている分が無いか、`fflush` を呼ばせる分が溜まっている。 -/
def HeldAt (s : FileState) : Prop :=
  match s.pc with
  | .peek | .checkFp _ _ | .fwrite _ | .consume | .idle => s.held = [] ∨ 0 < s.wpos
  | .loadRunning | .sleep | .finalFlush | .finalFflush | .exited => s.held = []
  | _ => True

/-- 整形の結果がどれも空でなければ、眠る前に stdio の buffer は空になる。 -/
def HeldInv (s : FileState) : Prop := (∀ o ∈ s.hist.outputs, o ≠ []) → HeldAt s

/-- 空でない行を整形すると、何か溜まる。 -/
theorem formatStep_wpos_pos {now : Int} {req : LogRequest}
    (h : ∀ o ∈ (formatStep strftime s now req).hist.outputs, o ≠ []) :
    0 < (formatStep strftime s now req).wpos := by
  obtain ⟨o, ho, hst⟩ := staged_formatStep strftime s now req
  have hne : o ≠ [] := h o (by rw [ho]; exact List.mem_append_right _ List.mem_cons_self)
  have hlen := congrArg List.length hst
  rw [FileState.staged, Buffer.length_read, List.length_append] at hlen
  have hpos := List.length_pos_of_ne_nil hne
  omega

theorem HeldInv.step (hf : FlushedInv s) (hs : HeldInv s) (hok : a.Succeeds s)
    (h : fileStep strftime s a = some s') : HeldInv s' := by
  intro hne
  unfold HeldInv HeldAt at hs
  unfold HeldAt
  cases fileStep_move h with
  | format hpc => exact Or.inr (formatStep_wpos_pos hne)
  | idleSkip hpc hw =>
    rw [hpc] at hs
    rcases hw with hw | hp
    · exact (hs hne).resolve_right (by omega)
    · exact FileState.held_of_none hp
  | fflush hpc hp | finalFflush hpc hp => exact hok.push_held hp (by rw [hpc]; rfl)
  | fflushSkip hpc hp | finalFflushSkip hpc hp => exact FileState.held_of_none hp
  | finalFlush hpc hp hw =>
    -- 最後の flush に来るまでに、溜まっている分は idle の flush で書き終えている
    have hz := hf (by rw [hpc]; rfl) (by rw [hp]; rfl)
    omega
  | resetPos hpc => cases ‹FlushSite› <;> trivial
  | running hpc =>
    rw [hpc] at hs
    cases ‹Bool› <;> exact hs hne
  | sleep hpc =>
    rw [hpc] at hs
    exact Or.inl (hs hne)
  | setRotation | keepFilename | freeFilename | storeFilename | setFormat => exact hs hne
  | slot hpc | ringEmpty hpc | noStream hpc | noRoom hpc | consume hpc | idleFlush hpc
  | finalSkip hpc =>
    rw [hpc] at hs
    exact hs hne
  | _ => trivial

/-- 抜けた後には、何も残っていない。 -/
def ExitedInv (s : FileState) : Prop := s.pc = .exited → s.held = []

theorem ExitedInv.step (hs : ExitedInv s) (hok : a.Succeeds s)
    (h : fileStep strftime s a = some s') : ExitedInv s' := by
  unfold ExitedInv at hs ⊢
  cases fileStep_move h with
  | finalFflush hpc hp => exact fun _ => hok.push_held hp (by rw [hpc]; rfl)
  | finalFflushSkip hpc hp => exact fun _ => FileState.held_of_none hp
  | setRotation | keepFilename | freeFilename | storeFilename | setFormat => exact hs
  | resetPos hpc =>
    intro hexited
    cases ‹FlushSite› <;> cases hexited
  | running hpc =>
    intro hexited
    cases ‹Bool› <;> cases hexited
  | _ => exact fun hexited => absurd hexited (by simp [formatStep])

end Logmoko
