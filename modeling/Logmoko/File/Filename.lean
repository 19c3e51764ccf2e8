import Logmoko.File.Move

/-!
# 回転が読む名前

回転は `handler->lock` を取らずに `filename` を読み、読んだ名前を使うのは後の step である。
二つの間に `lmk_set_log_filename` が入ると、回転は古い名前や解放された名前で file を操作する。

`KeepsFilename` は、そうならない動作の条件である。その下では、回転が読み終えている名前は
いつもいまの名前のものである（`FilePc.Loaded`）。
-/

namespace Logmoko

open Transition

/-! ## 読む位置と読んだ名前 -/

/-- 名前を読む step の位置。 -/
def FilePc.readsFilename : FilePc → Bool
  | .rotate _ (.oldPath _) | .rotate _ (.newPath _ _) | .rotate _ .firstPath
  | .rotate _ (.firstName _) | .rotate _ .openName => true
  | _ => false

/-- 差し替えの途中でない。 -/
def FileName.isStored : FileName → Bool
  | .stored _ => true
  | .replacing _ => false

theorem FileName.isStored_iff {n : FileName} : n.isStored = true ↔ ∃ f, n = .stored f := by
  cases n <;> simp [FileName.isStored]

/-- 差し替えの途中でなければ、いまの名前が読める。 -/
theorem FileName.read_eq {n : FileName} (h : n.isStored = true) (io : FileIo) :
    n.read io = n.name := by
  obtain ⟨f, rfl⟩ := FileName.isStored_iff.mp h
  rfl

/-- 回転が読み終えている名前は、`f` から作ったものである。 -/
def FilePc.Loaded (f : CStr) : FilePc → Prop
  | .rotate _ (.newPath i old) => old = backupPath f i
  | .rotate _ (.rename i old new) => old = backupPath f i ∧ new = backupPath f (i + 1)
  | .rotate _ (.firstName new) => new = backupPath f 1
  | .rotate _ (.firstRename old new) => old = f.bytes ∧ new = backupPath f 1
  | .rotate _ (.open name) => name = f.bytes
  | _ => True

/-! ## 名前を保つ動作 -/

/--
名前を変えない、または回転が file を移してから名前を読み直すまでに変える動作。
名前を読む step は、差し替えの途中には起きない。
-/
def FileAction.KeepsFilename (s : FileState) : FileAction → Prop
  | .setFilename (some g) => g = s.filename.name ∨ ∃ site, s.pc = .rotate site .openName
  | .step _ => s.pc.readsFilename = true → s.filename.isStored = true
  | _ => True

/-- 名前と設定を変えない動作。 -/
def FileAction.KeepsSettings : FileAction → Prop
  | .setRotation _ _ | .setFilename _ => False
  | _ => True

variable {strftime : Int → CStr} {s s' : FileState} {a : FileAction} {f : CStr}

theorem FilePc.Loaded.step (hs : s.pc.Loaded s.filename.name) (hkeep : a.KeepsFilename s)
    (h : fileStep strftime s a = some s') : s'.pc.Loaded s'.filename.name := by
  cases fileStep_move h with
  | oldPath hpc | firstPath hpc =>
    have hread := FileName.read_eq (hkeep (by rw [hpc]; rfl))
    exact congrArg (backupPath · _) (hread _)
  | newPath hpc =>
    rw [hpc] at hs
    have hread := FileName.read_eq (hkeep (by rw [hpc]; rfl))
    exact ⟨hs, congrArg (backupPath · _) (hread _)⟩
  | firstName hpc =>
    rw [hpc] at hs
    have hread := FileName.read_eq (hkeep (by rw [hpc]; rfl))
    exact ⟨congrArg CStr.bytes (hread _), hs⟩
  | openName hpc => exact congrArg CStr.bytes (FileName.read_eq (hkeep (by rw [hpc]; rfl)) _)
  | freeFilename hf =>
    rcases hkeep with rfl | ⟨site, hpc⟩
    · exact hs
    · show s.pc.Loaded _
      rw [hpc]
      trivial
  | storeFilename hf =>
    rw [hf] at hs
    exact hs
  | setRotation | keepFilename | setFormat => exact hs
  | @resetPos io site hpc => cases site <;> trivial
  | @running b hpc => cases b <;> trivial
  | _ => trivial

/-! ## 名前を変えない実行 -/

theorem FileAction.KeepsSettings.filename_eq (hkeep : a.KeepsSettings)
    (hf : s.filename = .stored f) (h : fileStep strftime s a = some s') :
    s'.filename = .stored f := by
  cases fileStep_move h with
  | setRotation | keepFilename | freeFilename => exact hkeep.elim
  | storeFilename hr => simp [hf] at hr
  | _ => exact hf

theorem FileAction.KeepsSettings.keepsFilename (hkeep : a.KeepsSettings)
    (hf : s.filename = .stored f) : a.KeepsFilename s := by
  cases a with
  | setFilename => exact hkeep.elim
  | step io =>
    intro _
    rw [hf]
    rfl
  | slot | empty | running | setRotation | storeFilename | setFormat => trivial

/-- 名前を差し替えない実行は、名前を保つ。 -/
theorem along_keepsFilename {as : List FileAction} (hf : s.filename = .stored f)
    (hkeep : ∀ a ∈ as, a.KeepsSettings) :
    Along (fileStep strftime) FileAction.KeepsFilename s as := by
  refine (Along.invariant (I := fun s => s.filename = .stored f)
    (P := fun _ a => a.KeepsSettings) ?_ hf (along_of_forall_mem hkeep)).mono ?_
  · intro s a s' hs ha h
    exact ha.filename_eq hs h
  · rintro s a ⟨hs, ha⟩
    exact ha.keepsFilename hs

end Logmoko
