import Logmoko.File.Rename
import Logmoko.File.Stream

/-!
# file の大きさの上限

大きさは buffer を丸ごと書いた後に二か所でだけ調べる。それでも、書く前には上限 `M` に満たず、
一度に書くのは 64 KiB に満たないので、開いている file は常に `M + 65536` byte より短い。

不変量 `LimitAt` は位置ごとの大きさの控えを述べる。回転に入るのは `M` に達したときだけなので、
閉じて移される file は `M` byte 以上である（`MovedAt`）。
-/

namespace Logmoko

open Transition Files

variable {strftime : Int → CStr} {s s' : FileState} {a : FileAction} {M : Int}

/-! ## 位置ごとの大きさ -/

/-- 上限を変えない動作。 -/
def FileAction.KeepsLimit (M : Int) : FileAction → Prop
  | .setRotation maxFileSize _ => maxFileSize = M
  | _ => True

/-- 上限に達し、一度に書く分だけは越えうる大きさ。 -/
def Reached (M n : Int) : Prop := M ≤ n ∧ n < M + writeBufSize

/-- 位置ごとの、大きさの控え。 -/
def LimitAt (M : Int) (s : FileState) : Prop :=
  match s.pc with
  | .checkEnabled _ | .checkLimit _ => s.currentFileSize < M + writeBufSize
  | .rotate _ _ => Reached M s.currentFileSize
  | _ => s.currentFileSize < M

/-- 上限を変えない実行の不変量。 -/
structure LimitInv (M : Int) (s : FileState) : Prop where
  limit : s.maxFileSize = M
  size : LimitAt M s

theorem LimitInv.step (hM : 0 < M) (hroom : RoomInv s) (hs : LimitInv M s)
    (hkeep : a.KeepsLimit M) (h : fileStep strftime s a = some s') : LimitInv M s' := by
  obtain ⟨hlimit, hsize⟩ := id hs
  have hlt := hroom.lt
  unfold LimitAt at hsize
  cases fileStep_move h with
  | addSize hpc =>
    rw [hpc] at hsize
    exact ⟨hlimit, by show _ + _ < _; omega⟩
  | disabled hpc hm => omega
  | reached hpc hm =>
    rw [hpc] at hsize
    exact ⟨hlimit, hlimit ▸ hm, hsize⟩
  | below hpc hm => exact ⟨hlimit, hlimit ▸ hm⟩
  | reset hpc => exact ⟨hlimit, hM⟩
  | resetPos hpc =>
    rw [hpc] at hsize
    refine ⟨hlimit, ?_⟩
    cases ‹FlushSite› <;> exact hsize
  | running hpc =>
    rw [hpc] at hsize
    refine ⟨hlimit, ?_⟩
    cases ‹Bool› <;> exact hsize
  | setRotation => exact ⟨hkeep, hs.size⟩
  | keepFilename | freeFilename | storeFilename | setFormat => exact ⟨hlimit, hs.size⟩
  | slot hpc | ringEmpty hpc | noStream hpc | noRoom hpc | room hpc | fwrite hpc | enabled hpc
  | close hpc | shiftInit hpc | shift hpc | shiftEnd hpc | oldPath hpc | newPath hpc | rename hpc
  | first hpc | firstSkip hpc | firstPath hpc | firstName hpc | firstRename hpc | openName hpc
  | opened hpc | openFailed hpc | format hpc | consume hpc | idleFlush hpc | idleSkip hpc
  | fflush hpc | fflushSkip hpc | sleep hpc | finalFlush hpc | finalSkip hpc | finalFflush hpc
  | finalFflushSkip hpc =>
    rw [hpc] at hsize
    exact ⟨hlimit, hsize⟩

/-! ## 移される file -/

/-- 配列に入らない名前は 511 byte に切られ、番号によらなくなる。 -/
theorem backupPath_of_length {f : CStr} (h : f.bytes.length = pathBufSize - 1) (i : Int) :
    backupPath f i = f.bytes := by
  unfold backupPath
  rw [List.append_assoc, List.take_append_of_le_length h.symm.le, ← h, List.take_length]

theorem length_of_backupPath {f : CStr} {i : Int} (h : backupPath f i = f.bytes) :
    f.bytes.length = pathBufSize - 1 := by
  have hlen := congrArg List.length h
  unfold backupPath at hlen
  rw [List.length_take, List.length_append, List.length_append] at hlen
  have hdot : (ascii ".").length = 1 := rfl
  omega

/-- backup の番号をずらしても、file そのものは変わらない。 -/
theorem rename_backup_self {f : CStr} {fs : List UInt8 → Option (List UInt8)}
    {content : List UInt8} (hc : fs f.bytes = some content) (i j : Int) :
    Files.rename (backupPath f i) (backupPath f j) fs f.bytes = some content := by
  by_cases hlen : f.bytes.length = pathBufSize - 1
  · rw [backupPath_of_length hlen, backupPath_of_length hlen]
    exact rename_dst hc
  · have hne : ∀ k, f.bytes ≠ backupPath f k := fun k h => hlen (length_of_backupPath h.symm)
    rw [rename_of_ne (hne i) (hne j), hc]

/-- 回転が閉じてから移すまで、`filename` の file は上限に達したときのままである。 -/
def MovedAt (M : Int) (s : FileState) : Prop :=
  s.pc.unmoved = true →
    ∃ content, s.fs s.filename.name.bytes = some content ∧ Reached M content.length

/-- 閉じた file は、stdio の buffer に残っていた分も持つ。 -/
theorem SizeInv.closed {p : OpenFile (List UInt8) UInt8} {site : FlushSite} {io : FileIo}
    (hs : SizeInv s) (hpc : s.pc = .rotate site .close) (hp : s.logFp = some p)
    (hok : (FileAction.step io).Succeeds s) :
    ∃ content, p.spill [] io.spilled s.fs p.path = some content ∧
      (content.length : Int) = s.currentFileSize := by
  obtain ⟨q, content, hq, hc, hl⟩ := hs (by rw [hpc]; rfl)
  obtain rfl := Option.some.inj (hp.symm.trans hq)
  refine ⟨content ++ p.held, ?_, ?_⟩
  · rw [OpenFile.spill_flush (hok.held_le hp (by rw [hpc]; rfl))]
    exact OpenFile.settle_self hc
  · rw [FileState.handedSize, hpc] at hl
    rw [List.length_append, Nat.cast_add]
    exact hl

theorem MovedAt.step (hmatch : MatchInv s) (hsize : SizeInv s) (hs : LimitInv M s)
    (hm : MovedAt M s) (hkeep : a.KeepsFilename s) (hok : a.Succeeds s)
    (h : fileStep strftime s a = some s') : MovedAt M s' := by
  have hreached := hs.size
  unfold LimitAt at hreached
  unfold MovedAt at hm ⊢
  cases fileStep_move h with
  | close hpc hp =>
    rw [hpc] at hreached
    intro _
    obtain ⟨content, hc, hl⟩ := hsize.closed hpc hp hok
    have hpath := hmatch.stream (by rw [hpc]; rfl)
    rw [hp] at hpath
    rw [Option.some.inj hpath] at hc
    exact ⟨content, hc, hl ▸ hreached⟩
  | shiftInit hpc | shift hpc | shiftEnd hpc | oldPath hpc | newPath hpc | first hpc
  | firstPath hpc | firstName hpc =>
    rw [hpc] at hm
    exact fun _ => hm rfl
  | rename hpc =>
    have hloaded := hmatch.loaded
    rw [hpc] at hm hloaded
    obtain ⟨rfl, rfl⟩ := hloaded
    obtain ⟨content, hc, hreached⟩ := hm rfl
    refine fun _ => ⟨content, ?_, hreached⟩
    dsimp only
    split
    · exact rename_backup_self hc _ _
    · exact hc
  | freeFilename hf =>
    rcases hkeep with rfl | ⟨site, hpc⟩
    · exact hm
    · intro hun
      rw [show FileState.pc _ = _ from hpc] at hun
      cases hun
  | storeFilename hf =>
    rw [hf] at hm
    exact hm
  | setRotation | keepFilename | setFormat => exact hm
  | resetPos hpc =>
    intro hun
    cases ‹FlushSite› <;> cases hun
  | running hpc =>
    intro hun
    cases ‹Bool› <;> cases hun
  | _ => exact fun hun => absurd hun Bool.false_ne_true

/-! ## 実行全体 -/

/-- 眠っている間の長さ、開いている間の長さ、大きさの控えの上限。stdio の buffer に残っている分も数える。 -/
structure SizeBounded (M : Int) (s : FileState) : Prop where
  asleep : s.pc = .sleep → ∃ n, s.StreamLength n ∧ n < M
  opened : ∀ p, s.logFp = some p →
    ∃ content, s.fs p.path = some content ∧
      (content.length : Int) + p.held.length < M + writeBufSize
  recorded : s.currentFileSize < M + writeBufSize

/-- 次の step が `f` を `f.1` に移すなら、移った先の長さは上限に達し、一度に書く分より越えない。 -/
def MovesReached (strftime : Int → CStr) (M : Int) (s : FileState) : Prop :=
  ∀ site old new io s', s.pc = .rotate site (.firstRename old new) → io.renames = true →
    fileStep strftime s (.step io) = some s' → new = backupPath s.filename.name 1 ∧
      ∃ content, s'.fs new = some content ∧ Reached M content.length

theorem LimitAt.currentFileSize_lt (h : LimitAt M s) :
    s.currentFileSize < M + writeBufSize := by
  have hbuf := writeBufSize_pos
  unfold LimitAt at h
  split at h
  · exact h
  · exact h
  · exact h.2
  · omega

theorem LimitInv.handedSize_lt (hM : 0 < M) (hroom : RoomInv s) (hs : LimitInv M s) :
    s.handedSize < M + writeBufSize := by
  have hcur := hs.size.currentFileSize_lt
  have hlt := hroom.lt
  have hsize := hs.size
  unfold LimitAt at hsize
  unfold FileState.handedSize
  split
  · next hpc =>
    rw [hpc] at hsize
    dsimp only at hsize
    omega
  · omega
  · exact hcur

theorem LimitInv.bounded (hM : 0 < M) (hroom : RoomInv s) (hst : StreamInv s) (hz : SizeInv s)
    (hs : LimitInv M s) : SizeBounded M s := by
  refine ⟨?_, ?_, hs.size.currentFileSize_lt⟩
  · intro hpc
    have hsize := hs.size
    have hlen := hz (by rw [hpc]; rfl)
    unfold LimitAt at hsize
    unfold FileState.handedSize at hlen
    rw [hpc] at hsize hlen
    exact ⟨_, hlen, hsize⟩
  · intro p hp
    have hopen : s.pc.streamClosed = false := by
      rw [StreamInv, hp] at hst
      simpa using hst.symm
    obtain ⟨q, content, hq, hc, hl⟩ := hz hopen
    obtain rfl := Option.some.inj (hp.symm.trans hq)
    exact ⟨content, hc, hl ▸ hs.handedSize_lt hM hroom⟩

theorem MovedAt.moves (hmatch : MatchInv s) (hm : MovedAt M s) : MovesReached strftime M s := by
  intro site old new io s' hpc hr h
  have hloaded := hmatch.loaded
  rw [hpc] at hloaded
  obtain ⟨rfl, rfl⟩ := hloaded
  obtain ⟨content, hc, hreached⟩ := hm (by rw [hpc]; rfl)
  have hfs := fs_of_renameCall (by rw [FileState.renameCall, hpc]) h
  rw [if_pos hr] at hfs
  exact ⟨rfl, content, hfs ▸ rename_dst hc, hreached⟩

theorem limitInv_initial {fs : List UInt8 → Option (List UInt8)} {filename : CStr}
    {maxBackupFiles : Int} {fn : Formatter} {wbuf : Nat → UInt8}
    (hshort : (((fs filename.bytes).getD []).length : Int) < M) :
    LimitInv M (fileInitial true fs filename M maxBackupFiles fn wbuf) where
  limit := rfl
  size := hshort

/-- 大きさについての不変量。 -/
structure BoundInv (strftime : Int → CStr) (M : Int) (s : FileState) : Prop where
  batch : BatchInv strftime s
  stream : StreamInv s
  size : SizeInv s
  limit : LimitInv M s

theorem BoundInv.step (hM : 0 < M) (hs : BoundInv strftime M s) (hkeep : a.KeepsLimit M)
    (hok : a.Succeeds s) (h : fileStep strftime s a = some s') : BoundInv strftime M s' where
  batch := hs.batch.step h
  stream := hs.stream.step hok.keepsOpen h
  size := hs.size.step hs.batch.flushed hok h
  limit := hs.limit.step hM hs.batch.room hkeep h

/--
**上限 `M` を変えず、操作がすべて成功する実行では、大きさは抑えられる。**
始めの長さが `M` に満たなければ、どの状態でも開いている file と大きさの控えは `M + 65536` に
満たず、眠っている間の file は `M` に満たない。名前も変わらなければ、回転が `f.1` に移す file は
`M` 以上で `M + 65536` に満たない。
-/
theorem file_size_bounded (strftime : Int → CStr) (fs : List UInt8 → Option (List UInt8))
    (filename : CStr) (M maxBackupFiles : Int) (fn : Formatter) (wbuf : Nat → UInt8)
    (as : List FileAction) (s : FileState) (hM : 0 < M)
    (hshort : (((fs filename.bytes).getD []).length : Int) < M)
    (hok : Along (fileStep strftime) FileAction.Succeeds
      (fileInitial true fs filename M maxBackupFiles fn wbuf) as)
    (hlimit : ∀ a ∈ as, a.KeepsLimit M)
    (h : run (fileStep strftime) (fileInitial true fs filename M maxBackupFiles fn wbuf) as
      = some s) :
    SizeBounded M s ∧
      (Along (fileStep strftime) FileAction.KeepsFilename
        (fileInitial true fs filename M maxBackupFiles fn wbuf) as →
        MovesReached strftime M s) := by
  have hsteps := (along_of_forall_mem hlimit).and hok
  have hstart : BoundInv strftime M (fileInitial true fs filename M maxBackupFiles fn wbuf) :=
    ⟨batchInv_initial, rfl, sizeInv_initial, limitInv_initial hshort⟩
  constructor
  · have hinv : BoundInv strftime M s :=
      run_invariant (fun _ _ _ hs ha h => hs.step hM ha.1 ha.2 h) hstart hsteps h
    exact hinv.limit.bounded hM hinv.batch.room hinv.stream hinv.size
  · intro hkeep
    have hinv : BoundInv strftime M s ∧ MatchInv s ∧ MovedAt M s := by
      refine run_invariant (I := fun s => BoundInv strftime M s ∧ MatchInv s ∧ MovedAt M s) ?_
        ⟨hstart, matchInv_initial, fun h => absurd h Bool.false_ne_true⟩ (hkeep.and hsteps) h
      rintro s a s' ⟨hbound, hmatch, hmoved⟩ ⟨hname, hlim, hio⟩ h
      exact ⟨hbound.step hM hlim hio h, hmatch.step hname hio h,
        hmoved.step hmatch hbound.size hbound.limit hname hio h⟩
    exact hinv.2.2.moves hinv.2.1

theorem file_size_bounded_one :
    ∃ s, run (fileStep fun _ => .empty) smallFile oneRecordRun = some s ∧ s.pc = .sleep ∧
      SizeBounded 1 s := by
  obtain ⟨s, hs, hpc⟩ : ∃ s, run (fileStep fun _ => .empty) smallFile oneRecordRun = some s ∧
      s.pc = .sleep := ⟨_, rfl, rfl⟩
  refine ⟨s, hs, hpc, (file_size_bounded _ _ _ 1 _ _ _ oneRecordRun s Int.one_pos ?_ ?_ ?_ hs).1⟩
  · exact Int.one_pos
  · decide +kernel
  · simp [oneRecordRun, okStep, FileAction.KeepsLimit]

end Logmoko
