import Logmoko.File.Rotation

/-!
# 回転が行う `rename`

回転は `f.(n-1)` から順に番号を一つずつ上げ、最後に `f` を `f.1` に移す。
名前は 512 byte の配列に書くので、長い名前は切り詰められる。
どの名前も切り詰められないのは、`f.n` が 511 byte 以内のとき、かつそのときに限る
（`rotates_own_backups_iff`）。

一 step が呼ぶ `rename` と、これから呼ぶ `rename` の列（`renamesLeft`）を定め、
呼んだ分だけ残りが減ることから、回転全体で呼ぶ列を得る。
-/

namespace Logmoko

open Transition Files

variable {strftime : Int → CStr} {s s' : FileState} {a : FileAction} {as : List FileAction}
  {site : FlushSite} {f : CStr} {n : Nat}

/-! ## 呼び出し -/

/-- 次の step が呼ぶ `rename` の引数。 -/
def FileState.renameCall (s : FileState) : List (List UInt8 × List UInt8) :=
  match s.pc with
  | .rotate _ (.rename _ old new) | .rotate _ (.firstRename old new) => [(old, new)]
  | _ => []

/-- 動作が呼ぶ `rename` の引数。 -/
def FileAction.renames (s : FileState) : FileAction → List (List UInt8 × List UInt8)
  | .step _ => s.renameCall
  | _ => []

/-- 成功した `rename` は、file をその引数のとおりに移す。 -/
theorem fs_of_renameCall {io : FileIo} {src dst : List UInt8} (hcall : s.renameCall = [(src, dst)])
    (h : fileStep strftime s (.step io) = some s') :
    s'.fs = if io.renames then Files.rename src dst s.fs else s.fs := by
  unfold FileState.renameCall at hcall
  cases fileStep_move h with
  | rename hpc | firstRename hpc =>
    rw [hpc] at hcall
    obtain ⟨rfl, rfl⟩ := Prod.mk.inj (List.cons.inj hcall).1
    rfl
  | noStream hpc | noRoom hpc | room hpc | fwrite hpc | addSize hpc | enabled hpc | disabled hpc
  | reached hpc | below hpc | close hpc | shiftInit hpc | shift hpc | shiftEnd hpc | oldPath hpc
  | newPath hpc | first hpc | firstSkip hpc | firstPath hpc | firstName hpc | openName hpc
  | opened hpc | openFailed hpc | reset hpc | resetPos hpc | format hpc | consume hpc
  | idleFlush hpc | idleSkip hpc | fflush hpc | fflushSkip hpc | sleep hpc | finalFlush hpc
  | finalSkip hpc | finalFflush hpc | finalFflushSkip hpc =>
    rw [hpc] at hcall
    cases hcall

/-! ## 残りの列 -/

/-- 番号 `i` から 1 までをずらす `rename` の列。 -/
def shiftRenames (f : CStr) : Nat → List (List UInt8 × List UInt8)
  | 0 => []
  | i + 1 => (backupPath f (i + 1 : Nat), backupPath f (i + 2 : Nat)) :: shiftRenames f i

/-- これから呼ぶ `rename` の列。 -/
def renamesLeft (f : CStr) (n : Nat) : FilePc → List (List UInt8 × List UInt8)
  | .rotate _ .close | .rotate _ .shiftInit =>
    shiftRenames f (n - 1) ++ [(f.bytes, backupPath f 1)]
  | .rotate _ (.shift i) => shiftRenames f i.toNat ++ [(f.bytes, backupPath f 1)]
  | .rotate _ (.oldPath i) | .rotate _ (.newPath i _) | .rotate _ (.rename i _ _) =>
    (backupPath f i, backupPath f (i + 1)) :: shiftRenames f (i - 1).toNat ++
      [(f.bytes, backupPath f 1)]
  | .rotate _ .first | .rotate _ .firstPath | .rotate _ (.firstName _)
  | .rotate _ (.firstRename _ _) => [(f.bytes, backupPath f 1)]
  | _ => []

/-- 名前と backup の数、読み終えた名前。 -/
structure Settings (f : CStr) (n : Nat) (s : FileState) : Prop where
  filename : s.filename = .stored f
  backups : s.maxBackupFiles = n
  loaded : s.pc.Loaded f

theorem Settings.step (hs : Settings f n s) (hkeep : a.KeepsSettings)
    (h : fileStep strftime s a = some s') : Settings f n s' := by
  have hfile := hkeep.filename_eq hs.filename h
  have hload := FilePc.Loaded.step (by rw [hs.filename]; exact hs.loaded)
    (hkeep.keepsFilename hs.filename) h
  rw [hfile] at hload
  have hback := hs.backups
  cases fileStep_move h with
  | setRotation => exact hkeep.elim
  | _ => exact ⟨hfile, hback, hload⟩

/-- 回転の一 step は、残りの列の先頭を呼ぶ。 -/
theorem renames_append_left (hn : 1 ≤ n) (hs : Settings f n s) (hrot : s.pc.rotating = true)
    (hkeep : a.KeepsSettings) (h : fileStep strftime s a = some s') :
    a.renames s ++ renamesLeft f n s'.pc = renamesLeft f n s.pc := by
  obtain ⟨hfile, hback, hload⟩ := hs
  cases fileStep_move h with
  | setRotation | keepFilename | freeFilename => exact hkeep.elim
  | storeFilename hr => simp [hfile] at hr
  | setFormat => rfl
  | shiftInit hpc =>
    have hcast : (s.maxBackupFiles - 1).toNat = n - 1 := by omega
    simp only [FileAction.renames, FileState.renameCall, hpc, renamesLeft, hcast]
    rfl
  | @shift io site i hpc hi =>
    obtain ⟨j, rfl⟩ : ∃ j : Nat, i = (j + 1 : Nat) := ⟨i.toNat - 1, by omega⟩
    have hleft : ((j + 1 : Nat) - 1 : Int).toNat = j := by omega
    simp only [FileAction.renames, FileState.renameCall, hpc, renamesLeft, hleft]
    rfl
  | @shiftEnd io site i hpc hi =>
    have hzero : i.toNat = 0 := by omega
    simp only [FileAction.renames, FileState.renameCall, hpc, renamesLeft, hzero]
    rfl
  | rename hpc | firstRename hpc =>
    rw [hpc] at hload
    obtain ⟨rfl, rfl⟩ := hload
    simp only [FileAction.renames, FileState.renameCall, hpc, renamesLeft]
    rfl
  | firstSkip hpc hz => omega
  | close hpc | oldPath hpc | newPath hpc | first hpc | firstPath hpc | firstName hpc
  | openName hpc | opened hpc | openFailed hpc | reset hpc =>
    simp only [FileAction.renames, FileState.renameCall, hpc, renamesLeft]
    rfl
  | slot hpc | ringEmpty hpc | noStream hpc | noRoom hpc | room hpc | fwrite hpc | addSize hpc
  | enabled hpc | disabled hpc | reached hpc | below hpc | resetPos hpc | format hpc | consume hpc
  | idleFlush hpc | idleSkip hpc | fflush hpc | fflushSkip hpc | running hpc | sleep hpc
  | finalFlush hpc | finalSkip hpc | finalFflush hpc | finalFflushSkip hpc =>
    rw [hpc] at hrot
    cases hrot

/-! ## 一回の回転 -/

/-- 回転を始めてから終えるまでの動作。その間、名前と設定は変わらない。 -/
structure Rotation (strftime : Int → CStr) (s : FileState) (as : List FileAction)
    (s' : FileState) : Prop where
  run : run (fileStep strftime) s as = some s'
  along : Along (fileStep strftime) (fun s a => s.pc.rotating = true ∧ a.KeepsSettings) s as
  done : s'.pc.rotating = false

/-- 回転の間に呼ばれた `rename` の列。 -/
def rotationRenames (strftime : Int → CStr) (s : FileState) (as : List FileAction) :
    List (List UInt8 × List UInt8) :=
  emitted (fileStep strftime) FileAction.renames s as

theorem renamesLeft_of_not_rotating {pc : FilePc} (h : pc.rotating = false) :
    renamesLeft f n pc = [] := by
  cases pc with
  | rotate site pc => cases h
  | _ => rfl

/-- 一回の回転が呼ぶ `rename` の列。 -/
theorem rotationRenames_eq (hn : 1 ≤ n) (hpc : s.pc = .rotate site .close)
    (hs : Settings f n s) (h : Rotation strftime s as s') :
    rotationRenames strftime s as = shiftRenames f (n - 1) ++ [(f.bytes, backupPath f 1)] := by
  have hleft := emitted_append_remaining (Settings f n) FileAction.renames
    (fun s => renamesLeft f n s.pc) (fun s a s' hs ha h => hs.step ha.2 h)
    (fun s a s' hs ha h => renames_append_left hn hs ha.1 ha.2 h) hs h.along h.run
  rw [renamesLeft_of_not_rotating h.done, List.append_nil, hpc] at hleft
  exact hleft

/-! ## 回転が終わること -/

theorem fileStep_rotate {pc : RotatePc} (hpc : s.pc = .rotate site pc) (io : FileIo) :
    fileStep strftime s (.step io) = rotateStep io s site pc := by
  show consumerStep strftime io s = _
  unfold consumerStep
  rw [hpc]

/-- 一 step の先から回転が終わるなら、その手前からも終わる。 -/
theorem exists_rotation_of_step {pc : RotatePc} (io : FileIo) (hpc : s.pc = .rotate site pc)
    (h : rotateStep io s site pc = some s') (hnext : ∃ as t, Rotation strftime s' as t) :
    ∃ as t, Rotation strftime s as t := by
  obtain ⟨as, t, hrun, halong, hdone⟩ := hnext
  have hstep : fileStep strftime s (.step io) = some s' := (fileStep_rotate hpc io).trans h
  refine ⟨.step io :: as, t, ?_, ?_, hdone⟩
  · exact run_cons_eq_some.mpr ⟨s', hstep, hrun⟩
  · refine (along_cons hstep).mpr ⟨⟨?_, trivial⟩, halong⟩
    rw [hpc]
    rfl

theorem exists_rotation_of_openName (hpc : s.pc = .rotate site .openName) (io : FileIo) :
    ∃ as t, Rotation strftime s as t := by
  refine exists_rotation_of_step io hpc rfl ?_
  refine exists_rotation_of_step io rfl rfl ?_
  exact exists_rotation_of_step io rfl rfl ⟨[], _, rfl, trivial, rfl⟩

theorem exists_rotation_of_first (hpc : s.pc = .rotate site .first) (io : FileIo) :
    ∃ as t, Rotation strftime s as t := by
  refine exists_rotation_of_step io hpc rfl ?_
  by_cases hn : s.maxBackupFiles > 0
  · rw [if_pos hn]
    refine exists_rotation_of_step io rfl rfl ?_
    refine exists_rotation_of_step io rfl rfl ?_
    exact exists_rotation_of_step io rfl rfl (exists_rotation_of_openName rfl io)
  · rw [if_neg hn]
    exact exists_rotation_of_openName rfl io

/-- 番号をずらす loop は、番号だけ回って終わる。 -/
theorem exists_rotation_of_shift (i : Nat) (hpc : s.pc = .rotate site (.shift i)) (io : FileIo) :
    ∃ as t, Rotation strftime s as t := by
  induction i generalizing s with
  | zero => exact exists_rotation_of_step io hpc rfl (exists_rotation_of_first rfl io)
  | succ i ih =>
    have hpos : ((i + 1 : Nat) : Int) ≥ 1 := by omega
    refine exists_rotation_of_step io hpc rfl ?_
    rw [if_pos hpos]
    refine exists_rotation_of_step io rfl rfl ?_
    refine exists_rotation_of_step io rfl rfl ?_
    refine exists_rotation_of_step io rfl rfl (ih ?_)
    simp

/-- stream が開いていれば、始めた回転は終わりうる。 -/
theorem exists_rotation (hn : 1 ≤ n) (hback : s.maxBackupFiles = n)
    (hpc : s.pc = .rotate site .close) (hp : s.logFp.isSome = true) (io : FileIo) :
    ∃ as t, Rotation strftime s as t := by
  obtain ⟨p, hp⟩ := Option.isSome_iff_exists.mp hp
  refine exists_rotation_of_step io hpc (Option.map_eq_some_iff.mpr ⟨p, hp, rfl⟩) ?_
  have hcast : s.maxBackupFiles - 1 = (n - 1 : Nat) := by omega
  have hshift : FilePc.rotate site (.shift (s.maxBackupFiles - 1))
      = .rotate site (.shift (n - 1 : Nat)) := by rw [hcast]
  exact exists_rotation_of_step io rfl rfl (exists_rotation_of_shift (n - 1) hshift io)

/-! ## 自分の backup だけを動かすこと -/

/-- 番号 `i` の backup の、切り詰めない名前。 -/
def ownPath (f : CStr) (i : Nat) : List UInt8 := f.bytes ++ ascii "." ++ decimal (i : Nat)

/-- `f.(n-1)` を `f.n` に、…、`f.1` を `f.2` に、`f` を `f.1` に移す列。 -/
def ownRenames (f : CStr) (n : Nat) : List (List UInt8 × List UInt8) :=
  ((List.range' 1 (n - 1)).reverse.map fun i => (ownPath f i, ownPath f (i + 1))) ++
    [(f.bytes, ownPath f 1)]

/-- 回転は終わり、`f` の backup だけを順に動かす。異なる番号は異なる名前になる。 -/
def RotatesOwnBackups (strftime : Int → CStr) (s : FileState) (f : CStr) (n : Nat) : Prop :=
  (∃ as s', Rotation strftime s as s') ∧
    (∀ as s', Rotation strftime s as s' → rotationRenames strftime s as = ownRenames f n) ∧
    ∀ i j : Nat, 1 ≤ i → i ≤ n → 1 ≤ j → j ≤ n → backupPath f i = backupPath f j → i = j

theorem length_decimal_le {i : Nat} (h1 : 1 ≤ i) (hi : i ≤ n) :
    (decimal i).length ≤ (decimal n).length := by
  rw [decimal_natCast (by omega), decimal_natCast (by omega), List.length_map, List.length_map,
    List.length_reverse, List.length_reverse]
  exact Nat.le_length_digits_le 10 i n hi

/-- 最も大きい番号の名前が入れば、どの番号の名前も入る。 -/
theorem backupsFit_of_last (h : f.length + 1 + (decimal n).length < pathBufSize) :
    BackupsFit f n := by
  intro i h1 hi
  have hdigits := length_decimal_le h1 hi
  have hdot : (ascii ".").length = 1 := rfl
  rw [List.length_append, List.length_append, hdot]
  exact Nat.lt_of_le_of_lt (Nat.add_le_add_left hdigits _) h

theorem shiftRenames_eq (hfit : BackupsFit f n) {i : Nat} (hi : i < n) :
    shiftRenames f i = (List.range' 1 i).reverse.map fun i => (ownPath f i, ownPath f (i + 1)) := by
  induction i with
  | zero => rfl
  | succ i ih =>
    have hsrc : backupPath f (i + 1 : Nat) = ownPath f (i + 1) :=
      backupPath_eq hfit (by omega) (by omega)
    have hdst : backupPath f (i + 2 : Nat) = ownPath f (i + 2) :=
      backupPath_eq hfit (by omega) (by omega)
    rw [shiftRenames, hsrc, hdst, ih (by omega), List.range'_concat, List.reverse_append,
      Nat.one_mul, Nat.add_comm 1 i]
    rfl

/-- 名前がどれも入れば、呼ぶ列は切り詰めない名前のものである。 -/
theorem renames_eq_ownRenames (hn : 1 ≤ n) (hfit : BackupsFit f n) :
    shiftRenames f (n - 1) ++ [(f.bytes, backupPath f 1)] = ownRenames f n := by
  have hfirst : backupPath f (1 : Nat) = ownPath f 1 := backupPath_eq hfit le_rfl hn
  have hone : backupPath f 1 = ownPath f 1 := hfirst
  rw [shiftRenames_eq hfit (by omega), hone]
  rfl

/-- 列の最初の移し先は、番号 `n` の backup である。 -/
theorem head_renames (hn : 1 ≤ n) :
    ((shiftRenames f (n - 1) ++ [(f.bytes, backupPath f 1)]).head?).map Prod.snd
      = some (backupPath f n) := by
  obtain ⟨k, rfl⟩ : ∃ k, n = k + 1 := ⟨n - 1, by omega⟩
  cases k with
  | zero => rfl
  | succ k => rfl

theorem head_ownRenames (hn : 1 ≤ n) :
    ((ownRenames f n).head?).map Prod.snd = some (ownPath f n) := by
  obtain ⟨k, rfl⟩ : ∃ k, n = k + 1 := ⟨n - 1, by omega⟩
  unfold ownRenames
  cases k with
  | zero => rfl
  | succ k =>
    rw [Nat.add_sub_cancel, List.range'_concat, List.reverse_append, Nat.one_mul, Nat.add_comm 1 k]
    rfl

/--
**回転が自分の backup だけを動かすのは、番号 `n` の backup の名前が 511 byte 以内のとき、
かつそのときに限る。**
-/
theorem rotates_own_backups_iff (hn : 1 ≤ n) (hpc : s.pc = .rotate site .close)
    (hp : s.logFp.isSome = true) (hname : s.filename = .stored f) (hback : s.maxBackupFiles = n) :
    RotatesOwnBackups strftime s f n ↔ f.length + 1 + (decimal n).length < pathBufSize := by
  have hs : Settings f n s := ⟨hname, hback, by rw [hpc]; trivial⟩
  constructor
  · rintro ⟨⟨as, s', hrot⟩, hrenames, -⟩
    have heq := hrenames as s' hrot
    rw [rotationRenames_eq hn hpc hs hrot] at heq
    have hlast : some (backupPath f n) = some (ownPath f n) := by
      rw [← head_renames hn, heq, head_ownRenames hn]
    -- 配列に入るのは 511 byte までである
    have hlen := congrArg List.length (Option.some.inj hlast)
    have hcut : (backupPath f n).length ≤ 511 := by
      unfold backupPath
      rw [List.length_take]
      exact Nat.min_le_left _ _
    have hown : (ownPath f n).length = f.length + 1 + (decimal n).length := by
      unfold ownPath
      rw [List.length_append, List.length_append]
      rfl
    rw [hlen, hown] at hcut
    exact Nat.lt_succ_of_le hcut
  · intro hlast
    have hfit := backupsFit_of_last hlast
    refine ⟨exists_rotation hn hback hpc hp okIo, ?_, ?_⟩
    · intro as s' hrot
      rw [rotationRenames_eq hn hpc hs hrot, renames_eq_ownRenames hn hfit]
    · intro i j hi1 hi hj1 hj heq
      obtain ⟨i, rfl⟩ : ∃ k, i = k + 1 := ⟨i - 1, by omega⟩
      obtain ⟨j, rfl⟩ : ∃ k, j = k + 1 := ⟨j - 1, by omega⟩
      exact backupName_inj hfit (i + 1) (j + 1) hi hj heq

/-- 一件を取り出し、溜まった分を書いて回転を始めるまでの動作。 -/
def toRotationRun : List FileAction :=
  [.slot 1 emptyRequest] ++ List.replicate 3 okStep ++ [.empty] ++ List.replicate 5 okStep

theorem rotates_own_backups_iff_one :
    ∃ s, run (fileStep fun _ => .empty) smallFile toRotationRun = some s ∧
      (RotatesOwnBackups (fun _ => .empty) s ⟨[97], by decide⟩ 1 ↔
        (1 : Nat) + 1 + (decimal (1 : Nat)).length < pathBufSize) := by
  obtain ⟨s, hs, hpc, hp, hname, hback⟩ : ∃ s,
      run (fileStep fun _ => .empty) smallFile toRotationRun = some s ∧
        s.pc = .rotate .idle .close ∧ s.logFp.isSome = true ∧
        s.filename = .stored ⟨[97], by decide⟩ ∧ s.maxBackupFiles = (1 : Nat) :=
    ⟨_, rfl, rfl, rfl, rfl, rfl⟩
  exact ⟨s, hs, rotates_own_backups_iff le_rfl hpc hp hname hback⟩

/-- 二つの directory の下にある、510 byte の名前。 -/
def longPath : CStr where
  bytes := List.replicate 200 97 ++ 47 :: (List.replicate 200 97 ++ 47 :: List.replicate 108 97)
  noNul := by
    intro h
    simp only [List.mem_append, List.mem_cons, List.mem_replicate] at h
    revert h
    decide

theorem length_longPath : longPath.bytes.length = 510 := by
  unfold longPath
  simp only [List.length_append, List.length_cons, List.length_replicate]

/-- `longPath` を開き、一 byte で回転して backup を二つ残す handler。 -/
def longPathFile : FileState :=
  fileInitial true (fun _ => none) longPath 1 2 (.ofText fun _ => [120, 10]) fun _ => 0

/-- 510 byte の名前では、番号 1 と 2 の backup が同じ名前になる。 -/
theorem longPath_backups_collide :
    ∃ s, run (fileStep fun _ => .empty) longPathFile toRotationRun = some s ∧
      s.pc = .rotate .idle .close ∧ s.logFp.map (·.path) = some longPath.bytes ∧
      s.filename = .stored longPath ∧ s.maxBackupFiles = (2 : Nat) ∧
      ¬ RotatesOwnBackups (fun _ => .empty) s longPath 2 := by
  refine ⟨_, rfl, rfl, rfl, rfl, rfl, ?_⟩
  rintro ⟨-, -, hinj⟩
  have hlen : (longPath.bytes ++ ascii ".").length = 511 := by
    rw [List.length_append, length_longPath]
    rfl
  have hcut : ∀ i : Nat, backupPath longPath i = longPath.bytes ++ ascii "." := fun i =>
    (congrArg (fun k => (longPath.bytes ++ ascii "." ++ decimal i).take k) hlen.symm).trans
      List.take_left
  have hsame : backupPath longPath (1 : Nat) = backupPath longPath (2 : Nat) := by
    rw [hcut, hcut]
  exact absurd (hinj 1 2 le_rfl (by omega) (by omega) le_rfl hsame) (by omega)

end Logmoko
