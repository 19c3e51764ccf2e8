import Logmoko.File.Filename
import Logmoko.File.Held

/-!
# 開いている stream と名前の一致

回転は、開いている stream が `filename` の file であり、`current_file_size` がその長さであることを
当てにしている。この一致は二通りに崩れる。

* `lmk_set_log_filename` は名前だけを差し替えるので、別の名前を渡すと stream は古い名前のままになる
  （`stream_diverges_after_set_filename`）
* drain の途中の flush は `fflush` を呼ばないので、書いた byte 列が stdio の buffer に残り、file は
  `current_file_size` より短いことがある（`unsettled_drain_diverges`）

`SizeInv` は、残っている分も数えれば大きさの控えが合っていることを、`MatchInv` は、名前を保つ実行では
stream と閉じた file の名前が `filename` と一致していることを述べる。
-/

namespace Logmoko

open Transition Files

variable {strftime : Int → CStr} {s s' : FileState} {a : FileAction} {n : Int}
  {p : OpenFile (List UInt8) UInt8}

/-! ## 開いている file の長さ -/

/-- 開いている file の長さと、stdio の buffer に残っている長さの和は `n` である。 -/
def FileState.StreamLength (s : FileState) (n : Int) : Prop :=
  ∃ p content, s.logFp = some p ∧ s.fs p.path = some content ∧
    (content.length : Int) + p.held.length = n

/-- 位置ごとの、開いている file に渡し終えた長さ。 -/
def FileState.handedSize (s : FileState) : Int :=
  match s.pc with
  | .addSize _ => s.currentFileSize + s.wpos
  | .rotate _ .reset => 0
  | _ => s.currentFileSize

/-- 開いている file の長さは、残っている分も数えれば、大きさの控えと合っている。 -/
def SizeInv (s : FileState) : Prop :=
  s.pc.streamClosed = false → s.StreamLength s.handedSize

/-- 渡した分は、いつ届くかによらず数えられる。 -/
theorem FileState.StreamLength.push (hs : s.StreamLength n) (hp : s.logFp = some p)
    {xs : List UInt8} {k : Nat} {m : Int} (hfs : s'.fs = p.spill xs k s.fs)
    (hfp : s'.logFp = some (p.push xs k)) (hm : n + xs.length = m) : s'.StreamLength m := by
  obtain ⟨q, content, hq, hc, hl⟩ := hs
  obtain rfl := Option.some.inj (hp.symm.trans hq)
  obtain ⟨content', hc', hl'⟩ := OpenFile.length_push hc xs k
  refine ⟨_, content', hfp, hfs ▸ hc', ?_⟩
  omega

theorem SizeInv.step (hf : FlushedInv s) (hs : SizeInv s) (hok : a.Succeeds s)
    (h : fileStep strftime s a = some s') : SizeInv s' := by
  unfold SizeInv FileState.handedSize at hs ⊢
  cases fileStep_move h with
  | fwrite hpc hp =>
    rw [hpc] at hs
    refine fun _ => (hs rfl).push hp rfl rfl ?_
    rw [hok.take_staged, FileState.staged, Buffer.length_read]
  | fflush hpc hp | finalFflush hpc hp =>
    rw [hpc] at hs
    exact fun _ => (hs rfl).push hp rfl rfl (Int.add_zero _)
  | finalFlush hpc hp hw =>
    -- 最後の flush は大きさの控えを足さないが、ここには何も溜まっていない
    have hz := hf (by rw [hpc]; rfl) (by rw [hp]; rfl)
    omega
  | close => exact fun hclosed => absurd hclosed (by simp [FilePc.streamClosed])
  | opened => exact fun _ => ⟨_, [], rfl, truncate_self, rfl⟩
  | openFailed hpc ho =>
    rw [hok.1] at ho
    cases ho
  | resetPos hpc =>
    rw [hpc] at hs
    intro _
    cases ‹FlushSite› <;> exact hs rfl
  | running hpc =>
    rw [hpc] at hs
    intro _
    cases ‹Bool› <;> exact hs rfl
  | setRotation | keepFilename | freeFilename | storeFilename | setFormat => exact hs
  | shiftInit hpc | shift hpc | shiftEnd hpc | oldPath hpc | newPath hpc | rename hpc | first hpc
  | firstSkip hpc | firstPath hpc | firstName hpc | firstRename hpc | openName hpc =>
    exact fun hclosed => absurd hclosed (by simp [FilePc.streamClosed])
  | slot hpc | ringEmpty hpc | noStream hpc | noRoom hpc | room hpc | addSize hpc | enabled hpc
  | disabled hpc | reached hpc | below hpc | reset hpc | format hpc | consume hpc | idleFlush hpc
  | idleSkip hpc | fflushSkip hpc | sleep hpc | finalSkip hpc | finalFflushSkip hpc =>
    rw [hpc] at hs
    exact fun _ => hs rfl

/-! ## stream と閉じた file の名前 -/

/-- 閉じた file をまだ移していない位置。 -/
def FilePc.unmoved : FilePc → Bool
  | .rotate _ .close | .rotate _ .openName | .rotate _ (.open _) | .rotate _ .reset => false
  | .rotate _ _ => true
  | _ => false

/-- stream・閉じた file・回転が読んだ名前が、`filename` と一致している。 -/
structure MatchInv (s : FileState) : Prop where
  stream : s.pc.streamClosed = false → s.logFp.map OpenFile.path = some s.filename.name.bytes
  closed : s.pc.unmoved = true → s.hist.closedPath = some s.filename.name.bytes
  loaded : s.pc.Loaded s.filename.name

theorem MatchInv.step (hs : MatchInv s) (hkeep : a.KeepsFilename s) (hok : a.Succeeds s)
    (h : fileStep strftime s a = some s') : MatchInv s' := by
  have hload := hs.loaded.step hkeep h
  have hstream := hs.stream
  have hclosed := hs.closed
  cases fileStep_move h with
  | fwrite hpc hp | fflush hpc hp | finalFlush hpc hp | finalFflush hpc hp =>
    rw [hpc, hp] at hstream
    exact ⟨hstream, fun h => absurd h Bool.false_ne_true, hload⟩
  | close hpc hp =>
    rw [hpc, hp] at hstream
    exact ⟨fun h => absurd h (by simp [FilePc.streamClosed]), fun _ => hstream rfl, hload⟩
  | opened hpc ho =>
    have hloaded := hs.loaded
    rw [hpc] at hloaded
    exact ⟨fun _ => congrArg some hloaded, fun h => absurd h Bool.false_ne_true, hload⟩
  | openFailed hpc ho =>
    rw [hok.1] at ho
    cases ho
  | resetPos hpc =>
    rw [hpc] at hstream
    refine ⟨fun _ => hstream rfl, ?_, hload⟩
    intro hun
    cases ‹FlushSite› <;> cases hun
  | running hpc =>
    rw [hpc] at hstream
    refine ⟨fun _ => hstream rfl, ?_, hload⟩
    intro hun
    cases ‹Bool› <;> cases hun
  | freeFilename hf =>
    rcases hkeep with rfl | ⟨site, hpc⟩
    · exact ⟨hstream, hclosed, hload⟩
    · refine ⟨?_, ?_, hload⟩
      all_goals
        intro hne
        rw [show (FileState.pc _) = _ from hpc] at hne
        cases hne
  | storeFilename hf =>
    rw [hf] at hstream hclosed
    exact ⟨hstream, hclosed, hload⟩
  | setRotation | keepFilename | setFormat => exact ⟨hstream, hclosed, hload⟩
  | shiftInit hpc | shift hpc | shiftEnd hpc | oldPath hpc | newPath hpc | rename hpc | first hpc
  | firstPath hpc | firstName hpc =>
    rw [hpc] at hclosed
    exact ⟨fun h => absurd h (by simp [FilePc.streamClosed]), fun _ => hclosed rfl, hload⟩
  | firstSkip | firstRename | openName =>
    exact ⟨fun h => absurd h (by simp [FilePc.streamClosed]),
      fun h => absurd h Bool.false_ne_true, hload⟩
  | slot hpc | ringEmpty hpc | noStream hpc | noRoom hpc | room hpc | addSize hpc | enabled hpc
  | disabled hpc | reached hpc | below hpc | reset hpc | format hpc | consume hpc | idleFlush hpc
  | idleSkip hpc | fflushSkip hpc | sleep hpc | finalSkip hpc | finalFflushSkip hpc =>
    rw [hpc] at hstream
    exact ⟨fun _ => hstream rfl, fun h => absurd h Bool.false_ne_true, hload⟩

/-! ## 実行全体 -/

/-- record を処理していない位置。 -/
def FilePc.betweenRecords : FilePc → Bool
  | .peek | .idle | .loadRunning | .sleep | .finalFlush | .finalFflush | .exited => true
  | _ => false

/-- 開いている stream は `filename` の file で、大きさの控えはその長さである。 -/
def FileState.StreamMatches (s : FileState) : Prop :=
  s.logFp.map OpenFile.path = some s.filename.name.bytes ∧
    ∃ content, s.fs s.filename.name.bytes = some content ∧ s.currentFileSize = content.length

section Initial

variable {fs : List UInt8 → Option (List UInt8)} {filename : CStr}
  {maxFileSize maxBackupFiles : Int} {fn : Formatter} {wbuf : Nat → UInt8}

theorem sizeInv_initial :
    SizeInv (fileInitial true fs filename maxFileSize maxBackupFiles fn wbuf) :=
  fun _ => ⟨_, _, rfl, touch_self, Int.add_zero _⟩

theorem matchInv_initial :
    MatchInv (fileInitial true fs filename maxFileSize maxBackupFiles fn wbuf) where
  stream _ := rfl
  closed h := absurd h Bool.false_ne_true
  loaded := trivial

end Initial

/-- record を処理していなければ、開いている file は、残っている分も数えて大きさの控えの長さである。 -/
theorem MatchInv.exists_stream (hs : MatchInv s) (hsize : SizeInv s)
    (hpc : s.pc.betweenRecords = true) :
    ∃ p content, s.logFp = some p ∧ p.path = s.filename.name.bytes ∧
      s.fs s.filename.name.bytes = some content ∧
      s.currentFileSize = content.length + p.held.length := by
  have hopen : s.pc.streamClosed = false := by
    cases h : s.pc <;> simp_all [FilePc.betweenRecords, FilePc.streamClosed]
  have hhanded : s.handedSize = s.currentFileSize := by
    unfold FileState.handedSize
    cases h : s.pc <;> simp_all [FilePc.betweenRecords]
  obtain ⟨p, content, hp, hc, hl⟩ := hsize hopen
  have hpath := hs.stream hopen
  rw [hp] at hpath
  obtain hpath := Option.some.inj hpath
  exact ⟨p, content, hp, hpath, hpath ▸ hc, by rw [hl, hhanded]⟩

/--
名前を変えないか、回転が file を移してから名前を読み直すまでにだけ変え、名前を差し替えている間に
回転が名前を読まない実行について、record を処理していないどの状態でも stream は `filename` の file で、
大きさの控えはその長さと stdio の buffer に残っている長さの和である。drain の途中の flush がどれも
stdio の buffer を空にするなら、残っている分はない。
回転が `filename.1` に移すのは、直前まで書いていた file である。
-/
theorem stream_matches_filename (strftime : Int → CStr) (fs : List UInt8 → Option (List UInt8))
    (filename : CStr) (maxFileSize maxBackupFiles : Int) (fn : Formatter) (wbuf : Nat → UInt8)
    (as : List FileAction) (s : FileState)
    (hok : Along (fileStep strftime) FileAction.Succeeds
      (fileInitial true fs filename maxFileSize maxBackupFiles fn wbuf) as)
    (hkeep : Along (fileStep strftime) FileAction.KeepsFilename
      (fileInitial true fs filename maxFileSize maxBackupFiles fn wbuf) as)
    (h : run (fileStep strftime)
      (fileInitial true fs filename maxFileSize maxBackupFiles fn wbuf) as = some s) :
    (s.pc.betweenRecords = true → ∃ p content, s.logFp = some p ∧
      p.path = s.filename.name.bytes ∧ s.fs s.filename.name.bytes = some content ∧
      s.currentFileSize = content.length + p.held.length) ∧
    (Along (fileStep strftime) FileAction.SettlesDrain
        (fileInitial true fs filename maxFileSize maxBackupFiles fn wbuf) as →
      s.pc.betweenRecords = true → s.StreamMatches) ∧
    (∀ site old new, s.pc = .rotate site (.firstRename old new) →
      s.hist.closedPath = some old ∧ new = backupPath s.filename.name 1) := by
  have hinv : FlushedInv s ∧ SizeInv s ∧ MatchInv s := by
    refine run_invariant (I := fun s => FlushedInv s ∧ SizeInv s ∧ MatchInv s) ?_
      ⟨(batchInv_initial : BatchInv strftime _).flushed, sizeInv_initial, matchInv_initial⟩
      (hkeep.and hok) h
    rintro s a s' ⟨hf, hsize, hmatch⟩ ⟨hkeep, hok⟩ h
    exact ⟨hf.step h, hsize.step hf hok h, hmatch.step hkeep hok h⟩
  obtain ⟨-, hsize, hmatch⟩ := hinv
  refine ⟨hmatch.exists_stream hsize, ?_, ?_⟩
  · intro hsettle hpc
    have hheld : FlushedInv s ∧ SettledInv s := by
      refine run_invariant (I := fun s => FlushedInv s ∧ SettledInv s) ?_
        ⟨(batchInv_initial : BatchInv strftime _).flushed, fun _ => rfl⟩ (hsettle.and hok) h
      rintro s a s' ⟨hf, hs⟩ ⟨hsettle, hok⟩ h
      exact ⟨hf.step h, hs.step hf hsettle hok h⟩
    obtain ⟨p, content, hp, hpath, hc, hl⟩ := hmatch.exists_stream hsize hpc
    have hnil : s.held = [] := by
      refine hheld.2 ?_
      cases h : s.pc <;> simp_all [FilePc.betweenRecords, FilePc.flushing]
    rw [FileState.held_of_some hp] at hnil
    refine ⟨by rw [hp, ← hpath]; rfl, content, hc, ?_⟩
    rw [hl, hnil]
    simp
  · intro site old new hpc
    have hclosed := hmatch.closed (by rw [hpc]; rfl)
    have hloaded := hmatch.loaded
    rw [hpc] at hloaded
    obtain ⟨rfl, rfl⟩ := hloaded
    exact ⟨hclosed, rfl⟩

theorem stream_matches_filename_one :
    ∃ s, run (fileStep fun _ => .empty) smallFile oneRecordRun = some s ∧ s.StreamMatches := by
  obtain ⟨s, hs, hpc⟩ : ∃ s, run (fileStep fun _ => .empty) smallFile oneRecordRun = some s ∧
      s.pc = .sleep := ⟨_, rfl, rfl⟩
  refine ⟨s, hs, ?_⟩
  refine (stream_matches_filename _ _ _ _ _ _ _ oneRecordRun s ?_ ?_ hs).2.1 ?_ (by rw [hpc]; rfl)
  · decide +kernel
  · exact along_keepsFilename rfl (by simp [oneRecordRun, okStep, FileAction.KeepsSettings])
  · decide +kernel

/-! ## 条件を外したとき -/

/-- record の間に別の名前を渡すと、解放した時点で一致は崩れる。 -/
theorem setFilename_diverges {f g : CStr} (hs : s.StreamMatches) (hf : s.filename = .stored f)
    (hne : g.bytes ≠ f.bytes) :
    ∃ t, fileStep strftime s (.setFilename (some g)) = some t ∧ t.pc = s.pc ∧
      ¬ t.StreamMatches := by
  refine ⟨{ s with filename := .replacing g }, ?_, rfl, ?_⟩
  · simp only [fileStep, hf]
  · intro ht
    have hpath := ht.1.symm.trans hs.1
    rw [hf] at hpath
    exact hne (Option.some.inj hpath)

/--
drain の途中の flush が stdio の buffer に何か残したまま `wpos` を戻すと、次の peek では file が
大きさの控えより短い。
-/
theorem unsettled_drain_diverges {now : Int} {req : LogRequest} (hs : SizeInv s)
    (hpc : s.pc = .resetPos (.drain now req)) (hheld : s.held ≠ []) (io : FileIo) :
    ∃ t, run (fileStep strftime) s (List.replicate 3 (.step io)) = some t ∧
      t.pc.betweenRecords = true ∧ ¬ t.StreamMatches := by
  let s₁ : FileState := { s with wpos := 0, pc := .format now req }
  have h₁ : fileStep strftime s (.step io) = some s₁ := by
    simp only [fileStep, consumerStep, hpc]
    rfl
  refine ⟨{ formatStep strftime s₁ now req with pc := .peek }, ?_, rfl, ?_⟩
  · refine run_cons_eq_some.mpr ⟨s₁, h₁, ?_⟩
    exact run_cons_eq_some.mpr ⟨_, rfl, run_cons_eq_some.mpr ⟨_, rfl, rfl⟩⟩
  · rintro ⟨hpath, content, hc, hl⟩
    obtain ⟨p, content', hp, hc', hl'⟩ := hs (by rw [hpc]; rfl)
    rw [FileState.handedSize, hpc] at hl'
    have hfp : s.logFp.map OpenFile.path = some s.filename.name.bytes := hpath
    rw [hp] at hfp
    rw [Option.some.inj hfp] at hc'
    obtain rfl : content = content' := Option.some.inj (hc.symm.trans hc')
    -- 残っている分の長さだけ、大きさの控えが大きい
    have hzero : p.held.length = 0 := by
      have hcur : s.currentFileSize = content.length := hl
      dsimp only at hl'
      omega
    rw [FileState.held_of_some hp] at hheld
    exact hheld (List.length_eq_zero_iff.mp hzero)

/-- 名前 `b` の無関係な file がある handler。 -/
def otherFile : FileState :=
  fileInitial true (fun p => if p = [98] then some [1, 2, 3] else none) (.lit [97]) 1 1
    (.ofText fun _ => [120, 10]) fun _ => 0

/-- 名前を `b` に差し替える動作。 -/
def renameToB : List FileAction := [.setFilename (some ⟨[98], by decide⟩), .storeFilename]

/--
`a` を開いた handler に名前 `b` を渡すと、record の間の状態で stream は `a` のままである。
次の回転は書いた file ではなく、`b` にあった無関係な file を `b.1` に移す。
-/
theorem stream_diverges_after_set_filename :
    (∃ s, run (fileStep fun _ => .empty) otherFile renameToB = some s ∧
      s.pc.betweenRecords = true ∧ s.logFp.map (·.path) = some [97] ∧
      s.filename = .stored ⟨[98], by decide⟩) ∧
    ∃ s, run (fileStep fun _ => .empty) otherFile (renameToB ++ oneRecordRun) = some s ∧
      Along (fileStep fun _ => .empty) FileAction.Succeeds otherFile (renameToB ++ oneRecordRun) ∧
      s.hist.closedPath = some [97] ∧ s.fs (backupPath ⟨[98], by decide⟩ 1) = some [1, 2, 3] := by
  refine ⟨⟨_, rfl, rfl, rfl, rfl⟩, _, rfl, by decide +kernel, rfl, ?_⟩
  decide +kernel

end Logmoko
