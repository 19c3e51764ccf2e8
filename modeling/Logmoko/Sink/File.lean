import Logmoko.File.Batch
import Logmoko.Handler.Delivery

/-!
# file handler の全体

`Handler/Model.lean` は thread の間の受け渡しを、`File/Model.lean` は consumer が file に対して
することを写す。consumer の program counter は一つなので、ここでは二つを並べて同時に動かす。

二つが同じ所を通るのは、peek、consume の `tail` の store、`running` の load、
眠りからの戻り、抜ける step である。一つの slot の処理、idle の flush、最後の flush の間は
file の側だけが進み、眠りの受け渡しの間は handler の側だけが進む。

全体の実行をそれぞれの側から見たものが、もとの系の実行であることは定義から直ちに従う
（`handler_run` / `file_run`）。二つの位置が食い違わないことは `Synced` で述べる。
-/

namespace Logmoko

open Transition

variable {ι : Type}

/-- file handler の状態。 -/
structure FileHandlerState (ι : Type) where
  handler : HandlerState ι
  file : FileState

/-- 全体の動作。consumer の step は、時刻と file の操作の結果を持つ。 -/
inductive FileHandlerAction (ι : Type) where
  | logImpl (p : ι) (record : LogRecord)
  | producer (p : ι) (casFails : Bool)
  | thread (now : Int) (io : FileIo)
  | spuriousWakeup
  | destroy
  | setRotation (maxFileSize maxBackupFiles : Int)
  | setFilename (filename : Option CStr)
  | storeFilename
  | setFormat (fn : Formatter)

/-- 一つの slot の処理を終えた位置。 -/
def FilePc.atConsume : FilePc → Bool
  | .consume => true
  | _ => false

/-- idle の flush を終えた位置。 -/
def FilePc.atLoadRunning : FilePc → Bool
  | .loadRunning => true
  | _ => false

/-- 溜まっている分を渡し終え、`fflush` で抜ける位置。 -/
def FilePc.atFinalFflush : FilePc → Bool
  | .finalFflush => true
  | _ => false

/-- 全体の動作を、受け渡しの側から見たもの。 -/
def FileHandlerState.handlerActs (s : FileHandlerState ι) :
    FileHandlerAction ι → List (HandlerAction ι)
  | .logImpl p record => [.logImpl p record]
  | .producer p casFails => [.producer p casFails]
  | .thread _ _ =>
    match s.handler.thread with
    | .process => if s.file.pc.atConsume then [.thread] else []
    | .flush => if s.file.pc.atLoadRunning then [.thread] else []
    | .finalFlush => if s.file.pc.atFinalFflush then [.thread] else []
    | _ => [.thread]
  | .spuriousWakeup => [.spuriousWakeup]
  | .destroy => [.destroy]
  | .setRotation _ _ | .setFilename _ | .storeFilename | .setFormat _ => []

/-- 全体の動作を、file の側から見たもの。 -/
def FileHandlerState.fileActs (A : CursorArith) (s : FileHandlerState ι) :
    FileHandlerAction ι → List FileAction
  | .thread now io =>
    match s.handler.thread with
    | .drainPeek =>
      if (lmkRingPeekSlot A s.handler.mem.ring).isSome then
        [.slot now (s.handler.mem.ring.slotAt s.handler.mem.ring.tail).req]
      else [.empty]
    | .process => if s.file.pc.atConsume then [] else [.step io]
    | .flush => if s.file.pc.atLoadRunning then [] else [.step io]
    | .loadRunning => [.running s.handler.running]
    | .consumeTail | .unlock | .finalFlush => [.step io]
    | _ => []
  | .setRotation maxFileSize maxBackupFiles => [.setRotation maxFileSize maxBackupFiles]
  | .setFilename filename => [.setFilename filename]
  | .storeFilename => [.storeFilename]
  | .setFormat fn => [.setFormat fn]
  | .logImpl _ _ | .producer _ _ | .spuriousWakeup | .destroy => []

/-- `lmk_file_log_handler_init` を終えて thread を起こした直後の状態。 -/
def fileHandlerInitial (ι : Type) (name : CStr) (k : Nat) (opens : Bool)
    (fs : List UInt8 → Option (List UInt8)) (filename : CStr) (maxFileSize maxBackupFiles : Int)
    (fn : Formatter) (wbuf : Nat → UInt8) : FileHandlerState ι :=
  { handler := handlerInitial ι .file name k
    file := fileInitial opens fs filename maxFileSize maxBackupFiles fn wbuf }

section

variable [DecidableEq ι]

/-- 全体の一 step。 -/
def fileHandlerStep (A : CursorArith) (strftime : Int → CStr) (s : FileHandlerState ι)
    (a : FileHandlerAction ι) : Option (FileHandlerState ι) :=
  (run (handlerStep A) s.handler (s.handlerActs a)).bind fun handler =>
    (run (fileStep strftime) s.file (s.fileActs A a)).map fun file => { handler, file }

variable {A : CursorArith} {strftime : Int → CStr} {s s' : FileHandlerState ι}
  {a : FileHandlerAction ι} {as : List (FileHandlerAction ι)}

/-! ## 二つの側への射影 -/

theorem fileHandlerStep_eq_some :
    fileHandlerStep A strftime s a = some s' ↔
      run (handlerStep A) s.handler (s.handlerActs a) = some s'.handler ∧
        run (fileStep strftime) s.file (s.fileActs A a) = some s'.file := by
  unfold fileHandlerStep
  simp only [Option.bind_eq_some_iff, Option.map_eq_some_iff]
  constructor
  · rintro ⟨handler, hh, file, hf, rfl⟩
    exact ⟨hh, hf⟩
  · rintro ⟨hh, hf⟩
    exact ⟨_, hh, _, hf, rfl⟩

/-- 全体の実行は、受け渡しの側の実行である。 -/
theorem handler_run (h : run (fileHandlerStep A strftime) s as = some s') :
    run (handlerStep A) s.handler
      (emitted (fileHandlerStep A strftime) FileHandlerState.handlerActs s as)
        = some s'.handler :=
  run_emitted (fun _ _ _ hs => (fileHandlerStep_eq_some.mp hs).1) h

/-- 全体の実行は、file の側の実行である。 -/
theorem file_run (h : run (fileHandlerStep A strftime) s as = some s') :
    run (fileStep strftime) s.file
      (emitted (fileHandlerStep A strftime) (FileHandlerState.fileActs A) s as)
        = some s'.file :=
  run_emitted (fun _ _ _ hs => (fileHandlerStep_eq_some.mp hs).2) h

end

/-! ## 位置の対応 -/

/-- 一つの slot の処理の中の位置。 -/
def FilePc.inSlot : FilePc → Bool
  | .checkFp _ _ | .format _ _ | .consume => true
  | .fwrite site | .addSize site | .checkEnabled site | .checkLimit site | .rotate site _
  | .resetPos site => match site with
    | .drain _ _ => true
    | .idle => false
  | _ => false

/-- idle の flush の中の位置。 -/
def FilePc.inIdle : FilePc → Bool
  | .idle | .fflush | .loadRunning => true
  | .fwrite site | .addSize site | .checkEnabled site | .checkLimit site | .rotate site _
  | .resetPos site => match site with
    | .drain _ _ => false
    | .idle => true
  | _ => false

/-- 抜ける前の flush の中の位置。 -/
def FilePc.inFinal : FilePc → Bool
  | .finalFlush | .finalFflush => true
  | _ => false

/-- 二つの側は同じ所にいる。 -/
def Synced (pc : FilePc) : ThreadPc → Prop
  | .drainPeek => pc = .peek
  | .process => pc.inSlot = true
  | .consumeStore _ | .consumeTail => pc = .consume
  | .flush => pc.inIdle = true
  | .loadRunning => pc = .loadRunning
  | .finalFlush => pc.inFinal = true
  | .exited => pc = .exited
  | .lock | .storeSleeping | .rePeek | .reloadRunning | .condWait | .parked | .woken
  | .clearSleeping | .unlock => pc = .sleep

theorem Synced.signal {pc : FilePc} {t : ThreadPc} (h : Synced pc t) : Synced pc t.signal := by
  cases t <;> exact h

theorem FilePc.atConsume_iff {pc : FilePc} : pc.atConsume = true ↔ pc = .consume := by
  cases pc <;> simp [FilePc.atConsume]

theorem FilePc.atFinalFflush_iff {pc : FilePc} : pc.atFinalFflush = true ↔ pc = .finalFflush := by
  cases pc <;> simp [FilePc.atFinalFflush]

theorem FilePc.atLoadRunning_iff {pc : FilePc} : pc.atLoadRunning = true ↔ pc = .loadRunning := by
  cases pc <;> simp [FilePc.atLoadRunning]

variable {strftime : Int → CStr}

/-- slot の処理は、`consume` に着くまで slot の処理の中を進む。 -/
theorem FileMove.inSlot {f f' : FileState} {io : FileIo} (h : FileMove strftime f (.step io) f')
    (hin : f.pc.inSlot = true) (hne : f.pc ≠ .consume) : f'.pc.inSlot = true := by
  cases h with
  | consume hpc => exact absurd hpc hne
  | format => rfl
  | resetPos hpc =>
    rw [hpc] at hin
    cases ‹FlushSite› with
    | drain => rfl
    | idle => exact absurd hin Bool.false_ne_true
  | idleFlush hpc | idleSkip hpc | fflush hpc | fflushSkip hpc | sleep hpc | finalFlush hpc
  | finalSkip hpc | finalFflush hpc | finalFflushSkip hpc =>
    rw [hpc] at hin
    exact absurd hin Bool.false_ne_true
  | noStream | noRoom | room => rfl
  | fwrite hpc | addSize hpc | enabled hpc | disabled hpc | reached hpc | below hpc | close hpc
  | shiftInit hpc | shift hpc | shiftEnd hpc | oldPath hpc | newPath hpc | rename hpc | first hpc
  | firstSkip hpc | firstPath hpc | firstName hpc | firstRename hpc | openName hpc | opened hpc
  | openFailed hpc | reset hpc =>
    rw [hpc] at hin
    exact hin

/-- idle の flush は、`running` の load に着くまで idle の flush の中を進む。 -/
theorem FileMove.inIdle {f f' : FileState} {io : FileIo} (h : FileMove strftime f (.step io) f')
    (hin : f.pc.inIdle = true) : f'.pc.inIdle = true := by
  cases h with
  | idleFlush | idleSkip | fflush | fflushSkip => rfl
  | resetPos hpc =>
    rw [hpc] at hin
    cases ‹FlushSite› with
    | drain => exact absurd hin Bool.false_ne_true
    | idle => rfl
  | consume hpc | format hpc | sleep hpc | finalFlush hpc | finalSkip hpc | finalFflush hpc
  | finalFflushSkip hpc | noStream hpc | noRoom hpc | room hpc =>
    rw [hpc] at hin
    exact absurd hin Bool.false_ne_true
  | fwrite hpc | addSize hpc | enabled hpc | disabled hpc | reached hpc | below hpc | close hpc
  | shiftInit hpc | shift hpc | shiftEnd hpc | oldPath hpc | newPath hpc | rename hpc | first hpc
  | firstSkip hpc | firstPath hpc | firstName hpc | firstRename hpc | openName hpc | opened hpc
  | openFailed hpc | reset hpc =>
    rw [hpc] at hin
    exact hin

/-- 抜ける前の flush は、溜まっている分を渡してから `fflush` し、抜ける。 -/
theorem FileMove.inFinal {f f' : FileState} {io : FileIo} (h : FileMove strftime f (.step io) f')
    (hin : f.pc.inFinal = true) :
    f.pc = .finalFlush ∧ f'.pc = .finalFflush ∨ f.pc = .finalFflush ∧ f'.pc = .exited := by
  cases h with
  | finalFlush hpc | finalSkip hpc => exact Or.inl ⟨hpc, rfl⟩
  | finalFflush hpc | finalFflushSkip hpc => exact Or.inr ⟨hpc, rfl⟩
  | consume hpc | format hpc | sleep hpc | idleFlush hpc | idleSkip hpc | fflush hpc
  | fflushSkip hpc | resetPos hpc | noStream hpc | noRoom hpc | room hpc | fwrite hpc
  | addSize hpc | enabled hpc | disabled hpc | reached hpc | below hpc | close hpc | shiftInit hpc
  | shift hpc | shiftEnd hpc | oldPath hpc | newPath hpc | rename hpc | first hpc | firstSkip hpc
  | firstPath hpc | firstName hpc | firstRename hpc | openName hpc | opened hpc | openFailed hpc
  | reset hpc =>
    rw [hpc] at hin
    exact absurd hin Bool.false_ne_true

end Logmoko
