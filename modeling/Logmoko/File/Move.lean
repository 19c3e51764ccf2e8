import Logmoko.File.Model

/-!
# file handler の step の場合分け

`FileMove` は一 step が何をしうるかを列挙する。以後の不変量は `fileStep` を開かず、
これで場合を分ける。設定の動作はどの位置でも起こりうる。
-/

namespace Logmoko

open Transition

/-- file handler の一 step が何をしうるか。 -/
inductive FileMove (strftime : Int → CStr) (s : FileState) : FileAction → FileState → Prop where
  | slot {now req} (h : s.pc = .peek) :
    FileMove strftime s (.slot now req)
      { s with
        pc := .checkFp now req
        hist := { s.hist with peeked := s.hist.peeked ++ [(now, req)] } }
  | ringEmpty (h : s.pc = .peek) : FileMove strftime s .empty { s with pc := .idle }
  | noStream {io now req} (h : s.pc = .checkFp now req) (hp : s.logFp = none) :
    FileMove strftime s (.step io) { s with pc := .consume }
  | noRoom {io now req p} (h : s.pc = .checkFp now req) (hp : s.logFp = some p)
      (hw : writeBufSize < s.wpos + maxLineSize) :
    FileMove strftime s (.step io) { s with pc := .fwrite (.drain now req) }
  | room {io now req p} (h : s.pc = .checkFp now req) (hp : s.logFp = some p)
      (hw : s.wpos + maxLineSize ≤ writeBufSize) :
    FileMove strftime s (.step io) { s with pc := .format now req }
  | fwrite {io site p} (h : s.pc = .fwrite site) (hp : s.logFp = some p) :
    FileMove strftime s (.step io)
      { s with
        fs := p.spill (s.staged.take io.written) io.spilled s.fs
        logFp := some (p.push (s.staged.take io.written) io.spilled)
        hist := { s.hist with current := s.hist.current ++ s.staged }
        pc := .addSize site }
  | addSize {io site} (h : s.pc = .addSize site) :
    FileMove strftime s (.step io)
      { s with currentFileSize := s.currentFileSize + s.wpos, pc := .checkEnabled site }
  | enabled {io site} (h : s.pc = .checkEnabled site) (hm : 0 < s.maxFileSize) :
    FileMove strftime s (.step io) { s with pc := .checkLimit site }
  | disabled {io site} (h : s.pc = .checkEnabled site) (hm : s.maxFileSize ≤ 0) :
    FileMove strftime s (.step io) { s with pc := .resetPos site }
  | reached {io site} (h : s.pc = .checkLimit site) (hm : s.maxFileSize ≤ s.currentFileSize) :
    FileMove strftime s (.step io) { s with pc := .rotate site .close }
  | below {io site} (h : s.pc = .checkLimit site) (hm : s.currentFileSize < s.maxFileSize) :
    FileMove strftime s (.step io) { s with pc := .resetPos site }
  | close {io site p} (h : s.pc = .rotate site .close) (hp : s.logFp = some p) :
    FileMove strftime s (.step io)
      { s with
        fs := p.spill [] io.spilled s.fs
        logFp := none
        hist := { s.hist with
          closed := s.hist.closed ++ [s.hist.current], current := [], closedPath := some p.path }
        pc := .rotate site .shiftInit }
  | shiftInit {io site} (h : s.pc = .rotate site .shiftInit) :
    FileMove strftime s (.step io)
      { s with pc := .rotate site (.shift (s.maxBackupFiles - 1)) }
  | shift {io site i} (h : s.pc = .rotate site (.shift i)) (hi : 1 ≤ i) :
    FileMove strftime s (.step io) { s with pc := .rotate site (.oldPath i) }
  | shiftEnd {io site i} (h : s.pc = .rotate site (.shift i)) (hi : i < 1) :
    FileMove strftime s (.step io) { s with pc := .rotate site .first }
  | oldPath {io site i} (h : s.pc = .rotate site (.oldPath i)) :
    FileMove strftime s (.step io)
      { s with pc := .rotate site (.newPath i (backupPath (s.filename.read io) i)) }
  | newPath {io site i old} (h : s.pc = .rotate site (.newPath i old)) :
    FileMove strftime s (.step io)
      { s with pc := .rotate site (.rename i old (backupPath (s.filename.read io) (i + 1))) }
  | rename {io site i old new} (h : s.pc = .rotate site (.rename i old new)) :
    FileMove strftime s (.step io)
      { s with
        fs := if io.renames then Files.rename old new s.fs else s.fs
        pc := .rotate site (.shift (i - 1)) }
  | first {io site} (h : s.pc = .rotate site .first) (hn : 0 < s.maxBackupFiles) :
    FileMove strftime s (.step io) { s with pc := .rotate site .firstPath }
  | firstSkip {io site} (h : s.pc = .rotate site .first) (hn : s.maxBackupFiles ≤ 0) :
    FileMove strftime s (.step io) { s with pc := .rotate site .openName }
  | firstPath {io site} (h : s.pc = .rotate site .firstPath) :
    FileMove strftime s (.step io)
      { s with pc := .rotate site (.firstName (backupPath (s.filename.read io) 1)) }
  | firstName {io site new} (h : s.pc = .rotate site (.firstName new)) :
    FileMove strftime s (.step io)
      { s with pc := .rotate site (.firstRename (s.filename.read io).bytes new) }
  | firstRename {io site old new} (h : s.pc = .rotate site (.firstRename old new)) :
    FileMove strftime s (.step io)
      { s with
        fs := if io.renames then Files.rename old new s.fs else s.fs
        pc := .rotate site .openName }
  | openName {io site} (h : s.pc = .rotate site .openName) :
    FileMove strftime s (.step io)
      { s with pc := .rotate site (.open (s.filename.read io).bytes) }
  | opened {io site name} (h : s.pc = .rotate site (.open name)) (ho : io.opens = true) :
    FileMove strftime s (.step io)
      { s with
        fs := Files.truncate name s.fs
        logFp := some { path := name, held := [] }
        pc := .rotate site .reset }
  | openFailed {io site name} (h : s.pc = .rotate site (.open name)) (ho : io.opens = false) :
    FileMove strftime s (.step io) { s with logFp := none, pc := .rotate site .reset }
  | reset {io site} (h : s.pc = .rotate site .reset) :
    FileMove strftime s (.step io) { s with currentFileSize := 0, pc := .resetPos site }
  | resetPos {io site} (h : s.pc = .resetPos site) :
    FileMove strftime s (.step io) { s with wpos := 0, pc := site.next }
  | format {io now req} (h : s.pc = .format now req) :
    FileMove strftime s (.step io) (formatStep strftime s now req)
  | consume {io} (h : s.pc = .consume) : FileMove strftime s (.step io) { s with pc := .peek }
  | idleFlush {io p} (h : s.pc = .idle) (hw : 0 < s.wpos) (hp : s.logFp = some p) :
    FileMove strftime s (.step io) { s with pc := .fwrite .idle }
  | idleSkip {io} (h : s.pc = .idle) (hw : s.wpos = 0 ∨ s.logFp = none) :
    FileMove strftime s (.step io) { s with pc := .loadRunning }
  | fflush {io p} (h : s.pc = .fflush) (hp : s.logFp = some p) :
    FileMove strftime s (.step io)
      { s with
        fs := p.spill [] io.spilled s.fs
        logFp := some (p.push [] io.spilled)
        pc := .loadRunning }
  | fflushSkip {io} (h : s.pc = .fflush) (hp : s.logFp = none) :
    FileMove strftime s (.step io) { s with pc := .loadRunning }
  | running {b} (h : s.pc = .loadRunning) :
    FileMove strftime s (.running b) { s with pc := if b then .sleep else .finalFlush }
  | sleep {io} (h : s.pc = .sleep) : FileMove strftime s (.step io) { s with pc := .peek }
  | finalFlush {io p} (h : s.pc = .finalFlush) (hp : s.logFp = some p) (hw : 0 < s.wpos) :
    FileMove strftime s (.step io)
      { s with
        fs := p.spill (s.staged.take io.written) io.spilled s.fs
        logFp := some (p.push (s.staged.take io.written) io.spilled)
        hist := { s.hist with current := s.hist.current ++ s.staged }
        wpos := 0
        pc := .finalFflush }
  | finalSkip {io} (h : s.pc = .finalFlush) (hw : s.wpos = 0 ∨ s.logFp = none) :
    FileMove strftime s (.step io) { s with pc := .finalFflush }
  | finalFflush {io p} (h : s.pc = .finalFflush) (hp : s.logFp = some p) :
    FileMove strftime s (.step io)
      { s with
        fs := p.spill [] io.spilled s.fs
        logFp := some (p.push [] io.spilled)
        pc := .exited }
  | finalFflushSkip {io} (h : s.pc = .finalFflush) (hp : s.logFp = none) :
    FileMove strftime s (.step io) { s with pc := .exited }
  | setRotation {maxFileSize maxBackupFiles f} (hf : s.filename = .stored f) :
    FileMove strftime s (.setRotation maxFileSize maxBackupFiles)
      { s with maxFileSize, maxBackupFiles }
  | keepFilename {f} (hf : s.filename = .stored f) : FileMove strftime s (.setFilename none) s
  | freeFilename {f g} (hf : s.filename = .stored f) :
    FileMove strftime s (.setFilename (some g)) { s with filename := .replacing g }
  | storeFilename {g} (hf : s.filename = .replacing g) :
    FileMove strftime s .storeFilename { s with filename := .stored g }
  | setFormat {fn} : FileMove strftime s (.setFormat fn) { s with formatFn := fn }

/-- stdio の buffer を空にする位置。 -/
def FilePc.flushes : FilePc → Bool
  | .fflush | .finalFflush | .rotate _ .close => true
  | _ => false

/--
file の操作が成功する動作。`fwrite` は溜まっている分をすべて受け取り、`fflush` と `fclose` は
受け取った分をすべて file に届ける。
-/
def FileAction.Succeeds (s : FileState) : FileAction → Prop
  | .step io => io.opens = true ∧ io.renames = true ∧ s.wpos ≤ io.written ∧
      (s.pc.flushes = true → s.held.length ≤ io.spilled)
  | _ => True

instance (s : FileState) (a : FileAction) : Decidable (a.Succeeds s) :=
  match a with
  | .step io =>
    inferInstanceAs (Decidable (io.opens = true ∧ io.renames = true ∧ s.wpos ≤ io.written ∧ _))
  | .slot _ _ | .empty | .running _ | .setRotation _ _ | .setFilename _ | .storeFilename
  | .setFormat _ => inferInstanceAs (Decidable True)

variable {strftime : Int → CStr} {s s' : FileState} {a : FileAction} {io : FileIo}

/-- 成功する `fwrite` は、溜まっている分をすべて受け取る。 -/
theorem FileAction.Succeeds.take_staged (h : (FileAction.step io).Succeeds s) :
    s.staged.take io.written = s.staged :=
  List.take_of_length_le (by simpa [FileState.staged] using h.2.2.1)

theorem FileState.held_of_some {p : Files.OpenFile (List UInt8) UInt8} (hp : s.logFp = some p) :
    s.held = p.held := by
  unfold FileState.held
  rw [hp]

/-- 成功する `fflush` と `fclose` は、受け取った分をすべて file に届ける。 -/
theorem FileAction.Succeeds.held_le (h : (FileAction.step io).Succeeds s)
    {p : Files.OpenFile (List UInt8) UInt8} (hp : s.logFp = some p)
    (hpc : s.pc.flushes = true) : p.held.length ≤ io.spilled := by
  rw [← FileState.held_of_some hp]
  exact h.2.2.2 hpc

theorem FileAction.Succeeds.push_held (h : (FileAction.step io).Succeeds s)
    {p : Files.OpenFile (List UInt8) UInt8} (hp : s.logFp = some p)
    (hpc : s.pc.flushes = true) : (p.push [] io.spilled).held = [] := by
  refine Files.OpenFile.push_held_eq_nil ?_
  rw [List.append_nil]
  exact h.held_le hp hpc

theorem rotateStep_move {site : FlushSite} {pc : RotatePc} (hpc : s.pc = .rotate site pc)
    (h : rotateStep io s site pc = some s') : FileMove strftime s (.step io) s' := by
  cases pc with
  | close =>
    obtain ⟨p, hp, hs⟩ := Option.map_eq_some_iff.mp h
    rw [← hs]
    exact .close hpc hp
  | shiftInit => rw [← Option.some.inj h]; exact .shiftInit hpc
  | shift i =>
    rw [← Option.some.inj h]
    by_cases hi : i ≥ 1
    · rw [if_pos hi]
      exact .shift hpc hi
    · rw [if_neg hi]
      exact .shiftEnd hpc (by omega)
  | oldPath i => rw [← Option.some.inj h]; exact .oldPath hpc
  | newPath i old => rw [← Option.some.inj h]; exact .newPath hpc
  | rename i old new => rw [← Option.some.inj h]; exact .rename hpc
  | first =>
    rw [← Option.some.inj h]
    by_cases hn : s.maxBackupFiles > 0
    · rw [if_pos hn]
      exact .first hpc hn
    · rw [if_neg hn]
      exact .firstSkip hpc (by omega)
  | firstPath => rw [← Option.some.inj h]; exact .firstPath hpc
  | firstName new => rw [← Option.some.inj h]; exact .firstName hpc
  | firstRename old new => rw [← Option.some.inj h]; exact .firstRename hpc
  | openName => rw [← Option.some.inj h]; exact .openName hpc
  | «open» name =>
    rw [← Option.some.inj h]
    cases ho : io.opens with
    | true => simpa [ho] using FileMove.opened hpc ho
    | false => simpa [ho] using FileMove.openFailed hpc ho
  | reset => rw [← Option.some.inj h]; exact .reset hpc

theorem consumerStep_move (h : consumerStep strftime io s = some s') :
    FileMove strftime s (.step io) s' := by
  unfold consumerStep at h
  split at h
  · next now req hpc =>
    split at h
    · next hs =>
      obtain ⟨p, hp⟩ := Option.isSome_iff_exists.mp hs
      split at h
      · next hw => rw [← Option.some.inj h]; exact .noRoom hpc hp hw
      · next hw => rw [← Option.some.inj h]; exact .room hpc hp (by omega)
    · next hs => rw [← Option.some.inj h]; exact .noStream hpc (by simpa using hs)
  · next site hpc =>
    obtain ⟨p, hp, hs⟩ := Option.map_eq_some_iff.mp h
    rw [← hs]
    exact .fwrite hpc hp
  · next site hpc => rw [← Option.some.inj h]; exact .addSize hpc
  · next site hpc =>
    rw [← Option.some.inj h]
    by_cases hm : s.maxFileSize > 0
    · rw [if_pos hm]
      exact .enabled hpc hm
    · rw [if_neg hm]
      exact .disabled hpc (by omega)
  · next site hpc =>
    rw [← Option.some.inj h]
    by_cases hm : s.currentFileSize ≥ s.maxFileSize
    · rw [if_pos hm]
      exact .reached hpc hm
    · rw [if_neg hm]
      exact .below hpc (by omega)
  · next site pc hpc => exact rotateStep_move hpc h
  · next site hpc => rw [← Option.some.inj h]; exact .resetPos hpc
  · next now req hpc => rw [← Option.some.inj h]; exact .format hpc
  · next hpc => rw [← Option.some.inj h]; exact .consume hpc
  · next hpc =>
    rw [← Option.some.inj h]
    by_cases hw : s.wpos > 0 ∧ s.logFp.isSome = true
    · rw [if_pos hw]
      obtain ⟨p, hp⟩ := Option.isSome_iff_exists.mp hw.2
      exact .idleFlush hpc hw.1 hp
    · rw [if_neg hw]
      refine .idleSkip hpc ?_
      by_cases hz : s.wpos = 0
      · exact .inl hz
      · exact .inr (by simpa using fun hs => hw ⟨by omega, hs⟩)
  · next hpc =>
    rw [← Option.some.inj h]
    unfold FileState.flush
    split
    · next p hp => exact .fflush hpc hp
    · next hp => exact .fflushSkip hpc hp
  · next hpc => rw [← Option.some.inj h]; exact .sleep hpc
  · next hpc =>
    split at h
    · next p hp =>
      split at h
      · next hw => rw [← Option.some.inj h]; exact .finalFlush hpc hp hw
      · next hw => rw [← Option.some.inj h]; exact .finalSkip hpc (.inl (by omega))
    · next hp => rw [← Option.some.inj h]; exact .finalSkip hpc (.inr hp)
  · next hpc =>
    rw [← Option.some.inj h]
    unfold FileState.flush
    split
    · next p hp => exact .finalFflush hpc hp
    · next hp => exact .finalFflushSkip hpc hp
  · cases h
  · cases h
  · cases h

/-- 一 step の場合分け。 -/
theorem fileStep_move (h : fileStep strftime s a = some s') : FileMove strftime s a s' := by
  cases a with
  | slot now req =>
    simp only [fileStep] at h
    split at h
    · next hpc => rw [← Option.some.inj h]; exact .slot hpc
    · cases h
  | empty =>
    simp only [fileStep] at h
    split at h
    · next hpc => rw [← Option.some.inj h]; exact .ringEmpty hpc
    · cases h
  | step io => exact consumerStep_move h
  | running b =>
    simp only [fileStep] at h
    split at h
    · next hpc => rw [← Option.some.inj h]; exact .running hpc
    · cases h
  | setRotation maxFileSize maxBackupFiles =>
    simp only [fileStep] at h
    split at h
    · next hf => rw [← Option.some.inj h]; exact .setRotation hf
    · cases h
  | setFilename filename =>
    simp only [fileStep] at h
    split at h
    · next hf => rw [← Option.some.inj h]; exact .keepFilename hf
    · next hf => rw [← Option.some.inj h]; exact .freeFilename hf
    · cases h
  | storeFilename =>
    simp only [fileStep] at h
    split at h
    · cases h
    · next hf => rw [← Option.some.inj h]; exact .storeFilename hf
  | setFormat fn => rw [← Option.some.inj h]; exact .setFormat

end Logmoko
