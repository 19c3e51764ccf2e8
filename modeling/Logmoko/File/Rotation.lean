import Logmoko.File.Filename
import Logmoko.File.Held
import Logmoko.Format.Decimal

/-!
# 回転の後の file の内容

名前と設定が変わらない実行では、`f` は最後の回転から書いた分を持ち、`f.i` は `i` 回前の回転で
閉じた分を持つ。他の file は触られない。`f` の末尾は stdio の buffer に残っていることがあるので、
残っている分も届いたとしたときの file system（`FileState.view`）について述べる。

新しい順の内容を並べた列 `newest` に対し、番号 `i` の名前が `i` 番目を持つ（`Files.Ages`）。
回転の途中では、loop の変数より上の番号がずらし終えたもの、下の番号がまだのものである。
-/

namespace Logmoko

open Transition Files

/-! ## backup の名前 -/

/-- 番号 0 は file そのもの、1 以上は backup である。 -/
def backupName (f : CStr) : Nat → List UInt8
  | 0 => f.bytes
  | i + 1 => backupPath f (i + 1 : Nat)

/-- backup の名前が、どれも配列に入る。 -/
def BackupsFit (f : CStr) (n : Nat) : Prop :=
  ∀ i, 1 ≤ i → i ≤ n → (f.bytes ++ ascii "." ++ decimal (i : Nat)).length < pathBufSize

variable {f : CStr} {n : Nat}

theorem backupPath_eq (hfit : BackupsFit f n) {i : Nat} (h1 : 1 ≤ i) (hi : i ≤ n) :
    backupPath f (i : Nat) = f.bytes ++ ascii "." ++ decimal (i : Nat) :=
  List.take_of_length_le (Nat.le_sub_one_of_lt (hfit i h1 hi))

theorem backupName_inj (hfit : BackupsFit f n) (a b : Nat) (ha : a ≤ n) (hb : b ≤ n)
    (h : backupName f a = backupName f b) : a = b := by
  cases a with
  | zero =>
    cases b with
    | zero => rfl
    | succ b =>
      rw [backupName, backupName, backupPath_eq hfit (by omega) hb] at h
      have := congrArg List.length h
      simp [ascii] at this
  | succ a =>
    cases b with
    | zero =>
      rw [backupName, backupName, backupPath_eq hfit (by omega) ha] at h
      have := congrArg List.length h
      simp [ascii] at this
    | succ b =>
      rw [backupName, backupName, backupPath_eq hfit (by omega) ha,
        backupPath_eq hfit (by omega) hb] at h
      exact decimal_inj (by omega) (by omega) (List.append_cancel_left h)

/-! ## 新しい順の内容 -/

/-- 最初の区間の前に、始めからあった内容を置く。 -/
def withInitial (initial : List UInt8) : List (List UInt8) → List (List UInt8)
  | [] => []
  | seg :: segs => (initial ++ seg) :: segs

/-- 書いた内容を新しい順に並べたもの。先頭が今の file である。 -/
def FileHistory.newest (initial : List UInt8) (h : FileHistory) : List (List UInt8) :=
  (withInitial initial (h.closed ++ [h.current])).reverse

theorem getElem?_withInitial (initial : List UInt8) (segs : List (List UInt8)) (j : Nat) :
    (withInitial initial segs)[j]? =
      segs[j]?.map fun seg => (if j = 0 then initial else []) ++ seg := by
  cases segs with
  | nil => rfl
  | cons seg segs =>
    cases j with
    | zero => rfl
    | succ j => simp [withInitial]

theorem length_withInitial (initial : List UInt8) (segs : List (List UInt8)) :
    (withInitial initial segs).length = segs.length := by cases segs <;> rfl

variable {initial : List UInt8} {h : FileHistory}

theorem FileHistory.length_newest : (h.newest initial).length = h.closed.length + 1 := by
  simp [FileHistory.newest, length_withInitial]

/-- `i` 番目に新しい内容は、後ろから数えた区間である。 -/
theorem FileHistory.getElem?_newest {i : Nat} (hi : i ≤ h.closed.length) :
    (h.newest initial)[i]? = (h.closed ++ [h.current])[h.closed.length - i]?.map fun seg =>
      (if i = h.closed.length then initial else []) ++ seg := by
  have hlen : i < (withInitial initial (h.closed ++ [h.current])).length := by
    rw [length_withInitial, List.length_append, List.length_singleton]
    omega
  have hidx : (withInitial initial (h.closed ++ [h.current])).length - 1 - i =
      h.closed.length - i := by
    rw [length_withInitial, List.length_append, List.length_singleton]
    omega
  have hzero : h.closed.length - i = 0 ↔ i = h.closed.length := by omega
  rw [FileHistory.newest, List.getElem?_reverse hlen, hidx, getElem?_withInitial]
  simp only [hzero]

theorem withInitial_concat {segs : List (List UInt8)} (hs : segs ≠ []) (seg : List UInt8) :
    withInitial initial (segs ++ [seg]) = withInitial initial segs ++ [seg] := by
  cases segs with
  | nil => exact absurd rfl hs
  | cons x xs => rfl

/-- 回転で閉じると、空の内容が先頭に加わる。 -/
theorem FileHistory.newest_close (p : Option (List UInt8)) :
    FileHistory.newest initial
        { h with closed := h.closed ++ [h.current], current := [], closedPath := p } =
      [] :: h.newest initial := by
  show (withInitial initial (h.closed ++ [h.current] ++ [[]])).reverse = _
  rw [withInitial_concat (by simp), List.reverse_append]
  rfl

/-- 書き足すと、先頭の内容だけが伸びる。 -/
theorem FileHistory.newest_append (initial : List UInt8) (h : FileHistory) (xs : List UInt8) :
    ∃ c rest, h.newest initial = c :: rest ∧
      FileHistory.newest initial { h with current := h.current ++ xs } = (c ++ xs) :: rest := by
  unfold FileHistory.newest
  cases hc : h.closed with
  | nil => exact ⟨initial ++ h.current, [], by simp [withInitial], by simp [withInitial]⟩
  | cons seg segs =>
    refine ⟨h.current, (withInitial initial (seg :: segs)).reverse, ?_, ?_⟩
    · rw [withInitial_concat (by simp), List.reverse_append]
      rfl
    · show (withInitial initial (seg :: segs ++ [h.current ++ xs])).reverse = _
      rw [withInitial_concat (by simp), List.reverse_append]
      rfl

/-! ## 不変量 -/

/-- stdio の buffer に残っている分も届いたとしたときの file system。 -/
def FileState.view (s : FileState) : List UInt8 → Option (List UInt8) :=
  match s.logFp with
  | some p => p.settle s.fs
  | none => s.fs

/-- 回転の中の位置。 -/
def FilePc.rotating : FilePc → Bool
  | .rotate _ _ => true
  | _ => false

/-- 位置ごとに、番号付きの名前が何を持っているか。 -/
def Holds (f : CStr) (n : Nat) (fs : List UInt8 → Option (List UInt8))
    (newest : List (List UInt8)) : FilePc → Prop
  | .rotate _ .shiftInit => Ages (backupName f) fs newest 0 n 1
  | .rotate _ (.shift i) => ∃ j : Nat, i = j ∧ j < n ∧
      Ages (backupName f) fs newest 0 (j + 1) 1 ∧ Ages (backupName f) fs newest (j + 2) (n + 1) 0
  | .rotate _ (.oldPath i) | .rotate _ (.newPath i _) | .rotate _ (.rename i _ _) =>
    ∃ j : Nat, i = (j + 1 : Nat) ∧ j + 1 < n ∧
      Ages (backupName f) fs newest 0 (j + 2) 1 ∧ Ages (backupName f) fs newest (j + 3) (n + 1) 0
  | .rotate _ .first | .rotate _ .firstPath | .rotate _ (.firstName _)
  | .rotate _ (.firstRename _ _) =>
    Ages (backupName f) fs newest 0 1 1 ∧ Ages (backupName f) fs newest 2 (n + 1) 0
  | .rotate _ .openName | .rotate _ (.open _) => Ages (backupName f) fs newest 1 (n + 1) 0
  | _ => Ages (backupName f) fs newest 0 (n + 1) 0

theorem holds_iff_of_open {fs : List UInt8 → Option (List UInt8)} {newest : List (List UInt8)}
    {pc : FilePc} (h : pc.streamClosed = false) :
    Holds f n fs newest pc ↔ Ages (backupName f) fs newest 0 (n + 1) 0 := by
  unfold FilePc.streamClosed at h
  unfold Holds
  split at h <;> simp_all

/-- 設定を変えない実行の不変量。`fs₀` は始めの file system である。 -/
structure RotationInv (f : CStr) (n : Nat) (fs₀ : List UInt8 → Option (List UInt8))
    (s : FileState) : Prop where
  filename : s.filename = .stored f
  backups : s.maxBackupFiles = n
  loaded : s.pc.Loaded f
  stream : s.logFp.map OpenFile.path = if s.pc.streamClosed then none else some f.bytes
  present : s.logFp.isSome = true → (s.fs f.bytes).isSome = true
  outside : ∀ p, (∀ i ≤ n, p ≠ backupName f i) → s.view p = fs₀ p
  fresh : s.pc.streamClosed = true → ∃ rest,
    s.hist.newest ((fs₀ f.bytes).getD []) = [] :: rest
  holds : Holds f n s.view (s.hist.newest ((fs₀ f.bytes).getD [])) s.pc

variable {fs₀ : List UInt8 → Option (List UInt8)} {strftime : Int → CStr} {s s' : FileState}
  {a : FileAction} {p : OpenFile (List UInt8) UInt8}

theorem FileState.view_of_some (hp : s.logFp = some p) : s.view = p.settle s.fs := by
  unfold FileState.view
  rw [hp]

theorem FileState.view_of_none (hp : s.logFp = none) : s.view = s.fs := by
  unfold FileState.view
  rw [hp]

/-- 開いている stream は `f` のものである。 -/
theorem RotationInv.path_eq (hs : RotationInv f n fs₀ s) (hp : s.logFp = some p) :
    p.path = f.bytes := by
  have hstream := hs.stream
  rw [hp] at hstream
  split at hstream
  · cases hstream
  · exact Option.some.inj hstream

/-- stream が閉じている位置では、stdio の buffer には何も残っていない。 -/
theorem RotationInv.logFp_eq_none (hs : RotationInv f n fs₀ s) (hpc : s.pc.streamClosed = true) :
    s.logFp = none := by
  have hstream := hs.stream
  rw [hpc] at hstream
  exact Option.map_eq_none_iff.mp hstream

theorem RotationInv.present_of_open (hs : RotationInv f n fs₀ s)
    (hpc : s.pc.streamClosed = false) : (s.fs f.bytes).isSome = true := by
  refine hs.present ?_
  have hstream := congrArg Option.isSome hs.stream
  rw [hpc] at hstream
  simpa using hstream

/-- stream が開いている位置では、不変量はずれのない `Ages` で足りる。 -/
theorem RotationInv.of_open (hf : s.filename = .stored f) (hn : s.maxBackupFiles = n)
    (hload : s.pc.Loaded f) (hpc : s.pc.streamClosed = false)
    (hfp : s.logFp.map OpenFile.path = some f.bytes) (hpresent : (s.fs f.bytes).isSome = true)
    (hout : ∀ p, (∀ i ≤ n, p ≠ backupName f i) → s.view p = fs₀ p)
    (hages : Ages (backupName f) s.view (s.hist.newest ((fs₀ f.bytes).getD [])) 0 (n + 1) 0) :
    RotationInv f n fs₀ s where
  filename := hf
  backups := hn
  loaded := hload
  stream := by rw [hpc, hfp]; rfl
  present _ := hpresent
  outside := hout
  fresh h := by rw [hpc] at h; cases h
  holds := (holds_iff_of_open hpc).mpr hages

/-- 書き足しは番号 0 の file だけを伸ばす。 -/
theorem RotationInv.append (hfit : BackupsFit f n) (hs : RotationInv f n fs₀ s)
    (hpc : s.pc.streamClosed = false) (xs : List UInt8) :
    (∀ p, (∀ i ≤ n, p ≠ backupName f i) → Files.append f.bytes xs s.view p = fs₀ p) ∧
    Ages (backupName f) (Files.append f.bytes xs s.view)
      (FileHistory.newest ((fs₀ f.bytes).getD []) { s.hist with current := s.hist.current ++ xs })
      0 (n + 1) 0 := by
  constructor
  · intro p hp
    show Files.append (backupName f 0) xs s.view p = fs₀ p
    rw [append_of_ne (hp 0 (Nat.zero_le n))]
    exact hs.outside p hp
  · obtain ⟨c, rest, hold, hnew⟩ := FileHistory.newest_append ((fs₀ f.bytes).getD [])
      s.hist xs
    have hages := (holds_iff_of_open hpc).mp hs.holds
    rw [hold] at hages
    rw [hnew]
    exact hages.append (backupName_inj hfit) xs

/-- stream が開いたまま、渡した分の内容も区間も変わらない step。 -/
theorem RotationInv.frame (hs : RotationInv f n fs₀ s) (hpc : s.pc.streamClosed = false)
    (hpc' : s'.pc.streamClosed = false) (hload : s'.pc.Loaded f)
    (hfile : s'.filename = s.filename) (hback : s'.maxBackupFiles = s.maxBackupFiles)
    (hfp : s'.logFp.map OpenFile.path = s.logFp.map OpenFile.path)
    (hpresent : (s'.fs f.bytes).isSome = true) (hview : s'.view = s.view)
    (hclosed : s'.hist.closed = s.hist.closed) (hcurrent : s'.hist.current = s.hist.current) :
    RotationInv f n fs₀ s' := by
  refine .of_open (hfile.trans hs.filename) (hback.trans hs.backups) hload hpc' ?_ hpresent ?_ ?_
  · rw [hfp, hs.stream, hpc]
    rfl
  · rw [hview]
    exact hs.outside
  · rw [hview, FileHistory.newest, hclosed, hcurrent]
    exact (holds_iff_of_open hpc).mp hs.holds

/-- stream に渡した分は、いつ届くかによらず、`f` の末尾に加わる。 -/
theorem RotationInv.fwrite (hfit : BackupsFit f n) (hs : RotationInv f n fs₀ s)
    (hpc : s.pc.streamClosed = false) (hpc' : s'.pc.streamClosed = false)
    (hload : s'.pc.Loaded f) (hp : s.logFp = some p) {xs : List UInt8} {m : Nat}
    (hfile : s'.filename = s.filename) (hback : s'.maxBackupFiles = s.maxBackupFiles)
    (hfp : s'.logFp = some (p.push xs m)) (hfs : s'.fs = p.spill xs m s.fs)
    (hhist : s'.hist = { s.hist with current := s.hist.current ++ xs }) :
    RotationInv f n fs₀ s' := by
  have hpath := hs.path_eq hp
  have hview : s'.view = Files.append f.bytes xs s.view := by
    rw [FileState.view_of_some hfp, FileState.view_of_some hp, hfs, OpenFile.settle_push, hpath]
  obtain ⟨hout, hages⟩ := hs.append hfit hpc xs
  refine .of_open (hfile.trans hs.filename) (hback.trans hs.backups) hload hpc' ?_ ?_ ?_ ?_
  · rw [hfp, ← hpath]
    rfl
  · rw [hfs, ← hpath]
    exact p.isSome_spill
  · rw [hview]
    exact hout
  · rw [hview, hhist]
    exact hages

/-- 届かせるだけでは、渡した分の内容は変わらない。 -/
theorem RotationInv.fflush (hs : RotationInv f n fs₀ s) (hpc : s.pc.streamClosed = false)
    (hpc' : s'.pc.streamClosed = false) (hload : s'.pc.Loaded f) (hp : s.logFp = some p) {m : Nat}
    (hfile : s'.filename = s.filename) (hback : s'.maxBackupFiles = s.maxBackupFiles)
    (hfp : s'.logFp = some (p.push [] m)) (hfs : s'.fs = p.spill [] m s.fs)
    (hhist : s'.hist = s.hist) : RotationInv f n fs₀ s' := by
  refine hs.frame hpc hpc' hload hfile hback ?_ ?_ ?_ (by rw [hhist]) (by rw [hhist])
  · rw [hfp, hp]
    rfl
  · rw [hfs, ← hs.path_eq hp]
    exact p.isSome_spill
  · rw [FileState.view_of_some hfp, FileState.view_of_some hp, hfs, OpenFile.settle_flush]

/-- stream が閉じている間の、file を動かさない step。 -/
theorem RotationInv.walk (hs : RotationInv f n fs₀ s) (hpc : s.pc.streamClosed = true)
    {pc : FilePc} (hpc' : pc.streamClosed = true) (hload : pc.Loaded f)
    (hholds : Holds f n s.view (s.hist.newest ((fs₀ f.bytes).getD [])) pc) :
    RotationInv f n fs₀ { s with pc } where
  filename := hs.filename
  backups := hs.backups
  loaded := hload
  stream := by rw [show s.logFp = none from hs.logFp_eq_none hpc, hpc']; rfl
  present := hs.present
  outside := hs.outside
  fresh _ := hs.fresh hpc
  holds := hholds

/-- stream が閉じている間の、番号 `i` から `i + 1` への移動。 -/
theorem RotationInv.renamed (hs : RotationInv f n fs₀ s) (hpc : s.pc.streamClosed = true)
    {pc : FilePc} (hpc' : pc.streamClosed = true) (hload : pc.Loaded f) {i : Nat} (hi : i + 1 ≤ n)
    {old new : List UInt8} (hold : old = backupName f i) (hnew : new = backupName f (i + 1))
    (hholds : Holds f n (Files.rename (backupName f i) (backupName f (i + 1)) s.view)
      (s.hist.newest ((fs₀ f.bytes).getD [])) pc) :
    RotationInv f n fs₀ { s with fs := Files.rename old new s.fs, pc } := by
  have hnone := hs.logFp_eq_none hpc
  have hview : FileState.view { s with fs := Files.rename old new s.fs, pc } =
      Files.rename (backupName f i) (backupName f (i + 1)) s.view := by
    rw [FileState.view_of_none hnone, hold, hnew]
    exact FileState.view_of_none hnone
  refine ⟨hs.filename, hs.backups, hload, ?_, ?_, ?_, fun _ => hs.fresh hpc, ?_⟩
  · rw [show s.logFp = none from hnone, hpc']
    rfl
  · intro hsome
    rw [show s.logFp = none from hnone] at hsome
    cases hsome
  · intro p hp
    rw [hview, rename_of_ne (hp i (by omega)) (hp (i + 1) hi)]
    exact hs.outside p hp
  · rw [hview]
    exact hholds

/-- 開き直した `f` は空で、番号 0 の内容になる。 -/
theorem RotationInv.opened (hfit : BackupsFit f n) (hs : RotationInv f n fs₀ s) {site : FlushSite}
    (hpc : s.pc = .rotate site (.open f.bytes)) :
    RotationInv f n fs₀ { s with
      fs := Files.truncate f.bytes s.fs
      logFp := some { path := f.bytes, held := [] }
      pc := .rotate site .reset } := by
  have hholds := hs.holds
  rw [hpc] at hholds
  obtain ⟨rest, hrest⟩ := hs.fresh (by rw [hpc]; rfl)
  have hview : FileState.view { s with
      fs := Files.truncate f.bytes s.fs
      logFp := some { path := f.bytes, held := [] }
      pc := .rotate site .reset } = Files.truncate f.bytes s.view := by
    rw [FileState.view_of_none (hs.logFp_eq_none (by rw [hpc]; rfl))]
    exact append_nil truncate_self
  refine .of_open hs.filename hs.backups trivial rfl rfl ?_ ?_ ?_
  · show (Files.truncate f.bytes s.fs f.bytes).isSome = true
    rw [truncate_self]
    rfl
  · intro p hp
    rw [hview]
    show Files.truncate (backupName f 0) s.view p = fs₀ p
    rw [truncate_of_ne (hp 0 (Nat.zero_le n))]
    exact hs.outside p hp
  · rw [hview]
    show Ages _ (Files.truncate (backupName f 0) s.view) (s.hist.newest _) 0 (n + 1) 0
    rw [hrest] at hholds ⊢
    exact Ages.truncate (backupName_inj hfit) hholds

theorem RotationInv.step (hn : 1 ≤ n) (hfit : BackupsFit f n) (hs : RotationInv f n fs₀ s)
    (hkeep : a.KeepsSettings) (hok : a.Succeeds s) (h : fileStep strftime s a = some s') :
    RotationInv f n fs₀ s' := by
  have hfile := hs.filename
  have hload : s'.pc.Loaded f := by
    have hstep := FilePc.Loaded.step (by rw [hfile]; exact hs.loaded)
      (hkeep.keepsFilename hfile) h
    rwa [hkeep.filename_eq hfile h] at hstep
  have hloaded := hs.loaded
  have hholds := hs.holds
  cases fileStep_move h with
  | setRotation | keepFilename | freeFilename => exact hkeep.elim
  | storeFilename hr => simp [hfile] at hr
  | setFormat =>
    exact ⟨hfile, hs.backups, hload, hs.stream, hs.present, hs.outside, hs.fresh, hholds⟩
  | fwrite hpc hp =>
    rw [hok.take_staged]
    exact hs.fwrite hfit (by rw [hpc]; rfl) rfl hload hp rfl rfl rfl rfl rfl
  | finalFlush hpc hp hw =>
    rw [hok.take_staged]
    exact hs.fwrite hfit (by rw [hpc]; rfl) rfl hload hp rfl rfl rfl rfl rfl
  | fflush hpc hp | finalFflush hpc hp =>
    exact hs.fflush (by rw [hpc]; rfl) rfl hload hp rfl rfl rfl rfl rfl
  | close hpc hp =>
    rw [hpc] at hholds
    have hview : s.view = _ := FileState.view_of_some hp
    rw [← OpenFile.spill_flush (hok.held_le hp (by rw [hpc]; rfl))] at hview
    refine ⟨hfile, hs.backups, hload, rfl, fun h => absurd h Bool.false_ne_true, ?_,
      fun _ => ⟨_, FileHistory.newest_close _⟩, ?_⟩
    · intro q hq
      exact (congrFun hview.symm q).trans (hs.outside q hq)
    · show Ages _ _ (FileHistory.newest _ _) 0 n 1
      rw [FileHistory.newest_close]
      exact (Ages.cons (hview ▸ hholds) []).mono le_rfl (Nat.le_succ n)
  | shiftInit hpc =>
    rw [hpc] at hholds
    have hback := hs.backups
    refine hs.walk (by rw [hpc]; rfl) rfl trivial ⟨n - 1, by omega, by omega, ?_, ?_⟩
    · exact Ages.mono hholds le_rfl (by omega)
    · intro i h₁ h₂
      omega
  | shift hpc hi =>
    rw [hpc] at hholds
    obtain ⟨j, rfl, hj, hold, hnew⟩ := hholds
    obtain ⟨j, rfl⟩ : ∃ k, j = k + 1 := ⟨j - 1, by omega⟩
    exact hs.walk (by rw [hpc]; rfl) rfl trivial ⟨j, rfl, hj, hold, hnew⟩
  | shiftEnd hpc hi =>
    rw [hpc] at hholds
    obtain ⟨j, rfl, hj, hold, hnew⟩ := hholds
    obtain rfl : j = 0 := by omega
    exact hs.walk (by rw [hpc]; rfl) rfl trivial ⟨hold, hnew⟩
  | oldPath hpc | newPath hpc | firstPath hpc | firstName hpc =>
    rw [hpc] at hholds
    exact hs.walk (by rw [hpc]; rfl) rfl hload hholds
  | first hpc hn =>
    rw [hpc] at hholds
    exact hs.walk (by rw [hpc]; rfl) rfl trivial hholds
  | firstSkip hpc hz =>
    have hback := hs.backups
    omega
  | rename hpc =>
    rw [hpc] at hholds hloaded
    obtain ⟨j, rfl, hj, hold, hnew⟩ := hholds
    rw [if_pos hok.2.1]
    obtain ⟨hold', hnew'⟩ := hold.rename (backupName_inj hfit) (by omega) hnew
    exact hs.renamed (by rw [hpc]; rfl) rfl hload (i := j + 1) hj hloaded.1 hloaded.2
      ⟨j, by simp, by omega, hold', hnew'⟩
  | firstRename hpc =>
    rw [hpc] at hholds hloaded
    rw [if_pos hok.2.1]
    obtain ⟨-, hnew⟩ := hholds.1.rename (backupName_inj hfit) (i := 0) (by omega) hholds.2
    exact hs.renamed (by rw [hpc]; rfl) rfl hload (i := 0) hn hloaded.1 hloaded.2 hnew
  | openName hpc =>
    rw [hpc] at hholds
    exact hs.walk (by rw [hpc]; rfl) rfl hload hholds
  | opened hpc ho =>
    rw [hpc] at hloaded
    obtain rfl := hloaded
    exact hs.opened hfit hpc
  | openFailed hpc ho =>
    rw [hok.1] at ho
    cases ho
  | resetPos hpc =>
    exact hs.frame (by rw [hpc]; rfl) (FlushSite.streamClosed_next _) hload rfl rfl rfl
      (hs.present_of_open (by rw [hpc]; rfl)) rfl rfl rfl
  | running hpc =>
    refine hs.frame (by rw [hpc]; rfl) ?_ hload rfl rfl rfl
      (hs.present_of_open (by rw [hpc]; rfl)) rfl rfl rfl
    dsimp only
    split <;> rfl
  | slot hpc | ringEmpty hpc | noStream hpc | noRoom hpc | room hpc | addSize hpc | enabled hpc
  | disabled hpc | reached hpc | below hpc | reset hpc | format hpc | consume hpc | idleFlush hpc
  | idleSkip hpc | fflushSkip hpc | sleep hpc | finalSkip hpc | finalFflushSkip hpc =>
    exact hs.frame (by rw [hpc]; rfl) rfl hload rfl rfl rfl
      (hs.present_of_open (by rw [hpc]; rfl)) rfl rfl rfl

theorem rotationInv_initial {maxFileSize : Int} {fn : Formatter} {wbuf : Nat → UInt8} :
    RotationInv f n fs₀ (fileInitial true fs₀ f maxFileSize n fn wbuf) := by
  have hview : (fileInitial true fs₀ f maxFileSize n fn wbuf).view = Files.touch f.bytes fs₀ :=
    append_nil touch_self
  refine .of_open rfl rfl trivial rfl rfl ?_ ?_ ?_
  · show (Files.touch f.bytes fs₀ f.bytes).isSome = true
    rw [touch_self]
    rfl
  · intro p hp
    rw [hview]
    exact touch_of_ne (hp 0 (Nat.zero_le n))
  · rw [hview]
    intro i _ _ hl
    obtain rfl : i = 0 := by simpa [FileHistory.length_newest, fileInitial, FileHistory.empty]
      using hl
    show Files.touch f.bytes fs₀ f.bytes = some ((fs₀ f.bytes).getD [] ++ [])
    rw [touch_self, List.append_nil]

/-! ## 実行全体 -/

/-- stream が開いている位置では、番号 `i` の名前は、後ろから `i` 番目の区間を持つ。 -/
theorem RotationInv.view_backupName (hs : RotationInv f n fs₀ s)
    (hpc : s.pc.streamClosed = false) {i : Nat} (hk : i ≤ s.hist.closed.length) (hi : i ≤ n) :
    s.view (backupName f i) =
      (s.hist.closed ++ [s.hist.current])[s.hist.closed.length - i]?.map fun seg =>
        (if i = s.hist.closed.length then (fs₀ f.bytes).getD [] else []) ++ seg := by
  rw [← FileHistory.getElem?_newest hk]
  exact (holds_iff_of_open hpc).mp hs.holds i (Nat.zero_le i) (by omega)
    (by rw [FileHistory.length_newest]; omega)

/-- 開いている stream の file の内容と、stdio の buffer に残っている分。 -/
theorem RotationInv.exists_stream (hs : RotationInv f n fs₀ s)
    (hpc : s.pc.streamClosed = false) :
    ∃ p written, s.logFp = some p ∧ p.path = f.bytes ∧ s.fs f.bytes = some written ∧
      s.view f.bytes = some (written ++ p.held) := by
  have hstream := hs.stream
  rw [hpc] at hstream
  obtain ⟨p, hp, hpath⟩ := Option.map_eq_some_iff.mp hstream
  obtain ⟨written, hw⟩ := Option.isSome_iff_exists.mp (hs.present_of_open hpc)
  refine ⟨p, written, hp, hpath, hw, ?_⟩
  rw [FileState.view_of_some hp, ← hpath]
  exact OpenFile.settle_self (by rwa [hpath])

/-- 今の file のほかは、届いたとしたときの内容がそのまま file の内容である。 -/
theorem RotationInv.view_of_ne (hs : RotationInv f n fs₀ s) {q : List UInt8} (hq : q ≠ f.bytes) :
    s.view q = s.fs q := by
  cases hp : s.logFp with
  | none => rw [FileState.view_of_none hp]
  | some p =>
    rw [FileState.view_of_some hp]
    exact OpenFile.settle_of_ne (by rwa [hs.path_eq hp])

/--
回転の履歴。回転を `k` 回終えた状態では、`f.i`（`1 ≤ i ≤ min k n`）は `k - i` 回目と
その次の回転の間に書いた byte 列を持つ。`f` の内容に stdio の buffer に残っている分を続けたものは、
最後の回転の後に書いた byte 列である。書いた byte 列がすぐに届くなら、残っている分はない。
最初の区間の前には、始めから `f` にあった内容が付く。
他の file は始めのままで、どの区間も整形の結果を丸ごと並べたものである。
-/
theorem rotation_history (strftime : Int → CStr) (fs : List UInt8 → Option (List UInt8))
    (f : CStr) (maxFileSize : Int) (n : Nat) (fn : Formatter) (wbuf : Nat → UInt8)
    (as : List FileAction) (s : FileState) (hn : 1 ≤ n) (hfit : BackupsFit f n)
    (hkeep : ∀ a ∈ as, a.KeepsSettings)
    (hok : Along (fileStep strftime) FileAction.Succeeds
      (fileInitial true fs f maxFileSize n fn wbuf) as)
    (h : run (fileStep strftime) (fileInitial true fs f maxFileSize n fn wbuf) as = some s)
    (hpc : s.pc.rotating = false) :
    (∀ i, 1 ≤ i → i ≤ min s.hist.closed.length n →
      ∃ seg, s.hist.closed[s.hist.closed.length - i]? = some seg ∧
        s.fs (backupPath f (i : Nat)) =
          some ((if i = s.hist.closed.length then (fs f.bytes).getD [] else []) ++ seg)) ∧
    (∃ p written, s.logFp = some p ∧ p.path = f.bytes ∧ s.fs f.bytes = some written ∧
      written ++ p.held =
        (if s.hist.closed.length = 0 then (fs f.bytes).getD [] else []) ++ s.hist.current ∧
      (Along (fileStep strftime) FileAction.WritesThrough
        (fileInitial true fs f maxFileSize n fn wbuf) as → p.held = [])) ∧
    (∀ p, p ≠ f.bytes → (∀ i, 1 ≤ i → i ≤ n → p ≠ backupPath f (i : Nat)) → s.fs p = fs p) ∧
    ∃ (parts : List (List (List UInt8))) (cur rest : List (List UInt8)),
      s.hist.outputs = parts.flatten ++ cur ++ rest ∧
      s.hist.closed = parts.map List.flatten ∧ s.hist.current = cur.flatten := by
  have hinv : RotationInv f n fs s := by
    refine run_invariant ?_ rotationInv_initial ((along_of_forall_mem hkeep).and hok) h
    intro s a s' hs ha h
    exact hs.step hn hfit ha.1 ha.2 h
  have hclosed : s.pc.streamClosed = false := by
    cases hp : s.pc <;> simp_all [FilePc.rotating, FilePc.streamClosed]
  refine ⟨?_, ?_, ?_, ?_⟩
  · intro i h1 hi
    have hlt : s.hist.closed.length - i < s.hist.closed.length := by omega
    refine ⟨_, List.getElem?_eq_getElem hlt, ?_⟩
    obtain ⟨j, rfl⟩ : ∃ j, i = j + 1 := ⟨i - 1, by omega⟩
    have hne : backupName f (j + 1) ≠ f.bytes := fun heq =>
      absurd (backupName_inj hfit (j + 1) 0 (by omega) (Nat.zero_le n) heq) (by omega)
    refine (hinv.view_of_ne hne).symm.trans ?_
    rw [hinv.view_backupName hclosed (by omega) (by omega), List.getElem?_append_left hlt,
      List.getElem?_eq_getElem hlt]
    rfl
  · obtain ⟨p, written, hp, hpath, hw, hview⟩ := hinv.exists_stream hclosed
    refine ⟨p, written, hp, hpath, hw, ?_, ?_⟩
    · have hname := hinv.view_backupName hclosed (Nat.zero_le _) (Nat.zero_le _)
      rw [backupName, hview] at hname
      simpa [eq_comm] using hname
    · intro hthrough
      rw [← FileState.held_of_some hp]
      exact run_invariant (I := fun s => s.held = []) (fun _ _ _ hs ha h => ha.held_eq hs h) rfl
        hthrough h
  · intro p hp hpi
    refine (hinv.view_of_ne hp).symm.trans (hinv.outside p ?_)
    intro i hi
    cases i with
    | zero => exact hp
    | succ i => exact hpi (i + 1) (by omega) hi
  · obtain ⟨parts, cur, rest, h₁, h₂, h₃, -⟩ := (batchInv_run h).segment
    exact ⟨parts, cur, rest, h₁, h₂, h₃⟩

theorem rotation_history_one :
    ∃ s, run (fileStep fun _ => .empty) smallFile oneRecordRun = some s ∧
      s.hist.closed.length = 1 ∧ s.fs (backupPath ⟨[97], by decide⟩ (1 : Nat)) = some [120, 10] := by
  obtain ⟨s, hs, hpc, hc⟩ : ∃ s, run (fileStep fun _ => .empty) smallFile oneRecordRun = some s ∧
      s.pc = .sleep ∧ s.hist.closed = [[120, 10]] := ⟨_, rfl, rfl, rfl⟩
  have h := (rotation_history _ _ ⟨[97], by decide⟩ 1 1 _ _ oneRecordRun s le_rfl
    (by
      intro i h1 hi
      obtain rfl : i = 1 := by omega
      decide)
    (by simp [oneRecordRun, okStep, FileAction.KeepsSettings])
    (by decide +kernel) hs (by rw [hpc]; rfl)).1 1 le_rfl (by rw [hc]; exact le_rfl)
  rw [hc] at h
  obtain ⟨seg, hseg, hfs⟩ := h
  obtain rfl : [120, 10] = seg := Option.some.inj hseg
  exact ⟨s, hs, by rw [hc]; rfl, hfs⟩

end Logmoko
