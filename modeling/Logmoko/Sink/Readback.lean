import Logmoko.File.Rotation
import Logmoko.Handler.Order
import Logmoko.Sink.Lines

/-!
# file を古い順に読み戻す

名前と設定を変えない file handler について、残っている backup を古い順に、最後に今の file を
続けて読むと、claim された record の行の並びの末尾が、欠けも重なりも途中の切れ目もなく得られる。
抜けているのは、捨てた backup にあった行だけである。捨てた backup が無ければ、始めからあった内容に
続けて、すべての行が得られる（`file_readback`）。

claim の順は thread ごとには渡した順なので（`Handler/Order.lean`）、一つの thread の行は
file の中でも渡した順に並ぶ。
-/

namespace Logmoko

open Transition Files

variable {ι : Type}

/-! ## 収まる行 -/

/-- 呼び出し `c` の行は 2560 byte より短く、書式関数はどの余地に対してもその行を書く。 -/
def EnqueueCall.Fits (fn : Formatter) (timestamp : CStr) (c : EnqueueCall) : Prop :=
  ∃ line : List UInt8, line.length < maxLineSize ∧ ∀ size, maxLineSize ≤ size →
    size ≤ writeBufSize → fn.Yields (c.formatArgs timestamp) size line

theorem Drained.fits_of_carries {d : Drained} {c : EnqueueCall} (h : Carries d.req c)
    (hfits : c.Fits d.fn d.timestamp) : d.Fits := by
  unfold Drained.Fits
  rw [h.formatArgs_eq]
  exact hfits

/-- 書式を一度に展開する書式関数では、展開した長さだけが条件になる。 -/
theorem EnqueueCall.fits_ofText {text : FormatArgs → List UInt8} {timestamp : CStr}
    {c : EnqueueCall} (h : (text (c.formatArgs timestamp)).length < maxLineSize) :
    c.Fits (.ofText text) timestamp := by
  refine ⟨_, h, ?_⟩
  intro size hlo _
  exact Formatter.ofText_yields (by omega)

/-! ## 読み戻し -/

/-- 名前 `f.m` から `f.1`、最後に `f` の順に読んだ内容。無い file は空とする。 -/
def readBack (f : CStr) (m : Nat) (fs : List UInt8 → Option (List UInt8)) : List UInt8 :=
  ((List.range (m + 1)).map fun i => (fs (backupName f i)).getD []).reverse.flatten

variable {f : CStr} {n : Nat} {fs : List UInt8 → Option (List UInt8)}

theorem flatten_withInitial (initial seg : List UInt8) (segs : List (List UInt8)) :
    (withInitial initial (segs ++ [seg])).flatten = initial ++ (segs.flatten ++ seg) := by
  cases segs with
  | nil => simp [withInitial]
  | cons x xs => simp [withInitial]

theorem drop_withInitial (initial : List UInt8) (segs : List (List UInt8)) {j : Nat}
    (hj : j ≠ 0) : (withInitial initial segs).drop j = segs.drop j := by
  obtain ⟨i, rfl⟩ := Nat.exists_eq_succ_of_ne_zero hj
  cases segs with
  | nil => rfl
  | cons x xs => rfl

/-- 今の file は最後に読む。 -/
theorem readBack_succ (f : CStr) (m : Nat) (fs : List UInt8 → Option (List UInt8)) :
    readBack f m fs =
      ((List.range m).map fun i => (fs (backupName f (i + 1))).getD []).reverse.flatten ++
        (fs f.bytes).getD [] := by
  unfold readBack
  rw [List.range_succ_eq_map, List.map_cons, List.reverse_cons, List.flatten_append,
    List.map_map]
  simp [Function.comp_def, backupName]

/-- stdio の buffer に残っている分は、読み戻した内容の末尾にだけ欠けている。 -/
theorem RotationInv.readBack_view {s : FileState} (hfit : BackupsFit f n)
    (h : RotationInv f n fs s) (hpc : s.pc.streamClosed = false) {m : Nat} (hm : m ≤ n) :
    readBack f m s.view = readBack f m s.fs ++ s.held := by
  obtain ⟨p, written, hp, hpath, hw, hview⟩ := h.exists_stream hpc
  have hbackups : ∀ i ∈ List.range m,
      (s.view (backupName f (i + 1))).getD [] = (s.fs (backupName f (i + 1))).getD [] := by
    intro i hi
    have hlt : i < m := List.mem_range.mp hi
    rw [h.view_of_ne fun heq => absurd
      (backupName_inj hfit (i + 1) 0 (by omega) (Nat.zero_le n) heq) (by omega)]
  rw [readBack_succ, readBack_succ, List.map_congr_left hbackups, hview, hw,
    FileState.held_of_some hp, List.append_assoc]
  rfl

/-- 残っている file は、古い区間を捨てた残りを順に持つ。 -/
theorem RotationInv.readBack_eq {s : FileState} (h : RotationInv f n fs s)
    (hpc : s.pc.streamClosed = false) :
    readBack f (min s.hist.closed.length n) s.view =
      (if s.hist.closed.length ≤ n then (fs f.bytes).getD [] else []) ++
        ((s.hist.closed.drop (s.hist.closed.length - n)).flatten ++ s.hist.current) := by
  have hages := (holds_iff_of_open hpc).mp h.holds
  unfold readBack
  rw [hages.read (by omega) (by rw [FileHistory.length_newest]; omega), FileHistory.newest,
    List.take_reverse, List.reverse_reverse, length_withInitial, List.length_append,
    List.length_singleton]
  by_cases hle : s.hist.closed.length ≤ n
  · rw [if_pos hle, Nat.min_eq_left hle, Nat.sub_self, List.drop_zero, Nat.sub_eq_zero_of_le hle,
      List.drop_zero, flatten_withInitial]
  · rw [if_neg hle, Nat.min_eq_right (by omega), List.nil_append, Nat.add_sub_add_right,
      drop_withInitial _ _ (by omega), List.drop_append_of_le_length (by omega),
      List.flatten_append, List.flatten_singleton]

/-! ## 全体の実行 -/

/-- 名前・設定・書式を変えない動作。 -/
def FileHandlerAction.KeepsSettings : FileHandlerAction ι → Prop
  | .setRotation _ _ | .setFilename _ | .setFormat _ => False
  | _ => True

/-- file の操作が成功する動作。 -/
def FileHandlerAction.Succeeds (s : FileHandlerState ι) : FileHandlerAction ι → Prop
  | .thread _ io => (FileAction.step io).Succeeds s.file
  | _ => True

instance (s : FileHandlerState ι) (a : FileHandlerAction ι) : Decidable (a.Succeeds s) :=
  match a with
  | .thread _ io => inferInstanceAs (Decidable ((FileAction.step io).Succeeds s.file))
  | .logImpl _ _ | .producer _ _ | .spuriousWakeup | .destroy | .setRotation _ _
  | .setFilename _ | .storeFilename | .setFormat _ => inferInstanceAs (Decidable True)

theorem FileHandlerAction.Succeeds.keepsOpen {s : FileHandlerState ι} {a : FileHandlerAction ι}
    (h : a.Succeeds s) : a.KeepsOpen := by
  cases a with
  | thread now io => exact h.1
  | logImpl | producer | spuriousWakeup | destroy | setRotation | setFilename | storeFilename
  | setFormat => trivial

theorem FileHandlerAction.KeepsSettings.keepsFormat {a : FileHandlerAction ι}
    (h : a.KeepsSettings) : a.KeepsFormat := by
  cases a with
  | setFormat => exact h
  | logImpl | producer | thread | spuriousWakeup | destroy | setRotation | setFilename
  | storeFilename => trivial

/-- 全体の条件は、file の側の動作に移る。 -/
theorem along_fileActs {A : CursorArith} {strftime : Int → CStr} (s : FileHandlerState ι)
    {a : FileHandlerAction ι} (hkeep : a.KeepsSettings) (hok : a.Succeeds s) :
    Along (fileStep strftime) (fun f b => b.KeepsSettings ∧ b.Succeeds f) s.file
      (s.fileActs A a) := by
  cases a with
  | setRotation | setFilename | setFormat => exact hkeep.elim
  | storeFilename => exact along_singleton ⟨trivial, trivial⟩
  | logImpl | producer | spuriousWakeup | destroy => trivial
  | thread now io =>
    have hstep : Along (fileStep strftime) (fun f b => b.KeepsSettings ∧ b.Succeeds f) s.file
        [.step io] := along_singleton ⟨trivial, hok⟩
    simp only [FileHandlerState.fileActs]
    split
    · split <;> exact along_singleton ⟨trivial, trivial⟩
    · split
      · trivial
      · exact hstep
    · split
      · trivial
      · exact hstep
    · exact along_singleton ⟨trivial, trivial⟩
    · exact hstep
    · exact hstep
    · exact hstep
    · trivial

variable [DecidableEq ι] {strftime : Int → CStr} {s : FileHandlerState ι} {name : CStr} {k : Nat}
  {maxFileSize : Int} {fn : Formatter} {wbuf : Nat → UInt8} {as : List (FileHandlerAction ι)}

/-- file の側の不変量。 -/
theorem rotationInv_fileHandler (hn : 1 ≤ n) (hfit : BackupsFit f n)
    (hrun : run (fileHandlerStep .unbounded strftime)
      (fileHandlerInitial ι name k true fs f maxFileSize n fn wbuf) as = some s)
    (hkeep : ∀ a ∈ as, a.KeepsSettings)
    (hok : Along (fileHandlerStep .unbounded strftime) FileHandlerAction.Succeeds
      (fileHandlerInitial ι name k true fs f maxFileSize n fn wbuf) as) :
    RotationInv f n fs s.file ∧ HeldInv s.file ∧ ExitedInv s.file := by
  have halong : Along (fileStep strftime) (fun f b => b.KeepsSettings ∧ b.Succeeds f) _ _ :=
    along_emitted (f := FileHandlerState.file)
      (fun _ _ _ hs => (fileHandlerStep_eq_some.mp hs).2)
      (fun s _ ha => along_fileActs s ha.1 ha.2)
      ((along_of_forall_mem hkeep).and hok) hrun
  have hinv : FlushedInv s.file ∧ RotationInv f n fs s.file ∧ HeldInv s.file ∧
      ExitedInv s.file := by
    refine run_invariant (I := fun s => FlushedInv s ∧ RotationInv f n fs s ∧ HeldInv s ∧
      ExitedInv s) ?_ ?_ halong (file_run hrun)
    · rintro f b f' ⟨hf, hrot, hheld, hexited⟩ hb h
      exact ⟨hf.step h, hrot.step hn hfit hb.1 hb.2 h, hheld.step hf hb.2 h,
        hexited.step hb.2 h⟩
    · exact ⟨(batchInv_initial : BatchInv strftime _).flushed, rotationInv_initial,
        fun _ => Or.inl rfl, fun _ => rfl⟩
  exact hinv.2

/-- 動作列の中で thread `p` が渡した record。 -/
def recordsOf (p : ι) : List (FileHandlerAction ι) → List LogRecord :=
  List.filterMap fun
    | .logImpl q record => if q = p then some record else none
    | .producer _ _ | .thread _ _ | .spuriousWakeup | .destroy | .setRotation _ _ | .setFilename _
    | .storeFilename | .setFormat _ => none

theorem loggedBy_handlerActs (p : ι) (s : FileHandlerState ι) (a : FileHandlerAction ι) :
    loggedBy p (s.handlerActs a) = recordsOf p [a] := by
  cases a with
  | thread now io =>
    simp only [FileHandlerState.handlerActs]
    repeat' split
    all_goals rfl
  | logImpl | producer | spuriousWakeup | destroy => rfl
  | setRotation | setFilename | storeFilename | setFormat => rfl

theorem loggedBy_emitted {s s' : FileHandlerState ι} {A : CursorArith}
    (h : run (fileHandlerStep A strftime) s as = some s') (p : ι) :
    loggedBy p (emitted (fileHandlerStep A strftime) FileHandlerState.handlerActs s as)
      = recordsOf p as := by
  induction as generalizing s with
  | nil => rfl
  | cons a as ih =>
    obtain ⟨u, hu, ht⟩ := run_cons_eq_some.mp h
    have hcons : recordsOf p (a :: as) = recordsOf p [a] ++ recordsOf p as := by
      rw [← List.singleton_append]
      exact List.filterMap_append
    rw [emitted_cons hu, hcons, ← loggedBy_handlerActs p s a, ← ih ht]
    exact List.filterMap_append

/-- 整形した record が claim を順に運んでいれば、どの行も収まる。 -/
theorem fits_drained {ds : List Drained} {claims : List EnqueueCall}
    (h : List.Forall₂ (fun d c => Carries d.req c) ds claims)
    (hstyle : ∀ d ∈ ds, d.fn = fn ∧ Stamp strftime d.timestamp)
    (hfits : ∀ c ∈ claims, ∀ timestamp, Stamp strftime timestamp → c.Fits fn timestamp) :
    ∀ d ∈ ds, d.Fits := by
  induction h with
  | nil => simp
  | @cons d c ds claims hd _ ih =>
    intro x hx
    rcases List.mem_cons.mp hx with rfl | hx
    · obtain ⟨rfl, hstamp⟩ := hstyle x List.mem_cons_self
      exact Drained.fits_of_carries hd (hfits c List.mem_cons_self _ hstamp)
    · exact ih (fun d hd => hstyle d (List.mem_cons_of_mem _ hd))
        (fun c hc => hfits c (List.mem_cons_of_mem _ hc)) x hx

/--
残っている file を古い順に読んだ内容に、stdio の buffer に残っている分を続けたものは、行の列 `lines` から
先頭の `j` 行を除いたものである。その `j` 行は、捨てた file にあった行である。
抜けた後か、行がどれも空でなければ、stdio の buffer には何も残っていない。
-/
structure ReadsBack (f : CStr) (n : Nat) (initial : List UInt8) (lines : List (List UInt8))
    (s : FileState) (j : Nat) : Prop where
  read : readBack f (min s.hist.closed.length n) s.fs ++ s.held =
    (if s.hist.closed.length ≤ n then initial else []) ++ (lines.drop j).flatten
  discarded : (lines.take j).flatten = (s.hist.closed.take (s.hist.closed.length - n)).flatten
  whole : s.hist.closed.length ≤ n → j = 0
  settled : s.pc = .exited ∨ (∀ l ∈ lines, l ≠ []) → s.held = []

/-- 休んでいる consumer の file を読み戻すと、claim の行の列の末尾になる。 -/
theorem readBack_lines (hk : 1 ≤ k) (hn : 1 ≤ n) (hfit : BackupsFit f n)
    (hrun : run (fileHandlerStep .unbounded strftime)
      (fileHandlerInitial ι name k true fs f maxFileSize n fn wbuf) as = some s)
    (hkeep : ∀ a ∈ as, a.KeepsSettings)
    (hok : Along (fileHandlerStep .unbounded strftime) FileHandlerAction.Succeeds
      (fileHandlerInitial ι name k true fs f maxFileSize n fn wbuf) as)
    (hfits : ∀ c ∈ s.handler.mem.hist.claims, ∀ timestamp, Stamp strftime timestamp →
      c.Fits fn timestamp)
    (hrests : Rests strftime
      (fileHandlerInitial ι name k true fs f maxFileSize n fn wbuf) as s) :
    ∃ (stamps : List CStr) (j : Nat),
      stamps.length = s.handler.mem.hist.claims.length ∧ (∀ t ∈ stamps, Stamp strftime t) ∧
      ReadsBack f n ((fs f.bytes).getD [])
        (List.zipWith (fun t c => c.line fn t) stamps s.handler.mem.hist.claims) s.file j := by
  have hopen := hok.mono fun _ _ ha => ha.keepsOpen
  have hformat := fun a ha => (hkeep a ha).keepsFormat
  have hinv := fileHandlerInv_run hk hrun
  have hb := batchInv_run (file_run hrun)
  obtain ⟨hrotation, hheld, hexited⟩ := rotationInv_fileHandler hn hfit hrun hkeep hok
  obtain ⟨-, hpeek⟩ := peekInv_fileHandler hrun hopen
  have hstyle := styleInv_fileHandler hformat hrun
  obtain ⟨hlen, hnil, hclosed⟩ := hrests.complete hk hrun hopen
  have hcarries := hinv.delivered.drained hpeek.requests_eq
  -- 整形の結果は、claim の行の列である
  have houtputs := outputs_eq_zipWith hb (fits_drained hcarries hstyle.drained
    fun c hc => hfits c (List.mem_of_mem_take hc)) hcarries
  rw [zipWith_line_eq fun d hd => (hstyle.drained d hd).1] at houtputs
  have hsplit : Segments.Split s.file.hist.outputs s.file.hist.closed s.file.hist.current
      s.file.unwritten := hb.segment
  rw [hnil, houtputs] at hsplit
  obtain ⟨j, hj, hdiscarded, hzero⟩ := hsplit.drop (s.file.hist.closed.length - n)
  refine ⟨s.file.hist.drained.map Drained.timestamp, j, ?_, ?_, ?_, hdiscarded.symm, ?_, ?_⟩
  · rw [List.length_map, hlen]
  · intro t ht
    obtain ⟨d, hd, rfl⟩ := List.mem_map.mp ht
    exact (hstyle.drained d hd).2
  · rw [← hrotation.readBack_view hfit hclosed (Nat.min_le_right _ _),
      hrotation.readBack_eq hclosed, ← hj, List.append_nil]
  · exact fun hle => hzero (by omega)
  · rintro (hpc | hlines)
    · exact hexited hpc
    · have hat := hheld (by rw [houtputs]; exact hlines)
      unfold HeldAt at hat
      rcases (hrests.taken_eq hk hrun).2 with hpc | hpc
      · rwa [hpc] at hat
      · rwa [hpc] at hat

/--
**書いたものは、読み戻せる。**

名前・設定・書式を変えず、file の操作が失敗しない実行で、consumer が休んでいるとする。
残っている backup を古い順に、最後に今の file を続けて読むと、claim された record の行を
claim の順に並べた列から、捨てた backup にあった行を除いたものになる（`ReadsBack`）。
捨てた backup が無ければ、始めの内容に続く列の全体である。

一つの thread の record は、その列の中でも渡した順である。眠っている consumer について、
drop が数えられておらず停止も始まっていなければ、渡した record のすべてがそこにある。
-/
theorem file_readback (hk : 1 ≤ k) (hn : 1 ≤ n) (hfit : BackupsFit f n)
    (hrun : run (fileHandlerStep .unbounded strftime)
      (fileHandlerInitial ι name k true fs f maxFileSize n fn wbuf) as = some s)
    (hkeep : ∀ a ∈ as, a.KeepsSettings)
    (hok : Along (fileHandlerStep .unbounded strftime) FileHandlerAction.Succeeds
      (fileHandlerInitial ι name k true fs f maxFileSize n fn wbuf) as)
    (hfits : ∀ c ∈ s.handler.mem.hist.claims, ∀ timestamp, Stamp strftime timestamp →
      c.Fits fn timestamp)
    (hrests : Rests strftime
      (fileHandlerInitial ι name k true fs f maxFileSize n fn wbuf) as s) :
    ∃ (stamps : List CStr) (owners : List ι) (j : Nat),
      stamps.length = s.handler.mem.hist.claims.length ∧ (∀ t ∈ stamps, Stamp strftime t) ∧
      ReadsBack f n ((fs f.bytes).getD [])
        (List.zipWith (fun t c => c.line fn t) stamps s.handler.mem.hist.claims) s.file j ∧
      owners.length = s.handler.mem.hist.claims.length ∧ ∀ p,
        ((claimsOf p owners s.handler.mem.hist.claims).map EnqueueCall.record).Sublist
          (recordsOf p as) ∧
        (s.handler.thread = .parked → s.handler.dropped = 0 → s.handler.running = true →
          (claimsOf p owners s.handler.mem.hist.claims).map EnqueueCall.record
            = recordsOf p as) := by
  obtain ⟨stamps, j, hlen, hstamps, hread⟩ :=
    readBack_lines hk hn hfit hrun hkeep hok hfits hrests
  obtain ⟨horder, hreject⟩ := orderInv_run (handler_run hrun)
  refine ⟨stamps, owners _, j, hlen, hstamps, hread, horder.length_owners, ?_⟩
  intro p
  rw [← loggedBy_emitted hrun p, ← submitted_emitted (handler_run hrun) p]
  refine ⟨horder.sublist p, ?_⟩
  intro hparked hdropped hrunning
  rcases hrests with ⟨hidle, -⟩ | ⟨hexited, -⟩
  · exact horder.complete hreject hidle hdropped hrunning p
  · rw [hexited] at hparked
    cases hparked

theorem file_readback_oneLineRun :
    ∃ s, run (fileHandlerStep .unbounded fun _ => .empty) smallFileHandler oneLineRun = some s ∧
      s.handler.mem.hist.claims.length = 1 ∧ s.file.hist.closed.length = 1 ∧
      ∃ stamps : List CStr, stamps.length = 1 ∧ readBack (.lit [97]) 1 s.file.fs =
        (List.zipWith (fun t c => EnqueueCall.line (.ofText fun _ => [120, 10]) t c) stamps
          s.handler.mem.hist.claims).flatten := by
  have hpc : (run (fileHandlerStep .unbounded fun _ => .empty) smallFileHandler oneLineRun).map
      (fun s => (decide (∀ p, s.handler.producers p = .idle), s.handler.thread.isParked,
        s.handler.mem.hist.claims.length, s.file.hist.closed.length, s.file.held))
        = some (true, true, 1, 1, []) := by decide +kernel
  obtain ⟨s, hs, hp⟩ := Option.map_eq_some_iff.mp hpc
  simp only [Prod.mk.injEq, decide_eq_true_eq, ThreadPc.isParked_iff] at hp
  obtain ⟨hidle, ht, hlen, hclosed, hheld⟩ := hp
  have hfit : BackupsFit (.lit [97]) 1 := by
    intro i h1 hi
    obtain rfl : i = 1 := by omega
    decide
  have hkeep : ∀ a ∈ oneLineRun, a.KeepsSettings := by
    simp [oneLineRun, okThread, FileHandlerAction.KeepsSettings]
  obtain ⟨stamps, owners, j, hstamps, -, ⟨hread, -, hzero, -⟩, -⟩ :=
    file_readback (by decide) le_rfl hfit hs hkeep (by decide +kernel)
      (fun c _ t _ => EnqueueCall.fits_ofText (by decide)) (Or.inl ⟨hidle, ht⟩)
  rw [hclosed, hheld] at hread
  rw [hzero (by rw [hclosed]), List.append_nil] at hread
  exact ⟨s, hs, hlen, hclosed, stamps, hstamps.trans hlen, hread⟩

end Logmoko
