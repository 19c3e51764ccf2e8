import Logmoko.Sink.Lines

/-!
# file を開き直せなかったとき

回転の後の `fopen` に失敗すると、`log_fp` は NULL のままになる。consumer はその後も slot を
取り出すが、何も整形せず、file を開き直すこともない。ここでは file の操作の成否に何も仮定しない。

* `FileState.Lost` — stream を失った状態。一度失うと、file の側は何も変わらない（`Lost.run`）
* `file_handler_faults` — 失われるのは、失った後の claim のすべてと、整形済みの高々一行だけである
-/

namespace Logmoko

open Transition

variable {strftime : Int → CStr}

/-! ## stream を失った状態 -/

/-- slot を取り出す loop と、眠りの受け渡しの位置。 -/
def FilePc.outside : FilePc → Bool
  | .peek | .checkFp _ _ | .consume | .idle | .loadRunning | .sleep | .finalFlush | .finalFflush
  | .exited => true
  | _ => false

/-- stream が無いまま、次の slot を待っている。 -/
structure FileState.Lost (s : FileState) : Prop where
  logFp : s.logFp = none
  outside : s.pc.outside = true

/-- `t` は、file と書いたものについて `s` から変わっていない。 -/
structure Unwritten (s t : FileState) : Prop where
  fs : t.fs = s.fs
  closed : t.hist.closed = s.hist.closed
  current : t.hist.current = s.hist.current
  drained : t.hist.drained = s.hist.drained

theorem FileState.Lost.step {f f' : FileState} {b : FileAction} (h : f.Lost)
    (hs : fileStep strftime f b = some f') : f'.Lost ∧ Unwritten f f' := by
  obtain ⟨hfp, hout⟩ := h
  cases fileStep_move hs with
  | slot | ringEmpty | noStream | consume | idleSkip | sleep | finalSkip | finalFflushSkip =>
    exact ⟨⟨hfp, rfl⟩, rfl, rfl, rfl, rfl⟩
  | @running b hpc =>
    refine ⟨⟨hfp, ?_⟩, rfl, rfl, rfl, rfl⟩
    cases b <;> rfl
  | setRotation | keepFilename | freeFilename | storeFilename | setFormat =>
    exact ⟨⟨hfp, hout⟩, rfl, rfl, rfl, rfl⟩
  | noRoom hpc hp | room hpc hp | fwrite hpc hp | close hpc hp | idleFlush hpc hw hp
  | fflush hpc hp | finalFlush hpc hp | finalFflush hpc hp =>
    rw [hfp] at hp
    cases hp
  | addSize hpc | enabled hpc | disabled hpc | reached hpc | below hpc | shiftInit hpc | shift hpc
  | shiftEnd hpc | oldPath hpc | newPath hpc | rename hpc | first hpc | firstSkip hpc
  | firstPath hpc | firstName hpc | firstRename hpc | openName hpc | opened hpc | openFailed hpc
  | reset hpc | resetPos hpc | format hpc | fflushSkip hpc =>
    rw [hpc] at hout
    exact absurd hout Bool.false_ne_true

/-- 一度失った stream は戻らず、file には何も書かれない。 -/
theorem FileState.Lost.run {f f' : FileState} {bs : List FileAction} (h : f.Lost)
    (hrun : run (fileStep strftime) f bs = some f') : f'.Lost ∧ Unwritten f f' := by
  refine Reachable.invariant (I := fun t => t.Lost ∧ Unwritten f t) ?_ ⟨h, rfl, rfl, rfl, rfl⟩
    ⟨bs, hrun⟩
  rintro t b t' ⟨hlost, hsame⟩ hs
  obtain ⟨hlost', hsame'⟩ := hlost.step hs
  exact ⟨hlost', hsame'.fs.trans hsame.fs, hsame'.closed.trans hsame.closed,
    hsame'.current.trans hsame.current, hsame'.drained.trans hsame.drained⟩

/-! ## 整形した record -/

/--
失うまでは、取り出した request はみな整形される。失った後に取り出したものは整形されないので、
整形したものは、取り出したものの先頭から一つずつである。
-/
def FaultInv (s : FileState) : Prop :=
  PeekInv s ∨ s.Lost ∧ s.hist.drained.map (fun d => (d.now, d.req)) <+: s.hist.peeked

theorem FaultInv.step {f f' : FileState} {b : FileAction} (h : FaultInv f)
    (hs : fileStep strftime f b = some f') : FaultInv f' := by
  rcases h with h | ⟨hlost, hprefix⟩
  · have h' : f.hist.peeked = f.hist.drained.map (fun d => (d.now, d.req)) ++ f.pc.pending := h
    cases fileStep_move hs with
    | noStream hpc hp => exact Or.inr ⟨⟨hp, rfl⟩, h' ▸ List.prefix_append _ _⟩
    | format hpc =>
      rw [hpc] at h'
      left
      simpa [PeekInv, formatStep, FilePc.pending] using h'
    | resetPos hpc =>
      rw [hpc] at h'
      left
      show f.hist.peeked = _ ++ (FlushSite.next _).pending
      rw [FlushSite.pending_next]
      exact h'
    | @running b hpc =>
      rw [hpc] at h'
      left
      cases b <;> exact h'
    | slot hpc | noRoom hpc | room hpc | fwrite hpc | addSize hpc | enabled hpc | disabled hpc
    | reached hpc | below hpc | close hpc | shiftInit hpc | shift hpc | shiftEnd hpc
    | oldPath hpc | newPath hpc | rename hpc | first hpc | firstSkip hpc | firstPath hpc
    | firstName hpc | firstRename hpc | openName hpc | opened hpc | openFailed hpc | reset hpc
    | consume hpc | idleFlush hpc | idleSkip hpc | fflush hpc | fflushSkip hpc | sleep hpc
    | finalFlush hpc | finalSkip hpc | finalFflush hpc | finalFflushSkip hpc | ringEmpty hpc =>
      rw [hpc] at h'
      left
      simpa [PeekInv, FilePc.pending, FlushSite.pending] using h'
    | setRotation | keepFilename | freeFilename | storeFilename | setFormat => exact Or.inl h'
  · obtain ⟨hlost', hsame⟩ := hlost.step hs
    refine Or.inr ⟨hlost', ?_⟩
    rw [hsame.drained, peeked_step hs]
    exact hprefix.trans (List.prefix_append _ _)

/-- stream の無い間に溜まっているのは、最後に整形した行だけである。 -/
structure TailInv (s : FileState) : Prop where
  staged : s.logFp = none → s.pc.handedOver = false →
    ∃ ls, ls.length ≤ 1 ∧ ls <:+ s.hist.outputs ∧ s.staged = ls.flatten
  format : s.logFp = none → ∀ now req, s.pc = .format now req → s.wpos = 0

theorem TailInv.of_empty {s : FileState} (h : s.wpos = 0) : TailInv s := by
  refine ⟨?_, fun _ _ _ _ => h⟩
  intro _ _
  refine ⟨[], Nat.zero_le 1, List.nil_suffix, ?_⟩
  rw [FileState.staged, h]
  rfl

theorem TailInv.step {f f' : FileState} {b : FileAction} (h : TailInv f)
    (hs : fileStep strftime f b = some f') : TailInv f' := by
  cases fileStep_move hs with
  | resetPos hpc => exact .of_empty rfl
  | finalFlush => exact .of_empty rfl
  | @format io now req hpc =>
    refine ⟨?_, ?_⟩
    · intro hfp _
      obtain ⟨o, ho, hstaged⟩ := staged_formatStep strftime f now req
      refine ⟨[o], le_rfl, ?_, ?_⟩
      · rw [ho]
        exact List.suffix_append _ _
      · have hempty : f.staged = [] := by
          rw [FileState.staged, h.format hfp now req hpc]
          rfl
        rw [hstaged, hempty]
        simp
    · intro _ _ _ hpc'
      cases hpc'
  | noRoom hpc hp | room hpc hp | idleFlush hpc hw hp =>
    refine ⟨?_, ?_⟩
    all_goals
      intro hfp
      rw [show f.logFp = none from hfp] at hp
      cases hp
  | fwrite | opened | fflush | finalFflush =>
    refine ⟨?_, ?_⟩
    all_goals
      intro hfp
      cases hfp
  | addSize | enabled | disabled | reached | below | close | shiftInit | shift | shiftEnd | oldPath
  | newPath | rename | first | firstSkip | firstPath | firstName | firstRename | openName
  | openFailed | reset =>
    refine ⟨?_, ?_⟩
    · intro _ hover
      cases hover
    · intro _ _ _ hpc
      cases hpc
  | slot hpc | ringEmpty hpc | noStream hpc | consume hpc | idleSkip hpc | fflushSkip hpc
  | sleep hpc | finalSkip hpc | finalFflushSkip hpc =>
    refine ⟨fun hfp _ => h.staged hfp (by rw [hpc]; rfl), ?_⟩
    intro _ _ _ hpc'
    cases hpc'
  | @running b hpc =>
    refine ⟨fun hfp _ => h.staged hfp (by rw [hpc]; rfl), ?_⟩
    intro _ now req hpc'
    cases b <;> cases hpc'
  | setRotation | keepFilename | freeFilename | storeFilename | setFormat =>
    exact ⟨h.staged, h.format⟩

/-! ## 実行全体 -/

variable {ι : Type} [DecidableEq ι] {s t : FileHandlerState ι} {name : CStr} {k : Nat}
  {opens : Bool} {fs : List UInt8 → Option (List UInt8)} {filename : CStr}
  {maxFileSize maxBackupFiles : Int} {fn : Formatter} {wbuf : Nat → UInt8}
  {as : List (FileHandlerAction ι)}

theorem faultInv_fileHandler
    (hrun : run (fileHandlerStep .unbounded strftime) (fileHandlerInitial ι name k opens fs
      filename maxFileSize maxBackupFiles fn wbuf) as = some s) :
    FaultInv s.file ∧ TailInv s.file := by
  refine Reachable.invariant (I := fun f => FaultInv f ∧ TailInv f) ?_ ?_ ⟨_, file_run hrun⟩
  · rintro f b f' ⟨hfault, htail⟩ hs
    exact ⟨hfault.step hs, htail.step hs⟩
  · exact ⟨Or.inl rfl, .of_empty rfl⟩

omit [DecidableEq ι] in
/-- 整形した request は、claim の列の先頭から一つずつ運んでいる。 -/
theorem FaultInv.drained (hinv : FileHandlerInv s) (h : FaultInv s.file) :
    List.Forall₂ (fun d c => Carries d.req c) s.file.hist.drained
      (s.handler.mem.hist.claims.take s.file.hist.drained.length) := by
  rcases h with hpeek | ⟨-, rest, hrest⟩
  · exact hinv.delivered.drained hpeek.requests_eq
  · have hreqs : s.file.hist.peeked.map Prod.snd =
        s.file.hist.drained.map Drained.req ++ rest.map Prod.snd := by
      rw [← hrest, List.map_append, List.map_map]
      rfl
    exact hinv.delivered.drained hreqs

/-- stream を失った後に渡していないのは、整形したものの高々最後の一行である。 -/
theorem FileState.Lost.handed_eq {f : FileState} (h : f.Lost) (hb : BatchInv strftime f)
    (htail : TailInv f) :
    ∃ j, f.hist.outputs.length ≤ j + 1 ∧ f.hist.handed = (f.hist.outputs.take j).flatten := by
  have hover : f.pc.handedOver = false := by
    have hout := h.outside
    cases hpc : f.pc <;> rw [hpc] at hout <;> first | rfl | exact absurd hout Bool.false_ne_true
  obtain ⟨ls, hlen, ⟨rest, hrest⟩, hstaged⟩ := htail.staged h.logFp hover
  refine ⟨rest.length, ?_, ?_⟩
  · rw [← hrest, List.length_append]
    omega
  · have hsplit := hb.segment.flatten_eq
    rw [hover, if_neg Bool.false_ne_true, hstaged, ← hrest, List.flatten_append] at hsplit
    rw [← hrest, List.take_left]
    exact List.append_cancel_right hsplit

/--
**file を開き直せなくても、書いたものは claim の列の先頭である。**

file の操作がどう失敗しても、整形した record は claim の列の先頭から一つずつであり、`fwrite` に
渡した byte 列にまだの分を続けたものは、その行を並べたものである。stream を失った後は、file の中身も
渡した byte 列も変わらず、渡していないのは、整形したものの高々最後の一行である。
stream を失わずに休んでいれば、claim のすべてが渡し終わっている。
-/
theorem file_handler_faults (hk : 1 ≤ k)
    (hrun : run (fileHandlerStep .unbounded strftime) (fileHandlerInitial ι name k opens fs
      filename maxFileSize maxBackupFiles fn wbuf) as = some s)
    (hfits : ∀ d ∈ s.file.hist.drained, d.Fits) :
    List.Forall₂ (fun d c => Carries d.req c) s.file.hist.drained
      (s.handler.mem.hist.claims.take s.file.hist.drained.length) ∧
    s.file.hist.handed ++ s.file.unwritten = s.lines ∧
    (s.file.Lost →
      (∃ j, s.file.hist.drained.length ≤ j + 1 ∧ s.file.hist.handed =
        ((List.zipWith (fun d c => c.line d.fn d.timestamp) s.file.hist.drained
          s.handler.mem.hist.claims).take j).flatten) ∧
      ∀ bs t, run (fileHandlerStep .unbounded strftime) s bs = some t →
        t.file.Lost ∧ Unwritten s.file t.file) ∧
    (¬ s.file.Lost → Rests strftime (fileHandlerInitial ι name k opens fs filename maxFileSize
        maxBackupFiles fn wbuf) as s →
      s.file.hist.drained.length = s.handler.mem.hist.claims.length ∧
        s.file.hist.handed = s.lines) := by
  have hinv := fileHandlerInv_run hk hrun
  have hb := batchInv_run (file_run hrun)
  obtain ⟨hfault, htail⟩ := faultInv_fileHandler hrun
  have hcarries := hfault.drained hinv
  have hlines := handed_append hb hfits hcarries
  refine ⟨hcarries, hlines, ?_, ?_⟩
  · intro hlost
    refine ⟨?_, fun bs t hbs => hlost.run (file_run hbs)⟩
    obtain ⟨j, hj, hhanded⟩ := hlost.handed_eq hb htail
    rw [outputs_eq_zipWith hb hfits hcarries] at hhanded
    rw [← hb.line.length_eq] at hj
    exact ⟨j, hj, hhanded⟩
  · intro hlost hrests
    obtain ⟨htaken, hpc⟩ := hrests.taken_eq hk hrun
    have hfp : s.file.logFp.isSome = true := by
      by_contra hnone
      refine hlost ⟨Option.not_isSome_iff_eq_none.mp hnone, ?_⟩
      rcases hpc with hpc | hpc <;> rw [hpc] <;> rfl
    have hpeek : PeekInv s.file := hfault.resolve_right fun h => hlost h.1
    obtain ⟨hlen, hnil⟩ := hinv.rested hb hpeek hfp htaken hpc
    rw [hnil, List.append_nil] at hlines
    exact ⟨hlen, hlines⟩

/-- `fopen` だけが失敗する consumer の step。 -/
def closedThread : FileHandlerAction Unit := .thread 1 { okIo with opens := false }

/-- 一つ目の record で回転して stream を失い、二つ目の record を渡してから眠る。 -/
def lostStreamRun : List (FileHandlerAction Unit) :=
  .logImpl () (sampleRecord 2 65) :: List.replicate 15 (.producer () false) ++
    List.replicate 31 closedThread ++ .logImpl () (sampleRecord 2 66) ::
    List.replicate 18 (.producer () false) ++ List.replicate 18 closedThread

/-- 二つ目の record は取り出されるが、整形されない。 -/
theorem file_handler_faults_lostStreamRun :
    ∃ s, run (fileHandlerStep .unbounded fun _ => .empty) smallFileHandler lostStreamRun = some s ∧
      s.file.Lost ∧ s.handler.mem.hist.claims.length = 2 ∧ s.file.hist.drained.length = 1 ∧
      s.file.hist.handed ++ s.file.unwritten = s.lines := by
  have hstate : (run (fileHandlerStep .unbounded fun _ => .empty) smallFileHandler
      lostStreamRun).map (fun s => decide (s.file.logFp.isNone = true ∧
        s.file.pc.outside = true ∧ s.handler.mem.hist.claims.length = 2 ∧
        s.file.hist.drained.length = 1)) = some true := by decide +kernel
  obtain ⟨s, hs, hp⟩ := Option.map_eq_some_iff.mp hstate
  obtain ⟨hfp, hout, hclaims, hdrained⟩ := of_decide_eq_true hp
  have hstyle := styleInv_fileHandler
    (by simp [lostStreamRun, closedThread, FileHandlerAction.KeepsFormat]) hs
  have hfits : ∀ d ∈ s.file.hist.drained, d.Fits := fun d hd =>
    Drained.fits_ofText (hstyle.drained d hd).1 (by decide)
  obtain ⟨-, hlines, -, -⟩ := file_handler_faults (by decide) hs hfits
  exact ⟨s, hs, ⟨Option.isNone_iff_eq_none.mp hfp, hout⟩, hclaims, hdrained, hlines⟩

end Logmoko
