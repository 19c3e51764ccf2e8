import Logmoko.Sink.File

/-!
# log の呼び出しから file の byte 列まで

file handler の consumer は、claim された record を claim の順に一つずつ整形し、
整形した行を切れ目なく `fwrite` に渡す。どの thread がいつ呼び、いつ溜まった分が書かれ、
いつ回転が起きても、渡した byte 列は claim の列だけで決まる（`file_handler_lines`）。
休んでいる consumer は、何も溜めておらず、claim をすべて書き終えている。
-/

namespace Logmoko

open Transition

variable {ι : Type}

/-! ## 一行 -/

/-- 呼び出し `c` の record を、空いた buffer に単独で整形した行。 -/
def EnqueueCall.line (fn : Formatter) (timestamp : CStr) (c : EnqueueCall) : List UInt8 :=
  let r := fn.call maxLineSize (c.formatArgs timestamp)
  Buffer.read (Buffer.overlay (fun _ => 0) 0 r.written) 0 (clampLength r.ret maxLineSize).toNat

/-- 書式関数が過不足なく書く一行が、その行である。 -/
theorem EnqueueCall.line_of_yields {c : EnqueueCall} {fn : Formatter} {timestamp : CStr}
    {line : List UInt8} (hy : fn.Yields (c.formatArgs timestamp) maxLineSize line) :
    c.line fn timestamp = line := by
  unfold EnqueueCall.line
  dsimp only
  rw [hy.length, Int.toNat_natCast]
  exact Buffer.read_overlay_self hy.written

/-- 整形した request の行は、運んでいる record の行である。 -/
theorem Drained.line_eq {d : Drained} {c : EnqueueCall} (h : Carries d.req c) :
    d.line = c.line d.fn d.timestamp := by
  unfold Drained.line formatLine EnqueueCall.line
  rw [h.formatArgs_eq]

theorem map_line_eq {ds : List Drained} {claims : List EnqueueCall}
    (h : List.Forall₂ (fun d c => Carries d.req c) ds (claims.take ds.length)) :
    ds.map Drained.line = List.zipWith (fun d c => c.line d.fn d.timestamp) ds claims := by
  induction ds generalizing claims with
  | nil => rfl
  | cons d ds ih =>
    cases claims with
    | nil => cases h
    | cons c claims =>
      obtain ⟨hd, hrest⟩ := List.forall₂_cons.mp h
      rw [List.map_cons, List.zipWith_cons_cons, d.line_eq hd, ih hrest]

/-- 書式が一つなら、行の列は時刻だけで決まる。 -/
theorem zipWith_line_eq {ds : List Drained} {fn : Formatter} {claims : List EnqueueCall}
    (h : ∀ d ∈ ds, d.fn = fn) :
    List.zipWith (fun d c => EnqueueCall.line d.fn d.timestamp c) ds claims
      = List.zipWith (fun t c => EnqueueCall.line fn t c) (ds.map Drained.timestamp) claims := by
  have hfn : ds.map (fun d => (d.fn, d.timestamp)) = ds.map fun d => (fn, d.timestamp) := by
    refine List.map_congr_left ?_
    intro d hd
    rw [h d hd]
  have hzip := congrArg (fun ps => List.zipWith (fun p c => EnqueueCall.line p.1 p.2 c) ps claims)
    hfn
  simpa only [List.zipWith_map_left] using hzip

/-- 整形した request は、claim の列の先頭から一つずつ運んでいる。 -/
theorem Delivered.drained {reqs pending : List LogRequest} {ds : List Drained} {h : HandlerState ι}
    (hd : Delivered reqs h) (hreqs : reqs = ds.map Drained.req ++ pending) :
    List.Forall₂ (fun d c => Carries d.req c) ds (h.mem.hist.claims.take ds.length) := by
  have hlen := hd.length_eq
  rw [hreqs, List.length_append, List.length_map, List.length_take] at hlen
  have htake := List.forall₂_take ds.length hd
  rw [hreqs, List.take_left' (by simp), List.take_take, Nat.min_eq_left (by omega)] at htake
  exact List.forall₂_map_left_iff.mp htake

/-- 取り出したものをみな整形し終えていて、取り出し残しが無い。 -/
theorem Delivered.length_drained {reqs : List LogRequest} {ds : List Drained} {h : HandlerState ι}
    (hd : Delivered reqs h) (hreqs : reqs = ds.map Drained.req ++ [])
    (htaken : h.taken = h.mem.hist.claims.length) : ds.length = h.mem.hist.claims.length := by
  have hlen := hd.length_eq
  rw [hreqs, htaken, List.take_length] at hlen
  simpa using hlen

/-! ## 全体の不変量 -/

/-- 二つの側は同じ所にいて、peek した request は claim の列の先頭から一つずつ運んでいる。 -/
structure FileHandlerInv (s : FileHandlerState ι) : Prop where
  type : s.handler.type = .file
  ring : RingInv s.handler.toRing
  synced : Synced s.file.pc s.handler.thread
  delivered : Delivered (s.file.hist.peeked.map Prod.snd) s.handler

/-- file の側が peek する request は、受け渡しの側が取り出すものである。 -/
theorem requests_fileActs (s : FileHandlerState ι) (a : FileHandlerAction ι) :
    ((s.fileActs .unbounded a).filterMap FileAction.request).map Prod.snd
      = (s.handlerActs a).flatMap (takenBy s.handler) := by
  cases a with
  | thread now io =>
    cases ht : s.handler.thread with
    | drainPeek =>
      by_cases hr : s.handler.mem.ring.TailReady
      · have hp := (peek_isSome_iff s.handler.mem.ring).mpr hr
        simp [FileHandlerState.fileActs, FileHandlerState.handlerActs, takenBy, ht, hr, hp,
          FileAction.request]
      · have hp : ¬ (lmkRingPeekSlot .unbounded s.handler.mem.ring).isSome :=
          fun hp => hr ((peek_isSome_iff _).mp hp)
        simp [FileHandlerState.fileActs, FileHandlerState.handlerActs, takenBy, ht, hr, hp,
          FileAction.request]
    | process | flush | finalFlush =>
      simp only [FileHandlerState.fileActs, FileHandlerState.handlerActs, ht]
      split <;> simp [takenBy, ht, FileAction.request]
    | consumeStore | consumeTail | loadRunning | lock | storeSleeping | rePeek | reloadRunning
    | condWait | parked | woken | clearSleeping | unlock | exited =>
      simp [FileHandlerState.fileActs, FileHandlerState.handlerActs, takenBy, ht,
        FileAction.request]
  | logImpl | producer | spuriousWakeup | destroy => rfl
  | setRotation | setFilename | storeFilename | setFormat => rfl

variable [DecidableEq ι] {strftime : Int → CStr} {s s' : FileHandlerState ι}
  {a : FileHandlerAction ι}

/-- handler の種類は変わらない。 -/
theorem HandlerMove.type_eq {h h' : HandlerState ι} {b : HandlerAction ι}
    (hm : HandlerMove h b h') : h'.type = h.type := by
  cases hm <;> rfl

/-- consumer のほかの step は、眠っている consumer を起こすだけである。 -/
theorem HandlerMove.thread_other {h h' : HandlerState ι} {b : HandlerAction ι}
    (hm : HandlerMove h b h') (hb : b ≠ .thread) :
    h'.thread = h.thread ∨ h'.thread = h.thread.signal := by
  cases b with
  | logImpl => cases hm with | logImpl => exact Or.inl rfl
  | producer => exact hm.producer_frame.2.2
  | thread => exact absurd rfl hb
  | spuriousWakeup =>
    cases hm with
    | spuriousWakeup ht =>
      rw [ht]
      exact Or.inr rfl
  | destroy => cases hm <;> simp

omit [DecidableEq ι] in
/-- 受け渡しの側の動作は、高々一つである。 -/
theorem handlerActs_cases (s : FileHandlerState ι) (a : FileHandlerAction ι) :
    s.handlerActs a = [] ∨ ∃ b, s.handlerActs a = [b] := by
  cases a with
  | thread now io =>
    cases ht : s.handler.thread with
    | process | flush | finalFlush =>
      simp only [FileHandlerState.handlerActs, ht]
      split <;> simp
    | _ => simp [FileHandlerState.handlerActs, ht]
  | logImpl | producer | spuriousWakeup | destroy => exact Or.inr ⟨_, rfl⟩
  | setRotation | setFilename | storeFilename | setFormat => exact Or.inl rfl

theorem FileHandlerInv.delivered_step (h : FileHandlerInv s)
    (hs : fileHandlerStep .unbounded strftime s a = some s') :
    s'.handler.type = .file ∧ RingInv s'.handler.toRing ∧
      Delivered (s'.file.hist.peeked.map Prod.snd) s'.handler := by
  obtain ⟨hh, hf⟩ := fileHandlerStep_eq_some.mp hs
  rw [peeked_run hf, List.map_append, requests_fileActs]
  rcases handlerActs_cases s a with hacts | ⟨b, hacts⟩
  · rw [hacts] at hh ⊢
    have heq : s.handler = s'.handler := Option.some.inj hh
    rw [List.flatMap_nil, List.append_nil, ← heq]
    exact ⟨h.type, h.ring, h.delivered⟩
  · rw [hacts, run_singleton] at hh
    rw [hacts, List.flatMap_singleton]
    exact ⟨(handlerStep_move hh).type_eq.trans h.type, ringInv_handlerStep h.ring hh,
      h.delivered.step h.ring hh⟩

/-- consumer の一 step は、二つの側を同じ所に進める。 -/
theorem synced_thread {now : Int} {io : FileIo} (htype : s.handler.type = .file)
    (h : Synced s.file.pc s.handler.thread)
    (hs : fileHandlerStep .unbounded strftime s (.thread now io) = some s') :
    Synced s'.file.pc s'.handler.thread := by
  obtain ⟨hh, hf⟩ := fileHandlerStep_eq_some.mp hs
  obtain ⟨handler', file'⟩ := s'
  simp only [FileHandlerState.handlerActs, FileHandlerState.fileActs] at hh hf
  cases ht : s.handler.thread with
  | drainPeek =>
    simp only [ht, run_singleton, handlerStep, threadStep] at hh hf
    rw [← Option.some.inj hh]
    split at hf
    · next hp =>
      cases fileStep_move (run_singleton.symm.trans hf) with
      | slot => simp [Synced, hp, FilePc.inSlot]
    · next hp =>
      cases fileStep_move (run_singleton.symm.trans hf) with
      | ringEmpty => simp [Synced, hp, htype, ThreadPc.afterDrain, FilePc.inIdle]
  | process =>
    rw [ht] at h
    simp only [ht] at hh hf
    by_cases hc : s.file.pc.atConsume = true
    · rw [if_pos hc] at hh hf
      simp only [run_singleton, handlerStep, threadStep, ht] at hh
      rw [← Option.some.inj hh, ← Option.some.inj hf]
      exact FilePc.atConsume_iff.mp hc
    · rw [if_neg hc] at hh hf
      rw [← Option.some.inj hh, ht]
      exact (fileStep_move (run_singleton.symm.trans hf)).inSlot h
        fun he => hc (FilePc.atConsume_iff.mpr he)
  | flush =>
    rw [ht] at h
    simp only [ht] at hh hf
    by_cases hc : s.file.pc.atLoadRunning = true
    · rw [if_pos hc] at hh hf
      simp only [run_singleton, handlerStep, threadStep, ht] at hh
      rw [← Option.some.inj hh, ← Option.some.inj hf]
      exact FilePc.atLoadRunning_iff.mp hc
    · rw [if_neg hc] at hh hf
      rw [← Option.some.inj hh, ht]
      exact (fileStep_move (run_singleton.symm.trans hf)).inIdle h
  | loadRunning =>
    simp only [ht, run_singleton, handlerStep, threadStep] at hh hf
    rw [← Option.some.inj hh]
    cases fileStep_move hf with
    | running =>
      cases s.handler.running
      · simp [Synced, htype, ThreadPc.afterStop, FilePc.inFinal]
      · rfl
  | consumeStore =>
    rw [ht] at h
    simp only [ht, run_singleton, handlerStep, threadStep] at hh hf
    rw [← Option.some.inj hh, ← Option.some.inj hf]
    exact h
  | consumeTail | unlock =>
    rw [ht] at h
    simp only [ht, run_singleton, handlerStep, threadStep, fileStep] at hh hf
    rw [← Option.some.inj hh]
    unfold consumerStep at hf
    rw [show s.file.pc = _ from h] at hf
    rw [← Option.some.inj hf]
    rfl
  | finalFlush =>
    rw [ht] at h
    simp only [ht] at hh hf
    have hmove := (fileStep_move (run_singleton.symm.trans hf)).inFinal h
    by_cases hc : s.file.pc.atFinalFflush = true
    · rw [if_pos hc] at hh
      simp only [run_singleton, handlerStep, threadStep, ht] at hh
      rw [← Option.some.inj hh]
      obtain ⟨hpc, -⟩ | ⟨-, hexit⟩ := hmove
      · cases hpc.symm.trans (FilePc.atFinalFflush_iff.mp hc)
      · exact hexit
    · rw [if_neg hc] at hh
      rw [← Option.some.inj hh, ht]
      obtain ⟨-, hnext⟩ | ⟨hpc, -⟩ := hmove
      · exact congrArg FilePc.inFinal hnext
      · exact absurd (FilePc.atFinalFflush_iff.mpr hpc) hc
  | lock | woken =>
    rw [ht] at h
    simp only [ht, run_singleton, handlerStep, threadStep] at hh hf
    split at hh
    · rw [← Option.some.inj hh, ← Option.some.inj hf]
      exact h
    · cases hh
  | storeSleeping | condWait | clearSleeping =>
    rw [ht] at h
    simp only [ht, run_singleton, handlerStep, threadStep] at hh hf
    rw [← Option.some.inj hh, ← Option.some.inj hf]
    exact h
  | rePeek | reloadRunning =>
    rw [ht] at h
    simp only [ht, run_singleton, handlerStep, threadStep] at hh hf
    rw [← Option.some.inj hh, ← Option.some.inj hf]
    dsimp only
    split <;> exact h
  | parked | exited => simp [ht, run_singleton, handlerStep, threadStep] at hh

theorem FileHandlerInv.step (h : FileHandlerInv s)
    (hs : fileHandlerStep .unbounded strftime s a = some s') : FileHandlerInv s' := by
  obtain ⟨htype, hring, hdelivered⟩ := h.delivered_step hs
  refine ⟨htype, hring, ?_, hdelivered⟩
  obtain ⟨hh, hf⟩ := fileHandlerStep_eq_some.mp hs
  obtain ⟨handler', file'⟩ := s'
  dsimp only at hh hf ⊢
  cases a with
  | thread now io => exact synced_thread h.type h.synced hs
  | logImpl | producer | spuriousWakeup | destroy =>
    rw [← Option.some.inj hf]
    rcases (handlerStep_move (run_singleton.symm.trans hh)).thread_other (by simp) with ht | ht
    · rw [ht]
      exact h.synced
    · rw [ht]
      exact h.synced.signal
  | setRotation | setFilename | storeFilename | setFormat =>
    rw [← Option.some.inj hh]
    cases fileStep_move (run_singleton.symm.trans hf) <;> exact h.synced

/-! ## 実行全体 -/

/-- `fopen` が失敗しない動作。 -/
def FileHandlerAction.KeepsOpen : FileHandlerAction ι → Prop
  | .thread _ io => io.opens = true
  | _ => True

/-- 停止は呼び出しがみな返ってから始まり、record の残っている隙間に入らない。 -/
def StopsQuietly (s : FileHandlerState ι) (a : FileHandlerAction ι) : Prop :=
  Along (handlerStep .unbounded) (fun h b => QuietShutdown h b ∧ StopsOutsideWindow h b) s.handler
    (s.handlerActs a)

instance [Fintype ι] (s : FileHandlerState ι) (a : FileHandlerAction ι) :
    Decidable (StopsQuietly s a) :=
  decidableAlong ..

/--
動作列 `as` の後で consumer が休んでいる。誰も `log_impl` の中におらず眠っているか、
停止が隙間に入らずに抜けている。
-/
def Rests (strftime : Int → CStr) (s₀ : FileHandlerState ι) (as : List (FileHandlerAction ι))
    (s : FileHandlerState ι) : Prop :=
  (∀ p, s.handler.producers p = .idle) ∧ s.handler.thread = .parked ∨
    s.handler.thread = .exited ∧ Along (fileHandlerStep .unbounded strftime) StopsQuietly s₀ as

/-- まだ `fwrite` に渡していない byte 列。 -/
def FileState.unwritten (s : FileState) : List UInt8 := if s.pc.handedOver then [] else s.staged

/-- 整形した順に、運んでいる claim の行を並べた byte 列。 -/
def FileHandlerState.lines (s : FileHandlerState ι) : List UInt8 :=
  (List.zipWith (fun d c => c.line d.fn d.timestamp) s.file.hist.drained
    s.handler.mem.hist.claims).flatten

omit [DecidableEq ι] in
theorem keepsOpen_fileActs {A : CursorArith} (s : FileHandlerState ι) (h : a.KeepsOpen) :
    ∀ b ∈ s.fileActs A a, b.KeepsOpen := by
  cases a with
  | thread now io =>
    intro b hb
    cases b with
    | step io' =>
      have : io' = io := by
        simp only [FileHandlerState.fileActs] at hb
        repeat' split at hb
        all_goals simp_all
      rw [this]
      exact h
    | slot | empty | running | setRotation | setFilename | storeFilename | setFormat => trivial
  | logImpl | producer | spuriousWakeup | destroy => simp [FileHandlerState.fileActs]
  | setRotation | setFilename | storeFilename | setFormat =>
    simp [FileHandlerState.fileActs, FileAction.KeepsOpen]

section Run

variable {name : CStr} {k : Nat} {opens : Bool} {fs : List UInt8 → Option (List UInt8)}
  {filename : CStr} {maxFileSize maxBackupFiles : Int} {fn : Formatter} {wbuf : Nat → UInt8}
  {as : List (FileHandlerAction ι)}

theorem fileHandlerInv_run (hk : 1 ≤ k)
    (hrun : run (fileHandlerStep .unbounded strftime) (fileHandlerInitial ι name k opens fs
      filename maxFileSize maxBackupFiles fn wbuf) as = some s) : FileHandlerInv s := by
  refine Reachable.invariant (fun _ _ _ h hs => h.step hs) ?_ ⟨as, hrun⟩
  exact ⟨rfl, ringInv_initial hk, rfl, List.Forall₂.nil⟩

/-- stream が開き続ける実行では、取り出した request がすべて整形される。 -/
theorem peekInv_fileHandler
    (hrun : run (fileHandlerStep .unbounded strftime) (fileHandlerInitial ι name k true fs
      filename maxFileSize maxBackupFiles fn wbuf) as = some s)
    (hopen : Along (fileHandlerStep .unbounded strftime) (fun _ a => a.KeepsOpen)
      (fileHandlerInitial ι name k true fs filename maxFileSize maxBackupFiles fn wbuf) as) :
    StreamInv s.file ∧ PeekInv s.file := by
  have halong : Along (fileStep strftime) (fun _ a => a.KeepsOpen) _ _ :=
    along_emitted (f := FileHandlerState.file)
      (fun _ _ _ hs => (fileHandlerStep_eq_some.mp hs).2)
      (fun s _ ha => along_of_forall_mem (keepsOpen_fileActs s ha)) hopen hrun
  refine run_invariant (I := fun f => StreamInv f ∧ PeekInv f) ?_ ?_ halong (file_run hrun)
  · intro f b f' hs hb h
    exact ⟨hs.1.step hb h, hs.2.step hs.1 h⟩
  · exact ⟨rfl, rfl⟩

omit [DecidableEq ι] in
/-- file の側が取り出した request は、整形したものと、まだのものである。 -/
theorem PeekInv.requests_eq {f : FileState} (hpeek : PeekInv f) :
    f.hist.peeked.map Prod.snd = f.hist.drained.map Drained.req ++ f.pc.pending.map Prod.snd := by
  rw [show f.hist.peeked = _ from hpeek, List.map_append, List.map_map]
  rfl

omit [DecidableEq ι] in
/-- 収まる行について、整形の結果は claim の行の列である。 -/
theorem outputs_eq_zipWith (hb : BatchInv strftime s.file)
    (hfits : ∀ d ∈ s.file.hist.drained, d.Fits)
    (hcarries : List.Forall₂ (fun d c => Carries d.req c) s.file.hist.drained
      (s.handler.mem.hist.claims.take s.file.hist.drained.length)) :
    s.file.hist.outputs = List.zipWith (fun d c => c.line d.fn d.timestamp) s.file.hist.drained
      s.handler.mem.hist.claims := by
  rw [outputs_eq_map_line hb.line hfits, map_line_eq hcarries]

omit [DecidableEq ι] in
/-- 収まる行について、渡した分とまだの分を並べると、claim の行の並びになる。 -/
theorem handed_append (hb : BatchInv strftime s.file) (hfits : ∀ d ∈ s.file.hist.drained, d.Fits)
    (hcarries : List.Forall₂ (fun d c => Carries d.req c) s.file.hist.drained
      (s.handler.mem.hist.claims.take s.file.hist.drained.length)) :
    s.file.hist.handed ++ s.file.unwritten = s.lines := by
  have hsplit := hb.segment.flatten_eq
  rw [outputs_eq_zipWith hb hfits hcarries] at hsplit
  exact hsplit

omit [DecidableEq ι] in
/-- 休んでいる位置では、stream が開いている限り何も溜まっていない。 -/
theorem unwritten_eq_nil (hb : BatchInv strftime s.file) (hfp : s.file.logFp.isSome = true)
    (hflushed : s.file.pc.flushed = true) : s.file.unwritten = [] := by
  have hwpos : s.file.wpos = 0 := hb.flushed hflushed hfp
  unfold FileState.unwritten FileState.staged
  rw [hwpos, Buffer.read_zero, ite_self]

/-! ## 書式と時刻 -/

/-- 書式関数を変えない動作。 -/
def FileAction.KeepsFormat : FileAction → Prop
  | .setFormat _ => False
  | _ => True

/-- どの行も書式 `fn` と cache の時刻で整形されている。 -/
structure StyleInv (strftime : Int → CStr) (fn : Formatter) (f : FileState) : Prop where
  formatFn : f.formatFn = fn
  cache : Stamp strftime f.cache.text
  drained : ∀ d ∈ f.hist.drained, d.fn = fn ∧ Stamp strftime d.timestamp

theorem StyleInv.step {f f' : FileState} {b : FileAction} (h : StyleInv strftime fn f)
    (hkeep : b.KeepsFormat) (hs : fileStep strftime f b = some f') : StyleInv strftime fn f' := by
  cases fileStep_move hs with
  | setFormat => exact hkeep.elim
  | @format io now req hpc =>
    have hcache := h.cache.refresh now
    refine ⟨h.formatFn, hcache, ?_⟩
    intro d hd
    rcases List.mem_append.mp hd with hd | hd
    · exact h.drained d hd
    · obtain rfl := List.mem_singleton.mp hd
      exact ⟨h.formatFn, hcache⟩
  | _ => exact ⟨h.formatFn, h.cache, h.drained⟩

/-- 書式関数を変えない動作。 -/
def FileHandlerAction.KeepsFormat : FileHandlerAction ι → Prop
  | .setFormat _ => False
  | _ => True

omit [DecidableEq ι] in
/-- 動作ごとの条件は、file の側の動作に移る。 -/
theorem keepsFormat_fileActs {A : CursorArith} (s : FileHandlerState ι) (h : a.KeepsFormat) :
    ∀ b ∈ s.fileActs A a, b.KeepsFormat := by
  intro b hb
  cases a with
  | setFormat => exact h.elim
  | thread now io =>
    simp only [FileHandlerState.fileActs] at hb
    repeat' split at hb
    all_goals simp_all [FileAction.KeepsFormat]
  | logImpl | producer | spuriousWakeup | destroy => simp [FileHandlerState.fileActs] at hb
  | setRotation | setFilename | storeFilename =>
    simp only [FileHandlerState.fileActs, List.mem_singleton] at hb
    rw [hb]
    trivial

/-- 書式関数を変えない実行では、どの行も始めの書式と cache の時刻で整形されている。 -/
theorem styleInv_fileHandler (hkeep : ∀ a ∈ as, a.KeepsFormat)
    (hrun : run (fileHandlerStep .unbounded strftime) (fileHandlerInitial ι name k opens fs
      filename maxFileSize maxBackupFiles fn wbuf) as = some s) :
    StyleInv strftime fn s.file := by
  have halong : Along (fileStep strftime) (fun _ a => a.KeepsFormat) _ _ :=
    along_emitted (P := fun _ a => a.KeepsFormat) (f := FileHandlerState.file)
      (fun _ _ _ hs => (fileHandlerStep_eq_some.mp hs).2)
      (fun s a ha => along_of_forall_mem (keepsFormat_fileActs s ha)) (along_of_forall_mem hkeep)
      hrun
  refine run_invariant (I := StyleInv strftime fn) ?_ ?_ halong (file_run hrun)
  · intro f b f' hs hb h
    exact hs.step hb h
  · exact ⟨rfl, Or.inl rfl, by simp [fileHandlerInitial, fileInitial, FileHistory.empty]⟩

/-! ## 主結果 -/

/-- 休んでいる consumer は、眠っているか抜けていて、claim をすべて取り出している。 -/
theorem Rests.taken_eq (hk : 1 ≤ k)
    (hrun : run (fileHandlerStep .unbounded strftime) (fileHandlerInitial ι name k opens fs
      filename maxFileSize maxBackupFiles fn wbuf) as = some s)
    (hrests : Rests strftime
      (fileHandlerInitial ι name k opens fs filename maxFileSize maxBackupFiles fn wbuf) as s) :
    s.handler.taken = s.handler.mem.hist.claims.length ∧
      (s.file.pc = .sleep ∨ s.file.pc = .exited) := by
  have hinv := fileHandlerInv_run hk hrun
  have hreach := handler_run hrun
  have hsynced := hinv.synced
  rcases hrests with ⟨hidle, ht⟩ | ⟨ht, hstops⟩
  · rw [ht] at hsynced
    exact ⟨taken_eq_of_parked hinv.ring (wakeInv_reachable ⟨_, hreach⟩) hidle ht, Or.inl hsynced⟩
  · rw [ht] at hsynced
    have halong := along_emitted (f := FileHandlerState.handler)
      (fun _ _ _ hs => (fileHandlerStep_eq_some.mp hs).1) (fun _ _ h => h) hstops hrun
    exact ⟨taken_eq_of_exited hk hreach (halong.mono fun _ _ h => h.1)
      (halong.mono fun _ _ h => h.2) ht, Or.inr hsynced⟩

omit [DecidableEq ι] in
/-- 休んでいて stream の開いている consumer は、claim をすべて整形し、何も溜めていない。 -/
theorem FileHandlerInv.rested (hinv : FileHandlerInv s) (hb : BatchInv strftime s.file)
    (hpeek : PeekInv s.file) (hfp : s.file.logFp.isSome = true)
    (htaken : s.handler.taken = s.handler.mem.hist.claims.length)
    (hpc : s.file.pc = .sleep ∨ s.file.pc = .exited) :
    s.file.hist.drained.length = s.handler.mem.hist.claims.length ∧ s.file.unwritten = [] := by
  have hpending : s.file.pc.pending = [] := by rcases hpc with hpc | hpc <;> rw [hpc] <;> rfl
  have hflushed : s.file.pc.flushed = true := by rcases hpc with hpc | hpc <;> rw [hpc] <;> rfl
  exact ⟨hinv.delivered.length_drained (hpeek.requests_eq.trans (by rw [hpending]; rfl)) htaken,
    unwritten_eq_nil hb hfp hflushed⟩

/-- 休んでいる consumer は、claim をすべて整形し、何も溜めていない。 -/
theorem Rests.complete (hk : 1 ≤ k)
    (hrun : run (fileHandlerStep .unbounded strftime) (fileHandlerInitial ι name k true fs
      filename maxFileSize maxBackupFiles fn wbuf) as = some s)
    (hopen : Along (fileHandlerStep .unbounded strftime) (fun _ a => a.KeepsOpen)
      (fileHandlerInitial ι name k true fs filename maxFileSize maxBackupFiles fn wbuf) as)
    (hrests : Rests strftime
      (fileHandlerInitial ι name k true fs filename maxFileSize maxBackupFiles fn wbuf) as s) :
    s.file.hist.drained.length = s.handler.mem.hist.claims.length ∧ s.file.unwritten = [] ∧
      s.file.pc.streamClosed = false := by
  obtain ⟨hstream, hpeek⟩ := peekInv_fileHandler hrun hopen
  obtain ⟨htaken, hpc⟩ := hrests.taken_eq hk hrun
  have hclosed : s.file.pc.streamClosed = false := by
    rcases hpc with hpc | hpc <;> rw [hpc] <;> rfl
  have hfp : s.file.logFp.isSome = true := by
    rw [hstream, hclosed]
    rfl
  obtain ⟨hlen, hnil⟩ := (fileHandlerInv_run hk hrun).rested (batchInv_run (file_run hrun)) hpeek
    hfp htaken hpc
  exact ⟨hlen, hnil, hclosed⟩

/--
**file handler が書く byte 列は、claim の列で決まる。**

どの時点でも、整形した record は claim の列の先頭から一つずつであり、行が収まるなら、
`fwrite` に渡した byte 列にまだの分を続けたものは、その record の行を claim の順に並べたものである。
consumer が休んでいれば、claim のすべてが渡し終わっている。
-/
theorem file_handler_lines (hk : 1 ≤ k)
    (hrun : run (fileHandlerStep .unbounded strftime) (fileHandlerInitial ι name k true fs
      filename maxFileSize maxBackupFiles fn wbuf) as = some s)
    (hopen : ∀ a ∈ as, a.KeepsOpen) (hfits : ∀ d ∈ s.file.hist.drained, d.Fits) :
    List.Forall₂ (fun d c => Carries d.req c) s.file.hist.drained
      (s.handler.mem.hist.claims.take s.file.hist.drained.length) ∧
    (∀ d ∈ s.file.hist.drained, d.now ≠ 0 → d.timestamp = strftime d.now) ∧
    s.file.hist.handed ++ s.file.unwritten = s.lines ∧
    (Rests strftime (fileHandlerInitial ι name k true fs filename maxFileSize maxBackupFiles fn
        wbuf) as s →
      s.file.hist.drained.length = s.handler.mem.hist.claims.length ∧
        s.file.hist.handed = s.lines) := by
  have hinv := fileHandlerInv_run hk hrun
  have hb := batchInv_run (file_run hrun)
  obtain ⟨-, hpeek⟩ := peekInv_fileHandler hrun (along_of_forall_mem hopen)
  have hcarries := hinv.delivered.drained hpeek.requests_eq
  have hlines := handed_append hb hfits hcarries
  refine ⟨hcarries, hb.clock.drained, hlines, ?_⟩
  intro hrests
  obtain ⟨hlen, hnil, -⟩ := hrests.complete hk hrun (along_of_forall_mem hopen)
  rw [hnil, List.append_nil] at hlines
  exact ⟨hlen, hlines⟩

end Run

/-- どの操作も成功する consumer の step。 -/
def okThread : FileHandlerAction Unit := .thread 1 okIo

/-- 二文字の行を書き、一 byte で回転する file handler。 -/
def smallFileHandler : FileHandlerState Unit :=
  fileHandlerInitial Unit .empty 1 true (fun _ => none) (.lit [97]) 1 1
    (.ofText fun _ => [120, 10]) fun _ => 0

/-- 一つの record を渡し、consumer がそれを書き、回転して眠る。 -/
def oneLineRun : List (FileHandlerAction Unit) :=
  .logImpl () (sampleRecord 2 65) :: List.replicate 15 (.producer () false) ++
    List.replicate 31 okThread

theorem file_handler_lines_oneLineRun :
    ∃ s, run (fileHandlerStep .unbounded fun _ => .empty) smallFileHandler oneLineRun = some s ∧
      s.handler.mem.hist.claims.length = 1 ∧ s.file.hist.drained.length = 1 ∧
      s.file.hist.handed = s.lines := by
  have hpc : (run (fileHandlerStep .unbounded fun _ => .empty) smallFileHandler oneLineRun).map
      (fun s => (decide (∀ p, s.handler.producers p = .idle), s.handler.thread.isParked,
        s.handler.mem.hist.claims.length)) = some (true, true, 1) := by decide +kernel
  obtain ⟨s, hs, hp⟩ := Option.map_eq_some_iff.mp hpc
  simp only [Prod.mk.injEq, decide_eq_true_eq, ThreadPc.isParked_iff] at hp
  obtain ⟨hidle, ht, hlen⟩ := hp
  have hopen : ∀ a ∈ oneLineRun, a.KeepsOpen := by
    simp [oneLineRun, okThread, okIo, FileHandlerAction.KeepsOpen]
  have hstyle := styleInv_fileHandler
    (by simp [oneLineRun, okThread, FileHandlerAction.KeepsFormat]) hs
  have hfits : ∀ d ∈ s.file.hist.drained, d.Fits := fun d hd =>
    Drained.fits_ofText (hstyle.drained d hd).1 (by decide)
  obtain ⟨-, -, -, hrests⟩ := file_handler_lines (by decide) hs hopen hfits
  obtain ⟨hdrained, hhanded⟩ := hrests (Or.inl ⟨hidle, ht⟩)
  exact ⟨s, hs, hlen, hdrained.trans hlen, hhanded⟩

end Logmoko
