import Logmoko.File.Move
import Logmoko.Format.Line
import Logmoko.Lib.Segments

/-!
# 溜め込みは行の並びを変えない

整形した行は 64 KiB の buffer に続けて置かれ、余地が減ったときと ring が空になったときに
まとめて `fwrite` に渡る。どこで区切られても、渡った byte 列は行を消費した順に並べたものである。

不変量は位置ごとに分かれる。

* `RoomInv` — 整形の前には 2560 byte 以上が空いている
* `StreamInv` — stream が閉じているのは回転の途中だけである
* `SegmentInv` — 渡し終えた分と溜まっている分は、整形の結果を切れ目なく並べたものである
* `PeekInv` / `LineInv` / `ClockInv` — 取り出した request と整形した行の対応
-/

namespace Logmoko

open Transition

/-! ## 位置の区分 -/

/-- 呼び出し元が待たせている request。 -/
def FlushSite.pending : FlushSite → List (Int × LogRequest)
  | .drain now req => [(now, req)]
  | .idle => []

/-- 取り出したが、まだ整形していない request。 -/
def FilePc.pending : FilePc → List (Int × LogRequest)
  | .checkFp now req | .format now req => [(now, req)]
  | .fwrite site | .addSize site | .checkEnabled site | .checkLimit site | .rotate site _
  | .resetPos site => site.pending
  | _ => []

/-- 溜まっている byte 列を `fwrite` に渡し終え、`wpos` をまだ戻していない位置。 -/
def FilePc.handedOver : FilePc → Bool
  | .addSize _ | .checkEnabled _ | .checkLimit _ | .rotate _ _ | .resetPos _ => true
  | _ => false

/-- 回転が stream を閉じている位置。 -/
def FilePc.streamClosed : FilePc → Bool
  | .rotate _ .close | .rotate _ .reset => false
  | .rotate _ _ => true
  | _ => false

/-- 溜まっていた分を書き終えた後の位置。 -/
def FilePc.flushed : FilePc → Bool
  | .fflush | .loadRunning | .sleep | .finalFlush | .finalFflush | .exited => true
  | _ => false

@[simp] theorem FlushSite.pending_next (site : FlushSite) :
    site.next.pending = site.pending := by cases site <;> rfl

@[simp] theorem FlushSite.handedOver_next (site : FlushSite) :
    site.next.handedOver = false := by cases site <;> rfl

@[simp] theorem FlushSite.streamClosed_next (site : FlushSite) :
    site.next.streamClosed = false := by cases site <;> rfl

/-- `fopen` が失敗しない動作。 -/
def FileAction.KeepsOpen : FileAction → Prop
  | .step io => io.opens = true
  | _ => True

theorem FileAction.Succeeds.keepsOpen {s : FileState} {a : FileAction} (h : a.Succeeds s) :
    a.KeepsOpen := by
  cases a with
  | step io => exact h.1
  | slot | empty | running | setRotation | setFilename | storeFilename | setFormat => trivial

/-- 動作が取り出した request。 -/
def FileAction.request : FileAction → Option (Int × LogRequest)
  | .slot now req => some (now, req)
  | _ => none

variable {strftime : Int → CStr} {s s' : FileState} {a : FileAction}

/-! ## buffer の余地 -/

/-- `wpos` は buffer の中にあり、整形の前には一行分が空いている。 -/
structure RoomInv (s : FileState) : Prop where
  lt : s.wpos < writeBufSize
  room : ∀ now req, s.pc = .format now req → s.wpos + maxLineSize ≤ writeBufSize

theorem writeBufSize_pos : 0 < writeBufSize := by decide

theorem maxLineSize_le : maxLineSize ≤ writeBufSize := by decide

/-- 整形の後の `wpos`。切り詰めた返り値は負にならない。 -/
theorem formatStep_wpos (now : Int) (req : LogRequest) :
    (formatStep strftime s now req).wpos =
      s.wpos + (formatLine s.formatFn (s.cache.refresh strftime now).text s.wbuf s.wpos
        (writeBufSize - s.wpos) req).1.toNat := by
  set n := (formatLine s.formatFn (s.cache.refresh strftime now).text s.wbuf s.wpos
    (writeBufSize - s.wpos) req).1 with hn
  show (if n > 0 then s.wpos + n.toNat else s.wpos) = s.wpos + n.toNat
  split
  · rfl
  · omega

theorem formatStep_wpos_lt (h : s.wpos < writeBufSize) (now : Int) (req : LogRequest) :
    (formatStep strftime s now req).wpos < writeBufSize := by
  have hlt := formatLine_fst_lt s.formatFn (s.cache.refresh strftime now).text s.wbuf s.wpos req
    (Nat.sub_pos_of_lt h)
  rw [formatStep_wpos]
  omega

theorem RoomInv.step (hs : RoomInv s) (h : fileStep strftime s a = some s') : RoomInv s' := by
  have hlt := hs.lt
  cases fileStep_move h with
  | room hpc hp hw => exact ⟨hlt, fun _ _ _ => hw⟩
  | resetPos hpc => exact ⟨writeBufSize_pos, fun _ _ _ => by simpa using maxLineSize_le⟩
  | format hpc => exact ⟨formatStep_wpos_lt hlt _ _, by simp [formatStep]⟩
  | finalFlush hpc hp hw => exact ⟨writeBufSize_pos, by simp⟩
  | setRotation | keepFilename | freeFilename | storeFilename | setFormat => exact ⟨hlt, hs.room⟩
  | running hpc =>
    refine ⟨hlt, ?_⟩
    intro now req heq
    dsimp only at heq
    split at heq <;> cases heq
  | _ => exact ⟨hlt, by simp⟩

/-! ## stream が開いていること -/

/-- stream が閉じているのは、回転が閉じてから開き直すまでである。 -/
def StreamInv (s : FileState) : Prop := s.logFp.isSome = !s.pc.streamClosed

theorem StreamInv.step (hs : StreamInv s) (hopen : a.KeepsOpen)
    (h : fileStep strftime s a = some s') : StreamInv s' := by
  unfold StreamInv at hs ⊢
  cases fileStep_move h with
  | noStream hpc hp => simp [hpc, hp, FilePc.streamClosed] at hs
  | close hpc hp => rfl
  | opened hpc ho => rfl
  | openFailed hpc ho =>
    rw [FileAction.KeepsOpen, ho] at hopen
    cases hopen
  | format hpc =>
    rw [hpc] at hs
    exact hs
  | resetPos hpc =>
    rw [hpc] at hs
    show s.logFp.isSome = !(FlushSite.next _).streamClosed
    rw [FlushSite.streamClosed_next]
    exact hs
  | running hpc =>
    rw [hpc] at hs
    dsimp only
    split <;> exact hs
  | setRotation | keepFilename | freeFilename | storeFilename | setFormat => exact hs
  | _ => simp_all [FilePc.streamClosed]

/-- 書き終えた後の位置では、stream が開いている限り何も溜まっていない。 -/
def FlushedInv (s : FileState) : Prop := s.pc.flushed = true → s.logFp.isSome = true → s.wpos = 0

theorem FlushedInv.step (hs : FlushedInv s) (h : fileStep strftime s a = some s') :
    FlushedInv s' := by
  unfold FlushedInv at hs ⊢
  cases fileStep_move h with
  | resetPos hpc => exact fun _ _ => rfl
  | finalFlush hpc hp hw => exact fun _ _ => rfl
  | idleSkip hpc hw =>
    intro _ hp
    rcases hw with hw | hw
    · exact hw
    · simp [hw] at hp
  | finalSkip hpc hw =>
    intro _ hp
    exact hs (by rw [hpc]; rfl) hp
  | fflush hpc hp | finalFflush hpc hp => exact fun _ _ => hs (by rw [hpc]; rfl) (by rw [hp]; rfl)
  | fflushSkip hpc | finalFflushSkip hpc | running hpc =>
    intro _ hp
    exact hs (by rw [hpc]; rfl) hp
  | setRotation | keepFilename | freeFilename | storeFilename | setFormat => exact hs
  | _ => simp [FilePc.flushed, formatStep]

/-! ## 渡し終えた分と溜まっている分 -/

/-- 渡した byte 列と溜まっている byte 列は、整形の結果を丸ごと、順に並べたものである。 -/
def SegmentInv (s : FileState) : Prop :=
  Segments.Split s.hist.outputs s.hist.closed s.hist.current
    (if s.pc.handedOver then [] else s.staged)

/-- 整形の結果は、溜まっている byte 列の末尾に加わる。 -/
theorem staged_formatStep (strftime : Int → CStr) (s : FileState) (now : Int)
    (req : LogRequest) :
    ∃ o, (formatStep strftime s now req).hist.outputs = s.hist.outputs ++ [o] ∧
      (formatStep strftime s now req).staged = s.staged ++ o := by
  set p := formatLine s.formatFn (s.cache.refresh strftime now).text s.wbuf s.wpos
    (writeBufSize - s.wpos) req with hp
  refine ⟨Buffer.read p.2 s.wpos p.1.toNat, rfl, ?_⟩
  show Buffer.read p.2 0 (formatStep strftime s now req).wpos = _
  rw [formatStep_wpos, ← hp, Buffer.read_add, Nat.zero_add]
  exact congrArg (· ++ _) (read_formatLine_before (by omega))

theorem SegmentInv.step (hs : SegmentInv s) (h : fileStep strftime s a = some s') :
    SegmentInv s' := by
  unfold SegmentInv at hs ⊢
  cases fileStep_move h with
  | fwrite hpc hp =>
    rw [hpc] at hs
    exact hs.hand
  | finalFlush hpc hp hw =>
    rw [hpc] at hs
    exact hs.hand
  | close hpc hp =>
    rw [hpc] at hs
    exact hs.close
  | resetPos hpc =>
    rw [hpc] at hs
    show Segments.Split _ _ _ (if (FlushSite.next _).handedOver then [] else Buffer.read _ 0 0)
    rw [FlushSite.handedOver_next]
    exact hs
  | format hpc =>
    rw [hpc] at hs
    obtain ⟨o, ho, hst⟩ := staged_formatStep strftime s _ _
    rw [ho, hst]
    exact hs.push o
  | running hpc =>
    rw [hpc] at hs
    dsimp only
    split <;> exact hs
  | setRotation | keepFilename | freeFilename | storeFilename | setFormat => exact hs
  | _ => simp_all [FilePc.handedOver, FileState.staged]

/-! ## 取り出した request と整形した行 -/

/-- 取り出した request は、整形したものと整形を待つものの並びである。 -/
def PeekInv (s : FileState) : Prop :=
  s.hist.peeked = s.hist.drained.map (fun d => (d.now, d.req)) ++ s.pc.pending

theorem PeekInv.step (hst : StreamInv s) (hs : PeekInv s) (h : fileStep strftime s a = some s') :
    PeekInv s' := by
  unfold PeekInv at hs ⊢
  cases fileStep_move h with
  | noStream hpc hp => simp [StreamInv, hpc, hp, FilePc.streamClosed] at hst
  | format hpc =>
    rw [hpc] at hs
    simpa [formatStep, FilePc.pending] using hs
  | resetPos hpc =>
    rw [hpc] at hs
    show s.hist.peeked = _ ++ (FlushSite.next _).pending
    rw [FlushSite.pending_next]
    exact hs
  | running hpc =>
    rw [hpc] at hs
    dsimp only
    split <;> exact hs
  | setRotation | keepFilename | freeFilename | storeFilename | setFormat => exact hs
  | _ => simp_all [FilePc.pending, FlushSite.pending]

/-- 控えた request を、空いた buffer に単独で整形した行。 -/
def Drained.line (d : Drained) : List UInt8 :=
  let p := formatLine d.fn d.timestamp (fun _ => 0) 0 maxLineSize d.req
  Buffer.read p.2 0 p.1.toNat

/-- 行は 2560 byte より短く、書式関数はどの余地に対してもその行を書く。 -/
def Drained.Fits (d : Drained) : Prop :=
  ∃ line : List UInt8, line.length < maxLineSize ∧ ∀ size, maxLineSize ≤ size →
    size ≤ writeBufSize → d.fn.Yields (formatArgs d.timestamp d.req) size line

/-- 書式を一度に展開する書式関数では、展開した長さだけが条件になる。 -/
theorem Drained.fits_ofText {d : Drained} {text : FormatArgs → List UInt8}
    (hfn : d.fn = .ofText text)
    (h : (text (formatArgs d.timestamp d.req)).length < maxLineSize) : d.Fits := by
  refine ⟨_, h, ?_⟩
  intro size hlo _
  rw [hfn]
  exact Formatter.ofText_yields (by omega)

/-- 収まる行は、溜まっている途中に整形しても、単独で整形したものと同じである。 -/
theorem Drained.Fits.read_eq {d : Drained} (h : d.Fits) {out : Nat → UInt8} {off : Nat}
    (hoff : off + maxLineSize ≤ writeBufSize) :
    let p := formatLine d.fn d.timestamp out off (writeBufSize - off) d.req
    Buffer.read p.2 off p.1.toNat = d.line := by
  obtain ⟨line, -, hy⟩ := h
  have hsmall := hy maxLineSize le_rfl maxLineSize_le
  have hroom := hy (writeBufSize - off) (by omega) (by omega)
  dsimp only [Drained.line]
  rw [hsmall.formatLine_fst, hroom.formatLine_fst, Int.toNat_natCast, hsmall.read_formatLine,
    hroom.read_formatLine]

/-- 収まる行の整形の結果は、単独で整形した行である。 -/
def LineInv (s : FileState) : Prop :=
  List.Forall₂ (fun d o => d.Fits → o = d.line) s.hist.drained s.hist.outputs

theorem LineInv.step (hr : RoomInv s) (hs : LineInv s) (h : fileStep strftime s a = some s') :
    LineInv s' := by
  unfold LineInv at hs ⊢
  cases fileStep_move h with
  | format hpc =>
    refine List.rel_append hs (.cons ?_ .nil)
    intro hf
    exact hf.read_eq (hr.room _ _ hpc)
  | _ => exact hs

/-- 時刻の文字列は、整形した時点の秒のものである。 -/
structure ClockInv (strftime : Int → CStr) (s : FileState) : Prop where
  cache : s.cache.lastSec ≠ 0 → s.cache.text = strftime s.cache.lastSec
  drained : ∀ d ∈ s.hist.drained, d.now ≠ 0 → d.timestamp = strftime d.now

theorem refresh_lastSec (c : TsCache) (now : Int) : (c.refresh strftime now).lastSec = now := by
  unfold TsCache.refresh
  split
  · rfl
  · next h => exact (not_not.mp h).symm

/-- cache の文字列は、cache の秒を整形したものである。 -/
def TsCache.Fresh (strftime : Int → CStr) (c : TsCache) : Prop :=
  c.lastSec ≠ 0 → c.text = strftime c.lastSec

theorem TsCache.Fresh.refresh {c : TsCache} (h : c.Fresh strftime) (now : Int) :
    (c.refresh strftime now).Fresh strftime := by
  unfold TsCache.refresh
  split
  · exact fun _ => rfl
  · exact h

theorem TsCache.Fresh.refresh_text {c : TsCache} (h : c.Fresh strftime) {now : Int}
    (hnow : now ≠ 0) : (c.refresh strftime now).text = strftime now := by
  have hlast : (c.refresh strftime now).lastSec = now := refresh_lastSec c now
  have hfresh := h.refresh now (by rwa [hlast])
  rwa [hlast] at hfresh

/-- 時刻の cache が持ちうる文字列。 -/
def Stamp (strftime : Int → CStr) (timestamp : CStr) : Prop :=
  timestamp = .empty ∨ ∃ now, timestamp = strftime now

theorem Stamp.refresh {c : TsCache} (h : Stamp strftime c.text) (now : Int) :
    Stamp strftime (c.refresh strftime now).text := by
  unfold TsCache.refresh
  split
  · exact Or.inr ⟨now, rfl⟩
  · exact h

theorem ClockInv.refresh (hs : ClockInv strftime s) {now : Int} (h : now ≠ 0) :
    (s.cache.refresh strftime now).text = strftime now := by
  unfold TsCache.refresh
  split
  · rfl
  · next hn =>
    obtain rfl : now = s.cache.lastSec := not_not.mp hn
    exact hs.cache h

theorem ClockInv.step (hs : ClockInv strftime s) (h : fileStep strftime s a = some s') :
    ClockInv strftime s' := by
  cases fileStep_move h with
  | format hpc =>
    refine ⟨?_, ?_⟩
    · show (s.cache.refresh strftime _).lastSec ≠ 0 → _
      rw [refresh_lastSec]
      intro hn
      show _ = strftime (s.cache.refresh strftime _).lastSec
      rw [refresh_lastSec]
      exact hs.refresh hn
    · intro d hd hn
      rcases List.mem_append.mp hd with hd | hd
      · exact hs.drained d hd hn
      · obtain rfl := List.mem_singleton.mp hd
        exact hs.refresh hn
  | _ => exact ⟨hs.cache, hs.drained⟩

/-! ## 実行全体 -/

theorem peeked_step (h : fileStep strftime s a = some s') :
    s'.hist.peeked = s.hist.peeked ++ a.request.toList := by
  cases fileStep_move h with
  | slot hpc => rfl
  | _ => exact (List.append_nil _).symm

/-- 取り出した request は、実行の中で取り出した順に並ぶ。 -/
theorem peeked_run {as : List FileAction} (h : run (fileStep strftime) s as = some s') :
    s'.hist.peeked = s.hist.peeked ++ as.filterMap FileAction.request := by
  induction as generalizing s with
  | nil =>
    obtain rfl : s = s' := Option.some.inj h
    exact (List.append_nil _).symm
  | cons a as ih =>
    obtain ⟨t, ht, h⟩ := run_cons_eq_some.mp h
    rw [ih h, peeked_step ht, List.filterMap_cons]
    cases a.request <;> simp

/-- 対応する行がすべて収まるなら、結果の列は行の列である。 -/
theorem outputs_eq_map_line {P : Drained → Prop} {ds : List Drained} {os : List (List UInt8)}
    (h : List.Forall₂ (fun d o => P d → o = d.line) ds os) (hf : ∀ d ∈ ds, P d) :
    os = ds.map Drained.line := by
  induction h with
  | nil => rfl
  | cons hd _ ih =>
    rw [hd (hf _ List.mem_cons_self), ih fun d hd => hf d (List.mem_cons_of_mem _ hd)]
    rfl

/-- 余地・渡した分・行・時刻についての不変量。どの実行でも成り立つ。 -/
structure BatchInv (strftime : Int → CStr) (s : FileState) : Prop where
  room : RoomInv s
  flushed : FlushedInv s
  segment : SegmentInv s
  line : LineInv s
  clock : ClockInv strftime s

theorem BatchInv.step (hs : BatchInv strftime s) (h : fileStep strftime s a = some s') :
    BatchInv strftime s' where
  room := hs.room.step h
  flushed := hs.flushed.step h
  segment := hs.segment.step h
  line := hs.line.step hs.room h
  clock := hs.clock.step h

section Initial

variable {opens : Bool} {fs : List UInt8 → Option (List UInt8)} {filename : CStr}
  {maxFileSize maxBackupFiles : Int} {fn : Formatter} {wbuf : Nat → UInt8} {as : List FileAction}

theorem batchInv_initial :
    BatchInv strftime (fileInitial opens fs filename maxFileSize maxBackupFiles fn wbuf) where
  room := ⟨writeBufSize_pos, by simp [fileInitial]⟩
  flushed := by simp [FlushedInv, fileInitial, FilePc.flushed]
  segment := Segments.Split.empty
  line := .nil
  clock := ⟨fun h => absurd rfl h, by simp [fileInitial, FileHistory.empty]⟩

theorem batchInv_run
    (h : run (fileStep strftime)
      (fileInitial opens fs filename maxFileSize maxBackupFiles fn wbuf) as = some s) :
    BatchInv strftime s :=
  Reachable.invariant (fun _ _ _ hs h => hs.step h) batchInv_initial ⟨as, h⟩

/-- stream が開き続ける実行では、取り出した request がすべて整形される。 -/
theorem peekInv_run (hopen : ∀ a ∈ as, a.KeepsOpen)
    (h : run (fileStep strftime)
      (fileInitial true fs filename maxFileSize maxBackupFiles fn wbuf) as = some s) :
    StreamInv s ∧ PeekInv s := by
  refine run_invariant (I := fun s => StreamInv s ∧ PeekInv s) (P := fun _ a => a.KeepsOpen)
    ?_ ?_ (along_of_forall_mem hopen) h
  · intro s a s' hs ha h
    exact ⟨hs.1.step ha h, hs.2.step hs.1 h⟩
  · exact ⟨rfl, rfl⟩

end Initial

/--
溜め込みは透過である。行がどれも 2560 byte より短く、stream が開き続けるなら、
眠る時点で何も溜まっておらず、`fwrite` に渡した byte 列の全体は、取り出した順に
単独で整形した行を並べたものに等しい。
書式関数と file の操作が何を返しても、`wpos` は buffer の大きさより小さい。
-/
theorem file_batching_transparent (strftime : Int → CStr) (opens : Bool)
    (fs : List UInt8 → Option (List UInt8)) (filename : CStr) (maxFileSize maxBackupFiles : Int)
    (fn : Formatter) (wbuf : Nat → UInt8) (as : List FileAction) (s : FileState)
    (h : run (fileStep strftime)
      (fileInitial opens fs filename maxFileSize maxBackupFiles fn wbuf) as = some s) :
    (opens = true → (∀ a ∈ as, a.KeepsOpen) → (∀ d ∈ s.hist.drained, d.Fits) → s.pc = .sleep →
      s.wpos = 0 ∧
      s.hist.handed = (s.hist.drained.map Drained.line).flatten ∧
      s.hist.drained.map (fun d => (d.now, d.req)) = as.filterMap FileAction.request ∧
      ∀ d ∈ s.hist.drained, d.now ≠ 0 → d.timestamp = strftime d.now) ∧
    s.wpos ≤ writeBufSize - 1 := by
  have hb := batchInv_run h
  refine ⟨?_, Nat.le_sub_one_of_lt hb.room.lt⟩
  rintro rfl hopen hfits hpc
  obtain ⟨hstream, hpeek⟩ := peekInv_run hopen h
  have hwpos : s.wpos = 0 := by
    refine hb.flushed (by rw [hpc]; rfl) ?_
    rw [hstream, hpc]
    rfl
  refine ⟨hwpos, ?_, ?_, hb.clock.drained⟩
  · have hsplit := hb.segment.flatten_eq
    rw [hpc, outputs_eq_map_line hb.line hfits, FileState.staged, hwpos] at hsplit
    simpa [FileHistory.handed, FilePc.handedOver] using hsplit
  · have hrun := peeked_run h
    rw [hpeek, hpc] at hrun
    simpa [FilePc.pending, fileInitial, FileHistory.empty] using hrun

/-- どの操作も成功し、書いた byte 列がすぐに file に届く step の結果。 -/
def okIo : FileIo :=
  { opens := true, renames := true, written := writeBufSize, spilled := writeBufSize
    freed := .empty }

/-- どの操作も成功する step。 -/
def okStep : FileAction := .step okIo

/-- 一件を取り出し、flush と回転を経て眠るまでの動作。 -/
def oneRecordRun : List FileAction :=
  [.slot 1 emptyRequest] ++ List.replicate 3 okStep ++ [.empty] ++ List.replicate 17 okStep ++
    [.running true]

/-- 二文字の行を書き、一 byte で回転する handler。 -/
def smallFile : FileState :=
  fileInitial true (fun _ => none) ⟨[97], by decide⟩ 1 1 (.ofText fun _ => [120, 10]) fun _ => 0

theorem file_batching_transparent_one :
    ∃ s, run (fileStep fun _ => .empty) smallFile oneRecordRun = some s ∧ s.pc = .sleep ∧
      s.wpos = 0 ∧ s.hist.handed = (s.hist.drained.map Drained.line).flatten := by
  obtain ⟨s, hs, hpc, hd⟩ : ∃ s, run (fileStep fun _ => .empty) smallFile oneRecordRun = some s ∧
      s.pc = .sleep ∧ s.hist.drained =
        [{ fn := .ofText fun _ => [120, 10], timestamp := .empty, now := 1
           req := emptyRequest }] :=
    ⟨_, rfl, rfl, rfl⟩
  have h := (file_batching_transparent _ _ _ _ _ _ _ _ _ s hs).1 rfl
    (by simp [oneRecordRun, okStep, okIo, FileAction.KeepsOpen])
    (by
      rw [hd]
      intro d hd
      obtain rfl := List.mem_singleton.mp hd
      exact Drained.fits_ofText rfl (by decide)) hpc
  exact ⟨s, hs, hpc, h.1, h.2.1⟩

end Logmoko
