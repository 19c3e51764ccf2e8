import Logmoko.File.Batch

/-!
# 三つの consumer が出す文字列

console・file・socket の consumer は、同じ `lmk_format_log_line` の結果を別々に使う。

* console は返り値を見ずに、buffer を NUL まで `fputs` する
* file は残りの余地を渡し、返り値が正のときだけその長さを溜める
* socket は 2560 byte の buffer を渡し、返り値が正のときだけその長さを送る

三つが一致するのは、書式関数が `FormatsLine` を満たすとき、かつそのときに限る
（`handlers_agree_iff`）。返り値が 0 以下の書式関数では、console が前の行を出し直す。
-/

namespace Logmoko

/-- console と socket の配列 `out` の大きさ。 -/
def outBufSize : Nat := logMsgMaxSize + 512

/-! ## console -/

def ansiReset : List UInt8 := 27 :: ascii "[0m"

/-- level ごとの色の制御列。 -/
def lmkConsoleLevelColor (level : Int) : List UInt8 :=
  if level = 0 then 27 :: ascii "[2;37m"
  else if level = 1 then 27 :: ascii "[0;36m"
  else if level = 2 then 27 :: ascii "[0;37m"
  else if level = 3 then 27 :: ascii "[0;33m"
  else if level = 4 then 27 :: ascii "[0;31m"
  else ansiReset

/-- 大きさ `size` の配列を文字列として読む。NUL が無ければ配列の外を読むので `none`。 -/
def readCString (buf : Nat → UInt8) (size : Nat) : Option (List UInt8) :=
  if 0 ∈ Buffer.read buf 0 size then some (untilNul buf size) else none

/-- console の consumer が一件について行うこと。整形した後の buffer と、出力した byte 列を返す。 -/
def consoleSlot (fn : Formatter) (timestamp : CStr) (out : Nat → UInt8) (req : LogRequest) :
    (Nat → UInt8) × Option (List UInt8) :=
  let out := (formatLine fn timestamp out 0 outBufSize req).2
  (out, (readCString out outBufSize).map fun text =>
    lmkConsoleLevelColor req.logLevel ++ text ++ ansiReset)

/-! ## socket -/

/-- socket の consumer が一件について行うこと。暗号を使わないときに、各 server へ送る。 -/
def socketSlot {σ : Type} (servers : List σ) (fn : Formatter) (timestamp : CStr)
    (out : Nat → UInt8) (req : LogRequest) : (Nat → UInt8) × List (σ × List UInt8) :=
  let p := formatLine fn timestamp out 0 outBufSize req
  (p.2, if p.1 > 0 then servers.map fun server => (server, Buffer.read p.2 0 p.1.toNat) else [])

/-! ## file -/

/-- file の consumer が一件について buffer に足す byte 列。 -/
def fileSlot (fn : Formatter) (timestamp : CStr) (wbuf : Nat → UInt8) (wpos : Nat)
    (req : LogRequest) : List UInt8 :=
  let p := formatLine fn timestamp wbuf wpos (writeBufSize - wpos) req
  Buffer.read p.2 wpos p.1.toNat

/-- `fileSlot` は、consumer の整形の step が溜めるものである。 -/
theorem outputs_formatStep (strftime : Int → CStr) (s : FileState) (now : Int)
    (req : LogRequest) :
    (formatStep strftime s now req).hist.outputs = s.hist.outputs ++
      [fileSlot s.formatFn (s.cache.refresh strftime now).text s.wbuf s.wpos req] := rfl

/-! ## 一致の条件 -/

/--
書式関数が、file の consumer が渡しうるどの余地に対しても、NUL を含まない同じ一行を書き、
その長さを返す。2560 byte の buffer では行の後に NUL も書く。
-/
def Formatter.FormatsLine (fn : Formatter) (args : FormatArgs) : Prop :=
  ∃ line : List UInt8, 0 ∉ line ∧ line.length < outBufSize ∧
    (∀ size, outBufSize ≤ size → size ≤ writeBufSize → fn.Yields args size line) ∧
    (fn.call outBufSize args).written line.length = some 0

/-- 一件について、三つの consumer が出す文字列が等しい。空の行は送られない。 -/
structure HandlersAgree (fn : Formatter) (timestamp : CStr) (req : LogRequest)
    (out₁ out₂ wbuf : Nat → UInt8) (wpos : Nat) : Prop where
  console : (consoleSlot fn timestamp out₁ req).2 =
    some (lmkConsoleLevelColor req.logLevel ++ fileSlot fn timestamp wbuf wpos req ++ ansiReset)
  socket : ∀ (σ : Type) (servers : List σ), (socketSlot servers fn timestamp out₂ req).2 =
    if fileSlot fn timestamp wbuf wpos req = [] then []
    else servers.map fun server => (server, fileSlot fn timestamp wbuf wpos req)

variable {fn : Formatter} {timestamp : CStr} {req : LogRequest} {out₁ out₂ wbuf : Nat → UInt8}
  {wpos : Nat}

/-- 最初の NUL で区切った列。 -/
theorem exists_eq_append_zero {bytes : List UInt8} (h : 0 ∈ bytes) :
    ∃ rest, bytes = bytes.takeWhile (· ≠ 0) ++ 0 :: rest := by
  induction bytes with
  | nil => simp at h
  | cons b bytes ih =>
    by_cases hb : b = 0
    · exact ⟨bytes, by simp [hb]⟩
    · obtain ⟨rest, hrest⟩ := ih (by simpa [Ne.symm hb] using h)
      refine ⟨rest, ?_⟩
      rw [List.takeWhile_cons_of_pos (by simpa using hb), List.cons_append, ← hrest]

theorem readCString_eq_some_iff {buf : Nat → UInt8} {size : Nat} {text : List UInt8} :
    readCString buf size = some text ↔
      0 ∉ text ∧ text.length < size ∧ Buffer.read buf 0 text.length = text ∧
        buf text.length = 0 := by
  constructor
  · intro h
    unfold readCString at h
    split at h
    · next hmem =>
      obtain rfl : untilNul buf size = text := Option.some.inj h
      obtain ⟨rest, hrest⟩ := exists_eq_append_zero hmem
      change Buffer.read buf 0 size = untilNul buf size ++ 0 :: rest at hrest
      have hlt : (untilNul buf size).length < size := by
        have := congrArg List.length hrest
        simp at this
        omega
      refine ⟨zero_notMem_untilNul _ _, hlt, ?_, ?_⟩
      · rw [← Buffer.take_read hlt.le, hrest, List.take_left]
      · have hget := Buffer.getElem?_read buf 0 hlt
        rw [hrest, List.getElem?_append_right le_rfl] at hget
        simpa using hget.symm
    · cases h
  · rintro ⟨h0, hlt, hread, hnul⟩
    obtain ⟨k, rfl⟩ : ∃ k, size = text.length + (1 + k) := ⟨size - text.length - 1, by omega⟩
    have hall : Buffer.read buf 0 (text.length + (1 + k)) =
        text ++ 0 :: Buffer.read buf (text.length + 1) k := by
      rw [Buffer.read_add, hread, Nat.zero_add, Buffer.read_add]
      simp [Buffer.read, hnul]
    have hpos : ∀ b ∈ text, decide (b ≠ 0) = true := by
      intro b hb
      exact decide_eq_true fun hz => h0 (hz ▸ hb)
    unfold readCString untilNul
    rw [hall, if_pos (by simp), List.takeWhile_append_of_pos hpos]
    simp

/-! ## 条件は十分である -/

theorem fileSlot_eq_of_yields {line : List UInt8}
    (h : fn.Yields (formatArgs timestamp req) (writeBufSize - wpos) line) :
    fileSlot fn timestamp wbuf wpos req = line := by
  unfold fileSlot
  dsimp only
  rw [h.formatLine_fst, Int.toNat_natCast, h.read_formatLine]

theorem consoleSlot_eq_some {line : List UInt8} (h0 : 0 ∉ line) (hlt : line.length < outBufSize)
    (hy : fn.Yields (formatArgs timestamp req) outBufSize line)
    (hnul : (fn.call outBufSize (formatArgs timestamp req)).written line.length = some 0) :
    (consoleSlot fn timestamp out₁ req).2 =
      some (lmkConsoleLevelColor req.logLevel ++ line ++ ansiReset) := by
  have hread : readCString (formatLine fn timestamp out₁ 0 outBufSize req).2 outBufSize =
      some line := by
    refine readCString_eq_some_iff.mpr ⟨h0, hlt, hy.read_formatLine, ?_⟩
    show Buffer.overlay out₁ 0 _ line.length = 0
    rw [← Nat.zero_add line.length, Buffer.overlay_add, hnul]
    rfl
  unfold consoleSlot
  dsimp only
  rw [hread]
  rfl

theorem socketSlot_eq {σ : Type} {servers : List σ} {line : List UInt8}
    (hy : fn.Yields (formatArgs timestamp req) outBufSize line) :
    (socketSlot servers fn timestamp out₂ req).2 =
      if line = [] then [] else servers.map fun server => (server, line) := by
  unfold socketSlot
  dsimp only
  rw [hy.formatLine_fst, Int.toNat_natCast, hy.read_formatLine]
  by_cases h : line = []
  · rw [if_pos h, if_neg (by simp [h])]
  · rw [if_neg h, if_pos (by have := List.length_pos_iff.mpr h; omega)]

theorem Formatter.FormatsLine.agree (h : fn.FormatsLine (formatArgs timestamp req))
    (hw : wpos + maxLineSize ≤ writeBufSize) :
    HandlersAgree fn timestamp req out₁ out₂ wbuf wpos := by
  obtain ⟨line, h0, hlt, hy, hnul⟩ := h
  have hsmall := hy outBufSize le_rfl (by decide)
  have hroom : outBufSize ≤ writeBufSize - wpos := Nat.le_sub_of_add_le' hw
  have hfile : fileSlot fn timestamp wbuf wpos req = line :=
    fileSlot_eq_of_yields (hy _ hroom (Nat.sub_le _ _))
  refine ⟨?_, ?_⟩
  · rw [hfile]
    exact consoleSlot_eq_some h0 hlt hsmall hnul
  · intro σ servers
    rw [hfile]
    exact socketSlot_eq hsmall

/-! ## 条件は必要である -/

/-- console の出力が決まっていれば、その文字列は buffer の前の内容によらず書かれたものである。 -/
theorem console_written {line : List UInt8}
    (h : ∀ out : Nat → UInt8, (consoleSlot fn timestamp out req).2 =
      some (lmkConsoleLevelColor req.logLevel ++ line ++ ansiReset)) :
    0 ∉ line ∧ line.length < outBufSize ∧
      (fn.call outBufSize (formatArgs timestamp req)).written line.length = some 0 := by
  have hread : ∀ out : Nat → UInt8,
      readCString (formatLine fn timestamp out 0 outBufSize req).2 outBufSize = some line := by
    intro out
    have hout := h out
    unfold consoleSlot at hout
    dsimp only at hout
    obtain ⟨text, ht, heq⟩ := Option.map_eq_some_iff.mp hout
    rw [List.append_cancel_right_eq, List.append_cancel_left_eq] at heq
    rw [ht, heq]
  obtain ⟨h0, hlt, -, -⟩ := readCString_eq_some_iff.mp (hread fun _ => 0)
  obtain ⟨-, -, -, hnul⟩ := readCString_eq_some_iff.mp (hread fun _ => 1)
  refine ⟨h0, hlt, ?_⟩
  change Buffer.overlay (fun _ => 1) 0 _ line.length = 0 at hnul
  rw [← Nat.zero_add line.length, Buffer.overlay_add] at hnul
  cases hw : (fn.call outBufSize (formatArgs timestamp req)).written line.length with
  | none =>
    rw [hw] at hnul
    exact absurd hnul (by decide)
  | some b =>
    rw [hw] at hnul
    exact congrArg some hnul

/-- 溜める byte 列が前の内容によらず決まっていれば、書式関数はその行を書いている。 -/
theorem yields_of_forall_fileSlot {line : List UInt8} (hw : wpos < writeBufSize)
    (h : ∀ wbuf : Nat → UInt8, fileSlot fn timestamp wbuf wpos req = line) :
    fn.Yields (formatArgs timestamp req) (writeBufSize - wpos) line := by
  have hnonneg : 0 ≤ clampLength
      (fn.call (writeBufSize - wpos) (formatArgs timestamp req)).ret (writeBufSize - wpos) :=
    clampLength_nonneg (by omega)
  refine ⟨?_, ?_⟩
  · have hlen := congrArg List.length (h fun _ => 0)
    rw [fileSlot, Buffer.length_read] at hlen
    rw [← hlen]
    exact (Int.toNat_of_nonneg hnonneg).symm
  · intro i x hx
    have : Nontrivial UInt8 := ⟨0, 1, by decide⟩
    have hread : ∀ wbuf : Nat → UInt8, Buffer.read (Buffer.overlay wbuf wpos
        (fn.call (writeBufSize - wpos) (formatArgs timestamp req)).written) wpos
        (clampLength _ (writeBufSize - wpos)).toNat = line := h
    exact Buffer.written_of_forall_read hread hx

/-- 前の requests を処理した後の buffer。 -/
def bufferAfter (fn : Formatter) (out : Nat → UInt8) (earlier : List (CStr × LogRequest)) :
    Nat → UInt8 :=
  earlier.foldl (fun out x => (formatLine fn x.1 out 0 outBufSize x.2).2) out

/--
三つの consumer が出す文字列は、それまでの requests、buffer の始めの内容、溜まっている位置が
何であっても等しい。これが成り立つのは、書式関数がこの request の一行を `FormatsLine` の意味で
書くとき、かつそのときに限る。
-/
theorem handlers_agree_iff (fn : Formatter) (timestamp : CStr) (req : LogRequest) :
    (∀ (earlier : List (CStr × LogRequest)) (out₁ out₂ wbuf : Nat → UInt8) (wpos : Nat),
      wpos + maxLineSize ≤ writeBufSize →
        HandlersAgree fn timestamp req (bufferAfter fn out₁ earlier) (bufferAfter fn out₂ earlier)
          wbuf wpos) ↔
      fn.FormatsLine (formatArgs timestamp req) := by
  constructor
  · intro h
    set line := fileSlot fn timestamp (fun _ => 0) 0 req with hline
    have hfile : ∀ wbuf wpos, wpos + maxLineSize ≤ writeBufSize →
        fileSlot fn timestamp wbuf wpos req = line := by
      intro wbuf wpos hw
      have h₁ := (h [] (fun _ => 0) (fun _ => 0) wbuf wpos hw).console
      have h₂ := (h [] (fun _ => 0) (fun _ => 0) (fun _ => 0) 0 maxLineSize_le).console
      have heq := Option.some.inj (h₁.symm.trans h₂)
      rwa [List.append_cancel_right_eq, List.append_cancel_left_eq] at heq
    obtain ⟨h0, hlt, hnul⟩ := console_written fun out =>
      (h [] out (fun _ => 0) (fun _ => 0) 0 maxLineSize_le).console
    refine ⟨line, h0, hlt, ?_, hnul⟩
    intro size hlo hhi
    change maxLineSize ≤ size at hlo
    have hpos : 0 < maxLineSize := by decide
    obtain ⟨wpos, rfl⟩ : ∃ wpos, size = writeBufSize - wpos := ⟨writeBufSize - size, by omega⟩
    exact yields_of_forall_fileSlot (by omega) fun wbuf => hfile wbuf wpos (by omega)
  · intro h earlier out₁ out₂ wbuf wpos hw
    exact h.agree hw

/-! ## 組み込みの書式と、外れる書式関数 -/

/-- 書式を一度に展開する書式関数では、展開した長さと NUL の有無だけが条件になる。 -/
theorem ofText_formatsLine_iff {text : FormatArgs → List UInt8} {args : FormatArgs} :
    (Formatter.ofText text).FormatsLine args ↔
      0 ∉ text args ∧ (text args).length < outBufSize := by
  constructor
  · rintro ⟨line, h0, hlt, hy, -⟩
    have hbig := hy writeBufSize (by decide) le_rfl
    have hlen : (text args).length = line.length := by
      have hret := hbig.length
      change clampLength (text args).length writeBufSize = line.length at hret
      by_cases hfit : (text args).length < writeBufSize
      · rw [clampLength_of_lt hfit] at hret
        exact Int.ofNat_inj.mp hret
      · have hout : outBufSize < writeBufSize := by decide
        rw [clampLength, if_pos (by omega), if_neg (by omega)] at hret
        omega
    have hfit : (text args).length < writeBufSize := by
      have hout : outBufSize < writeBufSize := by decide
      omega
    have heq : text args = line := by
      refine List.ext_getElem? ?_
      intro i
      by_cases hi : i < line.length
      · obtain ⟨x, hx⟩ : ∃ x, (text args)[i]? = some x := ⟨_, List.getElem?_eq_getElem (hlen ▸ hi)⟩
        have hw := hbig.written i (line.get ⟨i, hi⟩) (List.getElem?_eq_getElem hi)
        rw [hx, List.getElem?_eq_getElem hi]
        exact (snprintf_written hfit hx).symm.trans hw
      · rw [List.getElem?_eq_none (by omega), List.getElem?_eq_none (by omega)]
    exact ⟨heq ▸ h0, by omega⟩
  · rintro ⟨h0, hlt⟩
    refine ⟨text args, h0, hlt, ?_, ?_⟩
    · intro size hlo _
      exact Formatter.ofText_yields (by omega)
    · show (if _ < min (text args).length (outBufSize - 1) then _ else _) = some 0
      rw [if_neg (by omega), if_pos ⟨by omega, hlt⟩]

/-- level 0 の記録を捨てる書式関数。捨てるときは何も書かずに -1 を返す。 -/
def dropTrace : Formatter where
  call size args :=
    if args.logLevel = 0 then { ret := -1, written := fun _ => none }
    else snprintf size [120, 10]
  inBounds size args i h := by
    by_cases hl : args.logLevel = 0
    · rw [if_pos hl]
    · rw [if_neg hl]
      exact snprintf_inBounds h

/--
`dropTrace` で level 2 の記録の後に level 0 の記録を処理すると、file は何も溜めず socket は
何も送らないが、console は前の行をもう一度出す。
-/
theorem console_repeats_dropped_line :
    let quiet := { emptyRequest with logLevel := 0 }
    let out := bufferAfter dropTrace (fun _ => 0) [(.empty, emptyRequest)]
    (consoleSlot dropTrace .empty out quiet).2 =
        some (lmkConsoleLevelColor 0 ++ [120, 10] ++ ansiReset) ∧
      fileSlot dropTrace .empty (fun _ => 0) 0 quiet = [] ∧
      (socketSlot [()] dropTrace .empty out quiet).2 = [] ∧
      ¬ HandlersAgree dropTrace .empty quiet out out (fun _ => 0) 0 := by
  have hconsole : (consoleSlot dropTrace .empty
      (bufferAfter dropTrace (fun _ => 0) [(.empty, emptyRequest)])
      { emptyRequest with logLevel := 0 }).2 =
        some (lmkConsoleLevelColor 0 ++ [120, 10] ++ ansiReset) := by decide +kernel
  refine ⟨hconsole, rfl, rfl, ?_⟩
  intro h
  have heq := Option.some.inj (hconsole.symm.trans h.console)
  rw [List.append_cancel_right_eq, List.append_cancel_left_eq] at heq
  cases heq

end Logmoko
