import Logmoko.Parser.Comment
import Logmoko.Parser.Idle

/-!
# section の隔離

key の行が書き換えてよいのは、いちばん近い `[` の行が開いたものだけである。

`]` の無い `[` の行は読み飛ばされ、読んでいる section はそのまま残る。
だからその後の key の行は、もっと前の見出しが開いた section に書き込む。
隔離が成り立つのは、そのような key の行がどれも値を変えないとき、かつそのときに限る。

* `entryCfg_differsOnly` — key の行が変えるのは、読んでいる section だけである
* `target_headerStep` — 見出しを読んだ後の書き込み先は、その見出しが開いたものである
* `target_of_nearest` — だから書き込み先は、いちばん近い `[` の行が閉じていればそれが開いたものである
* `sections_isolated_iff` — 隔離が成り立つ必要十分条件
-/

namespace Logmoko

open StrBuf

variable {cfg cfg' : Cfg} {st : ParseState} {ch : CfgHandler} {cl : CfgLogger}
  {l h input : List UInt8} {ls : List (List UInt8)}

/-! ## 行 -/

/-- file の行。改行は含めない。 -/
def fileLines (input : List UInt8) : List (List UInt8) := input.splitOn 10

/-- 行を順に読んだ後の状態。 -/
def readLines (cfg : Cfg) (ls : List (List UInt8)) : Option ParseState :=
  ls.foldlM (fun st l => parseLine (l ++ [0]) st) (.start cfg)

/-- 空白でない最初の文字から、NUL の手前まで。 -/
def lineText (l : List UInt8) : List UInt8 := (l.dropWhile isSpace).takeWhile (· ≠ 0)

/-- 空白でない最初の文字が `[` である。 -/
def IsHeader (l : List UInt8) : Prop := (lineText l).head? = some 91

/-- `]` がある。 -/
def IsClosed (l : List UInt8) : Prop := 93 ∈ lineText l

instance : DecidablePred IsHeader := fun _ => inferInstanceAs (Decidable (_ = _))

instance : DecidablePred IsClosed := fun _ => inferInstanceAs (Decidable (_ ∈ _))

theorem takeWhile_nul_of_length (h : (l.takeWhile (· ≠ 0)).length = l.length) :
    l.takeWhile (· ≠ 0) = l := (List.takeWhile_prefix _).eq_of_length h

theorem strAt_append_nul (l : List UInt8) : strAt (l ++ [0]) 0 = l.takeWhile (· ≠ 0) := by
  show (l ++ [0]).takeWhile _ = _
  rw [List.takeWhile_append]
  split
  · next hlen =>
    rw [takeWhile_nul_of_length hlen]
    exact List.append_nil l
  · rfl

theorem strip_takeWhile_nul (l : List UInt8) :
    strip (l.takeWhile (· ≠ 0)) = (lineText l).rdropWhile isSpace := by
  unfold strip lineText
  refine congrArg _ ?_
  induction l with
  | nil => rfl
  | cons b l ih =>
    by_cases hb : isSpace b = true
    · have hnul : b ≠ 0 := by
        rintro rfl
        exact absurd hb (by decide)
      rw [List.takeWhile_cons_of_pos (by simpa using hnul), List.dropWhile_cons_of_pos hb,
        List.dropWhile_cons_of_pos hb, ih]
    · rw [List.dropWhile_cons_of_neg hb]
      by_cases hnul : b = 0
      · subst hnul
        rfl
      · rw [List.takeWhile_cons_of_pos (by simpa using hnul), List.dropWhile_cons_of_neg hb]

theorem chunkLine_eq (l : List UInt8) :
    chunkLine l = lineOf ((lineText l).rdropWhile isSpace) := by
  unfold chunkLine
  rw [strAt_append_nul, strip_takeWhile_nul]

/-- 行末の改行は、行の読み方を変えない。 -/
theorem chunkLine_newline (l : List UInt8) : chunkLine (l ++ [10]) = chunkLine l := by
  unfold chunkLine
  rw [strAt_append_nul, strAt_append_nul, List.takeWhile_append]
  split
  · next hlen =>
    have hnl : ([10] : List UInt8).takeWhile (· ≠ 0) = [10] := rfl
    rw [takeWhile_nul_of_length hlen, hnl, strip_append_right (by simp [isSpace])]
  · rfl

theorem fileLines_of_notMem (hl : 10 ∉ l) : fileLines l = [l] := by
  refine List.splitOnP_eq_singleton ?_
  intro x hx
  exact beq_eq_false_iff_ne.mpr fun he => hl (he ▸ hx)

theorem fileLines_append (hl : 10 ∉ l) (rest : List UInt8) :
    fileLines (l ++ 10 :: rest) = l :: fileLines rest := by
  have hsplit : fileLines (l ++ 10 :: rest) = fileLines l ++ fileLines rest :=
    List.splitOnP_append_cons l rest (by decide)
  rw [hsplit, fileLines_of_notMem hl]
  rfl

theorem chunks_newline_only : chunks [10] = [[10]] := chunks_line (l := []) (by decide) (by decide)

/-- 511 byte までの行は、改行が別に読まれても同じに読める。 -/
theorem parsed_short_line (hl : 10 ∉ l) (hlen : l.length < 512) (st : ParseState) :
    parsed (l ++ [10]) st = (chunkLine l).step st := by
  rcases Nat.lt_or_eq_of_le (Nat.le_of_lt_succ hlen) with hlt | heq
  · rw [parsed_line hl (Nat.le_of_lt_succ hlt), chunkLine_newline]
  · unfold parsed
    rw [chunks_cut hl heq, chunks_newline_only]
    rfl

theorem parsed_short_last (hl : 10 ∉ l) (hlen : l.length < 512) (st : ParseState) :
    parsed l st = (chunkLine l).step st := by
  by_cases hne : l = []
  · subst hne
    exact parsed_nil st
  · unfold parsed
    rcases Nat.lt_or_eq_of_le (Nat.le_of_lt_succ hlen) with hlt | heq
    · rw [chunks_last hl (Nat.le_of_lt_succ hlt) hne]
      rfl
    · have hcut := chunks_cut hl heq []
      rw [List.append_nil, chunks_nil] at hcut
      rw [hcut]
      rfl

/-- どの行も 512 byte より短ければ、解析は行を順に読む。 -/
theorem parsed_fileLines (hshort : ∀ l ∈ fileLines input, l.length < 512) (st : ParseState) :
    parsed input st = runLines ((fileLines input).map chunkLine) st := by
  induction hn : input.length using Nat.strong_induction_on generalizing input st with
  | _ n ih =>
    by_cases hm : 10 ∈ input
    · obtain ⟨l, rest, rfl, hl⟩ := List.eq_append_cons_of_mem hm
      rw [fileLines_append hl] at hshort ⊢
      have hsplit : l ++ 10 :: rest = (l ++ [10]) ++ rest := by simp
      have hlen : rest.length < n := by
        rw [← hn, List.length_append, List.length_cons]
        omega
      rw [hsplit, parsed_append (Or.inr ⟨l, rfl⟩),
        parsed_short_line hl (hshort l List.mem_cons_self)]
      exact ih _ hlen (fun m hm => hshort m (List.mem_cons_of_mem l hm)) _ rfl
    · rw [fileLines_of_notMem hm] at hshort ⊢
      rw [parsed_short_last hm (hshort input List.mem_cons_self)]
      rfl

theorem foldlM_parseLine (hshort : ∀ l ∈ ls, l.length < 512) (st : ParseState) :
    ls.foldlM (fun st l => parseLine (l ++ [0]) st) st
      = some (runLines (ls.map chunkLine) st) := by
  induction ls generalizing st with
  | nil => rfl
  | cons l ls ih =>
    have hlen : (l ++ [0]).length ≤ cfgLineMax := by
      rw [List.length_append]
      exact hshort l List.mem_cons_self
    rw [List.foldlM_cons, parseLine_eq st hlen]
    exact ih (fun m hm => hshort m (List.mem_cons_of_mem l hm)) _

theorem readLines_eq (hshort : ∀ l ∈ ls, l.length < 512) (cfg : Cfg) :
    readLines cfg ls = some (runLines (ls.map chunkLine) (.start cfg)) :=
  foldlM_parseLine hshort _

/-! ## 見出しが開くもの -/

/-- 設定のうち、key の行の書き込み先になるもの。 -/
inductive CfgTarget where
  | global
  | handler (i : Nat)
  | logger (i : Nat)
deriving DecidableEq

/-- `[` と `]` の間の名前が開くもの。知らない種類、空の名前、場所の無い section は開かない。 -/
def openedBy (cfg : Cfg) (name : List UInt8) : Option CfgTarget :=
  if (cstr name).strcasecmp (ascii "global") then some .global
  else if strncasecmp name (ascii "handler:") then
    if strip (name.drop 8) ≠ [] ∧ cfg.handlers.length < 32 then
      some (.handler cfg.handlers.length)
    else none
  else if strncasecmp name (ascii "logger:") then
    if strip (name.drop 7) ≠ [] ∧ cfg.loggers.length < 64 then some (.logger cfg.loggers.length)
    else none
  else none

/-- `[` の行が開くもの。`]` の無い行は何も開かない。 -/
def openedByLine (cfg : Cfg) (l : List UInt8) : Option CfgTarget :=
  if IsClosed l then openedBy cfg (strip ((lineText l).tail.takeWhile (· ≠ 93))) else none

/-- 二つの設定は、`t` のほかでは等しい。 -/
structure DiffersOnly (t : Option CfgTarget) (cfg cfg' : Cfg) : Prop where
  global : t ≠ some .global →
    cfg'.logBufferSize = cfg.logBufferSize ∧ cfg'.ringBufferSize = cfg.ringBufferSize
  nrHandlers : cfg'.handlers.length = cfg.handlers.length
  nrLoggers : cfg'.loggers.length = cfg.loggers.length
  handlers : ∀ i, t ≠ some (.handler i) → cfg'.handlers[i]? = cfg.handlers[i]?
  loggers : ∀ i, t ≠ some (.logger i) → cfg'.loggers[i]? = cfg.loggers[i]?

/-- 解析の状態が、key の行の書き込み先とするもの。 -/
def ParseState.target (st : ParseState) : Option CfgTarget :=
  match st.sec, st.curHandler, st.curLogger with
  | .global, _, _ => some .global
  | .handler, some i, _ => some (.handler i)
  | .logger, _, some i => some (.logger i)
  | _, _, _ => none

theorem DiffersOnly.refl (t : Option CfgTarget) (cfg : Cfg) : DiffersOnly t cfg cfg :=
  ⟨fun _ => ⟨rfl, rfl⟩, rfl, rfl, fun _ _ => rfl, fun _ _ => rfl⟩

theorem differsOnly_none : DiffersOnly none cfg cfg' ↔ cfg' = cfg := by
  constructor
  · intro h
    obtain ⟨hlog, hring⟩ := h.global nofun
    exact Cfg.ext hlog hring (List.ext_getElem? fun i => h.handlers i nofun)
      (List.ext_getElem? fun i => h.loggers i nofun)
  · rintro rfl
    exact DiffersOnly.refl none cfg'

/-- **key の行が変えるのは、読んでいる section だけである。** -/
theorem entryCfg_differsOnly (st : ParseState) (key val : List UInt8) :
    DiffersOnly st.target st.cfg (entryCfg st key val) := by
  obtain ⟨cfg, sec, curHandler, curLogger⟩ := st
  cases sec with
  | none => exact DiffersOnly.refl _ cfg
  | global =>
    have hkeep : (setGlobalKey cfg (cstr key) (cstr val)).handlers = cfg.handlers ∧
        (setGlobalKey cfg (cstr key) (cstr val)).loggers = cfg.loggers := by
      unfold setGlobalKey
      split
      · exact ⟨rfl, rfl⟩
      · split <;> exact ⟨rfl, rfl⟩
    exact
      { global := fun h => absurd rfl h
        nrHandlers := congrArg List.length hkeep.1
        nrLoggers := congrArg List.length hkeep.2
        handlers := fun i _ => congrArg (·[i]?) hkeep.1
        loggers := fun i _ => congrArg (·[i]?) hkeep.2 }
  | handler =>
    cases curHandler with
    | none => exact DiffersOnly.refl _ cfg
    | some i =>
      unfold entryCfg
      dsimp only
      cases cfg.handlers[i]? with
      | none => exact DiffersOnly.refl _ cfg
      | some ch =>
        exact
          { global := fun _ => ⟨rfl, rfl⟩
            nrHandlers := List.length_set
            nrLoggers := rfl
            handlers := fun j hj => List.getElem?_set_ne fun he =>
              hj (congrArg (fun k => some (CfgTarget.handler k)) he)
            loggers := fun _ _ => rfl }
  | logger =>
    cases curLogger with
    | none => exact DiffersOnly.refl _ cfg
    | some i =>
      unfold entryCfg
      dsimp only
      cases cfg.loggers[i]? with
      | none => exact DiffersOnly.refl _ cfg
      | some cl =>
        exact
          { global := fun _ => ⟨rfl, rfl⟩
            nrHandlers := rfl
            nrLoggers := List.length_set
            handlers := fun _ _ => rfl
            loggers := fun j hj => List.getElem?_set_ne fun he =>
              hj (congrArg (fun k => some (CfgTarget.logger k)) he) }

theorem mem_of_mem_strip {x : UInt8} (h : x ∈ strip l) : x ∈ l :=
  (List.dropWhile_suffix isSpace).subset ((List.rdropWhile_prefix isSpace _).subset h)

/-- 見出しを読んだ後の書き込み先は、その見出しが開いたものである。 -/
theorem target_headerStep (st : ParseState) {name : List UInt8} (hname : 0 ∉ name) :
    (headerStep st name).target = openedBy st.cfg name := by
  have hbytes : ∀ n, (cstr (strip (name.drop n))).bytes = strip (name.drop n) :=
    fun n => cstr_bytes fun hm => hname (List.mem_of_mem_drop (mem_of_mem_strip hm))
  unfold headerStep openedBy
  dsimp only
  split
  · rfl
  · split
    · unfold openHandler
      by_cases hroom : strip (name.drop 8) ≠ [] ∧ st.cfg.handlers.length < 32
      · rw [if_pos hroom, dif_pos ((hbytes 8).symm ▸ hroom)]
        rfl
      · rw [if_neg hroom, dif_neg ((hbytes 8).symm ▸ hroom)]
        rfl
    · split
      · unfold openLogger
        by_cases hroom : strip (name.drop 7) ≠ [] ∧ st.cfg.loggers.length < 64
        · rw [if_pos hroom, dif_pos ((hbytes 7).symm ▸ hroom)]
          rfl
        · rw [if_neg hroom, dif_neg ((hbytes 7).symm ▸ hroom)]
          rfl
      · rfl

/-! ## 読んでいる section -/

theorem mem_rdropWhile_iff {x : UInt8} (hx : isSpace x = false) :
    x ∈ l.rdropWhile isSpace ↔ x ∈ l := by
  constructor
  · intro hm
    exact (List.rdropWhile_prefix isSpace l).subset hm
  · intro hm
    rw [← List.rdropWhile_append_rtakeWhile (p := isSpace) (l := l)] at hm
    rcases List.mem_append.mp hm with hm | hm
    · exact hm
    · rw [List.mem_rtakeWhile_imp hm] at hx
      cases hx

/-- `]` の手前は、行末の空白を除いても変わらない。 -/
theorem takeWhile_rdropWhile (h : 93 ∈ l) :
    (l.rdropWhile isSpace).takeWhile (· ≠ 93) = l.takeWhile (· ≠ 93) := by
  obtain ⟨t, d, rfl, ht⟩ := List.eq_append_cons_of_mem h
  rw [rdropWhile_append_cons (by decide), (takeWhile_dropWhile_ne ht).1,
    (takeWhile_dropWhile_ne ht).1]

/-- `[` の行の読み方。 -/
theorem chunkLine_of_isHeader (h : IsHeader l) :
    chunkLine l = if IsClosed l then
      .header (strip ((lineText l).tail.takeWhile (· ≠ 93))) else .skip := by
  rw [chunkLine_eq]
  unfold IsHeader at h
  cases hl : lineText l with
  | nil =>
    rw [hl] at h
    cases h
  | cons c s =>
    rw [hl] at h
    obtain rfl := Option.some.inj h
    have hdrop : (91 :: s).rdropWhile isSpace = 91 :: s.rdropWhile isSpace :=
      rdropWhile_append_cons (l := []) (by decide)
    have hclosed : IsClosed l ↔ 93 ∈ s := by
      unfold IsClosed
      rw [hl]
      simp
    rw [hdrop, lineOf, if_neg (by decide), if_pos rfl]
    by_cases hm : 93 ∈ s
    · rw [if_pos ((mem_rdropWhile_iff (by decide)).mpr hm), if_pos (hclosed.mpr hm),
        takeWhile_rdropWhile hm]
      rfl
    · rw [if_neg fun h => hm ((mem_rdropWhile_iff (by decide)).mp h),
        if_neg fun h => hm (hclosed.mp h)]

/-- `[` でない行は見出しではない。 -/
theorem notHeader_of_not_isHeader (h : ¬ IsHeader l) : (chunkLine l).NotHeader := by
  rw [chunkLine_eq]
  unfold IsHeader at h
  cases hl : (lineText l).rdropWhile isSpace with
  | nil => exact trivial
  | cons c s =>
    have hc : c ≠ 91 := by
      rintro rfl
      obtain ⟨r, hr⟩ := List.rdropWhile_prefix isSpace (lineText l)
      rw [hl] at hr
      rw [← hr] at h
      exact h rfl
    rw [lineOf, if_neg hc]
    split
    · exact trivial
    · split <;> exact trivial

theorem target_step_of_notHeader {l : ParsedLine} (h : l.NotHeader) (st : ParseState) :
    (l.step st).target = st.target := by
  cases l with
  | skip => rfl
  | header name => exact h.elim
  | entry key val => rfl

/-- `[` でない行は、書き込み先を変えない。 -/
theorem target_runLines (hls : ∀ l ∈ ls, ¬ IsHeader l) (st : ParseState) :
    (runLines (ls.map chunkLine) st).target = st.target := by
  induction ls generalizing st with
  | nil => rfl
  | cons l ls ih =>
    have hstep := target_step_of_notHeader
      (notHeader_of_not_isHeader (hls l List.mem_cons_self)) st
    exact (ih (fun m hm => hls m (List.mem_cons_of_mem l hm)) _).trans hstep

/-- 閉じた見出しの後の書き込み先は、それが開いたものである。 -/
theorem target_of_isClosed (h : IsHeader l) (hclosed : IsClosed l) (st : ParseState) :
    ((chunkLine l).step st).target = openedByLine st.cfg l := by
  have hname : 0 ∉ strip ((lineText l).tail.takeWhile (· ≠ 93)) := by
    intro hm
    have htext : 0 ∈ lineText l :=
      List.mem_of_mem_tail ((List.takeWhile_prefix _).subset (mem_of_mem_strip hm))
    simpa using List.mem_takeWhile_imp htext
  unfold openedByLine
  rw [chunkLine_of_isHeader h, if_pos hclosed, if_pos hclosed]
  exact target_headerStep st hname

/-! ## 隔離 -/

/-- `h` は、`pre` の中でいちばん後ろにある `[` の行である。その前には `before` の行がある。 -/
def NearestHeader (pre before : List (List UInt8)) (h : List UInt8) : Prop :=
  ∃ mid, pre = before ++ h :: mid ∧ IsHeader h ∧ ∀ l ∈ mid, ¬ IsHeader l

/-- `ls` を順に読んで状態が `st` になったところで、次の行 `line` が key の行である。 -/
structure KeyLineAt (cfg : Cfg) (ls pre : List (List UInt8)) (st : ParseState)
    (line key val : List UInt8) : Prop where
  split : ∃ post, ls = pre ++ line :: post
  reached : readLines cfg pre = some st
  entry : chunkLine line = .entry key val

/--
どの key の行も、いちばん近い `[` の行が開いたものだけを変える。
`[` の行がまだ無ければ何も変えない。
-/
def Isolated (cfg : Cfg) (ls : List (List UInt8)) : Prop :=
  ∀ pre st line key val st', KeyLineAt cfg ls pre st line key val →
    parseLine (line ++ [0]) st = some st' →
    ((∀ l ∈ pre, ¬ IsHeader l) → st'.cfg = st.cfg) ∧
    ∀ before h sth, NearestHeader pre before h → readLines cfg before = some sth →
      DiffersOnly (openedByLine sth.cfg h) st.cfg st'.cfg

/-- `]` の無い `[` の行の後で読まれる key の行は、開いたままの section の値を変えない。 -/
def UnclosedIdle (cfg : Cfg) (ls : List (List UInt8)) : Prop :=
  ∀ pre st line key val, KeyLineAt cfg ls pre st line key val →
    ∀ before h, NearestHeader pre before h → ¬ IsClosed h → st.Idle (cstr key) (cstr val)

theorem runLines_append (a b : List ParsedLine) (st : ParseState) :
    runLines (a ++ b) st = runLines b (runLines a st) := List.foldl_append

/-- 書き込み先は、いちばん近い `[` の行が閉じていれば、それが開いたものである。 -/
theorem target_of_nearest {pre before : List (List UInt8)} (hnear : NearestHeader pre before h)
    (hclosed : IsClosed h) (st : ParseState) :
    (runLines (pre.map chunkLine) st).target
      = openedByLine (runLines (before.map chunkLine) st).cfg h := by
  obtain ⟨mid, rfl, hheader, hmid⟩ := hnear
  rw [List.map_append, List.map_cons, runLines_append]
  show (runLines (mid.map chunkLine) _).target = _
  rw [target_runLines hmid, target_of_isClosed hheader hclosed]

/-- 書き込み先がどれかによらず、key の行を読んだ後の状態。 -/
theorem KeyLineAt.parse {pre : List (List UInt8)} {line key val : List UInt8}
    (hkey : KeyLineAt cfg ls pre st line key val) (hshort : ∀ l ∈ ls, l.length < 512) :
    st = runLines (pre.map chunkLine) (.start cfg) ∧
      parseLine (line ++ [0]) st = some { st with cfg := entryCfg st key val } := by
  obtain ⟨⟨post, rfl⟩, hreached, hentry⟩ := hkey
  have hpre : ∀ l ∈ pre, l.length < 512 := fun l hl => hshort l (List.mem_append_left _ hl)
  have hline : (line ++ [0]).length ≤ cfgLineMax := by
    rw [List.length_append]
    exact hshort line (List.mem_append_right _ List.mem_cons_self)
  constructor
  · rw [readLines_eq hpre] at hreached
    exact (Option.some.inj hreached).symm
  · rw [parseLine_eq st hline]
    show some ((chunkLine line).step st) = _
    rw [hentry]
    rfl

theorem KeyLineAt.short_before {pre before : List (List UInt8)} {line key val : List UInt8}
    (hkey : KeyLineAt cfg ls pre st line key val) (hnear : NearestHeader pre before h)
    (hshort : ∀ l ∈ ls, l.length < 512) : ∀ l ∈ before, l.length < 512 := by
  obtain ⟨⟨post, rfl⟩, -, -⟩ := hkey
  obtain ⟨mid, rfl, -, -⟩ := hnear
  intro l hl
  exact hshort l (List.mem_append_left _ (List.mem_append_left _ hl))

/--
**隔離が成り立つのは、`]` の無い `[` の行の後の key の行が何も変えないとき、
かつそのときに限る。** `readLines` は file の解析そのものである。
-/
theorem sections_isolated_iff (input : List UInt8) (cfg : Cfg)
    (hshort : ∀ l ∈ fileLines input, l.length < 512) :
    lmkCfgParseFile (some input) cfg
      = (readLines cfg (fileLines input)).map (fun st => (lmkEOk, st.cfg)) ∧
    (Isolated cfg (fileLines input) ↔ UnclosedIdle cfg (fileLines input)) := by
  constructor
  · rw [lmkCfgParseFile_eq, parsed_fileLines hshort, readLines_eq hshort]
    rfl
  · constructor
    · intro hiso pre st line key val hkey before h hnear hopen
      obtain ⟨hst, hparse⟩ := hkey.parse hshort
      have hdiff := (hiso pre st line key val _ hkey hparse).2 before h _ hnear
        (readLines_eq (hkey.short_before hnear hshort) cfg)
      have hnone : openedByLine (runLines (before.map chunkLine) (.start cfg)).cfg h = none :=
        if_neg hopen
      rw [hnone] at hdiff
      exact (entryCfg_eq_self_iff st key val).mp (differsOnly_none.mp hdiff)
    · intro hidle pre st line key val st' hkey hparse'
      obtain ⟨hst, hparse⟩ := hkey.parse hshort
      obtain rfl := Option.some.inj (hparse.symm.trans hparse')
      have hdiff := entryCfg_differsOnly st key val
      constructor
      · intro hno
        have htarget : st.target = none := by
          rw [hst, target_runLines hno]
          rfl
        rw [htarget] at hdiff
        exact differsOnly_none.mp hdiff
      · intro before h sth hnear hsth
        by_cases hclosed : IsClosed h
        · rw [readLines_eq (hkey.short_before hnear hshort)] at hsth
          obtain rfl := Option.some.inj hsth
          rw [← target_of_nearest hnear hclosed, ← hst]
          exact hdiff
        · have hsame := (entryCfg_eq_self_iff st key val).mpr
            (hidle pre st line key val hkey before h hnear hclosed)
          show DiffersOnly _ st.cfg (entryCfg st key val)
          rw [hsame]
          exact DiffersOnly.refl _ st.cfg

/-- `]` を書き忘れた見出しの後に、前の handler の level をもう一度書いた file の行。 -/
def repeatedLevel : List (List UInt8) :=
  [ascii "[global]", ascii "log_buffer_size = 1", ascii "[handler:a]", ascii "level = off",
    ascii "[handler:b", ascii "level = off", ascii "[logger:c]", ascii "handlers = a"]

/-- 閉じていない見出しの後の key の行は、開いたままの handler が持つ level を書く。 -/
theorem unclosedIdle_repeatedLevel : UnclosedIdle .initial repeatedLevel := by
  rintro pre st line key val ⟨⟨post, hls⟩, hread, hentry⟩ before h ⟨mid, rfl, hheader, hmid⟩ hopen
  have hlen := congrArg List.length hls
  simp only [List.length_append, List.length_cons] at hlen
  have hlen : 8 = before.length + (mid.length + 1) + (post.length + 1) := hlen
  have hget : ∀ i : Nat, repeatedLevel[i]? = (before ++ h :: mid ++ line :: post)[i]? := by
    intro i
    rw [hls]
  -- 閉じていない見出しは五行目で、次の見出しは七行目にある
  have hbefore : before.length = 4 := by
    have hunclosed : ∀ i < 8, ∀ l ∈ repeatedLevel[i]?, IsHeader l → ¬ IsClosed l → i = 4 := by
      decide
    exact hunclosed before.length (by omega) h (by rw [hget]; simp) hheader hopen
  have hmid' : mid.length ≤ 1 := by
    by_contra hlong
    refine hmid (mid[1]) (List.getElem_mem (by omega)) ?_
    have hmem : repeatedLevel[6]? = some mid[1] := by
      rw [hget, List.getElem?_append_left (by simp; omega), List.getElem?_append_right (by omega),
        hbefore]
      simp
    rw [← Option.some.inj hmem]
    decide
  have hidx : (before ++ h :: mid).length = 5 + mid.length := by
    rw [List.length_append, List.length_cons]
    omega
  have hline : repeatedLevel[5 + mid.length]? = some line := by
    rw [hget, ← hidx, List.getElem?_append_right le_rfl, Nat.sub_self]
    rfl
  have hpre : before ++ h :: mid = repeatedLevel.take (5 + mid.length) := by
    rw [hls, List.take_left' hidx]
  rcases Nat.le_one_iff_eq_zero_or_eq_one.mp hmid' with hzero | hone
  · rw [hzero] at hline hpre
    obtain rfl := Option.some.inj hline
    rw [hpre] at hread
    obtain rfl := Option.some.inj hread
    obtain ⟨rfl, rfl⟩ := ParsedLine.entry.inj hentry
    exact (entryCfg_eq_self_iff _ _ _).mp rfl
  · rw [hone] at hline
    obtain rfl := Option.some.inj hline
    cases hentry

/-- `repeatedLevel` の行からなる file。 -/
def repeatedLevelFile : List UInt8 :=
  ascii "[global]\nlog_buffer_size = 1\n[handler:a]\nlevel = off\n[handler:b\nlevel = off\n"
    ++ ascii "[logger:c]\nhandlers = a"

theorem sections_isolated_iff_repeatedLevel :
    fileLines repeatedLevelFile = repeatedLevel ∧
      Isolated .initial (fileLines repeatedLevelFile) := by
  have hlines : fileLines repeatedLevelFile = repeatedLevel := by decide
  refine ⟨hlines, (sections_isolated_iff repeatedLevelFile .initial ?_).2.mpr ?_⟩
  · rw [hlines]
    decide
  · rw [hlines]
    exact unclosedIdle_repeatedLevel

/-- `]` を書き忘れた見出しの後の level は、前の handler の level になる。 -/
def unclosedHeader : List (List UInt8) :=
  [ascii "[handler:a]", ascii "[handler:b", ascii "level = off"]

theorem sections_isolated_unclosedHeader_false :
    fileLines (ascii "[handler:a]\n[handler:b\nlevel = off") = unclosedHeader ∧
      (∀ l ∈ unclosedHeader, l.length < 512) ∧ ¬ Isolated .initial unclosedHeader := by
  refine ⟨by decide, by decide, ?_⟩
  intro hiso
  obtain ⟨st, hst, hold⟩ : ∃ st, readLines .initial (unclosedHeader.take 2) = some st ∧
      st.cfg.handlers.map CfgHandler.level = [-1] := ⟨_, rfl, rfl⟩
  obtain ⟨st', hst', hnew⟩ : ∃ st', parseLine (ascii "level = off" ++ [0]) st = some st' ∧
      st'.cfg.handlers.map CfgHandler.level = [5] := by
    obtain rfl := Option.some.inj hst
    exact ⟨_, rfl, rfl⟩
  have hkey : KeyLineAt .initial unclosedHeader (unclosedHeader.take 2) st
      (ascii "level = off") (ascii "level") (ascii "off") := ⟨⟨[], rfl⟩, hst, by decide⟩
  have hnear : NearestHeader (unclosedHeader.take 2) [ascii "[handler:a]"] (ascii "[handler:b") :=
    ⟨[], rfl, by decide, fun _ hl => by cases hl⟩
  obtain ⟨sth, hsth⟩ : ∃ sth, readLines .initial [ascii "[handler:a]"] = some sth := ⟨_, rfl⟩
  have hdiff := (hiso _ st _ _ _ st' hkey hst').2 _ _ sth hnear hsth
  have hnone : openedByLine sth.cfg (ascii "[handler:b") = none := if_neg (by decide)
  rw [hnone] at hdiff
  rw [differsOnly_none.mp hdiff, hold] at hnew
  exact absurd hnew (by decide)

end Logmoko
