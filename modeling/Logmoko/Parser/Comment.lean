import Logmoko.Parser.Chunks
import Logmoko.Parser.Rewrite

/-!
# 注釈の行

`#` か `;` で始まる行は読み飛ばされる。ただし長い行は `fgets` がいくつにも切るので、
二つ目からの切れ端は注釈としてではなく、一つの行として解析される。

注釈の行がどこに書かれても設定を変えないのは、切れ端のどれもが何も書かないとき、
かつそのときに限る（`comment_ignored_iff`）。510 byte 以内の行は切られないので、必ずそうなる。

逆の向きは、切れ端が値を書く section と、書かれる前の値の異なる二つの状態を作って示す。
書く切れ端があれば、読んだ後の値は前の値によらない（`exists_forgotten`）。
-/

namespace Logmoko

open StrBuf

variable {st : ParseState}

/-! ## 二つの状態 -/

/-- 既定の値と異なる値。 -/
def HandlerField.sample : HandlerField → List UInt8
  | .type => ascii "file"
  | .level => ascii "info"
  | .listener => ascii "a:1"
  | _ => ascii "1"

/-- key の値を書ける section の見出し。 -/
def CfgKey.header : CfgKey → List UInt8
  | .logBufferSize | .ringBufferSize => ascii "[global]"
  | .handler _ => ascii "[handler:a]"
  | .handlers => ascii "[logger:a]"

/-- 既定の値と異なる値を書く行。 -/
def CfgKey.sampleLine : CfgKey → List UInt8
  | .logBufferSize => ascii "log_buffer_size=1"
  | .ringBufferSize => ascii "ring_buffer_size=1"
  | .handler f => f.word ++ ascii "=" ++ f.sample
  | .handlers => ascii "handlers=a"

/-- 見出しだけを読んだ状態。 -/
def CfgKey.opened (k : CfgKey) : ParseState :=
  (chunkLine (k.header ++ [10])).step (.start .initial)

/-- 続けて、既定の値と異なる値を読んだ状態。 -/
def CfgKey.sampled (k : CfgKey) : ParseState := (chunkLine (k.sampleLine ++ [10])).step k.opened

theorem parsed_header (k : CfgKey) : parsed (k.header ++ [10]) (.start .initial) = k.opened := by
  have hline : 10 ∉ k.header ∧ k.header.length ≤ 510 := by
    unfold CfgKey.header
    split <;> decide
  exact parsed_line hline.1 hline.2 _

theorem parsed_sampleLine (k : CfgKey) :
    parsed (k.header ++ [10] ++ (k.sampleLine ++ [10])) (.start .initial) = k.sampled := by
  have hline : 10 ∉ k.sampleLine ∧ k.sampleLine.length ≤ 510 := by
    cases k with
    | handler f => cases f <;> decide
    | _ => decide
  rw [parsed_append (Or.inr ⟨_, rfl⟩), parsed_header]
  exact parsed_line hline.1 hline.2 _

theorem CfgKey.open_opened (k : CfgKey) : k.Open k.opened := by
  cases k with
  | logBufferSize | ringBufferSize => rfl
  | handler f => exact ⟨rfl, rfl, _, rfl⟩
  | handlers => exact ⟨rfl, rfl, _, rfl⟩

theorem CfgKey.open_sampled (k : CfgKey) : k.Open k.sampled := by
  refine CfgKey.open_step ?_ k k.open_opened
  cases k with
  | handler f => cases f <;> exact trivial
  | _ => exact trivial

theorem CfgKey.get_opened_ne (k : CfgKey) : CfgKey.get k.opened k ≠ CfgKey.get k.sampled k := by
  cases k with
  | handler f => cases f <;> decide
  | _ => decide

/-! ## 見出しの後 -/

/-- 最初の handler の section はもう読んでいない。 -/
def PastHandler (st : ParseState) : Prop :=
  st.curHandler ≠ some 0 ∧ 0 < st.cfg.handlers.length

theorem openHandler_past {name : CStr} (hcur : st.curHandler ≠ some 0)
    (hpos : 0 < st.cfg.handlers.length) : PastHandler (openHandler st name) := by
  unfold openHandler
  split
  · refine ⟨?_, ?_⟩
    · intro h
      exact absurd (Option.some.inj h) (Nat.ne_of_gt hpos)
    · simp [Cfg.addHandler]
  · exact ⟨hcur, hpos⟩

theorem pastHandler_header (name : List UInt8) (h : 0 < st.cfg.handlers.length) :
    PastHandler (headerStep st name) := by
  have hnone : (none : Option Nat) ≠ some 0 := (Option.some_ne_none 0).symm
  unfold headerStep
  dsimp only
  split
  · exact ⟨hnone, h⟩
  · split
    · exact openHandler_past hnone h
    · split
      · unfold openLogger
        split
        · exact ⟨hnone, h⟩
        · exact ⟨hnone, h⟩
      · exact ⟨hnone, h⟩

theorem length_step_pos (l : ParsedLine) (h : 0 < st.cfg.handlers.length) :
    0 < (l.step st).cfg.handlers.length := by
  cases l with
  | skip => exact h
  | header name => exact (pastHandler_header name h).2
  | entry key val => exact (length_entryCfg st key val).symm ▸ h

theorem pastHandler_step (l : ParsedLine) (h : PastHandler st) : PastHandler (l.step st) := by
  cases l with
  | skip => exact h
  | header name => exact pastHandler_header name h.2
  | entry key val => exact ⟨h.1, (length_entryCfg st key val).symm ▸ h.2⟩

theorem pastHandler_runLines (ls : List ParsedLine) (h : PastHandler st) :
    PastHandler (runLines ls st) := by
  induction ls generalizing st with
  | nil => exact h
  | cons l ls ih => exact ih (pastHandler_step l h)

/-- 見出しを含む列を読むと、最初の handler の section から離れる。 -/
theorem pastHandler_of_header {ls : List ParsedLine} {name : List UInt8}
    (h : ParsedLine.header name ∈ ls) (hpos : 0 < st.cfg.handlers.length) :
    PastHandler (runLines ls st) := by
  induction ls generalizing st with
  | nil => cases h
  | cons l ls ih =>
    rcases List.mem_cons.mp h with rfl | h
    · exact pastHandler_runLines ls (pastHandler_header name hpos)
    · exact ih h (length_step_pos l hpos)

/-- 離れた section の値は、もう書き換わらない。 -/
theorem handler_kept (h : PastHandler st) (key val : List UInt8) :
    (entryCfg st key val).handlers[0]? = st.cfg.handlers[0]? := by
  unfold entryCfg
  split
  · unfold setGlobalKey
    split
    · rfl
    · split <;> rfl
  · next i _ hcur =>
    have hi : i ≠ 0 := by
      rintro rfl
      exact h.1 hcur
    split
    · exact List.getElem?_set_ne hi
    · rfl
  · split <;> rfl
  · rfl

/-! ## 注釈の行 -/

/-- 空白の後に `#` か `;` で始まる行。長さは問わない。 -/
def CommentLine (c : List UInt8) : Prop :=
  10 ∉ c ∧ ∃ a x t, c = a ++ x :: t ∧ (∀ y ∈ a, isSpace y = true) ∧ (x = 35 ∨ x = 59)

/-- その行を file のどこに入れても、どこから除いても、解析の結果は変わらない。 -/
def Ignored (c : List UInt8) : Prop :=
  ∀ pre post, EndsLine pre →
    lmkCfgParseFile (some (pre ++ c ++ 10 :: post)) .initial
      = lmkCfgParseFile (some (pre ++ post)) .initial

theorem parsed_eq_runLines (input : List UInt8) (st : ParseState) :
    parsed input st = runLines ((chunks input).map chunkLine) st := List.foldl_map.symm

theorem runLines_inert {ls : List ParsedLine} (h : ∀ l ∈ ls, l.Inert) (st : ParseState) :
    runLines ls st = st := by
  induction ls generalizing st with
  | nil => rfl
  | cons l ls ih =>
    show runLines ls (l.step st) = st
    rw [(h l List.mem_cons_self).step]
    exact ih (fun m hm => h m (List.mem_cons_of_mem l hm)) st

/-- 行を入れた file を読むと、行の切れ端を順に読んでから続きを読む。 -/
theorem parsed_insert {pre : List UInt8} (hpre : EndsLine pre) (c post : List UInt8)
    (st : ParseState) :
    parsed (pre ++ c ++ 10 :: post) st
      = parsed post (runLines ((chunks (c ++ [10])).map chunkLine) (parsed pre st)) := by
  have hsplit : pre ++ c ++ 10 :: post = pre ++ ((c ++ [10]) ++ post) := by simp
  rw [hsplit, parsed_append hpre, parsed_append (Or.inr ⟨c, rfl⟩), parsed_eq_runLines (c ++ [10])]

theorem ignored_iff {c : List UInt8} :
    Ignored c ↔ ∀ pre post, EndsLine pre →
      (parsed post (runLines ((chunks (c ++ [10])).map chunkLine)
        (parsed pre (.start .initial)))).cfg
        = (parsed post (parsed pre (.start .initial))).cfg := by
  unfold Ignored
  refine forall₃_congr ?_
  intro pre post hpre
  rw [lmkCfgParseFile_eq, lmkCfgParseFile_eq, parsed_insert hpre, parsed_append hpre]
  simp only [Option.some.injEq, Prod.mk.injEq, true_and]

theorem parsed_nil (st : ParseState) : parsed [] st = st := by
  unfold parsed
  rw [chunks_nil]
  rfl

/-- 見出しを含む切れ端は、後の行の行き先を変える。 -/
theorem not_ignored_of_header {c name : List UInt8}
    (hm : ParsedLine.header name ∈ (chunks (c ++ [10])).map chunkLine) : ¬ Ignored c := by
  intro hc
  let k : CfgKey := .handler .level
  have hends : EndsLine (k.header ++ [10]) := Or.inr ⟨_, rfl⟩
  have heq := ignored_iff.mp hc (k.header ++ [10]) (k.sampleLine ++ [10]) hends
  have hpos : 0 < k.opened.cfg.handlers.length := Nat.one_pos
  have hpast := pastHandler_of_header hm hpos
  rw [parsed_header, parsed_line (by decide) (by decide), parsed_line (by decide) (by decide)]
    at heq
  -- 入れた方では level が書かれない
  have hkept : ((chunkLine (k.sampleLine ++ [10])).step
      (runLines ((chunks (c ++ [10])).map chunkLine) k.opened)).cfg.handlers[0]?
        = (runLines ((chunks (c ++ [10])).map chunkLine) k.opened).cfg.handlers[0]? :=
    handler_kept hpast (ascii "level") (ascii "info")
  have hnone := ignored_iff.mp hc (k.header ++ [10]) [] hends
  rw [parsed_header, parsed_nil, parsed_nil] at hnone
  have hget : ∀ st, CfgKey.get st k
      = st.cfg.handlers[0]?.map fun ch => HandlerField.get ch .level :=
    fun _ => rfl
  have hsame : k.opened.cfg.handlers[0]? = k.sampled.cfg.handlers[0]? := by
    rw [← hnone, ← hkept]
    exact congrArg (fun cfg : Cfg => cfg.handlers[0]?) heq
  refine k.get_opened_ne ?_
  rw [hget, hget, hsame]

/-- 値を書く切れ端は、前の値のどちらかを変える。 -/
theorem not_ignored_of_writes {c key val : List UInt8} {k : CfgKey}
    (hls : ∀ l ∈ (chunks (c ++ [10])).map chunkLine, l.NotHeader)
    (hm : ParsedLine.entry key val ∈ (chunks (c ++ [10])).map chunkLine)
    (hkey : (cstr key).strcasecmp k.word = true) (hval : k.Writes (cstr val)) : ¬ Ignored c := by
  intro hc
  have hsame := ignored_iff.mp hc
  obtain ⟨v, hv⟩ := exists_forgotten (C := k.Open) (g := fun st => CfgKey.get st k)
    (fun l hl st h => CfgKey.open_step (hls l hl) k h) (fun l hl => CfgKey.settles (hls l hl) k)
    ⟨_, hm, CfgKey.sets_of_writes hkey hval⟩
  have hget : ∀ {st st' : ParseState}, st.cfg = st'.cfg → CfgKey.get st k = CfgKey.get st' k := by
    intro st st' h
    cases k <;> simp only [CfgKey.get, h]
  have hopened := hsame (k.header ++ [10]) [] (Or.inr ⟨_, rfl⟩)
  rw [parsed_nil, parsed_nil, parsed_header] at hopened
  have hsampled := hsame (k.header ++ [10] ++ (k.sampleLine ++ [10])) [] (endsLine_append _ _)
  rw [parsed_nil, parsed_nil, parsed_sampleLine] at hsampled
  refine k.get_opened_ne ?_
  calc CfgKey.get k.opened k
      = v := (hget hopened).symm.trans (hv _ k.open_opened)
    _ = CfgKey.get k.sampled k := (hv _ k.open_sampled).symm.trans (hget hsampled)

theorem ignored_iff_inert (c : List UInt8) :
    Ignored c ↔ ∀ chunk ∈ chunks (c ++ [10]), (chunkLine chunk).Inert := by
  constructor
  · intro hc
    have hls : ∀ l ∈ (chunks (c ++ [10])).map chunkLine, l.NotHeader := by
      intro l hl
      cases l with
      | header name => exact absurd hc (not_ignored_of_header hl)
      | _ => exact trivial
    intro chunk hchunk
    have hm := List.mem_map_of_mem hchunk (f := chunkLine)
    cases hline : chunkLine chunk with
    | skip => exact trivial
    | header name =>
      rw [hline] at hm
      exact absurd hc (not_ignored_of_header hm)
    | entry key val =>
      rw [hline] at hm
      intro k hkey hval
      exact not_ignored_of_writes hls hm hkey hval hc
  · intro h
    refine ignored_iff.mpr ?_
    intro pre post _
    have hinert : ∀ l ∈ (chunks (c ++ [10])).map chunkLine, l.Inert := by
      intro l hl
      obtain ⟨chunk, hchunk, rfl⟩ := List.mem_map.mp hl
      exact h chunk hchunk
    rw [runLines_inert hinert]

/-- 空白の後に `#` か `;` で始まる切れ端は読み飛ばされる。 -/
theorem chunkLine_marked {a t : List UInt8} {x : UInt8} (ha : ∀ y ∈ a, isSpace y = true)
    (hx : x = 35 ∨ x = 59) : chunkLine (a ++ x :: t) = .skip := by
  have hmark : isSpace x = false ∧ decide (x ≠ 0) = true := by
    rcases hx with rfl | rfl <;> decide
  have hnonzero : ∀ y ∈ a ++ [x], decide (y ≠ 0) = true := by
    intro y hy
    refine decide_eq_true ?_
    rcases List.mem_append.mp hy with hy | hy
    · rintro rfl
      exact absurd (ha 0 hy) (by decide)
    · obtain rfl := List.mem_singleton.mp hy
      exact of_decide_eq_true hmark.2
  have hstr : strAt (a ++ x :: t ++ [0]) 0 = a ++ x :: (t ++ [0]).takeWhile (· ≠ 0) := by
    have hsplit : a ++ x :: t ++ [0] = (a ++ [x]) ++ (t ++ [0]) := by simp
    show List.takeWhile _ (a ++ x :: t ++ [0]) = _
    rw [hsplit, List.takeWhile_append_of_pos hnonzero]
    simp
  have hstrip : strip (a ++ x :: (t ++ [0]).takeWhile (· ≠ 0))
      = x :: ((t ++ [0]).takeWhile (· ≠ 0)).rdropWhile isSpace := by
    unfold strip
    rw [dropWhile_append_cons ha hmark.1]
    exact rdropWhile_append_cons (l := []) hmark.1
  unfold chunkLine
  rw [hstr, hstrip, lineOf, if_pos hx]

/-- 空白だけの切れ端は読み飛ばされる。 -/
theorem chunkLine_spaces {a : List UInt8} (ha : ∀ y ∈ a, isSpace y = true) :
    chunkLine a = .skip := by
  have hnul : 0 ∉ a := fun hm => absurd (ha 0 hm) (by decide)
  unfold chunkLine
  rw [strAt_zero_append hnul, strip_of_all ha]
  rfl

/-- 注釈の行の先頭は、どこで切っても読み飛ばされる。 -/
theorem chunkLine_comment {c : List UInt8} (hc : CommentLine c) (n : Nat) :
    chunkLine ((c ++ [10]).take n) = .skip := by
  obtain ⟨-, a, x, t, rfl, ha, hx⟩ := hc
  rw [List.append_assoc, List.cons_append, List.take_append]
  rcases Nat.eq_zero_or_pos (n - a.length) with hn | hn
  · rw [hn, List.take_zero, List.append_nil]
    exact chunkLine_spaces fun y hy => ha y (List.mem_of_mem_take hy)
  · obtain ⟨k, hk⟩ := Nat.exists_eq_succ_of_ne_zero (Nat.ne_of_gt hn)
    rw [hk, List.take_succ_cons]
    exact chunkLine_marked (fun y hy => ha y (List.mem_of_mem_take hy)) hx

/--
**注釈の行がどこにあっても設定を変えないのは、`fgets` が切り分けた二つ目からの切れ端が
何も書かないとき、かつそのときに限る。**
-/
theorem comment_ignored_iff {c : List UInt8} (hc : CommentLine c) :
    Ignored c ↔ ∀ chunk ∈ (chunks (c ++ [10])).tail, (chunkLine chunk).Inert := by
  rw [ignored_iff_inert, chunks_of_ne (by simp), List.forall_mem_cons, chunkLine_comment hc]
  exact and_iff_right trivial

/-- 510 byte 以内の注釈の行には、二つ目の切れ端が無い。 -/
theorem tail_chunks_comment {c : List UInt8} (hc : CommentLine c) (hlen : c.length ≤ 510) :
    (chunks (c ++ [10])).tail = [] := by
  rw [chunks_line hc.1 hlen]
  rfl

/-- 511 byte の注釈の後に `level = off` が続く行。 -/
def longComment : List UInt8 := 35 :: List.replicate 510 32 ++ ascii "level = off"

theorem commentLine_longComment : CommentLine longComment := by
  refine ⟨?_, [], 35, _, rfl, nofun, Or.inl rfl⟩
  intro h
  rcases List.mem_append.mp h with h | h
  · rcases List.mem_cons.mp h with h | h
    · exact absurd h (by decide)
    · exact absurd (List.eq_of_mem_replicate h) (by decide)
  · exact absurd h (by decide)

theorem chunks_longComment :
    chunks (longComment ++ [10]) = [35 :: List.replicate 510 32, ascii "level = off" ++ [10]] := by
  have hhead : 10 ∉ (35 :: List.replicate 510 32 : List UInt8) := by
    intro h
    rcases List.mem_cons.mp h with h | h
    · exact absurd h (by decide)
    · exact absurd (List.eq_of_mem_replicate h) (by decide)
  have hlen : (35 :: List.replicate 510 32 : List UInt8).length = 511 := by
    rw [List.length_cons, List.length_replicate]
  unfold longComment
  rw [List.append_assoc, chunks_cut hhead hlen, chunks_line (by decide) (by decide)]

/-- 読み飛ばされる注釈の例。 -/
theorem comment_ignored_iff_hash :
    Ignored (ascii "# psk = secret") ↔
      ∀ chunk ∈ (chunks (ascii "# psk = secret" ++ [10])).tail, (chunkLine chunk).Inert :=
  comment_ignored_iff ⟨by decide, [], 35, _, rfl, nofun, Or.inl rfl⟩

/-- handler の section に `longComment` を入れると、level が `off` になる。 -/
theorem longComment_configures :
    CommentLine longComment ∧
      lmkCfgParseFile (some (ascii "[handler:a]" ++ [10] ++ longComment ++ 10 :: [])) .initial
        ≠ lmkCfgParseFile (some (ascii "[handler:a]" ++ [10] ++ [])) .initial := by
  refine ⟨commentLine_longComment, ?_⟩
  have hends : EndsLine (ascii "[handler:a]" ++ [10]) := Or.inr ⟨_, rfl⟩
  have hopened : parsed (ascii "[handler:a]" ++ [10]) (.start .initial)
      = (CfgKey.handler .level).opened := parsed_header (.handler .level)
  have hmark : chunkLine (35 :: List.replicate 510 32) = .skip :=
    chunkLine_marked (a := []) nofun (Or.inl rfl)
  intro h
  rw [lmkCfgParseFile_eq, lmkCfgParseFile_eq, parsed_insert hends, parsed_append hends,
    chunks_longComment, List.map_cons, parsed_nil, parsed_nil, hopened, hmark] at h
  have hcfg := (Prod.mk.inj (Option.some.inj h)).2
  have hlevel := congrArg (fun cfg : Cfg => cfg.handlers.map CfgHandler.level) hcfg
  exact absurd hlevel (by decide)

end Logmoko
