import Logmoko.Parser.Meaning

/-!
# file の切り分け

`fgets` は一行を読むのではなく、改行までか 511 byte までを読む。長い行はいくつにも切られ、
二つ目からも行として解析される。

切り分けは改行の後で必ず始め直すので、file の前半が改行で終わっていれば、
後半の切り分けは前半によらない（`chunks_append`）。
-/

namespace Logmoko

open StrBuf

variable {a b l pre post input : List UInt8} {st : ParseState}

/-! ## 切り分け -/

theorem fgets_eq_some (h : input ≠ []) :
    fgets cfgLineMax input = some (input.take (fgetsLength cfgLineMax input) ++ [0],
      input.drop (fgetsLength cfgLineMax input)) := if_neg h

theorem fgetsLength_pos (h : input ≠ []) : 0 < fgetsLength cfgLineMax input := by
  have hpos := List.length_pos_iff.mpr h
  unfold fgetsLength cfgLineMax
  split <;> omega

/-- `fgets` が順に読む byte 列。 -/
def chunks (input : List UInt8) : List (List UInt8) :=
  if _h : input = [] then []
  else input.take (fgetsLength cfgLineMax input) ::
    chunks (input.drop (fgetsLength cfgLineMax input))
termination_by input.length
decreasing_by exact fgets_rest_lt (by decide) (fgets_eq_some _h)

theorem chunks_nil : chunks [] = [] := by
  rw [chunks]
  rfl

theorem chunks_of_ne (h : input ≠ []) :
    chunks input = input.take (fgetsLength cfgLineMax input) ::
      chunks (input.drop (fgetsLength cfgLineMax input)) := by
  rw [chunks, dif_neg h]

/-- 改行の後に何が続いても、そこまでに一度に読む長さは変わらない。 -/
theorem fgetsLength_append_newline (a b : List UInt8) :
    fgetsLength cfgLineMax (a ++ 10 :: b) = fgetsLength cfgLineMax (a ++ [10]) ∧
      fgetsLength cfgLineMax (a ++ 10 :: b) ≤ a.length + 1 := by
  by_cases hm : 10 ∈ a
  · obtain ⟨s, t, rfl, hs⟩ := List.eq_append_cons_of_mem hm
    have hcut : ∀ r, fgetsLength cfgLineMax (s ++ 10 :: t ++ 10 :: r)
        = min 511 (s.length + 1) := by
      intro r
      rw [List.append_assoc, List.cons_append, fgetsLength_newline hs]
      rfl
    rw [hcut, hcut]
    refine ⟨rfl, ?_⟩
    rw [List.length_append, List.length_cons]
    omega
  · rw [fgetsLength_newline hm, fgetsLength_newline hm]
    exact ⟨rfl, Nat.min_le_right _ _⟩

/-- 切り分けは改行の後で始め直す。 -/
theorem chunks_newline (a b : List UInt8) :
    chunks (a ++ 10 :: b) = chunks (a ++ [10]) ++ chunks b := by
  induction hn : a.length using Nat.strong_induction_on generalizing a with
  | _ n ih =>
    obtain ⟨hsame, hle⟩ := fgetsLength_append_newline a b
    have hpos : 0 < fgetsLength cfgLineMax (a ++ [10]) := fgetsLength_pos (by simp)
    have hwhole : a ++ 10 :: b ≠ [] := List.append_ne_nil_of_right_ne_nil _ nofun
    have hline : a ++ [10] ≠ [] := List.append_ne_nil_of_right_ne_nil _ nofun
    rw [chunks_of_ne hwhole, chunks_of_ne hline, hsame, List.cons_append]
    rw [hsame] at hle
    generalize fgetsLength cfgLineMax (a ++ [10]) = k at hpos hle ⊢
    have hsplit : a ++ 10 :: b = (a ++ [10]) ++ b := by simp
    have htake : (a ++ 10 :: b).take k = (a ++ [10]).take k := by
      rw [hsplit, List.take_append_of_le_length (by simpa using hle)]
    rw [htake]
    refine congrArg _ ?_
    rcases Nat.lt_or_eq_of_le hle with hlt | rfl
    · have hk : k ≤ a.length := Nat.le_of_lt_succ hlt
      rw [List.drop_append_of_le_length hk, List.drop_append_of_le_length hk]
      exact ih (a.drop k).length (by rw [List.length_drop]; omega) (a.drop k) rfl
    · have hlen : (a ++ [10]).length = a.length + 1 := List.length_append
      rw [hsplit, ← hlen, List.drop_left, List.drop_length, chunks_nil]
      rfl

/-- 空か、改行で終わる。 -/
def EndsLine (pre : List UInt8) : Prop := pre = [] ∨ ∃ a, pre = a ++ [10]

theorem endsLine_append (pre a : List UInt8) : EndsLine (pre ++ (a ++ [10])) :=
  Or.inr ⟨pre ++ a, (List.append_assoc ..).symm⟩

theorem chunks_append (hpre : EndsLine pre) (post : List UInt8) :
    chunks (pre ++ post) = chunks pre ++ chunks post := by
  rcases hpre with rfl | ⟨a, rfl⟩
  · rw [chunks_nil]
    rfl
  · rw [List.append_assoc, List.singleton_append]
    exact chunks_newline a post

/-- 510 byte 以内の行は、一度に読まれる。 -/
theorem chunks_line (hl : 10 ∉ l) (hlen : l.length ≤ 510) : chunks (l ++ [10]) = [l ++ [10]] := by
  have hn : fgetsLength cfgLineMax (l ++ [10]) = (l ++ [10]).length := by
    rw [fgetsLength_newline hl, List.length_append]
    exact Nat.min_eq_right (Nat.succ_le_succ hlen)
  rw [chunks_of_ne (by simp), hn, List.take_length, List.drop_length, chunks_nil]

/-- 改行の無い最後の行も、510 byte 以内なら一度に読まれる。 -/
theorem chunks_last (hl : 10 ∉ l) (hlen : l.length ≤ 510) (hne : l ≠ []) : chunks l = [l] := by
  have hn : fgetsLength cfgLineMax l = l.length := by
    rw [fgetsLength_of_notMem hl]
    exact Nat.min_eq_right (Nat.le_succ_of_le hlen)
  rw [chunks_of_ne hne, hn, List.take_length, List.drop_length, chunks_nil]

/-- 改行の無いまま 511 byte 続けば、そこで切られる。 -/
theorem chunks_cut (hl : 10 ∉ l) (hlen : l.length = 511) (b : List UInt8) :
    chunks (l ++ b) = l :: chunks b := by
  have hne : l ++ b ≠ [] := by
    intro h
    rw [(List.append_eq_nil_iff.mp h).1] at hlen
    cases hlen
  have hn : fgetsLength cfgLineMax (l ++ b) = l.length := by
    unfold fgetsLength
    rw [List.findIdx?_append, findIdx?_of_notMem hl, Option.none_or]
    cases b.findIdx? (· = 10) with
    | none =>
      show min 511 (l ++ b).length = _
      rw [List.length_append]
      omega
    | some i =>
      show min 511 (i + l.length + 1) = _
      omega
  rw [chunks_of_ne hne, hn, List.take_left, List.drop_left]

/-! ## 切り分けごとの解析 -/

/-- 一度に読んだ byte 列の、行としての読み方。NUL から後ろは読まれない。 -/
def chunkLine (chunk : List UInt8) : ParsedLine := lineOf (strip (strAt (chunk ++ [0]) 0))

/-- file を読み終えた状態。 -/
def parsed (input : List UInt8) (st : ParseState) : ParseState :=
  (chunks input).foldl (fun st c => (chunkLine c).step st) st

/-- 解析は必ず終わり、切り分けた順に読んだ状態になる。 -/
theorem parseLines_eq (input : List UInt8) (st : ParseState) :
    parseLines input st = some (parsed input st) := by
  induction hn : input.length using Nat.strong_induction_on generalizing input st with
  | _ n ih =>
    by_cases hne : input = []
    · subst hne
      rw [parseLines, parsed, chunks_nil]
      rfl
    · have hrest := fgets_rest_lt (by decide) (fgets_eq_some hne)
      have hlen : (input.take (fgetsLength cfgLineMax input) ++ [0]).length ≤ cfgLineMax := by
        have hle : fgetsLength cfgLineMax input ≤ 511 := Nat.min_le_left _ _
        rw [List.length_append, List.length_take, List.length_singleton]
        show min _ _ + 1 ≤ 512
        omega
      rw [parsed, chunks_of_ne hne, List.foldl_cons]
      rw [parseLines]
      split
      · next hnone => exact absurd (hnone.symm.trans (fgets_eq_some hne)) (by simp)
      · next hsome =>
        obtain ⟨rfl, rfl⟩ := Prod.mk.inj (Option.some.inj (hsome.symm.trans (fgets_eq_some hne)))
        rw [parseLine_eq st hlen, Option.bind_some]
        exact ih _ (hn ▸ hrest) _ _ rfl

/-- 解析を始めるときの状態。 -/
def ParseState.start (cfg : Cfg) : ParseState :=
  { cfg, sec := .none, curHandler := none, curLogger := none }

theorem lmkCfgParseFile_eq (input : List UInt8) (cfg : Cfg) :
    lmkCfgParseFile (some input) cfg = some (lmkEOk, (parsed input (.start cfg)).cfg) := by
  unfold lmkCfgParseFile
  dsimp only
  rw [parseLines_eq]
  rfl

theorem parsed_append (hpre : EndsLine pre) (post : List UInt8) (st : ParseState) :
    parsed (pre ++ post) st = parsed post (parsed pre st) := by
  unfold parsed
  rw [chunks_append hpre, List.foldl_append]

theorem parsed_line (hl : 10 ∉ l) (hlen : l.length ≤ 510) (st : ParseState) :
    parsed (l ++ [10]) st = (chunkLine (l ++ [10])).step st := by
  unfold parsed
  rw [chunks_line hl hlen]
  rfl

theorem cursorOk_parsed (input : List UInt8) (cfg : Cfg) :
    (parsed input (.start cfg)).CursorOk := by
  unfold parsed
  refine List.foldlRecOn (chunks input) _ (motive := ParseState.CursorOk) nofun ?_
  intro st h chunk _
  exact cursorOk_step h (chunkLine chunk)

end Logmoko
