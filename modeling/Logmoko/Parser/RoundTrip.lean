import Logmoko.Parser.Blocks

/-!
# 書いた設定は読み戻せる

設定をどのように file に書いても、`lmk_cfg_parse_file` はその設定を返す
（`lmkCfgParseFile_writes`）。file を一行ずつ読むと、書かれた項目を順に読んだ状態になり
（`parseLines_items`）、その設定は section の並びが表すものである（`Describes.apply`）。
-/

namespace Logmoko

open StrBuf

variable {l e text : List UInt8} {lines : List (List UInt8)} {items : List CfgItem}
  {st st' : ParseState} {cfg : Cfg} {ch : CfgHandler} {cl : CfgLogger} {i : Nat}

/-! ## 一行ずつ読む -/

theorem fgets_line (hl : 10 ∉ l) (hlen : l.length ≤ 510) (text : List UInt8) :
    fgets cfgLineMax (l ++ 10 :: text) = some (l ++ [10] ++ [0], text) := by
  have hn : fgetsLength cfgLineMax (l ++ 10 :: text) = (l ++ [10]).length := by
    rw [fgetsLength_newline hl, List.length_append]
    exact Nat.min_eq_right (Nat.succ_le_succ hlen)
  have hsplit : l ++ 10 :: text = l ++ [10] ++ text := by simp
  unfold fgets
  rw [if_neg (by simp), hn, hsplit, List.take_left, List.drop_left]

theorem fgets_last (hl : 10 ∉ l) (hlen : l.length ≤ 510) (hne : l ≠ []) :
    fgets cfgLineMax l = some (l ++ [0], []) := by
  have hn : fgetsLength cfgLineMax l = l.length := by
    rw [fgetsLength_of_notMem hl]
    exact Nat.min_eq_right (Nat.le_succ_of_le hlen)
  unfold fgets
  rw [if_neg hne, hn, List.take_length, List.drop_length]

theorem parseLines_nil (st : ParseState) : parseLines [] st = some st := by
  rw [parseLines]
  rfl

theorem parseLines_of_fgets {input buf rest : List UInt8}
    (h : fgets cfgLineMax input = some (buf, rest)) :
    parseLines input st = (parseLine buf st).bind fun st => parseLines rest st := by
  rw [parseLines]
  split
  · next hnone => exact absurd (hnone.symm.trans h) (by simp)
  · next hsome =>
    obtain ⟨rfl, rfl⟩ := Prod.mk.inj (Option.some.inj (hsome.symm.trans h))
    rfl

/-- 読み飛ばされる行。 -/
theorem parseLine_skipLine {buf : List UInt8} (hl : SkipLine l) (hs : strAt buf 0 = l ++ e)
    (he : ∀ y ∈ e, isSpace y = true) : parseLine buf st = some st := by
  refine parseLine_skip ?_
  rw [hs, strip_append_right he]
  cases hl with
  | blank ha =>
    rw [strip_of_all fun y hy => (ha y hy).1]
    intro y hy
    cases hy
  | @comment a text c hc ha =>
    have hspace : isSpace c = false := by
      rcases hc with rfl | rfl <;> rfl
    have hstrip : strip (a ++ c :: text) = c :: text.rdropWhile isSpace := by
      unfold strip
      rw [dropWhile_append_cons (fun y hy => (ha y hy).1) hspace]
      exact rdropWhile_append_cons (l := []) hspace
    rw [hstrip]
    rintro y ⟨⟩
    exact hc

/-- 先頭の行を読むと、残りの行が残りの項目になる。 -/
theorem parseLine_lines (h : CfgLines items (l :: lines)) (hlen : l.length ≤ 510)
    (hrun : items.foldlM CfgItem.step st = some st') :
    Clean l ∧ ∃ rest u, CfgLines rest lines ∧ rest.foldlM CfgItem.step u = some st' ∧
      ∀ buf e, strAt buf 0 = l ++ e → (∀ y ∈ e, isSpace y = true) → parseLine buf st = some u := by
  cases h with
  | skip hl h =>
    exact ⟨hl.clean, items, st, h, hrun, fun _ _ hs he => parseLine_skipLine hl hs he⟩
  | @item i rest _ _ hl h =>
    rw [List.foldlM_cons] at hrun
    obtain ⟨u, hu, hrun⟩ := Option.bind_eq_some_iff.mp hrun
    refine ⟨hl.clean, rest, u, h, hrun, ?_⟩
    intro buf e hs he
    exact parseLine_item hl hs he (Nat.le_trans hlen (by decide)) hu

/-- 書かれた項目を順に読んだ状態になる。 -/
theorem parseLines_items (htext : CfgText lines text) (hlines : CfgLines items lines)
    (hlen : ∀ l ∈ lines, l.length ≤ 510) (hrun : items.foldlM CfgItem.step st = some st') :
    parseLines text st = some st' := by
  induction htext generalizing items st with
  | nil =>
    cases hlines
    rw [parseLines_nil]
    exact hrun
  | @last l hne =>
    have hl := hlen l List.mem_cons_self
    obtain ⟨hclean, rest, u, hrest, hrun, hline⟩ := parseLine_lines hlines hl hrun
    cases hrest
    have hbuf := hline (l ++ [0]) [] (by
      rw [List.append_nil]
      exact strAt_zero_append hclean.noNul) (fun _ hy => nomatch hy)
    rw [parseLines_of_fgets (fgets_last hclean.noNewline hl hne), hbuf]
    exact (parseLines_nil u).trans hrun
  | @line l lines text _ ih =>
    have hl := hlen l List.mem_cons_self
    obtain ⟨hclean, rest, u, hrest, hrun, hline⟩ := parseLine_lines hlines hl hrun
    have hnul : 0 ∉ l ++ [10] := by
      rw [List.mem_append]
      exact not_or.mpr ⟨hclean.noNul, by decide⟩
    have hbuf := hline (l ++ [10] ++ [0]) [10] (strAt_zero_append hnul) (List.all_eq_true.mp rfl)
    rw [parseLines_of_fgets (fgets_line hclean.noNewline hl text), hbuf]
    exact ih hrest (fun l' hl' => hlen l' (List.mem_cons_of_mem _ hl')) hrun

/-! ## 往復 -/

/--
**書いた設定は読み戻せる。**

section の中の key の順序、語の大文字と小文字、`=` と括弧とコンマの周りの空白、
読み飛ばされる行、最後の改行の有無によらず、file を読むと書いた設定がそのまま得られる。
-/
theorem lmkCfgParseFile_writes (h : Writes cfg text) :
    lmkCfgParseFile (some text) .initial = some (lmkEOk, cfg) := by
  obtain ⟨blocks, lines, hdescribes, hlines, hlen, htext⟩ := h
  obtain ⟨st', hrun, rfl⟩ : ∃ st', (blocks.flatMap CfgBlock.items).foldlM CfgItem.step
      { cfg := .initial, sec := .none, curHandler := none, curLogger := none } = some st' ∧
      st'.cfg = cfg := foldlM_blocks hdescribes.apply
  unfold lmkCfgParseFile
  dsimp only
  rw [parseLines_items htext hlines hlen hrun]
  rfl

/-- `::1` の 80 番に送る listener。 -/
def netListener : CfgListener :=
  { host := ⟨⟨ascii "::1", by decide⟩, by decide⟩, port := 80 }

/-- `net` という名前の、ほかに何も書かれていない handler。 -/
def netHandler : CfgHandler :=
  { CfgHandler.start ⟨⟨ascii "net", by decide⟩, by decide⟩ with
    listeners := [netListener], nr_listeners_le := by decide }

def netCfg : Cfg :=
  { Cfg.initial with handlers := [netHandler], nr_handlers_le := by decide }

theorem writes_netCfg : Writes netCfg (ascii "[Handler:net]\n LISTENER =::1:80") := by
  have hnone : Spaces [] := fun _ hb => nomatch hb
  have hspace : Spaces [32] := by
    intro b hb
    obtain rfl := List.mem_singleton.mp hb
    exact ⟨rfl, by decide⟩
  have hheader : HeaderLine (ascii "handler:") (ascii "net") (ascii "[Handler:net]") :=
    .mk (k := ascii "Handler:") hnone hnone rfl hnone hnone
  have hport : WritesInt (decimalValue (ascii "80")) (ascii "80") :=
    .unsigned (by decide) (List.all_eq_true.mp rfl)
  have hvalue : (HandlerEntry.listener netListener).Value (ascii "::1:80") :=
    ⟨⟨by decide, by decide⟩, ⟨by decide, by decide⟩, _, hport, rfl⟩
  have hentry : EntryLine (ascii "listener") (HandlerEntry.listener netListener).Value
      (ascii " LISTENER =::1:80") :=
    .mk (k := ascii "LISTENER") hspace rfl hspace hnone hvalue hnone
  refine ⟨[.handler netHandler.name [.listener netListener]],
    [ascii "[Handler:net]", ascii " LISTENER =::1:80"], ?_, ?_, by decide, .line (.last (by decide))⟩
  · have hunset : ∀ {α : Type} (v : α), WrittenOnce [] v v := fun _ => Or.inr ⟨rfl, rfl⟩
    refine ⟨hunset 0, hunset 0, .cons ?_ .nil, .nil⟩
    exact ⟨rfl, hunset _, hunset _, hunset _, hunset _, hunset _, hunset _, hunset _, hunset _,
      hunset _, rfl⟩
  · exact .item ⟨⟨⟨by decide, by decide⟩, by decide, by decide⟩, hheader⟩ (.item hentry .nil)

theorem lmkCfgParseFile_writes_netCfg :
    lmkCfgParseFile (some (ascii "[Handler:net]\n LISTENER =::1:80")) .initial
      = some (lmkEOk, netCfg) := lmkCfgParseFile_writes writes_netCfg

end Logmoko
