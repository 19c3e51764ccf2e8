import Logmoko.Parser.Chunks
import Logmoko.Parser.Opening

/-!
# 解析は範囲の外に出ない

どのような byte 列を読んでも、行の buffer にどのような値が残っていても、
`lmk_cfg_parse_file` は配列の外に触れずに終わり、途中のどの時点の構造体も範囲の条件を満たす。
終わりの構造体は、列の上の解析の結果を表す。

* `wp_parseLine` — 一行
* `wp_parseLines` — file
* `lmkCfgParseFile_inBounds` — 範囲
* `lmkCfgParseFile_abs` — 列の上の解析との一致
-/

namespace Logmoko.Raw

open StrBuf Cells Traced

variable {m : Mem} {cur : Cursor} {st' : ParseState}

/-! ## key の行 -/

/-- **key の行は、読んでいる section の中だけに書く。** -/
theorem wp_setKey {key val : Nat} (hm : Inv m) (hfits : cur.Fits m.cfg)
    (hkey : Ends m.line.toList key) (hval : Ends m.line.toList val)
    (hrun : Logmoko.setKey m.line.toList key val (cur.abs m.cfg) = some st') :
    wp Inv (setKey cur key val)
      (fun _ m' => Inv m' ∧ cur.Fits m'.cfg ∧ cur.abs m'.cfg = st') m := by
  obtain ⟨sec, curHandler, curLogger⟩ := cur
  unfold setKey
  unfold Logmoko.setKey Cursor.abs at hrun
  refine wp_bind (wp_lineStr hkey ?_)
  cases sec with
  | none =>
    obtain rfl := Option.some.inj hrun
    exact wp_pure ⟨hm, hfits, rfl⟩
  | global =>
    obtain rfl := Option.some.inj hrun
    refine wp_bind (wp_lineStr hval ?_)
    refine wp_post (wp_setGlobalKey _ _ hm) ?_
    rintro _ m' ⟨-, hm', hnrHandlers, hnrLoggers, habs⟩
    refine ⟨hm', ⟨?_, ?_⟩, ?_⟩
    · rw [hnrHandlers]
      exact hfits.handler
    · rw [hnrLoggers]
      exact hfits.logger
    · unfold Cursor.abs
      rw [habs]
  | handler =>
    cases curHandler with
    | none =>
      obtain rfl := Option.some.inj hrun
      exact wp_pure ⟨hm, hfits, rfl⟩
    | some i =>
      have hused := hfits.handler i rfl
      have hi := Nat.lt_of_lt_of_le hused hm.handlers.count
      dsimp only at hrun
      rw [getElem?_abs_handlers hi hused] at hrun
      obtain rfl := Option.some.inj hrun
      refine wp_post (mapsHandler_setHandlerKey _ hval hi hused hm) ?_
      rintro _ m' ⟨h', rfl, hh', habs⟩
      refine ⟨hm.setHandler hi hused hh', ⟨hfits.handler, hfits.logger⟩, ?_⟩
      unfold Cursor.abs
      rw [abs_setHandler, habs]
  | logger =>
    cases curLogger with
    | none =>
      obtain rfl := Option.some.inj hrun
      exact wp_pure ⟨hm, hfits, rfl⟩
    | some i =>
      have hused := hfits.logger i rfl
      have hi := Nat.lt_of_lt_of_le hused hm.loggers.count
      dsimp only at hrun
      rw [getElem?_abs_loggers hi hused] at hrun
      obtain ⟨cl, hcl, rfl⟩ := Option.map_eq_some_iff.mp hrun
      refine wp_post (wp_setLoggerKey hm hi hused hval hcl) ?_
      rintro _ m' ⟨l', hcfg, hl', rfl⟩
      have hinv : Inv m' := by
        unfold Inv
        rw [hcfg]
        exact hm.setLogger hi hused hl'
      refine ⟨hinv, ?_, ?_⟩
      · rw [hcfg]
        exact ⟨hfits.handler, hfits.logger⟩
      · unfold Cursor.abs
        rw [hcfg, abs_setLogger]

/-! ## 一行 -/

/-- `]` で閉じた見出しの行の残り。 -/
theorem wp_headerLine {p e : Nat} (hm : Inv m) (hp : Ends m.line.toList p)
    (he : StrBuf.strchr m.line.toList p 93 = some e) (cur : Cursor) :
    wp Inv (do
        storeLine e 0
        let secName ← lmkCfgTrim (p + 1)
        openSection secName)
      (fun cur' m' => Inv m' ∧ cur'.Fits m'.cfg ∧ cur'.abs m'.cfg =
        Logmoko.openSection (Logmoko.lmkCfgTrim (m.line.toList.set e 0) (p + 1)).1
          (Logmoko.lmkCfgTrim (m.line.toList.set e 0) (p + 1)).2 (cur.abs m.cfg)) m := by
  obtain ⟨hle, hbound⟩ := strchr_lt he
  have hlt := hp.lt
  rw [Vector.length_toList] at hlt
  refine wp_bind (wp_storeLine hm (by omega) ?_)
  intro line hline
  have hname : Ends line.toList (p + 1) := by
    rw [hline]
    exact (hp.add (by omega)).set e
  rw [← hline]
  refine wp_bind (wp_lmkCfgTrim (m := { m with line }) hm hname ?_)
  intro line' hline'
  have hname' := ends_trim_pointer hname
  dsimp only at hline' ⊢
  rw [← hline'] at hname' ⊢
  exact wp_openSection (m := { m with line := line' }) hm hname' cur

/-- `=` のある行の残り。 -/
theorem wp_keyLine {p eq : Nat} (hm : Inv m) (hfits : cur.Fits m.cfg) (hp : Ends m.line.toList p)
    (heq : StrBuf.strchr m.line.toList p 61 = some eq)
    (hrun : Logmoko.setKey
      (Logmoko.lmkCfgTrim (Logmoko.lmkCfgTrim (m.line.toList.set eq 0) p).1 (eq + 1)).1
      (Logmoko.lmkCfgTrim (m.line.toList.set eq 0) p).2
      (Logmoko.lmkCfgTrim (Logmoko.lmkCfgTrim (m.line.toList.set eq 0) p).1 (eq + 1)).2
      (cur.abs m.cfg) = some st') :
    wp Inv (do
        storeLine eq 0
        let key ← lmkCfgTrim p
        let val ← lmkCfgTrim (eq + 1)
        setKey cur key val
        pure cur)
      (fun cur' m' => Inv m' ∧ cur'.Fits m'.cfg ∧ cur'.abs m'.cfg = st') m := by
  have hbound := (strchr_lt heq).2
  have hlt := hp.lt
  rw [Vector.length_toList] at hlt
  -- `=` を NUL にした後も、key と値の文字列はどちらも buffer の中で終わる
  refine wp_bind (wp_storeLine hm (by omega) ?_)
  intro line hline
  obtain ⟨hkey, hval⟩ := ends_cut hp heq
  rw [← hline] at hkey hval hrun
  refine wp_bind (wp_lmkCfgTrim (m := { m with line }) hm hkey ?_)
  intro line₂ hline₂
  have hkey₂ := ends_trim_pointer hkey
  have hval₂ := ends_trim hval p
  dsimp only at hline₂ ⊢
  rw [← hline₂] at hkey₂ hval₂ hrun
  refine wp_bind (wp_lmkCfgTrim (m := { m with line := line₂ }) hm hval₂ ?_)
  intro line₃ hline₃
  have hkey₃ := ends_trim hkey₂ (eq + 1)
  have hval₃ := ends_trim_pointer hval₂
  dsimp only at hline₃ ⊢
  rw [← hline₃] at hkey₃ hval₃ hrun
  refine wp_bind (wp_post (wp_setKey (m := { m with line := line₃ }) hm hfits hkey₃ hval₃ hrun) ?_)
  intro _ m' h
  exact wp_pure h

/-- **一行の解析は、buffer と構造体の外に触れず、列の上の解析と同じ状態に進む。** -/
theorem wp_parseLine (hm : Inv m) (hfits : cur.Fits m.cfg) (hline : Ends m.line.toList 0)
    (hrun : Logmoko.parseLine m.line.toList (cur.abs m.cfg) = some st') :
    wp Inv (parseLine cur)
      (fun cur' m' => Inv m' ∧ cur'.Fits m'.cfg ∧ cur'.abs m'.cfg = st') m := by
  unfold parseLine
  unfold Logmoko.parseLine at hrun
  dsimp only at hrun
  refine wp_bind (wp_lmkCfgTrim hm hline ?_)
  intro line hline₁
  have hs := ends_trim_pointer hline
  rw [← hline₁] at hs hrun
  generalize (Logmoko.lmkCfgTrim m.line.toList 0).2 = s at hs hrun ⊢
  have hlt := hs.lt
  rw [Vector.length_toList] at hlt
  refine wp_bind (wp_loadLine (m := { m with line }) (by omega) ?_)
  refine wp_ite ?_ ?_
  · intro hskip
    rw [if_pos hskip] at hrun
    obtain rfl := Option.some.inj hrun
    exact wp_pure ⟨hm, hfits, rfl⟩
  · intro hskip
    rw [if_neg hskip] at hrun
    refine wp_ite ?_ ?_
    · intro hopen
      rw [if_pos hopen] at hrun
      refine wp_bind (wp_strchr (m := { m with line }) hs ?_)
      dsimp only
      cases he : StrBuf.strchr line.toList s 93 with
      | none =>
        rw [he] at hrun
        obtain rfl := Option.some.inj hrun
        exact wp_pure ⟨hm, hfits, rfl⟩
      | some e =>
        rw [he] at hrun
        obtain rfl := Option.some.inj hrun
        exact wp_headerLine (m := { m with line }) hm hs he cur
    · intro hopen
      rw [if_neg hopen] at hrun
      refine wp_bind (wp_strchr (m := { m with line }) hs ?_)
      dsimp only
      cases heq : StrBuf.strchr line.toList s 61 with
      | none =>
        rw [heq] at hrun
        obtain rfl := Option.some.inj hrun
        exact wp_pure ⟨hm, hfits, rfl⟩
      | some eq =>
        rw [heq] at hrun
        exact wp_keyLine (m := { m with line }) hm hfits hs heq hrun

/-! ## file -/

/-- buffer に残った前の行は、最初の NUL の後ろにあるので読まれない。 -/
theorem strAt_stale (l r : List UInt8) : strAt (l ++ [0] ++ r) 0 = strAt (l ++ [0]) 0 := by
  show (l ++ [0] ++ r).takeWhile _ = (l ++ [0]).takeWhile _
  rw [List.takeWhile_append]
  split
  · next hall =>
    have hself := (List.takeWhile_prefix (l := l ++ [0]) _).eq_of_length hall
    have hmem : 0 ∈ l ++ [0] := List.mem_append_right l List.mem_cons_self
    rw [← hself] at hmem
    exact absurd hmem (zero_notMem_strAt (l ++ [0]) 0)
  · rfl

/-- `fgets` は、読んだ byte 列と NUL を buffer の中に書く。 -/
theorem wp_fgets {chunk : List UInt8} {Q : Unit → Mem → Prop} (hm : Inv m)
    (hlen : chunk.length < cfgLineMax)
    (hQ : ∀ line : Vector UInt8 cfgLineMax, Ends line.toList 0 →
      strAt line.toList 0 = strAt (chunk ++ [0]) 0 → Q () { m with line }) :
    wp Inv (fgets chunk) Q m := by
  have hfits : (chunk ++ [0]).length ≤ cfgLineMax := by
    rw [List.length_append]
    exact hlen
  obtain ⟨line, hline, hlist⟩ := writeFront_eq_some hfits m.line
  have hends : Ends line.toList 0 := by
    unfold Ends
    rw [hlist]
    exact List.mem_append_left _ (List.mem_append_right chunk List.mem_cons_self)
  have hstr : strAt line.toList 0 = strAt (chunk ++ [0]) 0 := by
    rw [hlist]
    exact strAt_stale chunk _
  refine wp_write (t := { m with line }) ?_ hm (hQ line hends hstr)
  rw [hline]
  rfl

theorem length_chunk_lt (input : List UInt8) :
    (input.take (fgetsLength cfgLineMax input)).length < cfgLineMax := by
  have hle : fgetsLength cfgLineMax input ≤ 511 := Nat.min_le_left _ _
  rw [List.length_take]
  exact Nat.lt_of_le_of_lt (Nat.min_le_left _ _) (Nat.lt_succ_of_le hle)

/-- **file のすべての行。** -/
theorem wp_parseLines (input : List UInt8) (hm : Inv m) (hfits : cur.Fits m.cfg) :
    wp Inv (parseLines input cur)
      (fun _ m' => Inv m' ∧ m'.cfg.abs = (parsed input (cur.abs m.cfg)).cfg) m := by
  induction hn : input.length using Nat.strong_induction_on generalizing input cur m with
  | _ n ih =>
    by_cases hne : input = []
    · subst hne
      rw [parseLines, parsed, chunks_nil]
      exact wp_pure ⟨hm, rfl⟩
    · have hrest := fgets_rest_lt (by decide) (fgets_eq_some hne)
      rw [parseLines, dif_neg hne, parsed, chunks_of_ne hne, List.foldl_cons]
      refine wp_bind (wp_fgets hm (length_chunk_lt input) ?_)
      intro line hends hstr
      have hlen : line.toList.length ≤ cfgLineMax := Vector.length_toList.le
      have hrun := parseLine_eq (cur.abs m.cfg) hlen
      rw [hstr] at hrun
      refine wp_bind (wp_post (wp_parseLine (m := { m with line }) hm hfits hends hrun) ?_)
      rintro cur' m' ⟨hm', hfits', habs⟩
      refine wp_post (ih _ (hn ▸ hrest) _ hm' hfits' rfl) ?_
      rintro _ m'' ⟨hm'', habs'⟩
      refine ⟨hm'', habs'.trans ?_⟩
      rw [habs]
      rfl

/-- 0 で埋めた構造体から始める。行の buffer には何が入っていてもよい。 -/
def Mem.start (line : Vector UInt8 cfgLineMax) : Mem := { line, cfg := .zero }

theorem wp_lmkCfgParseFile (file : Option (List UInt8)) (line : Vector UInt8 cfgLineMax) :
    wp Inv (lmkCfgParseFile file)
      (fun r m' => Inv m' ∧ Logmoko.lmkCfgParseFile file .initial = some (r, m'.cfg.abs))
      (.start line) := by
  have hm : Inv (.start line) := Cfg.ok_zero
  cases file with
  | none => exact wp_pure ⟨hm, rfl⟩
  | some input =>
    refine wp_bind (wp_post (wp_parseLines input hm (Cursor.Fits.none .none _)) ?_)
    rintro _ m' ⟨hm', habs⟩
    refine wp_pure ⟨hm', ?_⟩
    rw [lmkCfgParseFile_eq, habs]
    rfl

/-- 終わりの構造体は、列の上の解析の結果を表す。 -/
theorem lmkCfgParseFile_abs (file : Option (List UInt8)) (line : Vector UInt8 cfgLineMax) :
    ∃ r m trace, lmkCfgParseFile file (.start line) = some (r, m, trace) ∧
      Logmoko.lmkCfgParseFile file .initial = some (r, m.cfg.abs) := by
  obtain ⟨r, m, trace, hrun, -, -, habs⟩ := wp_lmkCfgParseFile file line
  exact ⟨r, m, trace, hrun, habs⟩

/--
**どのような file でも、解析は配列の外に触れずに終わり、始めから終わりまでのどの時点でも
構造体は範囲の条件を満たす。**
-/
theorem lmkCfgParseFile_inBounds (file : Option (List UInt8)) (line : Vector UInt8 cfgLineMax) :
    ∃ r m trace, lmkCfgParseFile file (.start line) = some (r, m, trace) ∧
      ∀ m' ∈ Mem.start line :: trace ++ [m], m'.cfg.InBounds := by
  obtain ⟨r, m, trace, hrun, htrace, hm, -⟩ := wp_lmkCfgParseFile file line
  refine ⟨r, m, trace, hrun, ?_⟩
  intro m' hm'
  rcases List.mem_append.mp hm' with hm' | hm'
  · rcases List.mem_cons.mp hm' with rfl | hm'
    · exact Cfg.ok_zero.inBounds
    · exact Cfg.Ok.inBounds (htrace m' hm')
  · obtain rfl := List.mem_singleton.mp hm'
    exact Cfg.Ok.inBounds hm

end Logmoko.Raw
