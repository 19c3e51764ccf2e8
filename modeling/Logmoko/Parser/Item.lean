import Logmoko.Parser.Line
import Logmoko.Parser.Spelling

/-!
# 項目の意味

項目一つが設定をどう変えるかを、buffer を使わずに `CfgItem.step` で定める。
`ItemLine` のとおりに書いた行は、どのように書いても解析の結果が `CfgItem.step` に等しい
（`parseLine_item`）。

値の中の `=`、`#`、`;`、`:` は区切りと紛れない。key は `=` を含まないので最初の `=` で切れ、
host の後ろの port は `:` を含まないので最後の `:` で切れる。
-/

namespace Logmoko

open StrBuf

/-! ## 項目一つ -/

def GlobalEntry.apply (cfg : Cfg) : GlobalEntry → Cfg
  | .logBufferSize n => { cfg with logBufferSize := n }
  | .ringBufferSize n => { cfg with ringBufferSize := n }

def HandlerEntry.apply (ch : CfgHandler) : HandlerEntry → CfgHandler
  | .type t => { ch with type := some t }
  | .level l => { ch with level := l.level }
  | .filename s => { ch with filename := s }
  | .ident s => { ch with ident := s }
  | .facility s => { ch with facility := s }
  | .format s => { ch with format := s }
  | .maxFileSize n => { ch with maxFileSize := n }
  | .maxBackupFiles n => { ch with maxBackupFiles := n }
  | .psk s => { ch with psk := s }
  | .listener l => ch.addListener l

def LoggerEntry.apply (cl : CfgLogger) : LoggerEntry → CfgLogger
  | .level l => { cl with level := l.level }
  | .handlers names => names.foldl CfgLogger.addHandlerName cl

/-- 項目一つを読んだ後の状態。項目の属する section が始まっていなければ `none` である。 -/
def CfgItem.step (st : ParseState) : CfgItem → Option ParseState
  | .globalSection => some { st with sec := .global, curHandler := none, curLogger := none }
  | .handlerSection name =>
    if h : st.cfg.handlers.length < 32 then
      some { cfg := st.cfg.addHandler (.start name) h, sec := .handler
             curHandler := some st.cfg.handlers.length, curLogger := none }
    else none
  | .loggerSection name =>
    if h : st.cfg.loggers.length < 64 then
      some { cfg := st.cfg.addLogger (.start name) h, sec := .logger
             curHandler := none, curLogger := some st.cfg.loggers.length }
    else none
  | .global e => if st.sec = .global then some { st with cfg := e.apply st.cfg } else none
  | .handler e =>
    if st.sec = .handler then
      st.curHandler.bind fun i => st.cfg.handlers[i]?.map fun ch =>
        { st with cfg := st.cfg.setHandler i (e.apply ch) }
    else none
  | .logger e =>
    if st.sec = .logger then
      st.curLogger.bind fun i => st.cfg.loggers[i]?.map fun cl =>
        { st with cfg := st.cfg.setLogger i (e.apply cl) }
    else none

variable {buf k v : List UInt8} {p : Nat} {st st' : ParseState} {ch : CfgHandler} {cl : CfgLogger}
  {key val : CStr} {n : Int}

/-! ## 値 -/

theorem CharArray.strncpy_str {m : Nat} (h : 0 < m) (s : CharArray m) :
    CharArray.strncpy h s.str = s := by
  obtain ⟨str, fits⟩ := s
  exact (CharArray.mk.injEq ..).mpr (CStr.take_of_length_le (Nat.le_sub_one_of_lt fits))

theorem CStr.eq_of_bytes {s t : CStr} (h : s.bytes = t.bytes) : s = t := by
  obtain ⟨bytes, noNul⟩ := s
  exact (CStr.mk.injEq ..).mpr h

/-- 配列に収まる文字列は、そのまま写される。 -/
theorem strncpy_of_bytes {m : Nat} (h : 0 < m) {s : CharArray m} (hv : val.bytes = s.str.bytes) :
    CharArray.strncpy h val = s := by
  rw [CStr.eq_of_bytes hv, CharArray.strncpy_str]

theorem takeWhile_isDigit {ds : List UInt8} (h : ∀ d ∈ ds, isDigit d = true) :
    ds.takeWhile isDigit = ds := List.takeWhile_eq_self_iff.mpr h

theorem isDigit_bounds {x : UInt8} (h : isDigit x = true) : 48 ≤ x.toNat ∧ x.toNat ≤ 57 := by
  simpa [isDigit, UInt8.le_iff_toNat_le] using h

theorem isSpace_of_isDigit {x : UInt8} (h : isDigit x = true) : isSpace x = false := by
  have hbounds := isDigit_bounds h
  simp only [isSpace, decide_eq_false_iff_not, UInt8.le_iff_toNat_le, ← UInt8.toNat_inj]
  simp only [UInt8.reduceToNat]
  omega

/-- 整数は、書き方によらずその値として読まれる。 -/
theorem strtol_of_writesInt (h : WritesInt n v) (hfit : FitsLong n) : strtol v = n := by
  obtain ⟨hlo, hhi⟩ := hfit
  unfold strtol
  cases h with
  | unsigned hne hds =>
    cases v with
    | nil => exact absurd rfl hne
    | cons x l =>
      have hbounds := isDigit_bounds (hds x List.mem_cons_self)
      rw [List.dropWhile_cons_of_neg (by simp [isSpace_of_isDigit (hds x List.mem_cons_self)])]
      split
      · next heq =>
        obtain ⟨rfl, -⟩ := List.cons.inj heq
        exact absurd hbounds.1 (by decide)
      · next heq =>
        obtain ⟨rfl, -⟩ := List.cons.inj heq
        exact absurd hbounds.1 (by decide)
      · rw [takeWhile_isDigit hds, saturate_of_mem hlo hhi]
  | @plus ds hne hds =>
    have hsign : (43 :: ds).dropWhile isSpace = 43 :: ds :=
      List.dropWhile_cons_of_neg (by decide)
    rw [hsign]
    show saturate (decimalValue (ds.takeWhile isDigit)) = _
    rw [takeWhile_isDigit hds, saturate_of_mem hlo hhi]
  | @minus ds hne hds =>
    have hsign : (45 :: ds).dropWhile isSpace = 45 :: ds :=
      List.dropWhile_cons_of_neg (by decide)
    rw [hsign]
    show saturate (-(decimalValue (ds.takeWhile isDigit) : Int)) = _
    rw [takeWhile_isDigit hds, saturate_of_mem hlo hhi]

theorem atoi_of_writesInt (h : WritesInt n val.bytes) (hfit : FitsInt n) : atoi val = n := by
  obtain ⟨hlo, hhi⟩ := hfit
  unfold atoi
  rw [strtol_of_writesInt h ⟨by omega, by omega⟩]
  exact Int.bmod_eq_of_le (by omega) (by omega)

/-! ## 綴り -/

theorem strcasecmp_of_spells {word w : List UInt8} (h : Spells word key.bytes) :
    key.strcasecmp w = (word == w.map toLower) := by
  unfold CStr.strcasecmp
  rw [h]

theorem lmkCfgParseLevel_word {l : LevelWord} (h : Spells l.word val.bytes) :
    lmkCfgParseLevel val = l.level := by
  unfold lmkCfgParseLevel
  simp only [strcasecmp_of_spells h]
  cases l <;> rfl

theorem parseHandlerType_word {t : HandlerType} (h : Spells t.word val.bytes)
    (old : Option HandlerType) : parseHandlerType old val = some t := by
  unfold parseHandlerType
  simp only [strcasecmp_of_spells h]
  cases t <;> rfl

theorem setGlobalKey_apply {e : GlobalEntry} (cfg : Cfg) (hk : Spells e.key key.bytes)
    (hv : e.Value val.bytes) : setGlobalKey cfg key val = e.apply cfg := by
  unfold setGlobalKey
  simp only [strcasecmp_of_spells hk]
  cases e with
  | logBufferSize n =>
    exact congrArg (fun n => { cfg with logBufferSize := n }) (atoi_of_writesInt hv.1 hv.2)
  | ringBufferSize n =>
    exact congrArg (fun n => { cfg with ringBufferSize := n }) (atoi_of_writesInt hv.1 hv.2)

/-- 書いたとおりの listener が足される。 -/
theorem parseListener_written {l : CfgListener} (hv : (HandlerEntry.listener l).Value val.bytes) :
    parseListener ch val = ch.addListener l := by
  obtain ⟨-, hfit, port, hport, hbytes⟩ := hv
  have hcolon : 58 ∉ port := by
    intro hm
    exact absurd (hport.chars 58 hm) (by decide)
  have hhost : (val.take l.host.str.bytes.length).bytes = l.host.str.bytes := by
    show val.bytes.take _ = _
    rw [hbytes, List.take_left]
  have hrest : (val.drop (l.host.str.bytes.length + 1)).bytes = port := by
    show val.bytes.drop _ = _
    rw [hbytes, ← List.drop_drop, List.drop_left]
    rfl
  unfold parseListener
  rw [hbytes, strrchr_append hcolon]
  dsimp only
  rw [strncpy_of_bytes _ hhost, atoi_of_writesInt (hrest ▸ hport) hfit]

theorem setHandlerKey_apply {e : HandlerEntry} (hk : Spells e.key key.bytes)
    (hv : e.Value val.bytes) : setHandlerKey ch key val = e.apply ch := by
  unfold setHandlerKey
  simp only [strcasecmp_of_spells hk]
  cases e with
  | type t => exact congrArg (fun t => { ch with type := t }) (parseHandlerType_word hv ch.type)
  | level l => exact congrArg (fun n => { ch with level := n }) (lmkCfgParseLevel_word hv)
  | filename s => exact congrArg (fun s => { ch with filename := s }) (strncpy_of_bytes _ hv.2)
  | ident s => exact congrArg (fun s => { ch with ident := s }) (strncpy_of_bytes _ hv.2)
  | facility s => exact congrArg (fun s => { ch with facility := s }) (strncpy_of_bytes _ hv.2)
  | format s => exact congrArg (fun s => { ch with format := s }) (strncpy_of_bytes _ hv.2)
  | maxFileSize n =>
    exact congrArg (fun n => { ch with maxFileSize := n }) (strtol_of_writesInt hv.1 hv.2)
  | maxBackupFiles n =>
    exact congrArg (fun n => { ch with maxBackupFiles := n }) (atoi_of_writesInt hv.1 hv.2)
  | psk s => exact congrArg (fun s => { ch with psk := s }) (strncpy_of_bytes _ hv.2)
  | listener l => exact parseListener_written hv

/-! ## 名前の並び -/

variable {a b : List UInt8} {name : CharArray 64} {names : List (CharArray 64)} {fuel save : Nat}

theorem addHandlerName_of_full (h : ¬ cl.handlerNames.length < 16) :
    cl.addHandlerName name = cl :=
  CfgLogger.ext rfl rfl (if_neg h)

theorem foldl_addHandlerName_of_full (h : ¬ cl.handlerNames.length < 16)
    (names : List (CharArray 64)) : names.foldl CfgLogger.addHandlerName cl = cl := by
  induction names with
  | nil => rfl
  | cons name names ih => rw [List.foldl_cons, addHandlerName_of_full h, ih]

/-- 場所が残っていれば、部分文字列の名前を足して次へ進む。 -/
theorem addHandlerNames_push (hs : strAt buf p = b ++ name.str.bytes ++ a)
    (hb : ∀ y ∈ b, isSpace y = true) (ha : ∀ y ∈ a, isSpace y = true) (hn : ListedName name)
    (hcap : cl.handlerNames.length < 16) :
    addHandlerNames (fuel + 1) buf (some p) save cl
      = addHandlerNames fuel (strtokR (lmkCfgTrim buf p).1 save 44).1
          (strtokR (lmkCfgTrim buf p).1 save 44).2.1 (strtokR (lmkCfgTrim buf p).1 save 44).2.2
          (cl.addHandlerName name) := by
  obtain ⟨htrim, -⟩ := lmkCfgTrim_spec buf p
  rw [hs, strip_append hb ha, hn.writable.stripped] at htrim
  have hchar : charAt (lmkCfgTrim buf p).1 (lmkCfgTrim buf p).2 ≠ 0 :=
    charAt_ne_zero (r := []) (htrim.trans (List.append_nil _).symm) hn.nonempty
  rw [addHandlerNames, if_pos hcap]
  dsimp only
  rw [if_neg hchar, strncpy_of_bytes _ htrim]

theorem notMem_of_spaces {x : UInt8} (hx : isSpace x = false) (ha : Spaces a) : x ∉ a :=
  notMem_of_space hx fun y hy => (ha y hy).1

/-- コンマで区切って並べた名前は、場所のある限り書いた順に足される。 -/
theorem addHandlerNames_spec (h : WritesNames names v) (hb : ∀ y ∈ b, isSpace y = true)
    (hs : strAt buf p = b ++ v) (hnil : names = [] → b = []) (hfuel : names.length < fuel) :
    addHandlerNames fuel (strtokR buf p 44).1 (strtokR buf p 44).2.1 (strtokR buf p 44).2.2 cl
      = some (names.foldl CfgLogger.addHandlerName cl) := by
  induction h generalizing buf p b cl fuel with
  | nil =>
    rw [hnil rfl] at hs
    rw [strtokR_nil hs]
    cases fuel with
    | zero => exact absurd hfuel (Nat.lt_irrefl _)
    | succ fuel => rfl
  | @single n hn =>
    have hcomma : 44 ∉ strAt buf p := by
      rw [hs, List.mem_append]
      exact not_or.mpr ⟨notMem_of_space (by decide) hb, hn.noComma⟩
    have hne : strAt buf p ≠ [] := by
      rw [hs]
      exact fun he => hn.nonempty (List.append_eq_nil_iff.mp he).2
    rw [strtokR_last hcomma hne]
    obtain ⟨fuel, rfl⟩ : ∃ k, fuel = k + 2 := ⟨fuel - 2, by simp at hfuel; omega⟩
    by_cases hcap : cl.handlerNames.length < 16
    · have hrest : strAt (lmkCfgTrim buf p).1 (p + (strAt buf p).length) = [] := by
        obtain ⟨-, -, hafter, -⟩ := lmkCfgTrim_spec buf p
        rw [hafter _ (Nat.le_refl _), strAt_add (Nat.le_refl _), List.drop_length]
      dsimp only
      rw [addHandlerNames_push (a := []) (by rw [hs, List.append_nil]) hb
        (fun _ hy => absurd hy List.not_mem_nil) hn hcap, strtokR_nil hrest]
      rfl
    · rw [foldl_addHandlerName_of_full hcap, addHandlerNames, if_neg hcap]
  | @cons n m ns a b' v hn ha hb' _ ih =>
    have hsplit : strAt buf p = (b ++ n.str.bytes ++ a) ++ 44 :: (b' ++ v) := by
      rw [hs]
      simp
    have hcomma : 44 ∉ b ++ n.str.bytes ++ a := by
      simp only [List.mem_append, not_or]
      exact ⟨⟨notMem_of_space (by decide) hb, hn.noComma⟩, notMem_of_spaces (by decide) ha⟩
    have hne : b ++ n.str.bytes ++ a ≠ [] := by
      simp [hn.nonempty]
    rw [strtokR_cons hsplit hcomma hne]
    obtain ⟨fuel, rfl⟩ : ∃ k, fuel = k + 1 := ⟨fuel - 1, by simp at hfuel; omega⟩
    by_cases hcap : cl.handlerNames.length < 16
    · obtain ⟨hleft, hright⟩ := strAt_split hsplit
      obtain ⟨-, -, hafter, -⟩ := lmkCfgTrim_spec
        (buf.set (p + (b ++ n.str.bytes ++ a).length) 0) p
      have hnext := hafter (p + (b ++ n.str.bytes ++ a).length + 1) (by rw [hleft]; omega)
      rw [hright] at hnext
      dsimp only
      rw [addHandlerNames_push hleft hb (fun y hy => (ha y hy).1) hn hcap]
      exact ih (fun y hy => (hb' y hy).1) hnext (fun he => absurd he (List.cons_ne_nil _ _))
        (by simp only [List.length_cons] at hfuel ⊢; omega)
    · rw [foldl_addHandlerName_of_full hcap, addHandlerNames, if_neg hcap]

theorem writesNames_length_le (h : WritesNames names v) : names.length ≤ v.length := by
  induction h with
  | nil => exact Nat.le_refl _
  | single hn => exact List.length_pos_iff.mpr hn.nonempty
  | cons _ _ _ _ ih =>
    simp only [List.length_cons, List.length_append] at ih ⊢
    omega

theorem setLoggerKey_apply {e : LoggerEntry} (hk : Spells e.key key.bytes)
    (hv : e.Value (strAt buf p)) (hfits : (strAt buf p).length ≤ cfgLineMax) :
    setLoggerKey buf cl key p = some (e.apply cl) := by
  unfold setLoggerKey
  simp only [strcasecmp_of_spells hk]
  cases e with
  | level l =>
    have hlevel : lmkCfgParseLevel (cstrAt buf p) = l.level := lmkCfgParseLevel_word hv
    exact congrArg (fun n => some { cl with level := n }) hlevel
  | handlers names =>
    have hnames : names.length < cfgLineMax + 1 :=
      Nat.lt_succ_of_le (Nat.le_trans (writesNames_length_le hv) hfits)
    exact addHandlerNames_spec (b := []) hv (fun _ hy => nomatch hy) rfl (fun _ => rfl) hnames

/-! ## 行 -/

/-- 見出しの行から取り出される文字列。 -/
theorem parseLine_headerLine (st : ParseState) {kind name l e : List UInt8} (hw : Word kind)
    (hn : Stripped name) (hbracket : 93 ∉ name) (hl : HeaderLine kind name l)
    (hs : strAt buf 0 = l ++ e) :
    ∃ k buf' p, Spells kind k ∧ strAt buf' p = k ++ name ∧
      parseLine buf st = some (openSection buf' p st) := by
  obtain @⟨a, b, k, c, d, ha, hb, hk, hc, hd⟩ := hl
  have hword := hw.of_spells hk
  have hstripped : Stripped (k ++ name) := by
    cases name with
    | nil => simpa using hword.stripped
    | cons x name => exact stripped_append_cons hword.stripped hn
  have hnone : 93 ∉ k ++ name := by
    rw [List.mem_append]
    exact not_or.mpr ⟨hword.notMem (by decide), hbracket⟩
  rw [List.append_assoc] at hs
  obtain ⟨buf', p, hline, hp⟩ := parseLine_header st hs (fun y hy => (ha y hy).1)
    (fun y hy => (hb y hy).1) (fun y hy => (hc y hy).1) hstripped hnone
  exact ⟨k, buf', p, hk, hp, hline⟩

/-- `key = value` の行から取り出される二つの文字列。 -/
theorem parseLine_entryLine (st : ParseState) {word l e : List UInt8}
    {Value : List UInt8 → Prop} (hw : Word word) (hclean : ∀ {v}, Value v → CleanValue v)
    (hl : EntryLine word Value l) (hs : strAt buf 0 = l ++ e) (he : ∀ y ∈ e, isSpace y = true) :
    ∃ buf' p q, parseLine buf st = setKey buf' p q st ∧ Spells word (strAt buf' p) ∧
      Value (strAt buf' q) ∧ (strAt buf' q).length ≤ l.length := by
  obtain @⟨a, k, b, c, v, d, ha, hk, hb, hc, hv, hd⟩ := hl
  have hword := hw.of_spells hk
  obtain ⟨x, k, rfl⟩ := List.exists_cons_of_ne_nil hword.nonempty
  have hchar := isWordChar_bounds (hword.chars x List.mem_cons_self)
  have hmark : x ≠ 35 ∧ x ≠ 59 ∧ x ≠ 91 := by
    simp only [ne_eq, ← UInt8.toNat_inj, UInt8.reduceToNat]
    omega
  have htail : ∀ y ∈ d ++ e, isSpace y = true := by
    intro y hy
    rcases List.mem_append.mp hy with hy | hy
    · exact (hd y hy).1
    · exact he y hy
  have hs' : strAt buf 0 = a ++ x :: (k ++ b) ++ 61 :: (c ++ v ++ (d ++ e)) := by
    rw [hs]
    simp
  obtain ⟨buf', p, q, hline, hp, hq⟩ := parseLine_entry st hs' (fun y hy => (ha y hy).1)
    (fun y hy => (hb y hy).1) (fun y hy => (hc y hy).1) htail hmark hword.stripped
    (hword.notMem (by decide)) (hclean hv).stripped
  refine ⟨buf', p, q, hline, hp ▸ hk, hq ▸ hv, ?_⟩
  rw [hq]
  simp only [List.length_append, List.length_cons]
  omega

/-- 項目の行は、その項目の意味のとおりに状態を変える。`e` は改行か空である。 -/
theorem parseLine_item {i : CfgItem} {l e : List UInt8} (hl : ItemLine i l)
    (hs : strAt buf 0 = l ++ e) (he : ∀ y ∈ e, isSpace y = true)
    (hfits : l.length ≤ cfgLineMax) (hstep : i.step st = some st') :
    parseLine buf st = some st' := by
  cases i with
  | globalSection =>
    obtain ⟨k, buf', p, hk, hp, hline⟩ :=
      parseLine_headerLine st word_global (show Stripped [] from rfl) List.not_mem_nil hl hs
    rw [List.append_nil] at hp
    rw [hline, openSection_global (hp ▸ hk)]
    exact hstep
  | handlerSection name =>
    obtain ⟨hname, hl⟩ := hl
    obtain ⟨k, buf', p, hk, hp, hline⟩ := parseLine_headerLine st word_handler
      hname.writable.stripped hname.noBracket hl hs
    simp only [CfgItem.step, Option.dite_none_right_eq_some] at hstep
    obtain ⟨hcap, hst⟩ := hstep
    rw [hline, openSection_handler hp hk hname.writable.stripped, ← hst]
    unfold openHandler
    rw [dif_pos ⟨hname.nonempty, hcap⟩, CharArray.strncpy_str]
  | loggerSection name =>
    obtain ⟨hname, hl⟩ := hl
    obtain ⟨k, buf', p, hk, hp, hline⟩ := parseLine_headerLine st word_logger
      hname.writable.stripped hname.noBracket hl hs
    simp only [CfgItem.step, Option.dite_none_right_eq_some] at hstep
    obtain ⟨hcap, hst⟩ := hstep
    rw [hline, openSection_logger hp hk hname.writable.stripped, ← hst]
    unfold openLogger
    rw [dif_pos ⟨hname.nonempty, hcap⟩, CharArray.strncpy_str]
  | global entry =>
    obtain ⟨buf', p, q, hline, hk, hv, -⟩ :=
      parseLine_entryLine st entry.word_key (fun h => h.clean) hl hs he
    obtain ⟨hsec, hst⟩ := Option.ite_none_right_eq_some.mp hstep
    rw [hline, ← hst]
    unfold setKey
    rw [hsec]
    dsimp only
    rw [setGlobalKey_apply st.cfg hk hv]
  | handler entry =>
    obtain ⟨buf', p, q, hline, hk, hv, -⟩ :=
      parseLine_entryLine st entry.word_key (fun h => h.clean) hl hs he
    obtain ⟨hsec, hstep⟩ := Option.ite_none_right_eq_some.mp hstep
    obtain ⟨i, hi, hstep⟩ := Option.bind_eq_some_iff.mp hstep
    obtain ⟨ch, hch, hst⟩ := Option.map_eq_some_iff.mp hstep
    rw [hline, ← hst]
    unfold setKey
    rw [hsec, hi]
    dsimp only
    have hset : setHandlerKey ch (cstrAt buf' p) (cstrAt buf' q) = entry.apply ch :=
      setHandlerKey_apply hk hv
    rw [hch]
    dsimp only
    rw [hset]
  | logger entry =>
    obtain ⟨buf', p, q, hline, hk, hv, hlen⟩ :=
      parseLine_entryLine st entry.word_key (fun h => h.clean) hl hs he
    obtain ⟨hsec, hstep⟩ := Option.ite_none_right_eq_some.mp hstep
    obtain ⟨i, hi, hstep⟩ := Option.bind_eq_some_iff.mp hstep
    obtain ⟨cl, hcl, hst⟩ := Option.map_eq_some_iff.mp hstep
    rw [hline, ← hst]
    unfold setKey
    rw [hsec, hi]
    dsimp only
    rw [hcl]
    dsimp only
    rw [setLoggerKey_apply hk hv (Nat.le_trans hlen hfits)]
    rfl

end Logmoko
