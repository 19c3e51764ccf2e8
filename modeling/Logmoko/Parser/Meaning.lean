import Logmoko.Parser.Item

/-!
# 一行の意味

どのような byte 列の行についても、読んだ結果を buffer を使わずに定める。
`lineOf` は行を、読み飛ばす行、見出し、`key = value` のどれかとして読み、
`ParsedLine.step` はそれが解析の状態をどう変えるかを言う。
書き方の正しい行だけを扱う `CfgItem.step` と違い、知らない key も壊れた見出しも含む。

* `addHandlerNames_eq` — コンマで区切った名前の並び。書き方を問わない
* `parseLine_eq` — 一行の解析は `lineOf` と `ParsedLine.step` の合成である
-/

namespace Logmoko

open StrBuf

variable {buf : List UInt8} {p : Nat} {st : ParseState} {cl : CfgLogger}

/-! ## 行の読み方 -/

/-- 一行の中身。 -/
inductive ParsedLine where
  | skip
  | header (name : List UInt8)
  | entry (key val : List UInt8)
deriving DecidableEq

/-- 前後の空白を除いた行の読み方。閉じない見出しと `=` の無い行は読み飛ばされる。 -/
def lineOf : List UInt8 → ParsedLine
  | [] => .skip
  | c :: s =>
    if c = 35 ∨ c = 59 then .skip
    else if c = 91 then
      if 93 ∈ s then .header (strip (s.takeWhile (· ≠ 93))) else .skip
    else if 61 ∈ c :: s then
      .entry (strip ((c :: s).takeWhile (· ≠ 61))) (strip ((c :: s).dropWhile (· ≠ 61)).tail)
    else .skip

/-- 列を C の文字列として読む。 -/
def cstr (l : List UInt8) : CStr := cstrAt l 0

theorem cstr_bytes {l : List UInt8} (h : 0 ∉ l) : (cstr l).bytes = l := by
  have hread := takeWhile_append_of_nil (r := []) h rfl
  rwa [List.append_nil] at hread

theorem cstrAt_eq_cstr {l : List UInt8} (h : strAt buf p = l) : cstrAt buf p = cstr l := by
  refine cstrAt_eq ?_
  rw [h, cstr_bytes (h ▸ zero_notMem_strAt buf p)]

/-! ## 名前の並び -/

/-- コンマで区切られた、空でない名前。 -/
def listedNames (val : List UInt8) : List (List UInt8) :=
  ((val.splitOn 44).map strip).filter fun n => n ≠ []

/-- 名前を順に足す。 -/
def CfgLogger.addNames (cl : CfgLogger) (names : List (List UInt8)) : CfgLogger :=
  names.foldl (fun cl n => cl.addHandlerName (.strncpy pos_64 (cstr n))) cl

theorem listedNames_append (l r : List UInt8) :
    listedNames (l ++ 44 :: r) = listedNames l ++ listedNames r := by
  unfold listedNames List.splitOn
  rw [List.splitOnP_append_cons l r (by decide), List.map_append, List.filter_append]

theorem listedNames_of_notMem {l : List UInt8} (h : 44 ∉ l) :
    listedNames l = if strip l = [] then [] else [strip l] := by
  have hsplit : l.splitOn 44 = [l] := by
    refine List.splitOnP_eq_singleton ?_
    intro x hx
    exact beq_eq_false_iff_ne.mpr fun he => h (he ▸ hx)
  unfold listedNames
  rw [hsplit]
  by_cases hs : strip l = []
  · simp [hs]
  · simp [hs]

theorem addNames_of_full (h : ¬ cl.handlerNames.length < 16) (names : List (List UInt8)) :
    cl.addNames names = cl := by
  induction names with
  | nil => rfl
  | cons n names ih =>
    unfold CfgLogger.addNames at ih ⊢
    rw [List.foldl_cons, addHandlerName_of_full h, ih]

theorem addNames_append (cl : CfgLogger) (names names' : List (List UInt8)) :
    cl.addNames (names ++ names') = (cl.addNames names).addNames names' := List.foldl_append

/-- 先頭の区切りは読み飛ばされる。 -/
theorem strtokR_separator {c : UInt8} {l : List UInt8} (h : strAt buf p = c :: l) :
    strtokR buf p c = strtokR buf (p + 1) c := by
  have hnext : strAt buf (p + 1) = l := by
    rw [strAt_add (by simp [h]), h]
    rfl
  have hspan : p + ((c :: l).takeWhile (· = c)).length = p + 1 + (l.takeWhile (· = c)).length := by
    rw [List.takeWhile_cons_of_pos (by simp), List.length_cons]
    omega
  unfold strtokR
  rw [h, hnext, hspan]

/-- 部分文字列から空白を除いたものが、空でなければ足される。 -/
theorem addHandlerNames_token {fuel save : Nat} {t : List UInt8} (hs : strAt buf p = t)
    (hcap : cl.handlerNames.length < 16) :
    addHandlerNames (fuel + 1) buf (some p) save cl
      = addHandlerNames fuel (strtokR (lmkCfgTrim buf p).1 save 44).1
          (strtokR (lmkCfgTrim buf p).1 save 44).2.1 (strtokR (lmkCfgTrim buf p).1 save 44).2.2
          (cl.addNames (if strip t = [] then [] else [strip t])) := by
  obtain ⟨htrim, -⟩ := lmkCfgTrim_spec buf p
  rw [hs] at htrim
  have hadd : (if charAt (lmkCfgTrim buf p).1 (lmkCfgTrim buf p).2 = 0 then cl
      else cl.addHandlerName (.strncpy (by decide)
        (cstrAt (lmkCfgTrim buf p).1 (lmkCfgTrim buf p).2)))
        = cl.addNames (if strip t = [] then [] else [strip t]) := by
    by_cases hnil : strip t = []
    · rw [if_pos hnil, if_pos (by rw [charAt_eq_head, htrim, hnil]; rfl)]
      rfl
    · have hchar : charAt (lmkCfgTrim buf p).1 (lmkCfgTrim buf p).2 ≠ 0 :=
        charAt_ne_zero (r := []) (htrim.trans (List.append_nil _).symm) hnil
      rw [if_neg hnil, if_neg hchar, cstrAt_eq_cstr htrim]
      rfl
  rw [addHandlerNames, if_pos hcap]
  dsimp only
  rw [hadd]

/-- `strtok_r` の loop は、場所のある限り並んだ名前を足す。 -/
theorem addHandlerNames_eq {fuel : Nat} {val : List UInt8} (hs : strAt buf p = val)
    (hfuel : val.length < fuel) :
    addHandlerNames fuel (strtokR buf p 44).1 (strtokR buf p 44).2.1 (strtokR buf p 44).2.2 cl
      = some (cl.addNames (listedNames val)) := by
  induction hn : val.length using Nat.strong_induction_on generalizing buf p val fuel cl with
  | _ n ih =>
    obtain ⟨fuel, rfl⟩ : ∃ k, fuel = k + 1 := ⟨fuel - 1, by omega⟩
    cases val with
    | nil =>
      rw [strtokR_nil hs]
      rfl
    | cons c val =>
      rw [List.length_cons] at hn hfuel
      by_cases hc : c = 44
      · subst hc
        have hnext : strAt buf (p + 1) = val := by
          rw [strAt_add (by simp [hs]), hs]
          rfl
        rw [strtokR_separator hs, ih val.length (by omega) hnext (by omega) rfl]
        exact congrArg (fun names => some (cl.addNames names)) (listedNames_append [] val).symm
      · by_cases hm : 44 ∈ c :: val
        · -- 区切りがまだあれば、その手前が一つの名前になる
          obtain ⟨t, rest, hval, ht⟩ := List.eq_append_cons_of_mem hm
          have hne : t ≠ [] := by
            rintro rfl
            exact hc (List.cons.inj hval).1
          rw [hval] at hs
          have hlen : (c :: val).length = t.length + (rest.length + 1) := by
            rw [hval, List.length_append, List.length_cons]
          rw [List.length_cons] at hlen
          have hpos := List.length_pos_iff.mpr hne
          obtain ⟨hleft, hright⟩ := strAt_split hs
          obtain ⟨-, -, hafter, -⟩ := lmkCfgTrim_spec (buf.set (p + t.length) 0) p
          have hnext := hafter (p + t.length + 1) (by rw [hleft]; omega)
          rw [hright] at hnext
          rw [strtokR_cons hs ht hne, hval, listedNames_append, listedNames_of_notMem ht]
          dsimp only
          by_cases hcap : cl.handlerNames.length < 16
          · rw [addHandlerNames_token hleft hcap,
              ih rest.length (by omega) hnext (by omega) rfl]
            exact congrArg some (addNames_append cl _ _).symm
          · rw [addNames_of_full hcap, addHandlerNames, if_neg hcap]
        · have hmem : 44 ∉ strAt buf p := hs ▸ hm
          have hne : strAt buf p ≠ [] := by
            rw [hs]
            exact List.cons_ne_nil c val
          rw [strtokR_last hmem hne, listedNames_of_notMem hm]
          dsimp only
          by_cases hcap : cl.handlerNames.length < 16
          · have hrest : strAt (lmkCfgTrim buf p).1 (p + (strAt buf p).length) = [] := by
              obtain ⟨-, -, hafter, -⟩ := lmkCfgTrim_spec buf p
              rw [hafter _ (Nat.le_refl _), strAt_add (Nat.le_refl _), List.drop_length]
            obtain ⟨fuel, rfl⟩ : ∃ k, fuel = k + 1 := ⟨fuel - 1, by omega⟩
            rw [addHandlerNames_token hs hcap, strtokR_nil hrest]
            rfl
          · rw [addNames_of_full hcap, addHandlerNames, if_neg hcap]

/-! ## 一行の結果 -/

/-- 見出しの行の後の状態。 -/
def headerStep (st : ParseState) (name : List UInt8) : ParseState :=
  let st := { st with curHandler := none, curLogger := none }
  if (cstr name).strcasecmp (ascii "global") then { st with sec := .global }
  else if strncasecmp name (ascii "handler:") then
    { openHandler st (cstr (strip (name.drop 8))) with sec := .handler }
  else if strncasecmp name (ascii "logger:") then
    { openLogger st (cstr (strip (name.drop 7))) with sec := .logger }
  else { st with sec := .none }

/-- logger の section の `key = value` の行。 -/
def loggerEntry (cl : CfgLogger) (key val : List UInt8) : CfgLogger :=
  if (cstr key).strcasecmp (ascii "level") then { cl with level := lmkCfgParseLevel (cstr val) }
  else if (cstr key).strcasecmp (ascii "handlers") then cl.addNames (listedNames (cstr val).bytes)
  else cl

/-- `key = value` の行の後の設定。 -/
def entryCfg (st : ParseState) (key val : List UInt8) : Cfg :=
  match st.sec, st.curHandler, st.curLogger with
  | .global, _, _ => setGlobalKey st.cfg (cstr key) (cstr val)
  | .handler, some i, _ =>
    match st.cfg.handlers[i]? with
    | some ch => st.cfg.setHandler i (setHandlerKey ch (cstr key) (cstr val))
    | none => st.cfg
  | .logger, _, some i =>
    match st.cfg.loggers[i]? with
    | some cl => st.cfg.setLogger i (loggerEntry cl key val)
    | none => st.cfg
  | _, _, _ => st.cfg

/-- 一行を読んだ後の状態。 -/
def ParsedLine.step (st : ParseState) : ParsedLine → ParseState
  | .skip => st
  | .header name => headerStep st name
  | .entry key val => { st with cfg := entryCfg st key val }

theorem length_of_strncasecmp {s word : List UInt8} (h : strncasecmp s word = true) :
    word.length ≤ s.length := by
  have hlen := congrArg List.length (beq_iff_eq.mp h)
  rw [List.length_map, List.length_map, List.length_take] at hlen
  omega

/-- 見出しの種類の後ろから切り出した名前。 -/
theorem cstrAt_trim_add {n : Nat} {name : List UInt8} (hs : strAt buf p = name)
    (h : n ≤ name.length) :
    cstrAt (lmkCfgTrim buf (p + n)).1 (lmkCfgTrim buf (p + n)).2 = cstr (strip (name.drop n)) := by
  obtain ⟨htrim, -⟩ := lmkCfgTrim_spec buf (p + n)
  subst hs
  rw [strAt_add h] at htrim
  exact cstrAt_eq_cstr htrim

theorem openSection_eq {name : List UInt8} (hs : strAt buf p = name) :
    openSection buf p st = headerStep st name := by
  unfold openSection headerStep
  dsimp only
  rw [cstrAt_eq_cstr hs, hs]
  split
  · rfl
  · split
    · next hkind =>
      have hlen : 8 ≤ name.length := length_of_strncasecmp hkind
      rw [cstrAt_trim_add hs hlen]
    · split
      · next hkind =>
        have hlen : 7 ≤ name.length := length_of_strncasecmp hkind
        rw [cstrAt_trim_add hs hlen]
      · rfl

theorem setKey_eq (st : ParseState) {q : Nat} {key val : List UInt8} (hk : strAt buf p = key)
    (hv : strAt buf q = val) (hlen : val.length ≤ cfgLineMax) :
    setKey buf p q st = some { st with cfg := entryCfg st key val } := by
  obtain ⟨cfg, sec, curHandler, curLogger⟩ := st
  unfold setKey entryCfg
  rw [cstrAt_eq_cstr hk, cstrAt_eq_cstr hv]
  cases sec with
  | none => rfl
  | global => rfl
  | handler =>
    cases curHandler with
    | none => rfl
    | some i => rfl
  | logger =>
    cases curLogger with
    | none => rfl
    | some i =>
      dsimp only
      cases cfg.loggers[i]? with
      | none => rfl
      | some cl =>
        have hset : setLoggerKey buf cl (cstr key) q = some (loggerEntry cl key val) := by
          unfold setLoggerKey loggerEntry
          rw [cstrAt_eq_cstr hv]
          split
          · rfl
          · split
            · rw [cstr_bytes (hv ▸ zero_notMem_strAt buf q)]
              exact addHandlerNames_eq hv (Nat.lt_succ_of_le hlen)
            · rfl
        dsimp only
        rw [hset]
        rfl

theorem length_strip_le (l : List UInt8) : (strip l).length ≤ l.length :=
  Nat.le_trans (List.rdropWhile_prefix isSpace _).length_le
    (List.dropWhile_suffix isSpace).length_le

theorem length_strAt_le (buf : List UInt8) (p : Nat) : (strAt buf p).length ≤ buf.length :=
  Nat.le_trans (List.takeWhile_prefix _).length_le ((List.drop_sublist p buf).length_le)

/-- 最初の文字 `c` で分けた前後。 -/
theorem takeWhile_dropWhile_ne {c : UInt8} {t r : List UInt8} (ht : c ∉ t) :
    (t ++ c :: r).takeWhile (· ≠ c) = t ∧ ((t ++ c :: r).dropWhile (· ≠ c)).tail = r := by
  have hall : ∀ x ∈ t, decide (x ≠ c) = true := by
    intro x hx
    exact decide_eq_true fun he => ht (he ▸ hx)
  constructor
  · rw [List.takeWhile_append_of_pos hall, List.takeWhile_cons_of_neg (by simp), List.append_nil]
  · rw [List.dropWhile_append, List.dropWhile_eq_nil_iff.mpr hall]
    simp

/-- 空白でない文字で始まる行から、`=` の前後を切り出す。 -/
theorem parseLine_split {s : Nat} {c : UInt8} {l t r : List UInt8} (hs : strAt buf s = c :: l)
    (hc : isSpace c = false) (hl : c :: l = t ++ 61 :: r) (ht : 61 ∉ t)
    (hlen : (c :: l).length ≤ cfgLineMax) (st : ParseState) :
    ∃ e, strchr buf s 61 = some e ∧
      setKey (lmkCfgTrim (lmkCfgTrim (buf.set e 0) s).1 (e + 1)).1 (lmkCfgTrim (buf.set e 0) s).2
        (lmkCfgTrim (lmkCfgTrim (buf.set e 0) s).1 (e + 1)).2 st
        = some { st with cfg := entryCfg st (strip t) (strip r) } := by
  rw [hl] at hs
  obtain ⟨hleft, hright⟩ := strAt_split hs
  refine ⟨s + t.length, strchr_eq_some hs ht, ?_⟩
  generalize he : s + t.length = e at hleft hright
  generalize hbuf₁ : buf.set e 0 = buf₁ at hleft hright ⊢
  obtain ⟨hkey, -, hafter, -⟩ := lmkCfgTrim_spec buf₁ s
  have hhead : ∀ y ∈ t.head?, isSpace y = false := by
    intro y hy
    cases t with
    | nil => cases hy
    | cons x t =>
      obtain rfl := Option.some.inj hy
      rw [← (List.cons.inj hl).1]
      exact hc
  have hptr : (lmkCfgTrim buf₁ s).2 = s := by
    rw [lmkCfgTrim_eq (w := []) hleft (fun _ hy => nomatch hy) hhead]
    rfl
  have hval := hafter (e + 1) (by rw [hleft]; omega)
  rw [hleft, hptr] at hkey
  rw [hright] at hval
  rw [hptr]
  generalize (lmkCfgTrim buf₁ s).1 = buf₂ at hkey hval ⊢
  -- 値の側の書き込みは `=` より後ろなので、key は変わらない
  obtain ⟨hval', -, -, hbefore⟩ := lmkCfgTrim_spec buf₂ (e + 1)
  have hkeep := hbefore s (by
    have := length_strip_le t
    rw [hkey]
    omega)
  rw [hval] at hval'
  rw [hkey] at hkeep
  have hfits : (strip r).length ≤ cfgLineMax := by
    have := length_strip_le r
    rw [hl, List.length_append, List.length_cons] at hlen
    omega
  exact setKey_eq st hkeep hval' hfits

/-- **一行の解析は、行を読み、その意味のとおりに状態を変える。** -/
theorem parseLine_eq (st : ParseState) (hlen : buf.length ≤ cfgLineMax) :
    parseLine buf st = some ((lineOf (strip (strAt buf 0))).step st) := by
  obtain ⟨hstr, -⟩ := lmkCfgTrim_spec buf 0
  have hbuf : (lmkCfgTrim buf 0).1.length ≤ cfgLineMax := by
    unfold lmkCfgTrim
    dsimp only
    split
    · exact hlen
    · rwa [List.length_set]
  have hstripped := stripped_strip (strAt buf 0)
  generalize strip (strAt buf 0) = l at hstr hstripped ⊢
  unfold parseLine
  dsimp only
  generalize (lmkCfgTrim buf 0).2 = s at hstr ⊢
  generalize (lmkCfgTrim buf 0).1 = buf₁ at hstr hbuf ⊢
  have hfits : l.length ≤ cfgLineMax := by
    rw [← hstr]
    exact Nat.le_trans (length_strAt_le buf₁ s) hbuf
  rw [charAt_eq_head, hstr]
  cases l with
  | nil => rfl
  | cons c l =>
    have hzero : c ≠ 0 := by
      rintro rfl
      exact zero_notMem_strAt buf₁ s (hstr ▸ List.mem_cons_self)
    rw [List.headD_cons, lineOf]
    by_cases hmark : c = 35 ∨ c = 59
    · rw [if_pos (Or.inr hmark), if_pos hmark]
      rfl
    · rw [if_neg (not_or.mpr ⟨hzero, hmark⟩), if_neg hmark]
      by_cases hopen : c = 91
      · subst hopen
        rw [if_pos rfl, if_pos rfl]
        by_cases hclose : 93 ∈ l
        · obtain ⟨t, d, hl, ht⟩ := List.eq_append_cons_of_mem hclose
          have hmem : 93 ∉ (91 : UInt8) :: t := by
            rw [List.mem_cons]
            exact not_or.mpr ⟨by decide, ht⟩
          have hsplit : strAt buf₁ s = 91 :: t ++ 93 :: d := by
            rw [hstr, hl]
            rfl
          obtain ⟨hleft, -⟩ := strAt_split hsplit
          have hname : strAt (buf₁.set (s + (91 :: t).length) 0) (s + 1) = t := by
            rw [strAt_add (by rw [hleft]; exact Nat.le_add_left _ _), hleft]
            rfl
          obtain ⟨htrim, -⟩ := lmkCfgTrim_spec (buf₁.set (s + (91 :: t).length) 0) (s + 1)
          rw [hname] at htrim
          rw [if_pos hclose, strchr_eq_some hsplit hmem, hl, (takeWhile_dropWhile_ne ht).1]
          dsimp only
          rw [openSection_eq htrim]
          rfl
        · have hnone : 93 ∉ strAt buf₁ s := by
            rw [hstr, List.mem_cons]
            exact not_or.mpr ⟨by decide, hclose⟩
          rw [if_neg hclose, strchr_eq_none hnone]
          rfl
      · rw [if_neg hopen, if_neg hopen]
        by_cases heq : 61 ∈ c :: l
        · obtain ⟨t, r, hl, ht⟩ := List.eq_append_cons_of_mem heq
          obtain ⟨e, hchr, hset⟩ := parseLine_split hstr hstripped.head hl ht hfits st
          rw [if_pos heq, hchr, hl, (takeWhile_dropWhile_ne ht).1, (takeWhile_dropWhile_ne ht).2]
          exact hset
        · have hnone : 61 ∉ strAt buf₁ s := hstr ▸ heq
          rw [if_neg heq, strchr_eq_none hnone]
          rfl

/-! ## section の番号 -/

theorem length_entryCfg (st : ParseState) (key val : List UInt8) :
    (entryCfg st key val).handlers.length = st.cfg.handlers.length := by
  unfold entryCfg
  split
  · unfold setGlobalKey
    split
    · rfl
    · split <;> rfl
  · split
    · exact List.length_set
    · rfl
  · split <;> rfl
  · rfl

/-- 読んでいる handler の section は、もう登録されている。 -/
def ParseState.CursorOk (st : ParseState) : Prop :=
  ∀ i ∈ st.curHandler, i < st.cfg.handlers.length

theorem cursorOk_of_none (h : st.curHandler = none) : st.CursorOk := by
  intro i hi
  rw [h] at hi
  cases hi

theorem cursorOk_header (st : ParseState) (name : List UInt8) : (headerStep st name).CursorOk := by
  unfold headerStep
  dsimp only
  split
  · exact cursorOk_of_none rfl
  · split
    · unfold openHandler
      split
      · intro i hi
        obtain rfl := Option.some.inj hi
        simp [Cfg.addHandler]
      · exact cursorOk_of_none rfl
    · split
      · unfold openLogger
        split
        · exact cursorOk_of_none rfl
        · exact cursorOk_of_none rfl
      · exact cursorOk_of_none rfl

theorem cursorOk_step (h : st.CursorOk) (l : ParsedLine) : (l.step st).CursorOk := by
  cases l with
  | skip => exact h
  | header name => exact cursorOk_header st name
  | entry key val =>
    intro i hi
    exact (length_entryCfg st key val).symm ▸ h i hi

end Logmoko
