import Logmoko.Parser.Model

/-!
# 一行の切り出し

buffer に NUL を書き込みながら進む関数が、文字列として何を切り出すかをまとめる。
書き込みは切り出した文字列の直後より後ろには及ばないので、先に切り出した文字列も
まだ読んでいない文字列も壊れない。

* `lmkCfgTrim_spec` — 切り出されるのは前後の空白を除いた文字列である
* `parseLine_skip` / `parseLine_header` / `parseLine_entry` — 行の形ごとの結果
* `addHandlerNames_spec` — `strtok_r` の loop
-/

namespace Logmoko

open StrBuf

variable {buf a b c d k v w : List UInt8} {p s : Nat} {x : UInt8} {st : ParseState}

/-! ## 空白を除く -/

/-- `end` が止まるのは、そこまでの文字列の最後の空白でない文字である。 -/
theorem trimEnd_eq {l : List UInt8} (hl : strAt buf s = x :: l) (hx : isSpace x = false) {n : Nat}
    (hn : n < (x :: l).length) :
    trimEnd buf s (s + n) + 1 = s + (((x :: l).take (n + 1)).rdropWhile isSpace).length := by
  induction n with
  | zero =>
    have hend : trimEnd buf s s = s := by
      cases s with
      | zero => rfl
      | succ s => rw [trimEnd, if_neg (by simp)]
    simp [hend, List.rdropWhile_singleton, hx]
  | succ n ih =>
    have hlt : n + 1 < (strAt buf s).length := by rwa [hl]
    have hchar : charAt buf (s + n + 1) = (x :: l)[n + 1] := by
      rw [Nat.add_assoc, charAt_add hlt]
      simp only [hl]
    rw [← Nat.add_assoc, trimEnd, hchar, List.take_succ_eq_append_getElem hn]
    by_cases hspace : isSpace (x :: l)[n + 1] = true
    · rw [if_pos ⟨by omega, hspace⟩, List.rdropWhile_concat_pos _ _ _ hspace]
      exact ih (by omega)
    · rw [if_neg fun h => hspace h.2, List.rdropWhile_concat_neg _ _ _ hspace,
        List.length_append, List.length_take_of_le (by omega)]
      rfl

/-- 空白でない文字があれば、その後の空白の先頭に NUL が書かれる。 -/
theorem lmkCfgTrim_eq {t : List UInt8} (hs : strAt buf p = w ++ t) (hw : ∀ y ∈ w, isSpace y = true)
    (ht : ∀ y ∈ t.head?, isSpace y = false) :
    lmkCfgTrim buf p = (if t = [] then buf
      else buf.set (p + (w.length + (t.rdropWhile isSpace).length)) 0, p + w.length) := by
  have hspan : (strAt buf p).takeWhile isSpace = w := by
    rw [hs, List.takeWhile_append_of_pos hw]
    cases t with
    | nil => simp
    | cons x t => simp [ht x rfl]
  have hrest : strAt buf (p + w.length) = t := by
    rw [strAt_add (by simp [hs]), hs, List.drop_left]
  unfold lmkCfgTrim
  dsimp only
  rw [hspan, charAt_eq_head, hrest]
  cases t with
  | nil => rfl
  | cons x t =>
    have hzero : x ≠ 0 := by
      rintro rfl
      exact zero_notMem_strAt buf _ (hrest ▸ List.mem_cons_self)
    have hend := trimEnd_eq hrest (ht x rfl) (n := t.length) (Nat.lt_succ_self _)
    rw [← List.length_cons (a := x), List.take_length] at hend
    have hlast : p + w.length + (x :: t).length - 1 = p + w.length + t.length := rfl
    rw [List.headD_cons, if_neg hzero, if_neg (List.cons_ne_nil x t), hlast, hend, Nat.add_assoc]

/--
`lmk_cfg_trim` が返す添字の文字列は、前後の空白を除いたものである。
渡した文字列の終端から後ろと、渡した添字より前に終わる文字列は変わらない。
-/
theorem lmkCfgTrim_spec (buf : List UInt8) (p : Nat) :
    strAt (lmkCfgTrim buf p).1 (lmkCfgTrim buf p).2 = strip (strAt buf p) ∧
    p ≤ (lmkCfgTrim buf p).2 ∧
    (∀ q, p + (strAt buf p).length ≤ q → strAt (lmkCfgTrim buf p).1 q = strAt buf q) ∧
    ∀ q, q + (strAt buf q).length < p → strAt (lmkCfgTrim buf p).1 q = strAt buf q := by
  obtain ⟨w, hw⟩ : ∃ w, (strAt buf p).takeWhile isSpace = w := ⟨_, rfl⟩
  obtain ⟨t, ht⟩ : ∃ t, (strAt buf p).dropWhile isSpace = t := ⟨_, rfl⟩
  have hs : strAt buf p = w ++ t := by
    rw [← hw, ← ht, List.takeWhile_append_dropWhile]
  have hstrip : strip (strAt buf p) = t.rdropWhile isSpace := congrArg _ ht
  have hspace : ∀ y ∈ w, isSpace y = true := by
    intro y hy
    rw [← hw] at hy
    exact List.mem_takeWhile_imp hy
  have hhead : ∀ y ∈ t.head?, isSpace y = false := by
    intro y hy
    have := List.head?_dropWhile_not isSpace (strAt buf p)
    rw [ht, Option.mem_def.mp hy] at this
    simpa using this
  have hlen : (strAt buf p).length = w.length + t.length := by
    rw [hs, List.length_append]
  have hrest : strAt buf (p + w.length) = t := by
    rw [strAt_add (by omega), hs, List.drop_left]
  rw [lmkCfgTrim_eq hs hspace hhead, hstrip]
  split
  · next hnil =>
    subst hnil
    exact ⟨hrest, Nat.le_add_right _ _, fun _ _ => rfl, fun _ _ => rfl⟩
  · have hpre := List.rdropWhile_prefix isSpace t
    have hle := hpre.length_le
    refine ⟨?_, Nat.le_add_right _ _, ?_, ?_⟩
    · dsimp only
      rw [← Nat.add_assoc, strAt_set_add (by rwa [hrest]), hrest]
      exact (List.prefix_iff_eq_take.mp hpre).symm
    · intro q hq
      exact strAt_set_of_le (by omega) hq
    · intro q hq
      exact strAt_set_of_gt (by omega)

/-! ## 行の形 -/

/-- 空白でない文字で始まる行の先頭。 -/
theorem charAt_of_strAt {l : List UInt8} (h : strAt buf p = x :: l) : charAt buf p = x := by
  rw [charAt_eq_head, h]
  rfl

theorem notMem_of_space (hx : isSpace x = false) {l : List UInt8}
    (hl : ∀ y ∈ l, isSpace y = true) : x ∉ l := by
  intro hm
  rw [hl x hm] at hx
  cases hx

/-- 空白だけの行と、`#` か `;` で始まる行は何も変えない。 -/
theorem parseLine_skip (h : ∀ y ∈ (strip (strAt buf 0)).head?, y = 35 ∨ y = 59) :
    parseLine buf st = some st := by
  obtain ⟨hstr, -⟩ := lmkCfgTrim_spec buf 0
  unfold parseLine
  dsimp only
  rw [charAt_eq_head, hstr]
  cases hl : strip (strAt buf 0) with
  | nil => rfl
  | cons y l =>
    rw [hl] at h
    exact if_pos (Or.inr (h y rfl))

/-- 見出しの行からは、括弧の間の文字列が前後の空白を除いて取り出される。 -/
theorem parseLine_header (st : ParseState) (hs : strAt buf 0 = a ++ 91 :: (b ++ w ++ c) ++ 93 :: d)
    (ha : ∀ y ∈ a, isSpace y = true) (hb : ∀ y ∈ b, isSpace y = true)
    (hc : ∀ y ∈ c, isSpace y = true) (hw : Stripped w) (hbracket : 93 ∉ w) :
    ∃ buf' p, parseLine buf st = some (openSection buf' p st) ∧ strAt buf' p = w := by
  obtain ⟨hstr, -⟩ := lmkCfgTrim_spec buf 0
  rw [hs, strip_append_cons ha (by decide) (by decide)] at hstr
  have hbody : 93 ∉ 91 :: (b ++ w ++ c) := by
    have hb' := notMem_of_space (x := 93) (by decide) hb
    have hc' := notMem_of_space (x := 93) (by decide) hc
    simp [hb', hc', hbracket]
  obtain ⟨s, hptr⟩ : ∃ s, (lmkCfgTrim buf 0).2 = s := ⟨_, rfl⟩
  rw [hptr] at hstr
  -- `]` を NUL にすると、`[` の次からの文字列は括弧の間になる
  obtain ⟨hcut, -⟩ := strAt_split hstr
  have hname : strAt ((lmkCfgTrim buf 0).1.set (s + (91 :: (b ++ w ++ c)).length) 0) (s + 1)
      = b ++ w ++ c := by
    rw [strAt_add (by rw [hcut]; exact Nat.le_add_left _ _), hcut]
    rfl
  obtain ⟨htrim, -⟩ := lmkCfgTrim_spec
    ((lmkCfgTrim buf 0).1.set (s + (91 :: (b ++ w ++ c)).length) 0) (s + 1)
  rw [hname, strip_append hb hc, hw] at htrim
  refine ⟨_, _, ?_, htrim⟩
  unfold parseLine
  dsimp only
  rw [hptr, charAt_of_strAt hstr, if_neg (by decide), if_pos rfl, strchr_eq_some hstr hbody]

/-- `key = value` の行からは、最初の `=` の前後の文字列が空白を除いて取り出される。 -/
theorem parseLine_entry (st : ParseState)
    (hs : strAt buf 0 = a ++ x :: (k ++ b) ++ 61 :: (c ++ v ++ d))
    (ha : ∀ y ∈ a, isSpace y = true) (hb : ∀ y ∈ b, isSpace y = true)
    (hc : ∀ y ∈ c, isSpace y = true) (hd : ∀ y ∈ d, isSpace y = true)
    (hx : x ≠ 35 ∧ x ≠ 59 ∧ x ≠ 91) (hkey : Stripped (x :: k)) (heq : 61 ∉ x :: k)
    (hv : Stripped v) :
    ∃ buf' p q, parseLine buf st = setKey buf' p q st ∧
      strAt buf' p = x :: k ∧ strAt buf' q = v := by
  obtain ⟨hstr, -⟩ := lmkCfgTrim_spec buf 0
  rw [hs, strip_append_cons ha hkey.head (by decide)] at hstr
  have hbody : 61 ∉ x :: (k ++ b) := by
    have hb' := notMem_of_space (x := 61) (by decide) hb
    rw [← List.cons_append, List.mem_append]
    exact not_or.mpr ⟨heq, hb'⟩
  obtain ⟨s, hptr⟩ : ∃ s, (lmkCfgTrim buf 0).2 = s := ⟨_, rfl⟩
  rw [hptr] at hstr
  have hchr := strchr_eq_some hstr hbody
  -- `=` を NUL にすると、行は key と値の二つの文字列に分かれる
  obtain ⟨hleft, hright⟩ := strAt_split hstr
  obtain ⟨e, he⟩ : ∃ e, s + (x :: (k ++ b)).length = e := ⟨_, rfl⟩
  rw [he] at hchr hleft hright
  have hend : s + (strAt ((lmkCfgTrim buf 0).1.set e 0) s).length = e := by rw [hleft, he]
  generalize hbuf₁ : (lmkCfgTrim buf 0).1.set e 0 = buf₁ at hleft hright hend
  obtain ⟨hkey', -, hafter, -⟩ := lmkCfgTrim_spec buf₁ s
  have hkeyPtr : (lmkCfgTrim buf₁ s).2 = s := by
    rw [lmkCfgTrim_eq (w := []) hleft (fun _ hy => nomatch hy) (by
      rintro y ⟨⟩
      exact hkey.head)]
    rfl
  have hval := hafter (e + 1) (by omega)
  have hstripKey : strip (x :: (k ++ b)) = x :: k :=
    (strip_append_right (l := x :: k) hb).trans hkey
  rw [hleft, hstripKey, hkeyPtr] at hkey'
  rw [hright] at hval
  generalize hbuf₂ : (lmkCfgTrim buf₁ s).1 = buf₂ at hkey' hval
  -- 値の側の書き込みは `=` より後ろなので、key は変わらない
  obtain ⟨hval', -, -, hbefore⟩ := lmkCfgTrim_spec buf₂ (e + 1)
  have hkeep := hbefore s (by
    rw [hkey', ← he, List.length_cons, List.length_cons, List.length_append]
    omega)
  rw [hval, strip_rdropWhile, strip_append hc hd, hv] at hval'
  rw [hkey'] at hkeep
  refine ⟨(lmkCfgTrim buf₂ (e + 1)).1, s, (lmkCfgTrim buf₂ (e + 1)).2, ?_, hkeep, hval'⟩
  have hx0 : x ≠ 0 := by
    have hne := charAt_ne_zero (l := [x]) hstr (List.cons_ne_nil x [])
    rwa [charAt_of_strAt hstr] at hne
  unfold parseLine
  dsimp only
  rw [hptr, charAt_of_strAt hstr, if_neg (by simp [hx0, hx.1, hx.2.1]), if_neg hx.2.2, hchr]
  dsimp only
  rw [hbuf₁, hbuf₂, hkeyPtr]

/-! ## 見出し -/

theorem cstrAt_eq {s : CStr} (h : strAt buf p = s.bytes) : cstrAt buf p = s := by
  obtain ⟨bytes, noNul⟩ := s
  exact (CStr.mk.injEq ..).mpr h

theorem length_of_map_toLower {word : List UInt8} (hk : k.map toLower = word) :
    k.length = word.length := by
  rw [← hk, List.length_map]

theorem strncasecmp_append {n word : List UInt8} (hk : k.map toLower = word.map toLower) :
    strncasecmp (k ++ n) word = true := by
  have hlen : word.length = k.length := by
    simpa using (congrArg List.length hk).symm
  unfold strncasecmp
  rw [hlen, List.take_left, hk]
  exact beq_self_eq_true _

/-- 長さが異なれば `strcasecmp` は一致しない。 -/
theorem strcasecmp_of_length_ne {s : CStr} {word : List UInt8} (h : s.length ≠ word.length) :
    s.strcasecmp word = false := by
  refine beq_eq_false_iff_ne.mpr fun he => h ?_
  have hlen := congrArg List.length he
  rw [List.length_map, List.length_map] at hlen
  exact hlen

/-- 先頭の文字が異なれば `strncasecmp` は一致しない。 -/
theorem strncasecmp_of_head_ne {word : List UInt8} (hword : word ≠ [])
    (hne : (k.map toLower).head? ≠ (word.map toLower).head?) : strncasecmp k word = false := by
  refine beq_eq_false_iff_ne.mpr fun he => hne ?_
  rw [← he, List.map_take, List.head?_take, if_neg (by simpa using hword)]

theorem openSection_global (h : (strAt buf p).map toLower = ascii "global") :
    openSection buf p st = { st with sec := .global, curHandler := none, curLogger := none } := by
  have hcmp : (cstrAt buf p).strcasecmp (ascii "global") = true :=
    beq_iff_eq.mpr (h.trans (by decide))
  unfold openSection
  dsimp only
  rw [if_pos hcmp]

theorem not_global_of_append {n : List UInt8} (hs : strAt buf p = k ++ n) (hk : 6 < k.length) :
    (cstrAt buf p).strcasecmp (ascii "global") = false := by
  refine strcasecmp_of_length_ne ?_
  show (strAt buf p).length ≠ 6
  rw [hs, List.length_append]
  omega

/-- 見出しの種類の後ろは、空白を除いて名前になる。 -/
theorem strAt_trim_drop {name : CStr} (hs : strAt buf p = k ++ name.bytes)
    (hname : Stripped name.bytes) :
    cstrAt (lmkCfgTrim buf (p + k.length)).1 (lmkCfgTrim buf (p + k.length)).2 = name := by
  obtain ⟨htrim, -⟩ := lmkCfgTrim_spec buf (p + k.length)
  rw [strAt_add (by simp [hs]), hs, List.drop_left, hname] at htrim
  exact cstrAt_eq htrim

theorem openSection_handler {name : CStr} (hs : strAt buf p = k ++ name.bytes)
    (hk : k.map toLower = ascii "handler:") (hname : Stripped name.bytes) :
    openSection buf p st = { openHandler { st with curHandler := none, curLogger := none } name with
      sec := .handler } := by
  have hlen : k.length = 8 := length_of_map_toLower hk
  have hglobal := not_global_of_append hs (by omega)
  have hhandler := strncasecmp_append (n := name.bytes) (hk.trans (by decide :
    ascii "handler:" = (ascii "handler:").map toLower))
  have htrim := strAt_trim_drop hs hname
  rw [hlen] at htrim
  unfold openSection
  dsimp only
  rw [hglobal, hs, hhandler, htrim]
  rfl

theorem openSection_logger {name : CStr} (hs : strAt buf p = k ++ name.bytes)
    (hk : k.map toLower = ascii "logger:") (hname : Stripped name.bytes) :
    openSection buf p st = { openLogger { st with curHandler := none, curLogger := none } name with
      sec := .logger } := by
  have hlen : k.length = 7 := length_of_map_toLower hk
  have hglobal := not_global_of_append hs (by omega)
  have hhandler : strncasecmp (k ++ name.bytes) (ascii "handler:") = false := by
    have hword : ascii "logger:" = [108, 111, 103, 103, 101, 114, 58] := by decide
    refine strncasecmp_of_head_ne (by decide) ?_
    rw [List.map_append, hk, hword, List.cons_append, List.head?_cons]
    decide
  have hlogger := strncasecmp_append (n := name.bytes) (hk.trans (by decide :
    ascii "logger:" = (ascii "logger:").map toLower))
  have htrim := strAt_trim_drop hs hname
  rw [hlen] at htrim
  unfold openSection
  dsimp only
  rw [hglobal, hs, hhandler, hlogger, htrim]
  rfl

end Logmoko
