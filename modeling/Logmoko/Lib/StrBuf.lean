import Mathlib.Algebra.Group.Int.Defs
import Mathlib.Data.List.DropRight

/-!
# buffer の上の C の文字列

NUL で終わる文字列を置いた buffer を byte 列で表し、`char *` をその添字で表す。
`strAt buf p` は添字 `p` から最初の NUL の手前までの文字列である。

`strtok_r` のように buffer に NUL を書き込む関数は、書き込んだ後の buffer を返す。
書き込みは、それより後ろから始まる文字列を変えず（`strAt_set_of_lt`）、
その位置を含む文字列をそこで切る（`strAt_set_add`）。

文字の種類と `strtol` は "C" locale のものである。
-/

namespace StrBuf

variable {buf l r a b : List UInt8} {p i : Nat} {c : UInt8}

/-! ## 文字列 -/

/-- 添字 `p` から始まる文字列。終端の NUL は含めない。 -/
def strAt (buf : List UInt8) (p : Nat) : List UInt8 := (buf.drop p).takeWhile (· ≠ 0)

/-- 添字 `p` の文字。 -/
def charAt (buf : List UInt8) (p : Nat) : UInt8 := buf.getD p 0

theorem zero_notMem_strAt (buf : List UInt8) (p : Nat) : 0 ∉ strAt buf p := by
  intro h
  simpa using List.mem_takeWhile_imp h

theorem takeWhile_append_zero (h : 0 ∉ l) : (l ++ 0 :: r).takeWhile (· ≠ 0) = l := by
  have hall : ∀ x ∈ l, decide (x ≠ 0) = true := by
    intro x hx
    exact decide_eq_true fun he => h (he ▸ hx)
  rw [List.takeWhile_append_of_pos hall]
  simp

/-- NUL で終わる byte 列の先頭の文字列。 -/
theorem strAt_zero_append (h : 0 ∉ l) : strAt (l ++ 0 :: r) 0 = l := takeWhile_append_zero h

/-- 文字列の後には、NUL があるか buffer の終わりがある。 -/
theorem drop_eq_strAt_append (buf : List UInt8) (p : Nat) :
    ∃ r, buf.drop p = strAt buf p ++ r ∧ r.takeWhile (· ≠ 0) = [] := by
  refine ⟨(buf.drop p).dropWhile (· ≠ 0), List.takeWhile_append_dropWhile.symm, ?_⟩
  cases h : (buf.drop p).dropWhile (· ≠ 0) with
  | nil => rfl
  | cons x r =>
    have hx : (fun x : UInt8 => decide (x ≠ 0)) x = false := by
      have := List.head?_dropWhile_not (fun x : UInt8 => decide (x ≠ 0)) (buf.drop p)
      rw [h] at this
      simpa using this
    rw [List.takeWhile_cons_of_neg (by simpa using hx)]

theorem takeWhile_append_of_nil (h : 0 ∉ l) (hr : r.takeWhile (· ≠ 0) = []) :
    (l ++ r).takeWhile (· ≠ 0) = l := by
  have hall : ∀ x ∈ l, decide (x ≠ 0) = true := by
    intro x hx
    exact decide_eq_true fun he => h (he ▸ hx)
  rw [List.takeWhile_append_of_pos hall, hr, List.append_nil]

/-- 途中から始まる文字列は、文字列の残りである。 -/
theorem strAt_add (h : i ≤ (strAt buf p).length) :
    strAt buf (p + i) = (strAt buf p).drop i := by
  obtain ⟨r, hdrop, hr⟩ := drop_eq_strAt_append buf p
  have hzero : 0 ∉ (strAt buf p).drop i := fun hm =>
    zero_notMem_strAt buf p (List.mem_of_mem_drop hm)
  show (buf.drop (p + i)).takeWhile _ = _
  rw [← List.drop_drop, hdrop, List.drop_append_of_le_length h]
  exact takeWhile_append_of_nil hzero hr

theorem charAt_eq_head (buf : List UInt8) (p : Nat) : charAt buf p = (strAt buf p).headD 0 := by
  have hget : charAt buf p = (buf.drop p).headD 0 := by
    simp [charAt, List.headD_eq_head?_getD, List.head?_drop]
  rw [hget, strAt]
  cases buf.drop p with
  | nil => rfl
  | cons x r =>
    by_cases hx : x = 0
    · simp [hx]
    · simp [hx]

theorem charAt_add (h : i < (strAt buf p).length) : charAt buf (p + i) = (strAt buf p)[i] := by
  rw [charAt_eq_head, strAt_add (Nat.le_of_lt h), List.drop_eq_getElem_cons h]
  rfl

/-! ## NUL の書き込み -/

/-- 書き込みより後ろの文字列は変わらない。 -/
theorem strAt_set_of_lt (h : i < p) : strAt (buf.set i 0) p = strAt buf p := by
  unfold strAt
  rw [List.drop_set_of_lt h]

/-- 書き込みは文字列をそこで切る。 -/
theorem strAt_set_add (h : i ≤ (strAt buf p).length) :
    strAt (buf.set (p + i) 0) p = (strAt buf p).take i := by
  obtain ⟨r, hdrop, hr⟩ := drop_eq_strAt_append buf p
  have hzero : 0 ∉ (strAt buf p).take i := fun hm =>
    zero_notMem_strAt buf p (List.mem_of_mem_take hm)
  show ((buf.set (p + i) 0).drop p).takeWhile _ = _
  rw [List.drop_set, if_neg (by omega), Nat.add_sub_cancel_left, hdrop]
  rcases Nat.lt_or_eq_of_le h with hlt | heq
  · have hsplit : strAt buf p ++ r
        = (strAt buf p).take i ++ (strAt buf p)[i] :: ((strAt buf p).drop (i + 1) ++ r) := by
      rw [← List.cons_append, ← List.drop_eq_getElem_cons hlt, ← List.append_assoc,
        List.take_append_drop]
    have hlen : ((strAt buf p).take i).length = i := List.length_take_of_le h
    rw [hsplit, List.set_append_right _ _ (by omega), hlen, Nat.sub_self, List.set_cons_zero]
    exact takeWhile_append_zero hzero
  · subst heq
    rw [List.set_append_right _ _ (Nat.le_refl _), Nat.sub_self, List.take_length]
    cases r with
    | nil => exact takeWhile_append_of_nil (zero_notMem_strAt buf p) rfl
    | cons x r => exact takeWhile_append_zero (zero_notMem_strAt buf p)

/-- 終端より後ろへの書き込みは文字列を変えない。 -/
theorem strAt_set_of_gt (h : p + (strAt buf p).length < i) :
    strAt (buf.set i 0) p = strAt buf p := by
  obtain ⟨r, hdrop, hr⟩ := drop_eq_strAt_append buf p
  show ((buf.set i 0).drop p).takeWhile _ = _
  rw [List.drop_set, if_neg (by omega), hdrop, List.set_append_right _ _ (by omega)]
  refine takeWhile_append_of_nil (zero_notMem_strAt buf p) ?_
  cases r with
  | nil => rfl
  | cons x r =>
    -- 書き込むのは終端の次からなので、終端の NUL は残る
    obtain ⟨j, hj⟩ : ∃ j, i - p - (strAt buf p).length = j + 1 :=
      ⟨i - p - (strAt buf p).length - 1, by omega⟩
    rw [hj, List.set_cons_succ]
    by_cases hx : x = 0
    · simp [hx]
    · simp [hx] at hr

/-- 文字列の中か終端への書き込みは、終端から後ろの文字列を変えない。 -/
theorem strAt_set_of_le {q : Nat} (hi : i ≤ (strAt buf p).length)
    (hq : p + (strAt buf p).length ≤ q) : strAt (buf.set (p + i) 0) q = strAt buf q := by
  rcases Nat.lt_or_eq_of_le (Nat.le_trans (Nat.add_le_add_left hi p) hq) with hlt | rfl
  · exact strAt_set_of_lt hlt
  · obtain rfl : i = (strAt buf p).length := by omega
    have hend : strAt buf (p + (strAt buf p).length) = [] := by
      rw [strAt_add (Nat.le_refl _), List.drop_length]
    rw [hend]
    exact strAt_set_add (Nat.zero_le _)

/-- 区切りの文字を NUL にすると、文字列は前後の二つに分かれる。 -/
theorem strAt_split (hs : strAt buf p = l ++ c :: r) :
    strAt (buf.set (p + l.length) 0) p = l ∧
      strAt (buf.set (p + l.length) 0) (p + l.length + 1) = r := by
  have hlen : l.length + 1 ≤ (strAt buf p).length := by
    rw [hs, List.length_append, List.length_cons]
    omega
  constructor
  · rw [strAt_set_add (by omega), hs, List.take_left]
  · have hdrop : strAt buf (p + (l.length + 1)) = r := by
      rw [strAt_add hlen, hs, ← List.drop_drop, List.drop_left]
      rfl
    rw [strAt_set_of_lt (Nat.lt_add_one _)]
    exact hdrop

/-! ## 検索 -/

/-- 最初の文字 `c` の添字。 -/
def strchr (buf : List UInt8) (p : Nat) (c : UInt8) : Option Nat :=
  ((strAt buf p).findIdx? (· = c)).map (p + ·)

theorem findIdx?_of_notMem (h : c ∉ l) : l.findIdx? (· = c) = none := by
  rw [List.findIdx?_eq_none_iff]
  intro x hx
  exact decide_eq_false fun he => h (he ▸ hx)

theorem findIdx?_append_cons (h : c ∉ l) : (l ++ c :: r).findIdx? (· = c) = some l.length := by
  rw [List.findIdx?_append, findIdx?_of_notMem h]
  simp [List.findIdx?_cons]

theorem strchr_eq_none (h : c ∉ strAt buf p) : strchr buf p c = none := by
  unfold strchr
  rw [findIdx?_of_notMem h]
  rfl

theorem strchr_eq_some (hs : strAt buf p = l ++ c :: r) (h : c ∉ l) :
    strchr buf p c = some (p + l.length) := by
  unfold strchr
  rw [hs, findIdx?_append_cons h]
  rfl

/-- 文字列 `s` の中の最後の文字 `c` の位置。 -/
def strrchr (s : List UInt8) (c : UInt8) : Option Nat :=
  (s.reverse.findIdx? (· = c)).map fun i => s.length - 1 - i

theorem strrchr_eq_none (h : c ∉ s) : strrchr s c = none := by
  unfold strrchr
  rw [findIdx?_of_notMem fun hm => h (List.mem_reverse.mp hm)]
  rfl

theorem strrchr_append (h : c ∉ r) : strrchr (l ++ c :: r) c = some l.length := by
  unfold strrchr
  rw [List.reverse_append, List.reverse_cons, List.append_assoc]
  show Option.map _ ((r.reverse ++ c :: l.reverse).findIdx? _) = _
  rw [findIdx?_append_cons fun hm => h (List.mem_reverse.mp hm)]
  simp only [Option.map_some, List.length_append, List.length_cons, List.length_reverse]
  congr 1
  omega

/-- 文字 `c` を含めば、最後の `c` の前後に分かれる。 -/
theorem exists_strrchr {s : List UInt8} (h : c ∈ s) :
    ∃ l r, s = l ++ c :: r ∧ strrchr s c = some l.length := by
  obtain ⟨r, l, hsplit, hr⟩ := List.eq_append_cons_of_mem (List.mem_reverse.mpr h)
  have hs : s = l.reverse ++ c :: r.reverse := by
    rw [← List.reverse_reverse s, hsplit]
    simp
  refine ⟨l.reverse, r.reverse, hs, ?_⟩
  rw [hs]
  exact strrchr_append fun hm => hr (List.mem_reverse.mp hm)

/-! ## 分割 -/

/--
文字 `c` を区切りとする `strtok_r`。返すのは、buffer、見つかった部分文字列の添字、次に始める添字である。
区切りは NUL に置き換えられる。
-/
def strtokR (buf : List UInt8) (p : Nat) (c : UInt8) : List UInt8 × Option Nat × Nat :=
  let tok := p + ((strAt buf p).takeWhile (· = c)).length
  if charAt buf tok = 0 then (buf, none, tok)
  else
    match strchr buf tok c with
    | some e => (buf.set e 0, some tok, e + 1)
    | none => (buf, some tok, tok + (strAt buf tok).length)

theorem strtokR_nil (h : strAt buf p = []) : strtokR buf p c = (buf, none, p) := by
  have hchar : charAt buf p = 0 := by
    rw [charAt_eq_head, h]
    rfl
  simp [strtokR, h, hchar]

theorem takeWhile_eq_nil_of_notMem (h : c ∉ l) (hne : l ≠ []) :
    (l ++ r).takeWhile (· = c) = [] := by
  cases l with
  | nil => exact absurd rfl hne
  | cons x l =>
    have hx : x ≠ c := fun he => h (he ▸ List.mem_cons_self)
    simp [hx]

theorem charAt_ne_zero (hs : strAt buf p = l ++ r) (hne : l ≠ []) : charAt buf p ≠ 0 := by
  cases l with
  | nil => exact absurd rfl hne
  | cons x l =>
    intro he
    rw [charAt_eq_head, hs] at he
    have hzero := zero_notMem_strAt buf p
    rw [hs] at hzero
    exact hzero (he ▸ List.mem_cons_self)

/-- 区切りがまだあれば、その手前までが部分文字列になる。 -/
theorem strtokR_cons (hs : strAt buf p = l ++ c :: r) (h : c ∉ l) (hne : l ≠ []) :
    strtokR buf p c = (buf.set (p + l.length) 0, some p, p + l.length + 1) := by
  unfold strtokR
  rw [hs, takeWhile_eq_nil_of_notMem h hne]
  dsimp only [List.length_nil, Nat.add_zero]
  rw [if_neg (charAt_ne_zero hs hne), strchr_eq_some hs h]

/-- 区切りが無ければ、残りのすべてが部分文字列になる。 -/
theorem strtokR_last (h : c ∉ strAt buf p) (hne : strAt buf p ≠ []) :
    strtokR buf p c = (buf, some p, p + (strAt buf p).length) := by
  have hspan := takeWhile_eq_nil_of_notMem (r := []) h hne
  rw [List.append_nil] at hspan
  unfold strtokR
  rw [hspan]
  dsimp only [List.length_nil, Nat.add_zero]
  rw [if_neg (charAt_ne_zero (List.append_nil _).symm hne), strchr_eq_none h]

/-! ## 空白 -/

/-- `isspace`。 -/
def isSpace (b : UInt8) : Bool := b = 32 ∨ (9 ≤ b ∧ b ≤ 13)

/-- 前後の空白を除いた列。 -/
def strip (l : List UInt8) : List UInt8 := (l.dropWhile isSpace).rdropWhile isSpace

/-- 前後に空白を持たない。 -/
def Stripped (l : List UInt8) : Prop := strip l = l

instance : DecidablePred Stripped := fun _ => inferInstanceAs (Decidable (_ = _))

theorem dropWhile_append_of_all (ha : ∀ x ∈ a, isSpace x = true) :
    (a ++ l).dropWhile isSpace = l.dropWhile isSpace := by
  rw [List.dropWhile_append, List.dropWhile_eq_nil_iff.mpr ha]
  rfl

theorem rdropWhile_append_of_all (hb : ∀ x ∈ b, isSpace x = true) :
    (l ++ b).rdropWhile isSpace = l.rdropWhile isSpace := by
  unfold List.rdropWhile
  rw [List.reverse_append, dropWhile_append_of_all fun x hx => hb x (List.mem_reverse.mp hx)]

/-- 前後に空白を足しても、除けば同じである。 -/
theorem strip_append (ha : ∀ x ∈ a, isSpace x = true) (hb : ∀ x ∈ b, isSpace x = true) :
    strip (a ++ l ++ b) = strip l := by
  unfold strip
  rw [List.append_assoc, dropWhile_append_of_all ha, List.dropWhile_append]
  split
  · next hl =>
    rw [List.isEmpty_iff.mp hl, List.dropWhile_eq_nil_iff.mpr hb]
  · exact rdropWhile_append_of_all hb

theorem strip_append_right (hb : ∀ x ∈ b, isSpace x = true) : strip (l ++ b) = strip l :=
  strip_append (a := []) (fun _ hx => nomatch hx) hb

theorem strip_of_all (ha : ∀ x ∈ a, isSpace x = true) : strip a = [] := by
  unfold strip
  rw [List.dropWhile_eq_nil_iff.mpr ha]
  rfl

theorem strip_rdropWhile (l : List UInt8) : strip (l.rdropWhile isSpace) = strip l := by
  have hspace : ∀ x ∈ l.rtakeWhile isSpace, isSpace x = true :=
    fun x hx => List.mem_rtakeWhile_imp hx
  have hstrip := strip_append_right (l := l.rdropWhile isSpace) hspace
  rwa [List.rdropWhile_append_rtakeWhile, eq_comm] at hstrip

theorem rdropWhile_append_cons (hc : isSpace c = false) :
    (l ++ c :: r).rdropWhile isSpace = l ++ c :: r.rdropWhile isSpace := by
  unfold List.rdropWhile
  rw [List.reverse_append, List.reverse_cons, List.append_assoc, List.dropWhile_append]
  split
  · next hr =>
    simp [List.isEmpty_iff.mp hr, hc]
  · simp

theorem dropWhile_append_cons (ha : ∀ x ∈ a, isSpace x = true) (hc : isSpace c = false) :
    (a ++ c :: l).dropWhile isSpace = c :: l := by
  rw [dropWhile_append_of_all ha, List.dropWhile_cons_of_neg (by simp [hc])]

/-- 先頭の文字と途中の文字が空白でなければ、間は変わらない。 -/
theorem strip_append_cons {x : UInt8} (ha : ∀ y ∈ a, isSpace y = true) (hx : isSpace x = false)
    (hc : isSpace c = false) :
    strip (a ++ x :: l ++ c :: r) = x :: l ++ c :: r.rdropWhile isSpace := by
  unfold strip
  rw [List.append_assoc, List.cons_append, dropWhile_append_cons ha hx, ← List.cons_append]
  exact rdropWhile_append_cons hc

theorem Stripped.head {x : UInt8} (h : Stripped (x :: l)) : isSpace x = false := by
  by_contra hx
  have hx : isSpace x = true := by simpa using hx
  have hlen : (strip (x :: l)).length ≤ l.length := by
    unfold strip
    rw [List.dropWhile_cons_of_pos hx]
    exact Nat.le_trans (List.rdropWhile_prefix isSpace _).length_le
      (List.dropWhile_suffix isSpace).length_le
  rw [h] at hlen
  exact absurd hlen (by simp)

theorem Stripped.last (h : Stripped l) (hne : l ≠ []) : isSpace (l.getLast hne) = false := by
  obtain ⟨m, rfl⟩ : ∃ m : List UInt8, m.rdropWhile isSpace = l := ⟨l.dropWhile isSpace, h⟩
  simpa using List.rdropWhile_last_not isSpace m hne

/-- 除いた後は、前後に空白を持たない。 -/
theorem stripped_strip (l : List UInt8) : Stripped (strip l) := by
  unfold Stripped strip
  cases hl : l.dropWhile isSpace with
  | nil => rfl
  | cons x m =>
    have hx : isSpace x = false := by
      have := List.head?_dropWhile_not isSpace l
      rw [hl] at this
      simpa using this
    have hcons : (x :: m).rdropWhile isSpace = x :: m.rdropWhile isSpace :=
      rdropWhile_append_cons (l := []) hx
    rw [hcons, List.dropWhile_cons_of_neg (by simp [hx]), ← hcons]
    exact List.rdropWhile_idempotent isSpace (x :: m)

/-- 空白を含まない列は、前後に空白を持たない。 -/
theorem stripped_of_forall (h : ∀ x ∈ l, isSpace x = false) : Stripped l := by
  cases l with
  | nil => rfl
  | cons x l =>
    have hx := h x List.mem_cons_self
    unfold Stripped strip
    rw [List.dropWhile_cons_of_neg (by simp [hx]), List.rdropWhile_eq_self_iff]
    intro hne
    rw [h _ (List.getLast_mem hne)]
    exact Bool.false_ne_true

/-- 空白でない文字で始まり、空白でない文字で終わる。 -/
theorem stripped_append {x : UInt8} (hx : isSpace x = false) (hr : Stripped r) (hne : r ≠ []) :
    Stripped (x :: l ++ r) := by
  unfold Stripped strip
  rw [List.cons_append, List.dropWhile_cons_of_neg (by simp [hx]), List.rdropWhile_eq_self_iff]
  intro hcons
  have hlast : (x :: (l ++ r)).getLast hcons = r.getLast hne :=
    List.getLast_append_of_ne_nil (l := x :: l) hcons hne
  rw [hlast, hr.last hne]
  exact Bool.false_ne_true

/-! ## 数 -/

/-- 十進の数字。 -/
def isDigit (b : UInt8) : Bool := 48 ≤ b ∧ b ≤ 57

/-- 数字の列が表す数。 -/
def decimalValue (digits : List UInt8) : Nat :=
  digits.foldl (fun n d => 10 * n + (d.toNat - 48)) 0

/-- 範囲に収まらない値は `long` の端の値にする。 -/
def saturate (n : Int) : Int := max (-2 ^ 63) (min n (2 ^ 63 - 1))

/-- `strtol` の十進の値。先頭の空白を飛ばし、数字でない文字の手前までを読む。 -/
def strtol (s : List UInt8) : Int :=
  match s.dropWhile isSpace with
  | 45 :: ds => saturate (-(decimalValue (ds.takeWhile isDigit) : Int))
  | 43 :: ds => saturate (decimalValue (ds.takeWhile isDigit))
  | ds => saturate (decimalValue (ds.takeWhile isDigit))

theorem saturate_of_mem {n : Int} (hlo : -2 ^ 63 ≤ n) (hhi : n < 2 ^ 63) : saturate n = n := by
  unfold saturate
  omega

end StrBuf
