import Mathlib.Data.List.Basic
import Mathlib.Data.List.TakeWhile

/-!
# RFC 8259 の JSON text

UTF-8 の byte 列の上の JSON の文法を、解析する関数で与える。構造に使われる文字はすべて ASCII で、
文字列の中の ASCII でない文字はそのまま許されるので、byte の上の文法で足りる。
byte 列が UTF-8 であること（`IsUtf8`）は別に述べる。

* `stringBody` — 開いた引用符の後から、閉じる引用符までを復号する
* `number` — 数
* `value` / `members` / `elements` — 値と、object と array の中身
* `parse` — text 全体

再帰の一段ごとに入力を一つ以上読むので、入力の長さに 1 を足した燃料があれば足りる。
-/

namespace JsonText

/-! ## UTF-8 -/

/-- 文字の列の UTF-8 である。 -/
def IsUtf8 (bytes : List UInt8) : Prop := ∃ cs : List Char, bytes = cs.flatMap String.utf8EncodeChar

theorem IsUtf8.append {s t : List UInt8} (hs : IsUtf8 s) (ht : IsUtf8 t) : IsUtf8 (s ++ t) := by
  obtain ⟨cs, rfl⟩ := hs
  obtain ⟨ds, rfl⟩ := ht
  exact ⟨cs ++ ds, by simp⟩

theorem utf8EncodeChar_ofNat {n : Nat} (h : n < 128) :
    String.utf8EncodeChar (Char.ofNat n) = [UInt8.ofNat n] := by
  have hv : (Char.ofNat n).val.toNat = n := by
    rw [Char.ofNat, dif_pos (Or.inl (by omega))]
    rfl
  unfold String.utf8EncodeChar
  dsimp only
  rw [hv, if_pos (by omega)]

/-- ASCII の列は UTF-8 である。 -/
theorem isUtf8_of_ascii {s : List UInt8} (h : ∀ b ∈ s, b < 128) : IsUtf8 s := by
  refine ⟨s.map fun b => Char.ofNat b.toNat, ?_⟩
  induction s with
  | nil => rfl
  | cons b s ih =>
    have hb : b.toNat < 128 := UInt8.lt_iff_toNat_lt.mp (h b List.mem_cons_self)
    rw [List.map_cons, List.flatMap_cons, utf8EncodeChar_ofNat hb, ← ih fun c hc =>
      h c (List.mem_cons_of_mem _ hc)]
    simp

theorem le_ofNat {n : Nat} (h : 128 ≤ n) (hlt : n < 256) : 128 ≤ UInt8.ofNat n := by
  rw [UInt8.le_iff_toNat_le, UInt8.toNat_ofNat', Nat.mod_eq_of_lt hlt]
  exact h

theorem isUtf8_of_all {s : List UInt8} (h : s.all (· < 128) = true) : IsUtf8 s :=
  isUtf8_of_ascii fun b hb => of_decide_eq_true (List.all_eq_true.mp h b hb)

theorem IsUtf8.cons {b : UInt8} {s : List UInt8} (hb : b < 128) (hs : IsUtf8 s) :
    IsUtf8 (b :: s) :=
  IsUtf8.append (s := [b]) (isUtf8_of_ascii (by simpa using hb)) hs

/-- 一文字の UTF-8 は、ASCII の一 byte であるか、ASCII でない byte だけからなる。 -/
theorem utf8EncodeChar_cases (c : Char) :
    (∃ b : UInt8, b < 128 ∧ String.utf8EncodeChar c = [b]) ∨
      ∀ b ∈ String.utf8EncodeChar c, 128 ≤ b := by
  unfold String.utf8EncodeChar
  generalize c.val.toNat = v
  dsimp only
  split
  · next h =>
    refine .inl ⟨_, ?_, rfl⟩
    rw [UInt8.lt_iff_toNat_lt, UInt8.toNat_ofNat', Nat.mod_eq_of_lt (by omega)]
    exact Nat.lt_succ_of_le h
  · refine .inr ?_
    split
    · simp only [List.mem_cons, List.not_mem_nil, or_false, forall_eq_or_imp, forall_eq]
      exact ⟨le_ofNat (by omega) (by omega), le_ofNat (by omega) (by omega)⟩
    · split
      · simp only [List.mem_cons, List.not_mem_nil, or_false, forall_eq_or_imp, forall_eq]
        exact ⟨le_ofNat (by omega) (by omega), le_ofNat (by omega) (by omega),
          le_ofNat (by omega) (by omega)⟩
      · simp only [List.mem_cons, List.not_mem_nil, or_false, forall_eq_or_imp, forall_eq]
        exact ⟨le_ofNat (by omega) (by omega), le_ofNat (by omega) (by omega),
          le_ofNat (by omega) (by omega), le_ofNat (by omega) (by omega)⟩

/-! ## 文字列 -/

/-- 十六進の数字。 -/
def hexDigit (b : UInt8) : Option Nat :=
  if 48 ≤ b ∧ b ≤ 57 then some (b.toNat - 48)
  else if 97 ≤ b ∧ b ≤ 102 then some (b.toNat - 87)
  else if 65 ≤ b ∧ b ≤ 70 then some (b.toNat - 55)
  else none

/-- 四桁の十六進。 -/
def hex4 : List UInt8 → Option (Nat × List UInt8)
  | a :: b :: c :: d :: rest => do
    let a ← hexDigit a
    let b ← hexDigit b
    let c ← hexDigit c
    let d ← hexDigit d
    some (4096 * a + 256 * b + 16 * c + d, rest)
  | _ => none

/-- `\u` の後。上位の surrogate には下位の surrogate が続かなければならない。 -/
def unicodeEscape (s : List UInt8) : Option (List UInt8 × List UInt8) := do
  let (hi, rest) ← hex4 s
  if 0xD800 ≤ hi ∧ hi < 0xDC00 then
    match rest with
    | 92 :: 117 :: rest => do
      let (lo, rest) ← hex4 rest
      if 0xDC00 ≤ lo ∧ lo < 0xE000 then
        some (String.utf8EncodeChar
          (Char.ofNat (0x10000 + 0x400 * (hi - 0xD800) + (lo - 0xDC00))), rest)
      else none
    | _ => none
  else if 0xDC00 ≤ hi ∧ hi < 0xE000 then none
  else some (String.utf8EncodeChar (Char.ofNat hi), rest)

/-- 逆斜線の後の一字。 -/
def simpleEscape (b : UInt8) : Option UInt8 :=
  if b = 34 ∨ b = 92 ∨ b = 47 then some b
  else if b = 98 then some 8
  else if b = 102 then some 12
  else if b = 110 then some 10
  else if b = 114 then some 13
  else if b = 116 then some 9
  else none

/-- 逆斜線の後を復号する。 -/
def escape : List UInt8 → Option (List UInt8 × List UInt8)
  | [] => none
  | b :: s => if b = 117 then unicodeEscape s else (simpleEscape b).map fun c => ([c], s)

theorem length_utf8EncodeChar_le (c : Char) : (String.utf8EncodeChar c).length ≤ 4 := by
  unfold String.utf8EncodeChar
  dsimp only
  split
  · simp
  · split
    · simp
    · split <;> simp

theorem hexDigit_ne_quote {b : UInt8} {n : Nat} (h : hexDigit b = some n) : b ≠ 34 := by
  rintro rfl
  revert h
  simp [hexDigit]

theorem hex4_eq_some {s rest : List UInt8} {n : Nat} (h : hex4 s = some (n, rest)) :
    ∃ read, s = read ++ rest ∧ read.length = 4 ∧ 34 ∉ read := by
  unfold hex4 at h
  split at h
  · next a b c d rest' =>
    simp only [Option.bind_eq_bind, Option.bind_eq_some_iff, Option.some.injEq,
      Prod.mk.injEq] at h
    obtain ⟨_, ha, _, hb, _, hc, _, hd, -, rfl⟩ := h
    refine ⟨[a, b, c, d], rfl, rfl, ?_⟩
    simp only [List.mem_cons, List.not_mem_nil, or_false, not_or]
    exact ⟨(hexDigit_ne_quote ha).symm, (hexDigit_ne_quote hb).symm, (hexDigit_ne_quote hc).symm,
      (hexDigit_ne_quote hd).symm⟩
  · cases h

/-- escape が読んだ列は、復号した列より短くない。読んだ引用符は復号した列に残る。 -/
theorem unicodeEscape_eq_some {s v rest : List UInt8} (h : unicodeEscape s = some (v, rest)) :
    ∃ read, s = read ++ rest ∧ v.length ≤ read.length ∧ 34 ∉ read := by
  unfold unicodeEscape at h
  simp only [Option.bind_eq_bind, Option.bind_eq_some_iff] at h
  obtain ⟨⟨hi, s₁⟩, hhi, h⟩ := h
  obtain ⟨read, rfl, hlen, hq⟩ := hex4_eq_some hhi
  dsimp only at h
  split at h
  · split at h
    · next s₂ =>
      simp only [Option.bind_eq_some_iff] at h
      obtain ⟨⟨lo, s₃⟩, hlo, h⟩ := h
      obtain ⟨read', rfl, hlen', hq'⟩ := hex4_eq_some hlo
      dsimp only at h
      split at h
      · obtain ⟨rfl, rfl⟩ := Prod.mk.injEq .. ▸ Option.some.inj h
        refine ⟨read ++ 92 :: 117 :: read', by simp, ?_, by simp [hq, hq']⟩
        refine (length_utf8EncodeChar_le _).trans ?_
        simp [hlen, hlen']
      · cases h
    · cases h
  · split at h
    · cases h
    · obtain ⟨rfl, rfl⟩ := Prod.mk.injEq .. ▸ Option.some.inj h
      exact ⟨read, rfl, hlen ▸ length_utf8EncodeChar_le _, hq⟩

theorem escape_eq_some {s v rest : List UInt8} (h : escape s = some (v, rest)) :
    ∃ read, s = read ++ rest ∧ read ≠ [] ∧ v.length ≤ read.length ∧
      read.count 34 ≤ v.count 34 := by
  cases s with
  | nil => cases h
  | cons b s =>
    simp only [escape] at h
    split at h
    · next hb =>
      obtain ⟨read, rfl, hlen, hq⟩ := unicodeEscape_eq_some h
      refine ⟨b :: read, rfl, by simp, by simp; omega, ?_⟩
      rw [hb, List.count_cons_of_ne (by decide), List.count_eq_zero.mpr hq]
      exact Nat.zero_le _
    · obtain ⟨c, hc, hv⟩ := Option.map_eq_some_iff.mp h
      obtain ⟨rfl, rfl⟩ := Prod.mk.injEq .. ▸ hv
      refine ⟨[b], rfl, by simp, by simp, ?_⟩
      by_cases hb : b = 34
      · subst hb
        obtain rfl : 34 = c := Option.some.inj hc
        exact le_rfl
      · rw [List.count_cons_of_ne hb]
        exact Nat.zero_le _

/-- 開いた引用符の後から、閉じる引用符までを復号する。復号した列と、引用符の後を返す。 -/
def stringBody (s : List UInt8) : Option (List UInt8 × List UInt8) :=
  match s with
  | [] => none
  | b :: s =>
    if b = 34 then some ([], s)
    else if b = 92 then
      match _h : escape s with
      | none => none
      | some (v, rest) => (stringBody rest).map fun p => (v ++ p.1, p.2)
    else if b < 32 then none
    else (stringBody s).map fun p => (b :: p.1, p.2)
termination_by s.length
decreasing_by
  · obtain ⟨read, rfl, hne, -⟩ := escape_eq_some _h
    have := List.length_pos_iff.mpr hne
    simp only [List.length_cons, List.length_append]
    omega
  · simp

/-- 復号せずにそのまま書ける byte。 -/
def Plain (b : UInt8) : Prop := b ≠ 34 ∧ b ≠ 92 ∧ 32 ≤ b

instance : DecidablePred Plain := fun b => inferInstanceAs (Decidable (b ≠ 34 ∧ b ≠ 92 ∧ 32 ≤ b))

theorem forall_plain {bytes : List UInt8} (h : bytes.all (fun b => decide (Plain b)) = true) :
    ∀ b ∈ bytes, Plain b := fun b hb => of_decide_eq_true (List.all_eq_true.mp h b hb)

@[simp] theorem stringBody_quote (s : List UInt8) : stringBody (34 :: s) = some ([], s) := by
  rw [stringBody]
  rfl

theorem stringBody_plain {b : UInt8} (hb : Plain b) (s : List UInt8) :
    stringBody (b :: s) = (stringBody s).map fun p => (b :: p.1, p.2) := by
  rw [stringBody, if_neg hb.1, if_neg hb.2.1, if_neg (UInt8.not_lt.mpr hb.2.2)]

theorem stringBody_escape (s : List UInt8) :
    stringBody (92 :: s) =
      (escape s).bind fun e => (stringBody e.2).map fun p => (e.1 ++ p.1, p.2) := by
  rw [stringBody, if_neg (by decide), if_pos rfl]
  split
  · next h => rw [h]; rfl
  · next v rest h => rw [h]; rfl

theorem stringBody_control {b : UInt8} (hb : b < 32) (s : List UInt8) :
    stringBody (b :: s) = none := by
  have h₁ : b ≠ 34 := by rintro rfl; exact absurd hb (by decide)
  have h₂ : b ≠ 92 := by rintro rfl; exact absurd hb (by decide)
  rw [stringBody, if_neg h₁, if_neg h₂, if_pos hb]

/-- そのまま書ける byte だけの列は、閉じる引用符まで読むと元に戻る。 -/
theorem stringBody_append {bytes : List UInt8} (h : ∀ b ∈ bytes, Plain b) (s : List UInt8) :
    stringBody (bytes ++ s) = (stringBody s).map fun p => (bytes ++ p.1, p.2) := by
  induction bytes with
  | nil => simp
  | cons b bytes ih =>
    rw [List.cons_append, stringBody_plain (h b List.mem_cons_self),
      ih fun c hc => h c (List.mem_cons_of_mem _ hc), Option.map_map]
    rfl

/--
読んだ列 `raw` と復号した列 `v` の関係。逆斜線が無ければ `raw` はそのままで、あれば縮む。
`raw` の中の引用符はどれも escape されたものなので、復号した列に残る。
-/
theorem stringBody_eq_some {s v rest : List UInt8} (h : stringBody s = some (v, rest)) :
    ∃ raw, s = raw ++ 34 :: rest ∧ raw.count 34 ≤ v.count 34 ∧
      ((∀ b ∈ raw, Plain b) ∧ v = raw ∨ v.length < raw.length) := by
  induction hn : s.length using Nat.strong_induction_on generalizing s v rest with
  | _ n ih =>
    cases s with
    | nil => simp [stringBody] at h
    | cons b s =>
      have hlen : s.length < n := by simp at hn; omega
      by_cases hq : b = 34
      · subst hq
        rw [stringBody_quote] at h
        obtain ⟨rfl, rfl⟩ := Prod.mk.injEq .. ▸ Option.some.inj h
        exact ⟨[], rfl, by simp, .inl ⟨by simp, rfl⟩⟩
      · by_cases hb : b = 92
        · subst hb
          rw [stringBody_escape] at h
          obtain ⟨⟨w, t⟩, he, h⟩ := Option.bind_eq_some_iff.mp h
          obtain ⟨⟨v', r'⟩, ht, hv⟩ := Option.map_eq_some_iff.mp h
          obtain ⟨rfl, rfl⟩ := Prod.mk.injEq .. ▸ hv
          obtain ⟨read, rfl, -, hrl, hrc⟩ := escape_eq_some he
          obtain ⟨raw, rfl, hcount, hcase⟩ := ih t.length (by simp at hlen; omega) ht rfl
          have hle : v'.length ≤ raw.length := by
            rcases hcase with ⟨-, rfl⟩ | hlt
            · exact le_rfl
            · exact hlt.le
          refine ⟨92 :: read ++ raw, by simp, ?_, .inr ?_⟩
          · dsimp only
            rw [List.cons_append, List.count_cons_of_ne (by decide), List.count_append,
              List.count_append]
            omega
          · simp only [List.length_cons, List.length_append]
            omega
        · by_cases hc : b < 32
          · rw [stringBody_control hc] at h
            cases h
          · have hp : Plain b := ⟨hq, hb, UInt8.not_lt.mp hc⟩
            rw [stringBody_plain hp] at h
            obtain ⟨⟨v', r'⟩, ht, hv⟩ := Option.map_eq_some_iff.mp h
            obtain ⟨rfl, rfl⟩ := Prod.mk.injEq .. ▸ hv
            obtain ⟨raw, rfl, hcount, hcase⟩ := ih s.length hlen ht rfl
            refine ⟨b :: raw, rfl, ?_, ?_⟩
            · rw [List.count_cons_of_ne hq, List.count_cons_of_ne hq]
              exact hcount
            · rcases hcase with ⟨hraw, rfl⟩ | hlt
              · exact .inl ⟨by simpa using ⟨hp, hraw⟩, rfl⟩
              · exact .inr (by simpa using hlt)

/--
列 `bytes` をそのまま引用符で閉じたものが `bytes` に復号されるのは、`bytes` がそのまま書ける byte
だけのときに限る。引用符や逆斜線を含むと、復号した列は短くなるか、閉じる引用符を取り込む。
-/
theorem plain_of_stringBody {bytes s rest : List UInt8}
    (h : stringBody (bytes ++ 34 :: s) = some (bytes, rest)) : ∀ b ∈ bytes, Plain b := by
  obtain ⟨raw, hraw, hcount, hcase⟩ := stringBody_eq_some h
  rcases hcase with ⟨hplain, rfl⟩ | hlt
  · exact hplain
  · -- 読んだ列が `bytes` より長いなら、閉じるはずの引用符を含んでいる
    obtain ⟨t, rfl⟩ : ∃ t, raw = bytes ++ 34 :: t := by
      rcases List.append_eq_append_iff.mp hraw with ⟨tail, rfl, htail⟩ | ⟨tail, rfl, -⟩
      · cases tail with
        | nil => simp at hlt
        | cons b tail =>
          obtain rfl : 34 = b := (List.cons.inj htail).1
          exact ⟨tail, rfl⟩
      · rw [List.length_append] at hlt
        omega
    rw [List.count_append, List.count_cons_self] at hcount
    omega

/-! ## 数 -/

def isDigit (b : UInt8) : Bool := 48 ≤ b && b ≤ 57

/-- 一つ以上の数字。 -/
def digits1 (s : List UInt8) : Option (List UInt8 × List UInt8) :=
  if s.takeWhile isDigit = [] then none else some (s.takeWhile isDigit, s.dropWhile isDigit)

/-- 整数部。先頭の 0 の後に数字は続かない。 -/
def intPart : List UInt8 → Option (List UInt8 × List UInt8)
  | [] => none
  | b :: s =>
    if b = 48 then some ([48], s)
    else if isDigit b then some (b :: s.takeWhile isDigit, s.dropWhile isDigit)
    else none

def fracPart : List UInt8 → Option (List UInt8 × List UInt8)
  | 46 :: s => (digits1 s).map fun p => (46 :: p.1, p.2)
  | s => some ([], s)

def expPart : List UInt8 → Option (List UInt8 × List UInt8)
  | b :: s =>
    if b = 101 ∨ b = 69 then
      match s with
      | 43 :: s => (digits1 s).map fun p => (b :: 43 :: p.1, p.2)
      | 45 :: s => (digits1 s).map fun p => (b :: 45 :: p.1, p.2)
      | s => (digits1 s).map fun p => (b :: p.1, p.2)
    else some ([], b :: s)
  | [] => some ([], [])

/-- 符号のない数。読んだ文字の列と残りを返す。 -/
def unsignedNumber (s : List UInt8) : Option (List UInt8 × List UInt8) := do
  let (i, s) ← intPart s
  let (f, s) ← fracPart s
  let (e, s) ← expPart s
  some (i ++ f ++ e, s)

def number : List UInt8 → Option (List UInt8 × List UInt8)
  | 45 :: s => (unsignedNumber s).map fun p => (45 :: p.1, p.2)
  | s => unsignedNumber s

/-- 余分な 0 の無い数字の列は、comma の手前まで一つの数として読まれる。 -/
theorem unsignedNumber_digits {b : UInt8} {s : List UInt8} (hb : isDigit b = true)
    (h0 : b ≠ 48 ∨ s = []) (hs : ∀ c ∈ s, isDigit c = true) (t : List UInt8) :
    unsignedNumber (b :: s ++ 44 :: t) = some (b :: s, 44 :: t) := by
  have hint : intPart (b :: s ++ 44 :: t) = some (b :: s, 44 :: t) := by
    rw [List.cons_append, intPart]
    by_cases h48 : b = 48
    · subst h48
      obtain rfl := h0.resolve_left (fun h => h rfl)
      rfl
    · rw [if_neg h48, if_pos hb, List.takeWhile_append_of_pos hs, List.dropWhile_append_of_pos hs]
      simp [isDigit]
  have hfrac : fracPart (44 :: t) = some ([], 44 :: t) := rfl
  have hexp : expPart (44 :: t) = some ([], 44 :: t) := rfl
  rw [unsignedNumber, hint]
  simp only [Option.bind_eq_bind, Option.bind_some, hfrac, hexp, List.append_nil]

/-! ## 値 -/

/-- JSON の値。数は書かれた文字の列のまま持つ。 -/
inductive Value where
  | null
  | bool (b : Bool)
  | number (text : List UInt8)
  | string (bytes : List UInt8)
  | array (elements : List Value)
  | object (members : List (List UInt8 × Value))

/-- 構文に影響しない空白を飛ばす。 -/
def skipWs (s : List UInt8) : List UInt8 :=
  s.dropWhile fun b => b = 32 ∨ b = 9 ∨ b = 10 ∨ b = 13

/-- 決まった綴りを読む。 -/
def keyword (word s : List UInt8) : Option (List UInt8) :=
  if s.take word.length = word then some (s.drop word.length) else none

/-- 数と、三つの綴り。 -/
def scalar (s : List UInt8) : Option (Value × List UInt8) :=
  ((keyword [110, 117, 108, 108] s).map fun r => (Value.null, r)) <|>
    ((keyword [116, 114, 117, 101] s).map fun r => (Value.bool true, r)) <|>
    ((keyword [102, 97, 108, 115, 101] s).map fun r => (Value.bool false, r)) <|>
    ((number s).map fun p => (Value.number p.1, p.2))

mutual

/-- 値を一つ読む。 -/
def value : Nat → List UInt8 → Option (Value × List UInt8)
  | 0, _ => none
  | fuel + 1, s =>
    match skipWs s with
    | 34 :: s => (stringBody s).map fun p => (.string p.1, p.2)
    | 123 :: s =>
      match skipWs s with
      | 125 :: s => some (.object [], s)
      | s => (members fuel s).map fun p => (.object p.1, p.2)
    | 91 :: s =>
      match skipWs s with
      | 93 :: s => some (.array [], s)
      | s => (elements fuel s).map fun p => (.array p.1, p.2)
    | s => scalar s

/-- object の一つ以上の member を、閉じる括弧まで読む。 -/
def members : Nat → List UInt8 → Option (List (List UInt8 × Value) × List UInt8)
  | 0, _ => none
  | fuel + 1, s =>
    match skipWs s with
    | 34 :: s => (stringBody s).bind fun k =>
      match skipWs k.2 with
      | 58 :: s => (value fuel s).bind fun v =>
        match skipWs v.2 with
        | 44 :: s => (members fuel s).map fun p => ((k.1, v.1) :: p.1, p.2)
        | 125 :: s => some ([(k.1, v.1)], s)
        | _ => none
      | _ => none
    | _ => none

/-- array の一つ以上の要素を、閉じる括弧まで読む。 -/
def elements : Nat → List UInt8 → Option (List Value × List UInt8)
  | 0, _ => none
  | fuel + 1, s => (value fuel s).bind fun v =>
    match skipWs v.2 with
    | 44 :: s => (elements fuel s).map fun p => (v.1 :: p.1, p.2)
    | 93 :: s => some ([v.1], s)
    | _ => none

end

/-- text 全体を一つの値として読む。 -/
def parse (s : List UInt8) : Option Value :=
  (value (s.length + 1) s).bind fun p => if skipWs p.2 = [] then some p.1 else none

/-- 名前が `key` の member。 -/
def named (key : List UInt8) (ms : List (List UInt8 × Value)) : List (List UInt8 × Value) :=
  ms.filter fun m => m.1 = key

theorem named_cons_self (key : List UInt8) (v : Value) (ms : List (List UInt8 × Value)) :
    named key ((key, v) :: ms) = (key, v) :: named key ms := by simp [named]

theorem named_cons_of_ne {key k : List UInt8} (h : k ≠ key) (v : Value)
    (ms : List (List UInt8 × Value)) : named key ((k, v) :: ms) = named key ms := by
  simp [named, h]

/-! ## 空白を挟まない object を読む -/

theorem skipWs_cons {b : UInt8} (h : b ≠ 32 ∧ b ≠ 9 ∧ b ≠ 10 ∧ b ≠ 13) (s : List UInt8) :
    skipWs (b :: s) = b :: s := by
  rw [skipWs, List.dropWhile_cons_of_neg (by simpa using h)]

theorem value_string (fuel : Nat) (s : List UInt8) :
    value (fuel + 1) (34 :: s) = (stringBody s).map fun p => (.string p.1, p.2) := by
  rw [value, skipWs_cons (by decide)]
  rfl

theorem value_object (fuel : Nat) (s : List UInt8) :
    value (fuel + 1) (123 :: 34 :: s) =
      (members fuel (34 :: s)).map fun p => (.object p.1, p.2) := by
  have h : skipWs (34 :: s) = 34 :: s := skipWs_cons (by decide) s
  rw [value, skipWs_cons (by decide)]
  simp only [h]
  rfl

/-- 名前をそのまま書いた member を読む。値の後はまだ見ていない。 -/
theorem members_key {key : List UInt8} (hkey : ∀ b ∈ key, Plain b) (fuel : Nat)
    (s : List UInt8) :
    members (fuel + 1) (34 :: (key ++ 34 :: 58 :: s)) = (value fuel s).bind fun v =>
      match skipWs v.2 with
      | 44 :: s => (members fuel s).map fun p => ((key, v.1) :: p.1, p.2)
      | 125 :: s => some ([(key, v.1)], s)
      | _ => none := by
  have h : skipWs (58 :: s) = 58 :: s := skipWs_cons (by decide) s
  have hbody : stringBody (key ++ 34 :: 58 :: s) = some (key, 58 :: s) := by
    rw [stringBody_append hkey, stringBody_quote]
    simp
  rw [members, skipWs_cons (by decide)]
  simp only [hbody, Option.bind_some, h]

section Members

variable {key : List UInt8} (fuel : Nat) {s v t : List UInt8}

/-- 文字列の member を読めたなら、先頭の member はその名前と復号した文字列である。 -/
theorem members_string_eq_some (hkey : ∀ b ∈ key, Plain b)
    {ms : List (List UInt8 × Value)} {rest : List UInt8}
    (h : members (fuel + 2) (34 :: (key ++ 34 :: 58 :: 34 :: s)) = some (ms, rest)) :
    ∃ v s₁ ms', stringBody s = some (v, s₁) ∧ ms = (key, .string v) :: ms' := by
  rw [members_key hkey, value_string] at h
  obtain ⟨⟨x, s₁⟩, hx, h⟩ := Option.bind_eq_some_iff.mp h
  obtain ⟨⟨v, r⟩, hv, hp⟩ := Option.map_eq_some_iff.mp hx
  obtain ⟨rfl, rfl⟩ := Prod.mk.injEq .. ▸ hp
  dsimp only at h
  split at h
  · obtain ⟨⟨ms', r'⟩, -, hms⟩ := Option.map_eq_some_iff.mp h
    exact ⟨v, r, ms', hv, ((Prod.mk.injEq .. ▸ hms).1).symm⟩
  · exact ⟨v, r, [], hv, ((Prod.mk.injEq .. ▸ Option.some.inj h).1).symm⟩
  · cases h

theorem members_string_comma (hkey : ∀ b ∈ key, Plain b)
    (h : stringBody s = some (v, 44 :: t)) :
    members (fuel + 2) (34 :: (key ++ 34 :: 58 :: 34 :: s)) =
      (members (fuel + 1) t).map fun p => ((key, .string v) :: p.1, p.2) := by
  rw [members_key hkey, value_string, h]
  simp only [Option.map_some, Option.bind_some, skipWs_cons (b := 44) (by decide)]

theorem members_string_close (hkey : ∀ b ∈ key, Plain b)
    (h : stringBody s = some (v, 125 :: t)) :
    members (fuel + 2) (34 :: (key ++ 34 :: 58 :: 34 :: s)) = some ([(key, .string v)], t) := by
  rw [members_key hkey, value_string, h]
  simp only [Option.map_some, Option.bind_some, skipWs_cons (b := 125) (by decide)]

/-- 名前が `key` の member が一つだけなら、先頭の member がそれである。 -/
theorem string_eq_of_named {w : List UInt8} {ms : List (List UInt8 × Value)}
    (h : named key ((key, .string v) :: ms) = [(key, .string w)]) : v = w := by
  rw [named_cons_self] at h
  obtain ⟨-, hv⟩ := Prod.mk.injEq .. ▸ (List.cons.inj h).1
  exact Value.string.inj hv

/--
列 `bytes` をそのまま書いた member が唯一の `key` で、その値が `bytes` に戻るなら、
`bytes` はそのまま書ける byte だけで、続きは comma の後から読まれている。
-/
theorem members_string_named (hkey : ∀ b ∈ key, Plain b) {bytes : List UInt8}
    {ms : List (List UInt8 × Value)} {rest : List UInt8}
    (h : members (fuel + 2) (34 :: (key ++ 34 :: 58 :: 34 :: (bytes ++ 34 :: 44 :: t))) =
      some (ms, rest))
    (hnamed : named key ms = [(key, .string bytes)]) :
    (∀ b ∈ bytes, Plain b) ∧ ∃ ms', ms = (key, .string bytes) :: ms' ∧
      members (fuel + 1) t = some (ms', rest) := by
  obtain ⟨v, s₁, ms', hbody, rfl⟩ := members_string_eq_some fuel hkey h
  obtain rfl := string_eq_of_named hnamed
  have hplain := plain_of_stringBody hbody
  have hclosed : stringBody (v ++ 34 :: 44 :: t) = some (v, 44 :: t) := by
    rw [stringBody_append hplain, stringBody_quote]
    simp
  rw [members_string_comma fuel hkey hclosed] at h
  obtain ⟨⟨ms'', r⟩, hmem, heq⟩ := Option.map_eq_some_iff.mp h
  obtain ⟨hms, rfl⟩ := Prod.mk.injEq .. ▸ heq
  obtain rfl := (List.cons.inj hms).2
  exact ⟨hplain, _, rfl, hmem⟩

theorem keyword_of_ne {b w : UInt8} (h : b ≠ w) (word : List UInt8) :
    keyword (w :: word) (b :: s) = none := by
  rw [keyword, if_neg]
  intro heq
  rw [List.length_cons, List.take_succ_cons] at heq
  exact h (List.cons.inj heq).1

/-- 符号か数字で始まる値は数である。 -/
theorem value_number {b : UInt8} (hb : b = 45 ∨ isDigit b = true) :
    value (fuel + 1) (b :: s) = (number (b :: s)).map fun p => (.number p.1, p.2) := by
  have hne : ∀ c : UInt8, ¬ (c = 45 ∨ isDigit c = true) → b ≠ c := by
    rintro c hc rfl
    exact hc hb
  have hws : skipWs (b :: s) = b :: s := skipWs_cons
    ⟨hne 32 (by decide), hne 9 (by decide), hne 10 (by decide), hne 13 (by decide)⟩ s
  rw [value, hws]
  split
  · next heq => exact absurd (List.cons.inj heq).1 (hne 34 (by decide))
  · next heq => exact absurd (List.cons.inj heq).1 (hne 123 (by decide))
  · next heq => exact absurd (List.cons.inj heq).1 (hne 91 (by decide))
  · rw [scalar, keyword_of_ne (hne 110 (by decide)), keyword_of_ne (hne 116 (by decide)),
      keyword_of_ne (hne 102 (by decide))]
    rfl

theorem members_number_comma (hkey : ∀ b ∈ key, Plain b) {b : UInt8}
    (hb : b = 45 ∨ isDigit b = true) (h : number (b :: s) = some (v, 44 :: t)) :
    members (fuel + 2) (34 :: (key ++ 34 :: 58 :: b :: s)) =
      (members (fuel + 1) t).map fun p => ((key, .number v) :: p.1, p.2) := by
  rw [members_key hkey, value_number fuel hb, h]
  simp only [Option.map_some, Option.bind_some, skipWs_cons (b := 44) (by decide)]

end Members

end JsonText
