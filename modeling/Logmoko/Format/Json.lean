import Logmoko.Format.Line
import Logmoko.Format.Decimal

/-!
# JSON の書式

`lmk_json_format` が書く一行が RFC 8259 の object で、`file`・`handler`・`message` の値が
渡した文字列に復号されるのは、次のとき、かつそのときに限る（`json_line_iff`）。

* `file` と `handler` の名前に、引用符・逆斜線・0x20 未満の byte が無い。どちらも escape されない
* `message` に、改行のほかに 0x20 未満の byte が無い。改行だけが escape される
* `message` の最後の byte より前の分が、escape した後で 1021 byte 以内である

以下で `escByte` は一つの byte の escape である。
-/

namespace Logmoko

open JsonText

/-! ## escape の loop -/

/-- 一つの byte の escape。 -/
def escByte (b : UInt8) : List UInt8 :=
  if b = 34 ∨ b = 92 then [92, b] else if b = 10 then [92, 110] else [b]

/-- escape した後の長さ。 -/
def escapedLength (bytes : List UInt8) : Nat := (bytes.flatMap escByte).length

theorem lmkJsonEscape_cons (dstSize i : Nat) (b : UInt8) (src : List UInt8) :
    lmkJsonEscape dstSize i (b :: src) =
      if i + 2 < dstSize then
        escByte b ++ lmkJsonEscape dstSize (i + (escByte b).length) src
      else [] := by
  rw [lmkJsonEscape, escByte]
  split
  · split
    · rfl
    · split <;> rfl
  · rfl

/--
loop は入力の先頭 `done` までを escape して終わる。入力が残っていれば、書き込み先が尽きている。
残っていなければ、最後の byte の前でまだ余地があった。
-/
theorem lmkJsonEscape_eq (dstSize i : Nat) (src : List UInt8) :
    ∃ done rest, src = done ++ rest ∧ lmkJsonEscape dstSize i src = done.flatMap escByte ∧
      (rest ≠ [] → dstSize ≤ i + escapedLength done + 2) ∧
      (rest = [] → src ≠ [] → i + escapedLength src.dropLast + 2 < dstSize) := by
  induction src generalizing i with
  | nil => exact ⟨[], [], rfl, rfl, fun h => absurd rfl h, fun _ h => absurd rfl h⟩
  | cons b src ih =>
    rw [lmkJsonEscape_cons]
    by_cases hi : i + 2 < dstSize
    · rw [if_pos hi]
      obtain ⟨done, rest, hsrc, heq, hrest, hdone⟩ := ih (i + (escByte b).length)
      refine ⟨b :: done, rest, by rw [hsrc]; rfl, by rw [heq]; rfl, ?_, ?_⟩
      · intro hne
        have := hrest hne
        simp only [escapedLength, List.flatMap_cons, List.length_append] at this ⊢
        omega
      · intro hnil _
        cases hs : src with
        | nil => simpa [escapedLength] using hi
        | cons c src' =>
          have := hdone hnil (by simp [hs])
          rw [hs] at this
          rw [List.dropLast_cons_cons]
          simp only [escapedLength, List.flatMap_cons, List.length_append] at this ⊢
          omega
    · rw [if_neg hi]
      exact ⟨[], b :: src, rfl, rfl, fun _ => by simp [escapedLength]; omega, by simp⟩

/-- `message` が切り詰められず、そのまま復号できる。 -/
def MessageOk (message : List UInt8) : Prop :=
  (∀ b ∈ message, b = 10 ∨ 32 ≤ b) ∧ escapedLength message.dropLast + 2 < jsonEscapedSize

instance : DecidablePred MessageOk := fun message =>
  decidable_of_iff (message.all (fun b => decide (b = 10 ∨ 32 ≤ b)) = true ∧
    escapedLength message.dropLast + 2 < jsonEscapedSize) (by simp [MessageOk])

/-- escape は、改行と 0x20 以上の byte については復号で元に戻る。 -/
theorem stringBody_escByte {b : UInt8} (hb : b = 10 ∨ 32 ≤ b) (s : List UInt8) :
    stringBody (escByte b ++ s) = (stringBody s).map fun p => (b :: p.1, p.2) := by
  unfold escByte
  split
  · next hq =>
    rw [List.cons_append, stringBody_escape]
    rcases hq with rfl | rfl <;> rfl
  · next hq =>
    split
    · next h10 =>
      subst h10
      rw [List.cons_append, stringBody_escape]
      rfl
    · next h10 =>
      rw [not_or] at hq
      exact stringBody_plain ⟨hq.1, hq.2, hb.resolve_left h10⟩ s

/-- 改行でない制御文字は escape されず、文字列として読めない。 -/
theorem stringBody_escByte_control {b : UInt8} (hb : ¬ (b = 10 ∨ 32 ≤ b)) (s : List UInt8) :
    stringBody (escByte b ++ s) = none := by
  rw [not_or, UInt8.not_le] at hb
  have hq : ¬ (b = 34 ∨ b = 92) := by
    rintro (rfl | rfl)
    · exact absurd hb.2 (by decide)
    · exact absurd hb.2 (by decide)
  rw [escByte, if_neg hq, if_neg hb.1]
  exact stringBody_control hb.2 s

theorem stringBody_flatMap {bytes : List UInt8} (h : ∀ b ∈ bytes, b = 10 ∨ 32 ≤ b)
    (s : List UInt8) :
    stringBody (bytes.flatMap escByte ++ s) =
      (stringBody s).map fun p => (bytes ++ p.1, p.2) := by
  induction bytes with
  | nil => simp
  | cons b bytes ih =>
    rw [List.flatMap_cons, List.append_assoc, stringBody_escByte (h b List.mem_cons_self),
      ih fun c hc => h c (List.mem_cons_of_mem _ hc), Option.map_map]
    rfl

/-- 読めた列は escape した列そのもので、制御文字を含まない。 -/
theorem stringBody_flatMap_eq_some {bytes s v rest : List UInt8}
    (h : stringBody (bytes.flatMap escByte ++ 34 :: s) = some (v, rest)) :
    v = bytes ∧ ∀ b ∈ bytes, b = 10 ∨ 32 ≤ b := by
  induction bytes generalizing v with
  | nil =>
    rw [List.flatMap_nil, List.nil_append, stringBody_quote] at h
    exact ⟨((Prod.mk.injEq .. ▸ Option.some.inj h).1).symm, by simp⟩
  | cons b bytes ih =>
    rw [List.flatMap_cons, List.append_assoc] at h
    by_cases hb : b = 10 ∨ 32 ≤ b
    · rw [stringBody_escByte hb] at h
      obtain ⟨⟨v', r⟩, hv, hp⟩ := Option.map_eq_some_iff.mp h
      obtain ⟨rfl, rfl⟩ := Prod.mk.injEq .. ▸ hp
      obtain ⟨rfl, hbytes⟩ := ih hv
      exact ⟨rfl, by simpa using ⟨hb, hbytes⟩⟩
    · rw [stringBody_escByte_control hb] at h
      cases h

theorem escapedLength_le_dropLast (done : List UInt8) {rest : List UInt8} (h : rest ≠ []) :
    escapedLength done ≤ escapedLength (done ++ rest).dropLast := by
  rw [List.dropLast_append_of_ne_nil h]
  simp [escapedLength]

/-- `message` の値が元に戻るなら、切り詰めも制御文字も無い。 -/
theorem messageOk_of_stringBody {message s rest : List UInt8}
    (h : stringBody (lmkJsonEscape jsonEscapedSize 0 message ++ 34 :: s) =
      some (message, rest)) : MessageOk message := by
  obtain ⟨done, tail, hsrc, heq, -, hdone⟩ := lmkJsonEscape_eq jsonEscapedSize 0 message
  rw [heq] at h
  obtain ⟨hv, hbytes⟩ := stringBody_flatMap_eq_some h
  obtain rfl : tail = [] := by
    rw [hsrc] at hv
    simpa using hv
  refine ⟨hv ▸ hbytes, ?_⟩
  by_cases hne : message = []
  · rw [hne]
    decide
  · simpa using hdone rfl hne

theorem lmkJsonEscape_of_ok {message : List UInt8} (h : MessageOk message) :
    lmkJsonEscape jsonEscapedSize 0 message = message.flatMap escByte := by
  obtain ⟨done, tail, hsrc, heq, htail, -⟩ := lmkJsonEscape_eq jsonEscapedSize 0 message
  obtain rfl : tail = [] := by
    by_contra hne
    have h₁ := htail hne
    have h₂ := escapedLength_le_dropLast done hne
    have h₃ := h.2
    rw [← hsrc] at h₂
    omega
  rw [heq, hsrc, List.append_nil]

theorem stringBody_message {message : List UInt8} (h : MessageOk message) (s : List UInt8) :
    stringBody (lmkJsonEscape jsonEscapedSize 0 message ++ 34 :: s) = some (message, s) := by
  rw [lmkJsonEscape_of_ok h, stringBody_flatMap h.1, stringBody_quote]
  simp

/-! ## 一行の組み立て -/

/-- `message` の member から閉じる括弧まで。 -/
def messagePart (message : List UInt8) : List UInt8 :=
  34 :: (ascii "message" ++ 34 :: 58 :: 34 ::
    (lmkJsonEscape jsonEscapedSize 0 message ++ 34 :: [125]))

def handlerPart (handler message : List UInt8) : List UInt8 :=
  34 :: (ascii "handler" ++ 34 :: 58 :: 34 :: (handler ++ 34 :: 44 :: messagePart message))

def linePart (line : Int) (handler message : List UInt8) : List UInt8 :=
  34 :: (ascii "line" ++ 34 :: 58 :: (decimal line ++ 44 :: handlerPart handler message))

def filePart (file : List UInt8) (line : Int) (handler message : List UInt8) : List UInt8 :=
  34 :: (ascii "file" ++ 34 :: 58 :: 34 :: (file ++ 34 :: 44 :: linePart line handler message))

def levelPart (level file : List UInt8) (line : Int) (handler message : List UInt8) :
    List UInt8 :=
  34 :: (ascii "level" ++ 34 :: 58 :: 34 :: (level ++ 34 :: 44 :: filePart file line handler message))

/-- 末尾の改行を除いた一行。 -/
def jsonObject (a : FormatArgs) : List UInt8 :=
  123 :: 34 :: (ascii "timestamp" ++ 34 :: 58 :: 34 :: (a.timestamp.bytes ++ 34 :: 44 ::
    levelPart a.levelStr.bytes a.fileName.bytes a.lineNo a.handlerName.bytes a.message.bytes))

theorem jsonText_eq (a : FormatArgs) : jsonText a = jsonObject a ++ [10] := by
  have h₁ : ascii "\x7b\"timestamp\":\"" = 123 :: 34 :: (ascii "timestamp" ++ [34, 58, 34]) := by
    decide
  have h₂ : ascii "\",\"level\":\"" = 34 :: 44 :: 34 :: (ascii "level" ++ [34, 58, 34]) := by decide
  have h₃ : ascii "\",\"file\":\"" = 34 :: 44 :: 34 :: (ascii "file" ++ [34, 58, 34]) := by decide
  have h₄ : ascii "\",\"line\":" = 34 :: 44 :: 34 :: (ascii "line" ++ [34, 58]) := by decide
  have h₅ : ascii ",\"handler\":\"" = 44 :: 34 :: (ascii "handler" ++ [34, 58, 34]) := by decide
  have h₆ : ascii "\",\"message\":\"" = 34 :: 44 :: 34 :: (ascii "message" ++ [34, 58, 34]) := by
    decide
  have h₇ : ascii "\"\x7d" = [34, 125] := by decide
  rw [jsonText, h₁, h₂, h₃, h₄, h₅, h₆, h₇]
  simp only [jsonObject, levelPart, filePart, linePart, handlerPart, messagePart, List.cons_append,
    List.append_assoc, List.nil_append]

section Read

variable (fuel : Nat) {line : Int} {level file handler message : List UInt8}
  {ms : List (List UInt8 × Value)} {rest : List UInt8}

theorem stringBody_closed {bytes : List UInt8} (h : ∀ b ∈ bytes, Plain b) (s : List UInt8) :
    stringBody (bytes ++ 34 :: s) = some (bytes, s) := by
  rw [stringBody_append h, stringBody_quote]
  simp

theorem members_messagePart (h : MessageOk message) :
    members (fuel + 2) (messagePart message) =
      some ([(ascii "message", .string message)], []) :=
  members_string_close fuel (forall_plain (by decide)) (stringBody_message h _)

theorem members_handlerPart (h : ∀ b ∈ handler, Plain b) :
    members (fuel + 2) (handlerPart handler message) =
      (members (fuel + 1) (messagePart message)).map fun p =>
        ((ascii "handler", .string handler) :: p.1, p.2) :=
  members_string_comma fuel (forall_plain (by decide)) (stringBody_closed h _)

theorem members_linePart :
    members (fuel + 2) (linePart line handler message) =
      (members (fuel + 1) (handlerPart handler message)).map fun p =>
        ((ascii "line", .number (decimal line)) :: p.1, p.2) := by
  obtain ⟨b, s, hdec, hb, hnum⟩ := number_decimal line (handlerPart handler message)
  rw [hdec] at hnum
  rw [linePart, hdec]
  exact members_number_comma fuel (forall_plain (by decide)) hb hnum

theorem members_filePart (h : ∀ b ∈ file, Plain b) :
    members (fuel + 2) (filePart file line handler message) =
      (members (fuel + 1) (linePart line handler message)).map fun p =>
        ((ascii "file", .string file) :: p.1, p.2) :=
  members_string_comma fuel (forall_plain (by decide)) (stringBody_closed h _)

theorem members_levelPart (h : ∀ b ∈ level, Plain b) :
    members (fuel + 2) (levelPart level file line handler message) =
      (members (fuel + 1) (filePart file line handler message)).map fun p =>
        ((ascii "level", .string level) :: p.1, p.2) :=
  members_string_comma fuel (forall_plain (by decide)) (stringBody_closed h _)

end Read

/-! ## 一行の条件 -/

/--
一行が RFC 8259 の object と改行一つからなり、`file`・`handler`・`message` の member が
ちょうど一つずつあって、渡した文字列に復号される。
-/
def JsonLine (output file handler message : List UInt8) : Prop :=
  ∃ text ms, output = text ++ [10] ∧ IsUtf8 text ∧ parse text = some (.object ms) ∧
    named (ascii "file") ms = [(ascii "file", .string file)] ∧
    named (ascii "handler") ms = [(ascii "handler", .string handler)] ∧
    named (ascii "message") ms = [(ascii "message", .string message)]

/-- 時刻の文字列。`"%Y-%m-%d %H:%M:%S"` の展開に現れる文字だけからなる。 -/
def IsTimestamp (timestamp : CStr) : Prop :=
  ∀ b ∈ timestamp.bytes, isDigit b = true ∨ b = 45 ∨ b = 58 ∨ b = 32

theorem IsTimestamp.plain {timestamp : CStr} (h : IsTimestamp timestamp) :
    ∀ b ∈ timestamp.bytes, Plain b ∧ b < 128 := by
  have hall : ∀ b : UInt8, (isDigit b = true ∨ b = 45 ∨ b = 58 ∨ b = 32) → Plain b ∧ b < 128 := by
    intro b hb
    rcases hb with hb | rfl | rfl | rfl
    · simp only [isDigit, Bool.and_eq_true, decide_eq_true_eq, UInt8.le_iff_toNat_le] at hb
      refine ⟨⟨?_, ?_, ?_⟩, ?_⟩
      · rintro rfl
        exact absurd hb (by decide)
      · rintro rfl
        exact absurd hb (by decide)
      · rw [UInt8.le_iff_toNat_le]
        exact le_trans (by decide) hb.1
      · rw [UInt8.lt_iff_toNat_lt]
        exact lt_of_le_of_lt hb.2 (by decide)
    · decide
    · decide
    · decide
  intro b hb
  exact hall b (h b hb)

theorem plain_lmkGetLogLevelStr (level : Int) :
    ∀ b ∈ (lmkGetLogLevelStr level).bytes, Plain b ∧ b < 128 := by
  have hall : (lmkGetLogLevelStr level).bytes.all (fun b => decide (Plain b ∧ b < 128)) = true := by
    unfold lmkGetLogLevelStr
    split
    · decide
    · split
      · decide
      · split
        · decide
        · split
          · decide
          · split
            · decide
            · split <;> decide
  intro b hb
  exact of_decide_eq_true (List.all_eq_true.mp hall b hb)

section Line

variable {a : FormatArgs} {ms : List (List UInt8 × Value)}

theorem eight_le_length_jsonObject (a : FormatArgs) : 8 ≤ (jsonObject a).length := by
  have h : 9 ≤ (ascii "timestamp").length := by decide
  simp only [jsonObject, List.length_cons, List.length_append]
  omega

/-- 時刻と level の member を読んだ後は、`file` の member から先を読むことになる。 -/
theorem parse_jsonObject (hts : ∀ b ∈ a.timestamp.bytes, Plain b)
    (hlv : ∀ b ∈ a.levelStr.bytes, Plain b) :
    ∃ n, parse (jsonObject a) =
      (members (n + 6) (filePart a.fileName.bytes a.lineNo a.handlerName.bytes
        a.message.bytes)).bind fun p =>
          if skipWs p.2 = [] then
            some (.object ((ascii "timestamp", .string a.timestamp.bytes) ::
              (ascii "level", .string a.levelStr.bytes) :: p.1))
          else none := by
  obtain ⟨n, hn⟩ : ∃ n, (jsonObject a).length = n + 8 :=
    ⟨_, (Nat.sub_add_cancel (eight_le_length_jsonObject a)).symm⟩
  refine ⟨n, ?_⟩
  rw [parse, hn, jsonObject, value_object,
    members_string_comma (n + 6) (forall_plain (by decide)) (stringBody_closed hts _),
    members_levelPart (n + 5) hlv]
  cases members (n + 5 + 1) _ <;> rfl

/-- 三つの値が元に戻るなら、名前はそのまま書け、`message` は切り詰められていない。 -/
theorem ok_of_parse (hts : ∀ b ∈ a.timestamp.bytes, Plain b)
    (hlv : ∀ b ∈ a.levelStr.bytes, Plain b) (hparse : parse (jsonObject a) = some (.object ms))
    (hfile : named (ascii "file") ms = [(ascii "file", .string a.fileName.bytes)])
    (hhandler : named (ascii "handler") ms = [(ascii "handler", .string a.handlerName.bytes)])
    (hmessage : named (ascii "message") ms = [(ascii "message", .string a.message.bytes)]) :
    (∀ b ∈ a.fileName.bytes, Plain b) ∧ (∀ b ∈ a.handlerName.bytes, Plain b) ∧
      MessageOk a.message.bytes := by
  obtain ⟨n, hn⟩ := parse_jsonObject hts hlv
  rw [hn] at hparse
  obtain ⟨⟨ms₁, rest⟩, hmem, hparse⟩ := Option.bind_eq_some_iff.mp hparse
  dsimp only at hparse
  split at hparse
  · obtain rfl := Value.object.inj (Option.some.inj hparse)
    rw [named_cons_of_ne (by decide), named_cons_of_ne (by decide)] at hfile hhandler hmessage
    obtain ⟨hf, ms₂, rfl, hline⟩ :=
      members_string_named (n + 4) (forall_plain (by decide)) hmem hfile
    rw [members_linePart (n + 3)] at hline
    obtain ⟨⟨ms₃, r₃⟩, hmem₃, heq⟩ := Option.map_eq_some_iff.mp hline
    obtain ⟨rfl, rfl⟩ := Prod.mk.injEq .. ▸ heq
    rw [named_cons_of_ne (by decide), named_cons_of_ne (by decide)] at hhandler hmessage
    obtain ⟨hh, ms₄, hms₃, hmem₄⟩ :=
      members_string_named (n + 2) (forall_plain (by decide)) hmem₃ hhandler
    rw [hms₃, named_cons_of_ne (by decide)] at hmessage
    obtain ⟨v, s, ms₅, hbody, hms₄⟩ :=
      members_string_eq_some (n + 1) (forall_plain (by decide)) hmem₄
    rw [hms₄] at hmessage
    obtain rfl := string_eq_of_named hmessage
    exact ⟨hf, hh, messageOk_of_stringBody hbody⟩
  · cases hparse

/-- 条件の下で、object は六つの member として読める。 -/
theorem parse_of_ok (hts : ∀ b ∈ a.timestamp.bytes, Plain b)
    (hlv : ∀ b ∈ a.levelStr.bytes, Plain b) (hf : ∀ b ∈ a.fileName.bytes, Plain b)
    (hh : ∀ b ∈ a.handlerName.bytes, Plain b) (hm : MessageOk a.message.bytes) :
    parse (jsonObject a) = some (.object
      [(ascii "timestamp", .string a.timestamp.bytes), (ascii "level", .string a.levelStr.bytes),
        (ascii "file", .string a.fileName.bytes), (ascii "line", .number (decimal a.lineNo)),
        (ascii "handler", .string a.handlerName.bytes),
        (ascii "message", .string a.message.bytes)]) := by
  obtain ⟨n, hn⟩ := parse_jsonObject hts hlv
  rw [hn, members_filePart (n + 4) hf, members_linePart (n + 3),
    members_handlerPart (n + 2) hh, members_messagePart (n + 1) hm]
  rfl

end Line

/-! ## UTF-8 -/

theorem isUtf8_escByte {b : UInt8} (h : b < 128) : IsUtf8 (escByte b) := by
  unfold escByte
  split
  · exact .cons (by decide) (.cons h ⟨[], rfl⟩)
  · split
    · exact isUtf8_of_all (by decide)
    · exact .cons h ⟨[], rfl⟩

/-- ASCII でない byte は escape されない。 -/
theorem flatMap_escByte_of_le {bytes : List UInt8} (h : ∀ b ∈ bytes, 128 ≤ b) :
    bytes.flatMap escByte = bytes := by
  induction bytes with
  | nil => rfl
  | cons b bytes ih =>
    have hb : ∀ c : UInt8, c < 128 → b ≠ c := by
      rintro c hc rfl
      exact absurd (h b List.mem_cons_self) (UInt8.not_le.mpr hc)
    rw [List.flatMap_cons, ih fun c hc => h c (List.mem_cons_of_mem _ hc), escByte,
      if_neg (not_or.mpr ⟨hb 34 (by decide), hb 92 (by decide)⟩), if_neg (hb 10 (by decide))]
    rfl

/-- escape は文字の途中に何も挟まない。 -/
theorem isUtf8_flatMap_escByte {bytes : List UInt8} (h : IsUtf8 bytes) :
    IsUtf8 (bytes.flatMap escByte) := by
  obtain ⟨cs, rfl⟩ := h
  induction cs with
  | nil => exact ⟨[], rfl⟩
  | cons c cs ih =>
    rw [List.flatMap_cons, List.flatMap_append]
    refine IsUtf8.append ?_ ih
    rcases utf8EncodeChar_cases c with ⟨b, hb, heq⟩ | hle
    · rw [heq]
      simpa using isUtf8_escByte hb
    · rw [flatMap_escByte_of_le hle]
      exact ⟨[c], by simp⟩

theorem isUtf8_decimal (n : Int) : IsUtf8 (decimal n) := by
  have hmap : ∀ m : Nat, ∀ b ∈ (Nat.digits 10 m).reverse.map fun d => (48 + d).toUInt8,
      b < 128 := by
    intro m b hb
    obtain ⟨d, hd, rfl⟩ := List.mem_map.mp hb
    have hall : ∀ e ∈ List.range 10, (48 + e).toUInt8 < 128 := by decide
    exact hall d (List.mem_range.mpr (Nat.digits_lt_base (by decide) (List.mem_reverse.mp hd)))
  match n with
  | .ofNat 0 => exact isUtf8_of_all (by decide)
  | .ofNat (n + 1) => exact isUtf8_of_ascii (hmap (n + 1))
  | .negSucc n => exact .cons (by decide) (isUtf8_of_ascii (hmap (n + 1)))

theorem isUtf8_key {key s : List UInt8} (hkey : key.all (· < 128) = true) (hs : IsUtf8 s) :
    IsUtf8 (34 :: (key ++ 34 :: 58 :: s)) :=
  .cons (by decide) ((isUtf8_of_all hkey).append (.cons (by decide) (.cons (by decide) hs)))

/-- 引用符で囲んだ値と、その後の comma から先。 -/
theorem isUtf8_quoted {v s : List UInt8} (hv : IsUtf8 v) (hs : IsUtf8 s) :
    IsUtf8 (34 :: (v ++ 34 :: 44 :: s)) :=
  .cons (by decide) (hv.append (.cons (by decide) (.cons (by decide) hs)))

theorem isUtf8_jsonObject {a : FormatArgs} (hts : ∀ b ∈ a.timestamp.bytes, b < 128)
    (hlv : ∀ b ∈ a.levelStr.bytes, b < 128) (hf : IsUtf8 a.fileName.bytes)
    (hh : IsUtf8 a.handlerName.bytes) (hm : IsUtf8 a.message.bytes)
    (hok : MessageOk a.message.bytes) : IsUtf8 (jsonObject a) := by
  have hmessage : IsUtf8 (messagePart a.message.bytes) := by
    rw [messagePart, lmkJsonEscape_of_ok hok]
    refine isUtf8_key (by decide) (.cons (by decide) ?_)
    exact (isUtf8_flatMap_escByte hm).append (isUtf8_of_all (by decide))
  have hhandler : IsUtf8 (handlerPart a.handlerName.bytes a.message.bytes) :=
    isUtf8_key (by decide) (isUtf8_quoted hh hmessage)
  have hline : IsUtf8 (linePart a.lineNo a.handlerName.bytes a.message.bytes) :=
    isUtf8_key (by decide) ((isUtf8_decimal _).append (.cons (by decide) hhandler))
  have hfile : IsUtf8 (filePart a.fileName.bytes a.lineNo a.handlerName.bytes a.message.bytes) :=
    isUtf8_key (by decide) (isUtf8_quoted hf hline)
  have hlevel : IsUtf8 (levelPart a.levelStr.bytes a.fileName.bytes a.lineNo a.handlerName.bytes
      a.message.bytes) := isUtf8_key (by decide) (isUtf8_quoted (isUtf8_of_ascii hlv) hfile)
  exact .cons (by decide)
    (isUtf8_key (by decide) (isUtf8_quoted (isUtf8_of_ascii hts) hlevel))

/-! ## 書かれる一行 -/

/-- `lmk_json_format` が buffer に書いた分。 -/
def jsonOutput (size : Nat) (a : FormatArgs) (buf : Nat → UInt8) : List UInt8 :=
  let r := lmkJsonFormat.call size a
  Buffer.read (Buffer.overlay buf 0 r.written) 0 r.ret.toNat

theorem jsonOutput_eq {size : Nat} {a : FormatArgs} (h : (jsonText a).length < size)
    (buf : Nat → UInt8) : jsonOutput size a buf = jsonObject a ++ [10] := by
  rw [← jsonText_eq]
  exact Buffer.read_overlay_self fun i x hx => snprintf_written h hx

/-- 引数の条件の下で、一行が正しいこととその条件。 -/
theorem jsonLine_jsonOutput_iff {size : Nat} {a : FormatArgs} {buf : Nat → UInt8}
    (hts : IsTimestamp a.timestamp) (hlv : a.levelStr = lmkGetLogLevelStr a.logLevel)
    (hf : IsUtf8 a.fileName.bytes) (hh : IsUtf8 a.handlerName.bytes)
    (hm : IsUtf8 a.message.bytes) (hsize : (jsonText a).length < size) :
    JsonLine (jsonOutput size a buf) a.fileName.bytes a.handlerName.bytes a.message.bytes ↔
      (∀ b ∈ a.fileName.bytes, Plain b) ∧ (∀ b ∈ a.handlerName.bytes, Plain b) ∧
        MessageOk a.message.bytes := by
  have hts' : ∀ b ∈ a.timestamp.bytes, Plain b := fun b hb => (hts.plain b hb).1
  have hlv' : ∀ b ∈ a.levelStr.bytes, Plain b ∧ b < 128 := by
    rw [hlv]
    exact plain_lmkGetLogLevelStr _
  rw [jsonOutput_eq hsize]
  constructor
  · rintro ⟨text, ms, htext, -, hparse, hfile, hhandler, hmessage⟩
    obtain rfl : jsonObject a = text := List.append_cancel_right htext
    exact ok_of_parse hts' (fun b hb => (hlv' b hb).1) hparse hfile hhandler hmessage
  · rintro ⟨hpf, hph, hok⟩
    refine ⟨jsonObject a, _, rfl, ?_, parse_of_ok hts' (fun b hb => (hlv' b hb).1) hpf hph hok,
      rfl, rfl, rfl⟩
    exact isUtf8_jsonObject (fun b hb => (hts.plain b hb).2) (fun b hb => (hlv' b hb).2) hf hh hm
      hok

/--
`snprintf` が切り詰めない大きさの buffer に対して、`lmk_json_format` の一行が正しい JSON で
三つの名前と message が元に戻るのは、名前に引用符・逆斜線・制御文字が無く、message に改行の
ほかの制御文字が無く、message が escape の配列に収まるとき、かつそのときに限る。
-/
theorem json_line_iff (size : Nat) (buf : Nat → UInt8) (level lineNo : Int)
    (timestamp file handler message : CStr) (hts : IsTimestamp timestamp)
    (hf : IsUtf8 file.bytes) (hh : IsUtf8 handler.bytes) (hm : IsUtf8 message.bytes)
    (hsize : (jsonText ⟨level, lmkGetLogLevelStr level, timestamp, file, lineNo, handler,
      message⟩).length < size) :
    JsonLine (jsonOutput size ⟨level, lmkGetLogLevelStr level, timestamp, file, lineNo, handler,
        message⟩ buf) file.bytes handler.bytes message.bytes ↔
      (∀ b ∈ file.bytes, Plain b) ∧ (∀ b ∈ handler.bytes, Plain b) ∧ MessageOk message.bytes :=
  jsonLine_jsonOutput_iff hts rfl hf hh hm hsize

theorem json_line_iff_plain :
    JsonLine (jsonOutput 256 ⟨2, lmkGetLogLevelStr 2, .empty, ⟨ascii "a.c", by decide⟩, -7,
      ⟨ascii "h", by decide⟩, ⟨ascii "say \"hi\"\n", by decide⟩⟩ fun _ => 0)
        (ascii "a.c") (ascii "h") (ascii "say \"hi\"\n") :=
  (json_line_iff 256 _ 2 (-7) .empty _ _ _ (by simp [IsTimestamp, CStr.empty])
    (isUtf8_of_all (by decide)) (isUtf8_of_all (by decide)) (isUtf8_of_all (by decide))
    (by decide +kernel)).mpr
      ⟨forall_plain (by decide), forall_plain (by decide), by decide⟩

/-- tab を含む message の一行は JSON として読めない。tab は escape されない。 -/
theorem json_line_broken_by_tab :
    ¬ JsonLine (jsonOutput 256 ⟨2, lmkGetLogLevelStr 2, .empty, ⟨ascii "a.c", by decide⟩, 7,
      ⟨ascii "h", by decide⟩, ⟨ascii "x\ty", by decide⟩⟩ fun _ => 0)
        (ascii "a.c") (ascii "h") (ascii "x\ty") := by
  intro h
  have hok := ((jsonLine_jsonOutput_iff (by simp [IsTimestamp, CStr.empty]) rfl
    (isUtf8_of_all (by decide)) (isUtf8_of_all (by decide)) (isUtf8_of_all (by decide))
    (by decide +kernel)).mp h).2.2
  exact absurd hok (by decide)

end Logmoko
