import Logmoko.Parser.Grammar

/-!
# 綴りに現れない文字

どう綴っても、見出しと key の語には区切りの文字も空白も現れない（`Word.of_spells`）。
値は前後に空白を持たず（`HandlerEntry.Value.stripped` など）、行は NUL も改行も含まない
（`ItemLine.clean`）。
-/

namespace Logmoko

open StrBuf

/-! ## 語 -/

/-- 語の文字。 -/
def isWordChar (b : UInt8) : Bool :=
  (65 ≤ b ∧ b ≤ 90) ∨ (97 ≤ b ∧ b ≤ 122) ∨ b = 95 ∨ b = 58

/-- 空でない、語の文字だけの列。 -/
structure Word (l : List UInt8) : Prop where
  nonempty : l ≠ []
  chars : ∀ b ∈ l, isWordChar b = true

variable {l k v word : List UInt8} {x : UInt8}

theorem isWordChar_bounds (h : isWordChar x = true) :
    58 ≤ x.toNat ∧ x.toNat ≤ 122 ∧ x.toNat ≠ 59 ∧ x.toNat ≠ 61 ∧ x.toNat ≠ 91 ∧ x.toNat ≠ 93 := by
  simp only [isWordChar, decide_eq_true_eq, UInt8.le_iff_toNat_le, ← UInt8.toNat_inj] at h
  simp only [UInt8.reduceToNat] at h
  omega

/-- 小文字にして語の文字になるのは、語の文字だけである。 -/
theorem isWordChar_of_toLower (h : isWordChar (toLower x) = true) : isWordChar x = true := by
  unfold toLower at h
  split at h
  · next hx =>
    unfold isWordChar
    exact decide_eq_true (Or.inl hx)
  · exact h

theorem Word.of_spells (hw : Word word) (h : Spells word l) : Word l where
  nonempty := by
    rintro rfl
    exact hw.nonempty h.symm
  chars b hb := by
    refine isWordChar_of_toLower (hw.chars _ ?_)
    rw [← h]
    exact List.mem_map_of_mem hb

theorem isSpace_of_isWordChar (h : isWordChar x = true) : isSpace x = false := by
  obtain ⟨hlo, -⟩ := isWordChar_bounds h
  simp only [isSpace, decide_eq_false_iff_not, UInt8.le_iff_toNat_le, ← UInt8.toNat_inj]
  simp only [UInt8.reduceToNat]
  omega

theorem Word.stripped (h : Word l) : Stripped l :=
  stripped_of_forall fun b hb => isSpace_of_isWordChar (h.chars b hb)

/-- 語の文字でないものは現れない。 -/
theorem Word.notMem (h : Word l) (hx : isWordChar x = false) : x ∉ l := by
  intro hm
  rw [h.chars x hm] at hx
  cases hx

theorem word_of_all (h : (!l.isEmpty && l.all isWordChar) = true) : Word l := by
  rw [Bool.and_eq_true] at h
  exact ⟨by simpa using h.1, List.all_eq_true.mp h.2⟩

theorem LevelWord.word_word (l : LevelWord) : Word l.word := by
  cases l <;> exact word_of_all rfl

theorem HandlerType.word_word (t : HandlerType) : Word t.word := by
  cases t <;> exact word_of_all rfl

theorem GlobalEntry.word_key (e : GlobalEntry) : Word e.key := by
  cases e <;> exact word_of_all rfl

theorem HandlerEntry.word_key (e : HandlerEntry) : Word e.key := by
  cases e <;> exact word_of_all rfl

theorem LoggerEntry.word_key (e : LoggerEntry) : Word e.key := by
  cases e <;> exact word_of_all rfl

/-! ## 行に書ける列 -/

/-- NUL も改行も含まない。 -/
structure Clean (l : List UInt8) : Prop where
  noNul : 0 ∉ l
  noNewline : 10 ∉ l

theorem Clean.append (hl : Clean l) (hk : Clean k) : Clean (l ++ k) where
  noNul := List.mem_append.not.mpr (not_or.mpr ⟨hl.noNul, hk.noNul⟩)
  noNewline := List.mem_append.not.mpr (not_or.mpr ⟨hl.noNewline, hk.noNewline⟩)

theorem Clean.cons (hl : Clean l) (h0 : x ≠ 0) (h10 : x ≠ 10) : Clean (x :: l) where
  noNul := List.not_mem_cons_of_ne_of_not_mem h0.symm hl.noNul
  noNewline := List.not_mem_cons_of_ne_of_not_mem h10.symm hl.noNewline

theorem clean_of_forall {q : UInt8 → Bool} (h : ∀ b ∈ l, q b = true) (h0 : q 0 = false)
    (h10 : q 10 = false) : Clean l := by
  constructor
  · intro hm
    exact absurd ((h 0 hm).symm.trans h0) (by decide)
  · intro hm
    exact absurd ((h 10 hm).symm.trans h10) (by decide)

theorem Spaces.clean (h : Spaces l) : Clean l := by
  constructor
  · intro hm
    exact absurd (h 0 hm).1 (by decide)
  · intro hm
    exact (h 10 hm).2 rfl

theorem Word.clean (h : Word l) : Clean l := clean_of_forall h.chars (by decide) (by decide)

theorem Writable.clean {s : CStr} (h : Writable s) : Clean s.bytes := ⟨s.noNul, h.noNewline⟩

/-! ## 値 -/

/-- 前後に空白を持たず、行に書ける値。 -/
structure CleanValue (v : List UInt8) : Prop where
  stripped : Stripped v
  clean : Clean v

theorem CleanValue.of_spells (hw : Word word) (h : Spells word v) : CleanValue v :=
  ⟨(hw.of_spells h).stripped, (hw.of_spells h).clean⟩

theorem CleanValue.of_writable {s : CStr} (h : Writable s) : CleanValue s.bytes :=
  ⟨h.stripped, h.clean⟩

/-- 整数の文字は数字か符号である。 -/
def isIntChar (b : UInt8) : Bool := isDigit b || b == 43 || b == 45

theorem WritesInt.chars {n : Int} (h : WritesInt n v) : ∀ b ∈ v, isIntChar b = true := by
  intro b hb
  cases h with
  | unsigned hne hds => simp [isIntChar, hds b hb]
  | plus hne hds | minus hne hds =>
    rcases List.mem_cons.mp hb with rfl | hb
    · rfl
    · simp [isIntChar, hds b hb]

theorem WritesInt.nonempty {n : Int} (h : WritesInt n v) : v ≠ [] := by
  cases h with
  | unsigned hne hds => exact hne
  | plus hne hds | minus hne hds => exact List.cons_ne_nil _ _

theorem isSpace_of_isIntChar (h : isIntChar x = true) : isSpace x = false := by
  simp only [isIntChar, isDigit, Bool.or_eq_true, decide_eq_true_eq, beq_iff_eq,
    UInt8.le_iff_toNat_le, ← UInt8.toNat_inj] at h
  simp only [isSpace, decide_eq_false_iff_not, UInt8.le_iff_toNat_le, ← UInt8.toNat_inj]
  simp only [UInt8.reduceToNat] at h ⊢
  omega

theorem CleanValue.of_writesInt {n : Int} (h : WritesInt n v) : CleanValue v :=
  ⟨stripped_of_forall fun b hb => isSpace_of_isIntChar (h.chars b hb),
    clean_of_forall h.chars (by decide) (by decide)⟩

/-- 前後に空白を持たない列の後ろに、空白で始まらない列を続ける。 -/
theorem stripped_append_cons {r : List UInt8} (hl : Stripped l) (hr : Stripped (x :: r)) :
    Stripped (l ++ x :: r) := by
  cases l with
  | nil => exact hr
  | cons y l => exact stripped_append hl.head hr (List.cons_ne_nil x r)

theorem WritesNames.nonempty {name : CharArray 64} {names : List (CharArray 64)}
    (h : WritesNames (name :: names) v) : v ≠ [] := by
  cases h with
  | single hn => exact hn.nonempty
  | cons hn => simp [hn.nonempty]

theorem CleanValue.of_writesNames {names : List (CharArray 64)} (h : WritesNames names v) :
    CleanValue v := by
  induction h with
  | nil => exact ⟨rfl, List.not_mem_nil, List.not_mem_nil⟩
  | single hn => exact CleanValue.of_writable hn.writable
  | @cons n m ns a b v hn ha hb h ih =>
    constructor
    · have hrest : Stripped (44 :: (b ++ v)) := by
        rw [← List.cons_append]
        exact stripped_append (by decide) ih.stripped h.nonempty
      cases hbytes : n.str.bytes with
      | nil => exact absurd hbytes hn.nonempty
      | cons y l =>
        rw [List.cons_append]
        refine stripped_append ?_ hrest (List.cons_ne_nil _ _)
        exact (hbytes ▸ hn.writable.stripped : Stripped (y :: l)).head
    · exact (hn.writable.clean.append ha.clean).append
        ((hb.clean.append ih.clean).cons (by decide) (by decide))

theorem GlobalEntry.Value.clean {e : GlobalEntry} (h : e.Value v) : CleanValue v := by
  cases e with
  | logBufferSize n | ringBufferSize n => exact CleanValue.of_writesInt h.1

theorem HandlerEntry.Value.clean {e : HandlerEntry} (h : e.Value v) : CleanValue v := by
  cases e with
  | type t => exact CleanValue.of_spells t.word_word h
  | level l => exact CleanValue.of_spells l.word_word h
  | filename s | ident s | facility s | format s | psk s =>
    obtain ⟨hw, rfl⟩ := h
    exact CleanValue.of_writable hw
  | maxFileSize n | maxBackupFiles n => exact CleanValue.of_writesInt h.1
  | listener l =>
    obtain ⟨hw, -, port, hport, rfl⟩ := h
    have hrest := CleanValue.of_writesInt hport
    constructor
    · refine stripped_append_cons hw.stripped ?_
      exact stripped_append (l := []) (by decide) hrest.stripped hport.nonempty
    · exact hw.clean.append (hrest.clean.cons (by decide) (by decide))

theorem LoggerEntry.Value.clean {e : LoggerEntry} (h : e.Value v) : CleanValue v := by
  cases e with
  | level l => exact CleanValue.of_spells l.word_word h
  | handlers names => exact CleanValue.of_writesNames h

/-! ## 行 -/

theorem HeaderLine.clean {kind name : List UInt8} (hw : Word kind) (hn : Clean name)
    (h : HeaderLine kind name l) : Clean l := by
  obtain ⟨ha, hb, hk, hc, hd⟩ := h
  have hbody := (hb.clean.append ((hw.of_spells hk).clean.append hn)).append hc.clean
  exact (ha.clean.append (hbody.cons (by decide) (by decide))).append
    (hd.clean.cons (by decide) (by decide))

theorem EntryLine.clean {key : List UInt8} {Value : List UInt8 → Prop} (hw : Word key)
    (hv : ∀ {v}, Value v → CleanValue v) (h : EntryLine key Value l) : Clean l := by
  obtain ⟨ha, hk, hb, hc, hvalue, hd⟩ := h
  have hright := (hc.clean.append (hv hvalue).clean).append hd.clean
  exact (ha.clean.append ((hw.of_spells hk).clean.append hb.clean)).append
    (hright.cons (by decide) (by decide))

theorem word_global : Word (ascii "global") := word_of_all rfl
theorem word_handler : Word (ascii "handler:") := word_of_all rfl
theorem word_logger : Word (ascii "logger:") := word_of_all rfl

/-- 項目の行は NUL も改行も含まない。 -/
theorem ItemLine.clean {i : CfgItem} (h : ItemLine i l) : Clean l := by
  cases i with
  | globalSection => exact HeaderLine.clean word_global ⟨List.not_mem_nil, List.not_mem_nil⟩ h
  | handlerSection name => exact HeaderLine.clean word_handler h.1.writable.clean h.2
  | loggerSection name => exact HeaderLine.clean word_logger h.1.writable.clean h.2
  | global e => exact EntryLine.clean e.word_key (fun h => h.clean) h
  | handler e => exact EntryLine.clean e.word_key (fun h => h.clean) h
  | logger e => exact EntryLine.clean e.word_key (fun h => h.clean) h

theorem SkipLine.clean (h : SkipLine l) : Clean l := by
  cases h with
  | blank ha => exact ha.clean
  | comment c hc ha hnul hnl =>
    refine ha.clean.append (Clean.cons ⟨hnul, hnl⟩ ?_ ?_)
    · rcases hc with rfl | rfl <;> decide
    · rcases hc with rfl | rfl <;> decide

end Logmoko
