import Logmoko.Parser.Meaning

/-!
# key の書き込み

`key = value` の行が設定に何を書くかを、key ごとに定める。
知らない key の行のほかに、知っている key でも何も書かない値がある。

* `setHandlerKey_field` — handler の section の行は、その key の書き込みである
* `HandlerField.get_write_self`・`HandlerField.get_write_ne` — 書いた値は前の値によらず、
  ほかの key の値は変わらない
* `ParsedLine.Inert.step` — 何も書かない行は、どの状態も変えない
-/

namespace Logmoko

open StrBuf

/-! ## handler の key -/

/-- handler の section の key。 -/
inductive HandlerField where
  | type
  | level
  | filename
  | ident
  | facility
  | format
  | maxFileSize
  | maxBackupFiles
  | psk
  | listener
deriving DecidableEq

def HandlerField.word : HandlerField → List UInt8
  | .type => ascii "type"
  | .level => ascii "level"
  | .filename => ascii "filename"
  | .ident => ascii "ident"
  | .facility => ascii "facility"
  | .format => ascii "format"
  | .maxFileSize => ascii "max_file_size"
  | .maxBackupFiles => ascii "max_backup_files"
  | .psk => ascii "psk"
  | .listener => ascii "listener"

/-- その値を書くと設定が書き換わる。知らない種類と、`:` の無い listener は何も書かない。 -/
def HandlerField.Writes (val : CStr) : HandlerField → Prop
  | .type => parseHandlerType none val ≠ none
  | .listener => 58 ∈ val.bytes
  | _ => True

/-- 書き換わる値。listener については、一つも無いかどうかだけを見る。 -/
inductive FieldValue where
  | kind (t : Option HandlerType)
  | num (n : Int)
  | text (s : CStr)
  | flag (b : Bool)
deriving DecidableEq

def HandlerField.get (ch : CfgHandler) : HandlerField → FieldValue
  | .type => .kind ch.type
  | .level => .num ch.level
  | .filename => .text ch.filename.str
  | .ident => .text ch.ident.str
  | .facility => .text ch.facility.str
  | .format => .text ch.format.str
  | .maxFileSize => .num ch.maxFileSize
  | .maxBackupFiles => .num ch.maxBackupFiles
  | .psk => .text ch.psk.str
  | .listener => .flag ch.listeners.isEmpty

/-- その key の行を読んだ後の section。 -/
def HandlerField.write (ch : CfgHandler) (val : CStr) : HandlerField → CfgHandler
  | .type => { ch with type := parseHandlerType ch.type val }
  | .level => { ch with level := lmkCfgParseLevel val }
  | .filename => { ch with filename := .strncpy pos_256 val }
  | .ident => { ch with ident := .strncpy pos_64 val }
  | .facility => { ch with facility := .strncpy pos_32 val }
  | .format => { ch with format := .strncpy pos_32 val }
  | .maxFileSize => { ch with maxFileSize := atol val }
  | .maxBackupFiles => { ch with maxBackupFiles := atoi val }
  | .psk => { ch with psk := .strncpy pos_256 val }
  | .listener => parseListener ch val

variable {key val : CStr} {ch : CfgHandler} {cl : CfgLogger} {st : ParseState}
  {f f' : HandlerField}

theorem parseHandlerType_or (old : Option HandlerType) (val : CStr) :
    parseHandlerType old val = (parseHandlerType none val).or old := by
  unfold parseHandlerType
  repeat' split
  all_goals rfl

theorem spells_of_strcasecmp (h : key.strcasecmp f.word = true) : Spells f.word key.bytes := by
  refine (beq_iff_eq.mp h).trans ?_
  cases f <;> rfl

/-- section の key の行は、その key の書き込みである。 -/
theorem setHandlerKey_field (h : key.strcasecmp f.word = true) :
    setHandlerKey ch key val = f.write ch val := by
  have hspells := spells_of_strcasecmp h
  unfold setHandlerKey
  simp only [strcasecmp_of_spells hspells]
  cases f <;> rfl

theorem setHandlerKey_unknown (h : ∀ f : HandlerField, key.strcasecmp f.word = false) :
    setHandlerKey ch key val = ch := by
  have htype := h .type
  have hlevel := h .level
  have hfilename := h .filename
  have hident := h .ident
  have hfacility := h .facility
  have hformat := h .format
  have hsize := h .maxFileSize
  have hbackup := h .maxBackupFiles
  have hpsk := h .psk
  have hlistener := h .listener
  simp only [HandlerField.word] at *
  simp [setHandlerKey, *]

/-- 何も書かない値の行は、section を変えない。 -/
theorem HandlerField.write_of_not_writes (h : ¬ f.Writes val) : f.write ch val = ch := by
  cases f with
  | type =>
    have hnone : parseHandlerType none val = none := Classical.not_not.mp h
    unfold HandlerField.write
    dsimp only
    rw [parseHandlerType_or, hnone]
    rfl
  | listener =>
    show parseListener ch val = ch
    unfold parseListener
    rw [strrchr_eq_none h]
  | _ => exact absurd trivial h

/-- 書かれた値は、前の値によらない。 -/
theorem HandlerField.get_write_self (h : f.Writes val) :
    ∃ v, ∀ ch : CfgHandler, f.get (f.write ch val) = v := by
  cases f with
  | type =>
    obtain ⟨t, ht⟩ := Option.ne_none_iff_exists'.mp h
    refine ⟨.kind (some t), ?_⟩
    intro ch
    show FieldValue.kind (parseHandlerType ch.type val) = _
    rw [parseHandlerType_or, ht]
    rfl
  | listener =>
    obtain ⟨l, r, -, hchr⟩ := exists_strrchr h
    refine ⟨.flag false, ?_⟩
    intro ch
    show FieldValue.flag (parseListener ch val).listeners.isEmpty = _
    unfold parseListener
    rw [hchr]
    dsimp only [CfgHandler.addListener]
    split
    · simp
    · next hfull =>
      cases hl : ch.listeners with
      | nil =>
        rw [hl] at hfull
        exact absurd (by decide) hfull
      | cons _ _ => rfl
  | level => exact ⟨.num (lmkCfgParseLevel val), fun _ => rfl⟩
  | filename | psk => exact ⟨.text (val.take 255), fun _ => rfl⟩
  | ident => exact ⟨.text (val.take 63), fun _ => rfl⟩
  | facility | format => exact ⟨.text (val.take 31), fun _ => rfl⟩
  | maxFileSize => exact ⟨.num (atol val), fun _ => rfl⟩
  | maxBackupFiles => exact ⟨.num (atoi val), fun _ => rfl⟩

theorem HandlerField.get_write_ne (h : f ≠ f') : f.get (f'.write ch val) = f.get ch := by
  cases f' with
  | listener =>
    show f.get (parseListener ch val) = _
    unfold parseListener
    split
    · rfl
    · cases f with
      | listener => exact absurd rfl h
      | _ => rfl
  | _ => cases f <;> first | rfl | exact absurd rfl h

/-! ## すべての key -/

/-- 設定 file の key。 -/
inductive CfgKey where
  | logBufferSize
  | ringBufferSize
  | handler (f : HandlerField)
  | handlers

def CfgKey.word : CfgKey → List UInt8
  | .logBufferSize => ascii "log_buffer_size"
  | .ringBufferSize => ascii "ring_buffer_size"
  | .handler f => f.word
  | .handlers => ascii "handlers"

/-- その値を書くと設定が書き換わる。 -/
def CfgKey.Writes (val : CStr) : CfgKey → Prop
  | .handler f => f.Writes val
  | .handlers => listedNames val.bytes ≠ []
  | _ => True

/--
その行は、どの section で読んでも何も書かない。
見出しは、値を書かなくても後の行の読み方を変えるので、これにあたらない。
-/
def ParsedLine.Inert : ParsedLine → Prop
  | .skip => True
  | .header _ => False
  | .entry key val => ∀ k : CfgKey, (cstr key).strcasecmp k.word = true → ¬ k.Writes (cstr val)

theorem strcasecmp_eq_false {w : List UInt8} (h : key.strcasecmp w ≠ true) :
    key.strcasecmp w = false := Bool.not_eq_true _ ▸ h

theorem setHandlerKey_inert
    (h : ∀ f : HandlerField, key.strcasecmp f.word = true → ¬ f.Writes val) :
    setHandlerKey ch key val = ch := by
  by_cases hknown : ∃ f : HandlerField, key.strcasecmp f.word = true
  · obtain ⟨f, hf⟩ := hknown
    rw [setHandlerKey_field hf, HandlerField.write_of_not_writes (h f hf)]
  · exact setHandlerKey_unknown fun f => strcasecmp_eq_false fun hf => hknown ⟨f, hf⟩

/-- 何も書かない行は、どの状態も変えない。 -/
theorem ParsedLine.Inert.step {l : ParsedLine} (h : l.Inert) (st : ParseState) :
    l.step st = st := by
  cases l with
  | skip => rfl
  | header name => exact h.elim
  | entry key val =>
    have hlog : (cstr key).strcasecmp (ascii "log_buffer_size") = false :=
      strcasecmp_eq_false fun hk => h .logBufferSize hk trivial
    have hring : (cstr key).strcasecmp (ascii "ring_buffer_size") = false :=
      strcasecmp_eq_false fun hk => h .ringBufferSize hk trivial
    have hlevel : (cstr key).strcasecmp (ascii "level") = false :=
      strcasecmp_eq_false fun hk => h (.handler .level) hk trivial
    have hcfg : entryCfg st key val = st.cfg := by
      unfold entryCfg
      split
      · unfold setGlobalKey
        rw [hlog, hring]
        rfl
      · split
        · next ch hch =>
          rw [setHandlerKey_inert fun f hf => h (.handler f) hf, Cfg.setHandler_self hch]
        · rfl
      · split
        · next cl hcl =>
          have hentry : loggerEntry cl key val = cl := by
            unfold loggerEntry
            rw [hlevel, if_neg Bool.false_ne_true]
            split
            · next hk =>
              have hnames : listedNames (cstr val).bytes = [] :=
                Classical.not_not.mp (h .handlers hk)
              rw [hnames]
              rfl
            · rfl
          rw [hentry, Cfg.setLogger_self hcl]
        · rfl
      · rfl
    show { st with cfg := entryCfg st key val } = st
    rw [hcfg]

end Logmoko
