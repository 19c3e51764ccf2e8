import Logmoko.Parser.Key

/-!
# 書いた値は前の値によらない

見出しでない行は、一つの key の値を変えないか、前の値によらずに定める（`CfgKey.settles`）。
だから、定める行を一つでも含む列を読んだ後の値は、読む前の値によらない（`exists_forgotten`）。
-/

namespace Logmoko

open StrBuf

variable {ch : CfgHandler} {cl : CfgLogger} {st : ParseState} {f : HandlerField}

/-! ## 書いた値が前の値によらないこと -/

/-- 列を順に読んだ後の状態。 -/
def runLines (ls : List ParsedLine) (st : ParseState) : ParseState :=
  ls.foldl (fun st l => l.step st) st

/-- 行 `l` は、条件 `C` を満たす状態の値 `g` を変えない。 -/
def Keeps {β : Type} (C : ParseState → Prop) (g : ParseState → β) (l : ParsedLine) : Prop :=
  ∀ st, C st → g (l.step st) = g st

/-- 行 `l` は、条件 `C` を満たす状態の値 `g` を、前の値によらずに定める。 -/
def Sets {β : Type} (C : ParseState → Prop) (g : ParseState → β) (l : ParsedLine) : Prop :=
  ∃ v, ∀ st, C st → g (l.step st) = v

section Forgotten

variable {β : Type} {C : ParseState → Prop} {g : ParseState → β} {ls : List ParsedLine}

theorem runLines_keeps (hC : ∀ l ∈ ls, ∀ st, C st → C (l.step st))
    (hkeep : ∀ l ∈ ls, Keeps C g l) (h : C st) : g (runLines ls st) = g st := by
  induction ls generalizing st with
  | nil => rfl
  | cons l ls ih =>
    have hrest := ih (fun m hm => hC m (List.mem_cons_of_mem l hm))
      (fun m hm => hkeep m (List.mem_cons_of_mem l hm)) (hC l List.mem_cons_self st h)
    exact hrest.trans (hkeep l List.mem_cons_self st h)

/-- 値を定める行があれば、列を読んだ後の値は前の値によらない。 -/
theorem exists_forgotten (hC : ∀ l ∈ ls, ∀ st, C st → C (l.step st))
    (hls : ∀ l ∈ ls, Keeps C g l ∨ Sets C g l) (hset : ∃ l ∈ ls, Sets C g l) :
    ∃ v, ∀ st, C st → g (runLines ls st) = v := by
  induction ls with
  | nil =>
    obtain ⟨l, hl, -⟩ := hset
    cases hl
  | cons l ls ih =>
    have hC' : ∀ m ∈ ls, ∀ st, C st → C (m.step st) := fun m hm => hC m (List.mem_cons_of_mem l hm)
    have hstep := hC l List.mem_cons_self
    by_cases hlater : ∃ m ∈ ls, Sets C g m
    · -- 後の行が定めるので、この行の後の状態によらない
      obtain ⟨v, hv⟩ := ih hC' (fun m hm => hls m (List.mem_cons_of_mem l hm)) hlater
      exact ⟨v, fun st h => hv _ (hstep st h)⟩
    · have hkeep : ∀ m ∈ ls, Keeps C g m := by
        intro m hm
        refine (hls m (List.mem_cons_of_mem l hm)).resolve_right ?_
        intro hs
        exact hlater ⟨m, hm, hs⟩
      obtain ⟨m, hm, v, hv⟩ := hset
      rcases List.mem_cons.mp hm with rfl | hm
      · exact ⟨v, fun st h => (runLines_keeps hC' hkeep (hstep st h)).trans (hv st h)⟩
      · exact absurd ⟨m, hm, v, hv⟩ hlater

end Forgotten

/-! ## 値を書く section -/

/-- 最初の handler の section を読んでいる。 -/
def InHandler (st : ParseState) : Prop :=
  st.sec = .handler ∧ st.curHandler = some 0 ∧ ∃ ch, st.cfg.handlers[0]? = some ch

/-- 最初の logger の section を読んでいる。 -/
def InLogger (st : ParseState) : Prop :=
  st.sec = .logger ∧ st.curLogger = some 0 ∧ ∃ cl, st.cfg.loggers[0]? = some cl

/-- key の値を書ける状態。 -/
def CfgKey.Open : CfgKey → ParseState → Prop
  | .logBufferSize => fun st => st.sec = .global
  | .ringBufferSize => fun st => st.sec = .global
  | .handler _ => InHandler
  | .handlers => InLogger

/-- key の値。 -/
def CfgKey.get (st : ParseState) : CfgKey → Option FieldValue
  | .logBufferSize => some (.num st.cfg.logBufferSize)
  | .ringBufferSize => some (.num st.cfg.ringBufferSize)
  | .handler f => st.cfg.handlers[0]?.map fun ch => f.get ch
  | .handlers => st.cfg.loggers[0]?.map fun cl => .flag cl.handlerNames.isEmpty

/-- 見出しでない。 -/
def ParsedLine.NotHeader : ParsedLine → Prop
  | .header _ => False
  | _ => True

theorem entry_inHandler (h : InHandler st) (hch : st.cfg.handlers[0]? = some ch)
    (key val : List UInt8) :
    entryCfg st key val = st.cfg.setHandler 0 (setHandlerKey ch (cstr key) (cstr val)) := by
  obtain ⟨hsec, hcur, -⟩ := h
  unfold entryCfg
  rw [hsec, hcur]
  dsimp only
  rw [hch]

theorem entry_inLogger (h : InLogger st) (hcl : st.cfg.loggers[0]? = some cl)
    (key val : List UInt8) :
    entryCfg st key val = st.cfg.setLogger 0 (loggerEntry cl key val) := by
  obtain ⟨hsec, hcur, -⟩ := h
  unfold entryCfg
  rw [hsec, hcur]
  dsimp only
  rw [hcl]

/-- 見出しでない行は、読んでいる section を変えない。 -/
theorem CfgKey.open_step {l : ParsedLine} (hl : l.NotHeader) (k : CfgKey) (h : k.Open st) :
    k.Open (l.step st) := by
  cases l with
  | skip => exact h
  | header name => exact hl.elim
  | entry key val =>
    cases k with
    | logBufferSize | ringBufferSize => exact h
    | handler f =>
      obtain ⟨ch, hch⟩ := h.2.2
      refine ⟨h.1, h.2.1, setHandlerKey ch (cstr key) (cstr val), ?_⟩
      show (entryCfg st key val).handlers[0]? = _
      rw [entry_inHandler h hch]
      exact Cfg.getElem?_setHandler hch _
    | handlers =>
      obtain ⟨cl, hcl⟩ := h.2.2
      refine ⟨h.1, h.2.1, loggerEntry cl key val, ?_⟩
      show (entryCfg st key val).loggers[0]? = _
      rw [entry_inLogger h hcl]
      exact Cfg.getElem?_setLogger hcl _

/-- handler の section の値は、書き込みの結果で決まる。 -/
theorem get_handler_step (h : InHandler st) (hch : st.cfg.handlers[0]? = some ch)
    (key val : List UInt8) :
    CfgKey.get ((ParsedLine.entry key val).step st) (.handler f)
      = some (f.get (setHandlerKey ch (cstr key) (cstr val))) := by
  show Option.map _ (entryCfg st key val).handlers[0]? = _
  rw [entry_inHandler h hch, Cfg.getElem?_setHandler hch]
  rfl

theorem get_handlers_step (h : InLogger st) (hcl : st.cfg.loggers[0]? = some cl)
    (key val : List UInt8) :
    CfgKey.get ((ParsedLine.entry key val).step st) .handlers
      = some (.flag (loggerEntry cl key val).handlerNames.isEmpty) := by
  show Option.map _ (entryCfg st key val).loggers[0]? = _
  rw [entry_inLogger h hcl, Cfg.getElem?_setLogger hcl]
  rfl

theorem isEmpty_addHandlerName (cl : CfgLogger) (name : CharArray 64) :
    (cl.addHandlerName name).handlerNames.isEmpty = false := by
  unfold CfgLogger.addHandlerName
  dsimp only
  cases hn : cl.handlerNames with
  | nil => rfl
  | cons n ns =>
    split
    · simp
    · rfl

/-- 名前を足していけば、一つも無いことはなくなる。 -/
theorem isEmpty_addNames {names : List (List UInt8)} (h : names ≠ []) (cl : CfgLogger) :
    (cl.addNames names).handlerNames.isEmpty = false := by
  induction names using List.reverseRecOn with
  | nil => exact absurd rfl h
  | append_singleton names n _ =>
    unfold CfgLogger.addNames
    rw [List.foldl_append]
    exact isEmpty_addHandlerName _ _

theorem lower_word (k : CfgKey) : k.word.map toLower = k.word := by
  cases k with
  | handler f => cases f <;> rfl
  | _ => rfl

/-- 書く値の行は、key の値を定める。 -/
theorem CfgKey.sets_of_writes {k : CfgKey} {key val : List UInt8}
    (hkey : (cstr key).strcasecmp k.word = true) (hval : k.Writes (cstr val)) :
    Sets k.Open (fun st => CfgKey.get st k) (.entry key val) := by
  have hspells : Spells k.word (cstr key).bytes := (beq_iff_eq.mp hkey).trans (lower_word k)
  cases k with
  | logBufferSize =>
    refine ⟨some (.num (atoi (cstr val))), ?_⟩
    intro st h
    have hsec : st.sec = .global := h
    show some (FieldValue.num (entryCfg st key val).logBufferSize) = _
    unfold entryCfg
    rw [hsec]
    dsimp only [setGlobalKey]
    rw [if_pos (show (cstr key).strcasecmp (ascii "log_buffer_size") = true from hkey)]
  | ringBufferSize =>
    refine ⟨some (.num (atoi (cstr val))), ?_⟩
    intro st h
    have hsec : st.sec = .global := h
    show some (FieldValue.num (entryCfg st key val).ringBufferSize) = _
    unfold entryCfg
    rw [hsec]
    dsimp only [setGlobalKey]
    simp only [strcasecmp_of_spells hspells]
    rfl
  | handler f =>
    obtain ⟨v, hv⟩ := HandlerField.get_write_self hval
    refine ⟨some v, ?_⟩
    intro st h
    obtain ⟨ch, hch⟩ := h.2.2
    refine (get_handler_step h hch key val).trans ?_
    rw [setHandlerKey_field hkey, hv]
  | handlers =>
    refine ⟨some (.flag false), ?_⟩
    intro st h
    obtain ⟨cl, hcl⟩ := h.2.2
    have hentry : loggerEntry cl key val = cl.addNames (listedNames (cstr val).bytes) := by
      unfold loggerEntry
      simp only [strcasecmp_of_spells hspells]
      rfl
    refine (get_handlers_step h hcl key val).trans ?_
    rw [hentry, isEmpty_addNames hval]

/-- 見出しでない行は、key の値を変えないか、前の値によらずに定める。 -/
theorem CfgKey.settles {l : ParsedLine} (hl : l.NotHeader) (k : CfgKey) :
    Keeps k.Open (fun st => CfgKey.get st k) l ∨ Sets k.Open (fun st => CfgKey.get st k) l := by
  cases l with
  | skip => exact Or.inl fun _ _ => rfl
  | header name => exact hl.elim
  | entry key val =>
    by_cases hset : (cstr key).strcasecmp k.word = true ∧ k.Writes (cstr val)
    · exact Or.inr (CfgKey.sets_of_writes hset.1 hset.2)
    · refine Or.inl ?_
      intro st h
      cases k with
      | logBufferSize =>
        have hsec : st.sec = .global := h
        have hkey : (cstr key).strcasecmp (ascii "log_buffer_size") = false :=
          strcasecmp_eq_false fun hk => hset ⟨hk, trivial⟩
        show some (FieldValue.num (entryCfg st key val).logBufferSize) = _
        unfold entryCfg
        rw [hsec]
        dsimp only [setGlobalKey]
        rw [hkey, if_neg Bool.false_ne_true]
        split <;> rfl
      | ringBufferSize =>
        have hsec : st.sec = .global := h
        have hkey : (cstr key).strcasecmp (ascii "ring_buffer_size") = false :=
          strcasecmp_eq_false fun hk => hset ⟨hk, trivial⟩
        show some (FieldValue.num (entryCfg st key val).ringBufferSize) = _
        unfold entryCfg
        rw [hsec]
        dsimp only [setGlobalKey]
        rw [hkey, if_neg Bool.false_ne_true]
        split <;> rfl
      | handler f =>
        obtain ⟨ch, hch⟩ := h.2.2
        refine (get_handler_step h hch key val).trans ?_
        have hget : f.get (setHandlerKey ch (cstr key) (cstr val)) = f.get ch := by
          by_cases hknown : ∃ f' : HandlerField, (cstr key).strcasecmp f'.word = true
          · obtain ⟨f', hf'⟩ := hknown
            rw [setHandlerKey_field hf']
            by_cases hff : f = f'
            · subst hff
              rw [HandlerField.write_of_not_writes fun hw => hset ⟨hf', hw⟩]
            · exact HandlerField.get_write_ne hff
          · rw [setHandlerKey_unknown fun f' => strcasecmp_eq_false fun hf' => hknown ⟨f', hf'⟩]
        rw [hget]
        show _ = Option.map _ st.cfg.handlers[0]?
        rw [hch]
        rfl
      | handlers =>
        obtain ⟨cl, hcl⟩ := h.2.2
        refine (get_handlers_step h hcl key val).trans ?_
        have hnames : (loggerEntry cl key val).handlerNames = cl.handlerNames := by
          unfold loggerEntry
          split
          · rfl
          · split
            · next hk =>
              have hnil : listedNames (cstr val).bytes = [] :=
                Classical.not_not.mp fun hw => hset ⟨hk, hw⟩
              rw [hnil]
              rfl
            · rfl
        rw [hnames]
        show _ = Option.map _ st.cfg.loggers[0]?
        rw [hcl]
        rfl

end Logmoko
