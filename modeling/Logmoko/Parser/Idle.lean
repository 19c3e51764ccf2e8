import Logmoko.Parser.Key

/-!
# 値を変えない key の行

`ParsedLine.Inert` の行は、どの状態も変えない。ここでは、読むときの状態に対して
何も変えない行を定める。いまの値と同じ値を書く行と、書き込む場所の無い行がこれにあたる。

* `HandlerField.write_eq_self_iff` — handler の key
* `addNames_eq_self_iff` — 名前の並び
* `entryCfg_eq_self_iff` — key の行のすべて
-/

namespace Logmoko

open StrBuf

variable {cfg : Cfg} {ch : CfgHandler} {cl : CfgLogger} {st : ParseState} {key val : CStr}
  {f : HandlerField}

/-! ## 条件 -/

/-- その値を書いても handler の section は変わらない。 -/
def HandlerField.Idle (ch : CfgHandler) (val : CStr) : HandlerField → Prop
  | .type => parseHandlerType none val = none ∨ parseHandlerType none val = ch.type
  | .level => ch.level = lmkCfgParseLevel val
  | .filename => ch.filename.str = val.take 255
  | .ident => ch.ident.str = val.take 63
  | .facility => ch.facility.str = val.take 31
  | .format => ch.format.str = val.take 31
  | .maxFileSize => ch.maxFileSize = atol val
  | .maxBackupFiles => ch.maxBackupFiles = atoi val
  | .psk => ch.psk.str = val.take 255
  | .listener => 58 ∉ val.bytes ∨ 16 ≤ ch.listeners.length

def HandlerIdle (ch : CfgHandler) (key val : CStr) : Prop :=
  ∀ f : HandlerField, key.strcasecmp f.word = true → f.Idle ch val

def GlobalIdle (cfg : Cfg) (key val : CStr) : Prop :=
  if key.strcasecmp (ascii "log_buffer_size") then cfg.logBufferSize = atoi val
  else if key.strcasecmp (ascii "ring_buffer_size") then cfg.ringBufferSize = atoi val
  else True

def LoggerIdle (cl : CfgLogger) (key val : CStr) : Prop :=
  if key.strcasecmp (ascii "level") then cl.level = lmkCfgParseLevel val
  else if key.strcasecmp (ascii "handlers") then
    listedNames val.bytes = [] ∨ 16 ≤ cl.handlerNames.length
  else True

/-- key の行は、いま読んでいる section の値を変えない。 -/
def ParseState.Idle (st : ParseState) (key val : CStr) : Prop :=
  match st.sec, st.curHandler, st.curLogger with
  | .global, _, _ => GlobalIdle st.cfg key val
  | .handler, some i, _ => ∀ ch, st.cfg.handlers[i]? = some ch → HandlerIdle ch key val
  | .logger, _, some i => ∀ cl, st.cfg.loggers[i]? = some cl → LoggerIdle cl key val
  | _, _, _ => True

/-! ## 種類ごとの必要十分 -/

theorem CharArray.ext_str {n : Nat} {a b : CharArray n} (h : a.str = b.str) : a = b := by
  cases a
  cases b
  cases h
  rfl

theorem CharArray.strncpy_eq_iff {n : Nat} {a : CharArray n} (hn : 0 < n) :
    CharArray.strncpy hn val = a ↔ a.str = val.take (n - 1) := by
  constructor
  · rintro rfl
    rfl
  · intro h
    exact CharArray.ext_str h.symm

theorem parseListener_eq_self_iff :
    parseListener ch val = ch ↔ 58 ∉ val.bytes ∨ 16 ≤ ch.listeners.length := by
  unfold parseListener
  by_cases hcolon : 58 ∈ val.bytes
  · obtain ⟨l, r, -, hchr⟩ := exists_strrchr hcolon
    rw [hchr]
    constructor
    · -- 場所があれば listener が一つ増える
      intro h
      refine Or.inr (Nat.le_of_not_lt fun hroom => ?_)
      have hlen := congrArg (fun ch : CfgHandler => ch.listeners.length) h
      dsimp only [CfgHandler.addListener] at hlen
      rw [if_pos hroom, List.length_append] at hlen
      exact absurd hlen (Nat.succ_ne_self _)
    · intro h
      have hfull := h.resolve_left (not_not_intro hcolon)
      refine CfgHandler.ext rfl rfl rfl rfl ?_ rfl rfl rfl rfl rfl rfl
      exact if_neg (Nat.not_lt.mpr hfull)
  · rw [strrchr_eq_none hcolon]
    exact iff_of_true rfl (Or.inl hcolon)

theorem parseHandlerType_eq_self_iff {old : Option HandlerType} :
    parseHandlerType old val = old ↔
      parseHandlerType none val = none ∨ parseHandlerType none val = old := by
  rw [parseHandlerType_or]
  cases parseHandlerType none val with
  | none => exact iff_of_true rfl (Or.inl rfl)
  | some t => simp

/-- 一つの field の書き換えが値を変えないのは、書く値が前と同じときに限る。 -/
theorem update_eq_self_iff {σ α : Type} (get : σ → α) (set : α → σ) {s : σ}
    (hget : ∀ a, get (set a) = a) (hself : set (get s) = s) {a : α} : set a = s ↔ get s = a := by
  constructor
  · rintro rfl
    exact hget a
  · rintro rfl
    exact hself

/-- **handler の key が section を変えないのは、値が同じか書き込む場所の無いときに限る。** -/
theorem HandlerField.write_eq_self_iff : f.write ch val = ch ↔ f.Idle ch val := by
  cases f with
  | type =>
    refine (update_eq_self_iff CfgHandler.type (fun a => { ch with type := a })
      (fun _ => rfl) rfl).trans ?_
    rw [eq_comm]
    exact parseHandlerType_eq_self_iff
  | level =>
    exact update_eq_self_iff CfgHandler.level (fun a => { ch with level := a }) (fun _ => rfl) rfl
  | filename =>
    refine (update_eq_self_iff CfgHandler.filename (fun a => { ch with filename := a })
      (fun _ => rfl) rfl).trans ?_
    rw [eq_comm]
    exact CharArray.strncpy_eq_iff pos_256
  | ident =>
    refine (update_eq_self_iff CfgHandler.ident (fun a => { ch with ident := a })
      (fun _ => rfl) rfl).trans ?_
    rw [eq_comm]
    exact CharArray.strncpy_eq_iff pos_64
  | facility =>
    refine (update_eq_self_iff CfgHandler.facility (fun a => { ch with facility := a })
      (fun _ => rfl) rfl).trans ?_
    rw [eq_comm]
    exact CharArray.strncpy_eq_iff pos_32
  | format =>
    refine (update_eq_self_iff CfgHandler.format (fun a => { ch with format := a })
      (fun _ => rfl) rfl).trans ?_
    rw [eq_comm]
    exact CharArray.strncpy_eq_iff pos_32
  | maxFileSize =>
    exact update_eq_self_iff CfgHandler.maxFileSize (fun a => { ch with maxFileSize := a })
      (fun _ => rfl) rfl
  | maxBackupFiles =>
    exact update_eq_self_iff CfgHandler.maxBackupFiles (fun a => { ch with maxBackupFiles := a })
      (fun _ => rfl) rfl
  | psk =>
    refine (update_eq_self_iff CfgHandler.psk (fun a => { ch with psk := a })
      (fun _ => rfl) rfl).trans ?_
    rw [eq_comm]
    exact CharArray.strncpy_eq_iff pos_256
  | listener => exact parseListener_eq_self_iff

theorem setHandlerKey_eq_self_iff : setHandlerKey ch key val = ch ↔ HandlerIdle ch key val := by
  constructor
  · intro h f hf
    rw [setHandlerKey_field hf] at h
    exact HandlerField.write_eq_self_iff.mp h
  · intro h
    by_cases hknown : ∃ f : HandlerField, key.strcasecmp f.word = true
    · obtain ⟨f, hf⟩ := hknown
      rw [setHandlerKey_field hf]
      exact HandlerField.write_eq_self_iff.mpr (h f hf)
    · exact setHandlerKey_unknown fun f => strcasecmp_eq_false fun hf => hknown ⟨f, hf⟩

theorem setGlobalKey_eq_self_iff : setGlobalKey cfg key val = cfg ↔ GlobalIdle cfg key val := by
  unfold setGlobalKey GlobalIdle
  split
  · exact update_eq_self_iff Cfg.logBufferSize (fun a => { cfg with logBufferSize := a })
      (fun _ => rfl) rfl
  · split
    · exact update_eq_self_iff Cfg.ringBufferSize (fun a => { cfg with ringBufferSize := a })
        (fun _ => rfl) rfl
    · exact iff_of_true rfl trivial

/-- 名前は、場所がある限り増える。 -/
theorem length_addNames_le (cl : CfgLogger) (names : List (List UInt8)) :
    cl.handlerNames.length ≤ (cl.addNames names).handlerNames.length := by
  induction names generalizing cl with
  | nil => exact Nat.le_refl _
  | cons n names ih =>
    refine Nat.le_trans ?_ (ih (cl.addHandlerName (.strncpy pos_64 (cstr n))))
    dsimp only [CfgLogger.addHandlerName]
    split
    · rw [List.length_append]
      exact Nat.le_add_right _ _
    · exact Nat.le_refl _

/-- **名前の並びが section を変えないのは、名前が無いか場所の無いときに限る。** -/
theorem addNames_eq_self_iff {names : List (List UInt8)} :
    cl.addNames names = cl ↔ names = [] ∨ 16 ≤ cl.handlerNames.length := by
  constructor
  · intro h
    cases names with
    | nil => exact Or.inl rfl
    | cons n names =>
      refine Or.inr (Nat.le_of_not_lt fun hroom => ?_)
      have hone : (cl.addHandlerName (.strncpy pos_64 (cstr n))).handlerNames.length
          = cl.handlerNames.length + 1 := by
        dsimp only [CfgLogger.addHandlerName]
        rw [if_pos hroom, List.length_append]
        rfl
      have hgrow : (cl.addHandlerName (.strncpy pos_64 (cstr n))).handlerNames.length
          ≤ (cl.addNames (n :: names)).handlerNames.length := length_addNames_le _ names
      rw [h, hone] at hgrow
      exact Nat.not_succ_le_self _ hgrow
  · rintro (rfl | hfull)
    · rfl
    · exact addNames_of_full (Nat.not_lt.mpr hfull) names

theorem loggerEntry_eq_self_iff {key val : List UInt8} :
    loggerEntry cl key val = cl ↔ LoggerIdle cl (cstr key) (cstr val) := by
  unfold loggerEntry LoggerIdle
  split
  · exact update_eq_self_iff CfgLogger.level (fun a => { cl with level := a }) (fun _ => rfl) rfl
  · split
    · exact addNames_eq_self_iff
    · exact iff_of_true rfl trivial

/-! ## 設定のすべて -/

theorem Cfg.setHandler_eq_self_iff {i : Nat} {ch' : CfgHandler} (h : cfg.handlers[i]? = some ch) :
    cfg.setHandler i ch' = cfg ↔ ch' = ch := by
  constructor
  · intro he
    have hget := Cfg.getElem?_setHandler h ch'
    rw [he, h] at hget
    exact (Option.some.inj hget).symm
  · rintro rfl
    exact Cfg.setHandler_self h

theorem Cfg.setLogger_eq_self_iff {i : Nat} {cl' : CfgLogger} (h : cfg.loggers[i]? = some cl) :
    cfg.setLogger i cl' = cfg ↔ cl' = cl := by
  constructor
  · intro he
    have hget := Cfg.getElem?_setLogger h cl'
    rw [he, h] at hget
    exact (Option.some.inj hget).symm
  · rintro rfl
    exact Cfg.setLogger_self h

/-- **key の行が設定を変えないのは、読んでいる section の値を変えないときに限る。** -/
theorem entryCfg_eq_self_iff (st : ParseState) (key val : List UInt8) :
    entryCfg st key val = st.cfg ↔ st.Idle (cstr key) (cstr val) := by
  obtain ⟨cfg, sec, curHandler, curLogger⟩ := st
  cases sec with
  | none => exact iff_of_true rfl trivial
  | global => exact setGlobalKey_eq_self_iff
  | handler =>
    cases curHandler with
    | none => exact iff_of_true rfl trivial
    | some i =>
      unfold entryCfg ParseState.Idle
      dsimp only
      cases hch : cfg.handlers[i]? with
      | none => exact iff_of_true rfl nofun
      | some ch =>
        dsimp only
        rw [Cfg.setHandler_eq_self_iff hch, setHandlerKey_eq_self_iff]
        simp
  | logger =>
    cases curLogger with
    | none => exact iff_of_true rfl trivial
    | some i =>
      unfold entryCfg ParseState.Idle
      dsimp only
      cases hcl : cfg.loggers[i]? with
      | none => exact iff_of_true rfl nofun
      | some cl =>
        dsimp only
        rw [Cfg.setLogger_eq_self_iff hcl, loggerEntry_eq_self_iff]
        simp

end Logmoko
