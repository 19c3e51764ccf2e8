import Logmoko.Parser.Item

/-!
# section の値

section の項目を順に読むと、section の値が書かれたとおりになる。
一度しか書かれない key の値は、書かれていればその値、書かれていなければ初期値なので、
key の順序によらない。

* `HandlerDescribed.foldl` / `LoggerDescribed.foldl` — section 一つ
* `foldlM_blocks` — section の並び
-/

namespace Logmoko

/-! ## 最後に書かれた値 -/

/-- 最後に書かれた値。書かれていなければ元の値である。 -/
def lastWritten {α : Type} (old : α) (written : List α) : α := written.foldl (fun _ v => v) old

theorem WrittenOnce.last {α : Type} {written : List α} {unset v : α}
    (h : WrittenOnce written unset v) : lastWritten unset written = v := by
  rcases h with rfl | ⟨rfl, rfl⟩
  · rfl
  · rfl

/-- 一つの項目が書き換えるのが高々一つの値なら、順に読んだ後の値は最後に書かれたものである。 -/
theorem foldl_field {σ ε α : Type} (apply : σ → ε → σ) (get : σ → α) (written : ε → Option α)
    (h : ∀ e s, get (apply s e) = (written e).getD (get s)) (es : List ε) (s : σ) :
    get (es.foldl apply s) = lastWritten (get s) (es.filterMap written) := by
  induction es generalizing s with
  | nil => rfl
  | cons e es ih =>
    rw [List.foldl_cons, ih, h]
    cases hw : written e with
    | none =>
      rw [List.filterMap_cons_none hw]
      rfl
    | some v =>
      rw [List.filterMap_cons_some hw]
      rfl

/-- どの項目も変えない値は変わらない。 -/
theorem foldl_keep {σ ε α : Type} (apply : σ → ε → σ) (get : σ → α)
    (h : ∀ e s, get (apply s e) = get s) (es : List ε) (s : σ) :
    get (es.foldl apply s) = get s := by
  induction es generalizing s with
  | nil => rfl
  | cons e es ih => rw [List.foldl_cons, ih, h]

/-! ## section 一つ -/

variable {name : CharArray 64} {ch : CfgHandler} {cl : CfgLogger} {cfg : Cfg}

/-- listener は、場所のある限り書いた順に並ぶ。 -/
theorem foldl_listeners {es : List HandlerEntry}
    (h : ch.listeners.length + (es.filterMap HandlerEntry.listener?).length ≤ 16) :
    (es.foldl HandlerEntry.apply ch).listeners
      = ch.listeners ++ es.filterMap HandlerEntry.listener? := by
  induction es generalizing ch with
  | nil => exact (List.append_nil _).symm
  | cons e es ih =>
    cases e with
    | listener l =>
      have hcons : (HandlerEntry.listener l :: es).filterMap HandlerEntry.listener?
          = l :: es.filterMap HandlerEntry.listener? := rfl
      rw [hcons, List.length_cons] at h
      have hadd : (ch.addListener l).listeners = ch.listeners ++ [l] := if_pos (by omega)
      rw [List.foldl_cons, ih, HandlerEntry.apply, hadd, hcons, List.append_assoc]
      · rfl
      · rw [HandlerEntry.apply, hadd, List.length_append, List.length_singleton]
        omega
    | type | level | filename | ident | facility | format | maxFileSize | maxBackupFiles | psk =>
      exact ih h

/-- section の項目を読んだ値は、どの順に書かれていても section の表す値である。 -/
theorem HandlerDescribed.foldl {es : List HandlerEntry} (h : HandlerDescribed name es ch) :
    es.foldl HandlerEntry.apply (.start name) = ch := by
  have hname : (es.foldl HandlerEntry.apply (.start name)).name = name :=
    foldl_keep HandlerEntry.apply CfgHandler.name (by rintro (_ | _) _ <;> rfl) es _
  refine CfgHandler.ext (hname.trans h.name.symm) ?_ ?_ ?_ ?_ ?_ ?_ ?_ ?_ ?_ ?_
  · exact (foldl_field HandlerEntry.apply CfgHandler.type HandlerEntry.type?
      (by rintro (_ | _) _ <;> rfl) es _).trans h.type.last
  · exact (foldl_field HandlerEntry.apply CfgHandler.level HandlerEntry.level?
      (by rintro (_ | _) _ <;> rfl) es _).trans h.level.last
  · exact (foldl_field HandlerEntry.apply CfgHandler.filename HandlerEntry.filename?
      (by rintro (_ | _) _ <;> rfl) es _).trans h.filename.last
  · have hlen : (CfgHandler.start name).listeners.length
        + (es.filterMap HandlerEntry.listener?).length ≤ 16 := by
      rw [h.listeners]
      exact (Nat.zero_add _).trans_le ch.nr_listeners_le
    exact (foldl_listeners hlen).trans h.listeners
  · exact (foldl_field HandlerEntry.apply CfgHandler.maxFileSize HandlerEntry.maxFileSize?
      (by rintro (_ | _) _ <;> rfl) es _).trans h.maxFileSize.last
  · exact (foldl_field HandlerEntry.apply CfgHandler.maxBackupFiles HandlerEntry.maxBackupFiles?
      (by rintro (_ | _) _ <;> rfl) es _).trans h.maxBackupFiles.last
  · exact (foldl_field HandlerEntry.apply CfgHandler.format HandlerEntry.format?
      (by rintro (_ | _) _ <;> rfl) es _).trans h.format.last
  · exact (foldl_field HandlerEntry.apply CfgHandler.ident HandlerEntry.ident?
      (by rintro (_ | _) _ <;> rfl) es _).trans h.ident.last
  · exact (foldl_field HandlerEntry.apply CfgHandler.facility HandlerEntry.facility?
      (by rintro (_ | _) _ <;> rfl) es _).trans h.facility.last
  · exact (foldl_field HandlerEntry.apply CfgHandler.psk HandlerEntry.psk?
      (by rintro (_ | _) _ <;> rfl) es _).trans h.psk.last

/-- 名前の並びは、場所のある限り書いた順につながる。 -/
theorem foldl_addHandlerName {names : List (CharArray 64)}
    (h : cl.handlerNames.length + names.length ≤ 16) :
    (names.foldl CfgLogger.addHandlerName cl).handlerNames = cl.handlerNames ++ names := by
  induction names generalizing cl with
  | nil => exact (List.append_nil _).symm
  | cons n names ih =>
    rw [List.length_cons] at h
    have hadd : (cl.addHandlerName n).handlerNames = cl.handlerNames ++ [n] := if_pos (by omega)
    rw [List.foldl_cons, ih, hadd, List.append_assoc]
    · rfl
    · rw [hadd, List.length_append, List.length_singleton]
      omega

theorem foldl_handlerNames {es : List LoggerEntry}
    (h : cl.handlerNames.length + (es.flatMap LoggerEntry.names).length ≤ 16) :
    (es.foldl LoggerEntry.apply cl).handlerNames
      = cl.handlerNames ++ es.flatMap LoggerEntry.names := by
  induction es generalizing cl with
  | nil => exact (List.append_nil _).symm
  | cons e es ih =>
    rw [List.flatMap_cons, List.length_append] at h
    have hadd : (e.apply cl).handlerNames = cl.handlerNames ++ e.names := by
      cases e with
      | level l => exact (List.append_nil _).symm
      | handlers names => exact foldl_addHandlerName (by
          simp only [LoggerEntry.names] at h
          omega)
    rw [List.foldl_cons, ih, hadd, List.flatMap_cons, List.append_assoc]
    rw [hadd, List.length_append]
    omega

theorem LoggerDescribed.foldl {es : List LoggerEntry} (h : LoggerDescribed name es cl) :
    es.foldl LoggerEntry.apply (.start name) = cl := by
  have hname : ∀ (e : LoggerEntry) cl, (e.apply cl).name = cl.name := by
    rintro (l | names) cl
    · rfl
    · exact foldl_keep CfgLogger.addHandlerName CfgLogger.name (fun _ _ => rfl) names cl
  have hlevel : ∀ (e : LoggerEntry) cl, (e.apply cl).level = e.level?.getD cl.level := by
    rintro (l | names) cl
    · rfl
    · exact foldl_keep CfgLogger.addHandlerName CfgLogger.level (fun _ _ => rfl) names cl
  have hlen : (CfgLogger.start name).handlerNames.length
      + (es.flatMap LoggerEntry.names).length ≤ 16 := by
    rw [h.handlerNames]
    exact (Nat.zero_add _).trans_le cl.nr_handlers_le
  refine CfgLogger.ext ?_ ?_ ?_
  · exact (foldl_keep LoggerEntry.apply CfgLogger.name hname es _).trans h.name.symm
  · exact (foldl_field LoggerEntry.apply CfgLogger.level LoggerEntry.level? hlevel es _).trans
      h.level.last
  · exact (foldl_handlerNames hlen).trans h.handlerNames

/-! ## section の並び -/

variable {st : ParseState} {i : Nat} {blocks : List CfgBlock}

theorem foldlM_global (hsec : st.sec = .global) (es : List GlobalEntry) :
    (es.map CfgItem.global).foldlM CfgItem.step st
      = some { st with cfg := es.foldl GlobalEntry.apply st.cfg } := by
  induction es generalizing st with
  | nil => rfl
  | cons e es ih =>
    have hstep : (CfgItem.global e).step st = some { st with cfg := e.apply st.cfg } :=
      if_pos hsec
    rw [List.map_cons, List.foldlM_cons, hstep]
    exact ih hsec

/-- section の値を書き換えても、ほかの section は変わらない。 -/
theorem foldlM_handler (hsec : st.sec = .handler) (hcur : st.curHandler = some i)
    (hch : st.cfg.handlers[i]? = some ch) (es : List HandlerEntry) :
    (es.map CfgItem.handler).foldlM CfgItem.step st
      = some { st with cfg := st.cfg.setHandler i (es.foldl HandlerEntry.apply ch) } := by
  induction es generalizing st ch with
  | nil =>
    rw [List.map_nil, List.foldl_nil, Cfg.setHandler_self hch]
    rfl
  | cons e es ih =>
    have hstep : (CfgItem.handler e).step st
        = some { st with cfg := st.cfg.setHandler i (e.apply ch) } := by
      rw [CfgItem.step, if_pos hsec, hcur, Option.bind_some, hch, Option.map_some]
    have hnew : (st.cfg.setHandler i (e.apply ch)).handlers[i]? = some (e.apply ch) :=
      Cfg.getElem?_setHandler hch _
    rw [List.map_cons, List.foldlM_cons, hstep]
    show (es.map CfgItem.handler).foldlM CfgItem.step _ = _
    refine (ih ?_ ?_ hnew).trans ?_
    · exact hsec
    · exact hcur
    · rw [Cfg.setHandler_setHandler]
      rfl

theorem foldlM_logger (hsec : st.sec = .logger) (hcur : st.curLogger = some i)
    (hcl : st.cfg.loggers[i]? = some cl) (es : List LoggerEntry) :
    (es.map CfgItem.logger).foldlM CfgItem.step st
      = some { st with cfg := st.cfg.setLogger i (es.foldl LoggerEntry.apply cl) } := by
  induction es generalizing st cl with
  | nil =>
    rw [List.map_nil, List.foldl_nil, Cfg.setLogger_self hcl]
    rfl
  | cons e es ih =>
    have hstep : (CfgItem.logger e).step st
        = some { st with cfg := st.cfg.setLogger i (e.apply cl) } := by
      rw [CfgItem.step, if_pos hsec, hcur, Option.bind_some, hcl, Option.map_some]
    have hnew : (st.cfg.setLogger i (e.apply cl)).loggers[i]? = some (e.apply cl) :=
      Cfg.getElem?_setLogger hcl _
    rw [List.map_cons, List.foldlM_cons, hstep]
    show (es.map CfgItem.logger).foldlM CfgItem.step _ = _
    refine (ih ?_ ?_ hnew).trans ?_
    · exact hsec
    · exact hcur
    · rw [Cfg.setLogger_setLogger]
      rfl

/-- section 一つを読んだ後の設定。 -/
def CfgBlock.apply (cfg : Cfg) : CfgBlock → Option Cfg
  | .global es => some (es.foldl GlobalEntry.apply cfg)
  | .handler name es =>
    if h : cfg.handlers.length < 32 then
      some (cfg.addHandler (es.foldl HandlerEntry.apply (.start name)) h)
    else none
  | .logger name es =>
    if h : cfg.loggers.length < 64 then
      some (cfg.addLogger (es.foldl LoggerEntry.apply (.start name)) h)
    else none

/-- section の項目を順に読むと、section 一つを読んだ設定になる。 -/
theorem foldlM_block {block : CfgBlock} {cfg' : Cfg} (h : block.apply st.cfg = some cfg') :
    ∃ st', block.items.foldlM CfgItem.step st = some st' ∧ st'.cfg = cfg' := by
  cases block with
  | global es =>
    obtain rfl := Option.some.inj h
    refine ⟨{ st with
      cfg := es.foldl GlobalEntry.apply st.cfg, sec := .global, curHandler := none
      curLogger := none }, ?_, rfl⟩
    show (es.map CfgItem.global).foldlM CfgItem.step _ = _
    refine (foldlM_global ?_ es).trans ?_
    · rfl
    · rfl
  | handler name es =>
    simp only [CfgBlock.apply, Option.dite_none_right_eq_some] at h
    obtain ⟨hcap, hcfg⟩ := h
    have hnew : (st.cfg.addHandler (.start name) hcap).handlers[st.cfg.handlers.length]?
        = some (.start name) := List.getElem?_concat_length
    have hset : ∀ ch, (st.cfg.addHandler (.start name) hcap).setHandler st.cfg.handlers.length ch
        = st.cfg.addHandler ch hcap := by
      intro ch
      refine Cfg.ext rfl rfl ?_ rfl
      show (st.cfg.handlers ++ [_]).set st.cfg.handlers.length ch = _
      rw [List.set_append_right _ _ (Nat.le_refl _), Nat.sub_self]
      rfl
    have hheader : (CfgItem.handlerSection name).step st
        = some { cfg := st.cfg.addHandler (.start name) hcap, sec := .handler
                 curHandler := some st.cfg.handlers.length, curLogger := none } := dif_pos hcap
    rw [CfgBlock.items, List.foldlM_cons, hheader]
    refine ⟨_, foldlM_handler rfl rfl hnew es, ?_⟩
    rw [hset]
    exact Option.some.inj hcfg
  | logger name es =>
    simp only [CfgBlock.apply, Option.dite_none_right_eq_some] at h
    obtain ⟨hcap, hcfg⟩ := h
    have hnew : (st.cfg.addLogger (.start name) hcap).loggers[st.cfg.loggers.length]?
        = some (.start name) := List.getElem?_concat_length
    have hset : ∀ cl, (st.cfg.addLogger (.start name) hcap).setLogger st.cfg.loggers.length cl
        = st.cfg.addLogger cl hcap := by
      intro cl
      refine Cfg.ext rfl rfl rfl ?_
      show (st.cfg.loggers ++ [_]).set st.cfg.loggers.length cl = _
      rw [List.set_append_right _ _ (Nat.le_refl _), Nat.sub_self]
      rfl
    have hheader : (CfgItem.loggerSection name).step st
        = some { cfg := st.cfg.addLogger (.start name) hcap, sec := .logger
                 curHandler := none, curLogger := some st.cfg.loggers.length } := dif_pos hcap
    rw [CfgBlock.items, List.foldlM_cons, hheader]
    refine ⟨_, foldlM_logger rfl rfl hnew es, ?_⟩
    rw [hset]
    exact Option.some.inj hcfg

theorem foldlM_blocks {cfg' : Cfg} (h : blocks.foldlM CfgBlock.apply st.cfg = some cfg') :
    ∃ st', (blocks.flatMap CfgBlock.items).foldlM CfgItem.step st = some st' ∧
      st'.cfg = cfg' := by
  induction blocks generalizing st with
  | nil => exact ⟨st, rfl, Option.some.inj h⟩
  | cons block blocks ih =>
    rw [List.foldlM_cons] at h
    obtain ⟨u, hu, h⟩ := Option.bind_eq_some_iff.mp h
    obtain ⟨v, hv, rfl⟩ := foldlM_block hu
    obtain ⟨st', hst', hcfg⟩ := ih h
    refine ⟨st', ?_, hcfg⟩
    rw [List.flatMap_cons, List.foldlM_append, hv]
    exact hst'

/-- section の項目を読んだ値。 -/
def handlerOf (b : CharArray 64 × List HandlerEntry) : CfgHandler :=
  b.2.foldl HandlerEntry.apply (.start b.1)

def loggerOf (b : CharArray 64 × List LoggerEntry) : CfgLogger :=
  b.2.foldl LoggerEntry.apply (.start b.1)

/-- 場所が足りれば、設定は section ごとの値を並べたものになる。 -/
theorem foldlM_apply
    (hh : cfg.handlers.length + (blocks.filterMap CfgBlock.handler?).length ≤ 32)
    (hl : cfg.loggers.length + (blocks.filterMap CfgBlock.logger?).length ≤ 64) :
    ∃ cfg', blocks.foldlM CfgBlock.apply cfg = some cfg' ∧
      cfg'.handlers = cfg.handlers ++ (blocks.filterMap CfgBlock.handler?).map handlerOf ∧
      cfg'.loggers = cfg.loggers ++ (blocks.filterMap CfgBlock.logger?).map loggerOf ∧
      cfg'.logBufferSize = lastWritten cfg.logBufferSize
        ((blocks.flatMap CfgBlock.globals).filterMap GlobalEntry.logBufferSize?) ∧
      cfg'.ringBufferSize = lastWritten cfg.ringBufferSize
        ((blocks.flatMap CfgBlock.globals).filterMap GlobalEntry.ringBufferSize?) := by
  induction blocks generalizing cfg with
  | nil => exact ⟨cfg, rfl, (List.append_nil _).symm, (List.append_nil _).symm, rfl, rfl⟩
  | cons block blocks ih =>
    cases block with
    | global es =>
      have hhandlers : (es.foldl GlobalEntry.apply cfg).handlers = cfg.handlers :=
        foldl_keep GlobalEntry.apply Cfg.handlers (by rintro (_ | _) _ <;> rfl) es cfg
      have hloggers : (es.foldl GlobalEntry.apply cfg).loggers = cfg.loggers :=
        foldl_keep GlobalEntry.apply Cfg.loggers (by rintro (_ | _) _ <;> rfl) es cfg
      have hlog := foldl_field GlobalEntry.apply Cfg.logBufferSize GlobalEntry.logBufferSize?
        (by rintro (_ | _) _ <;> rfl) es cfg
      have hring := foldl_field GlobalEntry.apply Cfg.ringBufferSize GlobalEntry.ringBufferSize?
        (by rintro (_ | _) _ <;> rfl) es cfg
      obtain ⟨cfg', hcfg', hcfgHandlers, hcfgLoggers, hcfgLog, hcfgRing⟩ :=
        ih (hhandlers ▸ hh) (hloggers ▸ hl)
      refine ⟨cfg', hcfg', hhandlers ▸ hcfgHandlers, hloggers ▸ hcfgLoggers, ?_, ?_⟩
      · rw [hcfgLog, hlog, List.flatMap_cons, List.filterMap_append]
        exact (List.foldl_append ..).symm
      · rw [hcfgRing, hring, List.flatMap_cons, List.filterMap_append]
        exact (List.foldl_append ..).symm
    | handler name es =>
      have hcons : (CfgBlock.handler name es :: blocks).filterMap CfgBlock.handler?
          = (name, es) :: blocks.filterMap CfgBlock.handler? := rfl
      rw [hcons, List.length_cons] at hh
      have hcap : cfg.handlers.length < 32 := by omega
      have hlen : (cfg.addHandler (handlerOf (name, es)) hcap).handlers.length
          + (blocks.filterMap CfgBlock.handler?).length ≤ 32 := by
        simp only [Cfg.addHandler, List.length_append, List.length_singleton]
        omega
      obtain ⟨cfg', hcfg', hcfgHandlers, hrest⟩ := ih hlen hl
      refine ⟨cfg', ?_, ?_, hrest⟩
      · have happly : CfgBlock.apply cfg (.handler name es)
            = some (cfg.addHandler (handlerOf (name, es)) hcap) := dif_pos hcap
        rw [List.foldlM_cons, happly]
        exact hcfg'
      · rw [hcfgHandlers, hcons, List.map_cons]
        exact List.append_assoc ..
    | logger name es =>
      have hcons : (CfgBlock.logger name es :: blocks).filterMap CfgBlock.logger?
          = (name, es) :: blocks.filterMap CfgBlock.logger? := rfl
      rw [hcons, List.length_cons] at hl
      have hcap : cfg.loggers.length < 64 := by omega
      have hlen : (cfg.addLogger (loggerOf (name, es)) hcap).loggers.length
          + (blocks.filterMap CfgBlock.logger?).length ≤ 64 := by
        simp only [Cfg.addLogger, List.length_append, List.length_singleton]
        omega
      have hkeep : (cfg.addLogger (loggerOf (name, es)) hcap).handlers.length
          + (blocks.filterMap CfgBlock.handler?).length ≤ 32 := hh
      obtain ⟨cfg', hcfg', hcfgHandlers, hcfgLoggers, hrest⟩ := ih hkeep hlen
      refine ⟨cfg', ?_, hcfgHandlers, ?_, hrest⟩
      · have happly : CfgBlock.apply cfg (.logger name es)
            = some (cfg.addLogger (loggerOf (name, es)) hcap) := dif_pos hcap
        rw [List.foldlM_cons, happly]
        exact hcfg'
      · rw [hcfgLoggers, hcons, List.map_cons]
        exact List.append_assoc ..

/-- section の並びは、それが表す設定になる。 -/
theorem Describes.apply (h : Describes blocks cfg) :
    blocks.foldlM CfgBlock.apply Cfg.initial = some cfg := by
  have hhandlers : (blocks.filterMap CfgBlock.handler?).map handlerOf = cfg.handlers := by
    refine List.forall₂_eq_eq_eq ▸ List.forall₂_map_left_iff.mpr ?_
    exact h.handlers.imp fun _ _ hd => hd.foldl
  have hloggers : (blocks.filterMap CfgBlock.logger?).map loggerOf = cfg.loggers := by
    refine List.forall₂_eq_eq_eq ▸ List.forall₂_map_left_iff.mpr ?_
    exact h.loggers.imp fun _ _ hd => hd.foldl
  have hh : Cfg.initial.handlers.length + (blocks.filterMap CfgBlock.handler?).length ≤ 32 :=
    (Nat.zero_add _).trans_le (h.handlers.length_eq.trans_le cfg.nr_handlers_le)
  have hl : Cfg.initial.loggers.length + (blocks.filterMap CfgBlock.logger?).length ≤ 64 :=
    (Nat.zero_add _).trans_le (h.loggers.length_eq.trans_le cfg.nr_loggers_le)
  obtain ⟨cfg', hcfg', hcfgHandlers, hcfgLoggers, hlog, hring⟩ := foldlM_apply hh hl
  rw [hcfg']
  refine congrArg some (Cfg.ext ?_ ?_ ?_ ?_)
  · exact hlog.trans h.logBufferSize.last
  · exact hring.trans h.ringBufferSize.last
  · exact hcfgHandlers.trans hhandlers
  · exact hcfgLoggers.trans hloggers

end Logmoko
