import Logmoko.Parser.Cuts

/-!
# 見出しと名前の並びの範囲

見出しは section の個数を増やしてから、その要素を 0 で埋めて書き直す。
`handlers` の key は、行を `strtok_r` で切りながら、名前を `handler_names` に足していく。
どちらも、途中の要素が 0 のままか、書き終えた文字列を持つかのどちらかである。

* `wp_addHandlerNames` — 名前を足す loop
* `wp_openHandler`・`wp_openLogger` — section を始める
* `wp_openSection` — 見出しの行の残り
-/

namespace Logmoko.Raw

open StrBuf Cells Traced

variable {m : Mem} {i p : Nat}

/-! ## 名前の並び -/

/-- 個数を一つ増やし、その要素を `a` にした section。 -/
def CfgLogger.pushName (l : CfgLogger) (hroom : l.nrHandlers < 16) (a : Vector UInt8 64) :
    CfgLogger :=
  { l with
    nrHandlers := l.nrHandlers + 1
    handlerNames := l.handlerNames.set l.nrHandlers a hroom }

theorem CfgLogger.Ok.pushName {l : CfgLogger} (hok : l.Ok) (hroom : l.nrHandlers < 16)
    {a : Vector UInt8 64} (ha : LastZero a) : (l.pushName hroom a).Ok :=
  { hok with handlerNames := (hok.handlerNames.succ hroom).set hroom (Nat.lt_succ_self _) ha }

theorem CfgLogger.length_abs {l : CfgLogger} (hok : l.Ok) :
    l.abs.handlerNames.length = l.nrHandlers :=
  (List.length_map _).trans (length_used hok.handlerNames.count _)

theorem CfgLogger.abs_pushName {l : CfgLogger} (hok : l.Ok) (hroom : l.nrHandlers < 16)
    (a : Vector UInt8 64) : (l.pushName hroom a).abs = l.abs.addHandlerName (absText pos_64 a) := by
  refine Logmoko.CfgLogger.ext rfl rfl ?_
  show (used (l.handlerNames.set l.nrHandlers a hroom) (l.nrHandlers + 1)).map _
    = if l.abs.handlerNames.length < 16 then _ else _
  rw [used_push, List.map_append, CfgLogger.length_abs hok, if_pos hroom]
  rfl

/-- 一つの名前を足す。 -/
theorem wp_addHandlerName {Q : Unit → Mem → Prop} {l : CfgLogger} (hm : Inv m) (hi : i < 64)
    (hused : i < m.cfg.nrLoggers) (hl : m.cfg.loggers[i] = l) (hroom : l.nrHandlers < 16)
    (hp : Ends m.line.toList p)
    (hQ : ∀ l' : CfgLogger, l'.Ok →
      l'.abs = (if charAt m.line.toList p = 0 then l.abs
        else l.abs.addHandlerName (.strncpy pos_64 (cstrAt m.line.toList p))) →
      Q () (m.setLogger i hi l')) : wp Inv (addHandlerName i l.nrHandlers p) Q m := by
  have hok : l.Ok := hl ▸ hm.loggers.each i hi
  have hlt := hp.lt
  rw [Vector.length_toList] at hlt
  unfold addHandlerName
  refine wp_bind (wp_loadLine (by omega) ?_)
  refine wp_ite ?_ ?_
  · intro hzero
    have hsame := hQ l hok (if_pos hzero).symm
    rw [← hl, m.setLogger_self hi] at hsame
    exact wp_pure hsame
  · intro hzero
    rw [if_neg hzero] at hQ
    have hold := hok.handlerNames.each l.nrHandlers hroom
    have hfirst : ({ l with nrHandlers := l.nrHandlers + 1 } : CfgLogger)
        = l.pushName hroom l.handlerNames[l.nrHandlers] := by
      simp [CfgLogger.pushName]
    have hgrown := hok.pushName hroom hold
    obtain ⟨w, hw, hlist⟩ := strncpy_eq_some (k := 63) (by decide) l.handlerNames[l.nrHandlers]
      (cstrAt m.line.toList p).bytes
    have hlast := hold.strncpy (by decide) hlist
    -- 個数を増やしてから、名前を写す
    refine wp_bind (wp_writeLogger hm hi hused (by rw [hl, hfirst]) hgrown ?_)
    refine wp_bind (wp_lineStr hp ?_)
    refine wp_rewriteLogger hm hi hused hgrown (hok.pushName hroom hlast) ?_ ?_
    · have hget : (l.pushName hroom l.handlerNames[l.nrHandlers]).handlerNames[l.nrHandlers]
          = l.handlerNames[l.nrHandlers] := Vector.getElem_set_self _
      rw [modifyAt_eq_some hroom (by rw [hget]; exact hw)]
      simp [CfgLogger.pushName]
    · refine hQ _ (hok.pushName hroom hlast) ?_
      rw [CfgLogger.abs_pushName hok, absText_strncpy hlist]

/-- **名前を足す loop は、途中でも終わりでも範囲の中にある。** -/
theorem wp_addHandlerNames {fuel save : Nat} {tok : Option Nat} {cl : Logmoko.CfgLogger}
    (hm : Inv m) (hi : i < 64) (hused : i < m.cfg.nrLoggers)
    (htok : ∀ t ∈ tok, Ends m.line.toList t) (hsave : Ends m.line.toList save)
    (hrun : Logmoko.addHandlerNames fuel m.line.toList tok save m.cfg.loggers[i].abs = some cl) :
    wp Inv (addHandlerNames i fuel tok save)
      (fun _ m' => ∃ l' : CfgLogger, m'.cfg = (m.setLogger i hi l').cfg ∧ l'.Ok ∧ l'.abs = cl)
      m := by
  induction fuel generalizing m tok save with
  | zero => cases hrun
  | succ fuel ih =>
    have hok : m.cfg.loggers[i].Ok := hm.loggers.each i hi
    cases tok with
    | none =>
      obtain rfl := Option.some.inj hrun
      exact wp_pure ⟨m.cfg.loggers[i], by rw [m.setLogger_self hi], hok, rfl⟩
    | some tok =>
      unfold addHandlerNames
      unfold Logmoko.addHandlerNames at hrun
      rw [CfgLogger.length_abs hok] at hrun
      refine wp_bind (wp_read (a := m.cfg.loggers[i].nrHandlers) ?_ ?_)
      · dsimp only
        rw [Vector.getElem?_eq_getElem hi]
        rfl
      refine wp_ite ?_ ?_
      · intro hroom
        rw [if_pos hroom] at hrun
        dsimp only at hrun
        have htok := htok tok rfl
        refine wp_bind (wp_lmkCfgTrim hm htok ?_)
        intro line hline
        have hname := ends_trim_pointer htok
        have hsave' := ends_trim hsave tok
        rw [← hline] at hname hsave' hrun
        refine wp_bind (wp_addHandlerName (m := { m with line }) hm hi hused rfl hroom hname ?_)
        intro l' hl' habs
        refine wp_bind (wp_strtokR (hm.setLogger hi hused hl') hsave' ?_)
        intro line' hline'
        obtain ⟨htok', hsave''⟩ := ends_strtokR (c := 44) hsave'
        have hline' : line'.toList = (StrBuf.strtokR line.toList save 44).1 := hline'
        rw [← hline'] at htok' hsave'' hrun
        have hget := Mem.getElem_setLogger { m with line } hi l'
        rw [← habs, ← hget] at hrun
        refine wp_post (ih (m := { ({ m with line } : Mem).setLogger i hi l' with line := line' })
          (hm.setLogger hi hused hl') hused htok' hsave'' hrun) ?_
        rintro _ m' ⟨l'', hcfg, hl'', habs''⟩
        refine ⟨l'', hcfg.trans ?_, hl'', habs''⟩
        simp [Mem.setLogger]
      · intro hfull
        rw [if_neg hfull] at hrun
        obtain rfl := Option.some.inj hrun
        exact wp_pure ⟨m.cfg.loggers[i], by rw [m.setLogger_self hi], hok, rfl⟩

/-- logger の section の key。 -/
theorem wp_setLoggerKey {key : CStr} {val : Nat} {cl : Logmoko.CfgLogger} (hm : Inv m)
    (hi : i < 64) (hused : i < m.cfg.nrLoggers) (hval : Ends m.line.toList val)
    (hrun : Logmoko.setLoggerKey m.line.toList m.cfg.loggers[i].abs key val = some cl) :
    wp Inv (setLoggerKey i key val)
      (fun _ m' => ∃ l' : CfgLogger, m'.cfg = (m.setLogger i hi l').cfg ∧ l'.Ok ∧ l'.abs = cl)
      m := by
  have hok : m.cfg.loggers[i].Ok := hm.loggers.each i hi
  unfold setLoggerKey
  unfold Logmoko.setLoggerKey at hrun
  refine wp_ite ?_ ?_
  · intro hlevel
    rw [if_pos hlevel] at hrun
    obtain rfl := Option.some.inj hrun
    have hset : ({ m.cfg.loggers[i] with
        level := lmkCfgParseLevel (cstrAt m.line.toList val) } : CfgLogger).Ok := { hok with }
    refine wp_bind (wp_lineStr hval ?_)
    exact wp_writeLogger hm hi hused rfl hset ⟨_, rfl, hset, rfl⟩
  · intro hlevel
    rw [if_neg hlevel] at hrun
    refine wp_ite ?_ ?_
    · intro hnames
      rw [if_pos hnames] at hrun
      dsimp only at hrun
      obtain ⟨htok, hsave⟩ := ends_strtokR (c := 44) hval
      refine wp_bind (wp_strtokR hm hval ?_)
      intro line hline
      rw [← hline] at hrun htok hsave
      exact wp_addHandlerNames (m := { m with line }) hm hi hused htok hsave hrun
    · intro hnames
      rw [if_neg hnames] at hrun
      obtain rfl := Option.some.inj hrun
      exact wp_pure ⟨m.cfg.loggers[i], by rw [m.setLogger_self hi], hok, rfl⟩

/-! ## section を始める -/

theorem absText_replicate {n : Nat} (hn : 0 < n) :
    absText hn (Vector.replicate n 0) = CharArray.zero hn := by
  refine CharArray.ext_str ?_
  have htext : text (Vector.replicate n (0 : UInt8)) = [] := by
    unfold text strAt
    rw [Vector.toList_replicate, List.take_replicate, List.drop_zero, List.takeWhile_replicate]
    rfl
  show CStr.mk (text _) _ = CStr.mk [] _
  simp only [htext]

theorem charAt_ne_zero_iff {buf : List UInt8} : charAt buf p ≠ 0 ↔ strAt buf p ≠ [] := by
  constructor
  · intro h hnil
    rw [charAt_eq_head, hnil] at h
    exact h rfl
  · intro h
    exact charAt_ne_zero (r := []) (List.append_nil _).symm h

/-- 空でない名前と空いた要素があれば、section が始まる。 -/
theorem opens_iff {buf : List UInt8} {len k max : Nat} (hlen : len = k) :
    (charAt buf p ≠ 0 ∧ k < max) ↔ ((cstrAt buf p).bytes ≠ [] ∧ len < max) := by
  rw [hlen]
  exact and_congr_left fun _ => charAt_ne_zero_iff

/-- 書き終えた handler の section。 -/
def CfgHandler.opened (name : Vector UInt8 64) : CfgHandler :=
  { CfgHandler.zero with name, level := -1, type := -1 }

theorem CfgHandler.abs_opened {name : Vector UInt8 64} {s : CStr}
    (hname : absText pos_64 name = .strncpy pos_64 s) :
    (CfgHandler.opened name).abs = .start (.strncpy pos_64 s) :=
  Logmoko.CfgHandler.ext hname rfl rfl (absText_replicate pos_256) rfl rfl rfl
    (absText_replicate pos_32) (absText_replicate pos_64) (absText_replicate pos_32)
    (absText_replicate pos_256)

/-- 書き終えた logger の section。 -/
def CfgLogger.opened (name : Vector UInt8 64) : CfgLogger :=
  { CfgLogger.zero with name, level := -1 }

theorem CfgLogger.abs_opened {name : Vector UInt8 64} {s : CStr}
    (hname : absText pos_64 name = .strncpy pos_64 s) :
    (CfgLogger.opened name).abs = .start (.strncpy pos_64 s) :=
  Logmoko.CfgLogger.ext hname rfl rfl

/-- 読んでいる section は、使っている要素である。 -/
structure Cursor.Fits (cur : Cursor) (c : Cfg) : Prop where
  handler : ∀ i ∈ cur.curHandler, i < c.nrHandlers
  logger : ∀ i ∈ cur.curLogger, i < c.nrLoggers

theorem Cursor.Fits.none (sec : CfgSec) (c : Cfg) : (Cursor.mk sec .none .none).Fits c :=
  ⟨fun _ hi => (Option.not_mem_none _ hi).elim, fun _ hi => (Option.not_mem_none _ hi).elim⟩

/-- 個数を一つ増やした memory。 -/
def Mem.growHandlers (m : Mem) : Mem :=
  { m with cfg := { m.cfg with nrHandlers := m.cfg.nrHandlers + 1 } }

def Mem.growLoggers (m : Mem) : Mem :=
  { m with cfg := { m.cfg with nrLoggers := m.cfg.nrLoggers + 1 } }

theorem Inv.growHandlers (hm : Inv m) (hroom : m.cfg.nrHandlers < 32) : Inv m.growHandlers where
  handlers := hm.handlers.succ hroom
  loggers := hm.loggers

theorem Inv.growLoggers (hm : Inv m) (hroom : m.cfg.nrLoggers < 64) : Inv m.growLoggers where
  handlers := hm.handlers
  loggers := hm.loggers.succ hroom

theorem length_abs_handlers (hm : Inv m) : m.cfg.abs.handlers.length = m.cfg.nrHandlers :=
  (List.length_map _).trans (length_used hm.handlers.count _)

theorem length_abs_loggers (hm : Inv m) : m.cfg.abs.loggers.length = m.cfg.nrLoggers :=
  (List.length_map _).trans (length_used hm.loggers.count _)

/-- 増やした要素を書き終えた設定。 -/
theorem abs_growHandlers (hroom : m.cfg.nrHandlers < 32) {h : CfgHandler}
    (habs : m.cfg.abs.handlers.length < 32) :
    (m.growHandlers.setHandler m.cfg.nrHandlers hroom h).cfg.abs
      = m.cfg.abs.addHandler h.abs habs := by
  refine Logmoko.Cfg.ext rfl rfl ?_ rfl
  show (used (m.cfg.handlers.set m.cfg.nrHandlers h hroom) (m.cfg.nrHandlers + 1)).map _ = _
  rw [used_push, List.map_append]
  rfl

theorem abs_growLoggers (hroom : m.cfg.nrLoggers < 64) {l : CfgLogger}
    (habs : m.cfg.abs.loggers.length < 64) :
    (m.growLoggers.setLogger m.cfg.nrLoggers hroom l).cfg.abs
      = m.cfg.abs.addLogger l.abs habs := by
  refine Logmoko.Cfg.ext rfl rfl rfl ?_
  show (used (m.cfg.loggers.set m.cfg.nrLoggers l hroom) (m.cfg.nrLoggers + 1)).map _ = _
  rw [used_push, List.map_append]
  rfl

/-- **handler の section を始める途中でも、構造体は範囲の中にある。** -/
theorem wp_openHandler (hm : Inv m) (hp : Ends m.line.toList p) (sec : CfgSec) :
    wp Inv (openHandler p) (fun cur m' => Inv m' ∧ (Cursor.mk .handler cur none).Fits m'.cfg ∧
      (Cursor.mk .handler cur none).abs m'.cfg =
        { Logmoko.openHandler ((Cursor.mk sec none none).abs m.cfg) (cstrAt m.line.toList p) with
          sec := .handler }) m := by
  have hlt := hp.lt
  rw [Vector.length_toList] at hlt
  have hlen : ((Cursor.mk sec none none).abs m.cfg).cfg.handlers.length = m.cfg.nrHandlers :=
    length_abs_handlers hm
  unfold openHandler
  refine wp_bind (wp_loadLine (by omega) ?_)
  refine wp_bind (wp_read rfl ?_)
  refine wp_ite ?_ ?_
  · intro hopens
    have hroom := hopens.2
    have hcond := (opens_iff hlen).mp hopens
    obtain ⟨w, hw, hlist⟩ := strncpy_eq_some (k := 63) (by decide) CfgHandler.zero.name
      (cstrAt m.line.toList p).bytes
    have hlast := CfgHandler.ok_zero.name.strncpy (by decide) hlist
    have hnamed : ({ CfgHandler.zero with name := w } : CfgHandler).Ok :=
      { CfgHandler.ok_zero with name := hlast }
    have hgrow := hm.growHandlers hroom
    have hused := Nat.lt_succ_self m.cfg.nrHandlers
    refine wp_bind (wp_write (t := m.growHandlers) rfl hgrow ?_)
    refine wp_bind (wp_writeHandler hgrow hroom hused rfl CfgHandler.ok_zero ?_)
    refine wp_bind (wp_lineStr hp ?_)
    refine wp_bind (wp_rewriteHandler hgrow hroom hused CfgHandler.ok_zero hnamed
      (congrArg _ hw) ?_)
    have hlevel : ({ CfgHandler.zero with name := w, level := -1 } : CfgHandler).Ok :=
      { hnamed with }
    refine wp_bind (wp_rewriteHandler hgrow hroom hused hnamed hlevel rfl ?_)
    have hopened : (CfgHandler.opened w).Ok := { hnamed with }
    refine wp_bind (wp_rewriteHandler hgrow hroom hused hlevel hopened rfl ?_)
    refine wp_pure ⟨hgrow.setHandler hroom hused hopened,
      ⟨?_, fun _ hi => (Option.not_mem_none _ hi).elim⟩, ?_⟩
    · intro i hi
      obtain rfl := Option.some.inj hi
      exact hused
    · have hcfg := abs_growHandlers hroom (h := CfgHandler.opened w) hcond.2
      rw [CfgHandler.abs_opened (absText_strncpy hlist)] at hcfg
      unfold Logmoko.openHandler
      rw [dif_pos hcond]
      unfold Cursor.abs
      rw [hcfg]
      exact congrArg (fun n => ({ cfg := _, sec := .handler, curHandler := some n
                                  curLogger := none } : ParseState)) hlen.symm
  · intro hclosed
    have hcond := mt (opens_iff hlen).mpr hclosed
    refine wp_pure ⟨hm, Cursor.Fits.none _ _, ?_⟩
    unfold Logmoko.openHandler
    rw [dif_neg hcond]
    rfl

theorem wp_openLogger (hm : Inv m) (hp : Ends m.line.toList p) (sec : CfgSec) :
    wp Inv (openLogger p) (fun cur m' => Inv m' ∧ (Cursor.mk .logger none cur).Fits m'.cfg ∧
      (Cursor.mk .logger none cur).abs m'.cfg =
        { Logmoko.openLogger ((Cursor.mk sec none none).abs m.cfg) (cstrAt m.line.toList p) with
          sec := .logger }) m := by
  have hlt := hp.lt
  rw [Vector.length_toList] at hlt
  have hlen : ((Cursor.mk sec none none).abs m.cfg).cfg.loggers.length = m.cfg.nrLoggers :=
    length_abs_loggers hm
  unfold openLogger
  refine wp_bind (wp_loadLine (by omega) ?_)
  refine wp_bind (wp_read rfl ?_)
  refine wp_ite ?_ ?_
  · intro hopens
    have hroom := hopens.2
    have hcond := (opens_iff hlen).mp hopens
    obtain ⟨w, hw, hlist⟩ := strncpy_eq_some (k := 63) (by decide) CfgLogger.zero.name
      (cstrAt m.line.toList p).bytes
    have hlast := CfgLogger.ok_zero.name.strncpy (by decide) hlist
    have hnamed : ({ CfgLogger.zero with name := w } : CfgLogger).Ok :=
      { CfgLogger.ok_zero with name := hlast }
    have hopened : (CfgLogger.opened w).Ok := { hnamed with }
    have hgrow := hm.growLoggers hroom
    have hused := Nat.lt_succ_self m.cfg.nrLoggers
    refine wp_bind (wp_write (t := m.growLoggers) rfl hgrow ?_)
    refine wp_bind (wp_writeLogger hgrow hroom hused rfl CfgLogger.ok_zero ?_)
    refine wp_bind (wp_lineStr hp ?_)
    refine wp_bind (wp_rewriteLogger hgrow hroom hused CfgLogger.ok_zero hnamed
      (congrArg _ hw) ?_)
    refine wp_bind (wp_rewriteLogger hgrow hroom hused hnamed hopened rfl ?_)
    refine wp_pure ⟨hgrow.setLogger hroom hused hopened,
      ⟨fun _ hi => (Option.not_mem_none _ hi).elim, ?_⟩, ?_⟩
    · intro i hi
      obtain rfl := Option.some.inj hi
      exact hused
    · have hcfg := abs_growLoggers hroom (l := CfgLogger.opened w) hcond.2
      rw [CfgLogger.abs_opened (absText_strncpy hlist)] at hcfg
      unfold Logmoko.openLogger
      rw [dif_pos hcond]
      unfold Cursor.abs
      rw [hcfg]
      exact congrArg (fun n => ({ cfg := _, sec := .logger, curHandler := none
                                  curLogger := some n } : ParseState)) hlen.symm
  · intro hclosed
    have hcond := mt (opens_iff hlen).mpr hclosed
    refine wp_pure ⟨hm, Cursor.Fits.none _ _, ?_⟩
    unfold Logmoko.openLogger
    rw [dif_neg hcond]
    rfl

/-! ## 見出しの行 -/

/-- 見出しの種類の後ろから、buffer の中で終わる名前が始まる。 -/
theorem ends_after_kind {buf word : List UInt8} (hp : Ends buf p)
    (hkind : strncasecmp (strAt buf p) word = true) : Ends buf (p + word.length) :=
  hp.add (length_of_strncasecmp hkind)

/-- **見出しの行。** -/
theorem wp_openSection (hm : Inv m) (hp : Ends m.line.toList p) (cur : Cursor) :
    wp Inv (openSection p) (fun cur' m' => Inv m' ∧ cur'.Fits m'.cfg ∧
      cur'.abs m'.cfg = Logmoko.openSection m.line.toList p (cur.abs m.cfg)) m := by
  have hbytes : (cstrAt m.line.toList p).bytes = strAt m.line.toList p := rfl
  unfold openSection Logmoko.openSection
  dsimp only
  refine wp_bind (wp_lineStr hp ?_)
  rw [hbytes]
  refine wp_ite ?_ ?_
  · intro hglobal
    rw [if_pos hglobal]
    exact wp_pure ⟨hm, Cursor.Fits.none _ _, rfl⟩
  · intro hglobal
    rw [if_neg hglobal]
    refine wp_ite ?_ ?_
    · intro hkind
      rw [if_pos hkind]
      have hafter : Ends m.line.toList (p + 8) := ends_after_kind hp hkind
      refine wp_bind (wp_lmkCfgTrim hm hafter ?_)
      intro line hline
      have hname := ends_trim_pointer hafter
      rw [← hline] at hname ⊢
      refine wp_bind (wp_post (wp_openHandler (m := { m with line }) hm hname cur.sec) ?_)
      intro cur' m' h
      exact wp_pure h
    · intro hkind
      rw [if_neg hkind]
      refine wp_ite ?_ ?_
      · intro hkind
        rw [if_pos hkind]
        have hafter : Ends m.line.toList (p + 7) := ends_after_kind hp hkind
        refine wp_bind (wp_lmkCfgTrim hm hafter ?_)
        intro line hline
        have hname := ends_trim_pointer hafter
        rw [← hline] at hname ⊢
        refine wp_bind (wp_post (wp_openLogger (m := { m with line }) hm hname cur.sec) ?_)
        intro cur' m' h
        exact wp_pure h
      · intro hkind
        rw [if_neg hkind]
        exact wp_pure ⟨hm, Cursor.Fits.none _ _, rfl⟩

end Logmoko.Raw
