import Logmoko.Parser.Idle
import Logmoko.Parser.Memory

/-!
# 構造体の不変条件

構造体 `lmk_cfg` の範囲の条件 `Cfg.InBounds` を定める。`strncpy` は長い値を切るときに NUL を書かないので、
これだけでは一つの書き込みを越えて保たれない。帰納法が使うのは、どの `char` の配列も
最後の要素が NUL のままだという強い条件 `Cfg.Ok` である。二つは同じ形 `Cfg.Fits` の、
文字列の条件だけを変えたものである。

* `Cfg.Ok.inBounds` — 強い条件から範囲の条件が従う
* `Cfg.abs` — memory の上の構造体が表す、列としての設定
* `wp_writeHandler`・`wp_writeLogger` — 使っている要素を書き換えても不変条件は保たれる
-/

namespace Logmoko.Raw

open StrBuf Cells Traced

variable {P P' : ∀ n, Vector UInt8 n → Prop} {m : Mem} {c : Cfg} {h h' : CfgHandler}
  {l l' : CfgLogger} {i : Nat} {Q : Unit → Mem → Prop}

/-! ## 条件 -/

/-- `char` の配列がどれも `P` を満たし、使っていない listener は 0 のままである。 -/
structure CfgHandler.Fits (P : ∀ n, Vector UInt8 n → Prop) (h : CfgHandler) : Prop where
  name : P 64 h.name
  filename : P 256 h.filename
  listeners : Filled (fun l : CfgListener => P 64 l.host) .zero h.listeners h.nrListeners
  format : P 32 h.format
  ident : P 64 h.ident
  facility : P 32 h.facility
  psk : P 256 h.psk

structure CfgLogger.Fits (P : ∀ n, Vector UInt8 n → Prop) (l : CfgLogger) : Prop where
  name : P 64 l.name
  handlerNames : Filled (P 64) (.replicate 64 0) l.handlerNames l.nrHandlers

structure Cfg.Fits (P : ∀ n, Vector UInt8 n → Prop) (c : Cfg) : Prop where
  handlers : Filled (CfgHandler.Fits P) .zero c.handlers c.nrHandlers
  loggers : Filled (CfgLogger.Fits P) .zero c.loggers c.nrLoggers

/-- 個数は配列の大きさを越えず、文字列は配列の中で終わり、使っていない要素は 0 のままである。 -/
def Cfg.InBounds (c : Cfg) : Prop := c.Fits fun _ v => Ends v.toList 0

def CfgHandler.Ok (h : CfgHandler) : Prop := h.Fits fun _ v => LastZero v

def CfgLogger.Ok (l : CfgLogger) : Prop := l.Fits fun _ v => LastZero v

def Cfg.Ok (c : Cfg) : Prop := c.Fits fun _ v => LastZero v

/-- 計算の途中でつねに成り立つこと。 -/
def Inv (m : Mem) : Prop := m.cfg.Ok

theorem CfgHandler.Fits.mono (hf : h.Fits P) (hP : ∀ n v, P n v → P' n v) : h.Fits P' where
  name := hP _ _ hf.name
  filename := hP _ _ hf.filename
  listeners := hf.listeners.mono fun _ => hP _ _
  format := hP _ _ hf.format
  ident := hP _ _ hf.ident
  facility := hP _ _ hf.facility
  psk := hP _ _ hf.psk

theorem CfgLogger.Fits.mono (hf : l.Fits P) (hP : ∀ n v, P n v → P' n v) : l.Fits P' where
  name := hP _ _ hf.name
  handlerNames := hf.handlerNames.mono fun _ => hP _ _

theorem Cfg.Fits.mono (hf : c.Fits P) (hP : ∀ n v, P n v → P' n v) : c.Fits P' where
  handlers := hf.handlers.mono fun _ hh => hh.mono hP
  loggers := hf.loggers.mono fun _ hl => hl.mono hP

theorem Cfg.Ok.inBounds (hok : c.Ok) : c.InBounds := hok.mono fun _ _ hv => hv.ends

theorem CfgHandler.ok_zero : CfgHandler.zero.Ok where
  name := lastZero_replicate pos_64
  filename := lastZero_replicate pos_256
  listeners := filled_replicate (lastZero_replicate pos_64)
  format := lastZero_replicate pos_32
  ident := lastZero_replicate pos_64
  facility := lastZero_replicate pos_32
  psk := lastZero_replicate pos_256

theorem CfgLogger.ok_zero : CfgLogger.zero.Ok where
  name := lastZero_replicate pos_64
  handlerNames := filled_replicate (lastZero_replicate pos_64)

theorem Cfg.ok_zero : Cfg.zero.Ok where
  handlers := filled_replicate CfgHandler.ok_zero
  loggers := filled_replicate CfgLogger.ok_zero

/-! ## 表す設定 -/

theorem length_text_lt {n : Nat} (hn : 0 < n) (v : Vector UInt8 n) : (text v).length < n := by
  have hle : (text v).length ≤ (v.toList.take (n - 1)).length := length_strAt_le _ _
  rw [List.length_take, Vector.length_toList] at hle
  omega

/-- `char` の配列が表す文字列。 -/
def absText {n : Nat} (hn : 0 < n) (v : Vector UInt8 n) : CharArray n :=
  ⟨⟨text v, zero_notMem_strAt _ _⟩, length_text_lt hn v⟩

def CfgListener.abs (l : CfgListener) : Logmoko.CfgListener :=
  { host := absText pos_64 l.host, port := l.port }

/-- 種類の値が表すもの。`-1` は未設定である。 -/
def typeOf (code : Int) : Option HandlerType :=
  if code = 0 then some .console
  else if code = 1 then some .file
  else if code = 2 then some .socket
  else if code = 3 then some .syslog
  else none

theorem length_map_used {α β : Type} {n : Nat} (f : α → β) (v : Vector α n) (k : Nat) :
    ((used v k).map f).length ≤ n := List.length_map f ▸ length_used_le v k

def CfgHandler.abs (h : CfgHandler) : Logmoko.CfgHandler :=
  { name := absText pos_64 h.name, type := typeOf h.type, level := h.level
    filename := absText pos_256 h.filename
    listeners := (used h.listeners h.nrListeners).map CfgListener.abs
    maxFileSize := h.maxFileSize, maxBackupFiles := h.maxBackupFiles
    format := absText pos_32 h.format, ident := absText pos_64 h.ident
    facility := absText pos_32 h.facility, psk := absText pos_256 h.psk
    nr_listeners_le := length_map_used _ _ _ }

def CfgLogger.abs (l : CfgLogger) : Logmoko.CfgLogger :=
  { name := absText pos_64 l.name, level := l.level
    handlerNames := (used l.handlerNames l.nrHandlers).map (absText pos_64)
    nr_handlers_le := length_map_used _ _ _ }

def Cfg.abs (c : Cfg) : Logmoko.Cfg :=
  { logBufferSize := c.logBufferSize, ringBufferSize := c.ringBufferSize
    handlers := (used c.handlers c.nrHandlers).map CfgHandler.abs
    loggers := (used c.loggers c.nrLoggers).map CfgLogger.abs
    nr_handlers_le := length_map_used _ _ _, nr_loggers_le := length_map_used _ _ _ }

/-- 局所変数と合わせた、解析の状態。 -/
def Cursor.abs (cur : Cursor) (c : Cfg) : ParseState :=
  { cfg := c.abs, sec := cur.sec, curHandler := cur.curHandler, curLogger := cur.curLogger }

/-- 0 で埋まった配列への `strncpy` は、列としての `strncpy` である。 -/
theorem absText_strncpy {n : Nat} {hn : 0 < n} {v w : Vector UInt8 n} {s : CStr}
    (hw : w.toList = s.bytes.take (n - 1) ++ List.replicate (n - 1 - s.bytes.length) 0
      ++ v.toList.drop (n - 1)) : absText hn w = .strncpy hn s := by
  refine CharArray.ext_str ?_
  have htext := text_strncpy s.noNul hw
  show CStr.mk (text w) _ = CStr.mk (s.bytes.take (n - 1)) _
  simp only [htext]

theorem typeOf_typeCode (t : HandlerType) : typeOf (typeCode t) = some t := by
  cases t <;> rfl

/-! ## 要素の書き換え -/

/-- `handlers[i]` を書き換えた memory。 -/
def Mem.setHandler (m : Mem) (i : Nat) (hi : i < 32) (h : CfgHandler) : Mem :=
  { m with cfg := { m.cfg with handlers := m.cfg.handlers.set i h hi } }

def Mem.setLogger (m : Mem) (i : Nat) (hi : i < 64) (l : CfgLogger) : Mem :=
  { m with cfg := { m.cfg with loggers := m.cfg.loggers.set i l hi } }

@[simp] theorem Mem.setHandler_setHandler (m : Mem) (hi : i < 32) (h h' : CfgHandler) :
    (m.setHandler i hi h).setHandler i hi h' = m.setHandler i hi h' := by
  simp [Mem.setHandler]

@[simp] theorem Mem.getElem_setHandler (m : Mem) (hi : i < 32) (h : CfgHandler) :
    (m.setHandler i hi h).cfg.handlers[i] = h := Vector.getElem_set_self hi

@[simp] theorem Mem.setHandler_self (m : Mem) (hi : i < 32) :
    m.setHandler i hi m.cfg.handlers[i] = m := by
  simp [Mem.setHandler]

@[simp] theorem Mem.setLogger_setLogger (m : Mem) (hi : i < 64) (l l' : CfgLogger) :
    (m.setLogger i hi l).setLogger i hi l' = m.setLogger i hi l' := by
  simp [Mem.setLogger]

@[simp] theorem Mem.getElem_setLogger (m : Mem) (hi : i < 64) (l : CfgLogger) :
    (m.setLogger i hi l).cfg.loggers[i] = l := Vector.getElem_set_self hi

@[simp] theorem Mem.setLogger_self (m : Mem) (hi : i < 64) :
    m.setLogger i hi m.cfg.loggers[i] = m := by
  simp [Mem.setLogger]

@[simp] theorem Mem.line_setHandler (m : Mem) (hi : i < 32) (h : CfgHandler) :
    (m.setHandler i hi h).line = m.line := rfl

theorem Inv.setHandler (hm : Inv m) (hi : i < 32) (hused : i < m.cfg.nrHandlers) (hh : h.Ok) :
    Inv (m.setHandler i hi h) where
  handlers := hm.handlers.set hi hused hh
  loggers := hm.loggers

theorem Inv.setLogger (hm : Inv m) (hi : i < 64) (hused : i < m.cfg.nrLoggers) (hl : l.Ok) :
    Inv (m.setLogger i hi l) where
  handlers := hm.handlers
  loggers := hm.loggers.set hi hused hl

theorem abs_setHandler (m : Mem) (hi : i < 32) (h : CfgHandler) :
    (m.setHandler i hi h).cfg.abs = m.cfg.abs.setHandler i h.abs := by
  refine Logmoko.Cfg.ext rfl rfl ?_ rfl
  show (used (m.cfg.handlers.set i h hi) m.cfg.nrHandlers).map _ = _
  rw [used_set, List.map_set]
  rfl

theorem abs_setLogger (m : Mem) (hi : i < 64) (l : CfgLogger) :
    (m.setLogger i hi l).cfg.abs = m.cfg.abs.setLogger i l.abs := by
  refine Logmoko.Cfg.ext rfl rfl rfl ?_
  show (used (m.cfg.loggers.set i l hi) m.cfg.nrLoggers).map _ = _
  rw [used_set, List.map_set]
  rfl

theorem getElem?_abs_handlers (hi : i < 32) (hused : i < m.cfg.nrHandlers) :
    m.cfg.abs.handlers[i]? = some m.cfg.handlers[i].abs := by
  show ((used _ _).map _)[i]? = _
  rw [List.getElem?_map, getElem?_used hused hi]
  rfl

theorem getElem?_abs_loggers (hi : i < 64) (hused : i < m.cfg.nrLoggers) :
    m.cfg.abs.loggers[i]? = some m.cfg.loggers[i].abs := by
  show ((used _ _).map _)[i]? = _
  rw [List.getElem?_map, getElem?_used hused hi]
  rfl

/-- 使っている handler の一つの書き込み。 -/
theorem wp_writeHandler {f : CfgHandler → Option CfgHandler} (hm : Inv m) (hi : i < 32)
    (hused : i < m.cfg.nrHandlers) (hf : f m.cfg.handlers[i] = some h) (hh : h.Ok)
    (hQ : Q () (m.setHandler i hi h)) : wp Inv (writeHandler i f) Q m := by
  refine wp_write ?_ (hm.setHandler hi hused hh) hQ
  dsimp only
  rw [modifyAt_eq_some hi hf]
  rfl

theorem wp_writeLogger {f : CfgLogger → Option CfgLogger} (hm : Inv m) (hi : i < 64)
    (hused : i < m.cfg.nrLoggers) (hf : f m.cfg.loggers[i] = some l) (hl : l.Ok)
    (hQ : Q () (m.setLogger i hi l)) : wp Inv (writeLogger i f) Q m := by
  refine wp_write ?_ (hm.setLogger hi hused hl) hQ
  dsimp only
  rw [modifyAt_eq_some hi hf]
  rfl

/-- 書いたばかりの要素を、もう一度書き換える。 -/
theorem wp_rewriteHandler {f : CfgHandler → Option CfgHandler} {h' : CfgHandler} (hm : Inv m)
    (hi : i < 32) (hused : i < m.cfg.nrHandlers) (hh : h.Ok) (hh' : h'.Ok) (hf : f h = some h')
    (hQ : Q () (m.setHandler i hi h')) : wp Inv (writeHandler i f) Q (m.setHandler i hi h) := by
  refine wp_writeHandler (hm.setHandler hi hused hh) hi hused ?_ hh' ?_
  · rw [m.getElem_setHandler]
    exact hf
  · rw [m.setHandler_setHandler]
    exact hQ

theorem wp_rewriteLogger {f : CfgLogger → Option CfgLogger} {l' : CfgLogger} (hm : Inv m)
    (hi : i < 64) (hused : i < m.cfg.nrLoggers) (hl : l.Ok) (hl' : l'.Ok) (hf : f l = some l')
    (hQ : Q () (m.setLogger i hi l')) : wp Inv (writeLogger i f) Q (m.setLogger i hi l) := by
  refine wp_writeLogger (hm.setLogger hi hused hl) hi hused ?_ hl' ?_
  · rw [m.getElem_setLogger]
    exact hf
  · rw [m.setLogger_setLogger]
    exact hQ

/-! ## 列の関数を写した書き込み -/

/--
handler の section `i` だけを書き換え、表すものを `f` で写す計算。
-/
def MapsHandler (x : Exec Mem Unit) (i : Nat) (f : Logmoko.CfgHandler → Logmoko.CfgHandler)
    (m : Mem) : Prop :=
  ∀ hi : i < 32, i < m.cfg.nrHandlers → Inv m →
    wp Inv x (fun _ m' => ∃ h' : CfgHandler, m' = m.setHandler i hi h' ∧ h'.Ok ∧
      h'.abs = f m.cfg.handlers[i].abs) m

theorem mapsHandler_pure : MapsHandler (pure ()) i id m := fun hi _ hm =>
  wp_pure ⟨m.cfg.handlers[i], (m.setHandler_self hi).symm, hm.handlers.each i hi, rfl⟩

/-- 一つの値の書き込み。 -/
theorem mapsHandler_write {f : Logmoko.CfgHandler → Logmoko.CfgHandler}
    (set : CfgHandler → CfgHandler) (hok : ∀ h : CfgHandler, h.Ok → (set h).Ok)
    (habs : ∀ h : CfgHandler, (set h).abs = f h.abs) :
    MapsHandler (writeHandler i fun h => some (set h)) i f m := fun hi hused hm =>
  have hset := hok _ (hm.handlers.each i hi)
  wp_writeHandler hm hi hused rfl hset ⟨_, rfl, hset, habs _⟩

/-- `char` の配列への `strncpy`。 -/
theorem mapsHandler_strncpy {n : Nat} (hn : 0 < n) {s : CStr}
    {f : Logmoko.CfgHandler → Logmoko.CfgHandler} (get : CfgHandler → Vector UInt8 n)
    (set : CfgHandler → Vector UInt8 n → CfgHandler)
    (hget : ∀ h : CfgHandler, h.Ok → LastZero (get h))
    (hset : ∀ (h : CfgHandler) w, h.Ok → LastZero w → (set h w).Ok)
    (habs : ∀ h w, absText hn w = .strncpy hn s → (set h w).abs = f h.abs) :
    MapsHandler (writeHandler i fun h => (strncpy (get h) s.bytes (n - 1)).map (set h)) i f m := by
  intro hi hused hm
  have hh := hm.handlers.each i hi
  obtain ⟨w, hw, hlist⟩ := strncpy_eq_some (Nat.sub_le n 1) (get m.cfg.handlers[i]) s.bytes
  have hlast := (hget _ hh).strncpy (Nat.sub_lt hn Nat.one_pos) hlist
  have hok := hset _ w hh hlast
  refine wp_writeHandler hm hi hused ?_ hok ⟨_, rfl, hok, habs _ w (absText_strncpy hlist)⟩
  rw [hw]
  rfl

end Logmoko.Raw
