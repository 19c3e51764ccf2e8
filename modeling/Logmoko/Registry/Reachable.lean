import Logmoko.Registry.Teardown
import Mathlib.Algebra.Order.BigOperators.Group.List
import Mathlib.Algebra.Order.Group.Nat

/-!
# 到達できる registry

操作一回ごとの不変量の保存をまとめ、操作列全体に広げる。

* `addrInv_reachable` — 番地と level の不変量。条件は要らない
* `refInv_run` — 参照の不変量。counter は 32 bit なので logger の個数の条件が要る
* `nameInv_run` — 名前の不変量。名前の長さは `int` に入るので長さの条件が要る
* `runOp_isSome` — 約束を守る呼び出しは必ず戻る
-/

namespace Logmoko

open Transition

variable {env : Env} {r r' : Registry} {N : CStr → Prop} {auto : Option Cfg} {op : RegistryOp}

/-! ## 操作一回 -/

/-- 操作が登録しうる名前は条件 `N` を満たす。 -/
def RegistryOp.Names (N : CStr → Prop) : RegistryOp → Prop
  | .getLogger name | .getFileLogHandler name _ | .getSocketLogHandler name
  | .getSyslogLogHandler name _ _ => ∀ s ∈ name, N s
  | _ => True

/-- 構造体を解放しうる操作。 -/
def RegistryOp.Frees : RegistryOp → Prop
  | .destroy | .destroyLogger _ | .destroyLogHandler _ => True
  | _ => False

instance (N : CStr → Prop) [DecidablePred N] : DecidablePred (RegistryOp.Names N)
  | .getLogger name | .getFileLogHandler name _ | .getSocketLogHandler name
  | .getSyslogLogHandler name _ _ => inferInstanceAs (Decidable (∀ s ∈ name, N s))
  | .init | .initFromFile _ | .cfgApply _ | .destroy | .setLogLevel _ _ | .destroyLogger _
  | .attachLogHandler _ _ | .detachLogHandler _ _ | .getConsoleLogHandler
  | .destroyLogHandler _ | .setHandlerLogLevel _ _ | .setLogFormat _ _ | .setLogRotation _ _ _
  | .setLogFilename _ _ | .attachLogListener _ _ _ | .setSocketPsk _ _ =>
    inferInstanceAs (Decidable True)

theorem RegistryOp.names_true (op : RegistryOp) : op.Names fun _ => True := by
  cases op <;> simp [RegistryOp.Names]

/-- 解放しない操作は書き換えの列である。 -/
theorem runOp_edits (ha : AddrInv r) (hN : ∀ s : CStr, s.length < 64 → N s) (hop : op.Names N)
    (hf : ¬ op.Frees) (h : runOp env auto r op = some r') : Edits N r r' := by
  cases op with
  | init => exact (lmkInit_edits hN h).1
  | initFromFile path =>
    obtain ⟨p, hp, rfl⟩ := Option.map_eq_some_iff.mp h
    cases path with
    | null | file parsed =>
      obtain ⟨u, hu, hp'⟩ := Option.bind_eq_some_iff.mp hp
      obtain ⟨hedits, hi⟩ := lmkInit_edits hN hu
      exact hedits.trans (lmkParseAndApply_edits hN hi hp')
  | cfgApply cfg =>
    obtain ⟨c, hc, -⟩ := Option.bind_eq_some_iff.mp h
    exact lmkCfgApply_edits hN (ha.initialized_of_config hc) h
  | destroy | destroyLogger logger | destroyLogHandler handler => exact absurd trivial hf
  | getLogger name =>
    obtain ⟨u, hu, h⟩ := Option.bind_eq_some_iff.mp h
    obtain ⟨p, hp, rfl⟩ := Option.map_eq_some_iff.mp h
    obtain ⟨hedits, hi⟩ := lmkInit_edits hN hu
    exact hedits.trans (lmkGetLogger_edits hop hi hp)
  | setLogLevel logger level =>
    obtain ⟨u, hu, rfl⟩ := Option.map_eq_some_iff.mp h
    exact (lmkInit_edits hN hu).1.trans (lmkSetLogLevel_edits logger level)
  | attachLogHandler logger handler =>
    obtain ⟨u, hu, rfl⟩ := Option.map_eq_some_iff.mp h
    exact (lmkInit_edits hN hu).1.trans (lmkAttachLogHandler_edits logger handler)
  | detachLogHandler logger handler =>
    obtain ⟨u, hu, h⟩ := Option.bind_eq_some_iff.mp h
    obtain ⟨p, hp, rfl⟩ := Option.map_eq_some_iff.mp h
    exact (lmkInit_edits hN hu).1.trans (lmkDetachLogHandler_edits hp)
  | getConsoleLogHandler =>
    obtain ⟨u, hu, h⟩ := Option.bind_eq_some_iff.mp h
    obtain ⟨p, hp, rfl⟩ := Option.map_eq_some_iff.mp h
    exact (lmkInit_edits hN hu).1.trans (getOrCreateHandler_edits (hN _ (by decide)) hp)
  | getFileLogHandler name filename =>
    obtain ⟨u, hu, h⟩ := Option.bind_eq_some_iff.mp h
    obtain ⟨p, hp, rfl⟩ := Option.map_eq_some_iff.mp h
    exact (lmkInit_edits hN hu).1.trans (lmkGetFileLogHandler_edits hop hp)
  | getSocketLogHandler name =>
    obtain ⟨u, hu, h⟩ := Option.bind_eq_some_iff.mp h
    obtain ⟨p, hp, rfl⟩ := Option.map_eq_some_iff.mp h
    exact (lmkInit_edits hN hu).1.trans (lmkGetSocketLogHandler_edits hop hp)
  | getSyslogLogHandler name ident facility =>
    obtain ⟨u, hu, h⟩ := Option.bind_eq_some_iff.mp h
    obtain ⟨p, hp, rfl⟩ := Option.map_eq_some_iff.mp h
    exact (lmkInit_edits hN hu).1.trans (lmkGetSyslogLogHandler_edits hop hp)
  | setHandlerLogLevel handler level =>
    obtain ⟨u, hu, rfl⟩ := Option.map_eq_some_iff.mp h
    exact (lmkInit_edits hN hu).1.trans (lmkSetHandlerLogLevel_edits handler level)
  | setLogFormat handler fn => exact Option.some.inj h ▸ lmkSetLogFormat_edits handler fn
  | setLogRotation handler m n => exact Option.some.inj h ▸ lmkSetLogRotation_edits handler m n
  | setLogFilename handler filename => exact lmkSetLogFilename_edits h
  | attachLogListener handler host port =>
    exact Option.some.inj h ▸ lmkAttachLogListener_edits handler host port
  | setSocketPsk handler psk => exact Option.some.inj h ▸ lmkSetSocketPsk_edits handler psk

/--
書き換えと解放のどちらでも保たれる性質は、操作一回でも保たれる。
`lmk_destroy` の後は開始時の状態になるので、そこでも成り立たなければならない。
-/
theorem runOp_invariant {I : Registry → Prop} (ha : AddrInv r)
    (hN : ∀ s : CStr, s.length < 64 → N s) (hop : op.Names N)
    (hinit : op = .destroy → I Registry.initial) (hedit : ∀ r r', I r → Edit N r r' → I r')
    (hdrop : ∀ r r', I r → Drop r r' → I r') (hI : I r) (h : runOp env auto r op = some r') :
    I r' := by
  by_cases hf : op.Frees
  · cases op with
    | destroy =>
      obtain ⟨p, hp, rfl⟩ := Option.map_eq_some_iff.mp h
      rw [lmkDestroy_initial ha hp]
      exact hinit rfl
    | destroyLogger logger =>
      obtain ⟨u, hu, h⟩ := Option.bind_eq_some_iff.mp h
      obtain ⟨p, hp, rfl⟩ := Option.map_eq_some_iff.mp h
      have hIu := (lmkInit_edits hN hu).1.invariant hedit hI
      obtain ⟨v, hv, hdone⟩ := lmkDestroyLogger_edits (N := N) hp
      have hIv := hv.invariant hedit hIu
      rcases hdone with he | hd
      · rw [he]
        exact hIv
      · exact hdrop _ _ hIv hd
    | destroyLogHandler handler =>
      rw [← Option.some.inj h]
      rcases lmkDestroyLogHandler_drop r handler with he | hd
      · rw [he]
        exact hI
      · exact hdrop _ _ hI hd
    | _ => exact hf.elim
  · exact (runOp_edits ha hN hop hf h).invariant hedit hI

theorem addrInv_runOp (ha : AddrInv r) (h : runOp env auto r op = some r') : AddrInv r' :=
  runOp_invariant (N := fun _ => True) ha (fun _ _ => trivial) op.names_true
    (fun _ => addrInv_initial) (fun _ _ => addrInv_edit) (fun _ _ => addrInv_drop) ha h

theorem levelInv_runOp (ha : AddrInv r) (hl : LevelInv r) (h : runOp env auto r op = some r') :
    LevelInv r' :=
  runOp_invariant (N := fun _ => True) ha (fun _ _ => trivial) op.names_true
    (fun _ => levelInv_initial) (fun _ _ => levelInv_edit) (fun _ _ => levelInv_drop) hl h

theorem nameInv_runOp (ha : AddrInv r) (hn : NameInv r) (hop : op.Names ShortName)
    (h : runOp env auto r op = some r') : NameInv r' :=
  runOp_invariant ha (fun _ => shortName_of_lt) hop (fun _ => nameInv_initial)
    (fun _ _ => nameInv_edit) (fun _ _ => nameInv_drop) hn h

/-! ## 参照の不変量 -/

/-- 生きている logger は `2 ^ 32` 個より少ない。 -/
def Registry.LoggersFit (r : Registry) : Prop := r.loggers.length < 2 ^ 32

instance (r : Registry) : Decidable r.LoggersFit := inferInstanceAs (Decidable (_ < _))

theorem refCount_le (r : Registry) (a : Nat) : r.refCount a ≤ r.loggers.length :=
  List.countP_le_length

/-- logger が `2 ^ 32` 個より少なければ、counter は参照の個数そのものである。 -/
theorem RefInv.nrLoggerRef_eq (h : RefInv r) (hfit : r.LoggersFit) {hd : LogHandler}
    (hm : hd ∈ r.handlers) : hd.nrLoggerRef = r.refCount hd.addr := by
  rw [h.counts hd hm]
  exact Nat.mod_eq_of_lt (Nat.lt_of_le_of_lt (refCount_le r hd.addr) hfit)

theorem refCount_eq_zero_iff (r : Registry) (a : Nat) :
    r.refCount a = 0 ↔ ∀ l ∈ r.loggers, a ∉ l.handlerRefList := by
  unfold Registry.refCount
  rw [List.countP_eq_zero]
  simp

/-- 参照されていない handler の解放は、参照の不変量を保つ。 -/
theorem RefInv.dropHandler (h : RefInv r) {a : Nat} (h0 : r.refCount a = 0) :
    RefInv { r with handlers := r.handlers.filter fun h => h.addr ≠ a } where
  nodup := h.nodup
  live l hl b hb := by
    obtain ⟨hd, hm, rfl⟩ := List.mem_map.mp (h.live l hl b hb)
    have hne : hd.addr ≠ a := by
      rintro rfl
      exact (refCount_eq_zero_iff r _).mp h0 l hl hb
    exact List.mem_map_of_mem (List.mem_filter.mpr ⟨hm, by simpa using hne⟩)
  counts x hx := h.counts x (List.mem_filter.mp hx).1

theorem refInv_edits (ha : AddrInv r) (hr : RefInv r) (h : Edits N r r') :
    AddrInv r' ∧ RefInv r' :=
  h.invariant (I := fun r => AddrInv r ∧ RefInv r)
    (fun _ _ hI he => ⟨addrInv_edit hI.1 he, refInv_edit hI.1 hI.2 he⟩) ⟨ha, hr⟩

theorem refInv_destroyLogHandler (hr : RefInv r) (hfit : r.LoggersFit) (handler : Option Nat) :
    RefInv (lmkDestroyLogHandler r handler).1 := by
  unfold lmkDestroyLogHandler
  split
  · next hd hh =>
    obtain ⟨a, -, hb⟩ := Option.bind_eq_some_iff.mp hh
    have hm := (handler?_eq_some hb).1
    split
    · exact hr
    · next h0 =>
      refine hr.dropHandler ?_
      rw [← hr.nrLoggerRef_eq hfit hm]
      omega
  · exact hr

theorem handlerRefList_le_fuel {l : Logger} (hl : l ∈ r.loggers) :
    l.handlerRefList.length ≤ r.fuel := by
  have hle : l.handlerRefList.length ≤ (r.loggers.map fun l => l.handlerRefList.length).sum :=
    List.single_le_sum (fun _ _ => Nat.zero_le _) _ (List.mem_map_of_mem hl)
  unfold Registry.fuel
  omega

/-- 生きている logger か NULL の解放は終わり、参照の不変量を保つ。 -/
theorem lmkDestroyLogger_live (ha : AddrInv r) (hr : RefInv r) {logger : Option Nat}
    (hlive : r.LoggerLive logger) :
    ∃ p, lmkDestroyLogger r.fuel r logger = some p ∧ RefInv p.1 := by
  cases logger with
  | none => exact ⟨_, rfl, hr⟩
  | some a =>
    obtain ⟨lg, hl, rfl⟩ := List.mem_map.mp (hlive a rfl)
    obtain ⟨u, codes, hu, -, -, href, -⟩ :=
      lmkDestroyLogger_spec ha hr hl (handlerRefList_le_fuel hl)
    exact ⟨_, hu, href⟩

/-- 初期化は、生きている構造体があれば何もしない。 -/
theorem lmkInit_of_initialized (hi : r.initialized = true) : lmkInit env auto r = some r := by
  rw [lmkInit, if_pos hi]

theorem refInv_runOp (ha : AddrInv r) (hr : RefInv r) (hfit : r.LoggersFit) (hargs : ArgsLive r op)
    (h : runOp env auto r op = some r') : RefInv r' := by
  by_cases hf : op.Frees
  · cases op with
    | destroy =>
      obtain ⟨p, hp, rfl⟩ := Option.map_eq_some_iff.mp h
      rw [lmkDestroy_initial ha hp]
      exact refInv_initial
    | destroyLogger logger =>
      obtain ⟨u, hu, h⟩ := Option.bind_eq_some_iff.mp h
      obtain ⟨p, hp, rfl⟩ := Option.map_eq_some_iff.mp h
      obtain ⟨hau, hru⟩ := refInv_edits (N := fun _ => True) ha hr
        (lmkInit_edits (fun _ _ => trivial) hu).1
      -- 生きている logger があるなら既に初期化されていて、`lmk_init` は registry を変えていない
      have hlive : u.LoggerLive logger := by
        intro a hlog
        obtain ⟨lg, hl, -⟩ := List.mem_map.mp (hargs a hlog)
        rw [lmkInit_of_initialized (ha.initialized_of_logger hl)] at hu
        exact Option.some.inj hu ▸ hargs a hlog
      obtain ⟨q, hq, href⟩ := lmkDestroyLogger_live hau hru hlive
      rw [hq] at hp
      exact Option.some.inj hp ▸ href
    | destroyLogHandler handler =>
      rw [← Option.some.inj h]
      exact refInv_destroyLogHandler hr hfit handler
    | _ => exact hf.elim
  · exact (refInv_edits (N := fun _ => True) ha hr
      (runOp_edits ha (fun _ _ => trivial) op.names_true hf h)).2

/-! ## 操作は失敗しない -/

/-- 初期化された registry。 -/
structure Ready (r : Registry) : Prop where
  addr : AddrInv r
  initialized : r.initialized = true

theorem Ready.edits (h : Ready r) (he : Edits N r r') : Ready r' :=
  ⟨he.invariant (fun _ _ => addrInv_edit) h.addr, he.initialized h.initialized⟩

theorem getOrCreateHandler_isSome (h : Ready r) {name : CStr} (hn : ShortName name)
    (body : HandlerBody) : ∃ p, getOrCreateHandler r name body = some p := by
  obtain ⟨c, hc⟩ := h.addr.config h.initialized
  unfold getOrCreateHandler
  split
  · exact ⟨_, rfl⟩
  · rw [copyName_of_short hn, hc]
    exact ⟨_, rfl⟩

theorem lmkGetLogger_isSome {name : Option CStr} (hn : ∀ s ∈ name, ShortName s) :
    ∃ p, lmkGetLogger r name = some p := by
  unfold lmkGetLogger
  split
  · exact ⟨_, rfl⟩
  · next s =>
    split
    · exact ⟨_, rfl⟩
    · rw [copyName_of_short (hn s rfl)]
      exact ⟨_, rfl⟩

theorem lmkGetFileLogHandler_isSome (h : Ready r) {name : Option CStr} (filename : Option CStr)
    (hn : ∀ s ∈ name, ShortName s) : ∃ p, lmkGetFileLogHandler r name filename = some p := by
  unfold lmkGetFileLogHandler
  split
  · next s f => exact getOrCreateHandler_isSome h (hn s rfl) _
  · exact ⟨_, rfl⟩

theorem lmkGetSocketLogHandler_isSome (h : Ready r) {name : Option CStr}
    (hn : ∀ s ∈ name, ShortName s) : ∃ p, lmkGetSocketLogHandler r name = some p := by
  unfold lmkGetSocketLogHandler
  split
  · next s => exact getOrCreateHandler_isSome h (hn s rfl) _
  · exact ⟨_, rfl⟩

theorem lmkGetSyslogLogHandler_isSome (h : Ready r) {name : Option CStr} (ident : Option CStr)
    (facility : Int) (hn : ∀ s ∈ name, ShortName s) :
    ∃ p, lmkGetSyslogLogHandler r name ident facility = some p := by
  unfold lmkGetSyslogLogHandler
  split
  · next s => exact getOrCreateHandler_isSome h (hn s rfl) _
  · exact ⟨_, rfl⟩

theorem applyCfgHandler_isSome (env : Env) (h : Ready r) (ch : CfgHandler) :
    ∃ r', applyCfgHandler env r ch = some r' := by
  have hn : ∀ s ∈ some ch.name.str, ShortName s := by
    rintro s ⟨⟩
    exact shortName_of_lt ch.name.fits
  unfold applyCfgHandler
  split
  · exact ⟨_, rfl⟩
  · next type htype =>
    have hsome : ∃ p, applyHandlerType env r ch type = some p := by
      cases type with
      | console => exact getOrCreateHandler_isSome h (shortName_of_lt (by decide)) _
      | file =>
        obtain ⟨p, hp⟩ := lmkGetFileLogHandler_isSome h ch.filename.orNull hn
        exact ⟨_, by rw [applyHandlerType, hp]; rfl⟩
      | syslog => exact lmkGetSyslogLogHandler_isSome h _ _ hn
      | socket =>
        obtain ⟨p, hp⟩ := lmkGetSocketLogHandler_isSome h hn
        exact ⟨_, by rw [applyHandlerType, hp]; rfl⟩
    obtain ⟨p, hp⟩ := hsome
    exact ⟨_, by rw [hp]; rfl⟩

theorem applyCfgLogger_isSome (cl : CfgLogger) : ∃ r', applyCfgLogger r cl = some r' := by
  have hn : ∀ s ∈ some cl.name.str, ShortName s := by
    rintro s ⟨⟩
    exact shortName_of_lt cl.name.fits
  obtain ⟨p, hp⟩ := lmkGetLogger_isSome (r := r) hn
  exact ⟨_, by rw [applyCfgLogger, hp]; rfl⟩

/-- 一つ一つが失敗せず `Ready` を保つなら、列全体も失敗しない。 -/
theorem foldlM_ready {α : Type} {f : Registry → α → Option Registry} {l : List α}
    (hf : ∀ r a, Ready r → ∃ r', f r a = some r' ∧ Ready r') (h : Ready r) :
    ∃ r', l.foldlM f r = some r' ∧ Ready r' := by
  induction l generalizing r with
  | nil => exact ⟨r, rfl, h⟩
  | cons a l ih =>
    obtain ⟨u, hu, hready⟩ := hf r a h
    obtain ⟨r', hr', hready'⟩ := ih hready
    exact ⟨r', by rw [List.foldlM_cons, hu]; exact hr', hready'⟩

theorem lmkCfgApply_isSome (env : Env) (h : Ready r) (cfg : Cfg) :
    ∃ r', lmkCfgApply env r cfg = some r' ∧ Ready r' := by
  have hN : ∀ s : CStr, s.length < 64 → (fun _ => True) s := fun _ _ => trivial
  obtain ⟨c, hc⟩ := h.addr.config h.initialized
  have hconf : Ready { r with config := some cfg.config } :=
    h.edits (Edit.setConfig (N := fun _ => True) hc).edits
  obtain ⟨u, hu, hready⟩ := foldlM_ready (l := cfg.handlers) (f := applyCfgHandler env)
    (fun r ch hr => by
      obtain ⟨r', hr'⟩ := applyCfgHandler_isSome env hr ch
      exact ⟨r', hr', hr.edits (applyCfgHandler_edits hN hr')⟩) hconf
  obtain ⟨v, hv, hready'⟩ := foldlM_ready (l := cfg.loggers) (f := applyCfgLogger)
    (fun r cl hr => by
      obtain ⟨r', hr'⟩ := applyCfgLogger_isSome (r := r) cl
      exact ⟨r', hr', hr.edits (applyCfgLogger_edits hN hr.initialized hr')⟩) hready
  refine ⟨v, ?_, hready'⟩
  rw [lmkCfgApply, hc]
  simp only [Option.bind_some, hu, hv]

theorem lmkParseAndApply_isSome (env : Env) (h : Ready r) (parsed : Option Cfg) :
    ∃ p, lmkParseAndApply env r parsed = some p := by
  cases parsed with
  | none => exact ⟨_, rfl⟩
  | some cfg =>
    obtain ⟨u, hu, -⟩ := lmkCfgApply_isSome env h cfg
    exact ⟨_, by rw [lmkParseAndApply, hu]; rfl⟩

theorem lmkDetachLogHandler_isSome (ha : AddrInv r) (hr : RefInv r) (logger handler : Option Nat) :
    ∃ p, lmkDetachLogHandler r logger handler = some p := by
  unfold lmkDetachLogHandler
  split
  · next lg a hl =>
    obtain ⟨b, -, hb⟩ := Option.bind_eq_some_iff.mp hl
    split
    · next hm =>
      obtain ⟨hd, hh, rfl⟩ := List.mem_map.mp (hr.live lg (logger?_eq_some hb).1 a hm)
      simp only [handler?_setLogger, ha.handler?_of_mem hh]
      exact ⟨_, rfl⟩
    · exact ⟨_, rfl⟩
  · exact ⟨_, rfl⟩

/-- 初期化された registry では、名前の長さと pointer の約束を守る呼び出しは必ず戻る。 -/
theorem runOp_isSome (env : Env) (auto : Option Cfg) (h : Ready r) (hr : RefInv r)
    (hop : op.Names ShortName) (hargs : ArgsLive r op)
    (hnull : ∀ filename, op ≠ .setLogFilename none filename) :
    ∃ r', runOp env auto r op = some r' := by
  have hinit : lmkInit env auto r = some r := lmkInit_of_initialized h.initialized
  cases op with
  | init => exact ⟨r, hinit⟩
  | initFromFile path =>
    cases path with
    | null =>
      obtain ⟨p, hp⟩ := lmkParseAndApply_isSome env h auto
      exact ⟨p.1, by simp [runOp, lmkInitFromFile, hinit, hp]⟩
    | file parsed =>
      obtain ⟨p, hp⟩ := lmkParseAndApply_isSome env h parsed
      exact ⟨p.1, by simp [runOp, lmkInitFromFile, hinit, hp]⟩
  | cfgApply cfg =>
    obtain ⟨u, hu, -⟩ := lmkCfgApply_isSome env h cfg
    exact ⟨u, hu⟩
  | destroy =>
    obtain ⟨log, hlog, -⟩ := lmkDestroy_spec r.fuel h.addr hr
      (by unfold Registry.fuel; omega) (by unfold Registry.fuel; omega)
      fun l hl => handlerRefList_le_fuel hl
    exact ⟨_, by rw [runOp, hlog]; rfl⟩
  | destroyLogger logger =>
    obtain ⟨p, hp, -⟩ := lmkDestroyLogger_live h.addr hr hargs
    exact ⟨p.1, by simp [runOp, hinit, hp]⟩
  | detachLogHandler logger handler =>
    obtain ⟨p, hp⟩ := lmkDetachLogHandler_isSome h.addr hr logger handler
    exact ⟨p.1, by simp [runOp, hinit, hp]⟩
  | getLogger name =>
    obtain ⟨p, hp⟩ := lmkGetLogger_isSome (r := r) hop
    exact ⟨p.1, by simp [runOp, hinit, hp]⟩
  | getConsoleLogHandler =>
    have hshort : ShortName consoleName := shortName_of_lt (by decide)
    obtain ⟨p, hp⟩ := getOrCreateHandler_isSome h hshort .console
    exact ⟨p.1, by simp [runOp, hinit, lmkGetConsoleLogHandler, hp]⟩
  | getFileLogHandler name filename =>
    obtain ⟨p, hp⟩ := lmkGetFileLogHandler_isSome h filename hop
    exact ⟨p.1, by simp [runOp, hinit, hp]⟩
  | getSocketLogHandler name =>
    obtain ⟨p, hp⟩ := lmkGetSocketLogHandler_isSome h hop
    exact ⟨p.1, by simp [runOp, hinit, hp]⟩
  | getSyslogLogHandler name ident facility =>
    obtain ⟨p, hp⟩ := lmkGetSyslogLogHandler_isSome h ident facility hop
    exact ⟨p.1, by simp [runOp, hinit, hp]⟩
  | setLogFilename handler filename =>
    -- この setter だけが、NULL を調べる前に handler の lock を取る
    cases handler with
    | none => exact absurd rfl (hnull filename)
    | some a => exact ⟨_, rfl⟩
  | setLogLevel logger level | attachLogHandler logger handler
  | setHandlerLogLevel handler level => exact ⟨_, by rw [runOp, hinit]; rfl⟩
  | destroyLogHandler handler | setLogFormat handler fn | setLogRotation handler m n
  | attachLogListener handler host port | setSocketPsk handler psk => exact ⟨_, rfl⟩

/-! ## 操作列 -/

theorem registryStep_eq_some {act : RegistryAction} (h : registryStep env r act = some r') :
    ArgsLive r act.op ∧ runOp env act.auto r act.op = some r' := by
  unfold registryStep at h
  split at h
  · next hargs => exact ⟨hargs, h⟩
  · simp at h

/-- どんな操作列の後でも、番地は重複せず、level は範囲内にある。 -/
theorem addrInv_reachable (h : Reachable (registryStep env) Registry.initial r) :
    AddrInv r ∧ LevelInv r := by
  refine h.invariant (I := fun r => AddrInv r ∧ LevelInv r) ?_ ⟨addrInv_initial, levelInv_initial⟩
  rintro r act r' ⟨ha, hl⟩ hs
  obtain ⟨-, hop⟩ := registryStep_eq_some hs
  exact ⟨addrInv_runOp ha hop, levelInv_runOp ha hl hop⟩

variable {acts : List RegistryAction}

/-- logger が `2 ^ 32` 個より少ないまま進む操作列の後では、参照の不変量が成り立つ。 -/
theorem refInv_run (hrun : run (registryStep env) Registry.initial acts = some r)
    (hfit : Along (registryStep env) (fun r _ => r.LoggersFit) Registry.initial acts) :
    AddrInv r ∧ RefInv r := by
  refine run_invariant (I := fun r => AddrInv r ∧ RefInv r) ?_ ⟨addrInv_initial, refInv_initial⟩
    hfit hrun
  rintro r act r' ⟨ha, hr⟩ hfit hs
  obtain ⟨hargs, hop⟩ := registryStep_eq_some hs
  exact ⟨addrInv_runOp ha hop, refInv_runOp ha hr hfit hargs hop⟩

/-- 短い名前だけを登録する操作列の後では、名前は重複しない。 -/
theorem nameInv_run (hrun : run (registryStep env) Registry.initial acts = some r)
    (hnames : Along (registryStep env) (fun _ act => act.op.Names ShortName)
      Registry.initial acts) : NameInv r := by
  refine (run_invariant (I := fun r => AddrInv r ∧ NameInv r) ?_
    ⟨addrInv_initial, nameInv_initial⟩ hnames hrun).2
  rintro r act r' ⟨ha, hn⟩ hop hs
  obtain ⟨-, hrunOp⟩ := registryStep_eq_some hs
  exact ⟨addrInv_runOp ha hrunOp, nameInv_runOp ha hn hop hrunOp⟩

/-- handler の解放が失敗したとき、registry は変わらない。 -/
theorem lmkDestroyLogHandler_refused (r : Registry) (handler : Option Nat)
    (h : (lmkDestroyLogHandler r handler).2 ≠ lmkEOk) : (lmkDestroyLogHandler r handler).1 = r := by
  unfold lmkDestroyLogHandler at h ⊢
  split
  · next hd hh =>
    rw [hh] at h
    simp only at h
    split
    · rfl
    · next h0 => simp [h0] at h
  · rfl

/-- 生きている handler の解放は、counter が 0 のとき、そのときに限り成功する。 -/
theorem lmkDestroyLogHandler_ok_iff (ha : AddrInv r) {hd : LogHandler} (hm : hd ∈ r.handlers) :
    (lmkDestroyLogHandler r (some hd.addr)).2 = lmkEOk ↔ hd.nrLoggerRef = 0 := by
  unfold lmkDestroyLogHandler
  simp only [Option.bind_some, ha.handler?_of_mem hm]
  split
  · next h =>
    simp only [lmkENg, lmkEOk]
    omega
  · next h =>
    simp only [true_iff]
    omega

end Logmoko
