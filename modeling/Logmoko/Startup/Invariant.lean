import Logmoko.Startup.Model
import Logmoko.Registry.Applied

/-!
# `lmk_init` の不変量

mutex を持つ位置にいる thread は高々一つなので、大域変数の値は、その thread の位置で決まる。
位置ごとの値を `PcInv` で、どの thread も設定の途中にいないときの値を `Done` で表す。

`nestedLock` には到達しない。再帰呼び出しが mutex を取り直して止まることは無い。
-/

namespace Logmoko

open Transition

/-! ## section の適用 -/

/-- どの handler の ring も、いまの（正の）大きさの設定に合っている。 -/
def Registry.RingsFit (r : Registry) : Prop :=
  ∀ h ∈ r.handlers, ∃ c, r.config = some c ∧ 0 < c.ringBufferSize ∧
    h.ringMask = lmkNextPow2 c.ringBufferSize - 1

section

variable {env : Env} {r r' : Registry} {c : Config}

theorem ringsFit_iff : r.RingsFit ↔ ∀ m ∈ r.handlers.map LogHandler.ringMask,
    ∃ c, r.config = some c ∧ 0 < c.ringBufferSize ∧ m = lmkNextPow2 c.ringBufferSize - 1 := by
  rw [List.forall_mem_map]
  rfl

/-- 設定と ring の大きさの列が同じなら、合ったままである。 -/
theorem Registry.RingsFit.congr (hr : r.RingsFit) (hc : r'.config = r.config)
    (hm : r'.handlers.map LogHandler.ringMask = r.handlers.map LogHandler.ringMask) :
    r'.RingsFit := by
  rw [ringsFit_iff, hc, hm]
  exact ringsFit_iff.mp hr

/-- いまの設定に合った handler を足す。 -/
theorem Registry.RingsFit.append {h : LogHandler} (hr : r.RingsFit) (hc : r.config = some c)
    (hpos : 0 < c.ringBufferSize) (hring : h.ringMask = lmkNextPow2 c.ringBufferSize - 1) :
    ({ r with handlers := r.handlers ++ [h] } : Registry).RingsFit := by
  intro x hx
  rcases List.mem_append.mp hx with hx | hx
  · exact hr x hx
  · obtain rfl := List.mem_singleton.mp hx
    exact ⟨c, hc, hpos, hring⟩

theorem createHandler_cases (ch : CfgHandler) : createHandler r ch = r ∨
    ∃ name, createHandler r ch = { r with handlers := r.handlers ++ [ch.newHandler r name] } := by
  unfold createHandler
  split
  · exact Or.inl rfl
  · split
    · exact Or.inl rfl
    · exact Or.inr ⟨_, rfl⟩

theorem ringsFit_updateHandler (ch : CfgHandler) (hr : r.RingsFit) :
    (updateHandler env r ch).RingsFit := by
  unfold updateHandler onHandler
  split
  · exact hr.congr rfl (Keyed.map_modify fun _ => rfl)
  · exact hr

theorem ringsFit_createHandler (ch : CfgHandler) (hc : r.config = some c)
    (hpos : 0 < c.ringBufferSize) (hr : r.RingsFit) : (createHandler r ch).RingsFit := by
  rcases createHandler_cases ch with heq | ⟨name, heq⟩
  · rwa [heq]
  · rw [heq]
    refine hr.append hc hpos ?_
    show r.config.elim 0 _ = _
    rw [hc]
    rfl

/-- 初期化された registry への section 一つの適用。 -/
theorem applySection_spec {sec : CfgSection} (hready : Ready r)
    (h : applySection env r sec = some r') :
    Ready r' ∧ r'.config = r.config ∧
      ∀ c, r.config = some c → 0 < c.ringBufferSize → r.RingsFit → r'.RingsFit := by
  cases sec with
  | handler ch =>
    have heq := Option.some.inj ((applyCfgHandler_eq hready).symm.trans h)
    refine ⟨?_, ?_, ?_⟩
    · exact hready.edits (applyCfgHandler_edits (N := fun _ => True) (fun _ _ => trivial) h)
    · rw [← heq]
      exact applyHandlers_frame (g := Registry.config) (fun _ _ => rfl) [ch]
    · intro c hc hpos hr
      exact heq ▸ ringsFit_updateHandler ch (ringsFit_createHandler ch hc hpos hr)
  | logger cl =>
    have heq := Option.some.inj ((applyCfgLogger_eq hready).symm.trans h)
    have hconfig : r'.config = r.config := by
      rw [← heq]
      exact applyLoggers_frame (g := Registry.config) (fun _ _ => rfl) (fun _ _ => rfl) [cl]
    refine ⟨?_, hconfig, ?_⟩
    · exact hready.edits
        (applyCfgLogger_edits (N := fun _ => True) (fun _ _ => trivial) hready.initialized h)
    · intro c hc hpos hr
      refine hr.congr hconfig ?_
      rw [← heq]
      exact applyLoggers_frame (g := fun r => r.handlers.map LogHandler.ringMask)
        (fun _ _ => rfl) (fun _ _ => Keyed.map_modify fun _ => rfl) [cl]

end

/-! ## `lmk_init` の一文 -/

/-- `lmk_init` の一文が大域変数と位置にすること。 -/
inductive InitMove {ι : Type} (env : Env) (auto : Option Cfg) (t : ι) (g : StartupGlobals ι) :
    InitPc → StartupGlobals ι → InitPc → Prop where
  | flagSet (h : g.registry.initialized = true) : InitMove env auto t g .loadFlag g .returned
  | flagClear (h : g.registry.initialized = false) : InitMove env auto t g .loadFlag g .lock
  | lock (h : g.mutex = none) : InitMove env auto t g .lock { g with mutex := some t } .recheck
  | recheckSet (h : g.registry.initialized = true) : InitMove env auto t g .recheck g .unlock
  | recheckClear (h : g.registry.initialized = false) :
    InitMove env auto t g .recheck g .initLoggerList
  | initLoggerList :
    InitMove env auto t g .initLoggerList
      { g with registry := { g.registry with loggers := [] } } .initHandlerList
  | initHandlerList :
    InitMove env auto t g .initHandlerList
      { g with registry := { g.registry with handlers := [] } } .createConfig
  | created :
    InitMove env auto t g .createConfig
      { g with registry := { g.registry with
        config := some { logBufferSize := 0, ringBufferSize := 0 } } } .storeFlag
  | allocFailed :
    InitMove env auto t g .createConfig
      { g with registry := { g.registry with config := none } } .unlockFailed
  | unlockFailed : InitMove env auto t g .unlockFailed { g with mutex := none } .failed
  | storeFlag :
    InitMove env auto t g .storeFlag
      { g with registry := { g.registry with initialized := true } } .openConfig
  | opened {cfg} (ha : auto = some cfg) : InitMove env auto t g .openConfig g .setLogBufferSize
  | notOpened (ha : auto = none) :
    InitMove env auto t g .openConfig { g with applied := some g.registry } .checkLogBufferSize
  | setLogBufferSize {cfg c} (ha : auto = some cfg) (hc : g.registry.config = some c) :
    InitMove env auto t g .setLogBufferSize
      { g with registry := { g.registry with
        config := some { c with logBufferSize := cfg.config.logBufferSize } } } .setRingBufferSize
  | setRingBufferSize {cfg c} (ha : auto = some cfg) (hc : g.registry.config = some c) :
    InitMove env auto t g .setRingBufferSize
      { g with registry := { g.registry with
        config := some { c with ringBufferSize := cfg.config.ringBufferSize } } } (.applySection 0)
  | applied {k cfg sec r} (ha : auto = some cfg) (hk : cfg.sections[k]? = some sec)
      (hr : applySection env g.registry sec = some r) :
    InitMove env auto t g (.applySection k) { g with registry := r } (.applySection (k + 1))
  | allApplied {k cfg} (ha : auto = some cfg) (hk : cfg.sections[k]? = none) :
    InitMove env auto t g (.applySection k) { g with applied := some g.registry }
      .checkLogBufferSize
  | nestedSet {k} (h : g.registry.initialized = true) :
    InitMove env auto t g (.nestedLoad k) g (.applySection k)
  | nestedClear {k} (h : g.registry.initialized = false) :
    InitMove env auto t g (.nestedLoad k) g (.nestedLock k)
  | checkLogBufferSize {c} (hc : g.registry.config = some c) :
    InitMove env auto t g .checkLogBufferSize
      { g with registry := { g.registry with
        config := some { c with
          logBufferSize := if c.logBufferSize = 0 then cfgDefaultLogBufferSize
            else c.logBufferSize } } } .checkRingBufferSize
  | checkRingBufferSize {c} (hc : g.registry.config = some c) :
    InitMove env auto t g .checkRingBufferSize
      { g with registry := { g.registry with
        config := some { c with
          ringBufferSize := if c.ringBufferSize = 0 then cfgDefaultRingBufferSize
            else c.ringBufferSize } } } .unlock
  | unlock : InitMove env auto t g .unlock { g with mutex := none } .returned

section

variable {ι : Type} {env : Env} {auto : Option Cfg} {t : ι} {g g' : StartupGlobals ι}
  {pc pc' : InitPc}

theorem setConfig_eq_some {f : Config → Config} (h : g.setConfig f = some g') :
    ∃ c, g.registry.config = some c ∧
      g' = { g with registry := { g.registry with config := some (f c) } } := by
  obtain ⟨c, hc, rfl⟩ := Option.map_eq_some_iff.mp h
  exact ⟨c, hc, rfl⟩

theorem initStep_move [DecidableEq ι] {allocated : Bool} {p : StartupGlobals ι × InitPc}
    (h : initStep env auto t allocated g pc = some p) : InitMove env auto t g pc p.1 p.2 := by
  cases pc with
  | outside | failed | returned => cases h
  | nestedLock k => cases h
  | loadFlag =>
    obtain rfl := Option.some.inj h
    cases hi : g.registry.initialized with
    | true => exact .flagSet hi
    | false => exact .flagClear hi
  | lock =>
    obtain ⟨hm, h⟩ := Option.ite_none_right_eq_some.mp h
    obtain rfl := Option.some.inj h
    exact .lock hm
  | recheck =>
    obtain rfl := Option.some.inj h
    cases hi : g.registry.initialized with
    | true => exact .recheckSet hi
    | false => exact .recheckClear hi
  | initLoggerList =>
    obtain rfl := Option.some.inj h
    exact .initLoggerList
  | initHandlerList =>
    obtain rfl := Option.some.inj h
    exact .initHandlerList
  | createConfig =>
    cases allocated with
    | true =>
      obtain rfl := Option.some.inj h
      exact .created
    | false =>
      obtain rfl := Option.some.inj h
      exact .allocFailed
  | unlockFailed =>
    obtain rfl := Option.some.inj h
    exact .unlockFailed
  | storeFlag =>
    obtain rfl := Option.some.inj h
    exact .storeFlag
  | openConfig =>
    cases auto with
    | some cfg =>
      obtain rfl := Option.some.inj h
      exact .opened rfl
    | none =>
      obtain rfl := Option.some.inj h
      exact .notOpened rfl
  | setLogBufferSize =>
    obtain ⟨cfg, ha, h⟩ := Option.bind_eq_some_iff.mp h
    obtain ⟨g', hg, rfl⟩ := Option.map_eq_some_iff.mp h
    obtain ⟨c, hc, rfl⟩ := setConfig_eq_some hg
    exact .setLogBufferSize ha hc
  | setRingBufferSize =>
    obtain ⟨cfg, ha, h⟩ := Option.bind_eq_some_iff.mp h
    obtain ⟨g', hg, rfl⟩ := Option.map_eq_some_iff.mp h
    obtain ⟨c, hc, rfl⟩ := setConfig_eq_some hg
    exact .setRingBufferSize ha hc
  | applySection k =>
    obtain ⟨cfg, ha, h⟩ := Option.bind_eq_some_iff.mp h
    split at h
    · next sec hk =>
      obtain ⟨r, hr, rfl⟩ := Option.map_eq_some_iff.mp h
      exact .applied ha hk hr
    · next hk =>
      obtain rfl := Option.some.inj h
      exact .allApplied ha hk
  | nestedLoad k =>
    obtain rfl := Option.some.inj h
    cases hi : g.registry.initialized with
    | true => exact .nestedSet hi
    | false => exact .nestedClear hi
  | checkLogBufferSize =>
    obtain ⟨g', hg, rfl⟩ := Option.map_eq_some_iff.mp h
    obtain ⟨c, hc, rfl⟩ := setConfig_eq_some hg
    exact .checkLogBufferSize hc
  | checkRingBufferSize =>
    obtain ⟨g', hg, rfl⟩ := Option.map_eq_some_iff.mp h
    obtain ⟨c, hc, rfl⟩ := setConfig_eq_some hg
    exact .checkRingBufferSize hc
  | unlock =>
    obtain rfl := Option.some.inj h
    exact .unlock

/-! ## 位置 -/

/-- mutex を持つ位置。 -/
def InitPc.locked : InitPc → Bool
  | .outside | .loadFlag | .lock | .failed | .returned => false
  | _ => true

/-- 旗を立ててから設定を終えるまでの位置。 -/
def InitPc.configuring : InitPc → Bool
  | .openConfig | .setLogBufferSize | .setRingBufferSize | .applySection _ | .nestedLoad _
  | .nestedLock _ | .checkLogBufferSize | .checkRingBufferSize => true
  | _ => false

/-- `lmk_apply_auto_config` が戻った後の位置。 -/
def InitPc.pastApply : InitPc → Bool
  | .checkLogBufferSize | .checkRingBufferSize => true
  | _ => false

theorem InitPc.locked_of_configuring (h : pc.configuring = true) : pc.locked = true := by
  cases pc <;> first | rfl | cases h

/-- 自動設定を適用した直後の設定。 -/
def autoConfig (auto : Option Cfg) : Config :=
  auto.elim { logBufferSize := 0, ringBufferSize := 0 } Cfg.config

/-- 初期化が定める設定。自動設定の file が読めればその値、読めなければ既定値である。 -/
def expectedConfig : Option Cfg → Config
  | some cfg => cfg.config
  | none =>
    { logBufferSize := cfgDefaultLogBufferSize, ringBufferSize := cfgDefaultRingBufferSize }

theorem sizeOrDefault_pos {size : Int} {default : Nat} (h : 0 < default) :
    0 < sizeOrDefault size default := by
  unfold sizeOrDefault
  split <;> omega

theorem Cfg.config_pos (cfg : Cfg) :
    0 < cfg.config.logBufferSize ∧ 0 < cfg.config.ringBufferSize :=
  ⟨sizeOrDefault_pos (by decide), sizeOrDefault_pos (by decide)⟩

theorem expectedConfig_pos (auto : Option Cfg) :
    0 < (expectedConfig auto).logBufferSize ∧ 0 < (expectedConfig auto).ringBufferSize := by
  cases auto with
  | none => decide
  | some cfg => exact cfg.config_pos

theorem autoConfig_withDefaults (auto : Option Cfg) :
    (autoConfig auto).withDefaults = expectedConfig auto := by
  cases auto with
  | none => rfl
  | some cfg =>
    obtain ⟨hl, hr⟩ := cfg.config_pos
    show cfg.config.withDefaults = cfg.config
    unfold Config.withDefaults
    rw [if_neg (by omega), if_neg (by omega)]

/-- 設定の途中の位置での `g_lmk_config` の値。 -/
def configAt (auto : Option Cfg) : InitPc → Config
  | .setRingBufferSize => { logBufferSize := (autoConfig auto).logBufferSize, ringBufferSize := 0 }
  | .applySection _ | .nestedLoad _ | .checkLogBufferSize => autoConfig auto
  | .checkRingBufferSize =>
    { autoConfig auto with logBufferSize := (expectedConfig auto).logBufferSize }
  | _ => { logBufferSize := 0, ringBufferSize := 0 }

/-! ## 不変量 -/

/-- 設定を終えた後の大域変数。 -/
structure Done (auto : Option Cfg) (r : Registry) (applied : Option Registry) : Prop where
  applied : applied.isSome = true
  config : r.config = some (expectedConfig auto)

/-- 設定の途中の大域変数。 -/
structure Configuring (auto : Option Cfg) (r : Registry) (applied : Option Registry)
    (pc : InitPc) : Prop where
  initialized : r.initialized = true
  config : r.config = some (configAt auto pc)
  applied : applied.isSome = pc.pastApply

/-- 位置ごとの大域変数。 -/
def PcInv (auto : Option Cfg) (r : Registry) (applied : Option Registry) (pc : InitPc) : Prop :=
  match pc with
  | .outside | .loadFlag | .lock | .recheck | .failed => True
  | .initLoggerList | .unlockFailed => r.initialized = false
  | .initHandlerList => r.initialized = false ∧ r.loggers = []
  | .createConfig => r.initialized = false ∧ r.loggers = [] ∧ r.handlers = []
  | .storeFlag => applied = none ∧ r =
      { Registry.empty { logBufferSize := 0, ringBufferSize := 0 } with initialized := false }
  | .nestedLock _ => False
  | .unlock => r.initialized = true ∧ Done auto r applied
  | .returned => r.initialized = true
  | pc => Configuring auto r applied pc

/-- 初期化の系の不変量。 -/
structure StartupInv (auto : Option Cfg) (s : StartupState ι) : Prop where
  owner : ∀ t, (s.threads t).locked = true → s.globals.mutex = some t
  pc : ∀ t, PcInv auto s.globals.registry s.globals.applied (s.threads t)
  ready : s.globals.registry.initialized = true → Ready s.globals.registry
  before : s.globals.registry.initialized = false → s.globals.applied = none ∧
    s.globals.registry.handlers = [] ∧
    ∀ c ∈ s.globals.registry.config, c = { logBufferSize := 0, ringBufferSize := 0 }
  done : s.globals.registry.initialized = true →
    (∃ t, (s.threads t).configuring = true) ∨ Done auto s.globals.registry s.globals.applied

theorem PcInv.configuring {r : Registry} {applied : Option Registry}
    (h : PcInv auto r applied pc) (hc : pc.configuring = true) :
    Configuring auto r applied pc := by
  unfold PcInv at h
  unfold InitPc.configuring at hc
  split at hc <;> first | exact h | exact h.elim | cases hc

theorem startupInv_initial : StartupInv auto (startupInitial ι) where
  owner _ h := nomatch h
  pc _ := trivial
  ready h := nomatch h
  before _ := ⟨rfl, rfl, fun _ h => nomatch h⟩
  done h := nomatch h

/-- 旗は下りない。 -/
theorem InitMove.initialized (hm : InitMove env auto t g pc g' pc')
    (hready : g.registry.initialized = true → Ready g.registry)
    (h : g.registry.initialized = true) : g'.registry.initialized = true := by
  cases hm with
  | applied ha hk hr => exact (applySection_spec (hready h) hr).1.initialized
  | storeFlag => rfl
  | _ => exact h

/-- mutex を持つ位置に入るのは、取ったときだけである。他の thread の mutex は取り上げない。 -/
theorem InitMove.mutex (hm : InitMove env auto t g pc g' pc')
    (hown : pc.locked = true → g.mutex = some t) :
    (pc'.locked = true → g'.mutex = some t) ∧
    ∀ u, u ≠ t → g.mutex = some u → g'.mutex = some u := by
  cases hm with
  | lock h =>
    refine ⟨fun _ => rfl, ?_⟩
    intro u _ hu
    rw [h] at hu
    cases hu
  | unlockFailed | unlock =>
    refine ⟨fun h => (nomatch h), ?_⟩
    intro u hne hu
    exact absurd (Option.some.inj (hu.symm.trans (hown rfl))) hne
  | flagSet | flagClear => exact ⟨fun h => (nomatch h), fun _ _ hu => hu⟩
  | _ => exact ⟨fun _ => hown rfl, fun _ _ hu => hu⟩

end

end Logmoko
