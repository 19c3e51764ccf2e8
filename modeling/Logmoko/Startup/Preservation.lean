import Logmoko.Startup.Invariant

/-!
# `lmk_init` の不変量の保存

thread が mutex を持つ位置にいる間、ほかの thread は mutex を持たない位置にいる。
そこでの `PcInv` は旗しか見ないので、旗が下りないことから保たれる。
-/

namespace Logmoko

open Transition

variable {ι : Type} {env : Env} {auto : Option Cfg} {t : ι} {g g' : StartupGlobals ι}
  {pc pc' : InitPc} {s s' : StartupState ι}

theorem PcInv.step (hm : InitMove env auto t g pc g' pc')
    (hpc : PcInv auto g.registry g.applied pc)
    (hready : g.registry.initialized = true → Ready g.registry)
    (hbefore : g.registry.initialized = false → g.applied = none)
    (hdone : pc = .recheck → g.registry.initialized = true → Done auto g.registry g.applied) :
    PcInv auto g'.registry g'.applied pc' := by
  cases hm with
  | flagSet h => exact h
  | flagClear | lock | unlockFailed => trivial
  | recheckSet h => exact ⟨h, hdone rfl h⟩
  | recheckClear h => exact h
  | initLoggerList => exact ⟨hpc, rfl⟩
  | initHandlerList => exact ⟨hpc.1, hpc.2, rfl⟩
  | created =>
    obtain ⟨hi, hl, hh⟩ := hpc
    refine ⟨hbefore hi, ?_⟩
    show Registry.mk _ _ _ _ = _
    rw [hi, hl, hh]
    rfl
  | allocFailed => exact hpc.1
  | storeFlag =>
    obtain ⟨happ, hr⟩ := hpc
    refine ⟨rfl, ?_, ?_⟩
    · rw [hr]
      rfl
    · rw [happ]
      rfl
  | opened ha => exact ⟨hpc.initialized, hpc.config, hpc.applied⟩
  | notOpened ha =>
    subst ha
    exact ⟨hpc.initialized, hpc.config, rfl⟩
  | setLogBufferSize ha hc =>
    subst ha
    obtain rfl := Option.some.inj (hc.symm.trans hpc.config)
    exact ⟨hpc.initialized, rfl, hpc.applied⟩
  | setRingBufferSize ha hc =>
    subst ha
    obtain rfl := Option.some.inj (hc.symm.trans hpc.config)
    exact ⟨hpc.initialized, rfl, hpc.applied⟩
  | applied ha hk hr =>
    obtain ⟨hready', hconfig, -⟩ := applySection_spec (hready hpc.initialized) hr
    exact ⟨hready'.initialized, hconfig.trans hpc.config, hpc.applied⟩
  | allApplied ha hk => exact ⟨hpc.initialized, hpc.config, rfl⟩
  | nestedSet => exact ⟨hpc.initialized, hpc.config, hpc.applied⟩
  | nestedClear h => exact absurd (h.symm.trans hpc.initialized) (by decide)
  | checkLogBufferSize hc =>
    obtain rfl := Option.some.inj (hc.symm.trans hpc.config)
    refine ⟨hpc.initialized, ?_, hpc.applied⟩
    show some _ = some { autoConfig auto with logBufferSize := (expectedConfig auto).logBufferSize }
    rw [← autoConfig_withDefaults]
    rfl
  | checkRingBufferSize hc =>
    obtain rfl := Option.some.inj (hc.symm.trans hpc.config)
    refine ⟨hpc.initialized, hpc.applied, ?_⟩
    show some (Config.mk (expectedConfig auto).logBufferSize _) = some (expectedConfig auto)
    rw [← autoConfig_withDefaults]
    rfl
  | unlock => exact hpc.1

theorem InitMove.ready (hm : InitMove env auto t g pc g' pc')
    (hpc : PcInv auto g.registry g.applied pc)
    (hready : g.registry.initialized = true → Ready g.registry)
    (h : g'.registry.initialized = true) : Ready g'.registry := by
  have hcontra : ∀ {P : Prop} {b : Bool}, b = true → b = false → P := by
    intro P b ht hf
    exact absurd (ht.symm.trans hf) (by decide)
  cases hm with
  | initLoggerList => exact hcontra h hpc
  | initHandlerList => exact hcontra h hpc.1
  | created => exact hcontra h hpc.1
  | allocFailed => exact hcontra h hpc.1
  | storeFlag =>
    obtain ⟨-, hr⟩ := hpc
    show Ready { g.registry with initialized := true }
    rw [hr]
    exact ready_empty _
  | applied ha hk hr => exact (applySection_spec (hready hpc.initialized) hr).1
  | setLogBufferSize ha hc | setRingBufferSize ha hc | checkLogBufferSize hc
  | checkRingBufferSize hc =>
    exact (hready h).edits (N := fun _ => True) (Edit.setConfig hc).edits
  | _ => exact hready h

/-- 初期化されていない間の大域変数。 -/
theorem InitMove.before (hm : InitMove env auto t g pc g' pc')
    (hpc : PcInv auto g.registry g.applied pc)
    (hready : g.registry.initialized = true → Ready g.registry)
    (hbefore : g.registry.initialized = false → g.applied = none ∧ g.registry.handlers = [] ∧
      ∀ c ∈ g.registry.config, c = { logBufferSize := 0, ringBufferSize := 0 })
    (h : g'.registry.initialized = false) : g'.applied = none ∧ g'.registry.handlers = [] ∧
      ∀ c ∈ g'.registry.config, c = { logBufferSize := 0, ringBufferSize := 0 } := by
  have hi : g.registry.initialized = false := by
    by_contra hne
    have := hm.initialized hready (by simpa using hne)
    rw [h] at this
    cases this
  obtain ⟨happ, hh, hc⟩ := hbefore hi
  have hconf : pc.configuring = true → False := by
    intro hconf
    rw [(hpc.configuring hconf).initialized] at hi
    cases hi
  cases hm with
  | initHandlerList => exact ⟨happ, rfl, hc⟩
  | created => exact ⟨happ, hh, fun c hc => (Option.some.inj hc).symm⟩
  | allocFailed => exact ⟨happ, hh, fun c hc => nomatch hc⟩
  | storeFlag => cases h
  | notOpened | setLogBufferSize | setRingBufferSize | applied | allApplied | checkLogBufferSize
  | checkRingBufferSize => exact (hconf rfl).elim
  | _ => exact ⟨happ, hh, hc⟩

/-- 旗が立っているなら、一文の後は、設定の途中か、設定を終えたか、何も変わらないかである。 -/
theorem InitMove.done (hm : InitMove env auto t g pc g' pc')
    (hpc : PcInv auto g.registry g.applied pc) (hpc' : PcInv auto g'.registry g'.applied pc')
    (h : g'.registry.initialized = true) :
    pc'.configuring = true ∨ Done auto g'.registry g'.applied ∨
      pc.configuring = false ∧ g'.registry = g.registry ∧ g'.applied = g.applied := by
  have hcontra : ∀ {P : Prop}, g'.registry.initialized = false → P := by
    intro P hf
    exact absurd (h.symm.trans hf) (by decide)
  cases hm with
  | initLoggerList => exact hcontra hpc
  | initHandlerList => exact hcontra hpc.1
  | created => exact hcontra hpc.1
  | allocFailed => exact hcontra hpc.1
  | storeFlag | opened | notOpened | setLogBufferSize | setRingBufferSize | applied | allApplied
  | nestedSet | nestedClear | checkLogBufferSize => exact Or.inl rfl
  | checkRingBufferSize => exact Or.inr (Or.inl hpc'.2)
  | _ => exact Or.inr (Or.inr ⟨rfl, rfl, rfl⟩)

/-- mutex を持たない位置の thread は、旗が下りない限り気づかない。 -/
theorem PcInv.of_unlocked {r r' : Registry} {applied applied' : Option Registry}
    (hpc : PcInv auto r applied pc) (hl : pc.locked = false)
    (hi : r.initialized = true → r'.initialized = true) : PcInv auto r' applied' pc := by
  cases pc with
  | returned => exact hi hpc
  | outside | loadFlag | lock | failed => trivial
  | _ => cases hl

/-- mutex を持つ位置にいる thread は一つだけである。 -/
theorem StartupInv.unlocked_of_ne (hs : StartupInv auto s) {u : ι}
    (ht : (s.threads t).locked = true) (hne : u ≠ t) : (s.threads u).locked = false := by
  by_contra hu
  have hown := hs.owner u (by simpa using hu)
  rw [hs.owner t ht] at hown
  exact hne (Option.some.inj hown).symm

theorem StartupInv.done_of_recheck (hs : StartupInv auto s) (hpc : s.threads t = .recheck)
    (hi : s.globals.registry.initialized = true) :
    Done auto s.globals.registry s.globals.applied := by
  rcases hs.done hi with ⟨u, hu⟩ | hdone
  · have ht : (s.threads t).locked = true := by rw [hpc]; rfl
    by_cases hne : u = t
    · rw [hne, hpc] at hu
      cases hu
    · have := hs.unlocked_of_ne ht hne
      rw [InitPc.locked_of_configuring hu] at this
      cases this
  · exact hdone

/-- 大域変数を書き換えるのは、mutex を持つ位置だけである。 -/
theorem InitMove.registry_eq (hm : InitMove env auto t g pc g' pc') (hl : pc.locked = false) :
    g'.registry = g.registry ∧ g'.applied = g.applied := by
  cases hm with
  | flagSet | flagClear | lock => exact ⟨rfl, rfl⟩
  | _ => cases hl

/-- 戻った thread が handler を作っても、旗と設定は変わらない。 -/
theorem StartupInv.create (hs : StartupInv auto s) {r : Registry}
    (hi : s.globals.registry.initialized = true) (hi' : r.initialized = true)
    (hc : r.config = s.globals.registry.config) (hready : Ready r) :
    StartupInv auto { s with globals := { s.globals with registry := r } } where
  owner := hs.owner
  ready _ := hready
  before h := absurd (hi'.symm.trans h) (by decide)
  pc t := by
    have hpc := hs.pc t
    have hcontra : ∀ {P : Prop}, s.globals.registry.initialized = false → P := by
      intro P hf
      exact absurd (hi.symm.trans hf) (by decide)
    show PcInv auto r s.globals.applied (s.threads t)
    cases hp : s.threads t with
    | outside | loadFlag | lock | recheck | failed => trivial
    | returned => exact hi'
    | nestedLock => rw [hp] at hpc; exact hpc.elim
    | unlock => rw [hp] at hpc; exact ⟨hi', hpc.2.applied, hc.trans hpc.2.config⟩
    | initLoggerList | unlockFailed => rw [hp] at hpc; exact hcontra hpc
    | initHandlerList | createConfig => rw [hp] at hpc; exact hcontra hpc.1
    | storeFlag =>
      rw [hp] at hpc
      exact hcontra (congrArg Registry.initialized hpc.2)
    | _ =>
      rw [hp] at hpc
      exact ⟨hi', hc.trans hpc.config, hpc.applied⟩
  done _ := by
    rcases hs.done hi with hconf | hdone
    · exact Or.inl hconf
    · exact Or.inr ⟨hdone.applied, hc.trans hdone.config⟩

section

variable [DecidableEq ι]

@[simp] theorem goto_self (s : StartupState ι) (t : ι) (pc : InitPc) :
    (s.goto t pc).threads t = pc := Function.update_self ..

theorem goto_of_ne (s : StartupState ι) {t u : ι} (h : u ≠ t) (pc : InitPc) :
    (s.goto t pc).threads u = s.threads u := Function.update_of_ne h ..

theorem StartupInv.threadStep (hs : StartupInv auto s)
    (hm : InitMove env auto t s.globals (s.threads t) g' pc') :
    StartupInv auto { s.goto t pc' with globals := g' } := by
  have hbefore := fun h => (hs.before h).1
  have hpc' := (hs.pc t).step hm hs.ready hbefore hs.done_of_recheck
  obtain ⟨hown, hothers⟩ := hm.mutex (hs.owner t)
  refine ⟨?_, ?_, hm.ready (hs.pc t) hs.ready, hm.before (hs.pc t) hs.ready hs.before, ?_⟩
  · intro u hu
    by_cases hne : u = t
    · subst hne
      exact hown (by simpa using hu)
    · refine hothers u hne (hs.owner u ?_)
      rwa [← goto_of_ne s hne pc']
  · intro u
    by_cases hne : u = t
    · subst hne
      show PcInv auto _ _ ((s.goto u pc').threads u)
      rwa [goto_self]
    · show PcInv auto _ _ ((s.goto t pc').threads u)
      rw [goto_of_ne s hne]
      cases hl : (s.threads t).locked with
      | true => exact (hs.pc u).of_unlocked (hs.unlocked_of_ne hl hne) (hm.initialized hs.ready)
      | false =>
        obtain ⟨hr, ha⟩ := hm.registry_eq hl
        show PcInv auto g'.registry g'.applied _
        rw [hr, ha]
        exact hs.pc u
  · intro hi
    rcases hm.done (hs.pc t) hpc' hi with hconf | hdone | ⟨hconf, hr, ha⟩
    · exact Or.inl ⟨t, by simpa using hconf⟩
    · exact Or.inr hdone
    · show _ ∨ Done auto g'.registry g'.applied
      rw [hr, ha]
      rcases hs.done (hr ▸ hi) with ⟨u, hu⟩ | hdone
      · refine Or.inl ⟨u, ?_⟩
        show ((s.goto t pc').threads u).configuring = true
        rwa [goto_of_ne s fun hne => ?_]
        rw [hne, hconf] at hu
        cases hu
      · exact Or.inr hdone

/-- 大域変数を変えず、mutex と設定の途中の別も変えない移動。 -/
theorem StartupInv.goto (hs : StartupInv auto s) (hl : pc'.locked = (s.threads t).locked)
    (hc : pc'.configuring = (s.threads t).configuring)
    (hpc : PcInv auto s.globals.registry s.globals.applied pc') :
    StartupInv auto (s.goto t pc') := by
  refine ⟨?_, ?_, hs.ready, hs.before, ?_⟩
  · intro u hu
    by_cases hne : u = t
    · subst hne
      rw [goto_self, hl] at hu
      exact hs.owner u hu
    · rw [goto_of_ne s hne] at hu
      exact hs.owner u hu
  · intro u
    by_cases hne : u = t
    · subst hne
      rwa [goto_self]
    · rw [goto_of_ne s hne]
      exact hs.pc u
  · intro hi
    rcases hs.done hi with ⟨u, hu⟩ | hdone
    · refine Or.inl ⟨u, ?_⟩
      by_cases hne : u = t
      · subst hne
        rwa [goto_self, hc]
      · rwa [goto_of_ne s hne]
    · exact Or.inr hdone

end

end Logmoko
