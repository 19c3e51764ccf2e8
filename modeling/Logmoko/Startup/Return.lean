import Logmoko.Startup.Preservation

/-!
# `lmk_init` が戻ったときの状態

旗は自動設定を適用する前に立つので、その途中に別の thread が mutex の外で旗を読むと、
設定が終わらないうちに `lmk_init` が戻る（`init_returns_before_config`）。
そのまま作った handler の ring は、設定にも既定値にもない大きさになる。

途中で読む thread が無ければ、どの thread も設定が終わってから戻り、
自動設定の適用は一つの thread による `lmk_parse_and_apply` に等しい。
-/

namespace Logmoko

open Transition

/-! ## 設定が終わっていること -/

/-- 自動設定の適用が終わり、二つの大きさが正である。 -/
def StartupGlobals.Complete {ι : Type} (g : StartupGlobals ι) : Prop :=
  g.applied.isSome = true ∧
    ∃ c, g.registry.config = some c ∧ 0 < c.logBufferSize ∧ 0 < c.ringBufferSize

/-- 旗を立ててから、自動設定を適用し、（file が読めなければ）既定値を入れるまでの位置。 -/
def InitPc.unfinished (auto : Option Cfg) : InitPc → Bool
  | .openConfig | .setLogBufferSize | .setRingBufferSize | .applySection _ | .nestedLoad _
  | .nestedLock _ => true
  | .checkLogBufferSize | .checkRingBufferSize => auto.isNone
  | _ => false

/-- 別の thread の設定が終わらないうちに、mutex の外で立った旗を読まない動作。 -/
def StartupAction.ReadsFinished {ι : Type} (auto : Option Cfg) (s : StartupState ι) :
    StartupAction ι → Prop
  | .step t _ => s.threads t = .loadFlag → s.globals.registry.initialized = true →
      ∀ u ∈ s.globals.mutex, (s.threads u).unfinished auto = false
  | _ => True

instance {ι : Type} (auto : Option Cfg) (s : StartupState ι) :
    DecidablePred (StartupAction.ReadsFinished auto s)
  | .step t _ => inferInstanceAs (Decidable (s.threads t = .loadFlag →
      s.globals.registry.initialized = true →
      ∀ u ∈ s.globals.mutex, (s.threads u).unfinished auto = false))
  | .call _ | .nest _ | .create _ _ _ | .leave _ => inferInstanceAs (Decidable True)

/-- `lmk_init` から戻ったどの thread から見ても、設定は終わっている。 -/
def StartupState.ReturnsComplete {ι : Type} (s : StartupState ι) : Prop :=
  ∀ t, s.threads t = .returned → s.globals.Complete

section

variable {ι : Type} {env : Env} {auto : Option Cfg} {t u : ι} {g g' : StartupGlobals ι}
  {pc pc' : InitPc} {s s' : StartupState ι}

theorem Done.complete (h : Done auto g.registry g.applied) : g.Complete :=
  ⟨h.applied, _, h.config, expectedConfig_pos auto⟩

/-- 設定の途中の位置では、終わっていないことが位置で決まる。 -/
theorem Configuring.complete_iff (h : Configuring auto g.registry g.applied pc)
    (hc : pc.configuring = true) : g.Complete ↔ pc.unfinished auto = false := by
  have hzero : ∀ c, configAt auto pc = c → g.Complete →
      0 < c.logBufferSize ∧ 0 < c.ringBufferSize := by
    rintro c rfl ⟨-, c, hc, hpos⟩
    obtain rfl := Option.some.inj (h.config.symm.trans hc)
    exact hpos
  have hnot : pc.pastApply = false → ¬ g.Complete := by
    intro hp hg
    have := h.applied.symm.trans hg.1
    rw [hp] at this
    cases this
  have hpast : pc.pastApply = true →
      0 < (configAt auto pc).logBufferSize ∧ 0 < (configAt auto pc).ringBufferSize →
      g.Complete :=
    fun hp hpos => ⟨h.applied.trans hp, _, h.config, hpos⟩
  cases pc with
  | openConfig | setLogBufferSize | setRingBufferSize | applySection | nestedLoad | nestedLock =>
    exact iff_of_false (hnot rfl) (by simp [InitPc.unfinished])
  | checkLogBufferSize =>
    cases auto with
    | none => exact iff_of_false (fun hg => absurd (hzero _ rfl hg).1 (by decide)) (by decide)
    | some cfg => exact iff_of_true (hpast rfl cfg.config_pos) rfl
  | checkRingBufferSize =>
    cases auto with
    | none => exact iff_of_false (fun hg => absurd (hzero _ rfl hg).2 (by decide)) (by decide)
    | some cfg => exact iff_of_true (hpast rfl cfg.config_pos) rfl
  | _ => cases hc

theorem InitPc.configuring_of_unfinished (h : pc.unfinished auto = true) :
    pc.configuring = true := by
  cases pc <;> first | rfl | cases h

/-- 旗が立っているとき、設定が終わっていないのは、mutex を持つ thread がその途中にいるときである。 -/
theorem StartupInv.complete_iff (hs : StartupInv auto s)
    (hi : s.globals.registry.initialized = true) :
    s.globals.Complete ↔ ∀ u ∈ s.globals.mutex, (s.threads u).unfinished auto = false := by
  constructor
  · intro hg u _
    by_contra hu
    have hconf := InitPc.configuring_of_unfinished (by simpa using hu)
    exact hu ((((hs.pc u).configuring hconf).complete_iff hconf).mp hg)
  · intro hall
    rcases hs.done hi with ⟨t, ht⟩ | hdone
    · have hown := hs.owner t (InitPc.locked_of_configuring ht)
      exact (((hs.pc t).configuring ht).complete_iff ht).mpr (hall t hown)
    · exact hdone.complete

/-- 終わった設定は、終わったままである。 -/
theorem InitMove.complete (hm : InitMove env auto t g pc g' pc')
    (hpc : PcInv auto g.registry g.applied pc)
    (hbefore : g.registry.initialized = false → g.applied = none)
    (hg : g.Complete) : g'.Complete := by
  have hcontra : g.registry.initialized = false → g'.Complete := by
    intro hi
    have := hg.1
    rw [hbefore hi] at this
    cases this
  have hconf : pc.configuring = true → pc.unfinished auto = true → g'.Complete := by
    intro hc hu
    have := ((hpc.configuring hc).complete_iff hc).mp hg
    rw [hu] at this
    cases this
  obtain ⟨happ, c₀, hc₀, hl, hr⟩ := hg
  cases hm with
  | initLoggerList => exact hcontra hpc
  | initHandlerList => exact hcontra hpc.1
  | created => exact hcontra hpc.1
  | allocFailed => exact hcontra hpc.1
  | storeFlag => exact ⟨happ, c₀, hc₀, hl, hr⟩
  | opened | notOpened | setLogBufferSize | setRingBufferSize | applied | allApplied =>
    exact hconf rfl rfl
  | checkLogBufferSize hc =>
    obtain rfl := Option.some.inj (hc₀.symm.trans hc)
    refine ⟨happ, _, rfl, ?_, hr⟩
    dsimp only
    rwa [if_neg (by omega)]
  | checkRingBufferSize hc =>
    obtain rfl := Option.some.inj (hc₀.symm.trans hc)
    refine ⟨happ, _, rfl, hl, ?_⟩
    dsimp only
    rwa [if_neg (by omega)]
  | _ => exact ⟨happ, c₀, hc₀, hl, hr⟩

section

variable [DecidableEq ι]

/-- 戻っていない位置への移動。 -/
theorem StartupState.ReturnsComplete.goto (hs : s.ReturnsComplete) (hpc : pc' ≠ .returned)
    (hg : s.globals.Complete → g'.Complete) :
    ({ s.goto t pc' with globals := g' } : StartupState ι).ReturnsComplete := by
  intro u hu
  by_cases hne : u = t
  · subst hne
    rw [show ({ s.goto u pc' with globals := g' } : StartupState ι).threads u = pc' from
      goto_self s u pc'] at hu
    exact absurd hu hpc
  · exact hg (hs u ((goto_of_ne s hne pc').symm.trans hu))

theorem returnsComplete_step_iff {a : StartupAction ι} (hs : StartupInv auto s)
    (hret : s.ReturnsComplete) (h : startupStep env auto s a = some s') :
    s'.ReturnsComplete ↔ a.ReadsFinished auto s := by
  cases a with
  | call t =>
    obtain ⟨-, h⟩ := Option.ite_none_right_eq_some.mp h
    obtain rfl := Option.some.inj h
    exact iff_of_true (hret.goto (by decide) id) trivial
  | nest t =>
    simp only [startupStep] at h
    split at h
    · obtain rfl := Option.some.inj h
      exact iff_of_true (hret.goto (by simp) id) trivial
    · cases h
  | create t name body =>
    obtain ⟨-, h⟩ := Option.ite_none_right_eq_some.mp h
    obtain ⟨p, hp, rfl⟩ := Option.map_eq_some_iff.mp h
    refine iff_of_true (hret.goto (by decide) ?_) trivial
    rintro ⟨happ, c, hc, hpos⟩
    refine ⟨happ, c, ?_, hpos⟩
    rcases getOrCreateHandler_cases hp with heq | ⟨c', hd, -, -, heq⟩
    · exact heq ▸ hc
    · exact heq ▸ hc
  | leave t =>
    obtain ⟨-, h⟩ := Option.ite_none_right_eq_some.mp h
    obtain rfl := Option.some.inj h
    exact iff_of_true (hret.goto (by decide) id) trivial
  | step t allocated =>
    obtain ⟨⟨g', pc'⟩, hp, rfl⟩ := Option.map_eq_some_iff.mp h
    have hm := initStep_move hp
    have hmono := hm.complete (hs.pc t) fun hi => (hs.before hi).1
    have hnew : pc' ≠ .returned →
        ({ s.goto t pc' with globals := g' } : StartupState ι).ReturnsComplete :=
      fun hne => hret.goto hne hmono
    have hpc := hs.pc t
    generalize hcur : s.threads t = pc at hm hpc
    have hfinished : pc ≠ .loadFlag → (StartupAction.step t allocated).ReadsFinished auto s :=
      fun hne hl => absurd (hcur.symm.trans hl) hne
    cases hm with
    | flagSet hi =>
      -- mutex の外で旗を読んで戻る、ただ一つの step
      rw [StartupAction.ReadsFinished, ← hs.complete_iff hi]
      constructor
      · intro hret' _ _
        exact hret' t (goto_self s t .returned)
      · intro hall u hu
        exact hall hcur hi
    | flagClear hi =>
      refine iff_of_true (hnew (by decide)) ?_
      intro _ hi'
      exact absurd (hi'.symm.trans hi) (by decide)
    | unlock =>
      refine iff_of_true ?_ (hfinished (by decide))
      intro u _
      exact hpc.2.complete
    | _ => exact iff_of_true (hnew (by simp)) (hfinished (by simp))

end

/-! ## 自動設定の適用 -/

/-- 設定の途中の位置での registry。thread が一つだけの場合と同じである。 -/
def AppliedAt (env : Env) (auto : Option Cfg) (r : Registry) : InitPc → Prop
  | .openConfig | .setLogBufferSize =>
    r = Registry.empty { logBufferSize := 0, ringBufferSize := 0 }
  | .setRingBufferSize => ∀ cfg ∈ auto,
    r = Registry.empty { logBufferSize := cfg.config.logBufferSize, ringBufferSize := 0 }
  | .applySection k | .nestedLoad k | .nestedLock k => ∀ cfg ∈ auto,
    (cfg.sections.take k).foldlM (applySection env) (Registry.empty cfg.config) = some r
  | _ => True

/-- 空の registry に自動設定を適用した結果。 -/
def AutoApplied (env : Env) (auto : Option Cfg) (r : Registry) : Prop :=
  (lmkParseAndApply env (Registry.empty { logBufferSize := 0, ringBufferSize := 0 }) auto).map
    Prod.fst = some r

theorem lmkCfgApply_sections (cfg : Cfg) (c : Config) :
    lmkCfgApply env (Registry.empty c) cfg
      = cfg.sections.foldlM (applySection env) (Registry.empty cfg.config) := by
  unfold Cfg.sections
  rw [List.foldlM_append, List.foldlM_map]
  simp only [List.foldlM_map]
  rfl

theorem InitPc.unfinished_of_locked_appliedAt (h : ¬ AppliedAt env auto g.registry pc) :
    pc.unfinished auto = true := by
  cases pc <;> first | rfl | exact (h trivial).elim

/-- 別の thread が registry に触れなければ、適用は一文ずつ進む。 -/
theorem AppliedAt.step (hm : InitMove env auto t g pc g' pc')
    (hpc : PcInv auto g.registry g.applied pc) (h : AppliedAt env auto g.registry pc) :
    AppliedAt env auto g'.registry pc' := by
  cases hm with
  | storeFlag =>
    obtain ⟨-, hr⟩ := hpc
    show ({ g.registry with initialized := true } : Registry) = _
    rw [hr]
    rfl
  | opened => exact h
  | setLogBufferSize ha hc =>
    rintro cfg rfl
    obtain rfl := Option.some.inj ha
    have h : g.registry = _ := h
    rw [h] at hc ⊢
    obtain rfl := Option.some.inj hc
    rfl
  | setRingBufferSize ha hc =>
    rintro cfg rfl
    obtain rfl := Option.some.inj ha
    have h := h _ rfl
    rw [h] at hc ⊢
    obtain rfl := Option.some.inj hc
    rfl
  | applied ha hk hr =>
    rintro cfg rfl
    obtain rfl := Option.some.inj ha
    rw [List.take_add_one, hk, List.foldlM_append, h _ rfl]
    show (applySection env g.registry _).bind _ = _
    rw [hr]
    rfl
  | nestedSet => exact h
  | nestedClear hi => exact absurd (hi.symm.trans hpc.initialized) (by decide)
  | _ => trivial

/-- `lmk_apply_auto_config` が戻るときの registry。 -/
theorem AppliedAt.autoApplied (hm : InitMove env auto t g pc g' pc')
    (h : AppliedAt env auto g.registry pc)
    (happ : ∀ r, g.applied = some r → AutoApplied env auto r) :
    ∀ r, g'.applied = some r → AutoApplied env auto r := by
  cases hm with
  | notOpened ha =>
    rintro r hr
    obtain rfl := Option.some.inj hr
    subst ha
    exact congrArg some (Eq.symm h)
  | allApplied ha hk =>
    rintro r hr
    obtain rfl := Option.some.inj hr
    subst ha
    have h := h _ rfl
    rw [List.take_of_length_le (List.getElem?_eq_none_iff.mp hk)] at h
    show ((lmkCfgApply env (Registry.empty _) _).map fun r => (r, lmkEOk)).map Prod.fst = _
    rw [lmkCfgApply_sections, h]
    rfl
  | _ => exact happ

/-- ring の大きさは、一文ごとに設定に合っている。 -/
theorem InitMove.ringsFit (hm : InitMove env auto t g pc g' pc')
    (hpc : PcInv auto g.registry g.applied pc) (happ : AppliedAt env auto g.registry pc)
    (hready : g.registry.initialized = true → Ready g.registry)
    (hbefore : g.registry.initialized = false → g.registry.handlers = [])
    (h : g.registry.RingsFit) : g'.registry.RingsFit := by
  have hnil : ∀ {r : Registry}, r.handlers = [] → r.RingsFit := by
    intro r hr hd hmem
    rw [hr] at hmem
    cases hmem
  cases hm with
  | initHandlerList => exact hnil rfl
  | created => exact hnil (hbefore hpc.1)
  | allocFailed => exact hnil (hbefore hpc.1)
  | setLogBufferSize ha hc =>
    have happ : g.registry = _ := happ
    exact hnil (congrArg Registry.handlers happ)
  | setRingBufferSize ha hc =>
    subst ha
    exact hnil (congrArg Registry.handlers (happ _ rfl))
  | applied ha hk hr =>
    subst ha
    exact (applySection_spec (hready hpc.initialized) hr).2.2 _ hpc.config
      (Cfg.config_pos _).2 h
  | checkLogBufferSize hc =>
    intro hd hmem
    obtain ⟨c, hc', hpos, hring⟩ := h hd hmem
    obtain rfl := Option.some.inj (hc.symm.trans hc')
    exact ⟨_, rfl, hpos, hring⟩
  | checkRingBufferSize hc =>
    intro hd hmem
    obtain ⟨c, hc', hpos, hring⟩ := h hd hmem
    obtain rfl := Option.some.inj (hc.symm.trans hc')
    refine ⟨_, rfl, ?_⟩
    dsimp only
    rw [if_neg (by omega)]
    exact ⟨hpos, hring⟩
  | _ => exact h

/-- 途中で読む thread が無い実行の不変量。 -/
structure RefineInv (env : Env) (auto : Option Cfg) (s : StartupState ι) : Prop where
  appliedAt : ∀ t, AppliedAt env auto s.globals.registry (s.threads t)
  autoApplied : ∀ r, s.globals.applied = some r → AutoApplied env auto r
  rings : s.globals.registry.RingsFit

theorem refineInv_initial : RefineInv env auto (startupInitial ι) where
  appliedAt _ := trivial
  autoApplied _ h := nomatch h
  rings _ h := nomatch h

theorem AppliedAt.of_unlocked {r : Registry} (hl : pc.locked = false) :
    AppliedAt env auto r pc := by
  cases pc <;> trivial

/-- 途中でも終わっている位置の設定は、初期化が定める設定である。 -/
theorem configAt_of_finished (hc : pc.configuring = true) (hu : pc.unfinished auto = false) :
    configAt auto pc = expectedConfig auto := by
  cases pc with
  | openConfig | setLogBufferSize | setRingBufferSize | applySection | nestedLoad | nestedLock =>
    cases hu
  | checkLogBufferSize | checkRingBufferSize =>
    cases auto with
    | none => cases hu
    | some cfg => rfl
  | _ => cases hc

/-- 正の大きさの設定は、初期化が定める設定である。 -/
theorem StartupInv.ringBufferSize_eq (hs : StartupInv auto s) {c : Config}
    (hc : s.globals.registry.config = some c) (hpos : 0 < c.ringBufferSize) :
    c.ringBufferSize = (expectedConfig auto).ringBufferSize := by
  cases hi : s.globals.registry.initialized with
  | false =>
    rw [(hs.before hi).2.2 c hc] at hpos
    cases hpos
  | true =>
    rcases hs.done hi with ⟨t, ht⟩ | hdone
    · have hconf := (hs.pc t).configuring ht
      obtain rfl := Option.some.inj (hconf.config.symm.trans hc)
      have hauto : 0 < (autoConfig auto).ringBufferSize →
          (autoConfig auto).ringBufferSize = (expectedConfig auto).ringBufferSize := by
        intro hpos
        rw [← autoConfig_withDefaults]
        exact (if_neg (by omega)).symm
      cases hp : s.threads t with
      | applySection | nestedLoad | checkLogBufferSize | checkRingBufferSize =>
        rw [hp] at hpos
        exact hauto hpos
      | _ =>
        rw [hp] at hpos
        cases hpos
    · obtain rfl := Option.some.inj (hdone.config.symm.trans hc)
      rfl

/-- 設定が終わっていれば、大きさは初期化が定めるものである。 -/
theorem StartupInv.config_of_complete (hs : StartupInv auto s) (hg : s.globals.Complete) :
    s.globals.registry.config = some (expectedConfig auto) := by
  obtain ⟨happ, c, hc, hl, hr⟩ := hg
  cases hi : s.globals.registry.initialized with
  | false =>
    rw [(hs.before hi).1] at happ
    cases happ
  | true =>
    rcases hs.done hi with ⟨t, ht⟩ | hdone
    · have hconf := (hs.pc t).configuring ht
      have hunf := (hconf.complete_iff ht).mp ⟨happ, c, hc, hl, hr⟩
      rw [hconf.config, configAt_of_finished ht hunf]
    · exact hdone.config

section

variable [DecidableEq ι]

/-- registry を変えない移動。 -/
theorem RefineInv.goto (hr : RefineInv env auto s)
    (hpc : AppliedAt env auto s.globals.registry pc') : RefineInv env auto (s.goto t pc') where
  appliedAt u := by
    by_cases hne : u = t
    · subst hne
      rwa [goto_self]
    · rw [goto_of_ne s hne]
      exact hr.appliedAt u
  autoApplied := hr.autoApplied
  rings := hr.rings

theorem RefineInv.step {a : StartupAction ι} (hs : StartupInv auto s) (hret : s.ReturnsComplete)
    (hr : RefineInv env auto s) (h : startupStep env auto s a = some s') :
    RefineInv env auto s' := by
  cases a with
  | call t =>
    obtain ⟨-, h⟩ := Option.ite_none_right_eq_some.mp h
    obtain rfl := Option.some.inj h
    exact hr.goto trivial
  | nest t =>
    simp only [startupStep] at h
    split at h
    · next k hk =>
      obtain rfl := Option.some.inj h
      have happ := hr.appliedAt t
      rw [hk] at happ
      exact hr.goto happ
    · cases h
  | leave t =>
    obtain ⟨-, h⟩ := Option.ite_none_right_eq_some.mp h
    obtain rfl := Option.some.inj h
    exact hr.goto trivial
  | create t name body =>
    obtain ⟨hpc, h⟩ := Option.ite_none_right_eq_some.mp h
    obtain ⟨p, hp, rfl⟩ := Option.map_eq_some_iff.mp h
    have hg := hret t hpc
    have hi : s.globals.registry.initialized = true := by
      have := hs.pc t
      rw [hpc] at this
      exact this
    -- 設定は終わっているので、適用の途中の thread は無い
    have hidle : ∀ u r, AppliedAt env auto r (s.threads u) := by
      intro u r
      by_contra hu
      have hunf := InitPc.unfinished_of_locked_appliedAt (g := { s.globals with registry := r }) hu
      have hown := hs.owner u
        (InitPc.locked_of_configuring (InitPc.configuring_of_unfinished hunf))
      rw [(hs.complete_iff hi).mp hg u hown] at hunf
      cases hunf
    refine ⟨?_, hr.autoApplied, ?_⟩
    · intro u
      by_cases hne : u = t
      · subst hne
        show AppliedAt env auto p.1 ((s.goto u .outside).threads u)
        rw [goto_self]
        trivial
      · show AppliedAt env auto p.1 ((s.goto t .outside).threads u)
        rw [goto_of_ne s hne]
        exact hidle u p.1
    · obtain ⟨-, c, hc, -, hpos⟩ := hg
      show p.1.RingsFit
      rcases getOrCreateHandler_cases hp with heq | ⟨c', hd, hc', hring, heq⟩
      · exact heq ▸ hr.rings
      · obtain rfl := Option.some.inj (hc.symm.trans hc')
        exact heq ▸ hr.rings.append hc hpos hring
  | step t allocated =>
    obtain ⟨⟨g', pc'⟩, hp, rfl⟩ := Option.map_eq_some_iff.mp h
    have hm := initStep_move hp
    refine ⟨?_, (hr.appliedAt t).autoApplied hm hr.autoApplied,
      hm.ringsFit (hs.pc t) (hr.appliedAt t) hs.ready (fun hi => (hs.before hi).2.1) hr.rings⟩
    intro u
    by_cases hne : u = t
    · subst hne
      show AppliedAt env auto g'.registry ((s.goto u pc').threads u)
      rw [goto_self]
      exact (hr.appliedAt u).step hm (hs.pc u)
    · show AppliedAt env auto g'.registry ((s.goto t pc').threads u)
      rw [goto_of_ne s hne]
      cases hl : (s.threads t).locked with
      | true => exact .of_unlocked (hs.unlocked_of_ne hl hne)
      | false =>
        rw [(hm.registry_eq hl).1]
        exact hr.appliedAt u

theorem StartupInv.step {a : StartupAction ι} (hs : StartupInv auto s)
    (h : startupStep env auto s a = some s') : StartupInv auto s' := by
  cases a with
  | call t =>
    obtain ⟨hpc, h⟩ := Option.ite_none_right_eq_some.mp h
    obtain rfl := Option.some.inj h
    exact hs.goto (by rw [hpc]; rfl) (by rw [hpc]; rfl) trivial
  | nest t =>
    simp only [startupStep] at h
    split at h
    · next k hk =>
      obtain rfl := Option.some.inj h
      have hpc := hs.pc t
      rw [hk] at hpc
      exact hs.goto (by rw [hk]; rfl) (by rw [hk]; rfl)
        ⟨hpc.initialized, hpc.config, hpc.applied⟩
    · cases h
  | leave t =>
    obtain ⟨hpc, h⟩ := Option.ite_none_right_eq_some.mp h
    obtain rfl := Option.some.inj h
    rcases hpc with hpc | hpc
    · exact hs.goto (by rw [hpc]; rfl) (by rw [hpc]; rfl) trivial
    · exact hs.goto (by rw [hpc]; rfl) (by rw [hpc]; rfl) trivial
  | create t name body =>
    obtain ⟨hpc, h⟩ := Option.ite_none_right_eq_some.mp h
    obtain ⟨p, hp, rfl⟩ := Option.map_eq_some_iff.mp h
    have hi : s.globals.registry.initialized = true := by
      have := hs.pc t
      rw [hpc] at this
      exact this
    have hready := (hs.ready hi).edits
      (getOrCreateHandler_edits (N := fun _ => True) trivial hp)
    have hconfig : p.1.config = s.globals.registry.config := by
      rcases getOrCreateHandler_cases hp with heq | ⟨c, hd, -, -, heq⟩
      · rw [heq]
      · rw [heq]
    have hout : StartupInv auto (s.goto t .outside) :=
      hs.goto (by rw [hpc]; rfl) (by rw [hpc]; rfl) trivial
    exact hout.create hi hready.initialized hconfig hready
  | step t allocated =>
    obtain ⟨⟨g', pc'⟩, hp, rfl⟩ := Option.map_eq_some_iff.mp h
    exact hs.threadStep (initStep_move hp)

/-! ## 実行全体 -/

/--
どの thread も、別の thread の設定が終わらないうちに mutex の外で立った旗を読まない実行では、
`lmk_init` が戻ったとき自動設定は適用し終わっていて（結果は一つの thread による適用に等しい）、
二つの大きさは自動設定のものか既定値であり、どの handler の ring もその大きさである。
条件は緩められない。戻ったどの thread から見ても設定が終わっていることと同値である。
-/
theorem init_complete_on_return (env : Env) (auto : Option Cfg)
    (as : List (StartupAction ι)) (s : StartupState ι)
    (h : run (startupStep env auto) (startupInitial ι) as = some s) :
    (Along (startupStep env auto) (StartupAction.ReadsFinished auto) (startupInitial ι) as ↔
      ∀ bs u, bs <+: as → run (startupStep env auto) (startupInitial ι) bs = some u →
        ∀ t, u.threads t = .returned → u.globals.Complete) ∧
    (Along (startupStep env auto) (StartupAction.ReadsFinished auto) (startupInitial ι) as →
      (∀ t, s.threads t = .returned →
        s.globals.registry.config = some (expectedConfig auto) ∧
        ∃ r, s.globals.applied = some r ∧ AutoApplied env auto r) ∧
      ∀ hd ∈ s.globals.registry.handlers,
        hd.ringMask = lmkNextPow2 (expectedConfig auto).ringBufferSize - 1) := by
  have hret : (startupInitial ι).ReturnsComplete := fun _ h => nomatch h
  constructor
  · exact along_iff_of_prefixes (J := StartupInv auto) (I := StartupState.ReturnsComplete)
      (fun _ _ _ hs h => hs.step h) (fun _ _ _ hs hret h => returnsComplete_step_iff hs hret h)
      startupInv_initial hret h
  · intro halong
    obtain ⟨hs, hret, hr⟩ := run_invariant
      (I := fun s => StartupInv auto s ∧ s.ReturnsComplete ∧ RefineInv env auto s)
      (fun s a s' hs ha h => ⟨hs.1.step h, (returnsComplete_step_iff hs.1 hs.2.1 h).mpr ha,
        hs.2.2.step hs.1 hs.2.1 h⟩)
      ⟨startupInv_initial, hret, refineInv_initial⟩ halong h
    constructor
    · intro t ht
      have hg := hret t ht
      obtain ⟨r, happ⟩ := Option.isSome_iff_exists.mp hg.1
      exact ⟨hs.config_of_complete hg, r, happ, hr.autoApplied r happ⟩
    · intro hd hmem
      obtain ⟨c, hc, hpos, hring⟩ := hr.rings hd hmem
      rw [hring, hs.ringBufferSize_eq hc hpos]

end

end

/-- 一つ目の thread が初期化を終えてから、二つ目が `lmk_init` を呼ぶ実行。 -/
def oneAfterOtherRun : List (StartupAction Bool) :=
  [.call false] ++ List.replicate 11 (.step false true) ++ [.call true, .step true true]

theorem init_complete_on_return_two :
    ∃ s, run (startupStep .loopback none) (startupInitial Bool) oneAfterOtherRun = some s ∧
      s.threads true = .returned ∧ s.globals.registry.config = some (expectedConfig none) := by
  refine ⟨_, rfl, rfl, ?_⟩
  exact (((init_complete_on_return .loopback none oneAfterOtherRun _ rfl).2
    (by decide +kernel)).1 true rfl).1

/-- 一つ目の thread が旗を立てた直後に、二つ目が `lmk_init` を呼ぶ実行。 -/
def earlyReturnRun : List (StartupAction Bool) :=
  [.call false] ++ List.replicate 7 (.step false true) ++ [.call true, .step true true]

/--
二つ目の thread の `lmk_init` は、自動設定が適用されず大きさがどちらも 0 のまま戻る。
続けて作った handler の ring の大きさは、既定の 1024 ではなく 2 になる。
-/
theorem init_returns_before_config :
    ∃ s s', run (startupStep .loopback none) (startupInitial Bool) earlyReturnRun = some s ∧
      s.threads true = .returned ∧ s.threads false = .openConfig ∧ s.globals.applied = none ∧
      s.globals.registry.config = some { logBufferSize := 0, ringBufferSize := 0 } ∧
      ¬ s.globals.Complete ∧
      startupStep .loopback none s (.create true consoleName .console) = some s' ∧
      s'.globals.registry.handlers.map LogHandler.ringMask = [1] ∧
      lmkNextPow2 (expectedConfig none).ringBufferSize - 1 = 1023 := by
  refine ⟨_, _, rfl, rfl, rfl, rfl, rfl, ?_, rfl, rfl, by decide +kernel⟩
  rintro ⟨happ, -⟩
  cases happ

end Logmoko
