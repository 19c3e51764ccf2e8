import Logmoko.Registry.LoggerPass
import Mathlib.Algebra.Order.BigOperators.Group.List

/-!
# 設定を二度適用する

`lmk_init` は自動設定の file を適用し、`lmk_init_from_file` は同じ file をもう一度適用しうる。
二度目の適用で増えるのは socket の handler の listener だけである。
`lmk_attach_log_handler` と四つの factory は重複を避けるが、`lmk_attach_log_listener` は
同じ宛先を調べずに足す。

主結果 `lmkCfgApply_idempotent_iff` は、二度目の適用が何も変えないための条件を、
設定と適用前の registry の言葉で与える。
-/

namespace Logmoko

open Keyed Transition

variable {env : Env} {r r' : Registry} {ch c : CfgHandler} {cs : List CfgHandler} {name : CStr}

/-! ## 適用の全体 -/

def Registry.setConfig (r : Registry) (config : Config) : Registry :=
  { r with config := some config }

theorem Ready.setConfig (hr : Ready r) (config : Config) : Ready (r.setConfig config) := by
  obtain ⟨c, hc⟩ := hr.addr.config hr.initialized
  exact hr.edits (Edit.setConfig (N := fun _ => True) hc).edits

theorem lmkCfgApply_eq (hr : Ready r) (cfg : Cfg) :
    lmkCfgApply env r cfg
      = some (applyLoggers cfg.loggers
          (applyHandlers env cfg.handlers (r.setConfig cfg.config))) := by
  obtain ⟨c, hc⟩ := hr.addr.config hr.initialized
  have hready := hr.setConfig cfg.config
  unfold lmkCfgApply
  rw [hc, Option.bind_some]
  show (cfg.handlers.foldlM (applyCfgHandler env) (r.setConfig cfg.config)).bind _ = _
  rw [foldlM_applyCfgHandler hready, Option.bind_some]
  exact foldlM_applyCfgLogger (hready.applyHandlers _) _

theorem bodies_applyLoggers (cls : List CfgLogger) :
    (applyLoggers cls r).handlers.map LogHandler.body = r.handlers.map LogHandler.body :=
  applyLoggers_frame (g := fun u => u.handlers.map LogHandler.body) (fun _ _ => rfl)
    (fun _ _ => map_modify fun _ => rfl) cls

/-! ## 名前の行き先 -/

/--
名前 `name` が handler の section の列の後で指す handler の種類。
前からある handler が勝ち、無ければその名前で登録される最初の section が決める。
-/
def resolvedType (r : Registry) (cs : List CfgHandler) (name : CStr) : Option HandlerType :=
  (r.handlerType? name).or
    ((cs.find? fun ch => ch.target = some name).map fun ch => ch.newBody.type)

theorem handlerType?_foldl_createHandler (cs : List CfgHandler) :
    (cs.foldl createHandler r).handlerType? name = resolvedType r cs name :=
  search_foldl_createHandler (fun ch => ch.newBody.type) (fun _ _ _ => rfl) cs

/-! ## listener を足さない section -/

/-- 列のどの section も、socket の handler に listener を足さない。 -/
def Silent (cs : List CfgHandler) (r : Registry) : Prop :=
  Ready r ∧ ∀ ch ∈ cs, ch.Listens → r.handlerType? ch.name.str ≠ some .socket

theorem target_of_listens (h : ch.Listens) : ch.target = some ch.name.str := by
  simp [CfgHandler.target, h.1]

/-- 番地 `a` の handler は、名前で見つかったものに限る。 -/
theorem Silent.quiet (h : Silent cs r) (hch : ch ∈ cs) (hl : ch.Listens) {hd : LogHandler}
    (hm : hd ∈ r.handlers) (ha : ch.target.bind r.handlerAddr? = some hd.addr) :
    hd.body.type ≠ .socket := by
  rw [target_of_listens hl, Option.bind_some] at ha
  obtain ⟨hd', hm', hs, he, -⟩ := handlerAddr?_eq_some ha
  obtain rfl := eq_of_key_eq h.1.addr.handlerAddrs hm' hm he
  have htype := h.2 ch hch hl
  simpa [Registry.handlerType?, hs] using htype

theorem Silent.updateHandler (h : Silent cs r) : Silent cs (updateHandler env r ch) := by
  refine ⟨(handlerLawful env).inv_update r ch h.1, ?_⟩
  intro c hc hl
  rw [handlerType?_updateHandler]
  exact h.2 c hc hl

theorem updateHandler_idem (h : Silent cs r) (hch : ch ∈ cs) :
    updateHandler env (updateHandler env r ch) ch = updateHandler env r ch := by
  rw [updateHandler_eq_of_addr (r := r) ch fun _ => handlerAddr?_updateHandler]
  unfold updateHandler
  cases ha : ch.target.bind r.handlerAddr? with
  | none => rfl
  | some a =>
    simp only [onHandler, Registry.setHandler]
    rw [modify_modify (f := ch.update env) fun _ => rfl]
    refine congrArg (fun hs => ({ r with handlers := hs } : Registry)) ?_
    refine modify_congr ?_
    intro hd hm hk
    subst hk
    exact update_idem fun hl => h.quiet hch hl hm ha

theorem updateHandler_overwrite (h : Silent cs r) (hch : ch ∈ cs) :
    updateHandler env (updateHandler env (updateHandler env r ch) c) ch
      = updateHandler env (updateHandler env r c) ch := by
  by_cases hc : c.target.bind r.handlerAddr? = none
  · -- `c` の対象が無ければ、残るのは `ch` の二度の上書きである
    have hnoop : ∀ u : Registry, (∀ n, u.handlerAddr? n = r.handlerAddr? n) →
        updateHandler env u c = u := by
      intro u hu
      rw [updateHandler_eq_of_addr c hu, hc]
      rfl
    rw [hnoop _ fun _ => handlerAddr?_updateHandler, hnoop r fun _ => rfl]
    exact updateHandler_idem h hch
  · obtain ⟨b, hb⟩ := Option.ne_none_iff_exists'.mp hc
    rw [updateHandler_eq_of_addr ch
        (fun _ => handlerAddr?_updateHandler.trans handlerAddr?_updateHandler),
      updateHandler_eq_of_addr (u := updateHandler env r ch) c
        (fun _ => handlerAddr?_updateHandler),
      updateHandler_eq_of_addr (u := updateHandler env r c) ch
        (fun _ => handlerAddr?_updateHandler)]
    unfold updateHandler
    rw [hb]
    cases ha : ch.target.bind r.handlerAddr? with
    | none => rfl
    | some a =>
      simp only [onHandler, Registry.setHandler]
      refine congrArg (fun hs => ({ r with handlers := hs } : Registry)) ?_
      refine modify_overwrite (fun _ => rfl) (fun _ => rfl) (fun hd hm hk => ?_)
        fun hd hm hk _ => ?_
      · subst hk
        exact update_idem fun hl => h.quiet hch hl hm ha
      · subst hk
        exact update_overwrite fun hl => h.quiet hch hl hm ha

/-- listener が足されなければ、handler の section の列の上書きは二度目には何もしない。 -/
theorem foldl_updateHandler_idem (h : Silent cs r) :
    cs.foldl (updateHandler env) (cs.foldl (updateHandler env) r)
      = cs.foldl (updateHandler env) r :=
  Overwrite.foldl_update_idem (J := Silent cs) (S := fun ch => ch ∈ cs)
    (fun _ _ _ hs => hs.updateHandler) (fun _ _ hch hs => updateHandler_idem hs hch)
    (fun _ _ _ hch _ hs => updateHandler_overwrite hs hch) h fun _ hb => hb

/-! ## listener の個数 -/

/-- 送り先の個数。 -/
def HandlerBody.serverCount : HandlerBody → Nat
  | .socket servers _ => servers.length
  | .console | .file _ _ _ | .syslog _ _ => 0

/-- 送り先の個数の合計。 -/
def Registry.serverCount (r : Registry) : Nat :=
  ((r.handlers.map LogHandler.body).map HandlerBody.serverCount).sum

theorem serverCount_updateBody_le (body : HandlerBody) :
    body.serverCount ≤ (ch.updateBody env body).serverCount := by
  rw [updateBody_eq]
  cases body with
  | socket servers psk => simp [HandlerBody.serverCount]
  | console | file | syslog => exact Nat.le_refl _

theorem serverCount_updateBody_lt (hl : ch.Listens) {body : HandlerBody}
    (ht : body.type = .socket) : body.serverCount < (ch.updateBody env body).serverCount := by
  rw [updateBody_eq]
  cases body with
  | socket servers psk =>
    have hne : ch.servers env ≠ [] := fun h => servers_eq_nil_iff.mp h hl
    have hpos := List.length_pos_iff.mpr hne
    simp only [HandlerBody.serverCount, List.length_append]
    omega
  | console | file | syslog => simp [HandlerBody.type] at ht

theorem serverCount_setHandler {a : Nat} :
    (r.setHandler a (ch.update env)).serverCount
      = (r.handlers.map fun h =>
          (if h.addr = a then ch.update env h else h).body.serverCount).sum := by
  unfold Registry.serverCount Registry.setHandler Keyed.modify
  simp only [List.map_map]
  rfl

theorem serverCount_le_updateHandler :
    r.serverCount ≤ (updateHandler env r ch).serverCount := by
  unfold updateHandler onHandler
  split
  · rw [serverCount_setHandler]
    unfold Registry.serverCount
    rw [List.map_map]
    refine List.sum_le_sum ?_
    intro h _
    split
    · exact serverCount_updateBody_le h.body
    · exact Nat.le_refl _
  · exact Nat.le_refl _

theorem serverCount_lt_updateHandler (hl : ch.Listens)
    (ht : r.handlerType? ch.name.str = some .socket) :
    r.serverCount < (updateHandler env r ch).serverCount := by
  obtain ⟨hd, hs, htype⟩ := Option.map_eq_some_iff.mp ht
  have haddr : r.handlerAddr? ch.name.str = some hd.addr := by
    simp [Registry.handlerAddr?, hs]
  unfold updateHandler
  rw [target_of_listens hl, Option.bind_some, haddr]
  unfold onHandler
  dsimp only
  rw [serverCount_setHandler]
  unfold Registry.serverCount
  rw [List.map_map]
  refine List.sum_lt_sum _ _ (fun h _ => ?_) ⟨hd, List.mem_of_find?_eq_some hs, ?_⟩
  · split
    · exact serverCount_updateBody_le h.body
    · exact Nat.le_refl _
  · rw [if_pos rfl]
    exact serverCount_updateBody_lt hl htype

theorem serverCount_le_foldl (cs : List CfgHandler) :
    r.serverCount ≤ (cs.foldl (updateHandler env) r).serverCount := by
  induction cs generalizing r with
  | nil => exact Nat.le_refl _
  | cons c cs ih => exact Nat.le_trans serverCount_le_updateHandler ih

/-- listener を足す section が一つでもあれば、送り先は必ず増える。 -/
theorem serverCount_lt_foldl (env : Env) (hch : ch ∈ cs) (hl : ch.Listens)
    (ht : r.handlerType? ch.name.str = some .socket) :
    r.serverCount < (cs.foldl (updateHandler env) r).serverCount := by
  induction cs generalizing r with
  | nil => simp at hch
  | cons c cs ih =>
    rw [List.foldl_cons]
    rcases List.mem_cons.mp hch with hc | hch'
    · subst hc
      exact Nat.lt_of_lt_of_le (serverCount_lt_updateHandler hl ht) (serverCount_le_foldl cs)
    · exact Nat.lt_of_le_of_lt serverCount_le_updateHandler
        (ih hch' (handlerType?_updateHandler.trans ht))

theorem serverCount_applyLoggers (cls : List CfgLogger) :
    (applyLoggers cls r).serverCount = r.serverCount := by
  unfold Registry.serverCount
  rw [bodies_applyLoggers cls]

/-! ## 二度の適用 -/

theorem extends_applyLoggers (cls : List CfgLogger) : Extends r (applyLoggers cls r) := by
  induction cls generalizing r with
  | nil => exact .refl
  | cons cl cls ih =>
    exact ((extends_createLogger.trans extends_attachNames).trans extends_updateLogger).trans ih

theorem handlerType?_foldl_updateHandler (cs : List CfgHandler) :
    (cs.foldl (updateHandler env) r).handlerType? name = r.handlerType? name :=
  foldl_frame (g := fun u => u.handlerType? name) (fun _ _ => handlerType?_updateHandler) cs

/-- handler の section の列を適用した後の registry の性質。 -/
theorem applyHandlers_spec (env : Env) (hr : Ready r) (cs : List CfgHandler) :
    (∀ ch ∈ cs, HasHandler (applyHandlers env cs r) ch) ∧
    (∀ name, (applyHandlers env cs r).handlerType? name = resolvedType r cs name) ∧
    (Silent cs (applyHandlers env cs r) →
      cs.foldl (updateHandler env) (applyHandlers env cs r) = applyHandlers env cs r) := by
  have hcreate : Ready (cs.foldl createHandler r) :=
    (handlerLawful env).inv_foldl_create hr
  have htype : ∀ name, (applyHandlers env cs r).handlerType? name
      = (cs.foldl createHandler r).handlerType? name := by
    intro name
    unfold applyHandlers
    rw [(handlerLawful env).foldl_apply hr, handlerType?_foldl_updateHandler]
  refine ⟨fun ch hch => ?_, fun name => (htype name).trans (handlerType?_foldl_createHandler cs),
    fun hs => ?_⟩
  · unfold applyHandlers
    rw [(handlerLawful env).foldl_apply hr]
    exact (handlerLawful env).has_foldl_update hcreate ((handlerLawful env).has_of_mem hr hch)
  · have hsilent : Silent cs (cs.foldl createHandler r) :=
      ⟨hcreate, fun ch hch hl => htype ch.name.str ▸ hs.2 ch hch hl⟩
    unfold applyHandlers
    rw [(handlerLawful env).foldl_apply hr]
    exact foldl_updateHandler_idem hsilent

/--
一度目の適用は `x` に logger の section を適用したもの、二度目の適用は `x` をもう一度上書きしてから
logger の section を適用したものである。
-/
theorem lmkCfgApply_twice (env : Env) (hr : Ready r) (cfg : Cfg) :
    ∃ x, Ready x ∧ (∀ name, x.handlerType? name = resolvedType r cfg.handlers name) ∧
      (Silent cfg.handlers x → cfg.handlers.foldl (updateHandler env) x = x) ∧
      lmkCfgApply env r cfg = some (applyLoggers cfg.loggers x) ∧
      lmkCfgApply env (applyLoggers cfg.loggers x) cfg
        = some (applyLoggers cfg.loggers (cfg.handlers.foldl (updateHandler env) x)) := by
  have hconf := hr.setConfig cfg.config
  obtain ⟨hhas, htype, hidem⟩ := applyHandlers_spec env hconf cfg.handlers
  have hready : Ready (applyHandlers env cfg.handlers (r.setConfig cfg.config)) :=
    hconf.applyHandlers _
  refine ⟨_, hready, htype, hidem, lmkCfgApply_eq hr cfg, ?_⟩
  generalize hx : applyHandlers env cfg.handlers (r.setConfig cfg.config) = x at *
  have happlied := hready.applyLoggers cfg.loggers
  -- config は変わらないので、二度目の設定は何もしない
  have hconfig : (applyLoggers cfg.loggers x).setConfig cfg.config
      = applyLoggers cfg.loggers x := by
    have hc : (applyLoggers cfg.loggers x).config = some cfg.config := by
      rw [applyLoggers_frame (g := Registry.config) (fun _ _ => rfl) fun _ _ => rfl, ← hx,
        applyHandlers_frame (g := Registry.config) fun _ _ => rfl]
      rfl
    unfold Registry.setConfig
    rw [← hc]
  have hupdates : applyHandlers env cfg.handlers (applyLoggers cfg.loggers x)
      = applyLoggers cfg.loggers (cfg.handlers.foldl (updateHandler env) x) := by
    have hhas' : ∀ ch ∈ cfg.handlers, HasHandler (applyLoggers cfg.loggers x) ch := by
      intro ch hch name hn
      obtain ⟨a, ha⟩ := hhas ch hch name hn
      exact ⟨a, ((extends_applyLoggers _).handlerAddr name).trans ha⟩
    unfold applyHandlers
    rw [(handlerLawful env).foldl_apply_of_has happlied hhas']
    exact (Overwrite.foldl_comm (J := fun _ => True) (fun _ _ _ => trivial)
      (fun _ _ _ => applyLoggers_updateHandler _) trivial).symm
  rw [lmkCfgApply_eq happlied, hconfig, hupdates,
    applyLoggers_idem ((handlerLawful env).inv_foldl_update hready)]

/-- 二度目の適用で listener が増える設定。 -/
def Cfg.Accumulates (cfg : Cfg) (r : Registry) : Prop :=
  ∃ ch ∈ cfg.handlers, ch.Listens ∧ resolvedType r cfg.handlers ch.name.str = some .socket

/--
**二度の適用が一度の適用に等しいための条件。**

到達できるどの registry でも、初期化されていれば適用は二度とも戻る。
二度目が何も変えないのは、正の port の listener を持つ socket の section の名前が、
どれも socket の handler に行き着かないとき、そのときに限る。
-/
theorem lmkCfgApply_idempotent_iff (hreach : Reachable (registryStep env) Registry.initial r)
    (hi : r.initialized = true) (cfg : Cfg) :
    ∃ r₁ r₂, lmkCfgApply env r cfg = some r₁ ∧ lmkCfgApply env r₁ cfg = some r₂ ∧
      (r₂ = r₁ ↔ ¬ cfg.Accumulates r) := by
  have hr : Ready r := ⟨(addrInv_reachable hreach).1, hi⟩
  obtain ⟨x, hready, htype, hidem, hfirst, hsecond⟩ := lmkCfgApply_twice env hr cfg
  refine ⟨_, _, hfirst, hsecond, fun he => ?_, fun hn => ?_⟩
  · rintro ⟨ch, hch, hl, ht⟩
    have hlt := serverCount_lt_foldl env hch hl ((htype _).trans ht)
    have hcount := congrArg Registry.serverCount he
    rw [serverCount_applyLoggers, serverCount_applyLoggers] at hcount
    omega
  · have hsilent : Silent cfg.handlers x :=
      ⟨hready, fun ch hch hl ht => hn ⟨ch, hch, hl, (htype _).symm.trans ht⟩⟩
    rw [hidem hsilent]

/-- 名前 `"app"`。 -/
def appName : CharArray 64 := ⟨⟨ascii "app", by decide⟩, by decide⟩

/-- 名前 `"remote"`。 -/
def remoteName : CharArray 64 := ⟨⟨ascii "remote", by decide⟩, by decide⟩

/-- socket の section と、それに付ける logger の section からなる設定。 -/
def remoteCfg (listeners : List CfgListener) (h : listeners.length ≤ 16) : Cfg where
  logBufferSize := 0
  ringBufferSize := 0
  handlers := [{ CfgHandler.start remoteName with
    type := some .socket, level := 1, listeners, nr_listeners_le := h }]
  loggers := [{ CfgLogger.start appName with
    level := 3, handlerNames := [remoteName], nr_handlers_le := by decide }]
  nr_handlers_le := by simp
  nr_loggers_le := by simp

instance (cfg : Cfg) (r : Registry) : Decidable (cfg.Accumulates r) :=
  inferInstanceAs (Decidable (∃ ch ∈ cfg.handlers, _))

/-- 初期化した直後の registry。 -/
def started : Registry :=
  { initialized := true, config := some { logBufferSize := 2048, ringBufferSize := 1024 }
    loggers := [], handlers := [] }

theorem reachable_started : Reachable (registryStep .loopback) Registry.initial started :=
  ⟨[⟨none, .init⟩], rfl⟩

theorem lmkCfgApply_idempotent_iff_remoteCfg :
    ∃ r₁, lmkCfgApply .loopback started (remoteCfg [] (by decide)) = some r₁ ∧
      lmkCfgApply .loopback r₁ (remoteCfg [] (by decide)) = some r₁ := by
  obtain ⟨r₁, r₂, hfirst, hsecond, hiff⟩ :=
    lmkCfgApply_idempotent_iff reachable_started rfl (remoteCfg [] (by decide))
  obtain rfl := hiff.mpr (by decide +kernel)
  exact ⟨_, hfirst, hsecond⟩

/-- 宛先 `127.0.0.1:9000`。 -/
def loopbackListener : CfgListener := ⟨⟨.lit (ascii "127.0.0.1"), by decide⟩, 9000⟩

/-- listener が一つだけの設定を二度適用すると、同じ宛先が二つ登録される。 -/
theorem lmkCfgApply_duplicates_listener :
    Reachable (registryStep .loopback) Registry.initial started ∧ ∃ r₁ r₂,
      lmkCfgApply .loopback started (remoteCfg [loopbackListener] (by decide)) = some r₁ ∧
      lmkCfgApply .loopback r₁ (remoteCfg [loopbackListener] (by decide)) = some r₂ ∧ r₂ ≠ r₁ ∧
      r₁.handlers.map LogHandler.body = [.socket [⟨0x0100007f, 9000⟩] none] ∧
      r₂.handlers.map LogHandler.body
        = [.socket [⟨0x0100007f, 9000⟩, ⟨0x0100007f, 9000⟩] none] := by
  have hbodies : (lmkCfgApply .loopback started (remoteCfg [loopbackListener] (by decide))).bind
      (fun r₁ => (lmkCfgApply .loopback r₁ (remoteCfg [loopbackListener] (by decide))).map
        fun r₂ => (r₁.handlers.map LogHandler.body, r₂.handlers.map LogHandler.body))
      = some ([.socket [⟨0x0100007f, 9000⟩] none],
          [.socket [⟨0x0100007f, 9000⟩, ⟨0x0100007f, 9000⟩] none]) := by
    decide +kernel
  obtain ⟨r₁, hfirst, hrest⟩ := Option.bind_eq_some_iff.mp hbodies
  obtain ⟨r₂, hsecond, hp⟩ := Option.map_eq_some_iff.mp hrest
  obtain ⟨h₁, h₂⟩ := Prod.mk.inj hp
  refine ⟨reachable_started, r₁, r₂, hfirst, hsecond, ?_, h₁, h₂⟩
  rintro rfl
  rw [h₁] at h₂
  simp at h₂

end Logmoko
