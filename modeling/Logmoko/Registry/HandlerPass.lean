import Logmoko.Lib.Overwrite
import Logmoko.Registry.Section

/-!
# handler の section の適用

handler の section の適用は「無ければ作る」`createHandler` と「上書きする」`updateHandler` の
合成である（`applyCfgHandler_eq`）。二つは `Overwrite.Lawful` の約束を満たすので、
列全体の適用は、すべて作ってから順に上書きすることに等しい。
-/

namespace Logmoko

open Keyed

variable {env : Env} {r r' : Registry} {ch c : CfgHandler} {cl : CfgLogger} {name : CStr}

/-! ## 名前による検索 -/

/-- 名前で見つかる handler の番地。 -/
def Registry.handlerAddr? (r : Registry) (name : CStr) : Option Nat :=
  (lmkSearchLogHandlerByName r name).map LogHandler.addr

/-- 名前で見つかる handler の種類。 -/
def Registry.handlerType? (r : Registry) (name : CStr) : Option HandlerType :=
  (lmkSearchLogHandlerByName r name).map fun h => h.body.type

/-- 名前で見つかる logger の番地。 -/
def Registry.loggerAddr? (r : Registry) (name : CStr) : Option Nat :=
  (lmkSearchLoggerByName r name).map Logger.addr

/-- 名前を変えない書き換えは、検索の結果のうち書き換えないものを変えない。 -/
theorem search_setHandler {β : Type} {a : Nat} {f : LogHandler → LogHandler} {g : LogHandler → β}
    (hname : ∀ h, (f h).name = h.name) (hg : ∀ h, g (f h) = g h) :
    (lmkSearchLogHandlerByName (r.setHandler a f) name).map g
      = (lmkSearchLogHandlerByName r name).map g :=
  find?_modify_map (fun h => by rw [hname]) hg

theorem handlerAddr?_setHandler {a : Nat} {f : LogHandler → LogHandler}
    (hname : ∀ h, (f h).name = h.name) (haddr : ∀ h, (f h).addr = h.addr) :
    (r.setHandler a f).handlerAddr? name = r.handlerAddr? name :=
  search_setHandler hname haddr

theorem loggerAddr?_setLogger {a : Nat} {f : Logger → Logger}
    (hname : ∀ l, (f l).name = l.name) (haddr : ∀ l, (f l).addr = l.addr) :
    (r.setLogger a f).loggerAddr? name = r.loggerAddr? name :=
  find?_modify_map (fun l => by rw [hname]) haddr

theorem handlerAddr?_eq_some {a : Nat} (h : r.handlerAddr? name = some a) :
    ∃ hd ∈ r.handlers, lmkSearchLogHandlerByName r name = some hd ∧ hd.addr = a ∧
      hd.name = name := by
  obtain ⟨hd, hs, ha⟩ := Option.map_eq_some_iff.mp h
  exact ⟨hd, List.mem_of_find?_eq_some hs, hs, ha, by simpa using List.find?_some hs⟩

theorem handlerAddr?_eq_none :
    r.handlerAddr? name = none ↔ lmkSearchLogHandlerByName r name = none :=
  Option.map_eq_none_iff

theorem loggerAddr?_eq_some {a : Nat} (h : r.loggerAddr? name = some a) :
    ∃ lg ∈ r.loggers, lmkSearchLoggerByName r name = some lg ∧ lg.addr = a ∧ lg.name = name := by
  obtain ⟨lg, hs, ha⟩ := Option.map_eq_some_iff.mp h
  exact ⟨lg, List.mem_of_find?_eq_some hs, hs, ha, by simpa using List.find?_some hs⟩

/-! ## handler の section -/

/-- section が作る handler。 -/
def CfgHandler.newHandler (ch : CfgHandler) (r : Registry) (name : CStr) : LogHandler :=
  { addr := r.freshAddr, name, logLevel := logLevelTrace, nrLoggerRef := 0, initialized := true
    formatFn := none
    ringMask := r.config.elim 0 fun c => lmkNextPow2 c.ringBufferSize - 1
    body := ch.newBody }

/-- 登録される名前の handler が無ければ作る。 -/
def createHandler (r : Registry) (ch : CfgHandler) : Registry :=
  match ch.target with
  | none => r
  | some name =>
    match r.handlerAddr? name with
    | some _ => r
    | none => { r with handlers := r.handlers ++ [ch.newHandler r name] }

theorem createHandler_found {a : Nat} (ht : ch.target = some name)
    (ha : r.handlerAddr? name = some a) : createHandler r ch = r := by
  simp [createHandler, ht, ha]

theorem createHandler_new (ht : ch.target = some name) (hn : r.handlerAddr? name = none) :
    createHandler r ch = { r with handlers := r.handlers ++ [ch.newHandler r name] } := by
  simp [createHandler, ht, hn]

/-- 登録される名前の handler を上書きする。 -/
def updateHandler (env : Env) (r : Registry) (ch : CfgHandler) : Registry :=
  onHandler r (ch.target.bind r.handlerAddr?) (ch.update env)

/-! ## 書き換えの合成 -/

theorem setHandler_setHandler {a : Nat} {f g : LogHandler → LogHandler}
    (hf : ∀ h, (f h).addr = h.addr) :
    (r.setHandler a f).setHandler a g = r.setHandler a (g ∘ f) := by
  unfold Registry.setHandler
  simp only [modify_modify hf]

theorem onHandler_onHandler {a : Option Nat} {f g : LogHandler → LogHandler}
    (hf : ∀ h, (f h).addr = h.addr) :
    onHandler (onHandler r a f) a g = onHandler r a (g ∘ f) := by
  cases a with
  | none => rfl
  | some a => exact setHandler_setHandler hf

theorem onHandler_id (a : Option Nat) : onHandler r a id = r := by
  cases a with
  | none => rfl
  | some a =>
    show ({ r with handlers := modify LogHandler.addr a id r.handlers } : Registry) = r
    rw [modify_id (f := id) fun _ _ _ => rfl]

/-- 書き換えを順に行うのは、合成した書き換えを一度行うのに等しい。 -/
theorem foldl_onHandler {α : Type} {f : α → LogHandler → LogHandler}
    (hf : ∀ x h, (f x h).addr = h.addr) (a : Option Nat) (ls : List α) :
    ls.foldl (fun r x => onHandler r a (f x)) r
      = onHandler r a fun h => ls.foldl (fun h x => f x h) h := by
  induction ls generalizing r with
  | nil => exact (onHandler_id a).symm
  | cons x ls ih =>
    rw [List.foldl_cons, ih, onHandler_onHandler (hf x)]
    rfl

theorem applyLevel_eq (a : Option Nat) :
    applyLevel r ch a
      = onHandler r a fun h => { h with logLevel := ch.updateLevel h.logLevel } := by
  unfold applyLevel lmkSetHandlerLogLevel CfgHandler.updateLevel
  by_cases hv : ValidLogLevel ch.level
  · have hne : ch.level ≠ -1 := by
      intro h
      rw [h] at hv
      exact absurd hv (by decide)
    simp only [if_pos hne, if_pos hv]
    rfl
  · simp only [if_neg hv, ite_self]
    exact (onHandler_id a).symm

theorem applyFormat_eq (a : Option Nat) :
    applyFormat r ch a
      = onHandler r a fun h => { h with formatFn := ch.updateFormat h.formatFn } := by
  unfold applyFormat CfgHandler.updateFormat
  by_cases he : ch.format.str.bytes = []
  · simp only [if_pos he]
    exact (onHandler_id a).symm
  · simp only [if_neg he]
    rfl

theorem applyRotation_eq (env : Env) (ht : ch.type = some .file) (a : Option Nat) :
    applyRotation r ch a = onHandler r a (.setBody (ch.updateBody env)) := by
  unfold applyRotation CfgHandler.updateBody
  rw [ht]
  split
  · rfl
  · exact (onHandler_id a).symm

theorem applySocket_eq (ht : ch.type = some .socket) (a : Option Nat) :
    applySocket env r ch a = onHandler r a (.setBody (ch.updateBody env)) := by
  have hlisten : ∀ (r : Registry) (l : CfgListener),
      lmkAttachLogListener env r a (some l.host.str) l.port
        = onHandler r a (.setBody (l.attach env)) := by
    intro r l
    unfold lmkAttachLogListener CfgListener.attach
    by_cases hp : l.port ≤ 0
    · simp only [if_pos hp]
      exact (onHandler_id a).symm
    · simp only [if_neg hp]
  have hpsk : (if ch.psk.str.bytes = [] then r else lmkSetSocketPsk env r a (some ch.psk.str))
      = onHandler r a (.setBody fun body =>
        if ch.psk.str.bytes = [] then body else body.setPsk (env.deriveKey ch.psk.str)) := by
    by_cases he : ch.psk.str.bytes = []
    · simp only [if_pos he]
      exact (onHandler_id a).symm
    · simp only [if_neg he]
      rfl
  have hfold : ∀ (ls : List CfgListener) (h : LogHandler),
      ls.foldl (fun h l => h.setBody (l.attach env)) h
        = h.setBody fun body => ls.foldl (fun body l => l.attach env body) body := by
    intro ls
    induction ls with
    | nil => exact fun _ => rfl
    | cons l ls ih =>
      intro h
      rw [List.foldl_cons, ih]
      rfl
  unfold applySocket CfgHandler.updateBody
  simp only [hlisten, hpsk, ht]
  rw [foldl_onHandler (f := fun (l : CfgListener) => .setBody (l.attach env)) (fun _ _ => rfl),
    onHandler_onHandler]
  · refine congrArg (onHandler r a) (funext ?_)
    intro h
    exact hfold ch.listeners _
  · exact fun _ => rfl

/-! ## section の適用 -/

/-- 作った後の検索は、作った handler か前からある handler を返す。 -/
theorem handlerAddr?_createHandler_self (h : ch.target = some name) :
    ∃ a, (createHandler r ch).handlerAddr? name = some a := by
  unfold createHandler
  rw [h]
  dsimp only
  split
  · next a ha => exact ⟨a, ha⟩
  · next ha =>
    have hs := handlerAddr?_eq_none.mp ha
    refine ⟨r.freshAddr, ?_⟩
    unfold Registry.handlerAddr? lmkSearchLogHandlerByName at hs ⊢
    rw [List.find?_append, hs]
    simp [CfgHandler.newHandler]

theorem getOrCreateHandler_eq (hr : Ready r) (h : ch.target = some name) :
    getOrCreateHandler r name ch.newBody
      = some (createHandler r ch, (createHandler r ch).handlerAddr? name) := by
  obtain ⟨config, hc⟩ := hr.addr.config hr.initialized
  unfold getOrCreateHandler createHandler
  rw [h]
  cases hs : lmkSearchLogHandlerByName r name with
  | some hd => simp [Registry.handlerAddr?, hs]
  | none =>
    have hnone : r.handlerAddr? name = none := handlerAddr?_eq_none.mpr hs
    have hnew : Registry.handlerAddr?
        { r with handlers := r.handlers ++ [ch.newHandler r name] } name = some r.freshAddr := by
      unfold Registry.handlerAddr? lmkSearchLogHandlerByName at hnone ⊢
      rw [List.find?_append, Option.map_eq_none_iff.mp hnone]
      simp [CfgHandler.newHandler]
    simp only [hnone, hnew, copyName_of_short (shortName_target h), Option.bind_some]
    rw [hc]
    simp [CfgHandler.newHandler, hc]

/-- handler の section の適用は、作ってから上書きすることである。 -/
theorem applyCfgHandler_eq (hr : Ready r) :
    applyCfgHandler env r ch = some (updateHandler env (createHandler r ch) ch) := by
  have hsettings : ∀ (u : Registry) (a : Option Nat),
      applyFormat (applyLevel (onHandler u a (.setBody (ch.updateBody env))) ch a) ch a
        = onHandler u a (ch.update env) := by
    intro u a
    rw [applyLevel_eq, applyFormat_eq, onHandler_onHandler, onHandler_onHandler]
    · rfl
    · exact fun _ => rfl
    · exact fun _ => rfl
  have hplain : ∀ (u : Registry) (a : Option Nat), ch.updateBody env = id →
      applyFormat (applyLevel u ch a) ch a = onHandler u a (ch.update env) := by
    intro u a hid
    rw [← hsettings u a, hid]
    exact congrArg (fun v => applyFormat (applyLevel v ch a) ch a) (onHandler_id a).symm
  unfold applyCfgHandler updateHandler
  -- 種類ごとに、登録される名前と作られる中身が factory の呼び出しに合うことを確かめる
  cases ht : ch.type with
  | none =>
    have htarget : ch.target = none := by simp [CfgHandler.target, ht]
    simp [createHandler, htarget, onHandler]
  | some type =>
    cases type with
    | console =>
      have htarget : ch.target = some consoleName := by simp [CfgHandler.target, ht]
      have hbody : ch.newBody = .console := by simp [CfgHandler.newBody, ht]
      have hget := getOrCreateHandler_eq hr htarget
      rw [hbody] at hget
      simp only [applyHandlerType, lmkGetConsoleLogHandler, hget, Option.map_some, htarget,
        Option.bind_some]
      rw [hplain _ _ (by funext body; simp [CfgHandler.updateBody, ht])]
    | syslog =>
      have htarget : ch.target = some ch.name.str := by simp [CfgHandler.target, ht]
      have hget := getOrCreateHandler_eq hr htarget
      simp only [CfgHandler.newBody, ht] at hget
      simp only [applyHandlerType, lmkGetSyslogLogHandler, hget, Option.map_some, htarget,
        Option.bind_some]
      rw [hplain _ _ (by funext body; simp [CfgHandler.updateBody, ht])]
    | socket =>
      have htarget : ch.target = some ch.name.str := by simp [CfgHandler.target, ht]
      have hget := getOrCreateHandler_eq hr htarget
      simp only [CfgHandler.newBody, ht] at hget
      simp only [applyHandlerType, lmkGetSocketLogHandler, hget, Option.map_some, htarget,
        Option.bind_some, applySocket_eq ht, hsettings]
    | file =>
      -- `filename` の無い file の section では factory が NULL を返し、設定の呼び出しは空振りする
      by_cases he : ch.filename.str.bytes = []
      · have htarget : ch.target = none := by simp [CfgHandler.target, ht, he]
        have hnull : ch.filename.orNull = none := by simp [CharArray.orNull, he]
        simp [applyHandlerType, lmkGetFileLogHandler, hnull, applyRotation, applyLevel, applyFormat,
          createHandler, htarget, lmkSetLogRotation, lmkSetHandlerLogLevel, lmkSetLogFormat,
          onHandler]
      · have htarget : ch.target = some ch.name.str := by simp [CfgHandler.target, ht, he]
        have hfile : ch.filename.orNull = some ch.filename.str := by simp [CharArray.orNull, he]
        have hget := getOrCreateHandler_eq hr htarget
        simp only [CfgHandler.newBody, ht] at hget
        simp only [applyHandlerType, lmkGetFileLogHandler, hfile, hget, Option.map_some, htarget,
          Option.bind_some, applyRotation_eq env ht, hsettings]

/-! ## handler の section の列 -/

/-- section が登録される名前の handler がある。 -/
def HasHandler (r : Registry) (ch : CfgHandler) : Prop :=
  ∀ name ∈ ch.target, ∃ a, r.handlerAddr? name = some a

theorem createHandler_edits (hr : Ready r) : Edits (fun _ => True) r (createHandler r ch) := by
  cases ht : ch.target with
  | none =>
    unfold createHandler
    rw [ht]
    exact .refl
  | some name => exact getOrCreateHandler_edits (p := (_, _)) trivial (getOrCreateHandler_eq hr ht)

theorem handlerAddr?_createHandler {a : Nat} (h : r.handlerAddr? name = some a)
    (ch : CfgHandler) :
    (createHandler r ch).handlerAddr? name = some a := by
  unfold createHandler
  split
  · exact h
  · split
    · exact h
    · obtain ⟨hd, -, hs, ha, -⟩ := handlerAddr?_eq_some h
      unfold Registry.handlerAddr? lmkSearchLogHandlerByName at *
      rw [List.find?_append, hs]
      simp [ha]

/--
作った後の検索。値 `g` は新しい handler については `new` で与える。
前からある handler が勝ち、無ければその名前で登録される section のものになる。
-/
theorem search_createHandler {β : Type} {g : LogHandler → β} (new : CfgHandler → β)
    (hg : ∀ (ch : CfgHandler) r name, g (ch.newHandler r name) = new ch) :
    (lmkSearchLogHandlerByName (createHandler r ch) name).map g
      = ((lmkSearchLogHandlerByName r name).map g).or
          (if ch.target = some name then some (new ch) else none) := by
  cases ht : ch.target with
  | none => simp [createHandler, ht]
  | some m =>
    cases hm : r.handlerAddr? m with
    | some a =>
      rw [createHandler_found ht hm]
      obtain ⟨hd, -, hs, -, -⟩ := handlerAddr?_eq_some hm
      by_cases hmn : m = name
      · subst hmn
        simp [hs]
      · simp [hmn]
    | none =>
      rw [createHandler_new ht hm]
      have hs := handlerAddr?_eq_none.mp hm
      unfold lmkSearchLogHandlerByName at *
      rw [List.find?_append]
      by_cases hmn : m = name
      · subst hmn
        have hnew : [ch.newHandler r m].find? (fun h => h.name = m) = some (ch.newHandler r m) := by
          simp [CfgHandler.newHandler]
        rw [hs, hnew]
        simp [hg]
      · have hnew : [ch.newHandler r m].find? (fun h => h.name = name) = none := by
          simp [CfgHandler.newHandler, hmn]
        rw [hnew]
        simp [hmn]

theorem search_foldl_createHandler {β : Type} {g : LogHandler → β} (new : CfgHandler → β)
    (hg : ∀ (ch : CfgHandler) r name, g (ch.newHandler r name) = new ch) (cs : List CfgHandler) :
    (lmkSearchLogHandlerByName (cs.foldl createHandler r) name).map g
      = ((lmkSearchLogHandlerByName r name).map g).or
          ((cs.find? fun ch => ch.target = some name).map new) := by
  induction cs generalizing r with
  | nil => simp
  | cons ch cs ih =>
    rw [List.foldl_cons, ih, search_createHandler new hg, List.find?_cons, Option.or_assoc]
    by_cases ht : ch.target = some name
    · simp [ht]
    · simp [ht]

theorem search_updateHandler {β : Type} {g : LogHandler → β}
    (hg : ∀ h, g (ch.update env h) = g h) :
    (lmkSearchLogHandlerByName (updateHandler env r ch) name).map g
      = (lmkSearchLogHandlerByName r name).map g := by
  unfold updateHandler onHandler
  split
  · exact search_setHandler (fun _ => rfl) hg
  · rfl

theorem handlerAddr?_updateHandler :
    (updateHandler env r ch).handlerAddr? name = r.handlerAddr? name :=
  search_updateHandler fun _ => rfl

theorem handlerType?_updateHandler :
    (updateHandler env r ch).handlerType? name = r.handlerType? name :=
  search_updateHandler fun h => type_updateBody ch h.body

theorem map_addr_setHandler {a : Nat} {f : LogHandler → LogHandler}
    (hf : ∀ h, (f h).addr = h.addr) :
    (r.setHandler a f).handlers.map LogHandler.addr = r.handlers.map LogHandler.addr :=
  map_modify hf

theorem freshAddr_updateHandler : (updateHandler env r ch).freshAddr = r.freshAddr := by
  unfold updateHandler onHandler
  split
  · next a _ =>
    have haddrs := map_addr_setHandler (r := r) (a := a) (f := ch.update env) fun _ => rfl
    unfold Registry.freshAddr
    rw [haddrs, setHandler_loggers]
  · rfl

theorem newHandler_updateHandler :
    c.newHandler (updateHandler env r ch) name = c.newHandler r name := by
  have hconfig : (updateHandler env r ch).config = r.config := by
    unfold updateHandler onHandler
    split <;> rfl
  unfold CfgHandler.newHandler
  rw [freshAddr_updateHandler, hconfig]

/-- 前からある handler の上書きは、別の handler を作る操作と入れ替えられる。 -/
theorem createHandler_updateHandler (h : HasHandler r ch) :
    createHandler (updateHandler env r ch) c = updateHandler env (createHandler r c) ch := by
  cases htc : c.target with
  | none => simp [createHandler, htc]
  | some name =>
    cases hn : r.handlerAddr? name with
    | some a => simp [createHandler, htc, handlerAddr?_updateHandler, hn]
    | none =>
      have hleft : createHandler (updateHandler env r ch) c
          = { updateHandler env r ch with
              handlers := (updateHandler env r ch).handlers ++ [c.newHandler r name] } := by
        simp [createHandler, htc, handlerAddr?_updateHandler, hn, newHandler_updateHandler]
      have hright := createHandler_new htc hn
      cases ht : ch.target with
      | none => rw [hleft, hright]; simp [updateHandler, ht, onHandler]
      | some m =>
        obtain ⟨a, ha⟩ := h m ht
        have ha' := handlerAddr?_createHandler ha c
        -- 新しい handler の番地は `a` と異なるので、上書きはそこに届かない
        obtain ⟨hd, hmem, -, rfl, -⟩ := handlerAddr?_eq_some ha
        have hne : r.freshAddr ≠ hd.addr := fun he =>
          freshAddr_notMem_handlers r (he ▸ List.mem_map_of_mem hmem)
        have hnot : hd.addr ∉ [c.newHandler r name].map LogHandler.addr := by
          simpa [CfgHandler.newHandler] using hne.symm
        rw [hleft]
        simp only [updateHandler, ht, Option.bind_some, ha, ha', onHandler]
        rw [hright]
        unfold Registry.setHandler
        simp only [modify_append]
        rw [modify_of_notMem hnot]

theorem handlerLawful (env : Env) :
    Overwrite.Lawful createHandler (updateHandler env) Ready HasHandler where
  inv_create _ _ hr := hr.edits (createHandler_edits hr)
  inv_update _ ch hr := hr.edits (onHandler_edits (N := fun _ => True) (keepsHandler_update ch) _)
  has_create_self _ _ _ _ hn := handlerAddr?_createHandler_self hn
  has_create _ _ _ _ h name hn := by
    obtain ⟨a, ha⟩ := h name hn
    exact ⟨a, handlerAddr?_createHandler ha _⟩
  has_update _ _ _ _ h name hn := by
    obtain ⟨a, ha⟩ := h name hn
    exact ⟨a, handlerAddr?_updateHandler.trans ha⟩
  create_of_has _ ch _ h := by
    cases ht : ch.target with
    | none => simp [createHandler, ht]
    | some name =>
      obtain ⟨a, ha⟩ := h name ht
      exact createHandler_found ht ha
  create_update _ _ _ _ h := createHandler_updateHandler h

/-- handler の section の列の適用。 -/
def applyHandlers (env : Env) (cs : List CfgHandler) (r : Registry) : Registry :=
  cs.foldl (Overwrite.apply createHandler (updateHandler env)) r

theorem foldlM_applyCfgHandler (hr : Ready r) (cs : List CfgHandler) :
    cs.foldlM (applyCfgHandler env) r = some (applyHandlers env cs r) := by
  induction cs generalizing r with
  | nil => rfl
  | cons ch cs ih =>
    have hcreate := (handlerLawful env).inv_create r ch hr
    rw [List.foldlM_cons, applyCfgHandler_eq hr]
    exact ih ((handlerLawful env).inv_update _ ch hcreate)

/-- どの一歩も変えない値は、列全体でも変わらない。 -/
theorem foldl_frame {α β : Type} {f : Registry → α → Registry} {g : Registry → β}
    (h : ∀ r a, g (f r a) = g r) (l : List α) : g (l.foldl f r) = g r := by
  induction l generalizing r with
  | nil => rfl
  | cons a l ih => rw [List.foldl_cons, ih, h]

/-- handler の section の列は、handler の list のほかを変えない。 -/
theorem applyHandlers_frame {β : Type} {g : Registry → β}
    (hg : ∀ (r : Registry) hs, g { r with handlers := hs } = g r) (cs : List CfgHandler) :
    g (applyHandlers env cs r) = g r := by
  refine foldl_frame ?_ cs
  intro r ch
  have hupdate : g (updateHandler env (createHandler r ch) ch) = g (createHandler r ch) := by
    unfold updateHandler onHandler
    split
    · exact hg _ _
    · rfl
  have hcreate : g (createHandler r ch) = g r := by
    unfold createHandler
    split
    · rfl
    · split
      · rfl
      · exact hg _ _
  exact hupdate.trans hcreate

theorem Ready.applyHandlers (hr : Ready r) (cs : List CfgHandler) :
    Ready (applyHandlers env cs r) := by
  unfold Logmoko.applyHandlers
  rw [(handlerLawful env).foldl_apply hr]
  exact (handlerLawful env).inv_foldl_update ((handlerLawful env).inv_foldl_create hr)

end Logmoko
