import Logmoko.Registry.Idempotence
import Mathlib.Data.List.Induction

/-!
# 空の registry への適用の結果

空の registry に設定を適用した後の、名前で見つかる handler の設定と、
logger の参照の列を、設定の言葉で書き下す。

* `settings_applyHandlers` — handler の種類は最初の section が、level と書式は最後の section が決める
* `searchLogger_applyLoggers` — 参照の列は、見つかった handler を書かれた順に重複なく並べたもの
-/

namespace Logmoko

open Keyed

variable {env : Env} {r : Registry} {ch c : CfgHandler} {cs : List CfgHandler} {cl : CfgLogger}
  {name : CStr}

/-! ## 上書きの後の handler -/

/-- 上書きは、登録される名前の handler だけを変える。 -/
theorem search_updateHandler_eq (ha : AddrInv r) :
    lmkSearchLogHandlerByName (updateHandler env r ch) name
      = (lmkSearchLogHandlerByName r name).map fun h =>
          if ch.target = some name then ch.update env h else h := by
  unfold updateHandler
  cases ht : ch.target with
  | none => simp [onHandler]
  | some m =>
    rw [Option.bind_some]
    cases hm : r.handlerAddr? m with
    | none =>
      have hs := handlerAddr?_eq_none.mp hm
      by_cases hmn : m = name
      · subst hmn
        simp [onHandler, hs]
      · simp [onHandler, hmn]
    | some a =>
      obtain ⟨hd, hmem, hs, rfl, -⟩ := handlerAddr?_eq_some hm
      have hfind : (Keyed.modify LogHandler.addr hd.addr (ch.update env) r.handlers).find?
          (fun h => h.name = name) = (lmkSearchLogHandlerByName r name).map fun h =>
            if h.addr = hd.addr then ch.update env h else h := find?_modify fun _ => rfl
      refine hfind.trans (Option.map_congr ?_)
      intro h hh
      have hiff : h.addr = hd.addr ↔ some m = some name := by
        constructor
        · intro he
          obtain rfl := eq_of_key_eq ha.handlerAddrs (List.mem_of_find?_eq_some hh) hmem he
          have hname : h.name = name := by simpa using List.find?_some hh
          have hname' : h.name = m := by simpa using List.find?_some hs
          rw [← hname, ← hname']
        · intro he
          obtain rfl := Option.some.inj he
          rw [Option.some.inj (hh.symm.trans hs)]
      simp only [hiff]

/-- 名前 `name` で登録される section。 -/
def sectionsFor (cs : List CfgHandler) (name : CStr) : List CfgHandler :=
  cs.filter fun ch => ch.target = some name

theorem search_foldl_updateHandler (hr : Ready r) (cs : List CfgHandler) :
    lmkSearchLogHandlerByName (cs.foldl (updateHandler env) r) name
      = (lmkSearchLogHandlerByName r name).map fun h =>
          (sectionsFor cs name).foldl (fun h ch => ch.update env h) h := by
  induction cs generalizing r with
  | nil => simp [sectionsFor]
  | cons ch cs ih =>
    rw [List.foldl_cons, ih ((handlerLawful env).inv_update r ch hr),
      search_updateHandler_eq hr.addr, Option.map_map]
    refine Option.map_congr ?_
    intro h _
    by_cases ht : ch.target = some name
    · simp [sectionsFor, ht]
    · simp [sectionsFor, ht]

/-- 上書きの列は、項目ごとに上書きの列である。 -/
theorem foldl_update_eq (cs : List CfgHandler) (h : LogHandler) :
    cs.foldl (fun h ch => ch.update env h) h
      = { h with
          body := cs.foldl (fun body ch => ch.updateBody env body) h.body
          logLevel := cs.foldl (fun level ch => ch.updateLevel level) h.logLevel
          formatFn := cs.foldl (fun fn ch => ch.updateFormat fn) h.formatFn } := by
  induction cs generalizing h with
  | nil => rfl
  | cons ch cs ih => rw [List.foldl_cons, ih]; rfl

/-! ## 空の registry -/

/-- 初期化され、logger も handler も無い registry。 -/
def Registry.empty (config : Config) : Registry :=
  { initialized := true, config := some config, loggers := [], handlers := [] }

theorem ready_empty (config : Config) : Ready (Registry.empty config) where
  addr := ⟨List.nodup_nil, List.nodup_nil, by simp [Registry.empty], by simp [Registry.empty],
    fun _ => ⟨config, rfl⟩⟩
  initialized := rfl

/-- handler のうち、参照の counter と番地を除いた部分。 -/
def LogHandler.settings (h : LogHandler) : CStr × HandlerBody × Int × Option FormatFn :=
  (h.name, h.body, h.logLevel, h.formatFn)

/-- 名前 `name` で登録される section の列が作る handler の設定。 -/
def settingsFor (env : Env) (cs : List CfgHandler) (name : CStr) :
    Option (CStr × HandlerBody × Int × Option FormatFn) :=
  (sectionsFor cs name).head?.map fun first =>
    (name, (sectionsFor cs name).foldl (fun body ch => ch.updateBody env body) first.newBody,
      (sectionsFor cs name).foldl (fun level ch => ch.updateLevel level) logLevelTrace,
      (sectionsFor cs name).foldl (fun fn ch => ch.updateFormat fn) none)

/-- 空の registry への適用の後、名前で見つかる handler の設定。 -/
theorem settings_applyHandlers (config : Config) (cs : List CfgHandler) :
    (lmkSearchLogHandlerByName (applyHandlers env cs (.empty config)) name).map LogHandler.settings
      = settingsFor env cs name := by
  have hr := ready_empty config
  have hcreate : (lmkSearchLogHandlerByName (cs.foldl createHandler (.empty config)) name).map
      (fun h => (h.body, h.logLevel, h.formatFn))
        = (sectionsFor cs name).head?.map fun first => (first.newBody, logLevelTrace, none) := by
    rw [search_foldl_createHandler (fun ch => (ch.newBody, logLevelTrace, none))
      (fun _ _ _ => rfl), sectionsFor, List.head?_filter]
    simp [Registry.empty, lmkSearchLogHandlerByName]
  unfold applyHandlers settingsFor
  rw [(handlerLawful env).foldl_apply hr,
    search_foldl_updateHandler ((handlerLawful env).inv_foldl_create hr), Option.map_map]
  -- 見つかるのは、その名前で登録される最初の section が作った handler である
  cases hs : lmkSearchLogHandlerByName (cs.foldl createHandler (.empty config)) name with
  | none =>
    rw [hs] at hcreate
    simp only [Option.map_none] at hcreate ⊢
    cases hh : (sectionsFor cs name).head? with
    | none => rfl
    | some first => simp [hh] at hcreate
  | some h =>
    have hname : h.name = name := by simpa using List.find?_some hs
    rw [hs] at hcreate
    cases hh : (sectionsFor cs name).head? with
    | none => simp [hh] at hcreate
    | some first =>
      simp only [hh, Option.map_some, Option.some.injEq, Prod.mk.injEq] at hcreate
      obtain ⟨hbody, hlevel, hformat⟩ := hcreate
      simp only [Option.map_some, Function.comp_apply, foldl_update_eq, LogHandler.settings, hname,
        hbody, hlevel, hformat]

/-! ## 付けた後の logger -/

theorem handlerAddr?_inj (ha : AddrInv r) {m n : CStr} {a : Nat} (hm : r.handlerAddr? m = some a)
    (hn : r.handlerAddr? n = some a) : m = n := by
  obtain ⟨hd, hmem, -, rfl, rfl⟩ := handlerAddr?_eq_some hm
  obtain ⟨hd', hmem', -, he, rfl⟩ := handlerAddr?_eq_some hn
  rw [eq_of_key_eq ha.handlerAddrs hmem' hmem he]

theorem eraseDups_snoc {α : Type} [DecidableEq α] (l : List α) (a : α) :
    (l ++ [a]).eraseDups = if a ∈ l then l.eraseDups else l.eraseDups ++ [a] := by
  rw [List.eraseDups_append]
  by_cases h : a ∈ l
  · simp [List.removeAll, h]
  · simp [List.removeAll, h, List.eraseDups_cons]

/-- 列に書かれた名前のうち、handler が見つかるもの。重複は先のものを残す。 -/
def foundNames (r : Registry) (ns : List (CharArray 64)) : List CStr :=
  ((ns.map CharArray.str).filter fun n => (r.handlerAddr? n).isSome).eraseDups

/-- 参照の列は、見つかった handler を書かれた順に重複なく並べたものである。 -/
theorem refsOf_foldl_attachName (ha : AddrInv r) {a : Nat} (hl : a ∈ r.loggers.map Logger.addr)
    (h0 : r.refsOf a = []) (ns : List (CharArray 64)) :
    (ns.foldl (attachName a) r).refsOf a = (foundNames r ns).filterMap r.handlerAddr? := by
  induction ns using List.reverseRecOn with
  | nil => exact h0
  | append_singleton ns n ih =>
    have hlive : a ∈ (ns.foldl (attachName a) r).loggers.map Logger.addr := by
      rw [foldl_frame (g := fun u => u.loggers.map Logger.addr) fun _ _ => loggerAddrs_attachName]
      exact hl
    rw [List.foldl_append, List.foldl_cons, List.foldl_nil]
    unfold foundNames at ih ⊢
    rw [List.map_append, List.filter_append]
    cases hn : r.handlerAddr? n.str with
    | none =>
      rw [attachName_missing ((handlerAddr?_foldl_attachName ns).trans hn)]
      simpa [hn] using ih
    | some b =>
      rw [attachName_found ((handlerAddr?_foldl_attachName ns).trans hn)]
      simp only [List.map_cons, List.map_nil, List.filter_cons, hn, Option.isSome_some, if_true,
        List.filter_nil, eraseDups_snoc]
      generalize hL : (ns.map CharArray.str).filter (fun n => (r.handlerAddr? n).isSome) = L at *
      -- 番地の重複は名前の重複である
      have hmem : b ∈ L.eraseDups.filterMap r.handlerAddr? ↔ n.str ∈ L := by
        rw [List.mem_filterMap]
        constructor
        · rintro ⟨m, hm, hb⟩
          rw [handlerAddr?_inj ha hn hb]
          exact List.mem_eraseDups.mp hm
        · exact fun hm => ⟨n.str, List.mem_eraseDups.mpr hm, hn⟩
      by_cases hb : n.str ∈ L
      · rw [if_pos hb, attachRef, if_pos (by rw [ih]; exact hmem.mpr hb), ih]
      · have hnot : b ∉ (ns.foldl (attachName a) r).refsOf a := by
          rw [ih]
          exact fun h => hb (hmem.mp h)
        rw [if_neg hb, refsOf_attachRef hlive hnot, if_pos rfl, ih, List.filterMap_append]
        simp [hn]

/-- 別の名前の logger の書き換えは、検索の結果を変えない。 -/
theorem searchLogger_setLogger_ne (ha : AddrInv r) {m : CStr} {a : Nat}
    (hm : r.loggerAddr? m = some a) (hne : m ≠ name) {f : Logger → Logger}
    (hf : ∀ l, (f l).name = l.name) :
    lmkSearchLoggerByName (r.setLogger a f) name = lmkSearchLoggerByName r name := by
  have hfind : (Keyed.modify Logger.addr a f r.loggers).find? (fun l => l.name = name)
      = (lmkSearchLoggerByName r name).map fun l => if l.addr = a then f l else l :=
    find?_modify fun l => by rw [hf]
  refine hfind.trans ((Option.map_congr ?_).trans Option.map_id')
  intro l hl
  refine if_neg fun he => hne ?_
  obtain ⟨lg, hmem, -, rfl, rfl⟩ := loggerAddr?_eq_some hm
  obtain rfl := eq_of_key_eq ha.loggerAddrs (List.mem_of_find?_eq_some hl) hmem he
  simpa using List.find?_some hl

theorem addrInv_attachName (ha : AddrInv r) {a : Nat} {n : CharArray 64} :
    AddrInv (attachName a r n) := by
  refine attachName_cases ha ?_
  intro b
  unfold attachRef
  split
  · exact ha
  · refine AddrInv.setHandler (AddrInv.setLogger ha ?_) ?_ ?_ <;> exact fun _ => rfl

theorem searchLogger_foldl_attachName (ha : AddrInv r) {m : CStr} {a : Nat}
    (hm : r.loggerAddr? m = some a) (hne : m ≠ name) (ns : List (CharArray 64)) :
    lmkSearchLoggerByName (ns.foldl (attachName a) r) name = lmkSearchLoggerByName r name := by
  induction ns generalizing r with
  | nil => rfl
  | cons n ns ih =>
    rw [List.foldl_cons, ih (addrInv_attachName ha) (loggerAddr?_attachName.trans hm)]
    refine attachName_cases (P := fun u => lmkSearchLoggerByName u name = _) rfl ?_
    intro b
    unfold attachRef
    split
    · rfl
    · exact searchLogger_setLogger_ne ha hm hne fun _ => rfl

/-- 別の名前の section は、検索の結果を変えない。 -/
theorem searchLogger_apply_ne (hr : Ready r) {cl : CfgLogger} (hne : cl.name.str ≠ name) :
    lmkSearchLoggerByName (Overwrite.apply wireLogger updateLogger r cl) name
      = lmkSearchLoggerByName r name := by
  obtain ⟨a, ha⟩ := loggerAddr?_createLogger_self r cl
  have hcreate : lmkSearchLoggerByName (createLogger r cl) name = lmkSearchLoggerByName r name := by
    unfold createLogger
    split
    · rfl
    · unfold lmkSearchLoggerByName
      rw [List.find?_append]
      simp [CfgLogger.newLogger, hne]
  have hready := hr.edits (createLogger_edits hr cl)
  have hwire : lmkSearchLoggerByName (wireLogger r cl) name = lmkSearchLoggerByName r name := by
    unfold wireLogger attachNames
    rw [ha]
    exact (searchLogger_foldl_attachName hready.addr ha hne _).trans hcreate
  have haddr : (wireLogger r cl).loggerAddr? cl.name.str = some a :=
    extends_attachNames.loggerAddr _ a ha
  unfold Overwrite.apply updateLogger
  rw [haddr]
  exact (searchLogger_setLogger_ne (f := cl.update) (loggerLawful.inv_create r cl hr).addr haddr hne
    fun _ => rfl).trans hwire

theorem searchLogger_applyLoggers_ne (hr : Ready r) (cls : List CfgLogger)
    (hne : ∀ cl ∈ cls, cl.name.str ≠ name) :
    lmkSearchLoggerByName (applyLoggers cls r) name = lmkSearchLoggerByName r name := by
  induction cls generalizing r with
  | nil => rfl
  | cons cl cls ih =>
    have hready := loggerLawful.inv_update _ cl (loggerLawful.inv_create r cl hr)
    have hrest := ih hready fun c hc => hne c (List.mem_cons_of_mem cl hc)
    exact hrest.trans (searchLogger_apply_ne hr (hne cl List.mem_cons_self))

/-- 新しい logger を作る section の後の logger。 -/
theorem searchLogger_apply_self (hr : Ready r)
    (hnone : lmkSearchLoggerByName r cl.name.str = none) :
    ∃ lg, lmkSearchLoggerByName (Overwrite.apply wireLogger updateLogger r cl) cl.name.str
        = some lg ∧
      lg.handlerRefList = (foundNames r cl.handlerNames).filterMap r.handlerAddr? := by
  have hready := hr.edits (createLogger_edits hr cl)
  have hnew : createLogger r cl = { r with loggers := r.loggers ++ [cl.newLogger r] } := by
    have haddr : r.loggerAddr? cl.name.str = none := Option.map_eq_none_iff.mpr hnone
    simp [createLogger, haddr]
  have haddr : (createLogger r cl).loggerAddr? cl.name.str = some r.freshAddr := by
    rw [hnew]
    unfold Registry.loggerAddr? lmkSearchLoggerByName at *
    rw [List.find?_append, hnone]
    simp [CfgLogger.newLogger]
  have hempty : (createLogger r cl).refsOf r.freshAddr = [] := by
    have hmem : cl.newLogger r ∈ (createLogger r cl).loggers := by
      rw [hnew]
      exact List.mem_append_right _ (List.mem_singleton.mpr rfl)
    exact refsOf_of_mem hready.addr hmem
  have hrefs := refsOf_foldl_attachName hready.addr (loggerAddr?_mem haddr) hempty cl.handlerNames
  have hhandlers : (createLogger r cl).handlerAddr? = r.handlerAddr? :=
    funext extends_createLogger.handlerAddr
  have hstep : (Overwrite.apply wireLogger updateLogger r cl).loggerAddr? cl.name.str
      = some r.freshAddr :=
    extends_updateLogger.loggerAddr _ _ (extends_attachNames.loggerAddr _ _ haddr)
  obtain ⟨lg, hmem, hs, ha, -⟩ := loggerAddr?_eq_some hstep
  refine ⟨lg, hs, ?_⟩
  have hfinal : Ready (Overwrite.apply wireLogger updateLogger r cl) :=
    loggerLawful.inv_update _ cl (loggerLawful.inv_create r cl hr)
  -- level の上書きは参照に触らないので、付け終えた時点の参照の列に戻せる
  rw [← refsOf_of_mem hfinal.addr hmem, ha]
  unfold foundNames at hrefs ⊢
  rw [hhandlers] at hrefs
  rw [← hrefs]
  unfold Overwrite.apply updateLogger wireLogger attachNames
  rw [haddr]
  simp only [loggerAddr?_foldl_attachName, haddr, onLogger]
  exact refsOf_setLogger (fun _ => rfl) fun _ => rfl

/-- section の列の後、それぞれの section の logger の参照の列。 -/
theorem searchLogger_applyLoggers (hr : Ready r) {cls : List CfgLogger}
    (hnd : (cls.map fun cl => cl.name.str).Nodup) (hcl : cl ∈ cls)
    (hnone : lmkSearchLoggerByName r cl.name.str = none) :
    ∃ lg, lmkSearchLoggerByName (applyLoggers cls r) cl.name.str = some lg ∧
      lg.handlerRefList = (foundNames r cl.handlerNames).filterMap r.handlerAddr? := by
  induction cls generalizing r with
  | nil => simp at hcl
  | cons c cls ih =>
    obtain ⟨hnotin, hnd'⟩ := List.nodup_cons.mp hnd
    have hready := loggerLawful.inv_update _ c (loggerLawful.inv_create r c hr)
    have hne : ∀ d ∈ cls, d.name.str ≠ c.name.str := fun d hd he =>
      hnotin (List.mem_map.mpr ⟨d, hd, he⟩)
    rcases List.mem_cons.mp hcl with he | hcl'
    · subst he
      obtain ⟨lg, hs, hrefs⟩ := searchLogger_apply_self hr hnone
      exact ⟨lg, (searchLogger_applyLoggers_ne hready cls hne).trans hs, hrefs⟩
    · have hnone' := (searchLogger_apply_ne hr (hne cl hcl').symm).trans hnone
      have hhandlers : (Overwrite.apply wireLogger updateLogger r c).handlerAddr?
          = r.handlerAddr? :=
        funext ((extends_createLogger.trans extends_attachNames).trans
          extends_updateLogger).handlerAddr
      obtain ⟨lg, hs, hrefs⟩ := ih hready hnd' hcl' hnone'
      refine ⟨lg, hs, hrefs.trans ?_⟩
      unfold foundNames
      show ((List.filter (fun n => Option.isSome
        ((Overwrite.apply wireLogger updateLogger r c).handlerAddr? n)) _).eraseDups).filterMap
          (Overwrite.apply wireLogger updateLogger r c).handlerAddr? = _
      rw [hhandlers]

/-! ## socket の handler -/

/-- 上書きの列は、listener を順に足し、鍵は最後に書かれたものにする。 -/
theorem foldl_updateBody_socket (cs : List CfgHandler) (servers : List LogServer)
    (psk : Option (List UInt8)) :
    cs.foldl (fun body ch => ch.updateBody env body) (.socket servers psk)
      = .socket (servers ++ cs.flatMap (CfgHandler.servers env))
          (cs.foldl (fun psk ch => ch.updatePsk env psk) psk) := by
  induction cs generalizing servers psk with
  | nil => simp
  | cons ch cs ih =>
    rw [List.foldl_cons, updateBody_eq, ih, List.flatMap_cons, List.append_assoc]
    rfl

/-- 設定の適用の後、名前で見つかる handler の、種類ごとの部分。 -/
theorem search_lmkCfgApply (env : Env) (hr : Ready r) (cfg : Cfg) (name : CStr) :
    ∃ r', lmkCfgApply env r cfg = some r' ∧
      (lmkSearchLogHandlerByName r' name).map LogHandler.body
        = (lmkSearchLogHandlerByName
            (cfg.handlers.foldl createHandler (r.setConfig cfg.config)) name).map fun h =>
          (sectionsFor cfg.handlers name).foldl (fun body ch => ch.updateBody env body) h.body := by
  have hready := hr.setConfig cfg.config
  refine ⟨_, lmkCfgApply_eq hr cfg, ?_⟩
  have hloggers := applyLoggers_frame (r := applyHandlers env cfg.handlers (r.setConfig cfg.config))
    (g := fun u => (lmkSearchLogHandlerByName u name).map LogHandler.body) (fun _ _ => rfl)
    (fun _ _ => search_setHandler (fun _ => rfl) fun _ => rfl) cfg.loggers
  refine hloggers.trans ?_
  unfold applyHandlers
  rw [(handlerLawful env).foldl_apply hready,
    search_foldl_updateHandler ((handlerLawful env).inv_foldl_create hready), Option.map_map]
  refine Option.map_congr ?_
  intro h _
  show (List.foldl _ h _).body = _
  rw [foldl_update_eq]

/-- 名前で見つかる socket の handler の listener と鍵。無ければ、作った直後の値である。 -/
def Registry.socketOf (r : Registry) (name : CStr) : List LogServer × Option (List UInt8) :=
  match (lmkSearchLogHandlerByName r name).map LogHandler.body with
  | some (.socket servers psk) => (servers, psk)
  | _ => ([], none)

theorem newBody_socket (h : ch.newBody.type = .socket) : ch.newBody = .socket [] none := by
  unfold CfgHandler.newBody at h ⊢
  split at h
  · cases h
  · rfl
  · cases h
  · cases h
  · cases h

/-- socket に決まる名前の handler には、その名前の section の listener と鍵が順に書かれる。 -/
theorem socket_lmkCfgApply (env : Env) (hr : Ready r) {cfg : Cfg} {name : CStr}
    (hsocket : resolvedType r cfg.handlers name = some .socket) :
    ∃ r' hd, lmkCfgApply env r cfg = some r' ∧ lmkSearchLogHandlerByName r' name = some hd ∧
      hd.body = .socket
        ((r.socketOf name).1 ++ (sectionsFor cfg.handlers name).flatMap (CfgHandler.servers env))
        ((sectionsFor cfg.handlers name).foldl (fun psk ch => ch.updatePsk env psk)
          (r.socketOf name).2) := by
  obtain ⟨r', happly, hbody⟩ := search_lmkCfgApply env hr cfg name
  have hcreate : (lmkSearchLogHandlerByName
      (cfg.handlers.foldl createHandler (r.setConfig cfg.config)) name).map LogHandler.body
        = some (.socket (r.socketOf name).1 (r.socketOf name).2) := by
    rw [search_foldl_createHandler CfgHandler.newBody fun _ _ _ => rfl]
    show ((lmkSearchLogHandlerByName r name).map LogHandler.body).or _ = _
    unfold resolvedType Registry.handlerType? at hsocket
    unfold Registry.socketOf
    cases hs : lmkSearchLogHandlerByName r name with
    | some h =>
      rw [hs] at hsocket
      have htype : h.body.type = .socket := Option.some.inj hsocket
      simp only [Option.map_some, Option.some_or]
      cases hb : h.body with
      | socket servers psk => rfl
      | console | file | syslog =>
        rw [hb] at htype
        cases htype
    | none =>
      rw [hs] at hsocket
      obtain ⟨c, hc, htype⟩ := Option.map_eq_some_iff.mp hsocket
      rw [hc]
      exact congrArg some (newBody_socket htype)
  obtain ⟨h, hh, hb⟩ := Option.map_eq_some_iff.mp hcreate
  rw [hh, Option.map_some, hb, foldl_updateBody_socket] at hbody
  obtain ⟨hd, hhd, hb'⟩ := Option.map_eq_some_iff.mp hbody
  exact ⟨r', hd, happly, hhd, hb'⟩

end Logmoko
