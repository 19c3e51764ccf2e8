import Logmoko.Registry.HandlerPass

/-!
# logger の section の適用

logger の section の適用は「作って handler に付ける」`wireLogger` と「level を上書きする」
`updateLogger` の合成である（`applyCfgLogger_eq`）。source は level を先に設定するが、
付ける操作は level を見ないので、後で設定しても結果は変わらない。

付ける操作は二度目には何もせず、handler の設定の上書きとも入れ替えられる。
-/

namespace Logmoko

open Keyed

variable {env : Env} {r r' : Registry} {ch : CfgHandler} {cl c : CfgLogger} {name : CStr}
  {a b : Nat}

/-! ## 参照 -/

/-- 番地 `a` の logger の参照の列。 -/
def Registry.refsOf (r : Registry) (a : Nat) : List Nat :=
  ((r.logger? a).map Logger.handlerRefList).getD []

/-- 番地 `a` の logger に番地 `b` の handler を付ける。既に付いていれば何もしない。 -/
def attachRef (r : Registry) (a b : Nat) : Registry :=
  if b ∈ r.refsOf a then r else (r.setLogger a (.addRef b)).setHandler b .addRef

/-- 名前で見つかる handler を付ける。 -/
def attachName (a : Nat) (r : Registry) (name : CharArray 64) : Registry :=
  match r.handlerAddr? name.str with
  | some b => attachRef r a b
  | none => r

theorem attachName_found {n : CharArray 64} (hb : r.handlerAddr? n.str = some b) :
    attachName a r n = attachRef r a b := by
  simp [attachName, hb]

theorem attachName_missing {n : CharArray 64} (hn : r.handlerAddr? n.str = none) :
    attachName a r n = r := by
  simp [attachName, hn]

theorem refsOf_of_mem (ha : AddrInv r) {lg : Logger} (hm : lg ∈ r.loggers) :
    r.refsOf lg.addr = lg.handlerRefList := by
  simp [Registry.refsOf, ha.logger?_of_mem hm]

theorem refsOf_setHandler {x : Nat} {f : LogHandler → LogHandler} :
    (r.setHandler x f).refsOf a = r.refsOf a := rfl

theorem logger?_setLogger_self {f : Logger → Logger} (hf : ∀ l, (f l).addr = l.addr) :
    (r.setLogger a f).logger? a = (r.logger? a).map f :=
  find?_modify_self hf

theorem logger?_setLogger_ne {x : Nat} {f : Logger → Logger} (hf : ∀ l, (f l).addr = l.addr)
    (hne : a ≠ x) : (r.setLogger x f).logger? a = r.logger? a :=
  find?_modify_ne hf hne

/-- 参照を変えない書き換え。 -/
theorem refsOf_setLogger {x : Nat} {f : Logger → Logger} (hf : ∀ l, (f l).addr = l.addr)
    (hrefs : ∀ l, (f l).handlerRefList = l.handlerRefList) :
    (r.setLogger x f).refsOf a = r.refsOf a := by
  unfold Registry.refsOf
  by_cases h : a = x
  · subst h
    rw [logger?_setLogger_self hf, Option.map_map]
    exact congrArg (fun o => Option.getD o []) (Option.map_congr fun l _ => hrefs l)
  · rw [logger?_setLogger_ne hf h]

/-- 参照を足した後の参照の列。 -/
theorem refsOf_attachRef (hl : a ∈ r.loggers.map Logger.addr) (hn : b ∉ r.refsOf a) (x : Nat) :
    (attachRef r a b).refsOf x = if x = a then r.refsOf a ++ [b] else r.refsOf x := by
  unfold attachRef
  rw [if_neg hn, refsOf_setHandler]
  unfold Registry.refsOf
  split
  · next h =>
    subst h
    obtain ⟨lg, hlg⟩ : ∃ lg, r.logger? x = some lg := by
      obtain ⟨lg, hm, he⟩ := List.mem_map.mp hl
      exact Option.isSome_iff_exists.mp (List.find?_isSome.mpr ⟨lg, hm, by simpa using he⟩)
    rw [logger?_setLogger_self (f := .addRef b) fun _ => rfl, hlg]
    rfl
  · next h => rw [logger?_setLogger_ne (f := .addRef b) (fun _ => rfl) h]

theorem mem_refsOf_attachRef_self (hl : a ∈ r.loggers.map Logger.addr) :
    b ∈ (attachRef r a b).refsOf a := by
  by_cases hm : b ∈ r.refsOf a
  · unfold attachRef
    rwa [if_pos hm]
  · rw [refsOf_attachRef hl hm, if_pos rfl]
    exact List.mem_append_right _ (List.mem_singleton.mpr rfl)

theorem mem_refsOf_attachRef {x y : Nat} (hl : a ∈ r.loggers.map Logger.addr)
    (h : y ∈ r.refsOf x) : y ∈ (attachRef r a b).refsOf x := by
  by_cases hm : b ∈ r.refsOf a
  · unfold attachRef
    rwa [if_pos hm]
  · rw [refsOf_attachRef hl hm]
    split
    · next hx => exact List.mem_append_left _ (hx ▸ h)
    · exact h

/-! ## 付ける操作が変えないもの -/

theorem handlerAddr?_attachRef : (attachRef r a b).handlerAddr? name = r.handlerAddr? name := by
  unfold attachRef
  split
  · rfl
  · exact handlerAddr?_setHandler (fun _ => rfl) fun _ => rfl

theorem loggerAddr?_attachRef : (attachRef r a b).loggerAddr? name = r.loggerAddr? name := by
  unfold attachRef
  split
  · rfl
  · exact loggerAddr?_setLogger (fun _ => rfl) fun _ => rfl

theorem loggerAddrs_attachRef :
    (attachRef r a b).loggers.map Logger.addr = r.loggers.map Logger.addr := by
  unfold attachRef
  split
  · rfl
  · exact map_modify fun _ => rfl

theorem attachRef_setLogger {x : Nat} {f : Logger → Logger} (hf : ∀ l, (f l).addr = l.addr)
    (hrefs : ∀ l, (f l).handlerRefList = l.handlerRefList)
    (hcomm : ∀ l, (f l).addRef b = f (l.addRef b)) :
    attachRef (r.setLogger x f) a b = (attachRef r a b).setLogger x f := by
  unfold attachRef
  rw [refsOf_setLogger hf hrefs]
  split
  · rfl
  · unfold Registry.setLogger Registry.setHandler
    simp only [modify_comm (f := Logger.addRef b) (g := f) (fun _ => rfl) hf fun _ => hcomm]

theorem attachRef_setHandler {x : Nat} {f : LogHandler → LogHandler}
    (hf : ∀ h, (f h).addr = h.addr) (hcomm : ∀ h, (f h).addRef = f h.addRef) :
    attachRef (r.setHandler x f) a b = (attachRef r a b).setHandler x f := by
  unfold attachRef
  rw [refsOf_setHandler]
  split
  · rfl
  · unfold Registry.setLogger Registry.setHandler
    simp only [modify_comm (f := LogHandler.addRef) (g := f) (fun _ => rfl) hf fun _ => hcomm]

/-! ## 名前の列を付ける -/

/-- 一つ付けるごとに成り立つ性質は、列全体でも成り立つ。 -/
theorem attachName_cases {P : Registry → Prop} {n : CharArray 64} (h : P r)
    (hattach : ∀ b, P (attachRef r a b)) : P (attachName a r n) := by
  unfold attachName
  split
  · exact hattach _
  · exact h

theorem handlerAddr?_attachName {n : CharArray 64} :
    (attachName a r n).handlerAddr? name = r.handlerAddr? name :=
  attachName_cases (P := fun u => u.handlerAddr? name = r.handlerAddr? name) rfl
    fun _ => handlerAddr?_attachRef

theorem loggerAddr?_attachName {n : CharArray 64} :
    (attachName a r n).loggerAddr? name = r.loggerAddr? name :=
  attachName_cases (P := fun u => u.loggerAddr? name = r.loggerAddr? name) rfl
    fun _ => loggerAddr?_attachRef

theorem loggerAddrs_attachName {n : CharArray 64} :
    (attachName a r n).loggers.map Logger.addr = r.loggers.map Logger.addr :=
  attachName_cases (P := fun u => u.loggers.map Logger.addr = r.loggers.map Logger.addr) rfl
    fun _ => loggerAddrs_attachRef

theorem mem_refsOf_attachName {x y : Nat} {n : CharArray 64}
    (hl : a ∈ r.loggers.map Logger.addr) (h : y ∈ r.refsOf x) :
    y ∈ (attachName a r n).refsOf x :=
  attachName_cases (P := fun u => y ∈ u.refsOf x) h fun _ => mem_refsOf_attachRef hl h

theorem attachName_setLogger {x : Nat} {f : Logger → Logger} {n : CharArray 64}
    (hf : ∀ l, (f l).addr = l.addr) (hrefs : ∀ l, (f l).handlerRefList = l.handlerRefList)
    (hcomm : ∀ b l, (f l).addRef b = f (l.addRef b)) :
    attachName a (r.setLogger x f) n = (attachName a r n).setLogger x f := by
  unfold attachName
  show (match r.handlerAddr? n.str with
    | some b => attachRef (r.setLogger x f) a b
    | none => r.setLogger x f) = _
  split
  · exact attachRef_setLogger hf hrefs (hcomm _)
  · rfl

theorem attachName_setHandler {x : Nat} {f : LogHandler → LogHandler} {n : CharArray 64}
    (hname : ∀ h, (f h).name = h.name) (hf : ∀ h, (f h).addr = h.addr)
    (hcomm : ∀ h, (f h).addRef = f h.addRef) :
    attachName a (r.setHandler x f) n = (attachName a r n).setHandler x f := by
  unfold attachName
  rw [handlerAddr?_setHandler hname hf]
  split
  · exact attachRef_setHandler hf hcomm
  · rfl

/-- source の付ける操作は、生きている logger については `attachName` である。 -/
theorem attachByName_eq (hr : AddrInv r) (hl : a ∈ r.loggers.map Logger.addr) (n : CharArray 64) :
    attachByName (some a) r n = attachName a r n := by
  obtain ⟨lg, hm, rfl⟩ := List.mem_map.mp hl
  unfold attachByName attachName Registry.handlerAddr?
  cases hs : lmkSearchLogHandlerByName r n.str with
  | none => rfl
  | some hd =>
    have hd_mem : hd ∈ r.handlers := List.mem_of_find?_eq_some hs
    simp only [Option.map_some, lmkAttachLogHandler, Option.bind_some, hr.logger?_of_mem hm,
      hr.handler?_of_mem hd_mem, hr.handlersReady hd hd_mem, attachRef, refsOf_of_mem hr hm]
    split
    · next h => simp at h
    · split <;> rfl

/-! ## logger の section -/

/-- section が level を設定するなら、その level に上書きする。 -/
def CfgLogger.update (cl : CfgLogger) (l : Logger) : Logger :=
  { l with logLevel := if ValidLogLevel cl.level then cl.level else l.logLevel }

/-- section が作る logger。 -/
def CfgLogger.newLogger (cl : CfgLogger) (r : Registry) : Logger :=
  { addr := r.freshAddr, name := cl.name.str, logLevel := logLevelInfo, handlerRefList := []
    initialized := true }

/-- section の名前の logger が無ければ作る。 -/
def createLogger (r : Registry) (cl : CfgLogger) : Registry :=
  match r.loggerAddr? cl.name.str with
  | some _ => r
  | none => { r with loggers := r.loggers ++ [cl.newLogger r] }

/-- section の名前の logger を、書かれた handler に順に付ける。 -/
def attachNames (r : Registry) (cl : CfgLogger) : Registry :=
  match r.loggerAddr? cl.name.str with
  | some a => cl.handlerNames.foldl (attachName a) r
  | none => r

/-- logger を作って handler に付ける。 -/
def wireLogger (r : Registry) (cl : CfgLogger) : Registry := attachNames (createLogger r cl) cl

/-- 番地 `a` の logger を書き換える。NULL なら何もしない。 -/
def onLogger (r : Registry) (logger : Option Nat) (f : Logger → Logger) : Registry :=
  match logger with
  | some a => r.setLogger a f
  | none => r

/-- section の名前の logger の level を上書きする。 -/
def updateLogger (r : Registry) (cl : CfgLogger) : Registry :=
  onLogger r (r.loggerAddr? cl.name.str) cl.update

theorem onLogger_id (a : Option Nat) : onLogger r a id = r := by
  cases a with
  | none => rfl
  | some a =>
    show ({ r with loggers := modify Logger.addr a id r.loggers } : Registry) = r
    rw [modify_id (f := id) fun _ _ _ => rfl]

theorem applyLoggerLevel_eq (a : Option Nat) :
    applyLoggerLevel r cl a = onLogger r a cl.update := by
  unfold applyLoggerLevel lmkSetLogLevel
  by_cases hv : ValidLogLevel cl.level
  · have hne : cl.level ≠ -1 := by
      intro h
      rw [h] at hv
      exact absurd hv (by decide)
    have hupdate : cl.update = .setLevel cl.level := by
      funext l
      simp [CfgLogger.update, hv, Logger.setLevel]
    rw [if_pos hne, hupdate]
    cases a with
    | none => rfl
    | some a => simp [hv, onLogger]
  · have hupdate : cl.update = id := by
      funext l
      simp [CfgLogger.update, hv]
    rw [hupdate, onLogger_id]
    cases a <;> simp [hv]

theorem loggerAddr?_createLogger_self (r : Registry) (cl : CfgLogger) :
    ∃ a, (createLogger r cl).loggerAddr? cl.name.str = some a := by
  unfold createLogger
  split
  · next a ha => exact ⟨a, ha⟩
  · next hn =>
    refine ⟨r.freshAddr, ?_⟩
    unfold Registry.loggerAddr? lmkSearchLoggerByName at hn ⊢
    rw [List.find?_append, Option.map_eq_none_iff.mp hn]
    simp [CfgLogger.newLogger]

theorem lmkGetLogger_eq :
    lmkGetLogger r (some cl.name.str)
      = some (createLogger r cl, (createLogger r cl).loggerAddr? cl.name.str) := by
  unfold lmkGetLogger createLogger
  cases hs : lmkSearchLoggerByName r cl.name.str with
  | some lg => simp [Registry.loggerAddr?, hs]
  | none =>
    have hnone : r.loggerAddr? cl.name.str = none := Option.map_eq_none_iff.mpr hs
    have hnew : Registry.loggerAddr?
        { r with loggers := r.loggers ++ [cl.newLogger r] } cl.name.str = some r.freshAddr := by
      unfold Registry.loggerAddr? lmkSearchLoggerByName at hnone ⊢
      rw [List.find?_append, Option.map_eq_none_iff.mp hnone]
      simp [CfgLogger.newLogger]
    simp only [hs, hnone, hnew, copyName_of_short (shortName_of_lt cl.name.fits), Option.map_some]
    rfl

theorem loggerAddr?_mem (h : r.loggerAddr? name = some a) : a ∈ r.loggers.map Logger.addr := by
  obtain ⟨lg, hm, -, rfl, -⟩ := loggerAddr?_eq_some h
  exact List.mem_map_of_mem hm

theorem createLogger_edits (hr : Ready r) (cl : CfgLogger) :
    Edits (fun _ => True) r (createLogger r cl) :=
  lmkGetLogger_edits (p := (_, _)) (fun _ _ => trivial) hr.initialized lmkGetLogger_eq

theorem foldl_attachName_setLogger {x : Nat} {f : Logger → Logger} (ns : List (CharArray 64))
    (hf : ∀ l, (f l).addr = l.addr) (hrefs : ∀ l, (f l).handlerRefList = l.handlerRefList)
    (hcomm : ∀ b l, (f l).addRef b = f (l.addRef b)) :
    ns.foldl (attachName a) (r.setLogger x f) = (ns.foldl (attachName a) r).setLogger x f := by
  induction ns generalizing r with
  | nil => rfl
  | cons n ns ih => rw [List.foldl_cons, attachName_setLogger hf hrefs hcomm, ih, List.foldl_cons]

theorem loggerAddr?_foldl_attachName (ns : List (CharArray 64)) :
    (ns.foldl (attachName a) r).loggerAddr? name = r.loggerAddr? name := by
  induction ns generalizing r with
  | nil => rfl
  | cons n ns ih => rw [List.foldl_cons, ih, loggerAddr?_attachName]

theorem handlerAddr?_foldl_attachName (ns : List (CharArray 64)) :
    (ns.foldl (attachName a) r).handlerAddr? name = r.handlerAddr? name := by
  induction ns generalizing r with
  | nil => rfl
  | cons n ns ih => rw [List.foldl_cons, ih, handlerAddr?_attachName]

theorem foldl_attachByName (hr : Ready r) (hl : a ∈ r.loggers.map Logger.addr)
    (ns : List (CharArray 64)) :
    ns.foldl (attachByName (some a)) r = ns.foldl (attachName a) r := by
  induction ns generalizing r with
  | nil => rfl
  | cons n ns ih =>
    have hready : Ready (attachByName (some a) r n) :=
      hr.edits (attachByName_edits (N := fun _ => True) r (some a) n)
    rw [attachByName_eq hr.addr hl] at hready
    rw [List.foldl_cons, List.foldl_cons, attachByName_eq hr.addr hl]
    exact ih hready (loggerAddrs_attachName.symm ▸ hl)

/-- logger の section の適用は、作って付けてから level を上書きすることである。 -/
theorem applyCfgLogger_eq (hr : Ready r) :
    applyCfgLogger r cl = some (updateLogger (wireLogger r cl) cl) := by
  obtain ⟨a, ha⟩ := loggerAddr?_createLogger_self r cl
  have hready : Ready ((createLogger r cl).setLogger a cl.update) := by
    have hedits := applyLoggerLevel_edits (N := fun _ => True) (createLogger r cl) cl (some a)
    rw [applyLoggerLevel_eq] at hedits
    exact (hr.edits (createLogger_edits hr cl)).edits hedits
  have hlive : a ∈ ((createLogger r cl).setLogger a cl.update).loggers.map Logger.addr := by
    have haddrs : ((createLogger r cl).setLogger a cl.update).loggers.map Logger.addr
        = (createLogger r cl).loggers.map Logger.addr := map_modify fun _ => rfl
    rw [haddrs]
    exact loggerAddr?_mem ha
  unfold applyCfgLogger updateLogger wireLogger attachNames
  simp only [lmkGetLogger_eq, ha, Option.map_some, loggerAddr?_foldl_attachName,
    applyLoggerLevel_eq, onLogger]
  rw [foldl_attachByName hready hlive, foldl_attachName_setLogger]
  · exact fun _ => rfl
  · exact fun _ => rfl
  · exact fun _ _ => rfl

/-! ## logger の section の列 -/

/-- section の名前の logger があり、書かれた handler のうち見つかるものはすべて付いている。 -/
def HasLogger (r : Registry) (cl : CfgLogger) : Prop :=
  ∃ a, r.loggerAddr? cl.name.str = some a ∧
    ∀ n ∈ cl.handlerNames, ∀ b, r.handlerAddr? n.str = some b → b ∈ r.refsOf a

/-- 検索の結果を変えず、参照を減らさない。 -/
structure Extends (r r' : Registry) : Prop where
  loggerAddr : ∀ name a, r.loggerAddr? name = some a → r'.loggerAddr? name = some a
  handlerAddr : ∀ name, r'.handlerAddr? name = r.handlerAddr? name
  refs : ∀ a b, b ∈ r.refsOf a → b ∈ r'.refsOf a

theorem Extends.refl : Extends r r := ⟨fun _ _ h => h, fun _ => rfl, fun _ _ h => h⟩

theorem Extends.trans {r'' : Registry} (h : Extends r r') (h' : Extends r' r'') :
    Extends r r'' where
  loggerAddr name a ha := h'.loggerAddr name a (h.loggerAddr name a ha)
  handlerAddr name := (h'.handlerAddr name).trans (h.handlerAddr name)
  refs a b hb := h'.refs a b (h.refs a b hb)

theorem HasLogger.extends (hx : Extends r r') (h : HasLogger r cl) : HasLogger r' cl := by
  obtain ⟨a, ha, hall⟩ := h
  refine ⟨a, hx.loggerAddr _ a ha, ?_⟩
  intro n hn b hb
  rw [hx.handlerAddr] at hb
  exact hx.refs a b (hall n hn b hb)

theorem extends_createLogger : Extends r (createLogger r cl) := by
  unfold createLogger
  split
  · exact .refl
  · refine ⟨fun name a ha => ?_, fun _ => rfl, fun a b hb => ?_⟩
    · obtain ⟨lg, -, hs, he, -⟩ := loggerAddr?_eq_some ha
      unfold Registry.loggerAddr? lmkSearchLoggerByName at *
      rw [List.find?_append, hs]
      simp [he]
    · unfold Registry.refsOf Registry.logger? at hb ⊢
      rw [List.find?_append]
      cases hs : r.loggers.find? (fun l => l.addr = a) with
      | none => simp [hs] at hb
      | some lg => simpa [hs] using hb

theorem extends_attachName {n : CharArray 64} (hl : a ∈ r.loggers.map Logger.addr) :
    Extends r (attachName a r n) where
  loggerAddr _ _ h := loggerAddr?_attachName.trans h
  handlerAddr _ := handlerAddr?_attachName
  refs _ _ h := mem_refsOf_attachName hl h

theorem extends_foldl_attachName (hl : a ∈ r.loggers.map Logger.addr) (ns : List (CharArray 64)) :
    Extends r (ns.foldl (attachName a) r) := by
  induction ns generalizing r with
  | nil => exact .refl
  | cons n ns ih =>
    exact (extends_attachName hl).trans (ih (loggerAddrs_attachName.symm ▸ hl))

theorem extends_attachNames : Extends r (attachNames r cl) := by
  unfold attachNames
  split
  · next a ha => exact extends_foldl_attachName (loggerAddr?_mem ha) _
  · exact .refl

theorem extends_updateLogger : Extends r (updateLogger r cl) := by
  unfold updateLogger onLogger
  split
  · refine ⟨fun name a h => ?_, fun _ => rfl, fun a b h => ?_⟩
    · rwa [loggerAddr?_setLogger (f := cl.update) (fun _ => rfl) fun _ => rfl]
    · rwa [refsOf_setLogger (f := cl.update) (fun _ => rfl) fun _ => rfl]
  · exact .refl

/-- 付けた後では、書かれた handler のうち見つかるものはすべて付いている。 -/
theorem mem_refsOf_foldl_attachName (hl : a ∈ r.loggers.map Logger.addr)
    {ns : List (CharArray 64)} {n : CharArray 64} (hn : n ∈ ns)
    (hb : r.handlerAddr? n.str = some b) : b ∈ (ns.foldl (attachName a) r).refsOf a := by
  induction ns generalizing r with
  | nil => simp at hn
  | cons m ns ih =>
    have hl' : a ∈ (attachName a r m).loggers.map Logger.addr := loggerAddrs_attachName.symm ▸ hl
    rw [List.foldl_cons]
    rcases List.mem_cons.mp hn with hnm | hn'
    · subst hnm
      refine (extends_foldl_attachName hl' ns).refs a b ?_
      rw [attachName_found hb]
      exact mem_refsOf_attachRef_self hl
    · exact ih hl' hn' (handlerAddr?_attachName.trans hb)

theorem wireLogger_edits (hr : Ready r) : Edits (fun _ => True) r (wireLogger r cl) := by
  have hcreate := createLogger_edits hr cl
  obtain ⟨a, ha⟩ := loggerAddr?_createLogger_self r cl
  unfold wireLogger attachNames
  rw [ha]
  refine hcreate.trans ?_
  dsimp only
  rw [← foldl_attachByName (hr.edits hcreate) (loggerAddr?_mem ha)]
  exact edits_foldl fun r n => attachByName_edits r (some a) n

theorem updateLogger_edits : Edits (fun _ => True) r (updateLogger r cl) := by
  unfold updateLogger
  rw [← applyLoggerLevel_eq]
  exact applyLoggerLevel_edits r cl _

theorem hasLogger_wireLogger : HasLogger (wireLogger r cl) cl := by
  obtain ⟨a, ha⟩ := loggerAddr?_createLogger_self r cl
  unfold wireLogger attachNames
  rw [ha]
  refine ⟨a, (loggerAddr?_foldl_attachName _).trans ha, fun n hn b hb => ?_⟩
  rw [handlerAddr?_foldl_attachName] at hb
  exact mem_refsOf_foldl_attachName (loggerAddr?_mem ha) hn hb

/-- すべて付いていれば、付ける操作は何もしない。 -/
theorem wireLogger_of_has (h : HasLogger r cl) : wireLogger r cl = r := by
  obtain ⟨a, ha, hall⟩ := h
  have hcreate : createLogger r cl = r := by simp [createLogger, ha]
  have hnoop : ∀ n ∈ cl.handlerNames, attachName a r n = r := by
    intro n hn
    unfold attachName
    split
    · next b hb => exact if_pos (hall n hn b hb)
    · rfl
  unfold wireLogger attachNames
  rw [hcreate, ha]
  dsimp only
  generalize cl.handlerNames = ns at hnoop
  induction ns with
  | nil => rfl
  | cons n ns ih =>
    rw [List.foldl_cons, hnoop n List.mem_cons_self]
    exact ih fun m hm => hnoop m (List.mem_cons_of_mem n hm)

theorem freshAddr_setLogger {x : Nat} {f : Logger → Logger} (hf : ∀ l, (f l).addr = l.addr) :
    (r.setLogger x f).freshAddr = r.freshAddr := by
  have haddrs : (r.setLogger x f).loggers.map Logger.addr = r.loggers.map Logger.addr :=
    map_modify hf
  unfold Registry.freshAddr
  rw [haddrs, setLogger_handlers]

/-- 前からある logger の上書きは、別の logger を作る操作と入れ替えられる。 -/
theorem createLogger_setLogger {f : Logger → Logger} (hname : ∀ l, (f l).name = l.name)
    (hf : ∀ l, (f l).addr = l.addr) (hl : a ∈ r.loggers.map Logger.addr) :
    createLogger (r.setLogger a f) c = (createLogger r c).setLogger a f := by
  unfold createLogger
  rw [loggerAddr?_setLogger hname hf]
  split
  · rfl
  · have hnew : c.newLogger (r.setLogger a f) = c.newLogger r := by
      unfold CfgLogger.newLogger
      rw [freshAddr_setLogger hf]
    have hne : a ∉ [c.newLogger r].map Logger.addr := by
      intro hm
      have he : a = r.freshAddr := by simpa [CfgLogger.newLogger] using hm
      exact freshAddr_notMem_loggers r (he ▸ hl)
    unfold Registry.setLogger at hnew ⊢
    rw [hnew]
    simp only [modify_append]
    rw [modify_of_notMem hne]

theorem wireLogger_updateLogger (h : HasLogger r cl) :
    wireLogger (updateLogger r cl) c = updateLogger (wireLogger r c) cl := by
  obtain ⟨a, ha, -⟩ := h
  obtain ⟨b, hb⟩ := loggerAddr?_createLogger_self r c
  have hwire : (wireLogger r c).loggerAddr? cl.name.str = some a :=
    extends_attachNames.loggerAddr _ a (extends_createLogger.loggerAddr _ a ha)
  unfold updateLogger
  rw [hwire, ha]
  unfold onLogger wireLogger attachNames
  dsimp only
  rw [createLogger_setLogger (f := cl.update) (fun _ => rfl) (fun _ => rfl) (loggerAddr?_mem ha),
    loggerAddr?_setLogger (f := cl.update) (fun _ => rfl) fun _ => rfl, hb]
  exact foldl_attachName_setLogger _ (fun _ => rfl) (fun _ => rfl) fun _ _ => rfl

theorem loggerLawful : Overwrite.Lawful wireLogger updateLogger Ready HasLogger where
  inv_create _ _ hr := hr.edits (wireLogger_edits hr)
  inv_update _ _ hr := hr.edits updateLogger_edits
  has_create_self _ _ _ := hasLogger_wireLogger
  has_create _ _ _ _ h := h.extends (extends_createLogger.trans extends_attachNames)
  has_update _ _ _ _ h := h.extends extends_updateLogger
  create_of_has _ _ _ h := wireLogger_of_has h
  create_update _ _ _ _ h := wireLogger_updateLogger h

/-- logger の section の列の適用。 -/
def applyLoggers (cls : List CfgLogger) (r : Registry) : Registry :=
  cls.foldl (Overwrite.apply wireLogger updateLogger) r

/--
logger の section の列は、logger の list のほかには参照の counter しか変えない。
値 `g` がどちらも見なければ、列の適用の前後で変わらない。
-/
theorem applyLoggers_frame {β : Type} {g : Registry → β}
    (hloggers : ∀ (r : Registry) ls, g { r with loggers := ls } = g r)
    (hrefs : ∀ (r : Registry) b, g (r.setHandler b .addRef) = g r) (cls : List CfgLogger) :
    g (applyLoggers cls r) = g r := by
  have hattach : ∀ (r : Registry) (a : Nat) (n : CharArray 64), g (attachName a r n) = g r := by
    intro r a n
    refine attachName_cases (P := fun u => g u = g r) rfl ?_
    intro b
    unfold attachRef
    split
    · rfl
    · exact (hrefs _ b).trans (hloggers r _)
  refine foldl_frame ?_ cls
  intro r cl
  have hupdate : g (updateLogger (wireLogger r cl) cl) = g (wireLogger r cl) := by
    unfold updateLogger onLogger
    split
    · exact hloggers _ _
    · rfl
  have hwire : g (wireLogger r cl) = g (createLogger r cl) := by
    unfold wireLogger attachNames
    split
    · exact foldl_frame (fun r n => hattach r _ n) _
    · rfl
  have hcreate : g (createLogger r cl) = g r := by
    unfold createLogger
    split
    · rfl
    · exact hloggers _ _
  exact hupdate.trans (hwire.trans hcreate)

theorem foldlM_applyCfgLogger (hr : Ready r) (cls : List CfgLogger) :
    cls.foldlM applyCfgLogger r = some (applyLoggers cls r) := by
  induction cls generalizing r with
  | nil => rfl
  | cons cl cls ih =>
    rw [List.foldlM_cons, applyCfgLogger_eq hr]
    exact ih (loggerLawful.inv_update _ cl (loggerLawful.inv_create r cl hr))

theorem loggerAddr?_updateLogger (name : CStr) :
    (updateLogger r cl).loggerAddr? name = r.loggerAddr? name := by
  unfold updateLogger onLogger
  split
  · exact loggerAddr?_setLogger (fun _ => rfl) fun _ => rfl
  · rfl

theorem CfgLogger.update_overwrite (l : Logger) :
    cl.update (c.update (cl.update l)) = cl.update (c.update l) := by
  unfold CfgLogger.update
  by_cases hv : ValidLogLevel cl.level
  · simp [hv]
  · simp [hv]

theorem CfgLogger.update_idem (l : Logger) : cl.update (cl.update l) = cl.update l := by
  unfold CfgLogger.update
  by_cases hv : ValidLogLevel cl.level
  · simp [hv]
  · simp [hv]

theorem Ready.applyLoggers (hr : Ready r) (cls : List CfgLogger) : Ready (applyLoggers cls r) := by
  unfold Logmoko.applyLoggers
  rw [loggerLawful.foldl_apply hr]
  exact loggerLawful.inv_foldl_update (loggerLawful.inv_foldl_create hr)

theorem updateLogger_idem (r : Registry) (cl : CfgLogger) :
    updateLogger (updateLogger r cl) cl = updateLogger r cl := by
  have haddr : (updateLogger r cl).loggerAddr? cl.name.str = r.loggerAddr? cl.name.str :=
    loggerAddr?_updateLogger _
  unfold updateLogger at haddr ⊢
  rw [haddr]
  cases r.loggerAddr? cl.name.str with
  | none => rfl
  | some a =>
    simp only [onLogger, Registry.setLogger]
    rw [modify_modify (f := cl.update) fun _ => rfl]
    exact congrArg (fun ls => ({ r with loggers := ls } : Registry))
      (modify_congr fun l _ _ => CfgLogger.update_idem l)

theorem updateLogger_overwrite (r : Registry) (cl c : CfgLogger) :
    updateLogger (updateLogger (updateLogger r cl) c) cl = updateLogger (updateLogger r c) cl := by
  have houter : ∀ u : Registry, (∀ n, u.loggerAddr? n = r.loggerAddr? n) → ∀ d : CfgLogger,
      updateLogger u d = onLogger u (r.loggerAddr? d.name.str) d.update := by
    intro u hu d
    unfold updateLogger
    rw [hu]
  rw [houter (updateLogger (updateLogger r cl) c)
      (fun n => (loggerAddr?_updateLogger n).trans (loggerAddr?_updateLogger n)),
    houter (updateLogger r cl) loggerAddr?_updateLogger,
    houter (updateLogger r c) loggerAddr?_updateLogger,
    houter r (fun _ => rfl) cl, houter r (fun _ => rfl) c]
  cases hx : r.loggerAddr? cl.name.str with
  | none => rfl
  | some a =>
    cases hy : r.loggerAddr? c.name.str with
    | none =>
      simp only [onLogger, Registry.setLogger]
      rw [modify_modify (f := cl.update) fun _ => rfl]
      exact congrArg (fun ls => ({ r with loggers := ls } : Registry))
        (modify_congr fun l _ _ => CfgLogger.update_idem l)
    | some b =>
      simp only [onLogger, Registry.setLogger]
      exact congrArg (fun ls => ({ r with loggers := ls } : Registry))
        (modify_overwrite (fun _ => rfl) (fun _ => rfl) (fun l _ _ => CfgLogger.update_idem l)
          fun l _ _ _ => CfgLogger.update_overwrite l)

/-- logger の section の列は、二度目には何もしない。 -/
theorem applyLoggers_idem (hr : Ready r) (cls : List CfgLogger) :
    applyLoggers cls (applyLoggers cls r) = applyLoggers cls r := by
  unfold applyLoggers
  rw [loggerLawful.foldl_apply_again hr, loggerLawful.foldl_apply hr]
  exact Overwrite.foldl_update_idem (J := fun _ => True) (S := fun _ => True)
    (fun _ _ _ _ => trivial) (fun s a _ _ => updateLogger_idem s a)
    (fun s a b _ _ _ => updateLogger_overwrite s a b) trivial fun _ _ => trivial

/-! ## handler の設定との入れ替え -/

theorem updateHandler_eq_of_addr {u : Registry} (ch : CfgHandler)
    (h : ∀ name, u.handlerAddr? name = r.handlerAddr? name) :
    updateHandler env u ch = onHandler u (ch.target.bind r.handlerAddr?) (ch.update env) := by
  have hfun : u.handlerAddr? = r.handlerAddr? := funext h
  unfold updateHandler
  rw [hfun]

theorem createLogger_updateHandler :
    createLogger (updateHandler env r ch) cl = updateHandler env (createLogger r cl) ch := by
  have hloggers : (updateHandler env r ch).loggers = r.loggers := by
    unfold updateHandler onHandler
    split <;> rfl
  have hsearch : (updateHandler env r ch).loggerAddr? cl.name.str = r.loggerAddr? cl.name.str := by
    unfold Registry.loggerAddr? lmkSearchLoggerByName
    rw [hloggers]
  rw [updateHandler_eq_of_addr (r := r) ch extends_createLogger.handlerAddr]
  unfold createLogger
  rw [hsearch]
  split
  · rfl
  · have hnew : cl.newLogger (updateHandler env r ch) = cl.newLogger r := by
      unfold CfgLogger.newLogger
      rw [freshAddr_updateHandler]
    rw [hnew, hloggers]
    unfold updateHandler onHandler
    split <;> rfl

theorem attachName_onHandler {x : Option Nat} {n : CharArray 64} :
    attachName a (onHandler r x (ch.update env)) n
      = onHandler (attachName a r n) x (ch.update env) := by
  cases x with
  | none => rfl
  | some x => exact attachName_setHandler (fun _ => rfl) (fun _ => rfl) fun _ => rfl

theorem foldl_attachName_onHandler {x : Option Nat} (ns : List (CharArray 64)) :
    ns.foldl (attachName a) (onHandler r x (ch.update env))
      = onHandler (ns.foldl (attachName a) r) x (ch.update env) := by
  induction ns generalizing r with
  | nil => rfl
  | cons n ns ih => rw [List.foldl_cons, attachName_onHandler, ih, List.foldl_cons]

theorem attachNames_updateHandler :
    attachNames (updateHandler env r ch) cl = updateHandler env (attachNames r cl) ch := by
  have hsearch : (updateHandler env r ch).loggerAddr? cl.name.str = r.loggerAddr? cl.name.str := by
    unfold updateHandler onHandler
    split <;> rfl
  rw [updateHandler_eq_of_addr (r := r) ch extends_attachNames.handlerAddr]
  unfold attachNames
  rw [hsearch]
  split
  · exact foldl_attachName_onHandler _
  · rfl

theorem updateLogger_updateHandler :
    updateLogger (updateHandler env r ch) cl = updateHandler env (updateLogger r cl) ch := by
  have hsearch : (updateHandler env r ch).loggerAddr? cl.name.str = r.loggerAddr? cl.name.str := by
    unfold updateHandler onHandler
    split <;> rfl
  rw [updateHandler_eq_of_addr (r := r) ch extends_updateLogger.handlerAddr]
  unfold updateLogger updateHandler
  rw [show (onHandler r (ch.target.bind r.handlerAddr?) (ch.update env)).loggerAddr? cl.name.str
    = r.loggerAddr? cl.name.str from hsearch]
  unfold onLogger onHandler
  split <;> split <;> rfl

/-- handler の設定の上書きは、logger の section の列の適用と入れ替えられる。 -/
theorem applyLoggers_updateHandler (cls : List CfgLogger) :
    applyLoggers cls (updateHandler env r ch) = updateHandler env (applyLoggers cls r) ch := by
  induction cls generalizing r with
  | nil => rfl
  | cons cl cls ih =>
    have hstep : Overwrite.apply wireLogger updateLogger (updateHandler env r ch) cl
        = updateHandler env (Overwrite.apply wireLogger updateLogger r cl) ch := by
      unfold Overwrite.apply wireLogger
      rw [createLogger_updateHandler, attachNames_updateHandler, updateLogger_updateHandler]
    unfold applyLoggers at ih ⊢
    rw [List.foldl_cons, hstep, ih, List.foldl_cons]

end Logmoko
