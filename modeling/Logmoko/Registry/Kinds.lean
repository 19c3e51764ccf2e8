import Logmoko.Registry.Reachable

/-!
# factory が返す handler の種類

四つの factory は名前の空間を共有し、その名前の handler が既にあれば、種類を見ずに返す。
返る handler が factory の種類のものであるのは、呼び出しの時点でその名前に別の種類の handler が
登録されていないとき、かつそのときに限る（`factories_own_kind_iff`）。

factory は公開関数としても、`lmk_cfg_apply` と `lmk_init` の中からも呼ばれる。
操作列の中のすべての呼び出しを、呼ばれた時点の registry とともに並べる（`RegistryAction.calls`）。
-/

namespace Logmoko

open Transition

/-! ## 呼び出し -/

/-- factory とその引数。 -/
inductive Factory where
  | console
  | file (name filename : Option CStr)
  | socket (name : Option CStr)
  | syslog (name ident : Option CStr) (facility : Int)

/-- factory の種類。 -/
def Factory.kind : Factory → HandlerType
  | .console => .console
  | .file _ _ => .file
  | .socket _ => .socket
  | .syslog _ _ _ => .syslog

def Factory.call (r : Registry) : Factory → Option (Registry × Option Nat)
  | .console => lmkGetConsoleLogHandler r
  | .file name filename => lmkGetFileLogHandler r name filename
  | .socket name => lmkGetSocketLogHandler r name
  | .syslog name ident facility => lmkGetSyslogLogHandler r name ident facility

/-- 検索に使う名前。引数が NULL で検索しないときは `none` である。 -/
def Factory.key : Factory → Option CStr
  | .console => some consoleName
  | .file name filename => filename.bind fun _ => name
  | .socket name => name
  | .syslog name _ _ => name

/-- section の種類に応じた factory の呼び出し。 -/
def CfgHandler.factory (ch : CfgHandler) : HandlerType → Factory
  | .console => .console
  | .file => .file (some ch.name.str) ch.filename.orNull
  | .socket => .socket (some ch.name.str)
  | .syslog =>
    .syslog (some ch.name.str) ch.ident.orNull (lmkParseSyslogFacility ch.facility.orNull)

/-- `applyHandlerType` が呼ぶのは、section の種類の factory である。 -/
theorem applyHandlerType_factory (env : Env) (r : Registry) (ch : CfgHandler) (type : HandlerType) :
    (applyHandlerType env r ch type).map Prod.snd
      = ((ch.factory type).call r).map Prod.snd := by
  cases type with
  | console | syslog => rfl
  | file | socket =>
    unfold applyHandlerType
    rw [Option.map_map]
    rfl

/-- section を順に適用する間の factory の呼び出し。 -/
def sectionCalls (env : Env) : Registry → List CfgHandler → List (Registry × Factory)
  | _, [] => []
  | r, ch :: cs =>
    (ch.type.map fun type => (r, ch.factory type)).toList ++
      match applyCfgHandler env r ch with
      | some r' => sectionCalls env r' cs
      | none => []

/-- `lmkCfgApply` の中の呼び出し。 -/
def cfgCalls (env : Env) (r : Registry) (cfg : Cfg) : List (Registry × Factory) :=
  match r.config with
  | some _ => sectionCalls env { r with config := some cfg.config } cfg.handlers
  | none => []

/-- 読めた file を適用する間の呼び出し。 -/
def parsedCalls (env : Env) (r : Registry) (parsed : Option Cfg) : List (Registry × Factory) :=
  (parsed.map (cfgCalls env r)).getD []

/-- `lmkInit` が作る、空の registry。 -/
def freshRegistry : Registry :=
  { initialized := true, config := some { logBufferSize := 0, ringBufferSize := 0 }
    loggers := [], handlers := [] }

/-- `lmkInit` の中の呼び出し。 -/
def initCalls (env : Env) (auto : Option Cfg) (r : Registry) : List (Registry × Factory) :=
  if r.initialized then [] else parsedCalls env freshRegistry auto

/-- 公開された factory。 -/
def RegistryOp.factory : RegistryOp → Option Factory
  | .getConsoleLogHandler => some .console
  | .getFileLogHandler name filename => some (.file name filename)
  | .getSocketLogHandler name => some (.socket name)
  | .getSyslogLogHandler name ident facility => some (.syslog name ident facility)
  | _ => none

/-- 操作が先頭で `lmk_init` を呼ぶ。 -/
def RegistryOp.Inits : RegistryOp → Bool
  | .cfgApply _ | .destroy | .destroyLogHandler _ | .setLogFormat _ _ | .setLogRotation _ _ _
  | .setLogFilename _ _ | .attachLogListener _ _ _ | .setSocketPsk _ _ => false
  | _ => true

/-- 操作の中の、すべての factory の呼び出し。 -/
def RegistryAction.calls (env : Env) (r : Registry) (act : RegistryAction) :
    List (Registry × Factory) :=
  (if act.op.Inits then initCalls env act.auto r else []) ++
    match act.op with
    | .cfgApply cfg => cfgCalls env r cfg
    | .initFromFile path =>
      match lmkInit env act.auto r with
      | some u => parsedCalls env u (match path with
        | .null => act.auto
        | .file parsed => parsed)
      | none => []
    | op =>
      match lmkInit env act.auto r with
      | some u => (op.factory.map fun fac => (u, fac)).toList
      | none => []

/-! ## 呼び出し一回 -/

/-- NULL でない返り値は、factory の種類の handler を指す。 -/
def ReturnsOwnKind (c : Registry × Factory) : Prop :=
  ∀ r' a, c.2.call c.1 = some (r', some a) →
    ∃ h, r'.handler? a = some h ∧ h.body.type = c.2.kind

/-- その名前で見つかる handler があれば、それは factory の種類のものである。 -/
def NameFree (c : Registry × Factory) : Prop :=
  ∀ name ∈ c.2.key, ∀ h, lmkSearchLogHandlerByName c.1 name = some h → h.body.type = c.2.kind

variable {env : Env} {r r' : Registry}

/-- 無い名前なら `body` を持つ handler を足し、ある名前なら見つけたものを返す。 -/
theorem getOrCreateHandler_returns_iff (ha : AddrInv r) (name : CStr) (body : HandlerBody) :
    (∀ r' a, getOrCreateHandler r name body = some (r', some a) →
      ∃ h, r'.handler? a = some h ∧ h.body.type = body.type) ↔
    ∀ h, lmkSearchLogHandlerByName r name = some h → h.body.type = body.type := by
  constructor
  · intro hret h hs
    have hcall : getOrCreateHandler r name body = some (r, some h.addr) := by
      rw [getOrCreateHandler, hs]
    obtain ⟨h', hfind, htype⟩ := hret r h.addr hcall
    rw [ha.handler?_of_mem (List.mem_of_find?_eq_some hs)] at hfind
    obtain rfl := Option.some.inj hfind
    exact htype
  · intro hfree r' a hcall
    have ha' : AddrInv r' :=
      (getOrCreateHandler_edits (N := fun _ => True) trivial hcall).invariant
        (fun _ _ => addrInv_edit) ha
    unfold getOrCreateHandler at hcall
    split at hcall
    · next h hs =>
      obtain ⟨rfl, rfl⟩ : r = r' ∧ h.addr = a := by simpa using hcall
      exact ⟨h, ha'.handler?_of_mem (List.mem_of_find?_eq_some hs), hfree h hs⟩
    · obtain ⟨name', -, hcall⟩ := Option.bind_eq_some_iff.mp hcall
      obtain ⟨config, -, hcall⟩ := Option.map_eq_some_iff.mp hcall
      obtain ⟨rfl, hadd⟩ := Prod.mk.inj hcall
      obtain rfl := Option.some.inj hadd
      exact ⟨_, ha'.handler?_of_mem (List.mem_append_right _ (List.mem_singleton.mpr rfl)), rfl⟩

theorem returnsOwnKind_iff (ha : AddrInv r) (fac : Factory) :
    ReturnsOwnKind (r, fac) ↔ NameFree (r, fac) := by
  -- 名前を検索しない呼び出しは、必ず NULL を返す
  cases fac with
  | console =>
    refine (getOrCreateHandler_returns_iff ha consoleName .console).trans ?_
    simp [NameFree, Factory.key, Factory.kind, HandlerBody.type]
  | file name filename =>
    rcases name with _ | name <;> rcases filename with _ | filename
    · simp [ReturnsOwnKind, NameFree, Factory.call, lmkGetFileLogHandler, Factory.key]
    · simp [ReturnsOwnKind, NameFree, Factory.call, lmkGetFileLogHandler, Factory.key]
    · simp [ReturnsOwnKind, NameFree, Factory.call, lmkGetFileLogHandler, Factory.key]
    · refine (getOrCreateHandler_returns_iff ha name _).trans ?_
      simp [NameFree, Factory.key, Factory.kind, HandlerBody.type]
  | socket name =>
    cases name with
    | none => simp [ReturnsOwnKind, NameFree, Factory.call, lmkGetSocketLogHandler, Factory.key]
    | some name =>
      refine (getOrCreateHandler_returns_iff ha name _).trans ?_
      simp [NameFree, Factory.key, Factory.kind, HandlerBody.type]
  | syslog name ident facility =>
    cases name with
    | none => simp [ReturnsOwnKind, NameFree, Factory.call, lmkGetSyslogLogHandler, Factory.key]
    | some name =>
      refine (getOrCreateHandler_returns_iff ha name _).trans ?_
      simp [NameFree, Factory.key, Factory.kind, HandlerBody.type]

/-! ## 操作の中の呼び出し -/

theorem addrInv_edits (ha : AddrInv r) (h : Edits (fun _ => True) r r') : AddrInv r' :=
  h.invariant (fun _ _ => addrInv_edit) ha

theorem addrInv_sectionCalls {cs : List CfgHandler} (ha : AddrInv r) :
    ∀ c ∈ sectionCalls env r cs, AddrInv c.1 := by
  induction cs generalizing r with
  | nil => simp [sectionCalls]
  | cons ch cs ih =>
    intro c hc
    rw [sectionCalls] at hc
    rcases List.mem_append.mp hc with hc | hc
    · obtain ⟨type, -, rfl⟩ := Option.map_eq_some_iff.mp (Option.mem_toList.mp hc)
      exact ha
    · split at hc
      · next u hu =>
        exact ih (addrInv_edits ha (applyCfgHandler_edits (fun _ _ => trivial) hu)) c hc
      · simp at hc

theorem addrInv_parsedCalls (ha : AddrInv r) (parsed : Option Cfg) :
    ∀ c ∈ parsedCalls env r parsed, AddrInv c.1 := by
  intro c hc
  cases parsed with
  | none => simp [parsedCalls] at hc
  | some cfg =>
    change c ∈ cfgCalls env r cfg at hc
    unfold cfgCalls at hc
    split at hc
    · next config hconfig =>
      exact addrInv_sectionCalls (addrInv_edits ha (Edit.setConfig hconfig).edits) c hc
    · simp at hc

theorem addrInv_freshRegistry : AddrInv freshRegistry :=
  addrInv_edits addrInv_initial (Edit.start rfl).edits

theorem addrInv_initCalls (auto : Option Cfg) : ∀ c ∈ initCalls env auto r, AddrInv c.1 := by
  intro c hc
  unfold initCalls at hc
  split at hc
  · simp at hc
  · exact addrInv_parsedCalls addrInv_freshRegistry auto c hc

/-- factory は、番地の重複しない registry でだけ呼ばれる。 -/
theorem addrInv_calls (ha : AddrInv r) (act : RegistryAction) :
    ∀ c ∈ act.calls env r, AddrInv c.1 := by
  obtain ⟨auto, op⟩ := act
  intro c hc
  have hinit {u : Registry} (hu : lmkInit env auto r = some u) : AddrInv u :=
    addrInv_edits ha (lmkInit_edits (fun _ _ => trivial) hu).1
  rcases List.mem_append.mp hc with hc | hc
  · split at hc
    · exact addrInv_initCalls auto c hc
    · simp at hc
  · dsimp only at hc
    split at hc
    · next cfg _ => exact addrInv_parsedCalls ha (some cfg) c hc
    · split at hc
      · next u hu => exact addrInv_parsedCalls (hinit hu) _ c hc
      · simp at hc
    · split at hc
      · next u hu =>
        obtain ⟨fac, -, rfl⟩ := Option.map_eq_some_iff.mp (Option.mem_toList.mp hc)
        exact hinit hu
      · simp at hc

/-! ## 操作列 -/

theorem addrInv_emitted {acts : List RegistryAction} (ha : AddrInv r) :
    ∀ c ∈ emitted (registryStep env) (fun r act => act.calls env r) r acts, AddrInv c.1 := by
  induction acts generalizing r with
  | nil => simp [emitted]
  | cons act acts ih =>
    intro c hc
    rw [emitted] at hc
    rcases List.mem_append.mp hc with hc | hc
    · exact addrInv_calls ha act c hc
    · split at hc
      · next u hu => exact ih (addrInv_runOp ha (registryStep_eq_some hu).2) c hc
      · simp at hc

/--
操作列の中の factory の呼び出しがどれも factory の種類の handler を返すのは、どの呼び出しの
時点でも、その名前の handler が無いか factory の種類のものであるとき、かつそのときに限る。
-/
theorem factories_own_kind_iff (env : Env) (acts : List RegistryAction) :
    (∀ c ∈ emitted (registryStep env) (fun r act => act.calls env r) Registry.initial acts,
      ReturnsOwnKind c) ↔
    ∀ c ∈ emitted (registryStep env) (fun r act => act.calls env r) Registry.initial acts,
      NameFree c := by
  refine forall₂_congr ?_
  intro c hc
  exact returnsOwnKind_iff (addrInv_emitted addrInv_initial c hc) c.2

/-- 名前 `x` の file handler を壊してから、同じ名前を socket の factory に渡す。 -/
def recycledName : List RegistryAction :=
  [⟨none, .getFileLogHandler (some ⟨[120], by decide⟩) (some ⟨[121], by decide⟩)⟩,
    ⟨none, .destroyLogHandler (some 1)⟩,
    ⟨none, .getSocketLogHandler (some ⟨[120], by decide⟩)⟩]

instance decidableNameFree (c : Registry × Factory) : Decidable (NameFree c) :=
  decidable_of_iff (∀ name ∈ c.2.key.toList,
    ((lmkSearchLogHandlerByName c.1 name).map fun h => h.body.type).getD c.2.kind = c.2.kind) <| by
    unfold NameFree
    simp only [Option.mem_toList]
    refine forall₂_congr fun name _ => ?_
    cases lmkSearchLogHandlerByName c.1 name <;> simp

example : ∀ c ∈ emitted (registryStep .loopback) (fun r act => act.calls .loopback r)
    Registry.initial recycledName, NameFree c := by
  decide

/-- 名前 `x` を file の factory に続けて socket の factory に渡す。 -/
def reusedName : List RegistryAction :=
  [⟨none, .getFileLogHandler (some ⟨[120], by decide⟩) (some ⟨[121], by decide⟩)⟩,
    ⟨none, .getSocketLogHandler (some ⟨[120], by decide⟩)⟩]

/-- 二つ目の呼び出しは、file の handler を返す。 -/
theorem reusedName_returns_file :
    ¬ ∀ c ∈ emitted (registryStep .loopback) (fun r act => act.calls .loopback r)
      Registry.initial reusedName, ReturnsOwnKind c := by
  intro h
  obtain ⟨u, c, hc, hcall, hkind, hfile⟩ : ∃ u c,
      c ∈ emitted (registryStep .loopback) (fun r act => act.calls .loopback r)
        Registry.initial reusedName ∧
      c.2.call c.1 = some (u, some 1) ∧ c.2.kind = .socket ∧
      (u.handler? 1).map (fun h => h.body.type) = some .file :=
    ⟨_, _, List.mem_cons_of_mem _ List.mem_cons_self, rfl, rfl, rfl⟩
  obtain ⟨hd, hfind, htype⟩ := h c hc u 1 hcall
  rw [hfind, Option.map_some, htype, hkind] at hfile
  simp at hfile

end Logmoko
