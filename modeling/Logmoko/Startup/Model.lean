import Logmoko.Registry.System

/-!
# 複数の thread からの `lmk_init`

`lmk_init` の一文を一 step とする。旗 `g_lmk_initialized` は mutex の外で一度、中でもう一度読む。
旗を立てるのは自動設定を適用する前である。適用の途中の公開関数は `lmk_init` を再帰的に呼ぶので、
旗が先に立っていなければ、自分の持つ mutex を待ち続けることになる。

自動設定の file の解析結果 `auto` は動かない（`none` は読めなかったことを表す）。
設定の section 一つの適用は一 step とし、その前に何度でも再帰呼び出しが起こりうるものとする。
-/

namespace Logmoko

/-! ## section の列 -/

/-- 設定 file の section。 -/
inductive CfgSection where
  | handler (ch : CfgHandler)
  | logger (cl : CfgLogger)

/-- 適用される順の section の列。handler の section が先である。 -/
def Cfg.sections (cfg : Cfg) : List CfgSection :=
  cfg.handlers.map .handler ++ cfg.loggers.map .logger

def applySection (env : Env) (r : Registry) : CfgSection → Option Registry
  | .handler ch => applyCfgHandler env r ch
  | .logger cl => applyCfgLogger r cl

/-! ## 状態 -/

/-- `lmk_init` の実行位置。`returned` は戻った直後、`failed` は確保に失敗して戻った直後である。 -/
inductive InitPc where
  | outside
  | loadFlag
  | lock
  | recheck
  | initLoggerList
  | initHandlerList
  | createConfig
  | unlockFailed
  | storeFlag
  | openConfig
  | setLogBufferSize
  | setRingBufferSize
  | applySection (k : Nat)
  | nestedLoad (k : Nat)
  | nestedLock (k : Nat)
  | checkLogBufferSize
  | checkRingBufferSize
  | unlock
  | failed
  | returned
deriving DecidableEq

/--
大域変数と mutex。`applied` は `lmk_apply_auto_config` が戻ったときの registry の控えで、
program の変数ではない。
-/
structure StartupGlobals (ι : Type) where
  registry : Registry
  mutex : Option ι
  applied : Option Registry

structure StartupState (ι : Type) where
  globals : StartupGlobals ι
  threads : ι → InitPc

def startupInitial (ι : Type) : StartupState ι :=
  { globals := { registry := .initial, mutex := none, applied := none }
    threads := fun _ => .outside }

/-- `g_lmk_config` の指す構造体の書き換え。NULL なら落ちる。 -/
def StartupGlobals.setConfig {ι : Type} (g : StartupGlobals ι) (f : Config → Config) :
    Option (StartupGlobals ι) :=
  g.registry.config.map fun c => { g with registry := { g.registry with config := some (f c) } }

section

variable {ι : Type} [DecidableEq ι]

/--
thread `t` の `lmk_init` の一文。`allocated` は `lmk_create_config` の確保が成功したことを表す。
読めない設定 file は、`lmk_apply_auto_config` が何もせずに戻ることにあたる。
-/
def initStep (env : Env) (auto : Option Cfg) (t : ι) (allocated : Bool) (g : StartupGlobals ι) :
    InitPc → Option (StartupGlobals ι × InitPc)
  | .outside | .failed | .returned => none
  | .loadFlag => some (g, if g.registry.initialized then .returned else .lock)
  | .lock => if g.mutex = none then some ({ g with mutex := some t }, .recheck) else none
  | .recheck => some (g, if g.registry.initialized then .unlock else .initLoggerList)
  | .initLoggerList =>
    some ({ g with registry := { g.registry with loggers := [] } }, .initHandlerList)
  | .initHandlerList =>
    some ({ g with registry := { g.registry with handlers := [] } }, .createConfig)
  | .createConfig =>
    if allocated then
      some ({ g with registry := { g.registry with
        config := some { logBufferSize := 0, ringBufferSize := 0 } } }, .storeFlag)
    else some ({ g with registry := { g.registry with config := none } }, .unlockFailed)
  | .unlockFailed => some ({ g with mutex := none }, .failed)
  | .storeFlag =>
    some ({ g with registry := { g.registry with initialized := true } }, .openConfig)
  | .openConfig =>
    match auto with
    | some _ => some (g, .setLogBufferSize)
    | none => some ({ g with applied := some g.registry }, .checkLogBufferSize)
  | .setLogBufferSize =>
    auto.bind fun cfg =>
      (g.setConfig fun c => { c with logBufferSize := cfg.config.logBufferSize }).map fun g =>
        (g, .setRingBufferSize)
  | .setRingBufferSize =>
    auto.bind fun cfg =>
      (g.setConfig fun c => { c with ringBufferSize := cfg.config.ringBufferSize }).map fun g =>
        (g, .applySection 0)
  | .applySection k =>
    auto.bind fun cfg =>
      match cfg.sections[k]? with
      | some sec => (applySection env g.registry sec).map fun r =>
        ({ g with registry := r }, .applySection (k + 1))
      | none => some ({ g with applied := some g.registry }, .checkLogBufferSize)
  | .nestedLoad k => some (g, if g.registry.initialized then .applySection k else .nestedLock k)
  -- 再帰しない mutex なので、持ち主が取り直そうとすると待ち続ける
  | .nestedLock _ => none
  | .checkLogBufferSize =>
    (g.setConfig fun c => { c with
      logBufferSize := if c.logBufferSize = 0 then cfgDefaultLogBufferSize
        else c.logBufferSize }).map fun g => (g, .checkRingBufferSize)
  | .checkRingBufferSize =>
    (g.setConfig fun c => { c with
      ringBufferSize := if c.ringBufferSize = 0 then cfgDefaultRingBufferSize
        else c.ringBufferSize }).map fun g => (g, .unlock)
  | .unlock => some ({ g with mutex := none }, .returned)

/--
動作。`nest` は section の適用の途中の再帰呼び出し、`create` は `lmk_init` が戻った後の
factory の残り（検索と作成）、`leave` は呼び出し元に戻ることである。
-/
inductive StartupAction (ι : Type) where
  | call (t : ι)
  | step (t : ι) (allocated : Bool)
  | nest (t : ι)
  | create (t : ι) (name : CStr) (body : HandlerBody)
  | leave (t : ι)

/-- thread `t` の位置を進める。 -/
def StartupState.goto (s : StartupState ι) (t : ι) (pc : InitPc) : StartupState ι :=
  { s with threads := Function.update s.threads t pc }

def startupStep (env : Env) (auto : Option Cfg) (s : StartupState ι) :
    StartupAction ι → Option (StartupState ι)
  | .call t => if s.threads t = .outside then some (s.goto t .loadFlag) else none
  | .step t allocated =>
    (initStep env auto t allocated s.globals (s.threads t)).map fun p =>
      { s.goto t p.2 with globals := p.1 }
  | .nest t =>
    match s.threads t with
    | .applySection k => some (s.goto t (.nestedLoad k))
    | _ => none
  | .create t name body =>
    if s.threads t = .returned then
      (getOrCreateHandler s.globals.registry name body).map fun p =>
        { s.goto t .outside with globals := { s.globals with registry := p.1 } }
    else none
  | .leave t =>
    if s.threads t = .returned ∨ s.threads t = .failed then some (s.goto t .outside) else none

end

end Logmoko
