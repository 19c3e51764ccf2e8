import Mathlib.Data.Finset.Card
import Logmoko.Registry.Reachable

/-!
# 読み出しの関数

registry を変えない公開関数と、参照の列を名前で調べる関数を写す。先に `lmk_init` を呼ぶものは、
その後の registry で動く。呼び出し側の約束を守る操作列の後では、次が成り立つ（`queries_reachable`）。

* logger から名前で探した handler は、全体から名前で探した handler が付いていればそれである
* level の読み出しは、いつも TRACE から OFF の間の値を返す
* 個数の読み出しは、登録された名前の個数を返す
-/

namespace Logmoko

open Transition

/-! ## 関数 -/

/-- 範囲の外の level を表す値 `LMK_LOG_LEVEL_UNKNOWN`。 -/
def logLevelUnknown : Int := 6

/-- 解放された logger を渡すと未定義動作になる。 -/
def lmkGetLogLevel (r : Registry) : Option Nat → Option Int
  | none => some logLevelUnknown
  | some a => (r.logger? a).map Logger.logLevel

def lmkGetHandlerLogLevel (r : Registry) : Option Nat → Option Int
  | none => some logLevelUnknown
  | some a => (r.handler? a).map fun handler =>
    if handler.initialized then handler.logLevel else logLevelUnknown

/-- list の大きさを `int` にして返す。二つの個数の関数に共通の部分である。 -/
def listSizeAsInt (size : Nat) : Int := (size : Int).bmod (2 ^ 32)

def lmkGetNrLoggers (r : Registry) : Int := listSizeAsInt r.loggers.length

def lmkGetNrHandlers (r : Registry) : Int := listSizeAsInt r.handlers.length

/-- 参照は、それが指す handler の番地で表す。 -/
def lmkSearchLogHandlerRef (r : Registry) (logger handler : Option Nat) : Option (Option Nat) :=
  match logger, handler with
  | some a, some b => (r.logger? a).map fun lg => lg.handlerRefList.find? (· = b)
  | _, _ => some none

def lmkIsLogHandlerAttached (r : Registry) (logger handler : Option Nat) : Option Int :=
  (lmkSearchLogHandlerRef r logger handler).map fun ref => if ref.isSome then 1 else 0

/-- 参照の列を走査して、名前の等しい handler を探す。解放された handler に当たると未定義動作になる。 -/
def searchRefs (r : Registry) (name : CStr) : List Nat → Option (Option Nat)
  | [] => some none
  | a :: refs => (r.handler? a).bind fun handler =>
    if handler.name = name then some (some a) else searchRefs r name refs

/-- logger の参照を名前で調べる二つの関数に共通の部分。 -/
def searchLogger (r : Registry) (logger : Option Nat) (name : Option CStr) :
    Option (Option Nat) :=
  match logger, name with
  | some a, some name => (r.logger? a).bind fun lg => searchRefs r name lg.handlerRefList
  | _, _ => some none

def lmkSearchLogHandlerRefByName (r : Registry) (logger : Option Nat) (name : Option CStr) :
    Option (Option Nat) := searchLogger r logger name

def lmkFindHandler (r : Registry) (logger : Option Nat) (handlerName : Option CStr) :
    Option (Option Nat) := searchLogger r logger handlerName

/-! ## 参照の列の走査 -/

variable {r : Registry} {lg : Logger} {hd : LogHandler} {name : CStr}

/-- 名前で探すと、その名前の handler が見つかる。 -/
theorem NameInv.search_eq (h : NameInv r) (hm : hd ∈ r.handlers) :
    lmkSearchLogHandlerByName r hd.name = some hd :=
  Keyed.find?_key h.handlers hm

theorem search_mem (h : lmkSearchLogHandlerByName r name = some hd) :
    hd ∈ r.handlers ∧ hd.name = name := by
  refine ⟨List.mem_of_find?_eq_some h, ?_⟩
  simpa using List.find?_some h

/-- 参照がみな生きていて名前が重複しなければ、走査の結果は全体から探した結果を参照の列に限ったものである。 -/
theorem searchRefs_eq (ha : AddrInv r) (hn : NameInv r) {refs : List Nat}
    (hlive : ∀ a ∈ refs, a ∈ r.handlers.map LogHandler.addr) :
    searchRefs r name refs
      = some (((lmkSearchLogHandlerByName r name).map LogHandler.addr).filter (· ∈ refs)) := by
  induction refs with
  | nil => simp [searchRefs]
  | cons a refs ih =>
    obtain ⟨hd, hm, rfl⟩ := List.mem_map.mp (hlive a List.mem_cons_self)
    have hrest := ih fun b hb => hlive b (List.mem_cons_of_mem _ hb)
    unfold searchRefs
    rw [ha.handler?_of_mem hm, Option.bind_some]
    by_cases hname : hd.name = name
    · subst hname
      rw [if_pos rfl, hn.search_eq hm]
      simp [Option.filter]
    · rw [if_neg hname, hrest]
      -- 見つかる handler は、先頭のものではない
      cases hs : lmkSearchLogHandlerByName r name with
      | none => rfl
      | some x =>
        obtain ⟨hx, hxname⟩ := search_mem hs
        have hne : x.addr ≠ hd.addr := by
          intro heq
          have := (ha.handler?_of_mem hx).symm.trans (heq ▸ ha.handler?_of_mem hm)
          rw [Option.some.inj this] at hxname
          exact hname hxname
        simp [Option.filter, hne]

/-! ## 個数 -/

theorem listSizeAsInt_of_lt {n : Nat} (h : n < 2 ^ 31) : listSizeAsInt n = n := by
  unfold listSizeAsInt
  rw [Int.bmod_eq_of_le] <;> omega

/-! ## 操作列 -/

/--
**読み出しは、registry の中身と合う。**

約束を守り短い名前だけを登録する操作列の後で、生きている logger について、名前での検索は解放された
handler に触れず、全体からの検索の結果を、付いているものに限って返す。付いているかどうかの検査は、
その名前で見つかるかどうかと一致する。level の読み出しは範囲内の値を返し、個数の読み出しは、
`int` に収まる間は、異なる名前の個数を返す。
-/
theorem queries_reachable {env : Env} {acts : List RegistryAction}
    (hrun : run (registryStep env) Registry.initial acts = some r)
    (hfit : Along (registryStep env) (fun r _ => r.LoggersFit) Registry.initial acts)
    (hnames : Along (registryStep env) (fun _ act => act.op.Names ShortName) Registry.initial acts)
    (hlg : lg ∈ r.loggers) :
    (∀ name, lmkFindHandler r (some lg.addr) (some name)
      = some (((lmkSearchLogHandlerByName r name).map LogHandler.addr).filter
          (· ∈ lg.handlerRefList))) ∧
    (∀ hd ∈ r.handlers, lmkIsLogHandlerAttached r (some lg.addr) (some hd.addr) = some 1 ↔
      lmkFindHandler r (some lg.addr) (some hd.name) = some (some hd.addr)) ∧
    (∃ level, lmkGetLogLevel r (some lg.addr) = some level ∧ ValidLogLevel level) ∧
    (∀ hd ∈ r.handlers, ∃ level,
      lmkGetHandlerLogLevel r (some hd.addr) = some level ∧ ValidLogLevel level) ∧
    (r.loggers.length < 2 ^ 31 →
      lmkGetNrLoggers r = (r.loggers.map Logger.name).toFinset.card) ∧
    (r.handlers.length < 2 ^ 31 →
      lmkGetNrHandlers r = (r.handlers.map LogHandler.name).toFinset.card) := by
  obtain ⟨ha, href⟩ := refInv_run hrun hfit
  have hn := nameInv_run hrun hnames
  have hl := (addrInv_reachable ⟨acts, hrun⟩).2
  have hlogger := ha.logger?_of_mem hlg
  have hfind : ∀ name, lmkFindHandler r (some lg.addr) (some name)
      = some (((lmkSearchLogHandlerByName r name).map LogHandler.addr).filter
          (· ∈ lg.handlerRefList)) := by
    intro name
    show (r.logger? lg.addr).bind _ = _
    rw [hlogger, Option.bind_some]
    exact searchRefs_eq ha hn (href.live lg hlg)
  refine ⟨hfind, ?_, ⟨lg.logLevel, ?_, hl.loggers lg hlg⟩, ?_, ?_, ?_⟩
  · intro hd hm
    rw [hfind, hn.search_eq hm]
    show (((r.logger? lg.addr).map _).map _ = _) ↔ _
    rw [hlogger]
    by_cases hmem : hd.addr ∈ lg.handlerRefList
    · simp [Option.filter, hmem]
    · simp [Option.filter, hmem]
  · show (r.logger? lg.addr).map _ = _
    rw [hlogger]
    rfl
  · intro hd hm
    refine ⟨hd.logLevel, ?_, hl.handlers hd hm⟩
    show (r.handler? hd.addr).map _ = _
    rw [ha.handler?_of_mem hm, Option.map_some, if_pos (ha.handlersReady hd hm)]
  · intro hlt
    unfold lmkGetNrLoggers
    rw [listSizeAsInt_of_lt hlt, List.toFinset_card_of_nodup hn.loggers, List.length_map]
  · intro hlt
    unfold lmkGetNrHandlers
    rw [listSizeAsInt_of_lt hlt, List.toFinset_card_of_nodup hn.handlers, List.length_map]

/-- logger を作り、console の handler を付ける操作列。 -/
def attachedActs : List RegistryAction :=
  [⟨none, .getLogger (some consoleName)⟩, ⟨none, .getConsoleLogHandler⟩,
    ⟨none, .attachLogHandler (some 1) (some 2)⟩]

theorem queries_reachable_attachedActs :
    ∃ r, run (registryStep .loopback) Registry.initial attachedActs = some r ∧
      lmkFindHandler r (some 1) (some consoleName) = some (some 2) ∧ lmkGetNrLoggers r = 1 := by
  have hfit : Along (registryStep .loopback) (fun r _ => r.LoggersFit) Registry.initial
      attachedActs := by decide +kernel
  have hnames : Along (registryStep .loopback) (fun _ act => act.op.Names ShortName)
      Registry.initial attachedActs := by decide +kernel
  have hstate : (run (registryStep .loopback) Registry.initial attachedActs).map (fun r =>
      (r.loggers.map fun l => (l.addr, l.name, l.handlerRefList),
        r.handlers.map fun h => (h.addr, h.name)))
        = some ([(1, consoleName, [2])], [(2, consoleName)]) := by decide +kernel
  obtain ⟨r, hr, hp⟩ := Option.map_eq_some_iff.mp hstate
  simp only [Prod.mk.injEq] at hp
  obtain ⟨hloggers, hhandlers⟩ := hp
  obtain ⟨lg, hlg, heq⟩ := List.map_eq_singleton_iff.mp hloggers
  obtain ⟨hd, hhd, heq'⟩ := List.map_eq_singleton_iff.mp hhandlers
  simp only [Prod.mk.injEq] at heq heq'
  obtain ⟨haddr, -, hrefs⟩ := heq
  obtain ⟨hhaddr, hhname⟩ := heq'
  have hmem : hd ∈ r.handlers := by
    rw [hhd]
    exact List.mem_singleton_self hd
  have hlgmem : lg ∈ r.loggers := by
    rw [hlg]
    exact List.mem_singleton_self lg
  obtain ⟨hfind, -, -, -, hcount, -⟩ :=
    queries_reachable hr hfit hnames hlgmem
  refine ⟨r, hr, ?_, ?_⟩
  · rw [haddr, hrefs] at hfind
    rw [hfind, ← hhname, (nameInv_run hr hnames).search_eq hmem, Option.map_some, hhaddr]
    rfl
  · rw [hcount (by simp [hlg]), hlg]
    rfl

end Logmoko
