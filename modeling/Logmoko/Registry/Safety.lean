import Logmoko.Registry.Reachable

/-!
# registry の不変量と後始末

* `registry_invariant` — 名前・参照・counter・level の不変量と、handler の解放の可否
* `lmkDestroy_empties` — `lmk_destroy` の停止と後始末

どちらにも幅の条件が付く。条件を外したときに起こることも示す。

* `2 ^ 32` 個の logger を一つの handler に付けると、`nr_logger_ref` は 0 に戻る。
  参照が残っているのに handler を解放できて、その後の `lmk_destroy` は解放済みの handler に書く
* 長さが `2 ^ 32 + 3` の名前は三文字に切り詰めて登録されるので、二度目の検索で見つからず、
  同じ名前の logger が二つできる
-/

namespace Logmoko

open Transition

/-! ## 互いに異なる短い名前 -/

/-- 番号 `i` の下位 33 bit を文字 `1` と `2` で書いた名前。 -/
def bitName (i : Nat) : CStr where
  bytes := (List.range 33).map fun j => if i.testBit j then 50 else 49
  noNul := by
    intro h
    obtain ⟨j, -, hj⟩ := List.mem_map.mp h
    split at hj <;> simp at hj

theorem shortName_bitName (i : Nat) : ShortName (bitName i) := by
  refine shortName_of_lt ?_
  show ((List.range 33).map _).length < 64
  simp

theorem bitName_inj {i j : Nat} (hi : i < 2 ^ 33) (hj : j < 2 ^ 33)
    (h : bitName i = bitName j) : i = j := by
  refine Nat.eq_of_testBit_eq ?_
  intro k
  by_cases hk : k < 33
  · have hbytes : (List.range 33).map (fun b => if i.testBit b then (50 : UInt8) else 49)
        = (List.range 33).map fun b => if j.testBit b then (50 : UInt8) else 49 :=
      congrArg CStr.bytes h
    have hbit := List.map_inj_left.mp hbytes k (List.mem_range.mpr hk)
    cases hbi : i.testBit k <;> cases hbj : j.testBit k <;> simp [hbi, hbj] at hbit ⊢
  · have hpow : 2 ^ 33 ≤ 2 ^ k := Nat.pow_le_pow_right (by decide) (by omega)
    rw [Nat.testBit_lt_two_pow (by omega), Nat.testBit_lt_two_pow (by omega)]

/-! ## counter の巻き戻り -/

/-- 番号 `i` の logger。番地 1 の handler だけを参照する。 -/
def crowdLogger (i : Nat) : Logger :=
  { addr := i + 2, name := bitName i, logLevel := logLevelInfo, handlerRefList := [1]
    initialized := true }

/-- 番地 1 の console handler。 -/
def crowdHandler (nrLoggerRef : Nat) : LogHandler :=
  { addr := 1, name := consoleName, logLevel := logLevelTrace, nrLoggerRef, initialized := true
    formatFn := none, ringMask := 1023, body := .console }

/-- 一つの console handler に `n` 個の logger が付いた registry。 -/
def crowd (n : Nat) : Registry :=
  { initialized := true, config := some { logBufferSize := 2048, ringBufferSize := 1024 }
    loggers := (List.range n).map crowdLogger, handlers := [crowdHandler (n % 2 ^ 32)] }

/-- 番号 `i` の logger を作って handler に付ける。 -/
def joinActs (i : Nat) : List RegistryAction :=
  [⟨none, .getLogger (some (bitName i))⟩, ⟨none, .attachLogHandler (some (i + 2)) (some 1)⟩]

/-- `n` 個の logger を一つの handler に付ける操作列。 -/
def crowdActs (n : Nat) : List RegistryAction :=
  [⟨none, .init⟩, ⟨none, .getConsoleLogHandler⟩] ++ (List.range n).flatMap joinActs

variable {env : Env}

theorem maxAddr_snoc (l : List Nat) (a : Nat) : maxAddr (l ++ [a]) = max (maxAddr l) a := by
  induction l with
  | nil => simp [maxAddr]
  | cons b l ih =>
    simp only [List.cons_append, maxAddr, List.foldr_cons] at ih ⊢
    rw [ih, Nat.max_assoc]

theorem freshAddr_crowd (n : Nat) : (crowd n).freshAddr = n + 2 := by
  have hmax : maxAddr ([1] ++ (List.range n).map fun i => i + 2) = n + 1 := by
    induction n with
    | zero => rfl
    | succ n ih =>
      rw [List.range_succ, List.map_append, ← List.append_assoc]
      show maxAddr (_ ++ [n + 2]) = _
      rw [maxAddr_snoc, ih]
      omega
  unfold Registry.freshAddr
  show maxAddr ([1] ++ ((List.range n).map crowdLogger).map Logger.addr) + 1 = n + 2
  rw [List.map_map]
  exact congrArg (· + 1) hmax

theorem search_crowd {n : Nat} (hn : n < 2 ^ 33) :
    lmkSearchLoggerByName (crowd n) (bitName n) = none := by
  refine List.find?_eq_none.mpr fun l hl => ?_
  obtain ⟨i, hi, rfl⟩ := List.mem_map.mp hl
  have hlt := List.mem_range.mp hi
  simp only [decide_eq_true_eq]
  intro he
  have := bitName_inj (by omega) hn he
  omega

/-- 番号 `n` の logger を作った直後の registry。 -/
def crowdAdded (n : Nat) : Registry :=
  { crowd n with loggers := (crowd n).loggers ++ [{ crowdLogger n with handlerRefList := [] }] }

theorem getLogger_crowd {n : Nat} (hn : n < 2 ^ 33) :
    runOp env none (crowd n) (.getLogger (some (bitName n))) = some (crowdAdded n) := by
  have hget : lmkGetLogger (crowd n) (some (bitName n))
      = some (crowdAdded n, some (n + 2)) := by
    simp only [lmkGetLogger, search_crowd hn, copyName_of_short (shortName_bitName n),
      freshAddr_crowd, Option.map_some]
    rfl
  simp [runOp, lmkInit_of_initialized (r := crowd n) rfl, hget]

theorem addr_crowdAdded_nodup (n : Nat) : ((crowdAdded n).loggers.map Logger.addr).Nodup := by
  have hmap : (crowdAdded n).loggers.map Logger.addr = (List.range (n + 1)).map (· + 2) := by
    rw [List.range_succ, List.map_append]
    show (((List.range n).map crowdLogger) ++ _).map Logger.addr = _
    rw [List.map_append, List.map_map]
    rfl
  rw [hmap]
  exact List.Nodup.map (fun a b h => by simpa using h) List.nodup_range

theorem attach_crowd (n : Nat) :
    runOp env none (crowdAdded n) (.attachLogHandler (some (n + 2)) (some 1))
      = some (crowd (n + 1)) := by
  have hmem : ({ crowdLogger n with handlerRefList := [] } : Logger) ∈ (crowdAdded n).loggers :=
    List.mem_append_right _ (List.mem_singleton.mpr rfl)
  have hl : (crowdAdded n).logger? (n + 2) = some { crowdLogger n with handlerRefList := [] } :=
    Keyed.find?_key (addr_crowdAdded_nodup n) hmem
  have hh : (crowdAdded n).handler? 1 = some (crowdHandler (n % 2 ^ 32)) := by
    simp [crowdAdded, crowd, Registry.handler?, crowdHandler]
  have hloggers : ((crowdAdded n).setLogger (n + 2) (.addRef 1)).loggers
      = (crowd (n + 1)).loggers := by
    show Keyed.modify Logger.addr (n + 2) (Logger.addRef 1)
      ((List.range n).map crowdLogger ++ [{ crowdLogger n with handlerRefList := [] }])
        = (List.range (n + 1)).map crowdLogger
    rw [List.range_succ, List.map_append]
    unfold Keyed.modify
    rw [List.map_append]
    -- 書き換わるのは最後に加えた logger だけである
    refine congrArg₂ (· ++ ·) ?_ ?_
    · refine (List.map_congr_left ?_).trans (List.map_id _)
      intro l hm
      obtain ⟨i, hi, rfl⟩ := List.mem_map.mp hm
      have hlt := List.mem_range.mp hi
      have hne : (crowdLogger i).addr ≠ n + 2 := by
        show i + 2 ≠ n + 2
        omega
      rw [if_neg hne]
      rfl
    · simp [crowdLogger, Logger.addRef]
  have hattach : lmkAttachLogHandler (crowdAdded n) (some (n + 2)) (some 1)
      = (crowd (n + 1), lmkEOk) := by
    simp only [lmkAttachLogHandler, Option.bind_some, hl, hh]
    have hset : (((crowdAdded n).setLogger (n + 2) (.addRef 1)).setHandler 1 .addRef)
        = crowd (n + 1) := by
      have hhandlers : Keyed.modify LogHandler.addr 1 LogHandler.addRef
          [crowdHandler (n % 2 ^ 32)] = [crowdHandler ((n + 1) % 2 ^ 32)] := by
        simp [Keyed.modify, crowdHandler, LogHandler.addRef]
      unfold Registry.setHandler
      rw [hloggers]
      show ({ crowd (n + 1) with
        handlers := Keyed.modify LogHandler.addr 1 LogHandler.addRef
          [crowdHandler (n % 2 ^ 32)] } : Registry) = _
      rw [hhandlers]
      rfl
    rw [if_neg (by simp [crowdHandler]), if_neg (by simp)]
    exact congrArg (·, lmkEOk) hset
  simp [runOp, lmkInit_of_initialized (r := crowdAdded n) rfl, hattach]

theorem run_joinActs {n : Nat} (hn : n < 2 ^ 33) :
    run (registryStep env) (crowd n) (joinActs n) = some (crowd (n + 1)) := by
  have hget : registryStep env (crowd n) ⟨none, .getLogger (some (bitName n))⟩
      = some (crowdAdded n) := by
    rw [registryStep, if_pos (show ArgsLive (crowd n) (.getLogger (some (bitName n))) from trivial)]
    exact getLogger_crowd hn
  have hlive : ArgsLive (crowdAdded n) (.attachLogHandler (some (n + 2)) (some 1)) := by
    constructor
    · rintro a ⟨⟩
      exact List.mem_map_of_mem (List.mem_append_right _ (List.mem_singleton.mpr rfl))
    · rintro a ⟨⟩
      exact List.mem_singleton.mpr rfl
  have hattach : registryStep env (crowdAdded n)
      ⟨none, .attachLogHandler (some (n + 2)) (some 1)⟩ = some (crowd (n + 1)) := by
    rw [registryStep, if_pos hlive]
    exact attach_crowd n
  unfold joinActs
  rw [run_cons_eq_some]
  exact ⟨_, hget, run_cons_eq_some.mpr ⟨_, hattach, rfl⟩⟩

/-- `2 ^ 33` 個までなら、操作列の結果は `crowd n` である。 -/
theorem run_crowdActs {n : Nat} (hn : n ≤ 2 ^ 33) :
    run (registryStep env) Registry.initial (crowdActs n) = some (crowd n) := by
  induction n with
  | zero => rfl
  | succ n ih =>
    have hacts : crowdActs (n + 1) = crowdActs n ++ joinActs n := by
      simp [crowdActs, List.range_succ]
    rw [hacts, run_append_eq_some]
    exact ⟨_, ih (by omega), run_joinActs (by omega)⟩

theorem refCount_crowd (n : Nat) : (crowd n).refCount 1 = n := by
  have hall : ∀ l ∈ (crowd n).loggers, decide (1 ∈ l.handlerRefList) = true := by
    intro l hl
    obtain ⟨i, -, rfl⟩ := List.mem_map.mp hl
    rfl
  unfold Registry.refCount
  rw [List.countP_eq_length.mpr hall]
  simp [crowd]

/-! ## 切り詰められる名前 -/

/-- 長さが `2 ^ 32 + 3` の名前。 -/
def longName : CStr where
  bytes := List.replicate (2 ^ 32 + 3) 97
  noNul := by
    intro h
    have := List.eq_of_mem_replicate h
    simp at this

theorem length_longName : longName.length = 2 ^ 32 + 3 := List.length_replicate

theorem copyName_longName : copyName longName = some (longName.take 3) := by
  unfold copyName
  simp only [length_longName]
  rfl

theorem longName_take_ne : longName.take 3 ≠ longName := by
  intro h
  have hlen : (longName.bytes.take 3).length = longName.length :=
    congrArg CStr.length h
  rw [List.length_take, length_longName] at hlen
  omega

/-- 長い名前で登録される logger。名前は三文字しか残らない。 -/
def longLogger (addr : Nat) : Logger :=
  { addr, name := longName.take 3, logLevel := logLevelInfo, handlerRefList := []
    initialized := true }

/-- 切り詰めた名前の logger しか無ければ、長い名前の検索は失敗し、もう一つ登録する。 -/
theorem step_longName (env : Env) {r : Registry} (hi : r.initialized = true)
    (hnames : ∀ l ∈ r.loggers, l.name = longName.take 3) :
    registryStep env r ⟨none, .getLogger (some longName)⟩
      = some { r with loggers := r.loggers ++ [longLogger r.freshAddr] } := by
  have hsearch : lmkSearchLoggerByName r longName = none := by
    refine List.find?_eq_none.mpr fun l hl => ?_
    rw [hnames l hl, decide_eq_true_eq]
    exact longName_take_ne
  have hget : lmkGetLogger r (some longName)
      = some ({ r with loggers := r.loggers ++ [longLogger r.freshAddr] }, some r.freshAddr) := by
    unfold lmkGetLogger
    simp only [hsearch, copyName_longName]
    rfl
  rw [registryStep, if_pos (show ArgsLive r (.getLogger (some longName)) from trivial), runOp,
    lmkInit_of_initialized hi, Option.bind_some, hget]
  rfl

/-- 長い名前の logger を二度求める操作列。 -/
def twinActs : List RegistryAction :=
  [⟨none, .init⟩, ⟨none, .getLogger (some longName)⟩, ⟨none, .getLogger (some longName)⟩]

theorem run_twinActs (env : Env) :
    ∃ r, run (registryStep env) Registry.initial twinActs = some r ∧
      r.loggers.map Logger.name = [longName.take 3, longName.take 3] := by
  obtain ⟨r, hr, hi, hl⟩ : ∃ r, registryStep env Registry.initial ⟨none, .init⟩ = some r ∧
      r.initialized = true ∧ r.loggers = [] := ⟨_, rfl, rfl, rfl⟩
  have hfirst := step_longName env hi (by simp [hl])
  have hsecond := step_longName env
    (r := { r with loggers := r.loggers ++ [longLogger r.freshAddr] }) hi
    (by
      intro l hmem
      rw [hl] at hmem
      rw [List.mem_singleton.mp hmem]
      rfl)
  refine ⟨_, run_cons_eq_some.mpr ⟨r, hr, run_cons_eq_some.mpr ⟨_, hfirst,
    run_cons_eq_some.mpr ⟨_, hsecond, rfl⟩⟩⟩, ?_⟩
  rw [hl]
  rfl

/-! ## 不変量 -/

section

variable {r : Registry} {auto : Option Cfg} {acts : List RegistryAction}

/--
**registry の不変量。**

`lmk_init` から始め、登録する名前は `int` に収まり、同時に生きている logger は
`2 ^ 32` 個より少ないとする。そのような操作列の後では、

* logger の名前も handler の名前も重複しない
* logger の参照は重複せず、どれも生きている handler を指す
* `nr_logger_ref` は、その handler を参照している logger の個数に等しい
* level は TRACE から OFF の間にある
* 生きている handler の解放は、どの logger も参照していないとき、そのときに限り成功し、
  失敗したときは registry の全体が変わらない
* 約束を守る次の呼び出しは必ず戻る
-/
theorem registry_invariant
    (hrun : run (registryStep env) Registry.initial (⟨auto, .init⟩ :: acts) = some r)
    (hbound : Along (registryStep env) (fun r act => act.op.Names ShortName ∧ r.LoggersFit)
      Registry.initial (⟨auto, .init⟩ :: acts))
    (hfit : r.LoggersFit) :
    (r.loggers.map Logger.name).Nodup ∧ (r.handlers.map LogHandler.name).Nodup ∧
    (∀ l ∈ r.loggers, l.handlerRefList.Nodup ∧
      ∀ a ∈ l.handlerRefList, a ∈ r.handlers.map LogHandler.addr) ∧
    (∀ h ∈ r.handlers, h.nrLoggerRef = r.refCount h.addr) ∧
    (∀ l ∈ r.loggers, ValidLogLevel l.logLevel) ∧ (∀ h ∈ r.handlers, ValidLogLevel h.logLevel) ∧
    (∀ h ∈ r.handlers, (lmkDestroyLogHandler r (some h.addr)).2 = lmkEOk ↔
      ∀ l ∈ r.loggers, h.addr ∉ l.handlerRefList) ∧
    (∀ handler, (lmkDestroyLogHandler r handler).2 ≠ lmkEOk →
      (lmkDestroyLogHandler r handler).1 = r) ∧
    (r.initialized = true → ∀ act : RegistryAction, act.op.Names ShortName → ArgsLive r act.op →
      (∀ filename, act.op ≠ .setLogFilename none filename) →
      ∃ r', registryStep env r act = some r') := by
  obtain ⟨-, hlevel⟩ := addrInv_reachable ⟨_, hrun⟩
  obtain ⟨haddr, href⟩ := refInv_run hrun (hbound.mono fun _ _ h => h.2)
  have hname := nameInv_run hrun (hbound.mono fun _ _ h => h.1)
  refine ⟨hname.loggers, hname.handlers, fun l hl => ⟨href.nodup l hl, href.live l hl⟩,
    fun h hm => href.nrLoggerRef_eq hfit hm, hlevel.loggers, hlevel.handlers, fun h hm => ?_,
    lmkDestroyLogHandler_refused r, fun hi act hop hargs hnull => ?_⟩
  · rw [lmkDestroyLogHandler_ok_iff haddr hm, href.nrLoggerRef_eq hfit hm]
    exact refCount_eq_zero_iff r h.addr
  · obtain ⟨r', hr'⟩ := runOp_isSome env act.auto ⟨haddr, hi⟩ href hop hargs hnull
    exact ⟨r', by rw [registryStep, if_pos hargs, hr']⟩

/-- logger と handler を一つずつ作って付ける操作列。 -/
def wiredActs : List RegistryAction :=
  [⟨none, .getLogger (some consoleName)⟩, ⟨none, .getConsoleLogHandler⟩,
    ⟨none, .attachLogHandler (some 1) (some 2)⟩]

theorem registry_invariant_wiredActs :
    ∃ r, run (registryStep .loopback) Registry.initial (⟨none, .init⟩ :: wiredActs) = some r ∧
      r.handlers.map LogHandler.nrLoggerRef = [1] ∧
      ∀ h ∈ r.handlers, h.nrLoggerRef = r.refCount h.addr := by
  have hshape : (run (registryStep .loopback) Registry.initial (⟨none, .init⟩ :: wiredActs)).map
      (fun r => (r.handlers.map LogHandler.nrLoggerRef, decide r.LoggersFit))
        = some ([1], true) := by
    decide +kernel
  obtain ⟨r, hr, hp⟩ := Option.map_eq_some_iff.mp hshape
  simp only [Prod.mk.injEq, decide_eq_true_eq] at hp
  obtain ⟨hrefs, hfit⟩ := hp
  exact ⟨r, hr, hrefs, (registry_invariant hr (by decide +kernel) hfit).2.2.2.1⟩

end

/--
`registry_invariant` の二つの条件は外せない。

* counter が 0 に戻った handler は、`2 ^ 32` 個の logger が参照しているのに解放できる
* 長い名前を二度渡すと、同じ名前の logger が二つできる
-/
theorem registry_invariant_overflows :
    (∃ r, run (registryStep .loopback) Registry.initial (crowdActs (2 ^ 32)) = some r ∧
      ∃ h ∈ r.handlers, h.nrLoggerRef = 0 ∧ r.refCount h.addr = 2 ^ 32 ∧
        (lmkDestroyLogHandler r (some h.addr)).2 = lmkEOk) ∧
    ∃ r, run (registryStep .loopback) Registry.initial twinActs = some r ∧
      ¬ (r.loggers.map Logger.name).Nodup := by
  constructor
  · have hrun : run (registryStep .loopback) Registry.initial (crowdActs (2 ^ 32))
        = some (crowd (2 ^ 32)) := run_crowdActs (by decide)
    have hmem : crowdHandler 0 ∈ (crowd (2 ^ 32)).handlers :=
      List.mem_singleton.mpr (congrArg crowdHandler (Nat.mod_self _).symm)
    have hok := (lmkDestroyLogHandler_ok_iff (addrInv_reachable ⟨_, hrun⟩).1 hmem).mpr rfl
    exact ⟨_, hrun, crowdHandler 0, hmem, rfl, refCount_crowd _, hok⟩
  · obtain ⟨r, hr, hnames⟩ := run_twinActs .loopback
    refine ⟨r, hr, ?_⟩
    rw [hnames]
    simp

/-! ## 後始末 -/

/-- 先頭の logger が解放済みの handler を参照していれば、`lmk_destroy` は正常に戻らない。 -/
theorem lmkDestroy_dangling {r : Registry} {l : Logger} {ls : List Logger} {a : Nat}
    {refs : List Nat} (hi : r.initialized = true) (hl : r.loggers = l :: ls)
    (hrefs : l.handlerRefList = a :: refs) (hh : r.handler? a = none) (fuel : Nat) :
    lmkDestroy fuel r = none := by
  have hlog : r.logger? l.addr = some l := by
    unfold Registry.logger?
    rw [hl]
    simp
  -- 参照は list から外せても、counter を減らす先の handler がもう無い
  have hdetach : ∀ codes, detachEntry l.addr (r, codes) a = none := by
    intro codes
    simp [detachEntry, lmkDetachLogHandler, hlog, hrefs, handler?_setLogger, hh]
  have hentries : refEntries l.addr (r, []) = a :: refs := by
    simp [refEntries, hlog, hrefs]
  have hdestroy : ∀ log, destroyLoggerEntry fuel (r, log) l.addr = none := by
    intro log
    cases fuel with
    | zero =>
      simp [destroyLoggerEntry, lmkDestroyLogger, Cursor.forEachEntry, hentries, Cursor.next,
        Cursor.eachEntry]
    | succ fuel =>
      simp [destroyLoggerEntry, lmkDestroyLogger, Cursor.forEachEntry, hentries, Cursor.next,
        Cursor.eachEntry, hdetach]
  unfold lmkDestroy
  rw [if_pos hi]
  have hloggers : loggerEntries (r, .empty) = l.addr :: ls.map Logger.addr := by
    simp [loggerEntries, hl]
  cases fuel with
  | zero => simp [Cursor.forEachEntry, hloggers, Cursor.next, Cursor.eachEntry]
  | succ fuel =>
    simp [Cursor.forEachEntry, hloggers, Cursor.next, Cursor.eachEntry, hdestroy]

theorem lmkDestroy_crowd (n fuel : Nat) :
    lmkDestroy fuel { crowd (n + 1) with handlers := [] } = none := by
  have hloggers : (crowd (n + 1)).loggers
      = crowdLogger 0 :: (List.range n).map (crowdLogger ∘ Nat.succ) := by
    show (List.range (n + 1)).map crowdLogger = _
    rw [List.range_succ_eq_map, List.map_cons, List.map_map]
  exact lmkDestroy_dangling (r := { crowd (n + 1) with handlers := [] }) rfl hloggers rfl rfl fuel

section

variable {r : Registry} {acts : List RegistryAction}

/--
**`lmk_destroy` は終わり、すべてを片づける。**

同時に生きている logger が `2 ^ 32` 個より少ないまま進んだ操作列の後では、
list の長さだけの燃料があれば、

* `lmk_destroy` は開始時の状態に戻る。従って次の `lmk_init` は最初のものと同じ状態を作る
* どの logger も handler もちょうど一度、成功して解放され、loop の中の detach も失敗しない
* `lmk_destroy_logger` だけを呼んだときも、その中の loop は終わり、detach は失敗しない
-/
theorem lmkDestroy_empties
    (hrun : run (registryStep env) Registry.initial acts = some r)
    (hfit : Along (registryStep env) (fun r _ => r.LoggersFit) Registry.initial acts)
    {fuel : Nat} (hfuel : r.fuel ≤ fuel) :
    (∃ r' log, lmkDestroy fuel r = some (r', log) ∧
      r'.loggers = [] ∧ r'.handlers = [] ∧
      (∀ auto, lmkInit env auto r' = lmkInit env auto Registry.initial) ∧
      (r.loggers.map Logger.addr).Nodup ∧
      log.loggers = r.loggers.map (fun l => (l.addr, lmkEOk)) ∧
      (r.handlers.map LogHandler.addr).Nodup ∧
      log.handlers = r.handlers.map (fun h => (h.addr, lmkEOk)) ∧
      ∀ c ∈ log.detachCodes, c = lmkEOk) ∧
    ∀ l ∈ r.loggers, ∃ r' codes,
      lmkDestroyLogger fuel r (some l.addr) = some (r', lmkEOk, codes) ∧
      r'.loggers = r.loggers.filter (fun l' => l'.addr ≠ l.addr) ∧ ∀ c ∈ codes, c = lmkEOk := by
  obtain ⟨haddr, href⟩ := refInv_run hrun hfit
  have hrefs : ∀ l ∈ r.loggers, l.handlerRefList.length ≤ fuel := fun l hl =>
    Nat.le_trans (handlerRefList_le_fuel hl) hfuel
  constructor
  · obtain ⟨log, hlog, hloggers, hhandlers, hcodes⟩ := lmkDestroy_spec fuel haddr href
      (by unfold Registry.fuel at hfuel; omega) (by unfold Registry.fuel at hfuel; omega) hrefs
    exact ⟨_, log, hlog, rfl, rfl, fun _ => rfl, haddr.loggerAddrs, hloggers, haddr.handlerAddrs,
      hhandlers, hcodes⟩
  · intro l hl
    obtain ⟨r', codes, hr', hcodes, -, -, hloggers, -⟩ :=
      lmkDestroyLogger_spec haddr href hl (hrefs l hl)
    exact ⟨r', codes, hr', hloggers, hcodes⟩

theorem lmkDestroy_empties_wiredActs :
    ∃ r, run (registryStep .loopback) Registry.initial wiredActs = some r ∧
      r.handlers.map LogHandler.nrLoggerRef = [1] ∧
      ∃ r' log, lmkDestroy r.fuel r = some (r', log) ∧ r'.loggers = [] ∧ r'.handlers = [] := by
  have hshape : (run (registryStep .loopback) Registry.initial wiredActs).map
      (fun r => r.handlers.map LogHandler.nrLoggerRef) = some [1] := by
    decide +kernel
  obtain ⟨r, hr, hrefs⟩ := Option.map_eq_some_iff.mp hshape
  obtain ⟨⟨r', log, hlog, hloggers, hhandlers, -⟩, -⟩ :=
    lmkDestroy_empties hr (by decide +kernel) (Nat.le_refl r.fuel)
  exact ⟨r, hr, hrefs, r', log, hlog, hloggers, hhandlers⟩

end

/-- counter が 0 に戻った handler は、付いたまま解放できる。 -/
theorem run_crowd_freed (env : Env) :
    run (registryStep env) Registry.initial
        (crowdActs (2 ^ 32) ++ [⟨none, .destroyLogHandler (some 1)⟩])
      = some { crowd (2 ^ 32) with handlers := [] } := by
  have hstep : registryStep env (crowd (2 ^ 32)) ⟨none, .destroyLogHandler (some 1)⟩
      = some { crowd (2 ^ 32) with handlers := [] } := by
    have hlive : ArgsLive (crowd (2 ^ 32)) (.destroyLogHandler (some 1)) := by
      rintro a ⟨⟩
      exact List.mem_singleton.mpr rfl
    rw [registryStep, if_pos hlive]
    simp [runOp, lmkDestroyLogHandler, crowd, Registry.handler?, crowdHandler]
  exact run_snoc_eq_some.mpr ⟨_, run_crowdActs (by decide), hstep⟩

/--
`lmkDestroy_empties` の条件は外せない。`2 ^ 32` 個の logger が参照している handler を解放した後の
`lmk_destroy` は、最初の logger の参照を外すときに解放済みの handler に書く。
-/
theorem lmkDestroy_overflows :
    ∃ r, run (registryStep .loopback) Registry.initial
        (crowdActs (2 ^ 32) ++ [⟨none, .destroyLogHandler (some 1)⟩]) = some r ∧
      ∀ fuel, lmkDestroy fuel r = none := by
  refine ⟨_, run_crowd_freed .loopback, ?_⟩
  intro fuel
  obtain ⟨n, hn⟩ : ∃ n, 2 ^ 32 = n + 1 := ⟨2 ^ 32 - 1, rfl⟩
  rw [hn]
  exact lmkDestroy_crowd n fuel

end Logmoko
