import Logmoko.Dispatch.Law
import Logmoko.Registry.Safety

/-!
# log の呼び出しの歴史

handler `a` に渡される record は、呼び出しの時点で `a` に届く呼び出しのものであり、
順序も回数も呼び出しと同じである。渡された record を受け取るかどうかは、
ほかの handler に渡るものも、ほかの handler が受け取るものも変えない（`dispatch_law`）。

例外は二つある。展開した長さが `int` に収まらない message は空の record になる。
`2 ^ 32` 個の logger が参照して counter が 0 に戻った handler は、付いたまま解放できてしまい、
その後の呼び出しは未定義動作になる（`log_loses_text_and_handler`）。
-/

namespace Logmoko

open Transition

variable {env : Env} {auto : Option Cfg} {r : Registry} {a : Nat} {s s' t : DispatchState}
  {act act' : DispatchAction} {acts acts' : List DispatchAction}

/-! ## 渡された record -/

/-- handler `a` に渡された record は、届く呼び出しの分だけ、その順に増える。 -/
theorem offeredTo_run (hs : DispatchInv s)
    (hfit : Along (dispatchStep env) (fun s _ => s.LoggersFit) s acts)
    (h : run (dispatchStep env) s acts = some t) (a : Nat) :
    t.offeredTo a = s.offeredTo a ++ (qualifyingCalls env a s acts).map LogCall.payload := by
  induction acts generalizing s with
  | nil =>
    obtain rfl : s = t := Option.some.inj h
    simp [qualifyingCalls]
  | cons act acts ih =>
    obtain ⟨u, hu, ht⟩ := run_cons_eq_some.mp h
    obtain ⟨hfit, hrest⟩ := (along_cons hu).mp hfit
    have hcalls : qualifyingCalls env a s (act :: acts)
        = act.callTo s a ++ qualifyingCalls env a u acts := by
      simp only [qualifyingCalls, hu]
    rw [ih (hs.step hfit hu) hrest ht, hcalls, List.map_append, ← List.append_assoc]
    refine congrArg (· ++ _) ?_
    cases act with
    | op op =>
      obtain ⟨-, -, r, -, rfl⟩ := dispatchStep_op hu
      exact (List.append_nil _).symm
    | log call accepts =>
      obtain ⟨buf, record, rfl, hpayload⟩ := dispatchStep_log hs hu
      show (List.map _ ((s.offers ++ _).filter _)) = _
      rw [List.filter_append, List.map_append, offers_filter hs]
      refine congrArg (_ ++ ·) ?_
      show _ = (if s.Qualifies call a then [call] else []).map LogCall.payload
      split
      · exact congrArg (fun p => [p]) hpayload
      · rfl

/-- handler `a` から見て区別できない状態。 -/
structure SameFor (a : Nat) (s s' : DispatchState) : Prop where
  registry : s'.registry = s.registry
  attachments : s'.attachments = s.attachments
  offers : ∀ b, s'.offeredTo b = s.offeredTo b
  received : s'.receivedBy a = s.receivedBy a

/-- ほかの handler が受け取るかどうかは、渡されるものにも `a` が受け取るものにも現れない。 -/
theorem SameFor.step (hs : DispatchInv s) (hs' : DispatchInv s') (hsame : SameFor a s s')
    (hact : act.SameFor a act') (h : dispatchStep env s act = some t) :
    ∃ t', dispatchStep env s' act' = some t' ∧ SameFor a t t' := by
  cases act with
  | op o =>
    cases act' with
    | log => exact hact.elim
    | op o' =>
      obtain rfl : o = o' := hact
      obtain ⟨hsingle, hargs, r, hop, rfl⟩ := dispatchStep_op h
      refine ⟨{ s' with registry := r, attachments := updateAttachments s'.attachments o }, ?_, ?_⟩
      · rw [dispatchStep, if_pos hsingle, registryStep, hsame.registry, if_pos hargs, hop]
        rfl
      · exact ⟨rfl, congrArg (updateAttachments · o) hsame.attachments, hsame.offers,
          hsame.received⟩
  | log call accepts =>
    cases act' with
    | op => exact hact.elim
    | log call' accepts' =>
      obtain ⟨rfl, haccepts⟩ := hact
      have hlive : s.registry.LoggerLive call.logger := (Option.ite_none_right_eq_some.mp h).1
      obtain ⟨buf, record, rfl, hpayload⟩ := dispatchStep_log hs h
      obtain ⟨buf', record', hstep', hpayload'⟩ :=
        hs'.log env (hsame.registry ▸ hlive) accepts'
      have hqualifies : ∀ b, s'.Qualifies call b ↔ s.Qualifies call b := by
        intro b
        simp only [DispatchState.Qualifies, hsame.registry, hsame.attachments]
      refine ⟨_, hstep', hsame.registry, hsame.attachments, ?_, ?_⟩
      · intro b
        show ((s'.offers ++ _).filter _).map _ = ((s.offers ++ _).filter _).map _
        rw [List.filter_append, List.filter_append, List.map_append, List.map_append,
          offers_filter hs, offers_filter hs']
        refine congr (congrArg _ (hsame.offers b)) ?_
        simp only [hqualifies]
        split
        · exact congrArg (fun p => [p]) (hpayload'.trans hpayload.symm)
        · rfl
      · show ((s'.received ++ _).filter _).map _ = ((s.received ++ _).filter _).map _
        rw [List.filter_append, List.filter_append, List.map_append, List.map_append]
        refine congr (congrArg _ hsame.received) ?_
        rw [received_filter hs, received_filter hs']
        simp only [hqualifies, haccepts]
        split
        · exact congrArg (fun p => [p]) (hpayload'.trans hpayload.symm)
        · rfl

/-- 同じ registry から始めた二つの動作列は、`a` から見て区別できないまま進む。 -/
theorem SameFor.run (hs : DispatchInv s) (hs' : DispatchInv s') (hsame : SameFor a s s')
    (hacts : List.Forall₂ (DispatchAction.SameFor a) acts acts')
    (hfit : Along (dispatchStep env) (fun s _ => s.LoggersFit) s acts)
    (h : run (dispatchStep env) s acts = some t) :
    ∃ t', run (dispatchStep env) s' acts' = some t' ∧ SameFor a t t' := by
  induction hacts generalizing s s' with
  | nil =>
    obtain rfl : s = t := Option.some.inj h
    exact ⟨s', rfl, hsame⟩
  | cons hact _ ih =>
    obtain ⟨u, hu, ht⟩ := run_cons_eq_some.mp h
    obtain ⟨hfit, hrest⟩ := (along_cons hu).mp hfit
    obtain ⟨u', hu', hsame'⟩ := hsame.step hs hs' hact hu
    have hfit' : s'.LoggersFit := by
      unfold DispatchState.LoggersFit
      rw [hsame.registry]
      exact hfit
    obtain ⟨t', ht', hsame''⟩ := ih (hs.step hfit hu) (hs'.step hfit' hu') hsame' hrest ht
    exact ⟨t', run_cons_eq_some.mpr ⟨u', hu', ht'⟩, hsame''⟩

/-! ## 初期状態 -/

theorem dispatchInv_initial (h : lmkInit env auto Registry.initial = some r) :
    DispatchInv (dispatchInitial r) := by
  have hop : runOp env auto Registry.initial .init = some r := h
  have haddr := addrInv_runOp addrInv_initial hop
  have hrefs := refInv_runOp addrInv_initial refInv_initial
    (show Registry.initial.LoggersFit by decide) (show ArgsLive _ .init from trivial) hop
  refine ⟨haddr, hrefs, (lmkInit_edits (N := fun _ => True) (fun _ _ => trivial) h).2, ?_, ?_⟩
  · exact runOp_invariant (I := Registry.LoggersReady) (N := fun _ => True) addrInv_initial
      (fun _ _ => trivial) (RegistryOp.names_true .init) (fun _ _ hl => nomatch hl)
      (fun _ _ => loggersReady_edit) (fun _ _ => loggersReady_drop) (fun _ hl => nomatch hl) hop
  · have hpairs : (dispatchInitial r).attachments = pairsOf r.wiring := by
      simp [dispatchInitial, pairsOf, Registry.wiring, List.flatMap_map]
    rw [hpairs]
    refine attachInv_pairsOf ?_ ?_
    · rw [map_fst_wiring]
      exact haddr.loggerAddrs
    · intro p hp
      obtain ⟨lg, hl, rfl⟩ := List.mem_map.mp hp
      exact hrefs.nodup lg hl

theorem DispatchInv.run (hs : DispatchInv s)
    (hfit : Along (dispatchStep env) (fun s _ => s.LoggersFit) s acts)
    (h : run (dispatchStep env) s acts = some t) : DispatchInv t :=
  run_invariant (fun _ _ _ hs hfit h => hs.step hfit h) hs hfit h

/-- OFF の logger も OFF の handler も、どの呼び出しも通さない。 -/
theorem DispatchState.Qualifies.not_off {call : LogCall} (h : s.Qualifies call a) :
    (∃ g ∈ call.logger, ∃ lg ∈ s.registry.logger? g, lg.logLevel ≠ logLevelOff) ∧
    ∃ hd ∈ s.registry.handler? a, hd.logLevel ≠ logLevelOff := by
  obtain ⟨g, hg, -, ⟨lg, hl, hlevel⟩, hd, hh, hlevel'⟩ := h
  have hlt := call.fn.level_lt_off
  refine ⟨⟨g, hg, lg, hl, ?_⟩, hd, hh, ?_⟩
  · intro he
    exact absurd (he ▸ hlevel) (not_le.mpr hlt)
  · intro he
    exact absurd (he ▸ hlevel') (not_le.mpr hlt)

/-! ## 届く先の法則 -/

/--
**log の呼び出しが届く先。**

`lmk_init` の後の操作と log の呼び出しの列について、同時に生きている logger が `2 ^ 32` 個より
少なければ、

* handler `a` に渡された record は、その時点で `a` に届く呼び出しの record を呼び出しの順に
  一度ずつ並べたものである
* ほかの handler が受け取るかどうかだけを変えた列も進み、どの handler に渡される record も、
  `a` が受け取る record も変わらない
* 生きている logger への次の呼び出しは必ず戻り、届く handler に付けた順に同じ record を渡す
* OFF の logger への呼び出しも OFF の handler への record も届かない
-/
theorem dispatch_law (hinit : lmkInit env auto Registry.initial = some r)
    (hrun : run (dispatchStep env) (dispatchInitial r) acts = some s)
    (hfit : Along (dispatchStep env) (fun s _ => s.LoggersFit) (dispatchInitial r) acts) :
    (∀ a, s.offeredTo a = (qualifyingCalls env a (dispatchInitial r) acts).map LogCall.payload) ∧
    (∀ a acts', List.Forall₂ (DispatchAction.SameFor a) acts acts' →
      ∃ s', run (dispatchStep env) (dispatchInitial r) acts' = some s' ∧
        (∀ b, s'.offeredTo b = s.offeredTo b) ∧ s'.receivedBy a = s.receivedBy a) ∧
    (∀ call accepts, s.registry.LoggerLive call.logger → ∃ s' record,
      dispatchStep env s (.log call accepts) = some s' ∧
      s'.offers = s.offers ++ (s.targets call).map (fun a => (a, record)) ∧
      (s.targets call).Nodup ∧ record.payload = call.payload) ∧
    ∀ call a, s.Qualifies call a →
      (∃ g ∈ call.logger, ∃ lg ∈ s.registry.logger? g, lg.logLevel ≠ logLevelOff) ∧
      ∃ hd ∈ s.registry.handler? a, hd.logLevel ≠ logLevelOff := by
  have hstart := dispatchInv_initial hinit
  have hend := hstart.run hfit hrun
  refine ⟨?_, ?_, ?_, fun _ _ h => h.not_off⟩
  · exact offeredTo_run hstart hfit hrun
  · intro a acts' hacts
    have hrefl : SameFor a (dispatchInitial r) (dispatchInitial r) :=
      ⟨rfl, rfl, fun _ => rfl, rfl⟩
    obtain ⟨s', hrun', hsame⟩ := hrefl.run hstart hstart hacts hfit hrun
    exact ⟨s', hrun', hsame.offers, hsame.received⟩
  · intro call accepts hlive
    obtain ⟨buf, record, hstep, hpayload⟩ := hend.log env hlive accepts
    exact ⟨_, record, hstep, rfl, targets_nodup hend call, hpayload⟩

/-- 番地 1 の logger への INFO の呼び出し。 -/
def helloCall (text : List UInt8) : LogCall :=
  { fn := .logInfo, logger := some 1, fileName := consoleName, lineNo := 7, text := some text }

/-- logger に console handler を付けて一度だけ呼ぶ動作列。 -/
def helloActs (text : List UInt8) : List DispatchAction :=
  [.op (.getLogger (some consoleName)), .op .getConsoleLogHandler,
    .op (.attachLogHandler (some 1) (some 2)), .log (helloCall text) fun _ => true]

/-- 初期化しただけの registry。 -/
def readyRegistry : Registry :=
  { initialized := true, config := some { logBufferSize := 2048, ringBufferSize := 1024 }
    loggers := [], handlers := [] }

theorem lmkInit_readyRegistry (env : Env) :
    lmkInit env none Registry.initial = some readyRegistry := rfl

theorem run_helloActs (text : List UInt8) :
    ∃ s, run (dispatchStep .loopback) (dispatchInitial readyRegistry) (helloActs text) = some s ∧
      Along (dispatchStep .loopback) (fun s _ => s.LoggersFit) (dispatchInitial readyRegistry)
        (helloActs text) ∧
      qualifyingCalls .loopback 2 (dispatchInitial readyRegistry) (helloActs text)
        = [helloCall text] := by
  refine ⟨_, rfl, ?_, rfl⟩
  have hone : 1 < 2 ^ 32 := by decide
  exact ⟨Nat.two_pow_pos 32, hone, hone, hone, trivial⟩

theorem dispatch_law_hello : ∃ s,
    run (dispatchStep .loopback) (dispatchInitial readyRegistry) (helloActs (ascii "hi")) = some s ∧
      s.offeredTo 2 = [(helloCall (ascii "hi")).payload] := by
  obtain ⟨s, hrun, hfit, hcalls⟩ := run_helloActs (ascii "hi")
  have hlaw := (dispatch_law (lmkInit_readyRegistry _) hrun hfit).1 2
  rw [hcalls] at hlaw
  exact ⟨s, hrun, hlaw⟩

/-! ## 例外 -/

/-- 展開した長さが `int` に収まらない message の record は空である。 -/
theorem payload_overlong {text : List UInt8} (h : intMax < text.length) :
    (helloCall text).payload.bytes = [] := by
  show (((some text).filter fun text => text.length ≤ intMax).getD []).take _ = []
  rw [Option.filter_some, if_neg (by simpa using h)]
  rfl

/-- registry の操作だけの列は、registry の系の列と同じに進む。 -/
theorem run_ops {ops : List RegistryAction} {r : Registry}
    (hops : ∀ act ∈ ops, act.auto = none ∧ act.op.Single)
    (h : run (registryStep env) s.registry ops = some r) :
    ∃ t, run (dispatchStep env) s (ops.map fun act => .op act.op) = some t ∧ t.registry = r := by
  induction ops generalizing s with
  | nil => exact ⟨s, rfl, Option.some.inj h⟩
  | cons act ops ih =>
    obtain ⟨⟨hauto, hsingle⟩, hrest⟩ := List.forall_mem_cons.mp hops
    obtain ⟨u, hu, hr⟩ := run_cons_eq_some.mp h
    have hstep : dispatchStep env s (.op act.op) = some { s with
        registry := u, attachments := updateAttachments s.attachments act.op } := by
      rw [dispatchStep, if_pos hsingle, ← hauto, hu]
      rfl
    obtain ⟨t, ht, htr⟩ := ih (s := { s with
      registry := u, attachments := updateAttachments s.attachments act.op }) hrest hr
    exact ⟨t, run_cons_eq_some.mpr ⟨_, hstep, ht⟩, htr⟩

/-- 付いた handler が解放されていれば、level を満たす呼び出しは未定義動作になる。 -/
theorem log_dangling {call : LogCall} {lg : Logger} {refs : List Nat} {accepts : Nat → Bool}
    (hi : s.registry.initialized = true) (hlogger : call.logger = some lg.addr)
    (hfind : s.registry.logger? lg.addr = some lg) (hready : lg.initialized = true)
    (hle : lg.logLevel ≤ call.fn.level) (hrefs : lg.handlerRefList = a :: refs)
    (hfree : s.registry.handler? a = none) :
    dispatchStep env s (.log call accepts) = none := by
  have hv : ∀ record : LogRecord, record.logLevel = call.fn.level →
      lmkLogImpl s.registry call.logger record = none := by
    intro record hlevel
    unfold lmkLogImpl
    simp only [hlogger, Option.bind_some, hfind, hready, hlevel, hrefs]
    rw [if_neg (by decide), if_neg (not_not.mpr call.fn.validLogLevel), if_pos hle,
      List.foldlM_cons, offerTo, hfree]
    rfl
  rw [dispatchStep, lmkInit_of_initialized hi, Option.bind_some]
  split
  · unfold lmkLogCommon
    rw [hlogger, Option.bind_some, hfind]
    dsimp only
    rw [if_pos hle, ← hlogger, hv _ rfl]
    rfl
  · rfl

theorem crowdLogger_mem {n : Nat} (hn : 0 < n) : crowdLogger 0 ∈ (crowd n).loggers :=
  List.mem_map_of_mem (List.mem_range.mpr hn)

/-- 解放までの操作はどれも、自動設定の file を読まず、一つの構造体だけを変える。 -/
theorem single_freed {n : Nat} : ∀ act ∈ [⟨none, .getConsoleLogHandler⟩] ++
      (List.range n).flatMap joinActs ++ [⟨none, .destroyLogHandler (some 1)⟩],
    act.auto = none ∧ act.op.Single := by
  intro act hact
  simp only [List.mem_append, List.mem_singleton, List.mem_flatMap] at hact
  rcases hact with (rfl | ⟨i, -, hact⟩) | rfl
  · exact ⟨rfl, trivial⟩
  · rcases List.mem_pair.mp hact with rfl | rfl
    · exact ⟨rfl, trivial⟩
    · exact ⟨rfl, trivial⟩
  · exact ⟨rfl, trivial⟩

/--
`dispatch_law` の条件と、空になる message の例外は外せない。

* `2 ^ 31` byte の message は、付いている handler に空の record として渡される
* `2 ^ 32` 個の logger が参照する handler は解放でき、生きている logger への次の呼び出しは
  解放済みの handler を読む
-/
theorem log_loses_text_and_handler :
    (∃ s, run (dispatchStep .loopback) (dispatchInitial readyRegistry)
        (helloActs (List.replicate (2 ^ 31) 97)) = some s ∧
      (s.offeredTo 2).map LogPayload.bytes = [[]] ∧
      (List.replicate (2 ^ 31) (97 : UInt8)).take 2047 ≠ []) ∧
    ∃ acts s, run (dispatchStep .loopback) (dispatchInitial readyRegistry) acts = some s ∧
      (∃ lg ∈ s.registry.logger? 2, lg.handlerRefList = [1]) ∧
      s.registry.LoggerLive (some 2) ∧
      dispatchStep .loopback s (.log { helloCall [] with logger := some 2 } fun _ => true)
        = none := by
  constructor
  · obtain ⟨s, hrun, hfit, hcalls⟩ := run_helloActs (List.replicate (2 ^ 31) 97)
    have hstart := dispatchInv_initial (lmkInit_readyRegistry .loopback)
    have hoffered := offeredTo_run hstart hfit hrun 2
    rw [hcalls] at hoffered
    have hbytes : (helloCall (List.replicate (2 ^ 31) 97)).payload.bytes = [] := by
      refine payload_overlong ?_
      rw [List.length_replicate]
      decide
    refine ⟨s, hrun, ?_, ?_⟩
    · rw [hoffered]
      exact congrArg (fun b => [b]) hbytes
    · intro he
      have hlen := congrArg List.length he
      rw [List.length_take, List.length_replicate] at hlen
      exact absurd hlen (by decide)
  · have hfreed := run_crowd_freed .loopback
    obtain ⟨u, hu, hrest⟩ := run_cons_eq_some.mp hfreed
    obtain rfl : u = readyRegistry := Option.some.inj hu.symm
    obtain ⟨s, hs, hregistry⟩ := run_ops (s := dispatchInitial readyRegistry) single_freed hrest
    have hmem : crowdLogger 0 ∈ s.registry.loggers := by
      rw [hregistry]
      dsimp only
      exact crowdLogger_mem (Nat.two_pow_pos 32)
    have haddr : AddrInv s.registry := by
      rw [hregistry]
      exact (addrInv_reachable ⟨_, hfreed⟩).1
    have hfind : s.registry.logger? 2 = some (crowdLogger 0) := haddr.logger?_of_mem hmem
    have hfree : s.registry.handler? 1 = none := by
      rw [hregistry]
      rfl
    have hinit : s.registry.initialized = true := by
      rw [hregistry]
      rfl
    refine ⟨_, s, hs, ⟨_, hfind, rfl⟩, ?_, ?_⟩
    · rintro b ⟨⟩
      exact List.mem_map.mpr ⟨_, hmem, rfl⟩
    · have hlogger : some 2 = some (crowdLogger 0).addr := rfl
      exact log_dangling hinit hlogger hfind rfl (by decide) rfl hfree

end Logmoko
