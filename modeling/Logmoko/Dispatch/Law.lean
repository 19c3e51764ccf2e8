import Logmoko.Dispatch.Attachments

/-!
# 届く先

log の呼び出し一回が record を渡す handler は、その時点で logger に付いていて、record の level が
logger と handler の両方の level 以上であるもの（`targets`）であり、付けた順に一度ずつ渡される。
record の中身は `LogCall.payload` に等しい。

* `DispatchInv.log` — 生きている logger への呼び出しは必ず戻る
* `DispatchInv.step` — 系の不変量の保存
* `offers_filter` — 一つの handler に渡るのは高々一つ
-/

namespace Logmoko

/-! ## 渡されるもの -/

/-- record の中身。 -/
structure LogPayload where
  logLevel : Int
  fileName : CStr
  lineNo : Int
  bytes : List UInt8
deriving DecidableEq

/-- handler から見える record の中身。`data` は先頭の `data_len` byte である。 -/
def LogRecord.payload (record : LogRecord) : LogPayload :=
  { logLevel := record.logLevel, fileName := record.fileName, lineNo := record.lineNo
    bytes := record.data.take record.dataLen }

/-- 呼び出しが運ぶはずの中身。message は先頭の 2047 byte まで、展開に失敗すれば空である。 -/
def LogCall.payload (call : LogCall) : LogPayload :=
  { logLevel := call.fn.level, fileName := call.fileName, lineNo := call.lineNo
    bytes := ((call.text.filter fun text => text.length ≤ intMax).getD []).take
      (logMsgMaxSize - 1) }

/-- 呼び出し `call` は handler `a` に届く。 -/
def DispatchState.Qualifies (s : DispatchState) (call : LogCall) (a : Nat) : Prop :=
  ∃ g ∈ call.logger, (g, a) ∈ s.attachments ∧
    (∃ lg ∈ s.registry.logger? g, lg.logLevel ≤ call.fn.level) ∧
    ∃ hd ∈ s.registry.handler? a, hd.logLevel ≤ call.fn.level

instance (s : DispatchState) (call : LogCall) : DecidablePred (s.Qualifies call) :=
  fun _ => inferInstanceAs (Decidable (∃ g ∈ call.logger, _ ∧ (∃ lg ∈ _, _) ∧ ∃ hd ∈ _, _))

/-- 呼び出し `call` が届く handler を、付けた順に並べたもの。 -/
def DispatchState.targets (s : DispatchState) (call : LogCall) : List Nat :=
  ((call.logger.map (attachedTo s.attachments)).getD []).filter fun a => s.Qualifies call a

/-- 動作が呼び出しで、handler `a` に届くなら、その呼び出し。 -/
def DispatchAction.callTo (s : DispatchState) (a : Nat) : DispatchAction → List LogCall
  | .log call _ => if s.Qualifies call a then [call] else []
  | .op _ => []

/-- 動作列の中の呼び出しのうち、その時点の状態で handler `a` に届くもの。 -/
def qualifyingCalls (env : Env) (a : Nat) : DispatchState → List DispatchAction → List LogCall
  | _, [] => []
  | s, act :: acts => act.callTo s a ++ match dispatchStep env s act with
    | some s' => qualifyingCalls env a s' acts
    | none => []

/-- handler `a` に渡された record の中身。 -/
def DispatchState.offeredTo (s : DispatchState) (a : Nat) : List LogPayload :=
  (s.offers.filter fun o => o.1 = a).map fun o => o.2.payload

/-- handler `a` が受け取った record の中身。 -/
def DispatchState.receivedBy (s : DispatchState) (a : Nat) : List LogPayload :=
  (s.received.filter fun o => o.1 = a).map fun o => o.2.payload

/-- 同じ動作で、handler `a` が受け取るかどうかも同じである。 -/
def DispatchAction.SameFor (a : Nat) : DispatchAction → DispatchAction → Prop
  | .op o, .op o' => o = o'
  | .log call accepts, .log call' accepts' => call = call' ∧ accepts a = accepts' a
  | _, _ => False

/-- 生きている logger は `2 ^ 32` 個より少ない。 -/
def DispatchState.LoggersFit (s : DispatchState) : Prop := s.registry.LoggersFit

instance : DecidablePred DispatchState.LoggersFit :=
  fun s => inferInstanceAs (Decidable s.registry.LoggersFit)

variable {env : Env} {r r' : Registry} {call : LogCall} {record : LogRecord}
  {buf : Nat → UInt8} {a : Nat} {s s' : DispatchState} {act : DispatchAction}

/-! ## record -/

theorem clampDataLen_length (n : Nat) : clampDataLen n = min n (logMsgMaxSize - 1) := by
  unfold clampDataLen logMsgMaxSize
  dsimp only
  split <;> split <;> omega

/-- 入りきらない分は捨てられるので、buffer から読めるのは展開した byte 列の先頭である。 -/
theorem read_snprintf (buf : Nat → UInt8) (text : List UInt8) {size : Nat} :
    Buffer.read (Buffer.overlay buf 0 (snprintf size text).written) 0
      (min text.length (size - 1)) = text.take (size - 1) := by
  have hlen : min text.length (size - 1) = (text.take (size - 1)).length := by
    rw [List.length_take, Nat.min_comm]
  rw [hlen]
  refine Buffer.read_overlay_self ?_
  intro i x hx
  have hi := (List.getElem?_eq_some_iff.mp hx).1
  rw [List.length_take] at hi
  rw [List.getElem?_take_of_lt (by omega)] at hx
  show (if i < min text.length (size - 1) then text[i]? else _) = some x
  rw [if_pos (by omega), hx]

theorem payload_record (buf : Nat → UInt8) (call : LogCall) :
    (call.record (Buffer.overlay buf 0 (vsnprintf logMsgMaxSize call.text).written)
      (vsnprintf logMsgMaxSize call.text).ret).payload = call.payload := by
  have hneg : clampDataLen (-1) = 0 := by decide
  unfold LogRecord.payload LogCall.payload LogCall.record
  congr 1
  dsimp only
  rw [Buffer.take_read (clampDataLen_le _)]
  unfold vsnprintf
  cases call.text with
  | none =>
    dsimp only
    rw [hneg]
    rfl
  | some text =>
    dsimp only
    split
    · next hle =>
      show Buffer.read _ 0 (clampDataLen (text.length : Int)) = _
      rw [clampDataLen_length, read_snprintf, Option.filter_some, if_pos (by simpa using hle)]
      rfl
    · next hgt =>
      rw [hneg, Option.filter_some, if_neg (by simpa using hgt)]
      rfl

/-! ## 一回の呼び出し -/

/-- handler の level が record の level 以下である。 -/
def Registry.Accepts (r : Registry) (level : Int) (a : Nat) : Prop :=
  ∃ hd ∈ r.handler? a, hd.logLevel ≤ level

instance (r : Registry) (level : Int) : DecidablePred (r.Accepts level) :=
  fun _ => inferInstanceAs (Decidable (∃ hd ∈ _, _))

/-- loop は生きている参照先を順に調べ、level を満たすものにだけ渡す。 -/
theorem foldlM_offerTo {refs : List Nat} (hlive : ∀ a ∈ refs, a ∈ r.handlers.map LogHandler.addr)
    (ha : AddrInv r) (offers : List Nat) :
    refs.foldlM (offerTo r record) offers
      = some (offers ++ refs.filter fun a => r.Accepts record.logLevel a) := by
  induction refs generalizing offers with
  | nil => simp
  | cons a refs ih =>
    obtain ⟨hd, hh, rfl⟩ := List.mem_map.mp (hlive a List.mem_cons_self)
    have hfind := ha.handler?_of_mem hh
    have hrest := ih fun b hb => hlive b (List.mem_cons_of_mem _ hb)
    have haccepts : r.Accepts record.logLevel hd.addr ↔ hd.logLevel ≤ record.logLevel := by
      simp [Registry.Accepts, hfind]
    rw [List.foldlM_cons, offerTo, hfind]
    show refs.foldlM _ (if record.logLevel ≥ hd.logLevel then offers ++ [hd.addr] else offers) = _
    rw [hrest, List.filter_cons]
    by_cases hl : hd.logLevel ≤ record.logLevel
    · rw [if_pos hl, if_pos (decide_eq_true (haccepts.mpr hl)), List.append_assoc]
      rfl
    · rw [if_neg hl, if_neg (by simpa using haccepts.not.mpr hl)]

/-- どの logger も初期化されている。 -/
def Registry.LoggersReady (r : Registry) : Prop := ∀ lg ∈ r.loggers, lg.initialized = true

/-- 系の不変量。 -/
structure DispatchInv (s : DispatchState) : Prop where
  addr : AddrInv s.registry
  refs : RefInv s.registry
  initialized : s.registry.initialized = true
  loggers : s.registry.LoggersReady
  attach : AttachInv s.registry.wiring s.attachments

theorem LogFn.validLogLevel (fn : LogFn) : ValidLogLevel fn.level := by
  cases fn <;> decide

theorem LogFn.level_lt_off (fn : LogFn) : fn.level < logLevelOff := by
  cases fn <;> decide

/-- level を満たす record は、level を満たす参照先のすべてに順に渡される。 -/
theorem lmkLogImpl_of_enabled (record : LogRecord) (ha : AddrInv r) (hr : RefInv r) {lg : Logger}
    (hl : lg ∈ r.loggers) (hi : lg.initialized = true) (hv : ValidLogLevel record.logLevel)
    (hle : lg.logLevel ≤ record.logLevel) :
    lmkLogImpl r (some lg.addr) record
      = some (lg.handlerRefList.filter fun a => r.Accepts record.logLevel a, lmkEOk) := by
  unfold lmkLogImpl
  simp only [Option.bind_some, ha.logger?_of_mem hl, hi]
  rw [if_neg (by decide), if_neg (not_not.mpr hv), if_pos hle, foldlM_offerTo (hr.live lg hl) ha]
  rfl

/-- 生きている logger への呼び出しは必ず戻り、届く handler に付けた順に record を渡す。 -/
theorem DispatchInv.lmkLogCommon (hs : DispatchInv s) (hlive : s.registry.LoggerLive call.logger)
    (buf : Nat → UInt8) : ∃ buf' record,
      lmkLogCommon s.registry buf call
        = some (buf', (s.targets call).map fun a => (a, record)) ∧
      record.payload = call.payload := by
  unfold Logmoko.lmkLogCommon
  cases hlogger : call.logger with
  | none =>
    refine ⟨buf, _, ?_, payload_record buf call⟩
    simp [DispatchState.targets, hlogger]
  | some g =>
    obtain ⟨lg, hl, rfl⟩ := List.mem_map.mp (hlive g hlogger)
    have hfind := hs.addr.logger?_of_mem hl
    have htargets : s.targets call = (attachedTo s.attachments lg.addr).filter fun a =>
        s.Qualifies call a := by
      simp [DispatchState.targets, hlogger]
    have hqualifies : ∀ a ∈ attachedTo s.attachments lg.addr, s.Qualifies call a ↔
        lg.logLevel ≤ call.fn.level ∧ s.registry.Accepts call.fn.level a := by
      intro a hmem
      simp [DispatchState.Qualifies, Registry.Accepts, hlogger, hfind, mem_attachedTo.mp hmem]
    simp only [Option.bind_some, hfind]
    split
    · next hle =>
      refine ⟨Buffer.overlay buf 0 (vsnprintf logMsgMaxSize call.text).written, _, ?_,
        payload_record buf call⟩
      have himpl := lmkLogImpl_of_enabled
        (call.record (Buffer.overlay buf 0 (vsnprintf logMsgMaxSize call.text).written)
          (vsnprintf logMsgMaxSize call.text).ret)
        hs.addr hs.refs hl (hs.loggers lg hl) call.fn.validLogLevel hle
      rw [himpl, htargets, hs.attach.refs_of_mem hl]
      have hfilter : (attachedTo s.attachments lg.addr).filter
            (fun a => s.registry.Accepts call.fn.level a)
          = (attachedTo s.attachments lg.addr).filter fun a => s.Qualifies call a := by
        refine List.filter_congr ?_
        intro a hmem
        exact decide_eq_decide.mpr ((hqualifies a hmem).trans (and_iff_right hle)).symm
      rw [← hfilter]
      rfl
    · next hgt =>
      refine ⟨buf, _, ?_, payload_record buf call⟩
      have hnone : s.targets call = [] := by
        rw [htargets, List.filter_eq_nil_iff]
        intro a hmem
        simpa using fun h => hgt ((hqualifies a hmem).mp h).1
      rw [hnone]
      rfl

theorem targets_nodup (hs : DispatchInv s) (call : LogCall) : (s.targets call).Nodup := by
  refine List.Nodup.filter _ ?_
  cases call.logger with
  | none => exact List.nodup_nil
  | some g => exact attachedTo_nodup hs.attach.nodup

theorem mem_targets : a ∈ s.targets call ↔ s.Qualifies call a := by
  unfold DispatchState.targets
  rw [List.mem_filter, decide_eq_true_iff, and_iff_right_iff_imp]
  rintro ⟨g, hg, hmem, -⟩
  rw [Option.mem_def.mp hg]
  exact mem_attachedTo.mpr hmem

/-! ## 一 step -/

theorem loggersReady_edit {N : CStr → Prop} (h : r.LoggersReady) (he : Edit N r r') :
    r'.LoggersReady := by
  have hmodify : ∀ {b : Nat} {f : Logger → Logger}, (∀ l, (f l).initialized = l.initialized) →
      (r.setLogger b f).LoggersReady := by
    intro b f hf l hl
    rcases Keyed.mem_modify.mp hl with ⟨x, hx, -, rfl⟩ | ⟨hx, -⟩
    · exact (hf x).trans (h x hx)
    · exact h l hx
  cases he with
  | start => exact fun _ hl => nomatch hl
  | addLogger =>
    intro l hl
    rcases List.mem_append.mp hl with hl | hl
    · exact h l hl
    · obtain rfl := List.mem_singleton.mp hl
      rfl
  | setLevel hv => exact hmodify fun _ => rfl
  | attach => exact hmodify fun _ => rfl
  | detach => exact hmodify fun _ => rfl
  | setConfig | addHandler | setHandler => exact h

theorem loggersReady_drop (h : r.LoggersReady) (hd : Drop r r') : r'.LoggersReady := by
  cases hd with
  | logger => exact fun l hl => h l (List.mem_of_mem_filter hl)
  | handler => exact h

/-- `lmk_destroy` のほかの操作は、初期化された registry を初期化されたままにする。 -/
theorem initialized_runOp {op : RegistryOp} (ha : AddrInv r) (hsingle : op.Single)
    (hi : r.initialized = true) (h : runOp env none r op = some r') : r'.initialized = true := by
  refine runOp_invariant (I := fun r => r.initialized = true) (N := fun _ => True) ha
    (fun _ _ => trivial) op.names_true ?_ (fun _ _ hi he => he.initialized hi) ?_ hi h
  · rintro rfl
    exact hsingle.elim
  · intro r r' hi hd
    cases hd <;> exact hi

theorem dispatchStep_op {op : RegistryOp} (h : dispatchStep env s (.op op) = some s') :
    op.Single ∧ ArgsLive s.registry op ∧ ∃ r, runOp env none s.registry op = some r ∧
      s' = { s with registry := r, attachments := updateAttachments s.attachments op } := by
  obtain ⟨hsingle, h⟩ := Option.ite_none_right_eq_some.mp h
  obtain ⟨r, hr, rfl⟩ := Option.map_eq_some_iff.mp h
  obtain ⟨hargs, hop⟩ := registryStep_eq_some hr
  exact ⟨hsingle, hargs, r, hop, rfl⟩

/-- log の呼び出しは、控えと整形の buffer のほかを変えない。 -/
theorem DispatchInv.log (hs : DispatchInv s) (env : Env)
    (hlive : s.registry.LoggerLive call.logger) (accepts : Nat → Bool) : ∃ buf record,
      dispatchStep env s (.log call accepts) = some { s with
        tlsLogBuf := buf
        offers := s.offers ++ (s.targets call).map fun a => (a, record)
        received := s.received ++
          ((s.targets call).map fun a => (a, record)).filter fun o => accepts o.1 } ∧
      record.payload = call.payload := by
  obtain ⟨buf, record, hlog, hpayload⟩ := hs.lmkLogCommon hlive s.tlsLogBuf
  refine ⟨buf, record, ?_, hpayload⟩
  rw [dispatchStep, if_pos hlive, lmkInit_of_initialized hs.initialized, Option.bind_some, hlog]
  rfl

theorem dispatchStep_log (hs : DispatchInv s) {accepts : Nat → Bool}
    (h : dispatchStep env s (.log call accepts) = some s') : ∃ buf record,
      s' = { s with
        tlsLogBuf := buf
        offers := s.offers ++ (s.targets call).map fun a => (a, record)
        received := s.received ++
          ((s.targets call).map fun a => (a, record)).filter fun o => accepts o.1 } ∧
      record.payload = call.payload := by
  have hlive : s.registry.LoggerLive call.logger := (Option.ite_none_right_eq_some.mp h).1
  obtain ⟨buf, record, hstep, hpayload⟩ := hs.log env hlive accepts
  exact ⟨buf, record, Option.some.inj (h.symm.trans hstep), hpayload⟩

theorem DispatchInv.step (hs : DispatchInv s) (hfit : s.LoggersFit)
    (h : dispatchStep env s act = some s') : DispatchInv s' := by
  cases act with
  | op op =>
    obtain ⟨hsingle, hargs, r, hop, rfl⟩ := dispatchStep_op h
    refine ⟨addrInv_runOp hs.addr hop, refInv_runOp hs.addr hs.refs hfit hargs hop,
      initialized_runOp hs.addr hsingle hs.initialized hop, ?_,
      attachInv_runOp hs.addr hs.refs hs.initialized hsingle hargs hop hs.attach⟩
    refine runOp_invariant (I := Registry.LoggersReady) (N := fun _ => True) hs.addr
      (fun _ _ => trivial) op.names_true (fun _ _ hl => nomatch hl)
      (fun _ _ => loggersReady_edit) (fun _ _ => loggersReady_drop) hs.loggers hop
  | log call accepts =>
    obtain ⟨buf, record, rfl, -⟩ := dispatchStep_log hs h
    exact ⟨hs.addr, hs.refs, hs.initialized, hs.loggers, hs.attach⟩

/-- 一回の呼び出しで handler `a` に渡る record は、届くときに限り一つである。 -/
theorem offers_filter (hs : DispatchInv s) (call : LogCall) (record : LogRecord) (a : Nat) :
    ((s.targets call).map fun b => (b, record)).filter (fun o => o.1 = a)
      = if s.Qualifies call a then [(a, record)] else [] := by
  rw [List.filter_map]
  split
  · next hq =>
    have hfilter : (s.targets call).filter ((fun o : Nat × LogRecord => decide (o.1 = a)) ∘
        fun b => (b, record)) = [a] := by
      have hnodup : ((s.targets call).map id).Nodup := by
        rw [List.map_id]
        exact targets_nodup hs call
      refine Keyed.filter_eq_singleton hnodup (mem_targets.mpr hq) ?_
      intro b _
      simp
    rw [hfilter]
    rfl
  · next hq =>
    rw [List.map_eq_nil_iff, List.filter_eq_nil_iff]
    intro b hb he
    obtain rfl : b = a := of_decide_eq_true he
    exact hq (mem_targets.mp hb)

/-- そのうち受け取られるのは、`a` が受け取るときの一つである。 -/
theorem received_filter (hs : DispatchInv s) (call : LogCall) (record : LogRecord) (a : Nat)
    (accepts : Nat → Bool) :
    (((s.targets call).map fun b => (b, record)).filter fun o => accepts o.1).filter
        (fun o => o.1 = a)
      = if s.Qualifies call a ∧ accepts a = true then [(a, record)] else [] := by
  rw [List.filter_comm (fun o : Nat × LogRecord => decide (o.1 = a)) fun o => accepts o.1,
    offers_filter hs]
  by_cases hq : s.Qualifies call a
  · cases ha : accepts a with
    | true => simp [hq, ha]
    | false => simp [hq, ha]
  · simp [hq]

end Logmoko
