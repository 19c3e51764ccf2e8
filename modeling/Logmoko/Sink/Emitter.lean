import Logmoko.Sink.Lines

/-!
# slot ごとに出力する consumer

console と syslog の consumer は、slot を取り出すたびに、いくつかの項目を順に外へ出す。
console の項目は `fputs` の引数で、syslog の項目は `syslog` の引数である。出力先は process に
一つなので、いくつもの handler の項目が混ざる。

`Emitter` は一件の準備を表す。`EmitterHandler` は受け渡しの側と並べて動かしたもので、
`EmitterState` は出力先を共有する handler の全体である。

* `EmitterInv` — 一つの handler が出した項目は、claim の順に並んだ record の項目である
* `StreamLog` — 出力先の列から一つの handler のものを抜き出すと、その handler が出した列になる
* `FlushInv` — `fflush` を過ぎた consumer の項目は、みな flush されている
-/

namespace Logmoko

open Transition

/-! ## 一件の準備 -/

/--
一件の準備。`prepare` は準備した後の環境と、順に出す項目を返す。`none` は、配列の外を読むことに
あたる。`configure` は別の thread からの設定である。
-/
structure Emitter (τ β γ : Type) where
  prepare : τ → Int → LogRequest → Option (τ × List β)
  configure : γ → τ → τ

/-- consumer の位置。`emit` は、まだ出していない項目を持つ。 -/
inductive EmitPc (β : Type) where
  | peek
  | prepare (now : Int) (req : LogRequest)
  | emit (rest : List β)

/-- 準備した一件の控え。`env` は準備の前の環境である。 -/
structure Prepared (τ β : Type) where
  env : τ
  now : Int
  req : LogRequest
  items : List β

variable {κ ι τ β γ : Type}

/-! ## 一つの handler -/

/-- handler の状態。`prepared` と `emitted` は控えである。 -/
structure EmitterHandler (ι τ β : Type) where
  handler : HandlerState ι
  pc : EmitPc β
  env : τ
  prepared : List (Prepared τ β)
  emitted : List β

/-- handler の動作。 -/
inductive EmitterAction (ι γ : Type) where
  | logImpl (p : ι) (record : LogRecord)
  | producer (p : ι) (casFails : Bool)
  | thread (now : Int)
  | spuriousWakeup
  | destroy
  | configure (c : γ)

/-- `init` を終えて thread を起こした直後の状態。 -/
def emitterInitial (ι : Type) (β : Type) (type : HandlerType) (name : CStr) (k : Nat) (env : τ) :
    EmitterHandler ι τ β :=
  { handler := handlerInitial ι type name k, pc := .peek, env, prepared := [], emitted := [] }

/-- 受け渡しの側から見た動作。項目を出し終えるまで、slot の処理は終わらない。 -/
def EmitterHandler.handlerActs (s : EmitterHandler ι τ β) :
    EmitterAction ι γ → List (HandlerAction ι)
  | .logImpl p record => [.logImpl p record]
  | .producer p casFails => [.producer p casFails]
  | .thread _ =>
    match s.handler.thread, s.pc with
    | .process, .peek | .process, .prepare _ _ | .process, .emit (_ :: _) => []
    | _, _ => [.thread]
  | .spuriousWakeup => [.spuriousWakeup]
  | .destroy => [.destroy]
  | .configure _ => []

/-- 一 step で外へ出す項目。 -/
def EmitterHandler.emits (s : EmitterHandler ι τ β) : EmitterAction ι γ → List β
  | .thread _ =>
    match s.handler.thread, s.pc with
    | .process, .emit (x :: _) => [x]
    | _, _ => []
  | .logImpl _ _ | .producer _ _ | .spuriousWakeup | .destroy | .configure _ => []

/-- 出力の側の一 step。 -/
def EmitterHandler.output (E : Emitter τ β γ) (A : CursorArith) (s : EmitterHandler ι τ β) :
    EmitterAction ι γ → Option (EmitterHandler ι τ β)
  | .thread now =>
    match s.handler.thread with
    | .drainPeek => some { s with
        pc := if (lmkRingPeekSlot A s.handler.mem.ring).isSome then
            .prepare now (s.handler.mem.ring.slotAt s.handler.mem.ring.tail).req
          else s.pc }
    | .process =>
      match s.pc with
      | .prepare now req => (E.prepare s.env now req).map fun r =>
        { s with
          pc := .emit r.2, env := r.1
          prepared := s.prepared ++ [{ env := s.env, now, req, items := r.2 }] }
      | .emit (x :: rest) => some { s with pc := .emit rest, emitted := s.emitted ++ [x] }
      | .emit [] => some s
      | .peek => none
    | .consumeTail => some { s with pc := .peek }
    | _ => some s
  | .configure c => some { s with env := E.configure c s.env }
  | .logImpl _ _ | .producer _ _ | .spuriousWakeup | .destroy => some s

section

variable [DecidableEq ι]

/-- handler の一 step。 -/
def emitterHandlerStep (E : Emitter τ β γ) (A : CursorArith) (s : EmitterHandler ι τ β)
    (a : EmitterAction ι γ) : Option (EmitterHandler ι τ β) :=
  (run (handlerStep A) s.handler (s.handlerActs a)).bind fun handler =>
    (s.output E A a).map fun s' => { s' with handler }

/-! ## 出力先 -/

/-- 出力先を共有する handler の全体。`log` は出した順の列、`flushed` は flush された個数である。 -/
structure EmitterState (κ ι τ β : Type) where
  handlers : κ → EmitterHandler ι τ β
  log : List (κ × β)
  flushed : Nat

/-- handler の動作と、出力先が自分から flush すること。 -/
inductive EmitterStateAction (κ ι γ : Type) where
  | on (h : κ) (a : EmitterAction ι γ)
  | spill

/-- `fflush` の step か。 -/
def EmitterHandler.flushes (s : EmitterHandler ι τ β) : EmitterAction ι γ → Bool
  | .thread _ =>
    match s.handler.thread with
    | .flush => true
    | _ => false
  | .logImpl _ _ | .producer _ _ | .spuriousWakeup | .destroy | .configure _ => false

variable [DecidableEq κ]

/-- 全体の一 step。 -/
def emitterStep (E : Emitter τ β γ) (A : CursorArith) (s : EmitterState κ ι τ β) :
    EmitterStateAction κ ι γ → Option (EmitterState κ ι τ β)
  | .on h a => (emitterHandlerStep E A (s.handlers h) a).map fun x =>
    { handlers := Function.update s.handlers h x
      log := s.log ++ ((s.handlers h).emits a).map fun item => (h, item)
      flushed := if (s.handlers h).flushes a then s.log.length else s.flushed }
  | .spill => some { s with flushed := s.log.length }

/-- 動作列のうち、handler `h` のもの。 -/
def actionsOn (h : κ) (as : List (EmitterStateAction κ ι γ)) : List (EmitterAction ι γ) :=
  as.filterMap fun
    | .on h' a => if h' = h then some a else none
    | .spill => none

end

/-! ## 一つの handler の不変量 -/

/-- まだ出していない項目。 -/
def EmitPc.rest : EmitPc β → List β
  | .emit rest => rest
  | _ => []

/-- 準備を待っている request。 -/
def EmitPc.pending : EmitPc β → List LogRequest
  | .prepare _ req => [req]
  | _ => []

/-- 二つの側は同じ所にいる。 -/
def EmitSynced (pc : EmitPc β) : ThreadPc → Prop
  | .process => pc ≠ .peek
  | .consumeStore _ | .consumeTail => pc = .emit []
  | .drainPeek | .flush | .loadRunning | .lock | .storeSleeping | .rePeek | .reloadRunning
  | .condWait | .parked | .woken | .clearSleeping | .unlock | .finalFlush | .exited => pc = .peek

theorem EmitSynced.signal {pc : EmitPc β} {t : ThreadPc} (h : EmitSynced pc t) :
    EmitSynced pc t.signal := by
  cases t <;> exact h

/--
準備した record は取り出した順に並び、出した項目は、準備した項目を順に並べたものから、
まだの分を除いたものである。
-/
structure EmitterInv (E : Emitter τ β γ) (s : EmitterHandler ι τ β) : Prop where
  ring : RingInv s.handler.toRing
  synced : EmitSynced s.pc s.handler.thread
  delivered : Delivered (s.prepared.map Prepared.req ++ s.pc.pending) s.handler
  prepared : ∀ r ∈ s.prepared, ∃ env, E.prepare r.env r.now r.req = some (env, r.items)
  emitted : s.emitted ++ s.pc.rest = s.prepared.flatMap Prepared.items

variable [DecidableEq ι] {E : Emitter τ β γ} {s s' : EmitterHandler ι τ β} {a : EmitterAction ι γ}

theorem emitterHandlerStep_eq_some :
    emitterHandlerStep E .unbounded s a = some s' ↔
      run (handlerStep .unbounded) s.handler (s.handlerActs a) = some s'.handler ∧
        ∃ t, s.output E .unbounded a = some t ∧ s' = { t with handler := s'.handler } := by
  unfold emitterHandlerStep
  simp only [Option.bind_eq_some_iff, Option.map_eq_some_iff]
  constructor
  · rintro ⟨handler, hh, t, ht, rfl⟩
    exact ⟨hh, t, ht, rfl⟩
  · rintro ⟨hh, t, ht, heq⟩
    exact ⟨_, hh, t, ht, heq.symm⟩

/-! ## 場合分け -/

/-- handler の一 step が何をしうるか。`idle` は出力の側に関わらない consumer の step である。 -/
inductive EmitterMove (E : Emitter τ β γ) (s : EmitterHandler ι τ β) :
    EmitterAction ι γ → EmitterHandler ι τ β → Prop where
  | call {a b h'} (ha : s.handlerActs a = [b]) (hb : b ≠ .thread) (hemits : s.emits a = [])
      (hflushes : s.flushes a = false) (hs : handlerStep .unbounded s.handler b = some h') :
    EmitterMove E s a { s with handler := h' }
  | slot {now h'} (ht : s.handler.thread = .drainPeek) (hr : s.handler.mem.ring.TailReady)
      (hs : handlerStep .unbounded s.handler .thread = some h') :
    EmitterMove E s (.thread now)
      { s with
        handler := h'
        pc := .prepare now (s.handler.mem.ring.slotAt s.handler.mem.ring.tail).req }
  | prepare {now now' req env items} (ht : s.handler.thread = .process)
      (hpc : s.pc = .prepare now' req) (hp : E.prepare s.env now' req = some (env, items)) :
    EmitterMove E s (.thread now)
      { s with
        pc := .emit items, env
        prepared := s.prepared ++ [{ env := s.env, now := now', req, items }] }
  | emit {now x rest} (ht : s.handler.thread = .process) (hpc : s.pc = .emit (x :: rest)) :
    EmitterMove E s (.thread now) { s with pc := .emit rest, emitted := s.emitted ++ [x] }
  | consumeTail {now h'} (ht : s.handler.thread = .consumeTail)
      (hs : handlerStep .unbounded s.handler .thread = some h') :
    EmitterMove E s (.thread now) { s with handler := h', pc := .peek }
  | idle {now h'} (hdrain : s.handler.thread = .drainPeek → ¬ s.handler.mem.ring.TailReady)
      (hprocess : s.handler.thread = .process → s.pc = .emit [])
      (hconsume : s.handler.thread ≠ .consumeTail)
      (hs : handlerStep .unbounded s.handler .thread = some h') :
    EmitterMove E s (.thread now) { s with handler := h' }
  | configure {c} : EmitterMove E s (.configure c) { s with env := E.configure c s.env }

/-- 一 step の場合分け。 -/
theorem emitterHandlerStep_move (hs : emitterHandlerStep E .unbounded s a = some s') :
    EmitterMove E s a s' := by
  obtain ⟨hh, t, ht, heq⟩ := emitterHandlerStep_eq_some.mp hs
  generalize s'.handler = h' at hh heq
  subst heq
  cases a with
  | logImpl | producer | spuriousWakeup | destroy =>
    obtain rfl := Option.some.inj ht
    exact .call rfl (by simp) rfl rfl (run_singleton.symm.trans hh)
  | configure c =>
    obtain rfl := Option.some.inj ht
    obtain rfl := Option.some.inj hh
    exact .configure
  | thread now =>
    cases hthread : s.handler.thread with
    | drainPeek =>
      simp only [EmitterHandler.handlerActs, EmitterHandler.output, hthread, run_singleton]
        at hh ht
      obtain rfl := Option.some.inj ht
      by_cases hr : s.handler.mem.ring.TailReady
      · rw [if_pos ((peek_isSome_iff _).mpr hr)]
        exact .slot hthread hr hh
      · rw [if_neg fun hp => hr ((peek_isSome_iff _).mp hp)]
        exact .idle (fun _ => hr) (by simp [hthread]) (by simp [hthread]) hh
    | process =>
      cases hpc : s.pc with
      | peek => simp [EmitterHandler.output, hthread, hpc] at ht
      | prepare now' req =>
        simp only [EmitterHandler.handlerActs, EmitterHandler.output, hthread, hpc] at hh ht
        obtain ⟨⟨env, items⟩, hp, rfl⟩ := Option.map_eq_some_iff.mp ht
        obtain rfl := Option.some.inj hh
        exact .prepare hthread hpc hp
      | emit rest =>
        cases rest with
        | nil =>
          simp only [EmitterHandler.handlerActs, EmitterHandler.output, hthread, hpc,
            run_singleton] at hh ht
          obtain rfl := Option.some.inj ht
          exact .idle (by simp [hthread]) (fun _ => hpc) (by simp [hthread]) hh
        | cons x rest =>
          simp only [EmitterHandler.handlerActs, EmitterHandler.output, hthread, hpc] at hh ht
          obtain rfl := Option.some.inj ht
          obtain rfl := Option.some.inj hh
          exact .emit hthread hpc
    | consumeTail =>
      simp only [EmitterHandler.handlerActs, EmitterHandler.output, hthread, run_singleton]
        at hh ht
      obtain rfl := Option.some.inj ht
      exact .consumeTail hthread hh
    | consumeStore | flush | loadRunning | lock | storeSleeping | rePeek | reloadRunning
    | condWait | parked | woken | clearSleeping | unlock | finalFlush | exited =>
      simp only [EmitterHandler.handlerActs, EmitterHandler.output, hthread, run_singleton]
        at hh ht
      obtain rfl := Option.some.inj ht
      exact .idle (by simp [hthread]) (by simp [hthread]) (by simp [hthread]) hh

/-- 出力の側に関わらない consumer の step は、二つの側を同じ所に進める。 -/
theorem emitSynced_idle {h h' : HandlerState ι} {pc : EmitPc β} (hsync : EmitSynced pc h.thread)
    (hdrain : h.thread = .drainPeek → ¬ h.mem.ring.TailReady)
    (hprocess : h.thread = .process → pc = .emit []) (hconsume : h.thread ≠ .consumeTail)
    (hs : handlerStep .unbounded h .thread = some h') : EmitSynced pc h'.thread := by
  cases handlerStep_move hs with
  | drainReady ht hr => exact absurd hr (hdrain ht)
  | drainEmpty ht =>
    rw [ht] at hsync
    show EmitSynced pc (ThreadPc.afterDrain h.type)
    cases h.type <;> exact hsync
  | process ht => exact hprocess ht
  | consumeTail ht => exact absurd ht hconsume
  | loadStopped ht =>
    rw [ht] at hsync
    show EmitSynced pc (ThreadPc.afterStop h.type)
    cases h.type <;> exact hsync
  | consumeStore ht | flush ht | loadRunning ht | lock ht | storeSleeping ht | rePeekReady ht
  | rePeekEmpty ht | reloadRunning ht | reloadStopped ht | condWait ht | woken ht
  | clearSleeping ht | unlock ht | finalFlush ht =>
    rw [ht] at hsync
    exact hsync

omit [DecidableEq ι] in
/-- 取り出すのは、slot の返る peek だけである。 -/
theorem takenBy_eq_nil {h : HandlerState ι} {b : HandlerAction ι}
    (hb : b = .thread → h.thread = .drainPeek → ¬ h.mem.ring.TailReady) : takenBy h b = [] := by
  cases b with
  | thread =>
    cases ht : h.thread with
    | drainPeek => simp [takenBy, ht, hb rfl ht]
    | _ => simp [takenBy, ht]
  | _ => rfl

/-- 何も取り出さない step は、まだの項目を変えない限り、不変量を保つ。 -/
theorem EmitterInv.frame (h : EmitterInv E s) {b : HandlerAction ι} {h' : HandlerState ι}
    {pc : EmitPc β} (hstep : handlerStep .unbounded s.handler b = some h')
    (hb : b = .thread → s.handler.thread = .drainPeek → ¬ s.handler.mem.ring.TailReady)
    (hrest : pc.rest = s.pc.rest) (hpending : pc.pending = s.pc.pending)
    (hsync : EmitSynced pc h'.thread) : EmitterInv E { s with handler := h', pc } := by
  have hd := h.delivered.step h.ring hstep
  have hemitted := h.emitted
  rw [takenBy_eq_nil hb, List.append_nil, ← hpending] at hd
  rw [← hrest] at hemitted
  exact ⟨ringInv_handlerStep h.ring hstep, hsync, hd, h.prepared, hemitted⟩

theorem EmitterInv.step (h : EmitterInv E s) (hs : emitterHandlerStep E .unbounded s a = some s') :
    EmitterInv E s' := by
  cases emitterHandlerStep_move hs with
  | @call a b h' ha hb _ _ hstep =>
    refine h.frame hstep (fun hthread => absurd hthread hb) rfl rfl ?_
    rcases (handlerStep_move hstep).thread_other hb with ht | ht
    · rw [ht]
      exact h.synced
    · rw [ht]
      exact h.synced.signal
  | slot ht hr hstep =>
    have hsync := h.synced
    rw [ht] at hsync
    have hpc : s.pc = .peek := hsync
    have hd := h.delivered.step h.ring hstep
    have hemitted := h.emitted
    rw [hpc] at hd hemitted
    refine ⟨ringInv_handlerStep h.ring hstep, ?_, ?_, h.prepared, hemitted⟩
    · cases handlerStep_move hstep <;> simp_all [EmitSynced]
    · simpa [takenBy, ht, hr, EmitPc.pending] using hd
  | prepare ht hpc hp =>
    have hd := h.delivered
    have hemitted := h.emitted
    rw [hpc] at hd hemitted
    refine ⟨h.ring, ?_, ?_, ?_, ?_⟩
    · rw [ht]
      simp [EmitSynced]
    · simpa [EmitPc.pending] using hd
    · intro r hr
      rcases List.mem_append.mp hr with hr | hr
      · exact h.prepared r hr
      · obtain rfl := List.mem_singleton.mp hr
        exact ⟨_, hp⟩
    · simp only [EmitPc.rest, List.append_nil] at hemitted
      simp [EmitPc.rest, hemitted]
  | emit ht hpc =>
    have hd := h.delivered
    have hemitted := h.emitted
    rw [hpc] at hd hemitted
    refine ⟨h.ring, ?_, hd, h.prepared, ?_⟩
    · rw [ht]
      simp [EmitSynced]
    · simpa [EmitPc.rest] using hemitted
  | consumeTail ht hstep =>
    have hsync := h.synced
    rw [ht] at hsync
    have hpc : s.pc = .emit [] := hsync
    refine h.frame hstep (by simp [ht]) (by rw [hpc]; rfl) (by rw [hpc]; rfl) ?_
    cases handlerStep_move hstep <;> simp_all [EmitSynced]
  | idle hdrain hprocess hconsume hstep =>
    exact h.frame hstep (fun _ => hdrain) rfl rfl
      (emitSynced_idle h.synced hdrain hprocess hconsume hstep)
  | configure => exact ⟨h.ring, h.synced, h.delivered, h.prepared, h.emitted⟩

/-- 出した項目は、その step の分だけ増える。 -/
theorem EmitterMove.emitted_eq (h : EmitterMove E s a s') :
    s'.emitted = s.emitted ++ s.emits a := by
  cases h with
  | call _ _ hemits =>
    rw [hemits]
    exact (List.append_nil _).symm
  | slot ht => simp [EmitterHandler.emits, ht]
  | prepare ht hpc => simp [EmitterHandler.emits, ht, hpc]
  | emit ht hpc => simp [EmitterHandler.emits, ht, hpc]
  | consumeTail ht => simp [EmitterHandler.emits, ht]
  | idle _ hprocess =>
    cases ht : s.handler.thread with
    | process => simp [EmitterHandler.emits, ht, hprocess ht]
    | _ => simp [EmitterHandler.emits, ht]
  | configure => exact (List.append_nil _).symm

/-! ## 出力先 -/

variable [DecidableEq κ] {t u : EmitterState κ ι τ β} {as : List (EmitterStateAction κ ι γ)}

/-- 全体の実行は、どの handler から見ても、その handler の実行である。 -/
theorem handlers_run (h : κ) (hrun : run (emitterStep E .unbounded) t as = some u) :
    run (emitterHandlerStep E .unbounded) (t.handlers h) (actionsOn h as)
      = some (u.handlers h) := by
  induction as generalizing t with
  | nil =>
    obtain rfl : t = u := Option.some.inj hrun
    rfl
  | cons a as ih =>
    obtain ⟨v, hv, hrun⟩ := run_cons_eq_some.mp hrun
    have hrest := ih hrun
    cases a with
    | spill =>
      rw [← Option.some.inj hv] at hrest
      exact hrest
    | on h' a =>
      obtain ⟨x, hx, rfl⟩ := Option.map_eq_some_iff.mp hv
      by_cases hh : h' = h
      · subst hh
        dsimp only at hrest
        rw [Function.update_self] at hrest
        have hcons : actionsOn h' (.on h' a :: as) = a :: actionsOn h' as := by
          simp [actionsOn]
        rw [hcons]
        exact run_cons_eq_some.mpr ⟨x, hx, hrest⟩
      · dsimp only at hrest
        rw [Function.update_of_ne (Ne.symm hh)] at hrest
        have hcons : actionsOn h (.on h' a :: as) = actionsOn h as := by
          simp [actionsOn, hh]
        rw [hcons]
        exact hrest

omit [DecidableEq ι] in
/-- handler `h` の出した項目。 -/
def EmitterState.own (s : EmitterState κ ι τ β) (h : κ) : List β :=
  (s.log.filter fun x => x.1 = h).map Prod.snd

theorem filter_tagged (h h' : κ) (items : List β) :
    ((items.map fun item => (h', item)).filter fun x => x.1 = h) =
      if h' = h then items.map fun item => (h', item) else [] := by
  rw [List.filter_map]
  split
  · next hh =>
    subst hh
    simp [Function.comp_def]
  · next hh => simp [Function.comp_def, hh]

/-- 出力先の列から handler の項目を抜き出すと、その handler が出した列になる。 -/
def StreamLog (s : EmitterState κ ι τ β) : Prop := ∀ h, s.own h = (s.handlers h).emitted

theorem StreamLog.step {b : EmitterStateAction κ ι γ} (hlog : StreamLog t)
    (hs : emitterStep E .unbounded t b = some u) : StreamLog u := by
  intro h
  have hold := hlog h
  cases b with
  | spill =>
    rw [← Option.some.inj hs]
    exact hold
  | on h' a =>
    obtain ⟨x, hx, rfl⟩ := Option.map_eq_some_iff.mp hs
    unfold EmitterState.own at hold ⊢
    dsimp only
    rw [List.filter_append, List.map_append, hold, filter_tagged]
    by_cases hh : h' = h
    · subst hh
      rw [if_pos rfl, Function.update_self, (emitterHandlerStep_move hx).emitted_eq]
      simp
    · rw [if_neg hh, Function.update_of_ne (Ne.symm hh), List.map_nil, List.append_nil]

/-! ## flush -/

/-- `fflush` を過ぎ、次の slot をまだ探していない位置。 -/
def ThreadPc.pastFlush : ThreadPc → Bool
  | .loadRunning | .lock | .storeSleeping | .rePeek | .reloadRunning | .condWait | .parked | .woken
  | .clearSleeping | .unlock | .finalFlush | .exited => true
  | .drainPeek | .process | .consumeStore _ | .consumeTail | .flush => false

/-- `fflush` を過ぎた位置には、そこからか `fflush` の step でしか入らない。 -/
theorem pastFlush_back {h h' : HandlerState ι} {b : HandlerAction ι}
    (hs : handlerStep .unbounded h b = some h') (htype : h.type = .console)
    (hpast : h'.thread.pastFlush = true) :
    h.thread.pastFlush = true ∨ b = .thread ∧ h.thread = .flush := by
  by_cases hb : b = .thread
  · subst hb
    cases handlerStep_move hs with
    | flush ht => exact Or.inr ⟨rfl, ht⟩
    | drainEmpty ht =>
      have hpast' : (ThreadPc.afterDrain h.type).pastFlush = true := hpast
      rw [htype] at hpast'
      cases hpast'
    | drainReady | process | consumeStore | consumeTail =>
      cases hpast
    | loadRunning ht | loadStopped ht | lock ht | storeSleeping ht | rePeekReady ht
    | rePeekEmpty ht | reloadRunning ht | reloadStopped ht | condWait ht | woken ht
    | clearSleeping ht | unlock ht | finalFlush ht =>
      left
      rw [ht]
      rfl
  · left
    rcases (handlerStep_move hs).thread_other hb with ht | ht
    · rwa [ht] at hpast
    · rw [ht] at hpast
      cases hth : h.thread <;> rw [hth] at hpast <;> exact hpast

/-- `fflush` を過ぎた consumer の項目は、みな flush されている。 -/
structure FlushInv (s : EmitterState κ ι τ β) : Prop where
  type : ∀ h, (s.handlers h).handler.type = .console
  le : s.flushed ≤ s.log.length
  settled : ∀ h, (s.handlers h).handler.thread.pastFlush = true →
    ((s.log.drop s.flushed).filter fun x => x.1 = h) = []

/-- `fflush` の step でなければ、過ぎた後に入ることも、過ぎた後に出すこともない。 -/
theorem EmitterMove.pastFlush (h : EmitterMove E s a s') (htype : s.handler.type = .console)
    (hflushes : s.flushes a = false) (hpast : s'.handler.thread.pastFlush = true) :
    s.handler.thread.pastFlush = true ∧ s.emits a = [] := by
  have hflush : ∀ now, a = .thread now → s.handler.thread ≠ .flush := by
    rintro now rfl ht
    simp [EmitterHandler.flushes, ht] at hflushes
  have hquiet : ∀ now, a = .thread now → s.handler.thread.pastFlush = true → s.emits a = [] := by
    rintro now rfl hp
    cases ht : s.handler.thread <;> simp_all [EmitterHandler.emits, ThreadPc.pastFlush]
  cases h with
  | call _ hb hemits _ hs =>
    exact ⟨(pastFlush_back hs htype hpast).resolve_right fun h => hb h.1, hemits⟩
  | slot _ _ hs | consumeTail _ hs | idle _ _ _ hs =>
    have hp := (pastFlush_back hs htype hpast).resolve_right fun h => hflush _ rfl h.2
    exact ⟨hp, hquiet _ rfl hp⟩
  | prepare | emit => exact ⟨hpast, hquiet _ rfl hpast⟩
  | configure => exact ⟨hpast, rfl⟩

theorem EmitterMove.type_eq (h : EmitterMove E s a s') : s'.handler.type = s.handler.type := by
  cases h with
  | call _ _ _ _ hs | slot _ _ hs | consumeTail _ hs | idle _ _ _ hs =>
    exact (handlerStep_move hs).type_eq
  | prepare | emit | configure => rfl

omit [DecidableEq ι] in
/-- `fflush` の step は、何も出さない。 -/
theorem emits_of_flushes (h : s.flushes a = true) : s.emits a = [] := by
  cases a with
  | thread now =>
    cases ht : s.handler.thread <;> simp_all [EmitterHandler.emits, EmitterHandler.flushes]
  | logImpl | producer | spuriousWakeup | destroy | configure => rfl

theorem FlushInv.step {b : EmitterStateAction κ ι γ} (hinv : FlushInv t)
    (hs : emitterStep E .unbounded t b = some u) : FlushInv u := by
  cases b with
  | spill =>
    rw [← Option.some.inj hs]
    exact ⟨hinv.type, le_rfl, by simp⟩
  | on h' a =>
    obtain ⟨x, hx, rfl⟩ := Option.map_eq_some_iff.mp hs
    have hmove := emitterHandlerStep_move hx
    refine ⟨?_, ?_, ?_⟩
    · intro h
      by_cases hh : h = h'
      · subst hh
        dsimp only
        rw [Function.update_self, hmove.type_eq]
        exact hinv.type h
      · dsimp only
        rw [Function.update_of_ne hh]
        exact hinv.type h
    · dsimp only
      rw [List.length_append]
      have := hinv.le
      split <;> omega
    · intro h hpast
      dsimp only at hpast ⊢
      cases hfl : (t.handlers h').flushes a with
      | true =>
        rw [if_pos rfl, emits_of_flushes hfl]
        simp
      | false =>
        rw [if_neg Bool.false_ne_true, List.drop_append_of_le_length hinv.le, List.filter_append,
          filter_tagged]
        by_cases hh : h' = h
        · subst hh
          rw [Function.update_self] at hpast
          obtain ⟨hold, hnil⟩ := hmove.pastFlush (hinv.type h') hfl hpast
          rw [hinv.settled h' hold, hnil]
          simp
        · rw [Function.update_of_ne (Ne.symm hh)] at hpast
          rw [hinv.settled h hpast, if_neg hh, List.append_nil]

end Logmoko
