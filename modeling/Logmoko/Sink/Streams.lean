import Logmoko.Format.Text
import Logmoko.Sink.Emitter
import Logmoko.Syslog.Model

/-!
# 標準出力と syslog

`Emitter` を、console と syslog の consumer について与える。

* `console_streams` — 標準出力から一つの handler の `fputs` を抜き出すと、claim の順に、色・行・色の
  解除を繰り返したものになる。休んでいる consumer の分は、すべて flush されている
* `syslog_streams` — `syslog` の呼び出しから一つの handler のものを抜き出すと、claim の順に、その
  record の優先度と本文を並べたものになる
-/

namespace Logmoko

open Transition

variable {κ ι τ β γ : Type} [DecidableEq ι]

/-! ## 実行全体 -/

section Run

variable {E : Emitter τ β γ} {type : HandlerType} {name : CStr} {k : Nat} {env : τ}
  {s : EmitterHandler ι τ β} {as : List (EmitterAction ι γ)}

/-- handler の実行は、受け渡しの側の実行である。 -/
theorem emitter_handler_run {s₀ : EmitterHandler ι τ β}
    (h : run (emitterHandlerStep E .unbounded) s₀ as = some s) :
    run (handlerStep .unbounded) s₀.handler
      (emitted (emitterHandlerStep E .unbounded) EmitterHandler.handlerActs s₀ as)
        = some s.handler :=
  run_emitted (fun _ _ _ hs => (emitterHandlerStep_eq_some.mp hs).1) h

theorem emitterInv_run (hk : 1 ≤ k)
    (hrun : run (emitterHandlerStep E .unbounded) (emitterInitial ι β type name k env) as
      = some s) : EmitterInv E s := by
  refine Reachable.invariant (fun _ _ _ h hs => h.step hs) ?_ ⟨as, hrun⟩
  refine ⟨ringInv_initial hk, rfl, List.Forall₂.nil, ?_, rfl⟩
  simp [emitterInitial]

omit [DecidableEq ι] in
/-- 準備した record は、claim の列の先頭から一つずつ運んでいる。 -/
theorem EmitterInv.carries (h : EmitterInv E s) :
    List.Forall₂ (fun r c => Carries r.req c) s.prepared
      (s.handler.mem.hist.claims.take s.prepared.length) := by
  have hd : List.Forall₂ Carries (s.prepared.map Prepared.req ++ s.pc.pending)
    (s.handler.mem.hist.claims.take s.handler.taken) := h.delivered
  have hlen := hd.length_eq
  rw [List.length_append, List.length_map, List.length_take] at hlen
  have htake := List.forall₂_take s.prepared.length hd
  rw [List.take_left' (by simp), List.take_take, Nat.min_eq_left (by omega)] at htake
  exact List.forall₂_map_left_iff.mp htake

omit [DecidableEq ι] in
/-- 準備した項目は、運んでいる claim から決まる。 -/
theorem EmitterInv.items_eq {g : Prepared τ β → EnqueueCall → List β} (h : EmitterInv E s)
    (hg : ∀ r ∈ s.prepared, ∀ e, E.prepare r.env r.now r.req = some (e, r.items) →
      ∀ c, Carries r.req c → r.items = g r c) :
    List.Forall₂ (fun r c => r.items = g r c) s.prepared
      (s.handler.mem.hist.claims.take s.prepared.length) := by
  have hboth := (List.forall₂_and_left s.prepared _).mpr ⟨fun r hr => hr, h.carries⟩
  refine hboth.imp ?_
  rintro r c ⟨hr, hc⟩
  obtain ⟨e, he⟩ := h.prepared r hr
  exact hg r hr e he c hc

/-- 動作列 `as` の後で、handler の consumer が休んでいる。 -/
def EmitterRests (E : Emitter τ β γ) (s₀ : EmitterHandler ι τ β) (as : List (EmitterAction ι γ))
    (s : EmitterHandler ι τ β) : Prop :=
  HandlerRests s₀.handler
    (emitted (emitterHandlerStep E .unbounded) EmitterHandler.handlerActs s₀ as) s.handler

/-- 休んでいる consumer は、claim をすべて準備し、項目をすべて出している。 -/
theorem EmitterRests.complete (hk : 1 ≤ k)
    (hrun : run (emitterHandlerStep E .unbounded) (emitterInitial ι β type name k env) as
      = some s)
    (hrests : EmitterRests E (emitterInitial ι β type name k env) as s) :
    s.prepared.length = s.handler.mem.hist.claims.length ∧ s.pc.rest = [] ∧
      s.handler.thread.pastFlush = true := by
  have hinv := emitterInv_run hk hrun
  have hsync := hinv.synced
  have hlen := hinv.delivered.length_eq
  rw [hrests.taken_eq hk (emitter_handler_run hrun), List.take_length] at hlen
  rcases hrests with ⟨-, ht⟩ | ⟨ht, -⟩
  all_goals
    rw [ht] at hsync
    have hpc : s.pc = .peek := hsync
    rw [hpc] at hlen ⊢
    refine ⟨by simpa [EmitPc.pending] using hlen, rfl, by rw [ht]; rfl⟩

end Run

/-! ## 出力先を共有する handler -/

/-- どの handler も thread を起こした直後の状態。 -/
def streamsInitial (ι : Type) (β : Type) (type : HandlerType) (names : κ → CStr) (ks : κ → Nat)
    (envs : κ → τ) : EmitterState κ ι τ β :=
  { handlers := fun h => emitterInitial ι β type (names h) (ks h) (envs h)
    log := []
    flushed := 0 }

section Streams

variable [DecidableEq κ] {E : Emitter τ β γ} {type : HandlerType} {names : κ → CStr}
  {ks : κ → Nat} {envs : κ → τ} {s : EmitterState κ ι τ β}
  {as : List (EmitterStateAction κ ι γ)}

theorem streamLog_run
    (hrun : run (emitterStep E .unbounded) (streamsInitial ι β type names ks envs) as = some s) :
    StreamLog s :=
  Reachable.invariant (fun _ _ _ h hs => h.step hs) (fun _ => rfl) ⟨as, hrun⟩

theorem flushInv_run
    (hrun : run (emitterStep E .unbounded) (streamsInitial ι β .console names ks envs) as
      = some s) : FlushInv s := by
  refine Reachable.invariant (fun _ _ _ h hs => h.step hs) ?_ ⟨as, hrun⟩
  exact ⟨fun _ => rfl, le_rfl, fun _ _ => rfl⟩

end Streams

/-! ## console -/

/-- console の consumer の環境。 -/
structure ConsoleEnv where
  formatFn : Formatter
  cache : TsCache
  out : Nat → UInt8

/-- console の consumer。一件につき `fputs` を三回呼ぶ。設定は書式関数の変更である。 -/
def consoleEmitter (strftime : Int → CStr) : Emitter ConsoleEnv (List UInt8) Formatter where
  prepare e now req :=
    let p := lmkFormatLogLine strftime e.formatFn e.cache now e.out 0 outBufSize req
    (readCString p.2.2 outBufSize).map fun text =>
      ({ e with cache := p.1, out := p.2.2 },
        [lmkConsoleLevelColor req.logLevel, text, ansiReset])
  configure fn e := { e with formatFn := fn }

/-- thread が動き始めたときの環境。`out` の中身は決まっていない。 -/
def consoleEnv (fn : Formatter) (out : Nat → UInt8) : ConsoleEnv :=
  { formatFn := fn, cache := .empty, out }

/-- 準備した一件を整形したときの時刻の文字列。 -/
def Prepared.timestamp (strftime : Int → CStr) (r : Prepared ConsoleEnv β) : CStr :=
  (r.env.cache.refresh strftime r.now).text

/-- 書式関数は、NUL で終わる一行を過不足なく書く。 -/
def Prepared.Prints (strftime : Int → CStr) (r : Prepared ConsoleEnv β) : Prop :=
  ∃ line : List UInt8, 0 ∉ line ∧ line.length < outBufSize ∧
    r.env.formatFn.Yields (formatArgs (r.timestamp strftime) r.req) outBufSize line ∧
    (r.env.formatFn.call outBufSize (formatArgs (r.timestamp strftime) r.req)).written line.length
      = some 0

/-- `c` について `fputs` に渡すもの。 -/
def EnqueueCall.consoleItems (fn : Formatter) (timestamp : CStr) (c : EnqueueCall) :
    List (List UInt8) :=
  [lmkConsoleLevelColor c.record.logLevel, c.line fn timestamp, ansiReset]

variable {strftime : Int → CStr}

omit [DecidableEq ι] in
/-- 準備は、整形した文字列を、色と色の解除で挟む。 -/
theorem consolePrepare_eq_some {e e' : ConsoleEnv} {now : Int} {req : LogRequest}
    {items : List (List UInt8)} :
    (consoleEmitter strftime).prepare e now req = some (e', items) ↔
      ∃ text, readCString (formatLine e.formatFn (e.cache.refresh strftime now).text e.out 0
          outBufSize req).2 outBufSize = some text ∧
        e' = { e with
          cache := e.cache.refresh strftime now
          out := (formatLine e.formatFn (e.cache.refresh strftime now).text e.out 0 outBufSize
            req).2 } ∧
        items = [lmkConsoleLevelColor req.logLevel, text, ansiReset] := by
  simp only [consoleEmitter, lmkFormatLogLine, Option.map_eq_some_iff, Prod.mk.injEq]
  constructor
  · rintro ⟨text, htext, rfl, rfl⟩
    exact ⟨text, htext, rfl, rfl⟩
  · rintro ⟨text, htext, rfl, rfl⟩
    exact ⟨text, htext, rfl, rfl⟩

omit [DecidableEq ι] in
/-- 準備した項目は、`consoleSlot` の出力を三つに分けたものである。 -/
theorem prepare_flatten {e e' : ConsoleEnv} {now : Int} {req : LogRequest}
    {items : List (List UInt8)}
    (h : (consoleEmitter strftime).prepare e now req = some (e', items)) :
    (consoleSlot e.formatFn (e.cache.refresh strftime now).text e.out req).2
      = some items.flatten := by
  obtain ⟨text, htext, -, rfl⟩ := consolePrepare_eq_some.mp h
  unfold consoleSlot
  dsimp only
  rw [htext]
  simp [List.append_assoc]

omit [DecidableEq ι] in
/-- 運んでいる record の行が、過不足なく出される。 -/
theorem consoleItems_eq {r : Prepared ConsoleEnv (List UInt8)} {e : ConsoleEnv} {c : EnqueueCall}
    (h : (consoleEmitter strftime).prepare r.env r.now r.req = some (e, r.items))
    (hc : Carries r.req c) (hprints : r.Prints strftime) :
    r.items = c.consoleItems r.env.formatFn (r.timestamp strftime) := by
  obtain ⟨line, h0, hlt, hy, hnul⟩ := hprints
  have hflatten := prepare_flatten h
  have hslot : (consoleSlot r.env.formatFn (r.timestamp strftime) r.env.out r.req).2 =
      some (lmkConsoleLevelColor r.req.logLevel ++ line ++ ansiReset) :=
    consoleSlot_eq_some h0 hlt hy hnul
  obtain ⟨text, -, -, hitems⟩ := consolePrepare_eq_some.mp h
  have htext : text = line := by
    have hsame := hflatten.symm.trans hslot
    rw [hitems] at hsame
    simpa using hsame
  rw [hc.formatArgs_eq] at hy
  have hline : c.line r.env.formatFn (r.timestamp strftime) = line := c.line_of_yields hy
  rw [hitems, EnqueueCall.consoleItems, hline, htext, hc.logLevel]

theorem flatMap_eq_flatten_zipWith {α : Type} {f : α → List β} {g : α → EnqueueCall → List β}
    {rs : List α} {claims : List EnqueueCall}
    (h : List.Forall₂ (fun r c => f r = g r c) rs (claims.take rs.length)) :
    rs.flatMap f = (List.zipWith g rs claims).flatten := by
  induction rs generalizing claims with
  | nil => rfl
  | cons r rs ih =>
    cases claims with
    | nil => cases h
    | cons c claims =>
      obtain ⟨hr, hrest⟩ := List.forall₂_cons.mp h
      rw [List.flatMap_cons, List.zipWith_cons_cons, List.flatten_cons, hr, ih hrest]

/-- 環境の cache は新しく、準備に使った時刻の文字列は、準備した秒のものである。 -/
structure StampInv (strftime : Int → CStr) (s : EmitterHandler ι ConsoleEnv (List UInt8)) :
    Prop where
  cache : s.env.cache.Fresh strftime
  prepared : ∀ r ∈ s.prepared, r.now ≠ 0 → r.timestamp strftime = strftime r.now

theorem StampInv.step {s s' : EmitterHandler ι ConsoleEnv (List UInt8)}
    {a : EmitterAction ι Formatter} (h : StampInv strftime s)
    (hs : emitterHandlerStep (consoleEmitter strftime) .unbounded s a = some s') :
    StampInv strftime s' := by
  cases emitterHandlerStep_move hs with
  | @prepare now now' req env items ht hpc hp =>
    obtain ⟨text, -, rfl, -⟩ := consolePrepare_eq_some.mp hp
    refine ⟨h.cache.refresh now', ?_⟩
    intro r hr hn
    rcases List.mem_append.mp hr with hr | hr
    · exact h.prepared r hr hn
    · obtain rfl := List.mem_singleton.mp hr
      exact h.cache.refresh_text hn
  | _ => exact ⟨h.cache, h.prepared⟩

/-- 書式関数を変えない動作。 -/
def EmitterAction.KeepsFormat : EmitterAction ι Formatter → Prop
  | .configure _ => False
  | _ => True

/-- 書式関数を変えない実行では、どの record も始めの書式関数で整形されている。 -/
theorem formatFn_prepared {name : CStr} {k : Nat} {fn : Formatter} {out : Nat → UInt8}
    {s : EmitterHandler ι ConsoleEnv (List UInt8)} {as : List (EmitterAction ι Formatter)}
    (hkeep : ∀ a ∈ as, a.KeepsFormat)
    (hrun : run (emitterHandlerStep (consoleEmitter strftime) .unbounded)
      (emitterInitial ι (List UInt8) .console name k (consoleEnv fn out)) as = some s) :
    ∀ r ∈ s.prepared, r.env.formatFn = fn := by
  have hinv : s.env.formatFn = fn ∧ ∀ r ∈ s.prepared, r.env.formatFn = fn := by
    refine run_invariant (I := fun s => s.env.formatFn = fn ∧ ∀ r ∈ s.prepared,
      r.env.formatFn = fn) ?_ ⟨rfl, by simp [emitterInitial]⟩ (along_of_forall_mem hkeep) hrun
    intro s a s' ⟨henv, hprepared⟩ ha hs
    cases emitterHandlerStep_move hs with
    | configure => exact ha.elim
    | prepare ht hpc hp =>
      obtain ⟨text, -, rfl, -⟩ := consolePrepare_eq_some.mp hp
      refine ⟨henv, ?_⟩
      intro r hr
      rcases List.mem_append.mp hr with hr | hr
      · exact hprepared r hr
      · obtain rfl := List.mem_singleton.mp hr
        exact henv
    | _ => exact ⟨henv, hprepared⟩
  exact hinv.2

variable [DecidableEq κ]

/--
**標準出力に出る列は、handler ごとに claim の列で決まる。**

いくつの console handler が一つの標準出力を使っていても、そこから handler `h` の `fputs` を
抜き出すと、準備した record の色・行・色の解除を claim の順に並べたものから、まだの分を除いた
ものになる。consumer が休んでいれば、claim のすべてが出されていて、flush されている。
-/
theorem console_streams {names : κ → CStr} {ks : κ → Nat} {fns : κ → Formatter}
    {outs : κ → Nat → UInt8} {s : EmitterState κ ι ConsoleEnv (List UInt8)}
    {as : List (EmitterStateAction κ ι Formatter)} (h : κ) (hk : 1 ≤ ks h)
    (hrun : run (emitterStep (consoleEmitter strftime) .unbounded)
      (streamsInitial ι (List UInt8) .console names ks fun h => consoleEnv (fns h) (outs h)) as
        = some s)
    (hprints : ∀ r ∈ (s.handlers h).prepared, r.Prints strftime) :
    List.Forall₂ (fun r c => Carries r.req c) (s.handlers h).prepared
      ((s.handlers h).handler.mem.hist.claims.take (s.handlers h).prepared.length) ∧
    (∀ r ∈ (s.handlers h).prepared, r.now ≠ 0 → r.timestamp strftime = strftime r.now) ∧
    s.own h ++ (s.handlers h).pc.rest =
      (List.zipWith (fun r c => EnqueueCall.consoleItems r.env.formatFn (r.timestamp strftime) c)
        (s.handlers h).prepared (s.handlers h).handler.mem.hist.claims).flatten ∧
    (EmitterRests (consoleEmitter strftime)
        (emitterInitial ι (List UInt8) .console (names h) (ks h) (consoleEnv (fns h) (outs h)))
        (actionsOn h as) (s.handlers h) →
      (s.handlers h).prepared.length = (s.handlers h).handler.mem.hist.claims.length ∧
        (s.handlers h).pc.rest = [] ∧ ((s.log.drop s.flushed).filter fun x => x.1 = h) = []) := by
  have hown := handlers_run h hrun
  have hinv : EmitterInv (consoleEmitter strftime) (s.handlers h) := emitterInv_run hk hown
  have hstamp : StampInv strftime (s.handlers h) :=
    Reachable.invariant (fun _ _ _ h hs => h.step hs)
      ⟨fun hne => absurd rfl hne, by simp [streamsInitial, emitterInitial]⟩ ⟨_, hown⟩
  refine ⟨hinv.carries, hstamp.prepared, ?_, ?_⟩
  · rw [streamLog_run hrun h, hinv.emitted]
    refine flatMap_eq_flatten_zipWith (hinv.items_eq ?_)
    intro r hr e he c hc
    exact consoleItems_eq he hc (hprints r hr)
  · intro hrests
    obtain ⟨hlen, hrest, hpast⟩ := hrests.complete hk hown
    exact ⟨hlen, hrest, (flushInv_run hrun).settled h hpast⟩

/-- 一つの標準出力を使う、二つの console handler。 -/
def twoConsoles : EmitterState Bool Bool ConsoleEnv (List UInt8) :=
  streamsInitial Bool (List UInt8) .console (fun _ => .empty) (fun _ => 1)
    fun _ => consoleEnv (.ofText fun _ => [120, 10]) fun _ => 0

/-- 二つの thread が別々の handler に書き、二つの consumer が交互に動いて眠る。 -/
def twoConsolesRun : List (EmitterStateAction Bool Bool Formatter) :=
  [.on true (.logImpl true (sampleRecord 2 65)), .on false (.logImpl false (sampleRecord 3 66))] ++
    (List.replicate 15
      [.on true (.producer true false), .on false (.producer false false)]).flatten ++
    (List.replicate 16 [.on false (.thread 1), .on true (.thread 1)]).flatten

theorem console_streams_twoConsolesRun :
    ∃ s, run (emitterStep (consoleEmitter fun _ => .empty) .unbounded) twoConsoles twoConsolesRun
        = some s ∧ s.log.length = 6 ∧ (s.handlers false).prepared.length = 1 ∧
      ((s.log.drop s.flushed).filter fun x => x.1 = false) = [] := by
  have hpc : (run (emitterStep (consoleEmitter fun _ => .empty) .unbounded) twoConsoles
      twoConsolesRun).map (fun s => (decide (∀ p, (s.handlers false).handler.producers p = .idle),
        (s.handlers false).handler.thread.isParked,
        (s.handlers false).handler.mem.hist.claims.length, s.log.length))
        = some (true, true, 1, 6) := by decide +kernel
  obtain ⟨s, hs, hp⟩ := Option.map_eq_some_iff.mp hpc
  simp only [Prod.mk.injEq, decide_eq_true_eq, ThreadPc.isParked_iff] at hp
  obtain ⟨hidle, ht, hlen, hlog⟩ := hp
  have hkeep : ∀ a ∈ actionsOn false twoConsolesRun, a.KeepsFormat := by
    simp [twoConsolesRun, actionsOn, EmitterAction.KeepsFormat]
  have hprints : ∀ r ∈ (s.handlers false).prepared, r.Prints fun _ => .empty := by
    intro r hr
    refine ⟨[120, 10], by decide, by decide, ?_, ?_⟩ <;>
      rw [formatFn_prepared hkeep (handlers_run false hs) r hr]
    · exact Formatter.ofText_yields (by decide)
    · rfl
  obtain ⟨-, -, -, hrests⟩ := console_streams false (by decide) hs hprints
  obtain ⟨hdone, -, hflushed⟩ := hrests (Or.inl ⟨hidle, ht⟩)
  exact ⟨s, hs, hlog, hdone.trans hlen, hflushed⟩

/-! ## syslog -/

/-- syslog の consumer。一件につき `syslog` を一回呼ぶ。 -/
def syslogEmitter : Emitter Unit (Int × List UInt8) Empty where
  prepare e _ req := some (e, [(lmkToSyslogPriority req.logLevel, syslogText req)])
  configure c _ := c.elim

/-- `c` について `syslog` に渡す優先度と本文。 -/
def EnqueueCall.syslogCall (c : EnqueueCall) : Int × List UInt8 :=
  (lmkToSyslogPriority c.record.logLevel,
    ascii "[" ++ (lmkGetLogLevelStr c.record.logLevel).bytes ++ ascii "] (" ++
      c.record.fileName.bytes ++ ascii ":" ++ decimal c.record.lineNo ++ ascii ") " ++ c.text)

omit [DecidableEq ι] in
theorem syslogItems_eq {r : Prepared Unit (Int × List UInt8)} {e : Unit} {c : EnqueueCall}
    (h : syslogEmitter.prepare r.env r.now r.req = some (e, r.items)) (hc : Carries r.req c) :
    r.items = [c.syslogCall] := by
  have heq : [(lmkToSyslogPriority r.req.logLevel, syslogText r.req)] = r.items :=
    congrArg Prod.snd (Option.some.inj h)
  rw [← heq, syslogText, EnqueueCall.syslogCall, hc.logLevel, hc.lineNo, hc.fileName, hc.message_eq]

/--
**`syslog` の呼び出しの列は、handler ごとに claim の列で決まる。**

いくつの syslog handler が動いていても、handler `h` の呼び出しは、準備した record の優先度と
本文を claim の順に並べたものから、まだの分を除いたものである。consumer が休んでいれば、claim の
すべてが送られている。
-/
theorem syslog_streams {names : κ → CStr} {ks : κ → Nat}
    {s : EmitterState κ ι Unit (Int × List UInt8)} {as : List (EmitterStateAction κ ι Empty)}
    (h : κ) (hk : 1 ≤ ks h)
    (hrun : run (emitterStep syslogEmitter .unbounded)
      (streamsInitial ι (Int × List UInt8) .syslog names ks fun _ => ()) as = some s) :
    s.own h ++ (s.handlers h).pc.rest =
      ((s.handlers h).handler.mem.hist.claims.take (s.handlers h).prepared.length).map
        EnqueueCall.syslogCall ∧
    (EmitterRests syslogEmitter (emitterInitial ι (Int × List UInt8) .syslog (names h) (ks h) ())
        (actionsOn h as) (s.handlers h) →
      s.own h = (s.handlers h).handler.mem.hist.claims.map EnqueueCall.syslogCall) := by
  have hown := handlers_run h hrun
  have hinv : EmitterInv syslogEmitter (s.handlers h) := emitterInv_run hk hown
  have hitems := hinv.items_eq fun r _ e he c hc => syslogItems_eq he hc
  have hcalls : s.own h ++ (s.handlers h).pc.rest =
      ((s.handlers h).handler.mem.hist.claims.take (s.handlers h).prepared.length).map
        EnqueueCall.syslogCall := by
    have hmap : (s.handlers h).prepared.map Prepared.items =
        ((s.handlers h).handler.mem.hist.claims.take (s.handlers h).prepared.length).map
          fun c => [c.syslogCall] := by
      rw [← List.forall₂_eq_eq_eq, List.forall₂_map_left_iff, List.forall₂_map_right_iff]
      exact hitems
    rw [streamLog_run hrun h, hinv.emitted, List.flatMap_def, hmap, ← List.flatMap_def]
    exact List.flatMap_pure_eq_map _ _
  refine ⟨hcalls, ?_⟩
  intro hrests
  obtain ⟨hlen, hrest, -⟩ := hrests.complete hk hown
  rwa [hrest, List.append_nil, hlen, List.take_length] at hcalls

/-- 二つの syslog handler に、二つの thread が別々に書く。 -/
def twoSyslogsRun : List (EmitterStateAction Bool Bool Empty) :=
  [.on true (.logImpl true (sampleRecord 2 65)), .on false (.logImpl false (sampleRecord 3 66))] ++
    (List.replicate 15
      [.on true (.producer true false), .on false (.producer false false)]).flatten ++
    (List.replicate 13 [.on false (.thread 1), .on true (.thread 1)]).flatten

theorem syslog_streams_twoSyslogsRun :
    ∃ s, run (emitterStep syslogEmitter .unbounded)
        (streamsInitial Bool (Int × List UInt8) .syslog (fun _ => .empty) (fun _ => 1) fun _ => ())
        twoSyslogsRun = some s ∧ s.log.length = 2 ∧
      s.own false =
        (s.handlers false).handler.mem.hist.claims.map EnqueueCall.syslogCall := by
  have hpc : (run (emitterStep syslogEmitter .unbounded)
      (streamsInitial Bool (Int × List UInt8) .syslog (fun _ => .empty) (fun _ => 1) fun _ => ())
      twoSyslogsRun).map (fun s => (decide (∀ p, (s.handlers false).handler.producers p = .idle),
        (s.handlers false).handler.thread.isParked, s.log.length)) = some (true, true, 2) := by
    decide +kernel
  obtain ⟨s, hs, hp⟩ := Option.map_eq_some_iff.mp hpc
  simp only [Prod.mk.injEq, decide_eq_true_eq, ThreadPc.isParked_iff] at hp
  obtain ⟨hidle, ht, hlog⟩ := hp
  obtain ⟨-, hrests⟩ := syslog_streams false (by decide) hs
  exact ⟨s, hs, hlog, hrests (Or.inl ⟨hidle, ht⟩)⟩

end Logmoko
