import Logmoko.Handler.Delivery
import Logmoko.Process.Order
import Logmoko.Process.Teardown

/-!
# process と、一つの handler の出口

`Process/Model.lean` の handler は、slot の中身をどこへ出すかを持たない。出口まで含めた系
（file handler や socket handler の全体）を `Outlet` として与え、process の中の一つの handler と
差し替える。

* process の側から見ると、差し替えた系の実行は process の実行である（`whole_run`）
* 出口の側から見ると、その実行は出口の系の実行である（`outlet_run`）
* 二つの側から見た handler の動作は同じである（`emitted_outletActs`）

よって、`lmk_destroy` が静かに始まる実行では、出口の系の claim は、process の呼び出しで決まる
（`outlet_claims`）。
-/

namespace Logmoko

open Transition Submission

/-- consumer の動作か。 -/
def HandlerAction.isThread {ι : Type} : HandlerAction ι → Bool
  | .thread => true
  | .logImpl _ _ | .producer _ _ | .spuriousWakeup | .destroy => false

/--
出口まで含めた handler の系。`acts` は一 step を handler から見たもの、`act` はほかの thread の動作を
この系の動作として書いたものである。
-/
structure Outlet (ι S α : Type) [DecidableEq ι] where
  step : S → α → Option S
  handler : S → HandlerState ι
  acts : S → α → List (HandlerAction ι)
  act : HandlerAction ι → Option α
  handler_step : ∀ {s a s'}, step s a = some s' →
    run (handlerStep .unbounded) (handler s) (acts s a) = some (handler s')
  acts_act : ∀ {b a}, act b = some a → ∀ s, acts s a = [b]
  act_eq_none : ∀ {b}, act b = none → b = .thread

/-- 差し替えた系の状態。process の中の handler は、出口の系のものを使う。 -/
structure OutletState (ι S : Type) where
  process : ProcessState ι
  outlet : S

/-- process の動作と、出口の系の動作。 -/
inductive OutletAction (ι α : Type) where
  | process (act : ProcessAction ι)
  | outlet (a : α)

variable {ι S α : Type} [DecidableEq ι]

/-- 全体を process として見た状態。 -/
def OutletState.whole (K : Outlet ι S α) (h : Nat) (s : OutletState ι S) : ProcessState ι :=
  s.process.setHandler h (K.handler s.outlet)

/-- handler `h` の consumer の動作か。 -/
def ProcessAction.consumes (h : Nat) : ProcessAction ι → Bool
  | .consumer a => a = h
  | .log _ _ | .offer _ | .logImpl _ _ | .spuriousWakeup _ | .destroy => false

/--
全体の一 step。handler `h` の consumer は出口の系の動作として動き、`h` に触るほかの thread の動作は、
出口の系にも同じ動作をさせる。
-/
def outletStep (K : Outlet ι S α) (h : Nat) (s : OutletState ι S) :
    OutletAction ι α → Option (OutletState ι S)
  | .process act =>
    if act.consumes h then none
    else (processStep (s.whole K h) act).bind fun process =>
      (run K.step s.outlet ((handlerActs h (s.whole K h) act).filterMap K.act)).map fun outlet =>
        { process, outlet }
  | .outlet a =>
    if (K.acts s.outlet a).all HandlerAction.isThread ∧
        (K.acts s.outlet a = [] ∨ (s.process.registry.handler? h).isSome) then
      (K.step s.outlet a).map fun outlet => { s with outlet }
    else none

/-- 一 step を process から見たもの。 -/
def processActs (K : Outlet ι S α) (h : Nat) (s : OutletState ι S) :
    OutletAction ι α → List (ProcessAction ι)
  | .process act => [act]
  | .outlet a => (K.acts s.outlet a).map fun _ => .consumer h

/-- 一 step を出口の系から見たもの。 -/
def outletActs (K : Outlet ι S α) (h : Nat) (s : OutletState ι S) : OutletAction ι α → List α
  | .process act => (handlerActs h (s.whole K h) act).filterMap K.act
  | .outlet a => [a]

/-- 一 step を handler `h` から見たもの。 -/
def seenActs (K : Outlet ι S α) (h : Nat) (s : OutletState ι S) :
    OutletAction ι α → List (HandlerAction ι)
  | .process act => handlerActs h (s.whole K h) act
  | .outlet a => K.acts s.outlet a

variable {K : Outlet ι S α} {h : Nat} {s s' t : OutletState ι S} {a : OutletAction ι α}
  {as : List (OutletAction ι α)}

/-! ## 一 step -/

omit [DecidableEq ι] in
theorem HandlerAction.isThread_iff {b : HandlerAction ι} : b.isThread = true ↔ b = .thread := by
  cases b <;> simp [HandlerAction.isThread]

/-- ほかの thread の動作は、出口の系でも同じ動作である。 -/
theorem Outlet.run_act {x y : S} {l : List (HandlerAction ι)} (hl : ∀ b ∈ l, b ≠ .thread)
    (hrun : run K.step x (l.filterMap K.act) = some y) :
    run (handlerStep .unbounded) (K.handler x) l = some (K.handler y) ∧
      emitted K.step K.acts x (l.filterMap K.act) = l := by
  induction l generalizing x with
  | nil =>
    obtain rfl : x = y := Option.some.inj hrun
    exact ⟨rfl, rfl⟩
  | cons b l ih =>
    obtain ⟨a, ha⟩ := Option.ne_none_iff_exists'.mp
      fun hnone => hl b List.mem_cons_self (K.act_eq_none hnone)
    rw [List.filterMap_cons_some ha] at hrun ⊢
    obtain ⟨u, hu, hrest⟩ := run_cons_eq_some.mp hrun
    have hstep := K.handler_step hu
    rw [K.acts_act ha, run_singleton] at hstep
    obtain ⟨hhandler, hemitted⟩ := ih (fun b hb => hl b (List.mem_cons_of_mem _ hb)) hrest
    refine ⟨run_cons_eq_some.mpr ⟨_, hstep, hhandler⟩, ?_⟩
    rw [emitted_cons hu, K.acts_act ha, hemitted]
    rfl

omit [DecidableEq ι] in
theorem setHandler_eq_self (s : ProcessState ι) (h : Nat) : s.setHandler h (s.handlers h) = s := by
  unfold ProcessState.setHandler
  rw [Function.update_eq_self]

omit [DecidableEq ι] in
theorem setHandler_overwrite (s : ProcessState ι) (h : Nat) (x y : HandlerState ι) :
    (s.setHandler h x).setHandler h y = s.setHandler h y := by
  unfold ProcessState.setHandler
  rw [Function.update_idem]

/-- consumer の動作の列は、process の動作の列でもある。 -/
theorem run_consumer {s : ProcessState ι} {l : List (HandlerAction ι)} {x : HandlerState ι}
    (hl : ∀ b ∈ l, b = .thread) (hlive : l = [] ∨ (s.registry.handler? h).isSome)
    (hrun : run (handlerStep .unbounded) (s.handlers h) l = some x) :
    run processStep s (l.map fun _ => .consumer h) = some (s.setHandler h x) ∧
      emitted processStep (handlerActs h) s (l.map fun _ => .consumer h) = l := by
  induction l generalizing s with
  | nil =>
    obtain rfl := Option.some.inj hrun
    rw [setHandler_eq_self]
    exact ⟨rfl, rfl⟩
  | cons b l ih =>
    obtain rfl := hl b List.mem_cons_self
    obtain ⟨u, hu, hrest⟩ := run_cons_eq_some.mp hrun
    have hlive' := hlive.resolve_left (List.cons_ne_nil _ _)
    obtain ⟨hd, hhd⟩ := Option.isSome_iff_exists.mp hlive'
    have hstep : processStep s (.consumer h) = some (s.setHandler h u) := by
      show s.stepHandler h .thread = _
      unfold ProcessState.stepHandler
      rw [hhd, hu]
      rfl
    obtain ⟨hnext, hemitted⟩ := ih (s := s.setHandler h u)
      (fun b hb => hl b (List.mem_cons_of_mem _ hb)) (Or.inr hlive') (by rwa [setHandler_self])
    rw [setHandler_overwrite] at hnext
    refine ⟨run_cons_eq_some.mpr ⟨_, hstep, hnext⟩, ?_⟩
    rw [List.map_cons, emitted_cons hstep, hemitted]
    simp [handlerActs]

omit [DecidableEq ι] in
/-- 差し替えた handler の consumer は、process の動作としては動かない。 -/
theorem ne_thread_of_consumes {s : ProcessState ι} {act : ProcessAction ι}
    (hact : act.consumes h = false) : ∀ b ∈ handlerActs h s act, b ≠ .thread := by
  intro b hb
  cases act with
  | consumer a =>
    have hne : a ≠ h := of_decide_eq_false hact
    simp [handlerActs, hne] at hb
  | log | offer | logImpl | spuriousWakeup | destroy =>
    simp only [handlerActs] at hb
    repeat' split at hb
    all_goals simp_all

/-- 一 step が何をしうるか。 -/
inductive OutletMove (K : Outlet ι S α) (h : Nat) (s : OutletState ι S) :
    OutletAction ι α → OutletState ι S → Prop where
  | process {act process outlet} (hact : act.consumes h = false)
      (hp : processStep (s.whole K h) act = some process)
      (ho : run K.step s.outlet ((handlerActs h (s.whole K h) act).filterMap K.act)
        = some outlet) :
    OutletMove K h s (.process act) { process, outlet }
  | outlet {a outlet} (hthread : ∀ b ∈ K.acts s.outlet a, b = .thread)
      (hlive : K.acts s.outlet a = [] ∨ (s.process.registry.handler? h).isSome)
      (ho : K.step s.outlet a = some outlet) :
    OutletMove K h s (.outlet a) { s with outlet }

theorem outletStep_move (hs : outletStep K h s a = some s') : OutletMove K h s a s' := by
  cases a with
  | process act =>
    obtain ⟨hact, hs⟩ := Option.ite_none_left_eq_some.mp hs
    obtain ⟨process, hp, hs⟩ := Option.bind_eq_some_iff.mp hs
    obtain ⟨outlet, ho, rfl⟩ := Option.map_eq_some_iff.mp hs
    exact .process (by simpa using hact) hp ho
  | outlet a =>
    obtain ⟨⟨hthread, hlive⟩, hs⟩ := Option.ite_none_right_eq_some.mp hs
    obtain ⟨outlet, ho, rfl⟩ := Option.map_eq_some_iff.mp hs
    refine .outlet ?_ hlive ho
    intro b hb
    exact HandlerAction.isThread_iff.mp (List.all_eq_true.mp hthread b hb)

theorem whole_handler (s : OutletState ι S) : (s.whole K h).handlers h = K.handler s.outlet :=
  setHandler_self ..

/-- 始めの状態では、差し替えても process は変わらない。 -/
theorem whole_processInitial {r : Registry} {k : Nat → Nat} {hd : LogHandler} {x : S}
    (hhandler : r.handler? h = some hd)
    (hx : K.handler x = handlerInitial ι hd.body.type hd.name (k h)) :
    (OutletState.mk (processInitial ι r k) x).whole K h = processInitial ι r k := by
  have hsame : (processInitial ι r k).handlers h = handlerInitial ι hd.body.type hd.name (k h) := by
    simp only [processInitial, hhandler]
  unfold OutletState.whole
  rw [hx, ← hsame, setHandler_eq_self]

/-- 差し替えた系の一 step は、process の実行である。 -/
theorem whole_step (hs : outletStep K h s a = some s') :
    run processStep (s.whole K h) (processActs K h s a) = some (s'.whole K h) := by
  cases outletStep_move hs with
  | @process act process outlet hact hp ho =>
    have hhandler := run_handlerActs h hp
    rw [whole_handler, ((K.run_act (ne_thread_of_consumes hact) ho).1)] at hhandler
    have hwhole : OutletState.whole K h { process, outlet } = process := by
      unfold OutletState.whole
      dsimp only
      rw [Option.some.inj hhandler, setHandler_eq_self]
    rw [hwhole]
    exact run_singleton.trans hp
  | @outlet a outlet hthread hlive ho =>
    have hrun := K.handler_step ho
    rw [← whole_handler (K := K) (h := h) s] at hrun
    obtain ⟨hconsumer, -⟩ := run_consumer (s := s.whole K h) hthread hlive hrun
    rw [OutletState.whole, setHandler_overwrite] at hconsumer
    exact hconsumer

/-- 差し替えた系の一 step は、出口の系の実行である。 -/
theorem outlet_step (hs : outletStep K h s a = some s') :
    run K.step s.outlet (outletActs K h s a) = some s'.outlet := by
  cases outletStep_move hs with
  | process _ _ ho => exact ho
  | outlet _ _ ho => exact run_singleton.trans ho

/-- 出口の系が見る handler の動作は、process の見る動作である。 -/
theorem emitted_outletActs (hs : outletStep K h s a = some s') :
    emitted K.step K.acts s.outlet (outletActs K h s a) = seenActs K h s a := by
  cases outletStep_move hs with
  | process hact _ ho => exact (K.run_act (ne_thread_of_consumes hact) ho).2
  | outlet => exact emitted_singleton ..

/-- process の見る handler の動作。 -/
theorem emitted_processActs (hs : outletStep K h s a = some s') :
    emitted processStep (handlerActs h) (s.whole K h) (processActs K h s a) = seenActs K h s a := by
  cases outletStep_move hs with
  | process => exact emitted_singleton ..
  | outlet hthread hlive ho =>
    have hrun := K.handler_step ho
    rw [← whole_handler (K := K) (h := h) s] at hrun
    exact (run_consumer (s := s.whole K h) hthread hlive hrun).2

/-! ## 実行 -/

theorem whole_run (hrun : run (outletStep K h) s as = some t) :
    run processStep (s.whole K h) (emitted (outletStep K h) (processActs K h) s as)
      = some (t.whole K h) :=
  run_emitted (fun _ _ _ => whole_step) hrun

theorem outlet_run (hrun : run (outletStep K h) s as = some t) :
    run K.step s.outlet (emitted (outletStep K h) (outletActs K h) s as) = some t.outlet :=
  run_emitted (fun _ _ _ => outlet_step) hrun

/-- 出口の系の動作が `P` を満たす。 -/
def OutletAction.Holds (P : α → Prop) : OutletAction ι α → Prop
  | .process _ => True
  | .outlet a => P a

/-- ほかの thread の動作が満たす条件は、出口の系の動作列に移る。 -/
theorem forall_mem_outletActs {P : α → Prop} (hact : ∀ b a, K.act b = some a → P a)
    (hall : ∀ a ∈ as, a.Holds P) :
    ∀ b ∈ emitted (outletStep K h) (outletActs K h) s as, P b := by
  refine forall_mem_emitted ?_
  intro s a ha b hb
  have hholds := hall a ha
  cases a with
  | process act =>
    obtain ⟨c, -, hc⟩ := List.mem_filterMap.mp hb
    exact hact c b hc
  | outlet a =>
    obtain rfl := List.mem_singleton.mp hb
    exact hholds

/-- 実行を handler `h` から見た動作列。 -/
def seenBy (K : Outlet ι S α) (h : Nat) (s₀ : OutletState ι S) (as : List (OutletAction ι α)) :
    List (HandlerAction ι) :=
  emitted (outletStep K h) (seenActs K h) s₀ as

theorem process_seenBy (hrun : run (outletStep K h) s as = some t) :
    emitted processStep (handlerActs h) (s.whole K h)
      (emitted (outletStep K h) (processActs K h) s as) = seenBy K h s as :=
  emitted_emitted (fun _ _ _ => whole_step) (fun _ _ _ => emitted_processActs) hrun

theorem outlet_seenBy (hrun : run (outletStep K h) s as = some t) :
    emitted K.step K.acts s.outlet (emitted (outletStep K h) (outletActs K h) s as)
      = seenBy K h s as :=
  emitted_emitted (fun _ _ _ => outlet_step) (fun _ _ _ => emitted_outletActs) hrun

/-- 動作列のうち、process のもの。 -/
def processActions : List (OutletAction ι α) → List (ProcessAction ι) :=
  List.filterMap fun
    | .process act => some act
    | .outlet _ => none

/-- 出口の系の動作は、log の呼び出しではない。 -/
theorem calledBy_processActs (hrun : run (outletStep K h) s as = some t) (p : ι) :
    calledBy p (emitted (outletStep K h) (processActs K h) s as)
      = calledBy p (processActions as) := by
  induction as generalizing s with
  | nil => rfl
  | cons a as ih =>
    obtain ⟨u, hu, hrest⟩ := run_cons_eq_some.mp hrun
    rw [emitted_cons hu, calledBy, List.filterMap_append]
    change calledBy p _ ++ calledBy p _ = _
    rw [ih hrest]
    cases a with
    | process act => exact (List.filterMap_append (l := [act])).symm
    | outlet a =>
      have hnone : calledBy p (processActs K h s (.outlet a)) = [] := by
        simp [processActs, calledBy]
      rw [hnone]
      rfl

/-- `lmk_destroy` は、どの caller も呼び出しの外にいる間に呼ばれる。 -/
def OutletQuiet (K : Outlet ι S α) (h : Nat) (s : OutletState ι S) : OutletAction ι α → Prop
  | .process act => CallersDone (s.whole K h) act
  | .outlet _ => True

/-- `lmk_destroy` を呼ばない動作列。 -/
theorem outletQuiet_of_notDestroy (h' : ∀ a ∈ as, a ≠ .process .destroy) :
    Along (outletStep K h) (OutletQuiet K h) s as := by
  refine (along_of_forall_mem (R := fun a : OutletAction ι α => a ≠ .process .destroy) h').mono ?_
  intro u a hne
  cases a with
  | process act =>
    cases act with
    | destroy => exact absurd rfl hne
    | log | offer | logImpl | consumer | spuriousWakeup => trivial
  | outlet => trivial

theorem callersDone_run (hquiet : Along (outletStep K h) (OutletQuiet K h) s as)
    (hrun : run (outletStep K h) s as = some t) :
    Along processStep CallersDone (s.whole K h)
      (emitted (outletStep K h) (processActs K h) s as) := by
  refine along_emitted (fun _ _ _ => whole_step) ?_ hquiet hrun
  intro s a ha
  cases a with
  | process act => exact along_singleton ha
  | outlet a => exact callersDone_of_notDestroy (by simp [processActs])

/-! ## 静かな終了 -/

section Quiet

variable {r : Registry} {k : Nat → Nat} {d : DispatchState}

/-- `lmk_destroy` が静かに始まるなら、どの handler も静かに止まる。 -/
theorem quiet_handlerActs {s : ProcessState ι} {act : ProcessAction ι} (hinv : TeardownInv r k s)
    (hq : CallersDone s act) (a : Nat) :
    Along (handlerStep .unbounded) QuietShutdown (s.handlers a) (handlerActs a s act) := by
  cases act with
  | log => trivial
  | offer p =>
    cases hp : s.callers p with
    | next record cursor =>
      cases cursor with
      | nil => simp [handlerActs, hp, Along]
      | cons b cursor =>
        simp only [handlerActs, hp]
        split
        · exact along_singleton (hinv.before (hinv.callers.notCalled hp rfl) a)
        · trivial
    | idle | inHandler => simp [handlerActs, hp, Along]
  | logImpl p casFails =>
    cases hp : s.callers p with
    | inHandler record b cursor =>
      simp only [handlerActs, hp]
      split
      · exact along_singleton trivial
      · trivial
    | idle | next => simp [handlerActs, hp, Along]
  | consumer b | spuriousWakeup b =>
    simp only [handlerActs]
    split
    · exact along_singleton trivial
    · trivial
  | destroy =>
    cases ht : s.teardown with
    | handlers cursor =>
      cases cursor with
      | nil => simp [handlerActs, ht, Along]
      | cons b cursor =>
        simp only [handlerActs, ht]
        split
        · refine along_singleton ?_
          intro _ p
          have hidle := hinv.callers.stopped (by simp [ht]) p
          exact hinv.callers.producers_idle (by simp [hidle])
        · trivial
    | notCalled | done => simp [handlerActs, ht, Along]

theorem quiet_run (hd : DispatchInv d) (hk : ∀ a, 1 ≤ k a) {s : ProcessState ι}
    {as : List (ProcessAction ι)}
    (hquiet : Along processStep CallersDone (processInitial ι d.registry k) as)
    (hrun : run processStep (processInitial ι d.registry k) as = some s) (a : Nat) :
    Along (handlerStep .unbounded) QuietShutdown ((processInitial ι d.registry k).handlers a)
      (emitted processStep (handlerActs a) (processInitial ι d.registry k) as) := by
  have halong := hquiet.invariant (fun _ _ _ => teardownInv_step hd.addr hd.refs)
    (teardownInv_initial d.registry hk)
  exact along_emitted (fun _ _ _ => run_handlerActs a)
    (fun s act h => quiet_handlerActs h.1 h.2 a) halong hrun

/--
出口の系の consumer が休んでいる。誰も呼び出しの中におらず眠っているか、`lmk_destroy` が終わっていて、
停止が隙間に入っていない。
-/
def OutletRests (K : Outlet ι S α) (h : Nat) (s₀ : OutletState ι S) (as : List (OutletAction ι α))
    (s : OutletState ι S) : Prop :=
  (∀ p, s.process.callers p = .idle) ∧ (K.handler s.outlet).thread = .parked ∨
    s.process.teardown = .done ∧
      Along (handlerStep .unbounded) StopsOutsideWindow (K.handler s₀.outlet) (seenBy K h s₀ as)

variable (hd : DispatchInv d) (hk : ∀ a, 1 ≤ k a)
  (hstart : s.whole K h = processInitial ι d.registry k)
  (hquiet : Along (outletStep K h) (OutletQuiet K h) s as)
  (hrun : run (outletStep K h) s as = some t)

include hd hk hstart hquiet hrun

theorem teardownInv_outlet : TeardownInv d.registry k (t.whole K h) := by
  have hprocess := whole_run hrun
  have halong := callersDone_run hquiet hrun
  rw [hstart] at hprocess halong
  exact run_invariant (fun _ _ _ => teardownInv_step hd.addr hd.refs)
    (teardownInv_initial d.registry hk) halong hprocess

/-- 休んでいる間は、誰も log の呼び出しの中にいない。 -/
theorem OutletRests.callers_idle (hrests : OutletRests K h s as t) :
    ∀ p, t.process.callers p = .idle := by
  rcases hrests with ⟨hidle, -⟩ | ⟨hdone, -⟩
  · exact hidle
  · refine (teardownInv_outlet hd hk hstart hquiet hrun).callers.stopped ?_
    show t.process.teardown ≠ .notCalled
    simp [hdone]

theorem producers_outlet (hidle : ∀ p, t.process.callers p = .idle) :
    ∀ p, (K.handler t.outlet).producers p = .idle := by
  intro p
  rw [← whole_handler (K := K) (h := h) t]
  have hp : (t.whole K h).callers p = .idle := hidle p
  exact (teardownInv_outlet hd hk hstart hquiet hrun).callers.producers_idle (by simp [hp])

/-- 休んでいる出口の系では、handler の consumer が休んでいる。 -/
theorem OutletRests.handlerRests (hlive : (d.registry.handler? h).isSome)
    (hrests : OutletRests K h s as t) :
    HandlerRests (K.handler s.outlet)
      (emitted K.step K.acts s.outlet (emitted (outletStep K h) (outletActs K h) s as))
      (K.handler t.outlet) := by
  have hidle := hrests.callers_idle hd hk hstart hquiet hrun
  rcases hrests with ⟨-, hparked⟩ | ⟨hdone, hwindow⟩
  · exact Or.inl ⟨producers_outlet hd hk hstart hquiet hrun hidle, hparked⟩
  · have hinv := teardownInv_outlet hd hk hstart hquiet hrun
    obtain ⟨hd', hhd⟩ := Option.isSome_iff_exists.mp hlive
    obtain ⟨hmem, haddr⟩ := handler?_eq_some hhd
    have hjoined := (hinv.after hdone).2 h (List.mem_map.mpr ⟨hd', hmem, haddr⟩)
    have hexited := (hinv.handlers.stopping h).join hjoined
    have hprocess := whole_run hrun
    have halong := callersDone_run hquiet hrun
    have hseen := process_seenBy hrun
    have hhandler := whole_handler (K := K) (h := h) s
    rw [hstart] at hprocess halong hseen hhandler
    have hstops := quiet_run hd hk halong hprocess h
    rw [hseen, hhandler] at hstops
    rw [whole_handler] at hexited
    rw [outlet_seenBy hrun]
    exact Or.inr ⟨hexited, hstops, hwindow⟩

/--
出口の系の claim には持ち主がいて、一人の claim は届く呼び出しの部分列である。consumer が休んでいて
drop も無ければ、抜けるものはない。
-/
theorem outlet_claims : ∃ owners : List ι,
    owners.length = (K.handler t.outlet).mem.hist.claims.length ∧
    ∀ p, ((claimsOf p owners (K.handler t.outlet).mem.hist.claims).map
        fun c => c.record.payload).Sublist
        (((calledBy p (processActions as)).filter fun call => d.Qualifies call h).map
          LogCall.payload) ∧
      (OutletRests K h s as t → (K.handler t.outlet).dropped = 0 →
        ((claimsOf p owners (K.handler t.outlet).mem.hist.claims).map fun c => c.record.payload)
          = ((calledBy p (processActions as)).filter fun call => d.Qualifies call h).map
              LogCall.payload) := by
  have hprocess := whole_run hrun
  have halong := callersDone_run hquiet hrun
  have hcalled := calledBy_processActs hrun
  rw [hstart] at hprocess halong
  have hlen := (orderInv_process hprocess h).1.length_owners
  have hsublist := fun p => claims_sublist_calls hd halong hprocess p h
  have hall := fun p => claims_eq_calls hd halong hprocess (p := p) (a := h)
  simp only [whole_handler, hcalled] at hlen hsublist hall
  refine ⟨_, hlen, fun p => ⟨hsublist p, ?_⟩⟩
  intro hrests hdropped
  have hidle := hrests.callers_idle hd hk hstart hquiet hrun
  refine hall p (hidle p) ?_
  obtain ⟨type, name, hinitial⟩ := handlers_initial ι d.registry k h
  have hhandler := run_handler h hprocess
  have hstops := quiet_run hd hk halong hprocess h
  unfold handlerTrace
  rw [hinitial] at hhandler hstops ⊢
  rw [whole_handler] at hhandler
  exact rejected_eq_nil hstops hhandler (producers_outlet hd hk hstart hquiet hrun hidle) hdropped p

end Quiet

end Logmoko
