import Logmoko.Process.Move
import Logmoko.Registry.Safety

/-!
# process の終了

`lmk_destroy` は logger をすべて壊してから、handler を list の順に一つずつ止めて壊す。
止めている間も、ほかの handler の consumer は勝手に動き、偽の起床も起こる。

誰も log の呼び出しの中にいなければ、`lmk_destroy` は始められて、終わる（`lmkDestroy_returns`）。

* 終了の動作（`destroy` の step と、止めている handler の consumer の step）には上限がある
* 終わっていなければ、終了の動作のどれかが必ず取れる
* 終わったときには、どの handler の consumer も抜けていて、registry は開始時の状態に戻っている
-/

namespace Logmoko

open Transition

variable {ι : Type} [DecidableEq ι] {s s' t : ProcessState ι} {act : ProcessAction ι}
  {as bs : List (ProcessAction ι)} {k : Nat → Nat} {r : Registry} {a : Nat}
  {u u' : HandlerState ι} {x : HandlerAction ι}

/-! ## 不変量 -/

/-- 止めている途中。`cursor` は、まだ壊していない handler である。 -/
structure Dropping (r : Registry) (cursor : List Nat) (s : ProcessState ι) : Prop where
  noLogger : s.registry.loggers = []
  live : s.registry.handlers.map LogHandler.addr = cursor
  unreferenced : ∀ h ∈ s.registry.handlers, h.nrLoggerRef = 0
  done : ∃ done, r.handlers.map LogHandler.addr = done ++ cursor ∧
    ∀ a ∈ done, (s.handlers a).destroy = .joined
  waiting : ∀ a ∈ cursor.tail, (s.handlers a).destroy = .notCalled

/-- handler の系の不変量と ring の大きさ。 -/
structure HandlersInv (k : Nat → Nat) (s : ProcessState ι) : Prop where
  stopping : ∀ a, StoppingInv (s.handlers a)
  size : ∀ a, (s.handlers a).mem.ring.size = 2 ^ k a

/-- 終了の議論に使う不変量。 -/
structure TeardownInv (r : Registry) (k : Nat → Nat) (s : ProcessState ι) : Prop where
  callers : CallersInv r s
  handlers : HandlersInv k s
  before : s.teardown = .notCalled → ∀ a, (s.handlers a).destroy = .notCalled
  during : ∀ cursor, s.teardown = .handlers cursor → Dropping r cursor s
  after : s.teardown = .done → s.registry = .initial ∧
    ∀ a ∈ r.handlers.map LogHandler.addr, (s.handlers a).destroy = .joined

omit [DecidableEq ι] in
theorem teardownInv_initial (r : Registry) (hk : ∀ a, 1 ≤ k a) :
    TeardownInv r k (processInitial ι r k) := by
  have hstart : ∀ a, ∃ type name,
      (processInitial ι r k).handlers a = handlerInitial ι type name (k a) := handlers_initial ι r k
  refine ⟨callersInv_initial r k, ⟨?_, ?_⟩, ?_, fun _ h => ?_, fun h => ?_⟩
  · intro a
    obtain ⟨type, name, heq⟩ := hstart a
    rw [heq]
    exact stoppingInv_initial type name (hk a)
  · intro a
    obtain ⟨type, name, heq⟩ := hstart a
    rw [heq]
    exact lmkRingInit_mask
  · intro _ a
    obtain ⟨type, name, heq⟩ := hstart a
    rw [heq]
    rfl
  · cases h
  · cases h

/-! ## handler の一 step -/

/-- `destroy` のほかの動作は、`destroy` の位置を変えない。 -/
theorem destroy_of_quiet (hs : handlerStep .unbounded u x = some u') (hx : x ≠ .destroy) :
    u'.destroy = u.destroy := by
  cases x with
  | destroy => exact absurd rfl hx
  | logImpl p record => cases handlerStep_move hs with | logImpl => rfl
  | producer p b => exact (handlerStep_move hs).producer_frame.1
  | thread => exact (handlerStep_move hs).thread_frame.1
  | spuriousWakeup => cases handlerStep_move hs with | spuriousWakeup => rfl

theorem size_handlerStep (hs : handlerStep .unbounded u x = some u') :
    u'.mem.ring.size = u.mem.ring.size := by
  obtain ⟨acts, hacts⟩ := exists_ring_run hs
  exact Reachable.invariant (I := fun w => w.mem.ring.size = u.mem.ring.size)
    (fun _ _ _ hm hw => (congrArg (· + 1) (mask_step hw)).trans hm) rfl ⟨acts, hacts⟩

theorem HandlersInv.setHandler (h : HandlersInv k s)
    (hs : handlerStep .unbounded (s.handlers a) x = some u) (hq : QuietShutdown (s.handlers a) x) :
    HandlersInv k (s.setHandler a u) := by
  constructor
  · intro b
    by_cases hb : b = a
    · subst hb
      rw [setHandler_self]
      exact (h.stopping b).step hq hs
    · rw [setHandler_of_ne s u hb]
      exact h.stopping b
  · intro b
    by_cases hb : b = a
    · subst hb
      rw [setHandler_self, size_handlerStep hs]
      exact h.size b
    · rw [setHandler_of_ne s u hb]
      exact h.size b

theorem destroy_setHandler (hs : handlerStep .unbounded (s.handlers a) x = some u)
    (hx : x ≠ .destroy) (b : Nat) :
    ((s.setHandler a u).handlers b).destroy = (s.handlers b).destroy := by
  by_cases hb : b = a
  · subst hb
    rw [setHandler_self, destroy_of_quiet hs hx]
  · rw [setHandler_of_ne s u hb]

/-! ## process の一 step -/

/-- `destroy` のほかの動作は、終了の位置にも registry にも触らない。 -/
theorem frame_of_quiet (hs : processStep s act = some s') (hact : act ≠ .destroy) :
    s'.teardown = s.teardown ∧ s'.registry = s.registry ∧
      ∀ b, (s'.handlers b).destroy = (s.handlers b).destroy := by
  cases processStep_move hs with
  | destroyLoggers | keepHandler | destroyHandler | freeHandler | destroyed =>
    exact absurd rfl hact
  | ignored | begun | finished | skipped => exact ⟨rfl, rfl, fun _ => rfl⟩
  | offered hp hlevel hu | inside hp hu | returned hp hu | consumer hh hu
  | spuriousWakeup hh hu => exact ⟨rfl, rfl, destroy_setHandler hu (by simp)⟩

theorem TeardownInv.handlers_step (h : TeardownInv r k s) (hs : processStep s act = some s') :
    HandlersInv k s' := by
  cases processStep_move hs with
  | ignored | begun | finished | skipped | destroyLoggers | keepHandler | freeHandler
  | destroyed => exact ⟨h.handlers.stopping, h.handlers.size⟩
  | offered hp hlevel hu =>
    have hu' := h.handlers.setHandler hu (h.before (h.callers.notCalled hp rfl) _)
    exact ⟨hu'.stopping, hu'.size⟩
  | inside hp hu | consumer hh hu | spuriousWakeup hh hu => exact h.handlers.setHandler hu trivial
  | returned hp hu =>
    have hu' := h.handlers.setHandler hu trivial
    exact ⟨hu'.stopping, hu'.size⟩
  | destroyHandler ht hh href hd hu =>
    refine h.handlers.setHandler hu ?_
    intro _ p
    exact h.callers.producers_idle (by simp [h.callers.stopped (by simp [ht]) p])

/-- logger の loop の後。logger はもう無く、どの handler も参照されていない。 -/
theorem dropping_loggers (ha : AddrInv r) (hr : RefInv r) : ∃ q,
    Cursor.forEachEntry loggerEntries (destroyLoggerEntry r.fuel) r.fuel (r, .empty) = some q ∧
      q.1.loggers = [] ∧ q.1.handlers.map LogHandler.addr = r.handlers.map LogHandler.addr ∧
      ∀ h ∈ q.1.handlers, h.nrLoggerRef = 0 := by
  have hstart : DroppingLoggers r (r, .empty) :=
    ⟨ha, hr, ⟨[], rfl, rfl⟩, rfl, rfl, rfl, by simp [DestroyLog.empty], rfl⟩
  have hlen : (loggerEntries (r, .empty)).length ≤ r.fuel := by
    rw [loggerEntries, List.length_map, Registry.fuel, Nat.add_assoc]
    exact Nat.le_add_right _ _
  obtain ⟨q, hq, hnil, hs⟩ := Cursor.forEachEntry_removes
    (fun s x rest hs hx => destroyLoggerEntry_spec (fun _ => handlerRefList_le_fuel) hs hx) hstart
    hlen
  have hloggers : q.1.loggers = [] := List.map_eq_nil_iff.mp hnil
  refine ⟨q, hq, hloggers, hs.handlerAddrs, ?_⟩
  intro h hm
  rw [hs.ref.counts h hm]
  simp [Registry.refCount, hloggers]

omit [DecidableEq ι] in
/-- handler を一つ止めている間の step。 -/
theorem Dropping.destroyHandler {cursor : List Nat}
    (hnodup : (r.handlers.map LogHandler.addr).Nodup) (h : Dropping r (a :: cursor) s) :
    Dropping r (a :: cursor) (s.setHandler a u) := by
  obtain ⟨done, hdone, hjoined⟩ := h.done
  rw [hdone] at hnodup
  obtain ⟨-, hcursor, hdisjoint⟩ := List.nodup_append.mp hnodup
  refine ⟨h.noLogger, h.live, h.unreferenced, ⟨done, hdone, ?_⟩, ?_⟩
  · intro b hb
    rw [setHandler_of_ne s u (hdisjoint b hb a List.mem_cons_self)]
    exact hjoined b hb
  · intro b hb
    have hne : b ≠ a := by
      rintro rfl
      exact (List.nodup_cons.mp hcursor).1 hb
    rw [setHandler_of_ne s u hne]
    exact h.waiting b hb

omit [DecidableEq ι] in
/-- 止め終えた handler を壊す step。 -/
theorem Dropping.freeHandler {cursor : List Nat}
    (hnodup : (r.handlers.map LogHandler.addr).Nodup) (h : Dropping r (a :: cursor) s)
    (hj : (s.handlers a).destroy = .joined) :
    Dropping r cursor { s with
      registry := (lmkDestroyLogHandler s.registry (some a)).1, teardown := .handlers cursor } := by
  obtain ⟨done, hdone, hjoined⟩ := h.done
  rw [hdone] at hnodup
  obtain ⟨hd, hds, hhds, rfl, hrest⟩ := List.map_eq_cons_iff.mp h.live
  have hmem : hd ∈ s.registry.handlers := by simp [hhds]
  have hlive : (s.registry.handlers.map LogHandler.addr).Nodup := by
    rw [h.live]
    exact (List.nodup_append.mp hnodup).2.1
  have hfree : (lmkDestroyLogHandler s.registry (some hd.addr)).1
      = { s.registry with handlers := hds } := by
    have hfilter : s.registry.handlers.filter (fun h => h.addr ≠ hd.addr) = hds := by
      rw [hhds] at hlive ⊢
      exact filter_key_cons hlive
    have hfind : s.registry.handler? hd.addr = some hd := Keyed.find?_key hlive hmem
    unfold lmkDestroyLogHandler
    simp only [Option.bind_some, hfind]
    rw [if_neg (by simp [h.unreferenced hd hmem]), hfilter]
  refine ⟨?_, ?_, ?_, ⟨done ++ [hd.addr], ?_, ?_⟩, ?_⟩
  · rw [hfree]
    exact h.noLogger
  · rw [hfree]
    exact hrest
  · rw [hfree]
    exact fun x hx => h.unreferenced x (by rw [hhds]; exact List.mem_cons_of_mem _ hx)
  · rw [hdone, List.append_assoc]
    rfl
  · intro b hb
    rcases List.mem_append.mp hb with hb | hb
    · exact hjoined b hb
    · obtain rfl := List.mem_singleton.mp hb
      exact hj
  · exact fun b hb => h.waiting b (List.mem_of_mem_tail hb)

theorem teardownInv_step (ha : AddrInv r) (hr : RefInv r) (h : TeardownInv r k s)
    (hq : CallersDone s act) (hs : processStep s act = some s') : TeardownInv r k s' := by
  have hcallers := callersInv_step h.callers hq hs
  have hhandlers := h.handlers_step hs
  by_cases hact : act = .destroy
  · subst hact
    cases processStep_move hs with
    | destroyLoggers ht hloop =>
      rw [h.callers.registry ht] at hloop
      obtain ⟨q, hq', hloggers, haddrs, href⟩ := dropping_loggers ha hr
      obtain rfl := Option.some.inj (hq'.symm.trans hloop)
      refine ⟨hcallers, hhandlers, by simp, ?_, by simp⟩
      rintro cursor ⟨⟩
      exact ⟨hloggers, rfl, href, ⟨[], haddrs.symm, by simp⟩, fun a _ => h.before ht a⟩
    | keepHandler ht hh href =>
      have hzero := (h.during _ ht).unreferenced _ (handler?_eq_some hh).1
      omega
    | destroyHandler ht hh href hj hu =>
      refine ⟨hcallers, hhandlers, ?_, ?_, ?_⟩
      · exact fun hd => absurd (ht.symm.trans hd) (by simp)
      · intro cursor hd
        obtain rfl := TeardownPc.handlers.inj (ht.symm.trans hd)
        exact (h.during _ ht).destroyHandler ha.handlerAddrs
      · exact fun hd => absurd (ht.symm.trans hd) (by simp)
    | freeHandler ht hh href hj =>
      refine ⟨hcallers, hhandlers, by simp, ?_, by simp⟩
      rintro cursor ⟨⟩
      exact (h.during _ ht).freeHandler ha.handlerAddrs hj
    | destroyed ht =>
      have hdrop := h.during _ ht
      obtain ⟨done, hdone, hjoined⟩ := hdrop.done
      refine ⟨hcallers, hhandlers, by simp, by simp, fun _ => ⟨?_, ?_⟩⟩
      · show ({ s.registry with initialized := false, config := none } : Registry) = _
        simp only [Registry.initial, hdrop.noLogger, List.map_eq_nil_iff.mp hdrop.live]
      · rw [hdone, List.append_nil]
        exact hjoined
  · obtain ⟨hteardown, hregistry, hdestroy⟩ := frame_of_quiet hs hact
    refine ⟨hcallers, hhandlers, ?_, ?_, ?_⟩
    · intro hd b
      rw [hdestroy b]
      exact h.before (hteardown ▸ hd) b
    · intro cursor hd
      have hdrop := h.during cursor (hteardown ▸ hd)
      obtain ⟨done, hdone, hjoined⟩ := hdrop.done
      refine ⟨hregistry ▸ hdrop.noLogger, hregistry ▸ hdrop.live, hregistry ▸ hdrop.unreferenced,
        ⟨done, hdone, ?_⟩, ?_⟩
      · exact fun b hb => (hdestroy b).trans (hjoined b hb)
      · exact fun b hb => (hdestroy b).trans (hdrop.waiting b hb)
    · intro hd
      obtain ⟨hinitial, hjoined⟩ := h.after (hteardown ▸ hd)
      exact ⟨hregistry ▸ hinitial, fun b hb => (hdestroy b).trans (hjoined b hb)⟩

/-! ## 残りの step 数 -/

/-- 一つの handler の分。停止が始まっていなければ、上限で数える。 -/
def HandlerState.teardownSteps (u : HandlerState ι) (k : Nat) : Nat :=
  if u.destroy = .notCalled then 4 * 2 ^ k + 16 else u.stopSteps

/-- 始まった終了の残り。 -/
def ProcessState.teardownSteps (s : ProcessState ι) (k : Nat → Nat) : Nat :=
  match s.teardown with
  | .handlers cursor => (cursor.map fun a => (s.handlers a).teardownSteps (k a) + 1).sum + 1
  | .notCalled | .done => 0

/-- 終了の動作。`destroy` の step と、止めている handler の consumer の step である。 -/
def teardownActs (s : ProcessState ι) : ProcessAction ι → List (ProcessAction ι)
  | .destroy => [.destroy]
  | .consumer a => if (s.handlers a).destroy = .notCalled then [] else [.consumer a]
  | .spuriousWakeup a => if (s.handlers a).destroy = .notCalled then [] else [.spuriousWakeup a]
  | .log _ _ | .offer _ | .logImpl _ _ => []

/-- 止めている handler の step は、残りを減らす。 -/
theorem teardownSteps_lt {k : Nat} (h : StoppingInv u) (hsize : u.mem.ring.size = 2 ^ k)
    (hs : handlerStep .unbounded u x = some u') (hq : QuietShutdown u x)
    (hx : u.destroy = .notCalled → x = .destroy) : u'.teardownSteps k < u.teardownSteps k := by
  unfold HandlerState.teardownSteps
  by_cases hd : u.destroy = .notCalled
  · obtain rfl := hx hd
    have hd' : u'.destroy ≠ .notCalled := by
      cases handlerStep_move hs <;> simp
    have hle := stopSteps_le (h.step hq hs).ring ((size_handlerStep hs).trans hsize) hd'
    rw [if_pos hd, if_neg hd']
    omega
  · rw [if_neg hd, if_neg (destroy_step hd hs)]
    exact stopSteps_lt h.ring h.stop hd hq hs

/-- まだ止めていない handler の step は、残りを変えない。 -/
theorem teardownSteps_eq {k : Nat} (hs : handlerStep .unbounded u x = some u')
    (hd : u.destroy = .notCalled) (hx : x ≠ .destroy) : u'.teardownSteps k = u.teardownSteps k := by
  unfold HandlerState.teardownSteps
  rw [if_pos hd, if_pos ((destroy_of_quiet hs hx).trans hd)]

/-- 一か所だけが `n` 減れば、和も `n` 減る。 -/
theorem sum_map_add_le {α : Type} {l : List α} {f g : α → Nat} {x : α} {n : Nat} (hx : x ∈ l)
    (hle : ∀ y ∈ l, g y ≤ f y) (hn : n + g x ≤ f x) : n + (l.map g).sum ≤ (l.map f).sum := by
  obtain ⟨l₁, l₂, rfl⟩ := List.append_of_mem hx
  have h₁ : (l₁.map g).sum ≤ (l₁.map f).sum :=
    List.sum_le_sum fun y hy => hle y (List.mem_append_left _ hy)
  have h₂ : (l₂.map g).sum ≤ (l₂.map f).sum :=
    List.sum_le_sum fun y hy => hle y (List.mem_append_right _ (List.mem_cons_of_mem _ hy))
  simp only [List.map_append, List.map_cons, List.sum_append, List.sum_cons]
  omega

omit [DecidableEq ι] in
/-- 一つの handler の残りが `n` 減れば、全体の残りも `n` 減る。 -/
theorem teardownSteps_setHandler {cursor : List Nat} {n : Nat} (ht : s.teardown = .handlers cursor)
    (ha : a ∈ cursor) (hn : n + u.teardownSteps (k a) ≤ (s.handlers a).teardownSteps (k a)) :
    n + (s.setHandler a u).teardownSteps k ≤ s.teardownSteps k := by
  have ht' : (s.setHandler a u).teardown = .handlers cursor := ht
  have hsum := sum_map_add_le (n := n)
    (f := fun b => (s.handlers b).teardownSteps (k b) + 1)
    (g := fun b => ((s.setHandler a u).handlers b).teardownSteps (k b) + 1) ha ?_ ?_
  · simp only [ProcessState.teardownSteps, ht, ht']
    omega
  · intro b _
    by_cases hb : b = a
    · subst hb
      simp only [setHandler_self]
      omega
    · simp only [setHandler_of_ne s u hb]
      exact Nat.le_refl _
  · simp only [setHandler_self]
    omega

omit [DecidableEq ι] in
/-- 解放されていない handler は、まだ壊していないものの中にある。 -/
theorem TeardownInv.exists_cursor (h : TeardownInv r k s) (ht : s.teardown ≠ .notCalled)
    {hd : LogHandler} (hh : s.registry.handler? a = some hd) :
    ∃ cursor, s.teardown = .handlers cursor ∧ a ∈ cursor := by
  obtain ⟨hmem, rfl⟩ := handler?_eq_some hh
  cases hc : s.teardown with
  | notCalled => exact absurd hc ht
  | done =>
    rw [(h.after hc).1] at hmem
    cases hmem
  | handlers cursor =>
    refine ⟨cursor, rfl, ?_⟩
    rw [← (h.during cursor hc).live]
    exact List.mem_map_of_mem hmem

/-- consumer の step は、止めている handler の残りだけを減らす。 -/
theorem TeardownInv.teardownSteps_waiting (h : TeardownInv r k s) {b : ProcessAction ι}
    (hs : handlerStep .unbounded (s.handlers a) x = some u) (hx : x ≠ .destroy)
    (hq : QuietShutdown (s.handlers a) x) :
    (if (s.handlers a).destroy = .notCalled then [] else [b]).length + u.teardownSteps (k a)
      ≤ (s.handlers a).teardownSteps (k a) := by
  by_cases hd : (s.handlers a).destroy = .notCalled
  · rw [if_pos hd, teardownSteps_eq hs hd hx]
    exact Nat.le_of_eq (Nat.zero_add _)
  · have hlt := teardownSteps_lt (h.handlers.stopping a) (h.handlers.size a) hs hq
      fun he => absurd he hd
    rw [if_neg hd, List.length_singleton]
    omega

/-- 終了の動作は残りを減らし、ほかの動作は増やさない。 -/
theorem teardownSteps_step (h : TeardownInv r k s) (ht : s.teardown ≠ .notCalled)
    (hs : processStep s act = some s') :
    (teardownActs s act).length + s'.teardownSteps k ≤ s.teardownSteps k := by
  cases processStep_move hs with
  | ignored _ hp ht' | begun hp ht' | destroyLoggers ht' => exact absurd ht' ht
  | finished hp | skipped hp | offered hp | inside hp | returned hp =>
    exact absurd (h.callers.notCalled hp rfl) ht
  | @consumer b hd u hh hu | @spuriousWakeup b hd u hh hu =>
    obtain ⟨cursor, hcursor, hmem⟩ := h.exists_cursor ht hh
    refine teardownSteps_setHandler hcursor hmem ?_
    exact h.teardownSteps_waiting hu (by simp) trivial
  | keepHandler ht' hh href =>
    have hzero := (h.during _ ht').unreferenced _ (handler?_eq_some hh).1
    omega
  | @destroyHandler b cursor hd u ht' hh href hj hu =>
    refine teardownSteps_setHandler ht' List.mem_cons_self ?_
    have hidle : QuietShutdown (s.handlers b) .destroy := by
      intro _ p
      exact h.callers.producers_idle (by simp [h.callers.stopped ht p])
    have hlt := teardownSteps_lt (h.handlers.stopping b) (h.handlers.size b) hu hidle fun _ => rfl
    rw [teardownActs, List.length_singleton]
    omega
  | freeHandler ht' hh href hj =>
    simp only [teardownActs, ProcessState.teardownSteps, ht', List.map_cons, List.sum_cons,
      List.length_singleton]
    omega
  | destroyed ht' => simp [teardownActs, ProcessState.teardownSteps, ht']

/-! ## 進めない状態 -/

/-- 終わっていなければ、終了の動作のどれかが取れる。 -/
theorem teardown_progress (ha : AddrInv r) (hr : RefInv r) (h : TeardownInv r k s)
    (hdone : s.teardown ≠ .done) :
    ∃ act, (teardownActs s act).length = 1 ∧ processStep s act ≠ none := by
  cases ht : s.teardown with
  | done => exact absurd ht hdone
  | notCalled =>
    obtain ⟨q, hq, -⟩ := dropping_loggers ha hr
    refine ⟨.destroy, rfl, ?_⟩
    simp [processStep, teardownStep, ht, h.callers.registry ht, hq]
  | handlers cursor =>
    cases cursor with
    | nil => exact ⟨.destroy, rfl, by simp [processStep, teardownStep, ht]⟩
    | cons a cursor =>
      have hdrop := h.during _ ht
      obtain ⟨hd, hds, hhds, rfl, -⟩ := List.map_eq_cons_iff.mp hdrop.live
      have hmem : hd ∈ s.registry.handlers := by simp [hhds]
      have hfind : s.registry.handler? hd.addr = some hd := by
        simp [Registry.handler?, hhds]
      have hzero := hdrop.unreferenced hd hmem
      by_cases hj : (s.handlers hd.addr).destroy = .joined
      · exact ⟨.destroy, rfl, by simp [processStep, teardownStep, ht, hfind, hzero, hj]⟩
      · by_cases hdes : handlerStep .unbounded (s.handlers hd.addr) .destroy = none
        · -- `destroy` が進めないのは、止め始めた後に lock か consumer を待つときである
          have hstarted : (s.handlers hd.addr).destroy ≠ .notCalled := by
            intro he
            simp [handlerStep, destroyStep, he] at hdes
          have hthread : handlerStep .unbounded (s.handlers hd.addr) .thread ≠ none := by
            intro hnone
            have hs := h.handlers.stopping hd.addr
            exact hj (stopped_of_stuck hs.wake hs.lock hs.stop hstarted hnone hdes).2
          refine ⟨.consumer hd.addr, by simp [teardownActs, hstarted], ?_⟩
          simpa [processStep, ProcessState.stepHandler, hfind] using hthread
        · refine ⟨.destroy, rfl, ?_⟩
          simpa [processStep, teardownStep, ht, hfind, hzero, hj, ProcessState.stepHandler]
            using hdes

/-! ## 主結果 -/

/-- 始まった終了は、取り消されない。 -/
theorem started_step (ht : s.teardown ≠ .notCalled) (hs : processStep s act = some s') :
    s'.teardown ≠ .notCalled := by
  by_cases hact : act = .destroy
  · subst hact
    cases processStep_move hs with
    | destroyHandler => exact ht
    | destroyLoggers | keepHandler | freeHandler | destroyed => simp
  · rw [(frame_of_quiet hs hact).1]
    exact ht

omit [DecidableEq ι] in
theorem callersDone_of_started (ht : s.teardown ≠ .notCalled) (act : ProcessAction ι) :
    CallersDone s act := by
  cases act with
  | destroy => exact fun hd => absurd hd ht
  | log | offer | logImpl | consumer | spuriousWakeup => trivial

variable {env : Env} {auto : Option Cfg} {r₀ : Registry} {ops : List RegistryOp}
  {d : DispatchState}

/-- 終了はいつでも始められ、logger の loop は一 step で済む。 -/
theorem exists_started (ha : AddrInv r) (hr : RefInv r) (h : TeardownInv r k s)
    (ht : s.teardown = .notCalled) : ∃ u, processStep s .destroy = some u ∧
      u.teardown = .handlers (r.handlers.map LogHandler.addr) ∧ u.handlers = s.handlers := by
  obtain ⟨q, hq, -, haddrs, -⟩ := dropping_loggers ha hr
  rw [← h.callers.registry ht] at hq
  refine ⟨{ s with registry := q.1, teardown := .handlers (q.1.handlers.map LogHandler.addr) },
    ?_, congrArg _ haddrs, rfl⟩
  simp only [processStep, teardownStep, ht, hq, Option.map_some]

/--
**`lmk_destroy` は終わる。**

設定を終えた registry から任意個の thread が log を呼び、誰も呼び出しの中にいない状態に着いたとする。
そこで `lmk_destroy` は始められる。始まった後は、どの consumer がどう動き、偽の起床がどう起こっても、

* 終了の動作は、handler ごとに高々 `4 * 2 ^ k + 17` 回、全体でさらに二回しか取れない
* 終わっていなければ、終了の動作のどれかが取れる
* 終わったときには、registry は開始時の状態に戻り、どの handler の consumer も抜けて join されている
-/
theorem lmkDestroy_returns (hinit : lmkInit env auto Registry.initial = some r₀)
    (hsetup : run (dispatchStep env) (dispatchInitial r₀) (ops.map .op) = some d)
    (hfit : Along (dispatchStep env) (fun s _ => s.LoggersFit) (dispatchInitial r₀) (ops.map .op))
    (hk : ∀ a, 1 ≤ k a) (hrun : run processStep (processInitial ι d.registry k) as = some s)
    (hquiet : Along processStep CallersDone (processInitial ι d.registry k) as)
    (ht : s.teardown = .notCalled) (hidle : ∀ p, s.callers p = .idle) :
    (∃ u, processStep s .destroy = some u) ∧
    ∀ bs t, run processStep s (.destroy :: bs) = some t →
      (emitted processStep teardownActs s (.destroy :: bs)).length
        ≤ ((d.registry.handlers.map LogHandler.addr).map fun a => 4 * 2 ^ k a + 17).sum + 2 ∧
      (t.teardown ≠ .done → ∃ act, teardownActs t act ≠ [] ∧ processStep t act ≠ none) ∧
      (t.teardown = .done → t.registry = .initial ∧
        ∀ h ∈ d.registry.handlers, (t.handlers h.addr).thread = .exited ∧
          (t.handlers h.addr).destroy = .joined) := by
  have hd : DispatchInv d := (dispatchInv_initial hinit).run hfit hsetup
  have hs : TeardownInv d.registry k s :=
    run_invariant (fun _ _ _ h hq hs => teardownInv_step hd.addr hd.refs h hq hs)
      (teardownInv_initial d.registry hk) hquiet hrun
  obtain ⟨u, hu, hteardown, hhandlers⟩ := exists_started hd.addr hd.refs hs ht
  refine ⟨⟨u, hu⟩, ?_⟩
  intro bs t hbs
  obtain ⟨u', hu', hrest⟩ := run_cons_eq_some.mp hbs
  obtain rfl : u = u' := Option.some.inj (hu.symm.trans hu')
  have hquiet : CallersDone s .destroy := fun _ => hidle
  have hstart : TeardownInv d.registry k u ∧ u.teardown ≠ .notCalled :=
    ⟨teardownInv_step hd.addr hd.refs hs hquiet hu, by simp [hteardown]⟩
  have hstep : ∀ (s : ProcessState ι) act s',
      TeardownInv d.registry k s ∧ s.teardown ≠ .notCalled → True → processStep s act = some s' →
        TeardownInv d.registry k s' ∧ s'.teardown ≠ .notCalled := by
    rintro s act s' ⟨h, hne⟩ - hs
    exact ⟨teardownInv_step hd.addr hd.refs h (callersDone_of_started hne act) hs,
      started_step hne hs⟩
  have halong : Along processStep (fun _ _ => True) u bs := along_of_forall fun _ _ => trivial
  obtain ⟨hend, -⟩ := run_invariant hstep hstart halong hrest
  refine ⟨?_, ?_, ?_⟩
  · have hlen := emitted_length_le (μ := fun s : ProcessState ι => s.teardownSteps k) teardownActs
      hstep (fun s act s' hI _ hs => teardownSteps_step hI.1 hI.2 hs) hstart halong hrest
    have hfirst : u.teardownSteps k
        = ((d.registry.handlers.map LogHandler.addr).map fun a => 4 * 2 ^ k a + 17).sum + 1 := by
      simp only [ProcessState.teardownSteps, HandlerState.teardownSteps, hteardown, hhandlers,
        hs.before ht, if_pos]
    rw [emitted_cons hu, List.length_append, teardownActs, List.length_singleton]
    omega
  · intro hne
    obtain ⟨act, hlen, hact⟩ := teardown_progress hd.addr hd.refs hend hne
    exact ⟨act, List.ne_nil_of_length_pos (hlen ▸ Nat.one_pos), hact⟩
  · intro hdone
    obtain ⟨hinitial, hjoined⟩ := hend.after hdone
    refine ⟨hinitial, fun h hh => ?_⟩
    have hj := hjoined h.addr (List.mem_map_of_mem hh)
    exact ⟨(hend.handlers.stopping h.addr).join hj, hj⟩

/-- 一つ log を呼ぶ。 -/
def farewellRun : List (ProcessAction Unit) :=
  [.log () (helloCall (ascii "hi")), .offer ()] ++ List.replicate 16 (.logImpl () false) ++
    [.offer ()]

/-- 残っている record を受け取ってから止まる。 -/
def farewellRest : List (ProcessAction Unit) :=
  List.replicate 4 .destroy ++ List.replicate 7 (.consumer 2) ++ List.replicate 3 .destroy

theorem lmkDestroy_returns_farewellRun :
    ∃ d s t,
      run (dispatchStep .loopback) (dispatchInitial readyRegistry) (helloOps.map .op) = some d ∧
      run processStep (processInitial Unit d.registry fun _ => 1) farewellRun = some s ∧
      run processStep s (.destroy :: farewellRest) = some t ∧
      (t.handlers 2).mem.hist.consumed.length = 1 ∧ t.registry = .initial ∧
      ∀ h ∈ d.registry.handlers, (t.handlers h.addr).thread = .exited := by
  have hfit : Along (dispatchStep .loopback) (fun s _ => s.LoggersFit)
      (dispatchInitial readyRegistry) (helloOps.map .op) := by decide +kernel
  have hsome : (run (dispatchStep .loopback) (dispatchInitial readyRegistry)
      (helloOps.map .op)).isSome := by decide +kernel
  obtain ⟨d, hd⟩ := Option.isSome_iff_exists.mp hsome
  have hpc : ((run (dispatchStep .loopback) (dispatchInitial readyRegistry)
      (helloOps.map .op)).bind fun d =>
        (run processStep (processInitial Unit d.registry fun _ => 1) farewellRun).bind fun s =>
          (run processStep s (.destroy :: farewellRest)).map fun t =>
            ((decide (s.teardown = .notCalled), (s.callers ()).isIdle),
              decide (t.teardown = .done), (t.handlers 2).mem.hist.consumed.length))
        = some ((true, true), true, 1) := by decide +kernel
  rw [hd, Option.bind_some] at hpc
  obtain ⟨s, hs, hpc⟩ := Option.bind_eq_some_iff.mp hpc
  obtain ⟨t, ht, hp⟩ := Option.map_eq_some_iff.mp hpc
  simp only [Prod.mk.injEq, decide_eq_true_eq, CallerPc.isIdle_iff] at hp
  obtain ⟨⟨hnot, hidle⟩, hdone, hconsumed⟩ := hp
  have hquiet : Along processStep CallersDone (processInitial Unit d.registry fun _ => 1)
      farewellRun := callersDone_of_notDestroy (by simp [farewellRun])
  obtain ⟨-, hall⟩ := lmkDestroy_returns (lmkInit_readyRegistry .loopback) hd hfit
    (fun _ => Nat.le_refl 1) hs hquiet hnot fun _ => hidle
  obtain ⟨hinitial, hexited⟩ := (hall farewellRest t ht).2.2 hdone
  exact ⟨d, s, t, hd, hs, ht, hconsumed, hinitial, fun h hh => (hexited h hh).1⟩

end Logmoko
