import Logmoko.Lib.Fifo
import Logmoko.Ring.Calls
import Logmoko.Ring.Machine
import Mathlib.Data.Fintype.Basic

/-!
# ring は FIFO queue を実装する

成功した CAS を「入れる」、consumer が slot を手放す store を「出す」と読むと、
ring の実行は容量 `2 ^ k` の FIFO queue（`Fifo.step`）の実行になる。
抽象側の列は呼び出しの列で、届いた request は対応する呼び出しの record を運ぶ（`Carries`）。

抽象の queue に「入らない」step は無いので、この写し方には
「CAS が成功したなら queue は満杯でない」が含まれている。
-/

namespace Logmoko

open Transition

variable {ι : Type}

/-- ring の状態を、呼び出しの FIFO queue として読む。 -/
def Shared.toQueue (m : Shared) : Fifo.Queue EnqueueCall :=
  { items := m.hist.claims.drop m.released
    inputs := m.hist.claims
    outputs := m.hist.claims.take m.released }

variable {k : Nat} {s s' : RingState ι} {a : RingAction ι}

theorem step_enq_toQueue (h : RingInv s) {p : ι} {c : EnqueueCall}
    (hp : s.producers p = .inCall c (.cas s.mem.ring.head)) :
    Fifo.step s.mem.ring.size s.mem.toQueue (.enq c) = some (s.mem.claim c).toQueue := by
  have hroom : s.mem.ring.head < s.mem.released + s.mem.ring.size := by
    have := h.producer p
    rw [hp] at this
    exact this.2
  have hle : s.mem.released ≤ s.mem.hist.claims.length := h.head_eq ▸ h.released_le
  have hlen : s.mem.toQueue.items.length < s.mem.ring.size := by
    have := h.head_eq
    show (s.mem.hist.claims.drop s.mem.released).length < _
    rw [List.length_drop]
    omega
  rw [Fifo.step, if_pos hlen]
  simp only [Shared.toQueue, Shared.claim, Shared.released, Option.some.injEq,
    Fifo.Queue.mk.injEq] at *
  exact ⟨(List.drop_append_of_le_length hle).symm, trivial,
    (List.take_append_of_le_length hle).symm⟩

theorem step_deq_toQueue (h : RingInv s) {req : LogRequest} (hc : s.consumer = .processed req) :
    Fifo.step s.mem.ring.size s.mem.toQueue .deq = some (s.mem.release req).toQueue := by
  have hok := h.consumer
  rw [hc] at hok
  obtain ⟨_, _, c, hclaim, _⟩ := hok
  have ht : s.mem.ring.tail = s.mem.released := by
    have := h.tail_eq
    rw [hc] at this
    exact this
  rw [ht] at hclaim
  have hitems : s.mem.toQueue.items = c :: s.mem.hist.claims.drop (s.mem.released + 1) := by
    obtain ⟨hlt, hget⟩ := List.getElem?_eq_some_iff.mp hclaim
    show s.mem.hist.claims.drop s.mem.released = _
    rw [List.drop_eq_getElem_cons hlt, hget]
  have hrel : (s.mem.release req).released = s.mem.released + 1 := by
    simp [Shared.released, Shared.release, History.consume]
  rw [Fifo.step, hitems]
  simp only [Shared.toQueue, hrel, Option.some.injEq, Fifo.Queue.mk.injEq]
  exact ⟨rfl, rfl, (take_succ_of_getElem? hclaim).symm⟩

variable [DecidableEq ι]

/-- ring の一 step に対応する queue の操作。 -/
theorem exists_ops_toQueue (h : RingInv s) (hs : ringStep .unbounded s a = some s') :
    ∃ ops, run (Fifo.step s.mem.ring.size) s.mem.toQueue ops = some s'.mem.toQueue := by
  cases ringStep_move hs with
  | @casOk p c hp => exact ⟨[.enq c], by simp [run, step_enq_toQueue h hp]⟩
  | release hc => exact ⟨[.deq], by simp [run, step_deq_toQueue h hc]⟩
  | call | loadHead | seqReady | seqFull | seqAhead | casFail | write | publish | ret | peekReady
  | peekEmpty | process | advance => exact ⟨[], rfl⟩

/-- 桁あふれのない ring の状態は、どれも FIFO queue の実行で得られる。 -/
theorem reachable_toQueue (hk : 1 ≤ k)
    (h : Reachable (ringStep .unbounded) (ringInitial ι k) s) :
    Reachable (Fifo.step (2 ^ k)) Fifo.empty s.mem.toQueue := by
  refine Reachable.simulates (f := fun s : RingState ι => s.mem.toQueue) ?_ h
  intro u a u' hu hs
  rw [← size_reachable hu]
  exact exists_ops_toQueue (ringInv_reachable hk hu) hs

/--
**ring は FIFO queue を実装する。**

64 bit の cursor が `2 ^ 63` に届かない実行のどの状態でも、

* ring は、成功した CAS の順に呼び出しを受け取る容量 `2 ^ k` の FIFO queue の実行で説明でき、
  consumer が受け取った request は、その queue が出した呼び出しの record を一つずつ運ぶ
* 従って受け取られた列は、CAS の順の列の先頭である
* どの呼び出しも位置を二つ取らず、1 を返した呼び出しはちょうど一つ、0 を返した呼び出しは
  一つも取らない
-/
theorem ring_refines_fifo (hk : 1 ≤ k) {as : List (RingAction ι)}
    (hrun : run (ringStep (.machine 64)) (ringInitial ι k) as = some s)
    (hcur : Along (ringStep (.machine 64)) (fun s _ => s.CursorsBelow (2 ^ 63))
      (ringInitial ι k) as) :
    (∃ ops q, run (Fifo.step (2 ^ k)) Fifo.empty ops = some q ∧ q.inputs = s.mem.hist.claims ∧
      List.Forall₂ Carries s.mem.hist.consumed q.outputs) ∧
    (∃ seg, seg <+: s.mem.hist.claims ∧ List.Forall₂ Carries s.mem.hist.consumed seg) ∧
    s.mem.hist.claimIds.Nodup ∧ s.mem.hist.returnedIds.Nodup ∧
    ∀ id ok, (id, ok) ∈ s.mem.hist.returned →
      s.mem.hist.claimIds.count id = if ok then 1 else 0 := by
  have hreach : Reachable (ringStep .unbounded) (ringInitial ι k) s :=
    ⟨as, run_machine (w := 63) hcur hrun⟩
  have hinv := ringInv_reachable hk hreach
  have hcall := callInv_reachable hreach
  have hqueue := reachable_toQueue hk hreach
  obtain ⟨ops, hops⟩ := hqueue
  refine ⟨⟨ops, _, hops, rfl, hinv.delivered⟩,
    ⟨_, Fifo.outputs_prefix ⟨ops, hops⟩, hinv.delivered⟩, hcall.claim_nodup, hcall.returned_nodup,
    fun id ok hm => ?_⟩
  cases ok with
  | true =>
    exact List.count_eq_one_of_mem hcall.claim_nodup
      ((hcall.returned_claimed id true hm).mpr rfl)
  | false =>
    refine List.count_eq_zero_of_not_mem ?_
    intro hmem
    simpa using (hcall.returned_claimed id false hm).mp hmem

/--
producer 0 が位置 0 を claim したまま止まり、producer 1 が位置 1 を先に公開する。
consumer の peek は空振りし、producer 0 の公開の後に位置 0 を受け取る。
-/
def outOfOrderRun : List (RingAction (Fin 2)) :=
  callAndRun ⟨0, Nat.two_pos⟩ 65 3 ++ callAndRun ⟨1, Nat.one_lt_two⟩ 66 11 ++ [.peek] ++
    List.replicate 8 (.producer ⟨0, Nat.two_pos⟩ false) ++
    [.peek, .process, .release, .advance]

theorem ring_refines_fifo_outOfOrderRun :
    ∃ s, run (ringStep (.machine 64)) (ringInitial (Fin 2) 1) outOfOrderRun = some s ∧
      s.mem.hist.consumed.length = 1 ∧
      ∃ seg, seg <+: s.mem.hist.claims ∧ List.Forall₂ Carries s.mem.hist.consumed seg := by
  have hlen : (run (ringStep (.machine 64)) (ringInitial (Fin 2) 1) outOfOrderRun).map
      (fun s => s.mem.hist.consumed.length) = some 1 := by decide +kernel
  obtain ⟨s, hs, h1⟩ := Option.map_eq_some_iff.mp hlen
  exact ⟨s, hs, h1, (ring_refines_fifo (by decide) hs (by decide +kernel)).2.1⟩

end Logmoko
