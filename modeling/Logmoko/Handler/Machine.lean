import Logmoko.Handler.Move
import Logmoko.Ring.Machine

/-!
# handler の cursor が桁あふれしない範囲

handler の系の性質は、桁あふれのない算術で述べる。code の cursor は 64 bit の語だが、
cursor と `sequence` がすべて `2 ^ 63` より小さい間は同じ step をするので
（`handlerStep_machine`）、その範囲にとどまる実行の性質はそのまま code の性質である。
-/

namespace Logmoko

open Transition

variable {ι : Type} [DecidableEq ι] {s t : HandlerState ι} {w : Nat}

/-- cursor が範囲内なら、`w + 1` bit の `log_impl` の step は桁あふれのない step と同じである。 -/
theorem logImplStep_machine (h : s.toRing.CursorsBelow (2 ^ w)) (p : ι) (b : Bool) :
    logImplStep (.machine (w + 1)) s p b = logImplStep .unbounded s p b := by
  unfold logImplStep
  cases hp : s.producers p with
  | enqueue c pc =>
    have hpos : pc.pos < 2 ^ w := by
      have hlt := h.2.2.2.2 p
      simpa [HandlerState.toRing, hp, LogImplPc.toProducer, Producer.pos] using hlt
    have hs : enqueueStep (.machine (w + 1)) c b s.mem pc = enqueueStep .unbounded c b s.mem pc :=
      enqueueStep_machine (s := s.toRing) h hpos
    cases pc <;> simp only [hs]
  | idle | loadRunning _ | addDropped | addLogCalls | fence | loadSleeping | wakeLock | wakeSignal
  | wakeUnlock => rfl

omit [DecidableEq ι] in
theorem threadStep_machine (h : s.toRing.CursorsBelow (2 ^ w)) :
    threadStep (.machine (w + 1)) s = threadStep .unbounded s := by
  have hpeek : lmkRingPeekSlot (.machine (w + 1)) s.mem.ring
    = lmkRingPeekSlot .unbounded s.mem.ring := peek_machine (s := s.toRing) h
  have hstore : consumeStore (.machine (w + 1)) s.mem.ring
    = consumeStore .unbounded s.mem.ring := consumeStore_machine (s := s.toRing) h
  have htail : consumeTail (.machine (w + 1)) s.mem.ring
    = consumeTail .unbounded s.mem.ring := consumeTail_machine (s := s.toRing) h
  simp only [threadStep, hpeek, hstore, htail]

/-- cursor が範囲内なら、`w + 1` bit の handler の step は桁あふれのない step と同じである。 -/
theorem handlerStep_machine (h : s.toRing.CursorsBelow (2 ^ w)) (a : HandlerAction ι) :
    handlerStep (.machine (w + 1)) s a = handlerStep .unbounded s a := by
  cases a with
  | producer p b => exact logImplStep_machine h p b
  | thread => exact threadStep_machine h
  | logImpl | spuriousWakeup | destroy => rfl

/-- 範囲にとどまる `w + 1` bit の handler の実行は、桁あふれのない実行でもある。 -/
theorem handler_run_machine {as : List (HandlerAction ι)}
    (hb : Along (handlerStep (.machine (w + 1))) (fun s _ => s.toRing.CursorsBelow (2 ^ w)) s as)
    (h : run (handlerStep (.machine (w + 1))) s as = some t) :
    run (handlerStep .unbounded) s as = some t :=
  run_of_along_eq (fun _ a hs => handlerStep_machine hs a) hb h

end Logmoko
