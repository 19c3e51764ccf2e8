import Logmoko.Sink.Lines
import Logmoko.Transport.Attempts

/-!
# log の呼び出しから datagram まで

`Handler/Model.lean` の受け渡しと `Transport/Sender.lean` の送信を並べて動かす。
作り方は `Sink/File.lean` と同じで、一つの slot の処理の間は送信の側だけが、
眠りの受け渡しの間は受け渡しの側だけが進む。

どの listener に対しても、datagram は claim の順に一つの record につき高々一度送られ、
その record の行を運ぶ。休んでいる consumer は、間に合った listener にすべて送り終えている
（`socket_handler_attempts`）。
-/

namespace Logmoko

open Transition

variable {ι σ : Type}

/-- socket handler と、その listener の一覧の状態。 -/
structure SocketHandlerState (ι σ : Type) where
  handler : HandlerState ι
  sender : SenderState σ

/-- 全体の動作。consumer の step は、時刻、`RAND_bytes` の結果、読めた鍵を持つ。 -/
inductive SocketHandlerAction (ι σ : Type) where
  | logImpl (p : ι) (record : LogRecord)
  | producer (p : ι) (casFails : Bool)
  | thread (now : Int) (rand : Option Iv) (seen : List UInt8)
  | spuriousWakeup
  | destroy
  | attachLogListener (server : σ)
  | setSocketPsk (key : List UInt8)
  | enablePsk
  | setFormat (fn : Formatter)

/-- 一つの slot の処理を終えた位置。 -/
def SendPc.atConsume : SendPc → Bool
  | .consume => true
  | _ => false

/-- 全体の動作を、受け渡しの側から見たもの。 -/
def SocketHandlerState.handlerActs (s : SocketHandlerState ι σ) :
    SocketHandlerAction ι σ → List (HandlerAction ι)
  | .logImpl p record => [.logImpl p record]
  | .producer p casFails => [.producer p casFails]
  | .thread _ _ _ =>
    match s.handler.thread with
    | .process => if s.sender.pc.atConsume then [.thread] else []
    | _ => [.thread]
  | .spuriousWakeup => [.spuriousWakeup]
  | .destroy => [.destroy]
  | .attachLogListener _ | .setSocketPsk _ | .enablePsk | .setFormat _ => []

/-- 全体の動作を、送信の側から見たもの。 -/
def SocketHandlerState.senderActs (A : CursorArith) (s : SocketHandlerState ι σ) :
    SocketHandlerAction ι σ → List (SenderAction σ)
  | .thread now rand seen =>
    match s.handler.thread with
    | .drainPeek =>
      if (lmkRingPeekSlot A s.handler.mem.ring).isSome then
        [.slot now (s.handler.mem.ring.slotAt s.handler.mem.ring.tail).req]
      else []
    | .process => if s.sender.pc.atConsume then [] else [.step rand seen]
    | .consumeTail => [.step rand seen]
    | _ => []
  | .attachLogListener server => [.attachLogListener server]
  | .setSocketPsk key => [.setSocketPsk key]
  | .enablePsk => [.enablePsk]
  | .setFormat fn => [.setFormat fn]
  | .logImpl _ _ | .producer _ _ | .spuriousWakeup | .destroy => []

/-- `lmk_socket_log_handler_init` を終えて thread を起こした直後の状態。 -/
def socketHandlerInitial (ι σ : Type) (name : CStr) (k : Nat) (fn : Formatter) (key : List UInt8)
    (out enc : Nat → UInt8) : SocketHandlerState ι σ :=
  { handler := handlerInitial ι .socket name k
    sender := senderInitial σ fn key out enc }

/-- 全体の一 step。 -/
def socketHandlerStep [DecidableEq ι] (A : CursorArith) (g : Gcm) (strftime : Int → CStr)
    (s : SocketHandlerState ι σ) (a : SocketHandlerAction ι σ) :
    Option (SocketHandlerState ι σ) :=
  (run (handlerStep A) s.handler (s.handlerActs a)).bind fun handler =>
    (run (senderStep g strftime) s.sender (s.senderActs A a)).map fun sender =>
      { handler, sender }

/-- 取り出した request。 -/
def SenderAction.request : SenderAction σ → Option (Int × LogRequest)
  | .slot now req => some (now, req)
  | _ => none

variable {g : Gcm} {strftime : Int → CStr}

theorem sender_peeked_run {as : List (SenderAction σ)} {s s' : SenderState σ}
    (h : run (senderStep g strftime) s as = some s') :
    s'.hist.peeked = s.hist.peeked ++ as.filterMap SenderAction.request := by
  induction as generalizing s with
  | nil =>
    obtain rfl : s = s' := Option.some.inj h
    exact (List.append_nil _).symm
  | cons a as ih =>
    obtain ⟨t, ht, h⟩ := run_cons_eq_some.mp h
    have hstep : t.hist.peeked = s.hist.peeked ++ a.request.toList := by
      cases senderStep_move ht with
      | slot => rfl
      | _ => exact (List.append_nil _).symm
    rw [ih h, hstep, List.filterMap_cons]
    cases a.request <;> simp

/-! ## 位置の対応 -/

/-- 二つの側は同じ所にいる。socket の consumer は flush をしない。 -/
def SenderSynced (pc : SendPc) : ThreadPc → Prop
  | .process => pc.inSlot = true ∨ pc = .consume
  | .consumeStore _ | .consumeTail => pc = .consume
  | .flush | .finalFlush => False
  | .drainPeek | .loadRunning | .lock | .storeSleeping | .rePeek | .reloadRunning | .condWait
  | .parked | .woken | .clearSleeping | .unlock | .exited => pc = .peek

theorem SenderSynced.signal {pc : SendPc} {t : ThreadPc} (h : SenderSynced pc t) :
    SenderSynced pc t.signal := by
  cases t <;> exact h

theorem SendPc.atConsume_iff {pc : SendPc} : pc.atConsume = true ↔ pc = .consume := by
  cases pc <;> simp [SendPc.atConsume]

/-- slot の処理は、`consume` に着くまで slot の処理の中を進む。 -/
theorem SenderMove.inSlot {s s' : SenderState σ} {rand : Option Iv} {seen : List UInt8}
    (h : SenderMove g strftime s (.step rand seen) s') (hne : s.pc ≠ .consume) :
    s'.pc.inSlot = true ∨ s'.pc = .consume := by
  cases h with
  | @format _ _ now req hpc =>
    rcases formatted_pc strftime s now req with ⟨n, hload⟩ | ⟨hconsume, -⟩
    · exact Or.inl (by rw [hload]; rfl)
    · exact Or.inr hconsume
  | endOfList => exact Or.inr rfl
  | consume hpc => exact absurd hpc hne
  | loadPsk | encrypted | encryptFailed | plain => exact Or.inl rfl

/-- 送信の側に取り出させる request は、受け渡しの側が取り出すものである。 -/
theorem requests_senderActs (s : SocketHandlerState ι σ) (a : SocketHandlerAction ι σ) :
    ((s.senderActs .unbounded a).filterMap SenderAction.request).map Prod.snd
      = (s.handlerActs a).flatMap (takenBy s.handler) := by
  cases a with
  | thread now rand seen =>
    cases ht : s.handler.thread with
    | drainPeek =>
      by_cases hr : s.handler.mem.ring.TailReady
      · have hp := (peek_isSome_iff s.handler.mem.ring).mpr hr
        simp [SocketHandlerState.senderActs, SocketHandlerState.handlerActs, takenBy, ht, hr, hp,
          SenderAction.request]
      · have hp : ¬ (lmkRingPeekSlot .unbounded s.handler.mem.ring).isSome :=
          fun hp => hr ((peek_isSome_iff _).mp hp)
        simp [SocketHandlerState.senderActs, SocketHandlerState.handlerActs, takenBy, ht, hr, hp]
    | process =>
      simp only [SocketHandlerState.senderActs, SocketHandlerState.handlerActs, ht]
      split <;> simp [takenBy, ht, SenderAction.request]
    | consumeStore | consumeTail | flush | loadRunning | lock | storeSleeping | rePeek
    | reloadRunning | condWait | parked | woken | clearSleeping | unlock | finalFlush | exited =>
      simp [SocketHandlerState.senderActs, SocketHandlerState.handlerActs, takenBy, ht,
        SenderAction.request]
  | logImpl | producer | spuriousWakeup | destroy => rfl
  | attachLogListener | setSocketPsk | enablePsk | setFormat => rfl

theorem socket_handlerActs_cases (s : SocketHandlerState ι σ) (a : SocketHandlerAction ι σ) :
    s.handlerActs a = [] ∨ ∃ b, s.handlerActs a = [b] := by
  cases a with
  | thread now rand seen =>
    cases ht : s.handler.thread with
    | process =>
      simp only [SocketHandlerState.handlerActs, ht]
      split <;> simp
    | _ => simp [SocketHandlerState.handlerActs, ht]
  | logImpl | producer | spuriousWakeup | destroy => exact Or.inr ⟨_, rfl⟩
  | attachLogListener | setSocketPsk | enablePsk | setFormat => exact Or.inl rfl

/-! ## 全体の不変量 -/

/-- 二つの側は同じ所にいて、peek した request は claim の列の先頭から一つずつ運んでいる。 -/
structure SocketHandlerInv (s : SocketHandlerState ι σ) : Prop where
  type : s.handler.type = .socket
  ring : RingInv s.handler.toRing
  synced : SenderSynced s.sender.pc s.handler.thread
  delivered : Delivered (s.sender.hist.peeked.map Prod.snd) s.handler

variable [DecidableEq ι] {s s' : SocketHandlerState ι σ} {a : SocketHandlerAction ι σ}
  {as : List (SocketHandlerAction ι σ)}

theorem socketHandlerStep_eq_some :
    socketHandlerStep .unbounded g strftime s a = some s' ↔
      run (handlerStep .unbounded) s.handler (s.handlerActs a) = some s'.handler ∧
        run (senderStep g strftime) s.sender (s.senderActs .unbounded a) = some s'.sender := by
  unfold socketHandlerStep
  simp only [Option.bind_eq_some_iff, Option.map_eq_some_iff]
  constructor
  · rintro ⟨handler, hh, sender, hf, rfl⟩
    exact ⟨hh, hf⟩
  · rintro ⟨hh, hf⟩
    exact ⟨_, hh, _, hf, rfl⟩

/-- 全体の実行は、受け渡しの側の実行である。 -/
theorem socket_handler_run (h : run (socketHandlerStep .unbounded g strftime) s as = some s') :
    run (handlerStep .unbounded) s.handler
      (emitted (socketHandlerStep .unbounded g strftime) SocketHandlerState.handlerActs s as)
        = some s'.handler :=
  run_emitted (fun _ _ _ hs => (socketHandlerStep_eq_some.mp hs).1) h

/-- 全体の実行は、送信の側の実行である。 -/
theorem sender_run (h : run (socketHandlerStep .unbounded g strftime) s as = some s') :
    run (senderStep g strftime) s.sender
      (emitted (socketHandlerStep .unbounded g strftime)
        (SocketHandlerState.senderActs .unbounded) s as) = some s'.sender :=
  run_emitted (fun _ _ _ hs => (socketHandlerStep_eq_some.mp hs).2) h

theorem SocketHandlerInv.delivered_step (h : SocketHandlerInv s)
    (hs : socketHandlerStep .unbounded g strftime s a = some s') :
    s'.handler.type = .socket ∧ RingInv s'.handler.toRing ∧
      Delivered (s'.sender.hist.peeked.map Prod.snd) s'.handler := by
  obtain ⟨hh, hf⟩ := socketHandlerStep_eq_some.mp hs
  rw [sender_peeked_run hf, List.map_append, requests_senderActs]
  rcases socket_handlerActs_cases s a with hacts | ⟨b, hacts⟩
  · rw [hacts] at hh ⊢
    have heq : s.handler = s'.handler := Option.some.inj hh
    rw [List.flatMap_nil, List.append_nil, ← heq]
    exact ⟨h.type, h.ring, h.delivered⟩
  · rw [hacts, run_singleton] at hh
    rw [hacts, List.flatMap_singleton]
    exact ⟨(handlerStep_move hh).type_eq.trans h.type, ringInv_handlerStep h.ring hh,
      h.delivered.step h.ring hh⟩

/-- consumer の一 step は、二つの側を同じ所に進める。 -/
theorem senderSynced_thread {now : Int} {rand : Option Iv} {seen : List UInt8}
    (htype : s.handler.type = .socket) (h : SenderSynced s.sender.pc s.handler.thread)
    (hs : socketHandlerStep .unbounded g strftime s (.thread now rand seen) = some s') :
    SenderSynced s'.sender.pc s'.handler.thread := by
  obtain ⟨hh, hf⟩ := socketHandlerStep_eq_some.mp hs
  obtain ⟨handler', sender'⟩ := s'
  simp only [SocketHandlerState.handlerActs, SocketHandlerState.senderActs] at hh hf
  cases ht : s.handler.thread with
  | drainPeek =>
    rw [ht] at h
    simp only [ht, run_singleton, handlerStep, threadStep] at hh hf
    rw [← Option.some.inj hh]
    split at hf
    · next hp =>
      cases senderStep_move (run_singleton.symm.trans hf) with
      | slot => simp [SenderSynced, hp, SendPc.inSlot]
    · next hp =>
      rw [← Option.some.inj hf]
      simpa [SenderSynced, hp, htype, ThreadPc.afterDrain] using h
  | process =>
    rw [ht] at h
    simp only [ht] at hh hf
    by_cases hc : s.sender.pc.atConsume = true
    · rw [if_pos hc] at hh hf
      simp only [run_singleton, handlerStep, threadStep, ht] at hh
      rw [← Option.some.inj hh, ← Option.some.inj hf]
      exact SendPc.atConsume_iff.mp hc
    · rw [if_neg hc] at hh hf
      rw [← Option.some.inj hh, ht]
      exact (senderStep_move (run_singleton.symm.trans hf)).inSlot
        fun he => hc (SendPc.atConsume_iff.mpr he)
  | loadRunning =>
    rw [ht] at h
    simp only [ht, run_singleton, handlerStep, threadStep] at hh hf
    rw [← Option.some.inj hh, ← Option.some.inj hf]
    dsimp only
    split
    · exact h
    · rw [htype]
      exact h
  | consumeStore | storeSleeping | condWait | clearSleeping | unlock =>
    rw [ht] at h
    simp only [ht, run_singleton, handlerStep, threadStep] at hh hf
    rw [← Option.some.inj hh, ← Option.some.inj hf]
    exact h
  | consumeTail =>
    rw [ht] at h
    simp only [ht, run_singleton, handlerStep, threadStep, senderStep] at hh hf
    rw [← Option.some.inj hh]
    unfold senderThread at hf
    rw [show s.sender.pc = _ from h] at hf
    rw [← Option.some.inj hf]
    rfl
  | lock | woken =>
    rw [ht] at h
    simp only [ht, run_singleton, handlerStep, threadStep] at hh hf
    split at hh
    · rw [← Option.some.inj hh, ← Option.some.inj hf]
      exact h
    · cases hh
  | rePeek | reloadRunning =>
    rw [ht] at h
    simp only [ht, run_singleton, handlerStep, threadStep] at hh hf
    rw [← Option.some.inj hh, ← Option.some.inj hf]
    dsimp only
    split <;> exact h
  | flush | finalFlush =>
    rw [ht] at h
    exact h.elim
  | parked | exited => simp [ht, run_singleton, handlerStep, threadStep] at hh

theorem SocketHandlerInv.step (h : SocketHandlerInv s)
    (hs : socketHandlerStep .unbounded g strftime s a = some s') : SocketHandlerInv s' := by
  obtain ⟨htype, hring, hdelivered⟩ := h.delivered_step hs
  refine ⟨htype, hring, ?_, hdelivered⟩
  obtain ⟨hh, hf⟩ := socketHandlerStep_eq_some.mp hs
  obtain ⟨handler', sender'⟩ := s'
  dsimp only at hh hf ⊢
  cases a with
  | thread now rand seen => exact senderSynced_thread h.type h.synced hs
  | logImpl | producer | spuriousWakeup | destroy =>
    rw [← Option.some.inj hf]
    rcases (handlerStep_move (run_singleton.symm.trans hh)).thread_other (by simp) with ht | ht
    · rw [ht]
      exact h.synced
    · rw [ht]
      exact h.synced.signal
  | attachLogListener | setSocketPsk | enablePsk | setFormat =>
    rw [← Option.some.inj hh]
    cases senderStep_move (run_singleton.symm.trans hf)
    exact h.synced

end Logmoko
