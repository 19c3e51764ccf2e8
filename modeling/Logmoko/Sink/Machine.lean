import Logmoko.Handler.Machine
import Logmoko.Sink.Emitter
import Logmoko.Sink.Lines
import Logmoko.Sink.Socket

/-!
# 出口まで含めた系の cursor

file・socket・console・syslog の handler の結果も、桁あふれのない算術で述べている。
受け渡しの側の動作は一 step に高々一つで、出口の側が cursor を見るのは peek だけなので、
cursor が範囲内なら、出口まで含めた一 step も code の幅の算術と一致する。
その範囲にとどまる実行の性質は、そのまま code の性質である。
-/

namespace Logmoko

open Transition

variable {ι : Type} [DecidableEq ι] {w : Nat} {strftime : Int → CStr}

/-- cursor が範囲内なら、受け渡しの側の高々一つの動作は、桁あふれのない算術と一致する。 -/
theorem handlerActs_machine {h : HandlerState ι} {acts : List (HandlerAction ι)}
    (hb : h.toRing.CursorsBelow (2 ^ w)) (hacts : acts = [] ∨ ∃ b, acts = [b]) :
    run (handlerStep (.machine (w + 1))) h acts = run (handlerStep .unbounded) h acts := by
  rcases hacts with rfl | ⟨b, rfl⟩
  · rfl
  · rw [run_singleton, run_singleton, handlerStep_machine hb]

/-! ## file handler -/

section File

variable {s t : FileHandlerState ι} {as : List (FileHandlerAction ι)}

omit [DecidableEq ι] in
theorem fileActs_machine (hb : s.handler.toRing.CursorsBelow (2 ^ w)) (a : FileHandlerAction ι) :
    s.fileActs (.machine (w + 1)) a = s.fileActs .unbounded a := by
  have hpeek : lmkRingPeekSlot (.machine (w + 1)) s.handler.mem.ring =
    lmkRingPeekSlot .unbounded s.handler.mem.ring := peek_machine (s := s.handler.toRing) hb
  cases a with
  | thread now io => simp only [FileHandlerState.fileActs, hpeek]
  | logImpl | producer | spuriousWakeup | destroy => rfl
  | setRotation | setFilename | storeFilename | setFormat => rfl

/-- cursor が範囲内なら、`w + 1` bit の file handler の step は桁あふれのない step と同じである。 -/
theorem fileHandlerStep_machine (hb : s.handler.toRing.CursorsBelow (2 ^ w))
    (a : FileHandlerAction ι) :
    fileHandlerStep (.machine (w + 1)) strftime s a
      = fileHandlerStep .unbounded strftime s a := by
  unfold fileHandlerStep
  rw [handlerActs_machine hb (handlerActs_cases s a), fileActs_machine hb]

theorem fileHandler_run_machine
    (hb : Along (fileHandlerStep (.machine (w + 1)) strftime)
      (fun s _ => s.handler.toRing.CursorsBelow (2 ^ w)) s as)
    (h : run (fileHandlerStep (.machine (w + 1)) strftime) s as = some t) :
    run (fileHandlerStep .unbounded strftime) s as = some t :=
  run_of_along_eq (fun _ a hs => fileHandlerStep_machine hs a) hb h

end File

/-! ## socket handler -/

section Socket

variable {σ : Type} {g : Gcm} {s t : SocketHandlerState ι σ} {as : List (SocketHandlerAction ι σ)}

omit [DecidableEq ι] in
theorem senderActs_machine (hb : s.handler.toRing.CursorsBelow (2 ^ w))
    (a : SocketHandlerAction ι σ) :
    s.senderActs (.machine (w + 1)) a = s.senderActs .unbounded a := by
  have hpeek : lmkRingPeekSlot (.machine (w + 1)) s.handler.mem.ring =
    lmkRingPeekSlot .unbounded s.handler.mem.ring := peek_machine (s := s.handler.toRing) hb
  cases a with
  | thread now rand seen => simp only [SocketHandlerState.senderActs, hpeek]
  | logImpl | producer | spuriousWakeup | destroy => rfl
  | attachLogListener | setSocketPsk | enablePsk | setFormat => rfl

/-- cursor が範囲内なら、`w + 1` bit の socket handler の step は桁あふれのない step と同じである。 -/
theorem socketHandlerStep_machine (hb : s.handler.toRing.CursorsBelow (2 ^ w))
    (a : SocketHandlerAction ι σ) :
    socketHandlerStep (.machine (w + 1)) g strftime s a
      = socketHandlerStep .unbounded g strftime s a := by
  unfold socketHandlerStep
  rw [handlerActs_machine hb (socket_handlerActs_cases s a), senderActs_machine hb]

theorem socketHandler_run_machine
    (hb : Along (socketHandlerStep (.machine (w + 1)) g strftime)
      (fun s _ => s.handler.toRing.CursorsBelow (2 ^ w)) s as)
    (h : run (socketHandlerStep (.machine (w + 1)) g strftime) s as = some t) :
    run (socketHandlerStep .unbounded g strftime) s as = some t :=
  run_of_along_eq (fun _ a hs => socketHandlerStep_machine hs a) hb h

end Socket

/-! ## console handler と syslog handler -/

section Emitter

variable {κ τ β γ : Type} [DecidableEq κ] {E : Emitter τ β γ}

omit [DecidableEq ι] in
theorem emitter_handlerActs_cases (s : EmitterHandler ι τ β) (a : EmitterAction ι γ) :
    s.handlerActs a = [] ∨ ∃ b, s.handlerActs a = [b] := by
  cases a with
  | thread now =>
    simp only [EmitterHandler.handlerActs]
    split <;> simp
  | logImpl | producer | spuriousWakeup | destroy => exact Or.inr ⟨_, rfl⟩
  | configure => exact Or.inl rfl

omit [DecidableEq ι] in
theorem output_machine {s : EmitterHandler ι τ β} (hb : s.handler.toRing.CursorsBelow (2 ^ w))
    (a : EmitterAction ι γ) :
    s.output E (.machine (w + 1)) a = s.output E .unbounded a := by
  have hpeek : lmkRingPeekSlot (.machine (w + 1)) s.handler.mem.ring =
    lmkRingPeekSlot .unbounded s.handler.mem.ring := peek_machine (s := s.handler.toRing) hb
  cases a with
  | thread now => simp only [EmitterHandler.output, hpeek]
  | logImpl | producer | spuriousWakeup | destroy | configure => rfl

theorem emitterHandlerStep_machine {s : EmitterHandler ι τ β}
    (hb : s.handler.toRing.CursorsBelow (2 ^ w)) (a : EmitterAction ι γ) :
    emitterHandlerStep E (.machine (w + 1)) s a = emitterHandlerStep E .unbounded s a := by
  unfold emitterHandlerStep
  rw [handlerActs_machine hb (emitter_handlerActs_cases s a), output_machine hb]

/-- どの handler の cursor も範囲内なら、出力先を共有する handler の step も一致する。 -/
theorem emitterStep_machine {s : EmitterState κ ι τ β}
    (hb : ∀ h, (s.handlers h).handler.toRing.CursorsBelow (2 ^ w))
    (a : EmitterStateAction κ ι γ) :
    emitterStep E (.machine (w + 1)) s a = emitterStep E .unbounded s a := by
  cases a with
  | on h a => simp only [emitterStep, emitterHandlerStep_machine (hb h)]
  | spill => rfl

theorem emitter_run_machine {s t : EmitterState κ ι τ β} {as : List (EmitterStateAction κ ι γ)}
    (hb : Along (emitterStep E (.machine (w + 1)))
      (fun s _ => ∀ h, (s.handlers h).handler.toRing.CursorsBelow (2 ^ w)) s as)
    (h : run (emitterStep E (.machine (w + 1))) s as = some t) :
    run (emitterStep E .unbounded) s as = some t :=
  run_of_along_eq (fun _ a hs => emitterStep_machine hs a) hb h

end Emitter

end Logmoko
