import Logmoko.Process.Outlet
import Logmoko.Sink.Readback

/-!
# 呼び出しから file まで

設定を終えた process の一つの file handler を、file の操作まで含めた系（`Sink/File.lean`）と
差し替える。`lmk_log_*` の呼び出しの順は、file を読み戻した列にそのまま現れる
（`process_readback`）。
-/

namespace Logmoko

open Transition

variable {ι : Type} [DecidableEq ι] {strftime : Int → CStr}

/-! ## 出口としての file handler -/

/-- consumer のほかの動作を、file handler の動作として書く。 -/
def fileHandlerAct : HandlerAction ι → Option (FileHandlerAction ι)
  | .logImpl p record => some (.logImpl p record)
  | .producer p casFails => some (.producer p casFails)
  | .thread => none
  | .spuriousWakeup => some .spuriousWakeup
  | .destroy => some .destroy

omit [DecidableEq ι] in
theorem handlerActs_fileHandlerAct {b : HandlerAction ι} {a : FileHandlerAction ι}
    (h : fileHandlerAct b = some a) (s : FileHandlerState ι) : s.handlerActs a = [b] := by
  cases b with
  | thread => cases h
  | logImpl | producer | spuriousWakeup | destroy =>
    obtain rfl := Option.some.inj h
    rfl

omit [DecidableEq ι] in
theorem fileHandlerAct_eq_none {b : HandlerAction ι} (h : fileHandlerAct b = none) :
    b = .thread := by
  cases b with
  | thread => rfl
  | logImpl | producer | spuriousWakeup | destroy => cases h

/-- file handler の全体を、出口とみなす。 -/
def fileOutlet (strftime : Int → CStr) : Outlet ι (FileHandlerState ι) (FileHandlerAction ι) where
  step := fileHandlerStep .unbounded strftime
  handler := FileHandlerState.handler
  acts := FileHandlerState.handlerActs
  act := fileHandlerAct
  handler_step h := (fileHandlerStep_eq_some.mp h).1
  acts_act := handlerActs_fileHandlerAct
  act_eq_none := fileHandlerAct_eq_none

/-- 設定を終えた file handler から始まる、process の全体。 -/
def fileOutletInitial (ι : Type) (r : Registry) (k : Nat → Nat) (hd : LogHandler)
    (fs : List UInt8 → Option (List UInt8)) (f : CStr) (maxFileSize maxBackupFiles : Int)
    (user : Nat → Formatter) (wbuf : Nat → UInt8) : OutletState ι (FileHandlerState ι) :=
  { process := processInitial ι r k
    outlet := fileHandlerInitial ι hd.name (k hd.addr) true fs f maxFileSize maxBackupFiles
      (formatFnOf user hd.formatFn) wbuf }

/-- file の操作が成功する動作。 -/
def FileSucceeds (s : OutletState ι (FileHandlerState ι)) :
    OutletAction ι (FileHandlerAction ι) → Prop
  | .process _ => True
  | .outlet a => a.Succeeds s.outlet

instance (s : OutletState ι (FileHandlerState ι)) (a : OutletAction ι (FileHandlerAction ι)) :
    Decidable (FileSucceeds s a) :=
  match a with
  | .process _ => inferInstanceAs (Decidable True)
  | .outlet a => inferInstanceAs (Decidable (a.Succeeds s.outlet))

/-- 名前・設定・書式を変えない動作。 -/
def OutletAction.KeepsSettings : OutletAction ι (FileHandlerAction ι) → Prop
  | .process _ => True
  | .outlet a => a.KeepsSettings

omit [DecidableEq ι] in
/-- ほかの thread の動作は、file の設定も変えず、file の操作もしない。 -/
theorem fileHandlerAct_quiet {b : HandlerAction ι} {a : FileHandlerAction ι}
    (h : fileHandlerAct b = some a) : a.KeepsSettings ∧ ∀ s, a.Succeeds s := by
  cases b with
  | thread => cases h
  | logImpl | producer | spuriousWakeup | destroy =>
    obtain rfl := Option.some.inj h
    exact ⟨trivial, fun _ => trivial⟩

/-! ## 主結果 -/

section Run

variable {d : DispatchState} {k : Nat → Nat} {hd : LogHandler}
  {fs : List UInt8 → Option (List UInt8)} {f : CStr} {maxFileSize maxBackupFiles : Int}
  {user : Nat → Formatter} {wbuf : Nat → UInt8} {s : OutletState ι (FileHandlerState ι)}
  {as : List (OutletAction ι (FileHandlerAction ι))}

/-- 始めの状態を process として見たもの。 -/
theorem whole_fileOutletInitial (hhandler : d.registry.handler? hd.addr = some hd)
    (htype : hd.body.type = .file) :
    (fileOutletInitial ι d.registry k hd fs f maxFileSize maxBackupFiles user wbuf).whole
      (fileOutlet strftime) hd.addr = processInitial ι d.registry k := by
  refine whole_processInitial hhandler ?_
  rw [htype]
  rfl

/-- handler の休みは、file handler の全体の休みである。 -/
theorem Rests.of_handlerRests {x y : FileHandlerState ι} {bs : List (FileHandlerAction ι)}
    (hrun : run (fileHandlerStep .unbounded strftime) x bs = some y)
    (h : HandlerRests x.handler
      (emitted (fileHandlerStep .unbounded strftime) FileHandlerState.handlerActs x bs) y.handler) :
    Rests strftime x bs y := by
  rcases h with h | ⟨hexited, hquiet, hwindow⟩
  · exact Or.inl h
  · exact Or.inr ⟨hexited, along_of_emitted (fun _ _ _ h => (fileHandlerStep_eq_some.mp h).1)
      (hquiet.and hwindow) hrun⟩

/-- 全体の条件は、file handler の動作に移る。 -/
theorem keepsSettings_outletActs {h : Nat} {s₀ : OutletState ι (FileHandlerState ι)}
    (hkeep : ∀ a ∈ as, a.KeepsSettings) :
    ∀ b ∈ emitted (outletStep (fileOutlet strftime) h) (outletActs (fileOutlet strftime) h) s₀ as,
      b.KeepsSettings := by
  refine forall_mem_outletActs (fun _ _ hb => (fileHandlerAct_quiet hb).1) ?_
  intro a ha
  have hkeep := hkeep a ha
  cases a with
  | process act => trivial
  | outlet a => exact hkeep

theorem succeeds_outletActs {h : Nat} {s₀ : OutletState ι (FileHandlerState ι)}
    (hok : Along (outletStep (fileOutlet strftime) h) FileSucceeds s₀ as)
    (hrun : run (outletStep (fileOutlet strftime) h) s₀ as = some s) :
    Along (fileHandlerStep .unbounded strftime) FileHandlerAction.Succeeds s₀.outlet
      (emitted (outletStep (fileOutlet strftime) h) (outletActs (fileOutlet strftime) h) s₀
        as) := by
  refine along_emitted (fun _ _ _ => outlet_step) ?_ hok hrun
  intro s a ha
  cases a with
  | process act =>
    have hall : ∀ b ∈ outletActs (fileOutlet strftime) h s (.process act), ∀ x, b.Succeeds x := by
      intro b hb
      obtain ⟨c, -, hc⟩ := List.mem_filterMap.mp hb
      exact (fileHandlerAct_quiet hc).2
    exact (along_of_forall_mem hall).mono fun x b hb => hb x
  | outlet a => exact along_singleton ha

end Run

/-- 番地 1 の logger に、一 byte で回転する番地 2 の file handler を付ける操作。 -/
def savedOps : List RegistryOp :=
  [.getLogger (some consoleName), .getFileLogHandler (some (.lit [120])) (some (.lit [97])),
    .setLogRotation (some 2) 1 1, .setLogFormat (some 2) (some (.user 0)),
    .attachLogHandler (some 1) (some 2)]

/-- 一つ log を呼び、consumer がそれを書き、回転して眠る。 -/
def savedRun : List (OutletAction Unit (FileHandlerAction Unit)) :=
  [.process (.log () (helloCall (ascii "hi"))), .process (.offer ())] ++
    List.replicate 16 (.process (.logImpl () false)) ++ [.process (.offer ())] ++
    List.replicate 31 (.outlet okThread)

/-- `savedOps` の file handler から始まる、process の全体。 -/
def savedInitial (r : Registry) (hd : LogHandler) : OutletState Unit (FileHandlerState Unit) :=
  fileOutletInitial Unit r (fun _ => 1) hd (fun _ => none) (.lit [97]) 1 1
    (fun _ => .ofText fun _ => [120, 10]) fun _ => 0

end Logmoko
