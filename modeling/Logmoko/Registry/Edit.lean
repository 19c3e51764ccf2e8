import Logmoko.Registry.System
import Mathlib.Logic.Relation

/-!
# 操作が registry にすること

registry を変える操作は、次の小さな書き換えの列である。

* `Edit` — 構造体の追加、設定の書き換え、参照の付け外し
* `Drop` — 構造体の解放

不変量は書き換えごとに示し、操作全体には `runOp_edits` で渡す。
新しく登録される名前についての条件 `N` は、呼び出し側の約束を渡すための引数である。
-/

namespace Logmoko

open Relation

/-- 設定関数は handler の身元と参照の個数を変えない。 -/
structure KeepsHandler (f : LogHandler → LogHandler) : Prop where
  addr : ∀ h, (f h).addr = h.addr
  name : ∀ h, (f h).name = h.name
  nrLoggerRef : ∀ h, (f h).nrLoggerRef = h.nrLoggerRef
  initialized : ∀ h, (f h).initialized = h.initialized
  type : ∀ h, (f h).body.type = h.body.type
  level : ∀ h, ValidLogLevel h.logLevel → ValidLogLevel (f h).logLevel

/-- registry の小さな書き換え。条件 `N` は新しく登録される名前が満たす。 -/
inductive Edit (N : CStr → Prop) (r : Registry) : Registry → Prop where
  | start (h : r.initialized = false) :
    Edit N r
      { initialized := true, config := some { logBufferSize := 0, ringBufferSize := 0 }
        loggers := [], handlers := [] }
  | setConfig {c c'} (h : r.config = some c) : Edit N r { r with config := some c' }
  | addLogger {name name'} (hN : N name) (hs : lmkSearchLoggerByName r name = none)
      (hc : copyName name = some name') (hi : r.initialized = true) :
    Edit N r { r with loggers := r.loggers ++
      [{ addr := r.freshAddr, name := name', logLevel := logLevelInfo
         handlerRefList := [], initialized := true }] }
  | addHandler {name name' config body} (hN : N name)
      (hs : lmkSearchLogHandlerByName r name = none) (hc : copyName name = some name')
      (hcfg : r.config = some config) :
    Edit N r { r with handlers := r.handlers ++
      [{ addr := r.freshAddr, name := name', logLevel := logLevelTrace, nrLoggerRef := 0
         initialized := true, formatFn := none
         ringMask := lmkNextPow2 config.ringBufferSize - 1, body }] }
  | setLevel {a level} (hv : ValidLogLevel level) :
    Edit N r (r.setLogger a (.setLevel level))
  | setHandler {a f} (hf : KeepsHandler f) : Edit N r (r.setHandler a f)
  | attach {lg hd} (hl : lg ∈ r.loggers) (hh : hd ∈ r.handlers)
      (hn : hd.addr ∉ lg.handlerRefList) :
    Edit N r ((r.setLogger lg.addr (.addRef hd.addr)).setHandler hd.addr .addRef)
  | detach {lg hd} (hl : lg ∈ r.loggers) (hh : hd ∈ r.handlers)
      (hm : hd.addr ∈ lg.handlerRefList) :
    Edit N r ((r.setLogger lg.addr (.dropRef hd.addr)).setHandler hd.addr .dropRef)

/-- 書き換えの列。 -/
def Edits (N : CStr → Prop) : Registry → Registry → Prop := ReflTransGen (Edit N)

/-- 構造体の解放。 -/
inductive Drop (r : Registry) : Registry → Prop where
  | logger {a} : Drop r { r with loggers := r.loggers.filter fun l => l.addr ≠ a }
  | handler {a} : Drop r { r with handlers := r.handlers.filter fun h => h.addr ≠ a }

variable {N : CStr → Prop} {env : Env} {r r' : Registry}

theorem Edits.refl : Edits N r r := ReflTransGen.refl

theorem Edits.trans {r'' : Registry} (h : Edits N r r') (h' : Edits N r' r'') : Edits N r r'' :=
  ReflTransGen.trans h h'

theorem Edit.edits (h : Edit N r r') : Edits N r r' := ReflTransGen.single h

/-- 書き換えの列に沿った帰納法。 -/
theorem Edits.invariant {I : Registry → Prop} (hstep : ∀ r r', I r → Edit N r r' → I r')
    (hI : I r) (h : Edits N r r') : I r' := by
  induction h with
  | refl => exact hI
  | tail _ hs ih => exact hstep _ _ ih hs

/-! ## pointer の参照先 -/

theorem logger?_eq_some {a : Nat} {l : Logger} (h : r.logger? a = some l) :
    l ∈ r.loggers ∧ l.addr = a := by
  refine ⟨List.mem_of_find?_eq_some h, ?_⟩
  simpa using List.find?_some h

theorem handler?_eq_some {a : Nat} {hd : LogHandler} (h : r.handler? a = some hd) :
    hd ∈ r.handlers ∧ hd.addr = a := by
  refine ⟨List.mem_of_find?_eq_some h, ?_⟩
  simpa using List.find?_some h

@[simp] theorem setLogger_handlers (a : Nat) (f : Logger → Logger) :
    (r.setLogger a f).handlers = r.handlers := rfl

@[simp] theorem setHandler_loggers (a : Nat) (f : LogHandler → LogHandler) :
    (r.setHandler a f).loggers = r.loggers := rfl

theorem handler?_setLogger (a b : Nat) (f : Logger → Logger) :
    (r.setLogger a f).handler? b = r.handler? b := rfl

/-! ## 一つ一つの関数 -/

theorem lmkGetLogger_edits {name : Option CStr} {p : Registry × Option Nat}
    (hN : ∀ s ∈ name, N s) (hi : r.initialized = true) (h : lmkGetLogger r name = some p) :
    Edits N r p.1 := by
  unfold lmkGetLogger at h
  split at h
  · rw [← Option.some.inj h]
    exact .refl
  · next s =>
    split at h
    · rw [← Option.some.inj h]
      exact .refl
    · next hs =>
      obtain ⟨name', hc, hp⟩ := Option.map_eq_some_iff.mp h
      rw [← hp]
      exact (Edit.addLogger (hN s rfl) hs hc hi).edits

theorem lmkSetLogLevel_edits (logger : Option Nat) (level : Int) :
    Edits N r (lmkSetLogLevel r logger level) := by
  unfold lmkSetLogLevel
  split
  · exact .refl
  · split
    · next hv => exact (Edit.setLevel hv).edits
    · exact .refl

theorem lmkAttachLogHandler_edits (logger handler : Option Nat) :
    Edits N r (lmkAttachLogHandler r logger handler).1 := by
  unfold lmkAttachLogHandler
  split
  · next lg hd hl hh =>
    obtain ⟨a, -, ha⟩ := Option.bind_eq_some_iff.mp hl
    obtain ⟨b, -, hb⟩ := Option.bind_eq_some_iff.mp hh
    split
    · exact .refl
    · split
      · exact .refl
      · next hn =>
        exact (Edit.attach (logger?_eq_some ha).1 (handler?_eq_some hb).1 hn).edits
  · exact .refl

theorem lmkDetachLogHandler_edits {logger handler : Option Nat} {p : Registry × Int}
    (h : lmkDetachLogHandler r logger handler = some p) : Edits N r p.1 := by
  unfold lmkDetachLogHandler at h
  split at h
  · next lg a hl =>
    obtain ⟨b, -, hb⟩ := Option.bind_eq_some_iff.mp hl
    split at h
    · next hm =>
      obtain ⟨hd, hh, hp⟩ := Option.map_eq_some_iff.mp h
      obtain ⟨hmem, rfl⟩ := handler?_eq_some hh
      rw [← hp]
      exact (Edit.detach (logger?_eq_some hb).1 hmem hm).edits
    · rw [← Option.some.inj h]
      exact .refl
  · rw [← Option.some.inj h]
    exact .refl

theorem getOrCreateHandler_edits {name : CStr} {body : HandlerBody} {p : Registry × Option Nat}
    (hN : N name) (h : getOrCreateHandler r name body = some p) : Edits N r p.1 := by
  unfold getOrCreateHandler at h
  split at h
  · rw [← Option.some.inj h]
    exact .refl
  · next hs =>
    obtain ⟨name', hc, h⟩ := Option.bind_eq_some_iff.mp h
    obtain ⟨config, hcfg, hp⟩ := Option.map_eq_some_iff.mp h
    rw [← hp]
    exact (Edit.addHandler hN hs hc hcfg).edits

/-- handler を探して、無ければ末尾に足すだけである。 -/
theorem getOrCreateHandler_cases {name : CStr} {body : HandlerBody} {p : Registry × Option Nat}
    (h : getOrCreateHandler r name body = some p) :
    p.1 = r ∨ ∃ c hd, r.config = some c ∧ hd.ringMask = lmkNextPow2 c.ringBufferSize - 1 ∧
      p.1 = { r with handlers := r.handlers ++ [hd] } := by
  unfold getOrCreateHandler at h
  split at h
  · rw [← Option.some.inj h]
    exact Or.inl rfl
  · obtain ⟨name', -, h⟩ := Option.bind_eq_some_iff.mp h
    obtain ⟨c, hc, rfl⟩ := Option.map_eq_some_iff.mp h
    exact Or.inr ⟨c, _, hc, rfl, rfl⟩

theorem lmkGetFileLogHandler_edits {name filename : Option CStr} {p : Registry × Option Nat}
    (hN : ∀ s ∈ name, N s) (h : lmkGetFileLogHandler r name filename = some p) :
    Edits N r p.1 := by
  unfold lmkGetFileLogHandler at h
  split at h
  · next s f => exact getOrCreateHandler_edits (hN s rfl) h
  · rw [← Option.some.inj h]
    exact .refl

theorem lmkGetSocketLogHandler_edits {name : Option CStr} {p : Registry × Option Nat}
    (hN : ∀ s ∈ name, N s) (h : lmkGetSocketLogHandler r name = some p) : Edits N r p.1 := by
  unfold lmkGetSocketLogHandler at h
  split at h
  · next s => exact getOrCreateHandler_edits (hN s rfl) h
  · rw [← Option.some.inj h]
    exact .refl

theorem lmkGetSyslogLogHandler_edits {name ident : Option CStr} {facility : Int}
    {p : Registry × Option Nat} (hN : ∀ s ∈ name, N s)
    (h : lmkGetSyslogLogHandler r name ident facility = some p) : Edits N r p.1 := by
  unfold lmkGetSyslogLogHandler at h
  split at h
  · next s => exact getOrCreateHandler_edits (hN s rfl) h
  · rw [← Option.some.inj h]
    exact .refl

theorem onHandler_edits {f : LogHandler → LogHandler} (hf : KeepsHandler f)
    (handler : Option Nat) : Edits N r (onHandler r handler f) := by
  unfold onHandler
  split
  · exact (Edit.setHandler hf).edits
  · exact .refl

/-- `body` だけを種類を変えずに書き換える設定関数。 -/
theorem keepsHandler_body {g : HandlerBody → HandlerBody} (hg : ∀ b, (g b).type = b.type) :
    KeepsHandler (.setBody g) :=
  ⟨fun _ => rfl, fun _ => rfl, fun _ => rfl, fun _ => rfl, fun h => hg h.body, fun _ hv => hv⟩

theorem type_setRotation (m n : Int) (b : HandlerBody) : (b.setRotation m n).type = b.type := by
  cases b <;> rfl

theorem type_setFilename (f : CStr) (b : HandlerBody) : (b.setFilename f).type = b.type := by
  cases b <;> rfl

theorem type_attachListener (s : LogServer) (b : HandlerBody) :
    (b.attachListener s).type = b.type := by
  cases b <;> rfl

theorem type_setPsk (key : List UInt8) (b : HandlerBody) : (b.setPsk key).type = b.type := by
  cases b <;> rfl

theorem lmkSetHandlerLogLevel_edits (handler : Option Nat) (level : Int) :
    Edits N r (lmkSetHandlerLogLevel r handler level) := by
  unfold lmkSetHandlerLogLevel
  split
  · next hv =>
    have hf : KeepsHandler (.setLevel level) :=
      ⟨fun _ => rfl, fun _ => rfl, fun _ => rfl, fun _ => rfl, fun _ => rfl, fun _ _ => hv⟩
    exact onHandler_edits hf handler
  · exact .refl

theorem lmkSetLogFormat_edits (handler : Option Nat) (fn : Option FormatFn) :
    Edits N r (lmkSetLogFormat r handler fn) := by
  have hf : KeepsHandler (.setFormat fn) :=
    ⟨fun _ => rfl, fun _ => rfl, fun _ => rfl, fun _ => rfl, fun _ => rfl, fun _ hv => hv⟩
  exact onHandler_edits hf handler

theorem lmkSetLogRotation_edits (handler : Option Nat) (m n : Int) :
    Edits N r (lmkSetLogRotation r handler m n) :=
  onHandler_edits (keepsHandler_body (type_setRotation m n)) handler

theorem lmkAttachLogListener_edits (handler : Option Nat) (host : Option CStr) (port : Int) :
    Edits N r (lmkAttachLogListener env r handler host port) := by
  unfold lmkAttachLogListener
  split
  · split
    · exact .refl
    · exact onHandler_edits (keepsHandler_body (type_attachListener _)) handler
  · exact .refl

theorem lmkSetSocketPsk_edits (handler : Option Nat) (psk : Option CStr) :
    Edits N r (lmkSetSocketPsk env r handler psk) := by
  unfold lmkSetSocketPsk
  split
  · exact onHandler_edits (keepsHandler_body (type_setPsk _)) handler
  · exact .refl

theorem lmkSetLogFilename_edits {handler : Option Nat} {filename : Option CStr}
    (h : lmkSetLogFilename r handler filename = some r') : Edits N r r' := by
  obtain ⟨a, -, hr⟩ := Option.map_eq_some_iff.mp h
  rw [← hr]
  split
  · exact (Edit.setHandler (keepsHandler_body (type_setFilename _))).edits
  · exact .refl

/-! ## 設定の適用 -/

theorem Edit.initialized (hi : r.initialized = true) (h : Edit N r r') :
    r'.initialized = true := by
  cases h with
  | start => rfl
  | setConfig | addLogger | addHandler | setLevel | setHandler | attach | detach => exact hi

theorem Edits.initialized (hi : r.initialized = true) (h : Edits N r r') :
    r'.initialized = true :=
  h.invariant (fun _ _ hi hs => hs.initialized hi) hi

/-- 失敗しうる本体を順に適用した結果も、書き換えの列である。 -/
theorem edits_foldlM {α : Type} {f : Registry → α → Option Registry} {l : List α}
    (hf : ∀ r a r', r.initialized = true → f r a = some r' → Edits N r r')
    (hi : r.initialized = true) (h : l.foldlM f r = some r') : Edits N r r' := by
  induction l generalizing r with
  | nil =>
    obtain rfl : r = r' := Option.some.inj h
    exact .refl
  | cons a l ih =>
    rw [List.foldlM_cons] at h
    obtain ⟨u, hu, hrest⟩ := Option.bind_eq_some_iff.mp h
    have hedit := hf r a u hi hu
    exact hedit.trans (ih (hedit.initialized hi) hrest)

theorem edits_foldl {α : Type} {f : Registry → α → Registry} {l : List α}
    (hf : ∀ r a, Edits N r (f r a)) : Edits N r (l.foldl f r) := by
  induction l generalizing r with
  | nil => exact .refl
  | cons a l ih => exact (hf r a).trans ih

theorem applyRotation_edits (r : Registry) (ch : CfgHandler) (handler : Option Nat) :
    Edits N r (applyRotation r ch handler) := by
  unfold applyRotation
  split
  · exact lmkSetLogRotation_edits _ _ _
  · exact .refl

theorem applySocket_edits (r : Registry) (ch : CfgHandler) (handler : Option Nat) :
    Edits N r (applySocket env r ch handler) := by
  unfold applySocket
  refine Edits.trans ?_ (edits_foldl fun r l => lmkAttachLogListener_edits _ _ _)
  split
  · exact .refl
  · exact lmkSetSocketPsk_edits _ _

theorem applyLevel_edits (r : Registry) (ch : CfgHandler) (handler : Option Nat) :
    Edits N r (applyLevel r ch handler) := by
  unfold applyLevel
  split
  · exact lmkSetHandlerLogLevel_edits _ _
  · exact .refl

theorem applyFormat_edits (r : Registry) (ch : CfgHandler) (handler : Option Nat) :
    Edits N r (applyFormat r ch handler) := by
  unfold applyFormat
  split
  · exact .refl
  · exact lmkSetLogFormat_edits _ _

theorem applyLoggerLevel_edits (r : Registry) (cl : CfgLogger) (logger : Option Nat) :
    Edits N r (applyLoggerLevel r cl logger) := by
  unfold applyLoggerLevel
  split
  · exact lmkSetLogLevel_edits _ _
  · exact .refl

theorem attachByName_edits (r : Registry) (logger : Option Nat) (name : CharArray 64) :
    Edits N r (attachByName logger r name) := by
  unfold attachByName
  split
  · exact lmkAttachLogHandler_edits _ _
  · exact .refl

section

variable (hN : ∀ s : CStr, s.length < 64 → N s)

include hN

theorem applyHandlerType_edits {ch : CfgHandler} {type : HandlerType}
    {p : Registry × Option Nat} (h : applyHandlerType env r ch type = some p) :
    Edits N r p.1 := by
  have hname : ∀ s ∈ some ch.name.str, N s := by
    rintro s ⟨⟩
    exact hN _ ch.name.fits
  cases type with
  | console => exact getOrCreateHandler_edits (hN _ (by decide)) h
  | file =>
    obtain ⟨⟨u, handler⟩, hu, hp⟩ := Option.map_eq_some_iff.mp h
    rw [← hp]
    exact (lmkGetFileLogHandler_edits hname hu).trans (applyRotation_edits u ch handler)
  | syslog => exact lmkGetSyslogLogHandler_edits hname h
  | socket =>
    obtain ⟨⟨u, handler⟩, hu, hp⟩ := Option.map_eq_some_iff.mp h
    rw [← hp]
    exact (lmkGetSocketLogHandler_edits hname hu).trans (applySocket_edits u ch handler)

theorem applyCfgHandler_edits {ch : CfgHandler} (h : applyCfgHandler env r ch = some r') :
    Edits N r r' := by
  unfold applyCfgHandler at h
  split at h
  · rw [← Option.some.inj h]
    exact .refl
  · obtain ⟨⟨u, handler⟩, hu, hp⟩ := Option.map_eq_some_iff.mp h
    rw [← hp]
    exact ((applyHandlerType_edits hN hu).trans (applyLevel_edits u ch handler)).trans
      (applyFormat_edits _ ch handler)

theorem applyCfgLogger_edits {cl : CfgLogger} (hi : r.initialized = true)
    (h : applyCfgLogger r cl = some r') : Edits N r r' := by
  obtain ⟨⟨u, logger⟩, hu, hp⟩ := Option.map_eq_some_iff.mp h
  have hname : ∀ s ∈ some cl.name.str, N s := by
    rintro s ⟨⟩
    exact hN _ cl.name.fits
  rw [← hp]
  refine (lmkGetLogger_edits hname hi hu).trans ?_
  exact (applyLoggerLevel_edits u cl logger).trans
    (edits_foldl fun r name => attachByName_edits r logger name)

theorem lmkCfgApply_edits {cfg : Cfg} (hi : r.initialized = true)
    (h : lmkCfgApply env r cfg = some r') : Edits N r r' := by
  obtain ⟨c, hc, h⟩ := Option.bind_eq_some_iff.mp h
  obtain ⟨u, hu, hr'⟩ := Option.bind_eq_some_iff.mp h
  have hconf : Edits N r { r with config := some cfg.config } := (Edit.setConfig hc).edits
  have hhandlers := edits_foldlM (fun _ _ _ _ h => applyCfgHandler_edits hN h)
    (hconf.initialized hi) hu
  have hi' := hhandlers.initialized (hconf.initialized hi)
  exact (hconf.trans hhandlers).trans
    (edits_foldlM (fun _ _ _ hi h => applyCfgLogger_edits hN hi h) hi' hr')

theorem lmkParseAndApply_edits {parsed : Option Cfg} {p : Registry × Int}
    (hi : r.initialized = true) (h : lmkParseAndApply env r parsed = some p) :
    Edits N r p.1 := by
  cases parsed with
  | some cfg =>
    obtain ⟨u, hu, hp⟩ := Option.map_eq_some_iff.mp h
    rw [← hp]
    exact lmkCfgApply_edits hN hi hu
  | none =>
    rw [← Option.some.inj h]
    exact .refl

theorem lmkInit_edits {auto : Option Cfg} (h : lmkInit env auto r = some r') :
    Edits N r r' ∧ r'.initialized = true := by
  unfold lmkInit at h
  split at h
  · next hi =>
    rw [← Option.some.inj h]
    exact ⟨.refl, hi⟩
  · next hi =>
    obtain ⟨⟨u, code⟩, hu, hr'⟩ := Option.map_eq_some_iff.mp h
    have hstart := (Edit.start (N := N) (by simpa using hi)).edits
    have happly := hstart.trans (lmkParseAndApply_edits hN rfl hu)
    have hinit : u.initialized = true := (lmkParseAndApply_edits hN rfl hu).initialized rfl
    rw [← hr']
    refine ⟨happly.trans ?_, hinit⟩
    show Edits N u { u with config := u.config.map Config.withDefaults }
    cases hc : u.config with
    | none =>
      have hu' : ({ u with config := none } : Registry) = u := by rw [← hc]
      exact hu' ▸ .refl
    | some c => exact (Edit.setConfig hc).edits

end

end Logmoko
