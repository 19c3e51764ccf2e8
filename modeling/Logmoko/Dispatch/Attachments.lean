import Logmoko.Dispatch.Model
import Logmoko.Registry.Reachable

/-!
# 付けた順

logger の `handler_ref_list` は、呼び出しだけから決まる組の列 `attachments` のうち、
その logger の組を付けた順に並べたものである（`AttachInv`）。
logger の番地と `handler_ref_list` の列だけを `Registry.wiring` として取り出し、
操作ごとにその変化を見る。
-/

namespace Logmoko

open Transition

/-- logger の番地と `handler_ref_list` の列。 -/
def Registry.wiring (r : Registry) : List (Nat × List Nat) :=
  r.loggers.map fun l => (l.addr, l.handlerRefList)

/-- logger `g` に付いている handler を付けた順に並べたもの。 -/
def attachedTo (attachments : List (Nat × Nat)) (g : Nat) : List Nat :=
  (attachments.filter fun p => p.1 = g).map Prod.snd

/-- どの logger の `handler_ref_list` も、付いている handler を付けた順に並べたものである。 -/
structure AttachInv (wiring : List (Nat × List Nat)) (attachments : List (Nat × Nat)) : Prop where
  refs : ∀ p ∈ wiring, p.2 = attachedTo attachments p.1
  live : ∀ p ∈ attachments, p.1 ∈ wiring.map Prod.fst
  nodup : attachments.Nodup

variable {env : Env} {r r' : Registry} {wiring wiring' : List (Nat × List Nat)}
  {attachments : List (Nat × Nat)} {g a : Nat} {op : RegistryOp}

/-! ## 組の列 -/

theorem mem_attachedTo : a ∈ attachedTo attachments g ↔ (g, a) ∈ attachments := by
  unfold attachedTo
  rw [List.mem_map]
  constructor
  · rintro ⟨⟨g', a'⟩, hmem, rfl⟩
    obtain ⟨hpair, hg⟩ := List.mem_filter.mp hmem
    obtain rfl : g' = g := of_decide_eq_true hg
    exact hpair
  · intro hmem
    exact ⟨(g, a), List.mem_filter.mpr ⟨hmem, decide_eq_true rfl⟩, rfl⟩

theorem attachedTo_append (l l' : List (Nat × Nat)) :
    attachedTo (l ++ l') g = attachedTo l g ++ attachedTo l' g := by
  simp [attachedTo]

theorem attachedTo_eq_nil (h : ∀ p ∈ attachments, p.1 ≠ g) : attachedTo attachments g = [] := by
  unfold attachedTo
  rw [List.map_eq_nil_iff, List.filter_eq_nil_iff]
  intro p hp
  simpa using h p hp

theorem attachedTo_nodup (h : attachments.Nodup) : (attachedTo attachments g).Nodup := by
  refine (h.filter _).map_on ?_
  rintro ⟨g₁, a₁⟩ h₁ ⟨g₂, a₂⟩ h₂ rfl
  obtain rfl : g₁ = g := of_decide_eq_true (List.mem_filter.mp h₁).2
  obtain rfl : g₂ = g₁ := of_decide_eq_true (List.mem_filter.mp h₂).2
  rfl

/-- 外した組のほかは、順序も変わらない。 -/
theorem attachedTo_erase_self (h : attachments.Nodup) :
    attachedTo (attachments.erase (g, a)) g = (attachedTo attachments g).erase a := by
  rw [(attachedTo_nodup h).erase_eq_filter, h.erase_eq_filter]
  unfold attachedTo
  rw [List.filter_map, List.filter_filter, List.filter_filter]
  refine congrArg (List.map Prod.snd) (List.filter_congr ?_)
  rintro ⟨g', a'⟩ -
  refine Bool.eq_iff_iff.mpr ?_
  by_cases hg : g' = g
  · simp [hg]
  · simp [hg]

theorem attachedTo_erase_ne {g' : Nat} (h : attachments.Nodup) (hne : g' ≠ g) :
    attachedTo (attachments.erase (g, a)) g' = attachedTo attachments g' := by
  rw [h.erase_eq_filter]
  unfold attachedTo
  rw [List.filter_filter]
  refine congrArg (List.map Prod.snd) (List.filter_congr ?_)
  rintro ⟨g₁, a₁⟩ -
  by_cases hg : g₁ = g'
  · simp [hg, hne]
  · simp [hg]

/-! ## 列の変化 -/

/-- 参照を持たない logger を足す。 -/
theorem AttachInv.addLogger (h : AttachInv wiring attachments) (hg : g ∉ wiring.map Prod.fst) :
    AttachInv (wiring ++ [(g, [])]) attachments where
  refs p hp := by
    rcases List.mem_append.mp hp with hp | hp
    · exact h.refs p hp
    · obtain rfl := List.mem_singleton.mp hp
      refine (attachedTo_eq_nil ?_).symm
      rintro q hq rfl
      exact hg (h.live q hq)
  live p hp := by
    rw [List.map_append]
    exact List.mem_append_left _ (h.live p hp)
  nodup := h.nodup

theorem AttachInv.attach (h : AttachInv wiring attachments) (hg : g ∈ wiring.map Prod.fst)
    (hn : (g, a) ∉ attachments) :
    AttachInv (Keyed.modify Prod.fst g (fun p => (p.1, p.2 ++ [a])) wiring)
      (attachments ++ [(g, a)]) where
  refs p hp := by
    rcases Keyed.mem_modify.mp hp with ⟨q, hq, rfl, rfl⟩ | ⟨hq, hne⟩
    · rw [attachedTo_append, h.refs q hq]
      simp [attachedTo]
    · have hother : attachedTo [(g, a)] p.1 = [] := by
        refine attachedTo_eq_nil ?_
        intro q hq
        obtain rfl := List.mem_singleton.mp hq
        exact fun he => hne he.symm
      rw [attachedTo_append, h.refs p hq, hother, List.append_nil]
  live p hp := by
    rw [Keyed.map_modify (f := fun p : Nat × List Nat => (p.1, p.2 ++ [a])) fun _ => rfl]
    rcases List.mem_append.mp hp with hp | hp
    · exact h.live p hp
    · obtain rfl := List.mem_singleton.mp hp
      exact hg
  nodup := by
    refine List.nodup_append.mpr ⟨h.nodup, List.nodup_singleton _, ?_⟩
    rintro p hp q hq rfl
    exact hn (List.mem_singleton.mp hq ▸ hp)

theorem AttachInv.detach (h : AttachInv wiring attachments) :
    AttachInv (Keyed.modify Prod.fst g (fun p => (p.1, p.2.erase a)) wiring)
      (attachments.erase (g, a)) where
  refs p hp := by
    rcases Keyed.mem_modify.mp hp with ⟨q, hq, rfl, rfl⟩ | ⟨hq, hne⟩
    · rw [attachedTo_erase_self h.nodup, h.refs q hq]
    · rw [attachedTo_erase_ne h.nodup hne, h.refs p hq]
  live p hp := by
    rw [Keyed.map_modify (f := fun p : Nat × List Nat => (p.1, p.2.erase a)) fun _ => rfl]
    exact h.live p (List.mem_of_mem_erase hp)
  nodup := h.nodup.erase _

theorem AttachInv.dropLogger (h : AttachInv wiring attachments) :
    AttachInv (wiring.filter fun p => p.1 ≠ g) (attachments.filter fun p => p.1 ≠ g) where
  refs p hp := by
    obtain ⟨hp, hne⟩ := List.mem_filter.mp hp
    rw [h.refs p hp]
    unfold attachedTo
    rw [List.filter_filter]
    refine congrArg (List.map Prod.snd) (List.filter_congr ?_)
    intro q _
    by_cases hq : q.1 = p.1
    · simpa [hq] using hne
    · simp [hq]
  live p hp := by
    obtain ⟨hp, hne⟩ := List.mem_filter.mp hp
    obtain ⟨q, hq, he⟩ := List.mem_map.mp (h.live p hp)
    exact List.mem_map.mpr ⟨q, List.mem_filter.mpr ⟨hq, by rwa [he]⟩, he⟩
  nodup := h.nodup.filter _

/-- 初期の組の列。 -/
def pairsOf (wiring : List (Nat × List Nat)) : List (Nat × Nat) :=
  wiring.flatMap fun p => p.2.map fun a => (p.1, a)

theorem mem_pairsOf {q : Nat × Nat} : q ∈ pairsOf wiring ↔ ∃ p ∈ wiring, p.1 = q.1 ∧ q.2 ∈ p.2 := by
  unfold pairsOf
  rw [List.mem_flatMap]
  constructor
  · rintro ⟨p, hp, hq⟩
    obtain ⟨a, ha, rfl⟩ := List.mem_map.mp hq
    exact ⟨p, hp, rfl, ha⟩
  · rintro ⟨p, hp, hfst, hq⟩
    exact ⟨p, hp, List.mem_map.mpr ⟨q.2, hq, by rw [hfst]⟩⟩

theorem attachedTo_pairs (g : Nat) (refs : List Nat) :
    attachedTo (refs.map fun a => (g, a)) g = refs := by
  simp [attachedTo, List.filter_map, Function.comp_def]

/-- 番地が重複しなければ、初期の組の列は不変量を満たす。 -/
theorem attachInv_pairsOf (hnd : (wiring.map Prod.fst).Nodup) (hrefs : ∀ p ∈ wiring, p.2.Nodup) :
    AttachInv wiring (pairsOf wiring) := by
  induction wiring with
  | nil => exact ⟨fun _ hp => (nomatch hp), fun _ hp => (nomatch hp), List.nodup_nil⟩
  | cons p wiring ih =>
    obtain ⟨hp, hnd⟩ := List.nodup_cons.mp hnd
    have ih := ih hnd fun q hq => hrefs q (List.mem_cons_of_mem _ hq)
    have hsplit : pairsOf (p :: wiring) = (p.2.map fun a => (p.1, a)) ++ pairsOf wiring := rfl
    have hfst : ∀ q ∈ pairsOf wiring, q.1 ≠ p.1 := by
      rintro q hq he
      exact hp (he ▸ ih.live q hq)
    refine ⟨?_, ?_, ?_⟩
    · intro q hq
      rw [hsplit, attachedTo_append]
      rcases List.mem_cons.mp hq with rfl | hq
      · rw [attachedTo_pairs, attachedTo_eq_nil hfst, List.append_nil]
      · have hne : ∀ x ∈ p.2.map fun a => (p.1, a), x.1 ≠ q.1 := by
          intro x hx he
          obtain ⟨a, -, rfl⟩ := List.mem_map.mp hx
          exact hp (List.mem_map.mpr ⟨q, hq, he.symm⟩)
        rw [attachedTo_eq_nil hne, List.nil_append, ih.refs q hq]
    · intro q hq
      obtain ⟨x, hx, hfst, -⟩ := mem_pairsOf.mp hq
      exact hfst ▸ List.mem_map_of_mem hx
    · rw [hsplit]
      refine List.nodup_append.mpr ⟨?_, ih.nodup, ?_⟩
      · exact (hrefs p List.mem_cons_self).map fun a b h => (Prod.mk.inj h).2
      · rintro x hx y hy rfl
        obtain ⟨a, -, rfl⟩ := List.mem_map.mp hx
        exact hfst _ hy rfl

/-! ## 操作 -/

theorem wiring_setLogger {f : Logger → Logger} {k : Nat × List Nat → Nat × List Nat}
    (hf : ∀ l, ((f l).addr, (f l).handlerRefList) = k (l.addr, l.handlerRefList)) :
    (r.setLogger g f).wiring = Keyed.modify Prod.fst g k r.wiring :=
  Keyed.map_modify_comm (fun _ => rfl) hf

/-- 参照を変えない書き換え。 -/
theorem wiring_setLogger_same {f : Logger → Logger}
    (hf : ∀ l, ((f l).addr, (f l).handlerRefList) = (l.addr, l.handlerRefList)) :
    (r.setLogger g f).wiring = r.wiring := Keyed.map_modify hf

theorem map_fst_wiring (r : Registry) : r.wiring.map Prod.fst = r.loggers.map Logger.addr := by
  simp [Registry.wiring]

theorem mem_wiring {lg : Logger} (h : lg ∈ r.loggers) :
    (lg.addr, lg.handlerRefList) ∈ r.wiring := List.mem_map_of_mem h

theorem AttachInv.refs_of_mem (h : AttachInv r.wiring attachments) {lg : Logger}
    (hl : lg ∈ r.loggers) : lg.handlerRefList = attachedTo attachments lg.addr :=
  h.refs _ (mem_wiring hl)

theorem AttachInv.mem_iff (h : AttachInv r.wiring attachments) {lg : Logger}
    (hl : lg ∈ r.loggers) : (lg.addr, a) ∈ attachments ↔ a ∈ lg.handlerRefList := by
  rw [← mem_attachedTo, ← h.refs_of_mem hl]

theorem onHandler_wiring (handler : Option Nat) (f : LogHandler → LogHandler) :
    (onHandler r handler f).wiring = r.wiring := by
  cases handler <;> rfl

theorem getOrCreateHandler_wiring {name : CStr} {body : HandlerBody} {p : Registry × Option Nat}
    (h : getOrCreateHandler r name body = some p) : p.1.wiring = r.wiring := by
  rcases getOrCreateHandler_cases h with heq | ⟨c, hd, -, -, heq⟩
  · rw [heq]
  · rw [heq]
    rfl

theorem lmkGetLogger_wiring {name : Option CStr} {p : Registry × Option Nat}
    (h : lmkGetLogger r name = some p) : p.1.wiring = r.wiring ∨
      p.1.wiring = r.wiring ++ [(r.freshAddr, [])] := by
  unfold lmkGetLogger at h
  split at h
  · rw [← Option.some.inj h]
    exact Or.inl rfl
  · split at h
    · rw [← Option.some.inj h]
      exact Or.inl rfl
    · obtain ⟨name', -, rfl⟩ := Option.map_eq_some_iff.mp h
      exact Or.inr (List.map_append ..)

theorem lmkSetLogLevel_wiring (logger : Option Nat) (level : Int) :
    (lmkSetLogLevel r logger level).wiring = r.wiring := by
  unfold lmkSetLogLevel
  split
  · rfl
  · split
    · exact wiring_setLogger_same fun _ => rfl
    · rfl

theorem lmkGetFileLogHandler_wiring {name filename : Option CStr} {p : Registry × Option Nat}
    (h : lmkGetFileLogHandler r name filename = some p) : p.1.wiring = r.wiring := by
  unfold lmkGetFileLogHandler at h
  split at h
  · exact getOrCreateHandler_wiring h
  · rw [← Option.some.inj h]

theorem lmkGetSocketLogHandler_wiring {name : Option CStr} {p : Registry × Option Nat}
    (h : lmkGetSocketLogHandler r name = some p) : p.1.wiring = r.wiring := by
  cases name with
  | some name => exact getOrCreateHandler_wiring h
  | none => rw [← Option.some.inj h]

theorem lmkGetSyslogLogHandler_wiring {name ident : Option CStr} {facility : Int}
    {p : Registry × Option Nat} (h : lmkGetSyslogLogHandler r name ident facility = some p) :
    p.1.wiring = r.wiring := by
  cases name with
  | some name => exact getOrCreateHandler_wiring h
  | none => rw [← Option.some.inj h]

theorem lmkDestroyLogHandler_wiring (handler : Option Nat) :
    (lmkDestroyLogHandler r handler).1.wiring = r.wiring := by
  unfold lmkDestroyLogHandler
  split
  · split <;> rfl
  · rfl

theorem lmkSetHandlerLogLevel_wiring (handler : Option Nat) (level : Int) :
    (lmkSetHandlerLogLevel r handler level).wiring = r.wiring := by
  unfold lmkSetHandlerLogLevel
  split
  · exact onHandler_wiring _ _
  · rfl

theorem lmkSetLogFilename_wiring {handler : Option Nat} {filename : Option CStr}
    (h : lmkSetLogFilename r handler filename = some r') : r'.wiring = r.wiring := by
  obtain ⟨a, -, rfl⟩ := Option.map_eq_some_iff.mp h
  split <;> rfl

theorem lmkAttachLogListener_wiring (handler : Option Nat) (host : Option CStr) (port : Int) :
    (lmkAttachLogListener env r handler host port).wiring = r.wiring := by
  unfold lmkAttachLogListener
  split
  · split
    · rfl
    · exact onHandler_wiring _ _
  · rfl

theorem lmkSetSocketPsk_wiring (handler : Option Nat) (psk : Option CStr) :
    (lmkSetSocketPsk env r handler psk).wiring = r.wiring := by
  unfold lmkSetSocketPsk
  split
  · exact onHandler_wiring _ _
  · rfl

/-! ## 組の列を変える操作 -/

theorem attachInv_lmkGetLogger (hinv : AttachInv r.wiring attachments) {name : Option CStr}
    {p : Registry × Option Nat} (h : lmkGetLogger r name = some p) :
    AttachInv p.1.wiring attachments := by
  rcases lmkGetLogger_wiring h with heq | heq
  · rwa [heq]
  · rw [heq]
    refine hinv.addLogger ?_
    rw [map_fst_wiring]
    exact freshAddr_notMem_loggers r

theorem attachInv_lmkDestroyLogger (hinv : AttachInv r.wiring attachments) (ha : AddrInv r)
    (hr : RefInv r) {logger : Option Nat} (hlogger : r.LoggerLive logger)
    {p : Registry × Int × List Int} (h : lmkDestroyLogger r.fuel r logger = some p) :
    AttachInv p.1.wiring (updateAttachments attachments (.destroyLogger logger)) := by
  cases logger with
  | none =>
    obtain rfl := Option.some.inj h
    exact hinv
  | some g =>
    obtain ⟨lg, hl, rfl⟩ := List.mem_map.mp (hlogger g rfl)
    obtain ⟨u, codes, hu, -, -, -, hloggers, -⟩ :=
      lmkDestroyLogger_spec ha hr hl (handlerRefList_le_fuel hl)
    obtain rfl := Option.some.inj (h.symm.trans hu)
    have hwiring : u.wiring = r.wiring.filter fun p => p.1 ≠ lg.addr := by
      unfold Registry.wiring
      rw [hloggers, List.filter_map]
      rfl
    show AttachInv u.wiring _
    rw [hwiring]
    exact hinv.dropLogger

theorem attachInv_lmkAttachLogHandler (hinv : AttachInv r.wiring attachments) (ha : AddrInv r)
    {logger handler : Option Nat} (hlogger : r.LoggerLive logger)
    (hhandler : r.HandlerLive handler) :
    AttachInv (lmkAttachLogHandler r logger handler).1.wiring
      (updateAttachments attachments (.attachLogHandler logger handler)) := by
  cases logger with
  | none => exact hinv
  | some g =>
    cases handler with
    | none =>
      unfold lmkAttachLogHandler
      split
      · next hh => cases hh
      · exact hinv
    | some a =>
      obtain ⟨lg, hl, rfl⟩ := List.mem_map.mp (hlogger g rfl)
      obtain ⟨hd, hh, rfl⟩ := List.mem_map.mp (hhandler a rfl)
      have hmem := hinv.mem_iff (a := hd.addr) hl
      simp only [lmkAttachLogHandler, Option.bind_some, ha.logger?_of_mem hl,
        ha.handler?_of_mem hh, ha.handlersReady hd hh, updateAttachments, hmem]
      rw [if_neg (by decide)]
      split
      · exact hinv
      · next hn =>
        have hwiring := wiring_setLogger (r := r) (g := lg.addr) (f := .addRef hd.addr)
          (k := fun p => (p.1, p.2 ++ [hd.addr])) fun _ => rfl
        show AttachInv (r.setLogger lg.addr (.addRef hd.addr)).wiring _
        rw [hwiring]
        refine hinv.attach ?_ (hmem.not.mpr hn)
        rw [map_fst_wiring]
        exact List.mem_map_of_mem hl

theorem attachInv_lmkDetachLogHandler (hinv : AttachInv r.wiring attachments) (ha : AddrInv r)
    {logger handler : Option Nat} (hlogger : r.LoggerLive logger)
    (hhandler : r.HandlerLive handler) {p : Registry × Int}
    (h : lmkDetachLogHandler r logger handler = some p) :
    AttachInv p.1.wiring (updateAttachments attachments (.detachLogHandler logger handler)) := by
  cases logger with
  | none =>
    obtain rfl := Option.some.inj h
    exact hinv
  | some g =>
    obtain ⟨lg, hl, rfl⟩ := List.mem_map.mp (hlogger g rfl)
    cases handler with
    | none =>
      simp only [lmkDetachLogHandler, Option.bind_some, ha.logger?_of_mem hl] at h
      obtain rfl := Option.some.inj h
      exact hinv
    | some a =>
      obtain ⟨hd, hh, rfl⟩ := List.mem_map.mp (hhandler a rfl)
      have hmem := hinv.mem_iff (a := hd.addr) hl
      by_cases hm : hd.addr ∈ lg.handlerRefList
      · obtain rfl := Option.some.inj (h.symm.trans (lmkDetachLogHandler_of_mem ha hl hh hm))
        have hwiring := wiring_setLogger (r := r) (g := lg.addr) (f := .dropRef hd.addr)
          (k := fun p => (p.1, p.2.erase hd.addr)) fun _ => rfl
        show AttachInv (r.setLogger lg.addr (.dropRef hd.addr)).wiring _
        rw [hwiring]
        exact hinv.detach
      · simp only [lmkDetachLogHandler, Option.bind_some, ha.logger?_of_mem hl,
          if_neg hm] at h
        obtain rfl := Option.some.inj h
        show AttachInv r.wiring (attachments.erase (lg.addr, hd.addr))
        rwa [List.erase_of_not_mem (hmem.not.mpr hm)]

/-- 操作一つは、付いている組の列を呼び出しのとおりに変える。 -/
theorem attachInv_runOp (ha : AddrInv r) (hr : RefInv r) (hi : r.initialized = true)
    (hsingle : op.Single) (hargs : ArgsLive r op) (h : runOp env none r op = some r')
    (hinv : AttachInv r.wiring attachments) :
    AttachInv r'.wiring (updateAttachments attachments op) := by
  have hinit : lmkInit env none r = some r := lmkInit_of_initialized hi
  have hkeep : r'.wiring = r.wiring → AttachInv r'.wiring attachments := by
    intro heq
    rwa [heq]
  cases op with
  | initFromFile _ | cfgApply _ | destroy => exact hsingle.elim
  | init =>
    obtain rfl := Option.some.inj (hinit.symm.trans h)
    exact hinv
  | getLogger name =>
    simp only [runOp, hinit, Option.bind_some] at h
    obtain ⟨p, hp, rfl⟩ := Option.map_eq_some_iff.mp h
    exact attachInv_lmkGetLogger hinv hp
  | setLogLevel logger level =>
    simp only [runOp, hinit, Option.map_some] at h
    obtain rfl := Option.some.inj h
    exact hkeep (lmkSetLogLevel_wiring logger level)
  | destroyLogger logger =>
    simp only [runOp, hinit, Option.bind_some] at h
    obtain ⟨p, hp, rfl⟩ := Option.map_eq_some_iff.mp h
    exact attachInv_lmkDestroyLogger hinv ha hr hargs hp
  | attachLogHandler logger handler =>
    simp only [runOp, hinit, Option.map_some] at h
    obtain rfl := Option.some.inj h
    exact attachInv_lmkAttachLogHandler hinv ha hargs.1 hargs.2
  | detachLogHandler logger handler =>
    simp only [runOp, hinit, Option.bind_some] at h
    obtain ⟨p, hp, rfl⟩ := Option.map_eq_some_iff.mp h
    exact attachInv_lmkDetachLogHandler hinv ha hargs.1 hargs.2 hp
  | getConsoleLogHandler =>
    simp only [runOp, hinit, Option.bind_some] at h
    obtain ⟨p, hp, rfl⟩ := Option.map_eq_some_iff.mp h
    exact hkeep (getOrCreateHandler_wiring hp)
  | getFileLogHandler name filename =>
    simp only [runOp, hinit, Option.bind_some] at h
    obtain ⟨p, hp, rfl⟩ := Option.map_eq_some_iff.mp h
    exact hkeep (lmkGetFileLogHandler_wiring hp)
  | getSocketLogHandler name =>
    simp only [runOp, hinit, Option.bind_some] at h
    obtain ⟨p, hp, rfl⟩ := Option.map_eq_some_iff.mp h
    exact hkeep (lmkGetSocketLogHandler_wiring hp)
  | getSyslogLogHandler name ident facility =>
    simp only [runOp, hinit, Option.bind_some] at h
    obtain ⟨p, hp, rfl⟩ := Option.map_eq_some_iff.mp h
    exact hkeep (lmkGetSyslogLogHandler_wiring hp)
  | destroyLogHandler handler =>
    obtain rfl := Option.some.inj h
    exact hkeep (lmkDestroyLogHandler_wiring handler)
  | setHandlerLogLevel handler level =>
    simp only [runOp, hinit, Option.map_some] at h
    obtain rfl := Option.some.inj h
    exact hkeep (lmkSetHandlerLogLevel_wiring handler level)
  | setLogFormat handler fn =>
    obtain rfl := Option.some.inj h
    exact hkeep (onHandler_wiring _ _)
  | setLogRotation handler m n =>
    obtain rfl := Option.some.inj h
    exact hkeep (onHandler_wiring _ _)
  | setLogFilename handler filename => exact hkeep (lmkSetLogFilename_wiring h)
  | attachLogListener handler host port =>
    obtain rfl := Option.some.inj h
    exact hkeep (lmkAttachLogListener_wiring handler host port)
  | setSocketPsk handler psk =>
    obtain rfl := Option.some.inj h
    exact hkeep (lmkSetSocketPsk_wiring handler psk)

end Logmoko
