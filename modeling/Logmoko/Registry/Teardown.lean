import Logmoko.Registry.Invariant

/-!
# 解放の loop

`lmk_destroy_logger` の detach の loop と、`lmk_destroy` の二つの loop が何をするかを示す。
loop は本体が今の node を外すことに頼っている。外し損ねないことは参照の不変量 `RefInv` から出る。

* `lmkDestroyLogger_spec` — 一つの logger の解放
* `lmkDestroy_spec` — 全体の解放。開始時の状態に戻る
* `lmkDestroy_initial` — 不変量が無くても、終わったなら開始時の状態に戻っている
-/

namespace Logmoko

open Keyed Cursor

variable {r r' : Registry} {N : CStr → Prop}

/-! ## 参照を外す -/

/-- 参照している handler が生きていれば、detach は成功する。 -/
theorem lmkDetachLogHandler_of_mem (ha : AddrInv r) {lg : Logger} {hd : LogHandler}
    (hl : lg ∈ r.loggers) (hh : hd ∈ r.handlers) (hm : hd.addr ∈ lg.handlerRefList) :
    lmkDetachLogHandler r (some lg.addr) (some hd.addr)
      = some ((r.setLogger lg.addr (.dropRef hd.addr)).setHandler hd.addr .dropRef, lmkEOk) := by
  unfold lmkDetachLogHandler
  simp only [Option.bind_some, ha.logger?_of_mem hl, if_pos hm]
  rw [handler?_setLogger, ha.handler?_of_mem hh]
  rfl

theorem refEntries_eq (ha : AddrInv r) {lg : Logger} (hl : lg ∈ r.loggers) (codes : List Int) :
    refEntries lg.addr (r, codes) = lg.handlerRefList := by
  simp [refEntries, ha.logger?_of_mem hl]

/-- detach の loop の途中。番地 `a` の logger と参照の個数のほかは元のままである。 -/
structure Detaching (r : Registry) (a : Nat) (s : Registry × List Int) : Prop where
  addr : AddrInv s.1
  ref : RefInv s.1
  loggerAddrs : s.1.loggers.map Logger.addr = r.loggers.map Logger.addr
  handlerAddrs : s.1.handlers.map LogHandler.addr = r.handlers.map LogHandler.addr
  others : s.1.loggers.filter (fun l => l.addr ≠ a) = r.loggers.filter (fun l => l.addr ≠ a)
  initialized : s.1.initialized = r.initialized
  config : s.1.config = r.config
  codes : ∀ c ∈ s.2, c = lmkEOk

theorem filter_modify_key {α κ : Type} [DecidableEq κ] {key : α → κ} {k : κ} {f : α → α}
    (hf : ∀ x, key (f x) = key x) (l : List α) :
    (modify key k f l).filter (fun x => key x ≠ k) = l.filter (fun x => key x ≠ k) := by
  induction l with
  | nil => rfl
  | cons x l ih =>
    rw [modify_cons]
    by_cases hk : key x = k
    · rw [if_pos hk, List.filter_cons_of_neg (by simp [hf, hk]),
        List.filter_cons_of_neg (by simp [hk]), ih]
    · rw [if_neg hk, List.filter_cons_of_pos (by simp [hk]),
        List.filter_cons_of_pos (by simp [hk]), ih]

/-- loop の本体は先頭の参照を外し、残りの参照はそのままにする。 -/
theorem detachEntry_spec {a x : Nat} {rest : List Nat} {s : Registry × List Int}
    (hs : Detaching r a s) (hrefs : refEntries a s = x :: rest) :
    ∃ s', detachEntry a s x = some s' ∧ refEntries a s' = rest ∧ Detaching r a s' := by
  obtain ⟨lg, hlg, hlist⟩ : ∃ lg, s.1.logger? a = some lg ∧ lg.handlerRefList = x :: rest := by
    unfold refEntries at hrefs
    cases hq : s.1.logger? a with
    | none => simp [hq] at hrefs
    | some lg => exact ⟨lg, rfl, by simpa [hq] using hrefs⟩
  obtain ⟨hl, rfl⟩ := logger?_eq_some hlg
  have hm : x ∈ lg.handlerRefList := by simp [hlist]
  obtain ⟨hd, hh, rfl⟩ := List.mem_map.mp (hs.ref.live lg hl x hm)
  have hdet := lmkDetachLogHandler_of_mem hs.addr hl hh hm
  have hedit : Edit (fun _ => True) s.1
      ((s.1.setLogger lg.addr (.dropRef hd.addr)).setHandler hd.addr .dropRef) :=
    Edit.detach hl hh hm
  have haddr := addrInv_edit hs.addr hedit
  refine ⟨_, by rw [detachEntry, hdet]; rfl, ?_, ?_⟩
  · -- 書き換わった logger を新しい registry から引き直す
    have hl' : lg.dropRef hd.addr ∈
        ((s.1.setLogger lg.addr (.dropRef hd.addr)).setHandler hd.addr .dropRef).loggers :=
      mem_modify.mpr (Or.inl ⟨lg, hl, rfl, rfl⟩)
    have hlook := refEntries_eq haddr hl' (s.2 ++ [lmkEOk])
    refine hlook.trans ?_
    show lg.handlerRefList.erase hd.addr = rest
    rw [hlist, List.erase_cons_head]
  · refine ⟨haddr, refInv_edit hs.addr hs.ref hedit, ?_, ?_, ?_, hs.initialized, hs.config, ?_⟩
    · exact (map_modify (f := Logger.dropRef hd.addr) fun _ => rfl).trans hs.loggerAddrs
    · exact (map_modify (f := LogHandler.dropRef) fun _ => rfl).trans hs.handlerAddrs
    · exact (filter_modify_key (f := Logger.dropRef hd.addr) (fun _ => rfl) _).trans hs.others
    · intro c hc
      rcases List.mem_append.mp hc with hc' | hc'
      · exact hs.codes c hc'
      · exact List.mem_singleton.mp hc'

/-! ## logger の解放 -/

/-- 参照を持たない logger の解放は、参照の不変量を保つ。 -/
theorem RefInv.dropLogger (h : RefInv r) {a : Nat}
    (hempty : ∀ l ∈ r.loggers, l.addr = a → l.handlerRefList = []) :
    RefInv { r with loggers := r.loggers.filter fun l => l.addr ≠ a } where
  nodup l hl := h.nodup l (List.mem_filter.mp hl).1
  live l hl := h.live l (List.mem_filter.mp hl).1
  counts x hx := by
    refine (h.counts x hx).trans (congrArg (· % 2 ^ 32) ?_)
    show r.loggers.countP _ = (r.loggers.filter _).countP _
    rw [List.countP_filter]
    refine List.countP_congr ?_
    intro l hl
    have hne : x.addr ∈ l.handlerRefList → l.addr ≠ a := by
      intro hx' he
      rw [hempty l hl he] at hx'
      simp at hx'
    simp only [decide_eq_true_eq, Bool.and_eq_true]
    exact ⟨fun hx' => ⟨hx', hne hx'⟩, fun hx' => hx'.1⟩

/-- 生きている logger の解放は、参照をすべて外してから、その logger だけを取り除く。 -/
theorem lmkDestroyLogger_spec (ha : AddrInv r) (hr : RefInv r) {lg : Logger}
    (hl : lg ∈ r.loggers) {fuel : Nat} (hfuel : lg.handlerRefList.length ≤ fuel) :
    ∃ r' codes, lmkDestroyLogger fuel r (some lg.addr) = some (r', lmkEOk, codes) ∧
      (∀ c ∈ codes, c = lmkEOk) ∧ AddrInv r' ∧ RefInv r' ∧
      r'.loggers = r.loggers.filter (fun l => l.addr ≠ lg.addr) ∧
      r'.handlers.map LogHandler.addr = r.handlers.map LogHandler.addr ∧
      r'.initialized = r.initialized ∧ r'.config = r.config := by
  have hstart : Detaching r lg.addr (r, []) := ⟨ha, hr, rfl, rfl, rfl, rfl, rfl, by simp⟩
  have hlen : (refEntries lg.addr (r, [])).length ≤ fuel := by
    rw [refEntries_eq ha hl]
    exact hfuel
  obtain ⟨⟨u, codes⟩, hu, hnil, hdet⟩ :=
    forEachEntry_removes (fun s x rest hs hx => detachEntry_spec hs hx) hstart hlen
  have hempty : ∀ l ∈ u.loggers, l.addr = lg.addr → l.handlerRefList = [] := by
    intro l hl' he
    rw [← he] at hnil
    exact (refEntries_eq hdet.addr hl' codes).symm.trans hnil
  refine ⟨_, codes, by rw [lmkDestroyLogger, hu]; rfl, hdet.codes, addrInv_drop hdet.addr .logger,
    hdet.ref.dropLogger hempty, hdet.others, hdet.handlerAddrs, hdet.initialized, hdet.config⟩

/-! ## 全体の解放 -/

theorem filter_key_cons {α κ : Type} [DecidableEq κ] {key : α → κ} {x : α} {l : List α}
    (hnd : ((x :: l).map key).Nodup) :
    (x :: l).filter (fun y => key y ≠ key x) = l := by
  obtain ⟨hx, -⟩ := List.nodup_cons.mp hnd
  rw [List.filter_cons_of_neg (by simp)]
  refine List.filter_eq_self.mpr ?_
  intro y hy
  have hne : key y ≠ key x := fun he => hx (he ▸ List.mem_map_of_mem hy)
  simpa using hne

/-- 一つ目の loop の途中。解放し終えた logger が `done` に並ぶ。 -/
structure DroppingLoggers (r : Registry) (s : Registry × DestroyLog) : Prop where
  addr : AddrInv s.1
  ref : RefInv s.1
  done : ∃ done, r.loggers = done ++ s.1.loggers ∧
    s.2.loggers = done.map fun l => (l.addr, lmkEOk)
  handlerAddrs : s.1.handlers.map LogHandler.addr = r.handlers.map LogHandler.addr
  initialized : s.1.initialized = r.initialized
  config : s.1.config = r.config
  codes : ∀ c ∈ s.2.detachCodes, c = lmkEOk
  noHandler : s.2.handlers = []

theorem destroyLoggerEntry_spec {fuel x : Nat} {rest : List Nat} {s : Registry × DestroyLog}
    (hfuel : ∀ l ∈ r.loggers, l.handlerRefList.length ≤ fuel) (hs : DroppingLoggers r s)
    (hx : loggerEntries s = x :: rest) :
    ∃ s', destroyLoggerEntry fuel s x = some s' ∧ loggerEntries s' = rest ∧
      DroppingLoggers r s' := by
  obtain ⟨done, hdone, hlog⟩ := hs.done
  obtain ⟨lg, ls, hloggers, rfl, hrest⟩ : ∃ lg ls, s.1.loggers = lg :: ls ∧ lg.addr = x ∧
      ls.map Logger.addr = rest := List.map_eq_cons_iff.mp hx
  have hl : lg ∈ s.1.loggers := by simp [hloggers]
  have hlen := hfuel lg (by rw [hdone]; exact List.mem_append_right _ hl)
  obtain ⟨u, codes, hu, hcodes, haddr, href, hul, huh, hui, huc⟩ :=
    lmkDestroyLogger_spec hs.addr hs.ref hl hlen
  -- 番地が重複しないので、先頭の番地で間引くと残りの列になる
  have hls : u.loggers = ls := by
    have hnd := hs.addr.loggerAddrs
    rw [hloggers] at hnd hul
    rw [hul]
    exact filter_key_cons hnd
  refine ⟨_, by rw [destroyLoggerEntry, hu]; rfl, ?_, ?_⟩
  · show u.loggers.map Logger.addr = rest
    rw [hls, hrest]
  · refine ⟨haddr, href, ⟨done ++ [lg], ?_, ?_⟩, huh.trans hs.handlerAddrs,
      hui.trans hs.initialized, huc.trans hs.config, ?_, hs.noHandler⟩
    · show r.loggers = done ++ [lg] ++ u.loggers
      rw [hdone, hloggers, hls, List.append_assoc]
      rfl
    · show s.2.loggers ++ [(lg.addr, lmkEOk)] = _
      rw [hlog, List.map_append]
      rfl
    · intro c hc
      rcases List.mem_append.mp hc with hc' | hc'
      · exact hs.codes c hc'
      · exact hcodes c hc'

/-- 二つ目の loop の途中。logger はもう無く、どの handler も参照されていない。 -/
structure DroppingHandlers (r : Registry) (s : Registry × DestroyLog) : Prop where
  addr : AddrInv s.1
  noLogger : s.1.loggers = []
  unreferenced : ∀ h ∈ s.1.handlers, h.nrLoggerRef = 0
  done : ∃ done, r.handlers.map LogHandler.addr = done ++ s.1.handlers.map LogHandler.addr ∧
    s.2.handlers = done.map fun a => (a, lmkEOk)
  loggers : s.2.loggers = r.loggers.map fun l => (l.addr, lmkEOk)
  codes : ∀ c ∈ s.2.detachCodes, c = lmkEOk

/-- 参照されていない handler の解放は成功する。 -/
theorem lmkDestroyLogHandler_of_unreferenced (ha : AddrInv r) {hd : LogHandler}
    (hh : hd ∈ r.handlers) (h0 : hd.nrLoggerRef = 0) :
    lmkDestroyLogHandler r (some hd.addr)
      = ({ r with handlers := r.handlers.filter fun h => h.addr ≠ hd.addr }, lmkEOk) := by
  unfold lmkDestroyLogHandler
  simp only [Option.bind_some, ha.handler?_of_mem hh]
  rw [if_neg (by omega)]

theorem destroyHandlerEntry_spec {x : Nat} {rest : List Nat} {s : Registry × DestroyLog}
    (hs : DroppingHandlers r s) (hx : handlerEntries s = x :: rest) :
    ∃ s', destroyHandlerEntry s x = some s' ∧ handlerEntries s' = rest ∧
      DroppingHandlers r s' := by
  obtain ⟨done, hdone, hlog⟩ := hs.done
  obtain ⟨hd, hds, hhandlers, rfl, hrest⟩ : ∃ hd hds, s.1.handlers = hd :: hds ∧ hd.addr = x ∧
      hds.map LogHandler.addr = rest := List.map_eq_cons_iff.mp hx
  have hh : hd ∈ s.1.handlers := by simp [hhandlers]
  have hdestroy := lmkDestroyLogHandler_of_unreferenced hs.addr hh (hs.unreferenced hd hh)
  have hfilter : s.1.handlers.filter (fun h => h.addr ≠ hd.addr) = hds := by
    have hnd := hs.addr.handlerAddrs
    rw [hhandlers] at hnd ⊢
    exact filter_key_cons hnd
  rw [hfilter] at hdestroy
  have haddr : AddrInv { s.1 with handlers := hds } := by
    have := addrInv_drop hs.addr (.handler (a := hd.addr))
    rwa [hfilter] at this
  have hentry : destroyHandlerEntry s hd.addr = some ({ s.1 with handlers := hds },
      { s.2 with handlers := s.2.handlers ++ [(hd.addr, lmkEOk)] }) := by
    rw [destroyHandlerEntry, hdestroy]
  refine ⟨_, hentry, hrest, ?_⟩
  refine ⟨haddr, hs.noLogger, ?_, ⟨done ++ [hd.addr], ?_, ?_⟩, hs.loggers, hs.codes⟩
  · intro h hm
    exact hs.unreferenced h (by rw [hhandlers]; exact List.mem_cons_of_mem _ hm)
  · rw [hdone, hhandlers, List.append_assoc]
    rfl
  · show s.2.handlers ++ [(hd.addr, lmkEOk)] = _
    rw [hlog, List.map_append]
    rfl

/--
参照の不変量を満たす registry の `lmk_destroy` は終わる。どの logger と handler も一度ずつ、
失敗せずに解放され、開始時の状態に戻る。
-/
theorem lmkDestroy_spec (fuel : Nat) (ha : AddrInv r) (hr : RefInv r)
    (hloggers : r.loggers.length ≤ fuel) (hhandlers : r.handlers.length ≤ fuel)
    (hrefs : ∀ l ∈ r.loggers, l.handlerRefList.length ≤ fuel) :
    ∃ log, lmkDestroy fuel r = some (Registry.initial, log) ∧
      log.loggers = r.loggers.map (fun l => (l.addr, lmkEOk)) ∧
      log.handlers = r.handlers.map (fun h => (h.addr, lmkEOk)) ∧
      ∀ c ∈ log.detachCodes, c = lmkEOk := by
  by_cases hi : r.initialized = true
  · have hstart : DroppingLoggers r (r, .empty) :=
      ⟨ha, hr, ⟨[], rfl, rfl⟩, rfl, rfl, rfl, by simp [DestroyLog.empty], rfl⟩
    obtain ⟨⟨u, log⟩, hu, hunil, hs⟩ :=
      forEachEntry_removes (fun s x rest hs hx => destroyLoggerEntry_spec hrefs hs hx) hstart
        (by simpa [loggerEntries] using hloggers : (loggerEntries (r, .empty)).length ≤ fuel)
    obtain ⟨done, hdone, hlog⟩ := hs.done
    have hnil : u.loggers = [] := List.map_eq_nil_iff.mp hunil
    -- logger が無くなったので参照の個数は 0 で、counter もそれに合っている
    have hcount : ∀ h ∈ u.handlers, h.nrLoggerRef = 0 := by
      intro h hm
      have hc : h.nrLoggerRef = u.refCount h.addr % 2 ^ 32 := hs.ref.counts h hm
      rw [hc]
      simp [Registry.refCount, hnil]
    have hdone' : r.loggers = done := by simpa [hnil] using hdone
    have hstart' : DroppingHandlers r (u, log) :=
      ⟨hs.addr, hnil, hcount, ⟨[], hs.handlerAddrs.symm, hs.noHandler⟩, hdone' ▸ hlog, hs.codes⟩
    have hlen : (handlerEntries (u, log)).length ≤ fuel := by
      show (u.handlers.map LogHandler.addr).length ≤ fuel
      rw [hs.handlerAddrs, List.length_map]
      exact hhandlers
    obtain ⟨⟨v, log'⟩, hv, hvnil, hs'⟩ :=
      forEachEntry_removes (fun s x rest hs hx => destroyHandlerEntry_spec hs hx) hstart' hlen
    obtain ⟨done', hdone'', hlog'⟩ := hs'.done
    have hnil' : v.handlers = [] := List.map_eq_nil_iff.mp hvnil
    refine ⟨log', ?_, hs'.loggers, ?_, hs'.codes⟩
    · have hl : v.loggers = [] := hs'.noLogger
      rw [lmkDestroy, if_pos hi, hu]
      simp only [Option.bind_some, hv, Option.map_some, Registry.initial, hl, hnil']
    · have he : r.handlers.map LogHandler.addr = done' := by simpa [hnil'] using hdone''
      rw [hlog', ← he, List.map_map]
      rfl
  · -- 初期化されていなければ `lmk_destroy` は何もしない
    have hr0 := ha.uninit (by simpa using hi)
    subst hr0
    exact ⟨.empty, rfl, rfl, rfl, by simp [DestroyLog.empty]⟩

/-! ## 不変量に頼らない部分 -/

theorem lmkDestroyLogger_edits {fuel : Nat} {logger : Option Nat} {p : Registry × Int × List Int}
    (h : lmkDestroyLogger fuel r logger = some p) :
    ∃ u, Edits N r u ∧ (p.1 = u ∨ Drop u p.1) := by
  cases logger with
  | none =>
    rw [← Option.some.inj h]
    exact ⟨r, .refl, Or.inl rfl⟩
  | some a =>
    obtain ⟨s, hs, hp⟩ := Option.map_eq_some_iff.mp h
    have hedits : Edits N r s.1 := by
      refine forEachEntry_rel (R := fun s t => Edits N s.1 t.1) (fun _ => .refl)
        (fun _ _ _ => Edits.trans) (fun s x s' hb => ?_) hs
      obtain ⟨q, hq, hs'⟩ := Option.map_eq_some_iff.mp hb
      rw [← hs']
      exact lmkDetachLogHandler_edits hq
    rw [← hp]
    exact ⟨s.1, hedits, Or.inr .logger⟩

theorem lmkDestroyLogHandler_drop (r : Registry) (handler : Option Nat) :
    (lmkDestroyLogHandler r handler).1 = r ∨ Drop r (lmkDestroyLogHandler r handler).1 := by
  unfold lmkDestroyLogHandler
  split
  · split
    · exact Or.inl rfl
    · exact Or.inr .handler
  · exact Or.inl rfl

theorem Drop.loggers_nil (h : Drop r r') (hl : r.loggers = []) : r'.loggers = [] := by
  cases h with
  | logger => simp [hl]
  | handler => exact hl

/-- `lmk_destroy` が終わったなら、二つの list は空で、開始時の状態に戻っている。 -/
theorem lmkDestroy_initial (ha : AddrInv r) {fuel : Nat} {p : Registry × DestroyLog}
    (h : lmkDestroy fuel r = some p) : p.1 = Registry.initial := by
  unfold lmkDestroy at h
  split at h
  · obtain ⟨s, hs, h⟩ := Option.bind_eq_some_iff.mp h
    obtain ⟨t, ht, hp⟩ := Option.map_eq_some_iff.mp h
    have hloggers : s.1.loggers = [] := by
      have := (nodes_nil_of_forEachEntry (I := fun _ => True) (fun _ _ _ _ _ _ _ => trivial)
        trivial hs).1
      exact List.map_eq_nil_iff.mp this
    obtain ⟨hhandlers, hloggers'⟩ :=
      nodes_nil_of_forEachEntry (I := fun s : Registry × DestroyLog => s.1.loggers = [])
        (fun s x rest s' hl _ hb => by
          rw [← Option.some.inj hb]
          show (lmkDestroyLogHandler s.1 (some x)).1.loggers = []
          rcases lmkDestroyLogHandler_drop s.1 (some x) with he | hd
          · rw [he]
            exact hl
          · exact hd.loggers_nil hl) hloggers ht
    rw [← hp]
    simp only [Registry.initial, hloggers', List.map_eq_nil_iff.mp hhandlers]
  · next hi =>
    rw [← Option.some.inj h]
    exact ha.uninit (by simpa using hi)

end Logmoko
