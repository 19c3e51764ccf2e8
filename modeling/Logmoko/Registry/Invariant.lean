import Logmoko.Registry.Edit

/-!
# registry の不変量

四つに分けて、書き換え（`Edit`）と解放（`Drop`）ごとに保存を示す。

* `AddrInv` — 番地が重複しないこと。どんな操作列でも成り立つ
* `LevelInv` — level が TRACE から OFF の間にあること。どんな操作列でも成り立つ
* `NameInv` — 名前が重複しないこと。登録される名前が `int` に収まる長さのとき保たれる
* `RefInv` — 参照が重複せず、生きた handler を指し、`nr_logger_ref` が参照する logger の個数を
  32 bit に切り詰めたものであること
-/

namespace Logmoko

open Keyed

/-! ## 番地 -/

theorem le_maxAddr {l : List Nat} {a : Nat} (h : a ∈ l) : a ≤ maxAddr l := by
  induction l with
  | nil => simp at h
  | cons b l ih =>
    rw [maxAddr, List.foldr_cons]
    rcases List.mem_cons.mp h with rfl | h'
    · exact Nat.le_max_left _ _
    · exact Nat.le_trans (ih h') (Nat.le_max_right _ _)

variable {r r' : Registry} {N : CStr → Prop}

theorem freshAddr_notMem_handlers (r : Registry) :
    r.freshAddr ∉ r.handlers.map LogHandler.addr := by
  intro h
  have := le_maxAddr (List.mem_append_left (r.loggers.map Logger.addr) h)
  unfold Registry.freshAddr at this
  omega

theorem freshAddr_notMem_loggers (r : Registry) : r.freshAddr ∉ r.loggers.map Logger.addr := by
  intro h
  have := le_maxAddr (List.mem_append_right (r.handlers.map LogHandler.addr) h)
  unfold Registry.freshAddr at this
  omega

theorem nodup_snoc {α : Type} {l : List α} {a : α} (h : l.Nodup) (ha : a ∉ l) :
    (l ++ [a]).Nodup := by
  rw [List.nodup_append]
  refine ⟨h, List.nodup_singleton a, ?_⟩
  rintro b hb c hc rfl
  exact ha (List.mem_singleton.mp hc ▸ hb)

/-- 番地の不変量。初期化されていない registry は開始時の状態である。 -/
structure AddrInv (r : Registry) : Prop where
  loggerAddrs : (r.loggers.map Logger.addr).Nodup
  handlerAddrs : (r.handlers.map LogHandler.addr).Nodup
  handlersReady : ∀ h ∈ r.handlers, h.initialized = true
  uninit : r.initialized = false → r = Registry.initial
  config : r.initialized = true → ∃ c, r.config = some c

theorem addrInv_initial : AddrInv Registry.initial where
  loggerAddrs := List.nodup_nil
  handlerAddrs := List.nodup_nil
  handlersReady := by simp [Registry.initial]
  uninit _ := rfl
  config h := by simp [Registry.initial] at h

/-- 設定が NULL でないのは、初期化されているときだけである。 -/
theorem AddrInv.initialized_of_config (h : AddrInv r) {c : Config} (hc : r.config = some c) :
    r.initialized = true := by
  by_contra hi
  rw [h.uninit (by simpa using hi)] at hc
  simp [Registry.initial] at hc

theorem AddrInv.initialized_of_logger (h : AddrInv r) {l : Logger} (hm : l ∈ r.loggers) :
    r.initialized = true := by
  by_contra hi
  rw [h.uninit (by simpa using hi)] at hm
  simp [Registry.initial] at hm

theorem AddrInv.logger?_of_mem (h : AddrInv r) {l : Logger} (hm : l ∈ r.loggers) :
    r.logger? l.addr = some l :=
  find?_key h.loggerAddrs hm

theorem AddrInv.handler?_of_mem (h : AddrInv r) {hd : LogHandler} (hm : hd ∈ r.handlers) :
    r.handler? hd.addr = some hd :=
  find?_key h.handlerAddrs hm

/-- 番地・初期化の旗・参照の個数のほかだけを変える書き換えは、番地の不変量を保つ。 -/
theorem AddrInv.setHandler (h : AddrInv r) {a : Nat} {f : LogHandler → LogHandler}
    (haddr : ∀ x, (f x).addr = x.addr) (hinit : ∀ x, (f x).initialized = x.initialized) :
    AddrInv (r.setHandler a f) where
  loggerAddrs := h.loggerAddrs
  handlerAddrs := by
    show ((modify LogHandler.addr a f r.handlers).map LogHandler.addr).Nodup
    rw [map_modify haddr]
    exact h.handlerAddrs
  handlersReady x hx := by
    rcases mem_modify.mp hx with ⟨y, hy, -, rfl⟩ | ⟨hx', -⟩
    · rw [hinit]
      exact h.handlersReady y hy
    · exact h.handlersReady x hx'
  uninit hi := by
    have hr := h.uninit hi
    rw [hr]
    rfl
  config := h.config

theorem AddrInv.setLogger (h : AddrInv r) {a : Nat} {f : Logger → Logger}
    (haddr : ∀ x, (f x).addr = x.addr) : AddrInv (r.setLogger a f) where
  loggerAddrs := by
    show ((modify Logger.addr a f r.loggers).map Logger.addr).Nodup
    rw [map_modify haddr]
    exact h.loggerAddrs
  handlerAddrs := h.handlerAddrs
  handlersReady := h.handlersReady
  uninit hi := by
    have hr := h.uninit hi
    rw [hr]
    rfl
  config := h.config

theorem addrInv_edit (h : AddrInv r) (he : Edit N r r') : AddrInv r' := by
  cases he with
  | start =>
    exact ⟨List.nodup_nil, List.nodup_nil, by simp, by simp, fun _ => ⟨_, rfl⟩⟩
  | setConfig hc =>
    refine ⟨h.loggerAddrs, h.handlerAddrs, h.handlersReady, ?_, fun _ => ⟨_, rfl⟩⟩
    intro hi
    have := h.initialized_of_config hc
    simp_all
  | addLogger hN hs hc hi =>
    refine ⟨?_, h.handlerAddrs, h.handlersReady, fun hf => ?_, h.config⟩
    · show ((r.loggers ++ [_]).map Logger.addr).Nodup
      rw [List.map_append]
      exact nodup_snoc h.loggerAddrs (freshAddr_notMem_loggers r)
    · simp_all
  | addHandler hN hs hc hcfg =>
    have hi := h.initialized_of_config hcfg
    refine ⟨h.loggerAddrs, ?_, ?_, fun hf => ?_, h.config⟩
    · show ((r.handlers ++ [_]).map LogHandler.addr).Nodup
      rw [List.map_append]
      exact nodup_snoc h.handlerAddrs (freshAddr_notMem_handlers r)
    · intro x hx
      rcases List.mem_append.mp hx with hx' | hx'
      · exact h.handlersReady x hx'
      · rw [List.mem_singleton.mp hx']
    · simp_all
  | setLevel => exact h.setLogger fun _ => rfl
  | setHandler hf => exact h.setHandler hf.addr hf.initialized
  | attach | detach =>
    refine AddrInv.setHandler (AddrInv.setLogger h ?_) ?_ ?_ <;> exact fun _ => rfl

theorem addrInv_drop (h : AddrInv r) (hd : Drop r r') : AddrInv r' := by
  cases hd with
  | @logger a =>
    refine ⟨h.loggerAddrs.sublist (List.filter_sublist.map _), h.handlerAddrs, h.handlersReady,
      fun hi => ?_, h.config⟩
    rw [h.uninit hi]
    rfl
  | @handler a =>
    refine ⟨h.loggerAddrs, h.handlerAddrs.sublist (List.filter_sublist.map _),
      fun x hx => h.handlersReady x (List.mem_filter.mp hx).1, fun hi => ?_, h.config⟩
    rw [h.uninit hi]
    rfl

/-! ## level -/

/-- どの level も TRACE から OFF の間にある。 -/
structure LevelInv (r : Registry) : Prop where
  loggers : ∀ l ∈ r.loggers, ValidLogLevel l.logLevel
  handlers : ∀ h ∈ r.handlers, ValidLogLevel h.logLevel

theorem levelInv_initial : LevelInv Registry.initial := by
  constructor <;> simp [Registry.initial]

theorem LevelInv.setHandler (h : LevelInv r) {a : Nat} {f : LogHandler → LogHandler}
    (hf : ∀ x, ValidLogLevel x.logLevel → ValidLogLevel (f x).logLevel) :
    LevelInv (r.setHandler a f) := by
  refine ⟨h.loggers, ?_⟩
  intro x hx
  rcases mem_modify.mp hx with ⟨y, hy, -, rfl⟩ | ⟨hx', -⟩
  · exact hf y (h.handlers y hy)
  · exact h.handlers x hx'

theorem LevelInv.setLogger (h : LevelInv r) {a : Nat} {f : Logger → Logger}
    (hf : ∀ x, ValidLogLevel x.logLevel → ValidLogLevel (f x).logLevel) :
    LevelInv (r.setLogger a f) := by
  refine ⟨?_, h.handlers⟩
  intro x hx
  rcases mem_modify.mp hx with ⟨y, hy, -, rfl⟩ | ⟨hx', -⟩
  · exact hf y (h.loggers y hy)
  · exact h.loggers x hx'

theorem levelInv_edit (h : LevelInv r) (he : Edit N r r') : LevelInv r' := by
  cases he with
  | start => constructor <;> simp
  | setConfig => exact ⟨h.loggers, h.handlers⟩
  | addLogger =>
    refine ⟨?_, h.handlers⟩
    intro x hx
    rcases List.mem_append.mp hx with hx' | hx'
    · exact h.loggers x hx'
    · rw [List.mem_singleton.mp hx']
      exact (by decide : ValidLogLevel logLevelInfo)
  | addHandler =>
    refine ⟨h.loggers, ?_⟩
    intro x hx
    rcases List.mem_append.mp hx with hx' | hx'
    · exact h.handlers x hx'
    · rw [List.mem_singleton.mp hx']
      exact (by decide : ValidLogLevel logLevelTrace)
  | setLevel hv => exact h.setLogger fun _ _ => hv
  | setHandler hf => exact h.setHandler hf.level
  | attach | detach =>
    refine LevelInv.setHandler (LevelInv.setLogger h ?_) ?_ <;> exact fun _ hv => hv

theorem levelInv_drop (h : LevelInv r) (hd : Drop r r') : LevelInv r' := by
  cases hd with
  | logger => exact ⟨fun x hx => h.loggers x (List.mem_filter.mp hx).1, h.handlers⟩
  | handler => exact ⟨h.loggers, fun x hx => h.handlers x (List.mem_filter.mp hx).1⟩

/-! ## 名前 -/

/-- 長さと終端の NUL が `int` に収まる名前。 -/
def ShortName (name : CStr) : Prop := name.length + 1 < 2 ^ 31

instance (name : CStr) : Decidable (ShortName name) := inferInstanceAs (Decidable (_ < _))

theorem shortName_of_lt {name : CStr} (h : name.length < 64) : ShortName name := by
  unfold ShortName
  omega

/-- 短い名前はそのまま複写される。 -/
theorem copyName_of_short {name : CStr} (h : ShortName name) : copyName name = some name := by
  unfold ShortName at h
  have hmod : name.length % 2 ^ 32 = name.length := Nat.mod_eq_of_lt (by omega)
  unfold copyName
  simp only [hmod]
  rw [if_pos h, CStr.take_of_length_le (Nat.le_refl _)]

/-- 名前は重複しない。 -/
structure NameInv (r : Registry) : Prop where
  loggers : (r.loggers.map Logger.name).Nodup
  handlers : (r.handlers.map LogHandler.name).Nodup

theorem nameInv_initial : NameInv Registry.initial := ⟨List.nodup_nil, List.nodup_nil⟩

theorem NameInv.setHandler (h : NameInv r) {a : Nat} {f : LogHandler → LogHandler}
    (hf : ∀ x, (f x).name = x.name) : NameInv (r.setHandler a f) := by
  refine ⟨h.loggers, ?_⟩
  show ((modify LogHandler.addr a f r.handlers).map LogHandler.name).Nodup
  rw [map_modify hf]
  exact h.handlers

theorem NameInv.setLogger (h : NameInv r) {a : Nat} {f : Logger → Logger}
    (hf : ∀ x, (f x).name = x.name) : NameInv (r.setLogger a f) := by
  refine ⟨?_, h.handlers⟩
  show ((modify Logger.addr a f r.loggers).map Logger.name).Nodup
  rw [map_modify hf]
  exact h.loggers

theorem notMem_loggers_of_search {name : CStr} (h : lmkSearchLoggerByName r name = none) :
    name ∉ r.loggers.map Logger.name := by
  intro hm
  obtain ⟨l, hl, rfl⟩ := List.mem_map.mp hm
  have := List.find?_eq_none.mp h l hl
  simp at this

theorem notMem_handlers_of_search {name : CStr} (h : lmkSearchLogHandlerByName r name = none) :
    name ∉ r.handlers.map LogHandler.name := by
  intro hm
  obtain ⟨x, hx, rfl⟩ := List.mem_map.mp hm
  have := List.find?_eq_none.mp h x hx
  simp at this

theorem nameInv_edit (h : NameInv r) (he : Edit ShortName r r') : NameInv r' := by
  cases he with
  | start => exact ⟨List.nodup_nil, List.nodup_nil⟩
  | setConfig => exact ⟨h.loggers, h.handlers⟩
  | addLogger hN hs hc =>
    obtain rfl := Option.some.inj ((copyName_of_short hN).symm.trans hc)
    refine ⟨?_, h.handlers⟩
    show ((r.loggers ++ [_]).map Logger.name).Nodup
    rw [List.map_append]
    exact nodup_snoc h.loggers (notMem_loggers_of_search hs)
  | addHandler hN hs hc =>
    obtain rfl := Option.some.inj ((copyName_of_short hN).symm.trans hc)
    refine ⟨h.loggers, ?_⟩
    show ((r.handlers ++ [_]).map LogHandler.name).Nodup
    rw [List.map_append]
    exact nodup_snoc h.handlers (notMem_handlers_of_search hs)
  | setLevel => exact h.setLogger fun _ => rfl
  | setHandler hf => exact h.setHandler hf.name
  | attach | detach =>
    refine NameInv.setHandler (NameInv.setLogger h ?_) ?_ <;> exact fun _ => rfl

theorem nameInv_drop (h : NameInv r) (hd : Drop r r') : NameInv r' := by
  cases hd with
  | logger => exact ⟨h.loggers.sublist (List.filter_sublist.map _), h.handlers⟩
  | handler => exact ⟨h.loggers, h.handlers.sublist (List.filter_sublist.map _)⟩

/-! ## 参照 -/

/-- 番地 `a` の handler を参照している logger の個数。 -/
def Registry.refCount (r : Registry) (a : Nat) : Nat :=
  r.loggers.countP fun l => a ∈ l.handlerRefList

/-- 参照の不変量。 -/
structure RefInv (r : Registry) : Prop where
  nodup : ∀ l ∈ r.loggers, l.handlerRefList.Nodup
  live : ∀ l ∈ r.loggers, ∀ a ∈ l.handlerRefList, a ∈ r.handlers.map LogHandler.addr
  counts : ∀ h ∈ r.handlers, h.nrLoggerRef = r.refCount h.addr % 2 ^ 32

theorem refInv_initial : RefInv Registry.initial := by
  constructor <;> simp [Registry.initial]

theorem RefInv.refCount_fresh (h : RefInv r) : r.refCount r.freshAddr = 0 := by
  unfold Registry.refCount
  rw [List.countP_eq_zero]
  intro l hl hm
  exact freshAddr_notMem_handlers r (h.live l hl _ (by simpa using hm))

theorem refCount_setLogger_same {a x : Nat} {f : Logger → Logger}
    (hf : ∀ l, x ∈ (f l).handlerRefList ↔ x ∈ l.handlerRefList) :
    (r.setLogger a f).refCount x = r.refCount x :=
  countP_modify_same fun l _ => by simp [hf]

/-- 参照の個数のほかだけを変える書き換え。 -/
theorem RefInv.setHandler (h : RefInv r) {a : Nat} {f : LogHandler → LogHandler}
    (hf : KeepsHandler f) : RefInv (r.setHandler a f) where
  nodup := h.nodup
  live l hl b hb := by
    show b ∈ (modify LogHandler.addr a f r.handlers).map LogHandler.addr
    rw [map_modify hf.addr]
    exact h.live l hl b hb
  counts x hx := by
    rcases mem_modify.mp hx with ⟨y, hy, -, rfl⟩ | ⟨hx', -⟩
    · rw [hf.nrLoggerRef, hf.addr]
      exact h.counts y hy
    · exact h.counts x hx'

theorem RefInv.attach (ha : AddrInv r) (h : RefInv r) {lg : Logger} {hd : LogHandler}
    (hl : lg ∈ r.loggers) (hh : hd ∈ r.handlers) (hn : hd.addr ∉ lg.handlerRefList) :
    RefInv ((r.setLogger lg.addr (.addRef hd.addr)).setHandler hd.addr .addRef) where
  nodup l hm := by
    rcases mem_modify.mp hm with ⟨l', hl', hk, rfl⟩ | ⟨hm', -⟩
    · obtain rfl := eq_of_key_eq ha.loggerAddrs hl' hl hk
      exact nodup_snoc (h.nodup l' hl') hn
    · exact h.nodup l hm'
  live l hm b hb := by
    show b ∈ (modify LogHandler.addr hd.addr .addRef r.handlers).map LogHandler.addr
    rw [map_modify (f := LogHandler.addRef) fun _ => rfl]
    rcases mem_modify.mp hm with ⟨l', hl', -, rfl⟩ | ⟨hm', -⟩
    · rcases List.mem_append.mp hb with hb' | hb'
      · exact h.live l' hl' b hb'
      · rw [List.mem_singleton.mp hb']
        exact List.mem_map_of_mem hh
    · exact h.live l hm' b hb
  counts x hx := by
    have hcount : (r.setLogger lg.addr (.addRef hd.addr)).refCount hd.addr
        = r.refCount hd.addr + 1 :=
      countP_modify_add ha.loggerAddrs hl (by simpa using hn) (by simp [Logger.addRef])
    -- 付けた handler の counter と参照の個数は一つずつ増え、ほかの handler ではどちらも動かない
    rcases mem_modify.mp hx with ⟨y, hy, hk, rfl⟩ | ⟨hx', hk⟩
    · obtain rfl := eq_of_key_eq ha.handlerAddrs hy hh hk
      show (y.nrLoggerRef + 1) % 2 ^ 32
        = (r.setLogger lg.addr (.addRef y.addr)).refCount y.addr % 2 ^ 32
      rw [h.counts y hy, hcount]
      omega
    · refine (h.counts x hx').trans (congrArg (· % 2 ^ 32) ?_)
      exact (refCount_setLogger_same (f := .addRef hd.addr) fun l => by
        simp [Logger.addRef, hk]).symm

theorem RefInv.detach (ha : AddrInv r) (h : RefInv r) {lg : Logger} {hd : LogHandler}
    (hl : lg ∈ r.loggers) (hh : hd ∈ r.handlers) (hm : hd.addr ∈ lg.handlerRefList) :
    RefInv ((r.setLogger lg.addr (.dropRef hd.addr)).setHandler hd.addr .dropRef) where
  nodup l hm' := by
    rcases mem_modify.mp hm' with ⟨l', hl', -, rfl⟩ | ⟨hm', -⟩
    · exact (h.nodup l' hl').erase _
    · exact h.nodup l hm'
  live l hm' b hb := by
    show b ∈ (modify LogHandler.addr hd.addr .dropRef r.handlers).map LogHandler.addr
    rw [map_modify (f := LogHandler.dropRef) fun _ => rfl]
    rcases mem_modify.mp hm' with ⟨l', hl', -, rfl⟩ | ⟨hm', -⟩
    · exact h.live l' hl' b (List.mem_of_mem_erase hb)
    · exact h.live l hm' b hb
  counts x hx := by
    have hcount : (r.setLogger lg.addr (.dropRef hd.addr)).refCount hd.addr + 1
        = r.refCount hd.addr :=
      countP_modify_sub ha.loggerAddrs hl (by simpa using hm)
        (decide_eq_false (h.nodup lg hl).not_mem_erase)
    rcases mem_modify.mp hx with ⟨y, hy, hk, rfl⟩ | ⟨hx', hk⟩
    · obtain rfl := eq_of_key_eq ha.handlerAddrs hy hh hk
      -- 桁あふれしていた counter は 0 から `2 ^ 32 - 1` に戻り、剰余としては合ったままである
      show (if y.nrLoggerRef = 0 then 2 ^ 32 - 1 else y.nrLoggerRef - 1)
        = (r.setLogger lg.addr (.dropRef y.addr)).refCount y.addr % 2 ^ 32
      rw [h.counts y hy, ← hcount]
      split <;> omega
    · refine (h.counts x hx').trans (congrArg (· % 2 ^ 32) ?_)
      exact (refCount_setLogger_same (f := .dropRef hd.addr) fun l =>
        List.mem_erase_of_ne hk).symm

theorem refInv_edit (ha : AddrInv r) (h : RefInv r) (he : Edit N r r') : RefInv r' := by
  cases he with
  | start => constructor <;> simp
  | setConfig => exact ⟨h.nodup, h.live, h.counts⟩
  | addLogger =>
    refine ⟨fun l hl => ?_, fun l hl b hb => ?_, fun x hx => ?_⟩
    · rcases List.mem_append.mp hl with hl' | hl'
      · exact h.nodup l hl'
      · rw [List.mem_singleton.mp hl']
        exact List.nodup_nil
    · rcases List.mem_append.mp hl with hl' | hl'
      · exact h.live l hl' b hb
      · rw [List.mem_singleton.mp hl'] at hb
        simp at hb
    · refine (h.counts x hx).trans ?_
      simp [Registry.refCount]
  | addHandler =>
    refine ⟨h.nodup, fun l hl b hb => ?_, fun x hx => ?_⟩
    · show b ∈ (r.handlers ++ [_]).map LogHandler.addr
      rw [List.map_append]
      exact List.mem_append_left _ (h.live l hl b hb)
    · rcases List.mem_append.mp hx with hx' | hx'
      · exact h.counts x hx'
      · rw [List.mem_singleton.mp hx']
        show 0 = r.refCount r.freshAddr % 2 ^ 32
        rw [h.refCount_fresh, Nat.zero_mod]
  | setLevel =>
    refine ⟨fun l hl => ?_, fun l hl b hb => ?_, fun x hx => ?_⟩
    · rcases mem_modify.mp hl with ⟨l', hl', -, rfl⟩ | ⟨hl', -⟩
      · exact h.nodup l' hl'
      · exact h.nodup l hl'
    · rcases mem_modify.mp hl with ⟨l', hl', -, rfl⟩ | ⟨hl', -⟩
      · exact h.live l' hl' b hb
      · exact h.live l hl' b hb
    · refine (h.counts x hx).trans (congrArg (· % 2 ^ 32) ?_)
      exact (refCount_setLogger_same (f := .setLevel _) fun _ => Iff.rfl).symm
  | setHandler hf => exact h.setHandler hf
  | attach hl hh hn => exact RefInv.attach ha h hl hh hn
  | detach hl hh hm => exact RefInv.detach ha h hl hh hm

end Logmoko
