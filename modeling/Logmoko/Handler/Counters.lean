import Logmoko.Handler.Move
import Logmoko.Lib.Count
import Logmoko.Ring.Calls
import Mathlib.Order.Interval.Finset.Nat

/-!
# counter の保存則

`head`、`nr_log_calls`、`dropped`、手放した個数は、別々の thread が別々の step で進める。
差は、`log_impl` の途中にいる producer の個数でちょうど埋まる。

* `Claimed` — 位置を取ったが、まだ `nr_log_calls` に数えていない producer
* `Uncounted` — 呼ばれたが、まだ `nr_log_calls` にも `dropped` にも数えていない producer

誰も `log_impl` の中にいなければどちらも 0 個で、等式になる（`log_counters_conserved`）。
-/

namespace Logmoko

open Transition Counting

/-- 位置を取ったが、まだ `nr_log_calls` に数えていない。 -/
def LogImplPc.Claimed : LogImplPc → Prop
  | .enqueue _ pc => pc.claimed = true
  | .addLogCalls => True
  | _ => False

/-- 呼ばれたが、まだどちらの counter にも数えていない。 -/
def LogImplPc.Uncounted : LogImplPc → Prop
  | .loadRunning _ | .enqueue _ _ | .addDropped | .addLogCalls => True
  | _ => False

variable {ι : Type}

/-- counter の不変量。呼び出しの総数は、`destroy` が始まるまでの間だけ数えきれる。 -/
structure CounterInv (s : HandlerState ι) : Prop where
  claimed : ∃ n, CountIs LogImplPc.Claimed s.producers n ∧ s.mem.ring.head = s.nrLogCalls + n
  running : s.destroy = .notCalled → s.running = true
  called : s.destroy = .notCalled →
    ∃ n, CountIs LogImplPc.Uncounted s.producers n ∧ s.calls = s.nrLogCalls + s.dropped + n

theorem counterInv_initial (type : HandlerType) (name : CStr) (k : Nat) :
    CounterInv (handlerInitial ι type name k) where
  claimed := ⟨0, countIs_zero fun _ => id, rfl⟩
  running _ := rfl
  called _ := ⟨0, countIs_zero fun _ => id, rfl⟩

/-- enqueue の step が `head` を進めるのは、位置を取る step だけである。 -/
theorem EnqueueMove.head_claimed {m m' : Shared} {c : EnqueueCall} {b : Bool} {pc pc' : EnqueuePc}
    (h : EnqueueMove m c b pc m' pc') :
    m'.ring.head = m.ring.head ∧ pc'.claimed = pc.claimed ∨
      m'.ring.head = m.ring.head + 1 ∧ pc.claimed = false ∧ pc'.claimed = true := by
  cases h with
  | casOk => exact Or.inr ⟨rfl, rfl, rfl⟩
  | loadHead | seqReady | seqFull | seqAhead | casFail | write | publish =>
    exact Or.inl ⟨rfl, rfl⟩

variable [DecidableEq ι] {s s' : HandlerState ι} {a : HandlerAction ι}

/-- producer の step が `head` と counter を動かす量は、producer の位置の変化に見合う。 -/
theorem CounterInv.producer (h : CounterInv s) {p : ι} {b : Bool}
    (hs : HandlerMove s (.producer p b) s') : CounterInv s' := by
  obtain ⟨⟨n, hn, hhead⟩, hrun, hcalled⟩ := h
  cases hs with
  | enter hp =>
    refine ⟨⟨n, hn.stay (by rw [hp]; simp [LogImplPc.Claimed, EnqueuePc.claimed]), hhead⟩, hrun, ?_⟩
    intro hd
    obtain ⟨m, hm, hsum⟩ := hcalled hd
    exact ⟨m, hm.stay (by rw [hp]; exact Iff.rfl), hsum⟩
  | stopped hp hr =>
    refine ⟨⟨n, hn.stay (by rw [hp]; exact Iff.rfl), hhead⟩, hrun, ?_⟩
    -- 数えられずに返る呼び出しは、`destroy` が始まった後にしか無い
    intro hd
    have := hrun hd
    simp [hr] at this
  | enqueue hp he =>
    refine ⟨?_, hrun, fun hd => ?_⟩
    -- `head` が進むのは成功した CAS だけで、そのとき producer は claim 済みの側に移る
    · rcases (enqueueStep_move he).head_claimed with ⟨hh, hc⟩ | ⟨hh, hc, hc'⟩
      · refine ⟨n, hn.stay ?_, hh.trans hhead⟩
        rw [hp]
        simp [LogImplPc.Claimed, hc]
      · refine ⟨n + 1, hn.enter ?_ hc', ?_⟩
        · rw [hp]
          simp [LogImplPc.Claimed, hc]
        · show _ = s.nrLogCalls + (n + 1)
          rw [hh, hhead, Nat.add_assoc]
    · obtain ⟨m, hm, hsum⟩ := hcalled hd
      exact ⟨m, hm.stay (by rw [hp]; exact Iff.rfl), hsum⟩
  | @enqueueRet _ _ c ok hp =>
    refine ⟨⟨n, hn.stay ?_, hhead⟩, hrun, fun hd => ?_⟩
    · rw [hp]
      cases ok <;> simp [LogImplPc.Claimed, EnqueuePc.claimed]
    · obtain ⟨m, hm, hsum⟩ := hcalled hd
      refine ⟨m, hm.stay ?_, hsum⟩
      rw [hp]
      cases ok <;> exact Iff.rfl
  | addDropped hp =>
    refine ⟨⟨n, hn.stay (by rw [hp]; exact Iff.rfl), hhead⟩, hrun, ?_⟩
    intro hd
    obtain ⟨m, hm, hsum⟩ := hcalled hd
    obtain ⟨m', rfl, hm'⟩ := hm.leave (p := p) (x := .idle) (by rw [hp]; trivial) id
    refine ⟨m', hm', ?_⟩
    show s.calls = s.nrLogCalls + (s.dropped + 1) + m'
    omega
  | addLogCalls hp =>
    -- 二つの数え方の両方から、この producer が同時に抜ける
    obtain ⟨n', rfl, hn'⟩ := hn.leave (p := p) (x := .fence) (by rw [hp]; trivial) id
    refine ⟨⟨n', hn', ?_⟩, hrun, fun hd => ?_⟩
    · show s.mem.ring.head = s.nrLogCalls + 1 + n'
      omega
    · obtain ⟨m, hm, hsum⟩ := hcalled hd
      obtain ⟨m', rfl, hm'⟩ := hm.leave (p := p) (x := .fence) (by rw [hp]; trivial) id
      refine ⟨m', hm', ?_⟩
      show s.calls = s.nrLogCalls + 1 + s.dropped + m'
      omega
  | fence hp | loadSleeping hp | loadAwake hp | wakeLock hp | wakeSignal hp | wakeUnlock hp =>
    refine ⟨⟨n, hn.stay (by rw [hp]; exact Iff.rfl), hhead⟩, hrun, ?_⟩
    intro hd
    obtain ⟨m, hm, hsum⟩ := hcalled hd
    exact ⟨m, hm.stay (by rw [hp]; exact Iff.rfl), hsum⟩

/-- handler の一 step は counter の不変量を保つ。 -/
theorem counterInv_step (h : CounterInv s) (hs : handlerStep .unbounded s a = some s') :
    CounterInv s' := by
  cases a with
  | logImpl p record =>
    cases handlerStep_move hs with
    | logImpl hp =>
      obtain ⟨⟨n, hn, hhead⟩, hrun, hcalled⟩ := h
      refine ⟨⟨n, hn.stay (by rw [hp]; exact Iff.rfl), hhead⟩, hrun, ?_⟩
      intro hd
      obtain ⟨m, hm, hsum⟩ := hcalled hd
      refine ⟨m + 1, hm.enter (by rw [hp]; exact id) trivial, ?_⟩
      show s.calls + 1 = s.nrLogCalls + s.dropped + (m + 1)
      omega
  | producer p b => exact h.producer (handlerStep_move hs)
  | thread => cases handlerStep_move hs <;> exact ⟨h.claimed, h.running, h.called⟩
  | spuriousWakeup =>
    cases handlerStep_move hs
    exact ⟨h.claimed, h.running, h.called⟩
  | destroy => cases handlerStep_move hs <;> exact ⟨h.claimed, nofun, nofun⟩

variable {type : HandlerType} {name : CStr} {k : Nat}

theorem counterInv_reachable
    (h : Reachable (handlerStep .unbounded) (handlerInitial ι type name k) s) : CounterInv s :=
  h.invariant (fun _ _ _ => counterInv_step) (counterInv_initial type name k)

/-! ## ring に残っている record -/

/-- 添字 `i` の slot が record を持つ。`sequence` が、その slot に来る位置の次を指している。 -/
def Ring.Occupied (r : Ring) (i : Nat) : Prop := (r.slots i).sequence % r.size = (i + 1) % r.size

instance (r : Ring) (i : Nat) : Decidable (r.Occupied i) := inferInstanceAs (Decidable (_ = _))

/-- ring に残っている record の個数。 -/
def Ring.nrRecords (r : Ring) : Nat := ((Finset.range r.size).filter r.Occupied).card

theorem Ring.nrRecords_le (r : Ring) : r.nrRecords ≤ r.size := by
  unfold Ring.nrRecords
  calc ((Finset.range r.size).filter r.Occupied).card
      ≤ (Finset.range r.size).card := Finset.card_filter_le _ _
    _ = r.size := Finset.card_range _

section

omit [DecidableEq ι]

variable {s : RingState ι}

/-- 公開された位置の slot は record を持つ。 -/
theorem RingInv.occupied_of_published (h : RingInv s) {q : Nat} (hq : s.mem.Published q) :
    s.mem.ring.Occupied (s.mem.ring.index q) := by
  show (s.mem.ring.slotAt q).sequence % s.mem.ring.size = _
  rw [hq.1, h.powerOfTwo.index_eq, Nat.mod_add_mod]

/-- 空いている位置の slot は record を持たない。 -/
theorem RingInv.not_occupied_of_free (h : RingInv s) {q : Nat}
    (hq : (s.mem.ring.slotAt q).sequence = q) : ¬ s.mem.ring.Occupied (s.mem.ring.index q) := by
  have h2 := h.powerOfTwo.two_le
  have hlt : q % s.mem.ring.size < s.mem.ring.size := Nat.mod_lt _ (by omega)
  intro hocc
  have hmod : (s.mem.ring.slotAt q).sequence % s.mem.ring.size
      = (s.mem.ring.index q + 1) % s.mem.ring.size := hocc
  rw [hq, h.powerOfTwo.index_eq] at hmod
  by_cases hlast : q % s.mem.ring.size + 1 = s.mem.ring.size
  · rw [hlast, Nat.mod_self] at hmod
    omega
  · rw [Nat.mod_eq_of_lt (by omega : q % s.mem.ring.size + 1 < s.mem.ring.size)] at hmod
    omega

/-- 書き込み中の producer がいなければ、ring の record は claim されて手放されていない位置である。 -/
theorem RingInv.nrRecords_eq (h : RingInv s) (hw : ∀ p, (s.producers p).writes = none) :
    s.mem.ring.nrRecords = s.mem.ring.head - s.mem.released := by
  have hhl := h.head_le
  have hsize : 0 < s.mem.ring.size := by have := h.powerOfTwo.two_le; omega
  have hpub : ∀ q, s.mem.released ≤ q → q < s.mem.ring.head → s.mem.Published q := by
    intro q hq hlt
    rcases h.taken q hq hlt with ⟨p, hp⟩ | hp
    · simp [hw p] at hp
    · exact hp
  rw [← Nat.card_Ico]
  refine (Finset.card_nbij s.mem.ring.index ?_ ?_ ?_).symm
  · intro q hq
    obtain ⟨hq1, hq2⟩ := Finset.mem_Ico.mp hq
    refine Finset.mem_filter.mpr ⟨Finset.mem_range.mpr ?_, h.occupied_of_published (hpub q hq1 hq2)⟩
    rw [h.powerOfTwo.index_eq]
    exact Nat.mod_lt _ hsize
  · intro q hq q' hq' he
    obtain ⟨hq1, hq2⟩ := Finset.mem_Ico.mp hq
    obtain ⟨hq1', hq2'⟩ := Finset.mem_Ico.mp hq'
    exact h.powerOfTwo.index_inj ⟨hq1, by omega⟩ ⟨hq1', by omega⟩ he
  · intro i hi
    obtain ⟨hi1, hi2⟩ := Finset.mem_filter.mp hi
    have hidx : s.mem.ring.index i = i := by
      rw [h.powerOfTwo.index_eq, Nat.mod_eq_of_lt (Finset.mem_range.mp hi1)]
    -- slot `i` に来る窓の中の位置 `q` を取る。空いていれば record は無いはずである
    obtain ⟨q, hq1, hq2, hq⟩ := h.powerOfTwo.exists_window s.mem.released i
    rw [hidx] at hq
    have hlt : q < s.mem.ring.head := by
      by_contra hge
      rw [← hq] at hi2
      exact h.not_occupied_of_free (h.free q (by omega) hq2) hi2
    exact ⟨q, Finset.mem_coe.mpr (Finset.mem_Ico.mpr ⟨hq1, hlt⟩), hq⟩

end

/--
**counter は保存される。** `destroy` が始まる前の到達できる状態で、誰も `log_impl` の中にいなければ、

* `nr_log_calls` は claim された位置の個数 `head` に等しい
* `nr_log_calls + dropped` は `log_impl` が呼ばれた回数に等しい
* `nr_log_calls` から consumer が手放した個数を引くと、ring に残る record の個数になり、
  それは 0 以上 `ring_mask + 1` 以下である
-/
theorem log_counters_conserved (hk : 1 ≤ k)
    (h : Reachable (handlerStep .unbounded) (handlerInitial ι type name k) s)
    (hd : s.destroy = .notCalled) (hidle : ∀ p, s.producers p = .idle) :
    s.nrLogCalls = s.mem.ring.head ∧ s.mem.ring.head = s.mem.hist.claims.length ∧
    s.nrLogCalls + s.dropped = s.calls ∧
    (s.nrLogCalls : Int) - s.mem.hist.consumed.length = s.mem.ring.nrRecords ∧
    s.mem.ring.nrRecords ≤ s.mem.ring.mask + 1 := by
  have hinv := ringInv_handler hk h
  obtain ⟨⟨n, hn, hhead⟩, -, hcalled⟩ := counterInv_reachable h
  obtain ⟨m, hm, hsum⟩ := hcalled hd
  have hn0 : n = 0 := hn.eq_zero fun p => by rw [hidle p]; exact id
  have hm0 : m = 0 := hm.eq_zero fun p => by rw [hidle p]; exact id
  have hrec : s.mem.ring.nrRecords = s.mem.ring.head - s.mem.hist.consumed.length := by
    refine hinv.nrRecords_eq ?_
    intro p
    simp [HandlerState.toRing, hidle p, LogImplPc.toProducer, Producer.writes]
  have hle : s.mem.hist.consumed.length ≤ s.mem.ring.head := hinv.released_le
  refine ⟨by omega, hinv.head_eq, by omega, ?_, Ring.nrRecords_le _⟩
  rw [hrec]
  omega

/--
二つの producer が三回呼び、一回は満杯で落ちて、consumer が一つ手放した実行。
-/
def countedRun : List (HandlerAction (Fin 2)) :=
  .logImpl 0 (sampleRecord 2 65) :: List.replicate 15 (.producer 0 false) ++
    .logImpl 1 (sampleRecord 2 66) :: List.replicate 15 (.producer 1 false) ++
    .logImpl 0 (sampleRecord 2 67) :: List.replicate 5 (.producer 0 false) ++
    List.replicate 3 .thread

theorem log_counters_conserved_countedRun :
    ∃ s, run (handlerStep .unbounded) (handlerInitial (Fin 2) .console .empty 1) countedRun
        = some s ∧
      s.nrLogCalls = 2 ∧ s.dropped = 1 ∧ s.mem.hist.consumed.length = 1 ∧
      s.nrLogCalls + s.dropped = s.calls ∧
      (s.nrLogCalls : Int) - s.mem.hist.consumed.length = s.mem.ring.nrRecords := by
  have hpc : (run (handlerStep .unbounded) (handlerInitial (Fin 2) .console .empty 1)
      countedRun).map (fun s => (s.nrLogCalls, s.dropped, s.mem.hist.consumed.length, s.destroy,
        (s.producers 0).isIdle, (s.producers 1).isIdle))
        = some (2, 1, 1, .notCalled, true, true) := by decide +kernel
  obtain ⟨s, hs, hp⟩ := Option.map_eq_some_iff.mp hpc
  simp only [Prod.mk.injEq, LogImplPc.isIdle_iff] at hp
  obtain ⟨hcalls, hdropped, hcons, hd, h0, h1⟩ := hp
  have hidle : ∀ p, s.producers p = .idle := fun p => by
    match p with
    | 0 => exact h0
    | 1 => exact h1
  obtain ⟨-, -, hsum, hrec, -⟩ := log_counters_conserved (by decide) ⟨countedRun, hs⟩ hd hidle
  exact ⟨s, hs, hcalls, hdropped, hcons, hsum, hrec⟩

end Logmoko
