import Logmoko.Ring.Wrap

/-!
# 出し入れの繰り返し

一つの producer が record を入れ、consumer がそれを取り出す。これを `n` 回繰り返すと、
`w` bit の語の上で cursor は `n % 2 ^ w` になり、空の ring に戻る（`Lapped`）。
その間、他の producer はどこで止まっていてもよく、その位置は変わらない（`Lapped.laps`）。

止まっている producer の持つ `pos` は、この間にいくらでも古くなる。cursor が一周すれば
`pos` は再び `head` と等しくなり、半周すれば差の符号が反転する。
-/

namespace Logmoko

open Transition

variable {ι : Type} {w k n : Nat} {s t : RingState ι} {p : ι}

/-- `n` 回の出し入れを終えた、空の ring。窓の中の slot はどれも次の周回を待っている。 -/
structure Lapped (w k n : Nat) (s : RingState ι) : Prop where
  size : s.mem.ring.size = 2 ^ k
  head : s.mem.ring.head = n % 2 ^ w
  tail : s.mem.ring.tail = n % 2 ^ w
  sequence : ∀ q, n ≤ q → q < n + 2 ^ k → (s.mem.ring.slots (q % 2 ^ k)).sequence = q % 2 ^ w
  consumer : s.consumer = .idle
  released : s.mem.hist.claims.length = s.mem.hist.consumed.length

/-- producer `p` が一つの record を入れ、consumer がそれを取り出す。 -/
def lap (p : ι) (b : UInt8) : List (RingAction ι) :=
  callAndRun p b 11 ++ [.peek, .process, .release, .advance]

theorem lapped_initial (hk : k ≤ w) : Lapped w k 0 (ringInitial ι k) where
  size := lmkRingInit_mask
  head := (Nat.zero_mod _).symm
  tail := (Nat.zero_mod _).symm
  sequence q _ hq := by
    have hle : 2 ^ k ≤ 2 ^ w := Nat.pow_le_pow_right Nat.two_pos hk
    have hq' : q < 2 ^ k := by omega
    simp [ringInitial, lmkRingInit, Nat.mod_eq_of_lt hq', hq',
      Nat.mod_eq_of_lt (Nat.lt_of_lt_of_le hq' hle)]
  consumer := rfl
  released := rfl

/-- producer の位置だけの違いは、出し入れを終えたことを変えない。 -/
theorem Lapped.of_mem (h : Lapped w k n s) (hring : t.mem.ring = s.mem.ring)
    (hclaims : t.mem.hist.claims = s.mem.hist.claims)
    (hconsumed : t.mem.hist.consumed = s.mem.hist.consumed) (hc : t.consumer = s.consumer) :
    Lapped w k n t where
  size := by rw [hring]; exact h.size
  head := by rw [hring]; exact h.head
  tail := by rw [hring]; exact h.tail
  sequence := by rw [hring]; exact h.sequence
  consumer := hc.trans h.consumer
  released := by rw [hclaims, hconsumed]; exact h.released

theorem Lapped.index (h : Lapped w k n s) (hk : k ≤ w) (q : Nat) :
    s.mem.ring.index (q % 2 ^ w) = q % 2 ^ k := by
  have hmask : s.mem.ring.mask = 2 ^ k - 1 := by
    have := h.size
    unfold Ring.size at this
    omega
  unfold Ring.index
  rw [hmask, Nat.and_two_pow_sub_one_eq_mod]
  exact Nat.mod_mod_of_dvd q (Nat.pow_dvd_pow 2 hk)

/-- `head` の slot は空いている。 -/
theorem Lapped.sequence_head (h : Lapped w k n s) (hk : k ≤ w) :
    (s.mem.ring.slotAt s.mem.ring.head).sequence = s.mem.ring.head := by
  have hpow := Nat.two_pow_pos k
  unfold Ring.slotAt
  rw [h.head, h.index hk, h.sequence n le_rfl (by omega)]

theorem diff_machine_self (w a : Nat) : (CursorArith.machine w).diff a a = 0 := by
  show ((a : Int) - a).bmod _ = 0
  rw [Int.sub_self, Int.zero_bmod]

variable [DecidableEq ι]

/-- 一回の出し入れは、ring を一つ先の空の ring にする。 -/
theorem Lapped.lap (h : Lapped w k n s) (hk : k ≤ w) (hp : s.producers p = .idle) (b : UInt8) :
    ∃ t, run (ringStep (.machine w)) s (lap p b) = some t ∧ Lapped w k (n + 1) t ∧
      t.producers = s.producers := by
  obtain ⟨⟨⟨slots, head, tail, mask⟩, hist⟩, producers, consumer⟩ := s
  have hidx : n % 2 ^ w &&& mask = n % 2 ^ k := h.index hk n
  obtain ⟨hsize, hhead, htail, hseq, hcons, hlen⟩ := h
  dsimp only at *
  subst hhead htail hcons
  have hpow := Nat.two_pow_pos k
  have hpos := hseq n le_rfl (by omega)
  have hsize' : mask + 1 = 2 ^ k := hsize
  have hwrap : (CursorArith.machine w).wrap (n % 2 ^ w + 1) = (n + 1) % 2 ^ w := wrap_succ_mod w n
  have hlap : (CursorArith.machine w).wrap (n % 2 ^ w + mask + 1) = (n + 2 ^ k) % 2 ^ w := by
    rw [Nat.add_assoc, hsize']
    exact Nat.mod_add_mod n (2 ^ w) (2 ^ k)
  -- 十五の step を順に実行する
  simp [Logmoko.lap, callAndRun, List.replicate, run, ringStep, hp, enqueueStep, Ring.slotAt,
    Ring.index, hidx, hpos, diff_machine_self, Ring.setReq, Ring.setSequence, WriteStage.next,
    WriteStage.write, EnqueueCall.copyLen, sampleRecord, logMsgMaxSize, lmkRingPeekSlot,
    consumeStore, consumeTail, History.openCall, History.closeCall, History.consume, hwrap, hlap]
  refine ⟨hsize, rfl, rfl, ?_, rfl, by simp [hlen]⟩
  intro q hq hqk
  show (Function.update slots (n % 2 ^ k) _ (q % 2 ^ k)).sequence = q % 2 ^ w
  by_cases hlast : q = n + 2 ^ k
  · subst hlast
    rw [Nat.add_mod_right, Function.update_self]
  · have hne : q % 2 ^ k ≠ n % 2 ^ k := by
      intro heq
      have hdvd : 2 ^ k ∣ q - n := (Nat.modEq_iff_dvd' (by omega)).mp heq.symm
      have := Nat.eq_zero_of_dvd_of_lt hdvd (by omega)
      omega
    rw [Function.update_of_ne hne]
    exact hseq q (by omega) (by omega)

/-- 出し入れを `m` 回繰り返しても、他の producer の位置は変わらない。 -/
theorem Lapped.laps (h : Lapped w k n s) (hk : k ≤ w) (hp : s.producers p = .idle) (b : UInt8)
    (m : Nat) :
    ∃ t, run (ringStep (.machine w)) s (List.replicate m (Logmoko.lap p b)).flatten = some t ∧
      Lapped w k (n + m) t ∧ t.producers = s.producers := by
  induction m generalizing n s with
  | zero => exact ⟨s, rfl, h, rfl⟩
  | succ m ih =>
    obtain ⟨u, hu, hlapped, hprod⟩ := h.lap hk hp b
    obtain ⟨t, ht, hlast, hprod'⟩ := ih hlapped (by rw [hprod]; exact hp)
    refine ⟨t, ?_, ?_, hprod'.trans hprod⟩
    · rw [List.replicate_succ, List.flatten_cons]
      exact run_append_eq_some.mpr ⟨u, hu, ht⟩
    · rw [← Nat.add_assoc, Nat.add_right_comm]
      exact hlast

/-- 呼び出しを始めて、位置 `pc` まで進んだ状態。 -/
def RingState.begin (s : RingState ι) (p : ι) (c : EnqueueCall) (pc : EnqueuePc) : RingState ι :=
  { s with
    mem := { s.mem with hist := s.mem.hist.openCall }
    producers := Function.update s.producers p (.inCall c pc) }

theorem Lapped.begin (h : Lapped w k n s) (p : ι) (c : EnqueueCall) (pc : EnqueuePc) :
    Lapped w k n (s.begin p c pc) := h.of_mem rfl rfl rfl rfl

/-- producer `p` は呼び出しを始めて、今の `head` を読む。 -/
theorem Lapped.read (h : Lapped w k n s) (hp : s.producers p = .idle) (b : UInt8) :
    run (ringStep (.machine w)) s (callAndRun p b 1) = some
      (s.begin p ⟨s.mem.hist.nextCall, sampleRecord 2 b, .empty⟩ (.loadSeq (n % 2 ^ w))) := by
  simp [callAndRun, run, ringStep, hp, enqueueStep, h.head, RingState.begin]

/-- `head` の slot は空いているので、CAS の手前に着く。 -/
theorem Lapped.ready (h : Lapped w k n s) (hk : k ≤ w) (hp : s.producers p = .idle) (b : UInt8) :
    run (ringStep (.machine w)) s (callAndRun p b 2) = some
      (s.begin p ⟨s.mem.hist.nextCall, sampleRecord 2 b, .empty⟩ (.cas (n % 2 ^ w))) := by
  have hseq := h.sequence_head hk
  rw [h.head] at hseq
  simp [callAndRun, List.replicate, run, ringStep, hp, enqueueStep, diff_machine_self, h.head,
    hseq, RingState.begin]

/-- 空いている `head` の位置を取り、書き始める。 -/
theorem run_claim {A : CursorArith} (hA : ∀ a, A.diff a a = 0) (hp : s.producers p = .idle)
    (hseq : (s.mem.ring.slotAt s.mem.ring.head).sequence = s.mem.ring.head) (b : UInt8) :
    ∃ t c, run (ringStep A) s (callAndRun p b 3) = some t ∧
      t.mem.ring = { s.mem.ring with head := A.wrap (s.mem.ring.head + 1) } ∧
      t.producers =
        Function.update s.producers p (.inCall c (.writing s.mem.ring.head .level)) := by
  simp [callAndRun, List.replicate, run, ringStep, hp, enqueueStep, hA, hseq]
  exact ⟨_, rfl⟩

end Logmoko
