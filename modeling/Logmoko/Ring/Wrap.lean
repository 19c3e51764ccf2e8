import Logmoko.Ring.Preservation

/-!
# cursor の巻き戻り

cursor と `sequence` は増え続け、`w` bit の語はいつか巻き戻る。
桁あふれのない実行の状態を `2 ^ w` で割った余りに写すと（`RingState.wrap`）、
語の上の step と足並みがそろう。理由は二つである。

* ring の大きさは `2 ^ w` を割り切るので、余りを取っても slot の添字は変わらない
* slot の `sequence` は窓 `[R, R + size]` にあり、producer の持つ `pos` も窓から遠くないので、
  二つの差は符号つきの語に収まる（`diff_wrap`）

二つ目のために、`pos` を読んでから判定するまでに claim される位置の個数を限る（`FreshRead`）。
-/

namespace Logmoko

open Transition

variable {ι : Type} {s : RingState ι} {w : Nat}

/-! ## 語への射影 -/

/-- cursor と `sequence` を `w` bit の語にした ring。 -/
def Ring.wrap (w : Nat) (r : Ring) : Ring :=
  { slots := fun i => { r.slots i with sequence := (r.slots i).sequence % 2 ^ w }
    head := r.head % 2 ^ w
    tail := r.tail % 2 ^ w
    mask := r.mask }

/-- cursor を語にした実行位置。 -/
def EnqueuePc.wrap (w : Nat) : EnqueuePc → EnqueuePc
  | .loadHead => .loadHead
  | .loadSeq pos => .loadSeq (pos % 2 ^ w)
  | .cas pos => .cas (pos % 2 ^ w)
  | .writing pos stage => .writing (pos % 2 ^ w) stage
  | .ret ok => .ret ok

/-- cursor を語にした producer。 -/
def Producer.wrap (w : Nat) : Producer → Producer
  | .idle => .idle
  | .inCall c pc => .inCall c (pc.wrap w)

/-- cursor を語にした共有状態。履歴は変わらない。 -/
def Shared.wrap (w : Nat) (m : Shared) : Shared := { m with ring := m.ring.wrap w }

/-- cursor を語にした状態。 -/
def RingState.wrap (w : Nat) (s : RingState ι) : RingState ι :=
  { mem := s.mem.wrap w
    producers := fun p => (s.producers p).wrap w
    consumer := s.consumer }

/-- 語の上の呼び出しは、同じ呼び出しの、桁あふれのない位置の余りにいる。 -/
theorem inCall_of_wrap {p : ι} {c : EnqueueCall} {pc : EnqueuePc}
    (h : (s.wrap w).producers p = .inCall c pc) :
    ∃ pc', s.producers p = .inCall c pc' ∧ pc = pc'.wrap w := by
  have hwrap : (s.wrap w).producers p = (s.producers p).wrap w := rfl
  rw [hwrap] at h
  cases hx : s.producers p with
  | idle =>
    rw [hx] at h
    cases h
  | inCall c' pc' =>
    rw [hx] at h
    obtain ⟨rfl, rfl⟩ := Producer.inCall.inj h
    exact ⟨pc', rfl, rfl⟩

/-! ## 判定と、見る slot -/

/-- 判定の結果。 -/
inductive RingDecision where
  | claimable
  | full
  | reload
  | claim
  | lost
  | ready
  | notReady
deriving DecidableEq

/-- 一 step が見る slot の添字と、そこで下す判定。判定のない読み書きでは `none`。 -/
def ringDecisions (A : CursorArith) (s : RingState ι) :
    RingAction ι → List (Nat × Option RingDecision)
  | .producer p casFails =>
    match s.producers p with
    | .inCall _ (.loadSeq pos) =>
      let diff := A.diff (s.mem.ring.slotAt pos).sequence pos
      [(s.mem.ring.index pos,
        some (if diff = 0 then .claimable else if diff < 0 then .full else .reload))]
    | .inCall _ (.cas pos) =>
      [(s.mem.ring.index pos,
        some (if s.mem.ring.head = pos ∧ casFails = false then .claim else .lost))]
    | .inCall _ (.writing pos _) => [(s.mem.ring.index pos, none)]
    | _ => []
  | .peek =>
    [(s.mem.ring.index s.mem.ring.tail,
      some (if (lmkRingPeekSlot A s.mem.ring).isSome then .ready else .notReady))]
  | .process | .release => [(s.mem.ring.index s.mem.ring.tail, none)]
  | .call _ _ _ | .advance => []

/--
producer が `head` を読んで `pos` を得てから、それに基づく判定までに claim された位置は
`2 ^ (w - 1) - 2 ^ k` 個より少ない。
-/
def FreshRead (w k : Nat) (s : RingState ι) : RingAction ι → Prop
  | .producer p _ =>
    match s.producers p with
    | .inCall _ (.loadSeq pos) | .inCall _ (.cas pos) =>
      s.mem.ring.head - pos < 2 ^ (w - 1) - 2 ^ k
    | _ => True
  | _ => True

/-! ## 語の算術 -/

theorem wrap_succ_mod (w n : Nat) :
    (CursorArith.machine w).wrap (n % 2 ^ w + 1) = (n + 1) % 2 ^ w :=
  Nat.mod_add_mod n (2 ^ w) 1

/-- 差が符号つきの語に収まれば、余りを取ってから引いても同じである。 -/
theorem diff_wrap {a b : Nat} (hw : 1 ≤ w) (hlo : b ≤ a + 2 ^ (w - 1))
    (hhi : a < b + 2 ^ (w - 1)) :
    (CursorArith.machine w).diff (a % 2 ^ w) (b % 2 ^ w) = CursorArith.unbounded.diff a b := by
  have hpow : 2 ^ w = 2 * 2 ^ (w - 1) := by rw [← Nat.pow_add_one', Nat.sub_add_cancel hw]
  show (((a % 2 ^ w : Nat) : Int) - ((b % 2 ^ w : Nat) : Int)).bmod (2 ^ w) = (a : Int) - b
  rw [Int.natCast_emod, Int.natCast_emod, Int.emod_sub_bmod, Int.sub_emod_bmod, hpow]
  generalize 2 ^ (w - 1) = half at hlo hhi
  apply Int.bmod_eq_of_le
  · omega
  · omega

/-! ## slot への読み書き -/

section

variable {r : Ring} {k : Nat}

/-- 余りを取っても slot の添字は変わらない。 -/
theorem index_wrap (hr : r.PowerOfTwo) (hsize : r.size = 2 ^ k) (hk : k ≤ w) (pos : Nat) :
    (r.wrap w).index (pos % 2 ^ w) = r.index pos := by
  have hw : (r.wrap w).PowerOfTwo := hr
  rw [hw.index_eq, hr.index_eq]
  show pos % 2 ^ w % r.size = pos % r.size
  rw [hsize]
  exact Nat.mod_mod_of_dvd pos (Nat.pow_dvd_pow 2 hk)

theorem slotAt_wrap (hr : r.PowerOfTwo) (hsize : r.size = 2 ^ k) (hk : k ≤ w) (pos : Nat) :
    (r.wrap w).slotAt (pos % 2 ^ w) =
      { r.slotAt pos with sequence := (r.slotAt pos).sequence % 2 ^ w } := by
  show (r.wrap w).slots ((r.wrap w).index (pos % 2 ^ w)) = _
  rw [index_wrap hr hsize hk]
  rfl

/-- slot を書き換えてから語にしても、語にした slot を書き換えても同じである。 -/
theorem update_slots_wrap (r : Ring) (i : Nat) (slot : RingSlot) :
    { r.wrap w with
      slots := Function.update (r.wrap w).slots i
        { slot with sequence := slot.sequence % 2 ^ w } } =
      Ring.wrap w { r with slots := Function.update r.slots i slot } := by
  simp only [Ring.wrap, Ring.mk.injEq, and_true]
  funext j
  by_cases hj : j = i
  · subst hj
    simp only [Function.update_self]
  · simp only [Function.update_of_ne hj]

theorem setSequence_wrap (hr : r.PowerOfTwo) (hsize : r.size = 2 ^ k) (hk : k ≤ w)
    (pos v : Nat) :
    (r.wrap w).setSequence (pos % 2 ^ w) (v % 2 ^ w) = (r.setSequence pos v).wrap w := by
  unfold Ring.setSequence
  rw [index_wrap hr hsize hk, slotAt_wrap hr hsize hk]
  exact update_slots_wrap r _ { r.slotAt pos with sequence := v }

theorem setReq_wrap (hr : r.PowerOfTwo) (hsize : r.size = 2 ^ k) (hk : k ≤ w) (pos : Nat)
    (req : LogRequest) :
    (r.wrap w).setReq (pos % 2 ^ w) req = (r.setReq pos req).wrap w := by
  unfold Ring.setReq
  rw [index_wrap hr hsize hk, slotAt_wrap hr hsize hk]
  exact update_slots_wrap r _ { r.slotAt pos with req }

end

/-! ## 一 step の一致 -/

/-- slot の `sequence` は、窓の中の値か、窓のすぐ上の値である。 -/
theorem RingInv.sequence_window (h : RingInv s) (pos : Nat) :
    s.mem.released ≤ (s.mem.ring.slotAt pos).sequence ∧
      (s.mem.ring.slotAt pos).sequence ≤ s.mem.released + s.mem.ring.size := by
  obtain ⟨q, hq1, hq2, hi⟩ := h.powerOfTwo.exists_window s.mem.released pos
  have hslot : s.mem.ring.slotAt pos = s.mem.ring.slotAt q := by
    unfold Ring.slotAt
    rw [hi]
  have hle := h.le_sequence hq1 hq2
  rw [hslot]
  refine ⟨by omega, ?_⟩
  by_cases hh : q < s.mem.ring.head
  · rcases h.sequence_taken hq1 hh with he | he <;> omega
  · rw [h.free q (by omega) hq2]
    omega

section

variable {k : Nat}

/-- ring の大きさは、符号つきの語の半分の半分を超えない。 -/
theorem size_le_quarter (hkw : k + 2 ≤ w) : 2 ^ k + 2 ^ k ≤ 2 ^ (w - 1) := by
  rw [← Nat.two_mul, ← Nat.pow_add_one']
  exact Nat.pow_le_pow_right Nat.two_pos (by omega)

/-- 新しい `pos` についての差は、語の上でも同じである。 -/
theorem RingInv.diff_wrap (h : RingInv s) (hsize : s.mem.ring.size = 2 ^ k) (hkw : k + 2 ≤ w)
    {pos : Nat} (hpos : pos ≤ s.mem.ring.head)
    (hfresh : s.mem.ring.head - pos < 2 ^ (w - 1) - 2 ^ k) :
    (CursorArith.machine w).diff ((s.mem.ring.wrap w).slotAt (pos % 2 ^ w)).sequence
        (pos % 2 ^ w) =
      CursorArith.unbounded.diff (s.mem.ring.slotAt pos).sequence pos := by
  have hq := size_le_quarter hkw
  have hhead := h.head_le
  have hrel := h.released_le
  obtain ⟨hlo, hhi⟩ := h.sequence_window pos
  rw [slotAt_wrap h.powerOfTwo hsize (by omega)]
  exact Logmoko.diff_wrap (by omega) (by omega) (by omega)

/-- `head` が `pos` のままかどうかは、語の上でも同じである。 -/
theorem head_wrap_eq_iff (hw : 1 ≤ w) {head pos : Nat} (hpos : pos ≤ head)
    (hfresh : head - pos < 2 ^ (w - 1) - 2 ^ k) :
    head % 2 ^ w = pos % 2 ^ w ↔ head = pos := by
  have hpow : 2 ^ w = 2 * 2 ^ (w - 1) := by rw [← Nat.pow_add_one', Nat.sub_add_cancel hw]
  have hk := Nat.two_pow_pos k
  constructor
  · intro he
    have hdvd : 2 ^ w ∣ head - pos := (Nat.modEq_iff_dvd' hpos).mp he.symm
    have := Nat.eq_zero_of_dvd_of_lt hdvd (by omega)
    omega
  · rintro rfl
    rfl

/-- 覗き見の結果は、語の上でも同じである。 -/
theorem RingInv.peek_wrap (h : RingInv s) (hsize : s.mem.ring.size = 2 ^ k) (hkw : k + 2 ≤ w) :
    lmkRingPeekSlot (.machine w) (s.mem.ring.wrap w) = lmkRingPeekSlot .unbounded s.mem.ring := by
  have hq := size_le_quarter hkw
  have htail := h.tail_eq
  have hk := Nat.two_pow_pos k
  have hlag : s.consumer.lag ≤ 1 := by
    cases s.consumer with
    | released => exact Nat.le_refl 1
    | idle | peeked | processed _ => exact Nat.zero_le 1
  obtain ⟨hlo, hhi⟩ := h.sequence_window s.mem.ring.tail
  unfold lmkRingPeekSlot
  show (if (CursorArith.machine w).diff ((s.mem.ring.wrap w).slotAt
      (s.mem.ring.tail % 2 ^ w)).sequence
      ((CursorArith.machine w).wrap (s.mem.ring.tail % 2 ^ w + 1)) = 0
    then some ((s.mem.ring.wrap w).index (s.mem.ring.tail % 2 ^ w)) else none) = _
  rw [wrap_succ_mod, slotAt_wrap h.powerOfTwo hsize (by omega),
    Logmoko.diff_wrap (by omega) (by omega) (by omega),
    index_wrap h.powerOfTwo hsize (by omega)]
  rfl

/-- `lmk_ring_enqueue` の一 step は、語の上でも同じである。 -/
theorem RingInv.enqueueStep_wrap (h : RingInv s) (hsize : s.mem.ring.size = 2 ^ k)
    (hkw : k + 2 ≤ w) {c : EnqueueCall} {b : Bool} {pc : EnqueuePc} {p : ι}
    (hp : s.producers p = .inCall c pc) (hfresh : FreshRead w k s (.producer p b)) :
    enqueueStep (.machine w) c b (s.mem.wrap w) (pc.wrap w) =
      (enqueueStep .unbounded c b s.mem pc).map fun x => (x.1.wrap w, x.2.wrap w) := by
  have hok := h.producer p
  rw [hp] at hok
  simp only [FreshRead, hp] at hfresh
  cases pc with
  | loadHead => rfl
  | loadSeq pos =>
    have hd := h.diff_wrap hsize hkw hok hfresh
    simp only [enqueueStep, EnqueuePc.wrap, Shared.wrap, hd]
    split
    · rfl
    · split <;> rfl
  | cas pos =>
    have hhead := head_wrap_eq_iff (by omega) hok.1 hfresh
    have hiff : (s.mem.wrap w).ring.head = pos % 2 ^ w ∧ b = false ↔
        s.mem.ring.head = pos ∧ b = false := and_congr_left' hhead
    simp only [enqueueStep, EnqueuePc.wrap]
    by_cases hc : s.mem.ring.head = pos ∧ b = false
    · rw [if_pos (hiff.mpr hc), if_pos hc, wrap_succ_mod]
      rfl
    · rw [if_neg (hiff.not.mpr hc), if_neg hc]
      rfl
  | writing pos stage =>
    have hseq := setSequence_wrap h.powerOfTwo hsize (by omega : k ≤ w) pos (pos + 1)
    have hslot := slotAt_wrap h.powerOfTwo hsize (by omega : k ≤ w) pos
    have hreq := setReq_wrap h.powerOfTwo hsize (by omega : k ≤ w) pos
    cases stage with
    | publish =>
      simp only [enqueueStep, EnqueuePc.wrap, Shared.wrap, wrap_succ_mod, hseq]
      rfl
    | level | line | file | handler | copy i =>
      simp only [enqueueStep, EnqueuePc.wrap, Shared.wrap, hslot, hreq]
      rfl
  | ret ok => rfl

variable [DecidableEq ι]

theorem RingState.setProducer_wrap (s : RingState ι) (m : Shared) (p : ι) (x : Producer) :
    ({ s with mem := m, producers := Function.update s.producers p x } : RingState ι).wrap w =
      { s.wrap w with
        mem := m.wrap w
        producers := Function.update (s.wrap w).producers p (x.wrap w) } := by
  simp only [RingState.wrap, RingState.mk.injEq, true_and, and_true]
  funext q
  by_cases hq : q = p
  · subst hq
    simp only [Function.update_self]
  · simp only [Function.update_of_ne hq]

/-- producer の一 step は、語の上でも同じである。 -/
theorem RingInv.producer_wrap (h : RingInv s) (hsize : s.mem.ring.size = 2 ^ k)
    (hkw : k + 2 ≤ w) {p : ι} {b : Bool} (hfresh : FreshRead w k s (.producer p b)) :
    ringStep (.machine w) (s.wrap w) (.producer p b) =
      (ringStep .unbounded s (.producer p b)).map (RingState.wrap w) := by
  have hwrap : (s.wrap w).producers p = (s.producers p).wrap w := rfl
  cases hp : s.producers p with
  | idle =>
    rw [hp] at hwrap
    simp only [ringStep, hp, hwrap, Producer.wrap]
    rfl
  | inCall c pc =>
    rw [hp] at hwrap
    have he := h.enqueueStep_wrap hsize hkw hp hfresh
    cases pc with
    | ret ok =>
      simp only [ringStep, hp, hwrap, Producer.wrap, EnqueuePc.wrap, Option.map_some,
        RingState.setProducer_wrap]
      rfl
    | loadHead | loadSeq _ | cas _ | writing _ _ =>
      simp only [EnqueuePc.wrap] at he
      simp only [ringStep, hp, hwrap, Producer.wrap, EnqueuePc.wrap]
      show (enqueueStep (.machine w) c b (s.mem.wrap w) _).map _ = _
      rw [he, Option.map_map, Option.map_map]
      congr 1
      funext x
      exact (RingState.setProducer_wrap s x.1 p (.inCall c x.2)).symm

/-- 系の一 step は、語の上でも同じである。 -/
theorem RingInv.ringStep_wrap (h : RingInv s) (hsize : s.mem.ring.size = 2 ^ k)
    (hkw : k + 2 ≤ w) (a : RingAction ι) (hfresh : FreshRead w k s a) :
    ringStep (.machine w) (s.wrap w) a = (ringStep .unbounded s a).map (RingState.wrap w) := by
  have hle : k ≤ w := by omega
  cases a with
  | call p record handlerName =>
    have hwrap : (s.wrap w).producers p = (s.producers p).wrap w := rfl
    cases hp : s.producers p with
    | idle =>
      rw [hp] at hwrap
      simp only [ringStep, hp, hwrap, Producer.wrap, Option.map_some, RingState.setProducer_wrap]
      rfl
    | inCall c pc =>
      rw [hp] at hwrap
      simp only [ringStep, hp, hwrap, Producer.wrap]
      rfl
  | producer p b => exact h.producer_wrap hsize hkw hfresh
  | peek =>
    have hpeek := h.peek_wrap hsize hkw
    simp only [ringStep, RingState.wrap, Shared.wrap, hpeek]
    cases s.consumer <;> rfl
  | process =>
    have hslot := slotAt_wrap h.powerOfTwo hsize hle s.mem.ring.tail
    simp only [ringStep, RingState.wrap, Shared.wrap]
    cases s.consumer with
    | peeked =>
      show some { s.wrap w with
        consumer := .processed ((s.mem.ring.wrap w).slotAt (s.mem.ring.tail % 2 ^ w)).req } = _
      rw [hslot]
      rfl
    | idle | processed _ | released => rfl
  | release =>
    have hset := setSequence_wrap h.powerOfTwo hsize hle s.mem.ring.tail
      (s.mem.ring.tail + s.mem.ring.mask + 1)
    simp only [ringStep, RingState.wrap, Shared.wrap]
    cases s.consumer with
    | processed req =>
      have hstore : consumeStore (.machine w) (s.mem.ring.wrap w) =
          (consumeStore .unbounded s.mem.ring).wrap w := by
        show (s.mem.ring.wrap w).setSequence (s.mem.ring.tail % 2 ^ w)
          ((s.mem.ring.tail % 2 ^ w + s.mem.ring.mask + 1) % 2 ^ w) = _
        rw [Nat.add_assoc, Nat.mod_add_mod, ← Nat.add_assoc, hset]
        rfl
      simp only [hstore]
      rfl
    | idle | peeked | released => rfl
  | advance =>
    simp only [ringStep, RingState.wrap, Shared.wrap]
    cases s.consumer with
    | released =>
      have htail : consumeTail (.machine w) (s.mem.ring.wrap w) =
          (consumeTail .unbounded s.mem.ring).wrap w := by
        show { s.mem.ring.wrap w with
          tail := (CursorArith.machine w).wrap (s.mem.ring.tail % 2 ^ w + 1) } = _
        rw [wrap_succ_mod]
        rfl
      simp only [htail]
      rfl
    | idle | peeked | processed _ => rfl

omit [DecidableEq ι] in
/-- 一 step が見る slot と判定は、語の上でも同じである。 -/
theorem RingInv.ringDecisions_wrap (h : RingInv s) (hsize : s.mem.ring.size = 2 ^ k)
    (hkw : k + 2 ≤ w) (a : RingAction ι) (hfresh : FreshRead w k s a) :
    ringDecisions (.machine w) (s.wrap w) a = ringDecisions .unbounded s a := by
  have hidx : ∀ pos, (s.wrap w).mem.ring.index (pos % 2 ^ w) = s.mem.ring.index pos :=
    index_wrap h.powerOfTwo hsize (by omega)
  cases a with
  | call p record handlerName => rfl
  | producer p b =>
    have hwrap : (s.wrap w).producers p = (s.producers p).wrap w := rfl
    have hok := h.producer p
    cases hp : s.producers p with
    | idle =>
      rw [hp] at hwrap
      simp only [ringDecisions, hp, hwrap, Producer.wrap]
    | inCall c pc =>
      rw [hp] at hwrap hok
      simp only [FreshRead, hp] at hfresh
      cases pc with
      | loadHead | ret _ => simp only [ringDecisions, hp, hwrap, Producer.wrap, EnqueuePc.wrap]
      | writing pos stage =>
        simp only [ringDecisions, hp, hwrap, Producer.wrap, EnqueuePc.wrap, hidx]
      | loadSeq pos =>
        have hd : (CursorArith.machine w).diff ((s.wrap w).mem.ring.slotAt (pos % 2 ^ w)).sequence
            (pos % 2 ^ w) = _ := h.diff_wrap hsize hkw hok hfresh
        simp only [ringDecisions, hp, hwrap, Producer.wrap, EnqueuePc.wrap, hidx, hd]
      | cas pos =>
        have hiff : (s.wrap w).mem.ring.head = pos % 2 ^ w ↔ s.mem.ring.head = pos :=
          head_wrap_eq_iff (by omega) hok.1 hfresh
        simp only [ringDecisions, hp, hwrap, Producer.wrap, EnqueuePc.wrap, hidx, hiff]
  | peek =>
    have hpeek : lmkRingPeekSlot (.machine w) (s.wrap w).mem.ring = _ := h.peek_wrap hsize hkw
    have htail : (s.wrap w).mem.ring.tail = s.mem.ring.tail % 2 ^ w := rfl
    simp only [ringDecisions, hpeek, htail, hidx]
  | process | release =>
    have htail : (s.wrap w).mem.ring.tail = s.mem.ring.tail % 2 ^ w := rfl
    simp only [ringDecisions, htail, hidx]
  | advance => rfl

/-- 初期状態の cursor と `sequence` は、もう語に収まっている。 -/
theorem ringInitial_wrap (ι : Type) (hkw : k + 2 ≤ w) :
    (ringInitial ι k).wrap w = ringInitial ι k := by
  have hpow : 2 ^ k ≤ 2 ^ w := Nat.pow_le_pow_right Nat.two_pos (by omega)
  have hslots : (fun i => ({ (lmkRingInit (2 ^ k)).slots i with
      sequence := ((lmkRingInit (2 ^ k)).slots i).sequence % 2 ^ w } : RingSlot)) =
      (lmkRingInit (2 ^ k)).slots := by
    funext i
    simp only [lmkRingInit]
    by_cases hi : i < 2 ^ k
    · rw [if_pos hi, Nat.mod_eq_of_lt (by omega)]
    · rw [if_neg hi, Nat.zero_mod]
  simp only [RingState.wrap, Shared.wrap, Ring.wrap, ringInitial, hslots]
  simp only [lmkRingInit, Nat.zero_mod, Producer.wrap]

/-- 不変量も ring の大きさも、step の前後で変わらない。 -/
theorem ringInv_size_step {s' : RingState ι} {a : RingAction ι}
    (h : RingInv s ∧ s.mem.ring.size = 2 ^ k) (hs : ringStep .unbounded s a = some s') :
    RingInv s' ∧ s'.mem.ring.size = 2 ^ k := by
  refine ⟨ringInv_step h.1 hs, ?_⟩
  show s'.mem.ring.mask + 1 = 2 ^ k
  rw [mask_step hs]
  exact h.2

/--
実行 `as` のどの判定も、新しい `pos` に基づく。`head` は claim の個数なので、
桁あふれのない実行の `head` で数える。
-/
def FreshRun (w k : Nat) (as : List (RingAction ι)) : Prop :=
  Along (ringStep .unbounded) (FreshRead w k) (ringInitial ι k) as

/-- 語の上の実行は、桁あふれのない実行の余りであり、同じ判定を下して同じ slot を見る。 -/
theorem FreshRun.lockstep {as : List (RingAction ι)} (hk : 1 ≤ k) (hkw : k + 2 ≤ w)
    (hfresh : FreshRun w k as) :
    run (ringStep (.machine w)) (ringInitial ι k) as =
        (run (ringStep .unbounded) (ringInitial ι k) as).map (RingState.wrap w) ∧
      emitted (ringStep (.machine w)) (ringDecisions (.machine w)) (ringInitial ι k) as =
        emitted (ringStep .unbounded) (ringDecisions .unbounded) (ringInitial ι k) as := by
  have h : run (ringStep (.machine w)) ((ringInitial ι k).wrap w) as = _ ∧
      emitted (ringStep (.machine w)) (ringDecisions (.machine w)) ((ringInitial ι k).wrap w) as
        = emitted (ringStep .unbounded) (ringDecisions .unbounded) (ringInitial ι k) as :=
    run_lockstep (fun _ _ _ => ringInv_size_step) (fun s a hs hP => hs.1.ringStep_wrap hs.2 hkw a hP)
      (fun s a hs hP => hs.1.ringDecisions_wrap hs.2 hkw a hP)
      ⟨ringInv_initial hk, lmkRingInit_mask⟩ hfresh
  rw [ringInitial_wrap ι hkw] at h
  exact h

/-- 語の上で到達する状態は、桁あふれのない実行が到達する状態の余りである。 -/
theorem FreshRun.exists_unwrapped {as : List (RingAction ι)} (hk : 1 ≤ k) (hkw : k + 2 ≤ w)
    (hfresh : FreshRun w k as)
    (hrun : run (ringStep (.machine w)) (ringInitial ι k) as = some s) :
    ∃ u, run (ringStep .unbounded) (ringInitial ι k) as = some u ∧ s = u.wrap w ∧
      RingInv u ∧ u.mem.ring.size = 2 ^ k := by
  rw [(hfresh.lockstep hk hkw).1] at hrun
  obtain ⟨u, hu, rfl⟩ := Option.map_eq_some_iff.mp hrun
  exact ⟨u, hu, rfl, ringInv_reachable hk ⟨as, hu⟩, size_reachable ⟨as, hu⟩⟩

/-- 続きのある実行でも、途中の状態は桁あふれのない状態の余りである。 -/
theorem FreshRun.exists_unwrapped_of_append {as bs : List (RingAction ι)} (hk : 1 ≤ k)
    (hkw : k + 2 ≤ w) (hfresh : FreshRun w k (as ++ bs))
    (hrun : run (ringStep (.machine w)) (ringInitial ι k) as = some s) :
    ∃ u, run (ringStep .unbounded) (ringInitial ι k) as = some u ∧ s = u.wrap w ∧
      RingInv u ∧ u.mem.ring.size = 2 ^ k :=
  FreshRun.exists_unwrapped hk hkw (along_of_append hfresh) hrun

/-- 次の動作も新しい `pos` に基づくなら、語の上の一 step は桁あふれのない一 step の余りである。 -/
theorem FreshRun.exists_step {as : List (RingAction ι)} {a : RingAction ι} {u t : RingState ι}
    (hk : 1 ≤ k) (hkw : k + 2 ≤ w) (hfresh : FreshRun w k (as ++ [a]))
    (hu : run (ringStep .unbounded) (ringInitial ι k) as = some u)
    (ht : ringStep (.machine w) (u.wrap w) a = some t) :
    ∃ v, ringStep .unbounded u a = some v ∧ t = v.wrap w := by
  have hfa : FreshRead w k u a := ((along_append hu).mp hfresh).2.1
  rw [(ringInv_reachable hk ⟨as, hu⟩).ringStep_wrap (size_reachable ⟨as, hu⟩) hkw a hfa] at ht
  obtain ⟨v, hv, rfl⟩ := Option.map_eq_some_iff.mp ht
  exact ⟨v, hv, rfl⟩

/--
**cursor の巻き戻りは無害である。**

どの語の幅 `w` と大きさ `2 ^ k`（`2 ≤ 2 ^ k ≤ 2 ^ (w - 2)`）についても、
`pos` を読んでから判定するまでに claim される位置が `2 ^ (w - 1) - 2 ^ k` 個より少ない限り、
語の上の実行は桁あふれのない実行と同じ判定を下し、同じ slot を見る。
途中のどの状態も、桁あふれのない状態の余りを取ったものである。
-/
theorem ring_wrap_harmless {w k : Nat} (hk : 1 ≤ k) (hkw : k + 2 ≤ w)
    (as : List (RingAction ι))
    (hfresh : Along (ringStep .unbounded) (FreshRead w k) (ringInitial ι k) as) :
    emitted (ringStep (.machine w)) (ringDecisions (.machine w)) (ringInitial ι k) as =
      emitted (ringStep .unbounded) (ringDecisions .unbounded) (ringInitial ι k) as ∧
    run (ringStep (.machine w)) (ringInitial ι k) as =
      (run (ringStep .unbounded) (ringInitial ι k) as).map (RingState.wrap w) := by
  have h : FreshRun w k as := hfresh
  exact ⟨(h.lockstep hk hkw).2, (h.lockstep hk hkw).1⟩

instance decidableFreshRead {w k : Nat} (s : RingState ι) (a : RingAction ι) :
    Decidable (FreshRead w k s a) :=
  match a with
  | .producer p _ =>
    match h : s.producers p with
    | .inCall _ (.loadSeq pos) | .inCall _ (.cas pos) =>
      decidable_of_iff (s.mem.ring.head - pos < 2 ^ (w - 1) - 2 ^ k) (by simp [FreshRead, h])
    | .idle | .inCall _ .loadHead | .inCall _ (.writing _ _) | .inCall _ (.ret _) =>
      isTrue (by simp [FreshRead, h])
  | .call _ _ _ | .peek | .process | .release | .advance => isTrue trivial

instance (w k : Nat) (as : List (RingAction ι)) : Decidable (FreshRun w k as) :=
  decidableAlong ..

/-- 一つ入れて一つ取り出す。 -/
def oneRound : List (RingAction Unit) :=
  callAndRun () 65 11 ++ [.peek, .process, .release, .advance]

/-- 3 bit の語が一周して余る、九回の出し入れ。 -/
def wrappingRun : List (RingAction Unit) := (List.replicate 9 oneRound).flatten

theorem ring_wrap_harmless_wrappingRun :
    (run (ringStep (.machine 3)) (ringInitial Unit 1) wrappingRun).map
        (fun s => (s.mem.ring.head, s.mem.ring.tail)) = some (1, 1) ∧
      run (ringStep (.machine 3)) (ringInitial Unit 1) wrappingRun =
        (run (ringStep .unbounded) (ringInitial Unit 1) wrappingRun).map (RingState.wrap 3) :=
  ⟨by decide +kernel, (ring_wrap_harmless (w := 3) (k := 1) (by decide) (by decide) wrappingRun
    (by decide +kernel)).2⟩

end

end Logmoko
