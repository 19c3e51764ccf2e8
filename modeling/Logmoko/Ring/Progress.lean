import Logmoko.Ring.Ownership

/-!
# `lmk_ring_enqueue` の lock-free 性

loop には目に見える減少量がない。CAS に負けても、差が正でも、もう一度回る。
止まらないことを支えるのは「`pos = head` では差が正にならない」（`sequence_head_le`）である。
claim されたまま書かれていない slot があっても、これは変わらない。

* 一人で動く producer は、古い `pos` を捨てる一回と、今の `head` を使う一回で呼び出しを終える
* `pos` を使った iteration がやり直しになるのは、その間に他の producer の CAS が成功したときだけである

巻き戻る語の上では、一人で動く producer の持つ `pos` が新しいことを要する。
半周する間止まっていた producer は、空いている slot があっても 0 を返す（`staleRead_misses_free_slot`）。
-/

namespace Logmoko

open Transition

variable {ι : Type} {s s' t : RingState ι} {p : ι} {c : EnqueueCall}

/-! ## iteration の数え方 -/

/-- すでに始まっていて、まだ終わっていない iteration の個数。`sequence` の load が先頭である。 -/
def EnqueuePc.begun : EnqueuePc → Nat
  | .cas _ | .writing _ _ => 1
  | .loadHead | .loadSeq _ | .ret _ => 0

/-- これから始まる iteration。`sequence` の load がその先頭である。 -/
def EnqueuePc.starts : EnqueuePc → List Unit
  | .loadSeq _ => [()]
  | .loadHead | .cas _ | .writing _ _ | .ret _ => []

/-- producer `p` の step が始める iteration。 -/
def iterationStart [DecidableEq ι] (p : ι) (s : RingState ι) (a : RingAction ι) : List Unit :=
  match a, s.producers p with
  | .producer q _, .inCall _ pc => if q = p then pc.starts else []
  | _, _ => []

/-- producer `p` だけが、偽の失敗なしに `n` step 進む。 -/
def soloRun (p : ι) (n : Nat) : List (RingAction ι) := List.replicate n (.producer p false)

/-- 一人で動いたときの返り値。claim の後では 1 に決まり、その前では `head` の slot で決まる。 -/
def EnqueuePc.outcome (r : Ring) : EnqueuePc → Bool
  | .loadHead | .loadSeq _ | .cas _ => decide ((r.slotAt r.head).sequence = r.head)
  | .writing _ _ => true
  | .ret ok => ok

/-! ## `head` の slot -/

/-- `pos = head` では、差は正にならない。 -/
theorem RingInv.sequence_head_le (h : RingInv s) :
    (s.mem.ring.slotAt s.mem.ring.head).sequence ≤ s.mem.ring.head := by
  have h2 := h.powerOfTwo.two_le
  rcases Nat.lt_or_eq_of_le h.head_le with hlt | heq
  · exact Nat.le_of_eq (h.free _ (Nat.le_refl _) hlt)
  · -- 満杯なら `head` は一周前の位置 `R` と同じ slot にあり、その `sequence` は `R + 1` 以下である
    have hslot : s.mem.ring.slotAt s.mem.ring.head = s.mem.ring.slotAt s.mem.released := by
      unfold Ring.slotAt
      rw [heq, h.powerOfTwo.index_add_size]
    rw [hslot]
    rcases h.sequence_taken (Nat.le_refl _) (by omega) with he | he <;> omega

/-- `head` の slot が空いているのは、満杯でないときである。 -/
theorem RingInv.sequence_head_eq_iff (h : RingInv s) :
    (s.mem.ring.slotAt s.mem.ring.head).sequence = s.mem.ring.head ↔
      s.mem.outstanding < s.mem.ring.size := by
  have hle := h.released_le
  rw [h.outstanding_eq]
  constructor
  · intro hseq
    have := h.room_of_sequence_eq (Nat.le_refl _) hseq
    omega
  · intro hlt
    exact h.free _ (Nat.le_refl _) (by omega)

variable [DecidableEq ι]

/-! ## 一人で進む step -/

@[simp] theorem RingState.setProducer_self (x : Producer) : (s.setProducer p x).producers p = x :=
  Function.update_self _ _ _

theorem step_loadHead (h : s.producers p = .inCall c .loadHead) :
    ringStep .unbounded s (.producer p false) =
      some (s.setProducer p (.inCall c (.loadSeq s.mem.ring.head))) := by
  simp only [ringStep, h, enqueueStep]
  rfl

theorem step_seqReady {pos : Nat} (h : s.producers p = .inCall c (.loadSeq pos))
    (hseq : (s.mem.ring.slotAt pos).sequence = pos) :
    ringStep .unbounded s (.producer p false) = some (s.setProducer p (.inCall c (.cas pos))) := by
  simp only [ringStep, h, enqueueStep, diff_unbounded_eq_zero, if_pos hseq]
  rfl

theorem step_seqFull {pos : Nat} (h : s.producers p = .inCall c (.loadSeq pos))
    (hseq : (s.mem.ring.slotAt pos).sequence < pos) :
    ringStep .unbounded s (.producer p false) =
      some (s.setProducer p (.inCall c (.ret false))) := by
  simp only [ringStep, h, enqueueStep, diff_unbounded_eq_zero, diff_unbounded_neg,
    if_neg (Nat.ne_of_lt hseq), if_pos hseq]
  rfl

theorem step_seqAhead {pos : Nat} (h : s.producers p = .inCall c (.loadSeq pos))
    (hseq : pos < (s.mem.ring.slotAt pos).sequence) :
    ringStep .unbounded s (.producer p false) =
      some (s.setProducer p (.inCall c .loadHead)) := by
  simp only [ringStep, h, enqueueStep, diff_unbounded_eq_zero, diff_unbounded_neg,
    if_neg (Nat.ne_of_gt hseq), if_neg (Nat.lt_asymm hseq)]
  rfl

theorem step_casOk {A : CursorArith} (h : s.producers p = .inCall c (.cas s.mem.ring.head)) :
    ∃ m, ringStep A s (.producer p false) =
      some { s with mem := m
                    producers := Function.update s.producers p
                      (.inCall c (.writing s.mem.ring.head .level)) } := by
  simp only [ringStep, h, enqueueStep]
  exact ⟨_, rfl⟩

theorem step_casFail {pos : Nat} (h : s.producers p = .inCall c (.cas pos))
    (hne : s.mem.ring.head ≠ pos) :
    ringStep .unbounded s (.producer p false) =
      some (s.setProducer p (.inCall c (.loadSeq s.mem.ring.head))) := by
  simp only [ringStep, h, enqueueStep, hne, false_and, if_false]
  rfl

/-- claim した後の一 step は、次の段に進むか、公開して 1 を返すところに着く。 -/
theorem step_writing {pos : Nat} {stage : WriteStage}
    (h : s.producers p = .inCall c (.writing pos stage)) :
    ∃ m, ringStep .unbounded s (.producer p false) =
      some { s with mem := m
                    producers := Function.update s.producers p (.inCall c
                      (if stage = .publish then .ret true
                        else .writing pos (stage.next c))) } := by
  cases stage with
  | publish =>
    simp only [ringStep, h, enqueueStep]
    exact ⟨_, rfl⟩
  | level | line | file | handler | copy i =>
    simp only [ringStep, h, enqueueStep]
    exact ⟨_, rfl⟩

/-! ## 一人で呼び出しを終える -/

/-- producer `p` は一人で、あと `i` 回の iteration を始めて、`ok` を返すところに着く。 -/
def Completes (s : RingState ι) (p : ι) (c : EnqueueCall) (i : Nat) (ok : Bool) : Prop :=
  ∃ n t, run (ringStep .unbounded) s (soloRun p n) = some t ∧
    t.producers p = .inCall c (.ret ok) ∧
    (emitted (ringStep .unbounded) (iterationStart p) s (soloRun p n)).length = i

theorem completes_ret {ok : Bool} (h : s.producers p = .inCall c (.ret ok)) :
    Completes s p c 0 ok :=
  ⟨0, s, rfl, h, rfl⟩

/-- 一 step 進んでから終わるなら、始めた iteration の分だけ増える。 -/
theorem Completes.step {pc : EnqueuePc} {i : Nat} {ok : Bool} (h : s.producers p = .inCall c pc)
    (hs : ringStep .unbounded s (.producer p false) = some s') (hc : Completes s' p c i ok) :
    Completes s p c (pc.starts.length + i) ok := by
  obtain ⟨n, t, hrun, hret, hlen⟩ := hc
  refine ⟨n + 1, t, run_cons_eq_some.mpr ⟨s', hs, hrun⟩, hret, ?_⟩
  show (emitted _ _ s (.producer p false :: soloRun p n)).length = _
  rw [emitted_cons hs, List.length_append, hlen]
  simp only [iterationStart, h, if_true]

/-- 残っている書き込みの段数。 -/
def WriteStage.remaining (c : EnqueueCall) : WriteStage → Nat
  | .level => c.copyLen + 5
  | .line => c.copyLen + 4
  | .file => c.copyLen + 3
  | .handler => c.copyLen + 2
  | .copy i => c.copyLen - i + 1
  | .publish => 0

theorem WriteStage.remaining_next {stage : WriteStage} (h : stage ≠ .publish) :
    (stage.next c).remaining c < stage.remaining c := by
  cases stage with
  | publish => exact absurd rfl h
  | level | line | file | handler => simp only [WriteStage.next, WriteStage.remaining]; omega
  | copy i =>
    simp only [WriteStage.next]
    split
    · simp only [WriteStage.remaining]
      omega
    · exact Nat.succ_pos _

/-- claim した後は、もう loop を回らずに 1 を返す。 -/
theorem completes_writing {pos : Nat} {stage : WriteStage}
    (h : s.producers p = .inCall c (.writing pos stage)) : Completes s p c 0 true := by
  induction hr : stage.remaining c using Nat.strong_induction_on generalizing s stage with
  | _ r ih =>
    obtain ⟨m, hs⟩ := step_writing h
    refine Completes.step (i := 0) h hs ?_
    by_cases hp : stage = .publish
    · rw [if_pos hp]
      exact completes_ret (Function.update_self _ _ _)
    · rw [if_neg hp]
      exact ih _ (hr ▸ WriteStage.remaining_next hp) (Function.update_self _ _ _) rfl

/-- 今の `head` への CAS は成功する。 -/
theorem completes_cas_head (h : s.producers p = .inCall c (.cas s.mem.ring.head)) :
    Completes s p c 0 true := by
  obtain ⟨m, hs⟩ := step_casOk h
  exact (completes_writing (Function.update_self _ _ _)).step h hs

/-- 今の `head` を持つ iteration は、CAS に成功するか満杯を読むかで終わる。 -/
theorem RingInv.completes_loadSeq_head (hi : RingInv s)
    (h : s.producers p = .inCall c (.loadSeq s.mem.ring.head)) :
    Completes s p c 1
      (decide ((s.mem.ring.slotAt s.mem.ring.head).sequence = s.mem.ring.head)) := by
  rcases Nat.lt_or_eq_of_le hi.sequence_head_le with hlt | heq
  · rw [decide_eq_false (Nat.ne_of_lt hlt)]
    exact (completes_ret (s.setProducer_self _)).step h (step_seqFull h hlt)
  · rw [decide_eq_true heq]
    exact (completes_cas_head (s.setProducer_self _)).step h (step_seqReady h heq)

/-- `head` を読み直した iteration は、次の一回で終わる。 -/
theorem RingInv.completes_reload (hi : RingInv s) {pc : EnqueuePc}
    (h : s.producers p = .inCall c pc)
    (hs : ringStep .unbounded s (.producer p false) =
      some (s.setProducer p (.inCall c (.loadSeq s.mem.ring.head)))) :
    Completes s p c (pc.starts.length + 1)
      (decide ((s.mem.ring.slotAt s.mem.ring.head).sequence = s.mem.ring.head)) :=
  ((ringInv_step hi hs).completes_loadSeq_head (s.setProducer_self _)).step h hs

/-- 一人で動く producer は、途中の iteration も含めて高々二回の iteration で終わる。 -/
theorem RingInv.completes (hi : RingInv s) {pc : EnqueuePc} (h : s.producers p = .inCall c pc) :
    ∃ i, pc.begun + i ≤ 2 ∧ Completes s p c i (pc.outcome s.mem.ring) := by
  cases pc with
  | ret ok => exact ⟨0, Nat.zero_le _, completes_ret h⟩
  | writing pos stage => exact ⟨0, Nat.le_succ _, completes_writing h⟩
  | loadHead => exact ⟨1, Nat.le_succ _, hi.completes_reload h (step_loadHead h)⟩
  | cas pos =>
    by_cases hp : s.mem.ring.head = pos
    · -- `sequence = pos` を読んでからここに来たので、その slot はまだ空いている
      subst hp
      have hok : s.mem.ProducerOk (.inCall c (.cas s.mem.ring.head)) := h ▸ hi.producer p
      have hout : EnqueuePc.outcome s.mem.ring (.cas s.mem.ring.head) = true :=
        decide_eq_true (hi.free _ (Nat.le_refl _) hok.2)
      rw [hout]
      exact ⟨0, Nat.le_succ _, completes_cas_head h⟩
    · exact ⟨1, Nat.le_refl _, hi.completes_reload h (step_casFail h hp)⟩
  | loadSeq pos =>
    by_cases hp : s.mem.ring.head = pos
    · subst hp
      exact ⟨1, Nat.le_succ _, hi.completes_loadSeq_head h⟩
    · refine ⟨2, Nat.le_refl _, ?_⟩
      have hle : pos ≤ s.mem.ring.head := by
        have hok : s.mem.ProducerOk (.inCall c (.loadSeq pos)) := h ▸ hi.producer p
        exact hok
      -- 古い `pos` の iteration は、CAS に負けるか `head` を読み直して終わる
      rcases Nat.lt_trichotomy (s.mem.ring.slotAt pos).sequence pos with hlt | heq | hgt
      · exact absurd (hi.full_of_sequence_lt hle hlt).1 hp
      · have hs := step_seqReady h heq
        have hcas := s.setProducer_self (p := p) (x := .inCall c (.cas pos))
        exact ((ringInv_step hi hs).completes_reload hcas (step_casFail hcas hp)).step h hs
      · have hs := step_seqAhead h hgt
        have hload := s.setProducer_self (p := p) (x := .inCall c .loadHead)
        exact ((ringInv_step hi hs).completes_reload hload (step_loadHead hload)).step h hs

/-! ## 語の上で一人で進む -/

section

variable {w k : Nat}

/-- 自分の step は、持っている `pos` を古くしない。 -/
theorem freshRead_step {b b' : Bool} (hkw : k + 2 ≤ w) (hfresh : FreshRead w k s (.producer p b))
    (hs : ringStep .unbounded s (.producer p b) = some s') :
    FreshRead w k s' (.producer p b') := by
  have hq := size_le_quarter hkw
  have hk := Nat.two_pow_pos k
  cases ringStep_move hs with
  | loadHead hp | casFail hp =>
    simp only [FreshRead, RingState.setProducer, Function.update_self, Nat.sub_self]
    omega
  | seqReady hp hseq =>
    simp only [FreshRead, hp] at hfresh
    simpa only [FreshRead, RingState.setProducer, Function.update_self] using hfresh
  | seqFull hp hseq | seqAhead hp hseq | casOk hp | write hp hne | publish hp | ret hp =>
    simp only [FreshRead, RingState.setProducer, Function.update_self]

/-- 新しい `pos` を持つ producer が一人で動く間、判定はみな新しい `pos` に基づく。 -/
theorem along_soloRun (hkw : k + 2 ≤ w) (h : FreshRead w k s (.producer p false)) (n : Nat) :
    Along (ringStep .unbounded) (FreshRead w k) s (soloRun p n) := by
  induction n generalizing s with
  | zero => trivial
  | succ n ih =>
    show Along _ _ s (.producer p false :: soloRun p n)
    refine ⟨h, ?_⟩
    cases hs : ringStep .unbounded s (.producer p false) with
    | none => trivial
    | some s' => exact ih (freshRead_step hkw h hs)

omit [DecidableEq ι] in
/-- `head` の slot が空いているかどうかは、語の上でも同じである。 -/
theorem RingInv.sequence_head_wrap (h : RingInv s) (hsize : s.mem.ring.size = 2 ^ k)
    (hkw : k + 2 ≤ w) :
    ((s.mem.ring.wrap w).slotAt (s.mem.ring.wrap w).head).sequence = (s.mem.ring.wrap w).head ↔
      (s.mem.ring.slotAt s.mem.ring.head).sequence = s.mem.ring.head := by
  have hq := size_le_quarter hkw
  have hpow : 2 ^ w = 2 * 2 ^ (w - 1) := by rw [← Nat.pow_add_one', Nat.sub_add_cancel (by omega)]
  have hle := h.sequence_head_le
  obtain ⟨hlo, -⟩ := h.sequence_window s.mem.ring.head
  have hhead := h.head_le
  have hk := Nat.two_pow_pos k
  show ((s.mem.ring.wrap w).slotAt (s.mem.ring.head % 2 ^ w)).sequence = s.mem.ring.head % 2 ^ w ↔ _
  rw [slotAt_wrap h.powerOfTwo hsize (by omega)]
  constructor
  · intro he
    have hdvd := (Nat.modEq_iff_dvd' hle).mp he
    have := Nat.eq_zero_of_dvd_of_lt hdvd (by omega)
    omega
  · intro he
    exact congrArg (· % 2 ^ w) he

omit [DecidableEq ι] in
theorem RingInv.outcome_wrap (h : RingInv s) (hsize : s.mem.ring.size = 2 ^ k) (hkw : k + 2 ≤ w)
    (pc : EnqueuePc) : (pc.wrap w).outcome (s.mem.ring.wrap w) = pc.outcome s.mem.ring := by
  cases pc with
  | loadHead | loadSeq _ | cas _ => exact decide_eq_decide.mpr (h.sequence_head_wrap hsize hkw)
  | writing _ _ | ret _ => rfl

theorem iterationStart_wrap (s : RingState ι) (a : RingAction ι) :
    iterationStart p (s.wrap w) a = iterationStart p s a := by
  cases a with
  | producer q b =>
    have hwrap : (s.wrap w).producers p = (s.producers p).wrap w := rfl
    unfold iterationStart
    rw [hwrap]
    cases s.producers p with
    | idle => rfl
    | inCall c pc => cases pc <;> rfl
  | call | peek | process | release | advance => rfl

/-- 新しい `pos` を持つ producer は、語の上でも一人で呼び出しを終える。 -/
theorem RingInv.completes_wrap (h : RingInv s) (hsize : s.mem.ring.size = 2 ^ k)
    (hkw : k + 2 ≤ w) {pc : EnqueuePc} (hp : s.producers p = .inCall c pc)
    (hfresh : FreshRead w k s (.producer p false)) :
    ∃ n t, run (ringStep (.machine w)) (s.wrap w) (soloRun p n) = some t ∧
      t.producers p = .inCall c (.ret (pc.outcome s.mem.ring)) ∧
      pc.begun + (emitted (ringStep (.machine w)) (iterationStart p) (s.wrap w)
        (soloRun p n)).length ≤ 2 := by
  obtain ⟨i, hle, n, t, hrun, hret, hlen⟩ := h.completes hp
  obtain ⟨hwrap, hemit⟩ := run_lockstep (fun _ _ _ => ringInv_size_step)
    (fun s a hs hP => hs.1.ringStep_wrap hs.2 hkw a hP)
    (fun s a _ _ => iterationStart_wrap s a) ⟨h, hsize⟩ (along_soloRun hkw hfresh n)
  rw [hrun] at hwrap
  refine ⟨n, t.wrap w, hwrap, ?_, ?_⟩
  · show (t.producers p).wrap w = _
    rw [hret]
    rfl
  · rw [hemit, hlen]
    exact hle

end

/-! ## やり直しの原因 -/

section

variable {A : CursorArith} {m m' : Shared} {b : Bool} {pc pc' : EnqueuePc}

omit [DecidableEq ι] in
/-- `lmk_ring_enqueue` の中で `head` を動かすのは、成功した CAS だけである。 -/
theorem cas_of_head_enqueueStep (h : enqueueStep A c b m pc = some (m', pc'))
    (hne : m'.ring.head ≠ m.ring.head) :
    b = false ∧ pc = .cas m.ring.head ∧ pc' = .writing m.ring.head .level := by
  cases pc with
  | loadHead =>
    obtain ⟨rfl, rfl⟩ := Prod.mk.inj (Option.some.inj h)
    exact absurd rfl hne
  | loadSeq pos =>
    simp only [enqueueStep] at h
    split_ifs at h <;> obtain ⟨rfl, rfl⟩ := Prod.mk.inj (Option.some.inj h) <;> exact absurd rfl hne
  | cas pos =>
    simp only [enqueueStep] at h
    split_ifs at h with hc
    · obtain ⟨rfl, rfl⟩ := hc
      obtain ⟨rfl, rfl⟩ := Prod.mk.inj (Option.some.inj h)
      exact ⟨rfl, rfl, rfl⟩
    · obtain ⟨rfl, rfl⟩ := Prod.mk.inj (Option.some.inj h)
      exact absurd rfl hne
  | writing pos stage =>
    cases stage <;> obtain ⟨rfl, rfl⟩ := Prod.mk.inj (Option.some.inj h) <;> exact absurd rfl hne
  | ret ok => cases h

omit [DecidableEq ι] in
/-- 手に入れた `pos` は、その時の `head` である。 -/
theorem head_of_enqueueStep {pos : Nat} (h : enqueueStep A c b m pc = some (m', .loadSeq pos)) :
    m'.ring.head = pos := by
  cases pc with
  | loadHead =>
    obtain ⟨rfl, he⟩ := Prod.mk.inj (Option.some.inj h)
    exact EnqueuePc.loadSeq.inj he
  | loadSeq q =>
    simp only [enqueueStep] at h
    split_ifs at h <;> cases (Prod.mk.inj (Option.some.inj h)).2
  | cas q =>
    simp only [enqueueStep] at h
    split_ifs at h
    · cases (Prod.mk.inj (Option.some.inj h)).2
    · obtain ⟨rfl, he⟩ := Prod.mk.inj (Option.some.inj h)
      exact EnqueuePc.loadSeq.inj he
  | writing q stage => cases stage <;> cases (Prod.mk.inj (Option.some.inj h)).2
  | ret ok => cases h

/-- 呼び出しの中の producer の step は、戻る step か、`lmk_ring_enqueue` の一 step である。 -/
theorem producer_inCall (hp : s.producers p = .inCall c pc)
    (hs : ringStep A s (.producer p b) = some s') :
    s'.producers p = .idle ∧ s'.mem.ring = s.mem.ring ∨
      ∃ m' pc', enqueueStep A c b s.mem pc = some (m', pc') ∧ s'.mem = m' ∧
        s'.producers p = .inCall c pc' := by
  simp only [ringStep, hp] at hs
  cases pc with
  | ret ok =>
    obtain rfl := Option.some.inj hs
    exact Or.inl ⟨Function.update_self _ _ _, rfl⟩
  | loadHead | loadSeq _ | cas _ | writing _ _ =>
    obtain ⟨⟨m', pc'⟩, he, rfl⟩ := Option.map_eq_some_iff.mp hs
    exact Or.inr ⟨m', pc', he, rfl, Function.update_self _ _ _⟩

/-- `head` を動かす step は、成功した CAS だけである。 -/
theorem cas_of_head_ne {a : RingAction ι} (hs : ringStep A s a = some s')
    (hne : s'.mem.ring.head ≠ s.mem.ring.head) :
    ∃ q d, a = .producer q false ∧ s.producers q = .inCall d (.cas s.mem.ring.head) ∧
      s'.producers q = .inCall d (.writing s.mem.ring.head .level) := by
  cases a with
  | producer q b =>
    cases hq : s.producers q with
    | idle =>
      simp only [ringStep, hq] at hs
      cases hs
    | inCall d pc =>
      rcases producer_inCall hq hs with ⟨-, hring⟩ | ⟨m', pc', he, rfl, hq'⟩
      · rw [hring] at hne
        exact absurd rfl hne
      · obtain ⟨rfl, rfl, rfl⟩ := cas_of_head_enqueueStep he hne
        exact ⟨q, d, rfl, hq, hq'⟩
  | call | peek | process | release | advance =>
    simp only [ringStep] at hs
    split at hs
    · obtain rfl := Option.some.inj hs
      exact absurd rfl hne
    · cases hs

end

/-- 実行位置 `pc` は、位置 `pos` を使う iteration の中にある。 -/
def EnqueuePc.Uses (pos : Nat) : EnqueuePc → Prop
  | .loadSeq q | .cas q => q = pos
  | .loadHead | .writing _ _ | .ret _ => False

/--
producer `p` の一回の iteration が、返らずに、偽の失敗でもなく終わる実行の断片。
`s₀` からの step で `pos` を手に入れ、`during` の間はその iteration の中にいて、
`s₂` からの step で iteration が終わる。
-/
structure RetriedIteration (A : CursorArith) (p : ι) (c : EnqueueCall) (pos : Nat) (b : Bool)
    (s₀ s₁ s₂ s₃ : RingState ι) (during : List (RingAction ι)) : Prop where
  obtains : ringStep A s₀ (.producer p b) = some s₁
  obtained : s₁.producers p = .inCall c (.loadSeq pos)
  mid : run (ringStep A) s₁ during = some s₂
  uses : ∀ as u, as <+: during → run (ringStep A) s₁ as = some u →
    ∃ pc, u.producers p = .inCall c pc ∧ pc.Uses pos
  ends : (∃ b, ringStep A s₂ (.producer p b) = some s₃ ∧
      s₃.producers p = .inCall c .loadHead) ∨
    ∃ b pos', ringStep A s₂ (.producer p b) = some s₃ ∧
      s₂.producers p = .inCall c (.cas pos) ∧ s₃.producers p = .inCall c (.loadSeq pos') ∧
      ¬ (s₂.mem.ring.head = pos ∧ b = true)

section

variable {A : CursorArith} {s₀ s₁ s₂ s₃ : RingState ι} {during : List (RingAction ι)} {pos : Nat}
  {b : Bool}

/-- 手に入れた `pos` は、その時の `head` である。 -/
theorem RetriedIteration.head_eq (h : RetriedIteration A p c pos b s₀ s₁ s₂ s₃ during) :
    s₁.mem.ring.head = pos := by
  have hs := h.obtains
  cases hp : s₀.producers p with
  | idle =>
    simp only [ringStep, hp] at hs
    cases hs
  | inCall d pc =>
    rcases producer_inCall hp hs with ⟨hidle, -⟩ | ⟨m', pc', he, rfl, hp'⟩
    · rw [h.obtained] at hidle
      cases hidle
    · obtain ⟨rfl, rfl⟩ := Producer.inCall.inj (hp'.symm.trans h.obtained)
      exact head_of_enqueueStep he

/-- `pos = head` で差が正にならないなら、やり直しになる時には `head` はもう `pos` ではない。 -/
theorem RetriedIteration.head_ne (h : RetriedIteration A p c pos b s₀ s₁ s₂ s₃ during)
    (hle : A.diff (s₂.mem.ring.slotAt s₂.mem.ring.head).sequence s₂.mem.ring.head ≤ 0) :
    s₂.mem.ring.head ≠ pos := by
  rintro rfl
  obtain ⟨pc, hpc, huse⟩ := h.uses during s₂ (List.prefix_refl _) h.mid
  rcases h.ends with ⟨b', hs, hp⟩ | ⟨b', pos', hs, hcas, hp, hspur⟩
  · -- 差が正だったはずだが、`pos = head` では正にならない
    rcases producer_inCall hpc hs with ⟨hidle, -⟩ | ⟨m', pc', he, -, hp'⟩
    · rw [hidle] at hp
      cases hp
    · obtain rfl := (Producer.inCall.inj (hp'.symm.trans hp)).2
      cases pc with
      | loadSeq q =>
        obtain rfl : q = s₂.mem.ring.head := huse
        simp only [enqueueStep] at he
        split_ifs at he with hzero hneg
        all_goals first
          | (cases (Prod.mk.inj (Option.some.inj he)).2; done)
          | omega
      | cas q =>
        simp only [enqueueStep] at he
        split_ifs at he <;> cases (Prod.mk.inj (Option.some.inj he)).2
      | loadHead | writing _ _ | ret _ => exact huse
  · -- 偽の失敗でなければ、`head` が `pos` のままの CAS は成功する
    have hb : b' = false := by
      cases b' with
      | false => rfl
      | true => exact absurd ⟨rfl, rfl⟩ hspur
    subst hb
    obtain ⟨m, hok⟩ := step_casOk (A := A) hcas
    rw [hok] at hs
    rw [← Option.some.inj hs] at hp
    have he := (Function.update_self _ _ _).symm.trans hp
    simp at he

/-- やり直しの間には、他の producer の成功した CAS がある。 -/
theorem RetriedIteration.exists_cas (h : RetriedIteration A p c pos b s₀ s₁ s₂ s₃ during)
    (hle : A.diff (s₂.mem.ring.slotAt s₂.mem.ring.head).sequence s₂.mem.ring.head ≤ 0) :
    ∃ as q bs u v d, during = as ++ .producer q false :: bs ∧ q ≠ p ∧
      run (ringStep A) s₁ as = some u ∧
      ringStep A u (.producer q false) = some v ∧
      u.producers q = .inCall d (.cas u.mem.ring.head) ∧
      v.producers q = .inCall d (.writing u.mem.ring.head .level) := by
  have hne : s₂.mem.ring.head ≠ s₁.mem.ring.head := by
    rw [h.head_eq]
    exact h.head_ne hle
  obtain ⟨as, a, bs, u, v, hduring, hu, hv, hchange⟩ :=
    run_exists_change (f := fun s => s.mem.ring.head) h.mid hne
  obtain ⟨q, d, rfl, hcas, hwrite⟩ := cas_of_head_ne hv hchange
  refine ⟨as, q, bs, u, v, d, hduring, ?_, hu, hv, hcas, hwrite⟩
  rintro rfl
  -- `p` 自身はこの間ずっと `pos` を使う iteration の中にいる
  obtain ⟨pc, hpc, huse⟩ := h.uses (as ++ [.producer q false]) v
    ⟨bs, by rw [hduring, List.append_assoc, List.singleton_append]⟩
    (run_snoc_eq_some.mpr ⟨u, hu, hv⟩)
  obtain rfl := (Producer.inCall.inj (hwrite.symm.trans hpc)).2
  exact huse

end

omit [DecidableEq ι] in
/-- 今の `head` についての差は、語の上でも正にならない。 -/
theorem RingInv.diff_head_wrap_le {w k : Nat} (h : RingInv s) (hsize : s.mem.ring.size = 2 ^ k)
    (hkw : k + 2 ≤ w) :
    (CursorArith.machine w).diff ((s.wrap w).mem.ring.slotAt (s.wrap w).mem.ring.head).sequence
      (s.wrap w).mem.ring.head ≤ 0 := by
  have hq := size_le_quarter hkw
  have hk := Nat.two_pow_pos k
  have hd := h.diff_wrap hsize hkw le_rfl (by omega)
  have hle := h.sequence_head_le
  show (CursorArith.machine w).diff ((s.mem.ring.wrap w).slotAt (s.mem.ring.head % 2 ^ w)).sequence
    (s.mem.ring.head % 2 ^ w) ≤ 0
  rw [hd]
  show ((s.mem.ring.slotAt s.mem.ring.head).sequence : Int) - s.mem.ring.head ≤ 0
  omega

/--
**`lmk_ring_enqueue` は lock-free に進む。**

`w` bit の語の上の、判定がみな新しい `pos` に基づく実行のどの状態でも、
新しい `pos` を持つ呼び出しの中の producer は、他の全員が止まっていても、
途中の iteration も含めて高々二回（したがって三回以内）の iteration で返る。
まだ位置を取っていなければ、返り値が 1 になるのは `head` の slot が空いているとき、
つまり手放されていない位置が ring の大きさより少ないときである。
また、返らずに、偽の失敗でもなく終わる iteration の間には、
その `pos` を手に入れた後に成功した他の producer の CAS がある。
-/
theorem enqueue_lock_free {w k : Nat} (hk : 1 ≤ k) (hkw : k + 2 ≤ w) :
    (∀ (as : List (RingAction ι)) (s : RingState ι) (p : ι) (c : EnqueueCall) (pc : EnqueuePc),
      FreshRun w k (as ++ [.producer p false]) →
      run (ringStep (.machine w)) (ringInitial ι k) as = some s → s.producers p = .inCall c pc →
      (∃ n t, run (ringStep (.machine w)) s (soloRun p n) = some t ∧
        t.producers p = .inCall c (.ret (pc.outcome s.mem.ring)) ∧
        pc.begun +
          (emitted (ringStep (.machine w)) (iterationStart p) s (soloRun p n)).length ≤ 2) ∧
      ((s.mem.ring.slotAt s.mem.ring.head).sequence = s.mem.ring.head ↔
        s.mem.outstanding < 2 ^ k)) ∧
    ∀ (as : List (RingAction ι)) (p : ι) (c : EnqueueCall) (pos : Nat) (b : Bool)
      (s₀ s₁ s₂ s₃ : RingState ι) (during : List (RingAction ι)),
      FreshRun w k (as ++ .producer p b :: during) →
      run (ringStep (.machine w)) (ringInitial ι k) as = some s₀ →
      RetriedIteration (.machine w) p c pos b s₀ s₁ s₂ s₃ during →
      ∃ bs q ds u v d, during = bs ++ .producer q false :: ds ∧ q ≠ p ∧
        run (ringStep (.machine w)) s₁ bs = some u ∧
        ringStep (.machine w) u (.producer q false) = some v ∧
        u.producers q = .inCall d (.cas u.mem.ring.head) ∧
        v.producers q = .inCall d (.writing u.mem.ring.head .level) := by
  constructor
  · intro as s p c pc hfresh hrun hp
    obtain ⟨u, hu, rfl, hinv, hsize⟩ := hfresh.exists_unwrapped_of_append hk hkw hrun
    obtain ⟨pc, hpu, rfl⟩ := inCall_of_wrap hp
    constructor
    · obtain ⟨n, t, ht, hret, hlen⟩ :=
        hinv.completes_wrap hsize hkw hpu ((along_append hu).mp hfresh).2.1
      refine ⟨n, t, ht, ?_, ?_⟩
      · show _ = Producer.inCall c (.ret ((pc.wrap w).outcome (u.mem.ring.wrap w)))
        rw [hinv.outcome_wrap hsize hkw]
        exact hret
      · cases pc <;> exact hlen
    · rw [← hsize]
      exact (hinv.sequence_head_wrap hsize hkw).trans hinv.sequence_head_eq_iff
  · intro as p c pos b s₀ s₁ s₂ s₃ during hfresh hrun h
    have hlast : run (ringStep (.machine w)) (ringInitial ι k) (as ++ .producer p b :: during)
        = some s₂ :=
      run_append_eq_some.mpr ⟨s₀, hrun, run_cons_eq_some.mpr ⟨s₁, h.obtains, h.mid⟩⟩
    obtain ⟨u, -, rfl, hinv, hsize⟩ := hfresh.exists_unwrapped hk hkw hlast
    exact h.exists_cas (hinv.diff_head_wrap_le hsize hkw)

/-- 二人が呼び出しを始める。 -/
def twoCalls : List (RingAction Bool) :=
  [.call false (sampleRecord 2 65) .empty, .call true (sampleRecord 2 66) .empty]

/-- 一人が位置 0 を読んで CAS の手前にいる間に、もう一人が位置 0 を取る。 -/
def lostCas : List (RingAction Bool) :=
  [.producer true false, .producer false false, .producer true false, .producer true false]

theorem retriedIteration_lostCas :
    ∃ s₀ s₁ s₂ s₃ c, run (ringStep (.machine 64)) (ringInitial Bool 1) twoCalls = some s₀ ∧
      s₂.producers false = .inCall c (.cas 0) ∧
      RetriedIteration (.machine 64) false c 0 false s₀ s₁ s₂ s₃ lostCas := by
  refine ⟨_, _, _, _, _, rfl, ?_, rfl, rfl, rfl, ?_, Or.inr ⟨false, 1, rfl, rfl, rfl, ?_⟩⟩
  · rfl
  · intro as u has hu
    simp only [lostCas, List.prefix_cons_iff, List.prefix_nil] at has
    rcases has with rfl | ⟨_, rfl, rfl | ⟨_, rfl, rfl | ⟨_, rfl, rfl | ⟨_, rfl, rfl⟩⟩⟩⟩
    all_goals
      obtain rfl := Option.some.inj hu
      exact ⟨_, rfl, rfl⟩
  · rintro ⟨-, hb⟩
    exact absurd hb Bool.false_ne_true

theorem enqueue_lock_free_lostCas :
    ∃ s₀ s₁ s₂ s₃ c, RetriedIteration (.machine 64) false c 0 false s₀ s₁ s₂ s₃ lostCas ∧
      (∃ n t, run (ringStep (.machine 64)) s₂ (soloRun false n) = some t ∧
        t.producers false = .inCall c (.ret (EnqueuePc.outcome s₂.mem.ring (.cas 0)))) ∧
      ∃ as q bs, lostCas = as ++ .producer q false :: bs ∧ q ≠ false := by
  obtain ⟨s₀, s₁, s₂, s₃, c, hs₀, hcas, h⟩ := retriedIteration_lostCas
  refine ⟨s₀, s₁, s₂, s₃, c, h, ?_, ?_⟩
  · have hs₂ : run (ringStep (.machine 64)) (ringInitial Bool 1)
        (twoCalls ++ .producer false false :: lostCas) = some s₂ :=
      run_append_eq_some.mpr ⟨s₀, hs₀, run_cons_eq_some.mpr ⟨s₁, h.obtains, h.mid⟩⟩
    obtain ⟨n, t, hrun, hret, -⟩ := ((enqueue_lock_free (w := 64) (Nat.le_refl 1) (by decide)).1 _
      s₂ false c _ (by decide +kernel) hs₂ hcas).1
    exact ⟨n, t, hrun, hret⟩
  · obtain ⟨as, q, bs, _, _, _, hsplit, hne, -⟩ :=
      (enqueue_lock_free (Nat.le_refl 1) (by decide)).2 twoCalls false c 0 false s₀ s₁ s₂ s₃ lostCas
        (by decide +kernel) hs₀ h
    exact ⟨as, q, bs, hsplit, hne⟩

/--
64 bit の cursor が半周する間 `head` を読んで止まっていた producer は、一人で動くと 0 を返す。
その時 ring は空で、`head` の slot は空いている。
-/
theorem staleRead_misses_free_slot :
    ∃ s t c, run (ringStep (.machine 64)) (ringInitial Bool 1) (staleRead (2 ^ 63)) = some s ∧
      s.producers false = .inCall c (.loadSeq 0) ∧
      (s.mem.ring.slotAt s.mem.ring.head).sequence = s.mem.ring.head ∧ s.mem.outstanding < 2 ^ 1 ∧
      run (ringStep (.machine 64)) s (soloRun false 1) = some t ∧
      t.producers false = .inCall c (.ret false) := by
  obtain ⟨s, c, hs, hlap, hp⟩ := run_staleRead (2 ^ 63)
  obtain ⟨t, ht, hret⟩ := hlap.step_staleRead hp
  refine ⟨s, t, c, hs, hp, hlap.sequence_head (by decide), ?_, run_singleton.trans ht, hret⟩
  unfold Shared.outstanding
  rw [hlap.released, Nat.sub_self]
  exact Nat.two_pow_pos 1

end Logmoko
