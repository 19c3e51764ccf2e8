import Logmoko.Ring.Laps

/-!
# slot の所有と満杯の判定

payload は原子的でない普通の memory なので、`sequence` の受け渡しだけが書き手と読み手を分ける。
不変量から、次の二つを読み出す。

* `slot_ownership_exclusive` — slot を書いている producer は高々一つで、
  consumer はそれを覗かず、consumer が持つ slot を producer は取らない
* `drop_only_when_full` — 0 が返るのは、最後に `sequence` を読んだ瞬間に
  ring が本当に満杯だったときに限る

どちらも巻き戻る語の上の性質で、判定がみな新しい `pos` に基づくことを要する（`FreshRun`）。
64 bit の cursor が一周する間 CAS の手前で止まっていた producer は、書き込み中の slot を
もう一度取り（`staleClaim_shares_slot`）、半周する間止まっていた producer は、
空の ring に対して 0 を返す（`staleRead_drops`）。
-/

namespace Logmoko

open Transition

variable {ι : Type}

/-! ## 所有 -/

section

variable {s : RingState ι}

theorem RingInv.writers_disjoint (h : RingInv s) {p p' : ι} {pos pos' : Nat}
    (hp : (s.producers p).writes = some pos) (hp' : (s.producers p').writes = some pos')
    (hne : p ≠ p') : s.mem.ring.index pos ≠ s.mem.ring.index pos' := by
  obtain ⟨h1, h2, _⟩ := h.writing hp
  obtain ⟨h1', h2', _⟩ := h.writing hp'
  have hhl := h.head_le
  refine h.index_ne (fun he => hne (h.unique p p' pos hp ?_)) ⟨h1, by omega⟩ ⟨h1', by omega⟩
  rw [he]
  exact hp'

/-- 公開された位置と書き込み中の位置は、別の slot にある。 -/
theorem RingInv.writer_ne_published (h : RingInv s) {p : ι} {pos q : Nat}
    (hp : (s.producers p).writes = some pos) (hq : s.mem.released ≤ q) (hlt : q < s.mem.ring.head)
    (hpub : s.mem.Published q) : s.mem.ring.index pos ≠ s.mem.ring.index q := by
  obtain ⟨h1, h2, h3⟩ := h.writing hp
  have hhl := h.head_le
  refine h.index_ne ?_ ⟨h1, by omega⟩ ⟨hq, by omega⟩
  intro he
  have := hpub.1
  rw [← he, h3] at this
  omega

/-- consumer が持つ slot を書いている producer はいない。 -/
theorem RingInv.writer_ne_held (h : RingInv s) (hc : s.consumer.Holds) {p : ι} {pos : Nat}
    (hp : (s.producers p).writes = some pos) :
    s.mem.ring.index pos ≠ s.mem.ring.index s.mem.ring.tail := by
  have ht := h.tail_eq
  have hok := h.consumer
  cases hs : s.consumer with
  | idle | released => rw [hs] at hc; exact hc.elim
  | peeked =>
    rw [hs] at ht hok
    exact h.writer_ne_published hp (Nat.le_of_eq ht.symm) hok.1 hok.2
  | processed req =>
    rw [hs] at ht hok
    exact h.writer_ne_published hp (Nat.le_of_eq ht.symm) hok.1 hok.2.1

/-- ready に見える slot を書いている producer はいない。 -/
theorem RingInv.writer_ne_ready (h : RingInv s)
    (hseq : (s.mem.ring.slotAt s.mem.ring.tail).sequence = s.mem.ring.tail + 1) {p : ι} {pos : Nat}
    (hp : (s.producers p).writes = some pos) :
    s.mem.ring.index pos ≠ s.mem.ring.index s.mem.ring.tail := by
  have ht := h.tail_eq
  have h2 := h.powerOfTwo.two_le
  cases hl : s.consumer.lag with
  | zero =>
    obtain ⟨hlt, hpub⟩ := h.published_of_ready hl hseq
    exact h.writer_ne_published hp (by omega) hlt hpub
  | succ n =>
    -- `tail` の slot は一周先に渡した後なので、`sequence` が `tail + 1` になることはない
    exfalso
    have hn : n = 0 := by cases hs : s.consumer <;> rw [hs] at hl <;> simp_all [RingConsumer.lag]
    have hslot : s.mem.ring.slotAt (s.mem.ring.tail + s.mem.ring.size)
        = s.mem.ring.slotAt s.mem.ring.tail := by
      unfold Ring.slotAt
      rw [h.powerOfTwo.index_add_size]
    have hle := h.le_sequence (q := s.mem.ring.tail + s.mem.ring.size) (by omega) (by omega)
    rw [hslot, hseq] at hle
    omega

end

variable [DecidableEq ι] {k : Nat} {s : RingState ι}

/-- producer の step が変える slot は、その producer が書いている slot だけである。 -/
theorem slots_producer_step {s s' : RingState ι} {p : ι} {b : Bool} {i : Nat}
    (hs : ringStep .unbounded s (.producer p b) = some s')
    (hi : ∀ pos, (s.producers p).writes = some pos → s.mem.ring.index pos ≠ i) :
    s'.mem.ring.slots i = s.mem.ring.slots i := by
  cases ringStep_move hs with
  | loadHead | seqReady | seqFull | seqAhead | casOk | casFail | ret => rfl
  | @write _ _ c pos stage hp hne =>
    exact Function.update_of_ne (hi pos (by rw [hp]; rfl)).symm _ _
  | @publish _ _ c pos hp =>
    exact Function.update_of_ne (hi pos (by rw [hp]; rfl)).symm _ _

theorem consumer_producer_step {s s' : RingState ι} {p : ι} {b : Bool}
    (hs : ringStep .unbounded s (.producer p b) = some s') :
    s'.consumer = s.consumer ∧ s'.mem.ring.tail = s.mem.ring.tail ∧
      s'.mem.ring.mask = s.mem.ring.mask := by
  cases ringStep_move hs <;> exact ⟨rfl, rfl, rfl⟩

/-- consumer が slot を持つ間の producer の step は、その slot を変えず、取りもしない。 -/
theorem RingInv.held_step (h : RingInv s) {s' : RingState ι} {p : ι} {b : Bool}
    (hc : s.consumer.Holds) (hs : ringStep .unbounded s (.producer p b) = some s') :
    s'.mem.ring.slots (s.mem.ring.index s.mem.ring.tail)
        = s.mem.ring.slots (s.mem.ring.index s.mem.ring.tail) ∧
      ∀ pos, (s'.producers p).writes = some pos →
        s.mem.ring.index pos ≠ s.mem.ring.index s.mem.ring.tail := by
  refine ⟨slots_producer_step hs fun pos hp => h.writer_ne_held hc hp, ?_⟩
  intro pos hp
  obtain ⟨hcons, htail, hmask⟩ := consumer_producer_step hs
  have hne := (ringInv_step h hs).writer_ne_held (by rw [hcons]; exact hc) hp
  simpa only [Ring.index, htail, hmask] using hne

omit [DecidableEq ι] in
/-- 語の上で書いている位置は、桁あふれのない位置の余りである。 -/
theorem exists_writes_of_wrap {w pos : Nat} {p : ι}
    (h : ((s.wrap w).producers p).writes = some pos) :
    ∃ q, (s.producers p).writes = some q ∧ pos = q % 2 ^ w := by
  cases hx : (s.wrap w).producers p with
  | idle =>
    rw [hx] at h
    cases h
  | inCall c pc =>
    rw [hx] at h
    obtain ⟨pc', hp, rfl⟩ := inCall_of_wrap hx
    rw [hp]
    cases pc' with
    | writing q stage => exact ⟨q, rfl, (Option.some.inj h).symm⟩
    | loadHead | loadSeq _ | cas _ | ret _ => cases h

/--
**slot の所有は排他的である。**

`w` bit の語の上の、判定がみな新しい `pos` に基づく実行のどの状態でも、

* 成功した CAS から release store までの間にいる二つの producer は、別の slot を持つ
* consumer の peek が返す slot を、書いている途中の producer はいない
* consumer が slot を持っている間、それを書いている producer はいない。
  新しい `pos` に基づくどの producer の step もその slot を変えず、
  step の後に producer が持つ slot もそれとは別である
-/
theorem slot_ownership_exclusive {w : Nat} (hk : 1 ≤ k) (hkw : k + 2 ≤ w)
    {as : List (RingAction ι)} (hfresh : FreshRun w k as)
    (hrun : run (ringStep (.machine w)) (ringInitial ι k) as = some s) :
    (∀ p p' pos pos', (s.producers p).writes = some pos → (s.producers p').writes = some pos' →
      p ≠ p' → s.mem.ring.index pos ≠ s.mem.ring.index pos') ∧
    (∀ i, lmkRingPeekSlot (.machine w) s.mem.ring = some i →
      ∀ p pos, (s.producers p).writes = some pos → s.mem.ring.index pos ≠ i) ∧
    (s.consumer.Holds →
      (∀ p pos, (s.producers p).writes = some pos →
        s.mem.ring.index pos ≠ s.mem.ring.index s.mem.ring.tail) ∧
      ∀ p b s', FreshRun w k (as ++ [.producer p b]) →
        ringStep (.machine w) s (.producer p b) = some s' →
        s'.mem.ring.slots (s.mem.ring.index s.mem.ring.tail)
          = s.mem.ring.slots (s.mem.ring.index s.mem.ring.tail) ∧
        ∀ pos, (s'.producers p).writes = some pos →
          s.mem.ring.index pos ≠ s.mem.ring.index s.mem.ring.tail) := by
  obtain ⟨u, hu, rfl, hinv, hsize⟩ := hfresh.exists_unwrapped hk hkw hrun
  have hidx : ∀ q, (u.wrap w).mem.ring.index (q % 2 ^ w) = u.mem.ring.index q :=
    index_wrap hinv.powerOfTwo hsize (by omega)
  have htail : (u.wrap w).mem.ring.tail = u.mem.ring.tail % 2 ^ w := rfl
  refine ⟨?_, ?_, ?_⟩
  · intro p p' pos pos' hp hp' hne
    obtain ⟨q, hq, rfl⟩ := exists_writes_of_wrap hp
    obtain ⟨q', hq', rfl⟩ := exists_writes_of_wrap hp'
    rw [hidx, hidx]
    exact hinv.writers_disjoint hq hq' hne
  · intro i hi p pos hp
    obtain ⟨q, hq, rfl⟩ := exists_writes_of_wrap hp
    have hpeek : lmkRingPeekSlot .unbounded u.mem.ring = some i :=
      (hinv.peek_wrap hsize hkw).symm.trans hi
    obtain ⟨hseq, rfl⟩ := (peek_eq_some_iff _ _).mp hpeek
    rw [hidx]
    exact hinv.writer_ne_ready hseq hq
  · intro hc
    rw [htail, hidx]
    refine ⟨?_, ?_⟩
    · intro p pos hp
      obtain ⟨q, hq, rfl⟩ := exists_writes_of_wrap hp
      rw [hidx]
      exact hinv.writer_ne_held hc hq
    · intro p b s' hnext hs'
      obtain ⟨v, hv, rfl⟩ := hnext.exists_step hk hkw hu hs'
      obtain ⟨hslot, hclaims⟩ := hinv.held_step hc hv
      refine ⟨?_, ?_⟩
      · exact congrArg
          (fun slot : RingSlot => { slot with sequence := slot.sequence % 2 ^ w }) hslot
      · intro pos hp
        obtain ⟨q, hq, rfl⟩ := exists_writes_of_wrap hp
        rw [hidx]
        exact hclaims q hq

/-- producer 0 の record を consumer が持っている間に、producer 1 が次の slot を書く。 -/
def heldRun : List (RingAction (Fin 2)) :=
  callAndRun ⟨0, Nat.two_pos⟩ 65 11 ++ [.peek] ++ callAndRun ⟨1, Nat.one_lt_two⟩ 66 5

theorem slot_ownership_exclusive_heldRun :
    ∃ s, run (ringStep (.machine 64)) (ringInitial (Fin 2) 1) heldRun = some s ∧
      s.consumer.Holds ∧ (s.producers 1).writes = some 1 ∧
      ∀ b s', FreshRun 64 1 (heldRun ++ [.producer 1 b]) →
        ringStep (.machine 64) s (.producer 1 b) = some s' →
        s'.mem.ring.slots (s.mem.ring.index s.mem.ring.tail)
          = s.mem.ring.slots (s.mem.ring.index s.mem.ring.tail) := by
  have hpc : (run (ringStep (.machine 64)) (ringInitial (Fin 2) 1) heldRun).map
      (fun s => (decide s.consumer.Holds, (s.producers 1).writes)) = some (true, some 1) := by
    decide +kernel
  obtain ⟨s, hs, hp⟩ := Option.map_eq_some_iff.mp hpc
  obtain ⟨hc, hw⟩ := Prod.mk.inj hp
  have hheld : s.consumer.Holds := of_decide_eq_true hc
  refine ⟨s, hs, hheld, hw, ?_⟩
  intro b s' hnext hs'
  exact (((slot_ownership_exclusive (by decide) (by decide) (by decide +kernel) hs).2.2 hheld).2 1
    b s' hnext hs').1

/--
producer 0 が CAS の手前で止まっている間に、producer 1 が `m` 回出し入れする。
その後に producer 2 が次の位置を、producer 1 がその次を取って書き始め、
最後に producer 0 の CAS が動く。
-/
def staleClaim (m : Nat) : List (RingAction (Fin 3)) :=
  callAndRun 0 64 2 ++ ((List.replicate m (lap 1 65)).flatten ++
    (callAndRun 2 66 3 ++ (callAndRun 1 67 3 ++ [.producer 0 false])))

/--
64 bit の cursor が一周する間止まっていた producer は、別の producer が書いている slot を取る。
大きさ 2 の ring で、位置 `2 ^ 64 - 2` と位置 0 は同じ slot である。
-/
theorem staleClaim_shares_slot :
    ∃ s, run (ringStep (.machine 64)) (ringInitial (Fin 3) 1) (staleClaim (2 ^ 64 - 2)) = some s ∧
      (s.producers 0).writes = some 0 ∧ (s.producers 2).writes = some (2 ^ 64 - 2) ∧
      s.mem.ring.index 0 = s.mem.ring.index (2 ^ 64 - 2) := by
  have hk : 1 ≤ 64 := by decide
  have hself := diff_machine_self 64
  have hinit := lapped_initial (ι := Fin 3) hk
  have hs₀ := hinit.ready hk (p := (0 : Fin 3)) rfl 64
  generalize (⟨_, sampleRecord 2 64, .empty⟩ : EnqueueCall) = c₀ at hs₀
  have hlap₀ := hinit.begin 0 c₀ (.cas 0)
  have hprod₀ : ((ringInitial (Fin 3) 1).begin 0 c₀ (.cas 0)).producers =
      Function.update (fun _ => .idle) 0 (.inCall c₀ (.cas 0)) := rfl
  -- producer 1 の出し入れの間、producer 0 は位置 0 の CAS の手前にいる
  obtain ⟨s₁, hs₁, hlap₁, hprod₁⟩ := hlap₀.laps hk (p := 1) (by rw [hprod₀]; rfl) 65 (2 ^ 64 - 2)
  have hhead₁ : s₁.mem.ring.head = 2 ^ 64 - 2 := hlap₁.head
  obtain ⟨s₂, c₂, hs₂, hring₂, hprod₂⟩ := run_claim hself (p := 2)
    (by rw [hprod₁, hprod₀]; rfl) (hlap₁.sequence_head hk) 66
  have hhead₂ : s₂.mem.ring.head = 2 ^ 64 - 1 := by
    rw [hring₂, hhead₁]
    rfl
  have hseq₂ : (s₂.mem.ring.slotAt s₂.mem.ring.head).sequence = s₂.mem.ring.head := by
    have hidx : s₁.mem.ring.index (2 ^ 64 - 1) = 1 := hlap₁.index hk (2 ^ 64 - 1)
    have hslot : (s₁.mem.ring.slots 1).sequence = 2 ^ 64 - 1 :=
      hlap₁.sequence (2 ^ 64 - 1) (by decide) (by decide)
    rw [hhead₂, hring₂]
    show (s₁.mem.ring.slots (s₁.mem.ring.index (2 ^ 64 - 1))).sequence = _
    rw [hidx, hslot]
  obtain ⟨s₃, c₁, hs₃, hring₃, hprod₃⟩ := run_claim hself (p := 1)
    (by rw [hprod₂, hprod₁, hprod₀]; rfl) hseq₂ 67
  have hhead₃ : s₃.mem.ring.head = 0 := by
    rw [hring₃, hhead₂]
    rfl
  have hstale : s₃.producers 0 = .inCall c₀ (.cas 0) := by
    rw [hprod₃, hprod₂, hprod₁, hprod₀]
    rfl
  have hmask : s₃.mem.ring.mask = 1 := by
    have := hlap₁.size
    unfold Ring.size at this
    rw [hring₃, hring₂]
    show s₁.mem.ring.mask = 1
    omega
  obtain ⟨s, hs, hmask', hp₀, hp₂⟩ : ∃ s, ringStep (.machine 64) s₃ (.producer 0 false) = some s ∧
      s.mem.ring.mask = 1 ∧ s.producers 0 = .inCall c₀ (.writing 0 .level) ∧
      s.producers 2 = s₃.producers 2 := by
    simp [ringStep, hstale, enqueueStep, hhead₃, hmask]
  refine ⟨s, ?_, by rw [hp₀]; rfl, ?_, ?_⟩
  · unfold staleClaim
    exact run_append_eq_some.mpr ⟨_, hs₀, run_append_eq_some.mpr ⟨s₁, hs₁,
      run_append_eq_some.mpr ⟨s₂, hs₂, run_append_eq_some.mpr ⟨s₃, hs₃, run_singleton.trans hs⟩⟩⟩⟩
  · rw [hp₂, hprod₃, hprod₂, hhead₁]
    rfl
  · unfold Ring.index
    rw [hmask']
    rfl

/-! ## 満杯の判定 -/

/-- 動作をする producer。 -/
def RingAction.actor : RingAction ι → Option ι
  | .call p _ _ | .producer p _ => some p
  | _ => none

/-- claim されて、まだ手放されていない位置の個数。 -/
def Shared.outstanding (m : Shared) : Nat := m.hist.claims.length - m.hist.consumed.length

/-- 別の thread の step は producer `p` の位置を変えない。 -/
theorem producers_of_actor_ne {s s' : RingState ι} {a : RingAction ι} {p : ι}
    (hs : ringStep .unbounded s a = some s') (ha : a.actor ≠ some p) :
    s'.producers p = s.producers p := by
  have hne : ∀ q, RingAction.actor a = some q → p ≠ q := fun q hq he => ha (he ▸ hq)
  cases ringStep_move hs with
  | @call q _ _ _ | @loadHead q _ _ _ | @seqReady q _ _ _ _ _ | @seqFull q _ _ _ _ _
  | @seqAhead q _ _ _ _ _ | @casOk q _ _ | @casFail q _ _ _ _ | @write q _ _ _ _ _ _
  | @publish q _ _ _ _ | @ret q _ _ _ _ => exact Function.update_of_ne (hne q rfl) _ _
  | peekReady | peekEmpty | process | release | advance => rfl

/-- 0 を返す位置に入る step は、満杯を読んだ load だけである。 -/
theorem ret_false_of_actor {s s' : RingState ι} {a : RingAction ι} {p : ι} {c : EnqueueCall}
    (hs : ringStep .unbounded s a = some s') (ha : a.actor = some p)
    (hp : s'.producers p = .inCall c (.ret false)) :
    ∃ b pos, a = .producer p b ∧ s.producers p = .inCall c (.loadSeq pos) ∧
      (s.mem.ring.slotAt pos).sequence < pos := by
  cases ringStep_move hs with
  | peekReady | peekEmpty | process | release | advance => cases ha
  | @seqFull q b c' pos hq hseq =>
    obtain rfl : q = p := Option.some.inj ha
    obtain ⟨rfl, _⟩ := Producer.inCall.inj ((Function.update_self q _ _).symm.trans hp)
    exact ⟨b, pos, rfl, hq, hseq⟩
  | call hq | loadHead hq | seqReady hq hseq | seqAhead hq hseq | casOk hq | casFail hq
  | write hq hne | publish hq | ret hq =>
    obtain rfl := Option.some.inj ha
    have he := (Function.update_self _ _ _).symm.trans hp
    simp at he

omit [DecidableEq ι] in
theorem RingInv.outstanding_eq {s : RingState ι} (h : RingInv s) :
    s.mem.outstanding = s.mem.ring.head - s.mem.released := by
  rw [h.head_eq]
  rfl

/-- 0 を返す位置にいる呼び出しについて、最後の load まで実行を巻き戻す。 -/
theorem exists_full_load (hk : 1 ≤ k) {as : List (RingAction ι)} {s : RingState ι} {p : ι}
    {c : EnqueueCall} (hrun : run (ringStep .unbounded) (ringInitial ι k) as = some s)
    (hp : s.producers p = .inCall c (.ret false)) :
    ∃ before after u b pos, as = before ++ .producer p b :: after ∧
      (∀ a ∈ after, a.actor ≠ some p) ∧
      run (ringStep .unbounded) (ringInitial ι k) before = some u ∧
      u.producers p = .inCall c (.loadSeq pos) ∧
      u.mem.ring.head = pos ∧ u.mem.outstanding = 2 ^ k := by
  induction as using List.reverseRecOn generalizing s with
  | nil =>
    obtain rfl : ringInitial ι k = s := Option.some.inj hrun
    cases hp
  | append_singleton as a ih =>
    obtain ⟨u, hu, hs⟩ := run_snoc_eq_some.mp hrun
    -- 最後の step が `p` のものなら、それが求める load である
    by_cases ha : a.actor = some p
    · obtain ⟨b, pos, rfl, hup, hseq⟩ := ret_false_of_actor hs ha hp
      have hinv := ringInv_reachable hk ⟨as, hu⟩
      have hle : u.mem.ProducerOk (.inCall c (.loadSeq pos)) := hup ▸ hinv.producer p
      obtain ⟨hhead, hfull⟩ := hinv.full_of_sequence_lt hle hseq
      refine ⟨as, [], u, b, pos, rfl, by simp, hu, hup, hhead, ?_⟩
      rw [hinv.outstanding_eq, hfull, Nat.add_sub_cancel_left, size_reachable ⟨as, hu⟩]
    · -- 別の thread の step なら `p` は前からそこにいたので、帰納法の仮定に渡す
      have hup : u.producers p = .inCall c (.ret false) := by
        rw [← producers_of_actor_ne hs ha]
        exact hp
      obtain ⟨before, after, v, b, pos, has, hafter, hrest⟩ := ih hu hup
      refine ⟨before, after ++ [a], v, b, pos, by rw [has]; simp, ?_, hrest⟩
      intro a' ha'
      rcases List.mem_append.mp ha' with hm | hm
      · exact hafter a' hm
      · rw [List.mem_singleton.mp hm]
        exact ha

/--
**0 が返るのは ring が満杯のときだけである。**

`w` bit の語の上の、判定がみな新しい `pos` に基づく実行のどの状態でも、
claim されて手放されていない位置は `2 ^ k` 個以下である。
ある呼び出しが 0 を返すところまで来たなら、その呼び出しの最後の step
（slot の `sequence` の load）の瞬間に `head` は使った `pos` に等しく、
ちょうど `2 ^ k` 個の位置が手放されずに残っていた。
-/
theorem drop_only_when_full {w : Nat} (hk : 1 ≤ k) (hkw : k + 2 ≤ w) {as : List (RingAction ι)}
    (hfresh : FreshRun w k as)
    (hrun : run (ringStep (.machine w)) (ringInitial ι k) as = some s) :
    s.mem.outstanding ≤ 2 ^ k ∧
    ∀ p c, s.producers p = .inCall c (.ret false) →
      ∃ before after u b pos, as = before ++ .producer p b :: after ∧
        (∀ a ∈ after, a.actor ≠ some p) ∧
        run (ringStep (.machine w)) (ringInitial ι k) before = some u ∧
        u.producers p = .inCall c (.loadSeq pos) ∧
        u.mem.ring.head = pos ∧ u.mem.outstanding = 2 ^ k := by
  obtain ⟨u, hu, rfl, hinv, hsize⟩ := hfresh.exists_unwrapped hk hkw hrun
  constructor
  · show u.mem.outstanding ≤ 2 ^ k
    have := hinv.head_le
    rw [hinv.outstanding_eq]
    omega
  · intro p c hp
    obtain ⟨pc, hp, hpc⟩ := inCall_of_wrap hp
    obtain rfl : pc = .ret false := by cases pc <;> cases hpc; rfl
    obtain ⟨before, after, v, b, pos, has, hafter, hv, hpos, hhead, hfull⟩ :=
      exists_full_load hk hu hp
    rw [has] at hfresh
    have hbefore := (FreshRun.lockstep hk hkw (along_of_append hfresh)).1
    rw [hv] at hbefore
    refine ⟨before, after, v.wrap w, b, pos % 2 ^ w, has, hafter, hbefore, ?_, ?_, hfull⟩
    · show (v.producers p).wrap w = _
      rw [hpos]
      rfl
    · show v.mem.ring.head % 2 ^ w = _
      rw [hhead]

/-- 大きさ 2 の ring に二回入れた後、三回目の呼び出しが満杯を読むところまで進める。 -/
def overflowRun : List (RingAction Unit) :=
  callAndRun () 65 11 ++ callAndRun () 66 11 ++ callAndRun () 67 2

theorem drop_only_when_full_overflowRun :
    ∃ s c, run (ringStep (.machine 64)) (ringInitial Unit 1) overflowRun = some s ∧
      s.producers () = .inCall c (.ret false) ∧
      ∃ before after u b pos, overflowRun = before ++ .producer () b :: after ∧
        (∀ a ∈ after, a.actor ≠ some ()) ∧
        run (ringStep (.machine 64)) (ringInitial Unit 1) before = some u ∧
        u.producers () = .inCall c (.loadSeq pos) ∧
        u.mem.ring.head = pos ∧ u.mem.outstanding = 2 ^ 1 := by
  have hpc : (run (ringStep (.machine 64)) (ringInitial Unit 1) overflowRun).map
      (fun s => s.producers ()) = some (.inCall ⟨2, sampleRecord 2 67, .empty⟩ (.ret false)) := rfl
  obtain ⟨s, hs, hp⟩ := Option.map_eq_some_iff.mp hpc
  exact ⟨s, _, hs, hp,
    (drop_only_when_full (by decide) (by decide) (by decide +kernel) hs).2 () _ hp⟩

/-- 呼び出した producer が `head` を読んで止まっている間に、もう一つの producer が `m` 回出し入れする。 -/
def staleRead (m : Nat) : List (RingAction Bool) :=
  callAndRun false 64 1 ++ (List.replicate m (lap true 65)).flatten

/-- 止まっていた producer が持つのは位置 0 のままで、ring は空である。 -/
theorem run_staleRead (m : Nat) :
    ∃ s c, run (ringStep (.machine 64)) (ringInitial Bool 1) (staleRead m) = some s ∧
      Lapped 64 1 m s ∧ s.producers false = .inCall c (.loadSeq 0) := by
  have hinit := lapped_initial (ι := Bool) (w := 64) (k := 1) (by decide)
  have hs₀ := hinit.read (p := false) rfl 64
  generalize (⟨_, sampleRecord 2 64, .empty⟩ : EnqueueCall) = c at hs₀
  obtain ⟨s, hs, hlap, hprod⟩ := (hinit.begin false c (.loadSeq 0)).laps (by decide)
    (p := true) rfl 65 m
  rw [Nat.zero_add] at hlap
  exact ⟨s, c, run_append_eq_some.mpr ⟨_, hs₀, hs⟩, hlap, by rw [hprod]; rfl⟩

/-- 半周だけ古い `pos` では、空いている slot との差が負になる。 -/
theorem Lapped.step_staleRead {s : RingState Bool} {c : EnqueueCall}
    (h : Lapped 64 1 (2 ^ 63) s) (hp : s.producers false = .inCall c (.loadSeq 0)) :
    ∃ t, ringStep (.machine 64) s (.producer false false) = some t ∧
      t.producers false = .inCall c (.ret false) := by
  have hseq : (s.mem.ring.slotAt 0).sequence = 2 ^ 63 := by
    have hidx : s.mem.ring.index 0 = 0 := h.index (by decide) 0
    unfold Ring.slotAt
    rw [hidx]
    exact h.sequence (2 ^ 63) le_rfl (by decide)
  have hdiff : (CursorArith.machine 64).diff (2 ^ 63) 0 < 0 := by decide
  have hne : (CursorArith.machine 64).diff (2 ^ 63) 0 ≠ 0 := Int.ne_of_lt hdiff
  refine ⟨s.setProducer false (.inCall c (.ret false)), ?_, rfl⟩
  simp only [ringStep, hp, enqueueStep, hseq, if_neg hne, if_pos hdiff]
  rfl

/--
64 bit の cursor が半周する間止まっていた producer は、空の ring に対して 0 を返す。
最後に `sequence` を読む瞬間の `head` は、使った `pos` の 0 ではなく `2 ^ 63` である。
-/
theorem staleRead_drops :
    ∃ s t c, run (ringStep (.machine 64)) (ringInitial Bool 1) (staleRead (2 ^ 63)) = some s ∧
      s.producers false = .inCall c (.loadSeq 0) ∧
      s.mem.ring.head = 2 ^ 63 ∧ s.mem.outstanding = 0 ∧
      ringStep (.machine 64) s (.producer false false) = some t ∧
      t.producers false = .inCall c (.ret false) := by
  obtain ⟨s, c, hs, hlap, hp⟩ := run_staleRead (2 ^ 63)
  obtain ⟨t, ht, hret⟩ := hlap.step_staleRead hp
  refine ⟨s, t, c, hs, hp, hlap.head, ?_, ht, hret⟩
  unfold Shared.outstanding
  rw [hlap.released, Nat.sub_self]

end Logmoko
