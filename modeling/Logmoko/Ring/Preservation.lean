import Logmoko.Ring.Invariant

/-!
# 不変量の保存

`RingMove` の場合ごとに `RingInv` が保たれることを示す。
書き込みに関わらない producer の step は `RingInv.setProducer` がまとめて扱うので、
残るのは CAS の成功、payload の書き込み、公開、それに consumer の四つの step である。

書き込みの step では「窓の中の別の位置は別の slot にある」（`RingInv.index_ne`）が、
手放す step では「一周先の位置は同じ slot にある」（`index_add_size`）が効く。
-/

namespace Logmoko

open Transition

/-! ## slot の `sequence` が取りうる値 -/

section

variable {ι : Type} {s : RingState ι}

/-- claim された位置の `sequence` は、書き込み中なら `q`、公開されていれば `q + 1` である。 -/
theorem RingInv.sequence_taken (h : RingInv s) {q : Nat} (hq : s.mem.released ≤ q)
    (hlt : q < s.mem.ring.head) :
    (s.mem.ring.slotAt q).sequence = q ∨ (s.mem.ring.slotAt q).sequence = q + 1 := by
  rcases h.taken q hq hlt with ⟨p, hp⟩ | hp
  · exact Or.inl (h.writing hp).2.2
  · exact Or.inr hp.1

/-- 窓の中の位置の `sequence` は、その位置より小さくならない。 -/
theorem RingInv.le_sequence (h : RingInv s) {q : Nat} (hq : s.mem.released ≤ q)
    (hlt : q < s.mem.released + s.mem.ring.size) : q ≤ (s.mem.ring.slotAt q).sequence := by
  by_cases hh : q < s.mem.ring.head
  · rcases h.sequence_taken hq hh with he | he <;> omega
  · exact Nat.le_of_eq (h.free q (by omega) hlt).symm

/-- どの位置の slot も、窓の中のちょうど一つの位置の slot である。 -/
theorem Ring.PowerOfTwo.exists_window {r : Ring} (h : r.PowerOfTwo) (a pos : Nat) :
    ∃ q, a ≤ q ∧ q < a + r.size ∧ r.index q = r.index pos := by
  have hpos : 0 < r.size := Nat.lt_of_lt_of_le (by decide) h.two_le
  have hmod : a % r.size < r.size := Nat.mod_lt a hpos
  refine ⟨a + (pos + (r.size - a % r.size)) % r.size, by omega,
    Nat.add_lt_add_left (Nat.mod_lt _ hpos) a, ?_⟩
  rw [h.index_eq, h.index_eq, Nat.add_mod_mod]
  have hsum : a + (pos + (r.size - a % r.size)) = pos + r.size * (a / r.size + 1) := by
    have hdiv := Nat.div_add_mod a r.size
    rw [Nat.mul_add, Nat.mul_one]
    omega
  rw [hsum, Nat.add_mul_mod_self_left]

/-- 読んだ `sequence` が `pos` に等しければ、`pos` は窓の中にある。 -/
theorem RingInv.room_of_sequence_eq (h : RingInv s) {pos : Nat} (hpos : pos ≤ s.mem.ring.head)
    (hseq : (s.mem.ring.slotAt pos).sequence = pos) :
    pos < s.mem.released + s.mem.ring.size := by
  by_contra hge
  have h2 := h.powerOfTwo.two_le
  have hhl := h.head_le
  -- `pos` は一周前の位置 `R` と同じ slot にあり、その `sequence` は `R + 1` 以下である
  have hp : pos = s.mem.released + s.mem.ring.size := by omega
  have hslot : s.mem.ring.slotAt pos = s.mem.ring.slotAt s.mem.released := by
    unfold Ring.slotAt
    rw [hp, h.powerOfTwo.index_add_size]
  rw [hslot] at hseq
  rcases h.sequence_taken (Nat.le_refl _) (by omega) with he | he <;> omega

/-- 読んだ `sequence` が `pos` より小さければ、`pos` は今の `head` で、ring は満杯である。 -/
theorem RingInv.full_of_sequence_lt (h : RingInv s) {pos : Nat} (hpos : pos ≤ s.mem.ring.head)
    (hseq : (s.mem.ring.slotAt pos).sequence < pos) :
    s.mem.ring.head = pos ∧ s.mem.ring.head = s.mem.released + s.mem.ring.size := by
  have hhl := h.head_le
  suffices hge : s.mem.released + s.mem.ring.size ≤ pos by omega
  by_contra hlt
  -- 同じ slot の窓の中の位置 `q` は `pos` 以上なので、`sequence` が `pos` を下回れない
  obtain ⟨q, hq1, hq2, hi⟩ := h.powerOfTwo.exists_window s.mem.released pos
  have hslot : s.mem.ring.slotAt q = s.mem.ring.slotAt pos := by
    unfold Ring.slotAt
    rw [hi]
  have hle := h.le_sequence hq1 hq2
  rw [hslot] at hle
  by_cases hr : s.mem.released ≤ pos
  · have := h.le_sequence hr (by omega)
    omega
  · omega

end

/-! ## 条件の移し替え -/

theorem getElem?_append_of_some {α : Type} {l l' : List α} {i : Nat} {a : α}
    (h : l[i]? = some a) : (l ++ l')[i]? = some a := by
  obtain ⟨hi, _⟩ := List.getElem?_eq_some_iff.mp h
  rw [List.getElem?_append_left hi, h]

section

variable {m : Shared} {c : EnqueueCall}

theorem Shared.Published.claim {q : Nat} (h : m.Published q) : (m.claim c).Published q := by
  obtain ⟨hseq, c', hc', hcar⟩ := h
  exact ⟨hseq, c', getElem?_append_of_some hc', hcar⟩

theorem Shared.ProducerOk.claim {x : Producer} (h : m.ProducerOk x) : (m.claim c).ProducerOk x := by
  cases x with
  | idle => trivial
  | inCall c' pc =>
    cases pc with
    | loadHead | ret _ => trivial
    | loadSeq pos => exact Nat.le_succ_of_le h
    | cas pos => exact ⟨Nat.le_succ_of_le h.1, h.2⟩
    | writing pos stage =>
      obtain ⟨h1, h2, h3, h4, h5⟩ := h
      exact ⟨h1, Nat.lt_succ_of_lt h2, h3, getElem?_append_of_some h4, h5⟩

theorem Shared.ConsumerOk.claim {x : RingConsumer} (h : m.ConsumerOk x) :
    (m.claim c).ConsumerOk x := by
  cases x with
  | idle | released => trivial
  | peeked => exact ⟨Nat.lt_succ_of_lt h.1, h.2.claim⟩
  | processed req =>
    obtain ⟨h1, h2, c', hc', hcar⟩ := h
    exact ⟨Nat.lt_succ_of_lt h1, h2.claim, c', getElem?_append_of_some hc', hcar⟩

end

/-- consumer の条件は、持っている slot が公開されたままなら保たれる。 -/
theorem Shared.ConsumerOk.of_published {m m' : Shared} {x : RingConsumer} (h : m.ConsumerOk x)
    (htail : m'.ring.tail = m.ring.tail) (hhead : m'.ring.head = m.ring.head)
    (hhist : m'.hist = m.hist)
    (hpub : x.lag = 0 → m.ring.tail < m.ring.head → m.Published m.ring.tail →
      m'.Published m.ring.tail) : m'.ConsumerOk x := by
  cases x with
  | idle | released => trivial
  | peeked =>
    simp only [Shared.ConsumerOk, htail, hhead] at *
    exact ⟨h.1, hpub rfl h.1 h.2⟩
  | processed req =>
    simp only [Shared.ConsumerOk, htail, hhead, hhist] at *
    exact ⟨h.1, hpub rfl h.1 h.2.1, h.2.2⟩

/-- producer の条件は、その producer が書いている slot が変わらなければ保たれる。 -/
theorem Shared.ProducerOk.of_slot {m m' : Shared} {x : Producer} (h : m.ProducerOk x)
    (hhead : m'.ring.head = m.ring.head) (hmask : m'.ring.mask = m.ring.mask)
    (hhist : m'.hist = m.hist)
    (hslot : ∀ q, x.writes = some q → m'.ring.slotAt q = m.ring.slotAt q) : m'.ProducerOk x := by
  cases x with
  | idle => trivial
  | inCall c pc =>
    cases pc with
    | loadHead | ret _ => trivial
    | loadSeq pos => simpa only [Shared.ProducerOk, hhead] using h
    | cas pos =>
      simpa only [Shared.ProducerOk, Shared.released, Ring.size, hhead, hmask, hhist] using h
    | writing pos stage =>
      simpa only [Shared.ProducerOk, Shared.released, hhead, hhist, hslot pos rfl] using h

variable {ι : Type} {s : RingState ι}

/-! ## consumer の step -/

/-- `tail` の slot が ready なら、その位置は claim されていて公開されている。 -/
theorem RingInv.published_of_ready (h : RingInv s) (hl : s.consumer.lag = 0)
    (hseq : (s.mem.ring.slotAt s.mem.ring.tail).sequence = s.mem.ring.tail + 1) :
    s.mem.ring.tail < s.mem.ring.head ∧ s.mem.Published s.mem.ring.tail := by
  have ht : s.mem.ring.tail = s.mem.released := by have := h.tail_eq; omega
  have h2 := h.powerOfTwo.two_le
  have hrel := h.released_le
  have hlt : s.mem.ring.tail < s.mem.ring.head := by
    by_contra hge
    have hfree := h.free s.mem.ring.tail (by omega) (by omega)
    omega
  refine ⟨hlt, ?_⟩
  rcases h.taken s.mem.ring.tail (by omega) hlt with ⟨p, hp⟩ | hp
  · exact absurd (h.writing hp).2.2 (by omega)
  · exact hp

/-- consumer の位置だけを変える step。 -/
theorem RingInv.setConsumer (h : RingInv s) {x : RingConsumer} (hlag : x.lag = s.consumer.lag)
    (hok : s.mem.ConsumerOk x) : RingInv { s with consumer := x } :=
  { h with
    tail_eq := by rw [hlag]; exact h.tail_eq
    consumer := hok }

theorem take_succ_of_getElem? {α : Type} {l : List α} {n : Nat} {a : α} (h : l[n]? = some a) :
    l.take (n + 1) = l.take n ++ [a] := by
  rw [List.take_add_one, h]
  rfl

/--
手放す step。位置 `tail` が窓から出て、一周先の位置が同じ slot に入ってくる。
-/
theorem RingInv.release (h : RingInv s) {req : LogRequest} (hc : s.consumer = .processed req) :
    RingInv { s with mem := s.mem.release req, consumer := .released } := by
  have hok := h.consumer
  rw [hc] at hok
  obtain ⟨hth, ⟨hseq, _⟩, c, hclaim, hcar⟩ := hok
  have ht : s.mem.ring.tail = s.mem.released := by
    have := h.tail_eq
    rw [hc] at this
    exact this
  have h2 := h.powerOfTwo.two_le
  have hhl := h.head_le
  have hrel : (s.mem.release req).released = s.mem.released + 1 := by
    simp [Shared.released, Shared.release, History.consume]
  have hslot : ∀ q, s.mem.released ≤ q → q < s.mem.released + s.mem.ring.size →
      q ≠ s.mem.ring.tail → (s.mem.release req).ring.slotAt q = s.mem.ring.slotAt q := by
    intro q h1 h2 hne
    show (s.mem.ring.setSequence _ _).slotAt q = _
    rw [Ring.slotAt_setSequence, if_neg (h.index_ne hne ⟨h1, h2⟩ ⟨by omega, by omega⟩)]
  refine ⟨h.powerOfTwo, h.head_eq, ?_, ?_, ?_, ?_, ?_, ?_, h.unique, trivial, ?_⟩
  · rw [hrel, ← ht]
    rfl
  · rw [hrel, ← ht]
    exact hth
  · rw [hrel]
    show s.mem.ring.head ≤ s.mem.released + 1 + s.mem.ring.size
    omega
  · intro q hq hlt
    rw [hrel] at hlt
    have hq : s.mem.ring.head ≤ q := hq
    have hlt : q < s.mem.released + 1 + s.mem.ring.size := hlt
    -- 窓に入ってくるのは一周先の位置だけで、release store がその slot に一周先の値を書いている
    by_cases hlast : q = s.mem.ring.tail + s.mem.ring.size
    · have hi : s.mem.ring.index q = s.mem.ring.index s.mem.ring.tail := by
        rw [hlast, h.powerOfTwo.index_add_size]
      show ((s.mem.ring.setSequence _ _).slotAt q).sequence = q
      rw [Ring.slotAt_setSequence, if_pos hi, hlast]
      rfl
    · rw [hslot q (by omega) (by omega) (by omega)]
      exact h.free q hq (by omega)
  · intro q hq hlt
    rw [hrel] at hq
    have hlt : q < s.mem.ring.head := hlt
    rcases h.taken q (by omega) hlt with hp | ⟨hs, c', hc', hcar'⟩
    · exact Or.inl hp
    · have hs' := hslot q (by omega) (by omega) (by omega)
      exact Or.inr ⟨by rw [hs']; exact hs, c', hc', by rw [hs']; exact hcar'⟩
  · intro p
    have hp := h.producer p
    cases hs : s.producers p with
    | idle => trivial
    | inCall c' pc =>
      rw [hs] at hp
      cases pc with
      | loadHead | ret _ => trivial
      | loadSeq pos => exact hp
      | cas pos =>
        obtain ⟨hp1, hp2⟩ := hp
        refine ⟨hp1, ?_⟩
        rw [hrel]
        show pos < s.mem.released + 1 + s.mem.ring.size
        omega
      | writing pos stage =>
        obtain ⟨hp1, hp2, hp3, hp4, hp5⟩ := hp
        -- 手放した slot は公開済みだったので、書き込み中の slot とは別である
        have hne : pos ≠ s.mem.ring.tail := fun he => by rw [he] at hp3; omega
        have hs' := hslot pos hp1 (by omega) hne
        exact ⟨by rw [hrel]; omega, hp2, by rw [hs']; exact hp3, hp4, by rw [hs']; exact hp5⟩
  · rw [hrel]
    show List.Forall₂ Carries (s.mem.hist.consumed ++ [req])
      (s.mem.hist.claims.take (s.mem.released + 1))
    rw [take_succ_of_getElem? (by rw [← ht]; exact hclaim)]
    exact List.rel_append h.delivered (List.Forall₂.cons hcar List.Forall₂.nil)

theorem RingInv.advance (h : RingInv s) (hc : s.consumer = .released) :
    RingInv { s with
      mem := { s.mem with ring := { s.mem.ring with tail := s.mem.ring.tail + 1 } }
      consumer := .idle } := by
  have ht := h.tail_eq
  rw [hc] at ht
  exact { h with
    tail_eq := ht
    consumer := trivial
    producer := fun p => (h.producer p).of_slot rfl rfl rfl fun _ _ => rfl }

variable [DecidableEq ι]

/-! ## CAS の成功 -/

/-- 書き込み中の producer の一覧は、`p` が位置 `q` に入るとき `p` の分だけ変わる。 -/
theorem writes_update_some {f : ι → Producer} {p p' : ι} {x : Producer} {q q' : Nat}
    (hx : x.writes = some q) (h : (Function.update f p x p').writes = some q') :
    (p' = p ∧ q' = q) ∨ (p' ≠ p ∧ (f p').writes = some q') := by
  by_cases hp : p' = p
  · subst hp
    rw [Function.update_self, hx] at h
    exact Or.inl ⟨rfl, (Option.some.inj h).symm⟩
  · rw [Function.update_of_ne hp] at h
    exact Or.inr ⟨hp, h⟩

/-- 成功した CAS は空いた slot を取る。`head` は `R + size` に届いていないからである。 -/
theorem RingInv.casOk (h : RingInv s) {p : ι} {c : EnqueueCall}
    (hp : s.producers p = .inCall c (.cas s.mem.ring.head)) :
    RingInv { s with
      mem := s.mem.claim c
      producers := Function.update s.producers p
        (.inCall c (.writing s.mem.ring.head .level)) } := by
  have hroom : s.mem.ring.head < s.mem.released + s.mem.ring.size := by
    have := h.producer p
    rw [hp] at this
    exact this.2
  have hnone : (s.producers p).writes = none := by rw [hp]; rfl
  have hrel := h.released_le
  refine ⟨h.powerOfTwo, ?_, h.tail_eq, Nat.le_succ_of_le hrel, hroom, ?_, ?_, ?_, ?_,
    h.consumer.claim, ?_⟩
  · show s.mem.ring.head + 1 = (s.mem.hist.claims ++ [c]).length
    rw [List.length_append, h.head_eq]
    rfl
  · exact fun q hq hlt => h.free q (Nat.le_of_succ_le hq) hlt
  · -- 新しい位置は `p` 自身が書いていて、前からの位置の書き手は `p` ではない
    intro q hq hlt
    rcases Nat.lt_succ_iff_lt_or_eq.mp hlt with hlt | rfl
    · rcases h.taken q hq hlt with ⟨p', hp'⟩ | hp'
      · have hne : p' ≠ p := fun he => by rw [he, hnone] at hp'; simp at hp'
        exact Or.inl ⟨p', by simpa only [Function.update_of_ne hne] using hp'⟩
      · exact Or.inr hp'.claim
    · exact Or.inl ⟨p, by simp [Producer.writes]⟩
  · intro p'
    by_cases he : p' = p
    · subst he
      simp only [Function.update_self]
      refine ⟨hrel, Nat.lt_succ_self _, h.free _ (Nat.le_refl _) hroom, ?_, trivial⟩
      simp [Shared.claim, h.head_eq]
    · simp only [Function.update_of_ne he]
      exact (h.producer p').claim
  · -- 新しい位置は `head` なので、前から書いている producer とは重ならない
    intro p₁ p₂ q h₁ h₂
    rcases writes_update_some rfl h₁ with ⟨e₁, q₁⟩ | ⟨_, w₁⟩ <;>
      rcases writes_update_some rfl h₂ with ⟨e₂, q₂⟩ | ⟨_, w₂⟩
    · rw [e₁, e₂]
    · exact absurd (h.writing w₂).2.1 (by omega)
    · exact absurd (h.writing w₁).2.1 (by omega)
    · exact h.unique p₁ p₂ q w₁ w₂
  · -- claim の列は後ろに伸びるだけで、手放した分の接頭辞は動かない
    have hle : s.mem.released ≤ s.mem.hist.claims.length := by rw [← h.head_eq]; exact hrel
    show List.Forall₂ Carries s.mem.hist.consumed
      ((s.mem.hist.claims ++ [c]).take s.mem.released)
    rw [List.take_append_of_le_length hle]
    exact h.delivered

/-! ## payload の書き込みと公開 -/

/--
位置 `pos` を持つ producer が、その slot だけを変える step。

書き込みを続けるか（`x.writes = some pos`）、公開して手を離すかのどちらかである。
公開された位置の `sequence` は一つ先なので、`pos` が公開済みの位置と重なることはない。
-/
theorem RingInv.ownSlot (h : RingInv s) {p : ι} {pos : Nat} {r : Ring} {x : Producer}
    (hpw : (s.producers p).writes = some pos)
    (hhead : r.head = s.mem.ring.head) (htail : r.tail = s.mem.ring.tail)
    (hmask : r.mask = s.mem.ring.mask)
    (hframe : ∀ q, s.mem.ring.index q ≠ s.mem.ring.index pos → r.slotAt q = s.mem.ring.slotAt q)
    (hx : x.writes = some pos ∨
      x.writes = none ∧ Shared.Published { s.mem with ring := r } pos)
    (hok : Shared.ProducerOk { s.mem with ring := r } x) :
    RingInv { s with mem := { s.mem with ring := r }
                     producers := Function.update s.producers p x } := by
  obtain ⟨hlo, hlt, hseq⟩ := h.writing hpw
  have hhl := h.head_le
  have hsize : r.size = s.mem.ring.size := by simp only [Ring.size, hmask]
  have hslot : ∀ q, s.mem.released ≤ q → q < s.mem.released + s.mem.ring.size → q ≠ pos →
      r.slotAt q = s.mem.ring.slotAt q := fun q h1 h2 hne =>
    hframe q (h.index_ne hne ⟨h1, h2⟩ ⟨hlo, by omega⟩)
  have hpub : ∀ q, s.mem.released ≤ q → q < s.mem.ring.head → s.mem.Published q →
      Shared.Published { s.mem with ring := r } q := by
    intro q h1 h2 hq
    have hne : q ≠ pos := fun he => by rw [he, Shared.Published, hseq] at hq; omega
    simpa only [Shared.Published, hslot q h1 (by omega) hne] using hq
  refine ⟨?_, hhead.trans h.head_eq, ?_, ?_, ?_, ?_, ?_, ?_, ?_, ?_, h.delivered⟩
  · obtain ⟨k, hk, hm⟩ := h.powerOfTwo
    exact ⟨k, hk, by rw [← hm, hmask]⟩
  · show r.tail + _ = _
    rw [htail]
    exact h.tail_eq
  · show _ ≤ r.head
    rw [hhead]
    exact h.released_le
  · show r.head ≤ _ + r.size
    rw [hhead, hsize]
    exact h.head_le
  · intro q hq hqr
    have hq : s.mem.ring.head ≤ q := hhead ▸ hq
    have hqr : q < s.mem.released + s.mem.ring.size := hsize ▸ hqr
    show (r.slotAt q).sequence = q
    rw [hslot q (by omega) hqr (by omega)]
    exact h.free q hq hqr
  · intro q hq hqh
    have hqh : q < s.mem.ring.head := hhead ▸ hqh
    rcases h.taken q hq hqh with ⟨p', hp'⟩ | hp'
    · by_cases he : p' = p
      · subst he
        obtain rfl : pos = q := Option.some.inj (hpw.symm.trans hp')
        rcases hx with hx | ⟨_, hx⟩
        · exact Or.inl ⟨p', by simpa using hx⟩
        · exact Or.inr hx
      · exact Or.inl ⟨p', by simpa only [Function.update_of_ne he] using hp'⟩
    · exact Or.inr (hpub q hq hqh hp')
  · intro p'
    by_cases he : p' = p
    · subst he
      simpa using hok
    · simp only [Function.update_of_ne he]
      refine (h.producer p').of_slot hhead hmask rfl ?_
      intro q hq
      obtain ⟨h1, h2, _⟩ := h.writing hq
      exact hslot q h1 (by omega) fun hqp => he (h.unique p' p q hq (by rw [hqp]; exact hpw))
  · have hw : ∀ p' q, (Function.update s.producers p x p').writes = some q →
        (s.producers p').writes = some q := by
      intro p' q hw
      rcases hx with hx | ⟨hx, _⟩
      · rcases writes_update_some hx hw with ⟨e, hq⟩ | ⟨_, hw⟩
        · rw [e, hpw, hq]
        · exact hw
      · exact (writes_update_none hx hw).2
    exact fun p₁ p₂ q h₁ h₂ => h.unique p₁ p₂ q (hw p₁ q h₁) (hw p₂ q h₂)
  · refine h.consumer.of_published htail hhead rfl ?_
    intro hl hth hpt
    have ht := h.tail_eq
    exact hpub _ (by omega) hth hpt

theorem RingInv.write (h : RingInv s) {p : ι} {c : EnqueueCall} {pos : Nat} {stage : WriteStage}
    (hp : s.producers p = .inCall c (.writing pos stage)) :
    RingInv { s with
      mem := s.mem.writePayload c pos stage
      producers := Function.update s.producers p (.inCall c (.writing pos (stage.next c))) } := by
  obtain ⟨h1, h2, h3, h4, h5⟩ : s.mem.ProducerOk (.inCall c (.writing pos stage)) :=
    hp ▸ h.producer p
  have hslot : (s.mem.ring.setReq pos (stage.write c (s.mem.ring.slotAt pos).req)).slotAt pos
      = { s.mem.ring.slotAt pos with req := stage.write c (s.mem.ring.slotAt pos).req } := by
    rw [Ring.slotAt_setReq, if_pos rfl]
  refine h.ownSlot (by rw [hp]; rfl) rfl rfl rfl ?_ (Or.inl rfl) ?_
  · intro q hq
    rw [Ring.slotAt_setReq, if_neg hq]
  · refine ⟨h1, h2, ?_, h4, ?_⟩
    · show (Ring.slotAt _ pos).sequence = pos
      rw [hslot]
      exact h3
    · show WriteStage.Written c (Ring.slotAt _ pos).req _
      rw [hslot]
      exact h5.write

theorem RingInv.publish (h : RingInv s) {p : ι} {c : EnqueueCall} {pos : Nat}
    (hp : s.producers p = .inCall c (.writing pos .publish)) :
    RingInv { s with
      mem := s.mem.publish pos
      producers := Function.update s.producers p (.inCall c (.ret true)) } := by
  obtain ⟨_, _, _, h4, h5⟩ : s.mem.ProducerOk (.inCall c (.writing pos .publish)) :=
    hp ▸ h.producer p
  have hslot : (s.mem.ring.setSequence pos (pos + 1)).slotAt pos
      = { s.mem.ring.slotAt pos with sequence := pos + 1 } := by
    rw [Ring.slotAt_setSequence, if_pos rfl]
  refine h.ownSlot (by rw [hp]; rfl) rfl rfl rfl ?_ (Or.inr ⟨rfl, ?_, c, h4, ?_⟩) trivial
  · intro q hq
    rw [Ring.slotAt_setSequence, if_neg hq]
  · show (Ring.slotAt _ pos).sequence = pos + 1
    rw [hslot]
  · show Carries (Ring.slotAt _ pos).req c
    rw [hslot]
    exact h5

/-! ## 到達できる状態 -/

/-- どの step も不変量を保つ。 -/
theorem ringInv_step {s s' : RingState ι} {a : RingAction ι} (h : RingInv s)
    (hs : ringStep .unbounded s a = some s') : RingInv s' := by
  cases ringStep_move hs with
  | call hp => exact h.setProducer rfl rfl (by rw [hp]; rfl) rfl trivial
  | loadHead hp => exact h.setProducer rfl rfl (by rw [hp]; rfl) rfl (Nat.le_refl _)
  | @seqReady p b c pos hp hseq =>
    have hle : s.mem.ProducerOk (.inCall c (.loadSeq pos)) := hp ▸ h.producer p
    exact h.setProducer rfl rfl (by rw [hp]; rfl) rfl ⟨hle, h.room_of_sequence_eq hle hseq⟩
  | seqFull hp hseq => exact h.setProducer rfl rfl (by rw [hp]; rfl) rfl trivial
  | seqAhead hp hseq => exact h.setProducer rfl rfl (by rw [hp]; rfl) rfl trivial
  | casOk hp => exact h.casOk hp
  | casFail hp => exact h.setProducer rfl rfl (by rw [hp]; rfl) rfl (Nat.le_refl _)
  | write hp hne => exact h.write hp
  | publish hp => exact h.publish hp
  | ret hp => exact h.setProducer rfl rfl (by rw [hp]; rfl) rfl trivial
  | peekReady hc hseq =>
    exact h.setConsumer (by rw [hc]; rfl) (h.published_of_ready (by rw [hc]; rfl) hseq)
  | peekEmpty hc hseq => exact h.setConsumer (by rw [hc]) trivial
  | process hc =>
    have hok := h.consumer
    rw [hc] at hok
    exact h.setConsumer (by rw [hc]; rfl) ⟨hok.1, hok.2, hok.2.2⟩
  | release hc => exact h.release hc
  | advance hc => exact h.advance hc

theorem mask_step {s s' : RingState ι} {a : RingAction ι}
    (hs : ringStep .unbounded s a = some s') : s'.mem.ring.mask = s.mem.ring.mask := by
  cases ringStep_move hs <;> rfl

theorem size_reachable {k : Nat} {s : RingState ι}
    (h : Reachable (ringStep .unbounded) (ringInitial ι k) s) : s.mem.ring.size = 2 ^ k :=
  h.invariant (I := fun s => s.mem.ring.mask + 1 = 2 ^ k)
    (fun _ _ _ hm hs => by rw [mask_step hs]; exact hm) lmkRingInit_mask

theorem ringInv_reachable {k : Nat} (hk : 1 ≤ k) {s : RingState ι}
    (h : Reachable (ringStep .unbounded) (ringInitial ι k) s) : RingInv s :=
  h.invariant (fun _ _ _ hs hstep => ringInv_step hs hstep) (ringInv_initial hk)

end Logmoko
