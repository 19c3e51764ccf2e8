import Logmoko.Ring.System
import Mathlib.Data.Nat.ModEq
import Mathlib.Data.Int.Interval
import Mathlib.Order.Interval.Finset.Nat

/-!
# ring の不変量

位置の全体を三つに分けて見る。`R` を consumer が手放した位置の個数とする。

* `q < R` — 手放された。`consumed` に控えがある
* `R ≤ q < head` — claim された。書き込み中の producer がちょうど一つあるか、公開されている
* `head ≤ q < R + size` — 空いている。slot の `sequence` は `q` である

`[R, R + size)` の位置は slot の添字と一対一なので、slot の `sequence` は `q` か `q + 1` に限られる。
止まっている producer が持つ古い `pos` については `pos ≤ head` だけが要る。
CAS の手前ではさらに `pos < R + size` を覚えておく。
`sequence = pos` を読んだ時点で成り立ち、`R` は減らないので CAS の時点でも成り立つからである。
-/

namespace Logmoko

open Transition

variable {ι : Type}

/-! ## slot の添字 -/

/-- ring の大きさは 2 の冪で、2 以上である。 -/
def Ring.PowerOfTwo (r : Ring) : Prop := ∃ k, 1 ≤ k ∧ r.mask + 1 = 2 ^ k

theorem Ring.PowerOfTwo.two_le {r : Ring} (h : r.PowerOfTwo) : 2 ≤ r.size := by
  obtain ⟨k, hk, hm⟩ := h
  show 2 ≤ r.mask + 1
  rw [hm]
  calc 2 = 2 ^ 1 := rfl
    _ ≤ 2 ^ k := Nat.pow_le_pow_right (by decide) hk

/-- mask との論理積は大きさでの剰余である。 -/
theorem Ring.PowerOfTwo.index_eq {r : Ring} (h : r.PowerOfTwo) (q : Nat) :
    r.index q = q % r.size := by
  obtain ⟨k, _, hm⟩ := h
  show q &&& r.mask = q % (r.mask + 1)
  rw [show r.mask = 2 ^ k - 1 by omega, Nat.and_two_pow_sub_one_eq_mod,
    Nat.sub_add_cancel (Nat.one_le_two_pow)]

/-- 幅 `size` の窓の中では、位置と添字は一対一である。 -/
theorem Ring.PowerOfTwo.index_inj {r : Ring} (h : r.PowerOfTwo) {a q q' : Nat}
    (hq : a ≤ q ∧ q < a + r.size) (hq' : a ≤ q' ∧ q' < a + r.size)
    (he : r.index q = r.index q') : q = q' := by
  rw [h.index_eq, h.index_eq] at he
  exact Nat.mod_injOn_Ico a r.size (by simpa using hq) (by simpa using hq') he

/-- 一周先の位置は同じ slot にある。 -/
theorem Ring.PowerOfTwo.index_add_size {r : Ring} (h : r.PowerOfTwo) (q : Nat) :
    r.index (q + r.size) = r.index q := by
  rw [h.index_eq, h.index_eq, Nat.add_mod_right]

theorem Ring.slotAt_setSequence (r : Ring) (pos v q : Nat) :
    (r.setSequence pos v).slotAt q =
      if r.index q = r.index pos then { r.slotAt pos with sequence := v } else r.slotAt q := by
  show Function.update r.slots (r.index pos) _ (r.index q) = _
  rw [Function.update_apply]
  rfl

theorem Ring.slotAt_setReq (r : Ring) (pos : Nat) (req : LogRequest) (q : Nat) :
    (r.setReq pos req).slotAt q =
      if r.index q = r.index pos then { r.slotAt pos with req := req } else r.slotAt q := by
  show Function.update r.slots (r.index pos) _ (r.index q) = _
  rw [Function.update_apply]
  rfl

theorem Ring.sequence_setReq (r : Ring) (pos : Nat) (req : LogRequest) (q : Nat) :
    ((r.setReq pos req).slotAt q).sequence = (r.slotAt q).sequence := by
  rw [Ring.slotAt_setReq]
  split
  · next hi =>
    show (r.slots (r.index pos)).sequence = (r.slots (r.index q)).sequence
    rw [hi]
  · rfl

/-! ## 不変量 -/

/-- 段 `stage` に来た時点で、呼び出し `c` の payload はここまで書けている。 -/
def WriteStage.Written (c : EnqueueCall) (req : LogRequest) : WriteStage → Prop
  | .level => True
  | .line => req.logLevel = c.record.logLevel
  | .file => req.logLevel = c.record.logLevel ∧ req.lineNo = c.record.lineNo
  | .handler => req.logLevel = c.record.logLevel ∧ req.lineNo = c.record.lineNo ∧
      req.fileName = c.record.fileName
  | .copy i => req.logLevel = c.record.logLevel ∧ req.lineNo = c.record.lineNo ∧
      req.fileName = c.record.fileName ∧ req.handlerName = c.handlerName ∧ i ≤ c.copyLen ∧
      ∀ j, j < i → req.data j = c.record.data.getD j 0
  | .publish => Carries req c

/-- 一段書くと、次の段の条件が成り立つ。 -/
theorem WriteStage.Written.write {c : EnqueueCall} {req : LogRequest} {stage : WriteStage}
    (h : stage.Written c req) : (stage.next c).Written c (stage.write c req) := by
  cases stage with
  | level => rfl
  | line => exact ⟨h, rfl⟩
  | file => exact ⟨h.1, h.2, rfl⟩
  | handler =>
    obtain ⟨h1, h2, h3⟩ := h
    exact ⟨h1, h2, h3, rfl, Nat.zero_le _, fun j hj => absurd hj (Nat.not_lt_zero j)⟩
  | copy i =>
    obtain ⟨h1, h2, h3, h4, hi, hd⟩ := h
    by_cases hlt : i < c.copyLen
    · simp only [WriteStage.next, WriteStage.write, hlt, if_true]
      refine ⟨h1, h2, h3, h4, hlt, ?_⟩
      intro j hj
      show Function.update req.data i _ j = _
      by_cases hji : j = i
      · subst hji
        simp
      · rw [Function.update_of_ne hji]
        exact hd j (by omega)
    · simp only [WriteStage.next, WriteStage.write, hlt, if_false]
      refine ⟨h1, h2, h3, h4, fun j hj => ?_, ?_⟩
      · show Function.update req.data c.copyLen 0 j = _
        rw [Function.update_of_ne (by omega)]
        exact hd j (by omega)
      · show Function.update req.data c.copyLen 0 c.copyLen = 0
        simp
  | publish => exact h

/-- 手放された位置の個数 `R`。 -/
def Shared.released (m : Shared) : Nat := m.hist.consumed.length

/-- 位置 `pos` は呼び出し `c` のもので、公開されている。 -/
def Shared.Published (m : Shared) (pos : Nat) : Prop :=
  (m.ring.slotAt pos).sequence = pos + 1 ∧
    ∃ c, m.hist.claims[pos]? = some c ∧ Carries (m.ring.slotAt pos).req c

/-- producer の位置ごとの条件。 -/
def Shared.ProducerOk (m : Shared) : Producer → Prop
  | .inCall _ (.loadSeq pos) => pos ≤ m.ring.head
  | .inCall _ (.cas pos) => pos ≤ m.ring.head ∧ pos < m.released + m.ring.size
  | .inCall c (.writing pos stage) =>
    m.released ≤ pos ∧ pos < m.ring.head ∧ (m.ring.slotAt pos).sequence = pos ∧
      m.hist.claims[pos]? = some c ∧ stage.Written c (m.ring.slotAt pos).req
  | _ => True

/-- producer が書き込み中の位置。成功した CAS から release store までの間である。 -/
def Producer.writes : Producer → Option Nat
  | .inCall _ (.writing pos _) => some pos
  | _ => none

/-- `tail` が手放した個数に追いついていない間だけ 1。 -/
def RingConsumer.lag : RingConsumer → Nat
  | .released => 1
  | _ => 0

/-- consumer が slot を持っている（NULL でない peek から consume の store まで）。 -/
def RingConsumer.Holds : RingConsumer → Prop
  | .peeked | .processed _ => True
  | _ => False

instance : DecidablePred RingConsumer.Holds
  | .peeked | .processed _ => inferInstanceAs (Decidable True)
  | .idle | .released => inferInstanceAs (Decidable False)

/-- consumer の位置ごとの条件。 -/
def Shared.ConsumerOk (m : Shared) : RingConsumer → Prop
  | .peeked => m.ring.tail < m.ring.head ∧ m.Published m.ring.tail
  | .processed req => m.ring.tail < m.ring.head ∧ m.Published m.ring.tail ∧
      ∃ c, m.hist.claims[m.ring.tail]? = some c ∧ Carries req c
  | _ => True

/-- ring の不変量。 -/
structure RingInv (s : RingState ι) : Prop where
  powerOfTwo : s.mem.ring.PowerOfTwo
  head_eq : s.mem.ring.head = s.mem.hist.claims.length
  tail_eq : s.mem.ring.tail + s.consumer.lag = s.mem.released
  released_le : s.mem.released ≤ s.mem.ring.head
  head_le : s.mem.ring.head ≤ s.mem.released + s.mem.ring.size
  free : ∀ q, s.mem.ring.head ≤ q → q < s.mem.released + s.mem.ring.size →
    (s.mem.ring.slotAt q).sequence = q
  taken : ∀ q, s.mem.released ≤ q → q < s.mem.ring.head →
    (∃ p, (s.producers p).writes = some q) ∨ s.mem.Published q
  producer : ∀ p, s.mem.ProducerOk (s.producers p)
  unique : ∀ p p' q, (s.producers p).writes = some q → (s.producers p').writes = some q → p = p'
  consumer : s.mem.ConsumerOk s.consumer
  delivered : List.Forall₂ Carries s.mem.hist.consumed (s.mem.hist.claims.take s.mem.released)

theorem lmkRingInit_mask {k : Nat} : (lmkRingInit (2 ^ k)).mask + 1 = 2 ^ k :=
  Nat.sub_add_cancel Nat.one_le_two_pow

theorem ringInv_initial {k : Nat} (hk : 1 ≤ k) : RingInv (ringInitial ι k) where
  powerOfTwo := ⟨k, hk, lmkRingInit_mask⟩
  head_eq := rfl
  tail_eq := rfl
  released_le := Nat.zero_le _
  head_le := Nat.zero_le _
  free := by
    intro q _ hq
    have hp : (lmkRingInit (2 ^ k)).PowerOfTwo := ⟨k, hk, lmkRingInit_mask⟩
    have hsz : (lmkRingInit (2 ^ k)).size = 2 ^ k := lmkRingInit_mask
    have hq' : q < 2 ^ k := by
      have : q < 0 + (lmkRingInit (2 ^ k)).size := hq
      omega
    have hi : (lmkRingInit (2 ^ k)).index q = q := by
      rw [hp.index_eq, hsz, Nat.mod_eq_of_lt hq']
    show ((lmkRingInit (2 ^ k)).slots ((lmkRingInit (2 ^ k)).index q)).sequence = q
    rw [hi]
    simp [lmkRingInit, hq']
  taken := fun q _ hq => absurd hq (Nat.not_lt_zero q)
  producer := fun _ => trivial
  unique := by
    intro p p' q h _
    simp [ringInitial, Producer.writes] at h
  consumer := trivial
  delivered := by simp [ringInitial, Shared.released, History.empty]

/-! ## 保存 -/

variable {s : RingState ι}

/-- 窓の中の別の位置は別の slot にある。 -/
theorem RingInv.index_ne (h : RingInv s) {q q' : Nat} (hne : q ≠ q')
    (hq : s.mem.released ≤ q ∧ q < s.mem.released + s.mem.ring.size)
    (hq' : s.mem.released ≤ q' ∧ q' < s.mem.released + s.mem.ring.size) :
    s.mem.ring.index q ≠ s.mem.ring.index q' :=
  fun he => hne (h.powerOfTwo.index_inj hq hq' he)

/-- 書き込み中の位置について、producer の条件を取り出す。 -/
theorem RingInv.writing (h : RingInv s) {p : ι} {q : Nat} (hw : (s.producers p).writes = some q) :
    s.mem.released ≤ q ∧ q < s.mem.ring.head ∧ (s.mem.ring.slotAt q).sequence = q := by
  have hp := h.producer p
  cases hs : s.producers p with
  | idle => rw [hs] at hw; simp [Producer.writes] at hw
  | inCall c pc =>
    rw [hs] at hw hp
    cases pc with
    | writing pos stage =>
      obtain rfl : pos = q := by simpa [Producer.writes] using hw
      exact ⟨hp.1, hp.2.1, hp.2.2.1⟩
    | loadHead | loadSeq _ | cas _ | ret _ => simp [Producer.writes] at hw

variable [DecidableEq ι]

theorem writes_update_none {f : ι → Producer} {p p' : ι} {x : Producer} {q : Nat}
    (hx : x.writes = none) (h : (Function.update f p x p').writes = some q) :
    p' ≠ p ∧ (f p').writes = some q := by
  by_cases hp : p' = p
  · subst hp
    rw [Function.update_self, hx] at h
    simp at h
  · rw [Function.update_of_ne hp] at h
    exact ⟨hp, h⟩

/-- 書き込みに関わらない producer の step は、その producer の条件だけを見ればよい。 -/
theorem RingInv.setProducer (h : RingInv s) {p : ι} {x : Producer} {hist : History}
    (hcl : hist.claims = s.mem.hist.claims) (hco : hist.consumed = s.mem.hist.consumed)
    (hold : (s.producers p).writes = none) (hnew : x.writes = none) (hok : s.mem.ProducerOk x) :
    RingInv { s with mem := { s.mem with hist := hist }
                     producers := Function.update s.producers p x } := by
  have hrel : ({ s.mem with hist := hist } : Shared).released = s.mem.released := by
    simp only [Shared.released, hco]
  have hpub : ∀ q, ({ s.mem with hist := hist } : Shared).Published q ↔ s.mem.Published q := by
    intro q
    simp only [Shared.Published, hcl]
  have hprod : ∀ y, ({ s.mem with hist := hist } : Shared).ProducerOk y ↔ s.mem.ProducerOk y := by
    intro y
    cases y with
    | idle => rfl
    | inCall c pc => cases pc <;> simp only [Shared.ProducerOk, hrel, hcl]
  refine ⟨h.powerOfTwo, by simpa only [hcl] using h.head_eq, by simpa only [hrel] using h.tail_eq,
    by simpa only [hrel] using h.released_le, by simpa only [hrel] using h.head_le,
    by simpa only [hrel] using h.free, ?_, ?_, ?_, ?_, ?_⟩
  · -- `p` は書き込んでいなかったので、どの位置の書き手もこの step で動かない
    intro q hq hlt
    rw [hrel] at hq
    rcases h.taken q hq hlt with ⟨p', hp'⟩ | hp'
    · refine Or.inl ⟨p', ?_⟩
      have hne : p' ≠ p := fun he => by rw [he, hold] at hp'; simp at hp'
      simpa only [Function.update_of_ne hne] using hp'
    · exact Or.inr ((hpub q).mpr hp')
  · intro p'
    rw [hprod]
    by_cases hp : p' = p
    · subst hp
      simpa using hok
    · simpa only [Function.update_of_ne hp] using h.producer p'
  · intro p₁ p₂ q h₁ h₂
    exact h.unique p₁ p₂ q (writes_update_none hnew h₁).2 (writes_update_none hnew h₂).2
  · have hc := h.consumer
    show ({ s.mem with hist := hist } : Shared).ConsumerOk s.consumer
    cases hs : s.consumer with
    | idle | released => trivial
    | peeked =>
      rw [hs] at hc
      exact ⟨hc.1, (hpub _).mpr hc.2⟩
    | processed req =>
      rw [hs] at hc
      refine ⟨hc.1, (hpub _).mpr hc.2.1, ?_⟩
      simpa only [hcl] using hc.2.2
  · simpa only [hrel, hcl, hco] using h.delivered

end Logmoko
