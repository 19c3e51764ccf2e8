import Logmoko.Lib.Run
import Logmoko.Ring.Basic

/-!
# ring の interleaving

任意個の producer がそれぞれ `lmk_ring_enqueue` を何度でも呼び、
ただ一つの consumer が peek と consume を繰り返す系である。
動作ひとつが原子的な操作ひとつにあたり、どの thread も任意の step の間で止まってよい。

* `ringStep` — 一 step。算術 `A` を引数に取る
* `RingMove` — 桁あふれのない算術での場合分け。以後の証明は `ringStep` を開かずこれだけを見る
* `CursorsBelow` — cursor が `2^(w-1)` に届いていないこと。
  その間は `w` bit の算術と桁あふれのない算術が同じ step をする
-/

namespace Logmoko

open Transition

variable {ι : Type}

/-- producer は呼び出しの外にいるか、呼び出し `c` の `pc` にいる。 -/
inductive Producer where
  | idle
  | inCall (c : EnqueueCall) (pc : EnqueuePc)

/-- consumer の位置。`peeked` から `released` の手前までが、slot を持っている間である。 -/
inductive RingConsumer where
  | idle
  | peeked
  | processed (req : LogRequest)
  | released

/-- ring を使う系の状態。 -/
structure RingState (ι : Type) where
  mem : Shared
  producers : ι → Producer
  consumer : RingConsumer

/-- 系の動作。 -/
inductive RingAction (ι : Type) where
  | call (p : ι) (record : LogRecord) (handlerName : CStr)
  | producer (p : ι) (casFails : Bool)
  | peek
  | process
  | release
  | advance

/-- 呼び出しに番号を振る。 -/
def History.openCall (h : History) : History := { h with nextCall := h.nextCall + 1 }

/-- 呼び出しの返り値を控える。 -/
def History.closeCall (h : History) (id : Nat) (ok : Bool) : History :=
  { h with returned := h.returned ++ [(id, ok)] }

/-- consumer が手放した request を控える。 -/
def History.consume (h : History) (req : LogRequest) : History :=
  { h with consumed := h.consumed ++ [req] }

/-- 大きさ `2 ^ k` の ring から始まる初期状態。 -/
def ringInitial (ι : Type) (k : Nat) : RingState ι :=
  { mem := { ring := lmkRingInit (2 ^ k), hist := .empty }
    producers := fun _ => .idle
    consumer := .idle }

/-- 一 byte の data を持つ record。具体的な実行を書くときに使う。 -/
def sampleRecord (level : Int) (b : UInt8) : LogRecord :=
  { logLevel := level, data := [b], dataLen := 1, lineNo := 7, fileName := .empty
    dataLen_le := Nat.le_refl _ }

/-- producer `p` が一回の呼び出しを始めて、続けて `n` step 進む。 -/
def callAndRun (p : ι) (b : UInt8) (n : Nat) : List (RingAction ι) :=
  .call p (sampleRecord 2 b) .empty :: List.replicate n (.producer p false)

variable [DecidableEq ι]

/-- 系の一 step。 -/
def ringStep (A : CursorArith) (s : RingState ι) : RingAction ι → Option (RingState ι)
  | .call p record handlerName =>
    match s.producers p with
    | .idle =>
      let c : EnqueueCall := { id := s.mem.hist.nextCall, record, handlerName }
      some { s with
        mem := { s.mem with hist := s.mem.hist.openCall }
        producers := Function.update s.producers p (.inCall c .loadHead) }
    | .inCall _ _ => none
  | .producer p casFails =>
    match s.producers p with
    | .idle => none
    | .inCall c (.ret ok) =>
      some { s with
        mem := { s.mem with hist := s.mem.hist.closeCall c.id ok }
        producers := Function.update s.producers p .idle }
    | .inCall c pc =>
      (enqueueStep A c casFails s.mem pc).map fun (m, pc') =>
        { s with mem := m, producers := Function.update s.producers p (.inCall c pc') }
  | .peek =>
    match s.consumer with
    | .idle =>
      some { s with consumer := if (lmkRingPeekSlot A s.mem.ring).isSome then .peeked else .idle }
    | _ => none
  | .process =>
    match s.consumer with
    | .peeked => some { s with consumer := .processed (s.mem.ring.slotAt s.mem.ring.tail).req }
    | _ => none
  | .release =>
    match s.consumer with
    | .processed req =>
      some { s with
        mem := { ring := consumeStore A s.mem.ring, hist := s.mem.hist.consume req }
        consumer := .released }
    | _ => none
  | .advance =>
    match s.consumer with
    | .released =>
      some { s with mem := { s.mem with ring := consumeTail A s.mem.ring }, consumer := .idle }
    | _ => none

/-! ## 場合分け -/

/-- producer `p` の位置だけを書き換える。 -/
def RingState.setProducer (s : RingState ι) (p : ι) (x : Producer) : RingState ι :=
  { s with producers := Function.update s.producers p x }

/-- 位置 `pos` の slot に payload の一段を書く。 -/
def Shared.writePayload (m : Shared) (c : EnqueueCall) (pos : Nat) (stage : WriteStage) : Shared :=
  { m with ring := m.ring.setReq pos (stage.write c (m.ring.slotAt pos).req) }

/-- 呼び出し `c` が位置 `head` を取る。 -/
def Shared.claim (m : Shared) (c : EnqueueCall) : Shared :=
  { ring := { m.ring with head := m.ring.head + 1 }
    hist := { m.hist with claims := m.hist.claims ++ [c] } }

/-- 位置 `pos` を公開する。 -/
def Shared.publish (m : Shared) (pos : Nat) : Shared :=
  { m with ring := m.ring.setSequence pos (pos + 1) }

/-- consumer が位置 `tail` を手放す。 -/
def Shared.release (m : Shared) (req : LogRequest) : Shared :=
  { ring := m.ring.setSequence m.ring.tail (m.ring.tail + m.ring.mask + 1)
    hist := m.hist.consume req }

/-- 桁あふれのない算術での一 step が何をしうるか。 -/
inductive RingMove (s : RingState ι) : RingAction ι → RingState ι → Prop where
  | call {p record handlerName} (h : s.producers p = .idle) :
    RingMove s (.call p record handlerName)
      { s with
        mem := { s.mem with hist := s.mem.hist.openCall }
        producers := Function.update s.producers p
          (.inCall { id := s.mem.hist.nextCall, record, handlerName } .loadHead) }
  | loadHead {p b c} (h : s.producers p = .inCall c .loadHead) :
    RingMove s (.producer p b) (s.setProducer p (.inCall c (.loadSeq s.mem.ring.head)))
  | seqReady {p b c pos} (h : s.producers p = .inCall c (.loadSeq pos))
      (hseq : (s.mem.ring.slotAt pos).sequence = pos) :
    RingMove s (.producer p b) (s.setProducer p (.inCall c (.cas pos)))
  | seqFull {p b c pos} (h : s.producers p = .inCall c (.loadSeq pos))
      (hseq : (s.mem.ring.slotAt pos).sequence < pos) :
    RingMove s (.producer p b) (s.setProducer p (.inCall c (.ret false)))
  | seqAhead {p b c pos} (h : s.producers p = .inCall c (.loadSeq pos))
      (hseq : pos < (s.mem.ring.slotAt pos).sequence) :
    RingMove s (.producer p b) (s.setProducer p (.inCall c .loadHead))
  | casOk {p c} (h : s.producers p = .inCall c (.cas s.mem.ring.head)) :
    RingMove s (.producer p false)
      { s with
        mem := s.mem.claim c
        producers := Function.update s.producers p
          (.inCall c (.writing s.mem.ring.head .level)) }
  | casFail {p b c pos} (h : s.producers p = .inCall c (.cas pos)) :
    RingMove s (.producer p b) (s.setProducer p (.inCall c (.loadSeq s.mem.ring.head)))
  | write {p b c pos stage} (h : s.producers p = .inCall c (.writing pos stage))
      (hne : stage ≠ .publish) :
    RingMove s (.producer p b)
      { s with
        mem := s.mem.writePayload c pos stage
        producers := Function.update s.producers p (.inCall c (.writing pos (stage.next c))) }
  | publish {p b c pos} (h : s.producers p = .inCall c (.writing pos .publish)) :
    RingMove s (.producer p b)
      { s with
        mem := s.mem.publish pos
        producers := Function.update s.producers p (.inCall c (.ret true)) }
  | ret {p b c ok} (h : s.producers p = .inCall c (.ret ok)) :
    RingMove s (.producer p b)
      { s with
        mem := { s.mem with hist := s.mem.hist.closeCall c.id ok }
        producers := Function.update s.producers p .idle }
  | peekReady (h : s.consumer = .idle)
      (hseq : (s.mem.ring.slotAt s.mem.ring.tail).sequence = s.mem.ring.tail + 1) :
    RingMove s .peek { s with consumer := .peeked }
  | peekEmpty (h : s.consumer = .idle)
      (hseq : (s.mem.ring.slotAt s.mem.ring.tail).sequence ≠ s.mem.ring.tail + 1) :
    RingMove s .peek { s with consumer := .idle }
  | process (h : s.consumer = .peeked) :
    RingMove s .process
      { s with consumer := .processed (s.mem.ring.slotAt s.mem.ring.tail).req }
  | release {req} (h : s.consumer = .processed req) :
    RingMove s .release { s with mem := s.mem.release req, consumer := .released }
  | advance (h : s.consumer = .released) :
    RingMove s .advance
      { s with
        mem := { s.mem with ring := { s.mem.ring with tail := s.mem.ring.tail + 1 } }
        consumer := .idle }

theorem diff_unbounded_eq_zero {a b : Nat} : CursorArith.unbounded.diff a b = 0 ↔ a = b := by
  show (a : Int) - b = 0 ↔ a = b
  omega

theorem diff_unbounded_neg {a b : Nat} : CursorArith.unbounded.diff a b < 0 ↔ a < b := by
  show (a : Int) - b < 0 ↔ a < b
  omega

/-- 覗き見が slot を返すのは、その `sequence` が `tail + 1` のときである。 -/
theorem peek_eq_some_iff (r : Ring) (i : Nat) :
    lmkRingPeekSlot .unbounded r = some i ↔
      (r.slotAt r.tail).sequence = r.tail + 1 ∧ i = r.index r.tail := by
  unfold lmkRingPeekSlot
  split
  · next h =>
    have hseq := diff_unbounded_eq_zero.mp h
    simp only [Option.some.injEq]
    exact ⟨fun hi => ⟨hseq, hi.symm⟩, fun hi => hi.2.symm⟩
  · next h =>
    simp only [reduceCtorEq, false_iff, not_and]
    exact fun hseq => absurd (diff_unbounded_eq_zero.mpr hseq) h

theorem peek_isSome_iff (r : Ring) :
    (lmkRingPeekSlot .unbounded r).isSome ↔ (r.slotAt r.tail).sequence = r.tail + 1 := by
  rw [Option.isSome_iff_exists]
  exact ⟨fun ⟨i, hi⟩ => ((peek_eq_some_iff r i).mp hi).1,
    fun h => ⟨_, (peek_eq_some_iff r _).mpr ⟨h, rfl⟩⟩⟩

/-- `lmk_ring_enqueue` の一 step が memory と実行位置に何をしうるか。 -/
inductive EnqueueMove (m : Shared) (c : EnqueueCall) :
    Bool → EnqueuePc → Shared → EnqueuePc → Prop where
  | loadHead {b} : EnqueueMove m c b .loadHead m (.loadSeq m.ring.head)
  | seqReady {b pos} (hseq : (m.ring.slotAt pos).sequence = pos) :
    EnqueueMove m c b (.loadSeq pos) m (.cas pos)
  | seqFull {b pos} (hseq : (m.ring.slotAt pos).sequence < pos) :
    EnqueueMove m c b (.loadSeq pos) m (.ret false)
  | seqAhead {b pos} (hseq : pos < (m.ring.slotAt pos).sequence) :
    EnqueueMove m c b (.loadSeq pos) m .loadHead
  | casOk : EnqueueMove m c false (.cas m.ring.head) (m.claim c) (.writing m.ring.head .level)
  | casFail {b pos} : EnqueueMove m c b (.cas pos) m (.loadSeq m.ring.head)
  | write {b pos stage} (hne : stage ≠ .publish) :
    EnqueueMove m c b (.writing pos stage) (m.writePayload c pos stage)
      (.writing pos (stage.next c))
  | publish {b pos} : EnqueueMove m c b (.writing pos .publish) (m.publish pos) (.ret true)

theorem enqueueStep_move {m m' : Shared} {c : EnqueueCall} {b : Bool} {pc pc' : EnqueuePc}
    (h : enqueueStep .unbounded c b m pc = some (m', pc')) : EnqueueMove m c b pc m' pc' := by
  cases pc with
  | loadHead =>
    obtain ⟨rfl, rfl⟩ := Prod.mk.inj (Option.some.inj h)
    exact .loadHead
  | loadSeq pos =>
    simp only [enqueueStep, diff_unbounded_eq_zero, diff_unbounded_neg] at h
    by_cases heq : (m.ring.slotAt pos).sequence = pos
    · rw [if_pos heq] at h
      obtain ⟨rfl, rfl⟩ := Prod.mk.inj (Option.some.inj h)
      exact .seqReady heq
    · rw [if_neg heq] at h
      by_cases hlt : (m.ring.slotAt pos).sequence < pos
      · rw [if_pos hlt] at h
        obtain ⟨rfl, rfl⟩ := Prod.mk.inj (Option.some.inj h)
        exact .seqFull hlt
      · rw [if_neg hlt] at h
        obtain ⟨rfl, rfl⟩ := Prod.mk.inj (Option.some.inj h)
        exact .seqAhead (by omega)
  | cas pos =>
    simp only [enqueueStep] at h
    by_cases hc : m.ring.head = pos ∧ b = false
    · rw [if_pos hc] at h
      obtain ⟨rfl, rfl⟩ := hc
      obtain ⟨rfl, rfl⟩ := Prod.mk.inj (Option.some.inj h)
      exact .casOk
    · rw [if_neg hc] at h
      obtain ⟨rfl, rfl⟩ := Prod.mk.inj (Option.some.inj h)
      exact .casFail
  | writing pos stage =>
    cases stage with
    | publish =>
      obtain ⟨rfl, rfl⟩ := Prod.mk.inj (Option.some.inj h)
      exact .publish
    | level | line | file | handler | copy i =>
      obtain ⟨rfl, rfl⟩ := Prod.mk.inj (Option.some.inj h)
      exact .write (by simp)
  | ret ok => simp [enqueueStep] at h

/-- producer の一 step は `RingMove` のどれかである。 -/
theorem producer_move {s s' : RingState ι} {p : ι} {b : Bool}
    (h : ringStep .unbounded s (.producer p b) = some s') : RingMove s (.producer p b) s' := by
  simp only [ringStep] at h
  split at h
  · simp at h
  · next c ok hp =>
    rw [← Option.some.inj h]
    exact .ret hp
  · next c pc hne hp =>
    obtain ⟨⟨m, pc'⟩, he, hs⟩ := Option.map_eq_some_iff.mp h
    rw [← hs]
    cases enqueueStep_move he with
    | loadHead => exact .loadHead hp
    | seqReady hseq => exact .seqReady hp hseq
    | seqFull hseq => exact .seqFull hp hseq
    | seqAhead hseq => exact .seqAhead hp hseq
    | casOk => exact .casOk hp
    | casFail => exact .casFail hp
    | write hstage => exact .write hp hstage
    | publish => exact .publish hp

/-- 系の一 step は `RingMove` のどれかである。 -/
theorem ringStep_move {s s' : RingState ι} {a : RingAction ι}
    (h : ringStep .unbounded s a = some s') : RingMove s a s' := by
  cases a with
  | call p record handlerName =>
    simp only [ringStep] at h
    split at h
    · next hp =>
      rw [← Option.some.inj h]
      exact .call hp
    · simp at h
  | producer p b => exact producer_move h
  | peek =>
    simp only [ringStep] at h
    split at h
    · next hc =>
      rw [← Option.some.inj h]
      by_cases hp : (s.mem.ring.slotAt s.mem.ring.tail).sequence = s.mem.ring.tail + 1
      · rw [if_pos ((peek_isSome_iff _).mpr hp)]
        exact .peekReady hc hp
      · rw [if_neg (fun he => hp ((peek_isSome_iff _).mp he))]
        exact .peekEmpty hc hp
    · simp at h
  | process =>
    simp only [ringStep] at h
    split at h
    · next hc =>
      rw [← Option.some.inj h]
      exact .process hc
    · simp at h
  | release =>
    simp only [ringStep] at h
    split at h
    · next req hc =>
      rw [← Option.some.inj h]
      exact .release hc
    · simp at h
  | advance =>
    simp only [ringStep] at h
    split at h
    · next hc =>
      rw [← Option.some.inj h]
      exact .advance hc
    · simp at h

end Logmoko
