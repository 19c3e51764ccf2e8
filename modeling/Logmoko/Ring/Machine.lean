import Logmoko.Ring.System
import Mathlib.Data.Fintype.Defs

/-!
# 桁あふれのない範囲

cursor がすべて `2 ^ w` より小さい間は、`w + 1` bit の算術は桁あふれのない算術と同じ step をする。
したがって、その範囲にとどまる `w + 1` bit の実行は、桁あふれのない実行でもある。
-/

namespace Logmoko

open Transition

variable {ι : Type}

/-- 実行位置が持つ cursor。 -/
def EnqueuePc.pos : EnqueuePc → Nat
  | .loadSeq pos | .cas pos | .writing pos _ => pos
  | .loadHead | .ret _ => 0

/-- producer が持つ cursor。 -/
def Producer.pos : Producer → Nat
  | .idle => 0
  | .inCall _ pc => pc.pos

/-- 状態に現れる cursor と `sequence` がすべて `bound` より小さい。 -/
def RingState.CursorsBelow (bound : Nat) (s : RingState ι) : Prop :=
  s.mem.ring.head < bound ∧ s.mem.ring.tail < bound ∧ s.mem.ring.mask < bound ∧
    (∀ i, i < s.mem.ring.mask + 1 → (s.mem.ring.slots i).sequence < bound) ∧
    ∀ p, (s.producers p).pos < bound

instance (bound : Nat) (s : RingState ι) [Fintype ι] : Decidable (s.CursorsBelow bound) :=
  inferInstanceAs (Decidable (_ ∧ _ ∧ _ ∧ _ ∧ _))

/-! ## 一 step の一致 -/

theorem wrap_machine {w n : Nat} (h : n < 2 ^ w) : (CursorArith.machine w).wrap n = n :=
  Nat.mod_eq_of_lt h

theorem diff_machine {w a b : Nat} (ha : a < 2 ^ w) (hb : b ≤ 2 ^ w) :
    (CursorArith.machine (w + 1)).diff a b = CursorArith.unbounded.diff a b := by
  show ((a : Int) - b).bmod (2 ^ (w + 1)) = (a : Int) - b
  have hpow : 2 ^ (w + 1) = 2 * 2 ^ w := by rw [Nat.pow_succ, Nat.mul_comm]
  apply Int.bmod_eq_of_le
  · rw [hpow]
    push_cast
    have : (b : Int) ≤ 2 ^ w := by exact_mod_cast hb
    omega
  · rw [hpow]
    push_cast
    have : (a : Int) < 2 ^ w := by exact_mod_cast ha
    omega

variable {s : RingState ι} {w : Nat}

theorem RingState.CursorsBelow.slotAt_lt (h : s.CursorsBelow (2 ^ w)) (pos : Nat) :
    (s.mem.ring.slotAt pos).sequence < 2 ^ w :=
  h.2.2.2.1 _ (Nat.lt_succ_of_le Nat.and_le_right)

theorem enqueueStep_machine (h : s.CursorsBelow (2 ^ w)) {c : EnqueueCall} {b : Bool}
    {pc : EnqueuePc} (hpc : pc.pos < 2 ^ w) :
    enqueueStep (.machine (w + 1)) c b s.mem pc = enqueueStep .unbounded c b s.mem pc := by
  have hsucc : ∀ pos, pos < 2 ^ w → (CursorArith.machine (w + 1)).wrap (pos + 1) = pos + 1 := by
    intro pos hp
    refine wrap_machine ?_
    rw [Nat.pow_succ]
    omega
  -- cursor の算術が現れるのは、差を取る load と、一つ先を作る CAS と公開だけである
  cases pc with
  | loadHead => rfl
  | loadSeq pos =>
    have hd := diff_machine (b := pos) (h.slotAt_lt pos) (Nat.le_of_lt hpc)
    simp only [enqueueStep, hd]
  | cas pos =>
    simp only [enqueueStep, hsucc pos hpc]
    rfl
  | writing pos stage =>
    cases stage with
    | publish =>
      simp only [enqueueStep, hsucc pos hpc]
      rfl
    | level | line | file | handler | copy _ => rfl
  | ret ok => rfl

theorem peek_machine (h : s.CursorsBelow (2 ^ w)) :
    lmkRingPeekSlot (.machine (w + 1)) s.mem.ring = lmkRingPeekSlot .unbounded s.mem.ring := by
  have htail := h.2.1
  have htail1 : (CursorArith.machine (w + 1)).wrap (s.mem.ring.tail + 1) = s.mem.ring.tail + 1 :=
    wrap_machine (by rw [Nat.pow_succ]; omega)
  unfold lmkRingPeekSlot
  rw [htail1, diff_machine (h.slotAt_lt s.mem.ring.tail) htail]
  rfl

theorem consumeStore_machine (h : s.CursorsBelow (2 ^ w)) :
    consumeStore (.machine (w + 1)) s.mem.ring = consumeStore .unbounded s.mem.ring := by
  obtain ⟨-, htail, hmask, -⟩ := h
  have hrel : (CursorArith.machine (w + 1)).wrap (s.mem.ring.tail + s.mem.ring.mask + 1)
      = s.mem.ring.tail + s.mem.ring.mask + 1 := wrap_machine (by rw [Nat.pow_succ]; omega)
  unfold consumeStore
  rw [hrel]
  rfl

theorem consumeTail_machine (h : s.CursorsBelow (2 ^ w)) :
    consumeTail (.machine (w + 1)) s.mem.ring = consumeTail .unbounded s.mem.ring := by
  have htail := h.2.1
  have htail1 : (CursorArith.machine (w + 1)).wrap (s.mem.ring.tail + 1) = s.mem.ring.tail + 1 :=
    wrap_machine (by rw [Nat.pow_succ]; omega)
  unfold consumeTail
  rw [htail1]
  rfl

variable [DecidableEq ι]

/-- cursor が範囲内なら、`w + 1` bit の step は桁あふれのない step と同じである。 -/
theorem ringStep_machine (h : s.CursorsBelow (2 ^ w)) (a : RingAction ι) :
    ringStep (.machine (w + 1)) s a = ringStep .unbounded s a := by
  cases a with
  | call p record handlerName => rfl
  | producer p b =>
    simp only [ringStep]
    cases hp : s.producers p with
    | idle => rfl
    | inCall c pc =>
      have hpos : pc.pos < 2 ^ w := by
        have := h.2.2.2.2 p
        rwa [hp] at this
      have hs := enqueueStep_machine (c := c) (b := b) h hpos
      cases pc <;> simp only [hs]
  | peek => simp only [ringStep, peek_machine h]
  | process => rfl
  | release => simp only [ringStep, consumeStore_machine h]
  | advance => simp only [ringStep, consumeTail_machine h]

/-- 範囲にとどまる `w + 1` bit の実行は、桁あふれのない実行でもある。 -/
theorem run_machine {as : List (RingAction ι)} {s t : RingState ι}
    (hb : Along (ringStep (.machine (w + 1))) (fun s _ => s.CursorsBelow (2 ^ w)) s as)
    (h : run (ringStep (.machine (w + 1))) s as = some t) :
    run (ringStep .unbounded) s as = some t :=
  run_of_along_eq (fun _ a hs => ringStep_machine hs a) hb h

end Logmoko
