import Mathlib.Data.Nat.Bitwise
import Mathlib.Order.Bounds.Basic

/-!
# bit の塗り広げ

shift と論理和の連鎖は、立っている bit をその下の桁へ塗り広げる。
塗り広げた幅が語の幅に届くと、最上位の bit より下がすべて 1 になり、1 を足せば 2 の冪になる。

* `Smears` — 塗り広げの仕様。一段で幅が倍になる（`Smears.double`）
* `isLeast_two_pow` — 「`v - 1` の最上位の一つ上」が、`v` 以上の最小の 2 の冪である
-/

namespace Bits

/-- `w` は、`v` の立っている bit をそれぞれ下へ `n` 桁（自分を含む）塗り広げたものである。 -/
def Smears (v n w : Nat) : Prop :=
  ∀ i, w.testBit i = true ↔ ∃ j, j < n ∧ v.testBit (i + j) = true

variable {v n w : Nat}

theorem smears_one (v : Nat) : Smears v 1 v := by
  intro i
  constructor
  · intro h
    exact ⟨0, Nat.one_pos, h⟩
  · rintro ⟨j, hj, h⟩
    obtain rfl : j = 0 := by omega
    exact h

/-- 塗り広げた幅だけずらして重ねると、幅が倍になる。 -/
theorem Smears.double (h : Smears v n w) : Smears v (n + n) (w ||| w >>> n) := by
  intro i
  rw [Nat.testBit_or, Nat.testBit_shiftRight, Bool.or_eq_true, h, h]
  constructor
  · rintro (⟨j, hj, hv⟩ | ⟨j, hj, hv⟩)
    · exact ⟨j, by omega, hv⟩
    · refine ⟨n + j, by omega, ?_⟩
      rw [show i + (n + j) = n + i + j by omega]
      exact hv
  · rintro ⟨j, hj, hv⟩
    by_cases hjn : j < n
    · exact Or.inl ⟨j, hjn, hv⟩
    · refine Or.inr ⟨j - n, by omega, ?_⟩
      rw [show n + i + (j - n) = i + j by omega]
      exact hv

/-- 語の幅まで塗り広げると、最上位の bit 以下がすべて 1 になる。 -/
theorem Smears.eq_two_pow_sub_one (h : Smears v n w) (hv : v ≠ 0) (hlt : v < 2 ^ n) :
    w = 2 ^ (v.log2 + 1) - 1 := by
  have hlog : v.log2 < n := (Nat.log2_lt hv).mpr hlt
  refine Nat.eq_of_testBit_eq ?_
  intro i
  rw [Nat.testBit_two_pow_sub_one, Bool.eq_iff_iff, h, decide_eq_true_iff]
  constructor
  · rintro ⟨j, -, hbit⟩
    by_contra hi
    have hsmall : v < 2 ^ (i + j) :=
      Nat.lt_of_lt_of_le Nat.lt_log2_self (Nat.pow_le_pow_right Nat.two_pos (by omega))
    rw [Nat.testBit_lt_two_pow hsmall] at hbit
    exact absurd hbit Bool.false_ne_true
  · intro hi
    refine ⟨v.log2 - i, by omega, ?_⟩
    rw [show i + (v.log2 - i) = v.log2 by omega]
    exact Nat.testBit_log2 hv

/-- `v - 1` の最上位の bit の一つ上は、`v` 以上の最小の 2 の冪である。 -/
theorem isLeast_two_pow (hv : 2 ≤ v) :
    IsLeast {p | (∃ k, p = 2 ^ k) ∧ v ≤ p} (2 ^ ((v - 1).log2 + 1)) := by
  refine ⟨⟨⟨_, rfl⟩, ?_⟩, ?_⟩
  · have : v - 1 < 2 ^ ((v - 1).log2 + 1) := Nat.lt_log2_self
    omega
  · rintro p ⟨⟨k, rfl⟩, hk⟩
    refine Nat.pow_le_pow_right Nat.two_pos ?_
    exact (Nat.log2_lt (by omega)).mpr (by omega)

end Bits
