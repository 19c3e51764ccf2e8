import Logmoko.Lib.Bits
import Logmoko.Ring.Invariant
import Mathlib.Data.UInt

/-!
# ring の大きさと slot の添字

`lmk_next_pow2` は 64 bit の語の上で shift と論理和を重ねる。
`2^63` までの引数では途中の減算も最後の加算もあふれず、結果は求める 2 の冪である。
ring の大きさが 2 の冪なので、mask との論理積は大きさでの剰余になる。
-/

namespace Logmoko

/-- `size_t` の語での `lmk_next_pow2`。 -/
def lmkNextPow2Word (v : UInt64) : UInt64 :=
  if v < 2 then 2
  else
    let v := v - 1
    let v := v ||| (v >>> 1)
    let v := v ||| (v >>> 2)
    let v := v ||| (v >>> 4)
    let v := v ||| (v >>> 8)
    let v := v ||| (v >>> 16)
    let v := v ||| (v >>> 32)
    v + 1

theorem toNat_sub_one {v : UInt64} (hv : 1 ≤ v.toNat) : (v - 1).toNat = v.toNat - 1 :=
  UInt64.toNat_sub_of_le v 1 (UInt64.le_iff_toNat_le.mpr hv)

/-- 64 bit に収まる引数での `lmk_next_pow2` の値。 -/
theorem lmkNextPow2_eq {v : Nat} (hv : 2 ≤ v) (hlt : v ≤ 2 ^ 64) :
    lmkNextPow2 v = 2 ^ ((v - 1).log2 + 1) := by
  unfold lmkNextPow2
  rw [if_neg (by omega)]
  have hs := (((((Bits.smears_one (v - 1)).double).double).double).double).double.double
  show _ + 1 = _
  rw [hs.eq_two_pow_sub_one (by omega) (by omega)]
  exact Nat.sub_add_cancel Nat.one_le_two_pow

/-- 語での計算は、あふれのない計算と一致する。 -/
theorem toNat_lmkNextPow2Word {v : UInt64} (hv : v.toNat ≤ 2 ^ 63) :
    (lmkNextPow2Word v).toNat = lmkNextPow2 v.toNat := by
  unfold lmkNextPow2Word
  by_cases h2 : v < 2
  · have h2' : v.toNat < 2 := UInt64.lt_iff_toNat_lt.mp h2
    rw [if_pos h2]
    unfold lmkNextPow2
    rw [if_pos h2']
    rfl
  · have h2' : ¬ v.toNat < 2 := fun h => h2 (UInt64.lt_iff_toNat_lt.mpr h)
    rw [if_neg h2]
    have hpow := lmkNextPow2_eq (Nat.le_of_not_lt h2') (by omega)
    have hbound : 2 ^ ((v.toNat - 1).log2 + 1) ≤ 2 ^ 63 := by
      refine Nat.pow_le_pow_right Nat.two_pos ?_
      exact (Nat.log2_lt (by omega)).mpr (by omega)
    rw [← hpow] at hbound
    unfold lmkNextPow2 at hbound ⊢
    rw [if_neg h2'] at hbound ⊢
    -- 各段の shift 量は語の幅より小さいので、語の上でも Nat の上でも同じ shift になる
    simp only [UInt64.toNat_add, UInt64.toNat_or, UInt64.toNat_shiftRight,
      toNat_sub_one (show 1 ≤ v.toNat by omega), UInt64.reduceToNat, Nat.reduceMod]
    exact Nat.mod_eq_of_lt (Nat.lt_of_le_of_lt hbound (by decide))

/-- 引数が `2 ^ 63` までなら、結果は `max v 2` 以上の最小の 2 の冪である。 -/
theorem isLeast_lmkNextPow2Word {v : UInt64} (hv : v.toNat ≤ 2 ^ 63) :
    IsLeast {p | (∃ k, p = 2 ^ k) ∧ max v.toNat 2 ≤ p} (lmkNextPow2Word v).toNat := by
  rw [toNat_lmkNextPow2Word hv]
  by_cases h2 : v.toNat < 2
  · rw [Nat.max_eq_right (Nat.le_of_lt h2)]
    unfold lmkNextPow2
    rw [if_pos h2]
    exact ⟨⟨⟨1, rfl⟩, Nat.le_refl 2⟩, fun p hp => hp.2⟩
  · have hle : 2 ≤ v.toNat := Nat.le_of_not_lt h2
    rw [Nat.max_eq_left hle, lmkNextPow2_eq hle (by omega)]
    exact Bits.isLeast_two_pow hle

/-- 2 の冪 `size` から 1 を引いた mask との論理積は、`size` での剰余である。 -/
theorem toNat_and_mask {size : UInt64} {k : Nat} (hk : size.toNat = 2 ^ k) (pos : UInt64) :
    (pos &&& (size - 1)).toNat = pos.toNat % size.toNat := by
  have hone : 1 ≤ size.toNat := by
    rw [hk]
    exact Nat.one_le_two_pow
  rw [UInt64.toNat_and, toNat_sub_one hone, hk, Nat.and_two_pow_sub_one_eq_mod]

/-- 巻き戻る語の上でも、`size` 個の続いた cursor は別々の slot を指す。 -/
theorem and_mask_injective {size : UInt64} {k : Nat} (hk : size.toNat = 2 ^ k) {base i j : UInt64}
    (hi : i < size) (hj : j < size)
    (he : (base + i) &&& (size - 1) = (base + j) &&& (size - 1)) : i = j := by
  have hdvd : size.toNat ∣ 2 ^ 64 := by
    rw [hk]
    refine Nat.pow_dvd_pow 2 ?_
    have := size.toNat_lt
    rw [hk] at this
    exact Nat.le_of_lt ((Nat.pow_lt_pow_iff_right Nat.one_lt_two).mp this)
  have hmod : ∀ x : UInt64,
      ((base + x) &&& (size - 1)).toNat = (base.toNat + x.toNat) % size.toNat := by
    intro x
    rw [toNat_and_mask hk, UInt64.toNat_add, Nat.mod_mod_of_dvd _ hdvd]
  have hcongr : base.toNat + i.toNat ≡ base.toNat + j.toNat [MOD size.toNat] := by
    show _ % _ = _ % _
    rw [← hmod, ← hmod, he]
  have hij := Nat.ModEq.add_left_cancel' _ hcongr
  refine UInt64.toNat_inj.mp ?_
  exact Nat.ModEq.eq_of_lt_of_lt hij (UInt64.lt_iff_toNat_lt.mp hi) (UInt64.lt_iff_toNat_lt.mp hj)

/--
ring の大きさの決め方は正しい。`2 ^ 63` までのどの `v` についても、`lmk_next_pow2` は
あふれずに `max v 2` 以上の最小の 2 の冪を返す。その mask との論理積は剰余であり、
初期化した ring では、続いた `mask + 1` 個の cursor が別々の slot を指し、
`mask` 以下の位置の slot の `sequence` はその位置である。
-/
theorem lmkNextPow2_sizing (v : UInt64) (hv : v.toNat ≤ 2 ^ 63) :
    let size := lmkNextPow2Word v
    let mask := size - 1
    let ring := lmkRingInit size.toNat
    size.toNat = lmkNextPow2 v.toNat ∧
    IsLeast {p | (∃ k, p = 2 ^ k) ∧ max v.toNat 2 ≤ p} size.toNat ∧
    ring.mask = mask.toNat ∧
    (∀ pos : UInt64, (pos &&& mask).toNat = pos.toNat % (mask.toNat + 1) ∧
      ring.index pos.toNat = (pos &&& mask).toNat) ∧
    (∀ base i j : UInt64, i ≤ mask → j ≤ mask →
      (base + i) &&& mask = (base + j) &&& mask → i = j) ∧
    ∀ pos : UInt64, pos ≤ mask → (ring.slotAt pos.toNat).sequence = pos.toNat := by
  intro size mask ring
  have hleast := isLeast_lmkNextPow2Word hv
  obtain ⟨⟨⟨k, hk⟩, hmax⟩, -⟩ := hleast
  have htwo : 2 ≤ size.toNat := Nat.le_trans (Nat.le_max_right _ _) hmax
  have hmask : mask.toNat = size.toNat - 1 := toNat_sub_one (by omega)
  have hsucc : mask.toNat + 1 = size.toNat := by omega
  have hlt : ∀ i : UInt64, i ≤ mask → i < size := by
    intro i hi
    rw [UInt64.le_iff_toNat_le] at hi
    rw [UInt64.lt_iff_toNat_lt]
    omega
  have hidx : ∀ pos : UInt64, ring.index pos.toNat = (pos &&& mask).toNat := by
    intro pos
    rw [UInt64.toNat_and, hmask]
    rfl
  refine ⟨toNat_lmkNextPow2Word hv, isLeast_lmkNextPow2Word hv, hmask.symm, ?_, ?_, ?_⟩
  · intro pos
    rw [hsucc]
    exact ⟨toNat_and_mask hk pos, hidx pos⟩
  · intro base i j hi hj he
    exact and_mask_injective hk (hlt i hi) (hlt j hj) he
  · intro pos hpos
    have hp : pos.toNat < size.toNat := UInt64.lt_iff_toNat_lt.mp (hlt pos hpos)
    show (ring.slots (ring.index pos.toNat)).sequence = _
    rw [hidx, toNat_and_mask hk, Nat.mod_eq_of_lt hp]
    show (if pos.toNat < size.toNat then pos.toNat else 0) = pos.toNat
    rw [if_pos hp]

/-- 1000 slot の求めは 1024 slot になる。 -/
theorem lmkNextPow2_sizing_thousand :
    (lmkNextPow2Word 1000).toNat = 1024 ∧ (lmkNextPow2Word 1000).toNat = lmkNextPow2 1000 :=
  ⟨rfl, (lmkNextPow2_sizing 1000 (by decide)).1⟩

end Logmoko
