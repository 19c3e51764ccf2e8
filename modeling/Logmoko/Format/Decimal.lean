import Logmoko.Format.Model
import Logmoko.Lib.JsonText
import Mathlib.Data.Nat.Digits.Lemmas

/-!
# 十進表記

`%d` の十進表記は数ごとに異なり、JSON の数として読める。
-/

namespace Logmoko

open JsonText

/-! ## 単射 -/

/-- 数字の文字は数字ごとに異なる。 -/
theorem digitByte_inj {a b : Nat} (ha : a < 10) (hb : b < 10)
    (h : (48 + a).toUInt8 = (48 + b).toUInt8) : a = b := by
  have := congrArg UInt8.toNat h
  simp only [Nat.toUInt8_eq, UInt8.toNat_ofNat'] at this
  omega

/-- 数字の列を文字の列にする写像は単射である。 -/
theorem digitBytes_inj {l m : List Nat} (hl : ∀ d ∈ l, d < 10) (hm : ∀ d ∈ m, d < 10)
    (h : (l.map fun d => (48 + d).toUInt8) = m.map fun d => (48 + d).toUInt8) : l = m := by
  induction l generalizing m with
  | nil => simpa using h.symm
  | cons a l ih =>
    cases m with
    | nil => simp at h
    | cons b m =>
      rw [List.map_cons, List.map_cons, List.cons.injEq] at h
      rw [digitByte_inj (hl a List.mem_cons_self) (hm b List.mem_cons_self) h.1,
        ih (fun d hd => hl d (List.mem_cons_of_mem _ hd))
          (fun d hd => hm d (List.mem_cons_of_mem _ hd)) h.2]

theorem decimal_natCast {n : Nat} (h : n ≠ 0) :
    decimal n = (Nat.digits 10 n).reverse.map fun d => (48 + d).toUInt8 := by
  cases n with
  | zero => exact absurd rfl h
  | succ n => rfl

/-- 正の数の十進表記は数ごとに異なる。 -/
theorem decimal_inj {m n : Nat} (hm : m ≠ 0) (hn : n ≠ 0) (h : decimal m = decimal n) : m = n := by
  rw [decimal_natCast hm, decimal_natCast hn] at h
  have hlt : ∀ k, ∀ d ∈ (Nat.digits 10 k).reverse, d < 10 := fun k d hd =>
    Nat.digits_lt_base (by decide) (List.mem_reverse.mp hd)
  exact Nat.digits_inj_iff.mp (List.reverse_injective (digitBytes_inj (hlt m) (hlt n) h))

/-! ## JSON の数 -/

theorem isDigit_digitByte {d : Nat} (h : d < 10) : isDigit (48 + d).toUInt8 = true := by
  have hall : ∀ e ∈ List.range 10, isDigit (48 + e).toUInt8 = true := by decide
  exact hall d (List.mem_range.mpr h)

/-- 正の数の数字の列は、0 でない数字で始まる。 -/
theorem digitBytes_eq_cons {n : Nat} (h : n ≠ 0) :
    ∃ b s, ((Nat.digits 10 n).reverse.map fun d => (48 + d).toUInt8) = b :: s ∧
      isDigit b = true ∧ b ≠ 48 ∧ ∀ c ∈ s, isDigit c = true := by
  have hlt : ∀ d ∈ (Nat.digits 10 n).reverse, d < 10 := fun d hd =>
    Nat.digits_lt_base (by decide) (List.mem_reverse.mp hd)
  have hlast := Nat.getLast_digit_ne_zero 10 h
  have hnil : Nat.digits 10 n ≠ [] := Nat.digits_ne_nil_iff_ne_zero.mpr h
  rw [← List.head_reverse (List.reverse_ne_nil_iff.mpr hnil)] at hlast
  cases hds : (Nat.digits 10 n).reverse with
  | nil => exact absurd hds (List.reverse_ne_nil_iff.mpr hnil)
  | cons d ds =>
    simp only [hds] at hlast hlt
    refine ⟨(48 + d).toUInt8, ds.map fun d => (48 + d).toUInt8, rfl,
      isDigit_digitByte (hlt d List.mem_cons_self), ?_, ?_⟩
    · intro heq
      exact hlast (digitByte_inj (hlt d List.mem_cons_self) (by decide) heq)
    · intro c hc
      obtain ⟨e, he, rfl⟩ := List.mem_map.mp hc
      exact isDigit_digitByte (hlt e (List.mem_cons_of_mem _ he))

/-- 十進表記は符号か数字で始まり、comma の手前まで一つの数として読まれる。 -/
theorem number_decimal (n : Int) (t : List UInt8) :
    ∃ b s, decimal n = b :: s ∧ (b = 45 ∨ isDigit b = true) ∧
      number (decimal n ++ 44 :: t) = some (decimal n, 44 :: t) := by
  have hunsigned : ∀ {b : UInt8} {s : List UInt8}, isDigit b = true →
      unsignedNumber (b :: s ++ 44 :: t) = some (b :: s, 44 :: t) →
      number (b :: s ++ 44 :: t) = some (b :: s, 44 :: t) := by
    intro b s hb h
    rw [← h, List.cons_append, number]
    rintro s' heq
    rw [(List.cons.inj heq).1] at hb
    cases hb
  match n with
  | .ofNat 0 =>
    exact ⟨48, [], rfl, .inr rfl, hunsigned rfl (unsignedNumber_digits rfl (.inr rfl) (by simp) t)⟩
  | .ofNat (n + 1) =>
    obtain ⟨b, s, heq, hb, h48, hs⟩ := digitBytes_eq_cons (Nat.succ_ne_zero n)
    have hdec : decimal (.ofNat (n + 1)) = b :: s := heq
    refine ⟨b, s, hdec, .inr hb, ?_⟩
    rw [hdec]
    exact hunsigned hb (unsignedNumber_digits hb (.inl h48) hs t)
  | .negSucc n =>
    obtain ⟨b, s, heq, hb, h48, hs⟩ := digitBytes_eq_cons (Nat.succ_ne_zero n)
    have hdec : decimal (.negSucc n) = 45 :: b :: s := by rw [← heq]; rfl
    refine ⟨45, b :: s, hdec, .inl rfl, ?_⟩
    rw [hdec, List.cons_append, number, unsignedNumber_digits hb (.inl h48) hs t]
    rfl

end Logmoko
