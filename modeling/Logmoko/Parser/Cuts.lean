import Logmoko.Parser.Fields
import Logmoko.Parser.Line

/-!
# 切り出しの範囲

空白を除く `lmk_cfg_trim` と `strtok_r` は buffer に NUL を書き込みながら進む。
文字列が buffer の中で終わっていれば、読み書きはどれも buffer の中に収まり、
残る buffer は `Parser/Model` の関数が返すものに等しい。

NUL を書くと文字列は短くなるだけなので、buffer の中で終わる文字列はその後も中で終わる。

* `wp_lmkCfgTrim` — `end[1]` への書き込みは buffer の中である
* `wp_strtokR` — 区切りへの書き込みも buffer の中である
-/

namespace Logmoko.Raw

open StrBuf Cells Traced

variable {m : Mem} {s p q e : Nat} {I : Mem → Prop} {buf : List UInt8} {n : Nat}
  {v : Vector UInt8 n}

/-! ## `lmk_cfg_trim` -/

/-- 前の空白を飛ばす loop は、文字列の中で止まる。 -/
theorem skipSpace_eq (h : Ends v.toList s) :
    skipSpace v s = some (s + ((strAt v.toList s).takeWhile isSpace).length) := by
  induction hk : n - s using Nat.strong_induction_on generalizing s with
  | _ k ih =>
    have hs : s < v.toList.length := by
      have := h.lt
      omega
    have hs' : s < n := by rwa [Vector.length_toList] at hs
    have hget : v.toList[s] = v[s] := Vector.getElem_toList hs
    rw [skipSpace, dif_pos hs']
    by_cases hspace : isSpace v[s] = true
    · have hne : v.toList[s] ≠ 0 := by
        rw [hget]
        intro hz
        rw [hz] at hspace
        exact absurd hspace (by decide)
      have hstr := strAt_of_ne_zero hs hne
      have hnext : Ends v.toList (s + 1) := h.add (by rw [hstr]; exact Nat.le_add_left _ _)
      rw [if_pos hspace, ih (n - (s + 1)) (by omega) hnext rfl, hstr,
        List.takeWhile_cons_of_pos (by rw [hget]; exact hspace), List.length_cons]
      congr 1
      omega
    · rw [if_neg hspace]
      by_cases hz : v.toList[s] = 0
      · rw [strAt_of_zero hs hz]
        rfl
      · rw [strAt_of_ne_zero hs hz, List.takeWhile_cons_of_neg (by rw [hget]; exact hspace)]
        rfl

/-- 後ろの空白を戻る loop は、始めた位置より後ろを読まない。 -/
theorem trimEnd_eq (he : e < n) (s : Nat) :
    trimEnd v s e = some (Logmoko.trimEnd v.toList s e) := by
  induction e with
  | zero => rfl
  | succ e ih =>
    unfold trimEnd Logmoko.trimEnd
    rw [charAt_toList he, Vector.getElem?_eq_getElem he, Option.bind_some,
      ih (Nat.lt_of_succ_lt he)]
    by_cases hlt : s < e + 1
    · by_cases hspace : isSpace v[e + 1] = true
      · rw [if_pos hlt, if_pos hspace, if_pos ⟨hlt, hspace⟩]
      · rw [if_pos hlt, if_neg hspace, if_neg fun h => hspace h.2]
    · rw [if_neg hlt, if_neg fun h => hlt h.1]

theorem trimEnd_le (buf : List UInt8) (s e : Nat) : Logmoko.trimEnd buf s e ≤ e := by
  induction e with
  | zero => exact Nat.le_refl 0
  | succ e ih =>
    unfold Logmoko.trimEnd
    split
    · exact Nat.le_succ_of_le ih
    · exact Nat.le_refl _

/-- buffer への一 byte の書き込み。 -/
theorem wp_storeLine {b : UInt8} {Q : Unit → Mem → Prop} (hm : Inv m) (hp : p < cfgLineMax)
    (hQ : ∀ line : Vector UInt8 cfgLineMax, line.toList = m.line.toList.set p b →
      Q () { m with line }) : wp Inv (storeLine p b) Q m := by
  refine wp_write ?_ ?_ (hQ (m.line.set p b hp) (Vector.toList_set hp))
  · rw [store_eq_some hp]
    rfl
  · exact hm

theorem trim_pointer (buf : List UInt8) (s : Nat) :
    (Logmoko.lmkCfgTrim buf s).2 = s + ((strAt buf s).takeWhile isSpace).length := by
  unfold Logmoko.lmkCfgTrim
  dsimp only
  split <;> rfl

/-- **`lmk_cfg_trim` は buffer の中だけを読み書きし、列の上の関数と同じ buffer を残す。** -/
theorem wp_lmkCfgTrim {Q : Nat → Mem → Prop} (hm : Inv m) (hs : Ends m.line.toList s)
    (hQ : ∀ line : Vector UInt8 cfgLineMax,
      line.toList = (Logmoko.lmkCfgTrim m.line.toList s).1 →
      Q (Logmoko.lmkCfgTrim m.line.toList s).2 { m with line }) : wp Inv (lmkCfgTrim s) Q m := by
  rw [trim_pointer] at hQ
  unfold lmkCfgTrim
  unfold Logmoko.lmkCfgTrim at hQ
  dsimp only at hQ
  refine wp_bind (wp_read (skipSpace_eq hs) ?_)
  have hnext : Ends m.line.toList (s + ((strAt m.line.toList s).takeWhile isSpace).length) :=
    hs.add (List.takeWhile_prefix _).length_le
  generalize s + ((strAt m.line.toList s).takeWhile isSpace).length = t at hnext hQ ⊢
  have hlt := hnext.lt
  rw [Vector.length_toList] at hlt
  refine wp_bind (wp_loadLine (by omega) ?_)
  refine wp_ite ?_ ?_
  · intro hzero
    rw [if_pos hzero] at hQ
    exact wp_pure (hQ m.line rfl)
  · intro hzero
    rw [if_neg hzero] at hQ
    have hpos : 0 < (strAt m.line.toList t).length := by
      refine List.length_pos_iff.mpr fun hnil => hzero ?_
      rw [charAt_eq_head, hnil]
      rfl
    have hle := trimEnd_le m.line.toList t (t + (strAt m.line.toList t).length - 1)
    refine wp_bind (wp_lineStr hnext ?_)
    refine wp_bind (wp_read (trimEnd_eq ?_ t) ?_)
    · show t + (strAt m.line.toList t).length - 1 < cfgLineMax
      omega
    · show wp Inv (storeLine (Logmoko.trimEnd _ t (t + (strAt m.line.toList t).length - 1) + 1) 0
        >>= fun _ => pure t) Q m
      refine wp_bind (wp_storeLine hm (by omega) ?_)
      intro line hline
      exact wp_pure (hQ line hline)

/-- NUL の書き込みは、文字列が buffer の中で終わることを壊さない。 -/
theorem ends_trim (h : Ends buf q) (s : Nat) : Ends (Logmoko.lmkCfgTrim buf s).1 q := by
  unfold Logmoko.lmkCfgTrim
  dsimp only
  split
  · exact h
  · exact h.set _

theorem ends_trim_pointer (h : Ends buf s) :
    Ends (Logmoko.lmkCfgTrim buf s).1 (Logmoko.lmkCfgTrim buf s).2 := by
  rw [trim_pointer]
  exact ends_trim (h.add (List.takeWhile_prefix _).length_le) s

/-! ## `strchr` と `strtok_r` -/

theorem strchr_lt {c : UInt8} (h : StrBuf.strchr buf s c = some e) :
    s ≤ e ∧ e < s + (strAt buf s).length := by
  unfold StrBuf.strchr at h
  obtain ⟨i, hi, rfl⟩ := Option.map_eq_some_iff.mp h
  have hlt := (List.findIdx?_eq_some_iff_findIdx_eq.mp hi).1
  omega

/-- 見つけた文字を NUL にすると、前の文字列も後ろの文字列も buffer の中で終わる。 -/
theorem ends_cut {c : UInt8} (h : Ends buf s) (he : StrBuf.strchr buf s c = some e) :
    Ends (buf.set e 0) s ∧ Ends (buf.set e 0) (e + 1) := by
  obtain ⟨hle, hlt⟩ := strchr_lt he
  obtain ⟨d, rfl⟩ := Nat.exists_eq_add_of_le hle
  have hafter : Ends buf (s + (d + 1)) := h.add (by omega)
  exact ⟨h.set _, hafter.set _⟩

theorem wp_strchr {c : UInt8} {Q : Option Nat → Mem → Prop} (hs : Ends m.line.toList s)
    (hQ : Q (StrBuf.strchr m.line.toList s c) m) : wp I (strchr s c) Q m :=
  wp_bind (wp_lineStr hs (wp_pure hQ))

/-- **`strtok_r` は buffer の中だけを読み書きする。** -/
theorem wp_strtokR {c : UInt8} {Q : Option Nat × Nat → Mem → Prop} (hm : Inv m)
    (hs : Ends m.line.toList s)
    (hQ : ∀ line : Vector UInt8 cfgLineMax,
      line.toList = (StrBuf.strtokR m.line.toList s c).1 →
      Q (StrBuf.strtokR m.line.toList s c).2 { m with line }) : wp Inv (strtokR s c) Q m := by
  unfold strtokR
  unfold StrBuf.strtokR at hQ
  dsimp only at hQ
  refine wp_bind (wp_lineStr hs ?_)
  have hbytes : (cstrAt m.line.toList s).bytes = strAt m.line.toList s := rfl
  rw [hbytes]
  have hnext : Ends m.line.toList (s + ((strAt m.line.toList s).takeWhile (· = c)).length) :=
    hs.add (List.takeWhile_prefix _).length_le
  generalize s + ((strAt m.line.toList s).takeWhile (· = c)).length = t at hnext hQ ⊢
  have hlt := hnext.lt
  rw [Vector.length_toList] at hlt
  refine wp_bind (wp_loadLine (by omega) ?_)
  refine wp_ite ?_ ?_
  · intro hzero
    rw [if_pos hzero] at hQ
    exact wp_pure (hQ m.line rfl)
  · intro hzero
    rw [if_neg hzero] at hQ
    refine wp_bind (wp_strchr hnext ?_)
    cases he : StrBuf.strchr m.line.toList t c with
    | none =>
      rw [he] at hQ
      refine wp_bind (wp_lineStr hnext ?_)
      exact wp_pure (hQ m.line rfl)
    | some e =>
      rw [he] at hQ
      have hbound := strchr_lt he
      refine wp_bind (wp_storeLine hm (by omega) ?_)
      intro line hline
      exact wp_pure (hQ line hline)

/-- 切り出した部分文字列も、次に始める位置の文字列も、buffer の中で終わる。 -/
theorem ends_strtokR {c : UInt8} (h : Ends buf s) :
    (∀ t ∈ (StrBuf.strtokR buf s c).2.1, Ends (StrBuf.strtokR buf s c).1 t) ∧
      Ends (StrBuf.strtokR buf s c).1 (StrBuf.strtokR buf s c).2.2 := by
  have hnext : Ends buf (s + ((strAt buf s).takeWhile (· = c)).length) :=
    h.add (List.takeWhile_prefix _).length_le
  unfold StrBuf.strtokR
  dsimp only
  generalize s + ((strAt buf s).takeWhile (· = c)).length = tok at hnext ⊢
  split
  · refine ⟨?_, hnext⟩
    intro t ht
    cases ht
  · cases he : StrBuf.strchr buf tok c with
    | none =>
      refine ⟨?_, hnext.add (Nat.le_refl _)⟩
      intro t ht
      obtain rfl := Option.some.inj ht
      exact hnext
    | some e =>
      obtain ⟨hbefore, hafter⟩ := ends_cut hnext he
      refine ⟨?_, hafter⟩
      intro t ht
      obtain rfl := Option.some.inj ht
      exact hbefore

end Logmoko.Raw
