import Logmoko.Format.Json

/-!
# JSON の escape

`lmk_json_escape` が書いた文字列は、どこで打ち切られても、文字列の中身として最後まで読める
（`lmkJsonEscape_sound`）。

loop は入力を 1 byte ずつ、出力を 1 byte か 2 byte ずつ進めるが、境界の検査は一つである。
残りが 2 byte あるときにしか書き始めないので、escape の途中で打ち切られることがない。

* `escapeInto` — 書き込みを添字ごとに行う、loop そのものの写し
* `scanContents` — 三つの escape だけを認めて、終端の NUL まで読む
-/

namespace Logmoko

/-! ## buffer への書き込み -/

/-- 書き込み先の配列と、書き込んだ添字を順に並べたもの。 -/
structure EscapeDst where
  mem : Nat → UInt8
  stored : List Nat

/-- `dst[i] = b`。 -/
def EscapeDst.store (dst : EscapeDst) (i : Nat) (b : UInt8) : EscapeDst :=
  { mem := Buffer.write dst.mem i [b], stored := dst.stored ++ [i] }

/-- 添字 `i` から続けて書く。 -/
def EscapeDst.storeAll (dst : EscapeDst) (i : Nat) : List UInt8 → EscapeDst
  | [] => dst
  | b :: bytes => (dst.store i b).storeAll (i + 1) bytes

/-- `lmk_json_escape`。loop を抜けた後に終端の NUL を書く。 -/
def escapeInto (dstSize : Nat) (dst : EscapeDst) (i : Nat) : List UInt8 → EscapeDst
  | [] => dst.store i 0
  | c :: src =>
    if i + 2 < dstSize then
      if c = 34 ∨ c = 92 then
        escapeInto dstSize ((dst.store i 92).store (i + 1) c) (i + 2) src
      else if c = 10 then
        escapeInto dstSize ((dst.store i 92).store (i + 1) 110) (i + 2) src
      else escapeInto dstSize (dst.store i c) (i + 1) src
    else dst.store i 0

/-- loop が書くのは `lmkJsonEscape` の列と終端の NUL である。 -/
theorem escapeInto_eq (dstSize : Nat) (dst : EscapeDst) (i : Nat) (src : List UInt8) :
    escapeInto dstSize dst i src = dst.storeAll i (lmkJsonEscape dstSize i src ++ [0]) := by
  induction src generalizing dst i with
  | nil => rfl
  | cons c src ih =>
    rw [escapeInto, lmkJsonEscape]
    by_cases hi : i + 2 < dstSize
    · rw [if_pos hi, if_pos hi]
      by_cases hq : c = 34 ∨ c = 92
      · rw [if_pos hq, if_pos hq, ih]
        rfl
      · rw [if_neg hq, if_neg hq]
        by_cases hn : c = 10
        · rw [if_pos hn, if_pos hn, ih]
          rfl
        · rw [if_neg hn, if_neg hn, ih]
          rfl
    · rw [if_neg hi, if_neg hi]
      rfl

theorem stored_storeAll (dst : EscapeDst) (i : Nat) (bytes : List UInt8) :
    (dst.storeAll i bytes).stored = dst.stored ++ List.range' i bytes.length := by
  induction bytes generalizing dst i with
  | nil => simp [EscapeDst.storeAll]
  | cons b bytes ih =>
    rw [EscapeDst.storeAll, ih, List.length_cons, List.range'_succ]
    simp [EscapeDst.store]

/-- 書いた範囲より前は変わらない。 -/
theorem mem_storeAll_of_lt (dst : EscapeDst) {i k : Nat} (bytes : List UInt8) (h : k < i) :
    (dst.storeAll i bytes).mem k = dst.mem k := by
  induction bytes generalizing dst i with
  | nil => rfl
  | cons b bytes ih =>
    rw [EscapeDst.storeAll, ih _ (by omega)]
    exact Buffer.overlay_of_lt h

theorem read_storeAll (dst : EscapeDst) (i : Nat) (bytes : List UInt8) :
    Buffer.read (dst.storeAll i bytes).mem i bytes.length = bytes := by
  induction bytes generalizing dst i with
  | nil => rfl
  | cons b bytes ih =>
    have hhead : ((dst.store i b).storeAll (i + 1) bytes).mem i = b := by
      rw [mem_storeAll_of_lt _ _ (Nat.lt_succ_self i)]
      simp [EscapeDst.store, Buffer.write, Buffer.overlay]
    rw [List.length_cons, Nat.add_comm bytes.length 1, Buffer.read_add, EscapeDst.storeAll, ih]
    show [((dst.store i b).storeAll (i + 1) bytes).mem i] ++ bytes = b :: bytes
    rw [hhead]
    rfl

/-! ## 書く列 -/

theorem length_escByte (b : UInt8) : 0 < (escByte b).length ∧ (escByte b).length ≤ 2 := by
  unfold escByte
  split
  · simp
  · split <;> simp

/-- 終端の NUL も配列に収まる。 -/
theorem length_lmkJsonEscape_lt {dstSize i : Nat} (src : List UInt8) (h : i < dstSize) :
    i + (lmkJsonEscape dstSize i src).length < dstSize := by
  induction src generalizing i with
  | nil => simpa [lmkJsonEscape] using h
  | cons c src ih =>
    rw [lmkJsonEscape_cons]
    by_cases hi : i + 2 < dstSize
    · rw [if_pos hi, List.length_append]
      have hle := (length_escByte c).2
      have := ih (i := i + (escByte c).length) (by omega)
      omega
    · rw [if_neg hi]
      exact h

theorem mem_escByte {b c : UInt8} (h : c ∈ escByte b) : c = 92 ∨ c = 110 ∨ c = b ∧ b ≠ 10 := by
  unfold escByte at h
  split at h
  · next hq =>
    rcases List.mem_pair.mp h with rfl | rfl
    · exact Or.inl rfl
    · refine Or.inr (Or.inr ⟨rfl, ?_⟩)
      rintro rfl
      exact absurd hq (by decide)
  · split at h
    · rcases List.mem_pair.mp h with rfl | rfl
      · exact Or.inl rfl
      · exact Or.inr (Or.inl rfl)
    · next hn => exact Or.inr (Or.inr ⟨List.mem_singleton.mp h, hn⟩)

/-- NUL も改行も書かない。 -/
theorem mem_flatMap_escByte {done : List UInt8} {c : UInt8} (hnul : 0 ∉ done)
    (h : c ∈ done.flatMap escByte) : c ≠ 0 ∧ c ≠ 10 := by
  obtain ⟨b, hb, hc⟩ := List.mem_flatMap.mp h
  rcases mem_escByte hc with rfl | rfl | ⟨rfl, hn⟩
  · decide
  · decide
  · refine ⟨?_, hn⟩
    rintro rfl
    exact hnul hb

/-! ## 引用符の前の逆斜線 -/

/-- 末尾に続く逆斜線の個数。 -/
def trailingBackslashes (bytes : List UInt8) : Nat :=
  (bytes.reverse.takeWhile (· = 92)).length

/-- 引用符の直前の逆斜線は、そこで escape を始めるものである。 -/
theorem flatMap_escByte_quote {done xs ys : List UInt8}
    (h : done.flatMap escByte = xs ++ 34 :: ys) :
    ∃ kept, xs = List.flatMap escByte kept ++ [92] := by
  induction done generalizing xs with
  | nil => simp at h
  | cons b done ih =>
    -- escape の残りに引用符があるときは、先頭の escape を足して戻す。
    have hrest : ∀ zs, xs = escByte b ++ zs → done.flatMap escByte = zs ++ 34 :: ys →
        ∃ kept, xs = List.flatMap escByte kept ++ [92] := by
      intro zs hxs hzs
      obtain ⟨kept, hkept⟩ := ih hzs
      exact ⟨b :: kept, by rw [hxs, hkept, List.flatMap_cons, List.append_assoc]⟩
    rw [List.flatMap_cons] at h
    rcases List.append_eq_append_iff.mp h with ⟨zs, hxs, hzs⟩ | ⟨zs, hesc, hzs⟩
    · exact hrest zs hxs hzs
    · cases zs with
      | nil => exact hrest [] (by simpa using hesc.symm) (by simpa using hzs.symm)
      | cons q zs =>
        obtain ⟨rfl, -⟩ := List.cons.inj hzs
        refine ⟨[], ?_⟩
        unfold escByte at hesc
        split at hesc
        · rcases xs with _ | ⟨x, _ | ⟨y, xs⟩⟩
          · exact absurd (List.cons.inj hesc).1 (by decide)
          · exact congrArg (· :: []) (List.cons.inj hesc).1.symm
          · simp at hesc
        · split at hesc
          · rcases xs with _ | ⟨x, _ | ⟨y, xs⟩⟩
            · exact absurd (List.cons.inj hesc).1 (by decide)
            · exact absurd (List.cons.inj (List.cons.inj hesc).2).1 (by decide)
            · simp at hesc
          · next hq _ =>
            rcases xs with _ | ⟨x, xs⟩
            · exact absurd (Or.inl (List.cons.inj hesc).1) hq
            · simp at hesc

/-- escape を並べた列の末尾の逆斜線は、二つずつ組になっている。 -/
theorem even_trailingBackslashes (kept : List UInt8) :
    Even (trailingBackslashes (kept.flatMap escByte)) := by
  induction kept using List.reverseRecOn with
  | nil => exact Even.zero
  | append_singleton kept b ih =>
    rw [List.flatMap_append, List.flatMap_singleton, trailingBackslashes, List.reverse_append]
    unfold escByte
    split
    · next hq =>
      rcases hq with rfl | rfl
      · exact Even.zero
      · show Even (trailingBackslashes (kept.flatMap escByte) + 1 + 1)
        exact (ih.add_one).add_one
    · next hq =>
      rw [not_or] at hq
      split
      · exact Even.zero
      · rw [List.reverse_singleton, List.singleton_append,
          List.takeWhile_cons_of_neg (by simpa using hq.2)]
        exact Even.zero

theorem odd_trailingBackslashes (kept : List UInt8) :
    Odd (trailingBackslashes (kept.flatMap escByte ++ [92])) := by
  rw [trailingBackslashes, List.reverse_append]
  show Odd (trailingBackslashes (kept.flatMap escByte) + 1)
  exact (even_trailingBackslashes kept).add_one

/-! ## 文字列の中身としての読み取り -/

/-- 逆斜線の次の byte が表す byte。 -/
def unescape (e : UInt8) : Option UInt8 :=
  if e = 34 ∨ e = 92 then some e else if e = 110 then some 10 else none

/--
終端の NUL までを文字列の中身として読み、中身と NUL の後の残りを返す。
引用符がそのまま現れるか、escape が途中で終わっていれば読めない。
-/
def scanContents : List UInt8 → Option (List UInt8 × List UInt8)
  | [] => none
  | b :: rest =>
    if b = 0 then some ([], rest)
    else if b = 34 then none
    else if b = 92 then
      match rest with
      | [] => none
      | e :: rest' => (unescape e).bind fun c => (scanContents rest').map fun p => (c :: p.1, p.2)
    else (scanContents rest).map fun p => (b :: p.1, p.2)

theorem scanContents_nul (s : List UInt8) : scanContents (0 :: s) = some ([], s) := by
  unfold scanContents
  exact if_pos rfl

theorem scanContents_plain {b : UInt8} (h₀ : b ≠ 0) (h₁ : b ≠ 34) (h₂ : b ≠ 92)
    (s : List UInt8) :
    scanContents (b :: s) = (scanContents s).map fun p => (b :: p.1, p.2) := by
  conv_lhs => unfold scanContents
  rw [if_neg h₀, if_neg h₁, if_neg h₂]

theorem scanContents_escape {e c : UInt8} (h : unescape e = some c) (s : List UInt8) :
    scanContents (92 :: e :: s) = (scanContents s).map fun p => (c :: p.1, p.2) := by
  rw [scanContents, if_neg (by decide), if_neg (by decide), if_pos rfl, h]
  rfl

theorem scanContents_escByte {b : UInt8} (hb : b ≠ 0) (s : List UInt8) :
    scanContents (escByte b ++ s) = (scanContents s).map fun p => (b :: p.1, p.2) := by
  unfold escByte
  split
  · next hq => exact scanContents_escape (if_pos hq) s
  · next hq =>
    rw [not_or] at hq
    split
    · next hn =>
      subst hn
      exact scanContents_escape rfl s
    · exact scanContents_plain hb hq.1 hq.2 s

theorem scanContents_flatMap {done : List UInt8} (h : 0 ∉ done) (s : List UInt8) :
    scanContents (done.flatMap escByte ++ 0 :: s) = some (done, s) := by
  induction done with
  | nil => exact scanContents_nul s
  | cons b done ih =>
    rw [List.mem_cons, not_or] at h
    rw [List.flatMap_cons, List.append_assoc, scanContents_escByte (Ne.symm h.1), ih h.2]
    rfl

/-- escape した列から、元の列が一つに決まる。 -/
theorem flatMap_escByte_injective {done done' : List UInt8} (h : 0 ∉ done) (h' : 0 ∉ done')
    (heq : done.flatMap escByte = done'.flatMap escByte) : done = done' := by
  have hscan := scanContents_flatMap h []
  rw [heq, scanContents_flatMap h' []] at hscan
  exact (congrArg Prod.fst (Option.some.inj hscan)).symm

/-! ## 打ち切りの前に入力が尽きる条件 -/

/-- escape した長さが `dst_size - 2` 以内なら、打ち切られない。 -/
theorem rest_eq_nil_of_fits {dstSize : Nat} {src done rest : List UInt8}
    (hsrc : src = done ++ rest) (hrest : rest ≠ [] → dstSize ≤ 0 + escapedLength done + 2)
    (h : escapedLength src + 2 ≤ dstSize) : rest = [] := by
  by_contra hne
  have hfull := hrest hne
  obtain ⟨b, rest, rfl⟩ := List.exists_cons_of_ne_nil hne
  have hpos := (length_escByte b).1
  rw [hsrc] at h
  simp only [escapedLength, List.flatMap_append, List.flatMap_cons, List.length_append] at h hfull
  omega

/-! ## まとめ -/

/-- 大きさ `dstSize` の配列に `src` を escape した結果についての約束。 -/
structure EscapeSound (dstSize : Nat) (src : List UInt8) (dst : EscapeDst) : Prop where
  /-- 終端の NUL を含めて、配列の外には書かない。 -/
  inBounds : ∀ i ∈ dst.stored, i < dstSize
  /-- 書いた文字列のすぐ後が、自分で書いた終端の NUL である。 -/
  terminated : (untilNul dst.mem dstSize).length ∈ dst.stored ∧
    dst.mem (untilNul dst.mem dstSize).length = 0
  noNewline : 10 ∉ untilNul dst.mem dstSize
  /-- 引用符の前には、他の逆斜線に escape されていない逆斜線がある。 -/
  quotesEscaped : ∀ xs ys, untilNul dst.mem dstSize = xs ++ 34 :: ys →
    Odd (trailingBackslashes xs)
  /-- 中身として読むと、ちょうど終端の NUL で終わり、入力の先頭の部分に戻る。 -/
  decodes : ∃ done rest, src = done ++ rest ∧
    scanContents (Buffer.read dst.mem 0 dstSize) = some (done,
      Buffer.read dst.mem ((untilNul dst.mem dstSize).length + 1)
        (dstSize - ((untilNul dst.mem dstSize).length + 1))) ∧
    (escapedLength src + 2 ≤ dstSize → rest = [])

/-- 配列は、書いた列、終端の NUL、触れていない残りの順に並ぶ。 -/
theorem read_escapeInto {dstSize : Nat} (hsize : 1 ≤ dstSize) (mem : Nat → UInt8)
    (src : List UInt8) {out : List UInt8} (hout : lmkJsonEscape dstSize 0 src = out)
    {dst : EscapeDst} (hdst : escapeInto dstSize ⟨mem, []⟩ 0 src = dst) :
    Buffer.read dst.mem 0 dstSize =
      out ++ 0 :: Buffer.read dst.mem (out.length + 1) (dstSize - (out.length + 1)) := by
  have hlen := length_lmkJsonEscape_lt src hsize
  rw [hout] at hlen
  have hhead : Buffer.read dst.mem 0 (out.length + 1) = out ++ [0] := by
    rw [← hdst, escapeInto_eq, hout]
    have := read_storeAll ⟨mem, []⟩ 0 (out ++ [0])
    rwa [List.length_append] at this
  have hsplit : dstSize = (out.length + 1) + (dstSize - (out.length + 1)) := by omega
  conv_lhs => rw [hsplit, Buffer.read_add, hhead]
  rw [Nat.zero_add, List.append_assoc]
  rfl

/-- NUL を含まない列の後に NUL があれば、文字列はその列である。 -/
theorem untilNul_eq_of_read {mem : Nat → UInt8} {size : Nat} {out s : List UInt8}
    (hnul : 0 ∉ out) (h : Buffer.read mem 0 size = out ++ 0 :: s) : untilNul mem size = out := by
  rw [untilNul, h, List.takeWhile_append_of_pos]
  · simp
  · intro b hb
    have hne : b ≠ 0 := by
      rintro rfl
      exact hnul hb
    simpa using hne

/-- 書いた文字列は、入力の先頭の部分を escape したものである。 -/
theorem escapeInto_string (dstSize : Nat) (hsize : 1 ≤ dstSize) (mem : Nat → UInt8)
    (src : CStr) :
    ∃ done rest, src.bytes = done ++ rest ∧
      lmkJsonEscape dstSize 0 src.bytes = done.flatMap escByte ∧
      untilNul (escapeInto dstSize ⟨mem, []⟩ 0 src.bytes).mem dstSize = done.flatMap escByte ∧
      (escapedLength src.bytes + 2 ≤ dstSize → rest = []) := by
  obtain ⟨done, rest, hsrc, hout, hrest, -⟩ := lmkJsonEscape_eq dstSize 0 src.bytes
  have hdone : 0 ∉ done := fun h => src.noNul (hsrc ▸ List.mem_append_left _ h)
  refine ⟨done, rest, hsrc, hout, ?_, rest_eq_nil_of_fits hsrc hrest⟩
  exact untilNul_eq_of_read (fun h => (mem_flatMap_escByte hdone h).1 rfl)
    (read_escapeInto hsize mem src.bytes hout rfl)

theorem escapeSound (dstSize : Nat) (hsize : 1 ≤ dstSize) (mem : Nat → UInt8) (src : CStr) :
    EscapeSound dstSize src.bytes (escapeInto dstSize ⟨mem, []⟩ 0 src.bytes) := by
  obtain ⟨done, rest, hsrc, hout, hstr, hfits⟩ := escapeInto_string dstSize hsize mem src
  have hdone : 0 ∉ done := fun h => src.noNul (hsrc ▸ List.mem_append_left _ h)
  have hlen := length_lmkJsonEscape_lt src.bytes hsize
  have hread := read_escapeInto hsize mem src.bytes hout rfl
  have hstored : (escapeInto dstSize ⟨mem, []⟩ 0 src.bytes).stored =
      List.range' 0 ((done.flatMap escByte).length + 1) := by
    rw [escapeInto_eq, stored_storeAll, hout]
    simp
  generalize escapeInto dstSize ⟨mem, []⟩ 0 src.bytes = dst at hread hstored hstr ⊢
  rw [hout] at hlen
  refine ⟨?_, ⟨?_, ?_⟩, ?_, ?_, done, rest, hsrc, ?_, hfits⟩
  · intro i hi
    rw [hstored] at hi
    have := List.mem_range'_1.mp hi
    omega
  · rw [hstr, hstored]
    exact List.mem_range'_1.mpr (by omega)
  · rw [hstr]
    have hget : (Buffer.read dst.mem 0 dstSize)[(done.flatMap escByte).length]? =
        some (dst.mem (0 + (done.flatMap escByte).length)) :=
      Buffer.getElem?_read dst.mem 0 (by omega)
    rw [hread, List.getElem?_append_right (Nat.le_refl _), Nat.sub_self, Nat.zero_add] at hget
    exact (Option.some.inj hget).symm
  · rw [hstr]
    exact fun h => (mem_flatMap_escByte hdone h).2 rfl
  · intro xs ys hxs
    rw [hstr] at hxs
    obtain ⟨kept, rfl⟩ := flatMap_escByte_quote hxs
    exact odd_trailingBackslashes kept
  · rw [hstr, hread]
    exact scanContents_flatMap hdone _

/--
**escape は、大きさが 1 以上のどの配列でも、中身として最後まで読める文字列を書く。**
同じ文字列になる二つの入力は、残した部分が等しい。
-/
theorem lmkJsonEscape_sound (dstSize : Nat) (hsize : 1 ≤ dstSize) (mem mem' : Nat → UInt8)
    (src src' : CStr) :
    EscapeSound dstSize src.bytes (escapeInto dstSize ⟨mem, []⟩ 0 src.bytes) ∧
    (untilNul (escapeInto dstSize ⟨mem, []⟩ 0 src.bytes).mem dstSize =
        untilNul (escapeInto dstSize ⟨mem', []⟩ 0 src'.bytes).mem dstSize →
      ∃ done rest rest', src.bytes = done ++ rest ∧ src'.bytes = done ++ rest' ∧
        (escapedLength src.bytes + 2 ≤ dstSize → rest = []) ∧
        (escapedLength src'.bytes + 2 ≤ dstSize → rest' = [])) := by
  refine ⟨escapeSound dstSize hsize mem src, ?_⟩
  intro hsame
  obtain ⟨done, rest, hsrc, -, hstr, hfits⟩ := escapeInto_string dstSize hsize mem src
  obtain ⟨done', rest', hsrc', -, hstr', hfits'⟩ := escapeInto_string dstSize hsize mem' src'
  have hdone : 0 ∉ done := fun h => src.noNul (hsrc ▸ List.mem_append_left _ h)
  have hdone' : 0 ∉ done' := fun h => src'.noNul (hsrc' ▸ List.mem_append_left _ h)
  rw [hstr, hstr'] at hsame
  obtain rfl := flatMap_escByte_injective hdone hdone' hsame
  exact ⟨done, rest, rest', hsrc, hsrc', hfits, hfits'⟩

/-- 大きさ 4 の配列に `a""` を escape すると、二つ目の引用符は escape ごと落ちる。 -/
theorem lmkJsonEscape_sound_four :
    EscapeSound 4 [97, 34, 34] (escapeInto 4 ⟨fun _ => 255, []⟩ 0 [97, 34, 34]) :=
  (lmkJsonEscape_sound 4 (by decide) (fun _ => 255) (fun _ => 255) ⟨[97, 34, 34], by decide⟩
    .empty).1

end Logmoko
