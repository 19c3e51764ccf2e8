import Mathlib.Data.List.Basic

/-!
# 断片の列を区切ったもの

断片 `pieces` を順に受け取り、溜めておき、ある時に今の区間へ渡し、ある時に区間を閉じる。
`Split` は、閉じた区間・今の区間・溜まっている分が、どれも断片を丸ごと、順に、
重ならず並べたものであることを述べる。断片が二つの区間にまたがることはない。
-/

namespace Segments

variable {α : Type*}

/-- 閉じた区間 `closed`、今の区間 `current`、溜まっている分 `rest` が断片の列を分けている。 -/
def Split (pieces closed : List (List α)) (current rest : List α) : Prop :=
  ∃ (parts : List (List (List α))) (cur tail : List (List α)),
    pieces = parts.flatten ++ cur ++ tail ∧
    closed = parts.map List.flatten ∧ current = cur.flatten ∧ rest = tail.flatten

variable {pieces closed : List (List α)} {current rest : List α}

theorem Split.empty : Split ([] : List (List α)) [] [] [] := ⟨[], [], [], rfl, rfl, rfl, rfl⟩

/-- 断片を一つ溜める。 -/
theorem Split.push (h : Split pieces closed current rest) (x : List α) :
    Split (pieces ++ [x]) closed current (rest ++ x) := by
  obtain ⟨parts, cur, tail, rfl, rfl, rfl, rfl⟩ := h
  exact ⟨parts, cur, tail ++ [x], by simp, rfl, rfl, by simp⟩

/-- 溜まっている分を今の区間へ渡す。 -/
theorem Split.hand (h : Split pieces closed current rest) :
    Split pieces closed (current ++ rest) [] := by
  obtain ⟨parts, cur, tail, rfl, rfl, rfl, rfl⟩ := h
  exact ⟨parts, cur ++ tail, [], by simp, rfl, by simp, rfl⟩

/-- 今の区間を閉じる。 -/
theorem Split.close (h : Split pieces closed current rest) :
    Split pieces (closed ++ [current]) [] rest := by
  obtain ⟨parts, cur, tail, rfl, rfl, rfl, rfl⟩ := h
  exact ⟨parts ++ [cur], [], tail, by simp, by simp, rfl, rfl⟩

/-- 区間を並べると、受け取った断片を並べたものになる。 -/
theorem Split.flatten_eq (h : Split pieces closed current rest) :
    closed.flatten ++ current ++ rest = pieces.flatten := by
  obtain ⟨parts, cur, tail, rfl, rfl, rfl, rfl⟩ := h
  simp [List.flatten_flatten]

/--
捨てる古い区間は断片の列の先頭を、残りは末尾を並べたものである。断片の途中では切れない。
-/
theorem Split.drop (h : Split pieces closed current rest) (i : Nat) :
    ∃ j, (closed.drop i).flatten ++ current ++ rest = (pieces.drop j).flatten ∧
      (closed.take i).flatten = (pieces.take j).flatten ∧ (i = 0 → j = 0) := by
  obtain ⟨parts, cur, tail, rfl, rfl, rfl, rfl⟩ := h
  have hparts : parts.flatten = (parts.take i).flatten ++ (parts.drop i).flatten := by
    rw [← List.flatten_append, List.take_append_drop]
  refine ⟨(parts.take i).flatten.length, ?_, ?_, ?_⟩
  · rw [hparts]
    simp only [List.append_assoc, List.drop_left, ← List.map_drop, List.flatten_append,
      List.flatten_flatten]
  · rw [hparts]
    simp only [List.append_assoc, List.take_left, ← List.map_take, List.flatten_flatten]
  · rintro rfl
    rfl

end Segments
