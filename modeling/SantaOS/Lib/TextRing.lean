import SantaOS.Lib.TextRows

/-!
# Text on a ring of lines

A screen of `h` lines that starts again at its first line when it is full, and clears
nothing: row `r` of a text lies on line `r % h`, over what the rows before it have left
there. `latest` is what stands in a cell then. It is read off the rows of the text from the
last one up.
-/

namespace TextRows

variable {α : Type}

/-- The character of the last row on line `y` that reaches column `x`. -/
def latest (h : Nat) (rs : List (List α)) (y x : Nat) : Option α :=
  rs.zipIdx.reverse.findSome? fun row => if row.2 % h = y then row.1[x]? else none

example : latest 2 [[1, 2], [3], [4]] 0 0 = some 4 ∧ latest 2 [[1, 2], [3], [4]] 0 1 = some 2 := by
  decide

/-- The last row is in front of all others. -/
theorem latest_concat (h : Nat) (rs : List (List α)) (row : List α) (y x : Nat) :
    latest h (rs ++ [row]) y x =
      ((if rs.length % h = y then row[x]? else none).or (latest h rs y x)) := by
  rw [latest, List.zipIdx_append, List.reverse_append, List.findSome?_append]
  simp [latest]

/-- An empty row hides nothing. -/
theorem latest_concat_nil (h : Nat) (rs : List (List α)) (y x : Nat) :
    latest h (rs ++ [[]]) y x = latest h rs y x := by
  rw [latest_concat]
  simp

/-- A character added to the last row. -/
theorem latest_concat_concat (h : Nat) (above : List (List α)) (last : List α) (c : α)
    (y x : Nat) :
    latest h (above ++ [last ++ [c]]) y x =
      if y = above.length % h ∧ x = last.length then some c
      else latest h (above ++ [last]) y x := by
  rw [latest_concat, latest_concat]
  by_cases hy : above.length % h = y
  · rw [if_pos hy, if_pos hy]
    by_cases hx : x = last.length
    · rw [if_pos ⟨hy.symm, hx⟩, hx, List.getElem?_concat_length, Option.some_or]
    · rw [if_neg fun hyx => hx hyx.2]
      rcases Nat.lt_or_gt_of_ne hx with hlt | hgt
      · rw [List.getElem?_append_left hlt]
      · rw [List.getElem?_eq_none (by rw [List.length_append]; exact hgt),
          List.getElem?_eq_none (Nat.le_of_lt hgt)]
  · rw [if_neg hy, if_neg hy, if_neg fun hyx => hy hyx.1.symm]

end TextRows
