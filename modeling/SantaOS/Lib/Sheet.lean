import SantaOS.Lib.TextRows

/-!
# Sheets

A sheet is a page of rows of `w` cells that has a ground: each row shows its `ground` where
nothing has been put, and that of a new row is given when it begins. What a cell holds may
be more than a character, its colour for example; `Sheet.page` leaves that out, and it is
the page on which the characters alone have been put.

`cellAt` reads a list of rows like a rectangle without bounds.
-/

namespace TextRows

variable {α β : Type}

/-- What has been put in a row, and what it shows behind that. -/
structure Row (β : Type) where
  cells : List β
  ground : β

/-- The row with one more cell. -/
def Row.push (row : Row β) (c : β) : Row β := ⟨row.cells ++ [c], row.ground⟩

/-- Complete rows, and a last row that is not full. -/
structure Sheet (β : Type) (w : Nat) where
  above : List (Row β)
  last : Row β
  last_length : last.cells.length < w

namespace Sheet

variable {w : Nat}

/-- A sheet on which nothing has been put. -/
def empty (hw : 0 < w) (ground : β) : Sheet β w where
  above := []
  last := ⟨[], ground⟩
  last_length := hw

/-- All rows, the one that grows last. -/
def rows (s : Sheet β w) : List (Row β) := s.above ++ [s.last]

/-- The last row ends, and one with this ground begins. -/
def newline (s : Sheet β w) (ground : β) : Sheet β w where
  above := s.above ++ [s.last]
  last := ⟨[], ground⟩
  last_length := Nat.zero_lt_of_lt s.last_length

/-- A cell, and the ground of the row that begins if this one is full. -/
def put (s : Sheet β w) (c ground : β) : Sheet β w :=
  if h : s.last.cells.length + 1 = w then
    { above := s.above ++ [s.last.push c]
      last := ⟨[], ground⟩
      last_length := Nat.zero_lt_of_lt s.last_length }
  else
    { above := s.above
      last := s.last.push c
      last_length := by
        have hlt := s.last_length
        rw [Row.push, List.length_append, List.length_singleton]
        omega }

theorem put_of_eq {s : Sheet β w} (h : s.last.cells.length + 1 = w) (c ground : β) :
    (s.put c ground).above = s.above ++ [s.last.push c] ∧
      (s.put c ground).last = ⟨[], ground⟩ := by
  rw [put, dif_pos h]
  exact ⟨rfl, rfl⟩

theorem put_of_ne {s : Sheet β w} (h : s.last.cells.length + 1 ≠ w) (c ground : β) :
    (s.put c ground).above = s.above ∧ (s.put c ground).last = s.last.push c := by
  rw [put, dif_neg h]
  exact ⟨rfl, rfl⟩

/-! ### The page of a sheet -/

/-- The characters of the cells. -/
def page (f : β → α) (s : Sheet β w) : Page α w where
  above := s.above.map fun row => row.cells.map f
  last := s.last.cells.map f
  last_length := by
    rw [List.length_map]
    exact s.last_length

theorem page_newline (f : β → α) (s : Sheet β w) (ground : β) :
    (s.newline ground).page f = (s.page f).newline := by
  simp [page, newline, Page.newline]

theorem page_put (f : β → α) (s : Sheet β w) (c ground : β) :
    (s.put c ground).page f = (s.page f).put (f c) := by
  by_cases h : s.last.cells.length + 1 = w
  · rw [put, dif_pos h, Page.put, dif_pos (by rw [page, List.length_map]; exact h)]
    simp [page, Row.push]
  · rw [put, dif_neg h, Page.put, dif_neg (by rw [page, List.length_map]; exact h)]
    simp [page, Row.push]

end Sheet

/-! ### Cells of a list of rows -/

section CellAt

variable (ground : β)

/-- The cell in column `x` of a row. -/
def Row.cellAt (row : Row β) (x : Nat) : β := row.cells[x]?.getD row.ground

/-- The cell in row `y` and column `x`; below the rows there is the ground. -/
def cellAt (rs : List (Row β)) (y x : Nat) : β := (rs[y]?.map (·.cellAt x)).getD ground

theorem cellAt_of_lt {rs : List (Row β)} {y : Nat} (h : y < rs.length) (r : Row β) (x : Nat) :
    cellAt ground (rs ++ [r]) y x = cellAt ground rs y x := by
  rw [cellAt, List.getElem?_append_left h, ← cellAt]

theorem cellAt_last (rs : List (Row β)) (r : Row β) (x : Nat) :
    cellAt ground (rs ++ [r]) rs.length x = r.cellAt x := by
  rw [cellAt, List.getElem?_concat_length]
  rfl

theorem cellAt_of_le {rs : List (Row β)} {y : Nat} (h : rs.length ≤ y) (x : Nat) :
    cellAt ground rs y x = ground := by
  rw [cellAt, List.getElem?_eq_none h]
  rfl

/-- A row that begins. -/
theorem cellAt_concat_nil (rs : List (Row β)) (ground' : β) (y x : Nat) :
    cellAt ground (rs ++ [⟨[], ground'⟩]) y x =
      if y = rs.length then ground' else cellAt ground rs y x := by
  rcases Nat.lt_trichotomy y rs.length with h | rfl | h
  · rw [if_neg (Nat.ne_of_lt h), cellAt_of_lt ground h]
  · rw [if_pos rfl, cellAt_last]
    rfl
  · rw [if_neg (Nat.ne_of_gt h), cellAt_of_le ground (by rwa [List.length_append]),
      cellAt_of_le ground (Nat.le_of_lt h)]

/-- A cell added to the last row. -/
theorem cellAt_push (above : List (Row β)) (last : Row β) (c : β) (y x : Nat) :
    cellAt ground (above ++ [last.push c]) y x =
      if y = above.length ∧ x = last.cells.length then c
      else cellAt ground (above ++ [last]) y x := by
  rcases Nat.lt_trichotomy y above.length with h | rfl | h
  · rw [if_neg fun hyx => Nat.ne_of_lt h hyx.1, cellAt_of_lt ground h, cellAt_of_lt ground h]
  · rw [cellAt_last, cellAt_last, Row.cellAt, Row.push, Row.cellAt]
    by_cases hx : x = last.cells.length
    · rw [if_pos ⟨rfl, hx⟩, hx, List.getElem?_concat_length, Option.getD_some]
    · rw [if_neg fun hyx => hx hyx.2]
      rcases Nat.lt_or_gt_of_ne hx with hlt | hgt
      · rw [List.getElem?_append_left hlt]
      · rw [List.getElem?_eq_none (by rwa [List.length_append]),
          List.getElem?_eq_none (Nat.le_of_lt hgt)]
  · rw [if_neg fun hyx => Nat.ne_of_gt h hyx.1,
      cellAt_of_le ground (by rwa [List.length_append]),
      cellAt_of_le ground (by rwa [List.length_append])]

/-- A list of rows without its first ones. -/
theorem cellAt_drop (rs : List (Row β)) (k y x : Nat) :
    cellAt ground (rs.drop k) y x = cellAt ground rs (k + y) x := by
  rw [cellAt, List.getElem?_drop, ← cellAt]

end CellAt

end TextRows
