import Mathlib.Data.List.Induction

/-!
# Text in rows

Text laid out in rows of `w` characters. `rows` is the layout of a whole text: a line
starts a row, and so does the character behind a full row; a line that ends with a full
row is followed by an empty one. A `Page` is such a layout as it grows: complete rows,
and a last row that is not full. `rows_type` says that a page filled character by
character is the layout of its text.

`charAt` reads a layout like a rectangle without bounds, `blank` where there is no text.

Design points:
* A `Page` has the bound on its last row for a field, so that no function on pages has to be
  given it.
* `rows` is the specification, by cutting lines; a page is how a terminal meets it, character
  by character. `rows_type` connects the two.
-/

namespace TextRows

variable {α : Type}

/-! ### The layout of a text -/

/-- A line cut into rows; the last one is not full. -/
def wrap (w : Nat) (line : List α) : List (List α) :=
  (List.range (line.length / w + 1)).map fun k => (line.drop (w * k)).take w

/-- The rows of a text whose lines are separated by `nl`. -/
def rows [BEq α] (nl : α) (w : Nat) (text : List α) : List (List α) :=
  (text.splitOn nl).flatMap (wrap w)

example : rows 0 3 [1, 2, 3, 0, 4] = [[1, 2, 3], [], [4]] := by decide

/-- All rows of a line but the last. -/
def fullRows (w : Nat) (line : List α) : List (List α) :=
  (List.range (line.length / w)).map fun k => (line.drop (w * k)).take w

/-- The last row of a line. -/
def lastRow (w : Nat) (line : List α) : List α := line.drop (w * (line.length / w))

theorem length_lastRow (w : Nat) (line : List α) :
    (lastRow w line).length = line.length % w := by
  have h := Nat.div_add_mod line.length w
  rw [lastRow, List.length_drop]
  omega

section Wrap

variable {w : Nat} (hw : 0 < w) (line : List α) (c : α)

include hw

theorem wrap_eq : wrap w line = fullRows w line ++ [lastRow w line] := by
  have hlength := length_lastRow w line
  rw [wrap, List.range_succ, List.map_append, List.map_singleton, fullRows, ← lastRow,
    List.take_of_length_le]
  rw [hlength]
  exact Nat.le_of_lt (Nat.mod_lt _ hw)

theorem wrap_nil : wrap w ([] : List α) = [[]] := by
  rw [wrap_eq hw]
  simp [fullRows, lastRow]

/-- The full rows do not see a character that is added to the line. -/
theorem fullRows_concat :
    (List.range (line.length / w)).map (fun k => ((line ++ [c]).drop (w * k)).take w) =
      fullRows w line := by
  refine List.map_congr_left fun k hk => ?_
  have hle : w * (k + 1) ≤ line.length :=
    Nat.le_trans (Nat.mul_le_mul_left w (List.mem_range.mp hk)) (Nat.mul_div_le _ _)
  rw [Nat.mul_succ] at hle
  rw [List.drop_append_of_le_length (by omega), List.take_append_of_le_length]
  rw [List.length_drop]
  omega

/-- A character that does not fill the last row goes to its end. -/
theorem wrap_concat_of_lt (h : (lastRow w line).length + 1 < w) :
    wrap w (line ++ [c]) = fullRows w line ++ [lastRow w line ++ [c]] := by
  have hdiv : (line ++ [c]).length / w = line.length / w := by
    rw [length_lastRow] at h
    have hsum := Nat.div_add_mod line.length w
    rw [List.length_append, List.length_singleton, ← hsum, Nat.add_assoc, Nat.mul_add_div hw,
      Nat.div_eq_of_lt h, hsum, Nat.add_zero]
  rw [wrap_eq hw, fullRows, hdiv, fullRows_concat hw, lastRow, hdiv,
    List.drop_append_of_le_length (Nat.mul_div_le _ _), ← lastRow]

/-- A character that fills the last row is followed by an empty row. -/
theorem wrap_concat_of_eq (h : (lastRow w line).length + 1 = w) :
    wrap w (line ++ [c]) = fullRows w line ++ [lastRow w line ++ [c]] ++ [[]] := by
  have hlength := h
  rw [length_lastRow] at hlength
  have hsum := Nat.div_add_mod line.length w
  have hdiv : (line ++ [c]).length / w = line.length / w + 1 := by
    rw [List.length_append, List.length_singleton, ← hsum, Nat.add_assoc, hlength,
      Nat.mul_add_div hw, Nat.div_self hw, hsum]
  have hfull : ((line ++ [c]).drop (w * (line.length / w))).take w = lastRow w line ++ [c] := by
    rw [List.drop_append_of_le_length (Nat.mul_div_le _ _), ← lastRow, List.take_of_length_le]
    rw [List.length_append, List.length_singleton]
    exact Nat.le_of_eq h
  have hend : lastRow w (line ++ [c]) = [] := by
    rw [lastRow, hdiv]
    refine List.drop_of_length_le ?_
    rw [List.length_append, List.length_singleton, Nat.mul_succ]
    omega
  rw [wrap_eq hw, fullRows, hdiv, List.range_succ, List.map_append, fullRows_concat hw,
    List.map_singleton, hfull, hend]

end Wrap

/-! ### Adding a character to a text -/

section Lines

variable [BEq α] {nl : α}

/-- The last line, and the lines before it. -/
theorem exists_splitOn_eq (nl : α) (text : List α) :
    ∃ lines line, text.splitOn nl = lines ++ [line] :=
  ⟨_, _, (List.dropLast_concat_getLast (List.splitOn_ne_nil nl text)).symm⟩

variable [LawfulBEq α]

theorem splitOn_concat_self (text : List α) :
    (text ++ [nl]).splitOn nl = text.splitOn nl ++ [[]] := by
  rw [List.splitOn_append_cons_self, List.splitOn_nil]

theorem splitOn_concat_of_ne {text line : List α} {lines : List (List α)} {c : α} (hc : c ≠ nl)
    (h : text.splitOn nl = lines ++ [line]) :
    (text ++ [c]).splitOn nl = lines ++ [line ++ [c]] := by
  induction text generalizing lines line with
  | nil =>
    rw [List.splitOn_nil] at h
    obtain ⟨rfl, hline⟩ := List.append_eq_singleton_iff.mp h.symm |>.resolve_right (by simp)
    obtain rfl := (List.cons_eq_cons.mp hline).1
    rw [List.nil_append, List.splitOn_eq_singleton (by simpa using hc.symm)]
    rfl
  | cons a text ih =>
    rw [List.cons_append, List.splitOn_cons_eq_if_modifyHead]
    rw [List.splitOn_cons_eq_if_modifyHead] at h
    obtain ⟨lines', line', hsplit⟩ := exists_splitOn_eq nl text
    rw [ih hsplit]
    rw [hsplit] at h
    by_cases ha : a == nl
    · rw [if_pos ha] at h ⊢
      rw [← List.cons_append] at h ⊢
      obtain ⟨rfl, hline⟩ := List.append_inj' h rfl
      obtain rfl := (List.cons_eq_cons.mp hline).1
      rfl
    · rw [if_neg ha] at h ⊢
      cases lines' with
      | nil =>
        have h : [] ++ [a :: line'] = lines ++ [line] := h
        obtain ⟨rfl, hline⟩ := List.append_inj' h rfl
        obtain rfl := (List.cons_eq_cons.mp hline).1
        rfl
      | cons l lines' =>
        rw [List.cons_append, List.modifyHead_cons, ← List.cons_append] at h ⊢
        obtain ⟨rfl, hline⟩ := List.append_inj' h rfl
        obtain rfl := (List.cons_eq_cons.mp hline).1
        rfl

variable {w : Nat} (hw : 0 < w)

include hw

/-- A newline starts an empty row. -/
theorem rows_concat_self (text : List α) : rows nl w (text ++ [nl]) = rows nl w text ++ [[]] := by
  rw [rows, splitOn_concat_self, List.flatMap_append, List.flatMap_singleton, wrap_nil hw, rows]

/-- Another character goes to the end of the last row, and may fill it. -/
theorem rows_concat_of_ne {text : List α} {c : α} (hc : c ≠ nl) {above : List (List α)}
    {last : List α} (h : rows nl w text = above ++ [last]) :
    rows nl w (text ++ [c]) =
      if last.length + 1 = w then above ++ [last ++ [c]] ++ [[]] else above ++ [last ++ [c]] := by
  obtain ⟨lines, line, hsplit⟩ := exists_splitOn_eq nl text
  rw [rows, hsplit, List.flatMap_append, List.flatMap_singleton, wrap_eq hw,
    ← List.append_assoc] at h
  obtain ⟨habove, hlast⟩ := List.append_inj' h rfl
  obtain rfl := (List.cons_eq_cons.mp hlast).1
  rw [rows, splitOn_concat_of_ne hc hsplit, List.flatMap_append, List.flatMap_singleton, ← habove]
  split
  · rename_i heq
    rw [wrap_concat_of_eq hw line c heq]
    simp only [List.append_assoc]
  · rename_i hne
    have hlt := Nat.mod_lt line.length hw
    rw [← length_lastRow] at hlt
    rw [wrap_concat_of_lt hw line c (by omega), List.append_assoc]

end Lines

/-! ### Pages -/

/-- A layout that grows at its end. -/
structure Page (α : Type) (w : Nat) where
  above : List (List α)
  last : List α
  last_length : last.length < w

namespace Page

variable {w : Nat}

/-- A page without text. -/
def empty (hw : 0 < w) : Page α w where
  above := []
  last := []
  last_length := hw

/-- All rows, the one that grows last. -/
def rows (p : Page α w) : List (List α) := p.above ++ [p.last]

/-- The last row ends, and another begins. -/
def newline (p : Page α w) : Page α w where
  above := p.above ++ [p.last]
  last := []
  last_length := Nat.zero_lt_of_lt p.last_length

/-- A character that is no newline. -/
def put (p : Page α w) (c : α) : Page α w :=
  if h : p.last.length + 1 = w then
    { above := p.above ++ [p.last ++ [c]]
      last := []
      last_length := Nat.zero_lt_of_lt p.last_length }
  else
    { above := p.above
      last := p.last ++ [c]
      last_length := by
        have hlt := p.last_length
        rw [List.length_append, List.length_singleton]
        omega }

/-- A character of the text: `nl` ends the row, any other one is put. -/
def type [DecidableEq α] (nl : α) (p : Page α w) (c : α) : Page α w :=
  if c = nl then p.newline else p.put c

theorem rows_newline (p : Page α w) : p.newline.rows = p.rows ++ [[]] := rfl

theorem put_of_eq {p : Page α w} {c : α} (h : p.last.length + 1 = w) :
    (p.put c).above = p.above ++ [p.last ++ [c]] ∧ (p.put c).last = [] := by
  rw [put, dif_pos h]
  exact ⟨rfl, rfl⟩

theorem put_of_ne {p : Page α w} {c : α} (h : p.last.length + 1 ≠ w) :
    (p.put c).above = p.above ∧ (p.put c).last = p.last ++ [c] := by
  rw [put, dif_neg h]
  exact ⟨rfl, rfl⟩

end Page

/-- **Filling a page lays out its text.** -/
theorem rows_type [DecidableEq α] {w : Nat} (hw : 0 < w) (nl : α) (text : List α) :
    (text.foldl (Page.type nl) (Page.empty hw)).rows = rows nl w text := by
  induction text using List.reverseRecOn with
  | nil =>
    rw [rows, List.splitOn_nil, List.flatMap_singleton, wrap_nil hw]
    rfl
  | append_singleton text c ih =>
    rw [List.foldl_append, List.foldl_cons, List.foldl_nil]
    generalize text.foldl (Page.type nl) (Page.empty hw) = p at ih
    by_cases hc : c = nl
    · rw [Page.type, if_pos hc, Page.rows_newline, ih, hc, rows_concat_self hw]
    · rw [Page.type, if_neg hc, rows_concat_of_ne hw hc ih.symm]
      split
      · rename_i heq
        obtain ⟨habove, hlast⟩ := Page.put_of_eq (c := c) heq
        rw [Page.rows, habove, hlast]
      · rename_i hne
        obtain ⟨habove, hlast⟩ := Page.put_of_ne (c := c) hne
        rw [Page.rows, habove, hlast]

/-! ### Characters of a layout -/

section CharAt

variable (blank : α)

/-- The character in row `y` and column `x`. -/
def charAt (rs : List (List α)) (y x : Nat) : α := ((rs[y]?.getD [])[x]?).getD blank

theorem charAt_of_le {rs : List (List α)} {y : Nat} (h : rs.length ≤ y) (x : Nat) :
    charAt blank rs y x = blank := by
  rw [charAt, List.getElem?_eq_none h]
  rfl

/-- An empty row at the end makes no difference. -/
theorem charAt_concat_nil (rs : List (List α)) (y x : Nat) :
    charAt blank (rs ++ [[]]) y x = charAt blank rs y x := by
  rcases Nat.lt_or_ge y rs.length with h | h
  · rw [charAt, List.getElem?_append_left h, ← charAt]
  · rw [charAt_of_le blank h, charAt, List.getElem?_append_right h]
    cases y - rs.length with
    | zero => rfl
    | succ n => rfl

/-- A character added to the last row. -/
theorem charAt_concat (above : List (List α)) (last : List α) (c : α) (y x : Nat) :
    charAt blank (above ++ [last ++ [c]]) y x =
      if y = above.length ∧ x = last.length then c
      else charAt blank (above ++ [last]) y x := by
  rcases Nat.lt_trichotomy y above.length with h | rfl | h
  · rw [if_neg fun hyx => Nat.ne_of_lt h hyx.1, charAt, charAt, List.getElem?_append_left h,
      List.getElem?_append_left h]
  · rw [charAt, charAt, List.getElem?_concat_length, List.getElem?_concat_length,
      Option.getD_some, Option.getD_some]
    by_cases hx : x = last.length
    · rw [if_pos ⟨rfl, hx⟩, hx, List.getElem?_concat_length, Option.getD_some]
    · rw [if_neg fun hyx => hx hyx.2]
      rcases Nat.lt_or_gt_of_ne hx with hlt | hgt
      · rw [List.getElem?_append_left hlt]
      · rw [List.getElem?_eq_none (by rwa [List.length_append]),
          List.getElem?_eq_none (Nat.le_of_lt hgt)]
  · rw [if_neg fun hyx => Nat.ne_of_gt h hyx.1, charAt_of_le blank (by rwa [List.length_append]),
      charAt_of_le blank (by rwa [List.length_append])]

/-- A layout without its first rows. -/
theorem charAt_drop (rs : List (List α)) (k y x : Nat) :
    charAt blank (rs.drop k) y x = charAt blank rs (k + y) x := by
  rw [charAt, List.getElem?_drop, ← charAt]

end CharAt

end TextRows
