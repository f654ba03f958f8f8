import SantaOS.Tty
import SantaOS.Lib.TextRows

/-!
# SantaOS.TtySound

The screen shows the end of everything that was written. `Shows` relates the terminal to
a layout that has grown without bound: the cells are the last 25 rows of it. Writing a
character is one of two steps, `place` and `advance` (`terminalPutchar_eq`), and each of
them keeps `Shows`; `advance` is where the screen scrolls.

Proof shape: what is loaded behind a store of one cell, then behind a row of them
(`loadCell_fillCells`), then from a scrolled screen, where `memmove` is read cell by cell
(`loadCell_terminalScrollup`). From there on only rows are spoken of.

Design points:
* The page never scrolls: scrolling is a matter of which of its rows are on the screen.
* `Follows` has the bound on the stores beside the cells, so that the step lemma
  (`Follows.putchar`) and the run lemma (`Follows.writeAll`) carry both.
-/

namespace SantaOS

open Memory TextRows

/-! ### Cells -/

theorem joinBytes (v : UInt16) :
    v.toUInt8.toUInt16 ||| (v >>> 8).toUInt8.toUInt16 <<< 8 = v := by
  have hv := v.toNat_lt
  apply UInt16.toNat_inj.mp
  rw [UInt16.toNat_or, UInt16.toNat_shiftLeft, Nat.or_comm]
  simp only [UInt8.toNat_toUInt16, UInt16.toNat_toUInt8, UInt16.toNat_shiftRight,
    UInt16.reduceToNat, Nat.reduceMod, Nat.shiftRight_eq_div_pow, Nat.reducePow]
  rw [Nat.mod_eq_of_lt (a := _ <<< 8) (by rw [Nat.shiftLeft_eq]; omega),
    ← Nat.shiftLeft_add_eq_or_of_lt (by omega), Nat.shiftLeft_eq]
  omega

section Cells

variable (m : Mem UInt8) (p : Int)

theorem loadCell_storeCell_self (i : Nat) (v : UInt16) :
    loadCell (storeCell m p i v) p i = v := by
  rw [loadCell, storeCell, Mem.store_cells_self, Mem.store_cells_of_ne _ _ (by omega),
    Mem.store_cells_self, joinBytes]

theorem loadCell_storeCell_of_ne {i j : Nat} (v : UInt16) (h : j ≠ i) :
    loadCell (storeCell m p i v) p j = loadCell m p j := by
  rw [loadCell, storeCell, Mem.store_cells_of_ne _ _ (by omega),
    Mem.store_cells_of_ne _ _ (by omega), Mem.store_cells_of_ne _ _ (by omega),
    Mem.store_cells_of_ne _ _ (by omega), loadCell]

/-- `for (i = 0; i < n; i++) p[k + i] = v` -/
def fillCells (k : Nat) (v : UInt16) (n : Nat) : Mem UInt8 :=
  n.fold (fun i _ m => storeCell m p (k + i) v) m

theorem fillCells_succ (k : Nat) (v : UInt16) (n : Nat) :
    fillCells m p k v (n + 1) = storeCell (fillCells m p k v n) p (k + n) v := by
  simp [fillCells]

theorem loadCell_fillCells (k : Nat) (v : UInt16) (n j : Nat) :
    loadCell (fillCells m p k v n) p j = if k ≤ j ∧ j < k + n then v else loadCell m p j := by
  induction n with
  | zero => rw [if_neg (by omega), fillCells, Nat.fold_zero]
  | succ n ih =>
    rw [fillCells_succ]
    by_cases hj : j = k + n
    · rw [hj, loadCell_storeCell_self, if_pos (by omega)]
    · rw [loadCell_storeCell_of_ne _ _ _ hj, ih]
      split
      · rw [if_pos (by omega)]
      · rw [if_neg (by omega)]

end Cells

/-! ### Stores to the screen -/

/-- The addresses of the bytes of the 25x80 cells. -/
def OnScreen (a : Int) : Prop :=
  ∃ index : Nat, index < VGA_HEIGHT * VGA_WIDTH ∧
    (a = VGA_MEMORY + 2 * index ∨ a = VGA_MEMORY + 2 * index + 1)

section Stores

variable {m m' : Mem UInt8} (h : Mem.StoredIn OnScreen m m')

include h

theorem storeCell_storedIn {index : Nat} (hindex : index < VGA_HEIGHT * VGA_WIDTH) (v : UInt16) :
    Mem.StoredIn OnScreen m (storeCell m' VGA_MEMORY index v) :=
  (h.store ⟨index, hindex, .inl rfl⟩ _).store ⟨index, hindex, .inr rfl⟩ _

theorem fillCells_storedIn {k n : Nat} (hn : k + n ≤ VGA_HEIGHT * VGA_WIDTH) (v : UInt16) :
    Mem.StoredIn OnScreen m (fillCells m' VGA_MEMORY k v n) := by
  induction n with
  | zero => exact h
  | succ n ih =>
    rw [fillCells_succ]
    exact storeCell_storedIn (ih (by omega)) (by omega) v

end Stores

/-! ### Blanking -/

/-- The light grey space on black. -/
def blankCell : UInt16 := vgaEntry spaceChar.toUInt8 (vgaEntryColor .lightGrey .black)

/-- The first `n` passes of the loop of `terminal_initialize`. -/
def blankRows (m : Mem UInt8) (n : Nat) : Mem UInt8 :=
  n.fold (fun y _ m => fillCells m VGA_MEMORY (y * VGA_WIDTH) blankCell VGA_WIDTH) m

theorem blankRows_succ (m : Mem UInt8) (n : Nat) :
    blankRows m (n + 1) =
      fillCells (blankRows m n) VGA_MEMORY (n * VGA_WIDTH) blankCell VGA_WIDTH := by
  simp [blankRows]

theorem loadCell_blankRows (m : Mem UInt8) (n j : Nat) :
    loadCell (blankRows m n) VGA_MEMORY j =
      if j < n * VGA_WIDTH then blankCell else loadCell m VGA_MEMORY j := by
  induction n with
  | zero => rw [if_neg (by omega), blankRows, Nat.fold_zero]
  | succ n ih =>
    rw [blankRows_succ, loadCell_fillCells, ih, Nat.succ_mul]
    split
    · rw [if_pos (by omega)]
    · split
      · rw [if_pos (by omega)]
      · rw [if_neg (by omega)]

theorem blankRows_storedIn (m : Mem UInt8) {n : Nat} (hn : n ≤ VGA_HEIGHT) :
    Mem.StoredIn OnScreen m (blankRows m n) := by
  induction n with
  | zero => exact .refl _ m
  | succ n ih =>
    rw [blankRows_succ]
    refine fillCells_storedIn (ih (by omega)) ?_ _
    rw [← Nat.succ_mul]
    exact Nat.mul_le_mul_right _ hn

/-! ### Scrolling -/

theorem terminalScrollup_memory (t : Tty) :
    (terminalScrollup t).memory =
      fillCells (memmove t.memory VGA_MEMORY (VGA_MEMORY + 160) 3840) VGA_MEMORY 1920
        (vgaEntry spaceChar.toUInt8 t.terminalColor) 80 := rfl

theorem terminalScrollup_storedIn {m : Mem UInt8} {t : Tty}
    (h : Mem.StoredIn OnScreen m t.memory) :
    Mem.StoredIn OnScreen m (terminalScrollup t).memory := by
  rw [terminalScrollup_memory]
  refine fillCells_storedIn (h.trans ?_) (by decide) _
  refine (memmove_storedIn _ _ _ _).imp fun a ⟨hlow, hhigh⟩ => ?_
  refine ⟨((a - VGA_MEMORY) / 2).toNat, ?_, by omega⟩
  rw [show VGA_HEIGHT * VGA_WIDTH = 2000 from rfl]
  omega

/-- Cell by cell: 24 rows move up, the bottom row is blank. -/
theorem loadCell_terminalScrollup (t : Tty) {j : Nat} (hj : j < 2000) :
    loadCell (terminalScrollup t).memory VGA_MEMORY j =
      if j < 1920 then loadCell t.memory VGA_MEMORY (j + 80)
      else vgaEntry spaceChar.toUInt8 t.terminalColor := by
  rw [terminalScrollup_memory, loadCell_fillCells]
  by_cases h : j < 1920
  · have hcell : VGA_MEMORY + 2 * (j : Int) + (VGA_MEMORY + 160 - VGA_MEMORY) =
        VGA_MEMORY + 2 * ((j + 80 : Nat) : Int) := by omega
    rw [if_neg (by omega), if_pos h, loadCell, memmove_cells _ _ (by omega), if_pos (by omega),
      memmove_cells _ _ (by omega), if_pos (by omega), Int.add_right_comm _ 1, hcell, loadCell]
  · rw [if_pos (by omega), if_neg h]

/-! ### The two steps of `terminal_putchar` -/

/-- The character goes to the cursor. -/
def place (t : Tty) (c : Int8) : Tty :=
  { terminalPutentryat t c t.terminalColor t.terminalColumn t.terminalRow with
    terminalColumn := t.terminalColumn + 1 }

/-- The cursor goes to the next row, which may scroll the screen. -/
def advance (t : Tty) : Tty :=
  if t.terminalRow + 1 = VGA_HEIGHT then
    { terminalScrollup t with terminalRow := VGA_HEIGHT - 1, terminalColumn := 0 }
  else { t with terminalRow := t.terminalRow + 1, terminalColumn := 0 }

/-- What `terminal_putchar` does behind the character: a full row ends, a full screen
scrolls. -/
def settle (t : Tty) : Tty :=
  let t :=
    if t.terminalColumn = VGA_WIDTH then
      { t with terminalColumn := 0, terminalRow := t.terminalRow + 1 }
    else t
  if t.terminalRow = VGA_HEIGHT then { terminalScrollup t with terminalRow := VGA_HEIGHT - 1 }
  else t

theorem settle_of_eq {t : Tty} (h : t.terminalColumn = VGA_WIDTH) : settle t = advance t := by
  rw [settle, if_pos h]
  rfl

theorem settle_of_ne {t : Tty} (h : t.terminalColumn ≠ VGA_WIDTH) :
    settle t =
      if t.terminalRow = VGA_HEIGHT then { terminalScrollup t with terminalRow := VGA_HEIGHT - 1 }
      else t := by
  rw [settle, if_neg h]

theorem terminalPutchar_newline (t : Tty) : terminalPutchar t newlineChar = advance t := by
  have hsettle : terminalPutchar t newlineChar =
      settle { t with terminalRow := t.terminalRow + 1, terminalColumn := 0 } := rfl
  rw [hsettle, settle_of_ne (show (0 : Nat) ≠ VGA_WIDTH by decide)]
  rfl

theorem terminalPutchar_of_ne {t : Tty} {c : Int8} (hc : c ≠ newlineChar)
    (hrow : t.terminalRow < VGA_HEIGHT) :
    terminalPutchar t c =
      if t.terminalColumn + 1 = VGA_WIDTH then advance (place t c) else place t c := by
  have hsettle : terminalPutchar t c = settle (place t c) := by
    rw [terminalPutchar, if_neg hc]
    rfl
  rw [hsettle]
  by_cases hcol : t.terminalColumn + 1 = VGA_WIDTH
  · rw [if_pos hcol, settle_of_eq hcol]
  · rw [if_neg hcol, settle_of_ne hcol]
    exact if_neg (Nat.ne_of_lt hrow)

/-! ### The screen shows the end of the layout -/

/-- The screen shows the last 25 rows of `above ++ [last]`, and the cursor stands at the
end of it. -/
structure Shows (t : Tty) (above : List (List Int8)) (last : List Int8) : Prop where
  color : t.terminalColor = vgaEntryColor .lightGrey .black
  buffer : t.terminalBuffer = VGA_MEMORY
  row : t.terminalRow = min above.length 24
  column : t.terminalColumn = last.length
  cells : ∀ y < 25, ∀ x < 80, loadCell t.memory VGA_MEMORY (y * 80 + x) =
    vgaEntry (charAt spaceChar (above ++ [last]) (above.length - 24 + y) x).toUInt8
      (vgaEntryColor .lightGrey .black)

section Shows

variable {t : Tty} {above : List (List Int8)} {last : List Int8} (h : Shows t above last)

include h

/-- A character that fits into the last row. -/
theorem Shows.place (hlast : last.length < 80) (c : Int8) :
    Shows (place t c) above (last ++ [c]) where
  color := h.color
  buffer := h.buffer
  row := h.row
  column := by
    rw [List.length_append, List.length_singleton, ← h.column]
    rfl
  cells := by
    intro y hy x hx
    have hmemory : (SantaOS.place t c).memory =
        storeCell t.memory VGA_MEMORY (t.terminalRow * 80 + last.length)
          (vgaEntry c.toUInt8 (vgaEntryColor .lightGrey .black)) := by
      rw [← h.color, ← h.buffer, ← h.column]
      rfl
    rw [hmemory, charAt_concat]
    by_cases hcell : y * 80 + x = t.terminalRow * 80 + last.length
    · rw [hcell, loadCell_storeCell_self, if_pos]
      rw [h.row] at hcell
      omega
    · rw [loadCell_storeCell_of_ne _ _ _ hcell, h.cells y hy x hx, if_neg]
      rw [h.row] at hcell
      omega

/-- The end of the last row; the screen scrolls if that was its bottom row. -/
theorem Shows.advance : Shows (advance t) (above ++ [last]) [] := by
  have hrow := h.row
  have hlength : (above ++ [last]).length = above.length + 1 := List.length_append
  by_cases hscroll : t.terminalRow + 1 = VGA_HEIGHT
  · rw [SantaOS.advance, if_pos hscroll]
    have hbottom : t.terminalRow = 24 := Nat.succ.inj hscroll
    refine ⟨h.color, h.buffer, ?_, rfl, fun y hy x hx => ?_⟩
    · show 24 = min (above ++ [last]).length 24
      omega
    · show loadCell (terminalScrollup t).memory VGA_MEMORY (y * 80 + x) = _
      rw [loadCell_terminalScrollup t (by omega), charAt_concat_nil, h.color]
      by_cases hy' : y < 24
      · rw [if_pos (by omega), show y * 80 + x + 80 = (y + 1) * 80 + x by omega,
          h.cells (y + 1) (by omega) x hx]
        congr 3
        omega
      · rw [if_neg (by omega), charAt_of_le spaceChar (by omega)]
  · rw [SantaOS.advance, if_neg hscroll]
    have habove : t.terminalRow + 1 ≠ 25 := hscroll
    refine ⟨h.color, h.buffer, ?_, rfl, fun y hy x hx => ?_⟩
    · show t.terminalRow + 1 = min (above ++ [last]).length 24
      omega
    · show loadCell t.memory VGA_MEMORY (y * 80 + x) = _
      rw [h.cells y hy x hx, charAt_concat_nil]
      congr 3
      omega

theorem Shows.row_lt : t.terminalRow < VGA_HEIGHT := by
  rw [h.row, show VGA_HEIGHT = 25 from rfl]
  omega

end Shows

/-! ### Stores of the two steps -/

section Stores

variable {m : Mem UInt8} {t : Tty} (h : Mem.StoredIn OnScreen m t.memory)

include h

theorem place_storedIn {above : List (List Int8)} {last : List Int8} (hshows : Shows t above last)
    (hlast : last.length < 80) (c : Int8) : Mem.StoredIn OnScreen m (place t c).memory := by
  have hrow := hshows.row
  have hcolumn := hshows.column
  have hindex : t.terminalRow * VGA_WIDTH + t.terminalColumn < VGA_HEIGHT * VGA_WIDTH := by
    rw [show VGA_WIDTH = 80 from rfl, show VGA_HEIGHT * 80 = 2000 from rfl]
    omega
  have hstore := storeCell_storedIn h hindex (vgaEntry c.toUInt8 t.terminalColor)
  rwa [← hshows.buffer] at hstore

theorem advance_storedIn : Mem.StoredIn OnScreen m (advance t).memory := by
  rw [advance]
  split
  · exact terminalScrollup_storedIn h
  · exact h

end Stores

/-! ### Runs -/

/-- The screen follows the page, and only the screen has been stored to. -/
def Follows (m : Mem UInt8) (t : Tty) (p : Page Int8 80) : Prop :=
  Shows t p.above p.last ∧ Mem.StoredIn OnScreen m t.memory

theorem follows_blank (t : Tty) :
    Follows t.memory (terminalInitialize t) (Page.empty (show 0 < 80 by decide)) := by
  refine ⟨⟨rfl, rfl, rfl, rfl, fun y hy x hx => ?_⟩, ?_⟩
  · show loadCell (blankRows t.memory VGA_HEIGHT) VGA_MEMORY (y * 80 + x) = _
    rw [loadCell_blankRows, if_pos]
    · show blankCell = vgaEntry (charAt spaceChar ([] ++ [[]]) (0 - 24 + y) x).toUInt8 _
      rw [charAt_concat_nil, charAt_of_le spaceChar (Nat.zero_le _)]
      rfl
    · rw [show VGA_HEIGHT * VGA_WIDTH = 2000 from rfl]
      omega
  · exact blankRows_storedIn t.memory (Nat.le_refl _)

/-- **Step lemma**: one character. -/
theorem Follows.putchar {m : Mem UInt8} {t : Tty} {p : Page Int8 80} (h : Follows m t p)
    (c : Int8) : Follows m (terminalPutchar t c) (p.type newlineChar c) := by
  obtain ⟨hshows, hstored⟩ := h
  by_cases hc : c = newlineChar
  · rw [hc, terminalPutchar_newline, Page.type, if_pos rfl]
    exact ⟨hshows.advance, advance_storedIn hstored⟩
  · have hplace := hshows.place p.last_length c
    have hplaced := place_storedIn hstored hshows p.last_length c
    rw [terminalPutchar_of_ne hc hshows.row_lt, Page.type, if_neg hc, hshows.column,
      show VGA_WIDTH = 80 from rfl]
    by_cases hfull : p.last.length + 1 = 80
    · obtain ⟨habove, hlast⟩ := Page.put_of_eq (c := c) hfull
      rw [if_pos hfull, Follows, habove, hlast]
      exact ⟨hplace.advance, advance_storedIn hplaced⟩
    · obtain ⟨habove, hlast⟩ := Page.put_of_ne (c := c) hfull
      rw [if_neg hfull, Follows, habove, hlast]
      exact ⟨hplace, hplaced⟩

theorem terminalWrite_succ (t : Tty) (data : Ptr Int8) (n : Nat) :
    terminalWrite t data (n + 1) = terminalPutchar (terminalWrite t data n) (data n) := by
  simp [terminalWrite]

theorem Follows.write {m : Mem UInt8} {t : Tty} {p : Page Int8 80} (h : Follows m t p)
    (data : Ptr Int8) (size : Nat) :
    Follows m (terminalWrite t data size) ((data.read size).foldl (Page.type newlineChar) p) := by
  induction size with
  | zero => simpa [terminalWrite] using h
  | succ n ih =>
    rw [terminalWrite_succ, Ptr.read_add, List.foldl_append]
    simpa [Ptr.read_succ] using ih.putchar (data n)

/-- The terminal after calls of `terminal_write` with these arguments. -/
def writeAll (t : Tty) (calls : List (Ptr Int8 × Nat)) : Tty :=
  calls.foldl (fun t call => terminalWrite t call.1 call.2) t

/-- The bytes written by these calls. -/
def textOf (calls : List (Ptr Int8 × Nat)) : List Int8 :=
  calls.flatMap fun call => call.1.read call.2

/-- **Run lemma**: any number of calls. -/
theorem Follows.writeAll {m : Mem UInt8} {t : Tty} {p : Page Int8 80} (h : Follows m t p)
    (calls : List (Ptr Int8 × Nat)) :
    Follows m (writeAll t calls) ((textOf calls).foldl (Page.type newlineChar) p) := by
  induction calls generalizing t p with
  | nil => exact h
  | cons call calls ih =>
    rw [textOf, List.flatMap_cons, List.foldl_append]
    exact ih (h.write call.1 call.2)

/-- The last 25 rows of the layout of a text, or all of it. -/
def screenRows (text : List Int8) : List (List Int8) :=
  (rows newlineChar VGA_WIDTH text).drop ((rows newlineChar VGA_WIDTH text).length - VGA_HEIGHT)

/-- **The text screen is the tail of an unbounded log**: whatever is written after
`terminal_initialize`, in any number of calls, the 25x80 cells are the last 25 rows of
the layout of the whole text, blank where it has no character; the cursor stands at the
end of the text; and no byte outside the screen has been stored to. -/
theorem terminalWrite_shows (t : Tty) (calls : List (Ptr Int8 × Nat)) :
    (∀ y < VGA_HEIGHT, ∀ x < VGA_WIDTH,
      loadCell (writeAll (terminalInitialize t) calls).memory VGA_MEMORY (y * VGA_WIDTH + x) =
        vgaEntry (charAt spaceChar (screenRows (textOf calls)) y x).toUInt8
          (vgaEntryColor .lightGrey .black)) ∧
    (writeAll (terminalInitialize t) calls).terminalRow + 1 = (screenRows (textOf calls)).length ∧
    (∃ row, (screenRows (textOf calls)).getLast? = some row ∧
      (writeAll (terminalInitialize t) calls).terminalColumn = row.length) ∧
    (writeAll (terminalInitialize t) calls).terminalRow < VGA_HEIGHT ∧
    (writeAll (terminalInitialize t) calls).terminalColumn < VGA_WIDTH ∧
    Mem.StoredIn OnScreen t.memory (writeAll (terminalInitialize t) calls).memory := by
  obtain ⟨hshows, hstored⟩ := (follows_blank t).writeAll calls
  have hrows := rows_type (show 0 < 80 by decide) newlineChar (textOf calls)
  generalize (textOf calls).foldl (Page.type newlineChar)
    (Page.empty (show 0 < 80 by decide)) = p at *
  have hscreen : screenRows (textOf calls) =
      (p.above ++ [p.last]).drop (p.above.length - 24) := by
    rw [screenRows, show VGA_WIDTH = 80 from rfl, ← hrows, Page.rows]
    congr 1
    simp [VGA_HEIGHT]
  rw [hscreen]
  refine ⟨fun y hy x hx => ?_, ?_, ⟨p.last, ?_, hshows.column⟩, hshows.row_lt, ?_, hstored⟩
  · rw [charAt_drop]
    exact hshows.cells y hy x hx
  · rw [hshows.row, List.length_drop, List.length_append, List.length_singleton]
    omega
  · rw [List.getLast?_drop, List.getLast?_concat, if_neg]
    rw [List.length_append, List.length_singleton]
    omega
  · rw [hshows.column]
    exact p.last_length

end SantaOS
