import SantaOS.Lib.Numeral
import SantaOS.Lib.Sheet
import SantaOS.TtySound
import SantaOS.Uart

/-!
# SantaOS.Terminal

The functions of `tty.c` called in any order. Colours may change between two calls, and the
terminal may be set up anew. What has been written since then is kept by `TtyLog` on a sheet
that never scrolls, each character with the colour it was written in; a row begins with the
colour that is set when it scrolls in. The screen mirrors the end of that sheet
(`ttyCalls_mirrored`), whose characters are the layout of the text.

Proof shape: `Mirrors` relates the screen to rows of coloured cells as `Shows` does to rows
of characters. A character is again `place` or `advance`, a call a run of characters
(`Records.call`), and a run of calls a fold.

Design points:
* `TtyCall.writestring` carries the string that its pointer points to, so that a call without
  a meaning in C cannot be built.
* The cells of the screen are the sheet's own, colours and all; only the results on text leave
  the colours out (`TtyLog.chars`).
-/

namespace SantaOS

open Memory TextRows Fuel Numeral

/-! ### Numbers in hexadecimal -/

/-- The digits of `terminal_writehex`. -/
def hexDigits : List Int8 := chars "0123456789ABCDEF"

/-- The numeral of a byte: both digits, whatever its value. -/
def hexNumeral (b : UInt8) : List Int8 :=
  [hexDigits.getD (b.toNat / 16) 0, hexDigits.getD (b.toNat % 16) 0]

/-- The number that a string of such digits stands for. -/
def readHex (s : List Int8) : Nat := value 16 (s.map fun c => hexDigits.idxOf c)

theorem readHex_hexNumeral (b : UInt8) : readHex (hexNumeral b) = b.toNat := by
  have hlt := b.toNat_lt
  have hdigit : ∀ n < 16, hexDigits.idxOf (hexDigits.getD n 0) = n := by decide +kernel
  rw [readHex, hexNumeral, List.map_cons, List.map_singleton, hdigit _ (by omega),
    hdigit _ (by omega)]
  simp [value, Nat.ofDigits]
  omega

theorem lowNibbleHex_eq (b : UInt8) : lowNibbleHex b = hexDigits.getD (b.toNat % 16) 0 := by
  have hdigit : ∀ n < 16, (if n < 10 then Int8.ofNat (48 + n) else Int8.ofNat (65 + (n - 10))) =
      hexDigits.getD n 0 := by
    decide +kernel
  have hlow : (b &&& 0xF).toNat = b.toNat % 16 := by
    rw [UInt8.toNat_and, show (0xF : UInt8).toNat = 2 ^ 4 - 1 from rfl,
      Nat.and_two_pow_sub_one_eq_mod]
  rw [← hdigit _ (Nat.mod_lt _ (by decide)), lowNibbleHex]
  simp only [UInt8.lt_iff_toNat_lt, hlow]
  rfl

theorem toNat_highNibble (b : UInt8) : (b >>> 4).toNat % 16 = b.toNat / 16 := by
  have hlt := b.toNat_lt
  rw [UInt8.toNat_shiftRight, show (4 : UInt8).toNat % 8 = 4 from rfl, Nat.shiftRight_eq_div_pow]
  omega

/-- What `terminal_writehex` hands over is the numeral. -/
theorem isString_hexNumeral (b : UInt8) :
    IsString (Ptr.ofList [lowNibbleHex (b >>> 4), lowNibbleHex b, 0]) (hexNumeral b) := by
  have hlt := b.toNat_lt
  have hne : ∀ n < 16, hexDigits.getD n 0 ≠ 0 := by decide +kernel
  rw [lowNibbleHex_eq, lowNibbleHex_eq, toNat_highNibble]
  exact ⟨rfl, hne _ (by omega), rfl, hne _ (by omega), rfl⟩

/-! ### Calls -/

/-- A call of a function of `tty.c`. -/
inductive TtyCall
  /-- `terminal_initialize` -/
  | init
  /-- `terminal_setcolor` -/
  | setcolor (color : UInt8)
  /-- `terminal_write` -/
  | write (data : Ptr Int8) (size : Nat)
  /-- `terminal_writestring`, for a pointer to the string `s` -/
  | writestring (data : Ptr Int8) (s : List Int8) (h : IsString data s)
  /-- `terminal_writehex` -/
  | writehex (b : UInt8)

/-- The function that a call calls. -/
def TtyCall.run (t : Tty) (fuel : Nat) : TtyCall → Option Tty
  | .init => some (terminalInitialize t)
  | .setcolor color => some (terminalSetcolor t color)
  | .write data size => some (terminalWrite t data size)
  | .writestring data _ _ => terminalWritestring t data fuel
  | .writehex b => terminalWritehex t b fuel

/-- Calls made one after the other. -/
def runCalls (t : Tty) (calls : List TtyCall) (fuel : Nat) : Option Tty :=
  calls.foldlM (fun t call => call.run t fuel) t

/-- What has been written since the terminal was set up, if that was `text` before the
call. -/
def TtyCall.textAfter (text : List Int8) : TtyCall → List Int8
  | .init => []
  | .setcolor _ => text
  | .write data size => text ++ data.read size
  | .writestring _ s _ => text ++ s
  | .writehex b => text ++ hexNumeral b

/-! ### The log -/

/-- A light grey space on black. -/
def greySpace : Int8 × UInt8 := (spaceChar, vgaEntryColor .lightGrey .black)

/-- Everything that has been written, each character with its colour, and the colour that is
set. -/
structure TtyLog where
  sheet : Sheet (Int8 × UInt8) 80
  color : UInt8

namespace TtyLog

/-- Nothing written yet, as `terminal_initialize` leaves the terminal. -/
def blank : TtyLog := ⟨.empty (Nat.zero_lt_succ 79) greySpace, vgaEntryColor .lightGrey .black⟩

/-- The ground of the row that begins next: the first 25 rows have been on the screen from
the start, the others scroll in. -/
def ground (l : TtyLog) : Int8 × UInt8 :=
  if l.sheet.above.length + 1 < VGA_HEIGHT then greySpace else (spaceChar, l.color)

/-- A character written in the colour that is set. -/
def type (l : TtyLog) (c : Int8) : TtyLog :=
  { l with
    sheet := if c = newlineChar then l.sheet.newline l.ground
      else l.sheet.put (c, l.color) l.ground }

/-- What is on the log after a call. -/
def call (l : TtyLog) : TtyCall → TtyLog
  | .init => blank
  | .setcolor color => { l with color := color }
  | .write data size => (data.read size).foldl type l
  | .writestring _ s _ => s.foldl type l
  | .writehex b => (hexNumeral b).foldl type l

/-- The last 25 rows. -/
def screenRows (l : TtyLog) : List (Row (Int8 × UInt8)) :=
  l.sheet.rows.drop (l.sheet.rows.length - VGA_HEIGHT)

/-- The characters of the log. -/
def chars (l : TtyLog) : Page Int8 80 := l.sheet.page Prod.fst

theorem chars_type (l : TtyLog) (c : Int8) : (l.type c).chars = l.chars.type newlineChar c := by
  by_cases hc : c = newlineChar
  · rw [chars, type, if_pos hc, Page.type, if_pos hc, Sheet.page_newline, chars]
  · rw [chars, type, if_neg hc, Page.type, if_neg hc, Sheet.page_put, chars]

theorem chars_foldl (text : List Int8) (l : TtyLog) :
    (text.foldl type l).chars = text.foldl (Page.type newlineChar) l.chars := by
  induction text generalizing l with
  | nil => rfl
  | cons c text ih => rw [List.foldl_cons, ih, chars_type, List.foldl_cons]

end TtyLog

/-- The page of a text. -/
def pageOf (text : List Int8) : Page Int8 80 :=
  text.foldl (Page.type newlineChar) (Page.empty (Nat.zero_lt_succ 79))

/-- **The characters of the log are the text since the last set-up.** -/
theorem chars_call {l : TtyLog} {text : List Int8} (h : l.chars = pageOf text) (call : TtyCall) :
    (l.call call).chars = pageOf (call.textAfter text) := by
  have hmore (more : List Int8) : (more.foldl TtyLog.type l).chars = pageOf (text ++ more) := by
    rw [TtyLog.chars_foldl, h, pageOf, pageOf, List.foldl_append]
  cases call with
  | init => rfl
  | setcolor color => exact h
  | write data size => exact hmore _
  | writestring data s hs => exact hmore _
  | writehex b => exact hmore _

/-- The log of a run. -/
def logOf (calls : List TtyCall) : TtyLog := calls.foldl TtyLog.call .blank

/-- What a run has written since the terminal was last set up. -/
def textSince (calls : List TtyCall) : List Int8 := calls.foldl TtyCall.textAfter []

theorem chars_logOf (calls : List TtyCall) : (logOf calls).chars = pageOf (textSince calls) := by
  have hrun : ∀ (l : TtyLog) (text : List Int8), l.chars = pageOf text →
      (calls.foldl TtyLog.call l).chars = pageOf (calls.foldl TtyCall.textAfter text) := by
    induction calls with
    | nil => exact fun _ _ h => h
    | cons call calls ih => exact fun _ _ h => ih _ _ (chars_call h call)
  exact hrun .blank [] rfl

/-! ### The screen mirrors the end of the log -/

/-- The cell of the screen. -/
def entry (c : Int8 × UInt8) : UInt16 := vgaEntry c.1.toUInt8 c.2

/-- The screen shows the last 25 rows of `above ++ [last]`, and the cursor stands at the end
of it. -/
structure Mirrors (t : Tty) (color : UInt8) (above : List (Row (Int8 × UInt8)))
    (last : Row (Int8 × UInt8)) : Prop where
  color : t.terminalColor = color
  buffer : t.terminalBuffer = VGA_MEMORY
  row : t.terminalRow = min above.length 24
  column : t.terminalColumn = last.cells.length
  cells : ∀ y < 25, ∀ x < 80, loadCell t.memory VGA_MEMORY (y * 80 + x) =
    entry (cellAt greySpace (above ++ [last]) (above.length - 24 + y) x)

section Mirrors

variable {m : Mem UInt8} {t : Tty} {color : UInt8} {above : List (Row (Int8 × UInt8))}
  {last : Row (Int8 × UInt8)} (h : Mirrors t color above last)

include h

theorem Mirrors.row_lt : t.terminalRow < VGA_HEIGHT := by
  rw [h.row, show VGA_HEIGHT = 25 from rfl]
  omega

theorem Mirrors.place_memory (c : Int8) :
    (place t c).memory =
      storeCell t.memory VGA_MEMORY (t.terminalRow * 80 + last.cells.length)
        (entry (c, color)) := by
  rw [← h.color, ← h.buffer, ← h.column]
  rfl

/-- A character that fits into the last row. -/
theorem Mirrors.place (hlast : last.cells.length < 80) (c : Int8) :
    Mirrors (place t c) color above (last.push (c, color)) where
  color := h.color
  buffer := h.buffer
  row := h.row
  column := by
    rw [Row.push, List.length_append, List.length_singleton, ← h.column]
    rfl
  cells := by
    intro y hy x hx
    rw [h.place_memory, cellAt_push]
    by_cases hcell : y * 80 + x = t.terminalRow * 80 + last.cells.length
    · rw [hcell, loadCell_storeCell_self, if_pos]
      rw [h.row] at hcell
      omega
    · rw [loadCell_storeCell_of_ne _ _ _ hcell, h.cells y hy x hx, if_neg]
      rw [h.row] at hcell
      omega

theorem Mirrors.place_storedIn (hlast : last.cells.length < 80)
    (hstored : Mem.StoredIn OnScreen m t.memory) (c : Int8) :
    Mem.StoredIn OnScreen m (SantaOS.place t c).memory := by
  have hrow := h.row
  rw [h.place_memory]
  refine storeCell_storedIn hstored ?_ _
  rw [show VGA_HEIGHT * VGA_WIDTH = 2000 from rfl]
  omega

/-- The end of the last row; a row that scrolls in has the colour that is set. -/
theorem Mirrors.advance :
    Mirrors (advance t) color (above ++ [last])
      ⟨[], if above.length + 1 < VGA_HEIGHT then greySpace else (spaceChar, color)⟩ := by
  have hrow := h.row
  have hlength : (above ++ [last]).length = above.length + 1 := List.length_append
  by_cases hscroll : t.terminalRow + 1 = VGA_HEIGHT
  · have hbottom : t.terminalRow = 24 := Nat.succ.inj hscroll
    rw [SantaOS.advance, if_pos hscroll, if_neg (by rw [show VGA_HEIGHT = 25 from rfl]; omega)]
    refine ⟨h.color, h.buffer, ?_, rfl, fun y hy x hx => ?_⟩
    · show 24 = min (above ++ [last]).length 24
      omega
    · show loadCell (terminalScrollup t).memory VGA_MEMORY (y * 80 + x) = _
      rw [loadCell_terminalScrollup t (by omega), cellAt_concat_nil, h.color]
      by_cases hy' : y < 24
      · rw [if_pos (by omega), if_neg (by omega), show y * 80 + x + 80 = (y + 1) * 80 + x by omega,
          h.cells (y + 1) (by omega) x hx]
        congr 2
        omega
      · rw [if_neg (by omega), if_pos (by omega)]
        rfl
  · have habove : t.terminalRow + 1 ≠ 25 := hscroll
    rw [SantaOS.advance, if_neg hscroll, if_pos (by rw [show VGA_HEIGHT = 25 from rfl]; omega)]
    refine ⟨h.color, h.buffer, ?_, rfl, fun y hy x hx => ?_⟩
    · show t.terminalRow + 1 = min (above ++ [last]).length 24
      omega
    · show loadCell t.memory VGA_MEMORY (y * 80 + x) = _
      rw [h.cells y hy x hx, cellAt_concat_nil, show (above ++ [last]).length - 24 + y =
        above.length - 24 + y by omega]
      split
      · rename_i hbelow
        rw [cellAt_of_le _ (Nat.le_of_eq hbelow.symm)]
      · rfl

end Mirrors

/-! ### Runs -/

/-- The screen mirrors the log, and only the screen has been stored to. -/
def Records (m : Mem UInt8) (t : Tty) (l : TtyLog) : Prop :=
  Mirrors t l.color l.sheet.above l.sheet.last ∧ Mem.StoredIn OnScreen m t.memory

section Records

variable {m : Mem UInt8} {t : Tty} {l : TtyLog}

theorem records_blank (h : Mem.StoredIn OnScreen m t.memory) :
    Records m (terminalInitialize t) .blank := by
  obtain ⟨hshows, hstored⟩ := follows_blank t
  refine ⟨⟨hshows.color, hshows.buffer, hshows.row, hshows.column, fun y hy x hx => ?_⟩,
    h.trans hstored⟩
  have hcell := hshows.cells y hy x hx
  rw [show (Page.empty (show 0 < 80 by decide) : Page Int8 80).last = [] from rfl,
    charAt_concat_nil, charAt_of_le spaceChar (Nat.zero_le _)] at hcell
  rw [hcell, show TtyLog.blank.sheet.last = ⟨[], greySpace⟩ from rfl, cellAt_concat_nil]
  split
  · rfl
  · rw [cellAt_of_le _ (Nat.zero_le _)]
    rfl

/-- **Step lemma**: one character. -/
theorem Records.putchar (h : Records m t l) (c : Int8) :
    Records m (terminalPutchar t c) (l.type c) := by
  obtain ⟨hmirrors, hstored⟩ := h
  by_cases hc : c = newlineChar
  · rw [hc, terminalPutchar_newline, TtyLog.type, if_pos rfl]
    exact ⟨hmirrors.advance, advance_storedIn hstored⟩
  · have hplace := hmirrors.place l.sheet.last_length c
    have hplaced := hmirrors.place_storedIn l.sheet.last_length hstored c
    rw [terminalPutchar_of_ne hc hmirrors.row_lt, TtyLog.type, if_neg hc, hmirrors.column,
      show VGA_WIDTH = 80 from rfl]
    by_cases hfull : l.sheet.last.cells.length + 1 = 80
    · obtain ⟨habove, hlast⟩ := Sheet.put_of_eq hfull (c, l.color) l.ground
      rw [if_pos hfull, Records, habove, hlast]
      exact ⟨hplace.advance, advance_storedIn hplaced⟩
    · obtain ⟨habove, hlast⟩ := Sheet.put_of_ne hfull (c, l.color) l.ground
      rw [if_neg hfull, Records, habove, hlast]
      exact ⟨hplace, hplaced⟩

theorem Records.write (h : Records m t l) (data : Ptr Int8) (size : Nat) :
    Records m (terminalWrite t data size) ((data.read size).foldl TtyLog.type l) := by
  induction size with
  | zero => exact h
  | succ n ih =>
    rw [terminalWrite_succ, Ptr.read_add, List.foldl_append]
    simpa [Ptr.read_succ] using ih.putchar (data n)

theorem Records.writestring (h : Records m t l) {data : Ptr Int8} {s : List Int8}
    (hs : IsString data s) :
    ∃ t', Returns (terminalWritestring t data) t' ∧ Records m t' (s.foldl TtyLog.type l) := by
  have hwrite := h.write data s.length
  rw [hs.read] at hwrite
  exact ⟨_, (returns_strlen hs).bind (.of_forall fun _ => rfl), hwrite⟩

/-- **Step lemma**: one call. -/
theorem Records.call (h : Records m t l) (call : TtyCall) :
    ∃ t', Returns (call.run t) t' ∧ Records m t' (l.call call) := by
  cases call with
  | init => exact ⟨_, .of_forall fun _ => rfl, records_blank h.2⟩
  | setcolor color =>
    obtain ⟨⟨-, hbuffer, hrow, hcolumn, hcells⟩, hstored⟩ := h
    exact ⟨_, .of_forall fun _ => rfl, ⟨rfl, hbuffer, hrow, hcolumn, hcells⟩, hstored⟩
  | write data size => exact ⟨_, .of_forall fun _ => rfl, h.write data size⟩
  | writestring data s hs => exact h.writestring hs
  | writehex b => exact h.writestring (isString_hexNumeral b)

/-- **Run lemma**: any number of calls. -/
theorem Records.calls (h : Records m t l) (calls : List TtyCall) :
    ∃ t', Returns (runCalls t calls) t' ∧ Records m t' (calls.foldl TtyLog.call l) := by
  induction calls generalizing t l with
  | nil => exact ⟨t, .of_forall fun _ => rfl, h⟩
  | cons call calls ih =>
    obtain ⟨t', hcall, hrecords⟩ := h.call call
    obtain ⟨t'', hcalls, hrecords'⟩ := ih hrecords
    exact ⟨t'', hcall.bind hcalls, hrecords'⟩

end Records

/-- **The screen is the tail of a coloured log**, whatever functions of `tty.c` are called and
in whatever order: each cell of the screen has the character and the colour that were written
in it, or is a space in the colour its row began with; the cursor stands at the end; the
characters are laid out as the text since the last set-up; and no byte outside the screen has
been stored to. -/
theorem ttyCalls_mirrored (t : Tty) (calls : List TtyCall) :
    ∃ t', Returns (runCalls (terminalInitialize t) calls) t' ∧
      (∀ y < VGA_HEIGHT, ∀ x < VGA_WIDTH,
        loadCell t'.memory VGA_MEMORY (y * VGA_WIDTH + x) =
          entry (cellAt greySpace (logOf calls).screenRows y x)) ∧
      t'.terminalColor = (logOf calls).color ∧
      t'.terminalRow + 1 = (logOf calls).screenRows.length ∧
      t'.terminalColumn = (logOf calls).sheet.last.cells.length ∧
      Mem.StoredIn OnScreen t.memory t'.memory ∧
      (logOf calls).chars.rows = rows newlineChar VGA_WIDTH (textSince calls) := by
  have hstart : Records t.memory (terminalInitialize t) .blank := records_blank (.refl _ _)
  obtain ⟨t', hruns, hmirrors, hstored⟩ := hstart.calls calls
  have hlength : (logOf calls).sheet.rows.length = (logOf calls).sheet.above.length + 1 :=
    List.length_append
  refine ⟨t', hruns, fun y hy x hx => ?_, hmirrors.color, ?_, hmirrors.column, hstored, ?_⟩
  · rw [TtyLog.screenRows, cellAt_drop, hlength]
    exact hmirrors.cells y hy x hx
  · rw [hmirrors.row, TtyLog.screenRows, List.length_drop, hlength,
      show VGA_HEIGHT = 25 from rfl]
    show min (logOf calls).sheet.above.length 24 + 1 = _
    omega
  · rw [chars_logOf, pageOf, rows_type]
    rfl

/-! ### The model of the UART -/

/-- `terminal_write_uart_model`; a value of the `enum` is an integer. -/
def terminalWriteUartModel (t : Tty) (model : Int) (fuel : Nat) : Option Tty :=
  if model = UartModel.uart16750.value then terminalWritestring t (literal "16750") fuel
  else if model = UartModel.uart16550A.value then terminalWritestring t (literal "16550A") fuel
  else if model = UartModel.uart16450.value then terminalWritestring t (literal "16450") fuel
  else if model = UartModel.uart8250.value then terminalWritestring t (literal "8250") fuel
  else terminalWritestring t (literal "n/a") fuel

/-- The text of `terminal_write_uart_model` about a model. -/
def UartModel.name : UartModel → String
  | .uart16750 => "16750"
  | .uart16550A => "16550A"
  | .uart16450 => "16450"
  | .uart8250 => "8250"

/-- A model that the driver knows is written by its name. -/
theorem Records.writeUartModel {m : Mem UInt8} {t : Tty} {l : TtyLog} (h : Records m t l)
    (model : UartModel) :
    ∃ t', Returns (terminalWriteUartModel t model.value) t' ∧
      Records m t' ((chars model.name).foldl TtyLog.type l) := by
  have hname : IsString (literal model.name) (chars model.name) :=
    isString_literal (by cases model <;> decide +kernel)
  have hwrite := h.writestring hname
  cases model <;> exact hwrite

end SantaOS
