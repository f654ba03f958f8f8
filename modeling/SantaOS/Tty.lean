import SantaOS.Std

/-!
# SantaOS.Tty

The text screen of `tty.c`. The VGA memory is byte memory at `0xB8000`; a `uint16_t`
cell is two bytes of it, the low one first, and `terminal_scrollup` moves it byte by
byte with `memmove`.

`size_t` values are natural numbers: the row and the column stay below 26 and 81, and no
sum of the code comes near `2 ^ 32`.
-/

namespace SantaOS

open Memory

/-- `enum vga_color`. -/
inductive VgaColor
  | black | blue | green | cyan | red | magenta | brown | lightGrey
  | darkGrey | lightBlue | lightGreen | lightCyan | lightRed | lightMagenta | lightBrown | white
  deriving DecidableEq, Repr

/-- The value of an enumerator. -/
def VgaColor.value : VgaColor → UInt8
  | .black => 0
  | .blue => 1
  | .green => 2
  | .cyan => 3
  | .red => 4
  | .magenta => 5
  | .brown => 6
  | .lightGrey => 7
  | .darkGrey => 8
  | .lightBlue => 9
  | .lightGreen => 10
  | .lightCyan => 11
  | .lightRed => 12
  | .lightMagenta => 13
  | .lightBrown => 14
  | .white => 15

/-- `vga_entry_color`: the attribute byte of a cell. -/
def vgaEntryColor (fg bg : VgaColor) : UInt8 := fg.value ||| bg.value <<< 4

/-- `vga_entry`: a cell, the character in the low byte and the attribute in the high one. -/
def vgaEntry (uc color : UInt8) : UInt16 := uc.toUInt16 ||| color.toUInt16 <<< 8

/-- The characters of a line. -/
def VGA_WIDTH : Nat := 80

/-- The lines of the screen. -/
def VGA_HEIGHT : Nat := 25

/-- The address of the VGA memory. -/
def VGA_MEMORY : Int := 0xB8000

/-! ### Characters -/

/-- `'\n'` -/
def newlineChar : Int8 := 10

/-- `' '` -/
def spaceChar : Int8 := 32

/-! ### Cells -/

/-- `p[index]` for a `uint16_t` pointer. -/
def loadCell (m : Mem UInt8) (p : Int) (index : Nat) : UInt16 :=
  (m.cells (p + 2 * index)).toUInt16 ||| (m.cells (p + 2 * index + 1)).toUInt16 <<< 8

/-- `p[index] = v` for a `uint16_t` pointer. -/
def storeCell (m : Mem UInt8) (p : Int) (index : Nat) (v : UInt16) : Mem UInt8 :=
  (m.store (p + 2 * index) v.toUInt8).store (p + 2 * index + 1) (v >>> 8).toUInt8

/-! ### The terminal -/

/-- The static variables of `tty.c`, and physical memory. -/
structure Tty where
  terminalRow : Nat
  terminalColumn : Nat
  terminalColor : UInt8
  terminalBuffer : Int
  memory : Mem UInt8

/-- `terminal_initialize`: the screen is blanked and the cursor goes to its corner. -/
def terminalInitialize (t : Tty) : Tty :=
  let color := vgaEntryColor .lightGrey .black
  let blanked := VGA_HEIGHT.fold (fun y _ m =>
    VGA_WIDTH.fold (fun x _ m =>
      let index := y * VGA_WIDTH + x
      storeCell m VGA_MEMORY index (vgaEntry spaceChar.toUInt8 color)) m) t.memory
  { terminalRow := 0
    terminalColumn := 0
    terminalColor := color
    terminalBuffer := VGA_MEMORY
    memory := blanked }

/-- `terminal_putentryat`: one cell is stored. -/
def terminalPutentryat (t : Tty) (c : Int8) (color : UInt8) (x y : Nat) : Tty :=
  let index := y * VGA_WIDTH + x
  { t with memory := storeCell t.memory t.terminalBuffer index (vgaEntry c.toUInt8 color) }

/-- `terminal_scrollup`: all lines go one up, and the bottom line is blanked in the colour
in force. -/
def terminalScrollup (t : Tty) : Tty :=
  -- move VGA_HEIGHT-1 lines up
  let dst := VGA_MEMORY
  let src := dst + 2 * VGA_WIDTH
  let nchars := 2 * (VGA_WIDTH * (VGA_HEIGHT - 1))
  let moved := memmove t.memory dst src nchars
  -- fill bottom line with blanks
  let bottomLine := VGA_WIDTH * (VGA_HEIGHT - 1)
  let blanked := VGA_WIDTH.fold (fun idx _ m =>
    storeCell m dst (bottomLine + idx) (vgaEntry spaceChar.toUInt8 t.terminalColor)) moved
  { t with memory := blanked }

/-- `terminal_putchar`: a newline starts a row and any other character takes a cell. Behind
the last column the row ends, behind the last row the screen scrolls. -/
def terminalPutchar (t : Tty) (c : Int8) : Tty :=
  let t :=
    if c = newlineChar then
      { t with terminalRow := t.terminalRow + 1, terminalColumn := 0 }
    else
      let t := terminalPutentryat t c t.terminalColor t.terminalColumn t.terminalRow
      { t with terminalColumn := t.terminalColumn + 1 }
  let t :=
    if t.terminalColumn = VGA_WIDTH then
      { t with terminalColumn := 0, terminalRow := t.terminalRow + 1 }
    else t
  if t.terminalRow = VGA_HEIGHT then
    { terminalScrollup t with terminalRow := VGA_HEIGHT - 1 }
  else t

/-- `terminal_write`: the characters one by one, zeros and all. -/
def terminalWrite (t : Tty) (data : Ptr Int8) (size : Nat) : Tty :=
  size.fold (fun i _ t => terminalPutchar t (data i)) t

/-- `terminal_setcolor`: the colour of the characters to come. -/
def terminalSetcolor (t : Tty) (color : UInt8) : Tty := { t with terminalColor := color }

/-- `terminal_writestring`: the characters before the zero. The search for it has no bound
of its own. -/
def terminalWritestring (t : Tty) (data : Ptr Int8) (fuel : Nat) : Option Tty := do
  return terminalWrite t data (← strlen data fuel)

/-- `low_nibble_hex`: the digit of the low four bits. -/
def lowNibbleHex (b : UInt8) : Int8 :=
  let b := b &&& 0xF
  if b < 0xA then Int8.ofNat (48 + b.toNat) else Int8.ofNat (65 + (b.toNat - 0xA))

/-- `terminal_writehex`: the two digits of a byte, as a string in a local array. -/
def terminalWritehex (t : Tty) (b : UInt8) (fuel : Nat) : Option Tty :=
  let s := Ptr.ofList [lowNibbleHex (b >>> 4), lowNibbleHex b, 0]
  terminalWritestring t s fuel

end SantaOS
