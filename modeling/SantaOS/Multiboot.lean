import SantaOS.Std

/-!
# SantaOS.Multiboot

The multiboot test kernel of MyToyOS1, `multiboot/kernel.c`: its screen, its `printf` and
the report of `cmain` on what the boot loader has left in memory.

An `unsigned long` has 32 bits. Physical memory is one memory, which holds the screen, the
boot information and the strings it points to; the array `buf` of `printf` and the string
literals are objects of their own. An argument of `printf` is a word, whatever it is taken
for. The loops that end with what they find in memory have fuel.

Design points:
* Members of the boot information are read from memory each time the source names them, also
  between two calls of `printf`: what is printed could have changed them.
* The formats are strings as in the source, `%0x` included.
-/

namespace SantaOS.Multiboot

open Memory Fuel

/-! ### The screen -/

/-- The number of columns. -/
def COLUMNS : Nat := 80

/-- The number of lines. -/
def LINES : Nat := 24

/-- The attribute of a character. -/
def ATTRIBUTE : UInt8 := 7

/-- The video memory address. -/
def VIDEO : Int := 0xB8000

/-- The static variables and the memory. -/
structure Video where
  /-- The X position. -/
  xpos : Nat
  /-- The Y position. -/
  ypos : Nat
  /-- Points to the video memory. -/
  video : Int
  memory : Mem UInt8
  /-- What a stack array holds before it is written. -/
  stack : Mem Int8

/-- Clears the screen and initializes `video`, `xpos` and `ypos`. -/
def cls (v : Video) : Video :=
  let blanked := (COLUMNS * LINES * 2).fold (fun i _ m => m.store (VIDEO + i) 0) v.memory
  { v with video := VIDEO, memory := blanked, xpos := 0, ypos := 0 }

/-- The code behind the label `newline`. -/
def newline (v : Video) : Video :=
  let ypos := v.ypos + 1
  { v with xpos := 0, ypos := if ypos ≥ LINES then 0 else ypos }

/-- Puts the character `c` on the screen. -/
def putchar (v : Video) (c : Int) : Video :=
  if c = 10 ∨ c = 13 then newline v
  else
    let cell := v.video + (v.xpos + v.ypos * COLUMNS : Nat) * 2
    let memory := (v.memory.store cell (UInt8.ofInt c)).store (cell + 1) ATTRIBUTE
    let v := { v with memory := memory, xpos := v.xpos + 1 }
    if v.xpos ≥ COLUMNS then newline v else v

/-! ### Numbers -/

/-- `'d'` -/
def dChar : Int8 := 100

/-- `'u'` -/
def uChar : Int8 := 117

/-- `'x'` -/
def xChar : Int8 := 120

/-- `'s'` -/
def sChar : Int8 := 115

/-- `'%'` -/
def percentChar : Int8 := 37

/-- `'-'` -/
def minusChar : Int8 := 45

/-- `(remainder < 10) ? remainder + '0' : remainder + 'a' - 10` -/
def digitChar (remainder : Nat) : Int8 :=
  Int8.ofNat (if remainder < 10 then remainder + 48 else remainder + 97 - 10)

/-- The loop that divides, at most `n` times round: the digits from `p` on, the last one
first, and the end of them. -/
def divideLoop (divisor : UInt32) : Nat → UInt32 → Mem Int8 → Int → Mem Int8 × Int
  | 0, _, buf, p => (buf, p)
  | n + 1, ud, buf, p =>
    let remainder := ud % divisor
    let buf := buf.store p (digitChar remainder.toNat)
    let p := p + 1
    let ud := ud / divisor
    if ud ≠ 0 then divideLoop divisor n ud buf p else (buf, p)

/-- The loop that exchanges `*p1` and `*p2`, at most `n` times round. -/
def reverseLoop : Nat → Mem Int8 → Int → Int → Mem Int8
  | 0, buf, _, _ => buf
  | n + 1, buf, p1, p2 =>
    if p1 < p2 then
      let tmp := buf.cells p1
      let buf := buf.store p1 (buf.cells p2)
      let buf := buf.store p2 tmp
      reverseLoop n buf (p1 + 1) (p2 - 1)
    else buf

/-- Converts the integer `d` to a string and saves it in `buf`. A word has at most 32
digits. -/
def itoa (buf : Mem Int8) (base : Int8) (d : Int32) : Mem Int8 :=
  -- if %d is specified and d is minus, put '-' in the head
  let negative := base = dChar ∧ d < 0
  let head : Int := if negative then 1 else 0
  let buf := if negative then buf.store 0 minusChar else buf
  let ud := if negative then (-d).toUInt32 else d.toUInt32
  let divisor := if ¬ negative ∧ base = xChar then 16 else 10
  -- divide ud by divisor until ud == 0
  let (buf, p) := divideLoop divisor 32 ud buf head
  -- terminate buf
  let buf := buf.store p 0
  -- reverse buf
  reverseLoop 32 buf head (p - 1)

/-! ### printf -/

/-- What a `char *` points to. It may be part of the screen. -/
abbrev CharPtr := Video → Ptr Int8

/-- A string in memory. -/
def atAddress (address : UInt32) : CharPtr := fun v i =>
  (v.memory.cells (address.toNat + i)).toInt8

/-- `while (*p) putchar (*p++);` -/
def putString (p : CharPtr) (fuel : Nat) (v : Video) : Option Video :=
  loop (fun _ (iv : Nat × Video) =>
    let (i, v) := iv
    some (if p v i = 0 then .inl v else .inr (i + 1, putchar v (p v i).toInt))) fuel (0, v)

/-- The local variables of `printf`, and the screen. -/
structure PrintfVars where
  format : Ptr Int8
  args : List UInt32
  buf : Mem Int8
  video : Video

/-- One pass of the loop of `printf`. A run that takes an argument that is not there has no
answer. -/
def printfBody (fuel : Nat) (vars : PrintfVars) : Option (Video ⊕ PrintfVars) := do
  let ⟨format, args, buf, v⟩ := vars
  let c := format 0
  let format := format.add 1
  if c = 0 then
    return .inl v
  if c ≠ percentChar then
    return .inr ⟨format, args, buf, putchar v c.toInt⟩
  let c := format 0
  let format := format.add 1
  match args with
  | [] => none
  | arg :: args =>
    if c = dChar ∨ c = uChar ∨ c = xChar then
      let buf := itoa buf c arg.toInt32
      let v ← putString (fun _ => buf.cells) fuel v
      return .inr ⟨format, args, buf, v⟩
    else if c = sChar then
      let p := if arg = 0 then fun _ => literal "(null)" else atAddress arg
      let v ← putString p fuel v
      return .inr ⟨format, args, buf, v⟩
    else
      return .inr ⟨format, args, buf, putchar v arg.toInt32.toInt⟩

/-- Formats a string and prints it on the screen. -/
def printf (v : Video) (format : String) (args : List UInt32) (fuel : Nat) : Option Video :=
  loop printfBody fuel ⟨literal format, args, v.stack, v⟩

/-! ### cmain -/

/-- The word at an address, the low byte first. -/
def word (m : Mem UInt8) (a : Int) : UInt32 :=
  (m.cells a).toUInt32 ||| (m.cells (a + 1)).toUInt32 <<< 8 |||
    (m.cells (a + 2)).toUInt32 <<< 16 ||| (m.cells (a + 3)).toUInt32 <<< 24

/-- The member at offset `offset` of the struct that `p` points to. -/
def Video.member (v : Video) (p : UInt32) (offset : Nat) : UInt32 :=
  word v.memory (p.toNat + offset)

/-- The magic number passed by a Multiboot-compliant boot loader. -/
def MULTIBOOT_BOOTLOADER_MAGIC : UInt32 := 0x2BADB002

/-- Whether a bit of the flags is set. -/
def CHECK_FLAG (flags : UInt32) (bit : UInt32) : Bool := flags &&& (1 <<< bit) ≠ 0

/-! The members of `multiboot_info_t`. -/

/-- `flags`: which of the other members are valid. -/
def flags (v : Video) (mbi : UInt32) : UInt32 := v.member mbi 0

/-- `mem_lower`, valid with bit 0. -/
def memLower (v : Video) (mbi : UInt32) : UInt32 := v.member mbi 4

/-- `mem_upper`, valid with bit 0. -/
def memUpper (v : Video) (mbi : UInt32) : UInt32 := v.member mbi 8

/-- `boot_device`, valid with bit 1. -/
def bootDevice (v : Video) (mbi : UInt32) : UInt32 := v.member mbi 12

/-- `cmdline`, valid with bit 2. -/
def cmdline (v : Video) (mbi : UInt32) : UInt32 := v.member mbi 16

/-- `mods_count`, valid with bit 3. -/
def modsCount (v : Video) (mbi : UInt32) : UInt32 := v.member mbi 20

/-- `mods_addr`, valid with bit 3. -/
def modsAddr (v : Video) (mbi : UInt32) : UInt32 := v.member mbi 24

/-- Word `i` of the union `u`: a symbol table of a.out or a section header table of ELF. -/
def u (v : Video) (mbi : UInt32) (i : Nat) : UInt32 := v.member mbi (28 + 4 * i)

/-- `mmap_length`, valid with bit 6. -/
def mmapLength (v : Video) (mbi : UInt32) : UInt32 := v.member mbi 44

/-- `mmap_addr`, valid with bit 6. -/
def mmapAddr (v : Video) (mbi : UInt32) : UInt32 := v.member mbi 48

/-- One pass of the loop over the modules; `i` modules have been printed. -/
def modsBody (mbi : UInt32) (fuel : Nat) (vars : Nat × UInt32 × Video) :
    Option (Video ⊕ Nat × UInt32 × Video) := do
  let (i, mod, v) := vars
  if i < (modsCount v mbi).toNat then
    let v ← printf v " mod_start = 0x%x, mod_end = 0x%x, string = %s\n"
      [v.member mod 0, v.member mod 4, v.member mod 8] fuel
    return .inr (i + 1, mod + 16, v)
  else return .inl v

/-- The loop over the modules, from `mods_addr` on. -/
def modsLoop (mbi : UInt32) (fuel : Nat) (v : Video) : Option Video :=
  loop (modsBody mbi) fuel (0, modsAddr v mbi, v)

/-- One pass of the loop over the memory map. -/
def mmapBody (mbi : UInt32) (fuel : Nat) (vars : UInt32 × Video) :
    Option (Video ⊕ UInt32 × Video) := do
  let (mmap, v) := vars
  if mmap < mmapAddr v mbi + mmapLength v mbi then
    let v ← printf v (" size = 0x%x, base_addr = 0x%x%x," ++
        " length = 0x%x%x, type = 0x%x\n")
      [v.member mmap 0, v.member mmap 8, v.member mmap 4, v.member mmap 16, v.member mmap 12,
        v.member mmap 20] fuel
    return .inr (mmap + v.member mmap 0 + 4, v)
  else return .inl v

/-- The loop over the memory map, from `mmap_addr` on. -/
def mmapLoop (mbi : UInt32) (fuel : Nat) (v : Video) : Option Video :=
  loop (mmapBody mbi) fuel (mmapAddr v mbi, v)

/-- `cmain` behind the check of the magic number. -/
def printInfo (mbi : UInt32) (fuel : Nat) (v : Video) : Option Video := do
  -- print out the flags
  let v ← printf v "flags = 0x%x\n" [flags v mbi] fuel
  -- are mem_* valid?
  let v ← (if CHECK_FLAG (flags v mbi) 0 then
      printf v "mem_lower = %uKB, mem_upper = %uKB\n" [memLower v mbi, memUpper v mbi] fuel
    else some v)
  -- is boot_device valid?
  let v ← (if CHECK_FLAG (flags v mbi) 1 then
      printf v "boot_device = 0x%x\n" [bootDevice v mbi] fuel
    else some v)
  -- is the command line passed?
  let v ← (if CHECK_FLAG (flags v mbi) 2 then
      printf v "cmdline = %s\n" [cmdline v mbi] fuel
    else some v)
  -- are mods_* valid?
  let v ← (if CHECK_FLAG (flags v mbi) 3 then do
      let v ← printf v "mods_count = %d, mods_addr = 0x%x\n" [modsCount v mbi, modsAddr v mbi] fuel
      modsLoop mbi fuel v
    else some v)
  -- bits 4 and 5 are mutually exclusive!
  if CHECK_FLAG (flags v mbi) 4 && CHECK_FLAG (flags v mbi) 5 then
    printf v "Both bits 4 and 5 are set.\n" [] fuel
  else do
    -- is the symbol table of a.out valid?
    let v ← (if CHECK_FLAG (flags v mbi) 4 then
        printf v ("aout_symbol_table: tabsize = 0x%0x, " ++
            "strsize = 0x%x, addr = 0x%x\n") [u v mbi 0, u v mbi 1, u v mbi 2] fuel
      else some v)
    -- is the section header table of ELF valid?
    let v ← (if CHECK_FLAG (flags v mbi) 5 then
        printf v ("elf_sec: num = %u, size = 0x%x," ++
            " addr = 0x%x, shndx = 0x%x\n") [u v mbi 0, u v mbi 1, u v mbi 2, u v mbi 3] fuel
      else some v)
    -- are mmap_* valid?
    if CHECK_FLAG (flags v mbi) 6 then do
      let v ← printf v "mmap_addr = 0x%x, mmap_length = 0x%x\n" [mmapAddr v mbi, mmapLength v mbi]
        fuel
      mmapLoop mbi fuel v
    else some v

/-- Checks if `magic` is valid and prints the Multiboot information structure pointed by
`mbi`. -/
def cmain (magic mbi : UInt32) (fuel : Nat) (v : Video) : Option Video :=
  -- clear the screen
  let v := cls v
  -- am I booted by a Multiboot-compliant boot loader?
  if magic ≠ MULTIBOOT_BOOTLOADER_MAGIC then
    printf v "Invalid magic number: 0x%x\n" [magic] fuel
  else
    printInfo mbi fuel v

end SantaOS.Multiboot
