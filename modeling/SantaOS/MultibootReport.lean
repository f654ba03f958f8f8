import SantaOS.MultibootPrintf

/-!
# SantaOS.MultibootReport

`cmain` reports what the boot loader has left in memory. `BootInfo` is that information as
a value, `BootInfo.Lies` says that it lies in memory, and `BootInfo.lines` is the report,
line by line: a format and its values.

`Prints mem x text` says that a piece of `cmain` prints `text`, whatever the screen shows
before it. Each of its calls of `printf` is checked once, format against arguments
(`Checks`); the pieces are then put together.

Proof shape: `Prints` has a rule for code that follows other code (`Prints.bind`), for
branches on what lies in memory (`Prints.ite`) and for a call of `printf` (`prints_printf`);
the two loops are inductions on the modules and the regions.

Design points:
* A line of the report is a format with its values, as the source has it; its text comes from
  `render`.
* `Lies` asks of nothing but its place that it is not part of the screen (`Apart`): what
  `cmain` prints never changes what it has still to read.
-/

namespace SantaOS.Multiboot

open Memory Fuel TextRows Numeral

/-! ### Checked formats -/

/-- The kinds of arguments. -/
inductive Kind
  | word | text
  deriving DecidableEq

/-- The kind of a value. -/
def Value.kind : Value → Kind
  | .word _ => .word
  | .text _ => .text

/-- The directives of the format take arguments of these kinds. -/
def takes : List Int8 → List Kind → Bool
  | [], _ => true
  | [c], _ => c ≠ percentChar
  | c :: d :: f, kinds =>
    if c ≠ percentChar then takes (d :: f) kinds
    else
      match kinds with
      | [] => false
      | kind :: kinds => kind = (if d = sChar then .text else .word) ∧ takes f kinds

/-- A format that can be used with arguments of these kinds. -/
def Checks (format : String) (kinds : List Kind) : Prop :=
  0 ∉ chars format ∧ takes (chars format) kinds

instance (format : String) (kinds : List Kind) : Decidable (Checks format kinds) :=
  inferInstanceAs (Decidable (_ ∧ _))

/-- A checked format has a text. -/
theorem exists_render {f : List Int8} {values : List Value}
    (h : takes f (values.map Value.kind)) : ∃ text, render f values = some text := by
  induction hn : f.length using Nat.strong_induction_on generalizing f values with
  | _ n ih =>
    match f with
    | [] => exact ⟨[], by rw [render]⟩
    | [c] =>
      have hc : c ≠ percentChar := by simpa [takes] using h
      exact ⟨[c.toInt], by rw [render, if_neg hc]⟩
    | c :: d :: f =>
      unfold takes at h
      by_cases hc : c = percentChar
      swap
      · rw [if_pos hc] at h
        obtain ⟨text, htext⟩ := ih (d :: f).length (by simp [← hn]) h rfl
        exact ⟨c.toInt :: text, by rw [render_cons hc, htext]; rfl⟩
      rw [if_neg (not_not.mpr hc)] at h
      have hlt : f.length < n := by simp only [← hn, List.length_cons]; omega
      cases values with
      | nil => cases h
      | cons value values =>
        obtain ⟨hkind, hrest⟩ := of_decide_eq_true h
        obtain ⟨text, htext⟩ := ih f.length hlt hrest rfl
        rw [render, if_neg (not_not.mpr hc)]
        by_cases hs : d = sChar
        · have hnum : ¬ (d = dChar ∨ d = uChar ∨ d = xChar) := by
            rw [hs]
            decide
          rw [if_pos hs] at hkind
          cases value with
          | word w => cases hkind
          | text s =>
            rw [if_neg hnum, if_pos hs]
            exact ⟨s.map Int8.toInt ++ text, by simp [takeText, htext]⟩
        · rw [if_neg hs] at hkind
          cases value with
          | text s => cases hkind
          | word w =>
            split
            · exact ⟨(numeral d w.toInt32).map Int8.toInt ++ text, by simp [takeWord, htext]⟩
            · exact ⟨w.toInt32.toInt :: text, by simp [takeWord, htext]⟩

/-- A line of the report: a format and its values. -/
abbrev Line := String × List Value

/-- The text of a line. -/
def Line.text (line : Line) : List Int := (render (chars line.1) line.2).getD []

/-! ### Printing -/

/-- The piece of code prints these lines. -/
def Prints (mem : Mem UInt8) (x : Nat → Video → Option Video) (lines : List Line) : Prop :=
  ∀ v p, Rolls mem v p → Returns (x · v) (putAll v (lines.flatMap Line.text))

section Prints

variable {mem : Mem UInt8} {x y : Nat → Video → Option Video} {a b : List Line}

theorem Prints.bind (hx : Prints mem x a) (hy : Prints mem y b) :
    Prints mem (fun fuel v => x fuel v >>= y fuel) (a ++ b) := by
  intro v p h
  rw [List.flatMap_append, putAll_append]
  exact (hx v p h).bind (hy _ _ (h.foldl _))

/-- A branch that depends on what lies in memory. -/
theorem Prints.ite {c : Video → Bool} {d : Bool} (hc : ∀ v p, Rolls mem v p → c v = d)
    (hx : d = true → Prints mem x a) (hy : d = false → Prints mem y b) :
    Prints mem (fun fuel v => if c v then x fuel v else y fuel v) (if d then a else b) := by
  intro v p h
  simp only [hc v p h]
  cases d with
  | false => exact hy rfl v p h
  | true => exact hx rfl v p h

theorem Prints.nil : Prints mem (fun _ v => some v) [] :=
  fun _ _ _ => .of_forall fun _ => rfl

/-- A call of `printf`. -/
theorem prints_printf {format : String} {args : Video → List UInt32} {values : List Value}
    (hcheck : Checks format (values.map Value.kind))
    (hargs : ∀ v p, Rolls mem v p → List.Forall₂ (Passes mem) (args v) values) :
    Prints mem (fun fuel v => printf v format (args v) fuel) [(format, values)] := by
  intro v p h
  obtain ⟨text, htext⟩ := exists_render hcheck.2
  have hrun := returns_printfLoop [] v.stack htext (isString_literal hcheck.1) (hargs v p h) h
  rw [List.append_nil] at hrun
  rw [List.flatMap_singleton, Line.text, htext]
  exact hrun

/-- What lies outside the screen is read as it was. -/
theorem member_eq {v : Video} {p : Page UInt8 80} (h : Rolls mem v p) {q : UInt32} {offset : Nat}
    (hout : ∀ k < 4, ¬ OnVideo (q.toNat + (offset + k : Nat))) :
    v.member q offset = word mem (q.toNat + offset) := by
  have hcell (k : Nat) (hk : k < 4) :
      v.memory.cells (q.toNat + offset + k) = mem.cells (q.toNat + offset + k) := by
    have hsum : (q.toNat : Int) + offset + k = q.toNat + (offset + k : Nat) := by omega
    rw [hsum]
    exact h.outside _ (hout k hk)
  have h0 := hcell 0 (by decide)
  have h1 := hcell 1 (by decide)
  have h2 := hcell 2 (by decide)
  have h3 := hcell 3 (by decide)
  rw [Int.natCast_zero, Int.add_zero] at h0
  simp only [Int.cast_ofNat_Int, Nat.cast_ofNat] at h1 h2 h3
  rw [Video.member, word, h0, h1, h2, h3, word]

end Prints

/-! ### What the boot loader leaves -/

/-- `module_t`, with the string it points to. -/
structure BootModule where
  modStart : UInt32
  modEnd : UInt32
  string : List Int8

/-- `memory_map_t`. -/
structure Region where
  size : UInt32
  baseAddrLow : UInt32
  baseAddrHigh : UInt32
  lengthLow : UInt32
  lengthHigh : UInt32
  type : UInt32
  deriving DecidableEq

/-- `multiboot_info_t`, with what it points to. -/
structure BootInfo where
  flags : UInt32
  memLower : UInt32
  memUpper : UInt32
  bootDevice : UInt32
  cmdline : List Int8
  modsAddr : UInt32
  mods : List BootModule
  /-- The words of the union. -/
  u : Nat → UInt32
  mmapLength : UInt32
  mmapAddr : UInt32
  regions : List Region

section Lies

variable (mem : Mem UInt8)

/-- A struct of `size` bytes that is not part of the screen. -/
def Apart (p : UInt32) (size : Nat) : Prop := ∀ k < size, ¬ OnVideo (p.toNat + (k : Nat))

instance (p : UInt32) (size : Nat) : Decidable (Apart p size) :=
  inferInstanceAs (Decidable (∀ k < size, _))

/-- The modules lie one behind the other from `mod` on. -/
def ModulesAt (mod : UInt32) : List BootModule → Prop
  | [] => True
  | m :: ms => Apart mod 12 ∧ word mem (mod.toNat + 0) = m.modStart ∧
    word mem (mod.toNat + 4) = m.modEnd ∧
    Passes mem (word mem (mod.toNat + 8)) (.text m.string) ∧ ModulesAt (mod + 16) ms

/-- The region at an address. -/
def regionAt (mmap : UInt32) : Region where
  size := word mem (mmap.toNat + 0)
  baseAddrLow := word mem (mmap.toNat + 4)
  baseAddrHigh := word mem (mmap.toNat + 8)
  lengthLow := word mem (mmap.toNat + 12)
  lengthHigh := word mem (mmap.toNat + 16)
  type := word mem (mmap.toNat + 20)

/-- The address of the region behind it. -/
def nextRegion (mmap : UInt32) : UInt32 := mmap + (regionAt mem mmap).size + 4

/-- The map from `mmap` to `stop` has these regions. -/
def RegionsAt (stop mmap : UInt32) : List Region → Prop
  | [] => ¬ mmap < stop
  | r :: rs => mmap < stop ∧ Apart mmap 24 ∧ regionAt mem mmap = r ∧
    RegionsAt stop (nextRegion mem mmap) rs

/-- The information lies in memory, at the address `mbi`. -/
structure BootInfo.Lies (info : BootInfo) (mbi : UInt32) : Prop where
  apart : Apart mbi 52
  flags : word mem (mbi.toNat + 0) = info.flags
  memLower : word mem (mbi.toNat + 4) = info.memLower
  memUpper : word mem (mbi.toNat + 8) = info.memUpper
  bootDevice : word mem (mbi.toNat + 12) = info.bootDevice
  cmdline : CHECK_FLAG info.flags 2 = true →
    Passes mem (word mem (mbi.toNat + 16)) (.text info.cmdline)
  modsCount : CHECK_FLAG info.flags 3 = true →
    (word mem (mbi.toNat + 20)).toNat = info.mods.length
  modsAddr : word mem (mbi.toNat + 24) = info.modsAddr
  mods : CHECK_FLAG info.flags 3 = true → ModulesAt mem info.modsAddr info.mods
  u : ∀ i < 4, word mem (mbi.toNat + (28 + 4 * i : Nat)) = info.u i
  mmapLength : word mem (mbi.toNat + 44) = info.mmapLength
  mmapAddr : word mem (mbi.toNat + 48) = info.mmapAddr
  regions : CHECK_FLAG info.flags 6 = true →
    RegionsAt mem (info.mmapAddr + info.mmapLength) info.mmapAddr info.regions

end Lies

/-! ### The report -/

/-- The line about a module. -/
def BootModule.line (m : BootModule) : Line :=
  (" mod_start = 0x%x, mod_end = 0x%x, string = %s\n",
    [.word m.modStart, .word m.modEnd, .text m.string])

/-- The line about a region, the high words before the low ones. -/
def Region.line (r : Region) : Line :=
  (" size = 0x%x, base_addr = 0x%x%x," ++ " length = 0x%x%x, type = 0x%x\n",
    [.word r.size, .word r.baseAddrHigh, .word r.baseAddrLow, .word r.lengthHigh,
      .word r.lengthLow, .word r.type])

/-- A part of the report that is printed when its flag is set. -/
def BootInfo.part (info : BootInfo) (bit : UInt32) (lines : List Line) : List Line :=
  if CHECK_FLAG info.flags bit then lines else []

/-- What is printed of the tables and the memory map. -/
def BootInfo.tableLines (info : BootInfo) : List Line :=
  info.part 4
    [("aout_symbol_table: tabsize = 0x%0x, " ++ "strsize = 0x%x, addr = 0x%x\n",
      [.word (info.u 0), .word (info.u 1), .word (info.u 2)])] ++
  (info.part 5
    [("elf_sec: num = %u, size = 0x%x," ++ " addr = 0x%x, shndx = 0x%x\n",
      [.word (info.u 0), .word (info.u 1), .word (info.u 2), .word (info.u 3)])] ++
  info.part 6
    (("mmap_addr = 0x%x, mmap_length = 0x%x\n", [.word info.mmapAddr, .word info.mmapLength]) ::
      info.regions.map Region.line))

/-- The report. -/
def BootInfo.lines (info : BootInfo) : List Line :=
  ("flags = 0x%x\n", [.word info.flags]) ::
  (info.part 0
    [("mem_lower = %uKB, mem_upper = %uKB\n", [.word info.memLower, .word info.memUpper])] ++
  (info.part 1 [("boot_device = 0x%x\n", [.word info.bootDevice])] ++
  (info.part 2 [("cmdline = %s\n", [.text info.cmdline])] ++
  (info.part 3
    (("mods_count = %d, mods_addr = 0x%x\n",
      [.word (UInt32.ofNat info.mods.length), .word info.modsAddr]) ::
      info.mods.map BootModule.line) ++
  if CHECK_FLAG info.flags 4 && CHECK_FLAG info.flags 5 then
    [("Both bits 4 and 5 are set.\n", [])]
  else info.tableLines))))

/-! ### Printing the report -/

section Report

variable {mem : Mem UInt8}

/-- A struct that is not part of the screen is read as it was. -/
theorem Apart.member_eq {q : UInt32} {size : Nat} (h : Apart q size) {v : Video}
    {p : Page UInt8 80} (hv : Rolls mem v p) (offset : Nat) (hsize : offset + 4 ≤ size) :
    v.member q offset = word mem (q.toNat + offset) :=
  Multiboot.member_eq hv fun k hk => h (offset + k) (by omega)

theorem BootModule.prints {m : BootModule} {mod : UInt32} (hmod : Apart mod 12)
    (hstart : word mem (mod.toNat + 0) = m.modStart) (hend : word mem (mod.toNat + 4) = m.modEnd)
    (hstring : Passes mem (word mem (mod.toNat + 8)) (.text m.string)) :
    Prints mem (fun fuel v => printf v " mod_start = 0x%x, mod_end = 0x%x, string = %s\n"
      [v.member mod 0, v.member mod 4, v.member mod 8] fuel) [m.line] := by
  refine prints_printf (by decide +kernel : Checks _ [.word, .word, .text]) fun v p hv => ?_
  have h0 := hmod.member_eq hv 0 (by decide)
  have h4 := hmod.member_eq hv 4 (by decide)
  have h8 := hmod.member_eq hv 8 (by decide)
  rw [h0, h4, h8]
  refine .cons ?_ (.cons ?_ (.cons hstring .nil))
  · exact hstart ▸ .word _
  · exact hend ▸ .word _

section Modules

variable {mbi : UInt32} {n : Nat} (hmbi : Apart mbi 52)
  (hcount : (word mem (mbi.toNat + 20)).toNat = n)

include hmbi hcount

theorem modsCount_eq {v : Video} {p : Page UInt8 80} (hv : Rolls mem v p) :
    (modsCount v mbi).toNat = n :=
  (congrArg UInt32.toNat (hmbi.member_eq hv 20 (by decide))).trans hcount

/-- The pass over a module. -/
theorem returns_modsBody {i : Nat} (hi : i < n) {m : BootModule} {ms : List BootModule}
    {mod : UInt32} (hmod : ModulesAt mem mod (m :: ms)) {v : Video} {p : Page UInt8 80}
    (hv : Rolls mem v p) :
    Returns (modsBody mbi · (i, mod, v)) (.inr (i + 1, mod + 16, putAll v m.line.text)) := by
  obtain ⟨hapart, hstart, hend, hstring, -⟩ := hmod
  have hline := BootModule.prints hapart hstart hend hstring v p hv
  rw [List.flatMap_singleton] at hline
  rw [← modsCount_eq hmbi hcount hv] at hi
  simp only [modsBody, if_pos hi]
  exact hline.bind (.of_forall fun _ => rfl)

/-- The pass behind the last module. -/
theorem modsBody_stop {mod : UInt32} {v : Video} {p : Page UInt8 80} (hv : Rolls mem v p)
    (fuel : Nat) : modsBody mbi fuel (n, mod, v) = some (.inl v) := by
  have hdone : ¬ n < (modsCount v mbi).toNat := by
    rw [modsCount_eq hmbi hcount hv]
    exact Nat.lt_irrefl n
  simp only [modsBody, if_neg hdone]
  rfl

end Modules

/-- The loop over the modules. -/
theorem prints_modsLoop {mbi : UInt32} {ms : List BootModule} (hmbi : Apart mbi 52)
    (hcount : (word mem (mbi.toNat + 20)).toNat = ms.length)
    (hms : ModulesAt mem (word mem (mbi.toNat + 24)) ms) :
    Prints mem (modsLoop mbi) (ms.map BootModule.line) := by
  -- `i` modules have been printed, the modules `b` are left
  suffices key : ∀ (b : List BootModule) (i : Nat) (mod : UInt32), i + b.length = ms.length →
      ModulesAt mem mod b → ∀ v p, Rolls mem v p →
      Returns (loop (modsBody mbi) · (i, mod, v))
        (putAll v ((b.map BootModule.line).flatMap Line.text)) by
    intro v p hv
    have haddr := hmbi.member_eq hv 24 (by decide)
    refine key ms 0 (modsAddr v mbi) (Nat.zero_add _) ?_ v p hv
    rw [modsAddr, haddr]
    exact hms
  intro b
  induction b with
  | nil =>
    intro i mod hi _ v p hv
    obtain rfl : i = ms.length := hi
    exact .loop_exit (.of_forall (modsBody_stop hmbi hcount hv))
  | cons m b ih =>
    intro i mod hi hmods v p hv
    rw [List.length_cons] at hi
    have hpass := returns_modsBody hmbi hcount (by omega : i < ms.length) hmods hv
    rw [List.map_cons, List.flatMap_cons, putAll_append]
    exact hpass.loop_next (ih (i + 1) (mod + 16) (by omega) hmods.2.2.2.2 _ _ (hv.foldl _))

theorem prints_region {mmap : UInt32} (hmmap : Apart mmap 24) :
    Prints mem (fun fuel v => printf v
      (" size = 0x%x, base_addr = 0x%x%x," ++ " length = 0x%x%x, type = 0x%x\n")
      [v.member mmap 0, v.member mmap 8, v.member mmap 4, v.member mmap 16, v.member mmap 12,
        v.member mmap 20] fuel) [(regionAt mem mmap).line] := by
  refine prints_printf
    (by decide +kernel : Checks _ [.word, .word, .word, .word, .word, .word]) fun v p hv => ?_
  have hmember := hmmap.member_eq hv
  rw [hmember 0 (by decide), hmember 4 (by decide), hmember 8 (by decide),
    hmember 12 (by decide), hmember 16 (by decide), hmember 20 (by decide)]
  exact .cons (.word _) (.cons (.word _) (.cons (.word _) (.cons (.word _) (.cons (.word _)
    (.cons (.word _) .nil)))))

section Map

variable {mbi stop : UInt32} (hmbi : Apart mbi 52)
  (hstop : word mem (mbi.toNat + 48) + word mem (mbi.toNat + 44) = stop)

include hmbi

theorem mmapAddr_eq {v : Video} {p : Page UInt8 80} (hv : Rolls mem v p) :
    mmapAddr v mbi = word mem (mbi.toNat + 48) :=
  hmbi.member_eq hv 48 (by decide)

include hstop

theorem mmapStop_eq {v : Video} {p : Page UInt8 80} (hv : Rolls mem v p) :
    mmapAddr v mbi + mmapLength v mbi = stop := by
  rw [mmapAddr_eq hmbi hv, ← hstop]
  exact congrArg _ (hmbi.member_eq hv 44 (by decide))

/-- The pass over a region. -/
theorem returns_mmapBody {mmap : UInt32} (hmore : mmap < stop) (hapart : Apart mmap 24)
    {v : Video} {p : Page UInt8 80} (hv : Rolls mem v p) :
    Returns (mmapBody mbi · (mmap, v))
      (.inr (nextRegion mem mmap, putAll v (regionAt mem mmap).line.text)) := by
  have hline := prints_region hapart v p hv
  rw [List.flatMap_singleton] at hline
  -- the size is read again behind the call of `printf`
  have hsize : (putAll v (regionAt mem mmap).line.text).member mmap 0 = (regionAt mem mmap).size :=
    hapart.member_eq (hv.foldl _) 0 (by decide)
  rw [← mmapStop_eq hmbi hstop hv] at hmore
  simp only [mmapBody, if_pos hmore]
  refine hline.bind (.of_forall fun _ => ?_)
  rw [hsize]
  rfl

/-- The pass behind the last region. -/
theorem mmapBody_stop {mmap : UInt32} (hdone : ¬ mmap < stop) {v : Video} {p : Page UInt8 80}
    (hv : Rolls mem v p) (fuel : Nat) : mmapBody mbi fuel (mmap, v) = some (.inl v) := by
  rw [← mmapStop_eq hmbi hstop hv] at hdone
  simp only [mmapBody, if_neg hdone]
  rfl

/-- The loop over the memory map. -/
theorem prints_mmapLoop {rs : List Region}
    (hrs : RegionsAt mem stop (word mem (mbi.toNat + 48)) rs) :
    Prints mem (mmapLoop mbi) (rs.map Region.line) := by
  suffices key : ∀ mmap, RegionsAt mem stop mmap rs → ∀ v p, Rolls mem v p →
      Returns (loop (mmapBody mbi) · (mmap, v))
        (putAll v ((rs.map Region.line).flatMap Line.text)) by
    intro v p hv
    rw [← mmapAddr_eq hmbi hv] at hrs
    exact key (mmapAddr v mbi) hrs v p hv
  clear hrs
  induction rs with
  | nil =>
    intro mmap hdone v p hv
    exact .loop_exit (.of_forall (mmapBody_stop hmbi hstop hdone hv))
  | cons r rs ih =>
    intro mmap hregions v p hv
    obtain ⟨hmore, hapart, rfl, hrest⟩ := hregions
    rw [List.map_cons, List.flatMap_cons, putAll_append]
    exact (returns_mmapBody hmbi hstop hmore hapart hv).loop_next (ih _ hrest _ _ (hv.foldl _))

end Map

section Lies

variable {info : BootInfo} {mbi : UInt32} (h : info.Lies mem mbi)

include h

theorem BootInfo.Lies.flags_eq {v : Video} {p : Page UInt8 80} (hv : Rolls mem v p) :
    Multiboot.flags v mbi = info.flags :=
  (h.apart.member_eq hv 0 (by decide)).trans h.flags

theorem BootInfo.Lies.prints_part (bit : UInt32) {x : Nat → Video → Option Video} {a : List Line}
    (hx : CHECK_FLAG info.flags bit = true → Prints mem x a) :
    Prints mem (fun fuel v => if CHECK_FLAG (Multiboot.flags v mbi) bit then x fuel v else some v)
      (info.part bit a) :=
  .ite (fun _ _ hv => by rw [h.flags_eq hv]) hx fun _ => .nil

/-- A call of `printf` with members of the information. -/
theorem BootInfo.Lies.prints_members (format : String) (offsets : List Nat)
    (hsize : ∀ offset ∈ offsets, offset + 4 ≤ 52)
    (hcheck : Checks format (offsets.map fun _ => Kind.word)) :
    Prints mem (fun fuel v => printf v format (offsets.map (v.member mbi)) fuel)
      [(format, offsets.map fun offset => .word (word mem (mbi.toNat + (offset : Nat))))] := by
  refine prints_printf (by simpa [Function.comp_def, Value.kind] using hcheck) fun v p hv => ?_
  rw [List.forall₂_map_left_iff, List.forall₂_map_right_iff, List.forall₂_same]
  intro offset hmem
  rw [h.apart.member_eq hv offset (hsize offset hmem)]
  exact .word _

theorem BootInfo.Lies.prints_cmdline (hflag : CHECK_FLAG info.flags 2 = true) :
    Prints mem (fun fuel v => printf v "cmdline = %s\n" [Multiboot.cmdline v mbi] fuel)
      [("cmdline = %s\n", [.text info.cmdline])] := by
  refine prints_printf (by decide +kernel : Checks _ [.text]) fun v p hv => ?_
  rw [Multiboot.cmdline, h.apart.member_eq hv 16 (by decide)]
  exact .cons (h.cmdline hflag) .nil

/-- The number of modules, and the modules. -/
theorem BootInfo.Lies.prints_mods (hflag : CHECK_FLAG info.flags 3 = true) :
    Prints mem (fun fuel v =>
        printf v "mods_count = %d, mods_addr = 0x%x\n"
          [Multiboot.modsCount v mbi, Multiboot.modsAddr v mbi] fuel >>= modsLoop mbi fuel)
      (("mods_count = %d, mods_addr = 0x%x\n",
        [.word (UInt32.ofNat info.mods.length), .word info.modsAddr]) ::
        info.mods.map BootModule.line) := by
  have hcount := h.modsCount hflag
  have hline := h.prints_members "mods_count = %d, mods_addr = 0x%x\n" [20, 24]
    (by decide) (by decide +kernel)
  have hword : UInt32.ofNat info.mods.length = word mem (mbi.toNat + 20) := by
    rw [← hcount, UInt32.ofNat_toNat]
  rw [hword, ← h.modsAddr]
  refine Prints.bind hline (prints_modsLoop h.apart hcount ?_)
  rw [h.modsAddr]
  exact h.mods hflag

theorem BootInfo.Lies.prints_mmapLoop (hflag : CHECK_FLAG info.flags 6 = true) :
    Prints mem (mmapLoop mbi) (info.regions.map Region.line) := by
  refine Multiboot.prints_mmapLoop h.apart rfl ?_
  rw [h.mmapAddr, h.mmapLength]
  exact h.regions hflag

/-- The address and the length of the memory map, and its regions. -/
theorem BootInfo.Lies.prints_mmap (hflag : CHECK_FLAG info.flags 6 = true) :
    Prints mem (fun fuel v =>
        printf v "mmap_addr = 0x%x, mmap_length = 0x%x\n"
          [Multiboot.mmapAddr v mbi, Multiboot.mmapLength v mbi] fuel >>= mmapLoop mbi fuel)
      (("mmap_addr = 0x%x, mmap_length = 0x%x\n",
        [.word info.mmapAddr, .word info.mmapLength]) :: info.regions.map Region.line) := by
  have hline := h.prints_members "mmap_addr = 0x%x, mmap_length = 0x%x\n" [48, 44]
    (by decide) (by decide +kernel)
  rw [← h.mmapAddr, ← h.mmapLength]
  exact Prints.bind hline (h.prints_mmapLoop hflag)

/-- **The report.** -/
theorem BootInfo.Lies.prints_printInfo : Prints mem (printInfo mbi) info.lines := by
  have hflags := h.prints_members "flags = 0x%x\n" [0] (by decide) (by decide +kernel)
  have hmem := h.prints_part 0 fun _ => h.prints_members "mem_lower = %uKB, mem_upper = %uKB\n"
    [4, 8] (by decide) (by decide +kernel)
  have hboot := h.prints_part 1 fun _ => h.prints_members "boot_device = 0x%x\n" [12]
    (by decide) (by decide +kernel)
  have haout := h.prints_part 4 fun _ => h.prints_members
    ("aout_symbol_table: tabsize = 0x%0x, " ++ "strsize = 0x%x, addr = 0x%x\n") [28, 32, 36]
    (by decide) (by decide +kernel)
  have helf := h.prints_part 5 fun _ => h.prints_members
    ("elf_sec: num = %u, size = 0x%x," ++ " addr = 0x%x, shndx = 0x%x\n") [28, 32, 36, 40]
    (by decide) (by decide +kernel)
  have hboth : Prints mem (fun fuel v => printf v "Both bits 4 and 5 are set.\n" [] fuel)
      [("Both bits 4 and 5 are set.\n", [])] :=
    prints_printf (by decide +kernel : Checks _ []) fun _ _ _ => .nil
  have hflag (v p) (hv : Rolls mem v p) :
      (CHECK_FLAG (Multiboot.flags v mbi) 4 && CHECK_FLAG (Multiboot.flags v mbi) 5) =
        (CHECK_FLAG info.flags 4 && CHECK_FLAG info.flags 5) := by rw [h.flags_eq hv]
  have htables := Prints.ite hflag (fun _ => hboth) fun _ =>
    haout.bind (helf.bind (h.prints_part 6 h.prints_mmap))
  have hreport := hflags.bind (hmem.bind (hboot.bind ((h.prints_part 2 h.prints_cmdline).bind
    ((h.prints_part 3 h.prints_mods).bind htables))))
  rw [BootInfo.lines, BootInfo.tableLines, ← h.flags, ← h.memLower, ← h.memUpper, ← h.bootDevice,
    ← h.u 0 (by decide), ← h.u 1 (by decide), ← h.u 2 (by decide), ← h.u 3 (by decide)]
  rw [← h.flags] at hreport
  exact hreport

end Lies

/-- **`cmain`** reports what the boot loader has left in memory, on a screen that was
cleared, and changes nothing else. With a wrong magic number it says so and does not look at
the memory. -/
theorem cmain_reports {magic mbi : UInt32} {v : Video} {info : BootInfo}
    (h : magic = MULTIBOOT_BOOTLOADER_MAGIC → info.Lies v.memory mbi) :
    ∃ v', Returns (cmain magic mbi · v) v' ∧ Rolls v.memory v'
      (List.foldl emit (Page.empty (show 0 < 80 by decide))
        ((if magic = MULTIBOOT_BOOTLOADER_MAGIC then info.lines
          else [("Invalid magic number: 0x%x\n", [.word magic])]).flatMap Line.text)) := by
  have hcls := rolls_cls v
  refine ⟨_, ?_, hcls.foldl _⟩
  by_cases hmagic : magic = MULTIBOOT_BOOTLOADER_MAGIC
  · have hinfo := (h hmagic).prints_printInfo _ _ hcls
    simp only [cmain, if_neg (not_not.mpr hmagic), if_pos hmagic]
    exact hinfo
  · have hline : Prints v.memory
        (fun fuel v => printf v "Invalid magic number: 0x%x\n" [magic] fuel) _ :=
      prints_printf (by decide +kernel : Checks _ [.word]) fun _ _ _ => .cons (.word magic) .nil
    simp only [cmain, if_pos hmagic, if_neg hmagic]
    exact hline _ _ hcls

end Report

/-- The bytes of words. -/
def wordBytes (ws : List UInt32) : List UInt8 :=
  ws.flatMap fun (w : UInt32) =>
    [w.toUInt8, (w >>> 8).toUInt8, (w >>> 16).toUInt8, (w >>> 24).toUInt8]

/-- A boot with a command line, one module and one region. -/
def bootInfo : BootInfo where
  flags := 0x4D
  memLower := 639
  memUpper := 64512
  bootDevice := 0
  cmdline := [104, 105]
  modsAddr := 0x1100
  mods := [⟨0x200000, 0x200400, [104, 105]⟩]
  u := fun _ => 0
  mmapLength := 24
  mmapAddr := 0x1200
  regions := [⟨20, 0x1000, 1, 0x8000, 0, 1⟩]

/-- Where it lies: the information at `0x1000`. -/
def bootMemory : Mem UInt8 where
  cells :=
    (((Ptr.write (fun _ => 0) 0x1000 (wordBytes
      [0x4D, 639, 64512, 0, 0x2000, 1, 0x1100, 0, 0, 0, 0, 24, 0x1200])).write 0x1100
      (wordBytes [0x200000, 0x200400, 0x2000, 0])).write 0x1200
      (wordBytes [20, 0x1000, 1, 0x8000, 0, 1])).write 0x2000 [104, 105, 0]
  stores := []

theorem bootInfo_lies : bootInfo.Lies bootMemory 0x1000 where
  apart := by decide +kernel
  flags := by decide +kernel
  memLower := by decide +kernel
  memUpper := by decide +kernel
  bootDevice := by decide +kernel
  cmdline := fun _ => .text (by decide +kernel) (by decide +kernel) (by decide +kernel)
  modsCount := fun _ => by decide +kernel
  modsAddr := by decide +kernel
  mods := fun _ => ⟨by decide +kernel, by decide +kernel, by decide +kernel,
    .text (by decide +kernel) (by decide +kernel) (by decide +kernel), trivial⟩
  u := by decide +kernel
  mmapLength := by decide +kernel
  mmapAddr := by decide +kernel
  regions := fun _ => ⟨by decide +kernel, by decide +kernel, by decide +kernel,
    (by decide +kernel : ¬ nextRegion bootMemory 0x1200 < 0x1218)⟩

/-- A computer that has been started with it. -/
def startedVideo : Video := ⟨0, 0, 0, bootMemory, .filled 0⟩

theorem cmain_reports_bootInfo :
    ∃ v', Returns (cmain MULTIBOOT_BOOTLOADER_MAGIC 0x1000 · startedVideo) v' ∧
      Rolls bootMemory v' (List.foldl emit (Page.empty (show 0 < 80 by decide))
        (bootInfo.lines.flatMap Line.text)) :=
  cmain_reports fun _ => bootInfo_lies

end SantaOS.Multiboot
