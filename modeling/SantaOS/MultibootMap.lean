import SantaOS.MultibootReport

/-!
# SantaOS.MultibootMap

The memory map in the report of `cmain`: when the addresses of its regions can be read from
the report, and when the report ends at all. A region says itself how far behind it the next
one lies.

Proof shape: a pass prints the line of a region and goes on at `nextRegion`, so the loop
iterates that function on the map as it lies in memory. If it has an answer, some pass was
behind the map (`exists_end_of_loop`); as long as there is more of the map, it prints on
(`reaches_of_more`).

Design points:
* The two words of an address are printed one behind the other, the low one without leading
  zeros, so one numeral may stand for several addresses (`value_quadDigits_iff`).
* `Visits` says at which addresses a region is read. That none of these regions is part of
  the screen is all that is assumed of the map.
-/

namespace SantaOS.Multiboot

open Memory Fuel TextRows Numeral

/-! ### The addresses of the memory map -/

/-- The 64 bits of two words. -/
def quad (high low : UInt32) : Nat := high.toNat * 2 ^ 32 + low.toNat

/-- The digits of `0x%x%x`. -/
def quadDigits (high low : UInt32) : List Nat := digits 16 high.toNat ++ digits 16 low.toNat

/-- The line of a region. -/
def Region.text (r : Region) : List Int8 :=
  chars " size = 0x" ++ (digits 16 r.size.toNat).map digitChar ++
    chars ", base_addr = 0x" ++ (quadDigits r.baseAddrHigh r.baseAddrLow).map digitChar ++
    chars ", length = 0x" ++ (quadDigits r.lengthHigh r.lengthLow).map digitChar ++
    chars ", type = 0x" ++ (digits 16 r.type.toNat).map digitChar ++ [10]

theorem Region.line_text (r : Region) : r.line.text = r.text.map Int8.toInt := by
  have hformat : chars r.line.1 =
      chars " size = 0x" ++ percentChar :: xChar :: (chars ", base_addr = 0x" ++
        percentChar :: xChar :: percentChar :: xChar :: (chars ", length = 0x" ++
        percentChar :: xChar :: percentChar :: xChar :: (chars ", type = 0x" ++
        percentChar :: xChar :: ([10] ++ [])))) := by
    show chars (" size = 0x%x, base_addr = 0x%x%x," ++ " length = 0x%x%x, type = 0x%x\n") = _
    decide +kernel
  have hvalues : r.line.2 = [.word r.size, .word r.baseAddrHigh, .word r.baseAddrLow,
    .word r.lengthHigh, .word r.lengthLow, .word r.type] := rfl
  have hsize : percentChar ∉ chars " size = 0x" := by decide +kernel
  have hbase : percentChar ∉ chars ", base_addr = 0x" := by decide +kernel
  have hlength : percentChar ∉ chars ", length = 0x" := by decide +kernel
  have htype : percentChar ∉ chars ", type = 0x" := by decide +kernel
  have hend : percentChar ∉ [(10 : Int8)] := by decide
  rw [Line.text, hformat, hvalues, render_append hsize, render_x, render_append hbase, render_x,
    render_x, render_append hlength, render_x, render_x, render_append htype, render_x,
    render_append hend, render]
  simp [Region.text, quadDigits]

/-- Both halves are printed without leading zeros. -/
theorem value_quadDigits_iff (high low : UInt32) :
    value 16 (quadDigits high low) = quad high low ↔ high.toNat = 0 ∨ 2 ^ 28 ≤ low.toNat :=
  value_append_digits_iff (b := 16) (k := 8) (by decide) (by decide) low.toNat_lt

/-- **The addresses of the memory map**: each region is one line. All base addresses and all
lengths can be read from the report exactly when the low words of those with a high word
fill their eight digits. -/
theorem mmapLoop_addresses {mem : Mem UInt8} {mbi : UInt32} {info : BootInfo}
    (h : info.Lies mem mbi) (hflag : CHECK_FLAG info.flags 6 = true) {v : Video}
    {p : Page UInt8 80} (hv : Rolls mem v p) :
    Returns (mmapLoop mbi · v) (putAll v ((info.regions.flatMap Region.text).map Int8.toInt)) ∧
      ((∀ r ∈ info.regions,
          value 16 (quadDigits r.baseAddrHigh r.baseAddrLow) = quad r.baseAddrHigh r.baseAddrLow ∧
          value 16 (quadDigits r.lengthHigh r.lengthLow) = quad r.lengthHigh r.lengthLow) ↔
        ∀ r ∈ info.regions,
          (r.baseAddrHigh.toNat = 0 ∨ 2 ^ 28 ≤ r.baseAddrLow.toNat) ∧
          (r.lengthHigh.toNat = 0 ∨ 2 ^ 28 ≤ r.lengthLow.toNat)) := by
  refine ⟨?_, by simp only [value_quadDigits_iff]⟩
  have hlines : (info.regions.flatMap Region.text).map Int8.toInt =
      (info.regions.map Region.line).flatMap Line.text := by
    rw [List.map_flatMap, List.flatMap_map]
    exact List.flatMap_congr fun r _ => r.line_text.symm
  rw [hlines]
  exact h.prints_mmapLoop hflag v p hv

/-- The base address `0x100001000` is printed as `0x11000`. -/
theorem mmapLoop_addresses_bootInfo :
    Returns (mmapLoop 0x1000 · (cls startedVideo))
        (putAll (cls startedVideo) ((bootInfo.regions.flatMap Region.text).map Int8.toInt)) ∧
      ¬ ∀ r ∈ bootInfo.regions,
        value 16 (quadDigits r.baseAddrHigh r.baseAddrLow) = quad r.baseAddrHigh r.baseAddrLow ∧
        value 16 (quadDigits r.lengthHigh r.lengthLow) = quad r.lengthHigh r.lengthLow := by
  obtain ⟨hrun, hiff⟩ := mmapLoop_addresses bootInfo_lies (by decide) (rolls_cls startedVideo)
  exact ⟨hrun, mt hiff.mp (by decide)⟩

/-! ### The end of the memory map -/

/-- The loop that starts at an address comes to the region at another. -/
inductive Visits (mem : Mem UInt8) (stop : UInt32) : UInt32 → UInt32 → Prop
  | here {mmap : UInt32} (hmore : mmap < stop) : Visits mem stop mmap mmap
  | behind {mmap mmap' : UInt32} (hmore : mmap < stop)
    (h : Visits mem stop (nextRegion mem mmap) mmap') : Visits mem stop mmap mmap'

/-- The first regions from an address on, each behind the one before it. -/
def regionsFrom (mem : Mem UInt8) (mmap : UInt32) (n : Nat) : List Region :=
  (List.range n).map fun k => regionAt mem ((nextRegion mem)^[k] mmap)

theorem regionsFrom_succ (mem : Mem UInt8) (mmap : UInt32) (n : Nat) :
    regionsFrom mem mmap (n + 1) =
      regionsFrom mem mmap n ++ [regionAt mem ((nextRegion mem)^[n] mmap)] := by
  simp [regionsFrom, List.range_succ]

section End

variable {mem : Mem UInt8} {stop : UInt32}

/-- The loop comes to an address when it finds more of the map at each one before. -/
theorem visits_iterate {mmap : UInt32} {n : Nat}
    (hmore : ∀ k ≤ n, (nextRegion mem)^[k] mmap < stop) :
    Visits mem stop mmap ((nextRegion mem)^[n] mmap) := by
  induction n generalizing mmap with
  | zero => exact .here (hmore 0 (Nat.le_refl 0))
  | succ n ih =>
    refine .behind (hmore 0 (Nat.zero_le _)) (ih fun k hk => ?_)
    exact hmore (k + 1) (Nat.succ_le_succ hk)

/-- A map that comes to its end is a list of regions. -/
theorem exists_regionsAt {mmap : UInt32} {n : Nat} (hend : ¬ (nextRegion mem)^[n] mmap < stop)
    (hapart : ∀ mmap', Visits mem stop mmap mmap' → Apart mmap' 24) :
    ∃ rs, RegionsAt mem stop mmap rs := by
  induction n generalizing mmap with
  | zero => exact ⟨[], hend⟩
  | succ n ih =>
    by_cases hmore : mmap < stop
    · obtain ⟨rs, hrs⟩ := ih hend fun mmap' h => hapart mmap' (.behind hmore h)
      exact ⟨regionAt mem mmap :: rs, hmore, hapart mmap (.here hmore), rfl, hrs⟩
    · exact ⟨[], hmore⟩

/-- With more fuel a pass does the same. -/
theorem stable_mmapBody (mbi : UInt32) (vars : UInt32 × Video) : Stable (mmapBody mbi · vars) := by
  obtain ⟨mmap, v⟩ := vars
  simp only [mmapBody]
  split
  · exact (stable_printf _ _ _).bind fun _ => stable_const _
  · exact stable_const _

section Loop

variable {mbi : UInt32} (hmbi : Apart mbi 52)
  (hstop : word mem (mbi.toNat + 48) + word mem (mbi.toNat + 44) = stop)

include hmbi hstop

/-- A loop that has an answer came behind the last region. -/
theorem exists_end_of_loop {fuel : Nat} {mmap : UInt32} {v v' : Video} {p : Page UInt8 80}
    (hapart : ∀ mmap', Visits mem stop mmap mmap' → Apart mmap' 24) (hv : Rolls mem v p)
    (hrun : loop (mmapBody mbi) fuel (mmap, v) = some v') :
    ∃ n, ¬ (nextRegion mem)^[n] mmap < stop := by
  induction fuel generalizing mmap v p with
  | zero => cases hrun
  | succ fuel ih =>
    by_cases hmore : mmap < stop
    · obtain ⟨next, hbody, hrest⟩ := Option.bind_eq_some_iff.mp hrun
      have hpass := returns_mmapBody hmbi hstop hmore (hapart mmap (.here hmore)) hv
      obtain rfl := hpass.eq_of_stable (stable_mmapBody mbi _) hbody
      obtain ⟨n, hn⟩ := ih (fun mmap' h => hapart mmap' (.behind hmore h)) (hv.foldl _) hrest
      exact ⟨n + 1, hn⟩
    · exact ⟨0, hmore⟩

/-- As long as there is a region the loop goes on, one line for each. -/
theorem reaches_of_more {mmap : UInt32} {v : Video} {p : Page UInt8 80}
    (hapart : ∀ mmap', Visits mem stop mmap mmap' → Apart mmap' 24) (hv : Rolls mem v p) {n : Nat}
    (hmore : ∀ k < n, (nextRegion mem)^[k] mmap < stop) :
    Reaches (mmapBody mbi) (mmap, v) ((nextRegion mem)^[n] mmap,
      putAll v ((regionsFrom mem mmap n).flatMap fun r => r.line.text)) := by
  induction n with
  | zero => exact .start
  | succ n ih =>
    have hlast := hmore n (Nat.lt_succ_self n)
    have hvisits : Visits mem stop mmap ((nextRegion mem)^[n] mmap) :=
      visits_iterate fun k hk => hmore k (Nat.lt_succ_of_le hk)
    have hpass := returns_mmapBody hmbi hstop hlast (hapart _ hvisits)
      (hv.foldl ((regionsFrom mem mmap n).flatMap fun r => r.line.text))
    rw [regionsFrom_succ, List.flatMap_append, List.flatMap_singleton, putAll_append,
      Function.iterate_succ_apply']
    exact (ih fun k hk => hmore k (Nat.lt_succ_of_lt hk)).pass_of_returns hpass

end Loop

end End

/-- **The end of the memory map**: the loop over the map comes to an end exactly when the
sizes of the regions lead behind the map. Otherwise it comes, for every `n`, to where it
has printed the lines of `n` regions. -/
theorem mmapLoop_returns_iff {mem : Mem UInt8} {mbi stop : UInt32} (hmbi : Apart mbi 52)
    (hstop : word mem (mbi.toNat + 48) + word mem (mbi.toNat + 44) = stop)
    (hapart : ∀ mmap, Visits mem stop (word mem (mbi.toNat + 48)) mmap → Apart mmap 24)
    {v : Video} {p : Page UInt8 80} (hv : Rolls mem v p) :
    ((∃ fuel v', mmapLoop mbi fuel v = some v') ↔
      ∃ n, ¬ (nextRegion mem)^[n] (word mem (mbi.toNat + 48)) < stop) ∧
      ((∀ n, (nextRegion mem)^[n] (word mem (mbi.toNat + 48)) < stop) →
        ∀ n, Reaches (mmapBody mbi) (mmapAddr v mbi, v)
          ((nextRegion mem)^[n] (mmapAddr v mbi),
            putAll v ((regionsFrom mem (mmapAddr v mbi) n).flatMap fun r => r.line.text))) := by
  refine ⟨⟨?_, ?_⟩, fun hmore n => ?_⟩
  · rintro ⟨fuel, v', hrun⟩
    rw [mmapLoop, mmapAddr_eq hmbi hv] at hrun
    exact exists_end_of_loop hmbi hstop hapart hv hrun
  · rintro ⟨n, hn⟩
    obtain ⟨rs, hrs⟩ := exists_regionsAt hn hapart
    obtain ⟨fuel, hrun⟩ := prints_mmapLoop hmbi hstop hrs v p hv
    exact ⟨fuel, _, hrun fuel (Nat.le_refl fuel)⟩
  · rw [mmapAddr_eq hmbi hv]
    exact reaches_of_more hmbi hstop hapart hv fun k _ => hmore k

/-- A map whose first region is followed by itself. -/
def stuckMemory : Mem UInt8 where
  cells := bootMemory.cells.write 0x1200 (wordBytes [0xFFFFFFFC])
  stores := []

/-- A computer that has been started with it. -/
def stuckVideo : Video := ⟨0, 0, 0, stuckMemory, .filled 0⟩

theorem nextRegion_stuckMemory : nextRegion stuckMemory 0x1200 = 0x1200 := by
  decide +kernel

theorem visits_stuckMemory {stop mmap : UInt32} (h : Visits stuckMemory stop 0x1200 mmap) :
    mmap = 0x1200 := by
  generalize hstart : (0x1200 : UInt32) = start at h
  induction h with
  | here => rfl
  | behind _ _ ih =>
    rw [← hstart, nextRegion_stuckMemory] at ih
    exact (ih rfl).trans hstart

/-- It is printed for ever, the same line again and again. -/
theorem mmapLoop_returns_iff_stuck :
    (¬ ∃ fuel v', mmapLoop 0x1000 fuel (cls stuckVideo) = some v') ∧
      ∀ n, Reaches (mmapBody 0x1000) (0x1200, cls stuckVideo)
        (0x1200, putAll (cls stuckVideo)
          ((List.replicate n (regionAt stuckMemory 0x1200)).flatMap fun r => r.line.text)) := by
  have hstart : word stuckMemory ((0x1000 : UInt32).toNat + 48) = 0x1200 := by decide +kernel
  have hstop : word stuckMemory ((0x1000 : UInt32).toNat + 48) +
      word stuckMemory ((0x1000 : UInt32).toNat + 44) = 0x1218 := by decide +kernel
  have hapart (mmap : UInt32) (h : Visits stuckMemory 0x1218
      (word stuckMemory ((0x1000 : UInt32).toNat + 48)) mmap) : Apart mmap 24 := by
    rw [hstart] at h
    rw [visits_stuckMemory h]
    decide +kernel
  have hstuck (n : Nat) : (nextRegion stuckMemory)^[n] 0x1200 = 0x1200 :=
    Function.iterate_fixed nextRegion_stuckMemory n
  have hmore (n : Nat) : (nextRegion stuckMemory)^[n]
      (word stuckMemory ((0x1000 : UInt32).toNat + 48)) < 0x1218 := by
    rw [hstart, hstuck]
    decide
  have hmbi : Apart 0x1000 52 := by decide +kernel
  obtain ⟨hiff, hreaches⟩ :=
    mmapLoop_returns_iff hmbi hstop hapart (rolls_cls stuckVideo)
  have hlines := hreaches hmore
  rw [mmapAddr_eq hmbi (rolls_cls stuckVideo), show stuckVideo.memory = stuckMemory from rfl,
    hstart] at hlines
  simp only [regionsFrom, hstuck, List.map_const', List.length_range] at hlines
  refine ⟨?_, hlines⟩
  rw [hiff]
  rintro ⟨n, hn⟩
  exact hn (hmore n)

end SantaOS.Multiboot
