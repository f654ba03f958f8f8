import Mathlib.Algebra.Group.Int.Defs
import Mathlib.Algebra.Group.Nat.Defs
import SantaOS.Lib.Fuel

/-!
# SantaOS.Std

The memory functions of `std.c`. `memcpy` copies between two objects, as its callers in
the kernel do; `memmove` works inside one memory, where the ranges may overlap, and
copies byte by byte in ascending order. `strlen` looks for the zero as long as its fuel
lasts. A string literal is `literal`.
-/

namespace SantaOS

open Memory Fuel

/-- The largest `int` (32 bits). -/
def INT_MAX : Int := 2 ^ 31 - 1

/-- The conversion of an `int` argument to `size_t` (32 bits). -/
def sizeT (n : Int) : Nat := (n % 2 ^ 32).toNat

theorem sizeT_natCast {n : Nat} (h : n < 2 ^ 32) : sizeT n = n := by
  unfold sizeT
  omega

/-- `memcpy(d + off, s, n)` between distinct objects. -/
def memcpy (d : Mem UInt8) (off : Int) (s : Ptr UInt8) (n : Nat) : Mem UInt8 :=
  n.fold (fun i _ d => d.store (off + i) (s i)) d

section Memcpy

variable (d : Mem UInt8) (off : Int) (s : Ptr UInt8) (n : Nat)

theorem memcpy_succ :
    memcpy d off s (n + 1) = (memcpy d off s n).store (off + n) (s n) := by
  simp [memcpy]

theorem memcpy_cells : (memcpy d off s n).cells = d.cells.write off (s.read n) := by
  induction n with
  | zero => simp [memcpy]
  | succ n ih =>
    rw [memcpy_succ, Mem.store_cells, ih, Ptr.write_write_append _ _ (by simp), Ptr.read_add]
    simp [Ptr.read_succ]

theorem memcpy_storedIn :
    Mem.StoredIn (fun a => off ≤ a ∧ a < off + n) d (memcpy d off s n) := by
  induction n with
  | zero => exact .refl _ d
  | succ n ih =>
    rw [memcpy_succ]
    exact (ih.imp fun a ha => ⟨ha.1, by omega⟩).store (by omega) _

end Memcpy

/-- `memmove(d, s, count)` in one memory. -/
def memmove (m : Mem UInt8) (d s : Int) (count : Nat) : Mem UInt8 :=
  count.fold (fun i _ m => m.store (d + i) (m.cells (s + i))) m

section Memmove

variable (m : Mem UInt8) (d s : Int) (count : Nat)

theorem memmove_succ : memmove m d s (count + 1) =
    (memmove m d s count).store (d + count) ((memmove m d s count).cells (s + count)) := by
  simp [memmove]

theorem memmove_storedIn : Mem.StoredIn (fun a => d ≤ a ∧ a < d + count) m
    (memmove m d s count) := by
  induction count with
  | zero => exact .refl _ m
  | succ count ih =>
    rw [memmove_succ]
    exact (ih.imp fun a ha => ⟨ha.1, by omega⟩).store (by omega) _

/-- Outside the destination nothing changes. -/
theorem memmove_outside {a : Int} (h : ¬ (d ≤ a ∧ a < d + count)) :
    (memmove m d s count).cells a = m.cells a := by
  induction count with
  | zero => rw [memmove, Nat.fold_zero]
  | succ count ih =>
    rw [memmove_succ, Mem.store_cells_of_ne _ _ (by omega), ih (by omega)]

/-- What ends up at `d + j` is what stood at `s + j` when its turn came. -/
theorem memmove_copied {j : Nat} (hj : j < count) :
    (memmove m d s count).cells (d + j) = (memmove m d s j).cells (s + j) := by
  induction count with
  | zero => cases hj
  | succ count ih =>
    rw [memmove_succ]
    rcases Nat.lt_succ_iff_lt_or_eq.mp hj with hlt | rfl
    · rw [Mem.store_cells_of_ne _ _ (by omega), ih hlt]
    · rw [Mem.store_cells_self]

variable {d s}

/-- Copying downwards in ascending order never reads a byte it has written. -/
theorem memmove_cells (h : d ≤ s) (a : Int) :
    (memmove m d s count).cells a =
      if d ≤ a ∧ a < d + count then m.cells (a + (s - d)) else m.cells a := by
  induction count generalizing a with
  | zero => rw [if_neg (by omega), memmove, Nat.fold_zero]
  | succ count ih =>
    rw [memmove_succ]
    by_cases ha : a = d + count
    · subst ha
      rw [Mem.store_cells_self, ih, if_neg (by omega), if_pos (by omega)]
      congr 1
      omega
    · rw [Mem.store_cells_of_ne _ _ ha, ih]
      split
      · rw [if_pos (by omega)]
      · rw [if_neg (by omega)]

/-- A byte that is overwritten before it is read does no harm if it is overwritten with
itself. -/
theorem memmove_copied_of_periodic
    (h : ∀ i : Nat, d + i < s + count → m.cells (d + i) = m.cells (s + i)) {j : Nat}
    (hj : j < count) : (memmove m d s count).cells (d + j) = m.cells (s + j) := by
  induction j using Nat.strongRecOn with
  | ind j ih =>
    rw [memmove_copied m d s count hj]
    by_cases hin : d ≤ s + j ∧ s + j < d + j
    · -- the source byte is the destination of the byte `i`
      obtain ⟨i, hi⟩ := Int.eq_ofNat_of_zero_le (show 0 ≤ s + j - d by omega)
      have hsource : s + (j : Int) = d + i := by omega
      have hij : i < j := by omega
      have hcopied := ih i hij (by omega)
      rw [memmove_copied m d s count (by omega)] at hcopied
      rw [hsource, memmove_copied m d s j hij, hcopied, h i (by omega)]
    · rw [memmove_outside m d s j hin]

/-- `m'` is `m` after `count` bytes were copied as if through a temporary. -/
structure Copied (m m' : Mem UInt8) (d s : Int) (count : Nat) : Prop where
  block : (m'.cells.add d).read count = (m.cells.add s).read count
  outside : ∀ a, ¬ (d ≤ a ∧ a < d + count) → m'.cells a = m.cells a

/-- **When `memmove` is right on overlapping ranges**: the destination starts at or below
the source, or each source byte that is overwritten before it is read is overwritten with
the value it has. -/
theorem memmove_copied_iff (m : Mem UInt8) (d s : Int) (count : Nat) :
    Copied m (memmove m d s count) d s count ↔
      d ≤ s ∨ ∀ i : Nat, d + i < s + count → m.cells (d + i) = m.cells (s + i) := by
  constructor
  · intro hcopied
    have hblock := Ptr.read_eq_read_iff.mp hcopied.block
    simp only [Ptr.add_apply] at hblock
    refine Decidable.or_iff_not_imp_left.mpr fun hds i hi => ?_
    -- `d + i` is read as the source byte `j`, behind the copy of the byte `i`
    obtain ⟨j, hj⟩ := Int.eq_ofNat_of_zero_le (show 0 ≤ d + i - s by omega)
    have hsource : s + (j : Int) = d + i := by omega
    have hread := hblock j (by omega)
    have hwritten := hblock i (by omega)
    rw [memmove_copied m d s count (by omega), hsource] at hread
    rw [memmove_copied m d s count (by omega)] at hwritten
    rw [← hread, memmove_copied m d s j (by omega), hwritten]
  · intro h
    refine ⟨Ptr.read_congr fun j hj => ?_, fun a => memmove_outside m d s count⟩
    rw [Ptr.add_apply, Ptr.add_apply]
    rcases h with hds | hperiodic
    · rw [memmove_cells m count hds, if_pos (by omega)]
      congr 1
      omega
    · exact memmove_copied_of_periodic m count hperiodic hj

/-- One byte up: the second byte is overwritten with the first before it is read. -/
theorem not_memmove_copied :
    ¬ ∀ (m : Mem UInt8) (d s : Int) (count : Nat), Copied m (memmove m d s count) d s count := by
  intro h
  have hblock := (h ⟨Ptr.ofList [1, 2], []⟩ 1 0 2).block
  revert hblock
  decide

end Memmove

/-- `bcmp`: the bytes are compared from the last one down. -/
def bcmp (s1 s2 : Ptr UInt8) : Nat → Int
  | 0 => 0
  | n + 1 => if s1 n ≠ s2 n then -1 else bcmp s1 s2 n

/-- `bcmp` answers zero exactly on equal blocks. -/
theorem bcmp_eq_zero_iff (s1 s2 : Ptr UInt8) (n : Nat) :
    bcmp s1 s2 n = 0 ↔ s1.read n = s2.read n := by
  rw [Ptr.read_eq_read_iff]
  induction n with
  | zero => simp [bcmp]
  | succ n ih =>
    rw [bcmp]
    split
    · rename_i hne
      simp only [Int.reduceNeg, Int.reduceEq, false_iff, not_forall]
      exact ⟨n, Nat.lt_succ_self n, hne⟩
    · rename_i heq
      rw [ih]
      refine ⟨fun h i hi => ?_, fun h i hi => h i (by omega)⟩
      rcases Nat.lt_succ_iff_lt_or_eq.mp hi with hlt | rfl
      · exact h i hlt
      · exact Decidable.of_not_not heq

/-! ### Strings -/

/-- The characters of a string. -/
def chars (s : String) : List Int8 := s.toUTF8.toList.map UInt8.toInt8

/-- A string literal. -/
def literal (s : String) : Ptr Int8 := Ptr.ofList (chars s ++ [0])

theorem isString_literal {s : String} (h : 0 ∉ chars s) : IsString (literal s) (chars s) := by
  refine isString_of_read ?_ fun c hc => ne_of_mem_of_not_mem hc h
  have hread := Ptr.read_ofList (chars s ++ [0])
  rwa [List.length_append] at hread

/-- `strlen`, whose loop has no bound of its own. -/
def strlen (str : Ptr Int8) (fuel : Nat) : Option Nat := scan (fun c => c ≠ 0) str fuel 0

theorem returns_strlen {str : Ptr Int8} {s : List Int8} (h : IsString str s) :
    Returns (strlen str) s.length := by
  rw [← List.append_nil s] at h
  refine IsString.returns_scan [] h (fun c hc => ?_) (by decide) (by simp)
  have hne : c ≠ 0 := h.ne_zero (List.mem_append_left _ hc)
  simpa using hne

end SantaOS
