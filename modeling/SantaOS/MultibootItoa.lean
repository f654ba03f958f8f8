import SantaOS.Lib.Numeral
import SantaOS.Multiboot

/-!
# SantaOS.MultibootItoa

`itoa` of the multiboot kernel writes numerals. The dividing loop leaves the digits last one
first (`divideLoop_spec`), the exchanging loop turns them round (`reverseLoop_cells`); the
string and its zero stay inside the 20 characters of `buf`.

Proof shape: each loop is described by what it leaves in `buf` and where it stores, by
induction on its passes. `writeDigits` is `itoa` behind the sign, so that `%d`, `%u` and `%x`
differ in the sign and the divisor only.

Design points:
* The distance of the least `int` from zero is right as an unsigned word, though its negation
  overflows (`toNat_neg`).
* `readBack` is not in the source: it says what a reader takes a numeral for.
-/

namespace SantaOS.Multiboot

open Memory Fuel Numeral

/-! ### The loops of itoa -/

section Loops

variable (buf : Mem Int8)

/-- The digits, the last one first. -/
theorem divideLoop_spec {divisor : UInt32} (hdivisor : 1 < divisor.toNat) {n : Nat} (hn : 0 < n)
    {ud : UInt32} (hud : ud.toNat < 2 ^ n) (p : Int) :
    (divideLoop divisor n ud buf p).1.cells =
        buf.cells.write p ((digits divisor.toNat ud.toNat).reverse.map digitChar) ∧
      (divideLoop divisor n ud buf p).2 = p + (digits divisor.toNat ud.toNat).length ∧
      Mem.StoredIn (fun a => p ≤ a ∧ a < p + (digits divisor.toNat ud.toNat).length) buf
        (divideLoop divisor n ud buf p).1 := by
  induction n generalizing ud buf p with
  | zero => cases hn
  | succ n ih =>
    have hdiv : (ud / divisor).toNat = ud.toNat / divisor.toNat := UInt32.toNat_div ud divisor
    have hmod : (ud % divisor).toNat = ud.toNat % divisor.toNat := UInt32.toNat_mod ud divisor
    have hstored : Mem.StoredIn (fun a => p ≤ a ∧ a < p + 1) buf
        (buf.store p (digitChar (ud % divisor).toNat)) :=
      (Mem.StoredIn.refl _ buf).store (by omega) _
    rw [divideLoop]
    by_cases hlast : ud.toNat < divisor.toNat
    · have hzero : ud / divisor = 0 := by
        apply UInt32.toNat_inj.mp
        rw [hdiv, Nat.div_eq_of_lt hlast]
        rfl
      rw [if_neg (not_not.mpr hzero), digits_of_lt hlast, hmod, Nat.mod_eq_of_lt hlast]
      rw [hmod, Nat.mod_eq_of_lt hlast] at hstored
      exact ⟨Mem.store_cells _ _ _, rfl, hstored⟩
    · have hle := Nat.le_of_not_lt hlast
      have hpos : 0 < ud.toNat / divisor.toNat := Nat.div_pos hle (by omega)
      have hne : ud / divisor ≠ 0 := by
        intro h
        rw [h] at hdiv
        exact Nat.ne_of_gt hpos hdiv.symm
      have hhalf : ud.toNat / divisor.toNat ≤ ud.toNat / 2 :=
        Nat.div_le_div_left hdivisor (by omega)
      have hlt : (ud / divisor).toNat < 2 ^ n := by
        rw [hdiv]
        rw [Nat.pow_succ] at hud
        omega
      have hn' : 0 < n := by
        rcases Nat.eq_zero_or_pos n with rfl | hpos'
        · rw [hdiv] at hlt
          omega
        · exact hpos'
      obtain ⟨hcells, hend, hrest⟩ :=
        ih (buf.store p (digitChar (ud % divisor).toNat)) hn' hlt (p + 1)
      rw [if_pos hne, digits_of_le hdivisor hle, ← hmod, ← hdiv]
      refine ⟨?_, ?_, ?_⟩
      · rw [hcells, Mem.store_cells, Ptr.write_write_append _ _ (by simp)]
        simp
      · rw [hend, List.length_append, List.length_singleton]
        omega
      · rw [List.length_append, List.length_singleton]
        exact (hstored.imp fun a ha => by omega).trans (hrest.imp fun a ha => by omega)

/-- The characters from `lo` to `hi` are turned round. -/
theorem reverseLoop_cells {n : Nat} {lo hi : Int} (hn : hi - lo < 2 * n) (a : Int) :
    (reverseLoop n buf lo hi).cells a =
      if lo ≤ a ∧ a ≤ hi then buf.cells (lo + hi - a) else buf.cells a := by
  induction n generalizing buf lo hi with
  | zero =>
    rw [reverseLoop, if_neg]
    omega
  | succ n ih =>
    rw [reverseLoop]
    by_cases hlt : lo < hi
    · rw [if_pos hlt]
      have hswap (b : Int) : ((buf.store lo (buf.cells hi)).store hi (buf.cells lo)).cells b =
          if b = lo then buf.cells hi else if b = hi then buf.cells lo else buf.cells b := by
        by_cases hb : b = hi
        · rw [hb, Mem.store_cells_self, if_neg (by omega), if_pos rfl]
        · rw [Mem.store_cells_of_ne _ _ hb, if_neg hb]
          by_cases hb' : b = lo
          · rw [hb', Mem.store_cells_self, if_pos rfl]
          · rw [Mem.store_cells_of_ne _ _ hb', if_neg hb']
      rw [ih _ (by omega), hswap, hswap]
      rcases Int.lt_trichotomy a lo with ha | rfl | ha
      · rw [if_neg (by omega), if_neg (by omega), if_neg (by omega), if_neg (by omega)]
      · rw [if_neg (by omega), if_pos rfl, if_pos (by omega)]
        congr 1
        omega
      · rcases Int.lt_trichotomy a hi with ha' | rfl | ha'
        · rw [if_pos (by omega), if_neg (by omega), if_neg (by omega), if_pos (by omega)]
          congr 1
          omega
        · rw [if_neg (by omega), if_neg (by omega), if_pos rfl, if_pos (by omega)]
          congr 1
          omega
        · rw [if_neg (by omega), if_neg (by omega), if_neg (by omega), if_neg (by omega)]
    · rw [if_neg hlt]
      split
      · congr 1
        omega
      · rfl

theorem reverseLoop_storedIn (n : Nat) (lo hi : Int) :
    Mem.StoredIn (fun a => lo ≤ a ∧ a ≤ hi) buf (reverseLoop n buf lo hi) := by
  induction n generalizing buf lo hi with
  | zero => exact .refl _ buf
  | succ n ih =>
    rw [reverseLoop]
    split
    · refine Mem.StoredIn.trans ?_ ((ih _ (lo + 1) (hi - 1)).imp fun a ha => by omega)
      exact ((Mem.StoredIn.refl _ buf).store (by omega) _).store (by omega) _
    · exact .refl _ buf

/-- A string of characters in front of a zero is turned round in place. -/
theorem isString_reverseLoop {q : Ptr Int8} {lo : Int} {s : List Int8}
    (hbuf : buf.cells = q.write lo (s ++ [0])) (hs : ∀ c ∈ s, c ≠ 0) (hlength : s.length ≤ 32) :
    IsString ((reverseLoop 32 buf lo (lo + s.length - 1)).cells.add lo) s.reverse := by
  have hcell {k : Nat} (hk : k < (s ++ [0]).length) : buf.cells (lo + k) = (s ++ [0])[k] := by
    rw [hbuf, Ptr.write_add_of_lt _ _ hk]
  have hlen : (s ++ [0]).length = s.length + 1 := List.length_append
  refine isString_of_read (List.ext_getElem (by simp) fun i hi _ => ?_) fun c hc =>
    hs c (List.mem_reverse.mp hc)
  rw [Ptr.length_read, List.length_reverse] at hi
  rw [Ptr.getElem_read, Ptr.add_apply, reverseLoop_cells _ (by omega)]
  by_cases hlast : i = s.length
  · subst hlast
    rw [if_neg (by omega), hcell (by omega)]
    simp
  · have hmirror : lo + (lo + (s.length : Int) - 1) - (lo + i) = lo + (s.length - 1 - i : Nat) := by
      omega
    rw [if_pos (by omega), hmirror, hcell (by omega), List.getElem_append_left (by omega),
      List.getElem_append_left (by rw [List.length_reverse]; omega), List.getElem_reverse]

end Loops

/-! ### itoa -/

/-- The decimal numeral of an integer. -/
def decimal (z : Int) : List Int8 :=
  if z < 0 then minusChar :: (digits 10 z.natAbs).map digitChar
  else (digits 10 z.natAbs).map digitChar

/-- What `%d`, `%u` and `%x` stand for. -/
def numeral (base : Int8) (d : Int32) : List Int8 :=
  if base = dChar then decimal d.toInt
  else (digits (if base = xChar then 16 else 10) d.toUInt32.toNat).map digitChar

theorem digitChar_ne_zero {r : Nat} (h : r < 16) : digitChar r ≠ 0 := by
  have hall : ∀ r < 16, digitChar r ≠ 0 := by decide
  exact hall r h

/-- `itoa` behind the sign. -/
def writeDigits (buf : Mem Int8) (divisor ud : UInt32) (head : Int) : Mem Int8 :=
  let (buf, p) := divideLoop divisor 32 ud buf head
  reverseLoop 32 (buf.store p 0) head (p - 1)

theorem itoa_of_negative (buf : Mem Int8) {d : Int32} (hd : d < 0) :
    itoa buf dChar d = writeDigits (buf.store 0 minusChar) 10 (-d).toUInt32 1 := by
  simp [itoa, writeDigits, hd]

theorem itoa_of_not_negative (buf : Mem Int8) {base : Int8} {d : Int32}
    (h : ¬ (base = dChar ∧ d < 0)) :
    itoa buf base d = writeDigits buf (if base = xChar then 16 else 10) d.toUInt32 0 := by
  simp only [itoa, writeDigits, h, if_false, not_false_eq_true, true_and]

section WriteDigits

variable (buf : Mem Int8) {divisor : UInt32} (h10 : 10 ≤ divisor.toNat)
  (h16 : divisor.toNat ≤ 16) (ud : UInt32) (head : Int)

include h10

theorem length_digits_word : (digits divisor.toNat ud.toNat).length ≤ 10 := by
  refine (length_digits_le_iff (by omega) (by decide)).mpr ?_
  calc ud.toNat < 2 ^ 32 := ud.toNat_lt
    _ ≤ 10 ^ 10 := by decide
    _ ≤ divisor.toNat ^ 10 := Nat.pow_le_pow_left h10 10

include h16 in
theorem isString_writeDigits :
    IsString ((writeDigits buf divisor ud head).cells.add head)
      ((digits divisor.toNat ud.toNat).map digitChar) := by
  have hlength := length_digits_word h10 ud
  obtain ⟨hcells, hend, -⟩ :=
    divideLoop_spec buf (by omega : 1 < divisor.toNat) (n := 32) (by decide) ud.toNat_lt head
  have hbuf : ((divideLoop divisor 32 ud buf head).1.store
      (divideLoop divisor 32 ud buf head).2 0).cells =
      buf.cells.write head ((digits divisor.toNat ud.toNat).reverse.map digitChar ++ [0]) := by
    rw [Mem.store_cells, hcells, hend, Ptr.write_write_append _ _ (by simp)]
  have hne : ∀ c ∈ (digits divisor.toNat ud.toNat).reverse.map digitChar, c ≠ 0 := by
    intro c hc
    obtain ⟨r, hr, rfl⟩ := List.mem_map.mp hc
    have hlt := lt_of_mem_digits (by omega) (List.mem_reverse.mp hr)
    exact digitChar_ne_zero (by omega)
  have hstring := isString_reverseLoop _ hbuf hne
    (by rw [List.length_map, List.length_reverse]; omega)
  simpa [writeDigits, hend] using hstring

theorem writeDigits_storedIn :
    Mem.StoredIn (fun a => head ≤ a ∧ a < head + 11) buf (writeDigits buf divisor ud head) := by
  have hlength := length_digits_word h10 ud
  obtain ⟨-, hend, hstored⟩ :=
    divideLoop_spec buf (by omega : 1 < divisor.toNat) (n := 32) (by decide) ud.toNat_lt head
  have hwrite : writeDigits buf divisor ud head =
      reverseLoop 32 ((divideLoop divisor 32 ud buf head).1.store
        (divideLoop divisor 32 ud buf head).2 0) head
        ((divideLoop divisor 32 ud buf head).2 - 1) := rfl
  rw [hwrite, hend]
  generalize (divideLoop divisor 32 ud buf head).1 = buf' at hstored
  refine Mem.StoredIn.trans ?_ ((reverseLoop_storedIn _ _ _ _).imp fun a ha => by omega)
  exact (hstored.imp fun a ha => by omega).store (by omega) 0

/-- What lies in front of the digits stays. -/
theorem writeDigits_front {a : Int} (ha : a < head) :
    (writeDigits buf divisor ud head).cells a = buf.cells a := by
  have hlength := length_digits_pos divisor.toNat ud.toNat
  have hlength' := length_digits_word h10 ud
  obtain ⟨hcells, hend, -⟩ :=
    divideLoop_spec buf (by omega : 1 < divisor.toNat) (n := 32) (by decide) ud.toNat_lt head
  rw [writeDigits, reverseLoop_cells _ (by rw [hend]; omega), if_neg (by omega),
    Mem.store_cells_of_ne _ _ (by omega), hcells, Ptr.write_of_lt _ _ ha]

end WriteDigits

/-- The distance from zero of a negative word, in 32 bits. -/
theorem toNat_neg {d : Int32} (hd : d.toInt < 0) : (-d).toUInt32.toNat = d.toInt.natAbs := by
  have hneg : (-d).toUInt32.toNat = (2 ^ 32 - d.toBitVec.toNat) % 2 ^ 32 :=
    BitVec.toNat_neg d.toBitVec
  have hint : d.toInt = d.toBitVec.toInt := rfl
  rw [BitVec.toInt_eq_toNat_cond] at hint
  split at hint
  · omega
  · have hlt := d.toBitVec.isLt
    omega

theorem toNat_of_nonneg {d : Int32} (hd : ¬ d.toInt < 0) : d.toUInt32.toNat = d.toInt.natAbs := by
  have hnat : d.toUInt32.toNat = d.toBitVec.toNat := rfl
  have hint : d.toInt = d.toBitVec.toInt := rfl
  have hlt := d.toBitVec.isLt
  rw [BitVec.toInt_eq_toNat_cond] at hint
  split at hint <;> omega

/-- **`itoa` writes the numeral** into the 20 characters of `buf`, with its zero. -/
theorem isString_itoa (buf : Mem Int8) (base : Int8) (d : Int32) :
    IsString (itoa buf base d).cells (numeral base d) ∧
      Mem.StoredIn (fun a => 0 ≤ a ∧ a < 20) buf (itoa buf base d) := by
  have hlt : d < 0 ↔ d.toInt < 0 := Int32.lt_iff_toInt_lt
  by_cases hneg : base = dChar ∧ d < 0
  · obtain ⟨rfl, hd⟩ := hneg
    have h10 : 10 ≤ (10 : UInt32).toNat := by decide
    have hstring := isString_writeDigits (buf.store 0 minusChar) h10 (by decide) (-d).toUInt32 1
    have hfront := writeDigits_front (buf.store 0 minusChar) h10 (-d).toUInt32 1
      (by decide : (0 : Int) < 1)
    rw [toNat_neg (hlt.mp hd)] at hstring
    rw [Mem.store_cells_self] at hfront
    rw [itoa_of_negative buf hd, numeral, if_pos rfl, decimal, if_pos (hlt.mp hd)]
    refine ⟨⟨hfront, by decide, hstring⟩, ?_⟩
    refine (((Mem.StoredIn.refl _ buf).store (by decide) _).trans
      ((writeDigits_storedIn _ h10 _ _).imp fun a ha => ?_))
    omega
  · have hdivisor : (if base = xChar then (16 : UInt32) else 10).toNat =
        if base = xChar then 16 else 10 := by split <;> rfl
    have h10 : 10 ≤ (if base = xChar then (16 : UInt32) else 10).toNat := by
      rw [hdivisor]
      split <;> decide
    have hstring := isString_writeDigits buf h10 (by rw [hdivisor]; split <;> decide) d.toUInt32 0
    have hnumeral : numeral base d =
        (digits (if base = xChar then 16 else 10) d.toUInt32.toNat).map digitChar := by
      rw [numeral]
      split
      · rename_i hbase
        have hd : ¬ d.toInt < 0 := fun h => hneg ⟨hbase, hlt.mpr h⟩
        rw [decimal, if_neg hd, hbase, if_neg (by decide), toNat_of_nonneg hd]
      · rfl
    rw [itoa_of_not_negative buf hneg, hnumeral]
    rw [hdivisor, Ptr.add_zero] at hstring
    exact ⟨hstring, (writeDigits_storedIn buf h10 _ _).imp fun a ha => by omega⟩

/-! ### Reading a numeral -/

/-- The digit that a character stands for. -/
def digitValue (c : Int8) : Nat := if c < 97 then (c - 48).toNatClampNeg else (c - 87).toNatClampNeg

/-- The integer that a string stands for, with or without a sign. -/
def readBack (radix : Nat) (s : List Int8) : Int :=
  if s.head? = some minusChar then -value radix (s.tail.map digitValue)
  else value radix (s.map digitValue)

theorem digitValue_digitChar {r : Nat} (h : r < 16) : digitValue (digitChar r) = r := by
  have hall : ∀ r < 16, digitValue (digitChar r) = r := by decide
  exact hall r h

theorem digitChar_ne_minusChar {r : Nat} (h : r < 16) : digitChar r ≠ minusChar := by
  have hall : ∀ r < 16, digitChar r ≠ minusChar := by decide
  exact hall r h

section ReadBack

variable {radix : Nat} (hradix : 1 < radix) (h16 : radix ≤ 16)

include hradix h16

theorem value_digitChars (n : Nat) :
    value radix (((digits radix n).map digitChar).map digitValue) = n := by
  have hmap : ((digits radix n).map digitChar).map digitValue = (digits radix n).map id := by
    rw [List.map_map]
    refine List.map_congr_left fun r hr => ?_
    exact digitValue_digitChar (Nat.lt_of_lt_of_le (lt_of_mem_digits hradix hr) h16)
  rw [hmap, List.map_id, value_digits]

theorem readBack_digits (n : Nat) : readBack radix ((digits radix n).map digitChar) = n := by
  rw [readBack, if_neg, value_digitChars hradix h16]
  intro h
  obtain ⟨r, hr, hminus⟩ := List.mem_map.mp (List.mem_of_mem_head? h)
  exact digitChar_ne_minusChar (Nat.lt_of_lt_of_le (lt_of_mem_digits hradix hr) h16) hminus

end ReadBack

theorem readBack_decimal (z : Int) : readBack 10 (decimal z) = z := by
  rw [decimal]
  split
  · rw [readBack, if_pos (by rfl), List.tail_cons, value_digitChars (by decide) (by decide)]
    omega
  · rw [readBack_digits (by decide) (by decide)]
    omega

theorem readBack_numeral (base : Int8) (d : Int32) :
    readBack (if base = xChar then 16 else 10) (numeral base d) =
      if base = dChar then d.toInt else d.toUInt32.toNat := by
  by_cases hd : base = dChar
  · rw [numeral, if_pos hd, if_pos hd, hd, if_neg (by decide), readBack_decimal]
  · rw [numeral, if_neg hd, if_neg hd, readBack_digits] <;> split <;> decide

/-- Ten digits and a sign. -/
theorem length_numeral (base : Int8) (d : Int32) : (numeral base d).length ≤ 11 := by
  have hdecimal : (digits 10 d.toInt.natAbs).length ≤ 10 := by
    refine (length_digits_le_iff (by decide) (by decide)).mpr ?_
    have hlo := d.le_toInt
    have hhi := d.toInt_lt
    omega
  have hword : (digits (if base = xChar then 16 else 10) d.toUInt32.toNat).length ≤ 10 := by
    split
    · exact length_digits_word (by decide : 10 ≤ (16 : UInt32).toNat) _
    · exact length_digits_word (by decide : 10 ≤ (10 : UInt32).toNat) _
  rw [numeral]
  split
  · rw [decimal]
    split
    · rw [List.length_cons, List.length_map]
      omega
    · rw [List.length_map]
      omega
  · rw [List.length_map]
    omega

/-- **Round trip**: what `itoa` writes stands for its argument, as a signed word after `%d`
and as an unsigned one else; the string and its zero lie in the 20 characters of `buf`, and
nothing else is written. -/
theorem itoa_reads_back (buf : Mem Int8) (base : Int8) (d : Int32) :
    ∃ s, IsString (itoa buf base d).cells s ∧ s.length < 20 ∧
      readBack (if base = xChar then 16 else 10) s =
        (if base = dChar then d.toInt else d.toUInt32.toNat) ∧
      Mem.StoredIn (fun a => 0 ≤ a ∧ a < 20) buf (itoa buf base d) := by
  obtain ⟨hstring, hstored⟩ := isString_itoa buf base d
  have hlength := length_numeral base d
  exact ⟨numeral base d, hstring, by omega, readBack_numeral base d, hstored⟩

end SantaOS.Multiboot
