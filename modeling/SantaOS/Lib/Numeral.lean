import Mathlib.Data.Nat.Digits.Lemmas

/-!
# Numerals

The numeral of a number in a base, as it is written: the first digit is the most
significant one, zero has one digit and no other number a leading zero. `value` reads a
string of digits. `value_append_digits_iff` says when two numerals side by side are read as
one number in two halves.
-/

namespace Numeral

variable {b : Nat}

/-- The digits of `n` in base `b`. -/
def digits (b n : Nat) : List Nat := if n = 0 then [0] else (Nat.digits b n).reverse

/-- The number that a string of digits stands for. -/
def value (b : Nat) (ds : List Nat) : Nat := Nat.ofDigits b ds.reverse

theorem value_digits (b n : Nat) : value b (digits b n) = n := by
  rw [value, digits]
  split
  · rename_i h
    simp [h]
  · rw [List.reverse_reverse, Nat.ofDigits_digits]

theorem value_append (b : Nat) (ds es : List Nat) :
    value b (ds ++ es) = value b ds * b ^ es.length + value b es := by
  rw [value, List.reverse_append, Nat.ofDigits_append, List.length_reverse, value, value,
    Nat.add_comm, Nat.mul_comm]

/-- One digit. -/
theorem digits_of_lt {n : Nat} (h : n < b) : digits b n = [n] := by
  rw [digits]
  split
  · rename_i hn
    rw [hn]
  · rename_i hn
    rw [Nat.digits_of_lt b n hn h, List.reverse_singleton]

theorem length_digits_pos (b n : Nat) : 0 < (digits b n).length := by
  rw [digits]
  split
  · exact Nat.zero_lt_one
  · rename_i hn
    rw [List.length_reverse]
    exact List.length_pos_iff.mpr (Nat.digits_ne_nil_iff_ne_zero.mpr hn)

section Base

variable (hb : 1 < b)

include hb

theorem lt_of_mem_digits {n d : Nat} (h : d ∈ digits b n) : d < b := by
  rw [digits] at h
  split at h
  · obtain rfl := List.mem_singleton.mp h
    omega
  · exact Nat.digits_lt_base hb (List.mem_reverse.mp h)

/-- The last digit, and the ones before it. -/
theorem digits_of_le {n : Nat} (h : b ≤ n) : digits b n = digits b (n / b) ++ [n % b] := by
  have hdiv : n / b ≠ 0 := Nat.ne_of_gt (Nat.div_pos h (by omega))
  rw [digits, if_neg (by omega), digits, if_neg hdiv,
    Nat.digits_eq_cons_digits_div hb (by omega), List.reverse_cons]

theorem length_digits_le_iff {n k : Nat} (hk : 0 < k) :
    (digits b n).length ≤ k ↔ n < b ^ k := by
  rw [digits]
  split
  · rename_i hn
    rw [hn]
    exact iff_of_true hk (Nat.pow_pos (by omega))
  · rw [List.length_reverse]
    exact Nat.digits_length_le_iff hb n

/-- **Two numerals side by side** are the number with these two halves just when the high
half is zero or the low one fills its places. -/
theorem value_append_digits_iff {high low k : Nat} (hk : 1 < k) (hlow : low < b ^ k) :
    value b (digits b high ++ digits b low) = high * b ^ k + low ↔
      high = 0 ∨ b ^ (k - 1) ≤ low := by
  rw [value_append, value_digits, value_digits, Nat.add_right_cancel_iff]
  have hle : (digits b low).length ≤ k := (length_digits_le_iff hb (by omega)).mpr hlow
  have hfull : (digits b low).length = k ↔ b ^ (k - 1) ≤ low := by
    rw [← Nat.not_lt, ← length_digits_le_iff hb (by omega : 0 < k - 1)]
    omega
  rw [← hfull]
  constructor
  · intro h
    rcases Nat.eq_zero_or_pos high with hzero | hpos
    · exact .inl hzero
    · exact .inr (Nat.pow_right_injective hb (Nat.eq_of_mul_eq_mul_left hpos h))
  · rintro (rfl | hlength)
    · rw [Nat.zero_mul, Nat.zero_mul]
    · rw [hlength]

end Base

end Numeral
