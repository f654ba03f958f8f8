import Mathlib.Algebra.Group.Nat.Defs
import Mathlib.Data.List.GetD
import Mathlib.Data.List.Induction

/-!
# Big-endian numbers in byte strings

`decode` reads a byte string as a number, most significant byte first, and `encode`
writes one in a given number of bytes. `field l off k` is the `k`-byte number that
starts at byte `off` of a message `l`, the way header layouts are given. `wordSum` is
the exact total of a message's 16-bit words, a last odd byte being the high half of a
word whose low half is zero, and `wordAt l k` is one of them.
-/

namespace BigEndian

/-- The number written in a byte string. -/
def decode (l : List UInt8) : Nat := l.foldl (fun n b => n * 256 + b.toNat) 0

@[simp] theorem decode_nil : decode [] = 0 := rfl

theorem decode_concat (l : List UInt8) (b : UInt8) :
    decode (l ++ [b]) = decode l * 256 + b.toNat := by
  simp [decode]

theorem decode_one (a : UInt8) : decode [a] = a.toNat := by
  simp [decode]

theorem decode_two (a b : UInt8) : decode [a, b] = a.toNat * 256 + b.toNat := by
  simp [decode]

theorem decode_four (a b c d : UInt8) :
    decode [a, b, c, d] =
      a.toNat * 16777216 + b.toNat * 65536 + c.toNat * 256 + d.toNat := by
  simp [decode]
  omega

theorem decode_lt (l : List UInt8) : decode l < 256 ^ l.length := by
  induction l using List.reverseRecOn with
  | nil => decide
  | append_singleton l b ih =>
    have hb := b.toNat_lt
    rw [decode_concat, List.length_append, List.length_singleton, Nat.pow_succ]
    omega

/-- `n` in `k` bytes. -/
def encode : Nat → Nat → List UInt8
  | 0, _ => []
  | k + 1, n => encode k (n / 256) ++ [UInt8.ofNat n]

@[simp] theorem length_encode (k n : Nat) : (encode k n).length = k := by
  induction k generalizing n with
  | zero => rfl
  | succ k ih => simp [encode, ih]

/-- What is read back is the number modulo what fits. -/
theorem decode_encode (k n : Nat) : decode (encode k n) = n % 256 ^ k := by
  induction k generalizing n with
  | zero => simp [encode, Nat.mod_one]
  | succ k ih =>
    rw [encode, decode_concat, ih, UInt8.toNat_ofNat',
      show 256 ^ (k + 1) = 256 * 256 ^ k from Nat.pow_succ', Nat.mod_mul]
    omega

theorem decode_encode_of_lt {k n : Nat} (h : n < 256 ^ k) : decode (encode k n) = n := by
  rw [decode_encode, Nat.mod_eq_of_lt h]

/-- Writing a number read from bytes gives the bytes back. -/
theorem encode_decode (l : List UInt8) : encode l.length (decode l) = l := by
  induction l using List.reverseRecOn with
  | nil => rfl
  | append_singleton l b ih =>
    have hb := b.toNat_lt
    have hdiv : (decode l * 256 + b.toNat) / 256 = decode l := by omega
    have hlast : UInt8.ofNat (decode l * 256 + b.toNat) = b := by
      apply UInt8.toNat_inj.mp
      rw [UInt8.toNat_ofNat']
      omega
    rw [List.length_append, List.length_singleton, encode, decode_concat, hdiv, ih, hlast]

theorem encode_two (n : Nat) : encode 2 n = [UInt8.ofNat (n / 256), UInt8.ofNat n] := rfl

/-! ### Fields -/

/-- The `k`-byte number that starts at byte `off` of a message. -/
def field (l : List UInt8) (off k : Nat) : Nat := decode ((l.drop off).take k)

theorem take_drop_eq {l : List UInt8} {off : Nat} (k : Nat) (h : off + (k + 1) ≤ l.length) :
    (l.drop off).take (k + 1) = l.getD off 0 :: (l.drop (off + 1)).take k := by
  have hoff : off < l.length := by omega
  rw [List.drop_eq_getElem_cons hoff, List.take_succ_cons, List.getD_eq_getElem _ _ hoff]

theorem field_one {l : List UInt8} {off : Nat} (h : off + 1 ≤ l.length) :
    field l off 1 = (l.getD off 0).toNat := by
  rw [field, take_drop_eq 0 h, List.take_zero, decode_one]

theorem field_drop (l : List UInt8) (n off k : Nat) :
    field (l.drop n) off k = field l (n + off) k := by
  rw [field, field, List.drop_drop]

/-! A message put together from encoded numbers is read by skipping them one by one. -/

theorem field_cons_of_pos (a : UInt8) (l : List UInt8) {off : Nat} (k : Nat) (h : 0 < off) :
    field (a :: l) off k = field l (off - 1) k := by
  obtain ⟨off, rfl⟩ := Nat.exists_eq_add_of_lt h
  simp [field]

theorem field_cons_zero (a : UInt8) (l : List UInt8) : field (a :: l) 0 1 = a.toNat := by
  simp [field, decode_one]

theorem field_append_of_le {l : List UInt8} (m : List UInt8) {off : Nat} (k : Nat)
    (h : l.length ≤ off) : field (l ++ m) off k = field m (off - l.length) k := by
  rw [field, field, List.drop_append, List.drop_of_length_le h, List.nil_append]

theorem field_append_left {l : List UInt8} (m : List UInt8) {off k : Nat}
    (h : off + k ≤ l.length) : field (l ++ m) off k = field l off k := by
  rw [field, field, List.drop_append_of_le_length (by omega),
    List.take_append_of_le_length (by rw [List.length_drop]; omega)]

theorem field_lt (l : List UInt8) (off k : Nat) : field l off k < 256 ^ k :=
  Nat.lt_of_lt_of_le (decode_lt _) (Nat.pow_le_pow_right (by decide) (List.length_take_le _ _))

theorem field_encode_of_le (j n : Nat) (m : List UInt8) {off : Nat} (k : Nat) (h : j ≤ off) :
    field (encode j n ++ m) off k = field m (off - j) k := by
  rw [field_append_of_le m k (by simpa using h), length_encode]

theorem field_encode_zero (k n : Nat) (m : List UInt8) :
    field (encode k n ++ m) 0 k = n % 256 ^ k := by
  rw [field, List.drop_zero, List.take_append_of_le_length (by simp),
    List.take_of_length_le (by simp), decode_encode]

/-! ### Sums of 16-bit words -/

/-- The exact total of the 16-bit words of a message, padded to even length. -/
def wordSum : List UInt8 → Nat
  | a :: b :: rest => a.toNat * 256 + b.toNat + wordSum rest
  | [a] => a.toNat * 256
  | [] => 0

@[simp] theorem wordSum_nil : wordSum [] = 0 := rfl

@[simp] theorem wordSum_singleton (a : UInt8) : wordSum [a] = a.toNat * 256 := rfl

@[simp] theorem wordSum_cons_cons (a b : UInt8) (rest : List UInt8) :
    wordSum (a :: b :: rest) = a.toNat * 256 + b.toNat + wordSum rest := rfl

/-- A message is summed piecewise when it is cut at a word border. -/
theorem wordSum_append {l : List UInt8} (m : List UInt8) (h : l.length % 2 = 0) :
    wordSum (l ++ m) = wordSum l + wordSum m := by
  induction l using wordSum.induct with
  | case1 a b rest ih =>
    have hrest : rest.length % 2 = 0 := by
      simp only [List.length_cons] at h
      omega
    simp only [List.cons_append, wordSum_cons_cons, ih hrest]
    omega
  | case2 a => simp at h
  | case3 => simp

/-- The `k`-th 16-bit word of a message. -/
def wordAt (l : List UInt8) (k : Nat) : Nat :=
  (l.getD (2 * k) 0).toNat * 256 + (l.getD (2 * k + 1) 0).toNat

theorem wordAt_lt (l : List UInt8) (k : Nat) : wordAt l k < 65536 := by
  have hhi := (l.getD (2 * k) 0).toNat_lt
  have hlo := (l.getD (2 * k + 1) 0).toNat_lt
  unfold wordAt
  omega

theorem wordAt_take {l : List UInt8} {k n : Nat} (h : 2 * k + 1 < n) :
    wordAt (l.take n) k = wordAt l k := by
  simp [wordAt, List.getElem?_take_of_lt h, List.getElem?_take_of_lt (Nat.lt_of_succ_lt h)]

theorem wordAt_drop (l : List UInt8) (k n : Nat) :
    wordAt (l.drop (2 * n)) k = wordAt l (n + k) := by
  simp [wordAt, Nat.mul_add, Nat.add_assoc]

/-- The total, with one word taken out. -/
theorem wordSum_eq (l : List UInt8) (k : Nat) :
    wordSum l = wordSum (l.take (2 * k)) + wordSum (l.drop (2 * (k + 1))) + wordAt l k := by
  induction k generalizing l with
  | zero =>
    match l with
    | [] => simp [wordAt]
    | [a] => simp [wordAt]
    | a :: b :: rest =>
      simp [wordAt]
      omega
  | succ k ih =>
    match l with
    | [] => simp [wordAt]
    | [a] => simp [wordAt, Nat.mul_add]
    | a :: b :: rest =>
      have hword : wordAt (a :: b :: rest) (k + 1) = wordAt rest k := by
        simp [wordAt, Nat.mul_add]
      have htake : (a :: b :: rest).take (2 * (k + 1)) = a :: b :: rest.take (2 * k) := by
        simp [Nat.mul_add]
      have hdrop : (a :: b :: rest).drop (2 * (k + 1 + 1)) = rest.drop (2 * (k + 1)) := by
        simp [Nat.mul_add]
      rw [wordSum_cons_cons, ih rest, hword, htake, hdrop, wordSum_cons_cons]
      omega

theorem wordSum_le (l : List UInt8) : wordSum l ≤ 65535 * ((l.length + 1) / 2) := by
  induction l using wordSum.induct with
  | case1 a b rest ih =>
    have ha := a.toNat_lt
    have hb := b.toNat_lt
    simp only [wordSum_cons_cons, List.length_cons]
    omega
  | case2 a =>
    have ha := a.toNat_lt
    simp
    omega
  | case3 => simp

end BigEndian
