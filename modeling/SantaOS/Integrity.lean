import SantaOS.Receive
import SantaOS.Reply

/-!
# SantaOS.Integrity

What the checksums are worth. `_checksum` writes the one's-complement sum of the data
exactly when its single fold leaves no carry (`checksum_eq_settle_iff`); as a test it
needs no more than that fold, so the TCP test is the byte-wise one of the pseudo-header
and the segment (`validateTcpPacket_iff`), and a packet that passes the tests fails them
after the change of any one word (`dropped_of_wordChanged`).

Proof shape of the last: the sum that a word belongs to is `0xFFFF` before the change and
cannot be so after it (`settle_ne_top_of_digit`). A changed word of the IP header fails
the first test; any other leaves the header alone, so that both packets are judged with
the same addresses and the same size.
-/

namespace SantaOS

open Memory Waiting BigEndian OnesComplement

/-! ### Writing checksums -/

/-- **`_checksum` is the complement of the one's-complement sum exactly when the exact
total folds once without a carry.** -/
theorem checksum_eq_settle_iff (initSum32 : UInt32) (data : Ptr UInt8) (n : Nat)
    (hsum : initSum32.toNat + wordSum (data.read n) < 2 ^ 32) :
    (checksum initSum32 data n).toNat =
        65535 - settle 65536 (initSum32.toNat + wordSum (data.read n)) ↔
      FoldsOnce (initSum32.toNat + wordSum (data.read n)) := by
  have hfold := fold_mod_eq_settle_iff (b := 65536) (by omega)
    (n := initSum32.toNat + wordSum (data.read n)) (by omega)
  have hsettle := settle_lt (b := 65536) (n := initSum32.toNat + wordSum (data.read n)) (by omega)
  have hlow := Nat.mod_lt (fold 65536 (initSum32.toNat + wordSum (data.read n)))
    (by omega : 65536 > 0)
  rw [checksum_toNat _ _ _ hsum]
  refine Iff.trans ?_ hfold
  omega

/-- The header in the unit test of `checksumIp`. -/
theorem checksum_eq_settle_unitTest :
    (checksum 0 (Ptr.ofList [0x45, 0x00, 0x00, 0x3c, 0x1c, 0x46, 0x40, 0x00, 0x40, 0x06,
      0x00, 0x00, 0xac, 0x10, 0x0a, 0x63, 0xac, 0x10, 0x0a, 0x0c]) (20 : Nat)).toNat =
      65535 - settle 65536 ((0 : UInt32).toNat + wordSum ((Ptr.ofList
        [0x45, 0x00, 0x00, 0x3c, 0x1c, 0x46, 0x40, 0x00, 0x40, 0x06,
          0x00, 0x00, 0xac, 0x10, 0x0a, 0x63, 0xac, 0x10, 0x0a, 0x0c] : Ptr UInt8).read 20)) :=
  (checksum_eq_settle_iff 0 _ 20 (by decide)).mpr (by decide)

/-- The words of the SYN/ACK's header for a client at 192.168.111.39 add up to `0x1FFFF`.
The sum is `0x0001`; one fold leaves `0x10000`, of which `_checksum` keeps `0x0000`. -/
theorem not_checksum_eq_settle :
    ¬ ∀ (initSum32 : UInt32) (data : Ptr UInt8) (n : Nat),
      initSum32.toNat + wordSum (data.read n) < 2 ^ 32 →
      (checksum initSum32 data n).toNat =
        65535 - settle 65536 (initSum32.toNat + wordSum (data.read n)) := by
  intro h
  have hsyn := h 0 (Ptr.ofList [0x45, 0x00, 0x00, 0x28, 0x01, 0x00, 0x40, 0x00, 0x40, 0x06,
    0x00, 0x00, 0x0A, 0x00, 0x00, 0x02, 0xC0, 0xA8, 0x6F, 0x27]) 20 (by decide)
  rw [settle, dif_pos (by decide), settle, dif_pos (by decide), settle_of_lt (by decide)] at hsyn
  revert hsyn
  decide

/-! ### Testing checksums -/

/-- **The TCP test is exact**: it accepts a segment if and only if the pseudo-header and
the segment, padded to even length, have the one's-complement sum `0xFFFF`. -/
theorem validateTcpPacket_iff (ip : IPFields) (tcpRaw : Ptr UInt8) (n : Nat) (hn : n ≤ 65535) :
    validateTcpPacket ip tcpRaw n = true ↔
      onesSum (pseudoHeader ip.srcAddr.toNat ip.dstAddr.toNat ip.protocol.toNat n ++
        tcpRaw.read n) = 0xFFFF := by
  rw [validateTcpPacket_eq_true_iff, checksumTcp_eq_zero_iff _ _ _ _ hn]

/-- The segment with the request `GET /i HTTP/1.0` of a client at 10.0.0.1, of an odd
number of bytes. -/
def getSegment : List UInt8 :=
  [0x9C, 0x40, 0x22, 0xB0, 0x00, 0x00, 0x03, 0xE9, 0x00, 0x00, 0x00, 0x01, 0x50, 0x18, 0x72,
    0x10, 0x61, 0xE9, 0x00, 0x00, 0x47, 0x45, 0x54, 0x20, 0x2F, 0x69, 0x20, 0x48, 0x54, 0x54,
    0x50, 0x2F, 0x31, 0x2E, 0x30, 0x0D, 0x0A, 0x0D, 0x0A]

/-- Its words and those of the pseudo-header add up to `0x3FFFC`, which is `0xFFFF` once
the carries are added back. -/
theorem validateTcpPacket_getSegment :
    wordSum (pseudoHeader 0x0A000001 0x0A000002 6 39 ++ getSegment) = 0x3FFFC ∧
      validateTcpPacket (synIp 0x0A000001) (Ptr.ofList getSegment) (39 : Nat) = true := by
  refine ⟨by decide, (validateTcpPacket_iff (synIp 0x0A000001) (Ptr.ofList getSegment) 39
    (by decide)).mpr ?_⟩
  exact (onesSum_eq_top_iff _).mpr (by decide)

/-! ### Changed words -/

/-- `p'` is `p` with another 16-bit word at `k`, not the one that is equal to it modulo
`0xFFFF`. -/
structure WordChanged (p p' : List UInt8) (k : Nat) : Prop where
  length_eq : p'.length = p.length
  elsewhere : ∀ i, i / 2 ≠ k → p'[i]? = p[i]?
  ne : wordAt p' k ≠ wordAt p k
  not_up : ¬ (wordAt p k = 0x0000 ∧ wordAt p' k = 0xFFFF)
  not_down : ¬ (wordAt p k = 0xFFFF ∧ wordAt p' k = 0x0000)

section Words

variable {p p' : List UInt8} {k : Nat}

theorem WordChanged.take (h : WordChanged p p' k) {n : Nat} (hk : 2 * k + 1 < n) :
    WordChanged (p.take n) (p'.take n) k where
  length_eq := by rw [List.length_take, List.length_take, h.length_eq]
  elsewhere i hi := by rw [List.getElem?_take, List.getElem?_take, h.elsewhere i hi]
  ne := by rw [wordAt_take hk, wordAt_take hk]; exact h.ne
  not_up := by rw [wordAt_take hk, wordAt_take hk]; exact h.not_up
  not_down := by rw [wordAt_take hk, wordAt_take hk]; exact h.not_down

theorem WordChanged.drop {n : Nat} (h : WordChanged p p' (n + k)) :
    WordChanged (p.drop (2 * n)) (p'.drop (2 * n)) k where
  length_eq := by rw [List.length_drop, List.length_drop, h.length_eq]
  elsewhere i hi := by
    rw [List.getElem?_drop, List.getElem?_drop, h.elsewhere (2 * n + i) (by omega)]
  ne := by rw [wordAt_drop, wordAt_drop]; exact h.ne
  not_up := by rw [wordAt_drop, wordAt_drop]; exact h.not_up
  not_down := by rw [wordAt_drop, wordAt_drop]; exact h.not_down

/-- Before the word nothing has changed. -/
theorem WordChanged.take_eq (h : WordChanged p p' k) {n : Nat} (hk : n ≤ 2 * k) :
    p'.take n = p.take n := by
  refine List.ext_getElem? fun i => ?_
  rw [List.getElem?_take, List.getElem?_take]
  split
  · exact h.elsewhere i (by omega)
  · rfl

/-- Nor behind it. -/
theorem WordChanged.drop_eq (h : WordChanged p p' k) :
    p'.drop (2 * (k + 1)) = p.drop (2 * (k + 1)) := by
  refine List.ext_getElem? fun i => ?_
  rw [List.getElem?_drop, List.getElem?_drop]
  exact h.elsewhere _ (by omega)

/-- **A sum of `0xFFFF` is lost**, also when the message is summed behind another one. -/
theorem WordChanged.settle_ne (h : WordChanged p p' k) {a : Nat}
    (hsum : settle 65536 (a + wordSum p) = 0xFFFF) : settle 65536 (a + wordSum p') ≠ 0xFFFF := by
  rw [wordSum_eq p k, ← Nat.add_assoc] at hsum
  rw [wordSum_eq p' k, h.take_eq (Nat.le_refl _), h.drop_eq, ← Nat.add_assoc]
  exact settle_ne_top_of_digit (by omega) hsum (wordAt_lt p k) (wordAt_lt p' k) h.ne h.not_up
    h.not_down

theorem WordChanged.onesSum_ne (h : WordChanged p p' k) (hsum : onesSum p = 0xFFFF) :
    onesSum p' ≠ 0xFFFF := by
  have hne := h.settle_ne (a := 0) (by rwa [Nat.zero_add])
  rwa [Nat.zero_add] at hne

theorem WordChanged.field_eq (h : WordChanged p p' k) {off n : Nat} (hk : off + n ≤ 2 * k) :
    field p' off n = field p off n := by
  rw [field, field, List.take_drop, List.take_drop, h.take_eq (by omega)]

end Words

/-- Changing one bit of a byte gives another byte, and never makes `0x00` of `0xFF` or
`0xFF` of `0x00`. -/
theorem flip_cases (b : UInt8) {j : Nat} (hj : j < 8) :
    b ^^^ UInt8.ofNat (2 ^ j) ≠ b ∧ (b = 0x00 → b ^^^ UInt8.ofNat (2 ^ j) ≠ 0xFF) ∧
      (b = 0xFF → b ^^^ UInt8.ofNat (2 ^ j) ≠ 0x00) := by
  have hbit : UInt8.ofNat (2 ^ j) ≠ 0x00 ∧ 0x00 ^^^ UInt8.ofNat (2 ^ j) ≠ 0xFF ∧
      0xFF ^^^ UInt8.ofNat (2 ^ j) ≠ 0x00 := by
    revert j
    decide
  refine ⟨fun h => hbit.1 ?_, fun h => h ▸ hbit.2.1, fun h => h ▸ hbit.2.2⟩
  exact UInt8.xor_right_inj b |>.mp (h.trans (UInt8.xor_zero).symm)

/-- A message with the bit `j` of its byte `i` changed. -/
def flipBit (p : List UInt8) (i j : Nat) : List UInt8 :=
  p.set i (p.getD i 0 ^^^ UInt8.ofNat (2 ^ j))

theorem wordAt_of_even (p : List UInt8) {i : Nat} (h : i % 2 = 0) :
    wordAt p (i / 2) = (p.getD i 0).toNat * 256 + (p.getD (i + 1) 0).toNat := by
  rw [wordAt, show 2 * (i / 2) = i by omega]

theorem wordAt_of_odd (p : List UInt8) {i : Nat} (h : i % 2 = 1) :
    wordAt p (i / 2) = (p.getD (i - 1) 0).toNat * 256 + (p.getD i 0).toNat := by
  rw [wordAt, show 2 * (i / 2) + 1 = i by omega, show 2 * (i / 2) = i - 1 by omega]

theorem wordChanged_flipBit {p : List UInt8} {i j : Nat} (hi : i < p.length) (hj : j < 8) :
    WordChanged p (flipBit p i j) (i / 2) := by
  have helse (i' : Nat) (h : i' ≠ i) : (flipBit p i j)[i']? = p[i']? :=
    List.getElem?_set_ne h.symm
  have hother (i' : Nat) (h : i' ≠ i) : (flipBit p i j).getD i' 0 = p.getD i' 0 := by
    rw [List.getD_eq_getElem?_getD, List.getD_eq_getElem?_getD, helse i' h]
  have hself : (flipBit p i j).getD i 0 = p.getD i 0 ^^^ UInt8.ofNat (2 ^ j) := by
    simp [flipBit, hi]
  obtain ⟨hne, hup, hdown⟩ := flip_cases (p.getD i 0) hj
  rw [← hself, Ne, ← UInt8.toNat_inj] at hne
  rw [← hself, Ne, ← UInt8.toNat_inj, ← UInt8.toNat_inj] at hup hdown
  simp only [UInt8.reduceToNat] at hup hdown
  have hlt := (p.getD i 0).toNat_lt
  have hlt' := ((flipBit p i j).getD i 0).toNat_lt
  -- the values of the word before and after
  have hword : ∃ c < 256,
      (wordAt p (i / 2) = (p.getD i 0).toNat * 256 + c ∧
        wordAt (flipBit p i j) (i / 2) = ((flipBit p i j).getD i 0).toNat * 256 + c) ∨
      (wordAt p (i / 2) = c * 256 + (p.getD i 0).toNat ∧
        wordAt (flipBit p i j) (i / 2) = c * 256 + ((flipBit p i j).getD i 0).toNat) := by
    rcases Nat.mod_two_eq_zero_or_one i with heven | hodd
    · refine ⟨_, (p.getD (i + 1) 0).toNat_lt, .inl ⟨wordAt_of_even p heven, ?_⟩⟩
      rw [wordAt_of_even _ heven, hother (i + 1) (by omega)]
    · refine ⟨_, (p.getD (i - 1) 0).toNat_lt, .inr ⟨wordAt_of_odd p hodd, ?_⟩⟩
      rw [wordAt_of_odd _ hodd, hother (i - 1) (by omega)]
  obtain ⟨c, hc, hword⟩ := hword
  exact
    { length_eq := List.length_set
      elsewhere := fun i' h => helse i' fun hi' => h (congrArg (· / 2) hi')
      ne := by omega
      not_up := by omega
      not_down := by omega }

/-! ### Changed packets -/

/-- The packet fails a test whatever the buffer held, and a call of `nextTcpIpPacket` goes
on behind its frame. -/
def Dropped (p : List UInt8) : Prop :=
  ∀ (site : Site) (m : Machine) (rest : List UInt8), m.input = frame p ++ rest →
    passesTests (m.inRawBuf.cells.write 0 p) p.length = false ∧
      (nextTcpIpPacket site).run m = (nextTcpIpPacket site).run (m.receive site p rest)

theorem dropped_of_fails {p : List UInt8} (hp : p.length < 65536)
    (h : ∀ buf : Ptr UInt8, passesTests (buf.write 0 p) p.length = false) : Dropped p := by
  intro site m rest hm
  have hnext : nextFrame m.input = some (p, rest) := by
    rw [hm, nextFrame_clean rest hp]
  refine ⟨h m.inRawBuf.cells, ?_⟩
  rw [run_nextTcpIpPacket, hnext]
  simp only [judge, h m.inRawBuf.cells, Bool.false_eq_true, if_false]

/-- A packet whose header sum is wrong fails the first test. -/
theorem fails_of_headerSum (buf : Ptr UInt8) {p : List UInt8} (h20 : 20 ≤ p.length)
    (hsum : onesSum (p.take 20) ≠ 0xFFFF) : passesTests (buf.write 0 p) p.length = false := by
  have hread : (buf.write 0 p).read 20 = p.take 20 := buf.read_write_zero_of_le h20
  rw [Bool.eq_false_iff]
  intro hpass
  obtain ⟨hck, -⟩ := (passesTests_iff _ _).mp hpass
  rw [checksumIp_eq_zero_iff, hread] at hck
  exact hsum hck

section Changed

variable {p p' : List UInt8} {k : Nat} (h40 : 40 ≤ p.length) (h2048 : p.length ≤ 2048)
  (hihl : field p 0 1 % 16 = 5)

include h40 h2048 hihl

/-- **A packet with one changed word is dropped.** -/
theorem dropped_of_wordChanged (hp : Acceptable p) (h : WordChanged p p' k) : Dropped p' := by
  have hlen := h.length_eq
  refine dropped_of_fails (by omega) fun buf => ?_
  rcases Nat.lt_or_ge k 10 with hk | hk
  · -- the word is in the IP header
    exact fails_of_headerSum buf (by omega) ((h.take (by omega)).onesSum_ne hp.headerSum)
  · -- the header is as it was
    have hihl' : field p' 0 1 % 16 = 5 := by rw [h.field_eq (by omega), hihl]
    rw [Bool.eq_false_iff]
    intro hpass
    have hp' := (passesTests_write_iff buf (by omega) (by omega) hihl').mp hpass
    have hsum := hp.segmentSum
    have hsum' := hp'.segmentSum
    rw [h.field_eq (by omega), h.field_eq (by omega), hlen] at hsum'
    rw [onesSum, wordSum_append _ (by simp [length_pseudoHeader])] at hsum hsum'
    obtain ⟨j, rfl⟩ : ∃ j, k = 10 + j := ⟨k - 10, by omega⟩
    exact h.drop.settle_ne hsum hsum'

end Changed

/-- **Corruption is caught**: a packet that passes the tests is dropped after the change
of any one word, but for the exchange of `0x0000` and `0xFFFF`; in particular after the
change of any one bit. -/
theorem corrupted_dropped (buf : Ptr UInt8) {p : List UInt8} (h40 : 40 ≤ p.length)
    (h2048 : p.length ≤ 2048) (hihl : field p 0 1 % 16 = 5)
    (hpass : passesTests (buf.write 0 p) p.length = true) :
    (∀ p' k, WordChanged p p' k → Dropped p') ∧
      ∀ i j, i < p.length → j < 8 → Dropped (flipBit p i j) := by
  have hp := (passesTests_write_iff buf (by omega) (by omega) hihl).mp hpass
  have hword (p' : List UInt8) (k : Nat) (h : WordChanged p p' k) : Dropped p' :=
    dropped_of_wordChanged h40 h2048 hihl hp h
  exact ⟨hword, fun i j hi hj => hword _ _ (wordChanged_flipBit hi hj)⟩

theorem corrupted_dropped_synAck :
    (∀ p' k, WordChanged synAckPacket p' k → Dropped p') ∧
      ∀ i j, i < synAckPacket.length → j < 8 → Dropped (flipBit synAckPacket i j) :=
  corrupted_dropped (Ptr.ofList []) (by decide) (by decide) (by decide) (by decide +kernel)

end SantaOS
