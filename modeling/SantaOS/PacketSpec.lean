import SantaOS.Packet
import SantaOS.Lib.BigEndian
import SantaOS.Lib.OnesComplement

/-!
# SantaOS.PacketSpec

What each function of `SantaOS.Packet` computes, said once: byte order in terms of
`BigEndian.decode` and `encode`, the checksum in terms of the exact word total and one
`OnesComplement.fold`, the parsers as records of fields, the builders as one block of
bytes. The results about whole packets cite these and never unfold the functions.

Design points:
* The parsers read fixed bytes whatever the size, so their equations have no hypothesis on it
  (`parseRawIpPacket_eq`, `parseRawTcpPacket_eq`).
* A builder is described for any header length (`buildRawIp_eq`) and, without options, as one
  block (`buildRawIp_block`), which is the form the replies use.
* `onesSum` is the full one's-complement sum. The test `_checksum(..) == 0` needs one fold
  to recognise it (`checksum_eq_zero_iff`); what one fold is worth when a checksum is written
  is another question, of `SantaOS.Integrity`.
-/

namespace SantaOS

open Memory BigEndian OnesComplement

/-! ### Byte order -/

/-- Shifting in one more byte. -/
theorem shiftLeft_or_toNat {a : UInt32} (b : UInt8) (ha : a.toNat < 2 ^ 24) :
    (a <<< 8 ||| b.toUInt32).toNat = a.toNat * 256 + b.toNat := by
  rw [UInt32.toNat_or, UInt32.toNat_shiftLeft, UInt8.toNat_toUInt32]
  rw [show (8 : UInt32).toNat % 32 = 8 from rfl,
    Nat.mod_eq_of_lt (by rw [Nat.shiftLeft_eq]; omega)]
  rw [← Nat.shiftLeft_add_eq_or_of_lt b.toNat_lt, Nat.shiftLeft_eq]

theorem toNative16_toNat (net : Ptr UInt8) : (toNative16 net).toNat = decode (net.read 2) := by
  have h0 := (net 0).toNat_lt
  have h1 := (net 1).toNat_lt
  simp only [toNative16, UInt32.toNat_toUInt16]
  rw [shiftLeft_or_toNat _ (by simp; omega)]
  simp [Ptr.read_succ, decode_two]
  omega

theorem toNative32_toNat (net : Ptr UInt8) : (toNative32 net).toNat = decode (net.read 4) := by
  have h0 := (net 0).toNat_lt
  have h1 := (net 1).toNat_lt
  have h2 := (net 2).toNat_lt
  have h3 := (net 3).toNat_lt
  have hw : ((net 0).toUInt32 <<< 8 ||| (net 1).toUInt32).toNat =
      (net 0).toNat * 256 + (net 1).toNat :=
    shiftLeft_or_toNat _ (by simp; omega)
  have ht := shiftLeft_or_toNat (net 2) (a := (net 0).toUInt32 <<< 8 ||| (net 1).toUInt32)
    (by omega)
  simp only [toNative32]
  rw [shiftLeft_or_toNat _ (by omega), ht, hw]
  simp [Ptr.read_succ, decode_four]
  omega

theorem encode_toNative16 (net : Ptr UInt8) : encode 2 (toNative16 net).toNat = net.read 2 := by
  have h := encode_decode (net.read 2)
  rwa [Ptr.length_read, ← toNative16_toNat] at h

theorem encode_toNative32 (net : Ptr UInt8) : encode 4 (toNative32 net).toNat = net.read 4 := by
  have h := encode_decode (net.read 4)
  rwa [Ptr.length_read, ← toNative32_toNat] at h

theorem toNative16_congr {p q : Ptr UInt8} (h : ∀ i : Nat, i < 2 → p i = q i) :
    toNative16 p = toNative16 q := by
  apply UInt16.toNat_inj.mp
  rw [toNative16_toNat, toNative16_toNat, Ptr.read_congr h]

theorem toNative32_congr {p q : Ptr UInt8} (h : ∀ i : Nat, i < 4 → p i = q i) :
    toNative32 p = toNative32 q := by
  apply UInt32.toNat_inj.mp
  rw [toNative32_toNat, toNative32_toNat, Ptr.read_congr h]

theorem and_255_eq_mod (n : Nat) : n &&& 255 = n % 256 :=
  Nat.and_two_pow_sub_one_eq_mod n 8

/-- The byte of a `uint32_t` that starts at bit `8 * k`. -/
theorem byte_shiftRight (val : UInt32) (k : UInt32) (hk : k.toNat < 32) :
    ((val >>> k) &&& 0x00FF).toUInt8 = UInt8.ofNat (val.toNat / 2 ^ k.toNat) := by
  apply UInt8.toNat_inj.mp
  simp [and_255_eq_mod, Nat.shiftRight_eq_div_pow, Nat.mod_eq_of_lt hk]

theorem toNetwork16_cells (val : UInt16) (m : Mem UInt8) (net : Int) :
    (toNetwork16 val m net).cells = m.cells.write net (encode 2 val.toNat) := by
  have hlo : (val &&& 0x00FF).toUInt8 = UInt8.ofNat val.toNat := by
    apply UInt8.toNat_inj.mp
    simp [and_255_eq_mod]
  have hhi : ((val >>> 8) &&& 0x00FF).toUInt8 = UInt8.ofNat (val.toNat / 256) := by
    apply UInt8.toNat_inj.mp
    simp [and_255_eq_mod, Nat.shiftRight_eq_div_pow]
  simp only [toNetwork16, Mem.store_cells, hlo, hhi]
  rw [Ptr.write_write_prepend _ _ (by simp)]
  rfl

theorem toNetwork32_cells (val : UInt32) (m : Mem UInt8) (net : Int) :
    (toNetwork32 val m net).cells = m.cells.write net (encode 4 val.toNat) := by
  have h0 : (val &&& 0x00FF).toUInt8 = UInt8.ofNat val.toNat := by
    apply UInt8.toNat_inj.mp
    simp [and_255_eq_mod]
  have h1 := byte_shiftRight val 8 (by decide)
  have h2 := byte_shiftRight val 16 (by decide)
  have h3 := byte_shiftRight val 24 (by decide)
  simp only [toNetwork32, Mem.store_cells, h0, h1, h2, h3]
  rw [Ptr.write_write_prepend _ _ (by grind), Ptr.write_write_prepend _ _ (by grind),
    Ptr.write_write_prepend _ _ (by simp)]
  simp [encode, Nat.div_div_eq_div_mul]

/-! ### Checksums -/

/-- The loop of `_checksum` over the first `k` words. -/
theorem checksumLoop_toNat (initSum32 : UInt32) (data : Ptr UInt8) (k : Nat) :
    (checksumLoop data k initSum32).toNat =
      (initSum32.toNat + wordSum (data.read (2 * k))) % 2 ^ 32 := by
  induction k with
  | zero => simp [checksumLoop]
  | succ k ih =>
    have hword : (toNative16 (data.add (2 * (k : Int)))).toNat =
        wordSum ((data.add (2 * (k : Int))).read 2) := by
      rw [toNative16_toNat]
      simp [Ptr.read_succ, decode_two]
    have hread : data.read (2 * (k + 1)) =
        data.read (2 * k) ++ (data.add (2 * (k : Int))).read 2 := by
      rw [Nat.mul_succ, Ptr.read_add]
      simp
    have hstep : checksumLoop data (k + 1) initSum32 =
        checksumLoop data k initSum32 + (toNative16 (data.add (2 * k))).toUInt32 := by
      simp [checksumLoop]
    rw [hstep, UInt32.toNat_add, ih, UInt16.toNat_toUInt32, hword, hread,
      wordSum_append _ (by simp)]
    omega

/-- The last step of `_checksum`: one fold and the complement. -/
theorem complement_toNat (chksum32 : UInt32) :
    (~~~((chksum32 >>> 16) + (chksum32 &&& 0x0000FFFF))).toUInt16.toNat =
      65535 - fold 65536 chksum32.toNat % 65536 := by
  have h := chksum32.toNat_lt
  have hand : chksum32.toNat &&& 65535 = chksum32.toNat % 65536 :=
    Nat.and_two_pow_sub_one_eq_mod _ 16
  simp only [UInt32.toNat_toUInt16, UInt32.toNat_not, UInt32.toNat_add, UInt32.toNat_shiftRight,
    UInt32.toNat_and, UInt32.reduceToNat, Nat.shiftRight_eq_div_pow, hand, fold,
    show UInt32.size = 2 ^ 32 from rfl, Nat.reduceMod, Nat.reducePow]
  omega

/-- `_checksum` on a non-negative size: the complement of the total, folded once. -/
theorem checksum_toNat (initSum32 : UInt32) (data : Ptr UInt8) (n : Nat)
    (hsum : initSum32.toNat + wordSum (data.read n) < 2 ^ 32) :
    (checksum initSum32 data n).toNat =
      65535 - fold 65536 (initSum32.toNat + wordSum (data.read n)) % 65536 := by
  rw [← Nat.mod_eq_of_lt hsum]
  have htmod : (n : Int).tmod 2 = (n % 2 : Nat) := by
    rw [Int.tmod_eq_emod_of_nonneg (by omega)]
    omega
  have hpasses : (((n : Int) - (n % 2 : Nat)) / 2).toNat = n / 2 := by omega
  unfold checksum
  simp only [htmod, hpasses]
  rw [complement_toNat]
  rcases Nat.mod_two_eq_zero_or_one n with heven | hodd
  · rw [if_neg (by omega), checksumLoop_toNat, show 2 * (n / 2) = n by omega]
  · have hread : data.read n = data.read (2 * (n / 2)) ++ [data (2 * (n / 2) : Nat)] := by
      conv_lhs => rw [show n = 2 * (n / 2) + 1 by omega, Ptr.read_add]
      simp [Ptr.read_succ]
    have hlast : ((n : Int) - (n % 2 : Nat)) = (2 * (n / 2) : Nat) := by omega
    rw [if_pos (by omega), UInt32.toNat_add, checksumLoop_toNat, UInt16.toNat_toUInt32,
      toNative16_toNat, hlast, hread, wordSum_append _ (by simp)]
    simp [Ptr.read_succ, decode_two, Ptr.ofList, Ptr.write, Nat.add_assoc]

/-- The one's-complement 16-bit sum of a message, padded to even length. -/
def onesSum (l : List UInt8) : Nat := settle 65536 (wordSum l)

/-- A sum is right when the words add up to a multiple of `0xFFFF` and are not all zero. -/
theorem onesSum_eq_top_iff (l : List UInt8) :
    onesSum l = 0xFFFF ↔ wordSum l ≠ 0 ∧ 0xFFFF ∣ wordSum l :=
  settle_eq_top_iff (by decide)

/-- The test `_checksum(..) == 0` recognises a one's-complement sum of `0xFFFF`: one fold
is enough as long as the total does not reach the digit `0xFFFF` above the low one. -/
theorem checksum_eq_zero_iff (initSum32 : UInt32) (data : Ptr UInt8) (n : Nat)
    (h : initSum32.toNat + wordSum (data.read n) < 65535 * 65536) :
    checksum initSum32 data n = 0 ↔
      settle 65536 (initSum32.toNat + wordSum (data.read n)) = 65535 := by
  rw [← fold_eq_top_iff (by omega) (by omega), ← UInt16.toNat_inj,
    checksum_toNat _ _ _ (by omega)]
  simp only [UInt16.reduceToNat]
  omega

theorem checksumIp_eq_zero_iff (data : Ptr UInt8) :
    checksumIp data 20 = 0 ↔ onesSum (data.read 20) = 0xFFFF := by
  have hle := wordSum_le (data.read 20)
  simp only [Ptr.length_read] at hle
  have h := checksum_eq_zero_iff 0 data 20 (by simp; omega)
  simpa [checksumIp, onesSum] using h

/-- The pseudo-header of a segment of `len` bytes. -/
def pseudoHeader (srcAddr dstAddr protocol len : Nat) : List UInt8 :=
  encode 4 srcAddr ++ encode 4 dstAddr ++ [0] ++ encode 1 protocol ++ encode 2 len

theorem wordSum_encode_two (n : Nat) (l : List UInt8) :
    wordSum (encode 2 n ++ l) = n % 65536 + wordSum l := by
  simp [encode_two]
  omega

theorem wordSum_encode_four (n : Nat) (l : List UInt8) :
    wordSum (encode 4 n ++ l) = n / 65536 % 65536 + n % 65536 + wordSum l := by
  simp [encode, Nat.div_div_eq_div_mul]
  omega

theorem wordSum_pseudoHeader (srcAddr dstAddr protocol len : Nat) :
    wordSum (pseudoHeader srcAddr dstAddr protocol len) =
      srcAddr / 65536 % 65536 + srcAddr % 65536 + (dstAddr / 65536 % 65536 + dstAddr % 65536) +
        protocol % 256 + len % 65536 := by
  simp only [pseudoHeader, List.append_assoc, wordSum_encode_four]
  simp [encode]
  omega

theorem length_pseudoHeader (srcAddr dstAddr protocol len : Nat) :
    (pseudoHeader srcAddr dstAddr protocol len).length = 12 := by
  simp [pseudoHeader]

/-- The initial sum of `checksumTcp`: the pseudo-header added up as numbers. -/
theorem pseudoSum_toNat (srcAddr dstAddr : UInt32) (protocol : UInt8) (sz : Int) :
    ((srcAddr >>> 16) + (srcAddr &&& (0xFFFF : UInt32)) + (dstAddr >>> 16) +
        (dstAddr &&& (0xFFFF : UInt32)) + protocol.toUInt32 +
        (UInt32.ofInt sz &&& (0xFFFF : UInt32))).toNat =
      wordSum (pseudoHeader srcAddr.toNat dstAddr.toNat protocol.toNat (sz % 65536).toNat) := by
  have hand (n : Nat) : n &&& 65535 = n % 65536 := Nat.and_two_pow_sub_one_eq_mod n 16
  have hlen : (UInt32.ofInt sz).toNat % 65536 = (sz % 65536).toNat := by
    simp only [UInt32.ofInt, UInt32.toNat_ofNat']
    omega
  have hs := srcAddr.toNat_lt
  have hd := dstAddr.toNat_lt
  have hp := protocol.toNat_lt
  rw [wordSum_pseudoHeader]
  simp only [UInt32.toNat_add, UInt32.toNat_shiftRight, UInt32.toNat_and, UInt32.reduceToNat,
    UInt8.toNat_toUInt32, Nat.shiftRight_eq_div_pow, hand, Nat.reduceMod, Nat.reducePow, hlen]
  -- none of the six summands reaches `2 ^ 16`, so the 32-bit sum is exact
  rw [Nat.mod_eq_of_lt (a := srcAddr.toNat / 65536) (by omega),
    Nat.mod_eq_of_lt (a := dstAddr.toNat / 65536) (by omega),
    Nat.mod_eq_of_lt (a := protocol.toNat) (by omega),
    Nat.mod_eq_of_lt (a := (sz % 65536).toNat) (by omega)]
  have hs1 : srcAddr.toNat / 65536 < 65536 := by omega
  have hd1 : dstAddr.toNat / 65536 < 65536 := by omega
  have hs0 : srcAddr.toNat % 65536 < 65536 := by omega
  have hd0 : dstAddr.toNat % 65536 < 65536 := by omega
  have hl : (sz % 65536).toNat < 65536 := by omega
  generalize srcAddr.toNat / 65536 = s1 at *
  generalize dstAddr.toNat / 65536 = d1 at *
  generalize srcAddr.toNat % 65536 = s0 at *
  generalize dstAddr.toNat % 65536 = d0 at *
  generalize (sz % 65536).toNat = l at *
  omega

theorem pseudoSum_natCast (srcAddr dstAddr protocol n : Nat) :
    wordSum (pseudoHeader srcAddr dstAddr protocol ((n : Int) % 65536).toNat) =
      wordSum (pseudoHeader srcAddr dstAddr protocol n) := by
  rw [wordSum_pseudoHeader, wordSum_pseudoHeader]
  omega

/-- The exact total that `checksumTcp` folds. -/
theorem segmentTotal_lt (srcAddr dstAddr protocol : Nat) (data : Ptr UInt8) {n : Nat}
    (hn : n ≤ 65535) :
    wordSum (pseudoHeader srcAddr dstAddr protocol n) + wordSum (data.read n) <
      65535 * 65536 := by
  have hps := wordSum_le (pseudoHeader srcAddr dstAddr protocol n)
  have hle := wordSum_le (data.read n)
  simp only [Ptr.length_read, length_pseudoHeader] at hle hps
  omega

theorem checksumTcp_toNat (srcAddr dstAddr : UInt32) (protocol : UInt8) (data : Ptr UInt8)
    {n : Nat} (hn : n ≤ 65535) :
    (checksumTcp srcAddr dstAddr protocol data n).toNat =
      65535 - fold 65536 (wordSum (pseudoHeader srcAddr.toNat dstAddr.toNat protocol.toNat n) +
        wordSum (data.read n)) % 65536 := by
  have hlt := segmentTotal_lt srcAddr.toNat dstAddr.toNat protocol.toNat data hn
  rw [checksumTcp, checksum_toNat _ _ _ (by rw [pseudoSum_toNat, pseudoSum_natCast]; omega),
    pseudoSum_toNat, pseudoSum_natCast]

/-- **The TCP checksum test is the one's-complement test** on every segment that fits in
an IP packet. -/
theorem checksumTcp_eq_zero_iff (srcAddr dstAddr : UInt32) (protocol : UInt8)
    (data : Ptr UInt8) {n : Nat} (hn : n ≤ 65535) :
    checksumTcp srcAddr dstAddr protocol data n = 0 ↔
      onesSum (pseudoHeader srcAddr.toNat dstAddr.toNat protocol.toNat n ++ data.read n) =
        0xFFFF := by
  have hlt := segmentTotal_lt srcAddr.toNat dstAddr.toNat protocol.toNat data hn
  rw [onesSum, wordSum_append _ (by simp [length_pseudoHeader]),
    ← fold_eq_top_iff (by omega) (by omega), ← UInt16.toNat_inj, checksumTcp_toNat _ _ _ _ hn]
  simp only [UInt16.reduceToNat]
  omega

/-! ### The parsers -/

/-- The struct `parseRawIpPacket` fills in. -/
def parsedIp (raw : Ptr UInt8) : IP where
  ver := raw 0 >>> 4
  ihl := raw 0 &&& 0x0F
  len := toNative16 (raw.add 2)
  id := toNative16 (raw.add 4)
  flags := (toNative16 (raw.add 6) >>> 13).toUInt8
  flagOffset := toNative16 (raw.add 6) &&& 0x1FFF
  ttl := raw 8
  protocol := raw 9
  checksum := toNative16 (raw.add 10)
  srcAddr := toNative32 (raw.add 12)
  dstAddr := toNative32 (raw.add 16)
  payloadSz := (toNative16 (raw.add 2)).toNat - (raw 0 &&& 0x0F).toNat * 4
  payload := raw.add ((raw 0 &&& 0x0F).toNat * 4)

/-- The cursor ends at the total length, so that the closing test of `parseRawIpPacket`
compares just this field with the size. -/
theorem parseRawIpPacket_eq (raw : Ptr UInt8) (sz : Int) :
    parseRawIpPacket raw sz =
      (decide (checksumIp raw 20 = 0 ∧ ((toNative16 (raw.add 2)).toNat : Int) = sz),
        parsedIp raw) := by
  have hptr (a : Int) : 0 + 1 + 1 + 2 + 2 + 2 + 1 + 1 + 2 + 4 + 4 + (a * 4 - 20) = a * 4 := by
    omega
  unfold parseRawIpPacket
  simp only [hptr]
  split
  · rename_i hck
    simp [hck, parsedIp]
  · rename_i hck
    simp [not_not.mp hck, parsedIp]

theorem parseRawTcpPacket_eq (raw : Ptr UInt8) (sz : Int) :
    parseRawTcpPacket raw sz =
      { srcPort := toNative16 raw
        dstPort := toNative16 (raw.add 2)
        seq := toNative32 (raw.add 4)
        ack := toNative32 (raw.add 8)
        offset := raw 12 >>> 4
        flags := raw 13
        winSz := toNative16 (raw.add 14)
        chksum := toNative16 (raw.add 16)
        urgPtr := toNative16 (raw.add 18)
        payloadSz := sz - (raw 12 >>> 4).toNat * 4
        payload := raw.add ((raw 12 >>> 4).toNat * 4) } := by
  simp [parseRawTcpPacket]

/-- The payload is what is left behind the header. -/
theorem parseRawTcpPacket_payload (raw : Ptr UInt8) (sz : Int) :
    (parseRawTcpPacket raw sz).payloadSz = sz - (parseRawTcpPacket raw sz).offset.toNat * 4 ∧
      (parseRawTcpPacket raw sz).payload =
        raw.add ((parseRawTcpPacket raw sz).offset.toNat * 4) := by
  rw [parseRawTcpPacket_eq]
  exact ⟨rfl, rfl⟩

/-! ### The builders -/

/-- The 20 header bytes `buildRawIp` writes. -/
def ipHeader (ip : IPFields) : List UInt8 :=
  [ip.ver <<< 4 ||| ip.ihl, 0x00] ++ encode 2 ip.len.toNat ++ encode 2 ip.id.toNat ++
    encode 2 (ip.flags.toUInt16 <<< 13 ||| ip.flagOffset).toNat ++ [ip.ttl, ip.protocol] ++
    encode 2 ip.checksum.toNat ++ encode 4 ip.srcAddr.toNat ++ encode 4 ip.dstAddr.toNat

@[simp] theorem length_ipHeader (ip : IPFields) : (ipHeader ip).length = 20 := by
  simp [ipHeader]

/-- The 20 header bytes `buildRawTcp` writes. -/
def tcpHeader (tcp : TCPFields) : List UInt8 :=
  encode 2 tcp.srcPort.toNat ++ encode 2 tcp.dstPort.toNat ++ encode 4 tcp.seq.toNat ++
    encode 4 tcp.ack.toNat ++ [tcp.offset <<< 4, tcp.flags] ++ encode 2 tcp.winSz.toNat ++
    encode 2 tcp.chksum.toNat ++ encode 2 tcp.urgPtr.toNat

@[simp] theorem length_tcpHeader (tcp : TCPFields) : (tcpHeader tcp).length = 20 := by
  simp [tcpHeader]

/-- The header written from parsed fields is the header that was parsed, but for the low
half of the byte at 12. -/
theorem tcpHeader_parseRawTcpPacket (raw : Ptr UInt8) (sz : Int) :
    tcpHeader (parseRawTcpPacket raw sz).toTCPFields =
      (raw.read 20).set 12 (raw 12 >>> 4 <<< 4) := by
  rw [parseRawTcpPacket_eq, tcpHeader]
  simp only [encode_toNative16, encode_toNative32]
  simp [Ptr.read_succ]

theorem buildRawIp_eq (ip : IP) (raw : Mem UInt8) :
    (buildRawIp ip raw).1.cells =
        (raw.cells.write 0 (ipHeader ip.toIPFields)).write (ip.ihl.toNat * 4)
          (ip.payload.read (sizeT ip.payloadSz)) ∧
      (buildRawIp ip raw).2 = ip.ihl.toNat * 4 + ip.payloadSz := by
  have hptr (a : Int) : 0 + 1 + 1 + 2 + 2 + 2 + 1 + 1 + 2 + 4 + 4 + (a * 4 - 20) = a * 4 := by
    omega
  unfold buildRawIp
  refine ⟨?_, by simp only [hptr]⟩
  simp only [hptr, memcpy_cells, toNetwork32_cells, toNetwork16_cells, Mem.store_cells]
  congr 1
  repeat rw [Ptr.write_write_append _ _ (by simp)]
  simp [ipHeader]

theorem buildRawTcp_eq (tcp : TCP) (raw : Mem UInt8) :
    (buildRawTcp tcp raw).1.cells =
        (raw.cells.write 0 (tcpHeader tcp.toTCPFields)).write (tcp.offset.toNat * 4)
          (tcp.payload.read (sizeT tcp.payloadSz)) ∧
      (buildRawTcp tcp raw).2 = tcp.offset.toNat * 4 + tcp.payloadSz := by
  have hptr (a : Int) : 0 + 2 + 2 + 4 + 4 + 1 + 1 + 2 + 2 + 2 + (a * 4 - 20) = a * 4 := by
    omega
  unfold buildRawTcp
  refine ⟨?_, by simp only [hptr]⟩
  simp only [hptr, memcpy_cells, toNetwork32_cells, toNetwork16_cells, Mem.store_cells]
  congr 1
  repeat rw [Ptr.write_write_append _ _ (by simp)]
  simp [tcpHeader]

/-- `buildRawIp` without options fills one block. -/
theorem buildRawIp_block (ip : IP) (raw : Mem UInt8) {n : Nat} (hihl : ip.ihl = 5)
    (hsz : ip.payloadSz = n) (hn : n < 2 ^ 32) :
    (buildRawIp ip raw).1.cells =
        raw.cells.write 0 (ipHeader ip.toIPFields ++ ip.payload.read n) ∧
      (buildRawIp ip raw).2 = 20 + n := by
  obtain ⟨hcells, hsize⟩ := buildRawIp_eq ip raw
  rw [hihl, hsz] at hcells hsize
  rw [sizeT_natCast hn, Ptr.write_write_append _ _ (by simp)] at hcells
  exact ⟨hcells, hsize⟩

/-- `buildRawTcp` without options fills one block. -/
theorem buildRawTcp_block (tcp : TCP) (raw : Mem UInt8) {n : Nat} (hoffset : tcp.offset = 5)
    (hsz : tcp.payloadSz = n) (hn : n < 2 ^ 32) :
    (buildRawTcp tcp raw).1.cells =
        raw.cells.write 0 (tcpHeader tcp.toTCPFields ++ tcp.payload.read n) ∧
      (buildRawTcp tcp raw).2 = 20 + n := by
  obtain ⟨hcells, hsize⟩ := buildRawTcp_eq tcp raw
  rw [hoffset, hsz] at hcells hsize
  rw [sizeT_natCast hn, Ptr.write_write_append _ _ (by simp)] at hcells
  exact ⟨hcells, hsize⟩

theorem checksumIp_congr {p q : Ptr UInt8} (h : p.read 20 = q.read 20) :
    checksumIp p 20 = checksumIp q 20 := by
  have hle := wordSum_le (q.read 20)
  simp only [Ptr.length_read] at hle
  have hp := checksum_toNat 0 p 20 (by rw [h]; simp; omega)
  have hq := checksum_toNat 0 q 20 (by simp; omega)
  rw [h, ← hq] at hp
  exact UInt16.toNat_inj.mp hp

theorem checksumTcp_congr {p q : Ptr UInt8} {n : Nat} (srcAddr dstAddr : UInt32)
    (protocol : UInt8) (hn : n ≤ 65535) (h : p.read n = q.read n) :
    checksumTcp srcAddr dstAddr protocol p n = checksumTcp srcAddr dstAddr protocol q n := by
  apply UInt16.toNat_inj.mp
  rw [checksumTcp_toNat _ _ _ _ hn, checksumTcp_toNat _ _ _ _ hn, h]

/-! ### The tests on a received packet -/

/-- The tests `nextTcpIpPacket` applies to a packet of `sz` bytes. -/
def passesTests (raw : Ptr UInt8) (sz : Int) : Bool :=
  let (ok, ip) := parseRawIpPacket raw sz
  ok && ip.ver == IPv4 && ip.protocol == PROTOCOL_TCP &&
    validateTcpPacket ip.toIPFields ip.payload ip.payloadSz

theorem validateTcpPacket_eq_true_iff (ip : IPFields) (tcpRaw : Ptr UInt8) (sz : Int) :
    validateTcpPacket ip tcpRaw sz = true ↔
      checksumTcp ip.srcAddr ip.dstAddr ip.protocol tcpRaw sz = 0 := by
  unfold validateTcpPacket
  split <;> simp_all

theorem passesTests_iff (raw : Ptr UInt8) (sz : Int) :
    passesTests raw sz = true ↔
      checksumIp raw 20 = 0 ∧ ((toNative16 (raw.add 2)).toNat : Int) = sz ∧
        (parsedIp raw).ver = IPv4 ∧ (parsedIp raw).protocol = PROTOCOL_TCP ∧
        checksumTcp (parsedIp raw).srcAddr (parsedIp raw).dstAddr (parsedIp raw).protocol
          (parsedIp raw).payload (parsedIp raw).payloadSz = 0 := by
  simp only [passesTests, parseRawIpPacket_eq, Bool.and_eq_true, decide_eq_true_eq, beq_iff_eq,
    validateTcpPacket_eq_true_iff, and_assoc]

end SantaOS
