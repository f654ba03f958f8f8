import SantaOS.PacketSpec

/-!
# SantaOS.Layout

Packets as byte strings: where the fields of the IP and TCP headers stand in a packet
(`IPFields.IsHeaderOf`, `TCPFields.IsHeaderOf`), that the parsers read them there, and
when a packet without IP options passes the tests of the receiver (`Acceptable`,
`passesTests_write_iff`).

A packet `p` is in the receive buffer as `buf.write 0 p`, over whatever the buffer held.

Proof shape: the equations of the parsers (`SantaOS.PacketSpec`) are read at each field;
shifts and masks become quotients and remainders (`shiftRight_four_toNat`, `and_15_toNat`).
Two headers at one place are the same (`IPFields.IsHeaderOf.eq`), which turns "is read back"
into an equation of records.
-/

namespace SantaOS

open Memory BigEndian OnesComplement

/-! ### Header fields -/

/-- The numbers of an IP header, read at their places in the packet `p`. -/
structure IPFields.IsHeaderOf (ip : IPFields) (p : List UInt8) : Prop where
  ver : ip.ver.toNat = field p 0 1 / 16
  ihl : ip.ihl.toNat = field p 0 1 % 16
  len : ip.len.toNat = field p 2 2
  id : ip.id.toNat = field p 4 2
  flags : ip.flags.toNat = field p 6 2 / 8192
  flagOffset : ip.flagOffset.toNat = field p 6 2 % 8192
  ttl : ip.ttl.toNat = field p 8 1
  protocol : ip.protocol.toNat = field p 9 1
  checksum : ip.checksum.toNat = field p 10 2
  srcAddr : ip.srcAddr.toNat = field p 12 4
  dstAddr : ip.dstAddr.toNat = field p 16 4

/-- The numbers of a TCP header, read at their places in the segment `seg`. `flags` is
the byte of the six control bits, with the two reserved bits above them. -/
structure TCPFields.IsHeaderOf (tcp : TCPFields) (seg : List UInt8) : Prop where
  srcPort : tcp.srcPort.toNat = field seg 0 2
  dstPort : tcp.dstPort.toNat = field seg 2 2
  seq : tcp.seq.toNat = field seg 4 4
  ack : tcp.ack.toNat = field seg 8 4
  offset : tcp.offset.toNat = field seg 12 1 / 16
  flags : tcp.flags.toNat = field seg 13 1
  winSz : tcp.winSz.toNat = field seg 14 2
  chksum : tcp.chksum.toNat = field seg 16 2
  urgPtr : tcp.urgPtr.toNat = field seg 18 2

section Reads

variable (buf : Ptr UInt8) {p : List UInt8} (off : Nat)

theorem toNative16_write (h : off + 2 ≤ p.length) :
    (toNative16 ((buf.write 0 p).add off)).toNat = field p off 2 := by
  rw [toNative16_toNat, Ptr.read_add_write_zero _ h, field]

theorem toNative32_write (h : off + 4 ≤ p.length) :
    (toNative32 ((buf.write 0 p).add off)).toNat = field p off 4 := by
  rw [toNative32_toNat, Ptr.read_add_write_zero _ h, field]

theorem byte_write (h : off + 1 ≤ p.length) : (buf.write 0 p off).toNat = field p off 1 := by
  rw [Ptr.write_zero_of_lt _ (by omega), field_one h, List.getD_eq_getElem _ _ (by omega)]

end Reads

theorem shiftRight_four_toNat (b : UInt8) : (b >>> 4).toNat = b.toNat / 16 := by
  simp [Nat.shiftRight_eq_div_pow]

theorem and_15_toNat (b : UInt8) : (b &&& 0x0F).toNat = b.toNat % 16 := by
  simpa using Nat.and_two_pow_sub_one_eq_mod b.toNat 4

theorem shiftRight_13_toNat (v : UInt16) : (v >>> 13).toUInt8.toNat = v.toNat / 8192 := by
  have hv := v.toNat_lt
  simp [Nat.shiftRight_eq_div_pow]
  omega

theorem and_1fff_toNat (v : UInt16) : (v &&& 0x1FFF).toNat = v.toNat % 8192 := by
  simpa using Nat.and_two_pow_sub_one_eq_mod v.toNat 13

/-- **The IP parser reads the header fields of the packet in the buffer.** -/
theorem parsedIp_isHeaderOf (buf : Ptr UInt8) {p : List UInt8} (h : 20 ≤ p.length) :
    (parsedIp (buf.write 0 p)).toIPFields.IsHeaderOf p where
  ver := by
    rw [← byte_write buf 0 (by omega)]
    exact shiftRight_four_toNat _
  ihl := by
    rw [← byte_write buf 0 (by omega)]
    exact and_15_toNat _
  len := toNative16_write buf 2 (by omega)
  id := toNative16_write buf 4 (by omega)
  flags := by
    rw [← toNative16_write buf 6 (by omega)]
    exact shiftRight_13_toNat _
  flagOffset := by
    rw [← toNative16_write buf 6 (by omega)]
    exact and_1fff_toNat _
  ttl := byte_write buf 8 (by omega)
  protocol := byte_write buf 9 (by omega)
  checksum := toNative16_write buf 10 (by omega)
  srcAddr := toNative32_write buf 12 (by omega)
  dstAddr := toNative32_write buf 16 (by omega)

/-- **The TCP parser reads the header fields of the segment at `k` in the buffer.** -/
theorem parseRawTcpPacket_isHeaderOf (buf : Ptr UInt8) {p : List UInt8} {k : Nat} (sz : Int)
    (h : k + 20 ≤ p.length) :
    (parseRawTcpPacket ((buf.write 0 p).add k) sz).toTCPFields.IsHeaderOf (p.drop k) := by
  have hword (off : Nat) (hoff : off + 2 ≤ 20) :
      (toNative16 (((buf.write 0 p).add k).add off)).toNat = field (p.drop k) off 2 := by
    rw [Ptr.add_add, field_drop]
    exact toNative16_write buf (k + off) (by omega)
  have hdword (off : Nat) (hoff : off + 4 ≤ 20) :
      (toNative32 (((buf.write 0 p).add k).add off)).toNat = field (p.drop k) off 4 := by
    rw [Ptr.add_add, field_drop]
    exact toNative32_write buf (k + off) (by omega)
  have hbyte (off : Nat) (hoff : off + 1 ≤ 20) :
      (((buf.write 0 p).add k) off).toNat = field (p.drop k) off 1 := by
    rw [Ptr.add_apply, field_drop]
    exact byte_write buf (k + off) (by omega)
  rw [parseRawTcpPacket_eq]
  exact
    { srcPort := by simpa using hword 0 (by omega)
      dstPort := hword 2 (by omega)
      seq := hdword 4 (by omega)
      ack := hdword 8 (by omega)
      offset := by
        rw [← hbyte 12 (by omega)]
        exact shiftRight_four_toNat _
      flags := hbyte 13 (by omega)
      winSz := hword 14 (by omega)
      chksum := hword 16 (by omega)
      urgPtr := hword 18 (by omega) }

/-! ### Written headers -/

/-- The fields of an IP header that share their bytes with others fit their bits. -/
structure IPFields.FitsBits (ip : IPFields) : Prop where
  ver : ip.ver < 16
  ihl : ip.ihl < 16
  flags : ip.flags < 8
  flagOffset : ip.flagOffset < 8192

theorem shiftLeft_four_or_toNat {hi lo : UInt8} (hhi : hi < 16) (hlo : lo < 16) :
    (hi <<< 4 ||| lo).toNat = hi.toNat * 16 + lo.toNat := by
  have hhi' : hi.toNat < 16 := UInt8.lt_iff_toNat_lt.mp hhi
  have hlo' : lo.toNat < 2 ^ 4 := UInt8.lt_iff_toNat_lt.mp hlo
  have hshift : (hi <<< 4).toNat = hi.toNat <<< 4 := by
    rw [UInt8.toNat_shiftLeft, show (4 : UInt8).toNat % 8 = 4 from rfl,
      Nat.mod_eq_of_lt (by rw [Nat.shiftLeft_eq]; omega)]
  rw [UInt8.toNat_or, hshift, ← Nat.shiftLeft_add_eq_or_of_lt hlo', Nat.shiftLeft_eq]

theorem shiftLeft_13_or_toNat {hi : UInt8} {lo : UInt16} (hhi : hi < 8) (hlo : lo < 8192) :
    (hi.toUInt16 <<< 13 ||| lo).toNat = hi.toNat * 8192 + lo.toNat := by
  have hhi' : hi.toNat < 8 := UInt8.lt_iff_toNat_lt.mp hhi
  have hlo' : lo.toNat < 2 ^ 13 := UInt16.lt_iff_toNat_lt.mp hlo
  have hshift : (hi.toUInt16 <<< 13).toNat = hi.toNat <<< 13 := by
    rw [UInt16.toNat_shiftLeft, show (13 : UInt16).toNat % 16 = 13 from rfl, UInt8.toNat_toUInt16,
      Nat.mod_eq_of_lt (by rw [Nat.shiftLeft_eq]; omega)]
  rw [UInt16.toNat_or, hshift, ← Nat.shiftLeft_add_eq_or_of_lt hlo', Nat.shiftLeft_eq]

theorem shiftLeft_four_toNat {b : UInt8} (h : b < 16) : (b <<< 4).toNat = b.toNat * 16 := by
  have hshift := shiftLeft_four_or_toNat h (show (0 : UInt8) < 16 by decide)
  rwa [UInt8.or_zero] at hshift

/-- **The header that `buildRawIp` writes holds its fields at their places.** -/
theorem ipHeader_isHeaderOf {ip : IPFields} (h : ip.FitsBits) (rest : List UInt8) :
    ip.IsHeaderOf (ipHeader ip ++ rest) := by
  have heq : ipHeader ip ++ rest =
      (ip.ver <<< 4 ||| ip.ihl) :: 0x00 :: (encode 2 ip.len.toNat ++ (encode 2 ip.id.toNat ++
        (encode 2 (ip.flags.toUInt16 <<< 13 ||| ip.flagOffset).toNat ++ ip.ttl :: ip.protocol ::
          (encode 2 ip.checksum.toNat ++ (encode 4 ip.srcAddr.toNat ++
            (encode 4 ip.dstAddr.toNat ++ rest)))))) := by
    simp [ipHeader]
  have hver : ip.ver.toNat < 16 := UInt8.lt_iff_toNat_lt.mp h.ver
  have hihl : ip.ihl.toNat < 16 := UInt8.lt_iff_toNat_lt.mp h.ihl
  have hoff : ip.flagOffset.toNat < 8192 := UInt16.lt_iff_toNat_lt.mp h.flagOffset
  have hbyte : field (ipHeader ip ++ rest) 0 1 = ip.ver.toNat * 16 + ip.ihl.toNat := by
    rw [heq, field_cons_zero, shiftLeft_four_or_toNat h.ver h.ihl]
  have hword : field (ipHeader ip ++ rest) 6 2 =
      ip.flags.toNat * 8192 + ip.flagOffset.toNat := by
    rw [← shiftLeft_13_or_toNat h.flags h.flagOffset, heq]
    generalize ip.flags.toUInt16 <<< 13 ||| ip.flagOffset = buf16
    simp [field_cons_of_pos, field_encode_of_le, field_encode_zero]
  exact
    { ver := by omega
      ihl := by omega
      flags := by omega
      flagOffset := by omega
      len := by simp [heq, field_cons_of_pos, field_encode_zero]
      id := by simp [heq, field_cons_of_pos, field_encode_of_le, field_encode_zero]
      ttl := by simp [heq, field_cons_of_pos, field_encode_of_le, field_cons_zero]
      protocol := by simp [heq, field_cons_of_pos, field_encode_of_le, field_cons_zero]
      checksum := by simp [heq, field_cons_of_pos, field_encode_of_le, field_encode_zero]
      srcAddr := by simp [heq, field_cons_of_pos, field_encode_of_le, field_encode_zero]
      dstAddr := by simp [heq, field_cons_of_pos, field_encode_of_le, field_encode_zero] }

/-- **The header that `buildRawTcp` writes holds its fields at their places.** -/
theorem tcpHeader_isHeaderOf {tcp : TCPFields} (h : tcp.offset < 16) (rest : List UInt8) :
    tcp.IsHeaderOf (tcpHeader tcp ++ rest) := by
  have heq : tcpHeader tcp ++ rest =
      encode 2 tcp.srcPort.toNat ++ (encode 2 tcp.dstPort.toNat ++ (encode 4 tcp.seq.toNat ++
        (encode 4 tcp.ack.toNat ++ tcp.offset <<< 4 :: tcp.flags :: (encode 2 tcp.winSz.toNat ++
          (encode 2 tcp.chksum.toNat ++ (encode 2 tcp.urgPtr.toNat ++ rest)))))) := by
    simp [tcpHeader]
  have hoffset : field (tcpHeader tcp ++ rest) 12 1 = tcp.offset.toNat * 16 := by
    rw [← shiftLeft_four_toNat h, heq]
    simp [field_encode_of_le, field_cons_zero]
  exact
    { srcPort := by simp [heq, field_encode_zero]
      dstPort := by simp [heq, field_encode_of_le, field_encode_zero]
      seq := by simp [heq, field_encode_of_le, field_encode_zero]
      ack := by simp [heq, field_encode_of_le, field_encode_zero]
      offset := by omega
      flags := by simp [heq, field_cons_of_pos, field_encode_of_le, field_cons_zero]
      winSz := by simp [heq, field_cons_of_pos, field_encode_of_le, field_encode_zero]
      chksum := by simp [heq, field_cons_of_pos, field_encode_of_le, field_encode_zero]
      urgPtr := by simp [heq, field_cons_of_pos, field_encode_of_le, field_encode_zero] }

attribute [ext] IPFields TCPFields

/-- Two headers at the same place are one. -/
theorem IPFields.IsHeaderOf.eq {ip ip' : IPFields} {p : List UInt8} (h : ip.IsHeaderOf p)
    (h' : ip'.IsHeaderOf p) (hsz : ip.payloadSz = ip'.payloadSz) : ip = ip' := by
  apply IPFields.ext
  · exact UInt8.toNat_inj.mp (h.ver.trans h'.ver.symm)
  · exact UInt8.toNat_inj.mp (h.ihl.trans h'.ihl.symm)
  · exact UInt16.toNat_inj.mp (h.len.trans h'.len.symm)
  · exact UInt16.toNat_inj.mp (h.id.trans h'.id.symm)
  · exact UInt8.toNat_inj.mp (h.flags.trans h'.flags.symm)
  · exact UInt16.toNat_inj.mp (h.flagOffset.trans h'.flagOffset.symm)
  · exact UInt8.toNat_inj.mp (h.ttl.trans h'.ttl.symm)
  · exact UInt8.toNat_inj.mp (h.protocol.trans h'.protocol.symm)
  · exact UInt16.toNat_inj.mp (h.checksum.trans h'.checksum.symm)
  · exact UInt32.toNat_inj.mp (h.srcAddr.trans h'.srcAddr.symm)
  · exact UInt32.toNat_inj.mp (h.dstAddr.trans h'.dstAddr.symm)
  · exact hsz

theorem TCPFields.IsHeaderOf.eq {tcp tcp' : TCPFields} {seg : List UInt8}
    (h : tcp.IsHeaderOf seg) (h' : tcp'.IsHeaderOf seg) (hsz : tcp.payloadSz = tcp'.payloadSz) :
    tcp = tcp' := by
  apply TCPFields.ext
  · exact UInt16.toNat_inj.mp (h.srcPort.trans h'.srcPort.symm)
  · exact UInt16.toNat_inj.mp (h.dstPort.trans h'.dstPort.symm)
  · exact UInt32.toNat_inj.mp (h.seq.trans h'.seq.symm)
  · exact UInt32.toNat_inj.mp (h.ack.trans h'.ack.symm)
  · exact UInt8.toNat_inj.mp (h.offset.trans h'.offset.symm)
  · exact UInt8.toNat_inj.mp (h.flags.trans h'.flags.symm)
  · exact UInt16.toNat_inj.mp (h.winSz.trans h'.winSz.symm)
  · exact UInt16.toNat_inj.mp (h.chksum.trans h'.chksum.symm)
  · exact UInt16.toNat_inj.mp (h.urgPtr.trans h'.urgPtr.symm)
  · exact hsz

/-! ### The receiver's tests -/

/-- A packet without IP options that passes every test: version 4, protocol TCP, the
total length of the frame, and both one's-complement sums `0xFFFF`. -/
structure Acceptable (p : List UInt8) : Prop where
  version : field p 0 1 / 16 = 4
  protocol : field p 9 1 = 6
  totalLength : field p 2 2 = p.length
  headerSum : onesSum (p.take 20) = 0xFFFF
  segmentSum :
    onesSum (pseudoHeader (field p 12 4) (field p 16 4) 6 (p.length - 20) ++ p.drop 20) = 0xFFFF

theorem acceptable_iff (p : List UInt8) :
    Acceptable p ↔ field p 0 1 / 16 = 4 ∧ field p 9 1 = 6 ∧ field p 2 2 = p.length ∧
      onesSum (p.take 20) = 0xFFFF ∧
      onesSum (pseudoHeader (field p 12 4) (field p 16 4) 6 (p.length - 20) ++ p.drop 20) =
        0xFFFF :=
  ⟨fun h => ⟨h.version, h.protocol, h.totalLength, h.headerSum, h.segmentSum⟩,
    fun ⟨hv, hp, hl, hh, hs⟩ => ⟨hv, hp, hl, hh, hs⟩⟩

instance (p : List UInt8) : Decidable (Acceptable p) := decidable_of_iff _ (acceptable_iff p).symm

/-- What stands behind `k` in the buffer is the rest of the packet. -/
theorem read_rest (buf : Ptr UInt8) {p : List UInt8} {k : Nat} (h : k ≤ p.length) :
    ((buf.write 0 p).add k).read (p.length - k) = p.drop k := by
  rw [Ptr.read_add_write_zero _ (by omega)]
  exact List.take_of_length_le (by simp)

/-- The payload that the IP parser finds behind a header without options. -/
theorem parsedIp_payload (buf : Ptr UInt8) {p : List UInt8} (h : 20 ≤ p.length)
    (hihl : field p 0 1 % 16 = 5) :
    (parsedIp (buf.write 0 p)).payload = (buf.write 0 p).add (20 : Nat) ∧
      (parsedIp (buf.write 0 p)).payloadSz = (field p 2 2 : Int) - 20 := by
  have hv := parsedIp_isHeaderOf buf h
  have hihl5 : (buf.write 0 p 0 &&& 0x0F).toNat = 5 := hv.ihl.trans hihl
  have hlen : (toNative16 ((buf.write 0 p).add 2)).toNat = field p 2 2 := hv.len
  simp only [parsedIp, hihl5, hlen]
  exact ⟨rfl, rfl⟩

/-- **The tests accept exactly the acceptable packets**, over any earlier content of the
buffer. -/
theorem passesTests_write_iff (buf : Ptr UInt8) {p : List UInt8} (h : 20 ≤ p.length)
    (hle : p.length ≤ 65535) (hihl : field p 0 1 % 16 = 5) :
    passesTests (buf.write 0 p) p.length = true ↔ Acceptable p := by
  have hv := parsedIp_isHeaderOf buf h
  obtain ⟨hpayload, hsz⟩ := parsedIp_payload buf h hihl
  have hhead : (buf.write 0 p).read 20 = p.take 20 := buf.read_write_zero_of_le h
  have hlen : (toNative16 ((buf.write 0 p).add 2)).toNat = field p 2 2 :=
    toNative16_write buf 2 (by omega)
  have hver : (parsedIp (buf.write 0 p)).ver = IPv4 ↔ field p 0 1 / 16 = 4 := by
    rw [← hv.ver, ← UInt8.toNat_inj]
    rfl
  have hproto : (parsedIp (buf.write 0 p)).protocol = PROTOCOL_TCP ↔ field p 9 1 = 6 := by
    rw [← hv.protocol, ← UInt8.toNat_inj]
    rfl
  have hseg : field p 2 2 = p.length → field p 9 1 = 6 →
      (checksumTcp (parsedIp (buf.write 0 p)).srcAddr (parsedIp (buf.write 0 p)).dstAddr
          (parsedIp (buf.write 0 p)).protocol (parsedIp (buf.write 0 p)).payload
          (parsedIp (buf.write 0 p)).payloadSz = 0 ↔
        onesSum (pseudoHeader (field p 12 4) (field p 16 4) 6 (p.length - 20) ++ p.drop 20) =
          0xFFFF) := by
    intro hl hp
    have hcast : (parsedIp (buf.write 0 p)).payloadSz = (p.length - 20 : Nat) := by omega
    rw [hcast, hpayload, checksumTcp_eq_zero_iff _ _ _ _ (by omega), hv.srcAddr, hv.dstAddr,
      hv.protocol, hp, read_rest _ h]
  rw [passesTests_iff, checksumIp_eq_zero_iff, hhead, hlen, hver, hproto]
  constructor
  · rintro ⟨hsum, hl, h4, h6, htcp⟩
    have hl' : field p 2 2 = p.length := by omega
    exact ⟨h4, h6, hl', hsum, (hseg hl' h6).mp htcp⟩
  · rintro ⟨h4, h6, hl, hsum, htcp⟩
    exact ⟨hsum, by omega, h4, h6, (hseg hl h6).mpr htcp⟩

end SantaOS
