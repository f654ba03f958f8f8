import SantaOS.Layout

/-!
# SantaOS.Reply

The packets the server sends. `reply` is the byte string `buildRawTcpIpPacket` leaves in
its output buffer, whatever the output buffer and the two scratch buffers held
(`buildRawTcpIpPacket_eq`).

The checksums written are complements of totals folded once. A receiver accepts them
exactly when that one fold leaves no carry (`reply_accepted_iff`): a folded total of
`0x10000` or more loses its carry in the conversion to 16 bits.

Proof shape: the four builder calls are named (`buildRawTcpIpPacket_steps`), each fills one
block, and the last block is the reply. For the acceptance the word totals of header and
segment are computed from the fields (`wordSum_replyHeader`, `wordSum_replySegment`); the
rest is arithmetic of totals.
-/

namespace SantaOS

open Memory BigEndian OnesComplement

/-! ### The bytes of a reply -/

/-- The segment of a reply, with `chksum` in its checksum field. -/
def replySegment (lastTcp : TCPFields) (flags : UInt8) (payload : List UInt8) (chksum : UInt16) :
    List UInt8 :=
  tcpHeader { (replyTcp lastTcp flags (Ptr.ofList payload) payload.length).toTCPFields with
    chksum := chksum } ++ payload

/-- The IP header of a reply with `n` payload bytes, with `cksum` in its checksum field. -/
def replyHeader (lastIp : IPFields) (n : Nat) (cksum : UInt16) : List UInt8 :=
  ipHeader { (replyIp lastIp n).toIPFields with
    payloadSz := 20 + n
    checksum := cksum }

/-- The TCP checksum of a reply, taken with a zero in its own place. -/
def replyChecksumTcp (lastIp : IPFields) (lastTcp : TCPFields) (flags : UInt8)
    (payload : List UInt8) : UInt16 :=
  checksumTcp lastIp.dstAddr lastIp.srcAddr PROTOCOL_TCP
    (Ptr.ofList (replySegment lastTcp flags payload 0)) (20 + payload.length : Nat)

/-- The checksum of a reply's IP header, taken with a zero in its own place. -/
def replyChecksumIp (lastIp : IPFields) (n : Nat) : UInt16 :=
  checksumIp (Ptr.ofList (replyHeader lastIp n 0)) 20

/-- The packet that answers the last received one. -/
def reply (lastIp : IPFields) (lastTcp : TCPFields) (flags : UInt8) (payload : List UInt8) :
    List UInt8 :=
  replyHeader lastIp payload.length (replyChecksumIp lastIp payload.length) ++
    replySegment lastTcp flags payload (replyChecksumTcp lastIp lastTcp flags payload)

@[simp] theorem length_replySegment (lastTcp : TCPFields) (flags : UInt8)
    (payload : List UInt8) (chksum : UInt16) :
    (replySegment lastTcp flags payload chksum).length = 20 + payload.length := by
  simp [replySegment]

@[simp] theorem length_replyHeader (lastIp : IPFields) (n : Nat) (cksum : UInt16) :
    (replyHeader lastIp n cksum).length = 20 := by
  simp [replyHeader]

@[simp] theorem length_reply (lastIp : IPFields) (lastTcp : TCPFields) (flags : UInt8)
    (payload : List UInt8) :
    (reply lastIp lastTcp flags payload).length = 40 + payload.length := by
  simp [reply]
  omega

/-- The four builder calls of `buildRawTcpIpPacket`, named. -/
theorem buildRawTcpIpPacket_steps {lastIp : IPFields} {lastTcp : TCPFields} {flags : UInt8}
    {payload : Ptr UInt8} {payloadSz size1 size2 size3 : Int}
    {rawTcp rawTcp1 rawTcp2 rawIp rawIp1 : Mem UInt8} (raw : Mem UInt8)
    (h1 : buildRawTcp (replyTcp lastTcp flags payload payloadSz) rawTcp = (rawTcp1, size1))
    (h2 : buildRawTcp { replyTcp lastTcp flags payload payloadSz with
        chksum := checksumTcp lastIp.dstAddr lastIp.srcAddr PROTOCOL_TCP rawTcp1.cells size1 }
      rawTcp1 = (rawTcp2, size2))
    (h3 : buildRawIp { replyIp lastIp payloadSz with
        payload := rawTcp2.cells, payloadSz := size2 } rawIp = (rawIp1, size3)) :
    buildRawTcpIpPacket lastIp lastTcp flags payload payloadSz raw rawTcp rawIp =
      buildRawIp { replyIp lastIp payloadSz with
        payload := rawTcp2.cells, payloadSz := size2
        checksum := checksumIp rawIp1.cells 20 } raw := by
  unfold buildRawTcpIpPacket
  simp only [h1]
  rw [show checksumTcp (replyIp lastIp payloadSz).srcAddr (replyIp lastIp payloadSz).dstAddr
      (replyIp lastIp payloadSz).protocol rawTcp1.cells size1 =
    checksumTcp lastIp.dstAddr lastIp.srcAddr PROTOCOL_TCP rawTcp1.cells size1 from rfl]
  simp only [h2, h3]
  rfl

/-- **`buildRawTcpIpPacket` writes the reply**, over any content of its buffers. -/
theorem buildRawTcpIpPacket_eq (lastIp : IPFields) (lastTcp : TCPFields) (flags : UInt8)
    (payload : Ptr UInt8) {n : Nat} (hn : n ≤ 65515) (raw rawTcp rawIp : Mem UInt8) :
    (buildRawTcpIpPacket lastIp lastTcp flags payload n raw rawTcp rawIp).1.cells =
        raw.cells.write 0 (reply lastIp lastTcp flags (payload.read n)) ∧
      (buildRawTcpIpPacket lastIp lastTcp flags payload n raw rawTcp rawIp).2 = 40 + n := by
  -- first pass over the segment, its checksum field still zero
  rcases h1 : buildRawTcp (replyTcp lastTcp flags payload n) rawTcp with ⟨rawTcp1, size1⟩
  obtain ⟨hcells1, hsize1⟩ :=
    buildRawTcp_block (replyTcp lastTcp flags payload n) rawTcp (n := n) rfl rfl (by omega)
  simp only [h1] at hcells1 hsize1
  subst hsize1
  have hck : checksumTcp lastIp.dstAddr lastIp.srcAddr PROTOCOL_TCP rawTcp1.cells (20 + n) =
      replyChecksumTcp lastIp lastTcp flags (payload.read n) := by
    rw [replyChecksumTcp, Ptr.length_read]
    refine checksumTcp_congr _ _ _ (n := 20 + n) (by omega) ?_
    rw [hcells1, Ptr.ofList]
    exact Ptr.read_congr fun i hi => Ptr.write_zero_congr _ _ (by simpa using hi)
  -- second pass, with the checksum
  let tcp2 : TCP := { replyTcp lastTcp flags payload n with
    chksum := checksumTcp lastIp.dstAddr lastIp.srcAddr PROTOCOL_TCP rawTcp1.cells (20 + n) }
  rcases h2 : buildRawTcp tcp2 rawTcp1 with ⟨rawTcp2, size2⟩
  obtain ⟨hcells2, hsize2⟩ := buildRawTcp_block tcp2 rawTcp1 (n := n) rfl rfl (by omega)
  simp only [h2] at hcells2 hsize2
  subst hsize2
  have hseg : rawTcp2.cells.read (20 + n) = replySegment lastTcp flags (payload.read n)
      (replyChecksumTcp lastIp lastTcp flags (payload.read n)) := by
    have hread := Ptr.read_write_zero rawTcp1.cells (replySegment lastTcp flags (payload.read n)
      (replyChecksumTcp lastIp lastTcp flags (payload.read n)))
    rw [length_replySegment, Ptr.length_read] at hread
    rw [hcells2, ← hread, ← hck]
    rfl
  -- the IP header around it, without and with its checksum
  let ip1 : IP := { replyIp lastIp n with payload := rawTcp2.cells, payloadSz := 20 + n }
  rcases h3 : buildRawIp ip1 rawIp with ⟨rawIp1, size3⟩
  obtain ⟨hcells3, -⟩ := buildRawIp_block ip1 rawIp (n := 20 + n) rfl rfl (by omega)
  simp only [h3] at hcells3
  have hckIp : checksumIp rawIp1.cells 20 = replyChecksumIp lastIp n := by
    refine checksumIp_congr ?_
    rw [hcells3, Ptr.ofList]
    refine Ptr.read_congr fun i hi => ?_
    rw [Ptr.write_zero_of_lt _ (by simp; omega), Ptr.write_zero_of_lt _ (by simpa using hi),
      List.getElem_append_left (by simpa using hi)]
    rfl
  obtain ⟨hcells4, hsize4⟩ := buildRawIp_block
    { ip1 with checksum := checksumIp rawIp1.cells 20 } raw (n := 20 + n) rfl rfl (by omega)
  rw [buildRawTcpIpPacket_steps raw h1 h2 h3]
  refine ⟨hcells4.trans ?_, hsize4.trans (by omega)⟩
  rw [hckIp, reply, Ptr.length_read, ← hseg]
  rfl

/-! ### Word totals -/

/-- The two halves of a 32-bit number, added. -/
def halves (n : Nat) : Nat := n / 65536 + n % 65536

/-- The word total of a reply's IP header, its checksum field zero. -/
def replyIpTotal (lastIp : IPFields) (n : Nat) : Nat :=
  0x4500 + (40 + n) + 0x0100 + 0x4000 + 0x4006 + halves lastIp.dstAddr.toNat +
    halves lastIp.srcAddr.toNat

/-- The number a reply acknowledges: a received payload's end, one more than the
sequence number when there was none. -/
def replyAck (lastTcp : TCPFields) : Nat :=
  ((lastTcp.seq.toNat + if lastTcp.payloadSz = 0 then 1 else lastTcp.payloadSz) % 2 ^ 32).toNat

/-- The word total of a reply's pseudo-header and segment, its checksum field zero. -/
def replyTcpTotal (lastIp : IPFields) (lastTcp : TCPFields) (flags : UInt8)
    (payload : List UInt8) : Nat :=
  halves lastIp.dstAddr.toNat + halves lastIp.srcAddr.toNat + 6 + (20 + payload.length) +
    lastTcp.dstPort.toNat + lastTcp.srcPort.toNat + halves lastTcp.ack.toNat +
    halves (replyAck lastTcp) + (0x5000 + flags.toNat) + 0x7210 + wordSum payload

theorem ackNumber_toNat (lastTcp : TCPFields) :
    (ackNumber lastTcp).toNat = replyAck lastTcp := by
  have hseq := lastTcp.seq.toNat_lt
  simp only [ackNumber, replyAck, UInt32.toNat_add, UInt32.ofInt, UInt32.toNat_ofNat']
  split <;> omega

theorem replyAck_lt (lastTcp : TCPFields) : replyAck lastTcp < 2 ^ 32 := by
  unfold replyAck
  omega

theorem wordSum_replyHeader (lastIp : IPFields) {n : Nat} (hn : n ≤ 65495) (cksum : UInt16) :
    wordSum (replyHeader lastIp n cksum) = replyIpTotal lastIp n + cksum.toNat := by
  have hd := lastIp.dstAddr.toNat_lt
  have hs := lastIp.srcAddr.toNat_lt
  have hc := cksum.toNat_lt
  have hlen : (UInt16.ofInt (40 + n)).toNat = 40 + n := by
    simp only [UInt16.ofInt, UInt16.toNat_ofNat']
    omega
  have hflags : ((FLAGS_DF.toUInt16 <<< 13 ||| 0 : UInt16)).toNat = 0x4000 := by decide
  have hver : (IPv4 <<< 4 ||| 5 : UInt8).toNat = 0x45 := by decide
  have hlast := wordSum_encode_four lastIp.srcAddr.toNat []
  rw [List.append_nil] at hlast
  simp only [replyHeader, ipHeader, replyIp, List.append_assoc, List.cons_append,
    List.nil_append, wordSum_cons_cons, wordSum_encode_two, wordSum_encode_four, hlen, hflags,
    hver, hlast]
  simp only [replyIpTotal, halves, PROTOCOL_TCP, wordSum_nil, UInt8.reduceToNat,
    UInt16.reduceToNat]
  omega

theorem wordSum_replySegment (lastIp : IPFields) (lastTcp : TCPFields) (flags : UInt8)
    (payload : List UInt8) (hn : payload.length ≤ 65515) (chksum : UInt16) :
    wordSum (pseudoHeader lastIp.dstAddr.toNat lastIp.srcAddr.toNat 6 (20 + payload.length)) +
        wordSum (replySegment lastTcp flags payload chksum) =
      replyTcpTotal lastIp lastTcp flags payload + chksum.toNat := by
  have hd := lastIp.dstAddr.toNat_lt
  have hs := lastIp.srcAddr.toNat_lt
  have hdp := lastTcp.dstPort.toNat_lt
  have hsp := lastTcp.srcPort.toNat_lt
  have ha := lastTcp.ack.toNat_lt
  have hr := replyAck_lt lastTcp
  have hc := chksum.toNat_lt
  have hoffset : ((5 : UInt8) <<< 4).toNat = 0x50 := by decide
  simp only [wordSum_pseudoHeader, replySegment, tcpHeader, replyTcp, List.append_assoc,
    List.cons_append, List.nil_append, wordSum_cons_cons, wordSum_encode_two,
    wordSum_encode_four, ackNumber_toNat, hoffset]
  simp only [replyTcpTotal, halves, UInt16.reduceToNat]
  omega

/-! ### Fields of a reply -/

section Fields

variable (lastIp : IPFields) (lastTcp : TCPFields) (flags : UInt8) (payload : List UInt8)

/-- The numbers in the IP header of a reply. -/
def replyIpFields : IPFields :=
  { (replyIp lastIp payload.length).toIPFields with
    payloadSz := 20 + payload.length
    checksum := replyChecksumIp lastIp payload.length }

/-- The numbers in its TCP header. -/
def replyTcpFields : TCPFields :=
  { (replyTcp lastTcp flags (Ptr.ofList payload) payload.length).toTCPFields with
    chksum := replyChecksumTcp lastIp lastTcp flags payload }

theorem drop_reply_header :
    (reply lastIp lastTcp flags payload).drop 20 =
      replySegment lastTcp flags payload (replyChecksumTcp lastIp lastTcp flags payload) :=
  List.drop_left' (length_replyHeader _ _ _)

theorem reply_isIpHeader :
    (replyIpFields lastIp payload).IsHeaderOf (reply lastIp lastTcp flags payload) :=
  ipHeader_isHeaderOf
    { ver := show (4 : UInt8) < 16 by decide
      ihl := show (5 : UInt8) < 16 by decide
      flags := show (2 : UInt8) < 8 by decide
      flagOffset := show (0 : UInt16) < 8192 by decide } _

theorem reply_isTcpHeader :
    (replyTcpFields lastIp lastTcp flags payload).IsHeaderOf
      ((reply lastIp lastTcp flags payload).drop 20) := by
  rw [drop_reply_header]
  exact tcpHeader_isHeaderOf (show (5 : UInt8) < 16 by decide) payload

theorem field_reply_version : field (reply lastIp lastTcp flags payload) 0 1 = 0x45 := by
  have hver : 4 = _ := (reply_isIpHeader lastIp lastTcp flags payload).ver
  have hihl : 5 = _ := (reply_isIpHeader lastIp lastTcp flags payload).ihl
  omega

theorem field_reply_protocol : field (reply lastIp lastTcp flags payload) 9 1 = 6 :=
  (reply_isIpHeader lastIp lastTcp flags payload).protocol.symm

theorem field_reply_len (h : payload.length ≤ 65495) :
    field (reply lastIp lastTcp flags payload) 2 2 = 40 + payload.length := by
  have hlen : (UInt16.ofInt (40 + payload.length)).toNat = _ :=
    (reply_isIpHeader lastIp lastTcp flags payload).len
  rw [← hlen]
  simp only [UInt16.ofInt, UInt16.toNat_ofNat']
  omega

theorem field_reply_srcAddr :
    field (reply lastIp lastTcp flags payload) 12 4 = lastIp.dstAddr.toNat :=
  (reply_isIpHeader lastIp lastTcp flags payload).srcAddr.symm

theorem field_reply_dstAddr :
    field (reply lastIp lastTcp flags payload) 16 4 = lastIp.srcAddr.toNat :=
  (reply_isIpHeader lastIp lastTcp flags payload).dstAddr.symm

theorem field_reply_srcPort :
    field (reply lastIp lastTcp flags payload) 20 2 = lastTcp.dstPort.toNat :=
  (field_drop _ 20 0 2).symm.trans (reply_isTcpHeader lastIp lastTcp flags payload).srcPort.symm

theorem field_reply_dstPort :
    field (reply lastIp lastTcp flags payload) 22 2 = lastTcp.srcPort.toNat :=
  (field_drop _ 20 2 2).symm.trans (reply_isTcpHeader lastIp lastTcp flags payload).dstPort.symm

theorem field_reply_seq :
    field (reply lastIp lastTcp flags payload) 24 4 = lastTcp.ack.toNat :=
  (field_drop _ 20 4 4).symm.trans (reply_isTcpHeader lastIp lastTcp flags payload).seq.symm

theorem field_reply_ack :
    field (reply lastIp lastTcp flags payload) 28 4 = replyAck lastTcp := by
  rw [← ackNumber_toNat]
  exact (field_drop _ 20 8 4).symm.trans
    (reply_isTcpHeader lastIp lastTcp flags payload).ack.symm

theorem field_reply_flags :
    field (reply lastIp lastTcp flags payload) 33 1 = flags.toNat :=
  (field_drop _ 20 13 1).symm.trans (reply_isTcpHeader lastIp lastTcp flags payload).flags.symm

theorem drop_reply : (reply lastIp lastTcp flags payload).drop 40 = payload := by
  rw [reply, replySegment, ← List.append_assoc]
  exact List.drop_left' (by simp)

end Fields

/-! ### Acceptance by a receiver -/

/-- One fold of the total leaves no carry. -/
def FoldsOnce (n : Nat) : Prop := n / 65536 + n % 65536 < 65536

instance (n : Nat) : Decidable (FoldsOnce n) := inferInstanceAs (Decidable (_ < _))

theorem wordSum_segment_lt (lastIp : IPFields) (lastTcp : TCPFields) (flags : UInt8)
    {payload : List UInt8} (h : payload.length ≤ 65495) :
    replyTcpTotal lastIp lastTcp flags payload < 65535 * 65536 := by
  have hle := wordSum_le (replySegment lastTcp flags payload 0)
  have hps := wordSum_le
    (pseudoHeader lastIp.dstAddr.toNat lastIp.srcAddr.toNat 6 (20 + payload.length))
  have hsum := wordSum_replySegment lastIp lastTcp flags payload (by omega) 0
  rw [length_replySegment] at hle
  rw [length_pseudoHeader] at hps
  simp only [UInt16.reduceToNat] at hsum
  omega

/-- The header of a reply is sound exactly when its total folds once. -/
theorem onesSum_replyHeader_iff (lastIp : IPFields) {n : Nat} (h : n ≤ 65495) :
    onesSum (replyHeader lastIp n (replyChecksumIp lastIp n)) = 0xFFFF ↔
      FoldsOnce (replyIpTotal lastIp n) := by
  have hzero := wordSum_replyHeader lastIp h 0
  simp only [UInt16.reduceToNat, Nat.add_zero] at hzero
  have hread := Ptr.read_ofList (replyHeader lastIp n 0)
  rw [length_replyHeader] at hread
  have hle := wordSum_le (replyHeader lastIp n 0)
  rw [length_replyHeader, hzero] at hle
  have hck : (replyChecksumIp lastIp n).toNat =
      65535 - fold 65536 (replyIpTotal lastIp n) % 65536 := by
    have hc := checksum_toNat 0 (Ptr.ofList (replyHeader lastIp n 0)) 20
      (by rw [hread, hzero]; simp; omega)
    rw [hread, hzero] at hc
    simpa [replyChecksumIp, checksumIp] using hc
  rw [onesSum, wordSum_replyHeader lastIp h, hck]
  exact settle_add_complement_iff (by omega) (by omega)

/-- The segment of a reply is sound exactly when its total folds once. -/
theorem onesSum_replySegment_iff (lastIp : IPFields) (lastTcp : TCPFields) (flags : UInt8)
    {payload : List UInt8} (h : payload.length ≤ 65495) :
    onesSum (pseudoHeader lastIp.dstAddr.toNat lastIp.srcAddr.toNat 6 (20 + payload.length) ++
        replySegment lastTcp flags payload (replyChecksumTcp lastIp lastTcp flags payload)) =
        0xFFFF ↔
      FoldsOnce (replyTcpTotal lastIp lastTcp flags payload) := by
  have hlt := wordSum_segment_lt lastIp lastTcp flags h
  have hzero := wordSum_replySegment lastIp lastTcp flags payload (by omega) 0
  simp only [UInt16.reduceToNat, Nat.add_zero] at hzero
  have hread := Ptr.read_ofList (replySegment lastTcp flags payload 0)
  rw [length_replySegment] at hread
  have hck : (replyChecksumTcp lastIp lastTcp flags payload).toNat =
      65535 - fold 65536 (replyTcpTotal lastIp lastTcp flags payload) % 65536 := by
    rw [replyChecksumTcp, checksumTcp_toNat _ _ _ _ (by omega), hread,
      show PROTOCOL_TCP.toNat = 6 from rfl, hzero]
  rw [onesSum, wordSum_append _ (by simp [length_pseudoHeader]),
    wordSum_replySegment lastIp lastTcp flags payload (by omega), hck]
  exact settle_add_complement_iff (by omega) (by omega)

/-- **A reply passes the server's own receiver exactly when neither of its two word
totals carries out of the single fold of `_checksum`.** -/
theorem buildRawTcpIpPacket_passesTests_iff (lastIp : IPFields) (lastTcp : TCPFields)
    (flags : UInt8) (payload : Ptr UInt8) (n : Nat) (hn : n ≤ 2008)
    (raw rawTcp rawIp : Mem UInt8) :
    passesTests (buildRawTcpIpPacket lastIp lastTcp flags payload n raw rawTcp rawIp).1.cells
        (buildRawTcpIpPacket lastIp lastTcp flags payload n raw rawTcp rawIp).2 = true ↔
      FoldsOnce (replyIpTotal lastIp n) ∧
        FoldsOnce (replyTcpTotal lastIp lastTcp flags (payload.read n)) := by
  have hlen : (payload.read n).length = n := payload.length_read n
  obtain ⟨hcells, hsize⟩ := buildRawTcpIpPacket_eq lastIp lastTcp flags payload (n := n)
    (by omega) raw rawTcp rawIp
  have hsize' : (40 + n : Int) = (reply lastIp lastTcp flags (payload.read n)).length := by
    rw [length_reply, hlen]
    omega
  rw [hcells, hsize, hsize', passesTests_write_iff _ (by simp; omega) (by simp; omega)
    (by rw [field_reply_version]), ← onesSum_replyHeader_iff lastIp (by omega),
    ← onesSum_replySegment_iff lastIp lastTcp flags (by omega)]
  have htake : (reply lastIp lastTcp flags (payload.read n)).take 20 =
      replyHeader lastIp n (replyChecksumIp lastIp n) := by
    rw [reply, hlen]
    exact List.take_left' (by simp)
  have hdrop := drop_reply_header lastIp lastTcp flags (payload.read n)
  have hseglen : (reply lastIp lastTcp flags (payload.read n)).length - 20 =
      20 + (payload.read n).length := by
    rw [length_reply]
    omega
  constructor
  · rintro ⟨-, -, -, hhead, hseg⟩
    rw [htake] at hhead
    rw [hdrop, hseglen, field_reply_srcAddr, field_reply_dstAddr] at hseg
    exact ⟨hhead, hseg⟩
  · rintro ⟨hhead, hseg⟩
    refine ⟨by rw [field_reply_version], field_reply_protocol _ _ _ _, ?_, ?_, ?_⟩
    · rw [field_reply_len _ _ _ _ (by omega), length_reply]
    · rw [htake]
      exact hhead
    · rw [hdrop, hseglen, field_reply_srcAddr, field_reply_dstAddr]
      exact hseg

/-- The IP header of a bare SYN from `srcAddr` to 10.0.0.2. -/
def synIp (srcAddr : UInt32) : IPFields where
  ver := 4
  ihl := 5
  len := 40
  id := 0
  flags := 2
  flagOffset := 0
  ttl := 64
  protocol := 6
  checksum := 0
  srcAddr := srcAddr
  dstAddr := 0x0A000002
  payloadSz := 20

/-- The TCP header of a bare SYN to port 8880. -/
def synTcp : TCPFields where
  srcPort := 40000
  dstPort := 8880
  seq := 1000
  ack := 0
  offset := 5
  flags := FLAG_SYN
  winSz := 0x7210
  chksum := 0
  urgPtr := 0
  payloadSz := 0

/-- The SYN/ACK for a client at 10.0.0.1 is accepted. -/
theorem synAck_passesTests :
    passesTests
        (buildRawTcpIpPacket (synIp 0x0A000001) synTcp (FLAG_SYN ||| FLAG_ACK) (Ptr.ofList []) 0
          (.filled 0) (.filled 0) (.filled 0)).1.cells
        (buildRawTcpIpPacket (synIp 0x0A000001) synTcp (FLAG_SYN ||| FLAG_ACK) (Ptr.ofList []) 0
          (.filled 0) (.filled 0) (.filled 0)).2 = true :=
  (buildRawTcpIpPacket_passesTests_iff (synIp 0x0A000001) synTcp (FLAG_SYN ||| FLAG_ACK)
    (Ptr.ofList []) 0 (by decide) (.filled 0) (.filled 0) (.filled 0)).mpr (by decide)

/-- The SYN/ACK for a client at 192.168.111.39 is not: its IP header adds up to
`0x1FFFF`, which folds to `0x10000`. -/
theorem synAck_not_passesTests :
    ¬ ∀ (lastIp : IPFields) (lastTcp : TCPFields) (flags : UInt8) (payload : Ptr UInt8)
        (n : Nat) (raw rawTcp rawIp : Mem UInt8), n ≤ 2008 →
      passesTests
        (buildRawTcpIpPacket lastIp lastTcp flags payload n raw rawTcp rawIp).1.cells
        (buildRawTcpIpPacket lastIp lastTcp flags payload n raw rawTcp rawIp).2 = true := by
  intro h
  have hsyn := h (synIp 0xC0A86F27) synTcp (FLAG_SYN ||| FLAG_ACK) (Ptr.ofList []) 0
    (.filled 0) (.filled 0) (.filled 0) (by decide)
  exact absurd hsyn (by decide +kernel)

end SantaOS
