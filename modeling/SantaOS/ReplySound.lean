import SantaOS.Reply

/-!
# SantaOS.ReplySound

What a receiver reads in a packet that `buildRawTcpIpPacket` wrote. The packet is one
block of bytes, the same over any content of the output buffer and the two scratch
buffers, and nothing is stored outside it; the parsers read in it what the server meant
(`buildRawTcpIpPacket_decodes`).
-/

namespace SantaOS

open Memory BigEndian

/-! ### Where the builder stores -/

section StoredIn

variable {P : Int → Prop} {m m' : Mem UInt8} {net : Int}

theorem storedIn_toNetwork16 (val : UInt16) (h : Mem.StoredIn P m m') (h0 : P net)
    (h1 : P (net + 1)) : Mem.StoredIn P m (toNetwork16 val m' net) :=
  (h.store h1 _).store h0 _

theorem storedIn_toNetwork32 (val : UInt32) (h : Mem.StoredIn P m m') (h0 : P net)
    (h1 : P (net + 1)) (h2 : P (net + 2)) (h3 : P (net + 3)) :
    Mem.StoredIn P m (toNetwork32 val m' net) :=
  (((h.store h3 _).store h2 _).store h1 _).store h0 _

end StoredIn

/-- `buildRawIp` without options stores inside the packet. -/
theorem buildRawIp_storedIn (ip : IP) (raw : Mem UInt8) {n : Nat} (hihl : ip.ihl = 5)
    (hsz : ip.payloadSz = n) (hn : n < 2 ^ 32) :
    Mem.StoredIn (fun i => 0 ≤ i ∧ i < 20 + n) raw (buildRawIp ip raw).1 := by
  unfold buildRawIp
  simp only [hihl, hsz, sizeT_natCast hn, UInt8.reduceToNat, Int.reduceAdd, Int.reduceMul,
    Int.reduceSub, Int.cast_ofNat_Int]
  refine Mem.StoredIn.trans ?_ ((memcpy_storedIn _ _ _ _).imp fun i hi => by omega)
  -- the header, from its last field back to the first
  refine storedIn_toNetwork32 _ ?_ (by omega) (by omega) (by omega) (by omega)
  refine storedIn_toNetwork32 _ ?_ (by omega) (by omega) (by omega) (by omega)
  refine storedIn_toNetwork16 _ ?_ (by omega) (by omega)
  refine Mem.StoredIn.store (Mem.StoredIn.store ?_ (by omega) _) (by omega) _
  refine storedIn_toNetwork16 _ ?_ (by omega) (by omega)
  refine storedIn_toNetwork16 _ ?_ (by omega) (by omega)
  refine storedIn_toNetwork16 _ ?_ (by omega) (by omega)
  exact Mem.StoredIn.store (Mem.StoredIn.store (.refl _ raw) (by omega) _) (by omega) _

theorem buildRawTcpIpPacket_storedIn (lastIp : IPFields) (lastTcp : TCPFields) (flags : UInt8)
    (payload : Ptr UInt8) {n : Nat} (hn : n ≤ 65515) (raw rawTcp rawIp : Mem UInt8) :
    Mem.StoredIn (fun i => 0 ≤ i ∧ i < 40 + n) raw
      (buildRawTcpIpPacket lastIp lastTcp flags payload n raw rawTcp rawIp).1 := by
  rcases h1 : buildRawTcp (replyTcp lastTcp flags payload n) rawTcp with ⟨rawTcp1, size1⟩
  rcases h2 : buildRawTcp { replyTcp lastTcp flags payload n with
      chksum := checksumTcp lastIp.dstAddr lastIp.srcAddr PROTOCOL_TCP rawTcp1.cells size1 }
    rawTcp1 with ⟨rawTcp2, size2⟩
  obtain ⟨-, hsize2⟩ := buildRawTcp_block { replyTcp lastTcp flags payload n with
      chksum := checksumTcp lastIp.dstAddr lastIp.srcAddr PROTOCOL_TCP rawTcp1.cells size1 }
    rawTcp1 (n := n) rfl rfl (by omega)
  rw [h2] at hsize2
  rcases h3 : buildRawIp { replyIp lastIp n with
      payload := rawTcp2.cells, payloadSz := size2 } rawIp with ⟨rawIp1, size3⟩
  rw [buildRawTcpIpPacket_steps raw h1 h2 h3]
  refine (buildRawIp_storedIn _ raw (n := 20 + n) rfl hsize2 (by omega)).imp fun i hi => ?_
  omega

/-! ### What a receiver reads -/

/-- The headers `ip` and `tcp` say what a reply to the last packet means to say. -/
structure Meant (lastIp : IPFields) (lastTcp : TCPFields) (flags : UInt8)
    (payload : List UInt8) (ip : IPFields) (tcp : TCP) : Prop where
  len : ip.len.toNat = 40 + payload.length
  srcAddr : ip.srcAddr = lastIp.dstAddr
  dstAddr : ip.dstAddr = lastIp.srcAddr
  srcPort : tcp.srcPort = lastTcp.dstPort
  dstPort : tcp.dstPort = lastTcp.srcPort
  seq : tcp.seq = lastTcp.ack
  flags : tcp.flags = flags
  offset : tcp.offset = 5
  payloadSz : tcp.payloadSz = payload.length
  payload : tcp.payload.read payload.length = payload

/-- **A reply in memory reads as it was meant**, checksums aside. -/
theorem reply_meant (lastIp : IPFields) (lastTcp : TCPFields) (flags : UInt8)
    {payload : List UInt8} (h : payload.length ≤ 65495) (buf : Ptr UInt8) (sz : Int) :
    let ip := (parseRawIpPacket (buf.write 0 (reply lastIp lastTcp flags payload)) sz).2
    Meant lastIp lastTcp flags payload ip.toIPFields
      (parseRawTcpPacket ip.payload ip.payloadSz) := by
  have hlen : (reply lastIp lastTcp flags payload).length = 40 + payload.length := by simp
  have hip := parsedIp_isHeaderOf buf (p := reply lastIp lastTcp flags payload) (by omega)
  obtain ⟨hptr, hsz⟩ := parsedIp_payload buf (p := reply lastIp lastTcp flags payload) (by omega)
    (by rw [field_reply_version])
  rw [field_reply_len _ _ _ _ h] at hsz
  have htcp := parseRawTcpPacket_isHeaderOf buf (p := reply lastIp lastTcp flags payload) (k := 20)
    (parsedIp (buf.write 0 (reply lastIp lastTcp flags payload))).payloadSz (by omega)
  have hread := read_rest buf (p := reply lastIp lastTcp flags payload) (k := 40) (by omega)
  rw [hlen, Nat.add_sub_cancel_left, drop_reply] at hread
  rw [parseRawIpPacket_eq]
  dsimp only
  rw [hptr]
  -- both headers are the ones that were written
  have hipFields : (parsedIp (buf.write 0 (reply lastIp lastTcp flags payload))).toIPFields =
      replyIpFields lastIp payload := by
    apply hip.eq (reply_isIpHeader lastIp lastTcp flags payload)
    rw [hsz]
    show _ = (20 + payload.length : Int)
    omega
  obtain ⟨htcpSz, htcpPtr⟩ := parseRawTcpPacket_payload
    ((buf.write 0 (reply lastIp lastTcp flags payload)).add (20 : Nat))
    (parsedIp (buf.write 0 (reply lastIp lastTcp flags payload))).payloadSz
  generalize parseRawTcpPacket _ _ = tcp at htcp htcpSz htcpPtr ⊢
  have hheader := reply_isTcpHeader lastIp lastTcp flags payload
  have hoffset : tcp.offset.toNat = 5 := htcp.offset.trans hheader.offset.symm
  rw [hoffset, hsz] at htcpSz
  rw [hoffset, Ptr.add_add] at htcpPtr
  have htcpFields : tcp.toTCPFields = replyTcpFields lastIp lastTcp flags payload := by
    apply htcp.eq hheader
    rw [htcpSz]
    show _ = (payload.length : Int)
    omega
  have hmeant := hip.len.trans (field_reply_len _ _ _ _ h)
  rw [hipFields] at hmeant ⊢
  exact
    { len := hmeant
      srcAddr := rfl
      dstAddr := rfl
      srcPort := congrArg TCPFields.srcPort htcpFields
      dstPort := congrArg TCPFields.dstPort htcpFields
      seq := congrArg TCPFields.seq htcpFields
      flags := congrArg TCPFields.flags htcpFields
      offset := congrArg TCPFields.offset htcpFields
      payloadSz := congrArg TCPFields.payloadSz htcpFields
      payload := htcpPtr ▸ hread }

/-- **The reply decodes to what was meant**: `buildRawTcpIpPacket` stores `40 + n` bytes and
nothing else, the same ones whatever its buffers held, and the parsers read in them what
was asked for. -/
theorem buildRawTcpIpPacket_decodes (lastIp : IPFields) (lastTcp : TCPFields) (flags : UInt8)
    (payload : Ptr UInt8) (n : Nat) (hn : n ≤ 2008) :
    ∃ bytes : List UInt8, bytes.length = 40 + n ∧
      ∀ (raw rawTcp rawIp : Mem UInt8) (raw' : Mem UInt8) (size : Int),
        buildRawTcpIpPacket lastIp lastTcp flags payload n raw rawTcp rawIp = (raw', size) →
          size = 40 + n ∧ raw'.cells = raw.cells.write 0 bytes ∧
          Mem.StoredIn (fun i => 0 ≤ i ∧ i < 40 + n) raw raw' ∧
          Meant lastIp lastTcp flags (payload.read n)
            (parseRawIpPacket raw'.cells size).2.toIPFields
            (parseRawTcpPacket (parseRawIpPacket raw'.cells size).2.payload
              (parseRawIpPacket raw'.cells size).2.payloadSz) := by
  refine ⟨reply lastIp lastTcp flags (payload.read n), by simp, ?_⟩
  intro raw rawTcp rawIp raw' size h
  obtain ⟨hcells, hsize⟩ := buildRawTcpIpPacket_eq lastIp lastTcp flags payload (n := n)
    (by omega) raw rawTcp rawIp
  have hstored := buildRawTcpIpPacket_storedIn lastIp lastTcp flags payload (n := n) (by omega)
    raw rawTcp rawIp
  rw [h] at hcells hsize hstored
  dsimp only at hcells hsize hstored
  refine ⟨hsize, hcells, hstored, ?_⟩
  rw [hcells]
  exact reply_meant lastIp lastTcp flags (by simp; omega) raw.cells size

/-- A payload of three bytes. -/
theorem buildRawTcpIpPacket_decodes_three :
    ∃ bytes : List UInt8, bytes.length = 40 + 3 ∧
      ∀ (raw rawTcp rawIp : Mem UInt8) (raw' : Mem UInt8) (size : Int),
        buildRawTcpIpPacket (synIp 0x0A000001) synTcp FLAG_ACK (Ptr.ofList [0x11, 0x22, 0x33])
            (3 : Nat) raw rawTcp rawIp = (raw', size) →
          size = 40 + (3 : Nat) ∧ raw'.cells = raw.cells.write 0 bytes ∧
          Mem.StoredIn (fun i => 0 ≤ i ∧ i < 40 + (3 : Nat)) raw raw' ∧
          Meant (synIp 0x0A000001) synTcp FLAG_ACK ((Ptr.ofList [0x11, 0x22, 0x33]).read 3)
            (parseRawIpPacket raw'.cells size).2.toIPFields
            (parseRawTcpPacket (parseRawIpPacket raw'.cells size).2.payload
              (parseRawIpPacket raw'.cells size).2.payloadSz) :=
  buildRawTcpIpPacket_decodes (synIp 0x0A000001) synTcp FLAG_ACK (Ptr.ofList [0x11, 0x22, 0x33]) 3
    (by decide)

end SantaOS
