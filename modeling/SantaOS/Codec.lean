import SantaOS.Layout

/-!
# SantaOS.Codec

The packet functions as codecs. A struct that describes a packet is read back from the
bytes written for it, over any earlier content of the buffer and for every header length
(`parse_buildRawIp`, `parse_buildRawTcp`). The other way round the builders write one
form of each header: no options, and zeros where the parsers look away. A packet in that
form is written back byte for byte (`build_parseRawIpPacket`, `build_parseRawTcpPacket`).

Proof shape: that a struct is read back is an equation of records, since two headers read at
one place are the same. The other direction goes byte by byte, through the bytes and words
that hold two fields (`nibbles_or`, `flags_or_flagOffset`).
-/

namespace SantaOS

open Memory BigEndian

/-! ### IP -/

/-- An IP struct that describes a packet: the header has its 20 fixed bytes, and the
total length is that of header and payload. -/
structure IPFields.WellFormed (ip : IPFields) : Prop extends IPFields.FitsBits ip where
  fixedPart : 5 ≤ ip.ihl
  payloadSz : 0 ≤ ip.payloadSz
  len : (ip.len.toNat : Int) = 4 * ip.ihl.toNat + ip.payloadSz

theorem five_le_toNat {b : UInt8} (h : 5 ≤ b) : 5 ≤ b.toNat := UInt8.le_iff_toNat_le.mp h

/-- What the parser finds in the buffer that `buildRawIp` leaves. -/
theorem parse_buildRawIp {ip : IP} (h : ip.WellFormed) (raw : Mem UInt8) (sz : Int) :
    (parseRawIpPacket (buildRawIp ip raw).1.cells sz).2.toIPFields = ip.toIPFields ∧
      (parseRawIpPacket (buildRawIp ip raw).1.cells sz).2.payload.read ip.payloadSz.toNat =
        ip.payload.read ip.payloadSz.toNat := by
  obtain ⟨n, hn⟩ := Int.eq_ofNat_of_zero_le h.payloadSz
  have hihl := five_le_toNat h.fixedPart
  have hlen := h.len
  have hlt := ip.len.toNat_lt
  obtain ⟨hcells, -⟩ := buildRawIp_eq ip raw
  rw [hn, sizeT_natCast (by omega)] at hcells
  have hcomm := hcells.trans (Ptr.write_comm raw.cells _ (by simp; omega))
  -- the header, with the payload already behind it
  have hwritten := ipHeader_isHeaderOf h.toFitsBits []
  rw [List.append_nil] at hwritten
  have hparsed := parsedIp_isHeaderOf (raw.cells.write (ip.ihl.toNat * 4) (ip.payload.read n))
    (length_ipHeader ip.toIPFields).ge
  rw [← hcomm] at hparsed
  have hfields : (parsedIp (buildRawIp ip raw).1.cells).toIPFields = ip.toIPFields := by
    apply hparsed.eq hwritten
    have hlen' := hparsed.len.trans hwritten.len.symm
    have hihl' := hparsed.ihl.trans hwritten.ihl.symm
    simp only [parsedIp] at hlen' hihl' ⊢
    omega
  rw [parseRawIpPacket_eq, hn, Int.toNat_natCast]
  refine ⟨hfields, ?_⟩
  have hptr : (parsedIp (buildRawIp ip raw).1.cells).payload =
      (buildRawIp ip raw).1.cells.add (ip.ihl.toNat * 4) := by
    rw [← hfields]
    rfl
  rw [hptr, hcells]
  simpa using Ptr.read_write (raw.cells.write 0 (ipHeader ip.toIPFields)) (ip.ihl.toNat * 4)
    (ip.payload.read n)

/-! What the parsers cut out of a byte or a word fits its bits, and the builders put it
together again. -/

theorem shiftRight_four_lt (b : UInt8) : b >>> 4 < 16 := by
  have hb := b.toNat_lt
  rw [UInt8.lt_iff_toNat_lt, shiftRight_four_toNat]
  simp only [UInt8.reduceToNat]
  omega

theorem and_15_lt (b : UInt8) : b &&& 0x0F < 16 := by
  rw [UInt8.lt_iff_toNat_lt, and_15_toNat]
  simp only [UInt8.reduceToNat]
  omega

theorem shiftRight_13_lt (v : UInt16) : (v >>> 13).toUInt8 < 8 := by
  have hv := v.toNat_lt
  rw [UInt8.lt_iff_toNat_lt, shiftRight_13_toNat]
  simp only [UInt8.reduceToNat]
  omega

theorem and_1fff_lt (v : UInt16) : v &&& 0x1FFF < 8192 := by
  rw [UInt16.lt_iff_toNat_lt, and_1fff_toNat]
  simp only [UInt16.reduceToNat]
  omega

theorem nibbles_or (b : UInt8) : b >>> 4 <<< 4 ||| b &&& 0x0F = b := by
  apply UInt8.toNat_inj.mp
  rw [shiftLeft_four_or_toNat (shiftRight_four_lt b) (and_15_lt b), shiftRight_four_toNat,
    and_15_toNat]
  omega

theorem flags_or_flagOffset (v : UInt16) :
    (v >>> 13).toUInt8.toUInt16 <<< 13 ||| v &&& 0x1FFF = v := by
  apply UInt16.toNat_inj.mp
  rw [shiftLeft_13_or_toNat (shiftRight_13_lt v) (and_1fff_lt v), shiftRight_13_toNat,
    and_1fff_toNat]
  omega

/-- The header written from parsed fields is the header that was parsed, but for the
byte of DSCP and ECN. -/
theorem ipHeader_parsedIp (raw : Ptr UInt8) :
    ipHeader (parsedIp raw).toIPFields = (raw.read 20).set 1 0 := by
  simp only [ipHeader, parsedIp, nibbles_or, flags_or_flagOffset, encode_toNative16,
    encode_toNative32]
  simp [Ptr.read_succ]

/-- A packet without options is written back, the byte of DSCP and ECN cleared. -/
theorem build_parseRawIpPacket (src : Ptr UInt8) {sz : Nat} (hsz : 20 ≤ sz)
    (hihl : src 0 &&& 0x0F = 5) (hlen : decode ((src.add 2).read 2) = sz) (raw : Mem UInt8) :
    (buildRawIp (parseRawIpPacket src sz).2 raw).1.cells =
        raw.cells.write 0 ((src.read sz).set 1 0) ∧
      (buildRawIp (parseRawIpPacket src sz).2 raw).2 = sz := by
  have hlt := (toNative16 (src.add 2)).toNat_lt
  have hpayloadSz : (parsedIp src).payloadSz = (sz - 20 : Nat) := by
    rw [parsedIp, hihl, toNative16_toNat, hlen]
    simp
    omega
  have hpayload : (parsedIp src).payload = src.add 20 := by
    rw [parsedIp, hihl]
    rfl
  have hsplit : src.read sz = src.read 20 ++ (src.add 20).read (sz - 20) := src.read_eq_append hsz
  rw [toNative16_toNat, hlen] at hlt
  obtain ⟨hcells, hsize⟩ := buildRawIp_block (parsedIp src) raw hihl hpayloadSz (by omega)
  rw [ipHeader_parsedIp, hpayload, ← List.set_append_left _ _ (by simp), ← hsplit] at hcells
  rw [parseRawIpPacket_eq]
  refine ⟨hcells, hsize.trans ?_⟩
  omega

/-- **IP encode and decode are inverse**: what is written for a struct is read back as
the struct, and a packet without options, DSCP and ECN zero, is written back as it was. -/
theorem buildRawIp_parseRawIpPacket :
    (∀ (ip : IP) (raw : Mem UInt8), ip.WellFormed →
      let written := buildRawIp ip raw
      let parsed := (parseRawIpPacket written.1.cells written.2).2
      parsed.toIPFields = ip.toIPFields ∧
        parsed.payload.read ip.payloadSz.toNat = ip.payload.read ip.payloadSz.toNat) ∧
    ∀ (src : Ptr UInt8) (sz : Nat) (raw : Mem UInt8), 20 ≤ sz → src 0 &&& 0x0F = 5 → src 1 = 0 →
      decode ((src.add 2).read 2) = sz →
      let written := buildRawIp (parseRawIpPacket src sz).2 raw
      written.2 = sz ∧ written.1.cells = raw.cells.write 0 (src.read sz) := by
  constructor
  · intro ip raw h
    exact parse_buildRawIp h raw _
  · intro src sz raw hsz hihl hdscp hlen
    obtain ⟨hcells, hsize⟩ := build_parseRawIpPacket src hsz hihl hlen raw
    have hset := src.set_read sz 1
    rw [show src (1 : Nat) = 0 from hdscp] at hset
    rw [hset] at hcells
    exact ⟨hsize, hcells⟩

/-- `ip_data` of the unit tests: the SYN/ACK of a handshake. -/
def ipData : List UInt8 :=
  [0x45, 0x00, 0x00, 0x28, 0x01, 0x00, 0x40, 0x00, 0x40, 0x06, 0x25, 0xce, 0x0a, 0x00, 0x00,
    0x02, 0x0a, 0x00, 0x00, 0x01, 0x22, 0xb0, 0xe5, 0x23, 0x00, 0x00, 0x00, 0x00, 0xca, 0xf5,
    0x8a, 0x01, 0x50, 0x12, 0x72, 0x10, 0xcc, 0xf4, 0x00, 0x00]

theorem buildRawIp_parseRawIpPacket_unitTest :
    (parseRawIpPacket (buildRawIp (parsedIp (Ptr.ofList ipData)) (.filled 7)).1.cells
        (buildRawIp (parsedIp (Ptr.ofList ipData)) (.filled 7)).2).2.toIPFields =
      (parsedIp (Ptr.ofList ipData)).toIPFields ∧
    (buildRawIp (parseRawIpPacket (Ptr.ofList ipData) (40 : Nat)).2 (.filled 7)).1.cells =
      (Mem.filled 7).cells.write 0 ((Ptr.ofList ipData).read 40) :=
  ⟨(buildRawIp_parseRawIpPacket.1 (parsedIp (Ptr.ofList ipData)) (.filled 7)
      ⟨⟨by decide, by decide, by decide, by decide⟩, by decide, by decide, by decide⟩).1,
    (buildRawIp_parseRawIpPacket.2 (Ptr.ofList ipData) 40 (.filled 7) (by decide) (by decide)
      (by decide) (by decide)).2⟩

/-! ### TCP -/

/-- A TCP struct that describes a segment: the header has its 20 fixed bytes and a length
that fits its four bits, and the size of the payload is an `int` that is not negative. -/
structure TCPFields.WellFormed (tcp : TCPFields) : Prop where
  fixedPart : 5 ≤ tcp.offset
  offset : tcp.offset < 16
  payloadSz : 0 ≤ tcp.payloadSz
  fitsInt : tcp.payloadSz ≤ INT_MAX

/-- What the parser finds in the buffer that `buildRawTcp` leaves. -/
theorem parse_buildRawTcp {tcp : TCP} (h : tcp.WellFormed) (raw : Mem UInt8) :
    let parsed := parseRawTcpPacket (buildRawTcp tcp raw).1.cells (buildRawTcp tcp raw).2
    parsed.toTCPFields = tcp.toTCPFields ∧
      parsed.payload.read tcp.payloadSz.toNat = tcp.payload.read tcp.payloadSz.toNat := by
  obtain ⟨n, hn⟩ := Int.eq_ofNat_of_zero_le h.payloadSz
  have hoffset := five_le_toNat h.fixedPart
  have hfits := h.fitsInt
  obtain ⟨hcells, hsize⟩ := buildRawTcp_eq tcp raw
  rw [hn, sizeT_natCast (by simp only [INT_MAX] at hfits; omega)] at hcells
  have hcomm := hcells.trans (Ptr.write_comm raw.cells _ (by simp; omega))
  have hwritten := tcpHeader_isHeaderOf h.offset []
  rw [List.append_nil] at hwritten
  have hparsed := parseRawTcpPacket_isHeaderOf
    (raw.cells.write (tcp.offset.toNat * 4) (tcp.payload.read n)) (k := 0)
    (buildRawTcp tcp raw).2 (length_tcpHeader tcp.toTCPFields).ge
  rw [← hcomm, List.drop_zero, Int.natCast_zero, Ptr.add_zero] at hparsed
  obtain ⟨hsz, hptr⟩ :=
    parseRawTcpPacket_payload (buildRawTcp tcp raw).1.cells (buildRawTcp tcp raw).2
  generalize parseRawTcpPacket (buildRawTcp tcp raw).1.cells (buildRawTcp tcp raw).2 = parsed
    at hparsed hsz hptr ⊢
  have hoffset' : parsed.offset.toNat = tcp.offset.toNat :=
    hparsed.offset.trans hwritten.offset.symm
  rw [hoffset'] at hsz hptr
  refine ⟨hparsed.eq hwritten (by omega), ?_⟩
  rw [hn, Int.toNat_natCast, hptr, hcells]
  simpa using Ptr.read_write (raw.cells.write 0 (tcpHeader tcp.toTCPFields))
    (tcp.offset.toNat * 4) (tcp.payload.read n)

/-- A segment without options is written back, the reserved bits beside the data offset
cleared. -/
theorem build_parseRawTcpPacket (src : Ptr UInt8) {sz : Nat} (hsz : 20 ≤ sz)
    (hint : (sz : Int) ≤ INT_MAX) (hoffset : src 12 >>> 4 = 5) (raw : Mem UInt8) :
    (buildRawTcp (parseRawTcpPacket src sz) raw).1.cells =
        raw.cells.write 0 ((src.read sz).set 12 (src 12 >>> 4 <<< 4)) ∧
      (buildRawTcp (parseRawTcpPacket src sz) raw).2 = sz := by
  have hheader := tcpHeader_parseRawTcpPacket src sz
  obtain ⟨hpayloadSz, hpayload⟩ := parseRawTcpPacket_payload src sz
  have hsplit : src.read sz = src.read 20 ++ (src.add 20).read (sz - 20) := src.read_eq_append hsz
  have hoffset' : (parseRawTcpPacket src sz).offset = 5 := by
    rw [parseRawTcpPacket_eq]
    exact hoffset
  rw [hoffset'] at hpayloadSz hpayload
  have hrest : (parseRawTcpPacket src sz).payloadSz = (sz - 20 : Nat) := by
    simp at hpayloadSz
    omega
  obtain ⟨hcells, hsize⟩ := buildRawTcp_block (parseRawTcpPacket src sz) raw hoffset' hrest
    (by simp only [INT_MAX] at hint; omega)
  rw [hheader, show (parseRawTcpPacket src sz).payload = src.add 20 from hpayload,
    ← List.set_append_left _ _ (by simp), ← hsplit] at hcells
  refine ⟨hcells, hsize.trans ?_⟩
  omega

theorem shiftRight_four_shiftLeft_four {b : UInt8} (h : b &&& 0x0F = 0) : b >>> 4 <<< 4 = b := by
  have hnibbles := nibbles_or b
  rwa [h, UInt8.or_zero] at hnibbles

/-- **TCP encode and decode are inverse**: what is written for a struct is read back as
the struct, and a segment without options, the reserved nibble zero, is written back as
it was. -/
theorem buildRawTcp_parseRawTcpPacket :
    (∀ (tcp : TCP) (raw : Mem UInt8), tcp.WellFormed →
      let written := buildRawTcp tcp raw
      let parsed := parseRawTcpPacket written.1.cells written.2
      parsed.toTCPFields = tcp.toTCPFields ∧
        parsed.payload.read tcp.payloadSz.toNat = tcp.payload.read tcp.payloadSz.toNat) ∧
    ∀ (src : Ptr UInt8) (sz : Nat) (raw : Mem UInt8), 20 ≤ sz → (sz : Int) ≤ INT_MAX →
      src 12 >>> 4 = 5 → src 12 &&& 0x0F = 0 →
      let written := buildRawTcp (parseRawTcpPacket src sz) raw
      written.2 = sz ∧ written.1.cells = raw.cells.write 0 (src.read sz) := by
  constructor
  · intro tcp raw h
    exact parse_buildRawTcp h raw
  · intro src sz raw hsz hint hoffset hreserved
    obtain ⟨hcells, hsize⟩ := build_parseRawTcpPacket src hsz hint hoffset raw
    have hset := src.set_read sz 12
    rw [shiftRight_four_shiftLeft_four hreserved, show src 12 = src (12 : Nat) from rfl,
      hset] at hcells
    exact ⟨hsize, hcells⟩

theorem buildRawTcp_parseRawTcpPacket_unitTest :
    (parseRawTcpPacket (buildRawTcp (parseRawTcpPacket (Ptr.ofList (ipData.drop 20)) (20 : Nat))
          (.filled 7)).1.cells
        (buildRawTcp (parseRawTcpPacket (Ptr.ofList (ipData.drop 20)) (20 : Nat))
          (.filled 7)).2).toTCPFields =
      (parseRawTcpPacket (Ptr.ofList (ipData.drop 20)) (20 : Nat)).toTCPFields ∧
    (buildRawTcp (parseRawTcpPacket (Ptr.ofList (ipData.drop 20)) (20 : Nat))
        (.filled 7)).1.cells =
      (Mem.filled 7).cells.write 0 ((Ptr.ofList (ipData.drop 20)).read 20) :=
  ⟨(buildRawTcp_parseRawTcpPacket.1 (parseRawTcpPacket (Ptr.ofList (ipData.drop 20)) (20 : Nat))
      (.filled 7) ⟨by decide, by decide, by decide, by decide⟩).1,
    (buildRawTcp_parseRawTcpPacket.2 (Ptr.ofList (ipData.drop 20)) 20 (.filled 7) (by decide)
      (by decide) (by decide) (by decide)).2⟩

end SantaOS
