import SantaOS.Std

/-!
# SantaOS.Packet

The packet functions of `tcpip.c`: byte order, checksums, the IP and TCP parsers and
builders, and the builder of the server's replies.

Buffers are `Mem UInt8`, pointers `Ptr UInt8`, and the cursors `idx` and `buf - raw` are
`Int`s, since the code moves them by differences that may be negative. A `struct` is a
record of its fields as `IPFields` and `TCPFields`, which can be compared, and the
`payload` pointer on top. A stack array that the code does not initialise is a
parameter, so that nothing is assumed of what it holds.
-/

namespace SantaOS

open Memory

/-! ### Byte order -/

/-- Converts a word (2 bytes) from network byte order to native byte order. -/
def toNative16 (net : Ptr UInt8) : UInt16 :=
  let native : UInt32 := (net 0).toUInt32
  let native := native <<< 8 ||| (net 1).toUInt32
  native.toUInt16

/-- Converts a dword (4 bytes) from network byte order to native byte order. -/
def toNative32 (net : Ptr UInt8) : UInt32 :=
  let native : UInt32 := (net 0).toUInt32
  let native := native <<< 8 ||| (net 1).toUInt32
  let native := native <<< 8 ||| (net 2).toUInt32
  native <<< 8 ||| (net 3).toUInt32

/-- Converts a word (2 bytes) from native byte order to network byte order. -/
def toNetwork16 (val : UInt16) (m : Mem UInt8) (net : Int) : Mem UInt8 :=
  let m := m.store (net + 1) (val &&& 0x00FF).toUInt8
  m.store net ((val >>> 8) &&& 0x00FF).toUInt8

/-- Converts a dword (4 bytes) from native byte order to network byte order. -/
def toNetwork32 (val : UInt32) (m : Mem UInt8) (net : Int) : Mem UInt8 :=
  let m := m.store (net + 3) (val &&& 0x00FF).toUInt8
  let m := m.store (net + 2) ((val >>> 8) &&& 0x00FF).toUInt8
  let m := m.store (net + 1) ((val >>> 16) &&& 0x00FF).toUInt8
  m.store net ((val >>> 24) &&& 0x00FF).toUInt8

/-! ### Checksums -/

/-- The loop of `_checksum`, `passes` times round; pass `k` has `i = 2 * k`. -/
def checksumLoop (data : Ptr UInt8) (passes : Nat) (chksum32 : UInt32) : UInt32 :=
  passes.fold (fun k _ chksum32 => chksum32 + (toNative16 (data.add (2 * k))).toUInt32) chksum32

/-- `_checksum`, the generic checksum algorithm. -/
def checksum (initSum32 : UInt32) (data : Ptr UInt8) (sz : Int) : UInt16 :=
  let isOdd := sz.tmod 2
  let szEven := sz - sz.tmod 2
  let chksum32 := checksumLoop data (szEven / 2).toNat initSum32
  let chksum32 : UInt32 :=
    if isOdd ≠ 0 then
      let lastData : Ptr UInt8 := Ptr.ofList [data szEven, 0x00]
      chksum32 + (toNative16 lastData).toUInt32
    else chksum32
  let chksum16 : UInt32 := (chksum32 >>> 16) + (chksum32 &&& 0x0000FFFF)
  (~~~ chksum16).toUInt16

/-- `checksumIp`: the checksum of `sz` bytes alone. -/
def checksumIp (data : Ptr UInt8) (sz : Int) : UInt16 := checksum 0x00000000 data sz

/-- `checksumTcp`: the words of the pseudo-header are added as numbers, none of its bytes is
ever laid out. -/
def checksumTcp (srcAddr dstAddr : UInt32) (protocol : UInt8) (data : Ptr UInt8) (sz : Int) :
    UInt16 :=
  let sum32 : UInt32 := (srcAddr >>> 16) + (srcAddr &&& (0xFFFF : UInt32)) +
    (dstAddr >>> 16) + (dstAddr &&& (0xFFFF : UInt32)) +
    protocol.toUInt32 +
    (UInt32.ofInt sz &&& (0xFFFF : UInt32))
  checksum sum32 data sz

/-! ### IP -/

/-- The `ver` of an IPv4 header. -/
def IPv4 : UInt8 := 4

/-- The `protocol` of a TCP packet. -/
def PROTOCOL_TCP : UInt8 := 6

/-- Don't fragment. -/
def FLAGS_DF : UInt8 := 2

/-- The fields of `struct IP` that hold numbers. -/
structure IPFields where
  ver : UInt8
  ihl : UInt8
  len : UInt16
  id : UInt16
  flags : UInt8
  flagOffset : UInt16
  ttl : UInt8
  protocol : UInt8
  checksum : UInt16
  srcAddr : UInt32
  dstAddr : UInt32
  payloadSz : Int
  deriving DecidableEq, Repr

/-- `struct IP`. -/
structure IP extends IPFields where
  payload : Ptr UInt8

/-- `parseRawIpPacket`: its result and the struct it fills in, which is complete
whatever the result. -/
def parseRawIpPacket (raw : Ptr UInt8) (sz : Int) : Bool × IP :=
  let idx : Int := 0 -- raw array cursor
  let buf8 := raw idx
  let idx := idx + 1
  let ver := buf8 >>> 4
  let ihl := buf8 &&& 0x0F
  let idx := idx + 1 -- skip DSCP/ECN
  let len := toNative16 (raw.add idx)
  let idx := idx + 2
  let id := toNative16 (raw.add idx)
  let idx := idx + 2
  let buf16 := toNative16 (raw.add idx)
  let idx := idx + 2
  let flags := (buf16 >>> 13).toUInt8
  let flagOffset := buf16 &&& 0x1FFF
  let ttl := raw idx
  let idx := idx + 1
  let protocol := raw idx
  let idx := idx + 1
  let cksum := toNative16 (raw.add idx)
  let idx := idx + 2
  let srcAddr := toNative32 (raw.add idx)
  let idx := idx + 4
  let dstAddr := toNative32 (raw.add idx)
  let idx := idx + 4
  let idx := idx + ((ihl.toNat : Int) * 4 - 20) -- skip OPTIONS (if any)
  let payloadSz := (len.toNat : Int) - ihl.toNat * 4
  let payload := raw.add idx
  let idx := idx + payloadSz
  let ip : IP := {
    ver, ihl, len, id, flags, flagOffset, ttl, protocol, checksum := cksum,
    srcAddr, dstAddr, payloadSz, payload }
  -- checksum of ip header (first 20 bytes of raw data)
  if checksumIp raw 20 ≠ 0x0000 then (false, ip) else (decide (idx = sz), ip)

/-- `buildRawIp`: the written buffer and the size stored through `pRawSz`. -/
def buildRawIp (ip : IP) (raw : Mem UInt8) : Mem UInt8 × Int :=
  let buf : Int := 0 -- the cursor `buf - raw`
  -- header
  let raw := raw.store buf (ip.ver <<< 4 ||| ip.ihl)
  let buf := buf + 1
  let raw := raw.store buf 0x00 -- ignore DSCP/ECN
  let buf := buf + 1
  let raw := toNetwork16 ip.len raw buf
  let buf := buf + 2
  let raw := toNetwork16 ip.id raw buf
  let buf := buf + 2
  let buf16 := ip.flags.toUInt16 <<< 13 ||| ip.flagOffset
  let raw := toNetwork16 buf16 raw buf
  let buf := buf + 2
  let raw := raw.store buf ip.ttl
  let buf := buf + 1
  let raw := raw.store buf ip.protocol
  let buf := buf + 1
  let raw := toNetwork16 ip.checksum raw buf
  let buf := buf + 2
  let raw := toNetwork32 ip.srcAddr raw buf
  let buf := buf + 4
  let raw := toNetwork32 ip.dstAddr raw buf
  let buf := buf + 4
  let buf := buf + ((ip.ihl.toNat : Int) * 4 - 20) -- ignore OPTIONS
  -- payload
  let raw := memcpy raw buf ip.payload (sizeT ip.payloadSz)
  let buf := buf + ip.payloadSz
  (raw, buf)

/-! ### TCP -/

/-- No more data from the sender. -/
def FLAG_FIN : UInt8 := 0x01

/-- The first packet of a direction. -/
def FLAG_SYN : UInt8 := 0x02

/-- The ack number counts. -/
def FLAG_ACK : UInt8 := 0x10

/-- The fields of `struct TCP` that hold numbers. -/
structure TCPFields where
  srcPort : UInt16
  dstPort : UInt16
  seq : UInt32
  ack : UInt32
  /-- Size of the header in 32-bit words. -/
  offset : UInt8
  flags : UInt8
  winSz : UInt16
  chksum : UInt16
  urgPtr : UInt16
  payloadSz : Int
  deriving DecidableEq, Repr

/-- `struct TCP`. -/
structure TCP extends TCPFields where
  payload : Ptr UInt8

/-- Extracts the TCP data struct. -/
def parseRawTcpPacket (raw : Ptr UInt8) (sz : Int) : TCP :=
  let idx : Int := 0 -- raw array cursor
  let srcPort := toNative16 (raw.add idx)
  let idx := idx + 2
  let dstPort := toNative16 (raw.add idx)
  let idx := idx + 2
  let seq := toNative32 (raw.add idx)
  let idx := idx + 4
  let ack := toNative32 (raw.add idx)
  let idx := idx + 4
  let offset := raw idx >>> 4
  let idx := idx + 1
  let flags := raw idx
  let idx := idx + 1
  let winSz := toNative16 (raw.add idx)
  let idx := idx + 2
  let chksum := toNative16 (raw.add idx)
  let idx := idx + 2
  let urgPtr := toNative16 (raw.add idx)
  let idx := idx + 2
  let idx := idx + ((offset.toNat : Int) * 4 - 20) -- skip options
  let payloadSz := sz - offset.toNat * 4
  let payload := raw.add idx
  { srcPort, dstPort, seq, ack, offset, flags, winSz, chksum, urgPtr, payloadSz, payload }

/-- `validateTcpPacket`: the checksum of a segment, its own field included, is zero. -/
def validateTcpPacket (ip : IPFields) (tcpRaw : Ptr UInt8) (sz : Int) : Bool :=
  -- tcp checksum
  if checksumTcp ip.srcAddr ip.dstAddr ip.protocol tcpRaw sz ≠ 0x0000 then false else true

/-- `buildRawTcp`: the written buffer and the size stored through `pRawSz`. -/
def buildRawTcp (tcp : TCP) (raw : Mem UInt8) : Mem UInt8 × Int :=
  let buf : Int := 0 -- the cursor `buf - raw`
  let raw := toNetwork16 tcp.srcPort raw buf
  let buf := buf + 2
  let raw := toNetwork16 tcp.dstPort raw buf
  let buf := buf + 2
  let raw := toNetwork32 tcp.seq raw buf
  let buf := buf + 4
  let raw := toNetwork32 tcp.ack raw buf
  let buf := buf + 4
  let raw := raw.store buf (tcp.offset <<< 4)
  let buf := buf + 1
  let raw := raw.store buf tcp.flags
  let buf := buf + 1
  let raw := toNetwork16 tcp.winSz raw buf
  let buf := buf + 2
  let raw := toNetwork16 tcp.chksum raw buf
  let buf := buf + 2
  let raw := toNetwork16 tcp.urgPtr raw buf
  let buf := buf + 2
  let buf := buf + ((tcp.offset.toNat : Int) * 4 - 20) -- ignore OPTIONS
  let raw := memcpy raw buf tcp.payload (sizeT tcp.payloadSz)
  let buf := buf + tcp.payloadSz
  (raw, buf)

/-! ### Replies -/

/-- The ack number of a reply: `lastTcp->seq` plus `ackN`. -/
def ackNumber (lastTcp : TCPFields) : UInt32 :=
  let ackN := lastTcp.payloadSz
  let ackN := if ackN = 0 then 1 else ackN
  lastTcp.seq + UInt32.ofInt ackN

/-- The TCP header of a reply, its checksum still to be computed. -/
def replyTcp (lastTcp : TCPFields) (flags : UInt8) (payload : Ptr UInt8) (payloadSz : Int) :
    TCP where
  srcPort := lastTcp.dstPort
  dstPort := lastTcp.srcPort
  seq := lastTcp.ack
  ack := ackNumber lastTcp
  offset := 5 -- 20 bytes header size (no options)
  flags := flags
  winSz := 0x7210 -- generic value
  chksum := 0x0000 -- initial value to update
  urgPtr := 0x0000
  payload := payload
  payloadSz := payloadSz

/-- The IP header of a reply, its payload and its checksum still to be filled in. -/
def replyIp (lastIp : IPFields) (payloadSz : Int) : IP where
  ver := IPv4
  ihl := 5 -- header length
  len := UInt16.ofInt (40 + payloadSz) -- 20 (ip header) + 20 (tcp header) + (tcp payload)
  id := 0x0100 -- should be unique
  flags := FLAGS_DF
  flagOffset := 0
  ttl := 0x40
  protocol := PROTOCOL_TCP
  checksum := 0x0000 -- initial value to update
  srcAddr := lastIp.dstAddr
  dstAddr := lastIp.srcAddr
  payload := Ptr.ofList [] -- NULL, to update with tcp content
  payloadSz := 0

/-- `buildRawTcpIpPacket`: the written buffer and the size stored through `pRawSz`. The
last two parameters are what the stack arrays `rawTcp` and `rawIp` hold on entry. -/
def buildRawTcpIpPacket (lastIp : IPFields) (lastTcp : TCPFields) (flags : UInt8)
    (payload : Ptr UInt8) (payloadSz : Int) (raw rawTcp rawIp : Mem UInt8) : Mem UInt8 × Int :=
  let tcp := replyTcp lastTcp flags payload payloadSz
  let ip := replyIp lastIp payloadSz
  -- update tcp checksum
  let (rawTcp, size) := buildRawTcp tcp rawTcp
  let tcp := { tcp with
    chksum := checksumTcp ip.srcAddr ip.dstAddr ip.protocol rawTcp.cells size }
  let (rawTcp, size) := buildRawTcp tcp rawTcp
  let ip := { ip with payload := rawTcp.cells, payloadSz := size }
  -- update ip checksum
  let (rawIp, _) := buildRawIp ip rawIp
  let ip := { ip with checksum := checksumIp rawIp.cells ((ip.ihl.toNat : Int) * 4) }
  -- build final raw packet
  buildRawIp ip raw

end SantaOS
