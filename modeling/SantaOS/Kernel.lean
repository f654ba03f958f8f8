import SantaOS.Stdio
import SantaOS.Tcpip
import SantaOS.Tty
import SantaOS.Uart

/-!
# SantaOS.Kernel

The whole of `kernel_main`: the network code over the polled UART, with the messages it
prints on the text screen, behind the start-up of terminal and UART. It is the code of
`SantaOS.Serial` and `SantaOS.Tcpip` once more, over the computer in place of the line;
`SantaOS.KernelSound` relates the two.

Every loop of the source that waits, and `printf`, take their fuel from the same
parameter. A run without an answer of `printf` stops there.

Design points:
* `Message` names the format strings, so that what is printed can be spoken of apart from how.
* An argument that no directive asks for is passed all the same, and the value of an
  enumeration is passed where a string is asked for, as the source does it.
-/

namespace SantaOS

open Memory Waiting

/-- The formats of the messages. -/
inductive Message
  | hello | uartModel | serialConnected
  | ipChecksum | onlyIPv4 | onlyTCP | tcpChecksum
  | waitingHandshake | expectedSyn | preparingSynAck | expectedAck | handshakeCompleted
  | htmlResponse
  | startingClose | waitingFin | finalAck
  deriving DecidableEq, Repr

/-- The format string of a message, as the source has it. -/
def Message.format : Message → String
  | .hello => "Hello, Unikernel World!\n"
  | .uartModel => "UART model %s\n"
  | .serialConnected => "Serial looks connected!\n"
  | .ipChecksum => "IP cheksum failed. Packet dropped!\n"
  | .onlyIPv4 => "IP packet dropped: only IPv4 is supported\n"
  | .onlyTCP => "IP packet dropped: only TCP packets are supported\n"
  | .tcpChecksum => "IP packet dropped: TCP cheksum failed!\n"
  | .waitingHandshake => "waiting for a new 3-way handshake\n"
  | .expectedSyn => "TCP packet dropped: expected a SYN flag\n\n"
  | .preparingSynAck => "preparing SYN/ACK response\n"
  | .expectedAck => "TCP packet dropped: expected a ACK flag\n\n"
  | .handshakeCompleted => "3-way handshake completed successfully\n"
  | .htmlResponse => "html response\n"
  | .startingClose => "starting 4-way close\n"
  | .waitingFin => "waiting for FIN\n"
  | .finalAck => "close with final ACK\n"

/-- The computer. Physical memory is `tty.memory`; the kernel's own objects and a stack
array before it is written are memories of their own. -/
structure Pc (δ : Type) where
  uart : δ
  tty : Tty
  inRawBuf : Mem UInt8
  dataPkt : Mem UInt8
  dataPktSz : Int
  stack : Mem UInt8

namespace Pc

variable {δ α : Type} (io : Ports δ) (fuel : Nat)

/-- A program of the serial driver. -/
def onUart (x : Prog δ α) : Prog (Pc δ) α := fun pc =>
  match x pc.uart with
  | .ok a d => .ok a { pc with uart := d }
  | .error e d => .error e { pc with uart := d }

/-- `info` and `warning`, which are `_printf`. -/
def info (msg : Message) (parameters : List Arg) : Prog (Pc δ) Unit := do
  let pc ← get
  match printf terminalWrite pc.tty (literal msg.format) parameters fuel with
  | none => throw .waiting
  | some (_, tty) => set { pc with tty := tty }

/-! ### The serial line -/

/-- `read_serial`, which polls the UART. -/
def readSerial : Prog (Pc δ) Int8 := onUart (Uart.readSerial io fuel)

/-- `write_serial`, which polls it too. -/
def writeSerial (a : Int8) : Prog (Pc δ) Unit := onUart (Uart.writeSerial io fuel a)

/-- One pass of the search for the magic number in `readRawPacket`. -/
def searchMagic (prologMagic : List Int8) : Prog (Pc δ) (Unit ⊕ List Int8) := do
  if bcmp (charArray prologMagic) (charArray MAGIC_NUMBER) MAGIC_NUMBER.length ≠ 0 then
    let c ← readSerial io fuel
    return .inr (prologMagic.tail ++ [c])
  else
    return .inl ()

/-- `inRawBuf[i] = read_serial()` -/
def storeNext (i : Nat) : Prog (Pc δ) Unit := do
  let c ← readSerial io fuel
  modify fun pc => { pc with inRawBuf := pc.inRawBuf.store i c.toUInt8 }

/-- `readRawPacket`: the packet is left in `inRawBuf`, its size is returned. -/
def readRawPacket : Prog (Pc δ) Int := do
  -- search for magic number
  loop (searchMagic io fuel) fuel [0x00, 0x00, 0x00]
  -- read packet size (big endian order)
  let hi ← readSerial io fuel
  let lo ← readSerial io fuel
  let size := hi.toUInt8.toNat <<< 8 ||| lo.toUInt8.toNat
  -- read whole payload into buffer
  times (storeNext io fuel) size
  return size

/-- `sendRawPacket`, with no entry in a log. -/
def sendRawPacket (buf : Ptr UInt8) (bufSz : Int) : Prog (Pc δ) Unit := do
  -- send magic number
  times (fun i => writeSerial io fuel (MAGIC_NUMBER.getD i 0)) MAGIC_NUMBER.length
  -- send packet size (2 bytes in big endian order)
  writeSerial io fuel ((UInt32.ofInt bufSz >>> 8) &&& 0x00FF).toUInt8.toInt8
  writeSerial io fuel (UInt32.ofInt bufSz &&& 0x00FF).toUInt8.toInt8
  -- send actual packet
  times (fun i => writeSerial io fuel (buf i).toInt8) bufSz.toNat

/-! ### Packets -/

/-- `parseRawIpPacket`, which complains about the checksum only. -/
def parseRawIpPacket (raw : Ptr UInt8) (sz : Int) : Prog (Pc δ) (Bool × IP) := do
  let (ok, ip) := SantaOS.parseRawIpPacket raw sz
  -- checksum of ip header (first 20 bytes of raw data)
  if checksumIp raw 20 ≠ 0x0000 then
    info fuel .ipChecksum []
  return (ok, ip)

/-- `validateTcpPacket`. The argument of the message belongs to no directive. -/
def validateTcpPacket (ip : IPFields) (tcpRaw : Ptr UInt8) (sz : Int) : Prog (Pc δ) Bool := do
  -- tcp checksum
  if checksumTcp ip.srcAddr ip.dstAddr ip.protocol tcpRaw sz ≠ 0x0000 then
    info fuel .tcpChecksum [.str (literal "dummy")]
    return false
  return true

/-- One pass of `nextTcpIpPacket`; a dropped packet goes round again. -/
def nextTcpIpPacketBody (_ : Unit) : Prog (Pc δ) ((IP × TCP) ⊕ Unit) := do
  let bufSz ← readRawPacket io fuel
  let buf := (← get).inRawBuf.cells
  let (ok, ip) ← parseRawIpPacket fuel buf bufSz
  if ok = false then
    return .inr () -- drop packet
  if ip.ver ≠ IPv4 then
    info fuel .onlyIPv4 []
    return .inr () -- drop packet
  if ip.protocol ≠ PROTOCOL_TCP then
    info fuel .onlyTCP []
    return .inr () -- drop packet
  let valid ← validateTcpPacket fuel ip.toIPFields ip.payload ip.payloadSz
  if valid = false then
    return .inr () -- drop packet
  -- exit with valid TCP IP structs
  return .inl (ip, parseRawTcpPacket ip.payload ip.payloadSz)

/-- `nextTcpIpPacket`: waits for a packet that passes the tests. -/
def nextTcpIpPacket : Prog (Pc δ) (IP × TCP) :=
  loop (nextTcpIpPacketBody io fuel) fuel ()

/-- Builds a packet without payload in a stack array and sends it. -/
def sendReply (lastIp : IPFields) (lastTcp : TCPFields) (flags : UInt8) : Prog (Pc δ) Unit := do
  let stack := (← get).stack
  let (raw, size) :=
    buildRawTcpIpPacket lastIp lastTcp flags (Ptr.ofList []) 0 stack stack stack
  sendRawPacket io fuel raw.cells size

/-! ### The server -/

/-- One pass of `threeWayHandshake`. -/
def threeWayHandshakeBody (_ : Unit) : Prog (Pc δ) (Unit ⊕ Unit) := do
  let (ip, tcp) ← nextTcpIpPacket io fuel
  if tcp.flags ≠ FLAG_SYN then
    info fuel .expectedSyn []
    return .inr ()
  info fuel .preparingSynAck []
  sendReply io fuel ip.toIPFields tcp.toTCPFields (FLAG_SYN ||| FLAG_ACK)
  let (_, tcp) ← nextTcpIpPacket io fuel
  if tcp.flags ≠ FLAG_ACK then
    info fuel .expectedAck []
    return .inr ()
  info fuel .handshakeCompleted []
  return .inl ()

/-- `threeWayHandshake`. It says once that it waits, whatever it drops afterwards. -/
def threeWayHandshake : Prog (Pc δ) Unit := do
  info fuel .waitingHandshake []
  loop (threeWayHandshakeBody io fuel) fuel ()

/-- One pass of the wait for a FIN in `fourWayClose`. -/
def waitForFin (_ : Unit) : Prog (Pc δ) ((IP × TCP) ⊕ Unit) := do
  let (ip, tcp) ← nextTcpIpPacket io fuel
  if tcp.flags &&& FLAG_FIN ≠ 0 then
    return .inl (ip, tcp)
  return .inr ()

/-- `fourWayClose`: sends the FIN, waits for the client's and acknowledges that one. -/
def fourWayClose (lastIp : IPFields) (lastTcp : TCPFields) : Prog (Pc δ) Unit := do
  info fuel .startingClose []
  sendReply io fuel lastIp lastTcp FLAG_FIN
  info fuel .waitingFin []
  let (ip, tcp) ← loop (waitForFin io fuel) fuel ()
  info fuel .finalAck []
  sendReply io fuel ip.toIPFields tcp.toTCPFields FLAG_ACK

/-- One pass of the loop of `kernel_main`. -/
def kernelMainBody (_ : Unit) : Prog (Pc δ) (Empty ⊕ Unit) := do
  threeWayHandshake io fuel
  -- receive HTTP GET request
  let (ipPkg, tcpPkg) ← nextTcpIpPacket io fuel
  -- send HTML page
  info fuel .htmlResponse []
  let pc ← get
  let (dataPkt, dataPktSz) :=
    buildRawTcpIpPacket ipPkg.toIPFields tcpPkg.toTCPFields FLAG_ACK (Ptr.ofList htmlData)
      htmlData.length pc.dataPkt pc.stack pc.stack
  set { pc with dataPkt := dataPkt, dataPktSz := dataPktSz }
  sendRawPacket io fuel dataPkt.cells dataPktSz
  -- wait for ACK
  let (ipPkg, tcpPkg) ← nextTcpIpPacket io fuel
  -- closing with client
  fourWayClose io fuel ipPkg.toIPFields tcpPkg.toTCPFields
  return .inr ()

/-- A number passed for the `char *` of a `%s`: the address it is. -/
def addressArg (memory : Mem UInt8) (address : Nat) : Arg :=
  .str fun i => (memory.cells (address + i)).toInt8

/-- What `kernel_main` does before its loop. -/
def startUp : Prog (Pc δ) Unit := do
  modify fun pc => { pc with tty := terminalInitialize pc.tty }
  info fuel .hello []
  let model ← onUart (Uart.liftState (Uart.detectUartModel io))
  let memory := (← get).tty.memory
  -- the enumeration value is printed as a string
  info fuel .uartModel [addressArg memory model.value]
  let connected ← onUart (Uart.liftState (Uart.isSerialConnected io))
  if connected then
    info fuel .serialConnected []

/-- `kernel_main`: the start-up and the server. -/
def kernelMain : Prog (Pc δ) Empty := do
  startUp io fuel
  loop (kernelMainBody io fuel) fuel ()

end Pc

end SantaOS
