import SantaOS.Packet
import SantaOS.Lib.Reactive
import SantaOS.Lib.Waiting

/-!
# SantaOS.Serial

The machine the kernel's network code runs on and the serial driver of `tcpip.c`.

`read_serial` and `write_serial` poll the UART until it is ready. The line is a list of
bytes still to be read, `Machine.input`; a read of the empty line waits for good, which
is how a run on a finite input ends. The transmitter always becomes ready.

`inRawBuf` is the memory from the receive buffer's first byte on. The buffer is the last
object of the kernel image (`linker.ld`, with the objects in the order of `compile.sh`),
so a write behind its 2048 bytes changes no other object of the program.

`Machine.log` is a ghost: what became of the frames received and the packets sent, in
order. A received frame is logged with the call of `nextTcpIpPacket` that read it.
-/

namespace SantaOS

open Memory Waiting

/-- The calls of `nextTcpIpPacket`. -/
inductive Site
  /-- `threeWayHandshake`, for a SYN. -/
  | syn
  /-- `threeWayHandshake`, for the ACK of the SYN/ACK. -/
  | handshakeAck
  /-- `kernel_main`, for the HTTP request. -/
  | request
  /-- `kernel_main`, for the ACK of the response. -/
  | responseAck
  /-- `fourWayClose`, for the FIN. -/
  | fin
  deriving DecidableEq, Repr

/-- What `nextTcpIpPacket` makes of a frame. -/
inductive Arrival
  /-- It is dropped; it had this size. -/
  | dropped (size : Int)
  /-- It is returned as these headers. -/
  | segment (ip : IPFields) (tcp : TCPFields)
  deriving DecidableEq, Repr

/-- An entry of the log: a frame with the call that read it and what became of it, or a
packet sent. -/
abbrev Event := Reactive.Event Site Arrival (List UInt8)

/-- What the network code works on: the serial line, the static buffers of `tcpip.c` and
`kernel.c`, and the log. -/
structure Machine where
  /-- The bytes of the serial line that have not been read. -/
  input : List UInt8
  /-- The bytes written to the serial line. -/
  output : List UInt8
  inRawBuf : Mem UInt8
  dataPkt : Mem UInt8
  dataPktSz : Int
  /-- What a stack array holds before it is written. -/
  stack : Mem UInt8
  log : List Event

/-- The machine before the first read: static objects are zero, and so is the stack. -/
def Machine.boot (input : List UInt8) : Machine where
  input := input
  output := []
  inRawBuf := .filled 0
  dataPkt := .filled 0
  dataPktSz := 0
  stack := .filled 0
  log := []

/-- A program of the kernel. -/
abbrev Kernel := Prog Machine

/-- The ghost log. -/
def logEvent (e : Event) : Kernel Unit := modify fun m => { m with log := m.log ++ [e] }

/-! ### The serial line -/

/-- `read_serial`: takes the next byte off the line, as a `char`. -/
def readSerial : Kernel Int8 := do
  let m ← get
  match m.input with
  | [] => throw .waiting
  | b :: input =>
    set { m with input := input }
    return b.toInt8

/-- `write_serial`: puts a byte on the line. -/
def writeSerial (a : Int8) : Kernel Unit :=
  modify fun m => { m with output := m.output ++ [a.toUInt8] }

/-! ### Frames -/

/-- The three characters every frame begins with; the second one is negative as a `char`. -/
def MAGIC_NUMBER : List Int8 := [0x0F, 0xAB, 0x10]

/-- The bytes of an array of `char`. -/
def charArray (s : List Int8) : Ptr UInt8 := Ptr.ofList (s.map Int8.toUInt8)

/-- One pass of the search for the magic number: `prolog_magic` is compared and, if it is
something else, shifted by one character read from the line. -/
def searchMagic (prologMagic : List Int8) : Kernel (Unit ⊕ List Int8) := do
  if bcmp (charArray prologMagic) (charArray MAGIC_NUMBER) MAGIC_NUMBER.length ≠ 0 then
    let c ← readSerial
    return .inr (prologMagic.tail ++ [c])
  else
    return .inl ()

/-- `inRawBuf[i] = read_serial()` -/
def storeNext (i : Nat) : Kernel Unit := do
  let c ← readSerial
  modify fun m => { m with inRawBuf := m.inRawBuf.store i c.toUInt8 }

/-- `readRawPacket`: the packet is left in `inRawBuf`, its size is returned. -/
def readRawPacket : Kernel Int := do
  -- search for magic number
  whileTrue (·.input.length) searchMagic [0x00, 0x00, 0x00]
  -- read packet size (big endian order)
  let hi ← readSerial
  let lo ← readSerial
  let size := hi.toUInt8.toNat <<< 8 ||| lo.toUInt8.toNat
  -- read whole payload into buffer
  times storeNext size
  return size

/-- `sendRawPacket`: writes the magic number, the size in two bytes and the packet. The
entry of the log is made when the last byte has been written. -/
def sendRawPacket (buf : Ptr UInt8) (bufSz : Int) : Kernel Unit := do
  -- send magic number
  times (fun i => writeSerial (MAGIC_NUMBER.getD i 0)) MAGIC_NUMBER.length
  -- send packet size (2 bytes in big endian order)
  writeSerial ((UInt32.ofInt bufSz >>> 8) &&& 0x00FF).toUInt8.toInt8
  writeSerial (UInt32.ofInt bufSz &&& 0x00FF).toUInt8.toInt8
  -- send actual packet
  times (fun i => writeSerial (buf i).toInt8) bufSz.toNat
  logEvent (.output (buf.read bufSz.toNat))

end SantaOS
