import SantaOS.Serial

/-!
# SantaOS.Tcpip

The network side of the kernel: `nextTcpIpPacket`, `threeWayHandshake` and `fourWayClose`
of `tcpip.c`, and the loop of `kernel_main`. The messages they print are left out.

Design points:
* A call of `nextTcpIpPacket` has its `Site` as an argument. The code does not: it is there for
  the log only, and no branch depends on it.
* Loops are `whileTrue`, with the bytes left on the line for a measure. Each pass reads some.
-/

namespace SantaOS

open Memory Waiting

/-- One pass of `nextTcpIpPacket`; a dropped packet goes round again. -/
def nextTcpIpPacketBody (site : Site) (_ : Unit) : Kernel ((IP × TCP) ⊕ Unit) := do
  let bufSz ← readRawPacket
  let buf := (← get).inRawBuf.cells
  let (ok, ip) := parseRawIpPacket buf bufSz
  if ok = false then
    logEvent (.input site (.dropped bufSz))
    return .inr () -- drop packet
  if ip.ver ≠ IPv4 then
    logEvent (.input site (.dropped bufSz))
    return .inr () -- drop packet
  if ip.protocol ≠ PROTOCOL_TCP then
    logEvent (.input site (.dropped bufSz))
    return .inr () -- drop packet
  if validateTcpPacket ip.toIPFields ip.payload ip.payloadSz = false then
    logEvent (.input site (.dropped bufSz))
    return .inr () -- drop packet
  let tcp := parseRawTcpPacket ip.payload ip.payloadSz
  logEvent (.input site (.segment ip.toIPFields tcp.toTCPFields))
  -- exit with valid TCP IP structs
  return .inl (ip, tcp)

/-- `nextTcpIpPacket`, called at `site`: waits for a packet that passes the tests. -/
def nextTcpIpPacket (site : Site) : Kernel (IP × TCP) :=
  whileTrue (·.input.length) (nextTcpIpPacketBody site) ()

/-- Builds a packet without payload in a stack array and sends it, as
`threeWayHandshake` and `fourWayClose` do. -/
def sendReply (lastIp : IPFields) (lastTcp : TCPFields) (flags : UInt8) : Kernel Unit := do
  let stack := (← get).stack
  let (raw, size) :=
    buildRawTcpIpPacket lastIp lastTcp flags (Ptr.ofList []) 0 stack stack stack
  sendRawPacket raw.cells size

/-- One pass of `threeWayHandshake`. -/
def threeWayHandshakeBody (_ : Unit) : Kernel (Unit ⊕ Unit) := do
  let (ip, tcp) ← nextTcpIpPacket .syn
  if tcp.flags ≠ FLAG_SYN then
    return .inr () -- expected a SYN flag
  -- preparing SYN/ACK response
  sendReply ip.toIPFields tcp.toTCPFields (FLAG_SYN ||| FLAG_ACK)
  let (_, tcp) ← nextTcpIpPacket .handshakeAck
  if tcp.flags ≠ FLAG_ACK then
    return .inr () -- expected a ACK flag
  return .inl ()

/-- `threeWayHandshake`: waits for a client that completes the handshake. -/
def threeWayHandshake : Kernel Unit :=
  whileTrue (·.input.length) threeWayHandshakeBody ()

/-- One pass of the wait for a FIN in `fourWayClose`. -/
def waitForFin (_ : Unit) : Kernel ((IP × TCP) ⊕ Unit) := do
  let (ip, tcp) ← nextTcpIpPacket .fin
  if tcp.flags &&& FLAG_FIN ≠ 0 then
    return .inl (ip, tcp)
  return .inr ()

/-- `fourWayClose`: sends the FIN, waits for the client's and acknowledges that one. -/
def fourWayClose (lastIp : IPFields) (lastTcp : TCPFields) : Kernel Unit := do
  -- starting 4-way close
  sendReply lastIp lastTcp FLAG_FIN
  -- waiting for FIN
  let (ip, tcp) ← whileTrue (·.input.length) waitForFin ()
  -- close with final ACK
  sendReply ip.toIPFields tcp.toTCPFields FLAG_ACK

/-- The HTML page, with the NUL that ends the string literal. -/
def htmlData : List UInt8 :=
  ("HTTP/1.0 200 OK\n" ++
    "Content-Type: text/html\n" ++
    "Content-Length: 51\n" ++
    "\n" ++
    "<html><body><p>Hi from SantaNoOS !</p><body></html>").toUTF8.toList ++ [0]

/-- One pass of the loop of `kernel_main`. -/
def kernelMainBody (_ : Unit) : Kernel (Empty ⊕ Unit) := do
  threeWayHandshake
  -- receive HTTP GET request
  let (ipPkg, tcpPkg) ← nextTcpIpPacket .request
  -- send HTML page
  let m ← get
  let (dataPkt, dataPktSz) :=
    buildRawTcpIpPacket ipPkg.toIPFields tcpPkg.toTCPFields FLAG_ACK (Ptr.ofList htmlData)
      htmlData.length m.dataPkt m.stack m.stack
  set { m with dataPkt := dataPkt, dataPktSz := dataPktSz }
  sendRawPacket dataPkt.cells dataPktSz
  -- wait for ACK
  let (ipPkg, tcpPkg) ← nextTcpIpPacket .responseAck
  -- closing with client
  fourWayClose ipPkg.toIPFields tcpPkg.toTCPFields
  return .inr ()

/-- `kernel_main` behind its start-up. The loop has no exit. -/
def kernelMain : Kernel Empty :=
  whileTrue (·.input.length) kernelMainBody ()

end SantaOS
