import SantaOS.Lib.BigEndian

/-!
# SantaOS.Host

The two threads of `eth2serial.py`, which join the kernel's serial line to a TUN device
of the host: `tun2socket` frames what it reads from the device, `socket2tun` takes the
kernel's byte stream apart again.

`socket2tun.run` is a step function with one program point for each statement of its
loops, so that what holds at every point of the run can be said. The results of
`sock.recv` still to come are a list; on the empty list the thread waits in `recv`.
Where Python raises an exception there is no next state.
-/

namespace SantaOS

open BigEndian

/-! ### Numbers -/

/-- Converts an unsigned number to a byte string; `struct.pack` refuses a number that
does not fit, and another width gives no string. -/
def u2B (num nbytes : Nat) : Option (List UInt8) :=
  if nbytes = 1 ∨ nbytes = 2 ∨ nbytes = 4 then
    if num < 256 ^ nbytes then some (encode nbytes num) else none
  else none

/-- Converts a byte string to an unsigned number. -/
def B2u (bb : List UInt8) : Option Nat :=
  if bb.length = 1 then some (decode bb)
  else if bb.length = 2 then some (decode bb)
  else if bb.length = 4 then some (decode bb)
  else none -- raise NotImplementedError

/-! ### tun2socket -/

/-- What one pass of `tun2socket.run` hands to `sendall`. -/
def tun2socket (pkt : List UInt8) : Option (List UInt8) := do
  let prolog := [0x0F, 0xAB, 0x10] ++ (← u2B pkt.length 2)
  return prolog ++ pkt

/-! ### socket2tun -/

namespace Socket2tun

/-- The statements of `socket2tun.run`, in their order. -/
inductive Point
  /-- `pkt += self.sock.recv(2048)` -/
  | recv
  /-- `if len(pkt)>=5:` -/
  | test
  /-- `size = B2u( pkt[3:5] )` -/
  | readSize
  /-- `pkt = pkt[5:]` -/
  | strip
  /-- `while len(pkt)<size:` -/
  | whileShort
  /-- `pkt += self.sock.recv(2048)`, in the inner loop -/
  | recvMore
  /-- `self.tun.write(pkt[:size])` -/
  | write
  /-- `pkt = pkt[size:]` -/
  | remove
  deriving DecidableEq, Repr

/-- The local variables of `socket2tun.run`, where it stands, and what lies outside it. -/
structure State where
  point : Point
  pkt : List UInt8
  size : Nat
  /-- The results of `sock.recv` still to come. -/
  chunks : List (List UInt8)
  /-- The packets passed to `tun.write`. -/
  written : List (List UInt8)
  deriving DecidableEq, Repr

/-- Before the first pass of the loop. -/
def init (chunks : List (List UInt8)) : State where
  point := .recv
  pkt := []
  size := 0
  chunks := chunks
  written := []

/-- One statement of `socket2tun.run`. There is none when `recv` has no bytes to give, or when
an exception is raised. -/
def step (s : State) : Option State :=
  match s.point with
  | .recv =>
    match s.chunks with
    | [] => none
    | c :: chunks => some { s with point := .test, pkt := s.pkt ++ c, chunks := chunks }
  | .test =>
    some { s with point := if s.pkt.length ≥ 5 then .readSize else .recv }
  | .readSize => do
    let size ← B2u ((s.pkt.drop 3).take 2)
    some { s with point := .strip, size := size }
  | .strip => some { s with point := .whileShort, pkt := s.pkt.drop 5 }
  | .whileShort =>
    some { s with point := if s.pkt.length < s.size then .recvMore else .write }
  | .recvMore =>
    match s.chunks with
    | [] => none
    | c :: chunks => some { s with point := .whileShort, pkt := s.pkt ++ c, chunks := chunks }
  | .write =>
    some { s with point := .remove, written := s.written ++ [s.pkt.take s.size] }
  | .remove => some { s with point := .recv, pkt := s.pkt.drop s.size }

end Socket2tun

end SantaOS
