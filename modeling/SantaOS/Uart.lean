import Mathlib.Logic.Function.Iterate
import SantaOS.Lib.Refinement

/-!
# SantaOS.Uart

The serial driver, `serial.c`, over the port instructions of `asm.c`. The device behind
the ports is a parameter: a type `δ` of its states and what `inb` and `outb` do to them.
The functions that do not wait are in `StateM δ`; `read_serial` and `write_serial` ask the
line status register until it shows that they can go on.

`Attached` is what the driver relies on: a UART at the other end of which there is a line.
`rx` are the bytes that the line will still bring, whether they have come or not, and `tx`
the bytes that were sent. That no byte is lost because the kernel is slow is part of it.
-/

namespace SantaOS

open Waiting Filter

/-- `enum uart_model`. -/
inductive UartModel
  | uart16750 | uart16550A | uart16450 | uart8250
  deriving DecidableEq, Repr

/-- The value of an enumerator. `kernel_main` prints it as if it were a string. -/
def UartModel.value : UartModel → Nat
  | .uart16750 => 0
  | .uart16550A => 1
  | .uart16450 => 2
  | .uart8250 => 3

/-- COM1 -/
def PORT : UInt16 := 0x3F8

/-- A device behind the I/O ports. -/
structure Ports (δ : Type) where
  outb : UInt16 → UInt8 → δ → δ
  inb : UInt16 → δ → UInt8 × δ

namespace Uart

variable {δ α : Type} (io : Ports δ)

/-! ### The driver -/

/-- The port instruction `out`. -/
def outb (port : UInt16) (val : UInt8) : StateM δ Unit := modify (io.outb port val)

/-- The port instruction `in`. -/
def inb (port : UInt16) : StateM δ UInt8 := modifyGet (io.inb port)

/-- `detect_uart_model`: the FIFO bits tell the newer models, a scratch register the others.
Without the bit `0x80` the answer is again `uart16750`. -/
def detectUartModel : StateM δ UartModel := do
  outb io (PORT + 2) 0xE7 -- FIFO Control Register
  let b ← inb io (PORT + 2) -- Interrupt Identification Register
  if b &&& 0x40 ≠ 0 then
    if b &&& 0x80 ≠ 0 then
      if b &&& 0x20 ≠ 0 then
        return .uart16750
      else
        return .uart16550A
    else
      return .uart16750
  else
    outb io (PORT + 7) 0x2A -- Scratch Register
    if (← inb io (PORT + 7)) = 0x2A then
      return .uart16450
    else
      return .uart8250

/-- `serial_received`: the bit of the line status that says a byte has come. -/
def serialReceived : StateM δ UInt8 := do
  return (← inb io (PORT + 5)) &&& 1

/-- `is_transmit_empty`: the bit of the line status that says a byte can be sent. -/
def isTransmitEmpty : StateM δ UInt8 := do
  return (← inb io (PORT + 5)) &&& 0x20

/-- `is_serial_connected`: whether the scratch register keeps what is written to it. -/
def isSerialConnected : StateM δ Bool := do
  -- write in scratch register
  outb io (PORT + 7) 0xBA
  -- read from scratch register
  let b ← inb io (PORT + 7)
  return b = 0xBA

/-- A function that does not wait, as a program that may. -/
def liftState (x : StateM δ α) : Prog δ α := modifyGet x.run

/-- `while (test() == 0);` -/
def busyWait (test : StateM δ UInt8) (fuel : Nat) : Prog δ Unit :=
  loop (fun (_ : Unit) => do
    if (← liftState test) = 0 then return .inr () else return .inl ()) fuel ()

/-- `read_serial`: polls until a byte has come, and reads it. -/
def readSerial (fuel : Nat) : Prog δ Int8 := do
  busyWait (serialReceived io) fuel
  return (← liftState (inb io PORT)).toInt8

/-- `write_serial`: polls until the transmitter is empty, and sends a byte. -/
def writeSerial (fuel : Nat) (a : Int8) : Prog δ Unit := do
  busyWait (isTransmitEmpty io) fuel
  liftState (outb io PORT a.toUInt8)

/-! ### Waiting for the device -/

/-- The device after the line status register has been read. -/
def poll (d : δ) : δ := (io.inb (PORT + 5) d).2

/-- The line status register. -/
def status (d : δ) : UInt8 := (io.inb (PORT + 5) d).1

theorem run_serialReceived (d : δ) :
    (serialReceived io).run d = (status io d &&& 1, poll io d) := rfl

theorem run_isTransmitEmpty (d : δ) :
    (isTransmitEmpty io).run d = (status io d &&& 0x20, poll io d) := rfl

theorem run_liftState (x : StateM δ α) (d : δ) :
    (liftState x).run d = .ok (x.run d).1 (x.run d).2 := rfl

section BusyWait

variable {io} {test : StateM δ UInt8} {mask : UInt8}
  (htest : ∀ d, test.run d = (status io d &&& mask, poll io d))

include htest

/-- One question to the device. -/
theorem run_busyWait_pass (d : δ) :
    (do if (← liftState test) = 0 then return .inr () else return .inl () :
      Prog δ (Unit ⊕ Unit)).run d =
      .ok (if status io d &&& mask = 0 then .inr () else .inl ()) (poll io d) := by
  rw [EStateM.run_bind, run_liftState, htest]
  dsimp only
  split <;> rfl

/-- A device that says yes after some questions is waited for; the one answered with yes is
put to the device in the state `(poll io)^[n] d`. -/
theorem eventually_busyWait {d : δ} (h : ∃ n, status io ((poll io)^[n] d) &&& mask ≠ 0) :
    ∃ n, status io ((poll io)^[n] d) &&& mask ≠ 0 ∧
      ∀ᶠ fuel in atTop, (busyWait test fuel).run d = .ok () (poll io ((poll io)^[n] d)) := by
  classical
  refine ⟨Nat.find h, Nat.find_spec h, ?_⟩
  refine eventually_loop_exit (n := Nat.find h) (fun i => (poll io)^[i] d) rfl
    (fun i hi => ?_) ?_
  · have hzero := not_not.mp (Nat.find_min h hi)
    rw [run_busyWait_pass htest, if_pos hzero, Function.iterate_succ_apply']
  · rw [run_busyWait_pass htest, if_neg (Nat.find_spec h)]

/-- A device that always says no keeps the driver waiting. -/
theorem run_busyWait_waits {I : δ → Prop} (h : ∀ d, I d → status io d &&& mask = 0 ∧ I (poll io d))
    (fuel : Nat) {d : δ} (hd : I d) :
    ∃ d', (busyWait test fuel).run d = .error .waiting d' ∧ I d' := by
  refine run_loop_waits (fun b d hd => ⟨(), poll io d, ?_, (h d hd).2⟩) fuel () hd
  rw [run_busyWait_pass htest, if_pos (h d hd).1]

end BusyWait

/-! ### The line -/

/-- The device is a UART attached to a line. -/
structure Attached (rx tx : δ → List UInt8) : Prop where
  /-- Reading the status leaves the line alone. -/
  poll_rx : ∀ d, rx (poll io d) = rx d
  poll_tx : ∀ d, tx (poll io d) = tx d
  /-- With data ready, the next byte of the line is read. -/
  received : ∀ d, status io d &&& 1 ≠ 0 → ∃ b, rx d = b :: rx (io.inb PORT (poll io d)).2 ∧
    (io.inb PORT (poll io d)).1 = b ∧ tx (io.inb PORT (poll io d)).2 = tx d
  /-- Bytes that the line will bring come in the end. -/
  arrives : ∀ d, rx d ≠ [] → ∃ n, status io ((poll io)^[n] d) &&& 1 ≠ 0
  /-- With the transmitter empty, a byte is sent. -/
  sent : ∀ d a, status io d &&& 0x20 ≠ 0 → rx (io.outb PORT a (poll io d)) = rx d ∧
    tx (io.outb PORT a (poll io d)) = tx d ++ [a]
  /-- The transmitter is empty in the end. -/
  empties : ∀ d, ∃ n, status io ((poll io)^[n] d) &&& 0x20 ≠ 0

section Attached

variable {io} {rx tx : δ → List UInt8} (h : Attached io rx tx)

include h

theorem Attached.iterate_poll (n : Nat) (d : δ) :
    rx ((poll io)^[n] d) = rx d ∧ tx ((poll io)^[n] d) = tx d := by
  induction n with
  | zero => exact ⟨rfl, rfl⟩
  | succ n ih =>
    rw [Function.iterate_succ_apply', h.poll_rx, h.poll_tx]
    exact ih

/-- `read_serial` takes the next byte off the line. -/
theorem Attached.eventually_readSerial {d : δ} {b : UInt8} {rest : List UInt8}
    (hd : rx d = b :: rest) :
    ∃ d', (∀ᶠ fuel in atTop, (readSerial io fuel).run d = .ok b.toInt8 d') ∧
      rx d' = rest ∧ tx d' = tx d := by
  obtain ⟨n, hready, hwait⟩ :=
    eventually_busyWait (run_serialReceived io) (h.arrives d (by rw [hd]; simp))
  obtain ⟨hrx, htx⟩ := h.iterate_poll n d
  obtain ⟨c, hline, hc, hsent⟩ := h.received _ hready
  rw [hrx, hd] at hline
  obtain ⟨rfl, hrest⟩ := List.cons_eq_cons.mp hline
  refine ⟨_, hwait.mono fun fuel hfuel => ?_, hrest.symm, hsent.trans htx⟩
  rw [readSerial, EStateM.run_bind, hfuel, ← hc]
  rfl

/-- On an empty line `read_serial` waits, and the line stays as it is. -/
theorem Attached.readSerial_waits {d : δ} (hd : rx d = []) (fuel : Nat) :
    ∃ d', (readSerial io fuel).run d = .error .waiting d' ∧ rx d' = rx d ∧ tx d' = tx d := by
  have hnever (d' : δ) (hd' : rx d' = rx d ∧ tx d' = tx d) : status io d' &&& 1 = 0 := by
    by_contra hready
    obtain ⟨b, hline, -⟩ := h.received d' hready
    rw [hd'.1, hd] at hline
    cases hline
  obtain ⟨d', hrun, hd'⟩ := run_busyWait_waits (run_serialReceived io)
    (I := fun d' => rx d' = rx d ∧ tx d' = tx d)
    (fun d' hd' => ⟨hnever d' hd', (h.poll_rx d').trans hd'.1, (h.poll_tx d').trans hd'.2⟩)
    fuel ⟨rfl, rfl⟩
  exact ⟨d', by rw [readSerial, EStateM.run_bind, hrun], hd'⟩

/-- `write_serial` sends its byte. -/
theorem Attached.eventually_writeSerial (d : δ) (a : Int8) :
    ∃ d', (∀ᶠ fuel in atTop, (writeSerial io fuel a).run d = .ok () d') ∧
      rx d' = rx d ∧ tx d' = tx d ++ [a.toUInt8] := by
  obtain ⟨n, hready, hwait⟩ := eventually_busyWait (run_isTransmitEmpty io) (h.empties d)
  obtain ⟨hrx, htx⟩ := h.iterate_poll n d
  obtain ⟨hline, hsent⟩ := h.sent _ a.toUInt8 hready
  refine ⟨_, hwait.mono fun fuel hfuel => ?_, hline.trans hrx, ?_⟩
  · rw [writeSerial, EStateM.run_bind, hfuel]
    rfl
  · rw [← htx]
    exact hsent

end Attached

end Uart

end SantaOS
