import Mathlib.Data.List.Forall2
import SantaOS.BridgeSound
import SantaOS.KernelSound

/-!
# SantaOS.KernelRun

Runs of the whole kernel: what it sends (`kernelMain_sends`), what its screen shows and
that the screen tells what was sent (`kernelMain_screen`), and that the kernel of the
bridge is this one (`bridge_polled`). The assumptions are those of the serial driver,
`Attached`, and that a string lies at the address printed for the UART's model, below the
screen.

Proof shape: `kernelMain_models` brings each run of the polled kernel back to a run of its
network model, so what is sent is what the model writes (`eventually_sent`). A message is
*announcing* when a packet goes out behind it; on one frame the messages announce exactly
the packet sent (`announced_serverSays`), and the transcript follows by induction on the
frames.

Design points:
* The device is any with the line of `Attached`; `Uart16550A`, with a receiver and a
  transmitter that keep the kernel polling, is one.
* Fuel is universal from some amount on (`∀ᶠ fuel in atTop`), as the waiting loops of the
  source have no bound of their own.
-/

namespace SantaOS

open Memory Waiting Reactive TextRows Filter Uart Pipeline

/-! ### A UART -/

/-- A 16550A with a line. It answers `busy` questions before it is ready again. -/
structure Uart16550A where
  incoming : List UInt8
  sent : List UInt8
  scratch : UInt8
  busy : Nat

namespace Uart16550A

/-- Reading a port. A byte read keeps the device busy. -/
def inb (port : UInt16) (d : Uart16550A) : UInt8 × Uart16550A :=
  if port = PORT then
    match d.incoming with
    | [] => (0, d)
    | b :: incoming => (b, { d with incoming := incoming, busy := 2 })
  else if port = PORT + 2 then (0xC1, d)
  else if port = PORT + 5 then
    match d.busy with
    | 0 => (if d.incoming = [] then 0x60 else 0x61, d)
    | n + 1 => (0, { d with busy := n })
  else if port = PORT + 7 then (d.scratch, d)
  else (0xFF, d)

/-- Writing a port. A byte sent keeps the device busy. -/
def outb (port : UInt16) (val : UInt8) (d : Uart16550A) : Uart16550A :=
  if port = PORT then { d with sent := d.sent ++ [val], busy := 2 }
  else if port = PORT + 7 then { d with scratch := val }
  else d

/-- The ports of the 16550A. -/
def ports : Ports Uart16550A where
  outb := outb
  inb := inb

theorem status_of_busy {d : Uart16550A} (h : d.busy = 0) :
    status ports d = (if d.incoming = [] then 0x60 else 0x61) ∧ poll ports d = d := by
  simp [status, poll, ports, inb, PORT, h]

theorem poll_of_busy {d : Uart16550A} {n : Nat} (h : d.busy = n + 1) :
    status ports d = 0 ∧ poll ports d = { d with busy := n } := by
  simp [status, poll, ports, inb, PORT, h]

theorem iterate_poll (d : Uart16550A) : (poll ports)^[d.busy] d = { d with busy := 0 } := by
  obtain ⟨incoming, sent, scratch, busy⟩ := d
  induction busy with
  | zero => rfl
  | succ n ih => rwa [Function.iterate_succ_apply, (poll_of_busy rfl).2]

theorem attached : Attached ports incoming sent := by
  have hpoll (d : Uart16550A) :
      (poll ports d).incoming = d.incoming ∧ (poll ports d).sent = d.sent := by
    cases hbusy : d.busy with
    | zero => simp [(status_of_busy hbusy).2]
    | succ n => simp [(poll_of_busy hbusy).2]
  have hready {d : Uart16550A} {mask : UInt8} (h : status ports d &&& mask ≠ 0) : d.busy = 0 := by
    cases hbusy : d.busy with
    | zero => rfl
    | succ n => simp [(poll_of_busy hbusy).1] at h
  refine ⟨fun d => (hpoll d).1, fun d => (hpoll d).2, fun d h => ?_, fun d h => ⟨d.busy, ?_⟩,
    fun d a h => ?_, fun d => ⟨d.busy, ?_⟩⟩
  · obtain ⟨hstatus, hd⟩ := status_of_busy (hready h)
    rw [hstatus] at h
    rw [hd]
    cases hline : d.incoming with
    | nil =>
      rw [if_pos hline] at h
      exact absurd (by decide) h
    | cons b rest => simp [ports, inb, hline]
  · rw [iterate_poll, (status_of_busy rfl).1, if_neg h]
    decide
  · rw [(status_of_busy (hready h)).2]
    simp [ports, outb]
  · rw [iterate_poll, (status_of_busy rfl).1]
    split <;> decide

end Uart16550A

/-- A computer that has just been started. -/
def idlePc (incoming : List UInt8) : Pc Uart16550A where
  uart := ⟨incoming, [], 0, 2⟩
  tty := ⟨0, 0, 0, 0, .filled 0⟩
  inRawBuf := .filled 0
  dataPkt := .filled 0
  dataPktSz := 0
  stack := .filled 0

theorem modelString_idlePc (incoming : List UInt8) :
    ModelString (idlePc incoming) .uart16550A [] where
  isString := rfl
  below := by decide

/-! ### What the messages tell -/

/-- The flags and the payload of the packet that a message announces. -/
def announced : Message → Option (UInt8 × List UInt8)
  | .preparingSynAck => some (FLAG_SYN ||| FLAG_ACK, [])
  | .htmlResponse => some (FLAG_ACK, htmlData)
  | .startingClose => some (FLAG_FIN, [])
  | .finalAck => some (FLAG_ACK, [])
  | _ => none

/-- The packet is a reply with these flags and this payload. -/
def IsReply (a : UInt8 × List UInt8) (raw : List UInt8) : Prop :=
  ∃ ip tcp, raw = reply ip tcp a.1 a.2

/-- Nothing is announced about a dropped frame. -/
theorem announced_complaint (buf : Ptr UInt8) (sz : Int) :
    (complaint buf sz).filterMap announced = [] := by
  simp only [complaint]
  split_ifs <;> rfl

/-- What the server says is what it does. -/
theorem announced_serverSays (site : Site) (a : Arrival) :
    List.Forall₂ IsReply ((serverSays site a).filterMap announced)
      (serverStep site a).2.toList := by
  cases a with
  | dropped sz => cases site <;> exact .nil
  | segment ip tcp =>
    cases site with
    | syn =>
      rw [serverSays, serverStep]
      split
      · exact .cons ⟨ip, tcp, rfl⟩ .nil
      · exact .nil
    | handshakeAck =>
      rw [serverSays, serverStep]
      split <;> exact .nil
    | request => exact .cons ⟨ip, tcp, rfl⟩ .nil
    | responseAck => exact .cons ⟨ip, tcp, rfl⟩ .nil
    | fin =>
      rw [serverSays, serverStep]
      split
      · exact .cons ⟨ip, tcp, rfl⟩ .nil
      · exact .nil

/-- The transcript announces exactly the packets sent, in their order. -/
theorem transcript_announces (buf : Ptr UInt8) (ps : List (List UInt8)) :
    List.Forall₂ IsReply ((transcript .syn buf ps).filterMap announced) (answers buf ps) := by
  rw [answers]
  generalize Site.syn = site
  induction ps generalizing site buf with
  | nil => exact .nil
  | cons p ps ih =>
    have houts (o : Option (List UInt8)) :
        outs (outputs o : List Event) = o.toList := by cases o <;> rfl
    rw [transcript, arrivals, trace_cons, outs_input, outs_append, houts, List.filterMap_append,
      List.filterMap_append, announced_complaint, List.nil_append]
    exact List.rel_append (announced_serverSays site _) (ih _ _)

/-! ### What the kernel sends and shows -/

/-- The screen shows the last rows of the layout of this text. -/
def Displays (m : Mem UInt8) (w : List Int8) : Prop :=
  ∀ y < VGA_HEIGHT, ∀ x < VGA_WIDTH, loadCell m VGA_MEMORY (y * VGA_WIDTH + x) =
    vgaEntry (charAt spaceChar (screenRows w) y x).toUInt8 (vgaEntryColor .lightGrey .black)

theorem Follows.displays {mem : Mem UInt8} {t : Tty} {w : List Int8}
    (h : Follows mem t (typed w)) : Displays t.memory w := by
  intro y hy x hx
  have hrows := rows_type (show 0 < 80 by decide) newlineChar w
  rw [screenRows, charAt_drop, show VGA_WIDTH = 80 from rfl, ← hrows, Page.rows]
  have hlength : ((typed w).above ++ [(typed w).last]).length = (typed w).above.length + 1 :=
    List.length_append
  rw [show w.foldl (Page.type newlineChar) (Page.empty (show 0 < 80 by decide)) = typed w from rfl,
    hlength, show (typed w).above.length + 1 - VGA_HEIGHT = (typed w).above.length - 24 from
      Nat.add_sub_add_right _ 1 24]
  exact h.1.cells y hy x hx

section Run

variable {δ : Type} {io : Ports δ} {rx tx : δ → List UInt8} (hline : Attached io rx tx)
  {pc : Pc δ} {model : UartModel} {connected : Bool} {d : δ}
  (hstart : (startUart io).run pc.uart = ((model, connected), d)) {s : List Int8}
  (hs : ModelString pc model s)

include hline hstart hs

/-- What the polled kernel has sent when it waits is what its model writes. -/
theorem eventually_sent {m : Machine} (hm : m.inRawBuf.cells = pc.inRawBuf.cells) :
    ∀ᶠ fuel in atTop, ∃ pc', (Pc.kernelMain io fuel).run pc = .error .waiting pc' ∧
      rx pc'.uart = [] ∧ tx pc'.uart = tx d ++ kernelOutput m (rx d) := by
  obtain ⟨m', hrun, hmodels⟩ := kernelMain_models hline hstart hs
  obtain ⟨m'', hrun', hout⟩ := kernelMain_output (pc.machine rx tx d)
  obtain rfl : m' = m'' := (EStateM.Result.error.inj (hrun.symm.trans hrun')).2
  rw [kernelOutput_eq, hm]
  refine hmodels.mono fun fuel ⟨pc', hpc', hm'⟩ => ⟨pc', hpc', ?_, hm'.output.trans hout⟩
  rw [hm'.input, kernelMain_input hrun]

/-- **The kernel on the polled UART** takes all the bytes of the line and sends the frames of
its answers, nothing else. -/
theorem kernelMain_sends :
    ∀ᶠ fuel in atTop, ∃ pc', (Pc.kernelMain io fuel).run pc = .error .waiting pc' ∧
      rx pc'.uart = [] ∧
      tx pc'.uart = tx d ++ (answers pc.inRawBuf.cells (frames (rx d))).flatMap frame := by
  have hsent := eventually_sent hline hstart hs (m := pc.machine rx tx d) rfl
  rw [kernelOutput_eq] at hsent
  exact hsent

/-- **The kernel of the bridge is the polled one.** At each point of each run of the bridge,
a computer whose line brings the bytes that the bridge's kernel has read sends what that has
written, and nothing more once the bridge is at rest. -/
theorem bridge_polled {mtu : Nat} {m : Machine} {read written : List (List UInt8)}
    {c : BridgeState} (h : Run (bridge mtu m) read written c)
    (hm : m.inRawBuf.cells = pc.inRawBuf.cells) (hrx : rx d = c.kernel.read) :
    ∀ᶠ fuel in atTop, ∃ pc', (Pc.kernelMain io fuel).run pc = .error .waiting pc' ∧
      rx pc'.uart = [] ∧ tx d ++ c.kernel.written <+: tx pc'.uart ∧
      ((bridge mtu m).AtRest c → tx pc'.uart = tx d ++ c.kernel.written) := by
  obtain ⟨output, hfront, -⟩ := h.pipe
  obtain ⟨input, -, hkernel⟩ := hfront.pipe
  obtain ⟨hread, hwritten, hprefix⟩ := run_kernelStage hkernel
  have hkernelOutput : c.kernel.written <+: kernelOutput m (rx d) := by
    rw [hrx, show c.kernel.read = input from hread, show c.kernel.written = _ from hwritten]
    exact hprefix
  refine (eventually_sent hline hstart hs hm).mono fun fuel ⟨pc', hrun, hempty, hsent⟩ =>
    ⟨pc', hrun, hempty, ?_, fun hrest => ?_⟩
  · rw [hsent]
    exact (List.prefix_append_right_inj _).mpr hkernelOutput
  · have hfrontRest := (h.pipe_atRest hrest socket2tunStage_receptive).1
    have hkernelRest := (hfront.pipe_atRest hfrontRest (kernelStage_receptive m)).2.2
    have hall := written_of_atRest hkernel hkernelRest
    rw [hsent, hrx, show c.kernel.read = input from hread, ← hall, ← hwritten]
    rfl

/-- **The screen tells what is sent.** It shows the end of the text, no other byte of memory
has changed, and the packets announced in the text are those that were sent. -/
theorem kernelMain_screen :
    ∀ᶠ fuel in atTop, ∃ pc', (Pc.kernelMain io fuel).run pc = .error .waiting pc' ∧
      Displays pc'.tty.memory (consoleText s connected pc.inRawBuf.cells (frames (rx d))) ∧
      (∀ a, ¬ OnScreen a → pc'.tty.memory.cells a = pc.tty.memory.cells a) ∧
      ∃ raws, tx pc'.uart = tx d ++ raws.flatMap frame ∧
        List.Forall₂ IsReply
          ((transcript .syn pc.inRawBuf.cells (frames (rx d))).filterMap announced) raws := by
  obtain ⟨m', hrun, hmodels⟩ := kernelMain_models hline hstart hs
  obtain ⟨m'', hrun', hout⟩ := kernelMain_output (pc.machine rx tx d)
  obtain rfl : m' = m'' := (EStateM.Result.error.inj (hrun.symm.trans hrun')).2
  refine hmodels.mono fun fuel ⟨pc', hpc', hm'⟩ => ⟨pc', hpc', hm'.screen.displays, ?_, ?_⟩
  · exact fun a ha => hm'.traced.cells_eq hm'.screen.2 ha
  · exact ⟨_, hm'.output.trans hout, transcript_announces _ _⟩

end Run

theorem frames_synPacket : frames (frame synPacket) = [synPacket] := by
  have h := frames_flatMap [synPacket] (by decide)
  rwa [List.flatMap_singleton] at h

/-- A SYN comes in, the SYN/ACK is sent. -/
theorem kernelMain_sends_syn :
    ∀ᶠ fuel in atTop, ∃ pc', (Pc.kernelMain Uart16550A.ports fuel).run
        (idlePc (frame synPacket)) = .error .waiting pc' ∧
      pc'.uart.incoming = [] ∧
      pc'.uart.sent = frame (reply (synIp 0x0A000001) synTcp (FLAG_SYN ||| FLAG_ACK) []) := by
  have hsends := kernelMain_sends Uart16550A.attached
    (show (startUart Uart16550A.ports).run (idlePc (frame synPacket)).uart =
      ((.uart16550A, true), ⟨frame synPacket, [], 0xBA, 2⟩) from rfl)
    (modelString_idlePc (frame synPacket))
  have hanswers : answers (idlePc (frame synPacket)).inRawBuf.cells [synPacket] = _ :=
    answers_synPacket
  simp only [frames_synPacket, hanswers, List.flatMap_singleton, List.nil_append] at hsends
  exact hsends

/-- A SYN goes through the bridge, and the computer with the same bytes on its line sends what
the bridge's kernel has written. -/
theorem bridge_polled_syn :
    ∃ written c, Run (bridge 1500 (.boot [])) [synPacket] written c ∧
      ∀ᶠ fuel in atTop, ∃ pc', (Pc.kernelMain Uart16550A.ports fuel).run
          (idlePc (frame synPacket)) = .error .waiting pc' ∧
        pc'.uart.sent = c.kernel.written := by
  obtain ⟨written, c, hrun, hrest⟩ := exists_run 1500 (.boot []) [synPacket] (by decide)
  have hread : frame synPacket = c.kernel.read := by
    rw [(bridge_atRest hrun.run hrest).kernel, List.flatMap_singleton]
  have hpolled := bridge_polled Uart16550A.attached
    (show (startUart Uart16550A.ports).run (idlePc (frame synPacket)).uart =
      ((.uart16550A, true), ⟨frame synPacket, [], 0xBA, 2⟩) from rfl)
    (modelString_idlePc (frame synPacket)) hrun.run rfl hread
  exact ⟨written, c, hrun.run, hpolled.mono fun fuel ⟨pc', hpc', _, _, hsent⟩ =>
    ⟨pc', hpc', hsent hrest⟩⟩

/-- A computer with a BIOS, whose first interrupt vector is `F000:FF53`: a string of one
character lies at the address 1. -/
def biosPc (incoming : List UInt8) : Pc Uart16550A :=
  { idlePc incoming with
    tty := ⟨0, 0, 0, 0, ⟨Ptr.ofList [0x53, 0xFF, 0x00, 0xF0], []⟩⟩ }

theorem modelString_biosPc (incoming : List UInt8) :
    ModelString (biosPc incoming) .uart16550A [-1] where
  isString := ⟨rfl, by decide, rfl⟩
  below := by decide

/-- A SYN comes in. The screen greets, tells of the UART and of the SYN/ACK, and one packet
with these flags is sent. -/
theorem kernelMain_screen_syn :
    ∀ᶠ fuel in atTop, ∃ pc', (Pc.kernelMain Uart16550A.ports fuel).run
        (biosPc (frame synPacket)) = .error .waiting pc' ∧
      Displays pc'.tty.memory (chars "Hello, Unikernel World!\nUART model " ++ [-1] ++
        chars ("\nSerial looks connected!\nwaiting for a new 3-way handshake\n" ++
          "preparing SYN/ACK response\n")) ∧
      ∃ raw, pc'.uart.sent = frame raw ∧ IsReply (FLAG_SYN ||| FLAG_ACK, []) raw := by
  have hscreen := kernelMain_screen Uart16550A.attached
    (show (startUart Uart16550A.ports).run (biosPc (frame synPacket)).uart =
      ((.uart16550A, true), ⟨frame synPacket, [], 0xBA, 2⟩) from rfl)
    (modelString_biosPc (frame synPacket))
  have htranscript : transcript .syn (biosPc (frame synPacket)).inRawBuf.cells [synPacket] =
      [.preparingSynAck] := by decide +kernel
  have htext : startUpText [-1] true ++ said [.waitingHandshake, .preparingSynAck] =
      chars "Hello, Unikernel World!\nUART model " ++ [-1] ++
        chars ("\nSerial looks connected!\nwaiting for a new 3-way handshake\n" ++
          "preparing SYN/ACK response\n") := by decide +kernel
  simp only [frames_synPacket, consoleText, htranscript, htext] at hscreen
  refine hscreen.mono fun fuel hfuel => ?_
  obtain ⟨pc', hrun, hcells, -, raws, hsent, hraws⟩ := hfuel
  -- one packet is announced, so one is sent
  obtain ⟨raw, rest, hreply, hrest, rfl⟩ := List.forall₂_cons_left_iff.mp hraws
  obtain rfl := List.forall₂_nil_left_iff.mp hrest
  exact ⟨pc', hrun, hcells, raw, by simpa using hsent, hreply⟩

end SantaOS
