import SantaOS.Console

/-!
# SantaOS.KernelSound

The whole kernel refines its network model. `Models` relates the computer to the machine
of `SantaOS.Serial`: the line behind the UART is the machine's line, the objects are the
machine's, and the screen shows the text printed so far.

Proof shape: functions that print nothing keep `Models` (`sendReply_refines` is the last
of them). From `nextTcpIpPacket` on the relation is `Telling A`, where `A` says which
frames have been dealt with and that the text is the transcript of these; one refinement
for each function moves from one such `A` to the next.

Design points:
* Both levels are `Refines` of `Lib.Refinement`, with the relation `Models` or `Telling A`, so
  that the same rules for sequences and loops serve them.
* What the model's triples say of the machine is carried over, not proved again
  (`telling_of_triple`).
* The string printed for the UART's model lies below the screen (`ModelString`): it is read
  after the greeting has been written.
-/

namespace SantaOS

open Memory Waiting Reactive TextRows Filter Uart

/-- The page with this text. -/
def typed (text : List Int8) : Page Int8 80 :=
  text.foldl (Page.type newlineChar) (Page.empty (show 0 < 80 by decide))

theorem typed_append (a b : List Int8) :
    typed (a ++ b) = b.foldl (Page.type newlineChar) (typed a) :=
  List.foldl_append

variable {δ : Type} {io : Ports δ} {rx tx : δ → List UInt8}

/-- The computer is the machine, with the text `w` on its screen; `mem` is the physical
memory at the start. -/
structure Models (rx tx : δ → List UInt8) (mem : Mem UInt8) (w : List Int8) (m : Machine)
    (pc : Pc δ) : Prop where
  input : rx pc.uart = m.input
  output : tx pc.uart = m.output
  inRawBuf : pc.inRawBuf = m.inRawBuf
  dataPkt : pc.dataPkt = m.dataPkt
  dataPktSz : pc.dataPktSz = m.dataPktSz
  stack : pc.stack = m.stack
  screen : Follows mem pc.tty (typed w)
  traced : Mem.Traced mem pc.tty.memory

section Models

variable {mem : Mem UInt8} {w : List Int8} {m m' : Machine} {pc : Pc δ}
  (h : Models rx tx mem w m pc)

include h

theorem Models.type (text : List Int8) : Models rx tx mem (w ++ text) m (pc.type text) where
  input := h.input
  output := h.output
  inRawBuf := h.inRawBuf
  dataPkt := h.dataPkt
  dataPktSz := h.dataPktSz
  stack := h.stack
  screen := by
    rw [typed_append]
    exact h.screen.writeText text
  traced := writeText_traced h.traced text

end Models

/-! ### The serial line -/

/-- The program prints nothing and does to the computer what `y` does to the machine. -/
abbrev Keeping (rx tx : δ → List UInt8) (mem : Mem UInt8) (w : List Int8) {α : Type}
    (x : Nat → Prog (Pc δ) α) (y : Kernel α) : Prop :=
  Refines (Models rx tx mem w) x y (fun _ => Models rx tx mem w) (Models rx tx mem w)

section Line

variable (hline : Attached io rx tx) (mem : Mem UInt8) (w : List Int8)

include hline

theorem readSerial_refines : Keeping rx tx mem w (Pc.readSerial io) readSerial := by
  constructor
  intro m pc h
  rw [run_readSerial]
  have hrx := h.input
  cases hm : m.input with
  | nil =>
    rw [hm] at hrx
    refine .error (.of_forall fun fuel => ?_)
    obtain ⟨d, hrun, hd, hd'⟩ := hline.readSerial_waits hrx fuel
    refine ⟨{ pc with uart := d }, ?_,
      { h with input := hd.trans h.input, output := hd'.trans h.output }⟩
    show Pc.onUart _ pc = _
    rw [Pc.onUart, show Uart.readSerial io fuel pc.uart = _ from hrun]
  | cons b rest =>
    rw [hm] at hrx
    obtain ⟨d, hrun, hd, hd'⟩ := hline.eventually_readSerial hrx
    refine .ok (t := { pc with uart := d }) (hrun.mono fun fuel hfuel => ?_)
      { h with input := hd, output := hd'.trans h.output }
    show Pc.onUart _ pc = _
    rw [Pc.onUart, show Uart.readSerial io fuel pc.uart = _ from hfuel]

theorem writeSerial_refines (a : Int8) :
    Keeping rx tx mem w (fun fuel => Pc.writeSerial io fuel a) (writeSerial a) := by
  constructor
  intro m pc h
  rw [run_writeSerial]
  obtain ⟨d, hrun, hd, hd'⟩ := hline.eventually_writeSerial pc.uart a
  refine .ok (t := { pc with uart := d }) (hrun.mono fun fuel hfuel => ?_)
    { h with input := hd.trans h.input, output := by rw [hd', h.output] }
  show Pc.onUart _ pc = _
  rw [Pc.onUart, show Uart.writeSerial io fuel a pc.uart = _ from hfuel]

theorem searchMagic_refines (s : List Int8) :
    Keeping rx tx mem w (fun fuel => Pc.searchMagic io fuel s) (searchMagic s) :=
  Refines.ite
    (fun _ => (readSerial_refines hline mem w).bind fun _ => Refines.pure _ fun _ _ h => h)
    fun _ => Refines.pure _ fun _ _ h => h

theorem storeNext_refines (i : Nat) :
    Keeping rx tx mem w (fun fuel => Pc.storeNext io fuel i) (storeNext i) := by
  refine (readSerial_refines hline mem w).bind fun c => ⟨fun m pc h => ?_⟩
  exact .ok (.of_forall fun _ => rfl)
    { h with inRawBuf := congrArg (fun buf : Mem UInt8 => buf.store i c.toUInt8) h.inRawBuf }

theorem readRawPacket_refines : Keeping rx tx mem w (Pc.readRawPacket io) readRawPacket := by
  refine Refines.bind (Q := fun _ => Models rx tx mem w) ?_ fun _ => ?_
  · refine Refines.loop (I := fun _ => Models rx tx mem w) searchMagic_consumes (fun s => ?_) _
    refine (searchMagic_refines hline mem w s).imp (fun _ _ h => h) (fun r _ _ h => ?_)
      fun _ _ h => h
    cases r <;> exact h
  refine (readSerial_refines hline mem w).bind fun hi => ?_
  refine (readSerial_refines hline mem w).bind fun lo => ?_
  refine (Refines.times (storeNext_refines hline mem w) _).bind fun _ => ?_
  exact Refines.pure _ fun _ _ h => h

theorem sendRawPacket_refines (buf : Ptr UInt8) (bufSz : Int) :
    Keeping rx tx mem w (fun fuel => Pc.sendRawPacket io fuel buf bufSz)
      (sendRawPacket buf bufSz) := by
  have hwrite := writeSerial_refines hline mem w
  refine (Refines.times (fun i => hwrite _) _).bind fun _ => ?_
  refine (hwrite _).bind fun _ => (hwrite _).bind fun _ => ?_
  -- the model logs the packet
  exact (Refines.times (fun i => hwrite _) _).ghost fun _ m pc h => ⟨_, rfl, { h with }⟩

theorem sendReply_refines (lastIp : IPFields) (lastTcp : TCPFields) (flags : UInt8) :
    Keeping rx tx mem w (fun fuel => Pc.sendReply io fuel lastIp lastTcp flags)
      (sendReply lastIp lastTcp flags) := by
  refine Refines.get fun m pc h => ?_
  rw [h.stack]
  refine (sendRawPacket_refines hline mem w _ _).imp ?_ (fun _ _ _ h => h) fun _ _ h => h
  rintro _ _ ⟨rfl, rfl⟩
  exact h

end Line

/-! ### What has been told -/

/-- The computer is the machine, and its screen shows a text that satisfies `A` with it. -/
def Telling (rx tx : δ → List UInt8) (mem : Mem UInt8) (A : List Int8 → Machine → Prop)
    (m : Machine) (pc : Pc δ) : Prop :=
  ∃ w, Models rx tx mem w m pc ∧ A w m

section Telling

variable {mem : Mem UInt8} {α : Type} {A B C : List Int8 → Machine → Prop}

/-- What the model's triple says of the machine holds where nothing is printed. -/
theorem telling_of_triple {x : Nat → Prog (Pc δ) α} {y : Kernel α}
    {B : α → List Int8 → Machine → Prop} (hx : ∀ w, Keeping rx tx mem w x y)
    (hy : ∀ w, Triple (A w) y (fun a => B a w) (C w)) :
    Refines (Telling rx tx mem A) x y (fun a => Telling rx tx mem (B a))
      (Telling rx tx mem C) := by
  constructor
  rintro m pc ⟨w, hm, ha⟩
  exact (((hx w).and_triple (hy w)).run m pc ⟨hm, ha⟩).imp (fun _ _ _ h => ⟨w, h⟩)
    fun _ _ h => ⟨w, h⟩

/-- A message. -/
theorem telling_info {msg : Message} (hmsg : msg ≠ .uartModel) (args : List Arg)
    {x : Nat → Prog (Pc δ) α} {y : Kernel α} {Q : α → Machine → Pc δ → Prop}
    {W : Machine → Pc δ → Prop} (hab : ∀ w m, A w m → B (w ++ said [msg]) m)
    (hx : Refines (Telling rx tx mem B) x y Q W) :
    Refines (Telling rx tx mem A) (fun fuel => Pc.info fuel msg args >>= fun _ => x fuel) y
      Q W := by
  refine Refines.more (fun m pc ⟨w, hm, ha⟩ => ?_) fun _ => hx
  exact ⟨(), _, Pc.eventually_info msg hmsg args pc, _, hm.type _, hab w m ha⟩

end Telling

section Kernel

variable (m₀ : Machine) (w₀ : List Int8)

/-- The frames `ps` have been taken off the line, and the server waits at `site`. -/
structure DealtWith (ps : List (List UInt8)) (site : Site) (m : Machine) : Prop where
  taken : frames m₀.input = ps ++ frames m.input
  buffer : m.inRawBuf.cells = writeFrames m₀.inRawBuf.cells ps
  site : state serverStep .syn (arrivals m₀.inRawBuf.cells ps) = site

/-- The text is the transcript of the frames taken off the line, up to the messages `left`
that are still to be printed. -/
def Told (site : Site) (left : List Message) (w : List Int8) (m : Machine) : Prop :=
  ∃ ps, DealtWith m₀ ps site m ∧
    w ++ said left = w₀ ++ said (transcript .syn m₀.inRawBuf.cells ps)

/-- The text is the transcript of all frames of the line. -/
def ToldAll (w : List Int8) (_ : Machine) : Prop :=
  w = w₀ ++ said (transcript .syn m₀.inRawBuf.cells (frames m₀.input))

variable {m₀ w₀} {ps : List (List UInt8)} {site : Site} {m : Machine} {w : List Int8}

/-- One more frame. -/
theorem DealtWith.concat (h : DealtWith m₀ ps site m) {p rest : List UInt8}
    (hf : nextFrame m.input = some (p, rest)) :
    DealtWith m₀ (ps ++ [p])
      (serverStep site (arrival (m.inRawBuf.cells.write 0 p) p.length)).1
      (m.receive site p rest) where
  taken := by
    rw [h.taken, frames_of_eq_some hf, List.append_assoc]
    rfl
  buffer := by
    rw [writeFrames_concat, ← h.buffer]
    exact Mem.storeAll_cells _ _ _
  site := by
    rw [arrivals_append, state_append, h.site, ← writeFrames, ← h.buffer]
    rfl

theorem DealtWith.toldAll (h : DealtWith m₀ ps site m) (hf : nextFrame m.input = none)
    (hw : w ++ said [] = w₀ ++ said (transcript .syn m₀.inRawBuf.cells ps)) :
    ToldAll m₀ w₀ w m.cut := by
  rw [said, List.flatMap_nil, List.append_nil] at hw
  rw [ToldAll, h.taken, frames_of_eq_none hf, List.append_nil, hw]

/-- A message is printed. -/
theorem Told.printed {msg : Message} {left : List Message}
    (h : Told m₀ w₀ site (msg :: left) w m) :
    Told m₀ w₀ site left (w ++ said [msg]) m := by
  obtain ⟨ps, hdealt, hw⟩ := h
  refine ⟨ps, hdealt, ?_⟩
  rw [List.append_assoc, ← said_append, ← hw]
  rfl

/-- What is told of a frame. -/
theorem Told.received (h : DealtWith m₀ ps site m)
    (hw : w ++ said [] = w₀ ++ said (transcript .syn m₀.inRawBuf.cells ps)) {p rest : List UInt8}
    (hf : nextFrame m.input = some (p, rest)) :
    Told m₀ w₀ (serverStep site (arrival (m.inRawBuf.cells.write 0 p) p.length)).1
      (serverSays site (arrival (m.inRawBuf.cells.write 0 p) p.length))
      (w ++ said (complaint (m.inRawBuf.cells.write 0 p) p.length)) (m.receive site p rest) := by
  refine ⟨ps ++ [p], h.concat hf, ?_⟩
  rw [said, List.flatMap_nil, List.append_nil] at hw
  rw [transcript_concat, h.site, ← h.buffer, said_append, said_append, hw]
  simp only [List.append_assoc]

section Refinement

variable (hline : Attached io rx tx) (mem : Mem UInt8)

include hline

variable (m₀ w₀)

theorem nextTcpIpPacketBody_refines (site : Site) :
    Refines (Telling rx tx mem (Told m₀ w₀ site []))
      (fun fuel => Pc.nextTcpIpPacketBody io fuel ()) (nextTcpIpPacketBody site ())
      (fun r m pc => Sum.elim
        (fun r => Telling rx tx mem
          (Told m₀ w₀ (serverStep site (.segment r.1.toIPFields r.2.toTCPFields)).1
            (serverSays site (.segment r.1.toIPFields r.2.toTCPFields))) m pc)
        (fun _ => Telling rx tx mem (Told m₀ w₀ site []) m pc) r)
      (Telling rx tx mem (ToldAll m₀ w₀)) := by
  constructor
  rintro m pc ⟨w, hm, ps, hdealt, hw⟩
  have hread := (readRawPacket_refines hline mem w).run m pc hm
  rw [run_readRawPacket] at hread
  rw [run_nextTcpIpPacketBody]
  simp only [Pc.nextTcpIpPacketBody_eq, EStateM.run_bind, EStateM.run_get]
  cases hf : nextFrame m.input with
  | none =>
    rw [hf] at hread
    cases hread with
    | error hrun =>
      refine .error (hrun.mono fun fuel ⟨pc', hfuel, hm'⟩ => ⟨pc', ?_, w, hm', ?_⟩)
      · rw [hfuel]
      · exact hdealt.toldAll hf hw
  | some f =>
    obtain ⟨p, rest⟩ := f
    rw [hf] at hread
    cases hread with
    | ok hrun hm' =>
      rename_i pc'
      have hbuf : pc'.inRawBuf.cells = m.inRawBuf.cells.write 0 p := by
        rw [hm'.inRawBuf, Mem.storeAll_cells]
      have hcheck := Pc.eventually_checkPacket pc'.inRawBuf.cells p.length pc'
      have htold := Told.received hdealt hw hf
      rw [hbuf] at hcheck
      have htype := hm'.type (said (complaint (m.inRawBuf.cells.write 0 p) p.length))
      refine .ok (t := pc'.type (said (complaint (m.inRawBuf.cells.write 0 p) p.length)))
        ((hrun.and hcheck).mono fun fuel ⟨hfuel, hprint⟩ => ?_) ?_
      · simp only [hfuel, hbuf]
        exact hprint
      · cases hj : judge (m.inRawBuf.cells.write 0 p) p.length with
        | none =>
          rw [arrival_of_judge_none hj] at htold
          exact ⟨_, { htype with }, htold⟩
        | some r =>
          rw [arrival_of_judge_some hj] at htold
          exact ⟨_, { htype with }, htold⟩

theorem nextTcpIpPacket_refines (site : Site) :
    Refines (Telling rx tx mem (Told m₀ w₀ site [])) (fun fuel => Pc.nextTcpIpPacket io fuel)
      (nextTcpIpPacket site)
      (fun r => Telling rx tx mem
        (Told m₀ w₀ (serverStep site (.segment r.1.toIPFields r.2.toTCPFields)).1
          (serverSays site (.segment r.1.toIPFields r.2.toTCPFields))))
      (Telling rx tx mem (ToldAll m₀ w₀)) :=
  Refines.loop (I := fun _ => Telling rx tx mem (Told m₀ w₀ site []))
    (Uses.consumes (nextTcpIpPacketBody_uses site))
    (fun _ => nextTcpIpPacketBody_refines m₀ w₀ hline mem site) ()

/-- A reply is no news. -/
theorem sendReply_telling (site : Site) (left : List Message) (lastIp : IPFields)
    (lastTcp : TCPFields) (flags : UInt8) :
    Refines (Telling rx tx mem (Told m₀ w₀ site left))
      (fun fuel => Pc.sendReply io fuel lastIp lastTcp flags) (sendReply lastIp lastTcp flags)
      (fun _ => Telling rx tx mem (Told m₀ w₀ site left))
      (Telling rx tx mem (ToldAll m₀ w₀)) := by
  refine telling_of_triple (fun w => sendReply_refines hline mem w lastIp lastTcp flags)
    fun w => ⟨fun m ⟨ps, hdealt, hw⟩ => ?_⟩
  rw [run_sendReply]
  exact .ok ⟨ps, { hdealt with }, hw⟩

/-! ### The server -/

theorem threeWayHandshakeBody_refines :
    Refines (Telling rx tx mem (Told m₀ w₀ .syn []))
      (fun fuel => Pc.threeWayHandshakeBody io fuel ()) (threeWayHandshakeBody ())
      (fun r m pc => Sum.elim
        (fun _ => Telling rx tx mem (Told m₀ w₀ .request []) m pc)
        (fun _ => Telling rx tx mem (Told m₀ w₀ .syn []) m pc) r)
      (Telling rx tx mem (ToldAll m₀ w₀)) := by
  refine (nextTcpIpPacket_refines m₀ w₀ hline mem .syn).bind fun r =>
    Refines.ite (fun hne => ?_) fun hsyn => ?_
  · rw [serverStep_syn_of_ne hne, serverSays, if_neg hne]
    exact telling_info (by decide) [] (fun _ _ h => h.printed) <| Refines.pure _ fun _ _ h => h
  rw [serverStep_syn (not_not.mp hsyn), serverSays, if_pos (not_not.mp hsyn)]
  refine telling_info (by decide) [] (fun _ _ h => h.printed) ?_
  refine (sendReply_telling m₀ w₀ hline mem .handshakeAck [] _ _ _).bind fun _ => ?_
  refine (nextTcpIpPacket_refines m₀ w₀ hline mem .handshakeAck).bind fun r =>
    Refines.ite (fun hne => ?_) fun hack => ?_
  · rw [serverStep_handshakeAck_of_ne hne, serverSays, if_neg hne]
    exact telling_info (by decide) [] (fun _ _ h => h.printed) <| Refines.pure _ fun _ _ h => h
  · rw [serverStep_handshakeAck (not_not.mp hack), serverSays, if_pos (not_not.mp hack)]
    exact telling_info (by decide) [] (fun _ _ h => h.printed) <| Refines.pure _ fun _ _ h => h

theorem threeWayHandshake_refines :
    Refines (Telling rx tx mem (Told m₀ w₀ .syn [.waitingHandshake]))
      (fun fuel => Pc.threeWayHandshake io fuel) threeWayHandshake
      (fun _ => Telling rx tx mem (Told m₀ w₀ .request []))
      (Telling rx tx mem (ToldAll m₀ w₀)) :=
  telling_info (by decide) [] (fun _ _ h => h.printed) <|
    Refines.loop (I := fun _ => Telling rx tx mem (Told m₀ w₀ .syn []))
      (Uses.consumes threeWayHandshakeBody_uses)
      (fun _ => threeWayHandshakeBody_refines m₀ w₀ hline mem) ()

theorem waitForFin_refines :
    Refines (Telling rx tx mem (Told m₀ w₀ .fin [])) (fun fuel => Pc.waitForFin io fuel ())
      (waitForFin ())
      (fun r m pc => Sum.elim
        (fun _ => Telling rx tx mem (Told m₀ w₀ .syn [.finalAck, .waitingHandshake]) m pc)
        (fun _ => Telling rx tx mem (Told m₀ w₀ .fin []) m pc) r)
      (Telling rx tx mem (ToldAll m₀ w₀)) := by
  refine (nextTcpIpPacket_refines m₀ w₀ hline mem .fin).bind fun r =>
    Refines.ite (fun hfin => ?_) fun hother => ?_
  · rw [serverStep_fin hfin, serverSays, if_pos hfin]
    exact Refines.pure _ fun _ _ h => h
  · rw [serverStep_fin_of_eq hother, serverSays, if_neg hother]
    exact Refines.pure _ fun _ _ h => h

theorem fourWayClose_refines (lastIp : IPFields) (lastTcp : TCPFields) :
    Refines (Telling rx tx mem (Told m₀ w₀ .fin [.startingClose, .waitingFin]))
      (fun fuel => Pc.fourWayClose io fuel lastIp lastTcp) (fourWayClose lastIp lastTcp)
      (fun _ => Telling rx tx mem (Told m₀ w₀ .syn [.waitingHandshake]))
      (Telling rx tx mem (ToldAll m₀ w₀)) := by
  refine telling_info (by decide) [] (fun _ _ h => h.printed) ?_
  refine (sendReply_telling m₀ w₀ hline mem .fin [.waitingFin] _ _ _).bind fun _ => ?_
  refine telling_info (by decide) [] (fun _ _ h => h.printed) ?_
  refine (Refines.loop (I := fun _ => Telling rx tx mem (Told m₀ w₀ .fin []))
    (Q := fun _ => Telling rx tx mem (Told m₀ w₀ .syn [.finalAck, .waitingHandshake]))
    (Uses.consumes waitForFin_uses) (fun _ => waitForFin_refines m₀ w₀ hline mem) ()).bind
    fun r => ?_
  refine telling_info (by decide) [] (fun _ _ h => h.printed) ?_
  exact sendReply_telling m₀ w₀ hline mem .syn [.waitingHandshake] _ _ _

theorem kernelMainBody_refines :
    Refines (Telling rx tx mem (Told m₀ w₀ .syn [.waitingHandshake]))
      (fun fuel => Pc.kernelMainBody io fuel ()) (kernelMainBody ())
      (fun r m pc => Sum.elim (fun _ => False)
        (fun _ => Telling rx tx mem (Told m₀ w₀ .syn [.waitingHandshake]) m pc) r)
      (Telling rx tx mem (ToldAll m₀ w₀)) := by
  refine (threeWayHandshake_refines m₀ w₀ hline mem).bind fun _ => ?_
  refine (nextTcpIpPacket_refines m₀ w₀ hline mem .request).bind fun r => ?_
  refine telling_info (by decide) [] (fun _ _ h => h.printed) ?_
  refine Refines.get fun m pc ⟨w, hm, htold⟩ => ?_
  rw [hm.dataPkt, hm.stack]
  obtain ⟨-, hsize⟩ := buildRawTcpIpPacket_eq r.1.toIPFields r.2.toTCPFields FLAG_ACK
    (Ptr.ofList htmlData) (n := htmlData.length) (by rw [length_htmlData]; decide) m.dataPkt
    m.stack m.stack
  generalize buildRawTcpIpPacket r.1.toIPFields r.2.toTCPFields FLAG_ACK (Ptr.ofList htmlData)
    htmlData.length m.dataPkt m.stack m.stack = built at hsize
  obtain ⟨dataPkt, dataPktSz⟩ := built
  obtain rfl : dataPktSz = (40 + htmlData.length : Nat) := hsize
  refine Refines.bind (Q := fun _ => Telling rx tx mem (Told m₀ w₀ .responseAck [])) ?_
    fun _ => ?_
  · constructor
    rintro _ _ ⟨rfl, rfl⟩
    obtain ⟨ps, hdealt, hw⟩ := htold
    refine .ok (.of_forall fun _ => rfl) ⟨w, ?_, ps, ?_, hw⟩
    · exact { hm with dataPkt := rfl, dataPktSz := rfl, stack := rfl }
    · exact { hdealt with }
  refine Refines.bind (Q := fun _ => Telling rx tx mem (Told m₀ w₀ .responseAck [])) ?_
    fun _ => ?_
  · refine telling_of_triple (fun w => sendRawPacket_refines hline mem w _ _)
      fun w => ⟨fun m ⟨ps, hdealt, hw⟩ => ?_⟩
    rw [run_sendRawPacket]
    exact .ok ⟨ps, { hdealt with }, hw⟩
  refine (nextTcpIpPacket_refines m₀ w₀ hline mem .responseAck).bind fun r => ?_
  refine (fourWayClose_refines m₀ w₀ hline mem _ _).bind fun _ => ?_
  exact Refines.pure _ fun _ _ h => h

theorem kernelMainLoop_refines :
    Refines (Telling rx tx mem (Told m₀ w₀ .syn [.waitingHandshake]))
      (fun fuel => loop (Pc.kernelMainBody io fuel) fuel ()) kernelMain (fun _ _ _ => False)
      (Telling rx tx mem (ToldAll m₀ w₀)) :=
  Refines.loop (I := fun _ => Telling rx tx mem (Told m₀ w₀ .syn [.waitingHandshake]))
    (Uses.consumes kernelMainBody_uses) (fun _ => kernelMainBody_refines m₀ w₀ hline mem) ()

end Refinement

end Kernel

/-! ### The start-up -/

/-- What the start-up does to the UART. -/
def startUart (io : Ports δ) : StateM δ (UartModel × Bool) := do
  let model ← detectUartModel io
  let connected ← isSerialConnected io
  return (model, connected)

/-- The text of the start-up, with what is printed for the model. -/
def startUpText (model : List Int8) (connected : Bool) : List Int8 :=
  said [.hello] ++ (chars "UART model " ++ (model ++ chars "\n")) ++
    if connected then said [.serialConnected] else []

/-- The computer with the blank screen. -/
def Pc.initialized (pc : Pc δ) : Pc δ := { pc with tty := terminalInitialize pc.tty }

/-- What lies at the address that is printed for the UART's model. -/
structure ModelString (pc : Pc δ) (model : UartModel) (s : List Int8) : Prop where
  isString : Fuel.IsString (fun i => (pc.tty.memory.cells (model.value + i)).toInt8) s
  below : model.value + s.length < VGA_MEMORY

theorem render_uartModel (s : List Int8) :
    render (chars Message.uartModel.format) [.text s] =
      some (chars "UART model " ++ (s ++ chars "\n")) := by
  have hformat : chars Message.uartModel.format =
      chars "UART model " ++ (percentChar :: sChar :: chars "\n") := by decide +kernel
  have hnewline : render (chars "\n") [] = some (chars "\n") := by decide +kernel
  have hplain : percentChar ∉ chars "UART model " := by decide +kernel
  rw [hformat, render_run _ _ fun c hc => ne_of_mem_of_not_mem hc hplain, render_text, hnewline]
  rfl

theorem ModelString.typed {pc : Pc δ} {model : UartModel} {s : List Int8}
    (h : ModelString pc model s) (text : List Int8) :
    ModelString (pc.initialized.type text) model s where
  isString := by
    refine h.isString.congr fun i hi => ?_
    have hblank := (follows_blank pc.tty).writeText text
    have htraced := writeText_traced (terminalInitialize_traced pc.tty) text
    have hbelow := h.below
    refine congrArg UInt8.toInt8 (htraced.cells_eq hblank.2 fun ⟨index, _, ha⟩ => ?_)
    omega
  below := h.below

theorem run_onUart {α : Type} (x : StateM δ α) (pc : Pc δ) :
    (Pc.onUart (liftState x)).run pc =
      .ok (x.run pc.uart).1 { pc with uart := (x.run pc.uart).2 } := rfl

theorem eventually_startUp {pc : Pc δ} {model : UartModel} {connected : Bool} {d : δ}
    (hstart : (startUart io).run pc.uart = ((model, connected), d)) {s : List Int8}
    (hs : ModelString pc model s) :
    ∀ᶠ fuel in atTop, (Pc.startUp io fuel).run pc =
      .ok () { pc.initialized.type (startUpText s connected) with uart := d } := by
  obtain ⟨d₁, hmodel, hconnected⟩ : ∃ d₁, (detectUartModel io).run pc.uart = (model, d₁) ∧
      (isSerialConnected io).run d₁ = (connected, d) := by
    refine ⟨((detectUartModel io).run pc.uart).2, ?_, ?_⟩
    · exact Prod.ext (congrArg (·.1.1) hstart) rfl
    · exact Prod.ext (congrArg (·.1.2) hstart) (congrArg (·.2) hstart)
  have hhello := Pc.eventually_info .hello (by decide) [] pc.initialized
  -- the UART has been asked for its model
  let pc₁ : Pc δ := { pc.initialized.type (said [.hello]) with uart := d₁ }
  have hfits : ((chars "UART model " ++ (s ++ chars "\n")).length : Int) ≤ INT_MAX := by
    have hbelow := hs.below
    have hends : (chars "UART model ").length = 11 ∧ (chars "\n").length = 1 := by decide +kernel
    rw [List.length_append, List.length_append, hends.1, hends.2, INT_MAX]
    rw [show VGA_MEMORY = 753664 from rfl] at hbelow
    omega
  have hprint := Pc.eventually_info_of_render .uartModel []
    (.cons (.text (hs.typed (said [.hello])).isString) .nil) (render_uartModel s) hfits pc₁
  -- and whether it is connected
  let pc₂ : Pc δ :=
    { pc₁.type (chars "UART model " ++ (s ++ chars "\n")) with uart := d }
  have hfound := Pc.eventually_info .serialConnected (by decide) [] pc₂
  refine ((hhello.and hprint).and hfound).mono fun fuel ⟨⟨hhello, hprint⟩, hfound⟩ => ?_
  have hprint : (Pc.info fuel .uartModel [Pc.addressArg pc₁.tty.memory model.value]).run pc₁ =
      .ok () (pc₁.type (chars "UART model " ++ (s ++ chars "\n"))) := hprint
  have hask : (Pc.onUart (liftState (detectUartModel io))).run
      (pc.initialized.type (said [.hello])) = .ok model pc₁ := by
    rw [run_onUart, show (detectUartModel io).run (pc.initialized.type _).uart = _ from hmodel]
  have hask' : (Pc.onUart (liftState (isSerialConnected io))).run
      (pc₁.type (chars "UART model " ++ (s ++ chars "\n"))) = .ok connected pc₂ := by
    rw [run_onUart, show (isSerialConnected io).run (pc₁.type _).uart = _ from hconnected]
  have hblank : (modify Pc.initialized : Prog (Pc δ) Unit).run pc = .ok () pc.initialized := rfl
  show ((modify Pc.initialized : Prog (Pc δ) Unit) >>= _).run pc = _
  simp only [EStateM.run_bind, EStateM.run_get, hblank, hhello, hask, hprint, hask']
  have htext : pc₂ = { pc.initialized.type (said [.hello] ++
      (chars "UART model " ++ (s ++ chars "\n"))) with uart := d } := by
    rw [← Pc.type_type]
    rfl
  rw [startUpText]
  cases connected with
  | false =>
    rw [if_neg Bool.false_ne_true, if_neg Bool.false_ne_true, List.append_nil]
    exact congrArg (EStateM.Result.ok ()) htext
  | true =>
    rw [if_pos rfl, if_pos rfl, hfound, htext,
      ← Pc.type_type _ (said [.hello] ++ (chars "UART model " ++ (s ++ chars "\n")))]
    rfl

/-! ### The whole run -/

/-- The model's machine for a computer whose UART is in the state `d`. -/
def Pc.machine (rx tx : δ → List UInt8) (pc : Pc δ) (d : δ) : Machine where
  input := rx d
  output := tx d
  inRawBuf := pc.inRawBuf
  dataPkt := pc.dataPkt
  dataPktSz := pc.dataPktSz
  stack := pc.stack
  log := []

/-- All the text of a run that starts with this in the buffer and takes these frames. -/
def consoleText (model : List Int8) (connected : Bool) (buf : Ptr UInt8)
    (ps : List (List UInt8)) : List Int8 :=
  startUpText model connected ++ said (.waitingHandshake :: transcript .syn buf ps)

/-- **The whole kernel refines its network model**, and its screen shows the transcript. -/
theorem kernelMain_models (hline : Attached io rx tx) {pc : Pc δ} {model : UartModel}
    {connected : Bool} {d : δ} (hstart : (startUart io).run pc.uart = ((model, connected), d))
    {s : List Int8} (hs : ModelString pc model s) :
    ∃ m', kernelMain.run (pc.machine rx tx d) = .error .waiting m' ∧
      ∀ᶠ fuel in atTop, ∃ pc', (Pc.kernelMain io fuel).run pc = .error .waiting pc' ∧
        Models rx tx pc.tty.memory
          (consoleText s connected pc.inRawBuf.cells (frames (rx d))) m' pc' := by
  have hstarted := eventually_startUp hstart hs
  obtain ⟨m', hrun, -⟩ := kernelMain_log (pc.machine rx tx d)
  refine ⟨m', hrun, ?_⟩
  let pc₀ : Pc δ := { pc.initialized.type (startUpText s connected) with uart := d }
  have hmodels : Models rx tx pc.tty.memory (startUpText s connected) (pc.machine rx tx d) pc₀ :=
    { input := rfl, output := rfl, inRawBuf := rfl, dataPkt := rfl, dataPktSz := rfl
      stack := rfl
      screen := (follows_blank pc.tty).writeText _
      traced := writeText_traced (terminalInitialize_traced pc.tty) _ }
  have htold : Told (pc.machine rx tx d) (startUpText s connected ++ said [.waitingHandshake])
      .syn [.waitingHandshake] (startUpText s connected) (pc.machine rx tx d) :=
    ⟨[], ⟨rfl, rfl, rfl⟩, (List.append_nil _).symm⟩
  have hloop := (kernelMainLoop_refines _ _ hline pc.tty.memory).run (pc.machine rx tx d) pc₀
    ⟨_, hmodels, htold⟩
  rw [hrun] at hloop
  cases hloop with
  | error hwaits =>
    refine (hstarted.and hwaits).mono fun fuel ⟨hfuel, pc', hpc', w, hm', hw⟩ => ⟨pc', ?_, ?_⟩
    · rw [Pc.kernelMain, EStateM.run_bind, hfuel]
      exact hpc'
    · rw [ToldAll, List.append_assoc, ← said_append] at hw
      rw [consoleText]
      exact hw ▸ hm'

end SantaOS
