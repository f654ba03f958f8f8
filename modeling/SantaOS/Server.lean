import SantaOS.Receive
import SantaOS.Reply

/-!
# SantaOS.Server

The server as a reactive machine: its state is the call of `nextTcpIpPacket` it waits
in, its inputs are the verdicts on the frames, its outputs the packets it sends.

`kernelMain_log` is the refinement: whatever the line brings and whatever memory holds,
the log of `kernel_main` is the log of that machine on the verdicts on the frames of the
line. The three nested loops of the source are gone from there on.

Proof shape: `Reach` says that the log so far is the machine's and that it is in the
state the program point stands for; one triple for each function moves from one program
point to the next.

Design points:
* The verdict on a frame is the input, not the frame: which bytes it depends on is a matter
  of `SantaOS.Receive` and `SantaOS.OwnBytes`.
* `kernelMain_inv` is the rule for whatever a received frame and a packet sent keep; what the
  kernel writes to its line and where it stores are instances of it.
-/

namespace SantaOS

open Memory Waiting Reactive

/-- What the server does with a verdict: where it waits next and what it sends. -/
def serverStep : Site → Arrival → Site × Option (List UInt8)
  | site, .dropped _ => (site, none)
  | .syn, .segment ip tcp =>
    if tcp.flags = FLAG_SYN then
      (.handshakeAck, some (reply ip tcp (FLAG_SYN ||| FLAG_ACK) []))
    else (.syn, none)
  | .handshakeAck, .segment _ tcp =>
    if tcp.flags = FLAG_ACK then (.request, none) else (.syn, none)
  | .request, .segment ip tcp => (.responseAck, some (reply ip tcp FLAG_ACK htmlData))
  | .responseAck, .segment ip tcp => (.fin, some (reply ip tcp FLAG_FIN []))
  | .fin, .segment ip tcp =>
    if tcp.flags &&& FLAG_FIN ≠ 0 then (.syn, some (reply ip tcp FLAG_ACK []))
    else (.fin, none)

section Steps

variable {ip : IPFields} {tcp : TCPFields}

theorem serverStep_syn (h : tcp.flags = FLAG_SYN) :
    serverStep .syn (.segment ip tcp) =
      (.handshakeAck, some (reply ip tcp (FLAG_SYN ||| FLAG_ACK) [])) :=
  if_pos h

theorem serverStep_syn_of_ne (h : tcp.flags ≠ FLAG_SYN) :
    serverStep .syn (.segment ip tcp) = (.syn, none) :=
  if_neg h

theorem serverStep_handshakeAck (h : tcp.flags = FLAG_ACK) :
    serverStep .handshakeAck (.segment ip tcp) = (.request, none) :=
  if_pos h

theorem serverStep_handshakeAck_of_ne (h : tcp.flags ≠ FLAG_ACK) :
    serverStep .handshakeAck (.segment ip tcp) = (.syn, none) :=
  if_neg h

theorem serverStep_request :
    serverStep .request (.segment ip tcp) =
      (.responseAck, some (reply ip tcp FLAG_ACK htmlData)) := rfl

theorem serverStep_responseAck :
    serverStep .responseAck (.segment ip tcp) = (.fin, some (reply ip tcp FLAG_FIN [])) := rfl

theorem serverStep_fin (h : tcp.flags &&& FLAG_FIN ≠ 0) :
    serverStep .fin (.segment ip tcp) = (.syn, some (reply ip tcp FLAG_ACK [])) :=
  if_pos h

theorem serverStep_fin_of_eq (h : ¬ tcp.flags &&& FLAG_FIN ≠ 0) :
    serverStep .fin (.segment ip tcp) = (.fin, none) :=
  if_neg h

end Steps

/-! ### Sending -/

theorem run_sendReply (lastIp : IPFields) (lastTcp : TCPFields) (flags : UInt8) (m : Machine) :
    (sendReply lastIp lastTcp flags).run m =
      .ok () { m with
        output := m.output ++ frame (reply lastIp lastTcp flags [])
        log := m.log ++ [.output (reply lastIp lastTcp flags [])] } := by
  obtain ⟨hcells, hsize⟩ := buildRawTcpIpPacket_eq lastIp lastTcp flags (Ptr.ofList []) (n := 0)
    (by decide) m.stack m.stack m.stack
  have hread := Ptr.read_write_zero m.stack.cells (reply lastIp lastTcp flags [])
  rw [length_reply] at hread
  rw [sendReply, EStateM.run_bind, EStateM.run_get]
  simp only [Int.natCast_zero] at hcells hsize
  simp only [hcells, hsize]
  rw [show (40 + 0 : Int) = (40 : Nat) from rfl, run_sendRawPacket]
  simp only [Ptr.read_zero]
  rw [show (40 : Nat) = 40 + ([] : List UInt8).length from rfl, hread]

theorem sendReply_keeps (lastIp : IPFields) (lastTcp : TCPFields) (flags : UInt8) :
    Keeps (·.input.length) (sendReply lastIp lastTcp flags) := by
  intro m a m' h
  rw [run_sendReply] at h
  obtain ⟨-, rfl⟩ := EStateM.Result.ok.inj h
  exact Nat.le_refl _

/-! ### Program points -/

/-- The verdicts `as` have been dealt with; the program waits at `site`. -/
def Reach (m₀ : Machine) (site : Site) (m : Machine) : Prop :=
  ∃ as, m₀.pending = as ++ m.pending ∧ m.log = m₀.log ++ trace serverStep .syn as ∧
    site = state serverStep .syn as

/-- The call at `site` has returned `r`, which is not dealt with yet. -/
def Received (m₀ : Machine) (site : Site) (r : IP × TCP) (m : Machine) : Prop :=
  ∃ as, m₀.pending = as ++ .segment r.1.toIPFields r.2.toTCPFields :: m.pending ∧
    m.log = m₀.log ++ (trace serverStep .syn as ++
      [.input site (.segment r.1.toIPFields r.2.toTCPFields)]) ∧
    site = state serverStep .syn as

/-- Every verdict has been dealt with. -/
def Finished (m₀ m : Machine) : Prop := m.log = m₀.log ++ trace serverStep .syn m₀.pending

theorem reach_self (m : Machine) : Reach m .syn m := ⟨[], rfl, by simp, rfl⟩

section Points

variable {m₀ m : Machine} {site site' : Site} {r : IP × TCP}

/-- A returned packet that is not answered. -/
theorem Received.reach (h : Received m₀ site r m)
    (hstep : serverStep site (.segment r.1.toIPFields r.2.toTCPFields) = (site', none)) :
    Reach m₀ site' m := by
  obtain ⟨as, hpending, hlog, hsite⟩ := h
  refine ⟨as ++ [.segment r.1.toIPFields r.2.toTCPFields], by simp [hpending], ?_, ?_⟩
  · rw [hlog, trace_concat, ← hsite, hstep, outputs_none]
  · rw [state_append, ← hsite, state_cons, hstep, state_nil]

/-- A returned packet that is answered. -/
theorem Received.sent {raw : List UInt8} {m' : Machine} (h : Received m₀ site r m)
    (hstep : serverStep site (.segment r.1.toIPFields r.2.toTCPFields) = (site', some raw))
    (hpending' : m'.pending = m.pending) (hlog' : m'.log = m.log ++ [.output raw]) :
    Reach m₀ site' m' := by
  obtain ⟨as, hpending, hlog, hsite⟩ := h
  refine ⟨as ++ [.segment r.1.toIPFields r.2.toTCPFields], by simp [hpending, hpending'], ?_, ?_⟩
  · rw [hlog', hlog, trace_concat, ← hsite, hstep, outputs_some]
    simp
  · rw [state_append, ← hsite, state_cons, hstep, state_nil]

end Points

/-! ### One triple for each function -/

variable (m₀ : Machine)

theorem nextTcpIpPacket_triple (site : Site) :
    Triple (Reach m₀ site) (nextTcpIpPacket site) (Received m₀ site) (Finished m₀) := by
  constructor
  intro m
  induction m using call_induction site with
  | waits m hf hrun =>
    rintro ⟨as, hpending, hlog, hsite⟩
    rw [hrun]
    rw [pending_of_eq_none hf, List.append_nil] at hpending
    refine .error ?_
    show m.log = m₀.log ++ trace serverStep .syn m₀.pending
    rw [hpending, hlog]
  | drops m p rest hf hj hrun ih =>
    rintro ⟨as, hpending, hlog, hsite⟩
    have ha := arrival_of_judge_none hj
    rw [pending_of_eq_some site hf] at hpending
    rw [hrun]
    refine ih ⟨as ++ [.dropped p.length], by rw [hpending, ha]; simp, ?_, ?_⟩
    · simp [Machine.receive, hlog, trace_concat, ← hsite, ha, serverStep]
    · simp [state_append, ← hsite, serverStep]
  | returns m p rest r hf hj hrun =>
    rintro ⟨as, hpending, hlog, hsite⟩
    have ha := arrival_of_judge_some hj
    rw [pending_of_eq_some site hf] at hpending
    rw [hrun]
    refine .ok ⟨as, by rw [hpending, ha], ?_, hsite⟩
    simp [Machine.receive, hlog, ha]

theorem sendReply_triple {site site' : Site} {r : IP × TCP} {flags : UInt8}
    (hstep : serverStep site (.segment r.1.toIPFields r.2.toTCPFields) =
      (site', some (reply r.1.toIPFields r.2.toTCPFields flags []))) :
    Triple (Received m₀ site r) (sendReply r.1.toIPFields r.2.toTCPFields flags)
      (fun _ => Reach m₀ site') (Finished m₀) := by
  constructor
  intro m hm
  rw [run_sendReply]
  exact .ok (hm.sent hstep rfl rfl)

/-! #### threeWayHandshake -/

theorem threeWayHandshakeBody_uses (b : Unit) :
    Uses (·.input.length) (threeWayHandshakeBody b) :=
  Uses.bind (nextTcpIpPacket_uses .syn) fun _ =>
    Keeps.ite (Keeps.pure _) <| Keeps.bind (sendReply_keeps _ _ _) fun _ =>
      Keeps.bind (nextTcpIpPacket_uses .handshakeAck).keeps fun _ =>
        Keeps.ite (Keeps.pure _) (Keeps.pure _)

theorem threeWayHandshakeBody_triple (b : Unit) :
    Triple (Reach m₀ .syn) (threeWayHandshakeBody b)
      (fun r m => Sum.elim (fun _ => Reach m₀ .request m) (fun _ => Reach m₀ .syn m) r)
      (Finished m₀) := by
  refine Triple.bind (nextTcpIpPacket_triple m₀ .syn) fun r => Triple.ite (fun hne => ?_)
    fun hsyn => ?_
  · exact Triple.pure _ fun m hm => hm.reach (serverStep_syn_of_ne hne)
  refine Triple.bind (sendReply_triple m₀ (serverStep_syn (not_not.mp hsyn))) fun _ => ?_
  refine Triple.bind (nextTcpIpPacket_triple m₀ .handshakeAck) fun r =>
    Triple.ite (fun hne => ?_) fun hack => ?_
  · exact Triple.pure _ fun m hm => hm.reach (serverStep_handshakeAck_of_ne hne)
  · exact Triple.pure _ fun m hm => hm.reach (serverStep_handshakeAck (not_not.mp hack))

theorem threeWayHandshake_triple :
    Triple (Reach m₀ .syn) threeWayHandshake (fun _ => Reach m₀ .request) (Finished m₀) :=
  Triple.whileTrue (Uses.consumes threeWayHandshakeBody_uses)
    (fun b => threeWayHandshakeBody_triple m₀ b) ()

/-! #### fourWayClose -/

theorem waitForFin_uses (b : Unit) : Uses (·.input.length) (waitForFin b) :=
  Uses.bind (nextTcpIpPacket_uses .fin) fun _ => Keeps.ite (Keeps.pure _) (Keeps.pure _)

theorem waitForFin_triple (b : Unit) :
    Triple (Reach m₀ .fin) (waitForFin b)
      (fun r m => Sum.elim
        (fun r => Received m₀ .fin r m ∧ r.2.flags &&& FLAG_FIN ≠ 0)
        (fun _ => Reach m₀ .fin m) r)
      (Finished m₀) := by
  refine Triple.bind (nextTcpIpPacket_triple m₀ .fin) fun r =>
    Triple.ite (fun hfin => ?_) fun hother => ?_
  · exact Triple.pure _ fun m hm => ⟨hm, hfin⟩
  · exact Triple.pure _ fun m hm => hm.reach (serverStep_fin_of_eq hother)

theorem fourWayClose_triple (r : IP × TCP) :
    Triple (Received m₀ .responseAck r) (fourWayClose r.1.toIPFields r.2.toTCPFields)
      (fun _ => Reach m₀ .syn) (Finished m₀) := by
  refine Triple.bind (sendReply_triple m₀ serverStep_responseAck) fun _ => ?_
  refine Triple.bind (Triple.whileTrue (Uses.consumes waitForFin_uses)
    (fun b => waitForFin_triple m₀ b) ()) fun r => ?_
  exact Triple.of_and fun hfin => sendReply_triple m₀ (serverStep_fin hfin)

theorem fourWayClose_keeps (lastIp : IPFields) (lastTcp : TCPFields) :
    Keeps (·.input.length) (fourWayClose lastIp lastTcp) :=
  Keeps.bind (sendReply_keeps _ _ _) fun _ =>
    Keeps.bind (Uses.whileTrue waitForFin_uses ()).keeps fun _ => sendReply_keeps _ _ _

/-! #### kernel_main -/

theorem length_htmlData : htmlData.length = 112 := by decide +kernel

/-- `kernel_main` after the page: the wait for its ACK, and the close. -/
def closeConnection : Kernel (Empty ⊕ Unit) := do
  let r ← nextTcpIpPacket .responseAck
  fourWayClose r.1.toIPFields r.2.toTCPFields
  return .inr ()

/-- `kernel_main` after the request: the page, and what follows it. -/
def servePage (r : IP × TCP) : Kernel (Empty ⊕ Unit) := do
  let m ← get
  let (dataPkt, dataPktSz) :=
    buildRawTcpIpPacket r.1.toIPFields r.2.toTCPFields FLAG_ACK (Ptr.ofList htmlData)
      htmlData.length m.dataPkt m.stack m.stack
  set { m with dataPkt := dataPkt, dataPktSz := dataPktSz }
  sendRawPacket dataPkt.cells dataPktSz
  closeConnection

theorem kernelMainBody_eq (b : Unit) :
    kernelMainBody b = (do
      threeWayHandshake
      let r ← nextTcpIpPacket .request
      servePage r) := rfl

theorem run_servePage (r : IP × TCP) (m : Machine) :
    ∃ m', (servePage r).run m = closeConnection.run m' ∧
      m'.input = m.input ∧ m'.inRawBuf = m.inRawBuf ∧ m'.pending = m.pending ∧
      m'.log = m.log ++ [.output (reply r.1.toIPFields r.2.toTCPFields FLAG_ACK htmlData)] ∧
      m'.output =
        m.output ++ frame (reply r.1.toIPFields r.2.toTCPFields FLAG_ACK htmlData) := by
  obtain ⟨hcells, hsize⟩ := buildRawTcpIpPacket_eq r.1.toIPFields r.2.toTCPFields FLAG_ACK
    (Ptr.ofList htmlData) (n := htmlData.length) (by rw [length_htmlData]; decide) m.dataPkt
    m.stack m.stack
  rw [Ptr.read_ofList] at hcells
  have hread := Ptr.read_write_zero m.dataPkt.cells
    (reply r.1.toIPFields r.2.toTCPFields FLAG_ACK htmlData)
  rw [length_reply] at hread
  rw [servePage, EStateM.run_bind, EStateM.run_get]
  dsimp only
  rw [EStateM.run_bind, EStateM.run_set]
  dsimp only
  rw [EStateM.run_bind, hcells, hsize,
    show (40 + htmlData.length : Int) = (40 + htmlData.length : Nat) from rfl,
    run_sendRawPacket, hread]
  exact ⟨_, rfl, rfl, rfl, rfl, rfl, rfl⟩

theorem closeConnection_keeps : Keeps (·.input.length) closeConnection :=
  Keeps.bind (nextTcpIpPacket_uses .responseAck).keeps fun _ =>
    Keeps.bind (fourWayClose_keeps _ _) fun _ => Keeps.pure _

theorem servePage_keeps (r : IP × TCP) : Keeps (·.input.length) (servePage r) := by
  intro m a m₂ h
  obtain ⟨m', hrun, hinput, -⟩ := run_servePage r m
  rw [hrun] at h
  exact Nat.le_trans (closeConnection_keeps m' a m₂ h) (Nat.le_of_eq (congrArg _ hinput))

theorem kernelMainBody_uses (b : Unit) : Uses (·.input.length) (kernelMainBody b) := by
  rw [kernelMainBody_eq]
  refine Keeps.bind_uses (Uses.whileTrue threeWayHandshakeBody_uses ()).keeps fun _ => ?_
  exact Uses.bind (nextTcpIpPacket_uses .request) servePage_keeps

theorem closeConnection_triple :
    Triple (Reach m₀ .responseAck) closeConnection
      (fun r m => Sum.elim (fun _ => False) (fun _ => Reach m₀ .syn m) r) (Finished m₀) := by
  refine Triple.bind (nextTcpIpPacket_triple m₀ .responseAck) fun r => ?_
  refine Triple.bind (fourWayClose_triple m₀ r) fun _ => ?_
  exact Triple.pure _ fun m hm => hm

theorem servePage_triple (r : IP × TCP) :
    Triple (Received m₀ .request r) (servePage r)
      (fun r m => Sum.elim (fun _ => False) (fun _ => Reach m₀ .syn m) r) (Finished m₀) := by
  constructor
  intro m hm
  obtain ⟨m', hrun, -, -, hpending, hlog, -⟩ := run_servePage r m
  rw [hrun]
  exact (closeConnection_triple m₀).run m' (hm.sent serverStep_request hpending hlog)

theorem kernelMainBody_triple (b : Unit) :
    Triple (Reach m₀ .syn) (kernelMainBody b)
      (fun r m => Sum.elim (fun _ => False) (fun _ => Reach m₀ .syn m) r) (Finished m₀) := by
  rw [kernelMainBody_eq]
  refine Triple.bind (threeWayHandshake_triple m₀) fun _ => ?_
  exact Triple.bind (nextTcpIpPacket_triple m₀ .request) fun r => servePage_triple m₀ r

theorem kernelMain_triple :
    Triple (Reach m₀ .syn) kernelMain (fun _ _ => False) (Finished m₀) :=
  Triple.whileTrue (Uses.consumes kernelMainBody_uses) (fun b => kernelMainBody_triple m₀ b) ()

/-- **`kernel_main` is the reactive machine**: it deals with every frame of the line, in
order, and its log is that of the machine. -/
theorem kernelMain_log (m : Machine) :
    ∃ m', kernelMain.run m = .error .waiting m' ∧
      m'.log = m.log ++ trace serverStep .syn m.pending := by
  have h := (kernelMain_triple m).run m (reach_self m)
  cases hr : kernelMain.run m with
  | ok a m' => exact a.elim
  | error e m' =>
    cases e
    rw [hr] at h
    cases h with
    | error hlog => exact ⟨m', rfl, hlog⟩

/-! ### What the kernel keeps -/

section Kernel

/-! What every received frame and every packet sent keeps is kept by every function of the
kernel. `W` holds where the kernel waits. -/

variable {I W : Machine → Prop}
  (hreceive : ∀ m site p rest, nextFrame m.input = some (p, rest) → I m → I (m.receive site p rest))
  (hcut : ∀ m, nextFrame m.input = none → I m → W m.cut)
  (hsend : ∀ m m' raw, m'.input = m.input → m'.inRawBuf = m.inRawBuf →
    m'.output = m.output ++ frame raw → m'.log = m.log ++ [.output raw] → I m → I m')

include hreceive hcut

theorem nextTcpIpPacket_inv (site : Site) :
    Triple I (nextTcpIpPacket site) (fun _ => I) W := by
  constructor
  intro m
  induction m using call_induction site with
  | waits m hf hrun =>
    intro hm
    rw [hrun]
    exact .error (hcut m hf hm)
  | drops m p rest hf hj hrun ih =>
    intro hm
    rw [hrun]
    exact ih (hreceive m site p rest hf hm)
  | returns m p rest r hf hj hrun =>
    intro hm
    rw [hrun]
    exact .ok (hreceive m site p rest hf hm)

include hsend

omit hreceive hcut in
theorem sendReply_inv (lastIp : IPFields) (lastTcp : TCPFields) (flags : UInt8) :
    Triple I (sendReply lastIp lastTcp flags) (fun _ => I) W := by
  constructor
  intro m hm
  rw [run_sendReply]
  exact .ok (hsend m _ _ rfl rfl rfl rfl hm)

theorem threeWayHandshake_inv : Triple I threeWayHandshake (fun _ => I) W := by
  refine Triple.whileTrue (I := fun _ => I) (Uses.consumes threeWayHandshakeBody_uses)
    (fun b => ?_) ()
  refine Triple.bind (nextTcpIpPacket_inv hreceive hcut .syn) fun r =>
    Triple.ite (fun _ => Triple.pure _ fun m hm => hm) fun _ => ?_
  refine Triple.bind (sendReply_inv hsend _ _ _) fun _ => ?_
  exact Triple.bind (nextTcpIpPacket_inv hreceive hcut .handshakeAck) fun r =>
    Triple.ite (fun _ => Triple.pure _ fun m hm => hm) fun _ => Triple.pure _ fun m hm => hm

theorem fourWayClose_inv (lastIp : IPFields) (lastTcp : TCPFields) :
    Triple I (fourWayClose lastIp lastTcp) (fun _ => I) W := by
  refine Triple.bind (sendReply_inv hsend _ _ _) fun _ => ?_
  refine Triple.bind (R := fun _ => I) ?_ fun r => sendReply_inv hsend _ _ _
  refine Triple.whileTrue (I := fun _ => I) (Uses.consumes waitForFin_uses) (fun b => ?_) ()
  exact Triple.bind (nextTcpIpPacket_inv hreceive hcut .fin) fun r =>
    Triple.ite (fun _ => Triple.pure _ fun m hm => hm) fun _ => Triple.pure _ fun m hm => hm

theorem closeConnection_inv :
    Triple I closeConnection (fun r m => Sum.elim (fun _ => False) (fun _ => I m) r) W := by
  refine Triple.bind (nextTcpIpPacket_inv hreceive hcut .responseAck) fun r => ?_
  refine Triple.bind (fourWayClose_inv hreceive hcut hsend _ _) fun _ => ?_
  exact Triple.pure _ fun m hm => hm

theorem servePage_inv (r : IP × TCP) :
    Triple I (servePage r) (fun r m => Sum.elim (fun _ => False) (fun _ => I m) r) W := by
  constructor
  intro m hm
  obtain ⟨m', hrun, hinput, hbuf, -, hlog, hout⟩ := run_servePage r m
  rw [hrun]
  exact (closeConnection_inv hreceive hcut hsend).run m'
    (hsend m m' _ hinput hbuf hout hlog hm)

/-- **The invariant rule of the kernel.** -/
theorem kernelMain_inv : Triple I kernelMain (fun _ _ => False) W := by
  refine Triple.whileTrue (I := fun _ => I) (Uses.consumes kernelMainBody_uses) (fun b => ?_) ()
  rw [kernelMainBody_eq]
  refine Triple.bind (threeWayHandshake_inv hreceive hcut hsend) fun _ => ?_
  exact Triple.bind (nextTcpIpPacket_inv hreceive hcut .request) fun r =>
    servePage_inv hreceive hcut hsend r

end Kernel

/-! ### The answers -/

/-- What the server sends when these packets come in, over this content of the buffer. -/
def answers (buf : Ptr UInt8) (ps : List (List UInt8)) : List (List UInt8) :=
  outs (trace serverStep .syn (arrivals buf ps))

/-- The bytes written are the frames of the packets logged as sent. -/
def Framed (m₀ m : Machine) : Prop :=
  ∃ es, m.log = m₀.log ++ es ∧ m.output = m₀.output ++ (outs es).flatMap frame

theorem framed_self (m : Machine) : Framed m m := ⟨[], by simp, by simp⟩

section Framed

variable {m₀ m : Machine} (h : Framed m₀ m)

include h

theorem Framed.receive (site : Site) (p rest : List UInt8) :
    Framed m₀ (m.receive site p rest) := by
  obtain ⟨es, hlog, hout⟩ := h
  refine ⟨es ++ [.input site (arrival (m.inRawBuf.cells.write 0 p) p.length)], ?_, ?_⟩
  · simp [Machine.receive, hlog]
  · simp [Machine.receive, hout]

theorem Framed.send {m' : Machine} {raw : List UInt8} (hout : m'.output = m.output ++ frame raw)
    (hlog : m'.log = m.log ++ [.output raw]) : Framed m₀ m' := by
  obtain ⟨es, hlog', hout'⟩ := h
  exact ⟨es ++ [.output raw], by simp [hlog, hlog'], by simp [hout, hout']⟩

end Framed

/-- **What the kernel writes to the line** are the frames of its answers, nothing else. -/
theorem kernelMain_output (m : Machine) :
    ∃ m', kernelMain.run m = .error .waiting m' ∧
      m'.output = m.output ++ (answers m.inRawBuf.cells (frames m.input)).flatMap frame := by
  obtain ⟨m', hrun, hlog⟩ := kernelMain_log m
  refine ⟨m', hrun, ?_⟩
  have hframed := (kernelMain_inv (I := Framed m) (W := Framed m)
    (fun _ site p rest _ h => h.receive site p rest) (fun _ _ h => h)
    (fun _ _ _ _ _ hout hlog h => h.send hout hlog)).run m (framed_self m)
  rw [hrun] at hframed
  cases hframed with
  | error h =>
    obtain ⟨es, hlog', hout⟩ := h
    obtain rfl : es = trace serverStep .syn m.pending :=
      List.append_cancel_left (hlog'.symm.trans hlog)
    exact hout

/-- The kernel waits only where nothing is left on the line. -/
theorem kernelMain_input {m m' : Machine} (h : kernelMain.run m = .error .waiting m') :
    m'.input = [] := by
  have hwaits := (kernelMain_inv (I := fun _ => True) (W := fun m => m.input = [])
    (fun _ _ _ _ _ _ => trivial) (fun _ _ _ => rfl) (fun _ _ _ _ _ _ _ _ => trivial)).run m
    trivial
  rw [h] at hwaits
  cases hwaits with
  | error hinput => exact hinput

section Answers

variable (buf : Ptr UInt8) (ps qs : List (List UInt8))

/-- More packets bring more answers, and leave the ones that have been sent. -/
theorem answers_mono : answers buf ps <+: answers buf (ps ++ qs) := by
  rw [answers, answers, arrivals_append, trace_append, outs_append]
  exact List.prefix_append _ _

/-- No packet is answered twice. -/
theorem length_answers_append_le :
    (answers buf (ps ++ qs)).length ≤ (answers buf ps).length + qs.length := by
  rw [answers, answers, arrivals_append, trace_append, outs_append, List.length_append]
  have hle := length_outs_trace_le serverStep (state serverStep .syn (arrivals buf ps))
    (arrivals (ps.foldl (fun buf p => buf.write 0 p) buf) qs)
  rw [length_arrivals] at hle
  omega

variable {buf ps}

/-- No answer is longer than the page. -/
theorem length_le_of_mem_answers {raw : List UInt8} (h : raw ∈ answers buf ps) :
    raw.length ≤ 152 := by
  obtain ⟨site, a, hstep⟩ := exists_step_of_mem_outs h
  have hhtml := length_htmlData
  cases a with
  | dropped sz => cases site <;> cases hstep
  | segment ip tcp =>
    cases site with
    | syn | fin =>
      rw [serverStep] at hstep
      split at hstep
      · obtain rfl := Option.some.inj hstep
        simp
      · cases hstep
    | handshakeAck =>
      rw [serverStep] at hstep
      split at hstep <;> cases hstep
    | request | responseAck =>
      obtain rfl := Option.some.inj hstep
      simp [hhtml]

/-- Every answer fits its size field. -/
theorem length_lt_of_mem_answers {raw : List UInt8} (h : raw ∈ answers buf ps) :
    raw.length < 65536 :=
  Nat.lt_of_le_of_lt (length_le_of_mem_answers h) (by decide)

end Answers

end SantaOS
