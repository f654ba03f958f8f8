import SantaOS.Bridge
import SantaOS.Overrun

/-!
# SantaOS.BridgeSound

What the host sees of the kernel through the bridge. Whatever the order in which the two
threads and the kernel step, however the socket cuts the bytes: the packets written to the
TUN device are the first ones of the server's answers to the packets read from it
(`bridge_answers`); without new packets the system comes to rest, and what is missing then
lies in the buffer of `socket2tun` (`bridge_settles`); and nothing is missing if each
packet comes after the answers to the ones before it (`bridge_patient`).

A client that does not wait is served in full just when one answer at most is called for
(`bridge_complete_iff`).

The receive buffer of the kernel is safe behind the bridge as long as the TUN device has
no larger packets than it (`bridge_storedIn_iff`).
-/

namespace SantaOS

open Memory Waiting BigEndian Search Pipeline

namespace BridgeState

variable (c : BridgeState)

/-- The bytes that `sendall` has still to send. -/
def sending : List UInt8 := c.1.1

/-- The bytes on the way to the kernel. -/
def toKernel : List UInt8 := c.1.2.1

/-- The bytes the kernel has read and written. -/
def kernel : KernelState := c.1.2.2

/-- The bytes on the way to the host. -/
def toHost : List UInt8 := c.2.1

/-- The thread `socket2tun`. -/
def host : Socket2tun.State := c.2.2

end BridgeState

section Bridge

variable {mtu : Nat} {m : Machine} {read written : List (List UInt8)} {c : BridgeState}

/-! ### Every interleaving -/

/-- A run of the system, taken apart. -/
theorem bridge_parts (h : Run (bridge mtu m) read written c) :
    ∃ input output, Run (tun2socketStage mtu) read (input ++ c.toKernel) c.sending ∧
      Run (kernelStage m) input (output ++ c.toHost) c.kernel ∧
      Run socket2tunStage output written c.host := by
  obtain ⟨output, hfront, hhost⟩ := h.pipe
  obtain ⟨input, htun, hkernel⟩ := hfront.pipe
  exact ⟨input, output, htun, hkernel, hhost⟩

theorem lt_of_run (h : Run (bridge mtu m) read written c) : ∀ p ∈ read, p.length < 65536 := by
  obtain ⟨input, output, htun, -, -⟩ := bridge_parts h
  exact fun p hp => ((run_tun2socketStage htun).2 p hp).1

/-- What the kernel writes for the frames of these packets. -/
theorem kernelOutput_frames (m : Machine) {pkts : List (List UInt8)}
    (h : ∀ p ∈ pkts, p.length < 65536) :
    kernelOutput m (pkts.flatMap frame) = (answers m.inRawBuf.cells pkts).flatMap frame := by
  rw [kernelOutput_eq, frames_flatMap pkts h]

/-- The answers that have been written, and those that have not: the bytes held by
`socket2tun` or on the way to it begin the frames of these. -/
theorem run_bridge (h : Run (bridge mtu m) read written c) :
    ∃ todo, answers m.inRawBuf.cells read = written ++ todo ∧
      c.host.held ++ c.toHost <+: todo.flatMap frame := by
  obtain ⟨input, output, htun, hkernel, hhost⟩ := bridge_parts h
  obtain ⟨hbytes, -⟩ := run_tun2socketStage htun
  obtain ⟨-, -, hout⟩ := run_kernelStage hkernel
  have hall : kernelOutput m input <+: (answers m.inRawBuf.cells read).flatMap frame := by
    rw [← kernelOutput_frames m (lt_of_run h), ← hbytes, List.append_assoc]
    exact kernelOutput_mono m _ _
  obtain ⟨more, hmore⟩ := hout.trans hall
  rw [List.append_assoc] at hmore
  obtain ⟨todo, hsplit, hheld⟩ :=
    written_socket2tunStage hhost (fun _ => length_lt_of_mem_answers) hmore
  exact ⟨todo, hsplit, ⟨more, by rw [List.append_assoc, hheld]⟩⟩

/-- **The bridge and the kernel answer as the server does.** In every run of the system the
packets written to the TUN device are the first of the answers to the packets read from it,
none lost, doubled, changed or out of order. On the way to the kernel there is every byte of
the packets read, and on the way back a beginning of the answers not yet written. -/
theorem bridge_answers (h : Run (bridge mtu m) read written c) :
    written <+: answers m.inRawBuf.cells read ∧
      c.kernel.read ++ c.toKernel ++ c.sending = read.flatMap frame ∧
      written.flatMap frame ++ (c.host.held ++ c.toHost) <+:
        (answers m.inRawBuf.cells read).flatMap frame := by
  obtain ⟨todo, hsplit, hheld⟩ := run_bridge h
  obtain ⟨input, output, htun, hkernel, -⟩ := bridge_parts h
  obtain ⟨hbytes, -⟩ := run_tun2socketStage htun
  obtain ⟨hread, -, -⟩ := run_kernelStage hkernel
  refine ⟨⟨todo, hsplit.symm⟩, hread ▸ hbytes, ?_⟩
  rw [hsplit, List.flatMap_append]
  exact (List.prefix_append_right_inj _).mpr hheld

/-! ### Coming to rest -/

theorem settles_bridge (mtu : Nat) (m : Machine) : (bridge mtu m).Settles :=
  ((tun2socketStage_settles mtu).pipe (kernelStage_settles m)).pipe socket2tunStage_settles

/-- When `tun2socket` and the kernel are at rest, the kernel has read all the packets and has
written all its answers. -/
theorem front_atRest {output : List UInt8} {front : List UInt8 × List UInt8 × KernelState}
    (h : Run ((tun2socketStage mtu).pipe (kernelStage m)) read output front)
    (hrest : ((tun2socketStage mtu).pipe (kernelStage m)).AtRest front) :
    front.1 = [] ∧ front.2.2.read = read.flatMap frame ∧
      output = (answers m.inRawBuf.cells read).flatMap frame := by
  obtain ⟨htunRest, hline, hkernelRest⟩ := h.pipe_atRest hrest (kernelStage_receptive m)
  obtain ⟨input, hrunTun, hrunKernel⟩ := h.pipe
  obtain ⟨hsent, hpkts⟩ := run_tun2socketStage hrunTun
  have hsending := sending_of_atRest htunRest
  rw [hline, hsending, List.append_nil, List.append_nil] at hsent
  have hout := written_of_atRest hrunKernel hkernelRest
  rw [hsent, kernelOutput_frames m fun p hp => (hpkts p hp).1] at hout
  exact ⟨hsending, (run_kernelStage hrunKernel).1.trans hsent, hout⟩

/-- What is the case at rest: nothing is on the way. -/
structure Delivered (m : Machine) (read written : List (List UInt8)) (c : BridgeState) :
    Prop where
  sending : c.sending = []
  kernel : c.kernel.read = read.flatMap frame
  host : ∃ todo, answers m.inRawBuf.cells read = written ++ todo ∧
    c.host.held = todo.flatMap frame
  aboutToRecv : c.host.AboutToRecv
  knows : c.host.Knows

theorem bridge_atRest (h : Run (bridge mtu m) read written c)
    (hrest : (bridge mtu m).AtRest c) : Delivered m read written c := by
  obtain ⟨hfront, hqueue, hhostRest⟩ := h.pipe_atRest hrest socket2tunStage_receptive
  obtain ⟨output, hrunFront, hrunHost⟩ := h.pipe
  obtain ⟨hsending, hread, hout⟩ := front_atRest hrunFront hfront
  rw [hqueue] at hout
  obtain ⟨todo, hsplit, hheld⟩ :=
    written_socket2tunStage hrunHost (fun _ => length_lt_of_mem_answers) hout
  rw [List.append_nil] at hheld
  exact ⟨hsending, hread, ⟨todo, hsplit, hheld⟩, aboutToRecv_of_atRest hrunHost hhostRest,
    knows_of_run hrunHost⟩

/-- **Every schedule comes to rest**, and then an answer that has not been written lies
complete in the buffer of `socket2tun`. -/
theorem bridge_settles (mtu : Nat) (m : Machine) :
    (WellFounded fun c' c => ∃ written, (bridge mtu m).Step c [] written c') ∧
    ∀ read written c, Run (bridge mtu m) read written c → (bridge mtu m).AtRest c →
      ∃ todo, answers m.inRawBuf.cells read = written ++ todo ∧
        c.host.held = todo.flatMap frame :=
  ⟨(settles_bridge mtu m).wellFounded, fun _ _ _ h hrest => (bridge_atRest h hrest).host⟩

/-! ### Clients that wait for their answers -/

/-- The answers to all packets read have been written. -/
def AllAnswered (m : Machine) (read written : List (List UInt8)) : Prop :=
  written = answers m.inRawBuf.cells read

/-- One answer at most has not been written, and the buffer of `socket2tun` holds no
complete frame where the thread does not look for one. -/
structure OneOwed (m : Machine) (read written : List (List UInt8)) (c : BridgeState) : Prop where
  owed : (answers m.inRawBuf.cells read).length ≤ written.length + 1
  atRecv : c.host.point = .recv → c.host.pkt.length < 5
  atRemove : c.host.point = .remove → c.host.pkt.drop c.host.size = []

/-- When the last answer is written, nothing is left behind it. -/
theorem held_of_written (h : Run (bridge mtu m) read written c)
    (hle : (answers m.inRawBuf.cells read).length ≤ written.length) : c.host.held = [] := by
  obtain ⟨todo, hsplit, hheld⟩ := run_bridge h
  have hlength := congrArg List.length hsplit
  rw [List.length_append] at hlength
  obtain rfl : todo = [] := List.eq_nil_of_length_eq_zero (by omega)
  exact (List.append_eq_nil_iff.mp (List.prefix_nil.mp hheld)).1

theorem oneOwed_start (m : Machine) : OneOwed m [] [] (bridge mtu m).start where
  owed := Nat.zero_le _
  atRecv _ := Nat.zero_lt_succ 4
  atRemove h := nomatch h

/-- At most points of the thread there is no more to it. -/
theorem OneOwed.elsewhere
    (howed : (answers m.inRawBuf.cells read).length ≤ written.length + 1)
    (hpoint : c.host.point ≠ .recv ∧ c.host.point ≠ .remove) : OneOwed m read written c :=
  ⟨howed, fun h => absurd h hpoint.1, fun h => absurd h hpoint.2⟩

/-- **Each step keeps it**, as long as one answer at most is owed after it. -/
theorem OneOwed.step {as bs : List (List UInt8)} {c' : BridgeState}
    (h : OneOwed m read written c)
    (howed' : (answers m.inRawBuf.cells (read ++ as)).length ≤ (written ++ bs).length + 1)
    (hstep : (bridge mtu m).Step c as bs c')
    (hrun : Run (bridge mtu m) (read ++ as) (written ++ bs) c') :
    OneOwed m (read ++ as) (written ++ bs) c' := by
  obtain ⟨howed, hrecv, hremove⟩ := h
  cases hstep with
  | first => exact ⟨howed', hrecv, hremove⟩
  | @second host host' _ _ s q hhost =>
    rw [List.append_nil] at hrun howed' ⊢
    obtain ⟨point, pkt, size, chunks, sofar⟩ := host
    cases hhost with
    | recv hpoint hc hlen hs =>
      -- the thread has taken bytes from the socket and looks at them next
      rcases hpoint with hpoint | hpoint
      · obtain rfl : point = .recv := hpoint
        obtain rfl := Option.some.inj hs
        exact .elsewhere howed' (by simp [BridgeState.host])
      · obtain rfl : point = .recvMore := hpoint
        obtain rfl := Option.some.inj hs
        exact .elsewhere howed' (by simp [BridgeState.host])
    | run hpoint hs hpkts =>
      cases Socket2tun.move_of_step hs with
      | few _ _ _ _ hlen => exact ⟨howed', fun _ => hlen, by simp [BridgeState.host]⟩
      | write =>
        refine ⟨howed', by simp [BridgeState.host], fun _ => ?_⟩
        obtain rfl : [pkt.take size] = bs := List.append_cancel_left hpkts
        rw [List.length_append, List.length_singleton] at howed'
        exact held_of_written hrun (by rw [List.length_append]; exact howed)
      | remove =>
        have hnil : pkt.drop size = [] := hremove rfl
        refine ⟨howed', fun _ => ?_, by simp [BridgeState.host]⟩
        show (pkt.drop size).length < 5
        rw [hnil]
        exact Nat.zero_lt_succ 4
      | recv | recvMore => exact absurd (by simp [Socket2tun.State.AboutToRecv]) hpoint
      | enough | readSize | strip | short | whole =>
        exact .elsewhere howed' (by simp [BridgeState.host])

/-- One step reads at most one packet. -/
theorem length_bridge_read_le {as bs : List (List UInt8)} {c' : BridgeState}
    (h : (bridge mtu m).Step c as bs c') : as.length ≤ 1 := by
  cases h with
  | second => exact Nat.zero_le 1
  | first _ _ hfront =>
    cases hfront with
    | first _ _ htun => exact length_read_le htun
    | second => exact Nat.zero_le 1

/-- A step that reads a packet only when nothing is owed makes one answer owed at most. -/
theorem OneOwed.owed_step {as bs : List (List UInt8)} {c' : BridgeState}
    (h : OneOwed m read written c) (hready : as = [] ∨ AllAnswered m read written)
    (hstep : (bridge mtu m).Step c as bs c') :
    (answers m.inRawBuf.cells (read ++ as)).length ≤ (written ++ bs).length + 1 := by
  have hone := length_bridge_read_le hstep
  have hle := length_answers_append_le m.inRawBuf.cells read as
  rw [List.length_append]
  rcases hready with rfl | hanswered
  · rw [List.append_nil]
    exact Nat.le_trans h.owed (by omega)
  · rw [← hanswered] at hle
    omega

theorem oneOwed_of_runWhen (h : RunWhen (AllAnswered m) (bridge mtu m) read written c) :
    OneOwed m read written c := by
  induction h with
  | start => exact oneOwed_start m
  | input h hready hstep ih =>
    exact ih.step (ih.owed_step (.inr hready) hstep) hstep (h.run.step hstep)
  | silent h hstep ih =>
    have howed := ih.step (ih.owed_step (.inl rfl) hstep) hstep (h.run.step hstep)
    rwa [List.append_nil] at howed

/-- At rest nothing is owed. -/
theorem OneOwed.answered (h : OneOwed m read written c) (hrun : Run (bridge mtu m) read written c)
    (hrest : (bridge mtu m).AtRest c) : AllAnswered m read written := by
  obtain ⟨-, hrecv, -⟩ := h
  obtain ⟨-, -, ⟨todo, hsplit, hheld⟩, hpoint, hknows⟩ := bridge_atRest hrun hrest
  rw [AllAnswered, hsplit]
  cases todo with
  | nil => rw [List.append_nil]
  | cons p todo =>
    have hpkts : ∀ q ∈ p :: todo, q.length < 65536 := fun q hq =>
      length_lt_of_mem_answers (hsplit ▸ List.mem_append_right written hq)
    generalize c.host = host at hrecv hheld hpoint hknows
    obtain ⟨point, pkt, size, chunks, sofar⟩ := host
    rcases hpoint with hpoint | hpoint
    · obtain rfl : point = .recv := hpoint
      have hlt : pkt.length < 5 := hrecv rfl
      have hlength : pkt.length = _ := congrArg List.length hheld
      rw [List.flatMap_cons, List.length_append, length_frame] at hlength
      omega
    · obtain rfl : point = .recvMore := hpoint
      obtain ⟨hsize, hshort⟩ : size < 65536 ∧ pkt.length < size := hknows
      obtain ⟨q, todo', hq, rfl, rfl⟩ := cons_of_prolog_append_eq_frames hsize hpkts hheld
      rw [List.length_append] at hshort
      omega

/-- If each packet is read from the TUN device when the answers to the ones before it have
been written to it, then all answers have been written when the system comes to rest. -/
theorem answered_of_atRest (h : RunWhen (AllAnswered m) (bridge mtu m) read written c)
    (hrest : (bridge mtu m).AtRest c) : AllAnswered m read written :=
  (oneOwed_of_runWhen h).answered h.run hrest

/-- The system takes any packets: the runs of clients that wait can always go on, and
each can be brought to rest. -/
theorem exists_run (mtu : Nat) (m : Machine) (pkts : List (List UInt8))
    (h : ∀ p ∈ pkts, p.length ≤ mtu ∧ p.length < 65536) :
    ∃ written c, RunWhen (AllAnswered m) (bridge mtu m) pkts written c ∧
      (bridge mtu m).AtRest c := by
  induction pkts using List.reverseRecOn with
  | nil =>
    have hstart : RunWhen (AllAnswered m) (bridge mtu m) [] [] (bridge mtu m).start := .start
    obtain ⟨written, c, hrun, hrest⟩ := hstart.exists_atRest (settles_bridge mtu m)
    exact ⟨_, c, hrun, hrest⟩
  | append_singleton pkts p ih =>
    obtain ⟨hmtu, hlt⟩ := h p (by simp)
    obtain ⟨written, c, hrun, hrest⟩ := ih fun q hq => h q (List.mem_append_left _ hq)
    have hanswered := answered_of_atRest hrun hrest
    have hsending : c.sending = [] := (bridge_atRest hrun.run hrest).sending
    obtain ⟨⟨sending, front⟩, back⟩ := c
    obtain rfl : sending = [] := hsending
    have hread := hrun.input hanswered (.first _ _ (.first _ _ (.read hmtu (tun2socket_eq p hlt))))
    obtain ⟨written', c', hrun', hrest'⟩ := hread.exists_atRest (settles_bridge mtu m)
    exact ⟨_, c', hrun', hrest'⟩

/-- **A client that waits gets every answer.** Any packets the TUN device can have go through
the system, each read when the answers to the ones before it have been written; and however
the system is scheduled then, all answers have been written when it comes to rest. -/
theorem bridge_patient (mtu : Nat) (m : Machine) (pkts : List (List UInt8))
    (h : ∀ p ∈ pkts, p.length ≤ mtu ∧ p.length < 65536) :
    (∃ written c, RunWhen (AllAnswered m) (bridge mtu m) pkts written c ∧
      (bridge mtu m).AtRest c) ∧
    ∀ written c, RunWhen (AllAnswered m) (bridge mtu m) pkts written c →
      (bridge mtu m).AtRest c → written = answers m.inRawBuf.cells pkts :=
  ⟨exists_run mtu m pkts h, fun _ _ hrun hrest => answered_of_atRest hrun hrest⟩

/-! ### A SYN through the bridge -/

/-- A SYN from 10.0.0.1:40000 to 10.0.0.2:8880. -/
def synPacket : List UInt8 :=
  [0x45, 0x00, 0x00, 0x28, 0x00, 0x00, 0x40, 0x00, 0x40, 0x06, 0x26, 0xce, 0x0a, 0x00, 0x00,
    0x01, 0x0a, 0x00, 0x00, 0x02, 0x9c, 0x40, 0x22, 0xb0, 0x00, 0x00, 0x03, 0xe8, 0x00, 0x00,
    0x00, 0x00, 0x50, 0x02, 0x72, 0x10, 0x66, 0xf7, 0x00, 0x00]

theorem answers_synPacket : answers (Machine.boot []).inRawBuf.cells [synPacket] =
    [reply (synIp 0x0A000001) synTcp (FLAG_SYN ||| FLAG_ACK) []] := by
  decide +kernel

/-- The SYN/ACK is written. -/
theorem bridge_patient_syn :
    ∃ c, RunWhen (AllAnswered (.boot [])) (bridge 1500 (.boot [])) [synPacket]
        [reply (synIp 0x0A000001) synTcp (FLAG_SYN ||| FLAG_ACK) []] c ∧
      (bridge 1500 (.boot [])).AtRest c := by
  obtain ⟨⟨written, c, hrun, hrest⟩, hall⟩ := bridge_patient 1500 (.boot []) [synPacket] (by decide)
  have hwritten := hall written c hrun hrest
  rw [answers_synPacket] at hwritten
  exact ⟨c, hwritten ▸ hrun, hrest⟩

theorem bridge_answers_syn :
    ∃ written c, Run (bridge 1500 (.boot [])) [synPacket] written c ∧
      written <+: [reply (synIp 0x0A000001) synTcp (FLAG_SYN ||| FLAG_ACK) []] ∧
      c.kernel.read ++ c.toKernel ++ c.sending = frame synPacket := by
  obtain ⟨written, c, hrun, -⟩ := exists_run 1500 (.boot []) [synPacket] (by decide)
  obtain ⟨hwritten, hbytes, -⟩ := bridge_answers hrun.run
  rw [answers_synPacket] at hwritten
  rw [List.flatMap_singleton] at hbytes
  exact ⟨written, c, hrun.run, hwritten, hbytes⟩

/-! ### Clients that do not wait -/

/-- While one answer at most is called for, it does not matter when the packets come. -/
theorem oneOwed_of_run (h : Run (bridge mtu m) read written c)
    (hle : (answers m.inRawBuf.cells read).length ≤ 1) : OneOwed m read written c := by
  induction h with
  | start => exact oneOwed_start m
  | @step read _ _ as _ _ h hstep ih =>
    have hbefore := (answers_mono m.inRawBuf.cells read as).length_le
    exact (ih (Nat.le_trans hbefore hle)).step (Nat.le_trans hle (by omega)) hstep (h.step hstep)

/-- The socket may give the first two answers together: `socket2tun` then calls `recv` once
less than there are answers, and keeps one. -/
theorem exists_run_behind {raws : List (List UInt8)} (hraws : 1 < raws.length)
    (hlen : ∀ raw ∈ raws, raw.length ≤ 152) :
    ∃ written host, Run socket2tunStage (raws.flatMap frame) written host ∧
      socket2tunStage.AtRest host ∧ written.length < raws.length := by
  obtain ⟨raw, raw', raws, rfl⟩ : ∃ raw raw' rest, raws = raw :: raw' :: rest := by
    match raws with
    | raw :: raw' :: rest => exact ⟨raw, raw', rest, rfl⟩
  let chunks := (frame raw ++ frame raw') :: raws.map frame
  have hchunks : ∀ c ∈ chunks, c ≠ [] ∧ c.length ≤ 2048 := by
    intro c hc
    rw [← List.length_pos_iff]
    rcases List.mem_cons.mp hc with rfl | hc
    · have hraw := hlen raw (by simp)
      have hraw' := hlen raw' (by simp)
      rw [List.length_append, length_frame, length_frame]
      omega
    · obtain ⟨p, hp, rfl⟩ := List.mem_map.mp hc
      have hle := hlen p (by simp [hp])
      rw [length_frame]
      omega
  have hflat : chunks.flatten = (raw :: raw' :: raws).flatMap frame := by
    simp [chunks, List.flatMap]
  obtain ⟨s, hsteps, hrecv, hnil⟩ := Socket2tun.exists_recv_at chunks []
    (Socket2tun.init_knows chunks) (List.append_nil chunks).symm
  obtain ⟨got, hgot, hrun⟩ := exists_run_of_steps hchunks hsteps
  have hle := Socket2tun.promised_add_chunks_le hsteps
  rw [hnil, List.append_nil] at hgot
  rw [← hgot, hflat] at hrun
  rw [hnil, Socket2tun.promised_of_aboutToRecv hrecv] at hle
  refine ⟨s.written, _, hrun, atRest_of_aboutToRecv hrecv, ?_⟩
  simp [chunks] at hle ⊢
  omega

/-- With more than one answer the last ones may be left in the buffer of `socket2tun`. -/
theorem exists_run_left {pkts : List (List UInt8)}
    (h : ∀ p ∈ pkts, p.length ≤ mtu ∧ p.length < 65536)
    (hmany : 1 < (answers m.inRawBuf.cells pkts).length) :
    ∃ written todo c, Run (bridge mtu m) pkts written c ∧ (bridge mtu m).AtRest c ∧
      answers m.inRawBuf.cells pkts = written ++ todo ∧ todo ≠ [] ∧
      c.host.held = todo.flatMap frame := by
  obtain ⟨_, c, hrun, hrest⟩ := exists_run mtu m pkts h
  obtain ⟨hfrontRest, hqueue, -⟩ := hrun.run.pipe_atRest hrest socket2tunStage_receptive
  obtain ⟨output, hfront, -⟩ := hrun.run.pipe
  obtain ⟨-, -, hout⟩ := front_atRest hfront hfrontRest
  -- the same front with another run of `socket2tun` behind it
  obtain ⟨written, host, hhost, hhostRest, hbehind⟩ :=
    exists_run_behind hmany fun _ => length_le_of_mem_answers
  rw [hqueue] at hfront hout
  rw [List.append_nil] at hout
  subst hout
  have hleft := hfront.join hhost
  have hleftRest := hfrontRest.pipe hhostRest
  obtain ⟨todo, hsplit, hheld⟩ := (bridge_atRest hleft hleftRest).host
  refine ⟨written, todo, _, hleft, hleftRest, hsplit, ?_, hheld⟩
  rintro rfl
  rw [hsplit, List.append_nil] at hbehind
  exact Nat.lt_irrefl _ hbehind

/-- **When a client need not wait.** All answers to these packets have been written whenever
the system is at rest, whatever the schedule, just when there is one answer at most: with
more of them there is a schedule that leaves some in the buffer of `socket2tun`. -/
theorem bridge_complete_iff (mtu : Nat) (m : Machine) (pkts : List (List UInt8))
    (h : ∀ p ∈ pkts, p.length ≤ mtu ∧ p.length < 65536) :
    ((∀ written c, Run (bridge mtu m) pkts written c → (bridge mtu m).AtRest c →
      written = answers m.inRawBuf.cells pkts) ↔
    (answers m.inRawBuf.cells pkts).length ≤ 1) ∧
    (1 < (answers m.inRawBuf.cells pkts).length →
      ∃ written todo c, Run (bridge mtu m) pkts written c ∧ (bridge mtu m).AtRest c ∧
        answers m.inRawBuf.cells pkts = written ++ todo ∧ todo ≠ [] ∧
        c.host.held = todo.flatMap frame) := by
  refine ⟨⟨fun hall => ?_, fun hle written c hrun hrest => ?_⟩, exists_run_left h⟩
  · by_contra hmany
    obtain ⟨written, todo, c, hrun, hrest, hsplit, htodo, -⟩ :=
      exists_run_left h (Nat.lt_of_not_le hmany)
    rw [← hall written c hrun hrest] at hsplit
    exact htodo (List.self_eq_append_right.mp hsplit)
  · exact (oneOwed_of_run hrun hle).answered hrun hrest

/-- Three SYNs call for two answers, and the second one may be left. -/
theorem bridge_complete_iff_threeSyns :
    ∃ written todo c, Run (bridge 1500 (.boot [])) [synPacket, synPacket, synPacket] written c ∧
      (bridge 1500 (.boot [])).AtRest c ∧ todo ≠ [] ∧ c.host.held = todo.flatMap frame ∧
      written ≠ answers (Machine.boot []).inRawBuf.cells [synPacket, synPacket, synPacket] := by
  have hmany : 1 < (answers (Machine.boot []).inRawBuf.cells
      [synPacket, synPacket, synPacket]).length := by
    decide +kernel
  obtain ⟨-, hsome⟩ := bridge_complete_iff 1500 (.boot []) [synPacket, synPacket, synPacket]
    (by decide)
  obtain ⟨written, todo, c, hrun, hrest, hsplit, htodo, hheld⟩ := hsome hmany
  refine ⟨written, todo, c, hrun, hrest, htodo, hheld, fun hall => htodo ?_⟩
  rw [← hall] at hsplit
  exact List.self_eq_append_right.mp hsplit

/-! ### The receive buffer -/

/-- **When the receive buffer is safe behind the bridge**: at every point of every run the
kernel has stored inside it only, just when it is no smaller than the MTU of the TUN
device. -/
theorem bridge_storedIn_iff (mtu : Nat) (m : Machine) :
    (∀ read written c, Run (bridge mtu m) read written c →
      Mem.StoredIn InBuffer m.inRawBuf
        (endState (kernelMain.run (m.started c.kernel.read))).inRawBuf) ↔ mtu ≤ 2048 := by
  constructor
  · intro h
    by_contra hmtu
    obtain ⟨pkt, hpkt⟩ : ∃ pkt : List UInt8, pkt.length = 2049 :=
      ⟨List.replicate 2049 0, List.length_replicate⟩
    obtain ⟨written, c, hrun, hrest⟩ := exists_run mtu m [pkt]
      (by simp only [List.mem_singleton, forall_eq]; omega)
    have hfits : AllSizesFit c.kernel.read :=
      (kernelMain_storedIn_iff (m.started c.kernel.read)).mp (h _ _ _ hrun.run)
    have hnext := nextFrame_clean [] (p := pkt) (by omega)
    rw [(bridge_atRest hrun.run hrest).kernel, List.flatMap_singleton] at hfits
    rw [List.append_nil] at hnext
    have hle := ((allSizesFit_of_some hnext).mp hfits).1
    omega
  · intro hmtu read written c h
    obtain ⟨input, output, htun, hkernel, -⟩ := bridge_parts h
    obtain ⟨hbytes, hpkts⟩ := run_tun2socketStage htun
    obtain ⟨rfl, -, -⟩ := run_kernelStage hkernel
    refine (kernelMain_storedIn_iff (m.started c.kernel.read)).mpr ?_
    refine allSizesFit_of_prefix (fun p hp => Nat.le_trans (hpkts p hp).2 hmtu) ?_
    rw [← hbytes, List.append_assoc]
    exact List.prefix_append _ _

end Bridge

end SantaOS
