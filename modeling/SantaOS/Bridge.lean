import SantaOS.HostLag
import SantaOS.Lib.Stage
import SantaOS.Server

/-!
# SantaOS.Bridge

The whole system as a pipeline: `tun2socket.run`, the kernel and `socket2tun.run`, with the
socket and the serial line between them. The two threads and the kernel step in any order;
the bytes on the way lie in the queues of `Stage.pipe`.

The kernel is a sequential program that reads the line byte by byte, so a run of it on the
bytes it has read so far says what it writes before it reads the next one: that is the step
relation of `kernelStage`.

Proof shape: for each stage, what a run of it has read and written (`run_tun2socketStage`,
`run_kernelStage`, `written_socket2tunStage`), that it settles, and what is the case when it
is at rest. `SantaOS.BridgeSound` puts the three together by the rules for `Stage.pipe`.

Design points:
* The socket may cut the bytes as it likes: `sendall` sends any part of what is left, and
  `recv` takes any part of what has come.
* A run of `socket2tunStage` is one of the thread on the same bytes, cut as they were taken
  (`run_socket2tunStage`), so what is known of the thread is not proved again.
-/

namespace SantaOS

open Memory Waiting BigEndian Pipeline

/-! ### tun2socket -/

/-- The steps of `tun2socket.run`. The state is what `sendall` has still to put on the
socket. A packet that does not fit its size field raises an exception: there is no step. -/
inductive Tun2socketStep (mtu : Nat) :
    List UInt8 → List (List UInt8) → List UInt8 → List UInt8 → Prop
  /-- `pkt = self.tun.read(self.tun.mtu)`, and the bytes handed to `sendall` -/
  | read {pkt bytes : List UInt8} (hmtu : pkt.length ≤ mtu) (h : tun2socket pkt = some bytes) :
    Tun2socketStep mtu [] [pkt] [] bytes
  /-- The socket takes some of the bytes. -/
  | sendall {bytes : List UInt8} (rest : List UInt8) (h : bytes ≠ []) :
    Tun2socketStep mtu (bytes ++ rest) [] bytes rest

/-- The thread `tun2socket`, from packets to bytes. -/
def tun2socketStage (mtu : Nat) : Stage (List UInt8) (List UInt8) UInt8 where
  start := []
  Step := Tun2socketStep mtu

section Tun2socket

variable {mtu : Nat} {pkts : List (List UInt8)} {bytes sending : List UInt8}

/-- What has gone to the socket and what is still to go are the frames of the packets. -/
theorem run_tun2socketStage (h : Run (tun2socketStage mtu) pkts bytes sending) :
    bytes ++ sending = pkts.flatMap frame ∧ ∀ p ∈ pkts, p.length < 65536 ∧ p.length ≤ mtu := by
  induction h with
  | start => exact ⟨rfl, fun p hp => nomatch hp⟩
  | step _ hstep ih =>
    obtain ⟨hbytes, hpkts⟩ := ih
    cases hstep with
    | @read pkt bytes' hmtu hsend =>
      have hlt : pkt.length < 65536 := by
        by_contra hlong
        simp [tun2socket, u2B, hlong] at hsend
      obtain rfl := Option.some.inj ((tun2socket_eq pkt hlt).symm.trans hsend)
      refine ⟨?_, fun p hp => ?_⟩
      · rw [List.append_nil] at hbytes
        rw [List.append_nil, List.flatMap_append, List.flatMap_singleton, hbytes]
      · rcases List.mem_append.mp hp with hp | hp
        · exact hpkts p hp
        · obtain rfl := List.mem_singleton.mp hp
          exact ⟨hlt, hmtu⟩
    | sendall rest hne =>
      rw [List.append_nil, List.append_assoc]
      exact ⟨hbytes, hpkts⟩

theorem tun2socketStage_settles (mtu : Nat) : (tun2socketStage mtu).Settles := by
  refine .of_measure List.length ?_
  intro s as bs s' hstep
  cases hstep with
  | read hmtu h => exact .inl (List.cons_ne_nil _ _)
  | @sendall bytes rest h =>
    have hpos := List.length_pos_of_ne_nil h
    exact .inr (by rw [List.length_append]; omega)

/-- At rest everything has gone to the socket. -/
theorem sending_of_atRest (h : (tun2socketStage mtu).AtRest sending) : sending = [] := by
  by_contra hne
  refine h [] sending [] ?_ rfl
  have hstep : Tun2socketStep mtu (sending ++ []) [] sending [] := .sendall [] hne
  rwa [List.append_nil] at hstep

/-- One step reads at most one packet. -/
theorem length_read_le {s s' : List UInt8} {as : List (List UInt8)} {bs : List UInt8}
    (h : Tun2socketStep mtu s as bs s') : as.length ≤ 1 := by
  cases h with
  | read => exact Nat.le_refl 1
  | sendall => exact Nat.zero_le 1

end Tun2socket

/-! ### The kernel -/

/-- The kernel `m` before its first read. -/
def Machine.started (m : Machine) (input : List UInt8) : Machine :=
  { m with input := input, output := [], log := [] }

/-- What the kernel has written when it waits for a byte behind `input`. -/
def kernelOutput (m : Machine) (input : List UInt8) : List UInt8 :=
  (endState (kernelMain.run (m.started input))).output

/-- The bytes the kernel has read and the bytes it has written. -/
structure KernelState where
  read : List UInt8
  written : List UInt8

/-- The kernel reads on when it has written what the bytes read so far make it write. -/
inductive KernelStep (m : Machine) : KernelState → List UInt8 → List UInt8 → KernelState → Prop
  | readSerial {s : KernelState} (b : UInt8) (h : s.written = kernelOutput m s.read) :
    KernelStep m s [b] [] { s with read := s.read ++ [b] }
  | writeSerial {s : KernelState} (b : UInt8) (h : s.written ++ [b] <+: kernelOutput m s.read) :
    KernelStep m s [] [b] { s with written := s.written ++ [b] }

/-- The kernel on its serial line. -/
def kernelStage (m : Machine) : Stage KernelState UInt8 UInt8 where
  start := ⟨[], []⟩
  Step := KernelStep m

section Kernel

variable {m : Machine}

theorem kernelOutput_eq (m : Machine) (input : List UInt8) :
    kernelOutput m input = (answers m.inRawBuf.cells (frames input)).flatMap frame := by
  obtain ⟨m', hrun, hout⟩ := kernelMain_output (m.started input)
  rw [kernelOutput, hrun]
  exact hout

/-- **What has been written is never taken back**: more bytes read only add to it. -/
theorem kernelOutput_mono (m : Machine) (input more : List UInt8) :
    kernelOutput m input <+: kernelOutput m (input ++ more) := by
  obtain ⟨ps, hps⟩ := frames_mono input more
  obtain ⟨raws, hraws⟩ := answers_mono m.inRawBuf.cells (frames input) ps
  rw [kernelOutput_eq, kernelOutput_eq, ← hps, ← hraws, List.flatMap_append]
  exact List.prefix_append _ _

variable {s : KernelState} {bytes out : List UInt8}

theorem run_kernelStage (h : Run (kernelStage m) bytes out s) :
    s.read = bytes ∧ s.written = out ∧ out <+: kernelOutput m bytes := by
  induction h with
  | start => exact ⟨rfl, rfl, List.nil_prefix⟩
  | step _ hstep ih =>
    obtain ⟨hread, hwritten, hout⟩ := ih
    cases hstep with
    | readSerial b h =>
      refine ⟨congrArg (· ++ [b]) hread, by simpa using hwritten, ?_⟩
      rw [List.append_nil]
      exact hout.trans (kernelOutput_mono m _ _)
    | writeSerial b h =>
      refine ⟨by simpa using hread, congrArg (· ++ [b]) hwritten, ?_⟩
      rwa [List.append_nil, ← hwritten, ← hread]

theorem kernelStage_settles (m : Machine) : (kernelStage m).Settles := by
  refine .of_measure (fun s => (kernelOutput m s.read).length - s.written.length) ?_
  intro s as bs s' hstep
  cases hstep with
  | readSerial b h => exact .inl (List.cons_ne_nil _ _)
  | writeSerial b h =>
    have hle := h.length_le
    simp only [List.length_append, List.length_singleton] at hle ⊢
    exact .inr (by omega)

/-- At rest the kernel has written all that the bytes read make it write. -/
theorem written_of_atRest (h : Run (kernelStage m) bytes out s)
    (hrest : (kernelStage m).AtRest s) : out = kernelOutput m bytes := by
  obtain ⟨rfl, rfl, rest, hout⟩ := run_kernelStage h
  cases rest with
  | nil => rwa [List.append_nil] at hout
  | cons b rest =>
    refine absurd rfl (hrest [] [b] _ (.writeSerial b ⟨rest, ?_⟩))
    rwa [List.append_assoc]

theorem kernelStage_receptive (m : Machine) : (kernelStage m).Receptive := by
  intro bytes out s hrun hrest q hq
  obtain ⟨hread, hwritten, -⟩ := run_kernelStage hrun
  obtain ⟨b, q, rfl⟩ := List.exists_cons_of_ne_nil hq
  refine ⟨[b], q, [], _, rfl, .readSerial b ?_⟩
  rw [hwritten, hread]
  exact written_of_atRest hrun hrest

end Kernel

/-! ### socket2tun -/

/-- The steps of `socket2tun.run`: a call of `recv` takes up to 2048 bytes that have come,
and the other statements take none. -/
inductive Socket2tunStep :
    Socket2tun.State → List UInt8 → List (List UInt8) → Socket2tun.State → Prop
  | recv {s s' : Socket2tun.State} {c : List UInt8} (hrecv : s.AboutToRecv) (hc : c ≠ [])
    (hlen : c.length ≤ 2048) (h : Socket2tun.step { s with chunks := [c] } = some s') :
    Socket2tunStep s c [] s'
  | run {s s' : Socket2tun.State} {pkts : List (List UInt8)} (hrecv : ¬ s.AboutToRecv)
    (h : Socket2tun.step s = some s') (hpkts : s'.written = s.written ++ pkts) :
    Socket2tunStep s [] pkts s'

/-- The thread `socket2tun`, from bytes to packets. -/
def socket2tunStage : Stage Socket2tun.State UInt8 (List UInt8) where
  start := Socket2tun.init []
  Step := Socket2tunStep

namespace Socket2tun

/-- What the socket still holds does not matter to a statement that does not read it. -/
theorem step_frame {s t : State} (hrecv : ¬ s.AboutToRecv) (h : step s = some t)
    (rest : List (List UInt8)) : t.chunks = s.chunks ∧
      step { s with chunks := rest } = some { t with chunks := rest } := by
  cases move_of_step h with
  | recv => exact absurd (.inl rfl) hrecv
  | recvMore => exact absurd (.inr rfl) hrecv
  | readSize pkt size size' chunks written hsize => exact ⟨rfl, by simp [step, hsize]⟩
  | few pkt size chunks written hlen => exact ⟨rfl, by simp [step, Nat.not_le_of_lt hlen]⟩
  | enough pkt size chunks written hlen => exact ⟨rfl, by simp [step, hlen]⟩
  | short pkt size chunks written hlen => exact ⟨rfl, by simp [step, hlen]⟩
  | whole pkt size chunks written hlen => exact ⟨rfl, by simp [step, Nat.not_lt_of_le hlen]⟩
  | strip | write | remove => exact ⟨rfl, rfl⟩

/-- A call of `recv` takes the next result and leaves the others. -/
theorem step_recv {s t : State} (hrecv : s.AboutToRecv) {c : List UInt8}
    (h : step { s with chunks := [c] } = some t) (rest : List (List UInt8)) :
    t.chunks = [] ∧ t.written = s.written ∧
      step { s with chunks := c :: rest } = some { t with chunks := rest } := by
  obtain ⟨point, pkt, size, chunks, written⟩ := s
  rcases hrecv with hpoint | hpoint
  · obtain rfl : point = .recv := hpoint
    obtain rfl := Option.some.inj h
    exact ⟨rfl, rfl, rfl⟩
  · obtain rfl : point = .recvMore := hpoint
    obtain rfl := Option.some.inj h
    exact ⟨rfl, rfl, rfl⟩

/-- Each statement only adds to what has been written. -/
theorem written_of_step {s t : State} (h : step s = some t) :
    ∃ pkts, t.written = s.written ++ pkts := by
  cases move_of_step h with
  | write => exact ⟨_, rfl⟩
  | recv | few | enough | readSize | strip | short | whole | recvMore | remove =>
    exact ⟨[], (List.append_nil _).symm⟩

end Socket2tun

section Socket2tun

open Socket2tun

variable {bytes : List UInt8} {written : List (List UInt8)} {s : Socket2tun.State}

/-- A run of the stage is a run of the thread on the bytes taken, cut as they were. -/
theorem run_socket2tunStage (h : Run socket2tunStage bytes written s) :
    s.chunks = [] ∧ s.written = written ∧
      ∃ got, got.flatten = bytes ∧
        ∀ rest, Steps (Socket2tun.init (got ++ rest)) { s with chunks := rest } := by
  induction h with
  | start => exact ⟨rfl, rfl, [], rfl, fun rest => .refl⟩
  | @step _ _ _ c _ _ _ hstep ih =>
    obtain ⟨hchunks, hwritten, got, hgot, hsteps⟩ := ih
    cases hstep with
    | recv hrecv hc hlen hs =>
      obtain ⟨hnil, hsame, -⟩ := step_recv hrecv hs []
      refine ⟨hnil, by rw [hsame, hwritten, List.append_nil], got ++ [c], by simp [hgot],
        fun rest => ?_⟩
      rw [List.append_assoc, List.singleton_append]
      exact (hsteps (c :: rest)).tail (step_recv hrecv hs rest).2.2
    | run hrecv hs hpkts =>
      refine ⟨(step_frame hrecv hs []).1.trans hchunks, by rw [hpkts, hwritten], got,
        by rw [hgot, List.append_nil], fun rest => ?_⟩
      exact (hsteps rest).tail (step_frame hrecv hs rest).2

/-- And a run of the thread is a run of the stage, if `recv` gives something each time and
no more than it is asked for. -/
theorem exists_run_of_steps {chunks : List (List UInt8)}
    (hchunks : ∀ c ∈ chunks, c ≠ [] ∧ c.length ≤ 2048) (h : Steps (Socket2tun.init chunks) s) :
    ∃ got, chunks = got ++ s.chunks ∧
      Run socket2tunStage got.flatten s.written { s with chunks := [] } := by
  induction h with
  | refl => exact ⟨[], rfl, .start⟩
  | @tail s t _ hstep ih =>
    obtain ⟨got, hgot, hrun⟩ := ih
    by_cases hrecv : s.AboutToRecv
    · obtain ⟨c, hcut, hwritten, hs⟩ : ∃ c, s.chunks = c :: t.chunks ∧ t.written = s.written ∧
          step { s with chunks := [c] } = some { t with chunks := [] } := by
        cases move_of_step hstep with
        | recv pkt size c | recvMore pkt size c => exact ⟨c, rfl, rfl, rfl⟩
        | few | enough | readSize | strip | short | whole | write | remove =>
          simp [State.AboutToRecv] at hrecv
      obtain ⟨hne, hlen⟩ := hchunks c (by simp [hgot, hcut])
      refine ⟨got ++ [c], by simp [hgot, hcut], ?_⟩
      have hrun' := hrun.step (.recv hrecv hne hlen hs)
      rwa [List.append_nil, ← hwritten, ← List.flatten_concat] at hrun'
    · obtain ⟨hsame, hs⟩ := step_frame hrecv hstep []
      obtain ⟨pkts, hpkts⟩ := written_of_step hstep
      refine ⟨got, hsame ▸ hgot, ?_⟩
      have hrun' := hrun.step (.run hrecv hs hpkts)
      rwa [List.append_nil, ← hpkts] at hrun'

theorem knows_of_run (h : Run socket2tunStage bytes written s) : s.Knows := by
  obtain ⟨hchunks, -, got, -, hsteps⟩ := run_socket2tunStage h
  have hself : { s with chunks := [] } = s := by rw [← hchunks]
  have hrun := hsteps []
  rw [hself] at hrun
  exact steps_knows (init_knows _) hrun

/-- **Of the frames on its line** the thread has written the first ones, and holds the
beginning of the others. -/
theorem written_socket2tunStage (h : Run socket2tunStage bytes written s) {more : List UInt8}
    {pkts : List (List UInt8)} (hpkts : ∀ p ∈ pkts, p.length < 65536)
    (hbytes : bytes ++ more = pkts.flatMap frame) :
    ∃ todo, pkts = written ++ todo ∧ s.held ++ more = todo.flatMap frame := by
  obtain ⟨-, hwritten, got, hgot, hsteps⟩ := run_socket2tunStage h
  have hchunks : (got ++ [more]).flatten = pkts.flatMap frame := by
    rw [← hbytes, List.flatten_append, hgot, List.flatten_singleton]
  obtain ⟨todo, hsplit, hundecoded⟩ := (steps_decoding hpkts hchunks (hsteps [more])).split
  rw [undecoded_eq_held, List.flatten_singleton] at hundecoded
  exact ⟨todo, hwritten ▸ hsplit, hundecoded⟩

theorem socket2tunStage_settles : socket2tunStage.Settles := by
  refine .of_measure (fun s : Socket2tun.State => s.point.toRecv) ?_
  intro s as bs s' hstep
  cases hstep with
  | recv hrecv hc => exact .inl hc
  | run hrecv h => exact .inr (step_toRecv hrecv h).2.2

theorem aboutToRecv_of_atRest (h : Run socket2tunStage bytes written s)
    (hrest : socket2tunStage.AtRest s) : s.AboutToRecv := by
  by_contra hrecv
  obtain ⟨t, hstep⟩ := exists_step (knows_of_run h) hrecv
  obtain ⟨pkts, hpkts⟩ := written_of_step hstep
  exact hrest [] pkts t (.run hrecv hstep hpkts) rfl

theorem atRest_of_aboutToRecv (hrecv : s.AboutToRecv) : socket2tunStage.AtRest s := by
  intro as bs s' hstep
  cases hstep with
  | recv _ hc => exact hc
  | run hnot => exact absurd hrecv hnot

theorem socket2tunStage_receptive : socket2tunStage.Receptive := by
  intro bytes written s h hrest q hq
  have hrecv := aboutToRecv_of_atRest h hrest
  obtain ⟨b, q, rfl⟩ := List.exists_cons_of_ne_nil hq
  obtain ⟨t, hstep⟩ : ∃ t, Socket2tun.step { s with chunks := [[b]] } = some t := by
    rcases hrecv with hpoint | hpoint
    · exact ⟨_, by simp only [step, hpoint]; rfl⟩
    · exact ⟨_, by simp only [step, hpoint]; rfl⟩
  exact ⟨[b], q, [], t, rfl, .recv hrecv (List.cons_ne_nil b []) (by simp) hstep⟩

end Socket2tun

/-! ### The pipeline -/

/-- The bytes that `sendall` has still to send, those on the way to the kernel, the kernel,
the bytes on the way back, and `socket2tun.run`. -/
abbrev BridgeState : Type :=
  (List UInt8 × List UInt8 × KernelState) × List UInt8 × Socket2tun.State

/-- `tun2socket.run`, the kernel `m` and `socket2tun.run`, from the TUN device to the TUN
device. -/
def bridge (mtu : Nat) (m : Machine) : Stage BridgeState (List UInt8) (List UInt8) :=
  ((tun2socketStage mtu).pipe (kernelStage m)).pipe socket2tunStage

end SantaOS
