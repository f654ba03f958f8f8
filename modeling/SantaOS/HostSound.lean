import SantaOS.Framing
import SantaOS.HostRun

/-!
# SantaOS.HostSound

`socket2tun.run` takes the kernel's byte stream apart into the packets that were sent,
however the socket cuts the stream.

The invariant is `Decoding`: what was written and what the bytes still to be decoded are
the frames of, one after the other, are all the packets. `State.undecoded` says for each
program point which bytes these are; inside a packet the prolog that was stripped counts
as still there. `step_decoding` keeps the invariant statement by statement.
-/

namespace SantaOS

open Memory Waiting BigEndian

/-! ### Prologs -/

/-- The magic number and the size of a packet. -/
def prolog (size : Nat) : List UInt8 := magic ++ encode 2 size

@[simp] theorem length_prolog (size : Nat) : (prolog size).length = 5 := by
  simp [prolog, magic]

theorem frame_eq_prolog (p : List UInt8) : frame p = prolog p.length ++ p := by
  rw [frame, prolog, List.append_assoc]

/-- `B2u( pkt[3:5] )` reads the size in the prolog. -/
theorem B2u_prolog {size : Nat} (h : size < 65536) {pkt : List UInt8}
    (hpkt : pkt.take 5 = prolog size) : B2u ((pkt.drop 3).take 2) = some size := by
  have htake : (pkt.drop 3).take 2 = encode 2 size := by
    have hdrop : (pkt.take 5).drop 3 = encode 2 size := by
      rw [hpkt]
      rfl
    rw [← hdrop, List.drop_take]
  rw [htake, B2u, if_neg (by simp), if_pos (by simp), decode_encode_of_lt h]

theorem prolog_inj {m n : Nat} (hm : m < 65536) (hn : n < 65536) (h : prolog m = prolog n) :
    m = n := by
  have hread : B2u (((prolog m).drop 3).take 2) = some m := B2u_prolog hm rfl
  rw [h, B2u_prolog hn rfl] at hread
  exact (Option.some.inj hread).symm

/-- Frames begin with a prolog: five bytes of them are the prolog of the first packet. -/
theorem cons_of_append_eq_frames {l r : List UInt8} {todo : List (List UInt8)}
    (hl : 5 ≤ l.length) (h : l ++ r = todo.flatMap frame) :
    ∃ p todo', todo = p :: todo' ∧ l.take 5 = prolog p.length ∧
      l.drop 5 ++ r = p ++ todo'.flatMap frame := by
  cases todo with
  | nil =>
    obtain ⟨rfl, -⟩ := List.append_eq_nil_iff.mp h
    simp at hl
  | cons p todo' =>
    rw [List.flatMap_cons, frame_eq_prolog, List.append_assoc] at h
    refine ⟨p, todo', rfl, ?_, ?_⟩
    · have htake := congrArg (List.take 5) h
      rwa [List.take_append_of_le_length hl, List.take_left' (by simp)] at htake
    · have hdrop := congrArg (List.drop 5) h
      rwa [List.drop_append_of_le_length hl, List.drop_left' (by simp)] at hdrop

/-- The packet behind a stripped prolog is the first one still to be written. -/
theorem cons_of_prolog_append_eq_frames {size : Nat} {l : List UInt8}
    {todo : List (List UInt8)} (hsize : size < 65536) (htodo : ∀ p ∈ todo, p.length < 65536)
    (h : prolog size ++ l = todo.flatMap frame) :
    ∃ p todo', todo = p :: todo' ∧ p.length = size ∧ l = p ++ todo'.flatMap frame := by
  obtain ⟨p, todo', rfl, htake, hdrop⟩ := cons_of_append_eq_frames (by simp) h
  rw [List.take_of_length_le (by simp)] at htake
  rw [List.drop_of_length_le (by simp), List.nil_append] at hdrop
  exact ⟨p, todo', rfl, (prolog_inj hsize (htodo p List.mem_cons_self) htake).symm, hdrop⟩

/-! ### The invariant -/

namespace Socket2tun

/-- The bytes still to be decoded. -/
def State.undecoded (s : State) : List UInt8 :=
  match s.point with
  | .recv | .test | .readSize | .strip => s.pkt ++ s.chunks.flatten
  -- inside a packet, whose prolog has been stripped
  | .whileShort | .recvMore | .write => prolog s.size ++ (s.pkt ++ s.chunks.flatten)
  -- the packet has been written and is still in the buffer
  | .remove => s.pkt.drop s.size ++ s.chunks.flatten

/-- What a program point knows of the variables. -/
def State.AtPoint (s : State) : Prop :=
  match s.point with
  | .recv | .test | .remove => True
  | .readSize => 5 ≤ s.pkt.length
  | .strip => 5 ≤ s.pkt.length ∧ s.size < 65536 ∧ s.pkt.take 5 = prolog s.size
  | .whileShort | .recvMore => s.size < 65536
  | .write => s.size < 65536 ∧ s.size ≤ s.pkt.length

/-- Some of the packets are written, the others are the bytes still to be decoded. -/
structure Decoding (pkts : List (List UInt8)) (s : State) : Prop where
  split : ∃ todo, pkts = s.written ++ todo ∧ s.undecoded = todo.flatMap frame
  atPoint : s.AtPoint

theorem init_decoding {pkts chunks : List (List UInt8)}
    (h : chunks.flatten = pkts.flatMap frame) : Decoding pkts (init chunks) where
  split := ⟨pkts, rfl, h⟩
  atPoint := trivial

/-- **Each statement keeps the invariant.** -/
theorem step_decoding {pkts : List (List UInt8)} (hpkts : ∀ p ∈ pkts, p.length < 65536)
    {s t : State} (h : Decoding pkts s) (hstep : step s = some t) : Decoding pkts t := by
  obtain ⟨⟨todo, hwritten, hbytes⟩, hpoint⟩ := h
  have htodo : ∀ p ∈ todo, p.length < 65536 := fun p hp =>
    hpkts p (hwritten ▸ List.mem_append_right _ hp)
  cases move_of_step hstep with
  | recv => exact ⟨⟨todo, hwritten, by simpa [State.undecoded] using hbytes⟩, trivial⟩
  | few => exact ⟨⟨todo, hwritten, hbytes⟩, trivial⟩
  | enough pkt size chunks written hlen => exact ⟨⟨todo, hwritten, hbytes⟩, hlen⟩
  | readSize pkt size size' chunks written hsize' =>
    obtain ⟨p, todo', rfl, htake, -⟩ := cons_of_append_eq_frames hpoint hbytes
    have hp := htodo p List.mem_cons_self
    obtain rfl := Option.some.inj ((B2u_prolog hp htake).symm.trans hsize')
    exact ⟨⟨p :: todo', hwritten, hbytes⟩, hpoint, hp, htake⟩
  | strip pkt size chunks written =>
    obtain ⟨hlen, hsize, htake⟩ := hpoint
    refine ⟨⟨todo, hwritten, ?_⟩, hsize⟩
    -- the five bytes stripped are the prolog put in front again
    calc prolog size ++ (pkt.drop 5 ++ chunks.flatten)
        = (pkt.take 5 ++ pkt.drop 5) ++ chunks.flatten := by rw [← htake, List.append_assoc]
      _ = pkt ++ chunks.flatten := by rw [List.take_append_drop]
      _ = todo.flatMap frame := hbytes
  | short => exact ⟨⟨todo, hwritten, hbytes⟩, hpoint⟩
  | whole pkt size chunks written hlen => exact ⟨⟨todo, hwritten, hbytes⟩, hpoint, hlen⟩
  | recvMore => exact ⟨⟨todo, hwritten, by simpa [State.undecoded] using hbytes⟩, hpoint⟩
  | write pkt size chunks written =>
    obtain ⟨hsize, hlen⟩ := hpoint
    obtain ⟨p, todo', rfl, hp, hrest⟩ := cons_of_prolog_append_eq_frames hsize htodo hbytes
    have htake : pkt.take size = p := by
      have htake := congrArg (List.take size) hrest
      rwa [List.take_append_of_le_length hlen, List.take_left' hp] at htake
    have hdrop : pkt.drop size ++ chunks.flatten = todo'.flatMap frame := by
      have hdrop := congrArg (List.drop size) hrest
      rwa [List.drop_append_of_le_length hlen, List.drop_left' hp] at hdrop
    exact ⟨⟨todo', by simp [htake, hwritten], hdrop⟩, trivial⟩
  | remove => exact ⟨⟨todo, hwritten, hbytes⟩, trivial⟩

theorem steps_decoding {pkts chunks : List (List UInt8)} (hpkts : ∀ p ∈ pkts, p.length < 65536)
    (hchunks : chunks.flatten = pkts.flatMap frame) {s : State} (hsteps : Steps (init chunks) s) :
    Decoding pkts s :=
  steps_invariant (init_decoding hchunks) (fun _ _ _ => step_decoding hpkts) hsteps

end Socket2tun

/-! ### The kernel's packets -/

/-- The kernel sends packets one after another, each from a buffer of its own. -/
def sendRawPackets : List (Ptr UInt8 × Nat) → Kernel Unit
  | [] => return
  | (buf, bufSz) :: bufs => do
    sendRawPacket buf bufSz
    sendRawPackets bufs

/-- The packets in the buffers. -/
def packets (bufs : List (Ptr UInt8 × Nat)) : List (List UInt8) :=
  bufs.map fun (buf, bufSz) => buf.read bufSz

/-- The sizes that fit the size field. -/
theorem packets_lt_iff (bufs : List (Ptr UInt8 × Nat)) :
    (∀ p ∈ packets bufs, p.length < 65536) ↔ ∀ b ∈ bufs, b.2 ≤ 65535 := by
  rw [packets, List.forall_mem_map]
  simp [Nat.lt_succ_iff]

theorem run_sendRawPackets (bufs : List (Ptr UInt8 × Nat)) (m : Machine) :
    ∃ m', (sendRawPackets bufs).run m = .ok () m' ∧
      m'.output = m.output ++ (packets bufs).flatMap frame := by
  induction bufs generalizing m with
  | nil => exact ⟨m, rfl, by simp [packets]⟩
  | cons b bufs ih =>
    obtain ⟨m', hrun, hout⟩ := ih { m with
      output := m.output ++ frame (b.1.read b.2)
      log := m.log ++ [.output (b.1.read b.2)] }
    refine ⟨m', ?_, by simp [hout, packets]⟩
    rw [sendRawPackets, EStateM.run_bind, run_sendRawPacket]
    exact hrun

/-- **The host decoder does not depend on how the socket splits the kernel's bytes.** At
every point of `socket2tun.run` the packets written are the first ones the kernel sent,
and the bytes still to be decoded are the frames of the others. -/
theorem socket2tun_decodes (bufs : List (Ptr UInt8 × Nat)) (hbufs : ∀ b ∈ bufs, b.2 ≤ 65535)
    (m : Machine) (hm : m.output = []) :
    ∃ m', (sendRawPackets bufs).run m = .ok () m' ∧
      ∀ chunks, chunks.flatten = m'.output →
        ∀ s, Socket2tun.Steps (Socket2tun.init chunks) s →
          ∃ todo, packets bufs = s.written ++ todo ∧ s.undecoded = todo.flatMap frame := by
  obtain ⟨m', hrun, hout⟩ := run_sendRawPackets bufs m
  rw [hm, List.nil_append] at hout
  have hpkts := (packets_lt_iff bufs).mpr hbufs
  refine ⟨m', hrun, fun chunks hchunks s hsteps => ?_⟩
  exact (Socket2tun.steps_decoding hpkts (hchunks.trans hout) hsteps).split

/-- Two packets, the second one empty; the stream is cut inside the first magic number and
inside the first packet, which has just been written. -/
theorem socket2tun_decodes_two :
    ∃ todo, packets [(Ptr.ofList [0x45, 0x0F], 2), (Ptr.ofList [], 0)] = [[0x45, 0x0F]] ++ todo ∧
      ({ point := .remove, pkt := [0x45, 0x0F, 0x0F], size := 2, chunks := [[0xAB, 0x10, 0, 0]],
         written := [[0x45, 0x0F]] } : Socket2tun.State).undecoded = todo.flatMap frame := by
  obtain ⟨m', hrun, hdecodes⟩ := socket2tun_decodes
    [(Ptr.ofList [0x45, 0x0F], 2), (Ptr.ofList [], 0)] (by decide) (Machine.boot []) rfl
  obtain ⟨m'', hrun', hout⟩ := run_sendRawPackets
    [(Ptr.ofList [0x45, 0x0F], 2), (Ptr.ofList [], 0)] (Machine.boot [])
  obtain rfl : m' = m'' := by
    rw [hrun] at hrun'
    exact (EStateM.Result.ok.inj hrun').2
  have hchunks : [[0x0F], [0xAB, 0x10, 0, 2, 0x45], [0x0F, 0x0F], [0xAB, 0x10, 0, 0]].flatten =
      m'.output := by
    rw [hout]
    decide
  have hsteps : Socket2tun.Steps
      (Socket2tun.init [[0x0F], [0xAB, 0x10, 0, 2, 0x45], [0x0F, 0x0F], [0xAB, 0x10, 0, 0]])
      ⟨.remove, [0x45, 0x0F, 0x0F], 2, [[0xAB, 0x10, 0, 0]], [[0x45, 0x0F]]⟩ :=
    .head rfl <| .head rfl <| .head rfl <| .head rfl <| .head rfl <| .head rfl <|
      .head rfl <| .head rfl <| .head rfl <| .head rfl .refl
  exact hdecodes _ hchunks _ hsteps

end SantaOS
