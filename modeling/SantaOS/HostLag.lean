import SantaOS.HostSound

/-!
# SantaOS.HostLag

How far `socket2tun.run` is behind what it has received when it calls `recv`.

`if len(pkt)>=5:` cuts one packet off the buffer and goes back to `recv`, whatever is left.
So the thread keeps up as long as no result of `recv` holds the ends of two frames: the
frames received are then never more than the packets written and the one promised
(`OnTime`). It never catches up otherwise, because at most one packet is written between
two calls of `recv`.
-/

namespace SantaOS

open Memory BigEndian

/-! ### Frames in the first bytes of a stream -/

/-- How many frames are complete after `n` bytes of the frames of `pkts`. -/
def wholeFrames : List (List UInt8) → Nat → Nat
  | [], _ => 0
  | p :: pkts, n =>
    if (frame p).length ≤ n then wholeFrames pkts (n - (frame p).length) + 1 else 0

theorem wholeFrames_of_lt {p : List UInt8} (pkts : List (List UInt8)) {n : Nat}
    (h : n < (frame p).length) : wholeFrames (p :: pkts) n = 0 :=
  if_neg (Nat.not_le_of_lt h)

theorem wholeFrames_append (done todo : List (List UInt8)) (n : Nat) :
    wholeFrames (done ++ todo) ((done.flatMap frame).length + n) =
      done.length + wholeFrames todo n := by
  induction done with
  | nil => simp
  | cons p done ih =>
    have hlen : ((p :: done).flatMap frame).length + n =
        (frame p).length + ((done.flatMap frame).length + n) := by
      rw [List.flatMap_cons, List.length_append, Nat.add_assoc]
    rw [hlen, List.cons_append, wholeFrames, if_pos (Nat.le_add_right _ _),
      Nat.add_sub_cancel_left, ih, List.length_cons]
    omega

/-- The whole stream holds all the frames. -/
theorem wholeFrames_all (pkts : List (List UInt8)) :
    wholeFrames pkts (pkts.flatMap frame).length = pkts.length := by
  have hall := wholeFrames_append pkts [] 0
  rwa [List.append_nil] at hall

theorem wholeFrames_le_length (pkts : List (List UInt8)) (n : Nat) :
    wholeFrames pkts n ≤ pkts.length := by
  induction pkts generalizing n with
  | nil => exact Nat.le_refl 0
  | cons p pkts ih =>
    rw [wholeFrames]
    split
    · exact Nat.succ_le_succ (ih _)
    · exact Nat.zero_le _

namespace Socket2tun

/-! ### What has been received -/

/-- The bytes received, of those that the socket gives. -/
def State.received (chunks : List (List UInt8)) (s : State) : List UInt8 :=
  (chunks.take (chunks.length - s.chunks.length)).flatten

theorem received_eq {chunks got : List (List UInt8)} {s : State}
    (h : chunks = got ++ s.chunks) : s.received chunks = got.flatten := by
  have hlen : chunks.length - s.chunks.length = got.length := by
    rw [h, List.length_append, Nat.add_sub_cancel]
  rw [State.received, hlen, h, List.take_left]

/-- The bytes received and still to be decoded. -/
def State.held (s : State) : List UInt8 :=
  match s.point with
  | .recv | .test | .readSize | .strip => s.pkt
  | .whileShort | .recvMore | .write => prolog s.size ++ s.pkt
  | .remove => s.pkt.drop s.size

theorem undecoded_eq_held (s : State) : s.undecoded = s.held ++ s.chunks.flatten := by
  obtain ⟨point, pkt, size, chunks, written⟩ := s
  cases point with
  | recv | test | readSize | strip | remove => rfl
  | whileShort | recvMore | write => exact (List.append_assoc _ _ _).symm

/-- The complete frames among the bytes received are the packets written and the ones
complete in the bytes held. -/
theorem wholeFrames_received {pkts chunks got todo : List (List UInt8)} {s : State}
    (hchunks : chunks.flatten = pkts.flatMap frame) (hgot : chunks = got ++ s.chunks)
    (hpkts : pkts = s.written ++ todo) (hbytes : s.undecoded = todo.flatMap frame) :
    wholeFrames pkts got.flatten.length = s.written.length + wholeFrames todo s.held.length := by
  have hstream : got.flatten ++ s.chunks.flatten =
      s.written.flatMap frame ++ s.held ++ s.chunks.flatten :=
    calc got.flatten ++ s.chunks.flatten = chunks.flatten := by rw [hgot, List.flatten_append]
      _ = s.written.flatMap frame ++ s.undecoded := by
        rw [hchunks, hpkts, List.flatMap_append, hbytes]
      _ = s.written.flatMap frame ++ s.held ++ s.chunks.flatten := by
        rw [undecoded_eq_held, List.append_assoc]
  rw [List.append_cancel_right hstream, hpkts, List.length_append, wholeFrames_append]

/-- A prolog not yet complete. -/
theorem wholeFrames_of_few (todo : List (List UInt8)) {n : Nat} (h : n < 5) :
    wholeFrames todo n = 0 := by
  cases todo with
  | nil => rfl
  | cons p todo =>
    refine wholeFrames_of_lt todo ?_
    rw [length_frame]
    omega

/-- A packet not yet complete. -/
theorem wholeFrames_of_short {size : Nat} {pkt rest : List UInt8} {todo : List (List UInt8)}
    (hsize : size < 65536) (htodo : ∀ p ∈ todo, p.length < 65536)
    (h : prolog size ++ (pkt ++ rest) = todo.flatMap frame) (hlen : pkt.length < size) :
    wholeFrames todo (prolog size ++ pkt).length = 0 := by
  obtain ⟨p, todo', rfl, hp, -⟩ := cons_of_prolog_append_eq_frames hsize htodo h
  refine wholeFrames_of_lt todo' ?_
  rw [length_frame, List.length_append, length_prolog, hp]
  omega

/-! ### Keeping up -/

/-- Every packet whose last byte has been received has been written. -/
def State.UpToDate (pkts chunks : List (List UInt8)) (s : State) : Prop :=
  pkts.take (wholeFrames pkts (s.received chunks).length) <+: s.written

/-- No result of `recv` holds the ends of two frames. -/
def OneAtATime (pkts chunks : List (List UInt8)) : Prop :=
  ∀ got c rest, chunks = got ++ c :: rest →
    wholeFrames pkts (got ++ [c]).flatten.length ≤ wholeFrames pkts got.flatten.length + 1

/-- The frames received are the packets written, and the one promised. -/
structure OnTime (pkts chunks : List (List UInt8)) (s : State) : Prop where
  decoding : Decoding pkts s
  onTime : ∃ got, chunks = got ++ s.chunks ∧ wholeFrames pkts got.flatten.length ≤ s.promised

theorem init_onTime {pkts chunks : List (List UInt8)}
    (hchunks : chunks.flatten = pkts.flatMap frame) : OnTime pkts chunks (init chunks) where
  decoding := init_decoding hchunks
  onTime := ⟨[], rfl, Nat.le_of_eq (wholeFrames_of_few pkts (by simp))⟩

theorem step_onTime {pkts chunks : List (List UInt8)} (hpkts : ∀ p ∈ pkts, p.length < 65536)
    (hchunks : chunks.flatten = pkts.flatMap frame) (hone : OneAtATime pkts chunks)
    {s t : State} (h : OnTime pkts chunks s) (hstep : step s = some t) :
    OnTime pkts chunks t := by
  refine ⟨step_decoding hpkts h.decoding hstep, ?_⟩
  obtain ⟨⟨⟨todo, hwritten, hbytes⟩, hpoint⟩, got, hgot, hle⟩ := h
  have hheld := wholeFrames_received hchunks hgot hwritten hbytes
  have htodo : ∀ p ∈ todo, p.length < 65536 := fun p hp =>
    hpkts p (hwritten ▸ List.mem_append_right _ hp)
  cases move_of_step hstep with
  | recv pkt size c rest written =>
    exact ⟨got ++ [c], by simp [hgot],
      Nat.le_trans (hone got c rest hgot) (Nat.succ_le_succ hle)⟩
  | recvMore pkt size c rest written =>
    exact ⟨got ++ [c], by simp [hgot],
      Nat.le_trans (hone got c rest hgot) (Nat.succ_le_succ hle)⟩
  | few pkt size rest written hlen =>
    refine ⟨got, hgot, Nat.le_of_eq ?_⟩
    rw [hheld, show State.held _ = pkt from rfl, wholeFrames_of_few todo hlen]
    rfl
  | short pkt size rest written hlen =>
    refine ⟨got, hgot, Nat.le_of_eq ?_⟩
    rw [hheld, show State.held _ = prolog size ++ pkt from rfl,
      wholeFrames_of_short hpoint htodo hbytes hlen]
    rfl
  | write pkt size rest written =>
    exact ⟨got, hgot, by simpa [State.promised] using hle⟩
  | enough | readSize | strip | whole | remove => exact ⟨got, hgot, hle⟩

theorem steps_onTime {pkts chunks : List (List UInt8)} (hpkts : ∀ p ∈ pkts, p.length < 65536)
    (hchunks : chunks.flatten = pkts.flatMap frame) (hone : OneAtATime pkts chunks) {s : State}
    (hsteps : Steps (init chunks) s) : OnTime pkts chunks s :=
  steps_invariant (init_onTime hchunks) (fun _ _ _ => step_onTime hpkts hchunks hone) hsteps

theorem OnTime.upToDate {pkts chunks : List (List UInt8)} {s : State}
    (h : OnTime pkts chunks s) (hrecv : s.AboutToRecv) : s.UpToDate pkts chunks := by
  obtain ⟨⟨⟨todo, hwritten, -⟩, -⟩, got, hgot, hle⟩ := h
  rw [promised_of_aboutToRecv hrecv] at hle
  rw [State.UpToDate, received_eq hgot]
  exact List.prefix_of_prefix_length_le (List.take_prefix _ _) (hwritten ▸ List.prefix_append _ _)
    (Nat.le_trans (List.length_take_le _ _) hle)

/-! ### Falling behind -/

/-- When everything has been received and written, every packet had a size that fits. -/
theorem lt_of_upToDate {pkts chunks : List (List UInt8)}
    (hchunks : chunks.flatten = pkts.flatMap frame)
    (h : ∀ s, Steps (init chunks) s → s.AboutToRecv → s.UpToDate pkts chunks) :
    ∀ p ∈ pkts, p.length < 65536 := by
  obtain ⟨t, hsteps, hrecv, htchunks⟩ :=
    exists_recv_at chunks [] (init_knows chunks) (List.append_nil _).symm
  have hgot : chunks = chunks ++ t.chunks := by rw [htchunks, List.append_nil]
  have hwritten := h t hsteps hrecv
  rw [State.UpToDate, received_eq hgot, hchunks, wholeFrames_all, List.take_length] at hwritten
  intro p hp
  exact steps_written_lt hsteps p (hwritten.subset hp)

/-- One result of `recv` lets one packet be written. -/
theorem oneAtATime_of_upToDate {pkts chunks : List (List UInt8)}
    (hpkts : ∀ p ∈ pkts, p.length < 65536) (hchunks : chunks.flatten = pkts.flatMap frame)
    (h : ∀ s, Steps (init chunks) s → s.AboutToRecv → s.UpToDate pkts chunks) :
    OneAtATime pkts chunks := by
  intro got c rest hcut
  obtain ⟨t, hsteps, hrecv, htchunks⟩ := exists_recv_at got (c :: rest) (init_knows chunks) hcut
  obtain ⟨u, hsteps', hurecv, huchunks, hle⟩ :=
    exists_recv_next (steps_knows (init_knows chunks) hsteps) hrecv htchunks
  -- what was written before was complete before
  obtain ⟨⟨todo, hwritten, hbytes⟩, -⟩ := steps_decoding hpkts hchunks hsteps
  have hbefore := wholeFrames_received hchunks (hcut.trans (by rw [htchunks])) hwritten hbytes
  -- what is complete after it is written after it
  have hafter := (h u (hsteps.trans hsteps') hurecv).length_le
  rw [received_eq (hcut.trans (by rw [huchunks, List.append_cons])), List.length_take,
    Nat.min_eq_left (wholeFrames_le_length _ _)] at hafter
  omega

/-- **The thread is up to date at each call of `recv`** just when no result of `recv` holds
the ends of two frames. -/
theorem upToDate_iff {pkts chunks : List (List UInt8)}
    (hchunks : chunks.flatten = pkts.flatMap frame) :
    (∀ s, Steps (init chunks) s → s.AboutToRecv → s.UpToDate pkts chunks) ↔
      (∀ p ∈ pkts, p.length < 65536) ∧ OneAtATime pkts chunks := by
  constructor
  · intro h
    have hpkts := lt_of_upToDate hchunks h
    exact ⟨hpkts, oneAtATime_of_upToDate hpkts hchunks h⟩
  · rintro ⟨hpkts, hone⟩ s hsteps hrecv
    exact (steps_onTime hpkts hchunks hone hsteps).upToDate hrecv

end Socket2tun

/-! ### The kernel's packets -/

/-- **When the host decoder sits on a complete packet.** Whatever the kernel sends and
however the socket splits it, every packet received is written at each call of `recv`, in
the outer and in the inner loop, just when the packets fit their size field and no result
of `recv` holds the ends of two frames. -/
theorem socket2tun_upToDate_iff (bufs : List (Ptr UInt8 × Nat)) (m : Machine) :
    ∃ m' stream, (sendRawPackets bufs).run m = .ok () m' ∧ m'.output = m.output ++ stream ∧
      ∀ chunks, chunks.flatten = stream →
        ((∀ s, Socket2tun.Steps (Socket2tun.init chunks) s → s.AboutToRecv →
            s.UpToDate (packets bufs) chunks) ↔
          (∀ b ∈ bufs, b.2 ≤ 65535) ∧ Socket2tun.OneAtATime (packets bufs) chunks) := by
  obtain ⟨m', hrun, hout⟩ := run_sendRawPackets bufs m
  refine ⟨m', (packets bufs).flatMap frame, hrun, hout, fun chunks hchunks => ?_⟩
  rw [Socket2tun.upToDate_iff hchunks, packets_lt_iff]

/-- Two packets received at once: the second one is left in the buffer. -/
theorem not_upToDate :
    ∃ m' s, (sendRawPackets [(Ptr.ofList [0x45, 0x0F], 2), (Ptr.ofList [0x45], 1)]).run
        (Machine.boot []) = .ok () m' ∧
      Socket2tun.Steps (Socket2tun.init [m'.output]) s ∧ s.AboutToRecv ∧
      ¬ s.UpToDate (packets [(Ptr.ofList [0x45, 0x0F], 2), (Ptr.ofList [0x45], 1)])
        [m'.output] := by
  obtain ⟨m', hrun, hout⟩ := run_sendRawPackets
    [(Ptr.ofList [0x45, 0x0F], 2), (Ptr.ofList [0x45], 1)] (Machine.boot [])
  have hstream : m'.output =
      [0x0F, 0xAB, 0x10, 0, 2, 0x45, 0x0F, 0x0F, 0xAB, 0x10, 0, 1, 0x45] := by
    rw [hout]
    decide
  refine ⟨m', ⟨.recv, [0x0F, 0xAB, 0x10, 0, 1, 0x45], 2, [], [[0x45, 0x0F]]⟩, hrun, ?_,
    .inl rfl, ?_⟩
  · rw [hstream]
    exact .head rfl <| .head rfl <| .head rfl <| .head rfl <| .head rfl <| .head rfl <|
      .head rfl .refl
  · rw [hstream, Socket2tun.State.UpToDate]
    decide

end SantaOS
