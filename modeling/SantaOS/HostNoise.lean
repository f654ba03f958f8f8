import SantaOS.HostSound

/-!
# SantaOS.HostNoise

`socket2tun.run` on a line with noise on it.

The thread never compares the magic number: it skips three bytes, reads a size and cuts off
as many bytes. What it writes is therefore `countedFrames` of the bytes it gets, on any
bytes and however the socket splits them. `readRawPacket` searches for the magic number, so
the two decoders agree on a stream with noise on it, whatever follows, only when there is
no noise (`decodersAgree_iff`).

Proof shape: each statement goes on cutting by byte counts (`step_counted`). For the converse
the size read behind some noise is taken from two bytes that the noise has shifted
(`field_behind_noise`); they do not depend on the next packet, whose size does vary.
-/

namespace SantaOS

open Memory Waiting BigEndian

/-! ### Cutting by byte counts -/

/-- The packets cut off a stream by byte counts: three bytes are skipped, two are the size
of the packet behind them. -/
def countedFrames (l : List UInt8) : List (List UInt8) :=
  if 5 + field l 3 2 ≤ l.length then
    (l.drop 5).take (field l 3 2) :: countedFrames (l.drop (5 + field l 3 2))
  else []
  termination_by l.length
  decreasing_by
    rw [List.length_drop]
    omega

theorem field_prolog {n : Nat} (hn : n < 65536) (l : List UInt8) :
    field (prolog n ++ l) 3 2 = n := by
  have hmagic : magic.length ≤ 3 := by decide
  rw [prolog, List.append_assoc, field_append_of_le _ 2 hmagic]
  exact (field_encode_zero 2 n l).trans (Nat.mod_eq_of_lt hn)

/-- A frame is cut off as a whole. -/
theorem countedFrames_frame {p : List UInt8} (hp : p.length < 65536) (rest : List UInt8) :
    countedFrames (frame p ++ rest) = p :: countedFrames rest := by
  have hfield : field (frame p ++ rest) 3 2 = p.length := by
    rw [frame_eq_prolog, List.append_assoc, field_prolog hp]
  have htake : ((frame p ++ rest).drop 5).take p.length = p := by
    rw [frame_eq_prolog, List.append_assoc, List.drop_left' (length_prolog _), List.take_left]
  have hdrop : (frame p ++ rest).drop (5 + p.length) = rest := List.drop_left' (length_frame p)
  rw [countedFrames, hfield, htake, hdrop, if_pos (by simp)]

/-- Only the size of a prolog counts. -/
theorem countedFrames_prolog {l : List UInt8} (h : 5 ≤ l.length) :
    countedFrames (prolog (field l 3 2) ++ l.drop 5) = countedFrames l := by
  have hlen : (prolog (field l 3 2) ++ l.drop 5).length = l.length := by
    rw [List.length_append, length_prolog, List.length_drop]
    omega
  have hdrop (n : Nat) : (prolog (field l 3 2) ++ l.drop 5).drop (5 + n) = l.drop (5 + n) := by
    rw [← List.drop_drop, List.drop_left' (length_prolog _), List.drop_drop]
  have hdrop₀ : (prolog (field l 3 2) ++ l.drop 5).drop 5 = l.drop 5 := hdrop 0
  rw [countedFrames, field_prolog (field_lt l 3 2), hlen, hdrop, hdrop₀, ← countedFrames]

/-- The first packet, and the bytes behind it. -/
theorem countedFrames_eq_cons {l p : List UInt8} {ps : List (List UInt8)}
    (h : countedFrames l = p :: ps) :
    field l 3 2 = p.length ∧ countedFrames (l.drop (frame p).length) = ps := by
  rw [countedFrames] at h
  split at h
  · rename_i hlen
    obtain ⟨rfl, rfl⟩ := List.cons_eq_cons.mp h
    have hp : ((l.drop 5).take (field l 3 2)).length = field l 3 2 := by
      rw [List.length_take, List.length_drop]
      omega
    exact ⟨hp.symm, by rw [length_frame, hp]⟩
  · cases h

/-- The first packets, and the bytes behind them. -/
theorem countedFrames_eq_append {l : List UInt8} {ps rest : List (List UInt8)}
    (h : countedFrames l = ps ++ rest) :
    countedFrames (l.drop (ps.flatMap frame).length) = rest := by
  induction ps generalizing l with
  | nil => exact h
  | cons p ps ih =>
    obtain ⟨-, hps⟩ := countedFrames_eq_cons h
    rw [List.flatMap_cons, List.length_append, ← List.drop_drop]
    exact ih hps

/-! ### Lengths of streams -/

theorem le_length_flatMap_frame (pkts : List (List UInt8)) :
    5 * pkts.length ≤ (pkts.flatMap frame).length := by
  induction pkts with
  | nil => exact Nat.le_refl 0
  | cons p pkts ih =>
    rw [List.flatMap_cons, List.length_append, List.length_cons, length_frame]
    omega

theorem length_flatMap_frame_le {pkts : List (List UInt8)} (h : ∀ p ∈ pkts, p.length < 65536) :
    (pkts.flatMap frame).length ≤ 65540 * pkts.length := by
  induction pkts with
  | nil => exact Nat.le_refl 0
  | cons p pkts ih =>
    have hp := h p List.mem_cons_self
    have hpkts := ih fun q hq => h q (List.mem_cons_of_mem p hq)
    rw [List.flatMap_cons, List.length_append, List.length_cons, length_frame]
    omega

namespace Socket2tun

/-! ### What is written -/

/-- **Each statement goes on cutting by byte counts.** -/
theorem step_counted {s t : State} (h : s.Knows) (hstep : step s = some t) :
    s.written ++ countedFrames s.undecoded = t.written ++ countedFrames t.undecoded := by
  cases move_of_step hstep with
  | recv | recvMore => simp [State.undecoded]
  | strip pkt size chunks written =>
    obtain ⟨hlen, hsize, -⟩ : 5 ≤ pkt.length ∧ size = field pkt 3 2 ∧ size < 65536 := h
    have hfield : field (pkt ++ chunks.flatten) 3 2 = size :=
      (field_append_left _ hlen).trans hsize.symm
    have hprolog := countedFrames_prolog (l := pkt ++ chunks.flatten)
      (by rw [List.length_append]; omega)
    rw [hfield, List.drop_append_of_le_length hlen] at hprolog
    exact congrArg (written ++ ·) hprolog.symm
  | write pkt size chunks written =>
    obtain ⟨hsize, hlen⟩ : size < 65536 ∧ size ≤ pkt.length := h
    have hp : (pkt.take size).length = size := List.length_take_of_le hlen
    have hframe := countedFrames_frame (p := pkt.take size) (by omega)
      (pkt.drop size ++ chunks.flatten)
    rw [frame_eq_prolog, hp, List.append_assoc, ← List.append_assoc (pkt.take size),
      List.take_append_drop] at hframe
    rw [show State.undecoded _ = prolog size ++ (pkt ++ chunks.flatten) from rfl, hframe,
      List.append_cons]
    rfl
  | few | enough | readSize | short | whole | remove => rfl

/-- **What is written does not depend on how the socket splits the bytes**, whatever bytes
they are. -/
theorem steps_counted {chunks : List (List UInt8)} {s : State} (hsteps : Steps (init chunks) s) :
    countedFrames chunks.flatten = s.written ++ countedFrames s.undecoded := by
  refine steps_invariant (P := fun s =>
    countedFrames chunks.flatten = s.written ++ countedFrames s.undecoded) rfl ?_ hsteps
  intro s t hs ih hstep
  exact ih.trans (step_counted hs hstep)

/-- The size of each packet written is read where the packets before it end. -/
theorem field_of_written {chunks : List (List UInt8)} {s : State}
    (hsteps : Steps (init chunks) s) {ps rest : List (List UInt8)} {q : List UInt8}
    (hwritten : s.written <+: ps ++ q :: rest) (hlong : ps.length < s.written.length) :
    field (chunks.flatten.drop (ps.flatMap frame).length) 3 2 = q.length := by
  have hfirst : ps ++ [q] <+: s.written := by
    refine List.prefix_of_prefix_length_le ?_ hwritten ?_
    · exact ⟨rest, List.append_assoc _ _ _⟩
    · rwa [List.length_append, List.length_singleton]
  obtain ⟨r, hr⟩ := hfirst
  have hcounted := steps_counted hsteps
  rw [← hr, List.append_assoc, List.append_assoc] at hcounted
  exact (countedFrames_eq_cons (countedFrames_eq_append hcounted)).1

/-! ### How much is written -/

/-- Every byte is in a packet written, with its prolog, or still to be decoded. -/
theorem step_accounts {s t : State} (h : s.Knows) (hstep : step s = some t) :
    (s.written.flatMap frame).length + s.undecoded.length =
      (t.written.flatMap frame).length + t.undecoded.length := by
  cases move_of_step hstep with
  | recv | recvMore => simp [State.undecoded]
  | strip pkt size chunks written =>
    have hlen : 5 ≤ pkt.length := h.1
    simp only [State.undecoded, List.length_append, List.length_drop, length_prolog]
    omega
  | write pkt size chunks written =>
    have hlen : size ≤ pkt.length := h.2
    simp only [State.undecoded, List.flatMap_append, List.flatMap_singleton, List.length_append,
      List.length_drop, List.length_take_of_le hlen, length_prolog, length_frame]
    omega
  | few | enough | readSize | short | whole | remove => rfl

theorem steps_accounts {chunks : List (List UInt8)} {s : State} (hsteps : Steps (init chunks) s) :
    chunks.flatten.length = (s.written.flatMap frame).length + s.undecoded.length := by
  refine steps_invariant (P := fun s =>
    chunks.flatten.length = (s.written.flatMap frame).length + s.undecoded.length)
    (Nat.zero_add _).symm ?_ hsteps
  intro s t hs ih hstep
  exact ih.trans (step_accounts hs hstep)

/-- A result of `recv` adds at most 2048 bytes to the buffer, and there is at most one in
the outer loop for each packet written. -/
def State.BufferBound (s : State) : Prop :=
  match s.point with
  | .recv => s.pkt.length ≤ 2048 * s.written.length + 4
  | .test | .readSize | .strip => s.pkt.length ≤ 2048 * s.written.length + 2052
  | .whileShort | .write => s.pkt.length ≤ 2048 * s.written.length + 2052 + s.size
  | .recvMore => True
  | .remove => s.pkt.length ≤ 2048 * s.written.length + 4 + s.size

/-- The invariant of the buffer, when no `recv` returns more than it asked for. -/
structure Buffering (s : State) : Prop where
  small : ∀ c ∈ s.chunks, c.length ≤ 2048
  bound : s.BufferBound

theorem init_buffering {chunks : List (List UInt8)} (h : ∀ c ∈ chunks, c.length ≤ 2048) :
    Buffering (init chunks) where
  small := h
  bound := Nat.zero_le _

theorem step_buffering {s t : State} (hs : s.Knows) (h : Buffering s) (hstep : step s = some t) :
    Buffering t := by
  obtain ⟨hsmall, hbound⟩ := h
  cases move_of_step hstep with
  | recv pkt size c chunks written =>
    have hc := hsmall c List.mem_cons_self
    refine ⟨fun c' h => hsmall c' (List.mem_cons_of_mem c h), ?_⟩
    simp only [State.BufferBound, List.length_append] at hbound ⊢
    omega
  | recvMore pkt size c chunks written =>
    have hc := hsmall c List.mem_cons_self
    have hlen : pkt.length < size := hs.2
    refine ⟨fun c' h => hsmall c' (List.mem_cons_of_mem c h), ?_⟩
    simp only [State.BufferBound, List.length_append]
    omega
  | few pkt size chunks written hlen =>
    refine ⟨hsmall, ?_⟩
    simp only [State.BufferBound]
    omega
  | strip | write | remove =>
    refine ⟨hsmall, ?_⟩
    simp only [State.BufferBound, List.length_append, List.length_drop,
      List.length_singleton] at hbound ⊢
    omega
  | short => exact ⟨hsmall, trivial⟩
  | enough | readSize | whole => exact ⟨hsmall, hbound⟩

theorem steps_buffering {chunks : List (List UInt8)} (h : ∀ c ∈ chunks, c.length ≤ 2048)
    {s : State} (hsteps : Steps (init chunks) s) : Buffering s :=
  steps_invariant (init_buffering h) (fun _ _ => step_buffering) hsteps

/-- **The thread does not wait before it has written its share** of what it has received. -/
theorem length_le_of_final {chunks : List (List UInt8)} (h : ∀ c ∈ chunks, c.length ≤ 2048)
    {s : State} (hsteps : Steps (init chunks) s) (hfinal : step s = none) :
    chunks.flatten.length ≤ 67588 * s.written.length + 65540 := by
  have hs := steps_knows (init_knows chunks) hsteps
  have hbound := (steps_buffering h hsteps).bound
  obtain ⟨hrecv, hchunks⟩ := (step_eq_none_iff hs).mp hfinal
  rw [steps_accounts hsteps]
  obtain ⟨point, pkt, size, _, written⟩ := s
  obtain rfl : _ = [] := hchunks
  have hwritten : (written.flatMap frame).length ≤ 65540 * written.length :=
    length_flatMap_frame_le (steps_written_lt hsteps)
  rcases hrecv with rfl | rfl
  · have hpkt : pkt.length ≤ 2048 * written.length + 4 := hbound
    simp only [State.undecoded, List.flatten_nil, List.append_nil]
    omega
  · obtain ⟨hsize, hlen⟩ : size < 65536 ∧ pkt.length < size := hs
    simp only [State.undecoded, List.flatten_nil, List.append_nil, List.length_append,
      length_prolog]
    omega

end Socket2tun

/-! ### The two decoders -/

/-- **The decoders agree** on the packets of `l`, each behind its noise: when enough frames
follow and `socket2tun.run` has read everything, the packets it has written are those that
`readRawPacket` returns from the same stream, at least as many as `l` has. -/
def DecodersAgree (l : List (List UInt8 × List UInt8)) : Prop :=
  ∃ enough, ∀ further : List (List UInt8), enough ≤ further.length →
    (∀ q ∈ further, q.length ≤ 2048) →
    ∀ chunks : List (List UInt8), (∀ c ∈ chunks, c.length ≤ 2048) →
      chunks.flatten = noisyStream l ++ further.flatMap frame →
      ∃ s, Socket2tun.Steps (Socket2tun.init chunks) s ∧ Socket2tun.step s = none ∧
        l.length ≤ s.written.length ∧
        ∀ m : Machine, m.input = chunks.flatten →
          ∃ m', (readPackets s.written.length).run m =
            .ok (s.written.map fun p => ((p.length : Int), p)) m'

theorem noisyStream_of_clean {l : List (List UInt8 × List UInt8)} (h : ∀ gp ∈ l, gp.1 = []) :
    noisyStream l = (l.map Prod.snd).flatMap frame := by
  rw [noisyStream, List.flatMap_map]
  refine List.flatMap_congr fun gp hgp => ?_
  rw [h gp hgp, List.nil_append]

theorem length_noisyStream (l : List (List UInt8 × List UInt8)) :
    (noisyStream l).length =
      (l.flatMap Prod.fst).length + ((l.map Prod.snd).flatMap frame).length := by
  induction l with
  | nil => rfl
  | cons gp l ih =>
    have hcons : noisyStream (gp :: l) = gp.1 ++ frame gp.2 ++ noisyStream l := List.flatMap_cons
    rw [hcons, List.map_cons, List.flatMap_cons, List.flatMap_cons]
    simp only [List.length_append]
    omega

/-- Without noise both cut the stream into its frames. -/
theorem decodersAgree_of_clean {l : List (List UInt8 × List UInt8)}
    (hsize : ∀ gp ∈ l, gp.2.length ≤ 2048) (hclean : ∀ gp ∈ l, gp.1 = []) : DecodersAgree l := by
  refine ⟨67588 * (l.length + 1), fun further hfurther hsizes chunks hsmall hchunks => ?_⟩
  rw [noisyStream_of_clean hclean, ← List.flatMap_append] at hchunks
  have hpkts : ∀ p ∈ l.map Prod.snd ++ further, p.length < 65536 := by
    intro p hp
    rcases List.mem_append.mp hp with hp | hp
    · obtain ⟨gp, hgp, rfl⟩ := List.mem_map.mp hp
      exact Nat.lt_of_le_of_lt (hsize gp hgp) (by decide)
    · exact Nat.lt_of_le_of_lt (hsizes p hp) (by decide)
  obtain ⟨s, hsteps, hrecv, hs⟩ :=
    Socket2tun.exists_recv_at chunks [] (Socket2tun.init_knows chunks) (List.append_nil _).symm
  have hfinal := (Socket2tun.step_eq_none_iff
    (Socket2tun.steps_knows (Socket2tun.init_knows chunks) hsteps)).mpr ⟨hrecv, hs⟩
  have hlong := Socket2tun.length_le_of_final hsmall hsteps hfinal
  have hframes := le_length_flatMap_frame (l.map Prod.snd ++ further)
  rw [← hchunks, List.length_append] at hframes
  obtain ⟨⟨todo, hwritten, -⟩, -⟩ := Socket2tun.steps_decoding hpkts hchunks hsteps
  refine ⟨s, hsteps, hfinal, by omega, fun m hm => ?_⟩
  rw [hchunks, hwritten, List.flatMap_append, flatMap_frame_eq s.written] at hm
  obtain ⟨m', hrun, -⟩ := run_readPackets _ (todo.flatMap frame)
    (mem_clean (Socket2tun.steps_written_lt hsteps)) hm
  rw [List.length_map, List.map_map] at hrun
  exact ⟨m', hrun⟩

/-- What the kernel finds in the noisy packets and the frames behind them. -/
theorem frames_followed {l : List (List UInt8 × List UInt8)} {further : List (List UInt8)}
    (hl : ∀ gp ∈ l, ¬ magic <:+: gp.1 ∧ gp.2.length < 65536)
    (hfurther : ∀ q ∈ further, q.length < 65536) :
    frames (noisyStream l ++ further.flatMap frame) = l.map Prod.snd ++ further := by
  have hall : ∀ gp ∈ l ++ further.map fun q => (([] : List UInt8), q),
      ¬ magic <:+: gp.1 ∧ gp.2.length < 65536 := by
    intro gp hgp
    rcases List.mem_append.mp hgp with hgp | hgp
    · exact hl gp hgp
    · exact mem_clean hfurther gp hgp
  have hframes := frames_noisyStream _ hall
  rw [List.map_append, map_snd_clean] at hframes
  rw [flatMap_frame_eq, noisyStream, noisyStream, ← List.flatMap_append, ← noisyStream, hframes]

/-- The socket may give one byte at a time. -/
theorem exists_small_chunks (l : List UInt8) :
    ∃ chunks : List (List UInt8), chunks.flatten = l ∧ ∀ c ∈ chunks, c.length ≤ 2048 := by
  refine ⟨l.map fun b => [b], by rw [← List.flatMap_def, List.flatMap_singleton'], ?_⟩
  intro c hc
  obtain ⟨b, -, rfl⟩ := List.mem_map.mp hc
  exact Nat.succ_le_succ (Nat.zero_le _)

/-- Where the host reads the size of the first packet behind those of `l`: the two bytes
are behind some noise, so they do not depend on that size. -/
theorem field_behind_noise {l : List (List UInt8 × List UInt8)} (hnoise : ¬ ∀ gp ∈ l, gp.1 = [])
    {q : List UInt8} (hq : q.length < 256) (rest : List UInt8) :
    field ((noisyStream l ++ (frame q ++ rest)).drop
        ((l.map Prod.snd).flatMap frame).length) 3 2 =
      field ((noisyStream l).drop ((l.map Prod.snd).flatMap frame).length ++
        (magic ++ [0])) 3 2 := by
  have hpos : 0 < (l.flatMap Prod.fst).length := by
    rw [List.length_pos_iff]
    exact fun hnil => hnoise (List.flatMap_eq_nil_iff.mp hnil)
  have hlen := length_noisyStream l
  have hframe : frame q ++ rest = (magic ++ [0]) ++ (UInt8.ofNat q.length :: (q ++ rest)) := by
    rw [frame, encode_two, Nat.div_eq_of_lt hq]
    rfl
  rw [List.drop_append_of_le_length (by omega), hframe, ← List.append_assoc]
  refine field_append_left _ ?_
  have hfour : (magic ++ [(0 : UInt8)]).length = 4 := rfl
  rw [List.length_append, List.length_drop, hfour]
  omega

/-- If the decoders agreed, the size of whatever packet comes next would be one number. -/
theorem length_of_decodersAgree {l : List (List UInt8 × List UInt8)}
    (hl : ∀ gp ∈ l, ¬ magic <:+: gp.1 ∧ gp.2.length < 65536) (hagree : DecodersAgree l)
    (hnoise : ¬ ∀ gp ∈ l, gp.1 = []) {q : List UInt8} (hq : q.length < 256) :
    field ((noisyStream l).drop ((l.map Prod.snd).flatMap frame).length ++
      (magic ++ [0])) 3 2 = q.length := by
  obtain ⟨enough, hagree⟩ := hagree
  -- so many empty packets behind `q` that the host gets past it
  obtain ⟨empties, hmany, hempty⟩ : ∃ empties : List (List UInt8),
      empties.length = enough + 67588 * (l.length + 1) ∧ ∀ p ∈ empties, p = [] :=
    ⟨List.replicate _ [], List.length_replicate, fun _ => List.eq_of_mem_replicate⟩
  have hsizes : ∀ p ∈ q :: empties, p.length < 256 := by
    intro p hp
    rcases List.mem_cons.mp hp with rfl | hp
    · exact hq
    · rw [hempty p hp]
      decide
  obtain ⟨chunks, hchunks, hsmall⟩ :=
    exists_small_chunks (noisyStream l ++ (q :: empties).flatMap frame)
  obtain ⟨s, hsteps, hfinal, -, hread⟩ := hagree (q :: empties)
    (by rw [List.length_cons]; omega)
    (fun p hp => Nat.le_trans (hsizes p hp).le (by decide)) chunks hsmall hchunks
  have hlong : l.length < s.written.length := by
    have hbound := Socket2tun.length_le_of_final hsmall hsteps hfinal
    have hframes := le_length_flatMap_frame (q :: empties)
    rw [hchunks, List.length_append] at hbound
    rw [List.length_cons] at hframes
    omega
  -- the kernel returns the packets of `l` and then `q`
  have hkernel : s.written <+: l.map Prod.snd ++ q :: empties := by
    obtain ⟨m', hrun⟩ := hread (Machine.boot chunks.flatten) rfl
    have hprefix := readPackets_prefix hrun
    rw [List.map_map] at hprefix
    rw [← frames_followed hl fun p hp => Nat.lt_trans (hsizes p hp) (by decide), ← hchunks,
      ← List.map_id s.written]
    exact hprefix
  have hfield := Socket2tun.field_of_written hsteps hkernel (by rwa [List.length_map])
  rw [hchunks, List.flatMap_cons, field_behind_noise hnoise hq] at hfield
  exact hfield

/-- With noise they do not agree: the size of the next packet is no fixed number. -/
theorem not_decodersAgree_of_noise {l : List (List UInt8 × List UInt8)}
    (hl : ∀ gp ∈ l, ¬ magic <:+: gp.1 ∧ gp.2.length < 65536)
    (hnoise : ¬ ∀ gp ∈ l, gp.1 = []) : ¬ DecodersAgree l := by
  intro hagree
  have hempty := length_of_decodersAgree hl hagree hnoise (q := []) (by decide)
  have hone := length_of_decodersAgree hl hagree hnoise (q := [0]) (by decide)
  rw [hempty] at hone
  cases hone

/-- **When the two decoders agree.** On packets of at most 2048 bytes, each behind noise
that does not contain the magic number, with enough frames to follow, `socket2tun.run`
writes the packets that `readRawPacket` returns just when there is no noise. -/
theorem decodersAgree_iff (l : List (List UInt8 × List UInt8))
    (hnoise : ∀ gp ∈ l, ¬ magic <:+: gp.1) (hsize : ∀ gp ∈ l, gp.2.length ≤ 2048) :
    DecodersAgree l ↔ ∀ gp ∈ l, gp.1 = [] := by
  constructor
  · intro hagree
    by_contra hnoisy
    have hl : ∀ gp ∈ l, ¬ magic <:+: gp.1 ∧ gp.2.length < 65536 := by
      intro gp hgp
      exact ⟨hnoise gp hgp, Nat.lt_of_le_of_lt (hsize gp hgp) (by decide)⟩
    exact not_decodersAgree_of_noise hl hnoisy hagree
  · intro hclean
    exact decodersAgree_of_clean hsize hclean

/-- Two packets and no noise. -/
theorem decodersAgree_two : DecodersAgree [([], [0x45]), ([], [])] :=
  (decodersAgree_iff [([], [0x45]), ([], [])] (by decide) (by decide)).mpr (by decide)

/-- One byte of noise. -/
theorem not_decodersAgree : ¬ DecodersAgree [([0xAA], [])] :=
  not_decodersAgree_of_noise (by decide) (by decide)

end SantaOS
