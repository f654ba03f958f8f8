import SantaOS.Host
import SantaOS.Lib.Search
import SantaOS.PacketSpec
import SantaOS.Serial

/-!
# SantaOS.Framing

The frames on the serial line. `sendRawPacket` writes `frame p`, which is also what
`tun2socket` sends; `readRawPacket` does what `nextFrame` says of the bytes still to be
read. A frame is found behind any noise, because no proper part of the magic number is
both its beginning and its end.

Proof shape: the search slides a window over the line (`run_search`), which finds the first
magic number there is, none in the window's own zeros (`after_zeros`). With the size and the
payload behind it `readRawPacket` is one equation (`run_readRawPacket`), and the results on
runs of calls cite that equation only.

Design points:
* `nextFrame` is a function of the bytes alone, with no machine in it. What a line that ends
  inside a frame leaves in the buffer is said beside it (`cutPayload`).
* `frames` lists the packets of all frames on a line; more bytes only add to it
  (`frames_mono`).
-/

namespace SantaOS

open Memory Waiting BigEndian Search

/-- The magic number, as bytes. -/
def magic : List UInt8 := [0x0F, 0xAB, 0x10]

/-- A packet as it goes over the line. -/
def frame (p : List UInt8) : List UInt8 := magic ++ (encode 2 p.length ++ p)

@[simp] theorem length_frame (p : List UInt8) : (frame p).length = 5 + p.length := by
  simp [frame, magic]
  omega

/-! ### Sending -/

theorem run_writeSerial (a : Int8) (m : Machine) :
    (writeSerial a).run m = .ok () { m with output := m.output ++ [a.toUInt8] } := rfl

theorem run_times_writeSerial (f : Nat → Int8) (n : Nat) (m : Machine) :
    (times (fun i => writeSerial (f i)) n).run m =
      .ok () { m with output := m.output ++ (List.range n).map fun i => (f i).toUInt8 } := by
  induction n with
  | zero => simp [times]
  | succ n ih => simp [times, EStateM.run_bind, ih, run_writeSerial, List.range_succ]

/-- **`sendRawPacket` writes the frame of the packet.** -/
theorem run_sendRawPacket (buf : Ptr UInt8) (n : Nat) (m : Machine) :
    (sendRawPacket buf n).run m =
      .ok () { m with
        output := m.output ++ frame (buf.read n)
        log := m.log ++ [.output (buf.read n)] } := by
  have hmagic : ((List.range MAGIC_NUMBER.length).map fun i : Nat =>
      (MAGIC_NUMBER.getD i 0).toUInt8) = magic := by decide
  have hhi : ((UInt32.ofInt n >>> 8) &&& 0x00FF).toUInt8 = UInt8.ofNat (n / 256) := by
    rw [byte_shiftRight _ _ (by decide)]
    apply UInt8.toNat_inj.mp
    simp [UInt32.ofInt]
    omega
  have hlo : (UInt32.ofInt n &&& 0x00FF).toUInt8 = UInt8.ofNat n := by
    apply UInt8.toNat_inj.mp
    simp [UInt32.ofInt, and_255_eq_mod]
    omega
  simp only [sendRawPacket, EStateM.run_bind, run_times_writeSerial, run_writeSerial,
    Int.toNat_natCast, UInt8.toUInt8_toInt8, hmagic, hhi, hlo, frame, encode_two, Ptr.read_eq_map]
  simp [logEvent]

/-- **`tun2socket` sends the same frame.** -/
theorem tun2socket_eq (pkt : List UInt8) (h : pkt.length < 65536) :
    tun2socket pkt = some (frame pkt) := by
  simp [tun2socket, u2B, h, frame, magic]

/-! ### Receiving -/

theorem run_readSerial (m : Machine) :
    readSerial.run m =
      match m.input with
      | [] => .error .waiting m
      | b :: l => .ok b.toInt8 { m with input := l } := by
  cases h : m.input with
  | nil => simp [readSerial, h]
  | cons b l => simp [readSerial, h]

/-- The comparison of the window with the magic number. -/
theorem bcmp_magic_iff {w : List Int8} (hw : w.length = 3) :
    bcmp (charArray w) (charArray MAGIC_NUMBER) MAGIC_NUMBER.length = 0 ↔
      w.map Int8.toUInt8 = magic := by
  have hread := Ptr.read_ofList (w.map Int8.toUInt8)
  rw [List.length_map, hw] at hread
  rw [bcmp_eq_zero_iff, charArray, show MAGIC_NUMBER.length = 3 from rfl, hread]
  rfl

/-- The pass that finds the magic number in its window. -/
theorem run_searchMagic_found {w : List Int8} (hw : w.length = 3)
    (h : w.map Int8.toUInt8 = magic) (m : Machine) :
    (searchMagic w).run m = .ok (.inl ()) m := by
  simp [searchMagic, (bcmp_magic_iff hw).mpr h]

/-- A pass that does not. -/
theorem run_searchMagic_other {w : List Int8} (hw : w.length = 3)
    (h : w.map Int8.toUInt8 ≠ magic) (m : Machine) :
    (searchMagic w).run m =
      match m.input with
      | [] => .error .waiting m
      | b :: l => .ok (.inr (w.tail ++ [b.toInt8])) { m with input := l } := by
  have hne : bcmp (charArray w) (charArray MAGIC_NUMBER) MAGIC_NUMBER.length ≠ 0 :=
    fun h0 => h ((bcmp_magic_iff hw).mp h0)
  cases hi : m.input with
  | nil => simp [searchMagic, hne, run_readSerial, hi]
  | cons b l => simp [searchMagic, hne, run_readSerial, hi]

theorem searchMagic_consumes : Consumes (·.input.length) searchMagic := by
  intro w m w' m' h
  simp only [searchMagic] at h
  split at h
  · cases hi : m.input with
    | nil => simp [run_readSerial, hi] at h
    | cons b l =>
      simp [run_readSerial, hi] at h
      simp [← h.2, hi]
  · simp at h

/-- **The search for the magic number slides a window over the line.** -/
theorem run_search (l : List UInt8) {w : List Int8} (hw : w.length = 3) {m : Machine}
    (hm : m.input = l) :
    (whileTrue (·.input.length) searchMagic w).run m =
      match slide magic (w.map Int8.toUInt8) l with
      | some rest => .ok () { m with input := rest }
      | none => .error .waiting { m with input := [] } := by
  have hself : { m with input := l } = m := by rw [← hm]
  induction l generalizing w m with
  | nil =>
    rw [run_whileTrue searchMagic_consumes, slide]
    by_cases h : w.map Int8.toUInt8 = magic
    · simp [run_searchMagic_found hw h, h, hself]
    · simp [run_searchMagic_other hw h, h, hm, hself]
  | cons b l ih =>
    rw [run_whileTrue searchMagic_consumes, slide]
    by_cases h : w.map Int8.toUInt8 = magic
    · simp [run_searchMagic_found hw h, h, hself]
    · have hw' : (w.tail ++ [b.toInt8]).length = 3 := by simp [hw]
      simp [run_searchMagic_other hw h, h, hm, ih hw']

/-- The loop that reads the payload. -/
theorem run_times_storeNext (n : Nat) (m : Machine) :
    (times storeNext n).run m =
      if n ≤ m.input.length then
        .ok () { m with
          input := m.input.drop n
          inRawBuf := m.inRawBuf.storeAll 0 (m.input.take n) }
      else
        .error .waiting { m with
          input := []
          inRawBuf := m.inRawBuf.storeAll 0 m.input } := by
  induction n with
  | zero => simp [times, Mem.storeAll]
  | succ n ih =>
    rw [times, EStateM.run_bind, ih]
    rcases Nat.lt_trichotomy n m.input.length with hlt | heq | hgt
    · have hnext : (m.input.drop n) = m.input[n] :: m.input.drop (n + 1) :=
        List.drop_eq_getElem_cons hlt
      have hstore : (m.inRawBuf.storeAll 0 (m.input.take n)).store n m.input[n] =
          m.inRawBuf.storeAll 0 (m.input.take (n + 1)) := by
        rw [List.take_succ_eq_append_getElem hlt, Mem.storeAll_concat]
        simp [Nat.min_eq_left hlt.le]
      rw [if_pos (by omega), if_pos (by omega)]
      simp only [storeNext, EStateM.run_bind, run_readSerial, hnext, EStateM.run_modify,
        UInt8.toUInt8_toInt8, hstore]
    · rw [if_pos (by omega), if_neg (by omega)]
      have hnil : m.input.drop n = [] := List.drop_of_length_le (by omega)
      rw [hnil, List.take_of_length_le heq.ge]
      simp [storeNext, run_readSerial]
    · rw [if_neg (by omega), if_neg (by omega)]

/-- The first frame in the bytes to be read: its packet and what follows it. -/
def nextFrame (l : List UInt8) : Option (List UInt8 × List UInt8) :=
  match after magic l with
  | some (hi :: lo :: rest) =>
    if decode [hi, lo] ≤ rest.length then
      some (rest.take (decode [hi, lo]), rest.drop (decode [hi, lo]))
    else none
  | _ => none

@[simp] theorem nextFrame_nil : nextFrame [] = none := by
  rw [nextFrame, after_eq_none_of_length_lt (by decide)]

/-- A frame takes at least its prolog off the line. -/
theorem nextFrame_length {l p rest : List UInt8} (h : nextFrame l = some (p, rest)) :
    rest.length < l.length := by
  rw [nextFrame] at h
  split at h
  · rename_i hi lo tail hafter
    obtain ⟨pre, rfl, -⟩ := after_eq_some_iff.mp hafter
    split at h
    · obtain ⟨rfl, rfl⟩ := Prod.mk.inj (Option.some.inj h)
      simp
      omega
    · simp at h
  · simp at h

/-- A frame that has come is not changed by what comes behind it. -/
theorem nextFrame_append {l p rest : List UInt8} (h : nextFrame l = some (p, rest))
    (r : List UInt8) : nextFrame (l ++ r) = some (p, rest ++ r) := by
  rw [nextFrame] at h
  split at h
  · rename_i hi lo tail hafter
    split at h
    · rename_i hle
      obtain ⟨rfl, rfl⟩ := Prod.mk.inj (Option.some.inj h)
      have hle' : decode [hi, lo] ≤ (tail ++ r).length := by
        rw [List.length_append]
        omega
      rw [nextFrame, after_append_right hafter]
      simp only [List.cons_append, hle', if_true, List.take_append_of_le_length hle,
        List.drop_append_of_le_length hle]
    · simp at h
  · simp at h

/-- What an unfinished frame leaves in the buffer. -/
def cutPayload (l : List UInt8) : List UInt8 :=
  match after magic l with
  | some (_ :: _ :: rest) => rest
  | _ => []

/-- The magic number does not begin in the window's initial zeros. -/
theorem after_zeros (l : List UInt8) : after magic ([0, 0, 0] ++ l) = after magic l := by
  have hzero (l : List UInt8) : after magic (0 :: l) = after magic l :=
    after_cons_of_not_prefix fun h => absurd (List.cons_prefix_cons.mp h).1 (by decide)
  rw [List.cons_append, List.cons_append, List.cons_append, hzero, hzero, hzero, List.nil_append]

/-- The size expression of `readRawPacket`. -/
theorem size_eq_decode (hi lo : UInt8) : hi.toNat <<< 8 ||| lo.toNat = decode [hi, lo] := by
  rw [decode_two, ← Nat.shiftLeft_add_eq_or_of_lt lo.toNat_lt, Nat.shiftLeft_eq]

/-- **`readRawPacket` takes the next frame off the line.** -/
theorem run_readRawPacket (m : Machine) :
    readRawPacket.run m =
      match nextFrame m.input with
      | some (p, rest) =>
        .ok p.length { m with input := rest, inRawBuf := m.inRawBuf.storeAll 0 p }
      | none =>
        .error .waiting { m with
          input := []
          inRawBuf := m.inRawBuf.storeAll 0 (cutPayload m.input) } := by
  have hslide : slide magic ([0, 0, 0].map Int8.toUInt8) m.input = after magic m.input := by
    have hslide := slide_eq_after (by decide : magic ≠ []) m.input [0, 0, 0] rfl
    exact hslide.trans (after_zeros m.input)
  rw [readRawPacket, EStateM.run_bind, run_search m.input rfl rfl, hslide, nextFrame, cutPayload]
  cases h : after magic m.input with
  | none => simp [Mem.storeAll]
  | some l =>
    cases l with
    | nil => simp [run_readSerial, Mem.storeAll]
    | cons hi l =>
      cases l with
      | nil => simp [run_readSerial, Mem.storeAll]
      | cons lo rest =>
        simp only [EStateM.run_bind, run_readSerial, UInt8.toUInt8_toInt8, size_eq_decode,
          run_times_storeNext]
        by_cases hsize : decode [hi, lo] ≤ rest.length
        · simp [hsize]
        · simp [hsize]

/-! ### Runs of frames -/

theorem unbordered_magic : Unbordered magic := unbordered_cons (by decide)

/-- A frame is found behind noise that does not contain the magic number. -/
theorem nextFrame_frame {g p : List UInt8} (rest : List UInt8) (hg : ¬ magic <:+: g)
    (hp : p.length < 65536) : nextFrame (g ++ (frame p ++ rest)) = some (p, rest) := by
  have hafter : after magic (g ++ (frame p ++ rest)) =
      some (UInt8.ofNat (p.length / 256) :: UInt8.ofNat p.length :: (p ++ rest)) := by
    rw [frame, List.append_assoc, after_append_of_unbordered _ unbordered_magic hg]
    rfl
  have hsize : decode [UInt8.ofNat (p.length / 256), UInt8.ofNat p.length] = p.length :=
    decode_encode_of_lt (k := 2) hp
  rw [nextFrame, hafter]
  simp [hsize]

/-- In particular behind no noise at all. -/
theorem nextFrame_clean {p : List UInt8} (rest : List UInt8) (hp : p.length < 65536) :
    nextFrame (frame p ++ rest) = some (p, rest) := by
  have hnil : ¬ magic <:+: [] := by decide
  exact nextFrame_frame rest hnil hp

/-- The packets of all the frames in the bytes to be read. -/
def frames (l : List UInt8) : List (List UInt8) :=
  match _h : nextFrame l with
  | none => []
  | some (p, rest) => p :: frames rest
  termination_by l.length
  decreasing_by exact nextFrame_length _h

theorem frames_of_eq_none {l : List UInt8} (h : nextFrame l = none) : frames l = [] := by
  rw [frames]
  split
  · rfl
  · simp_all

theorem frames_of_eq_some {l p rest : List UInt8} (h : nextFrame l = some (p, rest)) :
    frames l = p :: frames rest := by
  rw [frames]
  split
  · simp_all
  · simp_all

/-- More bytes bring more frames, and leave the ones that have come. -/
theorem frames_mono (l r : List UInt8) : frames l <+: frames (l ++ r) := by
  induction hn : l.length using Nat.strong_induction_on generalizing l with
  | _ n ih =>
    cases hf : nextFrame l with
    | none =>
      rw [frames_of_eq_none hf]
      exact List.nil_prefix
    | some pr =>
      obtain ⟨p, rest⟩ := pr
      rw [frames_of_eq_some hf, frames_of_eq_some (nextFrame_append hf r)]
      exact List.cons_prefix_cons.mpr ⟨rfl, ih _ (hn ▸ nextFrame_length hf) rest rfl⟩

/-- `k` successive calls of `readRawPacket`, with the size and the bytes of each packet. -/
def readPackets : Nat → Kernel (List (Int × List UInt8))
  | 0 => return []
  | k + 1 => do
    let size ← readRawPacket
    let m ← get
    let packets ← readPackets k
    return (size, m.inRawBuf.cells.read size.toNat) :: packets

/-- One call on a stream that begins with noise and a frame. -/
theorem run_readPackets_succ {g p rest : List UInt8} {m m' : Machine} {k : Nat}
    {packets : List (Int × List UInt8)} (hg : ¬ magic <:+: g) (hp : p.length < 65536)
    (hm : m.input = g ++ (frame p ++ rest))
    (hrest : (readPackets k).run { m with
      input := rest
      inRawBuf := m.inRawBuf.storeAll 0 p } = .ok packets m') :
    (readPackets (k + 1)).run m = .ok ((p.length, p) :: packets) m' := by
  rw [readPackets, EStateM.run_bind, run_readRawPacket, hm, nextFrame_frame rest hg hp]
  simp [hrest, Ptr.read_write_zero]

/-- The stream of packets, each behind some noise. -/
def noisyStream (l : List (List UInt8 × List UInt8)) : List UInt8 :=
  l.flatMap fun gp => gp.1 ++ frame gp.2

theorem run_readPackets (l : List (List UInt8 × List UInt8)) (rest : List UInt8) {m : Machine}
    (hl : ∀ gp ∈ l, ¬ magic <:+: gp.1 ∧ gp.2.length < 65536)
    (hm : m.input = noisyStream l ++ rest) :
    ∃ m', (readPackets l.length).run m = .ok (l.map fun gp => ((gp.2.length : Int), gp.2)) m' ∧
      m'.input = rest := by
  induction l generalizing m with
  | nil => exact ⟨m, rfl, by simpa [noisyStream] using hm⟩
  | cons gp l ih =>
    obtain ⟨hg, hp⟩ := hl gp List.mem_cons_self
    have hcons : m.input = gp.1 ++ (frame gp.2 ++ (noisyStream l ++ rest)) := by
      rw [hm, noisyStream, noisyStream, List.flatMap_cons, List.append_assoc, List.append_assoc]
    obtain ⟨m', hrun, hrest⟩ := ih (fun gp' h => hl gp' (List.mem_cons_of_mem gp h))
      (m := { m with
        input := noisyStream l ++ rest
        inRawBuf := m.inRawBuf.storeAll 0 gp.2 }) rfl
    exact ⟨m', run_readPackets_succ hg hp hcons hrun, hrest⟩

/-- The packets are found, whatever the noise. -/
theorem frames_noisyStream (l : List (List UInt8 × List UInt8))
    (hl : ∀ gp ∈ l, ¬ magic <:+: gp.1 ∧ gp.2.length < 65536) :
    frames (noisyStream l) = l.map Prod.snd := by
  induction l with
  | nil => exact frames_of_eq_none nextFrame_nil
  | cons gp l ih =>
    obtain ⟨hg, hp⟩ := hl gp List.mem_cons_self
    have hnext : nextFrame (noisyStream (gp :: l)) = some (gp.2, noisyStream l) := by
      rw [noisyStream, List.flatMap_cons, List.append_assoc]
      exact nextFrame_frame (noisyStream l) hg hp
    rw [frames_of_eq_some hnext, ih fun gp' h => hl gp' (List.mem_cons_of_mem gp h), List.map_cons]

/-! Frames alone are packets behind no noise. -/

section Clean

variable (pkts : List (List UInt8))

theorem flatMap_frame_eq : pkts.flatMap frame = noisyStream (pkts.map fun p => ([], p)) := by
  rw [noisyStream, List.flatMap_map]
  rfl

theorem map_snd_clean : (pkts.map fun p => (([] : List UInt8), p)).map Prod.snd = pkts := by
  rw [List.map_map]
  exact List.map_id pkts

variable {pkts}

theorem mem_clean (h : ∀ p ∈ pkts, p.length < 65536) :
    ∀ gp ∈ pkts.map fun p => (([] : List UInt8), p), ¬ magic <:+: gp.1 ∧ gp.2.length < 65536 := by
  have hnil : ¬ magic <:+: [] := by decide
  intro gp hgp
  obtain ⟨p, hp, rfl⟩ := List.mem_map.mp hgp
  exact ⟨hnil, h p hp⟩

end Clean

theorem frames_flatMap (pkts : List (List UInt8)) (h : ∀ p ∈ pkts, p.length < 65536) :
    frames (pkts.flatMap frame) = pkts := by
  rw [flatMap_frame_eq, frames_noisyStream _ (mem_clean h), map_snd_clean]

/-- What successive calls return are the first packets in the bytes to be read. -/
theorem readPackets_prefix {k : Nat} {m m' : Machine} {packets : List (Int × List UInt8)}
    (h : (readPackets k).run m = .ok packets m') :
    packets.map Prod.snd <+: frames m.input := by
  induction k generalizing m packets with
  | zero =>
    obtain ⟨rfl, -⟩ := EStateM.Result.ok.inj h
    exact List.nil_prefix
  | succ k ih =>
    rw [readPackets] at h
    obtain ⟨size, m₁, hread, h⟩ := run_bind_eq_ok h
    rw [run_readRawPacket] at hread
    cases hf : nextFrame m.input with
    | none =>
      rw [hf] at hread
      cases hread
    | some pr =>
      obtain ⟨p, rest⟩ := pr
      rw [hf] at hread
      obtain ⟨rfl, rfl⟩ := EStateM.Result.ok.inj hread
      obtain ⟨_, _, hget, h⟩ := run_bind_eq_ok h
      obtain ⟨rfl, rfl⟩ := EStateM.Result.ok.inj hget
      obtain ⟨packets', _, hrun, h⟩ := run_bind_eq_ok h
      obtain ⟨rfl, rfl⟩ := EStateM.Result.ok.inj h
      have hread' : (m.inRawBuf.storeAll 0 p).cells.read p.length = p := by
        rw [Mem.storeAll_cells, Ptr.read_write_zero]
      rw [frames_of_eq_some hf, List.map_cons, Int.toNat_natCast, hread']
      exact List.cons_prefix_cons.mpr ⟨rfl, ih hrun⟩

/-- **Serial framing loses nothing.** Whatever the noise between the frames, the packets
come back one by one and the line is left behind the last of them. The frames are those
that `sendRawPacket` and `tun2socket` write. -/
theorem readPackets_noisyStream (l : List (List UInt8 × List UInt8)) (rest : List UInt8)
    (hnoise : ∀ gp ∈ l, ¬ magic <:+: gp.1) (hsize : ∀ gp ∈ l, gp.2.length ≤ 2048) :
    (∀ m : Machine, m.input = noisyStream l ++ rest →
      ∃ m', (readPackets l.length).run m =
          .ok (l.map fun gp => ((gp.2.length : Int), gp.2)) m' ∧
        m'.input = rest) ∧
    ∀ gp ∈ l,
      (∀ (buf : Ptr UInt8) (m : Machine), buf.read gp.2.length = gp.2 →
        ∃ m', (sendRawPacket buf gp.2.length).run m = .ok () m' ∧
          m'.output = m.output ++ frame gp.2) ∧
      tun2socket gp.2 = some (frame gp.2) := by
  have hlt (gp : List UInt8 × List UInt8) (h : gp ∈ l) : gp.2.length < 65536 :=
    Nat.lt_of_le_of_lt (hsize gp h) (by decide)
  refine ⟨fun m hm => ?_, fun gp h => ⟨fun buf m hbuf => ?_, ?_⟩⟩
  · exact run_readPackets l rest (fun gp h => ⟨hnoise gp h, hlt gp h⟩) hm
  · exact ⟨_, run_sendRawPacket buf gp.2.length m, by rw [hbuf]⟩
  · exact tun2socket_eq gp.2 (hlt gp h)

/-- Two packets, each behind two bytes of noise. The first has the magic number among its
own bytes, and the second is behind bytes that nearly make one. -/
theorem readPackets_noisyStream_two :
    ∃ m', (readPackets 2).run (Machine.boot (noisyStream
        [([0xAA, 0x0F], [0x22, 0x0F, 0xAB, 0x10]), ([0x0F, 0xAB], [0x11])] ++ [0x0F])) =
        .ok [(4, [0x22, 0x0F, 0xAB, 0x10]), (1, [0x11])] m' ∧
      m'.input = [0x0F] :=
  (readPackets_noisyStream [([0xAA, 0x0F], [0x22, 0x0F, 0xAB, 0x10]), ([0x0F, 0xAB], [0x11])]
    [0x0F] (by decide) (by decide)).1 _ rfl

end SantaOS
