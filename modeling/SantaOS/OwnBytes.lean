import SantaOS.Receive

/-!
# SantaOS.OwnBytes

Which bytes the verdict on a frame depends on. The parsers read 20 bytes of IP header
and 20 bytes of TCP header whatever the size of the frame, so behind a short frame they
read what earlier frames left in the buffer.

`SelfContained` is the exact condition under which a call of `nextTcpIpPacket` does not
show what the buffer held before it (`nextTcpIpPacket_selfContained_iff`): each frame is
either long enough for both headers, or is dropped whatever stands behind its bytes.

Proof shape: equal bytes give equal verdicts (`arrival_congr`); a byte of a header that
the call has not received changes the verdict on an accepted frame (`arrival_update_ne`);
the run of frames is an induction that carries the bytes received so far.
-/

namespace SantaOS

open Memory Waiting BigEndian

/-! ### Equal bytes, equal verdicts -/

theorem checksumLoop_congr (initSum32 : UInt32) {p q : Ptr UInt8} {k : Nat}
    (h : ∀ i : Int, 0 ≤ i → i < 2 * k → p i = q i) :
    checksumLoop p k initSum32 = checksumLoop q k initSum32 := by
  induction k with
  | zero => rfl
  | succ k ih =>
    have hstep (r : Ptr UInt8) : checksumLoop r (k + 1) initSum32 =
        checksumLoop r k initSum32 + (toNative16 (r.add (2 * k))).toUInt32 := by
      simp [checksumLoop]
    have hword : toNative16 (p.add (2 * k)) = toNative16 (q.add (2 * k)) :=
      toNative16_congr fun i hi => h (2 * k + i) (by omega) (by push_cast; omega)
    rw [hstep, hstep, hword, ih fun i hi hlt => h i hi (by push_cast; omega)]

/-- `sz % 2` in C takes the sign of `sz`. -/
theorem tmod_two (sz : Int) :
    (0 ≤ sz ∧ sz.tmod 2 = sz % 2) ∨ (sz < 0 ∧ sz.tmod 2 = -(sz % 2)) := by
  rcases lt_or_ge sz 0 with hneg | hpos
  · refine .inr ⟨hneg, ?_⟩
    have hflip : (-sz).tmod 2 = (-sz) % 2 := Int.tmod_eq_emod_of_nonneg (by omega)
    rw [Int.neg_tmod] at hflip
    omega
  · exact .inl ⟨hpos, Int.tmod_eq_emod_of_nonneg hpos⟩

/-- The bytes `_checksum` reads. On a negative odd size it reads the one at `sz + 1`. -/
theorem checksum_congr (initSum32 : UInt32) {p q : Ptr UInt8} {sz : Int}
    (h : ∀ i : Int, min 0 (sz + 1) ≤ i → i < max sz 1 → p i = q i) :
    checksum initSum32 p sz = checksum initSum32 q sz := by
  have htmod := tmod_two sz
  have hloop : checksumLoop p ((sz - sz.tmod 2) / 2).toNat initSum32 =
      checksumLoop q ((sz - sz.tmod 2) / 2).toNat initSum32 :=
    checksumLoop_congr initSum32 fun i hi hlt => h i (by omega) (by omega)
  unfold checksum
  dsimp only
  rw [hloop]
  by_cases hodd : sz.tmod 2 = 0
  · rw [if_neg (by omega), if_neg (by omega)]
  · rw [h (sz - sz.tmod 2) (by omega) (by omega)]

theorem parsedIp_congr {p q : Ptr UInt8} (h : ∀ i : Int, 0 ≤ i → i < 20 → p i = q i) :
    (parsedIp p).toIPFields = (parsedIp q).toIPFields := by
  have hword (off : Int) (h0 : 0 ≤ off) (h20 : off + 2 ≤ 20) :
      toNative16 (p.add off) = toNative16 (q.add off) :=
    toNative16_congr fun i hi => h (off + i) (by omega) (by omega)
  have hdword (off : Int) (h0 : 0 ≤ off) (h20 : off + 4 ≤ 20) :
      toNative32 (p.add off) = toNative32 (q.add off) :=
    toNative32_congr fun i hi => h (off + i) (by omega) (by omega)
  simp only [parsedIp]
  rw [h 0 (by decide) (by decide), h 8 (by decide) (by decide), h 9 (by decide) (by decide),
    hword 2 (by decide) (by decide), hword 4 (by decide) (by decide),
    hword 6 (by decide) (by decide), hword 10 (by decide) (by decide),
    hdword 12 (by decide) (by decide), hdword 16 (by decide) (by decide)]

theorem parseRawTcpPacket_congr {p q : Ptr UInt8} (sz : Int)
    (h : ∀ i : Int, 0 ≤ i → i < 20 → p i = q i) :
    (parseRawTcpPacket p sz).toTCPFields = (parseRawTcpPacket q sz).toTCPFields := by
  have hword (off : Int) (h0 : 0 ≤ off) (h20 : off + 2 ≤ 20) :
      toNative16 (p.add off) = toNative16 (q.add off) :=
    toNative16_congr fun i hi => h (off + i) (by omega) (by omega)
  have hdword (off : Int) (h0 : 0 ≤ off) (h20 : off + 4 ≤ 20) :
      toNative32 (p.add off) = toNative32 (q.add off) :=
    toNative32_congr fun i hi => h (off + i) (by omega) (by omega)
  have hfirst : toNative16 p = toNative16 q := by simpa using hword 0 (by decide) (by decide)
  rw [parseRawTcpPacket_eq, parseRawTcpPacket_eq]
  simp only [hfirst]
  rw [h 12 (by decide) (by decide), h 13 (by decide) (by decide),
    hword 2 (by decide) (by decide), hdword 4 (by decide) (by decide),
    hdword 8 (by decide) (by decide), hword 14 (by decide) (by decide),
    hword 16 (by decide) (by decide), hword 18 (by decide) (by decide)]

/-- The verdict, spelled out. -/
theorem arrival_eq (buf : Ptr UInt8) (sz : Int) :
    arrival buf sz =
      if passesTests buf sz then
        .segment (parsedIp buf).toIPFields
          (parseRawTcpPacket (parsedIp buf).payload (parsedIp buf).payloadSz).toTCPFields
      else .dropped sz := by
  rw [arrival, judge]
  by_cases h : passesTests buf sz = true
  · rw [if_pos h, if_pos h]
  · rw [if_neg h, if_neg h]

theorem arrival_of_fails {buf : Ptr UInt8} {sz : Int} (h : passesTests buf sz = false) :
    arrival buf sz = .dropped sz := by
  rw [arrival_eq, if_neg (by simp [h])]

/-- Where the segment of a packet begins. -/
def segmentStart (buf : Ptr UInt8) : Int := (buf 0 &&& 0x0F).toNat * 4

section Congr

variable {p q : Ptr UInt8} {sz N : Int} (hsz : 0 ≤ sz) (hszN : sz ≤ N)
  (hN : segmentStart p + 20 ≤ N) (h : ∀ i : Int, 0 ≤ i → i < N → p i = q i)

include hsz hszN hN h

theorem passesTests_of_congr (hp : passesTests p sz = true) : passesTests q sz = true := by
  have hstart : 0 ≤ segmentStart p := Int.mul_nonneg (Int.natCast_nonneg _) (by decide)
  have hhead : ∀ i : Int, 0 ≤ i → i < 20 → p i = q i := fun i h0 h20 => h i h0 (by omega)
  have hfields := parsedIp_congr hhead
  obtain ⟨hck, hlen, hver, hprotocol, hckTcp⟩ := (passesTests_iff p sz).mp hp
  have hpayloadSz : (parsedIp p).payloadSz = sz - segmentStart p := by
    rw [← hlen]
    rfl
  have hpayload : ∀ i : Int, min 0 ((parsedIp p).payloadSz + 1) ≤ i →
      i < max (parsedIp p).payloadSz 1 → (parsedIp p).payload i = (parsedIp q).payload i := by
    intro i hlo hhi
    have hstartEq : segmentStart q = segmentStart p := by
      rw [segmentStart, segmentStart, h 0 (by decide) (by omega)]
    show p (segmentStart p + i) = q (segmentStart q + i)
    rw [hstartEq]
    exact h _ (by omega) (by omega)
  rw [passesTests_iff]
  refine ⟨?_, ?_, ?_, ?_, ?_⟩
  · rw [← hck]
    exact (checksum_congr 0 fun i hlo hhi => hhead i (by omega) (by omega)).symm
  · rw [← hlen]
    exact congrArg (fun ip : IPFields => (ip.len.toNat : Int)) hfields.symm
  · rw [← hver]
    exact congrArg IPFields.ver hfields.symm
  · rw [← hprotocol]
    exact congrArg IPFields.protocol hfields.symm
  · rw [← hckTcp, checksumTcp, checksumTcp, ← congrArg IPFields.srcAddr hfields,
      ← congrArg IPFields.dstAddr hfields, ← congrArg IPFields.protocol hfields,
      ← congrArg IPFields.payloadSz hfields]
    exact (checksum_congr _ hpayload).symm

/-- **The verdict depends on the frame and on the two headers only.** -/
theorem arrival_congr : arrival p sz = arrival q sz := by
  have hstart : 0 ≤ segmentStart p := Int.mul_nonneg (Int.natCast_nonneg _) (by decide)
  have hstartEq : segmentStart q = segmentStart p := by
    rw [segmentStart, segmentStart, h 0 (by decide) (by omega)]
  have hiff : passesTests p sz = true ↔ passesTests q sz = true :=
    ⟨passesTests_of_congr hsz hszN hN h,
      passesTests_of_congr hsz hszN (hstartEq ▸ hN) fun i h0 hi => (h i h0 hi).symm⟩
  have hfields : (parsedIp p).toIPFields = (parsedIp q).toIPFields :=
    parsedIp_congr fun i h0 h20 => h i h0 (by omega)
  have htcp : ∀ i : Int, 0 ≤ i → i < 20 → (parsedIp p).payload i = (parsedIp q).payload i := by
    intro i h0 h20
    show p (segmentStart p + i) = q (segmentStart q + i)
    rw [hstartEq]
    exact h _ (by omega) (by omega)
  rw [arrival_eq, arrival_eq, parseRawTcpPacket_congr _ htcp,
    congrArg IPFields.payloadSz hfields, hfields]
  exact if_congr hiff rfl rfl

end Congr

/-! ### Other bytes, other verdicts -/

theorem add_16_ne (a : UInt8) : a + 16 ≠ a := by
  intro h
  have hnum := congrArg UInt8.toNat h
  simp at hnum
  omega

theorem add_16_high_ne (a : UInt8) : (a + 16) >>> 4 <<< 4 ≠ a >>> 4 <<< 4 := by
  intro h
  have hnum := congrArg UInt8.toNat h
  simp [Nat.shiftRight_eq_div_pow, Nat.shiftLeft_eq] at hnum
  omega

/-- Every byte of a TCP header shows in its fields; 16 is added to the byte because the
low half of the byte at 12 does not. -/
theorem parseRawTcpPacket_update_ne (raw : Ptr UInt8) (sz : Int) {t : Nat} (h : t < 20) :
    (parseRawTcpPacket (Function.update raw t (raw t + 16)) sz).toTCPFields ≠
      (parseRawTcpPacket raw sz).toTCPFields := by
  intro heq
  have hbytes := congrArg (fun tcp => (tcpHeader tcp)[t]?) heq
  simp only [tcpHeader_parseRawTcpPacket, List.getElem?_set, Ptr.getElem?_read, h, if_true,
    Ptr.length_read] at hbytes
  by_cases ht : 12 = t
  · subst ht
    rw [if_pos rfl, if_pos rfl] at hbytes
    refine add_16_high_ne (raw 12) ?_
    simpa using hbytes
  · rw [if_neg ht, if_neg ht, Function.update_self] at hbytes
    exact add_16_ne _ (Option.some.inj hbytes)

/-- **A byte of a header decides the verdict on an accepted frame**: the last bytes of the
IP header and the 20 bytes at the segment's start show in the fields. -/
theorem arrival_update_ne {buf : Ptr UInt8} {sz : Int} (hpass : passesTests buf sz = true)
    {j : Nat} (hj : (16 ≤ j ∧ j < 20) ∨
      (20 ≤ j ∧ segmentStart buf ≤ j ∧ j < segmentStart buf + 20)) :
    arrival (Function.update buf j (buf j + 16)) sz ≠ arrival buf sz := by
  intro heq
  rw [arrival_eq, arrival_eq, if_pos hpass] at heq
  split at heq
  · obtain ⟨hip, htcp⟩ := Arrival.segment.inj heq
    rcases hj with ⟨hlo, hhi⟩ | ⟨hj20, hlo, hhi⟩
    · -- the byte shows in the destination address
      have hdst : toNative32 (Ptr.add (Function.update buf (j : Int) (buf j + 16)) 16) =
          toNative32 (buf.add 16) := congrArg IPFields.dstAddr hip
      have hread := congrArg (fun a => encode 4 a.toNat) hdst
      simp only [encode_toNative32] at hread
      have hbyte := Ptr.read_eq_read_iff.mp hread (j - 16) (by omega)
      rw [Ptr.add_apply, Ptr.add_apply, show (16 : Int) + (j - 16 : Nat) = j by omega,
        Function.update_self] at hbyte
      exact add_16_ne _ hbyte
    · -- the byte shows in the TCP header
      obtain ⟨t, ht⟩ : ∃ t : Nat, (j : Int) = segmentStart buf + t :=
        ⟨(j - segmentStart buf).toNat, by omega⟩
      have hstart : segmentStart (Function.update buf (j : Int) (buf j + 16)) =
          segmentStart buf := by
        rw [segmentStart, segmentStart, Function.update_of_ne (by omega)]
      have hpayload : (parsedIp (Function.update buf (j : Int) (buf j + 16))).payload =
          Function.update (parsedIp buf).payload t ((parsedIp buf).payload t + 16) := by
        show Ptr.add (Function.update buf (j : Int) (buf j + 16))
          (segmentStart (Function.update buf (j : Int) (buf j + 16))) = _
        rw [hstart, ht, Ptr.add_update]
        rfl
      rw [hpayload, congrArg IPFields.payloadSz hip] at htcp
      exact parseRawTcpPacket_update_ne _ _ (by omega) htcp
  · simp at heq

/-! ### The frames of a call -/

/-- The bytes of the buffer that a call has received: the frame `p` laid over what it
received before. -/
def overlay (known p : List UInt8) : List UInt8 := p ++ known.drop p.length

/-- Both headers lie within the known bytes. -/
def CoversHeaders (known : List UInt8) : Prop :=
  4 * (field known 0 1 % 16) + 20 ≤ known.length

/-- Each frame of the call is dropped whatever the buffer holds behind the bytes that
were received, up to one that is accepted and lies behind known bytes. -/
def SelfContained (known : List UInt8) : List (List UInt8) → Prop
  | [] => True
  | p :: ps =>
    (CoversHeaders (overlay known p) ∧
      passesTests (Ptr.ofList (overlay known p)) p.length = true) ∨
    ((∀ buf : Ptr UInt8, passesTests (buf.write 0 (overlay known p)) p.length = false) ∧
      SelfContained (overlay known p) ps)

/-- Two contents of the memory that differ in `inRawBuf` only. -/
def DifferInBuffer (x x' : Ptr UInt8) : Prop := ∀ i : Int, ¬ (0 ≤ i ∧ i < 2048) → x i = x' i

theorem arrivals_cons (x : Ptr UInt8) (known p : List UInt8) (ps : List (List UInt8)) :
    arrivals (x.write 0 known) (p :: ps) =
      arrival (x.write 0 (overlay known p)) p.length ::
        arrivals (x.write 0 (overlay known p)) ps := by
  rw [arrivals, Ptr.write_write_zero]
  rfl

theorem segmentStart_write (x : Ptr UInt8) {known : List UInt8} (h : 0 < known.length) :
    segmentStart (x.write 0 known) = (4 * (field known 0 1 % 16) : Nat) := by
  have hbyte : (x.write 0 known 0).toNat = field known 0 1 := byte_write x 0 h
  rw [segmentStart, and_15_toNat, hbyte]
  push_cast
  omega

/-- Known headers give the same verdict over any content of the buffer. -/
theorem arrival_of_covers {known : List UInt8} (h : CoversHeaders known) {n : Nat}
    (hn : n ≤ known.length) (x x' : Ptr UInt8) :
    arrival (x.write 0 known) n = arrival (x'.write 0 known) n := by
  have hlen : 4 * (field known 0 1 % 16) + 20 ≤ known.length := h
  refine arrival_congr (N := known.length) (by omega) (by omega) ?_ fun i h0 hi => ?_
  · rw [segmentStart_write x (by omega)]
    omega
  · obtain ⟨k, rfl⟩ := Int.eq_ofNat_of_zero_le h0
    exact Ptr.write_zero_congr x x' (by omega)

/-- A verdict that the call ends with is its last one. -/
theorem eq_of_upToSegment_eq {a : Arrival} {as : List Arrival} {ip : IPFields} {tcp : TCPFields}
    (h : upToSegment (a :: as) = [.segment ip tcp]) : a = .segment ip tcp := by
  cases a with
  | dropped sz => exact absurd (List.cons_eq_cons.mp h).1 (by simp)
  | segment ip' tcp' => exact (List.cons_eq_cons.mp h).1

/-- A header byte that was not received can change the verdict on an accepted frame. -/
theorem exists_arrival_ne {known : List UInt8} (h : ¬ CoversHeaders known) {buf : Ptr UInt8}
    {sz : Int} (hpass : passesTests (buf.write 0 known) sz = true) :
    ∃ x, DifferInBuffer x buf ∧
      arrival (x.write 0 known) sz ≠ arrival (buf.write 0 known) sz := by
  have hlen : ¬ 4 * (field known 0 1 % 16) + 20 ≤ known.length := h
  obtain ⟨j, hbehind, hsmall, hj⟩ : ∃ j : Nat, known.length ≤ j ∧ j < 2048 ∧
      ((16 ≤ j ∧ j < 20) ∨ (20 ≤ j ∧ segmentStart (buf.write 0 known) ≤ j ∧
        j < segmentStart (buf.write 0 known) + 20)) := by
    by_cases hshort : known.length < 20
    · exact ⟨19, by omega, by omega, .inl (by omega)⟩
    · rw [segmentStart_write buf (by omega)]
      exact ⟨max known.length (4 * (field known 0 1 % 16)), by omega, by omega, .inr (by omega)⟩
  refine ⟨Function.update buf j (buf j + 16), fun i hi => ?_, ?_⟩
  · exact Function.update_of_ne (by omega) _ _
  · have hcell : buf.write 0 known j = buf j := Ptr.write_of_ge _ (by omega)
    rw [Ptr.write_zero_update _ _ _ (by omega), ← hcell]
    exact arrival_update_ne hpass hj

/-- **The verdicts of a call show nothing of the buffer exactly when its frames are self
contained.** Induction on the frames; `known` is what the call has received. -/
theorem upToSegment_arrivals_iff (known : List UInt8) (ps : List (List UInt8)) :
    (∀ x x', DifferInBuffer x x' →
      upToSegment (arrivals (x.write 0 known) ps) =
        upToSegment (arrivals (x'.write 0 known) ps)) ↔ SelfContained known ps := by
  induction ps generalizing known with
  | nil => simp [arrivals, SelfContained]
  | cons p ps ih =>
    have hn : p.length ≤ (overlay known p).length := by simp [overlay]
    simp only [arrivals_cons, SelfContained]
    constructor
    · intro h
      by_cases hdrop : ∀ buf : Ptr UInt8,
          passesTests (buf.write 0 (overlay known p)) p.length = false
      · refine .inr ⟨hdrop, (ih _).mp fun x x' hx => ?_⟩
        have htail := h x x' hx
        rw [arrival_of_fails (hdrop x), arrival_of_fails (hdrop x'), upToSegment,
          upToSegment] at htail
        exact (List.cons_eq_cons.mp htail).2
      · obtain ⟨buf, hbuf⟩ := not_forall.mp hdrop
        have hpass : passesTests (buf.write 0 (overlay known p)) p.length = true := by
          simpa using hbuf
        have hseg := arrival_eq (buf.write 0 (overlay known p)) p.length
        rw [if_pos hpass] at hseg
        have hcovers : CoversHeaders (overlay known p) := by
          by_contra hshort
          obtain ⟨x, hx, hne⟩ := exists_arrival_ne hshort hpass
          have heq := h x buf hx
          rw [hseg, upToSegment] at heq
          exact hne ((eq_of_upToSegment_eq heq).trans hseg.symm)
        refine .inl ⟨hcovers, ?_⟩
        have hsame := arrival_of_covers hcovers hn (fun _ => default) buf
        rw [hseg, arrival_eq] at hsame
        by_contra hfail
        rw [Ptr.ofList] at hfail
        rw [if_neg hfail] at hsame
        simp at hsame
    · rintro (⟨hcovers, hpass⟩ | ⟨hdrop, hrest⟩) x x' hx
      · have hsame := arrival_of_covers hcovers hn x (fun _ => default)
        have hsame' := arrival_of_covers hcovers hn x' (fun _ => default)
        rw [Ptr.ofList] at hpass
        rw [hsame, hsame', arrival_eq, if_pos hpass, upToSegment, upToSegment]
      · rw [arrival_of_fails (hdrop x), arrival_of_fails (hdrop x'), upToSegment, upToSegment]
        exact congrArg _ ((ih _).mpr hrest x x' hx)

/-- **A call of `nextTcpIpPacket` judges the frames on their own bytes exactly when they
are self contained**: then, and only then, the frames dropped, the place where the call
leaves the line and the returned fields do not depend on what `inRawBuf` held. -/
theorem nextTcpIpPacket_selfContained_iff (site : Site) (m : Machine) :
    (∀ buf buf' : Mem UInt8, DifferInBuffer buf.cells buf'.cells →
      outcome ((nextTcpIpPacket site).run { m with inRawBuf := buf }) =
        outcome ((nextTcpIpPacket site).run { m with inRawBuf := buf' })) ↔
      SelfContained [] (frames m.input) := by
  rw [← upToSegment_arrivals_iff]
  simp only [Ptr.write_nil]
  constructor
  · intro h x x' hx
    have hout := h ⟨x, []⟩ ⟨x', []⟩ hx
    have hlog := congrArg Outcome.log hout
    rw [log_run, log_run, List.append_right_inj] at hlog
    exact List.map_injective_iff.mpr (fun a b hab => (Reactive.Event.input.inj hab).2) hlog
  · intro h buf buf' hx
    exact outcome_congr site rfl rfl (h buf.cells buf'.cells hx)

/-- A packet of 20 bytes from 192.168.53.79 to 10.0.0.2 that passes the tests: the
pseudo-header of its empty segment adds up to `0xFFFF`. -/
def headerOnly : List UInt8 :=
  [0x45, 0x00, 0x00, 0x14, 0x00, 0x00, 0x40, 0x00, 0x40, 0x06, 0x3A, 0xEB, 0xC0, 0xA8, 0x35, 0x4F,
    0x0A, 0x00, 0x00, 0x02]

/-- Its TCP header is read from what the buffer held. -/
theorem nextTcpIpPacket_reads_stale_bytes :
    ¬ ∀ (site : Site) (ps : List (List UInt8)) (m : Machine) (buf buf' : Mem UInt8),
      (∀ p ∈ ps, p.length ≤ 2048) → m.input = ps.flatMap frame →
      DifferInBuffer buf.cells buf'.cells →
      outcome ((nextTcpIpPacket site).run { m with inRawBuf := buf }) =
        outcome ((nextTcpIpPacket site).run { m with inRawBuf := buf' }) := by
  intro h
  have hout := h .syn [headerOnly] (Machine.boot ([headerOnly].flatMap frame)) (.filled 0)
    ((Mem.filled 0).store 30 1) (by decide) rfl fun i hi => ?_
  · have hlog := congrArg Outcome.log hout
    rw [log_run, log_run, Machine.pending, Machine.pending] at hlog
    simp only [Machine.boot] at hlog
    rw [frames_flatMap _ (by decide)] at hlog
    revert hlog
    decide +kernel
  · show (0 : UInt8) = Function.update (fun _ => (0 : UInt8)) 30 1 i
    rw [Function.update_of_ne (by omega)]

end SantaOS
