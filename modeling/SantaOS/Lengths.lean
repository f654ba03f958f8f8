import SantaOS.Receive

/-!
# SantaOS.Lengths

The length fields of a packet: which of them the receiver checks, and what it returns
where it does not.

`parseRawIpPacket` compares the total length with the size of the frame and adds up the
first 20 bytes. It neither looks at the header length nor adds up the options, so it
parses exactly the well-formed headers on the inputs of `ChecksSuffice` only
(`parseRawIpPacket_exact_iff`), those where the option words make no difference to the
sum. `parseRawTcpPacket` does not look at the data offset at all: the TCP payload it
returns is inside the frame exactly when the two header lengths of the frame allow it
(`nextTcpIpPacket_insideFrame_iff`).
-/

namespace SantaOS

open Memory Waiting BigEndian

/-! ### The IP header -/

/-- The header length, in 32-bit words, of a packet in memory. -/
def headerWords (raw : Ptr UInt8) : Nat := (raw 0).toNat % 16

/-- The total length field of a packet in memory. -/
def totalLength (raw : Ptr UInt8) : Nat := decode ((raw.add 2).read 2)

/-- A well-formed IPv4 header for a frame of `sz` bytes, options included. -/
structure WellFormedHeader (raw : Ptr UInt8) (sz : Nat) : Prop where
  minimal : 5 ≤ headerWords raw
  fits : 4 * headerWords raw ≤ totalLength raw
  length_eq : totalLength raw = sz
  headerSum : onesSum (raw.read (4 * headerWords raw)) = 0xFFFF

/-- The payload is what stands behind the header in the frame. -/
structure IP.FollowsHeader (ip : IP) (raw : Ptr UInt8) (sz : Nat) : Prop where
  payloadSz_eq : ip.payloadSz = sz - 4 * headerWords raw
  nonneg : 0 ≤ ip.payloadSz
  payload_eq : ip.payload.read ip.payloadSz.toNat = (raw.read sz).drop (sz - ip.payloadSz.toNat)

/-- `parseRawIpPacket` accepts just the well-formed headers, and finds their payloads. -/
def ParsesExactly (raw : Ptr UInt8) (sz : Nat) : Prop :=
  ((parseRawIpPacket raw sz).1 = true ↔ WellFormedHeader raw sz) ∧
    ((parseRawIpPacket raw sz).1 = true → (parseRawIpPacket raw sz).2.FollowsHeader raw sz)

/-- The options of a packet in memory: what stands behind the first 20 bytes of its
header. -/
def options (raw : Ptr UInt8) : List UInt8 := (raw.add 20).read (4 * headerWords raw - 20)

/-- The option words make no difference to the sum: where the first 20 bytes add up to a
multiple of `0xFFFF` they do so themselves, and elsewhere they do not complete one. -/
def OptionsNeutral (raw : Ptr UInt8) : Prop :=
  if 0xFFFF ∣ wordSum (raw.read 20) then 0xFFFF ∣ wordSum (options raw)
  else ¬ 0xFFFF ∣ wordSum (raw.read 20) + wordSum (options raw)

/-- The checks on the first 20 bytes are enough: where the header has 20 bytes or more and
fits, its options make no difference to the sum, and otherwise the sum is wrong. -/
def ChecksSuffice (raw : Ptr UInt8) (sz : Nat) : Prop :=
  totalLength raw = sz →
    if 5 ≤ headerWords raw ∧ 4 * headerWords raw ≤ sz then OptionsNeutral raw
    else onesSum (raw.read 20) ≠ 0xFFFF

section Parse

variable (raw : Ptr UInt8) (sz : Nat)

theorem parseRawIpPacket_accepts_iff :
    (parseRawIpPacket raw sz).1 = true ↔
      totalLength raw = sz ∧ onesSum (raw.read 20) = 0xFFFF := by
  rw [parseRawIpPacket_eq, decide_eq_true_eq, checksumIp_eq_zero_iff, toNative16_toNat, and_comm,
    totalLength]
  omega

theorem parsedIp_followsHeader (h : WellFormedHeader raw sz) :
    (parsedIp raw).FollowsHeader raw sz := by
  have hihl : (raw 0 &&& 0x0F).toNat = headerWords raw := and_15_toNat _
  have hlen : (toNative16 (raw.add 2)).toNat = totalLength raw := toNative16_toNat _
  have hsz : (parsedIp raw).payloadSz = sz - 4 * headerWords raw := by
    simp only [parsedIp, hihl, hlen, h.length_eq]
    omega
  have hfits : 4 * headerWords raw ≤ sz := h.length_eq ▸ h.fits
  have hn : (parsedIp raw).payloadSz.toNat = sz - 4 * headerWords raw := by omega
  have hpayload : (parsedIp raw).payload = raw.add (4 * headerWords raw : Nat) := by
    simp only [parsedIp, hihl]
    congr 1
    omega
  refine ⟨hsz, by omega, ?_⟩
  have hread := raw.read_add (4 * headerWords raw) (sz - 4 * headerWords raw)
  rw [Nat.add_sub_cancel' hfits] at hread
  rw [hn, hpayload, hread, Nat.sub_sub_self hfits]
  exact (List.drop_left' (by simp)).symm

/-- **Neutral options are those with which the sum of the first 20 bytes tells that of the
whole header.** The first word of such a header is not zero. -/
theorem optionsNeutral_iff (hwords : 5 ≤ headerWords raw) :
    OptionsNeutral raw ↔
      (onesSum (raw.read 20) = 0xFFFF ↔ onesSum (raw.read (4 * headerWords raw)) = 0xFFFF) := by
  have hwhole : wordSum (raw.read (4 * headerWords raw)) =
      wordSum (raw.read 20) + wordSum (options raw) := by
    rw [raw.read_eq_append (show 20 ≤ 4 * headerWords raw by omega), wordSum_append _ (by simp)]
    rfl
  have hpos : wordSum (raw.read 20) ≠ 0 := by
    rw [headerWords] at hwords
    rw [Ptr.read_succ, Ptr.read_succ, wordSum_cons_cons]
    omega
  rw [onesSum_eq_top_iff, onesSum_eq_top_iff, hwhole, OptionsNeutral]
  split
  · rename_i hdvd
    rw [Nat.dvd_add_right hdvd]
    simp [hpos, hdvd]
  · rename_i hdvd
    simp [hpos, hdvd]

/-- **Exactly when `parseRawIpPacket` parses exactly.** -/
theorem parseRawIpPacket_exact_iff : ParsesExactly raw sz ↔ ChecksSuffice raw sz := by
  have hfollows : WellFormedHeader raw sz → (parseRawIpPacket raw sz).2.FollowsHeader raw sz := by
    rw [parseRawIpPacket_eq]
    exact parsedIp_followsHeader raw sz
  rw [ParsesExactly, parseRawIpPacket_accepts_iff, ChecksSuffice]
  constructor
  · rintro ⟨hiff, -⟩ hlen
    split
    · rename_i hwords
      rw [optionsNeutral_iff raw hwords.1]
      constructor
      · intro hsum
        exact (hiff.mp ⟨hlen, hsum⟩).headerSum
      · intro hsum
        exact (hiff.mpr ⟨hwords.1, hlen ▸ hwords.2, hlen, hsum⟩).2
    · rename_i hwords
      intro hsum
      have hwf := hiff.mp ⟨hlen, hsum⟩
      exact hwords ⟨hwf.minimal, hlen ▸ hwf.fits⟩
  · intro h
    have hiff : totalLength raw = sz ∧ onesSum (raw.read 20) = 0xFFFF ↔
        WellFormedHeader raw sz := by
      constructor
      · rintro ⟨hlen, hsum⟩
        have hcond := h hlen
        split at hcond
        · rename_i hwords
          rw [optionsNeutral_iff raw hwords.1] at hcond
          exact ⟨hwords.1, hlen ▸ hwords.2, hlen, hcond.mp hsum⟩
        · exact absurd hsum hcond
      · intro hwf
        have hcond := h hwf.length_eq
        rw [if_pos ⟨hwf.minimal, hwf.length_eq ▸ hwf.fits⟩,
          optionsNeutral_iff raw hwf.minimal] at hcond
        exact ⟨hwf.length_eq, hcond.mpr hwf.headerSum⟩
    exact ⟨hiff, fun haccepts => hfollows (hiff.mp haccepts)⟩

/-- Without options and in a frame that holds the header, the checks suffice. -/
theorem checksSuffice_of_noOptions (hwords : headerWords raw = 5) (hsz : 20 ≤ sz) :
    ChecksSuffice raw sz := by
  intro _
  rw [hwords, if_pos ⟨Nat.le_refl 5, hsz⟩, optionsNeutral_iff raw hwords.ge, hwords]

end Parse

/-- A header of no words at all: the frame of 20 bytes is accepted, and all of it is
payload. -/
theorem not_parsesExactly :
    ¬ ∀ (raw : Ptr UInt8) (sz : Nat), sz ≤ 2048 → ParsesExactly raw sz := by
  intro h
  have hexact := h (Ptr.ofList [0x40, 0x00, 0x00, 0x14, 0x00, 0x00, 0x40, 0x00, 0x40, 0x06, 0x3F,
    0xEB, 0xC0, 0xA8, 0x35, 0x4F, 0x0A, 0x00, 0x00, 0x02]) 20 (by decide)
  have hwf := hexact.1.mp (by decide +kernel)
  exact absurd hwf.minimal (by decide)

/-! ### The TCP header -/

/-- A call of `nextTcpIpPacket` returns only with `P` of its result and of the frame it
took off the line last. -/
def OnReturn (site : Site) (m : Machine) (P : IP × TCP → List UInt8 → Prop) : Prop :=
  ∀ r m', (nextTcpIpPacket site).run m = .ok r m' →
    ∃ earlier p, frames m.input = earlier ++ p :: frames m'.input ∧ P r p

/-- Both headers are inside the packet `p`, and the TCP payload is its end. -/
structure InsideFrame (r : IP × TCP) (p : List UInt8) : Prop where
  minimal : 5 ≤ r.2.offset.toNat
  fits : 4 * r.2.offset.toNat ≤ r.1.payloadSz
  payloadSz_eq : r.2.payloadSz = r.1.payloadSz - 4 * r.2.offset.toNat
  nonneg : 0 ≤ r.2.payloadSz
  payload_eq : r.2.payload.read r.2.payloadSz.toNat = p.drop (p.length - r.2.payloadSz.toNat)

/-- The data offset of a packet, in 32-bit words: it stands 12 bytes behind the IP
header. -/
def dataOffset (p : List UInt8) : Nat := field p (4 * (field p 0 1 % 16) + 12) 1 / 16

/-- The TCP header has 20 bytes or more, and it ends inside the packet. -/
def HeadersFit (p : List UInt8) : Prop :=
  5 ≤ dataOffset p ∧ 4 * (field p 0 1 % 16) + 4 * dataOffset p ≤ p.length

/-- What a call returns is the verdict on the last frame it took off the line. -/
theorem onReturn_judge (site : Site) (m : Machine) :
    OnReturn site m fun r p => ∃ buf : Ptr UInt8, judge (buf.write 0 p) p.length = some r := by
  intro r m' h
  induction m using call_induction site with
  | waits m hf hrun =>
    rw [hrun] at h
    cases h
  | drops m p rest hf hj hrun ih =>
    rw [hrun] at h
    obtain ⟨earlier, q, hframes, hq⟩ := ih h
    refine ⟨p :: earlier, q, ?_, hq⟩
    rw [frames_of_eq_some hf, List.cons_append, ← hframes]
    rfl
  | returns m p rest r' hf hj hrun =>
    rw [hrun] at h
    obtain ⟨rfl, rfl⟩ := EStateM.Result.ok.inj h
    exact ⟨[], p, frames_of_eq_some hf, m.inRawBuf.cells, hj⟩

theorem headerWords_write (buf : Ptr UInt8) {p : List UInt8} (h : 1 ≤ p.length) :
    headerWords (buf.write 0 p) = field p 0 1 % 16 := by
  rw [headerWords, ← byte_write buf 0 (by omega)]
  rfl

section Judged

variable {buf : Ptr UInt8} {p : List UInt8} {r : IP × TCP}
  (h : judge (buf.write 0 p) p.length = some r)

include h

/-- The lengths that are returned for a packet. -/
theorem lengths_of_judge :
    r.1.payloadSz = p.length - 4 * headerWords (buf.write 0 p) ∧
      r.2.offset = buf.write 0 p (4 * headerWords (buf.write 0 p) + 12 : Nat) >>> 4 ∧
      r.2.payloadSz = r.1.payloadSz - 4 * r.2.offset.toNat ∧
      r.2.payload =
        (buf.write 0 p).add (4 * headerWords (buf.write 0 p) + 4 * r.2.offset.toNat : Nat) := by
  have hihl : (buf.write 0 p 0 &&& 0x0F).toNat = headerWords (buf.write 0 p) := and_15_toNat _
  rw [judge] at h
  split at h
  · rename_i hpass
    obtain rfl := Option.some.inj h
    obtain ⟨-, hlen, -⟩ := (passesTests_iff _ _).mp hpass
    refine ⟨?_, ?_, ?_, ?_⟩
    · simp only [parsedIp, hlen, hihl]
      omega
    · simp only [parseRawTcpPacket_eq, parsedIp, Ptr.add_apply, hihl]
      congr 2
      omega
    · simp only [parseRawTcpPacket_eq]
      omega
    · simp only [parseRawTcpPacket_eq, parsedIp, Ptr.add_add, hihl]
      congr 1
      push_cast
      omega
  · cases h

/-- The data offset is read in the packet when the IP header leaves room for it. -/
theorem offset_of_judge (hwords : headerWords (buf.write 0 p) = field p 0 1 % 16)
    (hle : 4 * (field p 0 1 % 16) + 20 ≤ p.length) : r.2.offset.toNat = dataOffset p := by
  obtain ⟨-, hoffset, -, -⟩ := lengths_of_judge h
  rw [hoffset, shiftRight_four_toNat, hwords, byte_write buf _ (by omega), dataOffset]

/-- **What is returned is inside the frame exactly when the headers fit.** -/
theorem insideFrame_of_judge_iff : InsideFrame r p ↔ HeadersFit p := by
  obtain ⟨hsz, -, htcpSz, hpayload⟩ := lengths_of_judge h
  constructor
  · intro hin
    have hmin := hin.minimal
    have hfits := hin.fits
    have hwords := headerWords_write buf (p := p) (by omega)
    have hoffset := offset_of_judge h hwords (by omega)
    exact ⟨by omega, by omega⟩
  · rintro ⟨hmin, hfits⟩
    have hwords := headerWords_write buf (p := p) (by omega)
    have hoffset := offset_of_judge h hwords (by omega)
    have hn : r.2.payloadSz.toNat = p.length - (4 * (field p 0 1 % 16) + 4 * dataOffset p) := by
      omega
    refine ⟨by omega, by omega, htcpSz, by omega, ?_⟩
    rw [hn, hpayload, hwords, hoffset, read_rest buf hfits, Nat.sub_sub_self hfits]

end Judged

/-- **The TCP view of a received frame**: whenever `nextTcpIpPacket` returns, the data
offset, the sizes and the payload stay inside the frame if and only if the two header
lengths in the frame leave room for both headers. -/
theorem nextTcpIpPacket_insideFrame_iff (site : Site) (m : Machine) :
    OnReturn site m fun r p => (InsideFrame r p ↔ HeadersFit p) := by
  intro r m' h
  obtain ⟨earlier, p, hframes, buf, hj⟩ := onReturn_judge site m r m' h
  exact ⟨earlier, p, hframes, insideFrame_of_judge_iff hj⟩

/-- A SYN/ACK whose data offset says 15 words. -/
def longOffsetPacket : List UInt8 :=
  synAckPacket.take 32 ++ [0xF0, 0x12, 0x72, 0x10, 0x2C, 0xF4, 0x00, 0x00]

/-- Its frame of 40 bytes is returned with a payload of -40 bytes. -/
theorem not_insideFrame : ¬ ∀ (site : Site) (m : Machine), OnReturn site m InsideFrame := by
  intro h
  have hf : nextFrame (Machine.boot (frame longOffsetPacket)).input =
      some (longOffsetPacket, []) := by
    have hnext := nextFrame_clean [] (p := longOffsetPacket) (by decide)
    rwa [List.append_nil] at hnext
  have hpass : passesTests ((Machine.boot (frame longOffsetPacket)).inRawBuf.cells.write 0
      longOffsetPacket) longOffsetPacket.length = true := by
    decide +kernel
  have hrun := run_nextTcpIpPacket .syn (Machine.boot (frame longOffsetPacket))
  rw [hf] at hrun
  dsimp only at hrun
  rw [judge, if_pos hpass] at hrun
  obtain ⟨-, q, -, hin⟩ := h .syn _ _ _ hrun
  exact absurd hin.nonneg (by decide +kernel)

end SantaOS
