import SantaOS.Connection

/-!
# SantaOS.Answers

How the server answers what it reads: which ack number a reply carries, and which SYNs
are answered.

The ack number is computed from the payload size alone, so it is the number behind the
segment only for some flags (`AckRuleFits`, `reply_acknowledges_iff`). A SYN is answered
when `threeWayHandshake` reads it at its first read point. Where it is read depends on the
parity of the SYNs directly before it (`synRun_parity`), for a SYN read at the second
point is dropped and the next segment is read at the first.
-/

namespace SantaOS

open Memory BigEndian Waiting Reactive

/-! ### Ack numbers -/

/-- A SYN and a FIN take one sequence number each. -/
def marks (flags : UInt8) : Int :=
  (if flags &&& FLAG_SYN ≠ 0 then 1 else 0) + (if flags &&& FLAG_FIN ≠ 0 then 1 else 0)

/-- What a segment takes of the sequence numbers. -/
def segmentLength (tcp : TCPFields) : Int := tcp.payloadSz + marks tcp.flags

/-- The packet acknowledges the segment, up to its end. -/
def Acknowledges (raw : List UInt8) (tcp : TCPFields) : Prop :=
  (field raw 28 4 : Int) = (tcp.seq.toNat + segmentLength tcp) % 2 ^ 32

/-- A segment without payload is a SYN or a FIN and not both, one with payload is neither. -/
def AckRuleFits (tcp : TCPFields) : Prop :=
  if tcp.payloadSz = 0 then (tcp.flags &&& FLAG_SYN ≠ 0 ↔ ¬ tcp.flags &&& FLAG_FIN ≠ 0)
  else ¬ tcp.flags &&& FLAG_SYN ≠ 0 ∧ ¬ tcp.flags &&& FLAG_FIN ≠ 0

instance (tcp : TCPFields) : Decidable (AckRuleFits tcp) := by
  unfold AckRuleFits
  infer_instance

section Marks

variable (flags : UInt8)

theorem marks_mem : marks flags = 0 ∨ marks flags = 1 ∨ marks flags = 2 := by
  unfold marks
  split <;> split <;> simp

theorem marks_eq_zero_iff :
    marks flags = 0 ↔ ¬ flags &&& FLAG_SYN ≠ 0 ∧ ¬ flags &&& FLAG_FIN ≠ 0 := by
  unfold marks
  split <;> split <;> simp_all

theorem marks_eq_one_iff :
    marks flags = 1 ↔ (flags &&& FLAG_SYN ≠ 0 ↔ ¬ flags &&& FLAG_FIN ≠ 0) := by
  unfold marks
  split <;> split <;> simp_all

end Marks

/-- **A reply acknowledges the segment it answers exactly when the rule fits it**: the rule
counts one for a segment without payload, and the payload alone for any other. -/
theorem acknowledges_reply_iff (lastIp : IPFields) (lastTcp : TCPFields) (flags : UInt8)
    (payload : List UInt8) :
    Acknowledges (reply lastIp lastTcp flags payload) lastTcp ↔ AckRuleFits lastTcp := by
  rw [Acknowledges, field_reply_ack, replyAck, Int.toNat_of_nonneg (by omega), segmentLength,
    AckRuleFits, ← marks_eq_one_iff, ← marks_eq_zero_iff]
  have hmarks := marks_mem lastTcp.flags
  split
  · omega
  · omega

theorem acknowledges_built_iff (lastIp : IPFields) (lastTcp : TCPFields) (flags : UInt8)
    (payload : Ptr UInt8) {n : Nat} (hn : n ≤ 2008) (raw rawTcp rawIp : Mem UInt8) :
    Acknowledges ((buildRawTcpIpPacket lastIp lastTcp flags payload n raw rawTcp
      rawIp).1.cells.read (40 + n)) lastTcp ↔ AckRuleFits lastTcp := by
  obtain ⟨hcells, -⟩ := buildRawTcpIpPacket_eq lastIp lastTcp flags payload (n := n)
    (by omega) raw rawTcp rawIp
  have hread := Ptr.read_write_zero raw.cells (reply lastIp lastTcp flags (payload.read n))
  rw [length_reply, Ptr.length_read] at hread
  rw [hcells, hread]
  exact acknowledges_reply_iff lastIp lastTcp flags (payload.read n)

/-- **Which segments are acknowledged up to their end**: of all that `buildRawTcpIpPacket`
answers, and of all that `kernel_main` answers on any input, exactly those that the rule
fits. -/
theorem kernelMain_acknowledges_iff (lastIp : IPFields) (lastTcp : TCPFields) (flags : UInt8)
    (payload : Ptr UInt8) (n : Nat) (hn : n ≤ 2008) (raw rawTcp rawIp : Mem UInt8)
    (m : Machine) :
    (Acknowledges ((buildRawTcpIpPacket lastIp lastTcp flags payload n raw rawTcp
        rawIp).1.cells.read (40 + n)) lastTcp ↔ AckRuleFits lastTcp) ∧
      ∃ m' log, kernelMain.run m = .error .waiting m' ∧ m'.log = m.log ++ log ∧
        ∀ before raw after, merged log = before ++ .output raw :: after →
          ∃ earlier site r, before = earlier ++ [.input site r] ∧
            (Acknowledges raw r.tcp ↔ AckRuleFits r.tcp) := by
  refine ⟨acknowledges_built_iff lastIp lastTcp flags payload hn raw rawTcp rawIp, ?_⟩
  obtain ⟨m', log, hrun, hlog, -, hmerged⟩ := kernelMain_merged m
  refine ⟨m', log, hrun, hlog, fun before raw after h => ?_⟩
  rw [hmerged] at h
  obtain ⟨rs, r, -, -, hbefore, hout, -⟩ := trace_eq_append_output h
  obtain ⟨ip, tcp, flags, payload, hr, rfl⟩ := serverStep_eq_some hout
  obtain ⟨rfl, rfl⟩ := Arrival.segment.inj hr
  exact ⟨_, _, r, hbefore, acknowledges_reply_iff r.ip r.tcp flags payload⟩

/-- A SYN is acknowledged. -/
theorem kernelMain_acknowledges_syn :
    Acknowledges ((buildRawTcpIpPacket (synIp 0x0A000001) synTcp (FLAG_SYN ||| FLAG_ACK)
      (Ptr.ofList []) 0 (.filled 0) (.filled 0) (.filled 0)).1.cells.read (40 + 0)) synTcp :=
  (kernelMain_acknowledges_iff (synIp 0x0A000001) synTcp (FLAG_SYN ||| FLAG_ACK)
    (Ptr.ofList []) 0 (by decide) (.filled 0) (.filled 0) (.filled 0) (Machine.boot [])).1.mpr
    (by decide)

/-- A bare ACK is acknowledged with a number that was never sent. -/
theorem not_acknowledges :
    ¬ ∀ (lastIp : IPFields) (lastTcp : TCPFields) (flags : UInt8) (payload : Ptr UInt8) (n : Nat)
        (raw rawTcp rawIp : Mem UInt8), n ≤ 2008 → 0 ≤ lastTcp.payloadSz →
      Acknowledges ((buildRawTcpIpPacket lastIp lastTcp flags payload n raw rawTcp
        rawIp).1.cells.read (40 + n)) lastTcp := by
  intro h
  have hack := h (synIp 0x0A000001) { synTcp with flags := FLAG_ACK } FLAG_FIN (Ptr.ofList []) 0
    (.filled 0) (.filled 0) (.filled 0) (by decide) (by decide)
  rw [acknowledges_built_iff _ _ _ _ (by decide)] at hack
  revert hack
  decide

/-! ### SYNs -/

/-- How many SYNs a run of segments ends with. -/
def synRun (rs : List Segment) : Nat :=
  (rs.reverse.takeWhile fun r => r.tcp.flags = FLAG_SYN).length

@[simp] theorem synRun_nil : synRun [] = 0 := rfl

theorem synRun_concat_of_syn (rs : List Segment) {r : Segment} (h : r.tcp.flags = FLAG_SYN) :
    synRun (rs ++ [r]) = synRun rs + 1 := by
  simp [synRun, h]

theorem synRun_concat_of_ne (rs : List Segment) {r : Segment} (h : r.tcp.flags ≠ FLAG_SYN) :
    synRun (rs ++ [r]) = 0 := by
  simp [synRun, h]

/-- **The read points of the handshake alternate along a run of SYNs**: the server waits
for a SYN behind an even number of them, for an ACK behind an odd number. -/
theorem synRun_parity (rs : List Segment) :
    (state converse .syn rs = .syn → synRun rs % 2 = 0) ∧
      (state converse .syn rs = .handshakeAck → synRun rs % 2 = 1) := by
  induction rs using List.reverseRecOn with
  | nil => simp
  | append_singleton rs r ih =>
    obtain ⟨ihSyn, ihAck⟩ := ih
    rw [state_append, state_cons, state_nil]
    cases hstep : converse (state converse .syn rs) r with
    | mk site out =>
      have hs := step_of_converse hstep
      generalize state converse .syn rs = site₀ at ihSyn ihAck hs
      cases hs with
      | noSyn hr => simp [synRun_concat_of_ne rs hr]
      | syn hr =>
        have hrun := ihSyn rfl
        simp [synRun_concat_of_syn rs hr]
        omega
      | refused hr =>
        by_cases hsyn : r.tcp.flags = FLAG_SYN
        · have hrun := ihAck rfl
          simp [synRun_concat_of_syn rs hsyn]
          omega
        · simp [synRun_concat_of_ne rs hsyn]
      | established hr => simp
      | served => simp
      | finSent => simp
      | noFin hr => simp
      | closed hr =>
        have hne : r.tcp.flags ≠ FLAG_SYN := by
          intro h
          rw [h] at hr
          exact hr (by decide)
        simp [synRun_concat_of_ne rs hne]

/-- What comes next, if anything, is a segment read at `site`. -/
def NextReadAt (site : Site) (es : List Traffic) : Prop :=
  es = [] ∨ ∃ r rest, es = .input site r :: rest

theorem nextReadAt_trace (site : Site) (rs : List Segment) :
    NextReadAt site (trace converse site rs) := by
  cases rs with
  | nil => exact .inl rfl
  | cons r rs => exact .inr ⟨r, _, trace_cons _ _ _ _⟩

/-- A SYN/ACK without payload, to where the SYN came from. -/
structure AnswersSyn (raw : List UInt8) (syn : Segment) : Prop where
  flags : flagsOf raw = FLAG_SYN ||| FLAG_ACK
  payload : raw.drop 40 = []
  goesBack : GoesBack raw syn

theorem answersSyn_reply (syn : Segment) :
    AnswersSyn (reply syn.ip syn.tcp (FLAG_SYN ||| FLAG_ACK) []) syn where
  flags := flagsOf_reply _ _ _ _
  payload := drop_reply _ _ _ _
  goesBack := (goesBack_reply_iff _ _ _ _).mpr ⟨rfl, rfl, rfl, rfl⟩

/-- What becomes of a SYN that `threeWayHandshake` reads at `site`, `before` being read and
sent before it and `after` behind it. -/
structure SynOutcome (before : List Traffic) (site : Site) (syn : Segment)
    (after : List Traffic) : Prop where
  /-- It is read at the first read point behind an even number of SYNs. -/
  parity : site = .syn ↔ synRun (ins before) % 2 = 0
  /-- There it is answered at once. -/
  answered : site = .syn → ∃ raw rest, after = .output raw :: rest ∧ AnswersSyn raw syn
  /-- If an ACK is read next, the handshake is completed. -/
  completed : site = .syn → ∀ raw site' ack rest,
    after = .output raw :: .input site' ack :: rest → ack.tcp.flags = FLAG_ACK →
      site' = .handshakeAck ∧ NextReadAt .request rest
  /-- At the second read point it is dropped, and the next SYN is waited for. -/
  dropped : site = .handshakeAck → NextReadAt .syn after

theorem synOutcome_trace {rs rs' : List Segment} {site : Site} {syn : Segment}
    (hstate : state converse .syn rs = site) (hsyn : syn.tcp.flags = FLAG_SYN)
    (hsite : site = .syn ∨ site = .handshakeAck) :
    SynOutcome (trace converse .syn rs) site syn
      (outputs (converse site syn).2 ++ trace converse (converse site syn).1 rs') := by
  have hparity := synRun_parity rs
  rcases hsite with rfl | rfl
  · have hstep : converse .syn syn =
        (.handshakeAck, some (reply syn.ip syn.tcp (FLAG_SYN ||| FLAG_ACK) [])) :=
      serverStep_syn hsyn
    rw [hstep, outputs_some, List.singleton_append]
    refine
      { parity := by simp [ins_trace, hparity.1 hstate]
        answered := fun _ => ⟨_, _, rfl, answersSyn_reply syn⟩
        completed := fun _ raw site' ack rest h hack => ?_
        dropped := fun h => by cases h }
    obtain ⟨-, hrest⟩ := List.cons_eq_cons.mp h
    cases rs' with
    | nil => cases hrest
    | cons r rs' =>
      rw [trace_cons] at hrest
      obtain ⟨hinput, rfl⟩ := List.cons_eq_cons.mp hrest
      obtain ⟨rfl, rfl⟩ := Event.input.inj hinput
      have hnext : converse .handshakeAck r = (.request, none) := serverStep_handshakeAck hack
      rw [hnext]
      exact ⟨rfl, nextReadAt_trace .request rs'⟩
  · have hne : syn.tcp.flags ≠ FLAG_ACK := by
      rw [hsyn]
      decide
    have hstep : converse .handshakeAck syn = (.syn, none) := serverStep_handshakeAck_of_ne hne
    rw [hstep]
    exact
      { parity := by simp [ins_trace, hparity.2 hstate]
        answered := fun h => by cases h
        completed := fun h => by cases h
        dropped := fun _ => nextReadAt_trace .syn rs' }

/-- **Which SYNs are answered**: in every run of `kernel_main`, on every input, each SYN
read by `threeWayHandshake` at its first read point, before anything else is read, and no
SYN read at its second. -/
theorem kernelMain_syns (m : Machine) :
    ∃ m' log, kernelMain.run m = .error .waiting m' ∧ m'.log = m.log ++ log ∧
      (∀ before ip tcp after, log = before ++ .input .syn (.segment ip tcp) :: after →
        tcp.flags = FLAG_SYN →
          ∃ raw rest, after = .output raw :: rest ∧ AnswersSyn raw ⟨ip, tcp⟩) ∧
      ∀ before site syn after, merged log = before ++ .input site syn :: after →
        syn.tcp.flags = FLAG_SYN → site = .syn ∨ site = .handshakeAck →
          SynOutcome before site syn after := by
  obtain ⟨m', log, hrun, hlog, htrace, hmerged⟩ := kernelMain_merged m
  refine ⟨m', log, hrun, hlog, fun before ip tcp after h hsyn => ?_,
    fun before site syn after h hsyn hsite => ?_⟩
  · rw [htrace] at h
    obtain ⟨as, as', -, -, -, hafter⟩ := trace_eq_append_input h
    rw [serverStep_syn hsyn, outputs_some] at hafter
    exact ⟨_, _, hafter, answersSyn_reply ⟨ip, tcp⟩⟩
  · rw [hmerged] at h
    obtain ⟨rs, rs', -, rfl, rfl, rfl⟩ := trace_eq_append_input h
    exact synOutcome_trace rfl hsyn hsite

/-- A client that repeats its SYN before the ACK: the second one is not answered. -/
theorem not_every_syn_answered :
    ¬ ∀ m : Machine, ∃ m' log, kernelMain.run m = .error .waiting m' ∧ m'.log = m.log ++ log ∧
      ∀ before site syn after, merged log = before ++ .input site syn :: after →
        syn.tcp.flags = FLAG_SYN → site = .syn ∨ site = .handshakeAck →
          ∃ raw rest, after = .output raw :: rest ∧ AnswersSyn raw syn := by
  intro h
  obtain ⟨m', log, hrun, hlog, hanswered⟩ := h (.boot ([peerPacket 0x0A000001 1000 0 FLAG_SYN,
    peerPacket 0x0A000001 1000 0 FLAG_SYN, peerPacket 0x0A000001 1001 1 FLAG_ACK].flatMap frame))
  rw [merged_boot _ [peerSegment 0x0A000001 1000 0 FLAG_SYN 9678 26359,
    peerSegment 0x0A000001 1000 0 FLAG_SYN 9678 26359,
    peerSegment 0x0A000001 1001 1 FLAG_ACK 9678 26343] (by decide) (by decide +kernel)
    hrun hlog] at hanswered
  obtain ⟨raw, rest, hafter, -⟩ := hanswered
    [.input .syn (peerSegment 0x0A000001 1000 0 FLAG_SYN 9678 26359),
      .output (reply (peerSegment 0x0A000001 1000 0 FLAG_SYN 9678 26359).ip
        (peerSegment 0x0A000001 1000 0 FLAG_SYN 9678 26359).tcp (FLAG_SYN ||| FLAG_ACK) [])]
    .handshakeAck (peerSegment 0x0A000001 1000 0 FLAG_SYN 9678 26359)
    [.input .syn (peerSegment 0x0A000001 1001 1 FLAG_ACK 9678 26343)] rfl rfl (.inr rfl)
  cases hafter

end SantaOS
