import SantaOS.Conversation

/-!
# SantaOS.Connection

What holds within one connection: which endpoint it talks to, how its segments are
numbered, which FINs it acknowledges.

A `Connection` is a stretch of the merged log, from a SYN whose handshake is completed up
to the next wait for a SYN. `Course` says what such a stretch looks like behind the
handshake, and `Connection.course` that every one looks like this; the three results
(`kernelMain_endpoints`, `kernelMain_numbers`, `kernelMain_fins`) are inductions on it.

Proof shape: a connection is cut out of the log entry by entry (`course_of_cut`); a packet is
never cut off from the segment it answers (`output_of_cut`). Each result is stated by
`EachInput`, which gives for every segment read what stands before and behind it.

Design points:
* Only connections whose handshake is completed are considered, and each ends where the next
  SYN is waited for. A run may end inside one; `waitsAt` says where the server waits then
  (`waitsAt_of_last`).
* The counterexamples are runs of the whole kernel on real frames, brought back to logs of
  `converse` by `merged_boot`.
-/

namespace SantaOS

open Memory BigEndian Waiting Reactive

/-- A connection in a merged log. -/
structure Connection (log : List Traffic) where
  before : List Traffic
  syn : Segment
  /-- What follows the SYN, up to the next wait for one. -/
  during : List Traffic
  after : List Traffic
  log_eq : log = before ++ .input .syn syn :: (during ++ after)
  inside : ∀ r, .input .syn r ∉ during
  ends : after = [] ∨ ∃ r rest, after = .input .syn r :: rest
  /-- The handshake is completed. -/
  completed : ∃ ack, .input .handshakeAck ack ∈ during ∧ ack.tcp.flags = FLAG_ACK

/-- What may be read and sent from a waiting point behind the handshake on, until the
connection is closed or the line ends. -/
inductive Course : Site → List Traffic → Prop
  | waits (site : Site) : Course site []
  | served (r : Segment) {es : List Traffic} (h : Course .responseAck es) :
    Course .request (.input .request r :: .output (reply r.ip r.tcp FLAG_ACK htmlData) :: es)
  | finSent (r : Segment) {es : List Traffic} (h : Course .fin es) :
    Course .responseAck (.input .responseAck r :: .output (reply r.ip r.tcp FLAG_FIN []) :: es)
  | noFin (r : Segment) (hr : r.tcp.flags &&& FLAG_FIN = 0) {es : List Traffic}
    (h : Course .fin es) : Course .fin (.input .fin r :: es)
  | closed (r : Segment) (hr : r.tcp.flags &&& FLAG_FIN ≠ 0) :
    Course .fin [.input .fin r, .output (reply r.ip r.tcp FLAG_ACK [])]

/-! ### Cutting a connection out of the log -/

section Cut

variable {during after : List Traffic} {rs : List Segment}

theorem inside_tail {e : Traffic} (h : ∀ r, .input .syn r ∉ e :: during) :
    ∀ r, .input .syn r ∉ during :=
  fun r hr => h r (List.mem_cons_of_mem _ hr)

/-- Once the server waits for a SYN the connection is over. -/
theorem nil_of_cut (hinside : ∀ r, .input .syn r ∉ during)
    (h : trace converse .syn rs = during ++ after) : during = [] := by
  cases during with
  | nil => rfl
  | cons e during =>
    cases rs with
    | nil => cases h
    | cons r rs =>
      rw [trace_cons] at h
      obtain ⟨rfl, -⟩ := List.cons_eq_cons.mp h
      exact absurd List.mem_cons_self (hinside r)

variable (hends : after = [] ∨ ∃ r rest, after = .input .syn r :: rest)

include hends

/-- A cut does not separate a packet from what it answers. -/
theorem output_of_cut {raw : List UInt8} {es : List Traffic}
    (h : .output raw :: es = during ++ after) :
    ∃ during', during = .output raw :: during' ∧ es = during' ++ after := by
  cases during with
  | nil =>
    rw [List.nil_append] at h
    rcases hends with rfl | ⟨r, rest, rfl⟩
    · cases h
    · cases h
  | cons e during =>
    obtain ⟨rfl, hes⟩ := List.cons_eq_cons.mp h
    exact ⟨during, rfl, hes⟩

/-- **Behind the handshake every connection takes its course.** -/
theorem course_of_cut {site : Site} (hsite : site ≠ .syn) (hsite' : site ≠ .handshakeAck)
    (hinside : ∀ r, .input .syn r ∉ during) (h : trace converse site rs = during ++ after) :
    Course site during := by
  induction rs generalizing site during with
  | nil =>
    obtain ⟨rfl, -⟩ := List.append_eq_nil_iff.mp h.symm
    exact .waits site
  | cons r rs ih =>
    cases during with
    | nil => exact .waits site
    | cons e during =>
      rw [trace_cons] at h
      obtain ⟨rfl, hrest⟩ := List.cons_eq_cons.mp h
      have htail := inside_tail hinside
      cases hconverse : converse site r with
      | mk site' out =>
        rw [hconverse] at hrest
        cases step_of_converse hconverse with
        | noSyn _ => exact absurd rfl hsite
        | syn _ => exact absurd rfl hsite
        | refused _ => exact absurd rfl hsite'
        | established _ => exact absurd rfl hsite'
        | served =>
          obtain ⟨during, rfl, hes⟩ := output_of_cut hends hrest
          exact .served r (ih (by decide) (by decide) (inside_tail htail) hes)
        | finSent =>
          obtain ⟨during, rfl, hes⟩ := output_of_cut hends hrest
          exact .finSent r (ih (by decide) (by decide) (inside_tail htail) hes)
        | noFin hr => exact .noFin r hr (ih (by decide) (by decide) htail hrest)
        | closed hr =>
          obtain ⟨during, rfl, hes⟩ := output_of_cut hends hrest
          obtain rfl := nil_of_cut (inside_tail htail) hes
          exact .closed r hr

/-- The same from the wait for the ACK of the SYN/ACK on, when it comes. -/
theorem course_of_handshake (hinside : ∀ r, .input .syn r ∉ during)
    (hcompleted : ∃ ack, .input .handshakeAck ack ∈ during ∧ ack.tcp.flags = FLAG_ACK)
    (h : trace converse .handshakeAck rs = during ++ after) :
    ∃ ack es, ack.tcp.flags = FLAG_ACK ∧ during = .input .handshakeAck ack :: es ∧
      Course .request es := by
  obtain ⟨ack, hmem, hack⟩ := hcompleted
  cases rs with
  | nil =>
    obtain ⟨rfl, -⟩ := List.append_eq_nil_iff.mp h.symm
    cases hmem
  | cons r rs =>
    cases during with
    | nil => cases hmem
    | cons e during =>
      rw [trace_cons] at h
      obtain ⟨rfl, hrest⟩ := List.cons_eq_cons.mp h
      have htail := inside_tail hinside
      cases hconverse : converse .handshakeAck r with
      | mk site' out =>
        rw [hconverse] at hrest
        cases step_of_converse hconverse with
        | refused hr =>
          obtain rfl := nil_of_cut htail hrest
          obtain rfl := (Event.input.inj (List.mem_singleton.mp hmem)).2
          exact absurd hack hr
        | established hr =>
          exact ⟨r, during, hr, rfl, course_of_cut hends (by decide) (by decide) htail hrest⟩

end Cut

namespace Connection

variable {rs : List Segment}

/-- Where the server waits behind the connection, whose SYN it read at the wait for one. -/
def waitsAt {log : List Traffic} (c : Connection log) : Site :=
  state converse .syn (c.syn :: ins c.during)

/-- In the last connection of a run this is where the server is left waiting. -/
theorem waitsAt_of_last (c : Connection (trace converse .syn rs)) (hlast : c.after = []) :
    c.waitsAt = state converse .syn rs := by
  have hlog := c.log_eq
  rw [hlast, List.append_nil] at hlog
  have hread : rs = ins c.before ++ c.syn :: ins c.during :=
    calc rs = ins (trace converse Site.syn rs) := (ins_trace Site.syn rs).symm
      _ = ins (c.before ++ .input .syn c.syn :: c.during) := congrArg ins hlog
      _ = ins c.before ++ c.syn :: ins c.during := by rw [ins_append, ins_input]
  obtain ⟨rs₁, rs₂, -, hbefore, hsyn, -⟩ := trace_eq_append_input c.log_eq
  calc c.waitsAt = state converse (state converse .syn (ins c.before))
        (c.syn :: ins c.during) := by rw [hbefore, ins_trace, ← hsyn, waitsAt]
    _ = state converse .syn (ins c.before ++ c.syn :: ins c.during) := (state_append ..).symm
    _ = state converse .syn rs := congrArg _ hread.symm

/-- The packet that answers the SYN. -/
def synAck {log : List Traffic} (c : Connection log) : List UInt8 :=
  reply c.syn.ip c.syn.tcp (FLAG_SYN ||| FLAG_ACK) []

/-- **A connection is a handshake and its course.** -/
theorem course (c : Connection (trace converse .syn rs)) :
    ∃ ack es, ack.tcp.flags = FLAG_ACK ∧
      c.during = .output c.synAck :: .input .handshakeAck ack :: es ∧ Course .request es := by
  obtain ⟨ack, hmem, hack⟩ := c.completed
  obtain ⟨rs₁, rs₂, -, -, -, hpost⟩ := trace_eq_append_input c.log_eq
  cases hconverse : converse .syn c.syn with
  | mk site' out =>
    rw [hconverse] at hpost
    cases step_of_converse hconverse with
    | noSyn _ =>
      rw [nil_of_cut c.inside hpost.symm] at hmem
      cases hmem
    | syn _ =>
      obtain ⟨during, hduring, hes⟩ := output_of_cut c.ends hpost.symm
      rw [hduring] at hmem ⊢
      have hinside := inside_tail (hduring ▸ c.inside)
      have hmem := (List.mem_cons.mp hmem).resolve_left (by simp)
      obtain ⟨ack, es, hack, rfl, hcourse⟩ :=
        course_of_handshake c.ends hinside ⟨ack, hmem, hack⟩ hes
      exact ⟨ack, es, hack, rfl, hcourse⟩

end Connection

/-! ### Answered segments -/

/-- The segments of a connection that are answered: the request, the one taken as the ACK
of the page, and the FIN. -/
def Answered (site : Site) (r : Segment) : Prop :=
  site = .request ∨ site = .responseAck ∨ site = .fin ∧ r.tcp.flags &&& FLAG_FIN ≠ 0

section Answered

variable (r : Segment)

@[simp] theorem not_answered_handshakeAck : ¬ Answered .handshakeAck r := by simp [Answered]

@[simp] theorem answered_request : Answered .request r := by simp [Answered]

@[simp] theorem answered_responseAck : Answered .responseAck r := by simp [Answered]

@[simp] theorem answered_fin_iff : Answered .fin r ↔ r.tcp.flags &&& FLAG_FIN ≠ 0 := by
  simp [Answered]

end Answered

/-! ### Concrete runs -/

/-- A packet to port 8880 of 10.0.0.2, from port 40000 of `host`. -/
def peerPacket (host seq ack : UInt32) (flags : UInt8) : List UInt8 :=
  reply { synIp 0x0A000002 with dstAddr := host }
    { synTcp with srcPort := 8880, dstPort := 40000, seq := ack - 1, ack := seq } flags []

/-- The headers of such a packet, as the server reads them. -/
def peerSegment (host seq ack : UInt32) (flags : UInt8) (checksum chksum : UInt16) : Segment where
  ip := { synIp host with id := 0x0100, checksum := checksum }
  tcp := { synTcp with seq := seq, ack := ack, flags := flags, chksum := chksum }

/-- The merged log of a run on packets that come one after the other. -/
theorem merged_boot (packets : List (List UInt8)) (segments : List Segment)
    (hlength : ∀ p ∈ packets, p.length < 65536)
    (hsegments : (arrivals (fun _ => 0) packets).filterMap Arrival.segment? = segments)
    {m' : Machine} {log : List Event}
    (hrun : kernelMain.run (.boot (packets.flatMap frame)) = .error .waiting m')
    (hlog : m'.log = (Machine.boot (packets.flatMap frame)).log ++ log) :
    merged log = trace converse .syn segments := by
  obtain ⟨m'', log', hrun', hlog', -, hmerged⟩ :=
    kernelMain_merged (.boot (packets.flatMap frame))
  obtain ⟨-, rfl⟩ := EStateM.Result.error.inj (hrun.symm.trans hrun')
  obtain rfl := List.append_cancel_left (hlog.symm.trans hlog')
  rw [hmerged, Machine.pending, Machine.boot, frames_flatMap packets hlength, ← hsegments]
  rfl

/-- The connection of a run that begins with a handshake. -/
def Connection.ofHandshake (syn ack : Segment) (rs : List Segment)
    (hsyn : syn.tcp.flags = FLAG_SYN) (hack : ack.tcp.flags = FLAG_ACK)
    (hrs : ∀ r, .input .syn r ∉ trace converse .request rs) :
    Connection (trace converse .syn (syn :: ack :: rs)) where
  before := []
  syn := syn
  during := .output (reply syn.ip syn.tcp (FLAG_SYN ||| FLAG_ACK) []) ::
    .input .handshakeAck ack :: trace converse .request rs
  after := []
  log_eq := by
    rw [trace_cons, converse, serverStep_syn hsyn, trace_cons, converse,
      serverStep_handshakeAck hack]
    simp
  inside := by simpa using hrs
  ends := .inl rfl
  completed := ⟨ack, by simp, hack⟩

/-! ### Endpoints -/

/-- Both segments come from the same address and port and go to the same. -/
def SameEndpoints (r r' : Segment) : Prop :=
  r.ip.srcAddr = r'.ip.srcAddr ∧ r.tcp.srcPort = r'.tcp.srcPort ∧
    r.ip.dstAddr = r'.ip.dstAddr ∧ r.tcp.dstPort = r'.tcp.dstPort

/-- The packet goes to where the segment came from, and comes from where it went. -/
def GoesBack (raw : List UInt8) (r : Segment) : Prop :=
  field raw 16 4 = r.ip.srcAddr.toNat ∧ field raw 22 2 = r.tcp.srcPort.toNat ∧
    field raw 12 4 = r.ip.dstAddr.toNat ∧ field raw 20 2 = r.tcp.dstPort.toNat

theorem goesBack_reply_iff (r r' : Segment) (flags : UInt8) (payload : List UInt8) :
    GoesBack (reply r.ip r.tcp flags payload) r' ↔ SameEndpoints r r' := by
  rw [GoesBack, field_reply_dstAddr, field_reply_dstPort, field_reply_srcAddr,
    field_reply_srcPort, UInt32.toNat_inj, UInt32.toNat_inj, UInt16.toNat_inj, UInt16.toNat_inj,
    SameEndpoints]

theorem Course.goesBack_iff {site : Site} {es : List Traffic} (h : Course site es)
    (syn : Segment) :
    (∀ raw ∈ outs es, GoesBack raw syn) ↔
      EachInput (fun _ site r _ => Answered site r → SameEndpoints r syn) es := by
  induction h with
  | waits site => simp
  | served r h ih => simp [ih, goesBack_reply_iff]
  | finSent r h ih => simp [ih, goesBack_reply_iff]
  | noFin r hr h ih => simp [ih, hr]
  | closed r hr => simp [goesBack_reply_iff, hr]

/-- **Where a connection's packets go**: all of them go to the endpoint that opened it,
and come from the one it addressed, if and only if every segment the server answers has
the endpoints of the SYN. The server does not look. -/
theorem kernelMain_endpoints (m : Machine) :
    ∃ m' log, kernelMain.run m = .error .waiting m' ∧ m'.log = m.log ++ log ∧
      ∀ c : Connection (merged log),
        (∀ raw ∈ outs c.during, GoesBack raw c.syn) ↔
          EachInput (fun _ site r _ => Answered site r → SameEndpoints r c.syn) c.during := by
  obtain ⟨m', log, hrun, hlog, -, hmerged⟩ := kernelMain_merged m
  refine ⟨m', log, hrun, hlog, ?_⟩
  rw [hmerged]
  intro c
  obtain ⟨ack, es, hack, hduring, hcourse⟩ := c.course
  have hsyn : SameEndpoints c.syn c.syn := ⟨rfl, rfl, rfl, rfl⟩
  rw [hduring]
  simp [Connection.synAck, goesBack_reply_iff, hsyn, hcourse.goesBack_iff]

/-- A client at 10.0.0.1 opens a connection, another one at 10.0.0.3 sends the request
and is sent the page. -/
theorem not_sameEndpoints :
    ¬ ∀ m : Machine, ∃ m' log, kernelMain.run m = .error .waiting m' ∧ m'.log = m.log ++ log ∧
      ∀ c : Connection (merged log),
        EachInput (fun _ site r _ => site = .handshakeAck ∨ Answered site r →
          SameEndpoints r c.syn) c.during := by
  intro h
  obtain ⟨m', log, hrun, hlog, hsame⟩ := h (.boot ([peerPacket 0x0A000001 1000 0 FLAG_SYN,
    peerPacket 0x0A000001 1001 1 FLAG_ACK, peerPacket 0x0A000003 5000 1 FLAG_ACK].flatMap frame))
  rw [merged_boot _ [peerSegment 0x0A000001 1000 0 FLAG_SYN 9678 26359,
    peerSegment 0x0A000001 1001 1 FLAG_ACK 9678 26343,
    peerSegment 0x0A000003 5000 1 FLAG_ACK 9676 22342] (by decide) (by decide +kernel)
    hrun hlog] at hsame
  have hread := hsame (.ofHandshake _ _ _ rfl rfl (by simp [trace_cons, converse, serverStep]))
  simp [Connection.ofHandshake, trace_cons, converse, serverStep, SameEndpoints, peerSegment,
    synIp] at hread

/-! ### Sequence numbers -/

/-- The sequence number of a packet with a header of 20 bytes. -/
def seqOf (raw : List UInt8) : UInt32 := UInt32.ofNat (field raw 24 4)

/-- Its flags. -/
def flagsOf (raw : List UInt8) : UInt8 := UInt8.ofNat (field raw 33 1)

/-- The number behind a packet: its payload counts, and so do a SYN and a FIN. -/
def nextSeq (raw : List UInt8) : UInt32 :=
  seqOf raw + UInt32.ofNat (raw.drop 40).length +
    (if flagsOf raw &&& FLAG_SYN ≠ 0 then 1 else 0) +
    (if flagsOf raw &&& FLAG_FIN ≠ 0 then 1 else 0)

section Reply

variable (ip : IPFields) (tcp : TCPFields) (flags : UInt8) (payload : List UInt8)

@[simp] theorem seqOf_reply : seqOf (reply ip tcp flags payload) = tcp.ack := by
  rw [seqOf, field_reply_seq, UInt32.ofNat_toNat]

@[simp] theorem flagsOf_reply : flagsOf (reply ip tcp flags payload) = flags := by
  rw [flagsOf, field_reply_flags, UInt8.ofNat_toNat]

end Reply

/-- Each packet is numbered on from the one before it. -/
def Contiguous (raws : List (List UInt8)) : Prop :=
  raws.IsChain fun raw raw' => seqOf raw' = nextSeq raw

/-- The segment acknowledges the last packet sent before it, up to its end. -/
def AcksLast (before : List Traffic) (r : Segment) : Prop :=
  ∀ raw ∈ (outs before).getLast?, r.tcp.ack = nextSeq raw

/-- The ack fields are legal: counted from the number `base` on, none of them is beyond
the end of what has been sent. -/
def LegalAcks (base : UInt32) (es : List Traffic) : Prop :=
  EachInput (fun before _ r _ =>
    ∃ raw ∈ outs before, r.tcp.ack - base ≤ nextSeq raw - base) es

theorem contiguous_singleton (raw : List UInt8) : Contiguous [raw] := .singleton raw

theorem contiguous_cons {raw raw' : List UInt8} {raws : List (List UInt8)} :
    Contiguous (raw :: raw' :: raws) ↔ seqOf raw' = nextSeq raw ∧ Contiguous (raw' :: raws) :=
  List.isChain_cons_cons

/-- An answer is numbered on from the last packet if and only if what it answers
acknowledges that packet. -/
theorem Course.contiguous_iff {site : Site} {es : List Traffic} (h : Course site es)
    (before : List Traffic) (raw : List UInt8) (hraw : (outs before).getLast? = some raw) :
    Contiguous (raw :: outs es) ↔
      EachInput (fun before' site r _ => Answered site r → AcksLast (before ++ before') r) es := by
  induction h generalizing before raw with
  | waits site => simp [contiguous_singleton]
  | served r h ih =>
    have htail := ih (before ++ [.input .request r, .output (reply r.ip r.tcp FLAG_ACK htmlData)])
      (reply r.ip r.tcp FLAG_ACK htmlData) (by simp)
    rw [outs_input, outs_output, contiguous_cons, htail]
    simp [AcksLast, hraw]
  | finSent r h ih =>
    have htail := ih (before ++ [.input .responseAck r, .output (reply r.ip r.tcp FLAG_FIN [])])
      (reply r.ip r.tcp FLAG_FIN []) (by simp)
    rw [outs_input, outs_output, contiguous_cons, htail]
    simp [AcksLast, hraw]
  | noFin r hr h ih =>
    have htail := ih (before ++ [.input .fin r]) raw (by simpa using hraw)
    rw [outs_input, htail]
    simp [hr]
  | closed r hr =>
    rw [outs_input, outs_output, contiguous_cons]
    simp [contiguous_singleton, hr, AcksLast, hraw]

/-- The request is read at its own waiting point only. -/
theorem Course.ne_request {site : Site} {es : List Traffic} (h : Course site es)
    (hsite : site ≠ .request) (Q : List Traffic → Site → Segment → List Traffic → Prop) :
    EachInput (fun before site r after => site = .request → Q before site r after) es := by
  induction h generalizing Q with
  | waits site => simp
  | served r h ih => exact absurd rfl hsite
  | finSent r h ih => simpa using ih (by decide) _
  | noFin r hr h ih => simpa using ih (by decide) _
  | closed r hr => simp

theorem Connection.nextSeq_synAck {log : List Traffic} (c : Connection log) :
    nextSeq c.synAck = seqOf c.synAck + 1 := by
  rw [nextSeq, Connection.synAck, flagsOf_reply, drop_reply, List.length_nil,
    if_pos (show (FLAG_SYN ||| FLAG_ACK) &&& FLAG_SYN ≠ 0 by decide),
    if_neg (show ¬ (FLAG_SYN ||| FLAG_ACK) &&& FLAG_FIN ≠ 0 by decide)]
  simp

/-- When the acks are legal the request acknowledges the SYN/ACK: nothing else has been
sent. -/
theorem Course.request_acksLast {es : List Traffic} (h : Course .request es)
    (before : List Traffic) {raw : List UInt8} (hbefore : outs before = [raw])
    (hlegal : EachInput (fun before' _ r _ => ∃ raw' ∈ outs (before ++ before'),
      r.tcp.ack - nextSeq raw ≤ nextSeq raw' - nextSeq raw) es) :
    EachInput (fun before' site r _ => site = .request → AcksLast (before ++ before') r) es := by
  cases h with
  | waits _ => exact eachInput_nil
  | served r h =>
    obtain ⟨⟨raw', hmem, hle⟩, -⟩ := eachInput_input.mp hlegal
    rw [List.append_nil, hbefore, List.mem_singleton] at hmem
    rw [hmem, UInt32.sub_self, UInt32.le_zero_iff, UInt32.sub_eq_iff_eq_add,
      UInt32.zero_add] at hle
    refine eachInput_input.mpr ⟨fun _ => ?_, eachInput_output.mpr (h.ne_request (by decide) _)⟩
    simp [AcksLast, hbefore, hle]

/-- **How a connection's packets are numbered**: with legal acks, they are consecutive if
and only if the segment taken as the ACK of the page and the FIN each acknowledge the
last packet up to its end. The server has no counter of its own. -/
theorem kernelMain_numbers (m : Machine) :
    ∃ m' log, kernelMain.run m = .error .waiting m' ∧ m'.log = m.log ++ log ∧
      ∀ c : Connection (merged log), LegalAcks (seqOf c.synAck + 1) c.during →
        (Contiguous (outs c.during) ↔
          EachInput (fun before site r _ => site ≠ .request → Answered site r →
            AcksLast before r) c.during) := by
  obtain ⟨m', log, hrun, hlog, -, hmerged⟩ := kernelMain_merged m
  refine ⟨m', log, hrun, hlog, ?_⟩
  rw [hmerged]
  intro c hlegal
  obtain ⟨ack, es, hack, hduring, hcourse⟩ := c.course
  rw [LegalAcks, ← c.nextSeq_synAck, hduring, eachInput_output, eachInput_input] at hlegal
  have hrequest :=
    hcourse.request_acksLast [.output c.synAck, .input .handshakeAck ack] rfl hlegal.2
  rw [hduring, outs_output, outs_input,
    hcourse.contiguous_iff [.output c.synAck, .input .handshakeAck ack] c.synAck rfl,
    eachInput_output, eachInput_input]
  simp only [not_answered_handshakeAck, false_imp_iff, imp_true_iff, true_and]
  refine EachInput.congr fun before site r after hes => ?_
  have hsite := hrequest before site r after hes
  constructor
  · exact fun h _ => h
  · intro h hanswered
    by_cases hreq : site = .request
    · exact hsite hreq
    · exact h hreq hanswered

/-- The client acknowledges the SYN/ACK three times and the page never: the server's FIN
has the number of the page's first byte. -/
theorem not_contiguous :
    ¬ ∀ m : Machine, ∃ m' log, kernelMain.run m = .error .waiting m' ∧ m'.log = m.log ++ log ∧
      ∀ c : Connection (merged log),
        EachInput (fun _ _ r _ => SameEndpoints r c.syn) c.during →
          LegalAcks (seqOf c.synAck + 1) c.during → Contiguous (outs c.during) := by
  intro h
  obtain ⟨m', log, hrun, hlog, hcontiguous⟩ := h (.boot ([peerPacket 0x0A000001 1000 0 FLAG_SYN,
    peerPacket 0x0A000001 1001 1 FLAG_ACK, peerPacket 0x0A000001 1001 1 FLAG_ACK,
    peerPacket 0x0A000001 1001 1 FLAG_ACK].flatMap frame))
  rw [merged_boot _ [peerSegment 0x0A000001 1000 0 FLAG_SYN 9678 26359,
    peerSegment 0x0A000001 1001 1 FLAG_ACK 9678 26343,
    peerSegment 0x0A000001 1001 1 FLAG_ACK 9678 26343,
    peerSegment 0x0A000001 1001 1 FLAG_ACK 9678 26343] (by decide) (by decide +kernel)
    hrun hlog] at hcontiguous
  have hchain := hcontiguous
    (.ofHandshake _ _ _ rfl rfl (by simp [trace_cons, converse, serverStep]))
    (by simp [Connection.ofHandshake, trace_cons, converse, serverStep, SameEndpoints,
      peerSegment])
    (by simp [Connection.ofHandshake, Connection.synAck, trace_cons, converse, serverStep,
      LegalAcks, peerSegment, nextSeq])
  simp [Connection.ofHandshake, trace_cons, converse, serverStep, Contiguous, nextSeq,
    length_htmlData, peerSegment] at hchain
  exact absurd hchain (by decide)

/-! ### FINs -/

/-- The server has waited at `site` in a stretch of the log that leaves it waiting at
`last`: it has read a segment there, or still waits for one. -/
def WaitsAt (site : Site) (es : List Traffic) (last : Site) : Prop :=
  last = site ∨ ∃ r, .input site r ∈ es

/-- Every FIN read behind the handshake is answered at once by a packet with the ACK bit,
and the close does not wait for another one. The server is left waiting at `last`. -/
def FinsAcknowledged (es : List Traffic) (last : Site) : Prop :=
  EachInput (fun _ site r after => site ≠ .handshakeAck → r.tcp.flags &&& FLAG_FIN ≠ 0 →
    (∃ raw rest, after = .output raw :: rest ∧ flagsOf raw &&& FLAG_ACK ≠ 0) ∧
      (site ≠ .fin → ¬ WaitsAt .fin after last)) es

/-- No FIN is read before the close waits for one. -/
def NoEarlyFin (es : List Traffic) : Prop :=
  EachInput (fun _ site r _ => site = .request ∨ site = .responseAck →
    r.tcp.flags &&& FLAG_FIN = 0) es

/-- The close answers the FIN it waits for. -/
theorem Course.finsAcknowledged {site : Site} {es : List Traffic} (h : Course site es)
    (last : Site) (hfin : NoEarlyFin es) : FinsAcknowledged es last := by
  induction h with
  | waits site => exact eachInput_nil
  | served r h ih =>
    rw [NoEarlyFin, eachInput_input, eachInput_output] at hfin
    rw [FinsAcknowledged, eachInput_input, eachInput_output]
    exact ⟨fun _ hr => absurd (hfin.1 (.inl rfl)) hr, ih hfin.2⟩
  | finSent r h ih =>
    rw [NoEarlyFin, eachInput_input, eachInput_output] at hfin
    rw [FinsAcknowledged, eachInput_input, eachInput_output]
    exact ⟨fun _ hr => absurd (hfin.1 (.inr rfl)) hr, ih hfin.2⟩
  | noFin r hr h ih =>
    rw [NoEarlyFin, eachInput_input] at hfin
    rw [FinsAcknowledged, eachInput_input]
    exact ⟨fun _ hr' => absurd hr hr', ih hfin.2⟩
  | closed r hr =>
    rw [FinsAcknowledged, eachInput_input, eachInput_output]
    refine ⟨fun _ _ => ⟨⟨_, _, rfl, ?_⟩, fun hsite => absurd rfl hsite⟩, eachInput_nil⟩
    rw [flagsOf_reply]
    decide

/-- The close is past the places where a FIN is too early. -/
theorem Course.noEarlyFin_fin {es : List Traffic} (h : Course .fin es) : NoEarlyFin es := by
  generalize hsite : Site.fin = site at h
  induction h with
  | waits site => exact eachInput_nil
  | served r h ih => cases hsite
  | finSent r h ih => cases hsite
  | noFin r hr h ih => exact eachInput_input.mpr ⟨by simp, ih rfl⟩
  | closed r hr => exact eachInput_input.mpr ⟨by simp, eachInput_output.mpr eachInput_nil⟩

/-- A FIN taken as the ACK of the page is answered by the server's own FIN, which has no
ACK bit. -/
theorem Course.noEarlyFin_responseAck {es : List Traffic} (h : Course .responseAck es)
    {last : Site} (hacked : FinsAcknowledged es last) : NoEarlyFin es := by
  cases h with
  | waits _ => exact eachInput_nil
  | finSent r h =>
    refine eachInput_input.mpr ⟨fun _ => ?_, eachInput_output.mpr h.noEarlyFin_fin⟩
    by_contra hr
    obtain ⟨⟨raw, rest, hafter, hraw⟩, -⟩ := (eachInput_input.mp hacked).1 (by decide) hr
    obtain ⟨hout, -⟩ := List.cons_eq_cons.mp hafter
    rw [← Event.output.inj hout, flagsOf_reply] at hraw
    exact hraw (by decide)

/-- A FIN taken as the request is forgotten when the close waits for its FIN. -/
theorem Course.noEarlyFin_request {es : List Traffic} (h : Course .request es) {last : Site}
    (hwaits : WaitsAt .fin es last) (hacked : FinsAcknowledged es last) : NoEarlyFin es := by
  cases h with
  | waits _ => exact eachInput_nil
  | served r h =>
    obtain ⟨hr, htail⟩ := eachInput_input.mp hacked
    refine eachInput_input.mpr ⟨fun _ => ?_, eachInput_output.mpr <|
      h.noEarlyFin_responseAck (eachInput_output.mp htail)⟩
    by_contra hfin
    exact (hr (by decide) hfin).2 (by decide) (by simpa [WaitsAt] using hwaits)

/-- **When FINs are acknowledged**: as long as no FIN comes before the close waits for
one, all are; and once the close waits for one, only then. -/
theorem kernelMain_fins (m : Machine) :
    ∃ m' log, kernelMain.run m = .error .waiting m' ∧ m'.log = m.log ++ log ∧
      ∀ c : Connection (merged log),
        (NoEarlyFin c.during → FinsAcknowledged c.during c.waitsAt) ∧
          (WaitsAt .fin c.during c.waitsAt → FinsAcknowledged c.during c.waitsAt →
            NoEarlyFin c.during) := by
  obtain ⟨m', log, hrun, hlog, -, hmerged⟩ := kernelMain_merged m
  refine ⟨m', log, hrun, hlog, ?_⟩
  rw [hmerged]
  intro c
  generalize c.waitsAt = last
  obtain ⟨ack, es, hack, hduring, hcourse⟩ := c.course
  rw [hduring, NoEarlyFin, FinsAcknowledged, eachInput_output, eachInput_input, eachInput_output,
    eachInput_input]
  refine ⟨fun hfin => ⟨fun h => absurd rfl h, hcourse.finsAcknowledged last hfin.2⟩, ?_⟩
  intro hwaits hacked
  have hwaits : WaitsAt .fin es last := by simpa [WaitsAt] using hwaits
  exact ⟨by simp, hcourse.noEarlyFin_request hwaits hacked.2⟩

/-- The client's FIN comes with its ACK of the page: it is answered by a FIN without the
ACK bit. -/
theorem not_finsAcknowledged :
    ¬ ∀ m : Machine, ∃ m' log, kernelMain.run m = .error .waiting m' ∧ m'.log = m.log ++ log ∧
      ∀ c : Connection (merged log), FinsAcknowledged c.during c.waitsAt := by
  intro h
  obtain ⟨m', log, hrun, hlog, hfins⟩ := h (.boot ([peerPacket 0x0A000001 1000 0 FLAG_SYN,
    peerPacket 0x0A000001 1001 1 FLAG_ACK, peerPacket 0x0A000001 1001 1 FLAG_ACK,
    peerPacket 0x0A000001 1001 113 (FLAG_FIN ||| FLAG_ACK)].flatMap frame))
  rw [merged_boot _ [peerSegment 0x0A000001 1000 0 FLAG_SYN 9678 26359,
    peerSegment 0x0A000001 1001 1 FLAG_ACK 9678 26343,
    peerSegment 0x0A000001 1001 1 FLAG_ACK 9678 26343,
    peerSegment 0x0A000001 1001 113 (FLAG_FIN ||| FLAG_ACK) 9678 26230] (by decide)
    (by decide +kernel) hrun hlog] at hfins
  have hfin := hfins (.ofHandshake _ _ _ rfl rfl (by simp [trace_cons, converse, serverStep]))
  simp [Connection.ofHandshake, trace_cons, converse, serverStep, FinsAcknowledged,
    peerSegment] at hfin
  exact (hfin.2 (by decide)).1 (by decide)

end SantaOS
