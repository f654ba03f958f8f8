import SantaOS.BridgeSound
import SantaOS.Conversation

/-!
# SantaOS.Serving

Clients are served. A `Visit` is what the kernel may hear from the SYN of a client, or
from the failed handshakes before it, to the client's FIN; the segments it ignores on the
way are part of it. On any sequence of visits the server gives each its four answers and
waits for the next SYN (`answers_visits`), and through the bridge a client that waits
for its answers gets them (`bridge_serves`).

Design points:
* What a visit is made of carries the conditions on its flags as fields (`Attempt`, `Visit`),
  so that the server's step on each segment is determined.
* The strays are part of it: a segment that is no SYN between two handshakes, and one without
  a FIN in the close, are read and not answered.
-/

namespace SantaOS

open Memory BigEndian Waiting Reactive Pipeline

/-! ### Visits -/

/-- A handshake that is not completed. -/
structure Attempt where
  strays : List Segment
  syn : Segment
  other : Segment
  strays_flags : ∀ r ∈ strays, r.tcp.flags ≠ FLAG_SYN
  syn_flags : syn.tcp.flags = FLAG_SYN
  other_flags : other.tcp.flags ≠ FLAG_ACK

/-- The segments of a visit. -/
structure Visit where
  attempts : List Attempt
  strays : List Segment
  syn : Segment
  ack : Segment
  request : Segment
  responseAck : Segment
  others : List Segment
  fin : Segment
  strays_flags : ∀ r ∈ strays, r.tcp.flags ≠ FLAG_SYN
  syn_flags : syn.tcp.flags = FLAG_SYN
  ack_flags : ack.tcp.flags = FLAG_ACK
  others_flags : ∀ r ∈ others, r.tcp.flags &&& FLAG_FIN = 0
  fin_flags : fin.tcp.flags &&& FLAG_FIN ≠ 0

/-- Everything read in a failed handshake. -/
def Attempt.segments (a : Attempt) : List Segment := a.strays ++ [a.syn, a.other]

/-- What the server sends in a failed handshake. -/
def Attempt.answer (a : Attempt) : List UInt8 :=
  reply a.syn.ip a.syn.tcp (FLAG_SYN ||| FLAG_ACK) []

/-- Everything read in a visit. -/
def Visit.segments (v : Visit) : List Segment :=
  v.attempts.flatMap Attempt.segments ++ (v.strays ++
    (v.syn :: v.ack :: v.request :: v.responseAck :: (v.others ++ [v.fin])))

/-- The SYN/ACK, the page, the FIN and the last ACK. -/
def Visit.answers (v : Visit) : List (List UInt8) :=
  v.attempts.map Attempt.answer ++
    [reply v.syn.ip v.syn.tcp (FLAG_SYN ||| FLAG_ACK) [],
      reply v.request.ip v.request.tcp FLAG_ACK htmlData,
      reply v.responseAck.ip v.responseAck.tcp FLAG_FIN [],
      reply v.fin.ip v.fin.tcp FLAG_ACK []]

/-! ### The server on a visit -/

/-- On `rs` the server goes from `site` to `site'` and sends `raws`. -/
def Serves (site : Site) (rs : List Segment) (raws : List (List UInt8)) (site' : Site) : Prop :=
  state converse site rs = site' ∧ outs (trace converse site rs) = raws

section Serves

variable {site site' site'' : Site} {rs rs' : List Segment} {raws raws' : List (List UInt8)}
  {r : Segment}

theorem Serves.append (h : Serves site rs raws site') (h' : Serves site' rs' raws' site'') :
    Serves site (rs ++ rs') (raws ++ raws') site'' := by
  obtain ⟨rfl, rfl⟩ := h
  obtain ⟨rfl, rfl⟩ := h'
  exact ⟨state_append _ _ _ _, by rw [trace_append, outs_append]⟩

/-- One segment. -/
theorem serves_one {out : Option (List UInt8)} (h : converse site r = (site', out)) :
    Serves site [r] out.toList site' := by
  refine ⟨by rw [state_cons, h, state_nil], ?_⟩
  rw [trace_cons, h]
  cases out with
  | none => rfl
  | some raw => rfl

/-- Segments that the server ignores where it waits. -/
theorem serves_ignored (h : ∀ r ∈ rs, converse site r = (site, none)) :
    Serves site rs [] site := by
  induction rs with
  | nil => exact ⟨rfl, rfl⟩
  | cons r rs ih =>
    have hrest := ih fun r' hr' => h r' (List.mem_cons_of_mem r hr')
    exact (serves_one (h r List.mem_cons_self)).append hrest

theorem serves_strays (h : ∀ r ∈ rs, r.tcp.flags ≠ FLAG_SYN) : Serves .syn rs [] .syn :=
  serves_ignored fun r hr => serverStep_syn_of_ne (h r hr)

theorem serves_syn (h : r.tcp.flags = FLAG_SYN) :
    Serves .syn [r] [reply r.ip r.tcp (FLAG_SYN ||| FLAG_ACK) []] .handshakeAck :=
  serves_one (serverStep_syn h)

end Serves

/-- A failed handshake costs one SYN/ACK. -/
theorem Attempt.serves (a : Attempt) : Serves .syn a.segments [a.answer] .syn := by
  have hother : Serves .handshakeAck [a.other] [] .syn :=
    serves_one (serverStep_handshakeAck_of_ne a.other_flags)
  exact (serves_strays a.strays_flags).append ((serves_syn a.syn_flags).append hother)

theorem serves_attempts (as : List Attempt) :
    Serves .syn (as.flatMap Attempt.segments) (as.map Attempt.answer) .syn := by
  induction as with
  | nil => exact ⟨rfl, rfl⟩
  | cons a as ih => exact a.serves.append ih

/-- **Step lemma**: one visit. -/
theorem Visit.serves (v : Visit) : Serves .syn v.segments v.answers .syn := by
  have hack : Serves .handshakeAck [v.ack] [] .request :=
    serves_one (serverStep_handshakeAck v.ack_flags)
  have hrequest : Serves .request [v.request] _ .responseAck := serves_one serverStep_request
  have hresponse : Serves .responseAck [v.responseAck] _ .fin :=
    serves_one serverStep_responseAck
  have hothers : Serves .fin v.others [] .fin :=
    serves_ignored fun r hr => serverStep_fin_of_eq (not_not.mpr (v.others_flags r hr))
  have hfin : Serves .fin [v.fin] _ .syn := serves_one (serverStep_fin v.fin_flags)
  exact (serves_attempts v.attempts).append <| (serves_strays v.strays_flags).append <|
    (serves_syn v.syn_flags).append <| hack.append <| hrequest.append <| hresponse.append <|
      hothers.append hfin

/-- **Run lemma**: any number of visits. -/
theorem serves_visits (vs : List Visit) :
    Serves .syn (vs.flatMap Visit.segments) (vs.flatMap Visit.answers) .syn := by
  induction vs with
  | nil => exact ⟨rfl, rfl⟩
  | cons v vs ih =>
    rw [List.flatMap_cons, List.flatMap_cons]
    exact v.serves.append ih

/-! ### The packets on the line -/

/-- Dropped frames are not answered. -/
theorem outs_merged (log : List Event) : outs (merged log) = outs log := by
  induction log with
  | nil => rfl
  | cons e log ih =>
    cases e with
    | input site a =>
      cases a with
      | dropped sz => exact ih
      | segment ip tcp => exact ih
    | output raw => exact congrArg (raw :: ·) ih

/-- **Visits are served one after the other**, whatever frames are dropped among them. -/
theorem answers_visits {buf : Ptr UInt8} {ps : List (List UInt8)} {vs : List Visit}
    (h : (arrivals buf ps).filterMap Arrival.segment? = vs.flatMap Visit.segments) :
    SantaOS.answers buf ps = vs.flatMap Visit.answers := by
  rw [SantaOS.answers, ← outs_merged, merged_trace, h]
  exact (serves_visits vs).2

/-- **A client that waits is served.** If the packets read from the TUN device are those
of some visits, each read when the answers before it have been written, then at rest
what has been written to the device is the SYN/ACK, the page, the FIN and the last ACK for
each visit, and a SYN/ACK for each failed handshake. -/
theorem bridge_serves {mtu : Nat} {m : Machine} {read written : List (List UInt8)}
    {c : BridgeState} (vs : List Visit) (h : RunWhen (AllAnswered m) (bridge mtu m) read written c)
    (hrest : (bridge mtu m).AtRest c)
    (hvisits : (arrivals m.inRawBuf.cells read).filterMap Arrival.segment? =
      vs.flatMap Visit.segments) :
    written = vs.flatMap Visit.answers :=
  (answered_of_atRest h hrest).trans (answers_visits hvisits)

/-! ### A visit -/

/-- The ACK of the SYN/ACK. -/
def ackPacket : List UInt8 :=
  [0x45, 0x00, 0x00, 0x28, 0x00, 0x00, 0x40, 0x00, 0x40, 0x06, 0x26, 0xce, 0x0a, 0x00, 0x00, 0x01,
    0x0a, 0x00, 0x00, 0x02, 0x9c, 0x40, 0x22, 0xb0, 0x00, 0x00, 0x03, 0xe9, 0x00, 0x00, 0x00, 0x01,
    0x50, 0x10, 0x72, 0x10, 0x66, 0xe7, 0x00, 0x00]

/-- `GET /` -/
def getPacket : List UInt8 :=
  [0x45, 0x00, 0x00, 0x2e, 0x00, 0x00, 0x40, 0x00, 0x40, 0x06, 0x26, 0xc8, 0x0a, 0x00, 0x00, 0x01,
    0x0a, 0x00, 0x00, 0x02, 0x9c, 0x40, 0x22, 0xb0, 0x00, 0x00, 0x03, 0xe9, 0x00, 0x00, 0x00, 0x01,
    0x50, 0x18, 0x72, 0x10, 0x9c, 0x69, 0x00, 0x00, 0x47, 0x45, 0x54, 0x20, 0x2f, 0x0a]

/-- The ACK of the page. -/
def pageAckPacket : List UInt8 :=
  [0x45, 0x00, 0x00, 0x28, 0x00, 0x00, 0x40, 0x00, 0x40, 0x06, 0x26, 0xce, 0x0a, 0x00, 0x00, 0x01,
    0x0a, 0x00, 0x00, 0x02, 0x9c, 0x40, 0x22, 0xb0, 0x00, 0x00, 0x03, 0xef, 0x00, 0x00, 0x00, 0x71,
    0x50, 0x10, 0x72, 0x10, 0x66, 0x71, 0x00, 0x00]

/-- The FIN of the client. -/
def finPacket : List UInt8 :=
  [0x45, 0x00, 0x00, 0x28, 0x00, 0x00, 0x40, 0x00, 0x40, 0x06, 0x26, 0xce, 0x0a, 0x00, 0x00, 0x01,
    0x0a, 0x00, 0x00, 0x02, 0x9c, 0x40, 0x22, 0xb0, 0x00, 0x00, 0x03, 0xef, 0x00, 0x00, 0x00, 0x72,
    0x50, 0x11, 0x72, 0x10, 0x66, 0x6f, 0x00, 0x00]

/-- The headers of a packet. -/
def segmentOf (p : List UInt8) : Segment where
  ip := (parsedIp (Ptr.ofList p)).toIPFields
  tcp := (parseRawTcpPacket ((Ptr.ofList p).add 20) (p.length - 20)).toTCPFields

/-- A client that asks for the page. -/
def getVisit : Visit where
  attempts := []
  strays := []
  syn := segmentOf synPacket
  ack := segmentOf ackPacket
  request := segmentOf getPacket
  responseAck := segmentOf pageAckPacket
  others := []
  fin := segmentOf finPacket
  strays_flags := by simp
  syn_flags := by decide
  ack_flags := by decide
  others_flags := by simp
  fin_flags := by decide

theorem bridge_serves_getVisit :
    ∃ c, RunWhen (AllAnswered (.boot [])) (bridge 1500 (.boot []))
        [synPacket, ackPacket, getPacket, pageAckPacket, finPacket] getVisit.answers c ∧
      (bridge 1500 (.boot [])).AtRest c := by
  obtain ⟨written, c, hrun, hrest⟩ := exists_run 1500 (.boot [])
    [synPacket, ackPacket, getPacket, pageAckPacket, finPacket] (by decide)
  have hwritten := bridge_serves [getVisit] hrun hrest (by decide +kernel)
  rw [List.flatMap_singleton] at hwritten
  exact ⟨c, hwritten ▸ hrun, hrest⟩

end SantaOS
