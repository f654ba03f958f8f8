import Mathlib.Order.CompletePartialOrder
import SantaOS.Server
import SantaOS.Lib.Regular

/-!
# SantaOS.Conversation

The shape of what the server hears and says. `merged` leaves the dropped frames out of
the log; what remains is the log of the machine `converse`, whose inputs are segments.

`cycle` is one conversation as a regular language: failed handshakes, then a handshake,
the page and the close. `ahead` is what may still come at each waiting point, and one
step of the machine keeps to it (`step_ahead`); so every log is a prefix of a run of
conversations (`kernelMain_conversation`).

Design points:
* `Step` says what the server can do with a segment, one constructor for each way through the
  source, and `step_of_converse` that it does nothing else. Later results are case analyses
  on it.
* The language speaks of flags and payloads. To whom a packet goes, and what it answers, is
  said of the positions of the log.
-/

namespace SantaOS

open Memory BigEndian Waiting Reactive Regular
open Computability

/-- The headers of a segment. -/
structure Segment where
  ip : IPFields
  tcp : TCPFields
  deriving DecidableEq, Repr

/-- An entry of the merged log: a segment read or a packet sent. -/
abbrev Traffic := Reactive.Event Site Segment (List UInt8)

/-- The accepted segment, if it is one. -/
def Arrival.segment? : Arrival → Option Segment
  | .dropped _ => none
  | .segment ip tcp => some ⟨ip, tcp⟩

/-- The segments accepted and the packets sent, in order. -/
def merged (log : List Event) : List Traffic := log.filterMap (Event.view Arrival.segment?)

/-- The server on the segments it accepts. -/
def converse (site : Site) (r : Segment) : Site × Option (List UInt8) :=
  serverStep site (.segment r.ip r.tcp)

theorem merged_trace (site : Site) (as : List Arrival) :
    merged (trace serverStep site as) = trace converse site (as.filterMap Arrival.segment?) := by
  refine filterMap_trace (fun site a r h => ?_) (fun site a h => ?_) site as
  · cases a with
    | dropped sz => cases h
    | segment ip tcp =>
      obtain rfl := Option.some.inj h
      rfl
  · cases a with
    | dropped sz => cases site <;> rfl
    | segment ip tcp => cases h

/-- What `kernel_main` logs, in full and merged. -/
theorem kernelMain_merged (m : Machine) :
    ∃ m' log, kernelMain.run m = .error .waiting m' ∧ m'.log = m.log ++ log ∧
      log = trace serverStep .syn m.pending ∧
      merged log = trace converse .syn (m.pending.filterMap Arrival.segment?) := by
  obtain ⟨m', hrun, hlog⟩ := kernelMain_log m
  exact ⟨m', _, hrun, hlog, rfl, merged_trace .syn m.pending⟩

/-! ### What a step can do -/

/-- The steps of the server on the segment `r`: where it waited, where it waits next and
what it sends. -/
inductive Step (r : Segment) : Site → Site → Option (List UInt8) → Prop
  | noSyn (h : r.tcp.flags ≠ FLAG_SYN) : Step r .syn .syn none
  | syn (h : r.tcp.flags = FLAG_SYN) :
    Step r .syn .handshakeAck (some (reply r.ip r.tcp (FLAG_SYN ||| FLAG_ACK) []))
  | refused (h : r.tcp.flags ≠ FLAG_ACK) : Step r .handshakeAck .syn none
  | established (h : r.tcp.flags = FLAG_ACK) : Step r .handshakeAck .request none
  | served : Step r .request .responseAck (some (reply r.ip r.tcp FLAG_ACK htmlData))
  | finSent : Step r .responseAck .fin (some (reply r.ip r.tcp FLAG_FIN []))
  | noFin (h : r.tcp.flags &&& FLAG_FIN = 0) : Step r .fin .fin none
  | closed (h : r.tcp.flags &&& FLAG_FIN ≠ 0) :
    Step r .fin .syn (some (reply r.ip r.tcp FLAG_ACK []))

/-- **Inversion**: the server does nothing else. -/
theorem step_of_converse {site site' : Site} {r : Segment} {out : Option (List UInt8)}
    (h : converse site r = (site', out)) : Step r site site' out := by
  rw [converse] at h
  cases site with
  | syn =>
    by_cases hsyn : r.tcp.flags = FLAG_SYN
    · cases (serverStep_syn hsyn).symm.trans h
      exact .syn hsyn
    · cases (serverStep_syn_of_ne hsyn).symm.trans h
      exact .noSyn hsyn
  | handshakeAck =>
    by_cases hack : r.tcp.flags = FLAG_ACK
    · cases (serverStep_handshakeAck hack).symm.trans h
      exact .established hack
    · cases (serverStep_handshakeAck_of_ne hack).symm.trans h
      exact .refused hack
  | request =>
    cases serverStep_request.symm.trans h
    exact .served
  | responseAck =>
    cases serverStep_responseAck.symm.trans h
    exact .finSent
  | fin =>
    by_cases hfin : r.tcp.flags &&& FLAG_FIN ≠ 0
    · cases (serverStep_fin hfin).symm.trans h
      exact .closed hfin
    · cases (serverStep_fin_of_eq hfin).symm.trans h
      exact .noFin (not_not.mp hfin)

/-! ### The language of a conversation -/

/-- `R`: a segment read at `site` whose flags satisfy `P`. -/
def received (site : Site) (P : UInt8 → Prop) : Language Traffic :=
  letter fun e => ∃ r, e = .input site r ∧ P r.tcp.flags

/-- `S`: a packet sent with these flags and this payload. -/
def sent (flags : UInt8) (payload : List UInt8) : Language Traffic :=
  letter fun e => ∃ raw, e = .output raw ∧ field raw 33 1 = flags.toNat ∧ raw.drop 40 = payload

/-- Segments other than SYNs, and a SYN with its answer. -/
def opening : Language Traffic :=
  (received .syn (· ≠ FLAG_SYN))∗ *
    (received .syn (· = FLAG_SYN) * sent (FLAG_SYN ||| FLAG_ACK) [])

/-- A handshake that is not completed. -/
def failedAttempt : Language Traffic := opening * received .handshakeAck (· ≠ FLAG_ACK)

/-- The wait for the FIN, and the last ACK. -/
def closing : Language Traffic :=
  (received .fin (· &&& FLAG_FIN = 0))∗ *
    (received .fin (· &&& FLAG_FIN ≠ 0) * sent FLAG_ACK [])

/-- The request and the page, the ACK of the page and the FIN, the close. -/
def serving : Language Traffic :=
  received .request (fun _ => True) * (sent FLAG_ACK htmlData *
    (received .responseAck (fun _ => True) * (sent FLAG_FIN [] * closing)))

/-- One pass of the loop of `kernel_main`. -/
def cycle : Language Traffic :=
  failedAttempt∗ * (opening * (received .handshakeAck (· = FLAG_ACK) * serving))

/-- What may still come at a waiting point, up to the end of some later pass. -/
def ahead : Site → Language Traffic
  | .syn => cycle * cycle∗
  | .handshakeAck =>
    received .handshakeAck (· ≠ FLAG_ACK) * (cycle * cycle∗) +
      received .handshakeAck (· = FLAG_ACK) * (serving * cycle∗)
  | .request => serving * cycle∗
  | .responseAck =>
    received .responseAck (fun _ => True) * (sent FLAG_FIN [] * (closing * cycle∗))
  | .fin => closing * cycle∗

/-! #### The words ahead -/

section Letters

variable {site : Site} {P : UInt8 → Prop} {r : Segment} {w : List Traffic}
  {L : Language Traffic}

theorem received_mem (h : P r.tcp.flags) (hw : w ∈ L) :
    .input site r :: w ∈ received site P * L :=
  cons_mem ⟨r, rfl, h⟩ hw

theorem sent_mem (ip : IPFields) (tcp : TCPFields) (flags : UInt8) (payload : List UInt8)
    (hw : w ∈ L) : .output (reply ip tcp flags payload) :: w ∈ sent flags payload * L :=
  cons_mem ⟨_, rfl, field_reply_flags ip tcp flags payload, drop_reply ip tcp flags payload⟩ hw

end Letters

/-- A segment that is no SYN before a conversation is part of it. -/
theorem noSyn_mul_le : received .syn (· ≠ FLAG_SYN) * ahead .syn ≤ ahead .syn := by
  have hopening (L : Language Traffic) :
      received .syn (· ≠ FLAG_SYN) * (opening * L) ≤ opening * L := by
    rw [opening, mul_assoc]
    exact mul_kstar_mul_le _ _
  have hcycle : received .syn (· ≠ FLAG_SYN) * cycle ≤ cycle :=
    absorb_kstar_mul (hopening _) (hopening _)
  rw [ahead, ← mul_assoc]
  exact mul_le_mul_left hcycle _

/-- A conversation may begin with its SYN. -/
theorem syn_mul_le (L : Language Traffic) :
    received .syn (· = FLAG_SYN) * (sent (FLAG_SYN ||| FLAG_ACK) [] * L) ≤ opening * L := by
  rw [opening, mul_assoc, mul_assoc]
  exact le_kstar_mul _ _

/-- The handshake fails, or the page is served; both belong to the conversation. -/
theorem opening_mul_le : opening * ahead .handshakeAck ≤ ahead .syn := by
  have hfailed : failedAttempt * cycle ≤ cycle := mul_kstar_mul_le _ _
  have hserved : opening * (received .handshakeAck (· = FLAG_ACK) * serving) ≤ cycle :=
    le_kstar_mul _ _
  rw [ahead, ahead, mul_add]
  refine add_le ?_ ?_
  · rw [← mul_assoc, ← mul_assoc]
    exact mul_le_mul_left hfailed _
  · rw [← mul_assoc (received _ _), ← mul_assoc]
    exact mul_le_mul_left hserved _

/-- A segment without a FIN is waited through. -/
theorem noFin_mul_le : received .fin (· &&& FLAG_FIN = 0) * ahead .fin ≤ ahead .fin := by
  rw [ahead, closing, mul_assoc]
  exact mul_kstar_mul_le _ _

/-- The FIN and the last ACK end the conversation; the next one may begin. -/
theorem fin_mul_le :
    received .fin (· &&& FLAG_FIN ≠ 0) * (sent FLAG_ACK [] * ahead .syn) ≤ ahead .fin := by
  have hnext : ahead .syn ≤ cycle∗ := mul_kstar_le_kstar
  show _ ≤ closing * cycle∗
  rw [closing, mul_assoc, mul_assoc]
  refine le_trans ?_ (le_kstar_mul _ _)
  exact mul_le_mul_right (mul_le_mul_right hnext _) _

theorem request_mul_le :
    received .request (fun _ => True) * (sent FLAG_ACK htmlData * ahead .responseAck) ≤
      ahead .request := by
  rw [ahead, ahead, serving]
  simp only [mul_assoc]
  exact le_rfl

/-- **Step lemma**: what a step logs is in the language ahead of its state. -/
theorem step_ahead (site : Site) (r : Segment) :
    ∀ w ∈ ahead (converse site r).1,
      .input site r :: (outputs (converse site r).2 ++ w) ∈ ahead site := by
  intro w hw
  cases hstep : converse site r with
  | mk site' out =>
    rw [hstep] at hw
    cases step_of_converse hstep with
    | noSyn h => exact noSyn_mul_le (received_mem h hw)
    | syn h => exact opening_mul_le (syn_mul_le _ (received_mem h (sent_mem _ _ _ _ hw)))
    | refused h => exact .inl (received_mem h hw)
    | established h => exact .inr (received_mem h hw)
    | served => exact request_mul_le (received_mem trivial (sent_mem _ _ _ _ hw))
    | finSent => exact received_mem trivial (sent_mem _ _ _ _ hw)
    | noFin h => exact noFin_mul_le (received_mem h hw)
    | closed h => exact fin_mul_le (received_mem h (sent_mem _ _ _ _ hw))

/-! #### Every conversation can be brought to its end -/

/-- A segment with the given flags. -/
def segmentWith (flags : UInt8) : Segment := ⟨synIp 0x0A000001, { synTcp with flags := flags }⟩

theorem received_nonempty (site : Site) {P : UInt8 → Prop} (flags : UInt8) (h : P flags) :
    (received site P).Nonempty :=
  letter_nonempty ⟨segmentWith flags, rfl, h⟩

theorem sent_nonempty (flags : UInt8) (payload : List UInt8) : (sent flags payload).Nonempty :=
  letter_nonempty ⟨_, rfl, field_reply_flags (synIp 0) synTcp flags payload,
    drop_reply (synIp 0) synTcp flags payload⟩

theorem closing_nonempty : closing.Nonempty :=
  mul_nonempty (kstar_nonempty _) <|
    mul_nonempty (received_nonempty .fin FLAG_FIN (by decide)) (sent_nonempty _ _)

theorem serving_nonempty : serving.Nonempty :=
  mul_nonempty (received_nonempty .request 0 trivial) <| mul_nonempty (sent_nonempty _ _) <|
    mul_nonempty (received_nonempty .responseAck 0 trivial) <|
      mul_nonempty (sent_nonempty _ _) closing_nonempty

theorem cycle_nonempty : cycle.Nonempty :=
  mul_nonempty (kstar_nonempty _) <|
    mul_nonempty (mul_nonempty (kstar_nonempty _) <|
      mul_nonempty (received_nonempty .syn FLAG_SYN rfl) (sent_nonempty _ _)) <|
    mul_nonempty (received_nonempty .handshakeAck FLAG_ACK rfl) serving_nonempty

theorem ahead_nonempty (site : Site) : (ahead site).Nonempty := by
  have hrest := kstar_nonempty cycle
  cases site with
  | syn => exact mul_nonempty cycle_nonempty hrest
  | handshakeAck =>
    have hack : (received .handshakeAck (· = FLAG_ACK)).Nonempty :=
      received_nonempty .handshakeAck FLAG_ACK rfl
    obtain ⟨w, hw⟩ := mul_nonempty hack (mul_nonempty serving_nonempty hrest)
    exact ⟨w, .inr hw⟩
  | request => exact mul_nonempty serving_nonempty hrest
  | responseAck =>
    exact mul_nonempty (received_nonempty .responseAck 0 trivial) <|
      mul_nonempty (sent_nonempty _ _) (mul_nonempty closing_nonempty hrest)
  | fin => exact mul_nonempty closing_nonempty hrest

/-! ### What an output answers -/

/-- The server sends only in answer to a segment. -/
theorem serverStep_eq_some {site : Site} {a : Arrival} {raw : List UInt8}
    (h : (serverStep site a).2 = some raw) :
    ∃ ip tcp flags payload, a = .segment ip tcp ∧ raw = reply ip tcp flags payload := by
  cases a with
  | dropped sz => cases site <;> cases h
  | segment ip tcp =>
    obtain ⟨site', hstep⟩ : ∃ site', converse site ⟨ip, tcp⟩ = (site', some raw) :=
      ⟨_, Prod.ext rfl h⟩
    cases step_of_converse hstep with
    | syn _ => exact ⟨ip, tcp, _, _, rfl, rfl⟩
    | served => exact ⟨ip, tcp, _, _, rfl, rfl⟩
    | finSent => exact ⟨ip, tcp, _, _, rfl, rfl⟩
    | closed _ => exact ⟨ip, tcp, _, _, rfl, rfl⟩

/-- Only the answer to the request has a payload. -/
theorem eq_request_of_payload {site : Site} {r : Segment} {raw : List UInt8}
    (h : (converse site r).2 = some raw) (hpayload : raw.drop 40 ≠ []) : site = .request := by
  obtain ⟨site', hstep⟩ : ∃ site', converse site r = (site', some raw) := ⟨_, Prod.ext rfl h⟩
  cases step_of_converse hstep with
  | syn _ => exact absurd (drop_reply _ _ _ _) hpayload
  | served => rfl
  | finSent => exact absurd (drop_reply _ _ _ _) hpayload
  | closed _ => exact absurd (drop_reply _ _ _ _) hpayload

/-- After a first step the state is where the last step led. -/
theorem step_of_state {rs : List Segment} {site : Site} (h : state converse .syn rs = site)
    (hsite : site ≠ .syn) :
    ∃ rs' r out, rs = rs' ++ [r] ∧ Step r (state converse .syn rs') site out ∧
      trace converse .syn rs =
        trace converse .syn rs' ++ .input (state converse .syn rs') r :: outputs out := by
  rcases rs.eq_nil_or_concat' with rfl | ⟨rs, r, rfl⟩
  · exact absurd h.symm hsite
  rw [state_append, state_cons, state_nil] at h
  exact ⟨rs, r, _, rfl, step_of_converse (Prod.ext h rfl), trace_concat _ _ _ _⟩

/-- A SYN, the SYN/ACK that answers it, and an ACK. -/
def handshake (syn ack : Segment) : List Traffic :=
  [.input .syn syn, .output (reply syn.ip syn.tcp (FLAG_SYN ||| FLAG_ACK) []),
    .input .handshakeAck ack]

/-- The server waits for a request only right after a handshake. -/
theorem trace_of_state_request {rs : List Segment} (h : state converse .syn rs = .request) :
    ∃ earlier syn ack, syn.tcp.flags = FLAG_SYN ∧ ack.tcp.flags = FLAG_ACK ∧
      trace converse .syn rs = earlier ++ handshake syn ack := by
  obtain ⟨rs₁, ack, out, -, hack, htrace⟩ := step_of_state h (by decide)
  generalize hstate : state converse .syn rs₁ = site at hack htrace
  cases hack with
  | established hack =>
    obtain ⟨rs₂, syn, out, -, hsyn, htrace'⟩ := step_of_state hstate (by decide)
    generalize state converse .syn rs₂ = site at hsyn htrace'
    cases hsyn with
    | syn hsyn =>
      refine ⟨trace converse .syn rs₂, syn, ack, hsyn, hack, ?_⟩
      rw [htrace, htrace', handshake]
      simp

/-- **The shape of the conversation**: on every input, the merged log is at all times a
prefix of a run of conversations; a packet is sent to where the segment directly before
it came from, never after a dropped frame; and a page is sent only after a handshake and
a request of its own. -/
theorem kernelMain_conversation (m : Machine) :
    ∃ m' log, kernelMain.run m = .error .waiting m' ∧ m'.log = m.log ++ log ∧
      (∀ sofar, sofar <+: log → ∃ w ∈ cycle∗, merged sofar <+: w) ∧
      (∀ before raw after, log = before ++ .output raw :: after →
        ∃ earlier site ip tcp, before = earlier ++ [.input site (.segment ip tcp)] ∧
          field raw 16 4 = ip.srcAddr.toNat ∧ field raw 22 2 = tcp.srcPort.toNat) ∧
      (∀ before raw after, merged log = before ++ .output raw :: after → raw.drop 40 ≠ [] →
        ∃ earlier syn ack request, syn.tcp.flags = FLAG_SYN ∧ ack.tcp.flags = FLAG_ACK ∧
          before = earlier ++ handshake syn ack ++ [.input .request request]) := by
  obtain ⟨m', log, hrun, hlog, htrace, hmerged⟩ := kernelMain_merged m
  refine ⟨m', log, hrun, hlog, fun sofar hsofar => ?_, fun before raw after h => ?_,
    fun before raw after h hpayload => ?_⟩
  · obtain ⟨w, hw, hprefix⟩ := trace_prefix step_ahead ahead_nonempty .syn
      (m.pending.filterMap Arrival.segment?)
    rw [← hmerged] at hprefix
    exact ⟨w, (mul_kstar_le_kstar : ahead .syn ≤ cycle∗) hw, (hsofar.filterMap _).trans hprefix⟩
  · rw [htrace] at h
    obtain ⟨as, a, -, -, hbefore, hout, -⟩ := trace_eq_append_output h
    obtain ⟨ip, tcp, flags, payload, rfl, rfl⟩ := serverStep_eq_some hout
    exact ⟨_, _, ip, tcp, hbefore, field_reply_dstAddr _ _ _ _, field_reply_dstPort _ _ _ _⟩
  · rw [hmerged] at h
    obtain ⟨rs, request, -, -, hbefore, hout, -⟩ := trace_eq_append_output h
    have hsite := eq_request_of_payload hout hpayload
    obtain ⟨earlier, syn, ack, hsyn, hack, hshake⟩ := trace_of_state_request hsite
    refine ⟨earlier, syn, ack, request, hsyn, hack, ?_⟩
    rw [hbefore, hshake, hsite]

end SantaOS
