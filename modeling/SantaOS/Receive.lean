import SantaOS.Framing
import SantaOS.Layout
import SantaOS.Tcpip

/-!
# SantaOS.Receive

What `nextTcpIpPacket` does with the frames on the line: it takes them one by one
(`run_nextTcpIpPacket`), drops those that fail a test and returns the headers of the
first one that passes. `arrival` is the verdict on a frame that lies in the buffer.

Proof shape: a pass of the loop is one frame and the verdict on it
(`run_nextTcpIpPacketBody`), so a call unfolds frame by frame. `call_induction` is the
induction on these, with one case for each way a call can go: it waits, it drops the next
frame, it returns it.

Design points:
* `judge` looks at the buffer and the size, as the code does: a short frame is judged with
  what earlier ones have left behind it.
* `arrivals` is the list of verdicts on a run of frames, each laid over the ones before it;
  `Machine.pending` are those still to come.
* `Outcome` is what can be seen of a call from outside, `outcome_congr` when two calls cannot
  be told apart.
-/

namespace SantaOS

open Memory Waiting BigEndian

/-! ### The verdict on a frame -/

/-- The headers of the packet of `sz` bytes in the buffer, if it passes the tests. -/
def judge (buf : Ptr UInt8) (sz : Int) : Option (IP × TCP) :=
  if passesTests buf sz then
    some (parsedIp buf, parseRawTcpPacket (parsedIp buf).payload (parsedIp buf).payloadSz)
  else none

/-- The numbers in a pair of headers. -/
def headerFields (r : IP × TCP) : IPFields × TCPFields := (r.1.toIPFields, r.2.toTCPFields)

/-- The log entry of a frame of `sz` bytes. -/
def arrival (buf : Ptr UInt8) (sz : Int) : Arrival :=
  match judge buf sz with
  | none => .dropped sz
  | some (ip, tcp) => .segment ip.toIPFields tcp.toTCPFields

/-- The machine after a call at `site` has taken the packet `p` off the line. -/
def Machine.receive (m : Machine) (site : Site) (p rest : List UInt8) : Machine :=
  { m with
    input := rest
    inRawBuf := m.inRawBuf.storeAll 0 p
    log := m.log ++ [.input site (arrival (m.inRawBuf.cells.write 0 p) p.length)] }

/-- The machine that waits for the rest of a frame. -/
def Machine.cut (m : Machine) : Machine :=
  { m with
    input := []
    inRawBuf := m.inRawBuf.storeAll 0 (cutPayload m.input) }

/-- The tests of `nextTcpIpPacket`, one after the other, are `passesTests`. -/
theorem run_nextTcpIpPacketBody (site : Site) (m : Machine) :
    (nextTcpIpPacketBody site ()).run m =
      match nextFrame m.input with
      | none => .error .waiting m.cut
      | some (p, rest) =>
        .ok (match judge (m.inRawBuf.cells.write 0 p) p.length with
          | none => .inr ()
          | some r => .inl r) (m.receive site p rest) := by
  rw [nextTcpIpPacketBody, EStateM.run_bind, run_readRawPacket]
  cases hf : nextFrame m.input with
  | none => rfl
  | some f =>
    obtain ⟨p, rest⟩ := f
    simp only [EStateM.run_bind, EStateM.run_get, Mem.storeAll_cells, Machine.receive, arrival,
      judge, passesTests, parseRawIpPacket_eq]
    generalize m.inRawBuf.cells.write 0 p = buf
    generalize decide (checksumIp buf 20 = 0 ∧
      ((toNative16 (buf.add 2)).toNat : Int) = p.length) = ok
    generalize parsedIp buf = ip
    by_cases hok : ok = false
    · simp [hok, logEvent]
    by_cases hver : ip.ver = IPv4
    · by_cases hprotocol : ip.protocol = PROTOCOL_TCP
      · by_cases hvalid : validateTcpPacket ip.toIPFields ip.payload ip.payloadSz = false
        · simp [hok, hver, hprotocol, hvalid, logEvent]
        · simp [hok, hver, hprotocol, hvalid, logEvent]
      · simp [hok, hver, hprotocol, logEvent]
    · simp [hok, hver, logEvent]

theorem nextTcpIpPacketBody_uses (site : Site) (b : Unit) :
    Uses (·.input.length) (nextTcpIpPacketBody site b) := by
  intro m r m' h
  rw [run_nextTcpIpPacketBody] at h
  cases hf : nextFrame m.input with
  | none => simp [hf] at h
  | some f =>
    obtain ⟨p, rest⟩ := f
    simp only [hf] at h
    obtain ⟨-, rfl⟩ := EStateM.Result.ok.inj h
    exact nextFrame_length hf

theorem nextTcpIpPacket_uses (site : Site) :
    Uses (·.input.length) (nextTcpIpPacket site) :=
  Uses.whileTrue (nextTcpIpPacketBody_uses site) ()

/-- **`nextTcpIpPacket` takes frames off the line until one passes the tests.** -/
theorem run_nextTcpIpPacket (site : Site) (m : Machine) :
    (nextTcpIpPacket site).run m =
      match nextFrame m.input with
      | none => .error .waiting m.cut
      | some (p, rest) =>
        match judge (m.inRawBuf.cells.write 0 p) p.length with
        | none => (nextTcpIpPacket site).run (m.receive site p rest)
        | some r => .ok r (m.receive site p rest) := by
  rw [nextTcpIpPacket, run_whileTrue (Uses.consumes (nextTcpIpPacketBody_uses site)),
    run_nextTcpIpPacketBody]
  cases nextFrame m.input with
  | none => rfl
  | some f =>
    obtain ⟨p, rest⟩ := f
    dsimp only
    cases judge (m.inRawBuf.cells.write 0 p) p.length with
    | none => rfl
    | some r => rfl

/-- **Induction on the frames that a call takes off the line.** -/
@[elab_as_elim]
theorem call_induction (site : Site) {motive : Machine → Prop}
    (waits : ∀ m, nextFrame m.input = none →
      (nextTcpIpPacket site).run m = .error .waiting m.cut → motive m)
    (drops : ∀ m p rest, nextFrame m.input = some (p, rest) →
      judge (m.inRawBuf.cells.write 0 p) p.length = none →
      (nextTcpIpPacket site).run m = (nextTcpIpPacket site).run (m.receive site p rest) →
      motive (m.receive site p rest) → motive m)
    (returns : ∀ m p rest r, nextFrame m.input = some (p, rest) →
      judge (m.inRawBuf.cells.write 0 p) p.length = some r →
      (nextTcpIpPacket site).run m = .ok r (m.receive site p rest) → motive m)
    (m : Machine) : motive m := by
  induction hn : m.input.length using Nat.strong_induction_on generalizing m with
  | _ n ih =>
    have hrun := run_nextTcpIpPacket site m
    cases hf : nextFrame m.input with
    | none =>
      rw [hf] at hrun
      exact waits m hf hrun
    | some f =>
      obtain ⟨p, rest⟩ := f
      simp only [hf] at hrun
      cases hj : judge (m.inRawBuf.cells.write 0 p) p.length with
      | none =>
        simp only [hj] at hrun
        exact drops m p rest hf hj hrun (ih _ (hn ▸ nextFrame_length hf) _ rfl)
      | some r =>
        simp only [hj] at hrun
        exact returns m p rest r hf hj hrun

/-! ### The frames on the line -/

theorem arrival_of_judge_none {raw : Ptr UInt8} {sz : Nat} (h : judge raw sz = none) :
    arrival raw sz = .dropped sz := by
  rw [arrival, h]

theorem arrival_of_judge_some {raw : Ptr UInt8} {sz : Nat} {r : IP × TCP}
    (h : judge raw sz = some r) :
    arrival raw sz = .segment r.1.toIPFields r.2.toTCPFields := by
  rw [arrival, h]

/-- The verdicts on a run of frames. Each frame is laid over what the buffer holds of the
earlier ones. -/
def arrivals (buf : Ptr UInt8) : List (List UInt8) → List Arrival
  | [] => []
  | p :: ps => arrival (buf.write 0 p) p.length :: arrivals (buf.write 0 p) ps

theorem arrivals_append (buf : Ptr UInt8) (ps qs : List (List UInt8)) :
    arrivals buf (ps ++ qs) =
      arrivals buf ps ++ arrivals (ps.foldl (fun buf p => buf.write 0 p) buf) qs := by
  induction ps generalizing buf with
  | nil => rfl
  | cons p ps ih => rw [List.cons_append, arrivals, ih, arrivals, List.cons_append, List.foldl_cons]

theorem length_arrivals (buf : Ptr UInt8) (ps : List (List UInt8)) :
    (arrivals buf ps).length = ps.length := by
  induction ps generalizing buf with
  | nil => rfl
  | cons p ps ih => rw [arrivals, List.length_cons, ih, List.length_cons]

/-- The verdicts still to come. -/
def Machine.pending (m : Machine) : List Arrival := arrivals m.inRawBuf.cells (frames m.input)

theorem pending_of_eq_none {m : Machine} (h : nextFrame m.input = none) : m.pending = [] := by
  rw [Machine.pending, frames_of_eq_none h, arrivals]

theorem pending_of_eq_some {m : Machine} {p rest : List UInt8} (site : Site)
    (h : nextFrame m.input = some (p, rest)) :
    m.pending =
      arrival (m.inRawBuf.cells.write 0 p) p.length :: (m.receive site p rest).pending := by
  rw [Machine.pending, frames_of_eq_some h, arrivals, Machine.pending, Machine.receive,
    Mem.storeAll_cells]

/-- The verdicts a call uses up: the first segment and the dropped frames before it. -/
def upToSegment : List Arrival → List Arrival
  | [] => []
  | .dropped sz :: as => .dropped sz :: upToSegment as
  | .segment ip tcp :: _ => [.segment ip tcp]

/-- What a call shows of itself. -/
structure Outcome where
  result : Option (IPFields × TCPFields)
  input : List UInt8
  log : List Event
  deriving DecidableEq

/-- What is to be seen of a result. -/
def outcome : EStateM.Result Blocked Machine (IP × TCP) → Outcome
  | .ok r m => ⟨some (headerFields r), m.input, m.log⟩
  | .error _ m => ⟨none, m.input, m.log⟩

/-- The two ways a frame goes. -/
theorem arrival_cases (site : Site) {m : Machine} {p rest : List UInt8}
    (h : nextFrame m.input = some (p, rest)) :
    (arrival (m.inRawBuf.cells.write 0 p) p.length = .dropped p.length ∧
      (nextTcpIpPacket site).run m = (nextTcpIpPacket site).run (m.receive site p rest)) ∨
    (∃ r : IP × TCP,
      arrival (m.inRawBuf.cells.write 0 p) p.length = .segment r.1.toIPFields r.2.toTCPFields ∧
      (nextTcpIpPacket site).run m = .ok r (m.receive site p rest)) := by
  rw [run_nextTcpIpPacket, h, arrival]
  dsimp only
  cases judge (m.inRawBuf.cells.write 0 p) p.length with
  | none => exact .inl ⟨rfl, rfl⟩
  | some r => exact .inr ⟨r, rfl, rfl⟩

/-- A call logs the verdicts it uses up. -/
theorem log_run (site : Site) (m : Machine) :
    (outcome ((nextTcpIpPacket site).run m)).log =
      m.log ++ (upToSegment m.pending).map (.input site) := by
  induction m using call_induction site with
  | waits m hf hrun =>
    rw [hrun, pending_of_eq_none hf]
    simp [outcome, upToSegment, Machine.cut]
  | drops m p rest hf hj hrun ih =>
    have ha := arrival_of_judge_none hj
    rw [pending_of_eq_some site hf, hrun, ih, ha, upToSegment]
    simp [Machine.receive, ha]
  | returns m p rest r hf hj hrun =>
    have ha := arrival_of_judge_some hj
    rw [pending_of_eq_some site hf, hrun, ha, upToSegment]
    simp [outcome, Machine.receive, ha]

/-- On the same bytes, calls that use up the same verdicts cannot be told apart. -/
theorem outcome_congr (site : Site) {m m' : Machine} (hinput : m.input = m'.input)
    (hlog : m.log = m'.log) (h : upToSegment m.pending = upToSegment m'.pending) :
    outcome ((nextTcpIpPacket site).run m) = outcome ((nextTcpIpPacket site).run m') := by
  induction m using call_induction site generalizing m' with
  | waits m hf hrun =>
    rw [hrun, run_nextTcpIpPacket, ← hinput, hf]
    simp [outcome, Machine.cut, hlog]
  | drops m p rest hf hj hrun ih =>
    have ha := arrival_of_judge_none hj
    have hf' : nextFrame m'.input = some (p, rest) := hinput ▸ hf
    rw [pending_of_eq_some site hf, pending_of_eq_some site hf', ha, upToSegment] at h
    rcases arrival_cases site hf' with ⟨ha', hrun'⟩ | ⟨r', ha', hrun'⟩
    · rw [ha', upToSegment] at h
      rw [hrun, hrun']
      refine ih rfl ?_ (List.cons_eq_cons.mp h).2
      simp [Machine.receive, hlog, ha, ha']
    · rw [ha', upToSegment] at h
      exact absurd (List.cons_eq_cons.mp h).1 (by simp)
  | returns m p rest r hf hj hrun =>
    have ha := arrival_of_judge_some hj
    have hf' : nextFrame m'.input = some (p, rest) := hinput ▸ hf
    rw [pending_of_eq_some site hf, pending_of_eq_some site hf', ha, upToSegment] at h
    rcases arrival_cases site hf' with ⟨ha', hrun'⟩ | ⟨r', ha', hrun'⟩
    · rw [ha', upToSegment] at h
      exact absurd (List.cons_eq_cons.mp h).1 (by simp)
    · rw [ha', upToSegment] at h
      obtain ⟨hip, htcp⟩ := Arrival.segment.inj (List.cons_eq_cons.mp h).1
      rw [hrun, hrun']
      simp [outcome, headerFields, Machine.receive, hlog, ha, ha', hip, htcp]

/-! ### Packets without IP options -/

/-- The returned headers are those of the packet `p`. -/
def HeadersOf (r : IP × TCP) (p : List UInt8) : Prop :=
  r.1.toIPFields.IsHeaderOf p ∧ r.2.toTCPFields.IsHeaderOf (p.drop 20)

section Judge

variable (buf : Ptr UInt8) {p : List UInt8} (h : 40 ≤ p.length) (hle : p.length ≤ 65535)
  (hihl : field p 0 1 % 16 = 5)

include h hle hihl

theorem judge_of_acceptable (hp : Acceptable p) :
    ∃ r, judge (buf.write 0 p) p.length = some r ∧ HeadersOf r p := by
  have hpass := (passesTests_write_iff buf (by omega) hle hihl).mpr hp
  obtain ⟨hpayload, -⟩ := parsedIp_payload buf (p := p) (by omega) hihl
  refine ⟨_, by rw [judge, if_pos hpass], parsedIp_isHeaderOf buf (p := p) (by omega), ?_⟩
  rw [hpayload]
  exact parseRawTcpPacket_isHeaderOf buf _ (by omega)

theorem judge_of_not_acceptable (hp : ¬ Acceptable p) :
    judge (buf.write 0 p) p.length = none := by
  rw [judge, if_neg]
  rwa [passesTests_write_iff buf (by omega) hle hihl]

end Judge

/-! ### Successive calls -/

/-- Successive calls of `nextTcpIpPacket`, each result with the stream the call left. -/
def nextTcpIpPackets : List Site → Kernel (List ((IP × TCP) × List UInt8))
  | [] => return []
  | site :: sites => do
    let r ← nextTcpIpPacket site
    let m ← get
    let results ← nextTcpIpPackets sites
    return (r, m.input) :: results

section Calls

variable {m : Machine} {p rest : List UInt8} (hf : nextFrame m.input = some (p, rest))

include hf

/-- A dropped frame changes nothing for the calls. -/
theorem run_nextTcpIpPackets_of_none {site : Site} (sites : List Site)
    (hj : judge (m.inRawBuf.cells.write 0 p) p.length = none) :
    (nextTcpIpPackets (site :: sites)).run m =
      (nextTcpIpPackets (site :: sites)).run (m.receive site p rest) := by
  rw [nextTcpIpPackets, EStateM.run_bind, EStateM.run_bind, run_nextTcpIpPacket, hf]
  simp only [hj]

/-- An accepted one is the first result. -/
theorem run_nextTcpIpPackets_of_some {site : Site} {sites : List Site} {r : IP × TCP}
    (hj : judge (m.inRawBuf.cells.write 0 p) p.length = some r) :
    (nextTcpIpPackets (site :: sites)).run m =
      match (nextTcpIpPackets sites).run (m.receive site p rest) with
      | .ok results m' => .ok ((r, rest) :: results) m'
      | .error e m' => .error e m' := by
  rw [nextTcpIpPackets, EStateM.run_bind, run_nextTcpIpPacket, hf]
  simp only [hj, EStateM.run_bind, EStateM.run_get]
  cases (nextTcpIpPackets sites).run (m.receive site p rest) with
  | ok results m' => rfl
  | error e m' => rfl

end Calls

/-- The acceptable packets among `ps`, each with the stream behind its frame; `rest` is
what follows the frames. -/
def accepted (rest : List UInt8) : List (List UInt8) → List (List UInt8 × List UInt8)
  | [] => []
  | p :: ps =>
    if Acceptable p then (p, ps.flatMap frame ++ rest) :: accepted rest ps
    else accepted rest ps

/-- The frame in front of a run of frames. -/
theorem nextFrame_flatMap {p : List UInt8} (ps : List (List UInt8)) (rest : List UInt8)
    (hp : p.length < 65536) :
    nextFrame ((p :: ps).flatMap frame ++ rest) = some (p, ps.flatMap frame ++ rest) := by
  rw [List.flatMap_cons, List.append_assoc, nextFrame_clean _ hp]

/-- **The receive pipeline is an exact filter.** On any run of frames, over any content
of the buffer, successive calls return the acceptable packets in order, each with the
numbers of its own headers and the line left behind its own frame; when nothing follows
the frames, one more call waits. -/
theorem nextTcpIpPackets_accepted (ps : List (List UInt8)) (rest : List UInt8)
    (hps : ∀ p ∈ ps, 40 ≤ p.length ∧ p.length ≤ 2048 ∧ field p 0 1 % 16 = 5)
    (sites : List Site) (hsites : sites.length = (accepted rest ps).length) (m : Machine)
    (hm : m.input = ps.flatMap frame ++ rest) :
    (∃ results m', (nextTcpIpPackets sites).run m = .ok results m' ∧
      List.Forall₂ (fun r a => HeadersOf r.1 a.1 ∧ r.2 = a.2) results (accepted rest ps)) ∧
    (rest = [] → ∀ site, ∃ m',
      (nextTcpIpPackets (sites ++ [site])).run m = .error .waiting m') := by
  induction ps generalizing m sites with
  | nil =>
    obtain rfl : sites = [] := List.eq_nil_of_length_eq_zero hsites
    refine ⟨⟨[], m, rfl, .nil⟩, fun hrest site => ⟨m.cut, ?_⟩⟩
    have hnil : m.input = [] := by simp [hm, hrest]
    rw [List.nil_append, nextTcpIpPackets, EStateM.run_bind, run_nextTcpIpPacket, hnil,
      nextFrame_nil]
  | cons p ps ih =>
    obtain ⟨h40, h2048, hihl⟩ := hps p List.mem_cons_self
    have hf : nextFrame m.input = some (p, ps.flatMap frame ++ rest) := by
      rw [hm, nextFrame_flatMap ps rest (by omega)]
    have ih' := ih fun q hq => hps q (List.mem_cons_of_mem p hq)
    by_cases hp : Acceptable p
    · rw [accepted, if_pos hp] at hsites ⊢
      obtain ⟨r, hj, hheaders⟩ := judge_of_acceptable m.inRawBuf.cells h40 (by omega) hihl hp
      cases sites with
      | nil => simp at hsites
      | cons site sites =>
        obtain ⟨⟨results, m', hrun, hresults⟩, hwait⟩ :=
          ih' sites (Nat.succ.inj hsites) (m.receive site p (ps.flatMap frame ++ rest)) rfl
        refine ⟨⟨(r, ps.flatMap frame ++ rest) :: results, m', ?_,
          .cons ⟨hheaders, rfl⟩ hresults⟩, fun hrest site' => ?_⟩
        · rw [run_nextTcpIpPackets_of_some hf hj, hrun]
        · obtain ⟨m'', hrun'⟩ := hwait hrest site'
          exact ⟨m'', by rw [List.cons_append, run_nextTcpIpPackets_of_some hf hj, hrun']⟩
    · rw [accepted, if_neg hp] at hsites ⊢
      have hj := judge_of_not_acceptable m.inRawBuf.cells h40 (by omega) hihl hp
      cases sites with
      | nil =>
        obtain ⟨⟨results, m', hrun, hresults⟩, hwait⟩ :=
          ih' [] hsites (m.receive .syn p (ps.flatMap frame ++ rest)) rfl
        obtain ⟨rfl, -⟩ := EStateM.Result.ok.inj hrun
        refine ⟨⟨[], m, rfl, hresults⟩, fun hrest site => ?_⟩
        obtain ⟨m'', hrun'⟩ := (ih' [] hsites
          (m.receive site p (ps.flatMap frame ++ rest)) rfl).2 hrest site
        exact ⟨m'', by rw [List.nil_append, run_nextTcpIpPackets_of_none hf _ hj]; exact hrun'⟩
      | cons site sites =>
        rw [run_nextTcpIpPackets_of_none hf _ hj]
        obtain ⟨hresults, hwait⟩ :=
          ih' (site :: sites) hsites (m.receive site p (ps.flatMap frame ++ rest)) rfl
        refine ⟨hresults, fun hrest site' => ?_⟩
        rw [List.cons_append, run_nextTcpIpPackets_of_none hf _ hj]
        exact hwait hrest site'

/-- A SYN/ACK from 10.0.0.2 to 10.0.0.1. -/
def synAckPacket : List UInt8 :=
  [0x45, 0x00, 0x00, 0x28, 0x01, 0x00, 0x40, 0x00, 0x40, 0x06, 0x25, 0xCE, 0x0A, 0x00, 0x00, 0x02,
    0x0A, 0x00, 0x00, 0x01, 0x22, 0xB0, 0xE5, 0x23, 0x00, 0x00, 0x00, 0x00, 0xCA, 0xF5, 0x8A, 0x01,
    0x50, 0x12, 0x72, 0x10, 0xCC, 0xF4, 0x00, 0x00]

/-- The packet with another last byte is dropped, the packet itself is returned. -/
theorem nextTcpIpPackets_accepted_two :
    ∃ results m', (nextTcpIpPackets [.syn]).run (Machine.boot
        ([synAckPacket.dropLast ++ [0x01], synAckPacket].flatMap frame ++ [])) =
          .ok results m' ∧
      List.Forall₂ (fun r a => HeadersOf r.1 a.1 ∧ r.2 = a.2) results [(synAckPacket, [])] := by
  have haccepted : accepted [] [synAckPacket.dropLast ++ [0x01], synAckPacket] =
      [(synAckPacket, [])] := by decide +kernel
  rw [← haccepted]
  exact (nextTcpIpPackets_accepted [synAckPacket.dropLast ++ [0x01], synAckPacket] [] (by decide)
    [.syn] (by rw [haccepted]; rfl) _ rfl).1

end SantaOS
