import SantaOS.Kernel
import SantaOS.Server
import SantaOS.StdioSound

/-!
# SantaOS.Console

What the kernel prints: the messages about a run of frames (`transcript`) as a function of
the frames, and that `info` prints a message (`eventually_info`).

A frame can bring two kinds of messages. `complaint` is what the receiver says of it when
it drops it, `serverSays` what the server says when it deals with it.

Proof shape: a message is what its format renders to (`returns_printf`); all but the one about
the UART's model have no directive and stand for themselves (`plain_format`).

Design points:
* `transcript` is a recursion on the frames, with the server's state and the buffer that the
  frames are laid in. The kernel meets the frames one by one, hence `transcript_concat`.
* `Mem.Traced` says that cells that were not stored to are as they were. With the bound on
  the stores, memory outside the screen does not change.
-/

namespace SantaOS

open Memory Waiting Reactive Fuel Filter

/-! ### The transcript -/

/-- The message about a dropped frame of `sz` bytes in the buffer. There is none about a
size that does not match. -/
def complaint (buf : Ptr UInt8) (sz : Int) : List Message :=
  let (ok, ip) := parseRawIpPacket buf sz
  if checksumIp buf 20 ≠ 0x0000 then [.ipChecksum]
  else if ok = false then []
  else if ip.ver ≠ IPv4 then [.onlyIPv4]
  else if ip.protocol ≠ PROTOCOL_TCP then [.onlyTCP]
  else if validateTcpPacket ip.toIPFields ip.payload ip.payloadSz = false then [.tcpChecksum]
  else []

/-- What the server says where it waits at `site` and this comes. -/
def serverSays : Site → Arrival → List Message
  | _, .dropped _ => []
  | .syn, .segment _ tcp =>
    if tcp.flags = FLAG_SYN then [.preparingSynAck] else [.expectedSyn]
  | .handshakeAck, .segment _ tcp =>
    if tcp.flags = FLAG_ACK then [.handshakeCompleted] else [.expectedAck]
  | .request, .segment _ _ => [.htmlResponse]
  | .responseAck, .segment _ _ => [.startingClose, .waitingFin]
  | .fin, .segment _ tcp =>
    if tcp.flags &&& FLAG_FIN ≠ 0 then [.finalAck, .waitingHandshake] else []

/-- The messages about a run of frames. Each frame is laid over what the buffer holds of
the earlier ones. -/
def transcript (site : Site) (buf : Ptr UInt8) : List (List UInt8) → List Message
  | [] => []
  | p :: ps =>
    let a := arrival (buf.write 0 p) p.length
    complaint (buf.write 0 p) p.length ++ serverSays site a ++
      transcript (serverStep site a).1 (buf.write 0 p) ps

/-- The buffer behind a run of frames. -/
def writeFrames (buf : Ptr UInt8) (ps : List (List UInt8)) : Ptr UInt8 :=
  ps.foldl (fun buf p => buf.write 0 p) buf

theorem writeFrames_concat (buf : Ptr UInt8) (ps : List (List UInt8)) (p : List UInt8) :
    writeFrames buf (ps ++ [p]) = (writeFrames buf ps).write 0 p := by
  simp [writeFrames]

theorem transcript_append (site : Site) (buf : Ptr UInt8) (ps qs : List (List UInt8)) :
    transcript site buf (ps ++ qs) =
      transcript site buf ps ++
        transcript (state serverStep site (arrivals buf ps)) (writeFrames buf ps) qs := by
  induction ps generalizing site buf with
  | nil => rfl
  | cons p ps ih =>
    rw [List.cons_append, transcript, ih, transcript, arrivals, state_cons]
    simp only [List.append_assoc, writeFrames, List.foldl_cons]

/-- The messages about one more frame. -/
theorem transcript_concat (site : Site) (buf : Ptr UInt8) (ps : List (List UInt8))
    (p : List UInt8) :
    transcript site buf (ps ++ [p]) =
      transcript site buf ps ++
        (complaint ((writeFrames buf ps).write 0 p) p.length ++
          serverSays (state serverStep site (arrivals buf ps))
            (arrival ((writeFrames buf ps).write 0 p) p.length)) := by
  rw [transcript_append]
  simp [transcript]

/-! ### Printing -/

/-- The characters of messages without directives. -/
def said (msgs : List Message) : List Int8 := msgs.flatMap fun msg => chars msg.format

theorem said_append (msgs msgs' : List Message) :
    said (msgs ++ msgs') = said msgs ++ said msgs' :=
  List.flatMap_append

theorem said_singleton (msg : Message) : said [msg] = chars msg.format := by
  simp [said]

/-- No message has a zero or, but for the one with `%s`, a directive. -/
theorem plain_format (msg : Message) :
    0 ∉ chars msg.format ∧ (msg ≠ .uartModel → percentChar ∉ chars msg.format) := by
  cases msg <;> decide +kernel

theorem length_format (msg : Message) : (chars msg.format).length ≤ 64 := by
  cases msg <;> decide +kernel

theorem returns_eventually {α : Type} {x : Nat → Option α} {a : α} (h : Returns x a) :
    ∀ᶠ fuel in atTop, x fuel = some a :=
  eventually_atTop.mpr h

/-! ### Memory outside the screen -/

section Traced

variable {m : Mem UInt8}

theorem storeCell_traced {m' : Mem UInt8} (h : Mem.Traced m m') (p : Int) (index : Nat)
    (v : UInt16) : Mem.Traced m (storeCell m' p index v) :=
  (h.store _ _).store _ _

theorem terminalInitialize_traced (t : Tty) :
    Mem.Traced t.memory (terminalInitialize t).memory :=
  (Mem.Traced.refl _).fold _ (fun _ _ h => h.fold _ (fun _ _ h => storeCell_traced h _ _ _) _) _

theorem terminalScrollup_traced {t : Tty} (h : Mem.Traced m t.memory) :
    Mem.Traced m (terminalScrollup t).memory :=
  (h.fold _ (fun _ _ h => h.store _ _) _).fold _ (fun _ _ h => storeCell_traced h _ _ _) _

theorem settle_traced {t : Tty} (h : Mem.Traced m t.memory) :
    Mem.Traced m (settle t).memory := by
  rw [settle]
  by_cases hcol : t.terminalColumn = VGA_WIDTH
  · simp only [if_pos hcol]
    split
    · exact terminalScrollup_traced h
    · exact h
  · simp only [if_neg hcol]
    split
    · exact terminalScrollup_traced h
    · exact h

theorem terminalPutchar_traced {t : Tty} (h : Mem.Traced m t.memory) (c : Int8) :
    Mem.Traced m (terminalPutchar t c).memory := by
  refine settle_traced ?_
  split
  · exact h
  · exact storeCell_traced h _ _ _

theorem writeText_traced {t : Tty} (h : Mem.Traced m t.memory) (text : List Int8) :
    Mem.Traced m (writeText terminalWrite t text).memory := by
  induction text generalizing t with
  | nil => exact h
  | cons c text ih => exact ih (terminalPutchar_traced h c)

end Traced

namespace Pc

variable {δ : Type}

/-- The computer with more text on its screen. -/
def type (pc : Pc δ) (text : List Int8) : Pc δ :=
  { pc with tty := writeText terminalWrite pc.tty text }

theorem type_nil (pc : Pc δ) : pc.type [] = pc := rfl

/-- What a format is rendered to is printed. -/
theorem eventually_info_of_render (msg : Message) {args : List Arg} (rest : List Arg)
    {values : List Value} {text : List Int8} (hargs : List.Forall₂ Passes args values)
    (htext : render (chars msg.format) values = some text) (hfits : text.length ≤ INT_MAX)
    (pc : Pc δ) :
    ∀ᶠ fuel in atTop, (info fuel msg (args ++ rest)).run pc = .ok () (pc.type text) := by
  have hformat := isString_literal (plain_format msg).1
  refine (returns_eventually (returns_printf terminalWrite pc.tty rest hformat hargs htext
    hfits)).mono fun fuel hfuel => ?_
  rw [info, EStateM.run_bind, EStateM.run_get]
  simp only [hfuel]
  rfl

/-- **`info` prints the message.** -/
theorem eventually_info (msg : Message) (hmsg : msg ≠ .uartModel) (args : List Arg) (pc : Pc δ) :
    ∀ᶠ fuel in atTop, (info fuel msg args).run pc = .ok () (pc.type (said [msg])) := by
  have hplain : ∀ c ∈ chars msg.format, c ≠ percentChar :=
    fun c hc => ne_of_mem_of_not_mem hc ((plain_format msg).2 hmsg)
  have htext : render (chars msg.format) [] = some (said [msg]) := by
    have hrun := render_run [] [] hplain
    rw [List.append_nil] at hrun
    rw [hrun, said_singleton]
    simp [render]
  refine eventually_info_of_render msg args .nil htext ?_ pc
  rw [said_singleton]
  exact Int.le_trans (Int.ofNat_le.mpr (length_format msg)) (by decide)

/-! ### The receiver's messages -/

theorem eventually_parseRawIpPacket (raw : Ptr UInt8) (sz : Int) (pc : Pc δ) :
    ∀ᶠ fuel in atTop, (parseRawIpPacket fuel raw sz).run pc =
      .ok (SantaOS.parseRawIpPacket raw sz)
        (pc.type (said (if checksumIp raw 20 ≠ 0x0000 then [.ipChecksum] else []))) := by
  by_cases hsum : checksumIp raw 20 ≠ 0x0000
  · refine (eventually_info .ipChecksum (by decide) [] pc).mono fun fuel hfuel => ?_
    simp only [parseRawIpPacket, if_pos hsum, EStateM.run_bind, hfuel, EStateM.run_pure]
  · refine .of_forall fun fuel => ?_
    simp only [parseRawIpPacket, if_neg hsum, EStateM.run_pure]
    rfl

theorem eventually_validateTcpPacket (ip : IPFields) (tcpRaw : Ptr UInt8) (sz : Int)
    (pc : Pc δ) :
    ∀ᶠ fuel in atTop, (validateTcpPacket fuel ip tcpRaw sz).run pc =
      .ok (SantaOS.validateTcpPacket ip tcpRaw sz)
        (pc.type (said
          (if SantaOS.validateTcpPacket ip tcpRaw sz = false then [.tcpChecksum] else []))) := by
  rw [SantaOS.validateTcpPacket]
  by_cases hsum : checksumTcp ip.srcAddr ip.dstAddr ip.protocol tcpRaw sz ≠ 0x0000
  · refine (eventually_info .tcpChecksum (by decide) [.str (literal "dummy")]
      pc).mono fun fuel hfuel => ?_
    simp only [validateTcpPacket, if_pos hsum, EStateM.run_bind, hfuel, EStateM.run_pure, if_true]
  · refine .of_forall fun fuel => ?_
    simp only [validateTcpPacket, if_neg hsum, EStateM.run_pure]
    rfl

/-- What `nextTcpIpPacket` does with the frame in the buffer. -/
def checkPacket (fuel : Nat) (buf : Ptr UInt8) (bufSz : Int) :
    Prog (Pc δ) ((IP × TCP) ⊕ Unit) := do
  let (ok, ip) ← parseRawIpPacket fuel buf bufSz
  if ok = false then
    return .inr ()
  if ip.ver ≠ IPv4 then
    info fuel .onlyIPv4 []
    return .inr ()
  if ip.protocol ≠ PROTOCOL_TCP then
    info fuel .onlyTCP []
    return .inr ()
  let valid ← validateTcpPacket fuel ip.toIPFields ip.payload ip.payloadSz
  if valid = false then
    return .inr ()
  return .inl (ip, parseRawTcpPacket ip.payload ip.payloadSz)

theorem nextTcpIpPacketBody_eq (io : Ports δ) (fuel : Nat) :
    nextTcpIpPacketBody io fuel () = (do
      let bufSz ← readRawPacket io fuel
      let buf := (← get).inRawBuf.cells
      checkPacket fuel buf bufSz) := rfl

theorem type_type (pc : Pc δ) (a b : List Int8) : (pc.type a).type b = pc.type (a ++ b) := by
  simp only [type, writeText_append]

/-- **The verdict on a frame, with its message.** -/
theorem eventually_checkPacket (buf : Ptr UInt8) (sz : Int) (pc : Pc δ) :
    ∀ᶠ fuel in atTop, (checkPacket fuel buf sz).run pc =
      .ok (match judge buf sz with
        | none => .inr ()
        | some r => .inl r) (pc.type (said (complaint buf sz))) := by
  have hparse := eventually_parseRawIpPacket buf sz pc
  have hpair := parseRawIpPacket_eq buf sz
  generalize hok : decide (checksumIp buf 20 = 0 ∧
    ((toNative16 (buf.add 2)).toNat : Int) = sz) = ok at hpair
  rw [hpair] at hparse
  cases ok with
  | false =>
    refine hparse.mono fun fuel hfuel => ?_
    rw [checkPacket, EStateM.run_bind, hfuel]
    simp [judge, passesTests, complaint, hpair]
  | true =>
    have hsum : ¬ checksumIp buf 20 ≠ 0 := not_not.mpr (of_decide_eq_true hok).1
    rw [if_neg hsum, said, List.flatMap_nil, type_nil] at hparse
    by_cases hver : (parsedIp buf).ver = IPv4
    swap
    · have hinfo := eventually_info .onlyIPv4 (by decide) [] pc
      refine (hparse.and hinfo).mono fun fuel hfuels => ?_
      obtain ⟨hfuel, hprint⟩ := hfuels
      rw [checkPacket, EStateM.run_bind, hfuel]
      simp [judge, passesTests, complaint, hpair, hsum, hver, hprint]
    by_cases hprotocol : (parsedIp buf).protocol = PROTOCOL_TCP
    swap
    · have hinfo := eventually_info .onlyTCP (by decide) [] pc
      refine (hparse.and hinfo).mono fun fuel hfuels => ?_
      obtain ⟨hfuel, hprint⟩ := hfuels
      rw [checkPacket, EStateM.run_bind, hfuel]
      simp [judge, passesTests, complaint, hpair, hsum, hver, hprotocol, hprint]
    have hvalid := eventually_validateTcpPacket (parsedIp buf).toIPFields (parsedIp buf).payload
      (parsedIp buf).payloadSz pc
    refine (hparse.and hvalid).mono fun fuel hfuels => ?_
    obtain ⟨hfuel, hprint⟩ := hfuels
    rw [checkPacket, EStateM.run_bind, hfuel]
    cases hv : SantaOS.validateTcpPacket (parsedIp buf).toIPFields (parsedIp buf).payload
      (parsedIp buf).payloadSz <;>
    simp [judge, passesTests, complaint, hpair, hsum, hver, hprotocol, hprint, hv]

end Pc

end SantaOS
