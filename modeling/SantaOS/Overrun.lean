import SantaOS.Server

/-!
# SantaOS.Overrun

The bound of the receive buffer. `readRawPacket` stores as many bytes as the two length
bytes behind the magic number say, and never compares that number with the 2048 bytes of
`inRawBuf`. So the stores stay in the buffer exactly as long as the line does not ask for
more (`readPackets_storedIn_iff`), and a line that asks for more writes behind it.
`kernel_main` touches the buffer through `readRawPacket` only, so that the same holds of its
whole run (`kernelMain_storedIn_iff`).

Proof shape: one call stores its payload and nothing else (`storedIn_payload_iff`), and later
calls only add stores. The run of the kernel is an instance of its invariant rule, with
`Undecided`: the stores made so far and the frames to come decide together.
-/

namespace SantaOS

open Memory Waiting BigEndian Search

/-- The indices of `inRawBuf[2048]`. -/
def InBuffer (i : Int) : Prop := 0 ≤ i ∧ i < 2048

/-- The next payload on the line fits the buffer: the length behind the magic number is
at most 2048, or the line ends before it has given more than 2048 bytes. -/
def SizeFits (l : List UInt8) : Prop :=
  match after magic l with
  | some (hi :: lo :: rest) => decode [hi, lo] ≤ 2048 ∨ rest.length ≤ 2048
  | _ => True

instance (l : List UInt8) : Decidable (SizeFits l) := by
  unfold SizeFits
  split <;> infer_instance

/-- The next `k` payloads on the line fit the buffer. -/
def SizesFit : Nat → List UInt8 → Prop
  | 0, _ => True
  | k + 1, l => SizeFits l ∧ ∀ p rest, nextFrame l = some (p, rest) → SizesFit k rest

theorem sizeFits_of_some {l p rest : List UInt8} (h : nextFrame l = some (p, rest)) :
    SizeFits l ↔ p.length ≤ 2048 := by
  rcases hafter : after magic l with _ | ⟨_ | ⟨hi, _ | ⟨lo, tail⟩⟩⟩
  · simp only [nextFrame, hafter, reduceCtorEq] at h
  · simp only [nextFrame, hafter, reduceCtorEq] at h
  · simp only [nextFrame, hafter, reduceCtorEq] at h
  · simp only [nextFrame, hafter, Option.ite_none_right_eq_some, Option.some.injEq,
      Prod.mk.injEq] at h
    obtain ⟨hle, rfl, -⟩ := h
    simp only [SizeFits, hafter, List.length_take, Nat.min_eq_left hle]
    omega

theorem sizeFits_of_none {l : List UInt8} (h : nextFrame l = none) :
    SizeFits l ↔ (cutPayload l).length ≤ 2048 := by
  rcases hafter : after magic l with _ | ⟨_ | ⟨hi, _ | ⟨lo, tail⟩⟩⟩
  · simp [SizeFits, cutPayload, hafter]
  · simp [SizeFits, cutPayload, hafter]
  · simp [SizeFits, cutPayload, hafter]
  · simp only [nextFrame, hafter, ite_eq_right_iff, reduceCtorEq, imp_false, not_le] at h
    simp only [SizeFits, cutPayload, hafter]
    omega

/-- The stores of a payload stay in the buffer exactly when it is no longer than that. -/
theorem storedIn_payload_iff (m : Mem UInt8) (p : List UInt8) :
    Mem.StoredIn InBuffer m (m.storeAll 0 p) ↔ p.length ≤ 2048 := by
  rw [Mem.storedIn_storeAll_iff]
  constructor
  · intro h
    by_contra hlt
    have hlast := h 2048 (by omega)
    simp [InBuffer] at hlast
  · intro hle i hi
    exact ⟨by omega, by omega⟩

/-! ### Runs of calls -/

/-- The machine after one call more. -/
theorem endState_readPackets_succ (k : Nat) (m : Machine) :
    endState ((readPackets (k + 1)).run m) =
      match nextFrame m.input with
      | some (p, rest) =>
        endState ((readPackets k).run { m with
          input := rest
          inRawBuf := m.inRawBuf.storeAll 0 p })
      | none => { m with input := [], inRawBuf := m.inRawBuf.storeAll 0 (cutPayload m.input) } := by
  rw [readPackets, EStateM.run_bind, run_readRawPacket]
  cases nextFrame m.input with
  | none => rfl
  | some pr =>
    obtain ⟨p, rest⟩ := pr
    simp only [EStateM.run_bind, EStateM.run_get]
    cases (readPackets k).run { m with input := rest, inRawBuf := m.inRawBuf.storeAll 0 p } with
    | ok packets m' => rfl
    | error e m' => rfl

/-- Calls only add to the stores. -/
theorem readPackets_extends (k : Nat) (m : Machine) :
    Mem.StoredIn (fun _ => True) m.inRawBuf (endState ((readPackets k).run m)).inRawBuf := by
  induction k generalizing m with
  | zero => exact .refl _ _
  | succ k ih =>
    rw [endState_readPackets_succ]
    cases nextFrame m.input with
    | none => exact (Mem.storeAll_storedIn _ _ _).imp fun _ _ => trivial
    | some pr => exact ((Mem.storeAll_storedIn _ _ _).imp fun _ _ => trivial).trans (ih _)

/-- **When the receive buffer is not overrun.** In any number of successive calls, on any
line, `readRawPacket` stores inside `inRawBuf` exactly when every payload it is told to
read fits. -/
theorem readPackets_storedIn_iff (k : Nat) (m : Machine) :
    Mem.StoredIn InBuffer m.inRawBuf (endState ((readPackets k).run m)).inRawBuf ↔
      SizesFit k m.input := by
  induction k generalizing m with
  | zero => exact iff_of_true (.refl _ _) trivial
  | succ k ih =>
    rw [endState_readPackets_succ, SizesFit]
    cases hf : nextFrame m.input with
    | none =>
      rw [storedIn_payload_iff, sizeFits_of_none hf]
      simp
    | some pr =>
      obtain ⟨p, rest⟩ := pr
      have hpayload : Mem.StoredIn (fun _ => True) m.inRawBuf (m.inRawBuf.storeAll 0 p) :=
        (Mem.storeAll_storedIn _ _ _).imp fun _ _ => trivial
      have hcalls := readPackets_extends k { m with
        input := rest
        inRawBuf := m.inRawBuf.storeAll 0 p }
      have hrest := ih { m with
        input := rest
        inRawBuf := m.inRawBuf.storeAll 0 p }
      refine (hpayload.trans_iff hcalls).trans ?_
      rw [storedIn_payload_iff, hrest, sizeFits_of_some hf]
      simp

/-- One call on a line that begins with a frame. -/
theorem readPackets_frame_storedIn_iff {p rest : List UInt8} {m : Machine}
    (hp : p.length < 65536) (hm : m.input = frame p ++ rest) :
    Mem.StoredIn InBuffer m.inRawBuf (endState ((readPackets 1).run m)).inRawBuf ↔
      p.length ≤ 2048 := by
  have hnext := nextFrame_clean rest hp
  rw [← hm] at hnext
  rw [endState_readPackets_succ, hnext]
  exact storedIn_payload_iff _ p

/-- A frame of 2049 bytes is written one byte behind the buffer. -/
theorem not_storedIn_inBuffer :
    ¬ ∀ (k : Nat) (m : Machine),
      Mem.StoredIn InBuffer m.inRawBuf (endState ((readPackets k).run m)).inRawBuf := by
  intro h
  have hlength : (List.replicate 2049 (0 : UInt8)).length = 2049 := List.length_replicate
  have hle := (readPackets_frame_storedIn_iff (m := .boot (frame (List.replicate 2049 0) ++ []))
    (by omega) rfl).mp (h 1 _)
  omega

/-! ### The run of the kernel -/

/-- Every payload on the line fits the buffer. -/
def AllSizesFit (l : List UInt8) : Prop := ∀ k, SizesFit k l

theorem allSizesFit_of_some {l p rest : List UInt8} (h : nextFrame l = some (p, rest)) :
    AllSizesFit l ↔ p.length ≤ 2048 ∧ AllSizesFit rest := by
  have hsucc (k : Nat) : SizesFit (k + 1) l ↔ p.length ≤ 2048 ∧ SizesFit k rest := by
    rw [SizesFit, sizeFits_of_some h, h]
    simp
  constructor
  · intro hall
    exact ⟨((hsucc 0).mp (hall 1)).1, fun k => ((hsucc k).mp (hall (k + 1))).2⟩
  · rintro ⟨hp, hrest⟩ k
    cases k with
    | zero => trivial
    | succ k => exact (hsucc k).mpr ⟨hp, hrest k⟩

theorem allSizesFit_of_none {l : List UInt8} (h : nextFrame l = none) :
    AllSizesFit l ↔ (cutPayload l).length ≤ 2048 := by
  rw [← sizeFits_of_none h]
  constructor
  · intro hall
    exact (hall 1).1
  · intro hfits k
    cases k with
    | zero => trivial
    | succ k => exact ⟨hfits, by simp [h]⟩

/-- A payload that is cut off has its prolog in front of it. -/
theorem length_cutPayload_le (l : List UInt8) : (cutPayload l).length ≤ l.length - 5 := by
  rw [cutPayload]
  split
  · rename_i hi lo rest hafter
    obtain ⟨pre, rfl, -⟩ := after_eq_some_iff.mp hafter
    simp only [List.length_append, List.length_cons, magic, List.length_nil]
    omega
  · exact Nat.zero_le _

/-- The beginning of a run of frames asks for no more than the frames do. -/
theorem allSizesFit_of_prefix {l : List UInt8} {pkts : List (List UInt8)}
    (hpkts : ∀ p ∈ pkts, p.length ≤ 2048) (h : l <+: pkts.flatMap frame) : AllSizesFit l := by
  induction pkts generalizing l with
  | nil =>
    obtain rfl : l = [] := List.prefix_nil.mp h
    exact (allSizesFit_of_none nextFrame_nil).mpr
      (Nat.le_trans (length_cutPayload_le []) (Nat.zero_le _))
  | cons p pkts ih =>
    have hp := hpkts p List.mem_cons_self
    obtain ⟨r, hr⟩ := h
    have hnext := nextFrame_clean (pkts.flatMap frame) (p := p) (by omega)
    rw [List.flatMap_cons] at hr
    cases hf : nextFrame l with
    | none =>
      rw [allSizesFit_of_none hf]
      -- a longer beginning would hold the whole frame of `p`
      have hshort : l.length < (frame p).length := by
        by_contra hlong
        obtain ⟨t, rfl⟩ : frame p <+: l :=
          List.prefix_of_prefix_length_le ⟨_, rfl⟩ ⟨r, hr⟩ (Nat.le_of_not_lt hlong)
        rw [nextFrame_clean t (by omega)] at hf
        cases hf
      have hcut := length_cutPayload_le l
      rw [length_frame] at hshort
      omega
    | some pr =>
      obtain ⟨q, rest⟩ := pr
      have hnext' := nextFrame_append hf r
      rw [hr, hnext] at hnext'
      obtain ⟨rfl, hrest⟩ := Prod.mk.inj (Option.some.inj hnext')
      exact (allSizesFit_of_some hf).mpr
        ⟨hp, ih (fun q hq => hpkts q (List.mem_cons_of_mem _ hq)) ⟨r, hrest.symm⟩⟩

/-- Behind `m₀`, the stores made and the frames to come decide together whether all
payloads fit. -/
structure Undecided (m₀ m : Machine) : Prop where
  extended : Mem.StoredIn (fun _ => True) m₀.inRawBuf m.inRawBuf
  decides : AllSizesFit m₀.input ↔
    Mem.StoredIn InBuffer m₀.inRawBuf m.inRawBuf ∧ AllSizesFit m.input

theorem undecided_self (m : Machine) : Undecided m m :=
  ⟨.refl _ _, (and_iff_right (.refl _ _)).symm⟩

section Payload

variable {m₀ m : Machine} (h : Undecided m₀ m) (l : List UInt8)

include h

/-- The stores up to the end of one more payload. -/
theorem Undecided.stores : Mem.StoredIn InBuffer m₀.inRawBuf (m.inRawBuf.storeAll 0 l) ↔
    Mem.StoredIn InBuffer m₀.inRawBuf m.inRawBuf ∧ l.length ≤ 2048 := by
  rw [h.extended.trans_iff (Mem.storeAll_storedIn m.inRawBuf 0 l), storedIn_payload_iff]

theorem Undecided.receive {p rest : List UInt8} (hf : nextFrame m.input = some (p, rest))
    (site : Site) : Undecided m₀ (m.receive site p rest) where
  extended := h.extended.trans ((Mem.storeAll_storedIn _ _ _).imp fun _ _ => trivial)
  decides := by
    rw [h.decides, allSizesFit_of_some hf, Machine.receive, h.stores, and_assoc]

theorem Undecided.cut (hf : nextFrame m.input = none) :
    AllSizesFit m₀.input ↔ Mem.StoredIn InBuffer m₀.inRawBuf m.cut.inRawBuf := by
  rw [h.decides, allSizesFit_of_none hf, Machine.cut, h.stores]

end Payload

/-- **The kernel's run overruns the buffer exactly when the line asks for it.** -/
theorem kernelMain_storedIn_iff (m : Machine) :
    Mem.StoredIn InBuffer m.inRawBuf (endState (kernelMain.run m)).inRawBuf ↔
      AllSizesFit m.input := by
  have hrun := (kernelMain_inv (I := Undecided m)
    (W := fun m' => AllSizesFit m.input ↔ Mem.StoredIn InBuffer m.inRawBuf m'.inRawBuf)
    (fun m' site p rest hf h => h.receive hf site) (fun m' hf h => h.cut hf)
    (fun m' m'' _ hinput hbuf _ _ h => ⟨hbuf ▸ h.extended, hinput ▸ hbuf ▸ h.decides⟩)).run m
    (undecided_self m)
  cases hr : kernelMain.run m with
  | ok a m' => exact a.elim
  | error e m' =>
    rw [hr] at hrun
    cases hrun with
    | error h => exact h.symm

end SantaOS
