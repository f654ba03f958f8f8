import Mathlib.Logic.Relation
import SantaOS.Host

/-!
# SantaOS.HostRun

Runs of `socket2tun.run` on any bytes at all. `Move` says once what each statement does,
and `State.Knows` what is known of the variables at each program point; so the thread
never raises an exception, and it comes to the end of what the socket gives it
(`exists_recv_after`).

Between two calls of `recv` at most one packet is written. `State.promised` counts the
packets written and the one that may still be written before the next call; no statement
but a call of `recv` makes it larger.
-/

namespace SantaOS

open BigEndian

namespace Socket2tun

/-- The points of a run. -/
def Steps : State → State → Prop := Relation.ReflTransGen fun s t => step s = some t

/-! ### What a statement does -/

/-- The statements of `socket2tun.run`, each with its effect. -/
inductive Move : State → State → Prop
  | recv (pkt : List UInt8) (size : Nat) (c : List UInt8) (chunks written : List (List UInt8)) :
    Move ⟨.recv, pkt, size, c :: chunks, written⟩ ⟨.test, pkt ++ c, size, chunks, written⟩
  | few (pkt : List UInt8) (size : Nat) (chunks written : List (List UInt8))
    (h : pkt.length < 5) :
    Move ⟨.test, pkt, size, chunks, written⟩ ⟨.recv, pkt, size, chunks, written⟩
  | enough (pkt : List UInt8) (size : Nat) (chunks written : List (List UInt8))
    (h : 5 ≤ pkt.length) :
    Move ⟨.test, pkt, size, chunks, written⟩ ⟨.readSize, pkt, size, chunks, written⟩
  | readSize (pkt : List UInt8) (size size' : Nat) (chunks written : List (List UInt8))
    (h : B2u ((pkt.drop 3).take 2) = some size') :
    Move ⟨.readSize, pkt, size, chunks, written⟩ ⟨.strip, pkt, size', chunks, written⟩
  | strip (pkt : List UInt8) (size : Nat) (chunks written : List (List UInt8)) :
    Move ⟨.strip, pkt, size, chunks, written⟩ ⟨.whileShort, pkt.drop 5, size, chunks, written⟩
  | short (pkt : List UInt8) (size : Nat) (chunks written : List (List UInt8))
    (h : pkt.length < size) :
    Move ⟨.whileShort, pkt, size, chunks, written⟩ ⟨.recvMore, pkt, size, chunks, written⟩
  | whole (pkt : List UInt8) (size : Nat) (chunks written : List (List UInt8))
    (h : size ≤ pkt.length) :
    Move ⟨.whileShort, pkt, size, chunks, written⟩ ⟨.write, pkt, size, chunks, written⟩
  | recvMore (pkt : List UInt8) (size : Nat) (c : List UInt8)
    (chunks written : List (List UInt8)) :
    Move ⟨.recvMore, pkt, size, c :: chunks, written⟩
      ⟨.whileShort, pkt ++ c, size, chunks, written⟩
  | write (pkt : List UInt8) (size : Nat) (chunks written : List (List UInt8)) :
    Move ⟨.write, pkt, size, chunks, written⟩
      ⟨.remove, pkt, size, chunks, written ++ [pkt.take size]⟩
  | remove (pkt : List UInt8) (size : Nat) (chunks written : List (List UInt8)) :
    Move ⟨.remove, pkt, size, chunks, written⟩ ⟨.recv, pkt.drop size, size, chunks, written⟩

/-- **Inversion**: a step is one of the statements. -/
theorem move_of_step {s t : State} (h : step s = some t) : Move s t := by
  obtain ⟨point, pkt, size, chunks, written⟩ := s
  cases point with
  | recv =>
    cases chunks with
    | nil => cases h
    | cons c chunks =>
      obtain rfl := Option.some.inj h
      exact .recv pkt size c chunks written
  | test =>
    obtain rfl := Option.some.inj h
    by_cases hlen : 5 ≤ pkt.length
    · rw [if_pos hlen]
      exact .enough pkt size chunks written hlen
    · rw [if_neg hlen]
      exact .few pkt size chunks written (Nat.lt_of_not_le hlen)
  | readSize =>
    obtain ⟨size', hsize', ht⟩ := Option.bind_eq_some_iff.mp h
    obtain rfl := Option.some.inj ht
    exact .readSize pkt size size' chunks written hsize'
  | strip =>
    obtain rfl := Option.some.inj h
    exact .strip pkt size chunks written
  | whileShort =>
    obtain rfl := Option.some.inj h
    by_cases hlen : pkt.length < size
    · rw [if_pos hlen]
      exact .short pkt size chunks written hlen
    · rw [if_neg hlen]
      exact .whole pkt size chunks written (Nat.le_of_not_lt hlen)
  | recvMore =>
    cases chunks with
    | nil => cases h
    | cons c chunks =>
      obtain rfl := Option.some.inj h
      exact .recvMore pkt size c chunks written
  | write =>
    obtain rfl := Option.some.inj h
    exact .write pkt size chunks written
  | remove =>
    obtain rfl := Option.some.inj h
    exact .remove pkt size chunks written

/-! ### The variables at each point -/

/-- The size field is there when the prolog is, and it has two bytes. -/
theorem B2u_size {pkt : List UInt8} (h : 5 ≤ pkt.length) :
    B2u ((pkt.drop 3).take 2) = some (decode ((pkt.drop 3).take 2)) ∧
      decode ((pkt.drop 3).take 2) < 65536 := by
  have hlen : ((pkt.drop 3).take 2).length = 2 := by
    rw [List.length_take, List.length_drop]
    omega
  have hlt := decode_lt ((pkt.drop 3).take 2)
  rw [hlen] at hlt
  exact ⟨by rw [B2u, if_neg (by omega), if_pos hlen], hlt⟩

/-- What a program point knows of the variables, on any bytes. -/
def State.Knows (s : State) : Prop :=
  match s.point with
  | .recv | .test | .remove => True
  | .readSize => 5 ≤ s.pkt.length
  | .strip => 5 ≤ s.pkt.length ∧ s.size = decode ((s.pkt.drop 3).take 2) ∧ s.size < 65536
  | .whileShort => s.size < 65536
  | .recvMore => s.size < 65536 ∧ s.pkt.length < s.size
  | .write => s.size < 65536 ∧ s.size ≤ s.pkt.length

theorem init_knows (chunks : List (List UInt8)) : (init chunks).Knows := trivial

theorem step_knows {s t : State} (h : s.Knows) (hstep : step s = some t) : t.Knows := by
  cases move_of_step hstep with
  | recv => trivial
  | few => trivial
  | enough pkt size chunks written hlen => exact hlen
  | readSize pkt size size' chunks written hsize' =>
    have hlen : 5 ≤ pkt.length := h
    obtain ⟨hread, hlt⟩ := B2u_size hlen
    obtain rfl := Option.some.inj (hread.symm.trans hsize')
    exact ⟨hlen, rfl, hlt⟩
  | strip => exact h.2.2
  | short pkt size chunks written hlen => exact ⟨h, hlen⟩
  | whole pkt size chunks written hlen => exact ⟨h, hlen⟩
  | recvMore => exact h.1
  | write => trivial
  | remove => trivial

theorem steps_knows {s t : State} (h : s.Knows) (hsteps : Steps s t) : t.Knows := by
  induction hsteps with
  | refl => exact h
  | tail _ hstep ih => exact step_knows ih hstep

/-- **Run rule**: what each statement keeps holds at every point of a run. -/
theorem steps_invariant {P : State → Prop} {chunks : List (List UInt8)} (hinit : P (init chunks))
    (hstep : ∀ s t, s.Knows → P s → step s = some t → P t) {s : State}
    (hsteps : Steps (init chunks) s) : P s := by
  induction hsteps with
  | refl => exact hinit
  | tail hsteps hst ih => exact hstep _ _ (steps_knows (init_knows chunks) hsteps) ih hst

/-- The size field has two bytes, so no longer packet is ever written. -/
theorem step_written_lt {s t : State} (h : s.Knows) (hwritten : ∀ p ∈ s.written, p.length < 65536)
    (hstep : step s = some t) : ∀ p ∈ t.written, p.length < 65536 := by
  cases move_of_step hstep with
  | write pkt size chunks written =>
    intro p hp
    rcases List.mem_append.mp hp with hp | hp
    · exact hwritten p hp
    · obtain rfl := List.mem_singleton.mp hp
      exact Nat.lt_of_le_of_lt (List.length_take_le _ _) h.1
  | recv | few | enough | readSize | strip | short | whole | recvMore | remove => exact hwritten

theorem steps_written_lt {chunks : List (List UInt8)} {s : State}
    (hsteps : Steps (init chunks) s) : ∀ p ∈ s.written, p.length < 65536 := by
  refine steps_invariant (P := fun s => ∀ p ∈ s.written, p.length < 65536) ?_ ?_ hsteps
  · intro p hp
    cases hp
  · intro s t hs hwritten hstep
    exact step_written_lt hs hwritten hstep

/-! ### From one call of `recv` to the next -/

/-- The next statement calls `recv`. -/
def State.AboutToRecv (s : State) : Prop := s.point = .recv ∨ s.point = .recvMore

/-- How many packets are written when `recv` is called next, at most. -/
def State.promised (s : State) : Nat :=
  match s.point with
  | .recv | .recvMore | .remove => s.written.length
  | .test | .readSize | .strip | .whileShort | .write => s.written.length + 1

theorem promised_of_aboutToRecv {s : State} (h : s.AboutToRecv) :
    s.promised = s.written.length := by
  rcases h with h | h <;> simp [State.promised, h]

/-- The statements from a program point to the next call of `recv`, at most. -/
def Point.toRecv : Point → Nat
  | .recv | .recvMore => 0
  | .remove => 1
  | .write => 2
  | .whileShort => 3
  | .strip => 4
  | .readSize => 5
  | .test => 6

/-- Only `recv` can wait. -/
theorem exists_step {s : State} (h : s.Knows) (hrecv : ¬ s.AboutToRecv) :
    ∃ t, step s = some t := by
  obtain ⟨point, pkt, size, chunks, written⟩ := s
  cases point with
  | recv => exact absurd (.inl rfl) hrecv
  | recvMore => exact absurd (.inr rfl) hrecv
  | readSize =>
    have hlen : 5 ≤ pkt.length := h
    obtain ⟨hread, -⟩ := B2u_size hlen
    exact ⟨_, by simp only [step, hread]; rfl⟩
  | test | strip | whileShort | write | remove => exact ⟨_, rfl⟩

/-- The other statements take nothing from the socket and come nearer to `recv`. -/
theorem step_toRecv {s t : State} (hrecv : ¬ s.AboutToRecv) (hstep : step s = some t) :
    t.chunks = s.chunks ∧ t.promised ≤ s.promised ∧ t.point.toRecv < s.point.toRecv := by
  cases move_of_step hstep with
  | recv => exact absurd (.inl rfl) hrecv
  | recvMore => exact absurd (.inr rfl) hrecv
  | write => exact ⟨rfl, by simp [State.promised], by simp [Point.toRecv]⟩
  | few | enough | readSize | strip | short | whole | remove =>
    exact ⟨rfl, by simp [State.promised], by simp [Point.toRecv]⟩

/-- **The thread comes to its next call of `recv`** and writes no more than is promised
on the way. -/
theorem exists_recv_after {s : State} (h : s.Knows) :
    ∃ t, Steps s t ∧ t.AboutToRecv ∧ t.chunks = s.chunks ∧ t.written.length ≤ s.promised := by
  induction hn : s.point.toRecv using Nat.strongRecOn generalizing s with
  | ind n ih =>
    by_cases hrecv : s.AboutToRecv
    · exact ⟨s, .refl, hrecv, rfl, Nat.le_of_eq (promised_of_aboutToRecv hrecv).symm⟩
    · obtain ⟨u, hstep⟩ := exists_step h hrecv
      obtain ⟨hchunks, hpromised, hnear⟩ := step_toRecv hrecv hstep
      obtain ⟨t, hsteps, ht, htchunks, hle⟩ :=
        ih u.point.toRecv (hn ▸ hnear) (step_knows h hstep) rfl
      exact ⟨t, .head hstep hsteps, ht, htchunks.trans hchunks,
        Nat.le_trans hle hpromised⟩

/-- What the next call of `recv` gives is taken up, and at most one packet more is
promised. -/
theorem exists_recv_next {s : State} (h : s.Knows) (hrecv : s.AboutToRecv) {c : List UInt8}
    {chunks : List (List UInt8)} (hchunks : s.chunks = c :: chunks) :
    ∃ t, Steps s t ∧ t.AboutToRecv ∧ t.chunks = chunks ∧
      t.written.length ≤ s.written.length + 1 := by
  obtain ⟨u, hstep, huchunks, hu⟩ : ∃ u, step s = some u ∧ u.chunks = chunks ∧
      u.promised = s.written.length + 1 := by
    obtain ⟨point, pkt, size, _, written⟩ := s
    obtain rfl : _ = c :: chunks := hchunks
    rcases hrecv with rfl | rfl
    · exact ⟨_, rfl, rfl, rfl⟩
    · exact ⟨_, rfl, rfl, rfl⟩
  obtain ⟨t, hsteps, ht, htchunks, hle⟩ := exists_recv_after (step_knows h hstep)
  exact ⟨t, .head hstep hsteps, ht, htchunks.trans huchunks, hu ▸ hle⟩

/-- **No result of `recv` is left unread**: a run comes to the call behind any of them. -/
theorem exists_recv_at (got chunks : List (List UInt8)) {s : State} (h : s.Knows)
    (hs : s.chunks = got ++ chunks) : ∃ t, Steps s t ∧ t.AboutToRecv ∧ t.chunks = chunks := by
  induction got generalizing s with
  | nil =>
    obtain ⟨t, hsteps, ht, htchunks, -⟩ := exists_recv_after h
    exact ⟨t, hsteps, ht, htchunks.trans hs⟩
  | cons c got ih =>
    obtain ⟨t, hsteps, ht, htchunks, -⟩ := exists_recv_after h
    obtain ⟨u, hsteps', -, huchunks, -⟩ :=
      exists_recv_next (steps_knows h hsteps) ht (htchunks.trans hs)
    obtain ⟨v, hsteps'', hv⟩ := ih (steps_knows h (hsteps.trans hsteps')) huchunks
    exact ⟨v, (hsteps.trans hsteps').trans hsteps'', hv⟩

/-- **One call of `recv`, one packet at most.** -/
theorem promised_add_chunks_le {chunks : List (List UInt8)} {s : State}
    (hsteps : Steps (init chunks) s) : s.promised + s.chunks.length ≤ chunks.length := by
  refine steps_invariant (P := fun s => s.promised + s.chunks.length ≤ chunks.length) ?_ ?_ hsteps
  · exact Nat.le_of_eq (Nat.zero_add _)
  · intro s t hs hle hstep
    by_cases hrecv : s.AboutToRecv
    · cases move_of_step hstep with
      | recv | recvMore =>
        simp only [State.promised, List.length_cons] at hle ⊢
        omega
      | few | enough | readSize | strip | short | whole | write | remove =>
        simp [State.AboutToRecv] at hrecv
    · obtain ⟨hchunks, hpromised, -⟩ := step_toRecv hrecv hstep
      rw [hchunks]
      omega

/-- The thread waits just when it calls `recv` and has read everything. -/
theorem step_eq_none_iff {s : State} (h : s.Knows) :
    step s = none ↔ s.AboutToRecv ∧ s.chunks = [] := by
  constructor
  · intro hnone
    have hrecv : s.AboutToRecv := by
      by_contra hrecv
      obtain ⟨t, hstep⟩ := exists_step h hrecv
      simp [hnone] at hstep
    refine ⟨hrecv, ?_⟩
    cases hchunks : s.chunks with
    | nil => rfl
    | cons c chunks =>
      rcases hrecv with hpoint | hpoint <;> simp [step, hpoint, hchunks] at hnone
  · rintro ⟨hpoint | hpoint, hchunks⟩ <;> simp [step, hpoint, hchunks]

end Socket2tun

end SantaOS
