import Mathlib.Init

/-!
# Programs that wait for input

A program over states `σ` that, on the input it is given, either returns a value or
stops because it waits for input that has not come; either way the state it has reached
is known. This is `EStateM` with one error. Loops are written with `whileTrue`, whose
fuel is a measure of the state: a body that makes the measure smaller on every further
pass never meets the end of the fuel, and the loop unfolds like the source's
(`run_whileTrue`).

`Triple P x Q W` says that the program, started in `P`, returns in `Q` or waits in `W`.
That a body makes the measure smaller is shown apart from it, with `Uses` and `Keeps`.
-/

namespace Waiting

/-- The way a run stops before its end. -/
inductive Blocked
  | waiting
  deriving DecidableEq, Repr

/-- A program that may have to wait. -/
abbrev Prog (σ : Type) := EStateM Blocked σ

variable {σ α β γ : Type}

@[simp] theorem run_throw (e : Blocked) (s : σ) :
    (throw e : Prog σ α).run s = .error e s := rfl

@[simp] theorem run_map (f : α → γ) (x : Prog σ α) (s : σ) :
    (f <$> x).run s =
      match x.run s with
      | .ok a s' => .ok (f a) s'
      | .error e s' => .error e s' := by
  rw [← bind_pure_comp, EStateM.run_bind]
  cases x.run s <;> rfl

/-- The state in which a run has returned or waits. -/
def endState : EStateM.Result Blocked σ α → σ
  | .ok _ s => s
  | .error _ s => s

/-- `while (true)` with local variables `b`, at most `n` times round: the body leaves the
loop with a value or goes on with new local variables. -/
def loop (body : β → Prog σ (α ⊕ β)) : Nat → β → Prog σ α
  | 0, _ => throw .waiting
  | n + 1, b => do
    match ← body b with
    | .inl a => return a
    | .inr b' => loop body n b'

/-- `while (true)`, with as many passes as the measure of the state allows. -/
def whileTrue (μ : σ → Nat) (body : β → Prog σ (α ⊕ β)) (b : β) : Prog σ α := fun s =>
  loop body (μ s + 1) b s

/-- `for (i = 0; i < n; i++) body(i)`. -/
def times (body : Nat → Prog σ Unit) : Nat → Prog σ Unit
  | 0 => return
  | n + 1 => do
    times body n
    body n

/-! ### Running loops -/

theorem run_loop_succ (body : β → Prog σ (α ⊕ β)) (n : Nat) (b : β) (s : σ) :
    (loop body (n + 1) b).run s =
      match (body b).run s with
      | .ok (.inl a) s' => .ok a s'
      | .ok (.inr b') s' => (loop body n b').run s'
      | .error e s' => .error e s' := by
  rw [loop, EStateM.run_bind]
  rcases (body b).run s with ⟨r, s'⟩ | ⟨e, s'⟩
  · cases r <;> rfl
  · rfl

/-- The body makes the measure smaller on every further pass. -/
def Consumes (μ : σ → Nat) (body : β → Prog σ (α ⊕ β)) : Prop :=
  ∀ b s b' s', (body b).run s = .ok (.inr b') s' → μ s' < μ s

/-- More fuel than the measure makes no difference. -/
theorem loop_fuel {μ : σ → Nat} {body : β → Prog σ (α ⊕ β)} (h : Consumes μ body) {n : Nat}
    (b : β) {s : σ} (hn : μ s < n) : (loop body n b).run s = (whileTrue μ body b).run s := by
  have key : ∀ k n (b : β) (s : σ), μ s < n → n ≤ k →
      (loop body n b).run s = (loop body (μ s + 1) b).run s := by
    intro k
    induction k with
    | zero => intro n b s hn hk; omega
    | succ k ih =>
      intro n b s hn hk
      obtain ⟨n, rfl⟩ : ∃ m, n = m + 1 := ⟨n - 1, by omega⟩
      rw [run_loop_succ, run_loop_succ]
      cases hr : (body b).run s with
      | error e s' => rfl
      | ok r s' =>
        cases r with
        | inl a => rfl
        | inr b' =>
          have hlt := h b s b' s' hr
          simp only
          rw [ih n b' s' (by omega) (by omega)]
          rcases Nat.lt_or_ge (μ s) (k + 1) with hk' | hk'
          · rw [ih (μ s) b' s' (by omega) (by omega)]
          · rw [show n = μ s by omega] at *
            exact (ih (μ s) b' s' (by omega) (by omega)).symm
  exact key n n b s hn (Nat.le_refl n)

/-- **A consuming loop unfolds like `while (true)`.** -/
theorem run_whileTrue {μ : σ → Nat} {body : β → Prog σ (α ⊕ β)} (h : Consumes μ body)
    (b : β) (s : σ) :
    (whileTrue μ body b).run s =
      match (body b).run s with
      | .ok (.inl a) s' => .ok a s'
      | .ok (.inr b') s' => (whileTrue μ body b').run s'
      | .error e s' => .error e s' := by
  show (loop body (μ s + 1) b).run s = _
  rw [run_loop_succ]
  cases hr : (body b).run s with
  | error e s' => rfl
  | ok r s' =>
    cases r with
    | inl a => rfl
    | inr b' => exact loop_fuel h b' (h b s b' s' hr)

/-! ### Using up the measure -/

/-- A run that returns leaves a measure that is not larger. -/
def Keeps (μ : σ → Nat) (x : Prog σ α) : Prop := ∀ s a s', x.run s = .ok a s' → μ s' ≤ μ s

/-- A run that returns leaves a smaller measure. -/
def Uses (μ : σ → Nat) (x : Prog σ α) : Prop := ∀ s a s', x.run s = .ok a s' → μ s' < μ s

/-- Where a sequence that returned has been in between. -/
theorem run_bind_eq_ok {x : Prog σ α} {f : α → Prog σ γ} {s s'' : σ} {c : γ}
    (h : (x >>= f).run s = .ok c s'') :
    ∃ a s', x.run s = .ok a s' ∧ (f a).run s' = .ok c s'' := by
  rw [EStateM.run_bind] at h
  cases hx : x.run s with
  | ok a s' =>
    rw [hx] at h
    exact ⟨a, s', rfl, h⟩
  | error e s' =>
    rw [hx] at h
    cases h

section Measure

variable {μ : σ → Nat}

theorem Uses.keeps {x : Prog σ α} (h : Uses μ x) : Keeps μ x :=
  fun s a s' hr => Nat.le_of_lt (h s a s' hr)

theorem Keeps.pure (a : α) : Keeps μ (pure a : Prog σ α) := by
  intro s a' s' h
  obtain ⟨-, rfl⟩ := EStateM.Result.ok.inj h
  exact Nat.le_refl _

theorem Keeps.bind {x : Prog σ α} {f : α → Prog σ γ} (hx : Keeps μ x)
    (hf : ∀ a, Keeps μ (f a)) : Keeps μ (x >>= f) := by
  intro s c s'' h
  obtain ⟨a, s', hxs, hfs⟩ := run_bind_eq_ok h
  exact Nat.le_trans (hf a _ _ _ hfs) (hx _ _ _ hxs)

theorem Uses.bind {x : Prog σ α} {f : α → Prog σ γ} (hx : Uses μ x)
    (hf : ∀ a, Keeps μ (f a)) : Uses μ (x >>= f) := by
  intro s c s'' h
  obtain ⟨a, s', hxs, hfs⟩ := run_bind_eq_ok h
  exact Nat.lt_of_le_of_lt (hf a _ _ _ hfs) (hx _ _ _ hxs)

theorem Keeps.bind_uses {x : Prog σ α} {f : α → Prog σ γ} (hx : Keeps μ x)
    (hf : ∀ a, Uses μ (f a)) : Uses μ (x >>= f) := by
  intro s c s'' h
  obtain ⟨a, s', hxs, hfs⟩ := run_bind_eq_ok h
  exact Nat.lt_of_lt_of_le (hf a _ _ _ hfs) (hx _ _ _ hxs)

theorem Keeps.ite {P : Prop} [Decidable P] {x y : Prog σ α} (hx : Keeps μ x)
    (hy : Keeps μ y) : Keeps μ (if P then x else y) := by
  split
  · exact hx
  · exact hy

theorem Uses.consumes {body : β → Prog σ (α ⊕ β)} (h : ∀ b, Uses μ (body b)) :
    Consumes μ body := fun b s _ s' hr => h b s _ s' hr

theorem Uses.whileTrue {ν : σ → Nat} {body : β → Prog σ (α ⊕ β)} (h : ∀ b, Uses μ (body b))
    (b : β) : Uses μ (whileTrue ν body b) := by
  have key : ∀ n b, Uses μ (loop body n b) := by
    intro n
    induction n with
    | zero =>
      intro b s a s' hr
      cases hr
    | succ n ih =>
      intro b
      rw [loop]
      refine Uses.bind (h b) fun r => ?_
      cases r with
      | inl a => exact Keeps.pure a
      | inr b' => exact (ih b').keeps
  exact fun s => key _ b s

end Measure

/-! ### Triples -/

/-- The run has returned with `Q` or waits with `W`. -/
inductive Ends (Q : α → σ → Prop) (W : σ → Prop) : EStateM.Result Blocked σ α → Prop
  | ok {a : α} {s : σ} (h : Q a s) : Ends Q W (.ok a s)
  | error {e : Blocked} {s : σ} (h : W s) : Ends Q W (.error e s)

/-- From a state in `P` the program returns with `Q` or waits with `W`. -/
structure Triple (P : σ → Prop) (x : Prog σ α) (Q : α → σ → Prop) (W : σ → Prop) : Prop where
  run : ∀ s, P s → Ends Q W (x.run s)

namespace Triple

variable {P : σ → Prop} {Q : α → σ → Prop} {R : γ → σ → Prop} {W : σ → Prop}

theorem pure (a : α) (h : ∀ s, P s → Q a s) : Triple P (pure a) Q W :=
  ⟨fun s hs => .ok (h s hs)⟩

theorem bind {x : Prog σ α} {f : α → Prog σ γ} (hx : Triple P x Q W)
    (hf : ∀ a, Triple (Q a) (f a) R W) : Triple P (x >>= f) R W := by
  constructor
  intro s hs
  have hxs := hx.run s hs
  rw [EStateM.run_bind]
  cases hr : x.run s with
  | ok a s' =>
    rw [hr] at hxs
    cases hxs with
    | ok ha => exact (hf a).run s' ha
  | error e s' =>
    rw [hr] at hxs
    cases hxs with
    | error he => exact .error he

theorem ite {c : Prop} [Decidable c] {x y : Prog σ α} (hx : c → Triple P x Q W)
    (hy : ¬ c → Triple P y Q W) : Triple P (if c then x else y) Q W := by
  split
  · exact hx ‹_›
  · exact hy ‹_›

/-- A condition on values only may be taken out of the precondition. -/
theorem of_and {c : Prop} {x : Prog σ α} (h : c → Triple P x Q W) :
    Triple (fun s => P s ∧ c) x Q W :=
  ⟨fun s hs => (h hs.2).run s hs.1⟩

/-- The loop rule: the body keeps the invariant `I` from pass to pass. -/
theorem whileTrue {μ : σ → Nat} {I : β → σ → Prop} {body : β → Prog σ (α ⊕ β)}
    (hμ : Consumes μ body)
    (hbody : ∀ b, Triple (I b) (body b) (fun r s => Sum.elim (Q · s) (I · s) r) W) (b : β) :
    Triple (I b) (whileTrue μ body b) Q W := by
  constructor
  intro s
  induction hn : μ s using Nat.strongRecOn generalizing b s with
  | ind n ih =>
    intro hs
    have hpass := (hbody b).run s hs
    rw [run_whileTrue hμ]
    cases hr : (body b).run s with
    | error e s' =>
      rw [hr] at hpass
      cases hpass with
      | error hw => exact .error hw
    | ok r s' =>
      rw [hr] at hpass
      cases hpass with
      | ok hr' =>
        cases r with
        | inl a => exact .ok hr'
        | inr b' => exact ih _ (hn ▸ hμ b s b' s' hr) b' s' rfl hr'

end Triple

end Waiting
