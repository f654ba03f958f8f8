import Mathlib.Order.Filter.AtTopBot.Basic
import Mathlib.Order.Filter.AtTopBot.Tendsto
import SantaOS.Lib.Waiting

/-!
# Refinement of programs that wait

A program close to the devices does in many steps what its model does in one: it asks a
device until it is ready, and it does things the model leaves out. Such a program is a
function of its fuel, the number of times a loop may go round.

`Refines P x y Q W` says that from states in `P`, with enough fuel, the program `x` ends
as its model `y` does: it returns the same value, in states related by `Q`, or waits, in
states related by `W`. A run that returns leaves one state, whatever the fuel; one that
waits goes on asking as long as its fuel lasts, so that its state may depend on it.

There is one rule for each way to put programs together. In `Refines.loop` the model's
measure bounds the passes of both.
-/

namespace Waiting

open Filter

variable {σ τ α β γ : Type}

/-- With enough fuel the run ends as the model's does. -/
inductive Agrees (Q : α → σ → τ → Prop) (W : σ → τ → Prop)
    (x : Nat → EStateM.Result Blocked τ α) : EStateM.Result Blocked σ α → Prop
  | ok {a : α} {s : σ} {t : τ} (h : ∀ᶠ fuel in atTop, x fuel = .ok a t) (hq : Q a s t) :
      Agrees Q W x (.ok a s)
  | error {e : Blocked} {s : σ} (h : ∀ᶠ fuel in atTop, ∃ t, x fuel = .error e t ∧ W s t) :
      Agrees Q W x (.error e s)

/-- From states in `P` the program ends as its model does. -/
structure Refines (P : σ → τ → Prop) (x : Nat → Prog τ α) (y : Prog σ α)
    (Q : α → σ → τ → Prop) (W : σ → τ → Prop) : Prop where
  run : ∀ s t, P s t → Agrees Q W (fun fuel => (x fuel).run t) (y.run s)

section Agrees

variable {Q Q' : α → σ → τ → Prop} {W W' : σ → τ → Prop}
  {x x' : Nat → EStateM.Result Blocked τ α} {r : EStateM.Result Blocked σ α}

theorem Agrees.imp (h : Agrees Q W x r) (hq : ∀ a s t, Q a s t → Q' a s t)
    (hw : ∀ s t, W s t → W' s t) : Agrees Q' W' x r := by
  cases h with
  | ok hx hr => exact .ok hx (hq _ _ _ hr)
  | error hx => exact .error (hx.mono fun fuel ⟨t, ht, hr⟩ => ⟨t, ht, hw _ _ hr⟩)

theorem Agrees.congr (h : Agrees Q W x r) (hx : ∀ᶠ fuel in atTop, x' fuel = x fuel) :
    Agrees Q W x' r := by
  cases h with
  | ok hrun hr => exact .ok ((hx.and hrun).mono fun fuel ⟨he, hf⟩ => he.trans hf) hr
  | error hrun =>
    exact .error ((hx.and hrun).mono fun fuel ⟨he, t, ht, hr⟩ => ⟨t, he.trans ht, hr⟩)

end Agrees

namespace Refines

variable {P P' : σ → τ → Prop} {Q Q' : α → σ → τ → Prop} {R : γ → σ → τ → Prop}
  {W W' : σ → τ → Prop} {x : Nat → Prog τ α} {y : Prog σ α}

theorem imp (h : Refines P x y Q W) (hp : ∀ s t, P' s t → P s t)
    (hq : ∀ a s t, Q a s t → Q' a s t) (hw : ∀ s t, W s t → W' s t) :
    Refines P' x y Q' W' :=
  ⟨fun s t hs => (h.run s t (hp s t hs)).imp hq hw⟩

theorem pure (a : α) (h : ∀ s t, P s t → Q a s t) :
    Refines P (fun _ => Pure.pure a) (Pure.pure a) Q W :=
  ⟨fun s t hs => .ok (.of_forall fun _ => rfl) (h s t hs)⟩

theorem bind {f : Nat → α → Prog τ γ} {g : α → Prog σ γ} (hx : Refines P x y Q W)
    (hf : ∀ a, Refines (Q a) (fun fuel => f fuel a) (g a) R W) :
    Refines P (fun fuel => x fuel >>= f fuel) (y >>= g) R W := by
  constructor
  intro s t hs
  have hxs := hx.run s t hs
  rw [EStateM.run_bind]
  cases hy : y.run s with
  | ok a s' =>
    rw [hy] at hxs
    cases hxs with
    | ok hrun ha =>
      refine ((hf a).run s' _ ha).congr (hrun.mono fun fuel hfuel => ?_)
      simp only [EStateM.run_bind, hfuel]
  | error e s' =>
    rw [hy] at hxs
    cases hxs with
    | error hrun =>
      refine .error (hrun.mono fun fuel ⟨t', hfuel, hw⟩ => ⟨t', ?_, hw⟩)
      rw [EStateM.run_bind, hfuel]

theorem ite {c : Prop} [Decidable c] {x' : Nat → Prog τ α} {y' : Prog σ α}
    (hx : c → Refines P x y Q W) (hx' : ¬ c → Refines P x' y' Q W) :
    Refines P (fun fuel => if c then x fuel else x' fuel) (if c then y else y') Q W := by
  by_cases h : c
  · simpa only [if_pos h] using hx h
  · simpa only [if_neg h] using hx' h

/-- Both look at their states. -/
theorem get {f : Nat → τ → Prog τ α} {g : σ → Prog σ α}
    (h : ∀ s₀ t₀, P s₀ t₀ →
      Refines (fun s t => s = s₀ ∧ t = t₀) (fun fuel => f fuel t₀) (g s₀) Q W) :
    Refines P (fun fuel => MonadState.get >>= f fuel) (MonadState.get >>= g) Q W := by
  constructor
  intro s t hs
  have hrun := (h s t hs).run s t ⟨rfl, rfl⟩
  exact hrun

/-- A step of the program that the model does not have. -/
theorem more {x : Nat → Prog τ γ} {f : Nat → γ → Prog τ α} {P' : γ → σ → τ → Prop}
    (hx : ∀ s t, P s t → ∃ c t', (∀ᶠ fuel in atTop, (x fuel).run t = .ok c t') ∧ P' c s t')
    (hf : ∀ c, Refines (P' c) (fun fuel => f fuel c) y Q W) :
    Refines P (fun fuel => x fuel >>= f fuel) y Q W := by
  constructor
  intro s t hs
  obtain ⟨c, t', hrun, hc⟩ := hx s t hs
  refine ((hf c).run s t' hc).congr (hrun.mono fun fuel hfuel => ?_)
  simp only [EStateM.run_bind, hfuel]

/-- A step at the end that only the model has. -/
theorem ghost {g : α → Prog σ α} (hx : Refines P x y Q W)
    (hg : ∀ a s t, Q a s t → ∃ s', (g a).run s = .ok a s' ∧ Q' a s' t) :
    Refines P x (y >>= g) Q' W := by
  constructor
  intro s t hs
  have hxs := hx.run s t hs
  rw [EStateM.run_bind]
  cases hy : y.run s with
  | ok a s' =>
    rw [hy] at hxs
    cases hxs with
    | ok hrun ha =>
      obtain ⟨s'', hs'', ha'⟩ := hg a s' _ ha
      simp only [hs'']
      exact .ok hrun ha'
  | error e s' =>
    rw [hy] at hxs
    cases hxs with
    | error hrun => exact .error hrun

/-- What is known of the model's runs is known of the refinement's. -/
theorem and_triple (h : Refines P x y Q W) {A : σ → Prop} {B : α → σ → Prop} {C : σ → Prop}
    (hy : Triple A y B C) :
    Refines (fun s t => P s t ∧ A s) x y (fun a s t => Q a s t ∧ B a s)
      (fun s t => W s t ∧ C s) := by
  constructor
  intro s t ⟨hs, ha⟩
  have hxs := h.run s t hs
  have hys := hy.run s ha
  cases hr : y.run s with
  | ok a s' =>
    rw [hr] at hxs hys
    cases hys with
    | ok hb =>
      cases hxs with
      | ok hrun hq => exact .ok hrun ⟨hq, hb⟩
  | error e s' =>
    rw [hr] at hxs hys
    cases hys with
    | error hc =>
      cases hxs with
      | error hrun => exact .error (hrun.mono fun fuel ⟨t', ht, hw⟩ => ⟨t', ht, hw, hc⟩)

/-! ### Loops -/

theorem times {I : σ → τ → Prop} {body : Nat → Nat → Prog τ Unit} {body' : Nat → Prog σ Unit}
    (h : ∀ i, Refines I (fun fuel => body fuel i) (body' i) (fun _ => I) W) (n : Nat) :
    Refines I (fun fuel => times (body fuel) n) (times body' n) (fun _ => I) W := by
  induction n with
  | zero => exact pure () fun s t hs => hs
  | succ n ih => exact ih.bind fun _ => h n

/-- **The loop rule**: passes of the body refine passes of the model's body, and these use
up the measure. -/
theorem loop {μ : σ → Nat} {I : β → σ → τ → Prop} {body : Nat → β → Prog τ (α ⊕ β)}
    {body' : β → Prog σ (α ⊕ β)} (hμ : Consumes μ body')
    (h : ∀ b, Refines (I b) (fun fuel => body fuel b) (body' b)
      (fun r s t => Sum.elim (Q · s t) (I · s t) r) W) (b : β) :
    Refines (I b) (fun fuel => loop (body fuel) fuel b) (whileTrue μ body' b) Q W := by
  constructor
  -- the passes that are left stay unbounded
  suffices key : ∀ (k : Nat → Nat), Tendsto k atTop atTop → ∀ s t, I b s t →
      Agrees Q W (fun fuel => (Waiting.loop (body fuel) (k fuel) b).run t)
        ((whileTrue μ body' b).run s) from key _ tendsto_id
  intro k hk s t hs
  induction hn : μ s using Nat.strong_induction_on generalizing b s t k with
  | _ n ih =>
    have hpass := (h b).run s t hs
    have hsucc (fuel : Nat) (hfuel : 1 ≤ k fuel) :
        Waiting.loop (body fuel) (k fuel) b = Waiting.loop (body fuel) (k fuel - 1 + 1) b := by
      rw [Nat.sub_add_cancel hfuel]
    have hone := hk.eventually (eventually_ge_atTop 1)
    rw [run_whileTrue hμ]
    cases hr : (body' b).run s with
    | error e s' =>
      rw [hr] at hpass
      cases hpass with
      | error hrun =>
        refine .error ((hone.and hrun).mono fun fuel ⟨hfuel, t', ht, hw⟩ => ⟨t', ?_, hw⟩)
        rw [hsucc fuel hfuel, run_loop_succ, ht]
    | ok r s' =>
      rw [hr] at hpass
      cases hpass with
      | ok hrun hq =>
        rename_i t'
        cases r with
        | inl a =>
          refine .ok (t := t') ((hone.and hrun).mono fun fuel ⟨hfuel, ht⟩ => ?_) hq
          rw [hsucc fuel hfuel, run_loop_succ, ht]
        | inr b' =>
          have hlt := hμ b s b' s' hr
          have hpred : Tendsto (fun fuel => k fuel - 1) atTop atTop :=
            (tendsto_sub_atTop_nat 1).comp hk
          refine (ih (μ s') (hn ▸ hlt) b' _ hpred s' t' hq rfl).congr ?_
          refine (hone.and hrun).mono fun fuel ⟨hfuel, ht⟩ => ?_
          simp only [hsucc fuel hfuel, run_loop_succ, ht]

end Refines

/-- A loop that leaves as soon as the devices are ready: `ready n` says that they are after
`n` passes. -/
theorem eventually_loop_exit {body : β → Prog τ (α ⊕ β)} {b : β} {t t' : τ} {a : α} {n : Nat}
    (states : Nat → τ) (h0 : states 0 = t)
    (hnext : ∀ i < n, (body b).run (states i) = .ok (.inr b) (states (i + 1)))
    (hexit : (body b).run (states n) = .ok (.inl a) t') :
    ∀ᶠ fuel in atTop, (loop body fuel b).run t = .ok a t' := by
  subst h0
  refine eventually_atTop.mpr ⟨n + 1, fun fuel hfuel => ?_⟩
  induction n generalizing states fuel with
  | zero =>
    obtain ⟨fuel, rfl⟩ : ∃ k, fuel = k + 1 := ⟨fuel - 1, by omega⟩
    rw [run_loop_succ, hexit]
  | succ n ih =>
    obtain ⟨fuel, rfl⟩ : ∃ k, fuel = k + 1 := ⟨fuel - 1, by omega⟩
    rw [run_loop_succ, hnext 0 (by omega)]
    exact ih (fun i => states (i + 1)) (fun i hi => hnext (i + 1) (by omega)) hexit fuel
      (by omega)

/-- A loop that never leaves comes to the end of its fuel. -/
theorem run_loop_waits {body : β → Prog τ (α ⊕ β)} {I : τ → Prop}
    (h : ∀ b t, I t → ∃ b' t', (body b).run t = .ok (.inr b') t' ∧ I t') (fuel : Nat) (b : β)
    {t : τ} (ht : I t) : ∃ t', (loop body fuel b).run t = .error .waiting t' ∧ I t' := by
  induction fuel generalizing b t with
  | zero => exact ⟨t, rfl, ht⟩
  | succ fuel ih =>
    obtain ⟨b', t', hrun, ht'⟩ := h b t ht
    rw [run_loop_succ, hrun]
    exact ih b' ht'

end Waiting
