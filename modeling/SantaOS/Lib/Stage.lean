import Mathlib.Data.List.Basic
import Mathlib.Data.List.Infix
import Mathlib.Data.Prod.Lex

/-!
# Stages of a pipeline

A stage reads a stream of `α` and writes a stream of `β` at its own pace: a step takes
some items off its input and gives some to its output. `Stage.pipe` puts one stage behind
another with an unbounded queue between them, and lets the two step in any order.

`Run.pipe` is the rule everything else rests on: whatever the order of the steps, a run of
the pipe is a run of each stage, and what the first one has written is what the second one
has read and the queue. So what is known of the runs of the stages is known of every
interleaving; and `Run.join` builds an interleaving from runs that fit together.
`Settles.pipe` does the same for termination on a finite input, and `Run.pipe_atRest` for
the states in which nothing but new input can go on.
-/

namespace Pipeline

/-- A process with states `σ` between a stream of `α` and a stream of `β`. -/
structure Stage (σ α β : Type) where
  start : σ
  /-- `Step s as bs s'`: from `s` to `s'`, taking `as` and giving `bs`. -/
  Step : σ → List α → List β → σ → Prop

variable {σ τ α β γ : Type} {S : Stage σ α β} {T : Stage τ β γ}

/-- `Run S xs ys s`: the steps to `s` have read `xs` and written `ys`. -/
inductive Run (S : Stage σ α β) : List α → List β → σ → Prop
  | start : Run S [] [] S.start
  | step {xs : List α} {ys : List β} {s : σ} {as : List α} {bs : List β} {s' : σ}
      (h : Run S xs ys s) (hstep : S.Step s as bs s') : Run S (xs ++ as) (ys ++ bs) s'

/-! ### Two stages -/

/-- The steps of two stages with a queue between them. -/
inductive PipeStep (S : Stage σ α β) (T : Stage τ β γ) :
    σ × List β × τ → List α → List γ → σ × List β × τ → Prop
  | first {s s' : σ} {as : List α} {bs : List β} (q : List β) (t : τ)
      (h : S.Step s as bs s') : PipeStep S T (s, q, t) as [] (s', q ++ bs, t)
  | second {t t' : τ} {bs : List β} {cs : List γ} (s : σ) (q : List β)
      (h : T.Step t bs cs t') : PipeStep S T (s, bs ++ q, t) [] cs (s, q, t')

/-- The second stage reads what the first one writes. -/
def Stage.pipe (S : Stage σ α β) (T : Stage τ β γ) : Stage (σ × List β × τ) α γ where
  start := (S.start, [], T.start)
  Step := PipeStep S T

/-- **A run of the pipe is a run of each stage**, in whatever order they stepped. -/
theorem Run.pipe {xs : List α} {zs : List γ} {c : σ × List β × τ}
    (h : Run (S.pipe T) xs zs c) : ∃ ys, Run S xs (ys ++ c.2.1) c.1 ∧ Run T ys zs c.2.2 := by
  induction h with
  | start => exact ⟨[], .start, .start⟩
  | step _ hstep ih =>
    obtain ⟨ys, hfirst, hsecond⟩ := ih
    cases hstep with
    | first q t hs =>
      refine ⟨ys, ?_, by simpa using hsecond⟩
      rw [← List.append_assoc]
      exact hfirst.step hs
    | @second _ _ bs _ s q ht =>
      refine ⟨ys ++ bs, ?_, hsecond.step ht⟩
      rw [List.append_nil, List.append_assoc]
      exact hfirst

/-- A run of the first stage, all it has written still in the queue. -/
theorem Run.first {xs : List α} {ys : List β} {s : σ} (h : Run S xs ys s) :
    Run (S.pipe T) xs [] (s, ys, T.start) := by
  induction h with
  | start => exact .start
  | step _ hstep ih => exact ih.step (.first _ _ hstep)

/-- **Runs of the two stages that fit together are a run of the pipe.** -/
theorem Run.join {xs : List α} {ys q : List β} {zs : List γ} {s : σ} {t : τ}
    (hfirst : Run S xs (ys ++ q) s) (hsecond : Run T ys zs t) :
    Run (S.pipe T) xs zs (s, q, t) := by
  induction hsecond generalizing q with
  | start => exact hfirst.first
  | step _ hstep ih =>
    rw [List.append_assoc] at hfirst
    have hrun := (ih hfirst).step (.second s q hstep)
    rwa [List.append_nil] at hrun

/-! ### Coming to rest -/

/-- One step of a stage whose input lies in a queue, read backwards. -/
def Stage.Drain (S : Stage σ α β) (c' c : List α × σ) : Prop :=
  ∃ as bs, c.1 = as ++ c'.1 ∧ S.Step c.2 as bs c'.2

/-- On a finite input the stage makes finitely many steps. -/
def Stage.Settles (S : Stage σ α β) : Prop := WellFounded S.Drain

/-- A stage settles if every step that takes nothing makes a measure smaller. -/
theorem Stage.Settles.of_measure (μ : σ → Nat)
    (h : ∀ s as bs s', S.Step s as bs s' → as ≠ [] ∨ μ s' < μ s) : S.Settles := by
  have hlex : WellFounded (Prod.Lex (· < · : Nat → Nat → Prop) (· < · : Nat → Nat → Prop)) :=
    WellFounded.prod_lex Nat.lt_wfRel.wf Nat.lt_wfRel.wf
  refine Subrelation.wf ?_ (InvImage.wf (fun c : List α × σ => (c.1.length, μ c.2)) hlex)
  rintro ⟨q', s'⟩ ⟨q, s⟩ ⟨as, bs, rfl, hstep⟩
  by_cases has : as = []
  · subst has
    exact Prod.Lex.right _ ((h s [] bs s' hstep).resolve_left (by simp))
  · refine Prod.Lex.left _ _ ?_
    have hpos := List.length_pos_of_ne_nil has
    simp only [List.length_append]
    omega

/-- **Two stages that settle settle together**, however their steps alternate: the first
one makes finitely many steps, and between two of them so does the second one. -/
theorem Stage.Settles.pipe (hS : S.Settles) (hT : T.Settles) : (S.pipe T).Settles := by
  refine Subrelation.wf ?_ (InvImage.wf
    (fun c : List α × σ × List β × τ => ((c.1, c.2.1), (c.2.2.1, c.2.2.2)))
    (WellFounded.prod_lex hS hT))
  rintro ⟨xs', c'⟩ ⟨xs, c⟩ ⟨as, bs, hxs, hstep⟩
  cases hstep with
  | first q t hs => exact Prod.Lex.left _ _ ⟨_, _, hxs, hs⟩
  | second s q ht =>
    obtain rfl : xs = xs' := hxs
    exact Prod.Lex.right _ ⟨_, _, rfl, ht⟩

/-- Without new input a stage that settles comes to rest, whatever the schedule. -/
theorem Stage.Settles.wellFounded (h : S.Settles) :
    WellFounded fun s' s => ∃ bs, S.Step s [] bs s' := by
  refine Subrelation.wf ?_ (InvImage.wf (fun s : σ => (([] : List α), s)) h)
  rintro s' s ⟨bs, hstep⟩
  exact ⟨[], bs, rfl, hstep⟩

/-- Nothing but new input goes on from this state. -/
def Stage.AtRest (S : Stage σ α β) (s : σ) : Prop := ∀ as bs s', S.Step s as bs s' → as ≠ []

/-- A stage at rest takes items off any queue that holds some. -/
def Stage.Receptive (S : Stage σ α β) : Prop :=
  ∀ xs ys s, Run S xs ys s → S.AtRest s → ∀ q : List α, q ≠ [] →
    ∃ as q' bs s', q = as ++ q' ∧ S.Step s as bs s'

/-- **In a pipe at rest both stages are at rest and the queue is empty.** -/
theorem Run.pipe_atRest {xs : List α} {zs : List γ} {c : σ × List β × τ}
    (h : Run (S.pipe T) xs zs c) (hrest : (S.pipe T).AtRest c) (hT : T.Receptive) :
    S.AtRest c.1 ∧ c.2.1 = [] ∧ T.AtRest c.2.2 := by
  obtain ⟨s, q, t⟩ := c
  obtain ⟨ys, -, hsecond⟩ := h.pipe
  have hsilent : ∀ bs q' cs t', q = bs ++ q' → ¬ T.Step t bs cs t' := by
    rintro bs q' cs t' rfl hstep
    exact hrest _ _ _ (.second s q' hstep) rfl
  have htrest : T.AtRest t := by
    rintro bs cs t' hstep rfl
    exact hsilent [] q cs t' rfl hstep
  refine ⟨fun as bs s' hstep => hrest _ _ _ (.first q t hstep), ?_, htrest⟩
  by_contra hq
  obtain ⟨bs, q', cs, t', hsplit, hstep⟩ := hT ys zs t hsecond htrest q hq
  exact hsilent bs q' cs t' hsplit hstep

/-- Two stages at rest with nothing between them are at rest. -/
theorem Stage.AtRest.pipe {s : σ} {t : τ} (hS : S.AtRest s) (hT : T.AtRest t) :
    (S.pipe T).AtRest (s, [], t) := by
  intro as zs c hstep
  generalize hq : ([] : List β) = q at hstep
  cases hstep with
  | first _ _ hs => exact hS _ _ _ hs
  | second _ _ ht => exact absurd (List.append_eq_nil_iff.mp hq.symm).1 (hT _ _ _ ht)

/-! ### Runs with a say in when input comes -/

/-- A run in which `ready xs ys` holds of what had been read and written whenever items
were taken off the input. -/
inductive RunWhen (ready : List α → List β → Prop) (S : Stage σ α β) :
    List α → List β → σ → Prop
  | start : RunWhen ready S [] [] S.start
  | input {xs : List α} {ys : List β} {s : σ} {as : List α} {bs : List β} {s' : σ}
      (h : RunWhen ready S xs ys s) (hready : ready xs ys) (hstep : S.Step s as bs s') :
      RunWhen ready S (xs ++ as) (ys ++ bs) s'
  | silent {xs : List α} {ys : List β} {s : σ} {bs : List β} {s' : σ}
      (h : RunWhen ready S xs ys s) (hstep : S.Step s [] bs s') :
      RunWhen ready S xs (ys ++ bs) s'

theorem RunWhen.run {ready : List α → List β → Prop} {xs : List α} {ys : List β} {s : σ}
    (h : RunWhen ready S xs ys s) : Run S xs ys s := by
  induction h with
  | start => exact .start
  | input _ _ hstep ih => exact ih.step hstep
  | silent _ hstep ih =>
    have hrun := ih.step hstep
    rwa [List.append_nil] at hrun

/-- A run can be brought to rest without further input. -/
theorem RunWhen.exists_atRest {ready : List α → List β → Prop} (hS : S.Settles) {xs : List α}
    {ys : List β} {s : σ} (h : RunWhen ready S xs ys s) :
    ∃ ys' s', RunWhen ready S xs (ys ++ ys') s' ∧ S.AtRest s' := by
  induction s using hS.wellFounded.induction generalizing ys with
  | _ s ih =>
    by_cases hrest : S.AtRest s
    · exact ⟨[], s, by rwa [List.append_nil], hrest⟩
    · simp only [Stage.AtRest, not_forall, not_not] at hrest
      obtain ⟨as, bs, s', hstep, rfl⟩ := hrest
      obtain ⟨ys', s'', hrun, hrest'⟩ := ih s' ⟨bs, hstep⟩ (h.silent hstep)
      rw [List.append_assoc] at hrun
      exact ⟨bs ++ ys', s'', hrun, hrest'⟩

end Pipeline
