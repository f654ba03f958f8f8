import Mathlib.Data.List.Basic

/-!
# Reactive machines

A machine that takes one input at a time, moves to a new state and may give one output.
`trace` is its log: every input with the state that met it, and directly behind it the
output it caused. `trace_eq_append_input` and `trace_eq_append_output` read a position of
the log back as a moment of the run; what is proved of one step then holds at every
position of every log. `ins` and `outs` are what a stretch of a log read and sent, `EachInput`
a property of each of its inputs together with what surrounds it.
-/

namespace Reactive

/-- An entry of the log. -/
inductive Event (S I O : Type)
  /-- The input `i` met the machine in state `s`. -/
  | input (s : S) (i : I)
  | output (o : O)
  deriving DecidableEq, Repr

variable {S I O : Type} (step : S → I → S × Option O)

/-- The state after a list of inputs. -/
def state (s : S) (is : List I) : S := is.foldl (fun s i => (step s i).1) s

/-- The log entries of an output. -/
def outputs (o : Option O) : List (Event S I O) := o.toList.map .output

/-- The log of a list of inputs. -/
def trace : S → List I → List (Event S I O)
  | _, [] => []
  | s, i :: is => .input s i :: (outputs (step s i).2 ++ trace (step s i).1 is)

@[simp] theorem outputs_none : outputs none = ([] : List (Event S I O)) := rfl

@[simp] theorem outputs_some (o : O) : outputs (some o) = ([.output o] : List (Event S I O)) :=
  rfl

@[simp] theorem state_nil (s : S) : state step s [] = s := rfl

@[simp] theorem state_cons (s : S) (i : I) (is : List I) :
    state step s (i :: is) = state step (step s i).1 is := rfl

@[simp] theorem trace_nil (s : S) : trace step s [] = [] := rfl

theorem trace_cons (s : S) (i : I) (is : List I) :
    trace step s (i :: is) =
      .input s i :: (outputs (step s i).2 ++ trace step (step s i).1 is) := rfl

theorem state_append (s : S) (is js : List I) :
    state step s (is ++ js) = state step (state step s is) js :=
  List.foldl_append

theorem trace_append (s : S) (is js : List I) :
    trace step s (is ++ js) = trace step s is ++ trace step (state step s is) js := by
  induction is generalizing s with
  | nil => rfl
  | cons i is ih => simp [trace_cons, ih]

/-- The log of one more input. -/
theorem trace_concat (s : S) (is : List I) (i : I) :
    trace step s (is ++ [i]) =
      trace step s is ++
        .input (state step s is) i :: outputs (step (state step s is) i).2 := by
  simp [trace_append, trace_cons]

/-! ### Leaving inputs out -/

/-- An entry seen through a partial view of the inputs. -/
def Event.view {J : Type} (g : I → Option J) : Event S I O → Option (Event S J O)
  | .input s i => (g i).map (.input s)
  | .output o => some (.output o)

variable {step}

/-- **Inputs that change nothing may be left out of the log**: where `g` shows an input,
`step'` does what `step` does, and the others have no effect. -/
theorem filterMap_trace {J : Type} {g : I → Option J} {step' : S → J → S × Option O}
    (hsome : ∀ s i j, g i = some j → step s i = step' s j)
    (hnone : ∀ s i, g i = none → step s i = (s, none)) (s : S) (is : List I) :
    (trace step s is).filterMap (Event.view g) = trace step' s (is.filterMap g) := by
  induction is generalizing s with
  | nil => rfl
  | cons i is ih =>
    rw [trace_cons, List.filterMap_cons, List.filterMap_append, ih]
    cases hg : g i with
    | none =>
      rw [hnone s i hg, List.filterMap_cons_none hg]
      simp [Event.view, hg]
    | some j =>
      have houtputs : (outputs (step s i).2).filterMap (Event.view g) =
          (outputs (step s i).2 : List (Event S J O)) := by
        cases (step s i).2 with
        | none => rfl
        | some o => rfl
      rw [houtputs, List.filterMap_cons_some hg, trace_cons, hsome s i j hg]
      simp [Event.view, hg]

/-! ### Positions in the log -/

/-- **An input in the log is a moment of the run**: before it the log of the earlier
inputs, behind it what the step put out and the log of the later inputs. -/
theorem trace_eq_append_input {s s₀ : S} {i : I} {is : List I} {pre post : List (Event S I O)}
    (h : trace step s₀ is = pre ++ .input s i :: post) :
    ∃ is₁ is₂, is = is₁ ++ i :: is₂ ∧ pre = trace step s₀ is₁ ∧ s = state step s₀ is₁ ∧
      post = outputs (step s i).2 ++ trace step (step s i).1 is₂ := by
  induction is generalizing s₀ pre with
  | nil => simp at h
  | cons j is ih =>
    rw [trace_cons] at h
    cases pre with
    | nil =>
      obtain ⟨hj, hpost⟩ := List.cons_eq_cons.mp h
      obtain ⟨rfl, rfl⟩ := Event.input.inj hj
      exact ⟨[], is, rfl, rfl, rfl, hpost.symm⟩
    | cons e pre =>
      obtain ⟨rfl, htail⟩ := List.cons_eq_cons.mp h
      -- an output of the first step cannot be the input looked for
      obtain ⟨pre', rfl, htail'⟩ : ∃ pre', pre = outputs (step s₀ j).2 ++ pre' ∧
          trace step (step s₀ j).1 is = pre' ++ .input s i :: post := by
        cases ho : (step s₀ j).2 with
        | none => exact ⟨pre, rfl, by simpa [ho] using htail⟩
        | some o =>
          rw [ho, outputs_some, List.singleton_append] at htail
          cases pre with
          | nil => exact absurd (List.cons_eq_cons.mp htail).1 (by simp)
          | cons e pre =>
            obtain ⟨rfl, hrest⟩ := List.cons_eq_cons.mp htail
            exact ⟨pre, rfl, hrest⟩
      obtain ⟨is₁, is₂, rfl, rfl, hs, hpost⟩ := ih htail'
      exact ⟨j :: is₁, is₂, rfl, rfl, hs, hpost⟩

/-- **An output in the log stands directly behind the input that caused it.** -/
theorem trace_eq_append_output {s₀ : S} {o : O} {is : List I} {pre post : List (Event S I O)}
    (h : trace step s₀ is = pre ++ .output o :: post) :
    ∃ is₁ i is₂, is = is₁ ++ i :: is₂ ∧
      pre = trace step s₀ is₁ ++ [.input (state step s₀ is₁) i] ∧
      (step (state step s₀ is₁) i).2 = some o ∧
      post = trace step (step (state step s₀ is₁) i).1 is₂ := by
  induction is generalizing s₀ pre with
  | nil => simp at h
  | cons j is ih =>
    rw [trace_cons] at h
    cases pre with
    | nil => exact absurd (List.cons_eq_cons.mp h).1 (by simp)
    | cons e pre =>
      obtain ⟨rfl, htail⟩ := List.cons_eq_cons.mp h
      cases ho : (step s₀ j).2 with
      | none =>
        rw [ho, outputs_none, List.nil_append] at htail
        obtain ⟨is₁, i, is₂, rfl, rfl, hout, hpost⟩ := ih htail
        refine ⟨j :: is₁, i, is₂, rfl, ?_, hout, hpost⟩
        simp [trace_cons, ho]
      | some o' =>
        rw [ho, outputs_some, List.singleton_append] at htail
        cases pre with
        | nil =>
          obtain ⟨ho', hpost⟩ := List.cons_eq_cons.mp htail
          exact ⟨[], j, is, rfl, rfl, ho.trans (congrArg some (Event.output.inj ho')), hpost.symm⟩
        | cons e pre =>
          obtain ⟨rfl, hrest⟩ := List.cons_eq_cons.mp htail
          obtain ⟨is₁, i, is₂, rfl, rfl, hout, hpost⟩ := ih hrest
          refine ⟨j :: is₁, i, is₂, rfl, ?_, hout, hpost⟩
          simp [trace_cons, ho]

/-! ### Reading along a log -/

/-- The outputs of a log, in order. -/
def outs (es : List (Event S I O)) : List O :=
  es.filterMap fun
    | .input _ _ => none
    | .output o => some o

/-- What is read in a stretch of a log. -/
def ins (es : List (Event S I O)) : List I :=
  es.filterMap fun
    | .input _ i => some i
    | .output _ => none

theorem ins_trace (s : S) (is : List I) : ins (trace step s is) = is := by
  induction is generalizing s with
  | nil => rfl
  | cons i is ih =>
    have hsplit (es : List (Event S I O)) : ins (outputs (step s i).2 ++ es) = ins es := by
      cases (step s i).2 with
      | none => rfl
      | some o => rfl
    rw [trace_cons]
    exact congrArg (i :: ·) ((hsplit _).trans (ih _))

/-- There are no more outputs than inputs. -/
theorem length_outs_trace_le (step : S → I → S × Option O) (s : S) (is : List I) :
    (outs (trace step s is)).length ≤ is.length := by
  induction is generalizing s with
  | nil => exact Nat.le_refl 0
  | cons i is ih =>
    have hrest := ih (step s i).1
    have hsplit (es : List (Event S I O)) :
        (outs (outputs (step s i).2 ++ es)).length ≤ (outs es).length + 1 := by
      cases (step s i).2 with
      | none => exact Nat.le_succ _
      | some o => exact Nat.le_refl _
    exact Nat.le_trans (hsplit _) (Nat.succ_le_succ hrest)

/-- An output comes from some step. -/
theorem exists_step_of_mem_outs {s : S} {is : List I} {o : O} (h : o ∈ outs (trace step s is)) :
    ∃ s' i, (step s' i).2 = some o := by
  obtain ⟨e, he, ho⟩ := List.mem_filterMap.mp h
  cases e with
  | input s' i => cases ho
  | output o' =>
    obtain rfl := Option.some.inj ho
    obtain ⟨pre, post, hsplit⟩ := List.append_of_mem he
    obtain ⟨is₁, i, -, -, -, hstep, -⟩ := trace_eq_append_output hsplit
    exact ⟨_, i, hstep⟩

/-- Every input of a log satisfies `Q`, with what stands before it and behind it. -/
def EachInput (Q : List (Event S I O) → S → I → List (Event S I O) → Prop)
    (es : List (Event S I O)) : Prop :=
  ∀ before s i after, es = before ++ .input s i :: after → Q before s i after

section Along

variable {Q : List (Event S I O) → S → I → List (Event S I O) → Prop} {s : S} {i : I} {o : O}
  {es es' : List (Event S I O)}

@[simp] theorem outs_nil : outs ([] : List (Event S I O)) = [] := rfl

@[simp] theorem outs_input : outs (.input s i :: es) = outs es := rfl

@[simp] theorem outs_output : outs (.output o :: es) = o :: outs es := rfl

@[simp] theorem outs_append : outs (es ++ es') = outs es ++ outs es' := List.filterMap_append

@[simp] theorem ins_input : ins (.input s i :: es) = i :: ins es := rfl

@[simp] theorem ins_append : ins (es ++ es') = ins es ++ ins es' := List.filterMap_append

@[simp] theorem eachInput_nil : EachInput Q [] := by
  intro before s i after h
  simp at h

@[simp] theorem eachInput_input :
    EachInput Q (.input s i :: es) ↔
      Q [] s i es ∧ EachInput (fun before => Q (.input s i :: before)) es := by
  constructor
  · intro h
    exact ⟨h [] s i es rfl, fun before s' i' after hes => h _ _ _ _ (hes ▸ rfl)⟩
  · rintro ⟨hi, hes⟩ before s' i' after h
    cases before with
    | nil =>
      obtain ⟨he, rfl⟩ := List.cons_eq_cons.mp h
      obtain ⟨rfl, rfl⟩ := Event.input.inj he
      exact hi
    | cons e before =>
      obtain ⟨rfl, htail⟩ := List.cons_eq_cons.mp h
      exact hes before s' i' after htail

@[simp] theorem eachInput_output :
    EachInput Q (.output o :: es) ↔ EachInput (fun before => Q (.output o :: before)) es := by
  constructor
  · intro h before s i after hes
    exact h _ _ _ _ (hes ▸ rfl)
  · intro hes before s i after h
    cases before with
    | nil => cases (List.cons_eq_cons.mp h).1
    | cons e before =>
      obtain ⟨rfl, htail⟩ := List.cons_eq_cons.mp h
      exact hes before s i after htail

theorem EachInput.congr {Q' : List (Event S I O) → S → I → List (Event S I O) → Prop}
    (h : EachInput (fun before s i after => (Q before s i after ↔ Q' before s i after)) es) :
    EachInput Q es ↔ EachInput Q' es := by
  constructor
  · intro hq before s i after hes
    exact (h before s i after hes).mp (hq before s i after hes)
  · intro hq before s i after hes
    exact (h before s i after hes).mpr (hq before s i after hes)

end Along

end Reactive
