import Mathlib.Computability.Language
import SantaOS.Lib.Reactive

/-!
# Logs and regular languages

One-letter languages (`letter`), the laws of Kleene algebra that let a loop take in one
more word in front of it, and the way from a reactive machine to a language: when every
state has a language `ahead` of the words its log may still become, and a step keeps to
it, every log is a prefix of a word of the language ahead of the first state.
-/

namespace Regular

open Computability Reactive

section Kleene

variable {K : Type*} [KleeneAlgebra K] {a b c : K}

theorem mul_kstar_mul_le (a b : K) : a * (a∗ * b) ≤ a∗ * b := by
  rw [← mul_assoc]
  exact mul_le_mul_left mul_kstar_le_kstar b

theorem le_kstar_mul (a b : K) : b ≤ a∗ * b :=
  le_mul_of_one_le_left' one_le_kstar

/-- What both a loop's body and its continuation absorb on their left, the loop absorbs. -/
theorem absorb_kstar_mul (hb : a * b ≤ b) (hc : a * c ≤ c) : a * (b∗ * c) ≤ b∗ * c :=
  calc a * (b∗ * c) = a * c + a * b * (b∗ * c) := by
        conv_lhs => rw [← one_add_mul_kstar]
        simp only [add_mul, mul_add, one_mul, mul_assoc]
    _ ≤ c + b * (b∗ * c) := add_le_add hc (mul_le_mul_left hb _)
    _ = b∗ * c := by
        conv_rhs => rw [← one_add_mul_kstar]
        simp only [add_mul, one_mul, mul_assoc]

end Kleene

section Letters

variable {α : Type} {P : α → Prop} {e : α} {w : List α} {L : Language α}

/-- The one-letter words whose letter satisfies `P`. -/
def letter (P : α → Prop) : Language α := {w | ∃ e, P e ∧ w = [e]}

theorem letter_nonempty (h : P e) : (letter P).Nonempty := ⟨[e], e, h, rfl⟩

theorem cons_mem (h : P e) (hw : w ∈ L) : e :: w ∈ letter P * L :=
  Language.append_mem_mul (show [e] ∈ letter P from ⟨e, h, rfl⟩) hw

theorem mul_nonempty {L M : Language α} (hl : L.Nonempty) (hm : M.Nonempty) :
    (L * M).Nonempty := by
  obtain ⟨v, hv⟩ := hl
  obtain ⟨w, hw⟩ := hm
  exact ⟨v ++ w, Language.append_mem_mul hv hw⟩

theorem kstar_nonempty (L : Language α) : (L∗).Nonempty := ⟨[], Language.nil_mem_kstar L⟩

end Letters

section Machines

variable {S I O : Type} {step : S → I → S × Option O} {ahead : S → Language (Event S I O)}

/-- The log so far may go on as the language ahead of the state says. -/
theorem trace_append_mem (hstep : ∀ s i, ∀ w ∈ ahead (step s i).1,
      .input s i :: (outputs (step s i).2 ++ w) ∈ ahead s)
    (s : S) (is : List I) {w : List (Event S I O)} (hw : w ∈ ahead (state step s is)) :
    trace step s is ++ w ∈ ahead s := by
  induction is generalizing s with
  | nil => exact hw
  | cons i is ih =>
    rw [trace_cons, List.cons_append, List.append_assoc]
    exact hstep s i _ (ih (step s i).1 hw)

/-- **Every log is a prefix of a word.** -/
theorem trace_prefix (hstep : ∀ s i, ∀ w ∈ ahead (step s i).1,
      .input s i :: (outputs (step s i).2 ++ w) ∈ ahead s)
    (hne : ∀ s, (ahead s).Nonempty) (s : S) (is : List I) :
    ∃ w ∈ ahead s, trace step s is <+: w := by
  obtain ⟨w, hw⟩ := hne (state step s is)
  exact ⟨_, trace_append_mem hstep s is hw, List.prefix_append _ _⟩

end Machines

end Regular
