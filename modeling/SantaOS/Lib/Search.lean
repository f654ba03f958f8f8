import Mathlib.Data.List.Basic
import Mathlib.Data.List.Infix

/-!
# Searching a stream for a marker

`after pat l` is what follows the first occurrence of `pat` in `l`. A reader that keeps
the last symbols of a stream in a window as long as the marker computes just that
(`slide_eq_after`), and a marker none of whose borders is proper is found where it was
put, behind any text that does not contain it (`after_append_of_unbordered`).
-/

namespace Search

variable {α : Type} [BEq α] [LawfulBEq α]

/-- What follows the first occurrence of `pat` in `l`. -/
def after (pat l : List α) : Option (List α) := (l.dropInfix? pat).map Prod.snd

theorem after_eq_some_iff {pat l s : List α} :
    after pat l = some s ↔
      ∃ p, l = p ++ pat ++ s ∧ ∀ p' s', l = p' ++ pat ++ s' → p.length ≤ p'.length := by
  simp only [after, Option.map_eq_some_iff, Prod.exists, exists_eq_right,
    List.dropInfix?_eq_some_iff, beq_iff_eq]
  refine exists_congr fun p => and_congr_right fun _ => ?_
  exact ⟨fun hmin p' s' h => hmin p' _ s' h rfl, fun hmin p' _ s' h hi => hmin p' s' (hi ▸ h)⟩

theorem after_append (pat l : List α) : after pat (pat ++ l) = some l :=
  after_eq_some_iff.mpr ⟨[], rfl, fun _ _ _ => Nat.zero_le _⟩

/-- A symbol at which the marker does not start is passed over. -/
theorem after_cons_of_not_prefix {pat l : List α} {c : α} (h : ¬ pat <+: c :: l) :
    after pat (c :: l) = after pat l := by
  ext s
  simp only [after_eq_some_iff]
  constructor
  · rintro ⟨p, hl, hmin⟩
    cases p with
    | nil => exact absurd ⟨s, hl.symm⟩ h
    | cons d p =>
      obtain ⟨rfl, rfl⟩ := List.cons_eq_cons.mp hl
      refine ⟨p, rfl, fun p' s' h' => ?_⟩
      have hle := hmin (c :: p') s' (by rw [h']; rfl)
      simpa using hle
  · rintro ⟨p, rfl, hmin⟩
    refine ⟨c :: p, rfl, fun p' s' h' => ?_⟩
    cases p' with
    | nil => exact absurd ⟨s', h'.symm⟩ h
    | cons d p' =>
      obtain ⟨-, h''⟩ := List.cons_eq_cons.mp h'
      simpa using hmin p' s' h''

/-- What is found in the beginning of a text is found in the text. -/
theorem after_append_right {pat l s : List α} (h : after pat l = some s) (r : List α) :
    after pat (l ++ r) = some (s ++ r) := by
  obtain ⟨p, rfl, hmin⟩ := after_eq_some_iff.mp h
  refine after_eq_some_iff.mpr ⟨p, List.append_assoc _ _ _, fun p' s' h' => ?_⟩
  by_contra hlt
  -- an earlier occurrence would already end inside the beginning
  have hpre : p' ++ pat <+: p ++ pat ++ s := by
    refine List.prefix_of_prefix_length_le ⟨s', h'.symm⟩ ⟨r, rfl⟩ ?_
    simp only [List.length_append]
    omega
  obtain ⟨t, ht⟩ := hpre
  exact hlt (hmin p' t ht.symm)

theorem after_eq_none_of_length_lt {pat l : List α} (h : l.length < pat.length) :
    after pat l = none := by
  rw [Option.eq_none_iff_forall_ne_some]
  intro s hs
  obtain ⟨p, rfl, -⟩ := after_eq_some_iff.mp hs
  simp at h
  omega

/-! ### The sliding window -/

/-- Reads on until the last symbols read are the marker: each step drops the oldest
symbol of the window and takes in a new one. -/
def slide (pat : List α) (window : List α) (l : List α) : Option (List α) :=
  if window == pat then some l
  else match l with
    | [] => none
    | c :: l => slide pat (window.tail ++ [c]) l
  termination_by l.length

/-- **The window finds the first occurrence** in what it holds and what is still to come. -/
theorem slide_eq_after {pat : List α} (hpat : pat ≠ []) (l window : List α)
    (hw : window.length = pat.length) : slide pat window l = after pat (window ++ l) := by
  induction l generalizing window with
  | nil =>
    rw [slide]
    split
    · rename_i heq
      rw [eq_of_beq heq, after_append]
    · rename_i hne
      obtain ⟨w, window, rfl⟩ := List.exists_cons_of_length_pos
        (by rw [hw]; exact List.length_pos_of_ne_nil hpat : 0 < window.length)
      have hnp : ¬ pat <+: w :: window := fun hp =>
        hne (beq_iff_eq.mpr (hp.eq_of_length hw.symm).symm)
      simp only [List.length_cons] at hw
      rw [List.append_nil, after_cons_of_not_prefix hnp, after_eq_none_of_length_lt (by omega)]
  | cons c l ih =>
    rw [slide]
    split
    · rename_i heq
      rw [eq_of_beq heq, after_append]
    · rename_i hne
      obtain ⟨w, window, rfl⟩ := List.exists_cons_of_length_pos
        (by rw [hw]; exact List.length_pos_of_ne_nil hpat : 0 < window.length)
      have hnp : ¬ pat <+: w :: (window ++ c :: l) := by
        intro hp
        have hpre : pat <+: w :: window :=
          List.prefix_of_prefix_length_le hp ⟨c :: l, rfl⟩ hw.ge
        exact hne (beq_iff_eq.mpr (hpre.eq_of_length hw.symm).symm)
      rw [List.tail_cons, ih _ (by simpa using hw), List.append_assoc, List.singleton_append,
        List.cons_append, after_cons_of_not_prefix hnp]

/-! ### Markers in noise -/

/-- No proper part of the marker is both its beginning and its end. -/
def Unbordered (pat : List α) : Prop := ∀ b, b <+: pat → b <:+ pat → b = [] ∨ b = pat

omit [BEq α] [LawfulBEq α] in
/-- A marker whose first symbol does not come again has no border. -/
theorem unbordered_cons {a : α} {t : List α} (h : a ∉ t) : Unbordered (a :: t) := by
  intro b hpre hsuf
  rcases List.prefix_cons_iff.mp hpre with rfl | ⟨b', rfl, -⟩
  · exact .inl rfl
  · rcases List.suffix_cons_iff.mp hsuf with heq | hsuf'
    · exact .inr heq
    · exact absurd (hsuf'.mem List.mem_cons_self) h

omit [BEq α] [LawfulBEq α] in
/-- Inside noise the marker does not start, not even to be completed by the real one. -/
theorem not_prefix_of_noise {pat x rest : List α} (hpat : Unbordered pat)
    (hx : ¬ pat <:+: x) (hne : x ≠ []) : ¬ pat <+: x ++ (pat ++ rest) := by
  intro hp
  rcases Nat.lt_or_ge x.length pat.length with hlt | hge
  · obtain ⟨b, hb⟩ := List.prefix_of_prefix_length_le ⟨_, rfl⟩ hp hlt.le
    have hbpre : b <+: pat ++ rest := by
      rw [← List.prefix_append_right_inj x, hb]
      exact hp
    have hblt : b.length < pat.length := by
      have hlen := congrArg List.length hb
      have hpos := List.length_pos_of_ne_nil hne
      simp only [List.length_append] at hlen
      omega
    have hborder : b <+: pat := List.prefix_of_prefix_length_le hbpre ⟨rest, rfl⟩ hblt.le
    rcases hpat b hborder ⟨x, hb⟩ with hnil | hall
    · rw [hnil, List.append_nil] at hb
      exact absurd (congrArg List.length hb) (by omega)
    · exact absurd (congrArg List.length hall) (by omega)
  · exact hx (List.prefix_of_prefix_length_le hp ⟨_, rfl⟩ hge).isInfix

/-- **A marker without borders is found where it was put**, behind any noise. -/
theorem after_append_of_unbordered {pat g : List α} (rest : List α) (hpat : Unbordered pat)
    (hg : ¬ pat <:+: g) : after pat (g ++ (pat ++ rest)) = some rest := by
  induction g with
  | nil => exact after_append pat rest
  | cons c g ih =>
    have hnp : ¬ pat <+: c :: (g ++ (pat ++ rest)) :=
      not_prefix_of_noise hpat hg (List.cons_ne_nil c g)
    rw [List.cons_append, after_cons_of_not_prefix hnp]
    exact ih fun hinf => hg (hinf.trans (List.suffix_cons c g).isInfix)

end Search
