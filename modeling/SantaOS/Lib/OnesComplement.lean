import Mathlib.Data.Nat.ModEq
import Mathlib.Tactic.Ring

/-!
# One's-complement sums

The one's-complement sum of base-`b` words: their exact total, the carries above the
low digit added back to it (`fold`) until none is left (`settle`). A settled total is
known modulo `b - 1` and by whether it is zero (`settle_eq_top_iff`), which turns
every question about checksums into one about divisibility.

Code that folds a limited number of times computes something else. `fold_eq_top_iff`
says when one fold is enough to recognise a settled total of `b - 1`,
`fold_mod_eq_settle_iff` when the low digit of one fold is the settled total itself, and
`settle_add_complement_iff` when the complement of a total folded once completes it
to `b - 1`. A settled total of `b - 1` is lost when one digit changes
(`settle_ne_top_of_digit`).
-/

namespace OnesComplement

variable {b n : Nat}

/-- One end-around carry: what stands above the low digit is added to it. -/
def fold (b n : Nat) : Nat := n / b + n % b

theorem fold_lt_self (hb : 2 ≤ b) (h : b ≤ n) : fold b n < n := by
  have hq : 1 ≤ n / b := (Nat.one_le_div_iff (by omega)).mpr h
  have hn := Nat.div_add_mod n b
  have : 2 * (n / b) ≤ b * (n / b) := Nat.mul_le_mul_right _ hb
  unfold fold
  omega

theorem fold_modEq (hb : 1 ≤ b) : fold b n ≡ n [MOD b - 1] := by
  have hbase : b ≡ 1 [MOD b - 1] := (Nat.modEq_iff_dvd' hb).mpr (dvd_refl _) |>.symm
  calc fold b n = 1 * (n / b) + n % b := by rw [fold, Nat.one_mul]
    _ ≡ b * (n / b) + n % b [MOD b - 1] := (hbase.symm.mul_right _).add_right _
    _ = n := Nat.div_add_mod n b

theorem fold_pos (h : n ≠ 0) : 0 < fold b n := by
  by_contra hz
  obtain ⟨hdiv, hmod⟩ := Nat.add_eq_zero_iff.mp (Nat.eq_zero_of_not_pos hz)
  have hn := Nat.div_add_mod n b
  rw [hdiv, hmod, Nat.mul_zero] at hn
  exact h hn.symm

/-- The total with its carries folded until none is left. -/
def settle (b n : Nat) : Nat :=
  if _h : 2 ≤ b ∧ b ≤ n then settle b (fold b n) else n
  termination_by n
  decreasing_by exact fold_lt_self _h.1 _h.2

theorem settle_of_lt (h : n < b) : settle b n = n := by
  rw [settle, dif_neg (by omega)]

theorem settle_lt (hb : 2 ≤ b) : settle b n < b := by
  induction n using Nat.strong_induction_on with
  | _ n ih =>
    rw [settle]
    split
    · rename_i h
      exact ih _ (fold_lt_self h.1 h.2)
    · omega

theorem settle_modEq (hb : 1 ≤ b) : settle b n ≡ n [MOD b - 1] := by
  induction n using Nat.strong_induction_on with
  | _ n ih =>
    rw [settle]
    split
    · rename_i h
      exact (ih _ (fold_lt_self h.1 h.2)).trans (fold_modEq hb)
    · rfl

theorem settle_pos (h : n ≠ 0) : 0 < settle b n := by
  induction n using Nat.strong_induction_on with
  | _ n ih =>
    rw [settle]
    split
    · rename_i hb
      exact ih _ (fold_lt_self hb.1 hb.2) (fold_pos h).ne'
    · omega

/-- **A settled total is `b - 1` exactly when the total is a nonzero multiple of
`b - 1`.** -/
theorem settle_eq_top_iff (hb : 2 ≤ b) : settle b n = b - 1 ↔ n ≠ 0 ∧ b - 1 ∣ n := by
  have hmod : settle b n ≡ n [MOD b - 1] := settle_modEq (by omega)
  constructor
  · intro h
    refine ⟨?_, (hmod.dvd_iff dvd_rfl).mp (by rw [h])⟩
    rintro rfl
    rw [settle_of_lt (by omega)] at h
    omega
  · rintro ⟨hn, hdvd⟩
    have hlt : settle b n < b := settle_lt hb
    have hle : b - 1 ≤ settle b n :=
      Nat.le_of_dvd (settle_pos hn) ((hmod.dvd_iff dvd_rfl).mpr hdvd)
    omega

/-- **A total of `b - 1` does not survive the change of one digit**, but for the exchange
of `0` and `b - 1`, which are the same number modulo `b - 1`. -/
theorem settle_ne_top_of_digit (hb : 2 ≤ b) {a w w' : Nat} (h : settle b (a + w) = b - 1)
    (hw : w < b) (hw' : w' < b) (hne : w' ≠ w) (hup : ¬ (w = 0 ∧ w' = b - 1))
    (hdown : ¬ (w = b - 1 ∧ w' = 0)) : settle b (a + w') ≠ b - 1 := by
  intro h'
  obtain ⟨-, hdvd⟩ := (settle_eq_top_iff hb).mp h
  obtain ⟨-, hdvd'⟩ := (settle_eq_top_iff hb).mp h'
  have hmod : a + w ≡ a + w' [MOD b - 1] :=
    ((Nat.modEq_zero_iff_dvd).mpr hdvd).trans ((Nat.modEq_zero_iff_dvd).mpr hdvd').symm
  have hdigits : w ≡ w' [MOD b - 1] := hmod.add_left_cancel'
  rcases Nat.lt_or_ge w w' with hlt | hge
  · obtain ⟨q, hq⟩ := (Nat.modEq_iff_dvd' hlt.le).mp hdigits
    have hle := Nat.le_of_dvd (by omega) ⟨q, hq⟩
    exact hup (by omega)
  · obtain ⟨q, hq⟩ := (Nat.modEq_iff_dvd' hge).mp hdigits.symm
    have hle := Nat.le_of_dvd (by omega) ⟨q, hq⟩
    exact hdown (by omega)

/-! ### Folding once -/

/-- **One fold settles a total exactly when it leaves no carry.** -/
theorem fold_mod_eq_settle_iff (hb : 3 ≤ b) (hn : n / b < b) :
    fold b n % b = settle b n ↔ fold b n < b := by
  have hlow : n % b < b := Nat.mod_lt _ (by omega)
  constructor
  · intro h
    by_contra hge
    have hsub : fold b n % b = fold b n - b := by
      rw [Nat.mod_eq_sub_mod (by omega), Nat.mod_eq_of_lt (by unfold fold; omega)]
    have hmod : fold b n - b ≡ fold b n [MOD b - 1] := by
      rw [← hsub, h]
      exact (settle_modEq (by omega)).trans (fold_modEq (by omega)).symm
    -- a lost carry is a lost `b`, that is, a lost `1` modulo `b - 1`
    have hdvd := (Nat.modEq_iff_dvd' (Nat.sub_le _ _)).mp hmod
    rw [Nat.sub_sub_self (by omega)] at hdvd
    have hone : b - 1 ∣ 1 := (Nat.dvd_add_right (dvd_refl (b - 1))).mp
      (by rwa [Nat.sub_add_cancel (by omega)])
    have := Nat.le_of_dvd one_pos hone
    omega
  · intro h
    rw [Nat.mod_eq_of_lt h]
    rcases Nat.lt_or_ge n b with hlt | hge
    · rw [settle_of_lt hlt, fold, Nat.div_eq_of_lt hlt, Nat.mod_eq_of_lt hlt, Nat.zero_add]
    · rw [settle, dif_pos ⟨by omega, hge⟩, settle_of_lt h]

/-- The low digit of one fold is `b - 1` exactly when the settled total is, as long as
the total has no digit `b - 1` above the low one. -/
theorem fold_eq_top_iff (hb : 2 ≤ b) (hn : n / b + 1 < b) :
    fold b n % b = b - 1 ↔ settle b n = b - 1 := by
  have hlow : n % b < b := Nat.mod_lt _ (by omega)
  have hmod : fold b n ≡ n [MOD b - 1] := fold_modEq (by omega)
  rw [settle_eq_top_iff hb]
  constructor
  · intro h
    have htop : fold b n = b - 1 := by
      by_contra hne
      have hge : b ≤ fold b n := by
        by_contra hlt
        rw [Nat.mod_eq_of_lt (by omega)] at h
        exact hne h
      rw [Nat.mod_eq_sub_mod hge, Nat.mod_eq_of_lt (by unfold fold; omega)] at h
      unfold fold at h hge
      omega
    refine ⟨?_, (hmod.dvd_iff dvd_rfl).mp (by rw [htop])⟩
    rintro rfl
    simp [fold] at htop
    omega
  · rintro ⟨hne, hdvd⟩
    obtain ⟨q, hq⟩ := (hmod.dvd_iff dvd_rfl).mpr hdvd
    have hpos : 0 < fold b n := fold_pos hne
    have hlt : fold b n < (b - 1) * 2 := by
      unfold fold
      omega
    -- the only multiple of `b - 1` strictly between `0` and `2 * (b - 1)`
    have hq1 : q = 1 := by
      have h2 : q < 2 := Nat.lt_of_mul_lt_mul_left (hq ▸ hlt)
      rcases Nat.eq_zero_or_pos q with rfl | h0
      · omega
      · omega
    rw [hq, hq1, Nat.mul_one, Nat.mod_eq_of_lt (by omega)]

/-- **Adding the complement of a total folded once completes the total to `b - 1`
exactly when the fold itself leaves no carry.** -/
theorem settle_add_complement_iff (hb : 3 ≤ b) (hn : n / b < b) :
    settle b (n + (b - 1 - fold b n % b)) = b - 1 ↔ fold b n < b := by
  have hlow : n % b < b := Nat.mod_lt _ (by omega)
  have hmod : fold b n ≡ n [MOD b - 1] := fold_modEq (by omega)
  rw [settle_eq_top_iff (by omega)]
  by_cases hfold : fold b n < b
  · simp only [hfold, iff_true, Nat.mod_eq_of_lt hfold]
    refine ⟨?_, ?_⟩
    · intro h0
      have hz : n = 0 := by omega
      subst hz
      simp [fold] at h0
      omega
    · have hsum : n + (b - 1 - fold b n) ≡ fold b n + (b - 1 - fold b n) [MOD b - 1] :=
        hmod.symm.add_right _
      rw [show fold b n + (b - 1 - fold b n) = b - 1 by omega] at hsum
      exact (hsum.dvd_iff dvd_rfl).mpr dvd_rfl
  · simp only [hfold, iff_false, not_and]
    intro _ hdvd
    -- one lost carry: the completed total is `1` modulo `b - 1`
    have hlow' : fold b n % b = fold b n - b := by
      rw [Nat.mod_eq_sub_mod (by omega), Nat.mod_eq_of_lt (by unfold fold; omega)]
    have hfold2 : fold b n < 2 * b := by
      unfold fold
      omega
    have hsum : n + (b - 1 - fold b n % b) ≡ fold b n + (b - 1 - fold b n % b) [MOD b - 1] :=
      hmod.symm.add_right _
    have hval : fold b n + (b - 1 - fold b n % b) = 2 * (b - 1) + 1 := by
      unfold fold at hlow' hfold2 hfold ⊢
      omega
    rw [hval] at hsum
    have hone : b - 1 ∣ 2 * (b - 1) + 1 := (hsum.dvd_iff dvd_rfl).mp hdvd
    have hdvd1 : b - 1 ∣ 1 := (Nat.dvd_add_right (dvd_mul_left _ _)).mp hone
    have := Nat.le_of_dvd one_pos hdvd1
    omega

end OnesComplement
