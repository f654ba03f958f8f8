import SantaOS.Lib.Memory

/-!
# Loops with fuel, and strings that end with a zero

A program that need not come to an end is a function of its fuel; it gives no answer when
the fuel is used up. `Returns x a` says that with enough fuel the answer is `a`, whatever
the amount. Loops are taken pass by pass: one that leaves (`Returns.loop_exit`) or one
that goes on (`Returns.loop_next`). What every pass keeps holds of all the local
variables a loop comes to (`Reaches.invariant`).

`IsString p s` says that the string `s` lies behind the pointer `p`, closed by a zero. A
loop that looks for the end of a run of characters is a `scan`.
-/

namespace Fuel

open Memory

variable {α β : Type}

/-- With enough fuel the answer is `a`. -/
def Returns (x : Nat → Option α) (a : α) : Prop := ∃ n, ∀ fuel, n ≤ fuel → x fuel = some a

theorem Returns.of_forall {x : Nat → Option α} {a : α} (h : ∀ fuel, x fuel = some a) :
    Returns x a := ⟨0, fun fuel _ => h fuel⟩

theorem Returns.bind {x : Nat → Option α} {a : α} (hx : Returns x a) {y : Nat → α → Option β}
    {b : β} (hy : Returns (y · a) b) : Returns (fun fuel => x fuel >>= y fuel) b := by
  obtain ⟨n, hn⟩ := hx
  obtain ⟨n', hn'⟩ := hy
  refine ⟨max n n', fun fuel hfuel => ?_⟩
  simp only [hn fuel (by omega), Option.bind_eq_bind, Option.bind_some]
  exact hn' fuel (by omega)

/-! ### Loops -/

/-- `while (true)` with local variables `b`: a pass leaves the loop with a value or goes
on with new local variables. It has the fuel that is left. -/
def loop (body : Nat → β → Option (α ⊕ β)) : Nat → β → Option α
  | 0, _ => none
  | fuel + 1, b => do
    match ← body fuel b with
    | .inl a => return a
    | .inr b' => loop body fuel b'

section Loop

variable {body : Nat → β → Option (α ⊕ β)} {b b' : β} {a : α}

theorem Returns.loop_exit (h : Returns (body · b) (.inl a)) : Returns (loop body · b) a := by
  obtain ⟨n, hn⟩ := h
  refine ⟨n + 1, fun fuel hfuel => ?_⟩
  obtain ⟨fuel, rfl⟩ : ∃ k, fuel = k + 1 := ⟨fuel - 1, by omega⟩
  simp only [loop, hn fuel (by omega)]
  rfl

theorem Returns.loop_next (h : Returns (body · b) (.inr b')) (h' : Returns (loop body · b') a) :
    Returns (loop body · b) a := by
  obtain ⟨n, hn⟩ := h
  obtain ⟨n', hn'⟩ := h'
  refine ⟨max n n' + 1, fun fuel hfuel => ?_⟩
  obtain ⟨fuel, rfl⟩ : ∃ k, fuel = k + 1 := ⟨fuel - 1, by omega⟩
  simp only [loop, hn fuel (by omega)]
  exact hn' fuel (by omega)

/-- The local variables `b'` are those of some pass of the loop from `b`. -/
inductive Reaches (body : Nat → β → Option (α ⊕ β)) (b : β) : β → Prop
  | start : Reaches body b b
  | pass {b' b'' : β} {fuel : Nat} (h : Reaches body b b')
      (hbody : body fuel b' = some (.inr b'')) : Reaches body b b''

/-- What holds at first and is kept by every pass holds of every pass. -/
theorem Reaches.invariant {I : β → Prop} (h : Reaches body b b') (hb : I b)
    (hpass : ∀ fuel b b', I b → body fuel b = some (.inr b') → I b') : I b' := by
  induction h with
  | start => exact hb
  | pass _ hbody ih => exact hpass _ _ _ ih hbody

theorem Reaches.pass_of_returns {b'' : β} (h : Reaches body b b')
    (hpass : Returns (body · b') (.inr b'')) : Reaches body b b'' := by
  obtain ⟨n, hn⟩ := hpass
  exact h.pass (hn n (Nat.le_refl n))

end Loop

/-! ### Stability -/

/-- More fuel does not change an answer. -/
def Stable (x : Nat → Option α) : Prop := ∀ n m a, n ≤ m → x n = some a → x m = some a

theorem stable_const (o : Option α) : Stable fun _ => o := fun _ _ _ _ h => h

theorem Stable.bind {x : Nat → Option α} (hx : Stable x) {y : Nat → α → Option β}
    (hy : ∀ a, Stable (y · a)) : Stable fun fuel => x fuel >>= y fuel := by
  intro n m b hle h
  obtain ⟨a, ha, hb⟩ := Option.bind_eq_some_iff.mp h
  exact Option.bind_eq_some_iff.mpr ⟨a, hx n m a hle ha, hy a n m b hle hb⟩

theorem Stable.loop {body : Nat → β → Option (α ⊕ β)} (h : ∀ b, Stable (body · b)) (b : β) :
    Stable (loop body · b) := by
  intro n
  induction n generalizing b with
  | zero => intro m a _ hrun; cases hrun
  | succ n ih =>
    intro m a hle hrun
    obtain ⟨m, rfl⟩ : ∃ k, m = k + 1 := ⟨m - 1, by omega⟩
    obtain ⟨next, hbody, hrest⟩ := Option.bind_eq_some_iff.mp hrun
    refine Option.bind_eq_some_iff.mpr ⟨next, h b n m next (by omega) hbody, ?_⟩
    cases next with
    | inl a' => exact hrest
    | inr b' => exact ih b' m a (by omega) hrest

/-- Any answer is the answer. -/
theorem Returns.eq_of_stable {x : Nat → Option α} {a b : α} {fuel : Nat} (h : Returns x a)
    (hx : Stable x) (hb : x fuel = some b) : b = a := by
  obtain ⟨n, hn⟩ := h
  have hmax := hx fuel (max n fuel) b (by omega) hb
  rw [hn (max n fuel) (by omega)] at hmax
  exact (Option.some.inj hmax).symm

/-! ### Strings -/

section Strings

variable {χ : Type} [Zero χ]

/-- The string `s` lies behind `p`, closed by a zero. -/
def IsString : Ptr χ → List χ → Prop
  | p, [] => p 0 = 0
  | p, c :: s => p 0 = c ∧ c ≠ 0 ∧ IsString (p.add 1) s

instance decidableIsString [DecidableEq χ] : (p : Ptr χ) → (s : List χ) → Decidable (IsString p s)
  | p, [] => inferInstanceAs (Decidable (p 0 = 0))
  | p, c :: s =>
    have := decidableIsString (p.add 1) s
    inferInstanceAs (Decidable (p 0 = c ∧ c ≠ 0 ∧ IsString (p.add 1) s))

theorem IsString.head_ne {p : Ptr χ} {s : List χ} (h : IsString p s) {x : χ} (hx : x ≠ 0)
    (hs : ∀ c ∈ s.head?, c ≠ x) : p 0 ≠ x := by
  cases s with
  | nil =>
    have hnul : p 0 = 0 := h
    exact hnul ▸ hx.symm
  | cons c s => exact h.1 ▸ hs c rfl

/-- The beginning of a string is read, and the rest is a string. -/
theorem IsString.append {p : Ptr χ} {a s : List χ} (h : IsString p (a ++ s)) :
    p.read a.length = a ∧ IsString (p.add a.length) s := by
  induction a generalizing p with
  | nil => simpa using h
  | cons c a ih =>
    obtain ⟨hc, -, hrest⟩ := h
    obtain ⟨hread, hstring⟩ := ih hrest
    rw [List.length_cons, Ptr.read_succ, hc, hread]
    refine ⟨rfl, ?_⟩
    rwa [Ptr.add_add, show 1 + (a.length : Int) = (a.length + 1 : Nat) by omega] at hstring

theorem IsString.read {p : Ptr χ} {s : List χ} (h : IsString p s) : p.read s.length = s := by
  rw [← List.append_nil s] at h
  exact h.append.1

theorem IsString.ne_zero {p : Ptr χ} {s : List χ} (h : IsString p s) {c : χ} (hc : c ∈ s) :
    c ≠ 0 := by
  induction s generalizing p with
  | nil => cases hc
  | cons d s ih =>
    rcases List.mem_cons.mp hc with rfl | hc
    · exact h.2.1
    · exact ih h.2.2 hc

/-- A string is its characters and a zero. -/
theorem isString_of_read {p : Ptr χ} {s : List χ} (h : p.read (s.length + 1) = s ++ [0])
    (hs : ∀ c ∈ s, c ≠ 0) : IsString p s := by
  induction s generalizing p with
  | nil => exact (List.cons_eq_cons.mp h).1
  | cons c s ih =>
    obtain ⟨hc, hrest⟩ := List.cons_eq_cons.mp h
    obtain ⟨hc0, hs⟩ := List.forall_mem_cons.mp hs
    exact ⟨hc, hc0, ih hrest hs⟩

theorem IsString.congr {p q : Ptr χ} {s : List χ} (h : IsString p s)
    (hpq : ∀ i : Nat, i ≤ s.length → q i = p i) : IsString q s := by
  induction s generalizing p q with
  | nil => exact (hpq 0 (Nat.le_refl 0)).trans h
  | cons c s ih =>
    obtain ⟨hc, hc0, hrest⟩ := h
    refine ⟨(hpq 0 (Nat.zero_le _)).trans hc, hc0, ih hrest fun i hi => ?_⟩
    have hnext := hpq (1 + i) (by rw [List.length_cons]; omega)
    rwa [Int.natCast_add] at hnext

/-! ### Scans -/

/-- `while (go(p[len])) len++;` -/
def scan (go : χ → Bool) (p : Ptr χ) (fuel len : Nat) : Option Nat :=
  loop (fun _ (len : Nat) => some (if go (p len) then .inr (len + 1) else .inl len)) fuel len

omit [Zero χ] in
theorem returns_scan {go : χ → Bool} {p : Ptr χ} {len n : Nat} (hle : len ≤ n)
    (hgo : ∀ i : Nat, len ≤ i → i < n → go (p i) = true) (hstop : go (p n) = false) :
    Returns (scan go p · len) n := by
  induction hd : n - len generalizing len with
  | zero =>
    obtain rfl : len = n := by omega
    exact Returns.loop_exit (.of_forall fun _ => by rw [hstop]; rfl)
  | succ d ih =>
    have hrest : Returns (scan go p · (len + 1)) n :=
      ih (by omega) (fun i hi hin => hgo i (by omega) hin) (by omega)
    refine Returns.loop_next (.of_forall fun _ => ?_) hrest
    rw [hgo len (Nat.le_refl len) (by omega), if_pos rfl]

/-- A scan that starts behind `lead` goes over the characters that let it go on. -/
theorem IsString.returns_scan {go : χ → Bool} {p : Ptr χ} (lead : List χ) {a s : List χ}
    (h : IsString p (lead ++ (a ++ s))) (hgo : ∀ c ∈ a, go c = true) (hzero : go 0 = false)
    (hstop : ∀ c ∈ s.head?, go c = false) :
    Returns (scan go p · lead.length) (lead ++ a).length := by
  obtain ⟨hread, hrest⟩ := h.append.2.append
  rw [List.length_append]
  refine Fuel.returns_scan (Nat.le_add_right _ _) (fun i hle hi => ?_) ?_
  · obtain ⟨j, rfl⟩ := Nat.exists_eq_add_of_le hle
    have hj : j < ((p.add lead.length).read a.length).length := by
      rw [Ptr.length_read]
      omega
    have hmem : p (lead.length + j : Nat) ∈ (p.add lead.length).read a.length := by
      have helem := Ptr.getElem_read (p.add lead.length) hj
      rw [Ptr.add_apply] at helem
      rw [Int.natCast_add, ← helem]
      exact List.getElem_mem hj
    exact hgo _ (hread ▸ hmem)
  · have hhead : (p.add lead.length).add a.length 0 = p (lead.length + a.length : Nat) := by simp
    cases s with
    | nil =>
      have hnul : (p.add lead.length).add a.length 0 = 0 := hrest
      rw [← hhead, hnul, hzero]
    | cons c s =>
      rw [← hhead, hrest.1]
      exact hstop c rfl

end Strings

end Fuel
