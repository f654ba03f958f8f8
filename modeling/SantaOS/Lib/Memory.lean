import Mathlib.Logic.Function.Basic
import Mathlib.Data.List.GetD

/-!
# Memory

Memory seen through pointers. A `Ptr` is the infinite row of cells that a C pointer
gives access to, `p i` being `p[i]`, on both sides of the address it holds. A `Mem`
is an object that can be written: its cells, with a ghost list of the indices that
were stored to, so that a bound on every store can be stated.

`Ptr.read` and `Ptr.write` move between cells and lists: a piece of code that fills
consecutive cells is described by one `write` of a list, and what it reads by one
`read`. Everything is over an arbitrary cell type.

Design points:
* A `Ptr` has no bounds. Where code must stay inside an object, that is said of the list of
  stores (`StoredIn`), which holds of every store made and not only of those still to be seen
  in the cells.
* Indices are integers, as the difference of two pointers may be negative.
-/

namespace Memory

variable {β : Type}

/-- The cells behind a pointer: `p i` is the C expression `p[i]`. -/
abbrev Ptr (β : Type) := Int → β

namespace Ptr

/-- Pointer arithmetic, `p + k`. -/
def add (p : Ptr β) (k : Int) : Ptr β := fun i => p (k + i)

@[simp] theorem add_apply (p : Ptr β) (k i : Int) : p.add k i = p (k + i) := rfl

@[simp] theorem add_zero (p : Ptr β) : p.add 0 = p := by
  funext i
  simp

@[simp] theorem add_add (p : Ptr β) (j k : Int) : (p.add j).add k = p.add (j + k) := by
  funext i
  simp [Int.add_assoc]

theorem add_update (p : Ptr β) (k t : Int) (v : β) :
    add (Function.update p (k + t) v) k = Function.update (p.add k) t v := by
  funext i
  by_cases h : i = t
  · subst h
    rw [add_apply, Function.update_self, Function.update_self]
  · rw [add_apply, Function.update_of_ne (by omega), Function.update_of_ne h, add_apply]

/-! ### Reading a block -/

/-- The first `n` cells behind a pointer. -/
def read : Ptr β → Nat → List β
  | _, 0 => []
  | p, n + 1 => p 0 :: read (p.add 1) n

@[simp] theorem read_zero (p : Ptr β) : p.read 0 = [] := rfl

theorem read_succ (p : Ptr β) (n : Nat) : p.read (n + 1) = p 0 :: (p.add 1).read n := rfl

@[simp] theorem length_read (p : Ptr β) (n : Nat) : (p.read n).length = n := by
  induction n generalizing p with
  | zero => rfl
  | succ n ih => simp [read_succ, ih]

theorem getElem_read (p : Ptr β) {n i : Nat} (h : i < (p.read n).length) :
    (p.read n)[i] = p i := by
  induction n generalizing p i with
  | zero => simp at h
  | succ n ih =>
    cases i with
    | zero => simp [read_succ]
    | succ i =>
      simp only [read_succ, List.getElem_cons_succ]
      rw [ih]
      simp [Int.add_comm]

theorem getElem?_read (p : Ptr β) (n i : Nat) :
    (p.read n)[i]? = if i < n then some (p i) else none := by
  split
  · rw [List.getElem?_eq_getElem (by simpa using ‹_›), getElem_read]
  · exact List.getElem?_eq_none (by simp; omega)

theorem read_eq_map (p : Ptr β) (n : Nat) : p.read n = (List.range n).map fun i : Nat => p i := by
  refine List.ext_getElem (by simp) fun i h₁ h₂ => ?_
  rw [getElem_read, List.getElem_map, List.getElem_range]

/-- Putting a cell where it stands changes nothing. -/
theorem set_read (p : Ptr β) (n i : Nat) : (p.read n).set i (p i) = p.read n := by
  apply List.ext_getElem?
  intro j
  rw [List.getElem?_set]
  split
  · rename_i hij
    subst hij
    rw [length_read, getElem?_read]
  · rfl

theorem read_congr {p q : Ptr β} {n : Nat} (h : ∀ i : Nat, i < n → p i = q i) :
    p.read n = q.read n := by
  refine List.ext_getElem (by simp) fun i hp hq => ?_
  rw [getElem_read, getElem_read]
  exact h i (by simpa using hp)

/-- Two pointers read the same block exactly when they agree on its cells. -/
theorem read_eq_read_iff {p q : Ptr β} {n : Nat} :
    p.read n = q.read n ↔ ∀ i : Nat, i < n → p i = q i := by
  refine ⟨fun h i hi => ?_, read_congr⟩
  have hi' : (p.read n)[i]? = (q.read n)[i]? := by rw [h]
  rw [getElem?_read, getElem?_read, if_pos hi, if_pos hi] at hi'
  exact Option.some.inj hi'

theorem read_add (p : Ptr β) (m n : Nat) :
    p.read (m + n) = p.read m ++ (p.add m).read n := by
  induction m generalizing p with
  | zero => simp
  | succ m ih =>
    rw [Nat.add_right_comm, read_succ, read_succ, ih, List.cons_append, add_add]
    simp [Int.add_comm]

theorem read_eq_append (p : Ptr β) {m n : Nat} (h : m ≤ n) :
    p.read n = p.read m ++ (p.add m).read (n - m) := by
  rw [← read_add, Nat.add_sub_cancel' h]

/-! ### Writing a block -/

/-- The cells behind `p`, with the elements of `l` in the cells from index `k` on. -/
def write (p : Ptr β) (k : Int) (l : List β) : Ptr β := fun i =>
  if k ≤ i then l[(i - k).toNat]?.getD (p i) else p i

@[simp] theorem write_nil (p : Ptr β) (k : Int) : p.write k [] = p := by
  funext i
  simp [write]

theorem write_of_lt (p : Ptr β) {k i : Int} (l : List β) (h : i < k) : p.write k l i = p i := by
  rw [write, if_neg (by omega)]

theorem write_of_ge (p : Ptr β) {k i : Int} {l : List β} (h : k + l.length ≤ i) :
    p.write k l i = p i := by
  rw [write, if_pos (by omega), List.getElem?_eq_none (by omega), Option.getD_none]

theorem write_add_of_lt (p : Ptr β) (k : Int) {l : List β} {n : Nat} (h : n < l.length) :
    p.write k l (k + n) = l[n] := by
  rw [write, if_pos (by omega), show (k + (n : Int) - k).toNat = n by omega,
    List.getElem?_eq_getElem h, Option.getD_some]

theorem write_zero_of_lt (p : Ptr β) {l : List β} {n : Nat} (h : n < l.length) :
    p.write 0 l n = l[n] := by
  simpa using p.write_add_of_lt 0 h

/-- Two adjacent blocks are one. -/
theorem write_write_append (p : Ptr β) {k k' : Int} {a : List β} (b : List β)
    (h : k' = k + a.length) : (p.write k a).write k' b = p.write k (a ++ b) := by
  subst h
  funext i
  by_cases hk : k ≤ i
  · by_cases ha : i < k + a.length
    · rw [write_of_lt _ _ ha]
      simp only [write, hk, if_true]
      rw [List.getElem?_append_left (by omega)]
    · simp only [write, hk, if_true, show k + (a.length : Int) ≤ i by omega]
      rw [List.getElem?_append_right (by omega), List.getElem?_eq_none (l := a) (by omega)]
      rw [show (i - (k + (a.length : Int))).toNat = (i - k).toNat - a.length by omega]
      simp
  · rw [write_of_lt _ _ (by omega), write_of_lt _ _ (by omega), write_of_lt _ _ (by omega)]

/-- The same when the later block is written first. -/
theorem write_write_prepend (p : Ptr β) {k k' : Int} {a : List β} (b : List β)
    (h : k' = k + a.length) : (p.write k' b).write k a = p.write k (a ++ b) := by
  subst h
  funext i
  by_cases hk : k ≤ i
  · by_cases ha : i < k + a.length
    · have hlt : (i - k).toNat < a.length := by omega
      simp only [write, hk, if_true, List.getElem?_append_left hlt]
      rw [List.getElem?_eq_getElem hlt, Option.getD_some, Option.getD_some]
    · rw [write_of_ge _ (by omega), ← write_write_append p b rfl]
      simp only [write, show k + (a.length : Int) ≤ i by omega, if_true, hk]
      rw [List.getElem?_eq_none (l := a) (by omega), Option.getD_none]
  · rw [write_of_lt _ _ (by omega), write_of_lt _ _ (by omega), write_of_lt _ _ (by omega)]

/-- Blocks that do not overlap are written in any order. -/
theorem write_comm (p : Ptr β) {j k : Int} {a : List β} (b : List β) (h : j + a.length ≤ k) :
    (p.write j a).write k b = (p.write k b).write j a := by
  funext i
  by_cases hi : i < j + a.length
  · rw [write_of_lt _ _ (by omega)]
    simp only [write, show ¬ k ≤ i by omega, if_false]
  · rw [write_of_ge (p.write k b) (by omega)]
    simp only [write, List.getElem?_eq_none (l := a) (show a.length ≤ (i - j).toNat by omega),
      Option.getD_none, ite_self]

/-- A block written over a longer one leaves the end of that one. -/
theorem write_write_zero (p : Ptr β) (a b : List β) :
    (p.write 0 a).write 0 b = p.write 0 (b ++ a.drop b.length) := by
  rw [← write_write_append p (a.drop b.length) rfl]
  funext i
  by_cases hb : i < b.length
  · by_cases h0 : 0 ≤ i
    · obtain ⟨n, rfl⟩ := Int.eq_ofNat_of_zero_le h0
      have hn : n < b.length := by omega
      rw [write_zero_of_lt _ hn, write_of_lt _ _ (by omega), write_zero_of_lt _ hn]
    · rw [write_of_lt _ _ (by omega), write_of_lt _ _ (by omega), write_of_lt _ _ (by omega),
        write_of_lt _ _ (by omega)]
  · have hread : (a.drop b.length)[(i - (0 + b.length)).toNat]? = a[(i - 0).toNat]? := by
      rw [List.getElem?_drop]
      congr 1
      omega
    rw [write_of_ge _ (by omega)]
    simp only [write, show (0 : Int) + b.length ≤ i by omega, show 0 ≤ i by omega, if_true]
    rw [hread, List.getElem?_eq_none (l := b) (by omega), Option.getD_none]

/-- A store behind the block stays behind it. -/
theorem write_zero_update (p : Ptr β) (l : List β) {j : Int} (v : β) (h : (l.length : Int) ≤ j) :
    write (Function.update p j v) 0 l = Function.update (p.write 0 l) j v := by
  funext i
  by_cases hi : i = j
  · subst hi
    rw [write_of_ge _ (by omega), Function.update_self, Function.update_self]
  · rw [Function.update_of_ne hi]
    simp only [write, Function.update_of_ne hi]

/-- A written block is read back, whatever was there before. -/
theorem read_write (p : Ptr β) (k : Int) (l : List β) :
    ((p.write k l).add k).read l.length = l := by
  refine List.ext_getElem (by simp) fun i h₁ h₂ => ?_
  rw [getElem_read, add_apply, write_add_of_lt _ _ h₂]

theorem read_write_zero (p : Ptr β) (l : List β) : (p.write 0 l).read l.length = l := by
  simpa using p.read_write 0 l

/-- Reading inside a written block reads the list. -/
theorem read_add_write_zero (p : Ptr β) {l : List β} {off n : Nat} (h : off + n ≤ l.length) :
    ((p.write 0 l).add off).read n = (l.drop off).take n := by
  refine List.ext_getElem (by simp; omega) fun i h₁ h₂ => ?_
  have hi : i < n := by simpa using h₁
  have hl : off + i < l.length := by omega
  rw [getElem_read, add_apply, List.getElem_take, List.getElem_drop]
  exact p.write_zero_of_lt hl

theorem read_write_zero_of_le (p : Ptr β) {l : List β} {n : Nat} (h : n ≤ l.length) :
    (p.write 0 l).read n = l.take n := by
  have h0 : 0 + n ≤ l.length := by omega
  simpa using p.read_add_write_zero h0

/-- What a written block shows does not depend on what it was written over. -/
theorem write_zero_congr (p q : Ptr β) {l : List β} {i : Nat} (h : i < l.length) :
    p.write 0 l i = q.write 0 l i := by
  rw [write_zero_of_lt p h, write_zero_of_lt q h]

/-- An array initialised with the elements of `l`. -/
def ofList [Inhabited β] (l : List β) : Ptr β := write (fun _ => default) 0 l

@[simp] theorem read_ofList [Inhabited β] (l : List β) : (ofList l).read l.length = l :=
  read_write_zero _ l

end Ptr

/-! ### Objects that are written -/

/-- A writable object: its cells, and (ghost) the indices stored to, the latest first. -/
structure Mem (β : Type) where
  cells : Ptr β
  stores : List Int

namespace Mem

/-- An object that holds `v` everywhere and was never stored to. -/
def filled (v : β) : Mem β where
  cells := fun _ => v
  stores := []

/-- `m[i] = v`. -/
def store (m : Mem β) (i : Int) (v : β) : Mem β where
  cells := Function.update m.cells i v
  stores := i :: m.stores

@[simp] theorem store_cells (m : Mem β) (i : Int) (v : β) :
    (m.store i v).cells = m.cells.write i [v] := by
  funext j
  simp only [store, Function.update_apply, Ptr.write]
  by_cases hj : j = i
  · simp [hj]
  · by_cases hij : i ≤ j
    · have : (j - i).toNat = (j - i).toNat - 1 + 1 := by omega
      rw [if_neg hj, if_pos hij, this]
      simp
    · rw [if_neg hj, if_neg hij]

theorem store_cells_self (m : Mem β) (i : Int) (v : β) : (m.store i v).cells i = v := by
  show Function.update m.cells i v i = v
  rw [Function.update_self]

theorem store_cells_of_ne (m : Mem β) {i j : Int} (v : β) (h : j ≠ i) :
    (m.store i v).cells j = m.cells j := by
  show Function.update m.cells i v j = m.cells j
  rw [Function.update_of_ne h]

/-- `m'` comes from `m` by stores to indices that satisfy `P`. -/
def StoredIn (P : Int → Prop) (m m' : Mem β) : Prop :=
  ∃ new, m'.stores = new ++ m.stores ∧ ∀ i ∈ new, P i

section StoredIn

variable {P : Int → Prop} {m m' m'' : Mem β}

theorem StoredIn.refl (P : Int → Prop) (m : Mem β) : StoredIn P m m := ⟨[], rfl, by simp⟩

theorem StoredIn.trans (h : StoredIn P m m') (h' : StoredIn P m' m'') : StoredIn P m m'' := by
  obtain ⟨new, hstores, hnew⟩ := h
  obtain ⟨new', hstores', hnew'⟩ := h'
  refine ⟨new' ++ new, by rw [hstores', hstores, List.append_assoc], fun i hi => ?_⟩
  rcases List.mem_append.mp hi with hi | hi
  · exact hnew' i hi
  · exact hnew i hi

theorem StoredIn.store (h : StoredIn P m m') {i : Int} (hi : P i) (v : β) :
    StoredIn P m (m'.store i v) :=
  h.trans ⟨[i], rfl, by simpa using hi⟩

theorem StoredIn.imp {Q : Int → Prop} (h : StoredIn P m m') (hpq : ∀ i, P i → Q i) :
    StoredIn Q m m' := by
  obtain ⟨new, hstores, hnew⟩ := h
  exact ⟨new, hstores, fun i hi => hpq i (hnew i hi)⟩

theorem storedIn_store_iff (m : Mem β) (i : Int) (v : β) : StoredIn P m (m.store i v) ↔ P i := by
  constructor
  · rintro ⟨new, hstores, hnew⟩
    have heq : [i] = new := List.append_cancel_right hstores
    exact hnew i (heq ▸ List.mem_singleton_self i)
  · intro hi
    exact (StoredIn.refl P m).store hi v

/-- All stores satisfy `P` when those of both stages do. -/
theorem StoredIn.trans_iff {Q R : Int → Prop} (h : StoredIn Q m m') (h' : StoredIn R m' m'') :
    StoredIn P m m'' ↔ StoredIn P m m' ∧ StoredIn P m' m'' := by
  constructor
  · rintro ⟨new, hstores, hnew⟩
    obtain ⟨new₁, hstores₁, -⟩ := h
    obtain ⟨new₂, hstores₂, -⟩ := h'
    have heq : new₂ ++ new₁ = new := by
      rw [hstores₂, hstores₁, ← List.append_assoc] at hstores
      exact List.append_cancel_right hstores
    subst heq
    exact ⟨⟨new₁, hstores₁, fun i hi => hnew i (List.mem_append_right _ hi)⟩,
      ⟨new₂, hstores₂, fun i hi => hnew i (List.mem_append_left _ hi)⟩⟩
  · rintro ⟨hm, hm'⟩
    exact hm.trans hm'

end StoredIn

/-- `m'` comes from `m` by stores: cells that were not stored to are as they were. -/
def Traced (m m' : Mem β) : Prop :=
  ∃ new, m'.stores = new ++ m.stores ∧ ∀ i, i ∉ new → m'.cells i = m.cells i

section Traced

variable {m m' m'' : Mem β}

theorem Traced.refl (m : Mem β) : Traced m m := ⟨[], rfl, fun _ _ => rfl⟩

theorem Traced.trans (h : Traced m m') (h' : Traced m' m'') : Traced m m'' := by
  obtain ⟨new, hstores, hnew⟩ := h
  obtain ⟨new', hstores', hnew'⟩ := h'
  refine ⟨new' ++ new, by rw [hstores', hstores, List.append_assoc], fun i hi => ?_⟩
  rw [List.mem_append, not_or] at hi
  rw [hnew' i hi.1, hnew i hi.2]

theorem Traced.store (h : Traced m m') (i : Int) (v : β) : Traced m (m'.store i v) := by
  refine h.trans ⟨[i], rfl, fun j hj => store_cells_of_ne m' v ?_⟩
  simpa using hj

/-- A loop of such steps. -/
theorem Traced.fold (h : Traced m m') (f : Nat → Mem β → Mem β)
    (hf : ∀ i m₁, Traced m m₁ → Traced m (f i m₁)) (n : Nat) :
    Traced m (n.fold (fun i _ m₁ => f i m₁) m') := by
  induction n with
  | zero => exact h
  | succ n ih =>
    rw [Nat.fold_succ]
    exact hf n _ ih

/-- Where no store may be, nothing has changed. -/
theorem Traced.cells_eq (h : Traced m m') {P : Int → Prop} (hP : StoredIn P m m') {i : Int}
    (hi : ¬ P i) : m'.cells i = m.cells i := by
  obtain ⟨new, hstores, hnew⟩ := h
  obtain ⟨new', hstores', hnew'⟩ := hP
  obtain rfl : new = new' := List.append_cancel_right (hstores.symm.trans hstores')
  exact hnew i fun hmem => hi (hnew' i hmem)

end Traced

/-- `m[k] = l[0], m[k + 1] = l[1], ..`. -/
def storeAll (m : Mem β) (k : Int) : List β → Mem β
  | [] => m
  | v :: l => (m.store k v).storeAll (k + 1) l

theorem storeAll_concat (m : Mem β) (k : Int) (l : List β) (v : β) :
    m.storeAll k (l ++ [v]) = (m.storeAll k l).store (k + l.length) v := by
  induction l generalizing m k with
  | nil => simp [storeAll]
  | cons w l ih =>
    rw [List.cons_append, storeAll, ih, storeAll, List.length_cons]
    congr 1
    omega

@[simp] theorem storeAll_cells (m : Mem β) (k : Int) (l : List β) :
    (m.storeAll k l).cells = m.cells.write k l := by
  induction l generalizing m k with
  | nil => simp [storeAll]
  | cons v l ih =>
    rw [storeAll, ih, store_cells, Ptr.write_write_append _ _ (by simp), List.singleton_append]

theorem storeAll_storedIn (m : Mem β) (k : Int) (l : List β) :
    StoredIn (fun i => k ≤ i ∧ i < k + l.length) m (m.storeAll k l) := by
  induction l generalizing m k with
  | nil => exact .refl _ m
  | cons v l ih =>
    rw [storeAll, List.length_cons]
    refine StoredIn.trans ?_ ((ih (m.store k v) (k + 1)).imp fun i hi => by omega)
    exact (StoredIn.refl _ m).store (by omega) v

theorem storedIn_storeAll_iff {P : Int → Prop} (m : Mem β) (k : Int) (l : List β) :
    StoredIn P m (m.storeAll k l) ↔ ∀ i : Nat, i < l.length → P (k + i) := by
  induction l generalizing m k with
  | nil => exact iff_of_true (.refl P m) (by simp)
  | cons v l ih =>
    have hfirst : StoredIn (fun _ => True) m (m.store k v) := (StoredIn.refl _ m).store trivial v
    rw [storeAll, hfirst.trans_iff (storeAll_storedIn _ _ l), storedIn_store_iff, ih]
    constructor
    · rintro ⟨hk, hl⟩ i hi
      cases i with
      | zero => simpa using hk
      | succ i =>
        have hi' := hl i (by simpa using hi)
        rwa [show k + 1 + (i : Int) = k + (i + 1 : Nat) by omega] at hi'
    · intro h
      refine ⟨by simpa using h 0 (by simp), fun i hi => ?_⟩
      have hi' := h (i + 1) (by simpa using hi)
      rwa [show k + ((i + 1 : Nat) : Int) = k + 1 + i by omega] at hi'

end Mem

end Memory
