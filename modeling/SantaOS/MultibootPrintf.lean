import SantaOS.Lib.TextRing
import SantaOS.MultibootItoa

/-!
# SantaOS.MultibootPrintf

What the multiboot kernel prints and where it stands. `Rolls` relates the screen to a page
that grows without bound: row `r` of the page lies on line `r % 24` of the screen, over
earlier rows. `putchar` keeps it (`Rolls.putchar`), and `printf` is a run of `putchar` on
what its format is rendered to (`printf_rolls`).

Proof shape: a character is one of two steps, `place` and `newline`, and each keeps `Shows`.
A pass of the loop of `printf` prints a front of the text (`existsPass`), with one lemma for
each kind of directive; the loop is an induction on the length of the format.

Design points:
* This screen does not scroll. Behind the last line the cursor goes back to the first, and
  each line shows the latest of its rows.
* `render` follows the source where the character behind a `%` is none it knows: an argument
  is taken and printed as a character.
* `Passes mem` ties an argument to its value in memory. A string may not be part of the
  screen, which is written to while it is read.
-/

namespace SantaOS.Multiboot

open Memory Fuel TextRows Numeral

/-! ### The screen -/

/-- The addresses of the bytes of the screen. -/
def OnVideo (a : Int) : Prop := VIDEO ≤ a ∧ a < VIDEO + COLUMNS * LINES * 2

instance (a : Int) : Decidable (OnVideo a) := inferInstanceAs (Decidable (_ ∧ _))

/-- The character and the attribute in line `y` and column `x`. -/
def cell (m : Mem UInt8) (y x : Nat) : UInt8 × UInt8 :=
  (m.cells (VIDEO + ((x + y * COLUMNS : Nat) : Int) * 2),
    m.cells (VIDEO + ((x + y * COLUMNS : Nat) : Int) * 2 + 1))

/-- What a cell of the page looks like. -/
def shown : Option UInt8 → UInt8 × UInt8
  | some c => (c, ATTRIBUTE)
  | none => (0, 0)

/-- The page after the character `c`. -/
def emit (p : Page UInt8 80) (c : Int) : Page UInt8 80 :=
  if c = 10 ∨ c = 13 then p.newline else p.put (UInt8.ofInt c)

/-- The rows `above ++ [last]` have been written to the screen, and the cursor stands at the
end of them; `mem` is the memory around the screen. -/
structure Shows (mem : Mem UInt8) (v : Video) (above : List (List UInt8)) (last : List UInt8) :
    Prop where
  video : v.video = VIDEO
  row : v.ypos = above.length % LINES
  column : v.xpos = last.length
  cells : ∀ y < LINES, ∀ x < COLUMNS,
    cell v.memory y x = shown (latest LINES (above ++ [last]) y x)
  outside : ∀ a, ¬ OnVideo a → v.memory.cells a = mem.cells a

/-- The page has been written to the screen. -/
def Rolls (mem : Mem UInt8) (v : Video) (p : Page UInt8 80) : Prop := Shows mem v p.above p.last

theorem cell_store (m : Mem UInt8) (c : UInt8) {y x y' x' : Nat} (hx : x < COLUMNS)
    (hx' : x' < COLUMNS) :
    cell ((m.store (VIDEO + ((x + y * COLUMNS : Nat) : Int) * 2) c).store
        (VIDEO + ((x + y * COLUMNS : Nat) : Int) * 2 + 1) ATTRIBUTE) y' x' =
      if y' = y ∧ x' = x then (c, ATTRIBUTE) else cell m y' x' := by
  by_cases h : y' = y ∧ x' = x
  · obtain ⟨rfl, rfl⟩ := h
    rw [if_pos ⟨rfl, rfl⟩, cell, Mem.store_cells_self, Mem.store_cells_of_ne _ _ (by omega),
      Mem.store_cells_self]
  · rw [show COLUMNS = 80 from rfl] at hx hx'
    have hne : x' + y' * COLUMNS ≠ x + y * COLUMNS := by
      rw [show COLUMNS = 80 from rfl]
      omega
    rw [if_neg h, cell, Mem.store_cells_of_ne _ _ (by omega), Mem.store_cells_of_ne _ _ (by omega),
      Mem.store_cells_of_ne _ _ (by omega), Mem.store_cells_of_ne _ _ (by omega), cell]

/-- The character goes to the cursor. -/
def place (v : Video) (c : UInt8) : Video :=
  let cell := v.video + (v.xpos + v.ypos * COLUMNS : Nat) * 2
  { v with
    memory := (v.memory.store cell c).store (cell + 1) ATTRIBUTE
    xpos := v.xpos + 1 }

theorem putchar_of_newline {c : Int} (hc : c = 10 ∨ c = 13) (v : Video) :
    putchar v c = newline v := if_pos hc

theorem putchar_of_not_newline {c : Int} (hc : ¬ (c = 10 ∨ c = 13)) (v : Video) :
    putchar v c =
      if v.xpos + 1 ≥ COLUMNS then newline (place v (UInt8.ofInt c))
      else place v (UInt8.ofInt c) := if_neg hc

section Shows

variable {mem : Mem UInt8} {v : Video} {above : List (List UInt8)} {last : List UInt8}
  (h : Shows mem v above last)

include h

theorem Shows.newline : Shows mem (newline v) (above ++ [last]) [] where
  video := h.video
  row := by
    have hrow := h.row
    rw [List.length_append, List.length_singleton]
    show (if v.ypos + 1 ≥ LINES then 0 else v.ypos + 1) = _
    rw [show LINES = 24 from rfl] at *
    split <;> omega
  column := rfl
  cells := by
    intro y hy x hx
    rw [latest_concat_nil]
    exact h.cells y hy x hx
  outside := h.outside

theorem Shows.place (hlast : last.length < COLUMNS) (c : UInt8) :
    Shows mem (place v c) above (last ++ [c]) where
  video := h.video
  row := h.row
  column := by
    rw [List.length_append, List.length_singleton, ← h.column]
    rfl
  cells := by
    intro y hy x hx
    rw [Multiboot.place, h.video, h.column, h.row, cell_store _ _ hlast hx, latest_concat_concat,
      h.cells y hy x hx]
    split <;> rfl
  outside := by
    intro a ha
    have hrow : above.length % LINES < LINES := Nat.mod_lt _ (by decide)
    have hcell : last.length + above.length % LINES * COLUMNS < COLUMNS * LINES := by
      simp only [COLUMNS, LINES] at *
      omega
    rw [Multiboot.place, h.video, h.column, h.row]
    simp only [OnVideo] at ha
    rw [Mem.store_cells_of_ne _ _ (by omega), Mem.store_cells_of_ne _ _ (by omega)]
    exact h.outside a ha

end Shows

section Rolls

variable {mem : Mem UInt8} {v : Video} {p : Page UInt8 80} (h : Rolls mem v p)

include h

/-- **Step lemma**: one character. -/
theorem Rolls.putchar (c : Int) : Rolls mem (putchar v c) (emit p c) := by
  rw [emit]
  by_cases hc : c = 10 ∨ c = 13
  · rw [putchar_of_newline hc, if_pos hc]
    exact Shows.newline h
  · have hplace := Shows.place h p.last_length (UInt8.ofInt c)
    have hcolumn := h.column
    rw [putchar_of_not_newline hc, if_neg hc, hcolumn, show COLUMNS = 80 from rfl]
    by_cases hfull : p.last.length + 1 = 80
    · obtain ⟨habove, hlast⟩ := Page.put_of_eq (c := UInt8.ofInt c) hfull
      rw [if_pos (by omega), Rolls, habove, hlast]
      exact hplace.newline
    · obtain ⟨habove, hlast⟩ := Page.put_of_ne (c := UInt8.ofInt c) hfull
      have hlt := p.last_length
      rw [if_neg (by omega), Rolls, habove, hlast]
      exact hplace

/-- Run lemma: any characters. -/
theorem Rolls.foldl (text : List Int) :
    Rolls mem (text.foldl Multiboot.putchar v) (text.foldl emit p) := by
  induction text generalizing v p with
  | nil => exact h
  | cons c text ih => exact ih (h.putchar c)

end Rolls

/-! ### Clearing -/

/-- The first `n` passes of the loop of `cls`. -/
theorem cells_blank (m : Mem UInt8) (n : Nat) (a : Int) :
    (n.fold (fun i _ m => m.store (VIDEO + i) 0) m).cells a =
      if VIDEO ≤ a ∧ a < VIDEO + n then 0 else m.cells a := by
  induction n with
  | zero => rw [Nat.fold_zero, if_neg (by omega)]
  | succ n ih =>
    rw [Nat.fold_succ]
    by_cases ha : a = VIDEO + n
    · rw [ha, Mem.store_cells_self, if_pos (by omega)]
    · rw [Mem.store_cells_of_ne _ _ ha, ih]
      split
      · rw [if_pos (by omega)]
      · rw [if_neg (by omega)]

theorem rolls_cls (v : Video) :
    Rolls v.memory (cls v) (Page.empty (show 0 < 80 by decide)) where
  video := rfl
  row := rfl
  column := rfl
  cells := by
    intro y hy x hx
    have hin : x + y * COLUMNS < COLUMNS * LINES := by
      simp only [COLUMNS, LINES] at *
      omega
    show cell ((COLUMNS * LINES * 2).fold (fun i _ m => m.store (VIDEO + i) 0) v.memory) y x = _
    rw [cell, cells_blank, cells_blank, if_pos (by omega), if_pos (by omega)]
    show (0, 0) = shown (latest LINES ([] ++ [[]]) y x)
    rw [latest_concat_nil]
    rfl
  outside := by
    intro a ha
    rw [OnVideo] at ha
    exact (cells_blank v.memory (COLUMNS * LINES * 2) a).trans (if_neg (by omega))

/-! ### The format language -/

/-- What an argument is to its directive. -/
inductive Value
  | word (w : UInt32)
  | text (s : List Int8)

/-- The word that the next directive stands for, and the values that are left. -/
def takeWord : List Value → Option (UInt32 × List Value)
  | .word w :: values => some (w, values)
  | _ => none

/-- The string that the next directive stands for, and the values that are left. -/
def takeText : List Value → Option (List Int8 × List Value)
  | .text s :: values => some (s, values)
  | _ => none

/-- The text of a format with these values. A `%` in front of any other character takes a
word too and prints it as a character. A format that ends with a `%` has no text: the code
reads behind its zero. -/
def render : List Int8 → List Value → Option (List Int)
  | [], _ => some []
  | [c], _ => if c = percentChar then none else some [c.toInt]
  | c :: d :: f, values =>
    if c ≠ percentChar then (render (d :: f) values).map (c.toInt :: ·)
    else if d = dChar ∨ d = uChar ∨ d = xChar then do
      let (w, values) ← takeWord values
      (render f values).map ((numeral d w.toInt32).map Int8.toInt ++ ·)
    else if d = sChar then do
      let (s, values) ← takeText values
      (render f values).map (s.map Int8.toInt ++ ·)
    else do
      let (w, values) ← takeWord values
      (render f values).map (w.toInt32.toInt :: ·)

/-- In this memory the argument holds the value. A string is not part of the screen. -/
inductive Passes (mem : Mem UInt8) : UInt32 → Value → Prop
  | word (w : UInt32) : Passes mem w (.word w)
  | null : Passes mem 0 (.text (chars "(null)"))
  | text {a : UInt32} {s : List Int8} (ha : a ≠ 0)
      (hs : IsString (fun i => (mem.cells (a.toNat + i)).toInt8) s)
      (hout : ∀ i : Nat, i ≤ s.length → ¬ OnVideo (a.toNat + i)) : Passes mem a (.text s)

/-- The screen after these characters. -/
def putAll (v : Video) (text : List Int) : Video := text.foldl putchar v

theorem putAll_append (v : Video) (a b : List Int) :
    putAll v (a ++ b) = putAll (putAll v a) b :=
  List.foldl_append

/-! ### Strings -/

section Strings

variable {mem : Mem UInt8}

/-- A string that stays where it is while the screen is written to is printed. -/
theorem returns_putString {ptr : CharPtr} {s : List Int8}
    (hs : ∀ v p, Rolls mem v p → IsString (ptr v) s) {v : Video} {p : Page UInt8 80}
    (h : Rolls mem v p) : Returns (putString ptr · v) (putAll v (s.map Int8.toInt)) := by
  suffices key : ∀ (b a : List Int8), s = a ++ b → ∀ v p, Rolls mem v p →
      Returns (loop (fun _ (iv : Nat × Video) =>
        some (if ptr iv.2 iv.1 = 0 then .inl iv.2
          else .inr (iv.1 + 1, putchar iv.2 (ptr iv.2 iv.1).toInt))) · (a.length, v))
        (putAll v (b.map Int8.toInt)) from key s [] rfl v p h
  intro b
  induction b with
  | nil =>
    intro a ha v p h
    have hnul : ((ptr v).add a.length) 0 = 0 := (ha ▸ hs v p h).append.2
    rw [Ptr.add_apply, Int.add_zero] at hnul
    refine Returns.loop_exit (.of_forall fun fuel => ?_)
    simp only [hnul, if_true]
    rfl
  | cons c b ih =>
    intro a ha v p h
    obtain ⟨hc, hc0, -⟩ := (ha ▸ hs v p h).append.2
    rw [Ptr.add_apply, Int.add_zero] at hc
    refine Returns.loop_next (.of_forall fun fuel => ?_)
      (ih (a ++ [c]) (by simp [ha]) (putchar v c.toInt) _ (h.putchar c.toInt))
    simp only [hc, hc0, if_false, List.length_append, List.length_singleton]

/-- The string of an argument does not move. -/
theorem isString_of_passes {a : UInt32} {s : List Int8} (h : Passes mem a (.text s)) {v : Video}
    {p : Page UInt8 80} (hv : Rolls mem v p) :
    IsString ((if a = 0 then fun _ => literal "(null)" else atAddress a) v) s := by
  cases h with
  | null => exact isString_literal (by decide +kernel)
  | text ha hs hout =>
    rw [if_neg ha]
    exact hs.congr fun i hi => congrArg UInt8.toInt8 (hv.outside _ (hout i hi))

end Strings

/-! ### printf -/

section Printf

variable {mem : Mem UInt8}

theorem eq_of_takeWord {values values' : List Value} {w : UInt32}
    (h : takeWord values = some (w, values')) : values = .word w :: values' := by
  unfold takeWord at h
  split at h
  · obtain ⟨rfl, rfl⟩ := Prod.mk.inj (Option.some.inj h)
    rfl
  · cases h

theorem eq_of_takeText {values values' : List Value} {s : List Int8}
    (h : takeText values = some (s, values')) : values = .text s :: values' := by
  unfold takeText at h
  split at h
  · obtain ⟨rfl, rfl⟩ := Prod.mk.inj (Option.some.inj h)
    rfl
  · cases h

/-- An ordinary character. -/
theorem render_cons {c : Int8} (hc : c ≠ percentChar) (f : List Int8) (values : List Value) :
    render (c :: f) values = (render f values).map (c.toInt :: ·) := by
  cases f with
  | nil => simp [render, hc]
  | cons d f => rw [render, if_pos hc]

/-- Characters in front of the first directive. -/
theorem render_append {a : List Int8} (ha : percentChar ∉ a) (f : List Int8)
    (values : List Value) :
    render (a ++ f) values = (render f values).map (a.map Int8.toInt ++ ·) := by
  induction a with
  | nil => simp
  | cons c a ih =>
    obtain ⟨hc, ha⟩ := List.ne_and_not_mem_of_not_mem_cons ha
    rw [List.cons_append, render_cons (Ne.symm hc), ih ha, Option.map_map]
    rfl

theorem render_x (f : List Int8) (w : UInt32) (values : List Value) :
    render (percentChar :: xChar :: f) (.word w :: values) =
      (render f values).map (((digits 16 w.toNat).map digitChar).map Int8.toInt ++ ·) := by
  have hnum : xChar = dChar ∨ xChar = uChar ∨ xChar = xChar := .inr (.inr rfl)
  rw [render, if_neg (not_not.mpr rfl), if_pos hnum]
  rfl

/-- The pass over an ordinary character. -/
theorem printfBody_char {format : Ptr Int8} (h0 : format 0 ≠ 0) (hp : format 0 ≠ percentChar)
    (args : List UInt32) (buf : Mem Int8) (v : Video) :
    Returns (printfBody · ⟨format, args, buf, v⟩)
      (.inr ⟨format.add 1, args, buf, putchar v (format 0).toInt⟩) := by
  refine .of_forall fun fuel => ?_
  simp only [printfBody, if_neg h0, if_pos hp]
  rfl

section Directives

variable {format : Ptr Int8} (hp : format 0 = percentChar) {d : Int8} (hd : format 1 = d)
  (arg : UInt32) (args : List UInt32) (buf : Mem Int8) {v v' : Video}

include hp hd

theorem printfBody_numeral (hnum : d = dChar ∨ d = uChar ∨ d = xChar)
    (h : Returns (putString (fun _ => (itoa buf d arg.toInt32).cells) · v) v') :
    Returns (printfBody · ⟨format, arg :: args, buf, v⟩)
      (.inr ⟨(format.add 1).add 1, args, itoa buf d arg.toInt32, v'⟩) := by
  obtain ⟨n, hn⟩ := h
  refine ⟨n, fun fuel hfuel => ?_⟩
  have hzero : percentChar ≠ 0 := by decide
  have hrun := hn fuel hfuel
  simp only [printfBody, hp, if_neg hzero, Ptr.add_apply, Int.add_zero, hd, if_pos hnum, hrun]
  rfl

theorem printfBody_string (hs : d = sChar)
    (h : Returns (putString (if arg = 0 then fun _ => literal "(null)" else atAddress arg) · v)
      v') :
    Returns (printfBody · ⟨format, arg :: args, buf, v⟩)
      (.inr ⟨(format.add 1).add 1, args, buf, v'⟩) := by
  obtain ⟨n, hn⟩ := h
  refine ⟨n, fun fuel hfuel => ?_⟩
  have hzero : percentChar ≠ 0 := by decide
  have hnum : ¬ (d = dChar ∨ d = uChar ∨ d = xChar) := by
    rw [hs]
    decide
  have hrun := hn fuel hfuel
  simp only [printfBody, hp, if_neg hzero, Ptr.add_apply, Int.add_zero, hd, if_neg hnum, if_pos hs,
    hrun]
  rfl

theorem printfBody_other (hnum : ¬ (d = dChar ∨ d = uChar ∨ d = xChar)) (hs : d ≠ sChar) :
    Returns (printfBody · ⟨format, arg :: args, buf, v⟩)
      (.inr ⟨(format.add 1).add 1, args, buf, putchar v arg.toInt32.toInt⟩) := by
  refine .of_forall fun fuel => ?_
  have hzero : percentChar ≠ 0 := by decide
  simp only [printfBody, hp, if_neg hzero, Ptr.add_apply, Int.add_zero, hd, if_neg hnum, if_neg hs]
  rfl

end Directives

section Pass

variable {text : List Int} {format : Ptr Int8} {args : List UInt32} {values : List Value}
  (rest : List UInt32) (buf : Mem Int8) {v : Video} {p : Page UInt8 80}

/-- One pass of the loop prints the front of the text; what it leaves of the format and of
the arguments stands for the rest of it. -/
def ExistsPass (mem : Mem UInt8) (vars : PrintfVars) (n : Nat) (text : List Int)
    (rest : List UInt32) : Prop :=
  ∃ (shown text' : List Int) (f : List Int8) (values : List Value) (args : List UInt32)
    (format : Ptr Int8) (buf : Mem Int8),
    text = shown ++ text' ∧ f.length < n ∧ render f values = some text' ∧ IsString format f ∧
      List.Forall₂ (Passes mem) args values ∧
      Returns (printfBody · vars) (.inr ⟨format, args ++ rest, buf, putAll vars.video shown⟩)

/-- The pass over a directive. -/
theorem existsPass_directive {d : Int8} {f : List Int8} (hp : format 0 = percentChar)
    (hd : format 1 = d) (htext : render (percentChar :: d :: f) values = some text)
    (hf : IsString ((format.add 1).add 1) f) (hargs : List.Forall₂ (Passes mem) args values)
    (h : Rolls mem v p) :
    ExistsPass mem ⟨format, args ++ rest, buf, v⟩ (f.length + 2) text rest := by
  have hlt : f.length < f.length + 2 := by omega
  rw [render, if_neg (not_not.mpr rfl)] at htext
  by_cases hnum : d = dChar ∨ d = uChar ∨ d = xChar
  · rw [if_pos hnum] at htext
    obtain ⟨⟨w, values'⟩, htake, htext⟩ := Option.bind_eq_some_iff.mp htext
    obtain ⟨text', hrest, rfl⟩ := Option.map_eq_some_iff.mp htext
    obtain rfl := eq_of_takeWord htake
    obtain _ | ⟨hpasses, hargs⟩ := hargs
    cases hpasses
    have hstring := returns_putString (fun _ _ _ => (isString_itoa buf d w.toInt32).1) h
    exact ⟨_, _, f, _, _, _, _, rfl, hlt, hrest, hf, hargs,
      printfBody_numeral hp hd w _ buf hnum hstring⟩
  rw [if_neg hnum] at htext
  by_cases hs : d = sChar
  · rw [if_pos hs] at htext
    obtain ⟨⟨s, values'⟩, htake, htext⟩ := Option.bind_eq_some_iff.mp htext
    obtain ⟨text', hrest, rfl⟩ := Option.map_eq_some_iff.mp htext
    obtain rfl := eq_of_takeText htake
    obtain _ | ⟨hpasses, hargs⟩ := hargs
    have hstring := returns_putString (fun _ _ => isString_of_passes hpasses) h
    exact ⟨_, _, f, _, _, _, buf, rfl, hlt, hrest, hf, hargs,
      printfBody_string hp hd _ _ buf hs hstring⟩
  · rw [if_neg hs] at htext
    obtain ⟨⟨w, values'⟩, htake, htext⟩ := Option.bind_eq_some_iff.mp htext
    obtain ⟨text', hrest, rfl⟩ := Option.map_eq_some_iff.mp htext
    obtain rfl := eq_of_takeWord htake
    obtain _ | ⟨hpasses, hargs⟩ := hargs
    cases hpasses
    exact ⟨[w.toInt32.toInt], _, f, _, _, _, buf, rfl, hlt, hrest, hf, hargs,
      printfBody_other hp hd w _ buf hnum hs⟩

/-- **Step lemma**: one pass of the loop of `printf`. -/
theorem existsPass {c : Int8} {f : List Int8} (htext : render (c :: f) values = some text)
    (hf : IsString format (c :: f)) (hargs : List.Forall₂ (Passes mem) args values)
    (h : Rolls mem v p) :
    ExistsPass mem ⟨format, args ++ rest, buf, v⟩ (c :: f).length text rest := by
  obtain ⟨hc, hc0, hf⟩ := hf
  by_cases hp : c = percentChar
  swap
  · rw [render_cons hp] at htext
    obtain ⟨text', hrest, rfl⟩ := Option.map_eq_some_iff.mp htext
    have hpass := printfBody_char (hc ▸ hc0) (hc ▸ hp) (args ++ rest) buf v
    rw [hc] at hpass
    exact ⟨[c.toInt], _, f, _, _, _, buf, rfl, Nat.lt_succ_self _, hrest, hf, hargs, hpass⟩
  subst hp
  cases f with
  | nil => simp [render] at htext
  | cons d f =>
    obtain ⟨hd, -, hf⟩ := hf
    exact existsPass_directive rest buf hc hd htext hf hargs h

/-- Run lemma: the loop of `printf`. -/
theorem returns_printfLoop {f : List Int8} (htext : render f values = some text)
    (hf : IsString format f) (hargs : List.Forall₂ (Passes mem) args values)
    (h : Rolls mem v p) :
    Returns (loop printfBody · ⟨format, args ++ rest, buf, v⟩) (putAll v text) := by
  induction hn : f.length using Nat.strong_induction_on generalizing f values text format args
    buf v p with
  | _ n ih =>
    cases f with
    | nil =>
      obtain rfl : [] = text := by simpa [render] using htext
      have hnul : format 0 = 0 := hf
      refine Returns.loop_exit (.of_forall fun fuel => ?_)
      simp only [printfBody, if_pos hnul]
      rfl
    | cons c f =>
      obtain ⟨shown, text', f', values', args', format', buf', rfl, hlt, hrest, hf', hargs',
        hpass⟩ := existsPass rest buf htext hf hargs h
      rw [putAll_append]
      exact hpass.loop_next (ih f'.length (hn ▸ hlt) buf' hrest hf' hargs' (h.foldl shown) rfl)

end Pass

theorem stable_putString (ptr : CharPtr) (v : Video) : Stable (putString ptr · v) := by
  refine Stable.loop (fun iv => ?_) _
  exact stable_const _

/-- With more fuel `printf` prints the same. -/
theorem stable_printf (v : Video) (format : String) (args : List UInt32) :
    Stable (printf v format args) := by
  refine Stable.loop (fun vars => ?_) _
  obtain ⟨format, args, buf, v⟩ := vars
  simp only [printfBody]
  split
  · exact stable_const _
  split
  · exact stable_const _
  cases args with
  | nil => exact stable_const _
  | cons arg args =>
    dsimp only
    split
    · exact (stable_putString _ v).bind fun _ => stable_const _
    split
    · exact (stable_putString _ v).bind fun _ => stable_const _
    · exact stable_const _

/-- **`printf`**: the call prints the text of its format, and a page on the screen rolls on
by this text. -/
theorem printf_rolls {format : String} {values : List Value} {text : List Int}
    (hzero : 0 ∉ chars format) (htext : render (chars format) values = some text)
    {args : List UInt32} (rest : List UInt32) (hargs : List.Forall₂ (Passes mem) args values)
    {v : Video} {p : Page UInt8 80} (h : Rolls mem v p) :
    Returns (printf v format (args ++ rest)) (putAll v text) ∧
      Rolls mem (putAll v text) (text.foldl emit p) :=
  ⟨returns_printfLoop rest v.stack htext (isString_literal hzero) hargs h, h.foldl text⟩

/-- The screen of a computer that has been started, with `hi` in memory. -/
def bootVideo : Video :=
  ⟨24, 79, 0, ⟨Ptr.write (fun _ => 0xFF) 0x2000 [104, 105, 0], []⟩, .filled 1⟩

/-- A string, no string and a negative number. -/
theorem printf_rolls_hi :
    Returns (printf (cls bootVideo) "%s%s%d" [0x2000, 0, 0xFFFFFFFF])
        (putAll (cls bootVideo) [104, 105, 40, 110, 117, 108, 108, 41, 45, 49]) ∧
      Rolls bootVideo.memory
        (putAll (cls bootVideo) [104, 105, 40, 110, 117, 108, 108, 41, 45, 49])
        (List.foldl emit (Page.empty (show 0 < 80 by decide))
          [104, 105, 40, 110, 117, 108, 108, 41, 45, 49]) := by
  have hargs : List.Forall₂ (Passes bootVideo.memory) [0x2000, 0, 0xFFFFFFFF]
      [.text [104, 105], .text (chars "(null)"), .word 0xFFFFFFFF] :=
    .cons (.text (by decide) (by decide) (by decide)) (.cons .null (.cons (.word _) .nil))
  exact printf_rolls (by decide +kernel) (by decide +kernel) [] hargs (rolls_cls bootVideo)

end Printf

end SantaOS.Multiboot
