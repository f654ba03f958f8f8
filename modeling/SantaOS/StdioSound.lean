import Mathlib.Data.List.TakeWhile
import SantaOS.Stdio
import SantaOS.TtySound

/-!
# SantaOS.StdioSound

`_printf` renders its format language. `render` reads a format character by character;
`_printf` takes it in pieces (`Piece`): runs of ordinary characters with the percent sign
of a `%%` in front, single directives, and the rest of the format from an unknown
directive on. Every piece renders to what `render` makes of it (`Piece.render_eq`) and is
what one pass of the loop prints (`printfBody_piece`).

Proof shape: the branches of the loop end alike, in the test of the range that is left and
the printing (`afterPiece_eq`); a pass follows `Piece` case by case; the loop is an induction
on the length of the format (`loop_renders`).

Design points:
* `render` is partial: a format that takes an argument which is not there, or of another
  kind, has no text.
* The range of `int` is part of what is stated. A text that cannot be counted is printed in
  part and -1 returned (`Renders.cut`); that the counter stays in its range is an invariant of
  the passes on any format at all (`inRange_of_reaches`).
-/

namespace SantaOS

open Memory Fuel TextRows

/-! ### The format language -/

/-- What an argument is to its directive. -/
inductive Value
  | char (c : Int8)
  | text (s : List Int8)
  deriving DecidableEq, Repr

/-- The character that the next directive stands for, and the values that are left. -/
def takeChar : List Value → Option (Int8 × List Value)
  | .char c :: values => some (c, values)
  | _ => none

theorem eq_of_takeChar {values values' : List Value} {c : Int8}
    (h : takeChar values = some (c, values')) : values = .char c :: values' := by
  unfold takeChar at h
  split at h
  · obtain ⟨rfl, rfl⟩ := Prod.mk.inj (Option.some.inj h)
    rfl
  · cases h

/-- The string that the next directive stands for, and the values that are left. -/
def takeText : List Value → Option (List Int8 × List Value)
  | .text s :: values => some (s, values)
  | _ => none

theorem eq_of_takeText {values values' : List Value} {s : List Int8}
    (h : takeText values = some (s, values')) : values = .text s :: values' := by
  unfold takeText at h
  split at h
  · obtain ⟨rfl, rfl⟩ := Prod.mk.inj (Option.some.inj h)
    rfl
  · cases h

/-- The text of a format with these values. The first `%` that is not followed by `%`,
`c` or `s` ends the reading, and the format from there on stands for itself. -/
def render : List Int8 → List Value → Option (List Int8)
  | [], _ => some []
  | [c], _ => some [c]
  | c :: d :: f, values =>
    if c ≠ percentChar then (render (d :: f) values).map (c :: ·)
    else if d = percentChar then (render f values).map (percentChar :: ·)
    else if d = cChar then do
      let (x, values) ← takeChar values
      (render f values).map (x :: ·)
    else if d = sChar then do
      let (s, values) ← takeText values
      (render f values).map (s ++ ·)
    else some (c :: d :: f)

/-- The argument holds the value. -/
inductive Passes : Arg → Value → Prop
  | char (v : Int) : Passes (.int v) (.char (Int8.ofInt v))
  | text {p : Ptr Int8} {s : List Int8} (h : IsString p s) : Passes (.str p) (.text s)

/-! ### Pieces -/

/-- `Piece f values text f' values'`: from the format `f` one pass prints `text` and goes
on with `f'`. -/
inductive Piece : List Int8 → List Value → List Int8 → List Int8 → List Value → Prop
  | run {a f : List Int8} {values : List Value} (hne : a ≠ []) (ha : ∀ c ∈ a, c ≠ percentChar)
      (hf : ∀ c ∈ f.head?, c = percentChar) : Piece (a ++ f) values a f values
  | percent {a f : List Int8} {values : List Value} (ha : ∀ c ∈ a, c ≠ percentChar)
      (hf : ∀ c ∈ f.head?, c = percentChar) :
      Piece (percentChar :: percentChar :: (a ++ f)) values (percentChar :: a) f values
  | char (c : Int8) (f : List Int8) (values : List Value) :
      Piece (percentChar :: cChar :: f) (.char c :: values) [c] f values
  | text (s f : List Int8) (values : List Value) :
      Piece (percentChar :: sChar :: f) (.text s :: values) s f values
  | rest {f : List Int8} {values : List Value}
      (hf : ∀ d ∈ f.head?, d ≠ percentChar ∧ d ≠ cChar ∧ d ≠ sChar) :
      Piece (percentChar :: f) values (percentChar :: f) [] values

/-- Ordinary characters are copied. -/
theorem render_run {a : List Int8} (f : List Int8) (values : List Value)
    (ha : ∀ c ∈ a, c ≠ percentChar) : render (a ++ f) values = (render f values).map (a ++ ·) := by
  induction a with
  | nil => simp
  | cons c a ih =>
    have hc : c ≠ percentChar := ha c List.mem_cons_self
    have hrest := ih fun d hd => ha d (List.mem_cons_of_mem c hd)
    cases h : a ++ f with
    | nil =>
      obtain ⟨rfl, rfl⟩ := List.append_eq_nil_iff.mp h
      simp [render]
    | cons d g =>
      rw [h] at hrest
      rw [List.cons_append, h, render, if_pos hc, hrest, Option.map_map]
      rfl

theorem render_percent (f : List Int8) (values : List Value) :
    render (percentChar :: percentChar :: f) values =
      (render f values).map (percentChar :: ·) := by
  rw [render, if_neg (by decide), if_pos rfl]

theorem render_char (c : Int8) (f : List Int8) (values : List Value) :
    render (percentChar :: cChar :: f) (.char c :: values) = (render f values).map (c :: ·) := by
  rw [render, if_neg (by decide), if_neg (by decide), if_pos rfl]
  rfl

theorem render_text (s f : List Int8) (values : List Value) :
    render (percentChar :: sChar :: f) (.text s :: values) = (render f values).map (s ++ ·) := by
  rw [render, if_neg (by decide), if_neg (by decide), if_neg (by decide), if_pos rfl]
  rfl

theorem render_rest {f : List Int8} (values : List Value)
    (hf : ∀ d ∈ f.head?, d ≠ percentChar ∧ d ≠ cChar ∧ d ≠ sChar) :
    render (percentChar :: f) values = some (percentChar :: f) := by
  cases f with
  | nil => rfl
  | cons d f =>
    obtain ⟨hp, hc, hs⟩ := hf d rfl
    rw [render, if_neg (by decide), if_neg hp, if_neg hc, if_neg hs]

namespace Piece

variable {f f' text : List Int8} {values values' : List Value}

/-- **A piece renders to its text.** -/
theorem render_eq (h : Piece f values text f' values') :
    render f values = (render f' values').map (text ++ ·) := by
  cases h with
  | run hne ha hf => exact render_run f' values ha
  | percent ha hf =>
    rw [render_percent, render_run f' values ha, Option.map_map]
    rfl
  | char c => exact render_char c f' values'
  | text => exact render_text text f' values'
  | rest hf => simpa [render] using render_rest values hf

theorem length_lt (h : Piece f values text f' values') : f'.length < f.length := by
  cases h with
  | run hne ha hf =>
    have hpos := List.length_pos_iff.mpr hne
    rw [List.length_append]
    omega
  | percent ha hf =>
    simp only [List.length_cons, List.length_append]
    omega
  | char c =>
    simp only [List.length_cons]
    omega
  | text =>
    simp only [List.length_cons]
    omega
  | rest hf => exact Nat.zero_lt_succ _

/-- A format that can be rendered begins with a piece. -/
theorem exists_of_render (hne : f ≠ []) (h : render f values = some text) :
    ∃ piece f' values', Piece f values piece f' values' := by
  have hsplit (g : List Int8) : ∃ a f', g = a ++ f' ∧ (∀ c ∈ a, c ≠ percentChar) ∧
      ∀ c ∈ f'.head?, c = percentChar := by
    refine ⟨g.takeWhile (· ≠ percentChar), g.dropWhile (· ≠ percentChar),
      List.takeWhile_append_dropWhile.symm, fun c hc => ?_, fun c hc => ?_⟩
    · simpa using List.mem_takeWhile_imp hc
    · have hnot := List.head?_dropWhile_not (· ≠ percentChar) g
      rw [Option.mem_def.mp hc] at hnot
      simpa using hnot
  cases f with
  | nil => exact absurd rfl hne
  | cons c f =>
    by_cases hc : c = percentChar
    · subst hc
      cases f with
      | nil => exact ⟨_, _, _, .rest (by simp)⟩
      | cons d f =>
        by_cases hp : d = percentChar
        · subst hp
          obtain ⟨a, f', rfl, ha, hf'⟩ := hsplit f
          exact ⟨_, _, _, .percent ha hf'⟩
        by_cases hd : d = cChar
        · subst hd
          rw [render, if_neg (by decide), if_neg (by decide), if_pos rfl] at h
          obtain ⟨⟨c, values'⟩, htake, -⟩ := Option.bind_eq_some_iff.mp h
          obtain rfl := eq_of_takeChar htake
          exact ⟨_, _, _, .char c f values'⟩
        by_cases hd : d = sChar
        · subst hd
          rw [render, if_neg (by decide), if_neg (by decide), if_neg (by decide), if_pos rfl] at h
          obtain ⟨⟨s, values'⟩, htake, -⟩ := Option.bind_eq_some_iff.mp h
          obtain rfl := eq_of_takeText htake
          exact ⟨_, _, _, .text s f values'⟩
        · exact ⟨_, _, _, .rest (by simpa using ⟨hp, ‹_›, hd⟩)⟩
    · obtain ⟨a, f', hf, ha, hf'⟩ := hsplit f
      have ha' : ∀ d ∈ c :: a, d ≠ percentChar := List.forall_mem_cons.mpr ⟨hc, ha⟩
      subst hf
      exact ⟨_, _, _, .run (List.cons_ne_nil c a) ha' hf'⟩

end Piece

/-! ### Printing -/

section Terminal

variable {T : Type} (terminalWrite : T → Ptr Int8 → Nat → T)

/-- One character goes to the terminal. -/
def writeChar (terminal : T) (c : Int8) : T := terminalWrite terminal (Ptr.ofList [c]) 1

/-- A text goes to the terminal, character by character. -/
def writeText (terminal : T) (text : List Int8) : T := text.foldl (writeChar terminalWrite) terminal

theorem writeText_append (terminal : T) (a b : List Int8) :
    writeText terminalWrite terminal (a ++ b) =
      writeText terminalWrite (writeText terminalWrite terminal a) b :=
  List.foldl_append

/-- The byte `0xFF` is not taken for `EOF`. -/
theorem putchar_byte (terminal : T) (c : Int8) :
    putchar terminalWrite terminal c.toUInt8.toNat =
      ((c.toUInt8.toNat : Int), writeChar terminalWrite terminal c) := by
  have hchar : Int8.ofInt (c.toUInt8.toNat : Int) = c := by
    apply Int8.toBitVec_inj.mp
    simp
  rw [putchar, hchar, writeChar]

theorem printLoop_eq (terminal : T) (data : Ptr Int8) (i n : Nat) :
    printLoop terminalWrite terminal (fun j => (data j).toUInt8) i n =
      (true, writeText terminalWrite terminal ((data.add i).read n)) := by
  induction n generalizing terminal i with
  | zero => rfl
  | succ n ih =>
    rw [printLoop, putchar_byte]
    have hbyte : ((data i).toUInt8.toNat : Int) ≠ EOF := by
      simp only [EOF]
      omega
    simp only [hbyte, if_false]
    rw [ih, Ptr.read_succ]
    simp [writeText]

theorem print_eq (terminal : T) (data : Ptr Int8) (n : Nat) :
    print terminalWrite terminal data n =
      (true, writeText terminalWrite terminal (data.read n)) := by
  simpa [print] using printLoop_eq terminalWrite terminal data 0 n

/-! ### One pass -/

/-- Where a pass leads that is to print `text`: to its next pass, or out of the loop
because `text` cannot be counted. -/
def afterPiece (v : PrintfVars T) (text : List Int8) (format : Ptr Int8) (parameters : List Arg) :
    (Int × T) ⊕ PrintfVars T :=
  if v.written + text.length ≤ INT_MAX then
    .inr ⟨format, parameters, v.written + text.length, writeText terminalWrite v.terminal text⟩
  else .inl (-1, v.terminal)

/-- The counter of the characters written is in its range. -/
def PrintfVars.InRange (v : PrintfVars T) : Prop := 0 ≤ v.written ∧ v.written ≤ INT_MAX

/-- The end of each branch: the test of the remaining range, and the printing. -/
theorem afterPiece_eq {v : PrintfVars T} (hv : v.InRange) {text : List Int8} {n : Nat}
    (hn : n = text.length) (format : Ptr Int8) (parameters : List Arg) {data : Ptr Int8}
    (hdata : data.read n = text) :
    (if sizeT (INT_MAX - v.written) < n then some (.inl (-1, v.terminal))
      else
        match print terminalWrite v.terminal data n with
        | (ok, terminal) =>
          if (!ok) = true then some (.inl (-1, terminal))
          else some (.inr ⟨format, parameters, v.written + n, terminal⟩)) =
      some (afterPiece terminalWrite v text format parameters) := by
  obtain ⟨h0, hmax⟩ := hv
  have hrange : sizeT (INT_MAX - v.written) < n ↔ ¬ v.written + text.length ≤ INT_MAX := by
    simp only [INT_MAX, sizeT] at hmax ⊢
    omega
  rw [print_eq, hdata, afterPiece]
  by_cases hfits : v.written + text.length ≤ INT_MAX
  · rw [if_neg (by rw [hrange]; exact not_not.mpr hfits), if_pos hfits, hn]
    rfl
  · rw [if_pos (hrange.mpr hfits), if_neg hfits]

/-- The look-ahead over a run of ordinary characters, whatever the first one is. -/
theorem returns_scan_run {p : Ptr Int8} (c : Int8) {a f : List Int8}
    (h : IsString p ([c] ++ (a ++ f))) (ha : ∀ d ∈ a, d ≠ percentChar)
    (hf : ∀ d ∈ f.head?, d = percentChar) :
    Returns (scan (fun d => decide (d ≠ 0 ∧ d ≠ percentChar)) p · 1) (c :: a).length := by
  refine h.returns_scan [c] (fun d hd => ?_) (by decide) (fun d hd => ?_)
  · have hd0 : d ≠ 0 := h.ne_zero (List.mem_append_right _ (List.mem_append_left _ hd))
    simpa using ⟨hd0, ha d hd⟩
  · simp [hf d hd]

/-- **What a pass does**: it prints a piece of the format. -/
theorem printfBody_piece {f f' text : List Int8} {values values' : List Value}
    (h : Piece f values text f' values') {v : PrintfVars T} (hf : IsString v.format f)
    {args rest : List Arg} (hargs : List.Forall₂ Passes args values)
    (hparameters : v.parameters = args ++ rest) (hv : v.InRange) :
    ∃ format' args', IsString format' f' ∧ List.Forall₂ Passes args' values' ∧
      Returns (printfBody terminalWrite · v)
        (afterPiece terminalWrite v text format' (args' ++ rest)) := by
  obtain ⟨format, parameters, written, terminal⟩ := v
  simp only at hf hparameters
  subst hparameters
  cases h with
  | @run a f values hne ha hf' =>
    obtain ⟨c, a, rfl⟩ := List.exists_cons_of_ne_nil hne
    obtain ⟨hcp, ha'⟩ := List.forall_mem_cons.mp ha
    obtain ⟨hread, hrest⟩ := hf.append
    obtain ⟨n, hn⟩ := returns_scan_run c hf ha' hf'
    obtain ⟨hc, hc0, -⟩ := hf
    refine ⟨_, args, hrest, hargs, n, fun fuel hfuel => ?_⟩
    have hscan : scan _ _ _ _ = _ := hn fuel hfuel
    rw [← afterPiece_eq terminalWrite hv rfl _ _ hread]
    simp only [printfBody, hc, hc0, hcp, hscan, ne_eq, not_false_eq_true, true_or, if_true,
      if_false, Option.bind_eq_bind, Option.bind_some]
    rfl
  | @percent a f values ha hf' =>
    obtain ⟨hp, hp0, hf⟩ := hf
    obtain ⟨hread, hrest⟩ := hf.append (a := percentChar :: a)
    obtain ⟨n, hn⟩ := returns_scan_run percentChar hf ha hf'
    have hp' : format 1 = percentChar := hf.1
    refine ⟨_, args, hrest, hargs, n, fun fuel hfuel => ?_⟩
    have hscan : scan _ _ _ _ = _ := hn fuel hfuel
    rw [← afterPiece_eq terminalWrite hv rfl _ _ hread]
    simp only [printfBody, hp, hp0, hp', hscan, or_true, if_true, if_false, Option.bind_eq_bind,
      Option.bind_some]
    rfl
  | char c f values =>
    obtain ⟨hp, hp0, hc, -, hf⟩ := hf
    have hnot : format 1 ≠ percentChar := by
      rw [show format 1 = cChar from hc]
      decide
    cases hargs with
    | cons hpasses hargs =>
      cases hpasses with
      | char ic =>
        refine ⟨_, _, hf, hargs, .of_forall fun fuel => ?_⟩
        have hread := Ptr.read_ofList [Int8.ofInt ic]
        rw [← afterPiece_eq terminalWrite hv rfl _ _ hread]
        simp only [printfBody, hp, hp0, hnot, hc, ne_eq, not_true, or_false, if_true, if_false,
          List.cons_append, vaArgInt, Option.bind_eq_bind, Option.bind_some, List.length_singleton,
          Nat.lt_one_iff]
        rfl
  | text s f values =>
    obtain ⟨hp, hp0, hs, -, hf⟩ := hf
    have hnot : format 1 ≠ percentChar := by
      rw [show format 1 = sChar from hs]
      decide
    have hsc : sChar ≠ cChar := by decide
    cases hargs with
    | cons hpasses hargs =>
      cases hpasses with
      | @text str _ hstr =>
        obtain ⟨n, hn⟩ := returns_strlen hstr
        refine ⟨_, _, hf, hargs, n, fun fuel hfuel => ?_⟩
        rw [← afterPiece_eq terminalWrite hv rfl _ _ hstr.read]
        simp only [printfBody, hp, hp0, hnot, hs, hsc, hn fuel hfuel, ne_eq, not_true, or_false,
          if_true, if_false, List.cons_append, vaArgStr, Option.bind_eq_bind, Option.bind_some]
        rfl
  | @rest f values hf' =>
    obtain ⟨n, hn⟩ := returns_strlen hf
    have hread := hf.read
    have hrest : IsString (format.add (percentChar :: f).length) [] := by
      rw [← List.append_nil (percentChar :: f)] at hf
      exact hf.append.2
    obtain ⟨hp, hp0, hf⟩ := hf
    have hnot : format 1 ≠ percentChar := hf.head_ne (by decide) fun d hd => (hf' d hd).1
    have hc : format.add 1 0 ≠ cChar := hf.head_ne (by decide) fun d hd => (hf' d hd).2.1
    have hs : format.add 1 0 ≠ sChar := hf.head_ne (by decide) fun d hd => (hf' d hd).2.2
    refine ⟨_, args, hrest, hargs, n, fun fuel hfuel => ?_⟩
    rw [← afterPiece_eq terminalWrite hv rfl _ _ hread]
    simp only [printfBody, hp, hp0, hnot, hc, hs, hn fuel hfuel, ne_eq, not_true, or_false,
      if_false, Option.bind_eq_bind, Option.bind_some]
    rfl

/-- The pass at the end of the format returns the counter. -/
theorem printfBody_end {v : PrintfVars T} (h : IsString v.format []) :
    Returns (printfBody terminalWrite · v) (.inl (v.written, v.terminal)) := by
  refine .of_forall fun fuel => ?_
  have hnul : v.format 0 = 0 := h
  simp only [printfBody, hnul, if_true]
  rfl

/-! ### Runs -/

/-- The loop from `v` on renders `text`: it prints all of it if it can be counted, and
otherwise returns -1 behind a part of it. -/
structure Renders (v : PrintfVars T) (text : List Int8) : Prop where
  whole : v.written + text.length ≤ INT_MAX →
    Returns (loop (printfBody terminalWrite) · v)
      (v.written + text.length, writeText terminalWrite v.terminal text)
  cut : INT_MAX < v.written + text.length → ∃ shown, shown <+: text ∧
    Returns (loop (printfBody terminalWrite) · v)
      (-1, writeText terminalWrite v.terminal shown)

theorem loop_renders {f text : List Int8} {values : List Value} (h : render f values = some text)
    {v : PrintfVars T} (hf : IsString v.format f) {args rest : List Arg}
    (hargs : List.Forall₂ Passes args values) (hparameters : v.parameters = args ++ rest)
    (hv : v.InRange) : Renders terminalWrite v text := by
  induction hn : f.length using Nat.strong_induction_on generalizing f text values v args with
  | _ n ih =>
    by_cases hnil : f = []
    · subst hnil
      obtain rfl : [] = text := by simpa [render] using h
      have hend := (printfBody_end terminalWrite hf).loop_exit
      constructor
      · intro _
        simpa [writeText] using hend
      · intro hlt
        obtain ⟨-, hmax⟩ := hv
        simp at hlt
        omega
    · obtain ⟨piece, f', values', hpiece⟩ := Piece.exists_of_render hnil h
      rw [hpiece.render_eq] at h
      obtain ⟨text', htext', rfl⟩ := Option.map_eq_some_iff.mp h
      obtain ⟨format', args', hf', hargs', hpass⟩ :=
        printfBody_piece terminalWrite hpiece hf hargs hparameters hv
      rw [afterPiece] at hpass
      by_cases hfits : v.written + piece.length ≤ INT_MAX
      · rw [if_pos hfits] at hpass
        obtain ⟨h0, -⟩ := hv
        have hv' : PrintfVars.InRange ⟨format', args' ++ rest, v.written + piece.length,
            writeText terminalWrite v.terminal piece⟩ := ⟨by simp only; omega, hfits⟩
        obtain ⟨hwhole', hcut'⟩ :=
          ih f'.length (hn ▸ hpiece.length_lt) htext' hf' hargs' rfl hv' rfl
        simp only at hwhole' hcut'
        constructor
        · intro hwhole
          rw [List.length_append] at hwhole
          have hrest := hwhole' (by omega)
          rw [List.length_append, writeText_append, Int.natCast_add, ← Int.add_assoc]
          exact hpass.loop_next hrest
        · intro hcut
          rw [List.length_append] at hcut
          obtain ⟨shown, hshown, hrest⟩ := hcut' (by omega)
          refine ⟨piece ++ shown, (List.prefix_append_right_inj piece).mpr hshown, ?_⟩
          rw [writeText_append]
          exact hpass.loop_next hrest
      · rw [if_neg hfits] at hpass
        constructor
        · intro hwhole
          rw [List.length_append] at hwhole
          omega
        · intro _
          exact ⟨[], List.nil_prefix, hpass.loop_exit⟩

omit terminalWrite in
/-- The end of each branch, read backwards. -/
theorem written_of_tail {maxrem n : Nat} {written : Int} {terminal : T} {printed : Bool × T}
    {format : Ptr Int8} {parameters : List Arg} {v' : PrintfVars T}
    (h : (if maxrem < n then some (.inl (-1, terminal))
      else
        match printed with
        | (ok, terminal) =>
          if (!ok) = true then some (.inl (-1, terminal))
          else some (.inr ⟨format, parameters, written + n, terminal⟩)) =
      (some (.inr v') : Option ((Int × T) ⊕ PrintfVars T))) :
    v'.written = written + n ∧ n ≤ maxrem := by
  obtain ⟨ok, terminal'⟩ := printed
  split at h
  · cases h
  · rename_i hle
    cases ok with
    | false => cases h
    | true =>
      obtain rfl := Sum.inr.inj (Option.some.inj h)
      exact ⟨rfl, Nat.le_of_not_lt hle⟩

/-- A pass counts no more than there is left to count. -/
theorem printfBody_written {fuel : Nat} {v v' : PrintfVars T}
    (h : printfBody terminalWrite fuel v = some (.inr v')) :
    ∃ n : Nat, v'.written = v.written + n ∧ n ≤ sizeT (INT_MAX - v.written) := by
  obtain ⟨format, parameters, written, terminal⟩ := v
  simp only [printfBody, Option.bind_eq_bind] at h
  split at h
  · cases h
  split at h
  · obtain ⟨amount, -, h⟩ := Option.bind_eq_some_iff.mp h
    exact ⟨amount, written_of_tail h⟩
  split at h
  · obtain ⟨⟨ic, parameters'⟩, -, h⟩ := Option.bind_eq_some_iff.mp h
    simp only [← Nat.lt_one_iff (n := sizeT (INT_MAX - written))] at h
    exact ⟨1, written_of_tail h⟩
  split at h
  · obtain ⟨⟨str, parameters'⟩, -, h⟩ := Option.bind_eq_some_iff.mp h
    obtain ⟨len, -, h⟩ := Option.bind_eq_some_iff.mp h
    exact ⟨len, written_of_tail h⟩
  · obtain ⟨len, -, h⟩ := Option.bind_eq_some_iff.mp h
    exact ⟨len, written_of_tail h⟩

theorem inRange_of_reaches {v v' : PrintfVars T} (hv : v.InRange)
    (h : Reaches (printfBody terminalWrite) v v') : v'.InRange := by
  refine h.invariant hv fun fuel v v' hv hpass => ?_
  obtain ⟨n, hn, hle⟩ := printfBody_written terminalWrite hpass
  obtain ⟨h0, hmax⟩ := hv
  simp only [sizeT, INT_MAX] at hle hmax
  constructor
  · omega
  · rw [INT_MAX]
    omega

theorem inRange_start (terminal : T) (format : Ptr Int8) (parameters : List Arg) :
    (⟨format, parameters, 0, terminal⟩ : PrintfVars T).InRange :=
  ⟨Int.le_refl 0, show (0 : Int) ≤ INT_MAX by decide⟩

/-- A text that can be counted is printed. -/
theorem returns_printf (terminal : T) {format : Ptr Int8} {f text : List Int8}
    {args : List Arg} (rest : List Arg) {values : List Value} (hf : IsString format f)
    (hargs : List.Forall₂ Passes args values) (htext : render f values = some text)
    (hfits : text.length ≤ INT_MAX) :
    Returns (printf terminalWrite terminal format (args ++ rest))
      ((text.length : Int), writeText terminalWrite terminal text) := by
  have hstart := inRange_start terminal format (args ++ rest)
  obtain ⟨hwhole, -⟩ := loop_renders terminalWrite htext hf hargs rfl hstart
  simp only [Int.zero_add] at hwhole
  exact hwhole hfits

/-- **`_printf` renders its format.** With any terminal and any values for the directives
met it returns; it prints the text and returns its length, or, where that length is no
`int`, prints a part of the text and returns -1. In no pass does the counter leave the
range of `int`. -/
theorem printf_renders (terminal : T) (format : Ptr Int8) (f text : List Int8)
    (args rest : List Arg) (values : List Value) (hf : IsString format f)
    (hargs : List.Forall₂ Passes args values) (htext : render f values = some text) :
    (text.length ≤ INT_MAX →
      Returns (printf terminalWrite terminal format (args ++ rest))
        ((text.length : Int), writeText terminalWrite terminal text)) ∧
    (INT_MAX < text.length → ∃ shown, shown <+: text ∧
      Returns (printf terminalWrite terminal format (args ++ rest))
        (-1, writeText terminalWrite terminal shown)) ∧
    ∀ v, Reaches (printfBody terminalWrite) ⟨format, args ++ rest, 0, terminal⟩ v →
      0 ≤ v.written ∧ v.written ≤ INT_MAX := by
  have hstart := inRange_start terminal format (args ++ rest)
  obtain ⟨-, hcut⟩ := loop_renders terminalWrite htext hf hargs rfl hstart
  simp only [Int.zero_add] at hcut
  exact ⟨returns_printf terminalWrite terminal rest hf hargs htext, hcut,
    fun v h => inRange_of_reaches terminalWrite hstart h⟩

/-- `_puts` prints the string and a newline. -/
theorem returns_puts (terminal : T) {string : Ptr Int8} {s : List Int8} (h : IsString string s)
    (hs : s.length + 1 ≤ INT_MAX) :
    Returns (puts terminalWrite terminal string)
      (s.length + 1, writeText terminalWrite terminal (s ++ [10])) := by
  have hformat : IsString (Ptr.ofList [percentChar, sChar, 10, 0]) [percentChar, sChar, 10] := by
    decide
  have htext : render [percentChar, sChar, 10] [.text s] = some (s ++ [10]) := by
    rw [render_text]
    rfl
  have hrun := returns_printf terminalWrite terminal [] hformat (.cons (.text h) .nil)
    htext (by simpa using hs)
  simp only [List.length_append, List.length_singleton, Int.natCast_add] at hrun
  exact hrun

end Terminal

/-- `_printf("[%s] %c [%s]", ss, '-', ss)` of the unit test, with a buffer for the
terminal. -/
theorem printf_renders_unitTest :
    Returns
      (printf (fun bufio data size => bufio ++ data.read size) []
        (Ptr.ofList [91, 37, 115, 93, 32, 37, 99, 32, 91, 37, 115, 93, 0])
        [.str (Ptr.ofList [97, 98, 0]), .int 45, .str (Ptr.ofList [97, 98, 0])])
      (11, [91, 97, 98, 93, 32, 45, 32, 91, 97, 98, 93]) :=
  (printf_renders (fun bufio data size => bufio ++ data.read size) []
    (Ptr.ofList [91, 37, 115, 93, 32, 37, 99, 32, 91, 37, 115, 93, 0])
    [91, 37, 115, 93, 32, 37, 99, 32, 91, 37, 115, 93]
    [91, 97, 98, 93, 32, 45, 32, 91, 97, 98, 93]
    [.str (Ptr.ofList [97, 98, 0]), .int 45, .str (Ptr.ofList [97, 98, 0])] []
    [.text [97, 98], .char 45, .text [97, 98]] (by decide)
    (.cons (.text (by decide)) (.cons (.char 45) (.cons (.text (by decide)) .nil)))
    (by decide)).1 (by decide)

/-! ### On the text screen -/

section Screen

variable {m : Mem UInt8} {t : Tty} {p : Page Int8 80} (h : Follows m t p)

include h

theorem Follows.writeText (text : List Int8) :
    Follows m (writeText terminalWrite t text) (text.foldl (Page.type newlineChar) p) := by
  induction text generalizing t p with
  | nil => exact h
  | cons c text ih =>
    have hchar := h.write (Ptr.ofList [c]) 1
    rw [show (Ptr.ofList [c]).read 1 = [c] from Ptr.read_ofList [c]] at hchar
    exact ih hchar

/-- What `_printf` renders is typed onto the screen. -/
theorem Follows.printf {format : Ptr Int8} {f text : List Int8} {args rest : List Arg}
    {values : List Value} (hf : IsString format f) (hargs : List.Forall₂ Passes args values)
    (htext : render f values = some text) (hfits : text.length ≤ INT_MAX) :
    ∃ t', Returns (printf terminalWrite t format (args ++ rest)) ((text.length : Int), t') ∧
      Follows m t' (text.foldl (Page.type newlineChar) p) := by
  exact ⟨_, returns_printf terminalWrite t rest hf hargs htext hfits, h.writeText text⟩

end Screen

end SantaOS
