import SantaOS.Std

/-!
# SantaOS.Stdio

The output functions of `stdio.c`. The terminal they are linked with is a parameter: a
type `T` of its states and `terminalWrite`, which in the kernel is the one of `tty.c` and
in the unit test of `stdio.c` appends to a buffer.

A `char *` is a `Ptr Int8`. The loops that look for the end of a string have no bound of
their own, so `printf` has fuel. Without an answer is also a run that takes an argument
which is not there or is of another kind; the C standard does not say what it does.
-/

namespace SantaOS

open Memory Fuel

/-- `'%'` -/
def percentChar : Int8 := 37

/-- `'c'` -/
def cChar : Int8 := 99

/-- `'s'` -/
def sChar : Int8 := 115

/-- `EOF`. `print` never meets it: it passes bytes, and `_putchar` returns its argument. -/
def EOF : Int := -1

/-- A variable argument. -/
inductive Arg
  /-- An `int`, to which a `char` is promoted. -/
  | int (v : Int)
  | str (p : Ptr Int8)

/-- `va_arg(parameters, int)`, with the parameters that are left. -/
def vaArgInt : List Arg → Option (Int × List Arg)
  | .int v :: parameters => some (v, parameters)
  | _ => none

/-- `va_arg(parameters, const char*)`, with the parameters that are left. -/
def vaArgStr : List Arg → Option (Ptr Int8 × List Arg)
  | .str p :: parameters => some (p, parameters)
  | _ => none

section Terminal

variable {T : Type} (terminalWrite : T → Ptr Int8 → Nat → T)

/-- `_putchar`: writes one character and returns its argument. -/
def putchar (terminal : T) (ic : Int) : Int × T :=
  let c := Int8.ofInt ic
  (ic, terminalWrite terminal (Ptr.ofList [c]) 1)

/-- The loop of `print` from `i` on, `n` times round. -/
def printLoop (terminal : T) (bytes : Ptr UInt8) (i : Nat) : Nat → Bool × T
  | 0 => (true, terminal)
  | n + 1 =>
    let (r, terminal) := putchar terminalWrite terminal (bytes i).toNat
    if r = EOF then (false, terminal) else printLoop terminal bytes (i + 1) n

/-- `print`: writes `length` characters as `unsigned char`, until one write fails. -/
def print (terminal : T) (data : Ptr Int8) (length : Nat) : Bool × T :=
  let bytes : Ptr UInt8 := fun i => (data i).toUInt8
  printLoop terminalWrite terminal bytes 0 length

/-- The local variables of `_printf`, and the terminal. -/
structure PrintfVars (T : Type) where
  format : Ptr Int8
  parameters : List Arg
  written : Int
  terminal : T

/-- One pass of the loop of `_printf`. It leaves the loop with the value returned. -/
def printfBody (fuel : Nat) (v : PrintfVars T) : Option ((Int × T) ⊕ PrintfVars T) := do
  let ⟨format, parameters, written, terminal⟩ := v
  if format 0 = 0 then
    return .inl (written, terminal)
  let maxrem := sizeT (INT_MAX - written)
  if format 0 ≠ percentChar ∨ format 1 = percentChar then
    let format := if format 0 = percentChar then format.add 1 else format
    let amount ← scan (fun c => c ≠ 0 ∧ c ≠ percentChar) format fuel 1
    if maxrem < amount then
      return .inl (-1, terminal)
    let (ok, terminal) := print terminalWrite terminal format amount
    if !ok then
      return .inl (-1, terminal)
    return .inr ⟨format.add amount, parameters, written + amount, terminal⟩
  let formatBegunAt := format
  let format := format.add 1
  if format 0 = cChar then
    let format := format.add 1
    let (ic, parameters) ← vaArgInt parameters
    let c := Int8.ofInt ic
    if maxrem = 0 then
      return .inl (-1, terminal)
    let (ok, terminal) := print terminalWrite terminal (Ptr.ofList [c]) 1
    if !ok then
      return .inl (-1, terminal)
    return .inr ⟨format, parameters, written + 1, terminal⟩
  else if format 0 = sChar then
    let format := format.add 1
    let (str, parameters) ← vaArgStr parameters
    let len ← strlen str fuel
    if maxrem < len then
      return .inl (-1, terminal)
    let (ok, terminal) := print terminalWrite terminal str len
    if !ok then
      return .inl (-1, terminal)
    return .inr ⟨format, parameters, written + len, terminal⟩
  else
    let format := formatBegunAt
    let len ← strlen format fuel
    if maxrem < len then
      return .inl (-1, terminal)
    let (ok, terminal) := print terminalWrite terminal format len
    if !ok then
      return .inl (-1, terminal)
    return .inr ⟨format.add len, parameters, written + len, terminal⟩

/-- `_printf`: the value returned and the terminal afterwards. -/
def printf (terminal : T) (format : Ptr Int8) (parameters : List Arg) (fuel : Nat) :
    Option (Int × T) :=
  loop (printfBody terminalWrite) fuel ⟨format, parameters, 0, terminal⟩

/-- `_puts`: the string and a newline. -/
def puts (terminal : T) (string : Ptr Int8) (fuel : Nat) : Option (Int × T) :=
  printf terminalWrite terminal (Ptr.ofList [percentChar, sChar, 10, 0]) [.str string] fuel

end Terminal

end SantaOS
