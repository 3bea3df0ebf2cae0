import Ktux.CString
import Ktux.Loops

set_option autoImplicit false

/-!
# `do_printf`

The format scanner of `stdio.c`, with its fall-through states and its shared emission code. `fn` and what
it writes to are a parameter.
-/
namespace Ktux.Printf
open Words Loops ByteMemory CString

def ascii (c : Char) : UInt8 := c.toUInt8

structure Flags where
  prLJ : Bool := false
  prCA : Bool := false
  prSG : Bool := false
  pr32 : Bool := false
  pr64 : Bool := false
  pr16 : Bool := false
  prWS : Bool := false
  prLZ : Bool := false
  prFP : Bool := false
  deriving DecidableEq

/-- The states `0` to `4` of the scanner. -/
inductive State where
  | awaitingPercent | awaitingFlags | awaitingWidth | awaitingModifier | awaitingConversion
  deriving DecidableEq

/-- A helper `fn` with the memory and the pointer that it works on. -/
structure Sink (P : Type) where
  mem : P → ByteMem
  fn : UInt8 → P → P

/-- The local variables of `do_printf`; `args` counts the slots that `va_arg` has taken. -/
structure Scanner (P : Type) where
  fmt : ℕ
  state : State
  flags : Flags
  count : ℕ
  givenWd : ℕ
  args : ℕ
  out : P

/-- `where` points into the local buffer or to an argument's string. -/
inductive Where where
  | buf (xs : List UInt8)
  | str (p : ℕ)

section Model
variable {P : Type} (k : Sink P) (slots : ℕ → ℕ)

def Scanner.char (s : Scanner P) : UInt8 := k.mem s.out s.fmt

def Scanner.emit (c : UInt8) (s : Scanner P) : Scanner P :=
  { s with out := k.fn c s.out, count := wadd s.count 1 }

def Scanner.flag (f : Flags → Flags) (s : Scanner P) : Scanner P := { s with flags := f s.flags }

def Scanner.reset (s : Scanner P) : Scanner P :=
  { s with state := .awaitingPercent, flags := {}, givenWd := 0 }

def Scanner.advance (s : Scanner P) : Scanner P := { s with fmt := wadd s.fmt 1 }

def Where.byte (out : P) (i : ℕ) : Where → UInt8
  | .buf xs => xs.getD i 0
  | .str p => k.mem out (wadd p i)

def strlen (fuel : ℕ) (out : P) (w : Where) : Option ℕ :=
  whileLoop (fun i => w.byte k out i ≠ 0) (fun i => some (wadd i 1)) fuel 0

def Scanner.pad (c : UInt8) (s : Scanner P) : Scanner P :=
  { s with out := k.fn c s.out, count := wadd s.count 1, givenWd := s.givenWd - 1 }

def padLeft (fuel actualWd : ℕ) (s : Scanner P) : Option (Scanner P) :=
  whileLoop (fun s => actualWd < s.givenWd)
    (fun s => some (s.pad k (if s.flags.prLZ then ascii '0' else ascii ' '))) fuel s

def rightJustify (fuel actualWd : ℕ) (s : Scanner P) : Option (Scanner P) :=
  if s.flags.prLJ then some s else padLeft k fuel actualWd s

def padRight (fuel : ℕ) (s : Scanner P) : Option (Scanner P) :=
  whileLoop (fun s => s.givenWd ≠ 0) (fun s => some (s.pad k (ascii ' '))) fuel s

def Where.more (w : Where) (t : ℕ × Scanner P) : Bool := w.byte k t.2.out t.1 ≠ 0

def Where.emitNext (w : Where) (t : ℕ × Scanner P) : ℕ × Scanner P :=
  (wadd t.1 1, t.2.emit k (w.byte k t.2.out t.1))

def emitWhere (fuel : ℕ) (w : Where) (s : Scanner P) : Option (ℕ × Scanner P) :=
  whileLoop (w.more k) (fun t => some (w.emitNext k t)) fuel (0, s)

def Scanner.restWidth (actualWd : ℕ) (s : Scanner P) : Scanner P :=
  { s with givenWd := if s.givenWd < actualWd then 0 else s.givenWd - actualWd }

def emit2 (fuel : ℕ) (w : Where) (actualWd : ℕ) (s : Scanner P) : Option (Scanner P) := do
  let s ← rightJustify k fuel actualWd s
  -- the sign goes behind spaces; `emit` has put it in front of zeros
  let s := if s.flags.prWS && !s.flags.prLZ then s.emit k (ascii '-') else s
  let (_, s) ← emitWhere k fuel w s
  padRight k fuel (s.restWidth actualWd)

def emit (fuel : ℕ) (w : Where) (s : Scanner P) : Option (Scanner P) := do
  let n ← strlen k fuel s.out w
  let actualWd := if s.flags.prWS then wadd n 1 else n
  let s := if s.flags.prWS && s.flags.prLZ then s.emit k (ascii '-') else s
  emit2 k fuel w actualWd s

def digitChar (caps : Bool) (temp : ℕ) : UInt8 :=
  if temp < 10 then UInt8.ofNat temp + ascii '0'
  else if caps then UInt8.ofNat (temp - 10) + ascii 'A'
  else UInt8.ofNat (temp - 10) + ascii 'a'

def convertDigit (radix : ℕ) (caps : Bool) (t : ℕ × List UInt8) : ℕ × List UInt8 :=
  (t.1 / radix, digitChar caps (t.1 % radix) :: t.2)

def convert (fuel radix : ℕ) (caps : Bool) (num : ℕ) : Option (List UInt8) :=
  (doLoop (fun t => some (convertDigit radix caps t)) (fun t => t.1 ≠ 0) fuel (num, [])).map Prod.snd

def signExtend (short : ℕ) : ℕ := if short < 2 ^ 15 then short else wordSize - 2 ^ 16 + short

/-- The `va_arg` of a numeric conversion, as the 32 bits of `num`. -/
def loadNum (s : Scanner P) : ℕ :=
  if s.flags.pr32 then slots s.args
  else if s.flags.pr64 then slots s.args
  else if s.flags.pr16 then
    if s.flags.prSG then signExtend (slots s.args % 2 ^ 16) else slots s.args % 2 ^ 16
  else slots s.args

def Scanner.takeArg (wide : Bool) (s : Scanner P) : Scanner P :=
  { s with args := s.args + if wide then 2 else 1 }

def doNum (fuel radix : ℕ) (s : Scanner P) : Option (Scanner P) := do
  let num := loadNum slots s
  let s := s.takeArg (!s.flags.pr32 && s.flags.pr64)
  let negative := s.flags.prSG && 2 ^ 31 ≤ num
  let s := if negative then s.flag fun f => { f with prWS := true } else s
  let digits ← convert fuel radix s.flags.prCA (if negative then wsub 0 num else num)
  emit k fuel (.buf digits) s

def convertChar (fuel : ℕ) (s : Scanner P) : Option (Scanner P) :=
  let c := s.char k
  if c = ascii 'X' then doNum k slots fuel 16 (s.flag fun f => { f with prCA := true })
  else if c = ascii 'x' ∨ c = ascii 'p' ∨ c = ascii 'n' then doNum k slots fuel 16 s
  else if c = ascii 'd' ∨ c = ascii 'i' then
    doNum k slots fuel 10 (s.flag fun f => { f with prSG := true })
  else if c = ascii 'u' then doNum k slots fuel 10 s
  else if c = ascii 'o' then doNum k slots fuel 8 s
  else if c = ascii 'c' then
    emit2 k fuel (.buf [UInt8.ofNat (slots s.args)]) 1
      ((s.flag fun f => { f with prLZ := false }).takeArg false)
  else if c = ascii 's' then
    emit k fuel (.str (slots s.args)) ((s.flag fun f => { f with prLZ := false }).takeArg false)
  else some s

def scanConversion (fuel : ℕ) (s : Scanner P) : Option (Scanner P) :=
  (convertChar k slots fuel s).map Scanner.reset

def scanModifier (fuel : ℕ) (s : Scanner P) : Option (Scanner P) :=
  let c := s.char k
  if c = ascii 'F' then some (s.flag fun f => { f with prFP := true })
  else if c = ascii 'N' then some s
  else if c = ascii 'L' then some (s.flag fun f => { f with pr64 := true })
  else if c = ascii 'l' then some (s.flag fun f => { f with pr32 := true })
  else if c = ascii 'h' then some (s.flag fun f => { f with pr16 := true })
  -- not a modifier: the same letter is looked at in state 4
  else scanConversion k slots fuel { s with state := .awaitingConversion }

def scanWidth (fuel : ℕ) (s : Scanner P) : Option (Scanner P) :=
  let c := s.char k
  if ascii '0' ≤ c ∧ c ≤ ascii '9' then
    some { s with givenWd := wadd (wmul 10 s.givenWd) (c - ascii '0').toNat }
  else scanModifier k slots fuel { s with state := .awaitingModifier }

def scanFlags (fuel : ℕ) (s : Scanner P) : Option (Scanner P) :=
  let c := s.char k
  if c = ascii '%' then some (s.emit k c).reset
  else if c = ascii '-' then
    -- `%--` is illegal
    if s.flags.prLJ then some s.reset else some (s.flag fun f => { f with prLJ := true })
  else if c = ascii '0' then
    scanWidth k slots fuel
      { s with state := .awaitingWidth, flags := { s.flags with prLZ := true }, fmt := wadd s.fmt 1 }
  else scanWidth k slots fuel { s with state := .awaitingWidth }

/-- One pass of the `for` loop, without its `fmt++`. -/
def scan (fuel : ℕ) (s : Scanner P) : Option (Scanner P) :=
  match s.state with
  | .awaitingPercent =>
    if s.char k ≠ ascii '%' then some (s.emit k (s.char k))
    -- found `%`: the next character is looked at in the same pass
    else scanFlags k slots fuel { s with state := .awaitingFlags, fmt := wadd s.fmt 1 }
  | .awaitingFlags => scanFlags k slots fuel s
  | .awaitingWidth => scanWidth k slots fuel s
  | .awaitingModifier => scanModifier k slots fuel s
  | .awaitingConversion => scanConversion k slots fuel s

/-- An `unsigned` returned as an `int`. -/
def toInt (n : ℕ) : ℤ := if n < 2 ^ 31 then n else n - wordSize

def doPrintf (fuel fmt : ℕ) (out : P) : Option (ℤ × P) :=
  (whileLoop (fun s => s.char k ≠ 0) (fun s => (scan k slots fuel s).map Scanner.advance) fuel
    ⟨fmt, .awaitingPercent, {}, 0, 0, 0, out⟩).map fun s => (toInt s.count, s.out)

end Model

def vsprintfHelp (c : UInt8) (p : ByteMem × ℕ) : ByteMem × ℕ := (Function.update p.1 p.2 c, wadd p.2 1)

def vsprintfSink : Sink (ByteMem × ℕ) := ⟨Prod.fst, vsprintfHelp⟩

def vsprintf (fuel buffer fmt : ℕ) (slots : ℕ → ℕ) (m : ByteMem) : Option (ℤ × ByteMem) :=
  (doPrintf vsprintfSink slots fuel fmt (m, buffer)).map fun (ret, p) =>
    (ret, Function.update p.1 ((buffer + ret) % wordSize).toNat 0)

/-- `va_start` makes the slots those after `fmt`. -/
def sprintf (fuel buffer fmt : ℕ) (slots : ℕ → ℕ) (m : ByteMem) : Option (ℤ × ByteMem) :=
  vsprintf fuel buffer fmt slots m

end Ktux.Printf
