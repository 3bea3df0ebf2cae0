import Ktux.Printf
import Mathlib.Data.Nat.Digits.Defs

set_option autoImplicit false

/-!
# A reference formatter

What a format string means: a list of items, each with its own text, laid out in fields.
-/
namespace Ktux.FormatReference
open Words Printf

inductive Conversion where
  | upperHex | hex | pointer | written | decimal | integer | unsigned | octal | char | string
  deriving DecidableEq

def Conversion.letter : Conversion → UInt8
  | upperHex => ascii 'X'
  | hex => ascii 'x'
  | pointer => ascii 'p'
  | written => ascii 'n'
  | decimal => ascii 'd'
  | integer => ascii 'i'
  | unsigned => ascii 'u'
  | octal => ascii 'o'
  | char => ascii 'c'
  | string => ascii 's'

def Conversion.signed : Conversion → Bool
  | decimal | integer => true
  | _ => false

def Conversion.caps : Conversion → Bool
  | upperHex => true
  | _ => false

def Conversion.radix : Conversion → ℕ
  | decimal | integer | unsigned => 10
  | octal => 8
  | _ => 16

inductive Modifier where
  | far | near | long | short
  deriving DecidableEq

def Modifier.letter : Modifier → UInt8
  | far => ascii 'F'
  | near => ascii 'N'
  | long => ascii 'l'
  | short => ascii 'h'

/-- `% [-] [0] [width] [modifiers] conversion`. -/
structure Directive where
  left : Bool
  zero : Bool
  width : List (Fin 10)
  modifiers : List Modifier
  conversion : Conversion

def widthLetter (d : Fin 10) : UInt8 := UInt8.ofNat (48 + d.val)

def widthValue (ds : List (Fin 10)) : ℕ := ds.foldl (fun n d => 10 * n + d.val) 0

def Directive.letters (d : Directive) : List UInt8 :=
  (if d.left then [ascii '-'] else []) ++ ((if d.zero then [ascii '0'] else []) ++
    (d.width.map widthLetter ++ (d.modifiers.map Modifier.letter ++ [d.conversion.letter])))

/-- A width that starts with `0` would be the flag. -/
structure Directive.WellFormed (d : Directive) : Prop where
  width_lt : widthValue d.width < wordSize
  width_head : d.zero = false → d.width.head? ≠ some 0

inductive Item where
  | literal (c : UInt8)
  | percent
  | directive (d : Directive)

def Item.letters : Item → List UInt8
  | literal c => [c]
  | percent => [ascii '%', ascii '%']
  | directive d => ascii '%' :: d.letters

def Item.WellFormed : Item → Prop
  | literal c => c ≠ 0 ∧ c ≠ ascii '%'
  | percent => True
  | directive d => d.WellFormed

def formatText (items : List Item) : List UInt8 := items.flatMap Item.letters

/-- An argument slot, and the string that it points to under `%s`. -/
structure Arg where
  slot : ℕ
  text : List UInt8

def digit (caps : Bool) (d : ℕ) : UInt8 :=
  ascii ((if caps then "0123456789ABCDEF" else "0123456789abcdef").toList.getD d '0')

def digits (caps : Bool) (radix n : ℕ) : List UInt8 :=
  if n = 0 then [ascii '0'] else ((Nat.digits radix n).map (digit caps)).reverse

/-- A field: the body behind its sign, padded to the width. -/
def layout (left zero negative : Bool) (width : ℕ) (body : List UInt8) : List UInt8 :=
  let sign := if negative then [ascii '-'] else []
  let fill := width - (sign ++ body).length
  if left then sign ++ body ++ List.replicate fill (ascii ' ')
  else if zero then sign ++ List.replicate fill (ascii '0') ++ body
  else List.replicate fill (ascii ' ') ++ (sign ++ body)

def Directive.bits (d : Directive) : ℕ :=
  if Modifier.short ∈ d.modifiers ∧ Modifier.long ∉ d.modifiers then 16 else 32

/-- The number that a numeric conversion shows. -/
def Directive.value (d : Directive) (a : Arg) : ℤ :=
  let v := a.slot % 2 ^ d.bits
  if d.conversion.signed ∧ 2 ^ (d.bits - 1) ≤ v then (v : ℤ) - 2 ^ d.bits else v

def Directive.render (d : Directive) (a : Arg) : List UInt8 :=
  match d.conversion with
  | .char => layout d.left false false (widthValue d.width) [UInt8.ofNat a.slot]
  | .string => layout d.left false false (widthValue d.width) a.text
  | conversion => layout d.left d.zero (d.value a < 0) (widthValue d.width)
      (digits conversion.caps conversion.radix (d.value a).natAbs)

def render : List Item → List Arg → List UInt8
  | [], _ => []
  | .literal c :: items, as => c :: render items as
  | .percent :: items, as => ascii '%' :: render items as
  | .directive d :: items, a :: as => d.render a ++ render items as
  | .directive _ :: _, [] => []

end Ktux.FormatReference
