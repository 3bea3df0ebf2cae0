import Mathlib.Algebra.Group.Nat.Defs
import Mathlib.Data.Nat.Bits
import Mathlib.Tactic.Common

set_option autoImplicit false

/-!
# Text terminals

A grid of coloured characters with a cursor in it, driven by a stream of characters and escape sequences. The
cursor cannot be outside the grid.
-/
namespace Ktux.Terminals

structure Colour where
  red : Bool
  green : Bool
  blue : Bool

/-- The numbers in the escape sequences have red in the lowest bit. -/
def Colour.ofNumber (n : ℕ) : Colour := ⟨n.testBit 0, n.testBit 1, n.testBit 2⟩

structure Rendition where
  foreground : Colour
  bold : Bool
  background : Colour
  blink : Bool

def Rendition.select (a : Rendition) (p : ℕ) : Rendition :=
  if p = 0 then { a with bold := false }
  else if p = 1 then { a with bold := true }
  else if 30 ≤ p ∧ p ≤ 37 then { a with foreground := .ofNumber (p - 30) }
  else if 40 ≤ p ∧ p ≤ 47 then { a with background := .ofNumber (p - 40) }
  else a

structure Cell where
  char : UInt8
  rendition : Rendition

/-- How much of an escape sequence has been read. At most three parameters are. -/
inductive Sequence where
  | outside
  | opened
  | parameters (before : List ℕ) (last : ℕ) (room : before.length < 3)

structure Terminal (w h : ℕ) where
  grid : Fin h → Fin w → Cell
  column : Fin w
  row : Fin h
  rendition : Rendition
  sequence : Sequence

variable {w h : ℕ}

def Terminal.blank (t : Terminal w h) : Cell := ⟨0x20, t.rendition⟩

def Terminal.carriageReturn (t : Terminal w h) : Terminal w h :=
  { t with column := ⟨0, Nat.zero_lt_of_lt t.column.isLt⟩ }

/-- The start of the next row. Below the last row the others move up. -/
def Terminal.lineFeed (t : Terminal w h) : Terminal w h :=
  if hr : t.row.val + 1 < h then { t.carriageReturn with row := ⟨t.row + 1, hr⟩ }
  else { t.carriageReturn with grid := fun r x => if hr : r.val + 1 < h then t.grid ⟨r + 1, hr⟩ x else t.blank }

/-- To the column `n`, or to the next row behind the last column. -/
def Terminal.advance (n : ℕ) (t : Terminal w h) : Terminal w h :=
  if hn : n < w then { t with column := ⟨n, hn⟩ } else t.lineFeed

def Terminal.fill (first last : ℕ) (cell : Cell) (t : Terminal w h) : Terminal w h :=
  { t with grid := fun r x => if r = t.row ∧ first ≤ x.val ∧ x.val < last then cell else t.grid r x }

def Terminal.print (c : UInt8) (t : Terminal w h) : Terminal w h :=
  (t.fill t.column (t.column + 1) ⟨c, t.rendition⟩).advance (t.column + 1)

def tabStop (column : ℕ) : ℕ := (column / 8 + 1) * 8

def Terminal.tab (t : Terminal w h) : Terminal w h :=
  (t.fill t.column (tabStop t.column) t.blank).advance (tabStop t.column)

def Terminal.backspace (t : Terminal w h) : Terminal w h :=
  if t.column.val = 0 then t
  else { t.fill (t.column - 1) t.column t.blank with
    column := ⟨t.column - 1, Nat.lt_of_le_of_lt (Nat.sub_le _ 1) t.column.isLt⟩ }

def Terminal.clear (t : Terminal w h) : Terminal w h :=
  { t.carriageReturn with grid := fun _ _ => t.blank, row := ⟨0, Nat.zero_lt_of_lt t.row.isLt⟩ }

/-- A coordinate outside the grid is ignored. -/
def Terminal.moveTo (row column : ℕ) (t : Terminal w h) : Terminal w h :=
  { t with
    row := if hr : row < h then ⟨row, hr⟩ else t.row
    column := if hc : column < w then ⟨column, hc⟩ else t.column }

def Terminal.draw (c : UInt8) (t : Terminal w h) : Terminal w h :=
  if c = 0x08 then t.backspace
  else if c = 0x09 then t.tab
  else if c = 0x0D then t.carriageReturn
  else if c = 0x0A then t.lineFeed
  else if 0x20 ≤ c then t.print c
  else t

def Terminal.character (c : UInt8) (t : Terminal w h) : Terminal w h :=
  if c = 0x1B then { t with sequence := .opened } else { t.draw c with sequence := .outside }

def Terminal.finish (c : UInt8) (ps : List ℕ) (t : Terminal w h) : Terminal w h :=
  if c = 0x6D then { t with rendition := ps.foldl Rendition.select t.rendition }
  else if c = 0x4A ∧ ps = [2] then t.clear
  else if c = 0x48 then
    match ps with
    | [row, column] => t.moveTo row column
    | _ => t
  else t

/-- A parameter is read modulo `2 ^ 32`. -/
def nextParameter (n : ℕ) (c : UInt8) : ℕ := (10 * n + (c.toNat - 0x30)) % 2 ^ 32

theorem length_snoc_lt {before : List ℕ} (last : ℕ) (h : before.length < 2) :
    (before ++ [last]).length < 3 := by
  rw [List.length_append]
  exact Nat.succ_lt_succ h

def Terminal.receive (t : Terminal w h) (c : UInt8) : Terminal w h :=
  match t.sequence with
  | .outside => t.character c
  | .opened =>
    if c = 0x5B then { t with sequence := .parameters [] 0 (Nat.zero_lt_succ 2) } else t.character c
  | .parameters before last room =>
    if 0x30 ≤ c ∧ c ≤ 0x39 then { t with sequence := .parameters before (nextParameter last c) room }
    else if hroom : c = 0x3B ∧ before.length < 2 then
      { t with sequence := .parameters (before ++ [last]) 0 (length_snoc_lt last hroom.2) }
    else { t.finish c (before ++ [last]) with sequence := .outside }

section Receiving
variable {t : Terminal w h} {before : List ℕ} {last : ℕ} {room : before.length < 3} {c : UInt8}

theorem receive_digit (hseq : t.sequence = .parameters before last room) (hc : 0x30 ≤ c ∧ c ≤ 0x39) :
    t.receive c = { t with sequence := .parameters before (nextParameter last c) room } := by
  simp [Terminal.receive, hseq, hc]

theorem receive_separator (hseq : t.sequence = .parameters before last room) (hroom : before.length < 2) :
    t.receive 0x3B = { t with sequence := .parameters (before ++ [last]) 0 (length_snoc_lt last hroom) } := by
  simp [Terminal.receive, hseq, hroom]

theorem receive_final (hseq : t.sequence = .parameters before last room) (hdigit : ¬(0x30 ≤ c ∧ c ≤ 0x39))
    (hmore : ¬(c = 0x3B ∧ before.length < 2)) :
    t.receive c = { t.finish c (before ++ [last]) with sequence := .outside } := by
  simp only [Terminal.receive, hseq, if_neg hdigit, dif_neg hmore]

theorem finish_other {ps : List ℕ} (hselect : c ≠ 0x6D) (hclear : c = 0x4A → ps ≠ [2])
    (hmove : c = 0x48 → ps.length ≠ 2) : t.finish c ps = t := by
  unfold Terminal.finish
  split_ifs with hm hJ hH
  · exact absurd hm hselect
  · exact absurd hJ.2 (hclear hJ.1)
  · split
    · exact absurd rfl (hmove hH)
    · rfl
  · rfl

end Receiving

def Terminal.receives (t : Terminal w h) (text : List UInt8) : Terminal w h := text.foldl Terminal.receive t

theorem Terminal.receives_append (t : Terminal w h) (xs ys : List UInt8) :
    t.receives (xs ++ ys) = (t.receives xs).receives ys := List.foldl_append

/-- A terminal of two rows and three columns, after "ab", a newline, ESC[31m and "c". -/
example : let start : Terminal 3 2 :=
      ⟨fun _ _ => ⟨0x2E, ⟨⟨true, true, true⟩, false, ⟨false, false, false⟩, false⟩⟩, 0, 0,
        ⟨⟨true, true, true⟩, false, ⟨false, false, false⟩, false⟩, .outside⟩
    let shown := start.receives [0x61, 0x62, 0x0A, 0x1B, 0x5B, 0x33, 0x31, 0x6D, 0x63]
    (shown.grid 0 1).char = 0x62 ∧ (shown.grid 0 2).char = 0x2E ∧ (shown.grid 1 0).char = 0x63 ∧
      (shown.grid 1 0).rendition.foreground.green = false ∧ shown.column = 1 := by decide

end Ktux.Terminals
