import Ktux.ConsoleBounds
import Ktux.EscapeSequences

set_option autoImplicit false

/-!
# The hardware cursor

The CRTC registers against the cursor of the current console, over calls of `putch_help`, `move_cursor` and
`select_vc` in any order.
-/
namespace Ktux.HardwareCursor
open Words Loops Runs ByteMemory Video VirtualConsole ConsoleText ConsoleBounds EscapeSequences

def moveCursor (x y : ℕ) (v : Display) : Display :=
  moveCsr { v with vc := Function.update v.vc v.currVc { v.vc v.currVc with csrX := x, csrY := y } }

inductive CursorCall where
  | putch (con c : ℕ)
  | moveCursor (x y : ℕ)
  | select (whichVc : ℕ)

def CursorCall.apply (fuel : ℕ) : CursorCall → Consoles → Option Consoles
  | putch con c, v => (putchHelp fuel con c v.display).map fun display => { v with display := display }
  | moveCursor x y, v => some { v with display := HardwareCursor.moveCursor x y v.display }
  | select whichVc, v => some (selectVc whichVc v)

/-- From lower rows `scroll`, and from farther columns a tab, goes over the whole address space. -/
structure InReach (s : Screen) : Prop where
  csrX : s.con.csrX + 8 < 2 ^ 16
  csrY : s.con.csrY + 1 < 2 * s.height

/-- The character is not part of an escape sequence. -/
def Writes (c : ℕ) (s : Screen) : Prop := escape c s = none ∧ c ≠ 0x1B

/-- `putch_help` gets one of the consoles, whose cursor `move_cursor`, which checks nothing, has left in reach
if the character is written. -/
def CursorCall.Valid (v : Consoles) : CursorCall → Prop
  | putch con c => con < v.numVcs ∧ c < wordSize ∧
      (Writes c (v.display.screen con) → InReach (v.display.screen con))
  | moveCursor x y => x < wordSize ∧ y < wordSize
  | select whichVc => whichVc < wordSize

section Registers
variable {v v' : Display}

end Registers

section Characters
variable {fuel con c : ℕ} {s u : Screen} {v v' : Display}

end Characters

section Reach
variable {fuel c : ℕ} {s u : Screen}

structure Home (s : Screen) : Prop extends Sized s where
  inBuffer : s.con.fbAdr ≤ 0xC0000

/-- What a character does to its console. -/
structure Reaches (s u : Screen) : Prop where
  place : SamePlace s u
  reach : InReach s → InReach u
  stores : ∀ a, a < s.con.fbAdr ∨ 2 ^ 20 ≤ a → u.mem a = s.mem a

theorem Reaches.endEsc (h : Reaches s u) : Reaches s (u.setCon Console.endEsc) :=
  ⟨h.place.trans ⟨setCon_size _ _, rfl⟩, fun hs => ⟨(h.reach hs).csrX, (h.reach hs).csrY⟩, h.stores⟩

theorem SamePlace.home (hplace : SamePlace s u) (h : Home s) : Home u :=
  ⟨hplace.sized h.toSized, hplace.fbAdr ▸ h.inBuffer⟩

end Reach

section Runs
variable {v v' : Consoles} {call : CursorCall}

end Runs

end Ktux.HardwareCursor
