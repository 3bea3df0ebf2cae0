import Ktux.Printf
import Ktux.Video

set_option autoImplicit false

/-!
# The virtual consoles

`init_console`, `select_vc` and `kprintf`, which goes to the current console.
-/
namespace Ktux.VirtualConsole
open Words ByteMemory Printf Video

def maxVc : ℕ := 12

structure Consoles where
  display : Display
  numVcs : ℕ

def showVc (whichVc : ℕ) (v : Display) : Display :=
  let i := wsub (v.vc whichVc).fbAdr v.vgaFbAdr / 2
  moveCsr (outportb (wadd v.crtcIoAdr 1) i (outportb v.crtcIoAdr 13
    (outportb (wadd v.crtcIoAdr 1) (i / 256) (outportb v.crtcIoAdr 12 { v with currVc := whichVc }))))

def selectVc (whichVc : ℕ) (v : Consoles) : Consoles :=
  if v.numVcs ≤ whichVc then v else { v with display := showVc whichVc v.display }

def putch (fuel c : ℕ) (v : Display) : Option Display := putchHelp fuel v.currVc c v

def signedChar (c : UInt8) : ℕ := if c < 0x80 then c.toNat else wordSize - 2 ^ 8 + c.toNat

/-- `kprintf_help`; the format is in memory of its own. -/
def kprintfSink (tabs : ℕ) (fmt : List UInt8) : Sink (Option Display) where
  mem := fun _ a => fmt.getD a 0
  fn := fun c v => v.bind (putch tabs (signedChar c))

def kprintf (fuel tabs : ℕ) (fmt : List UInt8) (args : List ℕ) (v : Display) : Option Display :=
  (doPrintf (kprintfSink tabs fmt) (fun i => args.getD i 0) fuel 0 (some v)).bind Prod.snd

def banner : List UInt8 := "\x1B[2Jktux console %u\n\n".toList.map ascii

def placeVc (i : ℕ) (v : Display) : Display :=
  let con := { v.vc i with
    attrib := wadd i 1
    fbAdr := wadd v.vgaFbAdr (wmul 2 (wmul (wmul v.vcWidth v.vcHeight) i)) }
  { v with currVc := i, vc := Function.update v.vc i con }

def initVc (fuel tabs numVcs i : ℕ) (v : Display) : Option Display :=
  if 0 < i then kprintf fuel tabs banner [i, wsub numVcs 1] (placeVc i v) else some (placeVc i v)

def countVcs (width height : ℕ) : Option ℕ :=
  let size := wmul (wmul width height) 2
  if size = 0 then none else some (min (32768 / size % 2 ^ 16) maxVc)

/-- `misc` is what `VGA_MISC_READ` gives. The screen size is in the BIOS data area. -/
def probe (misc : ℕ) (mem : ByteMem) (crtc : Crtc) : Display where
  mem := mem
  vc := fun _ => ⟨0, 0, 0, 0, 0, 0, 0, 0⟩
  currVc := 0
  vgaFbAdr := if misc &&& 1 ≠ 0 then 0xB8000 else 0xB0000
  crtcIoAdr := if misc &&& 1 ≠ 0 then 0x3D4 else 0x3B4
  vcWidth := readWord mem 0x44A
  vcHeight := (mem 0x484).toNat + 1
  crtc := crtc

def initConsole (fuel tabs misc : ℕ) (mem : ByteMem) (crtc : Crtc) : Option Consoles := do
  let v := probe misc mem crtc
  let numVcs ← countVcs v.vcWidth v.vcHeight
  let v ← (List.range numVcs).foldlM (fun v i => initVc fuel tabs numVcs i v) v
  return selectVc 0 ⟨v, numVcs⟩

inductive Call where
  | putch (con c : ℕ)
  | select (whichVc : ℕ)

def Call.apply (fuel : ℕ) : Call → Consoles → Option Consoles
  | putch con c, v => (putchHelp fuel con c v.display).map fun display => { v with display := display }
  | select whichVc, v => some (selectVc whichVc v)

/-- `putch_help` gets one of the consoles; `which_vc` is checked. -/
def Call.Valid (v : Consoles) : Call → Prop
  | putch con c => con < v.numVcs ∧ c < wordSize
  | select whichVc => whichVc < wordSize

def Step (v : Consoles) (call : Call) (v' : Consoles) : Prop :=
  call.Valid v ∧ ∃ fuel, call.apply fuel v = some v'

end Ktux.VirtualConsole
