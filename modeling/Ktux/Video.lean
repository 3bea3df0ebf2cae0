import Ktux.KernelString
import Ktux.Loops

set_option autoImplicit false

/-!
# The text consoles

`putch_help` and what it calls, with its escape sequences and its scrolling, over the bytes of the frame
buffer.
-/
namespace Ktux.Video
open Words Loops ByteMemory KernelString

/-- `console`; `fbAdr` is a byte address. -/
structure Console where
  esc : ℕ
  attrib : ℕ
  csrX : ℕ
  csrY : ℕ
  esc1 : ℕ
  esc2 : ℕ
  esc3 : ℕ
  fbAdr : ℕ

/-- What `putch_help` works on: memory, its console and `_vc_width` and `_vc_height`. -/
structure Screen where
  mem : ByteMem
  con : Console
  width : ℕ
  height : ℕ

def Screen.setCon (f : Console → Console) (s : Screen) : Screen := { s with con := f s.con }

def Screen.setMem (f : ByteMem → ByteMem) (s : Screen) : Screen := { s with mem := f s.mem }

def Screen.att (s : Screen) : ℕ := wmul s.con.attrib 256

/-- `fb_adr + i` as an address. -/
def Screen.cellAdr (s : Screen) (i : ℕ) : ℕ := wadd s.con.fbAdr (wmul 2 i)

/-- `*where = (c | att)` at the cursor. -/
def Screen.put (c : ℕ) (s : Screen) : Screen :=
  s.setMem (storeWord (s.cellAdr (wadd (wmul s.con.csrY s.width) s.con.csrX)) (c ||| s.att))

def scroll (s : Screen) : Screen :=
  if s.height ≤ s.con.csrY then
    -- the rows move up over themselves, then one row is blanked
    let temp := wadd (wsub s.con.csrY s.height) 1
    let rest := wmul (wsub s.height temp) s.width
    ((s.setMem (memcpy (wmul rest 2) s.con.fbAdr (s.cellAdr (wmul temp s.width)))).setMem
      (memsetw s.width (s.cellAdr rest) (0x20 ||| s.att))).setCon
        fun con => { con with csrY := wsub s.height 1 }
  else s

def ansiToVga : List ℕ := [0, 4, 2, 6, 1, 5, 3, 7]

def newAtt (att attrib : ℕ) : ℕ :=
  if att = 0 then attrib &&& 0xFFFFFFF7
  else if att = 1 then attrib ||| 0x08
  else if 30 ≤ att ∧ att ≤ 37 then (attrib &&& 0xFFFFFFF8) ||| ansiToVga.getD (att - 30) 0
  else if 40 ≤ att ∧ att ≤ 47 then (attrib &&& 0xFFFFFF8F) ||| (ansiToVga.getD (att - 40) 0 <<< 4)
  else attrib

def setAttrib (att : ℕ) (con : Console) : Console := { con with attrib := newAtt att con.attrib }

def isDigit (c : ℕ) : Bool := 0x30 ≤ c && c ≤ 0x39

def addDigit (esc c : ℕ) : ℕ := wsub (wadd (wmul esc 10) c) 0x30

def Console.endEsc (con : Console) : Console := { con with esc := 0 }

def Screen.clear (s : Screen) : Screen :=
  (s.setMem (memsetw (wmul s.height s.width) s.con.fbAdr (0x20 ||| s.att))).setCon
    fun con => { con with csrX := 0, csrY := 0 }

def escapeOne (c : ℕ) (s : Screen) : Screen :=
  if isDigit c then s.setCon fun con => { con with esc1 := addDigit con.esc1 c }
  else if c = 0x3B then s.setCon fun con => { con with esc := wadd con.esc 1, esc2 := 0 }
  else if c = 0x4A then (if s.con.esc1 = 2 then s.clear else s).setCon Console.endEsc
  else if c = 0x6D then s.setCon fun con => (setAttrib con.esc1 con).endEsc
  else s.setCon Console.endEsc

def Screen.moveTo (x y : ℕ) (s : Screen) : Screen :=
  s.setCon fun con =>
    { con with
      csrX := if x < s.width then x else con.csrX
      csrY := if y < s.height then y else con.csrY }

def escapeTwo (c : ℕ) (s : Screen) : Screen :=
  if isDigit c then s.setCon fun con => { con with esc2 := addDigit con.esc2 c }
  else if c = 0x3B then s.setCon fun con => { con with esc := wadd con.esc 1, esc3 := 0 }
  else if c = 0x48 then (s.moveTo s.con.esc2 s.con.esc1).setCon Console.endEsc
  else if c = 0x6D then s.setCon fun con => (setAttrib con.esc2 (setAttrib con.esc1 con)).endEsc
  else s.setCon Console.endEsc

def escapeThree (c : ℕ) (s : Screen) : Screen :=
  if isDigit c then s.setCon fun con => { con with esc3 := addDigit con.esc3 c }
  else if c = 0x6D then
    s.setCon fun con => (setAttrib con.esc3 (setAttrib con.esc2 (setAttrib con.esc1 con))).endEsc
  else s.setCon Console.endEsc

/-- The escape sequences; `none` falls through to the characters. -/
def escape (c : ℕ) (s : Screen) : Option Screen :=
  if s.con.esc = 1 then
    -- any other character is printed
    if c = 0x5B then some (s.setCon fun con => { con with esc := wadd con.esc 1, esc1 := 0 }) else none
  else if s.con.esc = 2 then some (escapeOne c s)
  else if s.con.esc = 3 then some (escapeTwo c s)
  else if s.con.esc = 4 then some (escapeThree c s)
  else none

def Screen.setX (x : ℕ) (s : Screen) : Screen := s.setCon fun con => { con with csrX := x }

def Screen.nextRow (s : Screen) : Screen :=
  s.setCon fun con => { con with csrX := 0, csrY := wadd con.csrY 1 }

/-- `eot` is an `unsigned short`. -/
def tab (fuel : ℕ) (s : Screen) : Option Screen :=
  let eot := (wadd s.con.csrX 8 &&& 0xFFFFFFF8) % 2 ^ 16
  whileLoop (fun s => s.con.csrX ≠ eot) (fun s => some ((s.put 0x20).setX (wadd s.con.csrX 1))) fuel s

def draw (fuel c : ℕ) (s : Screen) : Option Screen :=
  if c = 0x08 then
    some (if s.con.csrX ≠ 0 then (s.setX (wsub s.con.csrX 1)).put 0x20 else s)
  else if c = 0x09 then tab fuel s
  else if c = 0x0D then some (s.setX 0)
  else if c = 0x0A then some s.nextRow
  else if 0x20 ≤ c then some ((s.put c).setX (wadd s.con.csrX 1))
  else some s

def Screen.wrap (s : Screen) : Screen := if s.width ≤ s.con.csrX then s.nextRow else s

structure Crtc where
  index : ℕ
  reg : ℕ → ℕ

/-- The variables of `video.c`, memory and the hardware; `currVc` is an index into `vc`. -/
structure Display where
  mem : ByteMem
  vc : ℕ → Console
  currVc : ℕ
  vgaFbAdr : ℕ
  crtcIoAdr : ℕ
  vcWidth : ℕ
  vcHeight : ℕ
  crtc : Crtc

def outportb (port val : ℕ) (v : Display) : Display :=
  if port = v.crtcIoAdr then { v with crtc := { v.crtc with index := val % 256 } }
  else if port = wadd v.crtcIoAdr 1 then
    { v with crtc := { v.crtc with reg := Function.update v.crtc.reg v.crtc.index (val % 256) } }
  else v

/-- The cursor's offset into the text buffer, as an `unsigned short`; pointers differ by cells. -/
def csrOffset (v : Display) : ℕ :=
  let con := v.vc v.currVc
  wadd (wadd (wmul con.csrY v.vcWidth) con.csrX) (wsub con.fbAdr v.vgaFbAdr / 2) % 2 ^ 16

def moveCsr (v : Display) : Display :=
  let temp := csrOffset v
  outportb (wadd v.crtcIoAdr 1) temp (outportb v.crtcIoAdr 15
    (outportb (wadd v.crtcIoAdr 1) (temp / 256) (outportb v.crtcIoAdr 14 v)))

def Display.screen (v : Display) (con : ℕ) : Screen := ⟨v.mem, v.vc con, v.vcWidth, v.vcHeight⟩

def Display.store (v : Display) (con : ℕ) (s : Screen) : Display :=
  { v with mem := s.mem, vc := Function.update v.vc con s.con }

def moveCurrent (con : ℕ) (v : Display) : Display := if v.currVc = con then moveCsr v else v

def putchHelp (fuel con c : ℕ) (v : Display) : Option Display :=
  match escape c (v.screen con) with
  | some s => some (v.store con s)
  | none =>
    let s := (v.screen con).setCon Console.endEsc
    if c = 0x1B then some (v.store con (s.setCon fun con => { con with esc := 1 }))
    else (draw fuel c s).map fun s => moveCurrent con (v.store con (scroll s.wrap))

section Size
variable {s u : Screen}

@[simp] theorem setCon_con (f : Console → Console) (s : Screen) : (s.setCon f).con = f s.con := rfl

@[simp] theorem setMem_con (f : ByteMem → ByteMem) (s : Screen) : (s.setMem f).con = s.con := rfl

theorem scroll_con (s : Screen) : (scroll s).con =
    { s.con with csrY := if s.height ≤ s.con.csrY then wsub s.height 1 else s.con.csrY } := by
  unfold scroll
  split_ifs
  · simp only [setCon_con, setMem_con]
  · rfl

theorem escape_digit {c : ℕ} (hesc : s.con.esc = 2) (hc : isDigit c = true) :
    escape c s = some (s.setCon fun con => { con with esc1 := addDigit con.esc1 c }) := by
  simp [escape, escapeOne, hesc, hc]

theorem escape_clear (hesc : s.con.esc = 2) (hesc1 : s.con.esc1 = 2) :
    escape 0x4A s = some (s.clear.setCon Console.endEsc) := by
  simp [escape, escapeOne, isDigit, hesc, hesc1]

variable {fuel con c : ℕ}

/-- The size of the screen is a global of `video.c`. -/
def SameSize (s u : Screen) : Prop := u.width = s.width ∧ u.height = s.height

theorem SameSize.trans {w : Screen} (h : SameSize s u) (h' : SameSize u w) : SameSize s w :=
  ⟨h'.1.trans h.1, h'.2.trans h.2⟩

theorem setCon_size (f : Console → Console) (s : Screen) : SameSize s (s.setCon f) := ⟨rfl, rfl⟩

theorem setMem_size (f : ByteMem → ByteMem) (s : Screen) : SameSize s (s.setMem f) := ⟨rfl, rfl⟩

theorem clear_size (s : Screen) : SameSize s s.clear := (setMem_size _ s).trans (setCon_size _ _)

theorem escapeOne_size (c : ℕ) (s : Screen) : SameSize s (escapeOne c s) := by
  unfold escapeOne
  split_ifs
  · exact setCon_size _ s
  · exact setCon_size _ s
  · exact (clear_size s).trans (setCon_size _ _)
  all_goals exact setCon_size _ s

theorem escapeTwo_size (c : ℕ) (s : Screen) : SameSize s (escapeTwo c s) := by
  unfold escapeTwo
  split_ifs
  · exact setCon_size _ s
  · exact setCon_size _ s
  · exact (setCon_size _ s).trans (setCon_size _ _)
  all_goals exact setCon_size _ s

theorem escapeThree_size (c : ℕ) (s : Screen) : SameSize s (escapeThree c s) := by
  unfold escapeThree
  split_ifs <;> exact setCon_size _ s

theorem escape_size (h : escape c s = some u) : SameSize s u := by
  unfold escape at h
  split_ifs at h <;> cases h
  · exact setCon_size _ s
  · exact escapeOne_size c s
  · exact escapeTwo_size c s
  · exact escapeThree_size c s

theorem setX_size (x : ℕ) (s : Screen) : SameSize s (s.setX x) := setCon_size _ s

theorem put_size (c : ℕ) (s : Screen) : SameSize s (s.put c) := setMem_size _ s

theorem tab_size (h : tab fuel s = some u) : SameSize s u := by
  unfold tab at h
  refine (whileLoop_invariant (SameSize s) (fun v w hsize _ hpass => ?_) ⟨rfl, rfl⟩ h).1
  cases hpass
  exact hsize.trans ((put_size _ v).trans (setX_size _ _))

theorem draw_size (h : draw fuel c s = some u) : SameSize s u := by
  unfold draw at h
  split_ifs at h
  · rw [← Option.some.inj h]
    exact (setX_size _ s).trans (put_size _ _)
  · rw [← Option.some.inj h]
    exact ⟨rfl, rfl⟩
  · exact tab_size h
  · rw [← Option.some.inj h]
    exact setX_size 0 s
  · rw [← Option.some.inj h]
    exact setCon_size _ s
  · rw [← Option.some.inj h]
    exact (put_size c s).trans (setX_size _ _)
  · rw [← Option.some.inj h]
    exact ⟨rfl, rfl⟩

theorem scroll_size (s : Screen) : SameSize s (scroll s) := by
  unfold scroll
  split_ifs
  · exact ((setMem_size _ s).trans (setMem_size _ _)).trans (setCon_size _ _)
  · exact ⟨rfl, rfl⟩

theorem wrap_size (s : Screen) : SameSize s s.wrap := by
  unfold Screen.wrap
  split_ifs
  · exact setCon_size _ s
  · exact ⟨rfl, rfl⟩

/-- `putch_help` as far as its own console goes. -/
def putchScreen (fuel c : ℕ) (s : Screen) : Option Screen :=
  match escape c s with
  | some s => some s
  | none =>
    let s := s.setCon Console.endEsc
    if c = 0x1B then some (s.setCon fun con => { con with esc := 1 })
    else (draw fuel c s).map fun s => scroll s.wrap

theorem screen_store {v : Display} (h : SameSize (v.screen con) s) : (v.store con s).screen con = s := by
  obtain ⟨mem, c, width, height⟩ := s
  obtain ⟨rfl, rfl⟩ : width = v.vcWidth ∧ height = v.vcHeight := h
  have hcon : Function.update v.vc con c con = c := Function.update_self ..
  exact congrArg (fun c => Screen.mk mem c v.vcWidth v.vcHeight) hcon

/-- The ports change nothing but the hardware. -/
def OnlyCrtc (v v' : Display) : Prop := ∃ crtc, v' = { v with crtc := crtc }

theorem OnlyCrtc.trans {v v' w : Display} (h : OnlyCrtc v v') (h' : OnlyCrtc v' w) : OnlyCrtc v w := by
  obtain ⟨crtc, rfl⟩ := h
  obtain ⟨crtc', rfl⟩ := h'
  exact ⟨crtc', rfl⟩

theorem outportb_crtc (port val : ℕ) (v : Display) : OnlyCrtc v (outportb port val v) := by
  unfold outportb
  split_ifs
  exacts [⟨_, rfl⟩, ⟨_, rfl⟩, ⟨v.crtc, rfl⟩]

theorem moveCsr_crtc (v : Display) : OnlyCrtc v (moveCsr v) :=
  (outportb_crtc _ _ v).trans ((outportb_crtc _ _ _).trans ((outportb_crtc _ _ _).trans (outportb_crtc _ _ _)))

theorem screen_moveCsr (v : Display) : (moveCsr v).screen con = v.screen con := by
  obtain ⟨crtc, h⟩ := moveCsr_crtc v
  rw [h]
  rfl

theorem screen_moveCurrent (v : Display) : (moveCurrent con v).screen con = v.screen con := by
  unfold moveCurrent
  split_ifs
  · exact screen_moveCsr v
  · rfl

theorem putchHelp_screen (fuel con c : ℕ) (v : Display) :
    (putchHelp fuel con c v).map (fun v => v.screen con) = putchScreen fuel c (v.screen con) := by
  unfold putchHelp putchScreen
  cases hescape : escape c (v.screen con) with
  | some s =>
    rw [Option.map_some, screen_store (escape_size hescape)]
  | none =>
    simp only
    split_ifs with hesc
    · exact congrArg some (screen_store ⟨rfl, rfl⟩)
    · cases hdraw : draw fuel c ((v.screen con).setCon Console.endEsc) with
      | none => rfl
      | some s =>
        have hsize : SameSize ((v.screen con).setCon Console.endEsc) (scroll s.wrap) :=
          (draw_size hdraw).trans ((wrap_size s).trans (scroll_size _))
        simp only [Option.map_some]
        rw [screen_moveCurrent, screen_store hsize]

/-- The passes that a tab has left, where the column counts past the end of the word if need be. -/
def tabLeft (eot : ℕ) (s : Screen) : ℕ :=
  if s.con.csrX < wordSize then (eot + wordSize - s.con.csrX) % wordSize else wordSize

theorem tabLeft_le {eot : ℕ} (s : Screen) : tabLeft eot s ≤ wordSize := by
  unfold tabLeft
  split_ifs
  · exact (Nat.mod_lt _ (by decide)).le
  · exact le_rfl

theorem tabLeft_pass {eot : ℕ} (hlt : eot < wordSize) (hne : s.con.csrX ≠ eot) :
    tabLeft eot ((s.put 0x20).setX (wadd s.con.csrX 1)) < tabLeft eot s := by
  change (if wadd s.con.csrX 1 < wordSize then (eot + wordSize - wadd s.con.csrX 1) % wordSize else wordSize) <
    tabLeft eot s
  rw [if_pos (wadd_lt _ _), tabLeft]
  split_ifs with hword
  · rw [wadd, wordSize_eq] at *
    omega
  · exact Nat.mod_lt _ (Nat.zero_lt_of_lt hlt)

theorem tab_returns (hfuel : wordSize < fuel) (s : Screen) : ∃ u, tab fuel s = some u := by
  unfold tab
  obtain ⟨eot, heot⟩ : ∃ eot, eot = (wadd s.con.csrX 8 &&& 0xFFFFFFF8) % 2 ^ 16 := ⟨_, rfl⟩
  have hlt : eot < wordSize := by
    rw [wordSize_eq]
    omega
  have hpass : ∀ s : Screen, True → decide (s.con.csrX ≠ eot) = true →
      ∃ u, some ((s.put 0x20).setX (wadd s.con.csrX 1)) = some u ∧ True ∧ tabLeft eot u < tabLeft eot s :=
    fun s _ hne => ⟨_, rfl, trivial, tabLeft_pass hlt (of_decide_eq_true hne)⟩
  obtain ⟨u, -, -, hall⟩ := whileLoop_ranked (tabLeft eot) (fun _ => True) hpass (s := s) trivial
  rw [← heot]
  exact ⟨u, hall fuel ((tabLeft_le s).trans_lt hfuel)⟩

theorem draw_returns (hfuel : wordSize < fuel) (c : ℕ) (s : Screen) : ∃ u, draw fuel c s = some u := by
  unfold draw
  split_ifs
  all_goals first | exact ⟨_, rfl⟩ | exact tab_returns hfuel s

theorem putchHelp_returns (hfuel : wordSize < fuel) (con c : ℕ) (v : Display) :
    ∃ v', putchHelp fuel con c v = some v' := by
  unfold putchHelp
  cases escape c (v.screen con) with
  | some s => exact ⟨_, rfl⟩
  | none =>
    dsimp only
    split_ifs
    · exact ⟨_, rfl⟩
    · obtain ⟨u, hu⟩ := draw_returns hfuel c ((v.screen con).setCon Console.endEsc)
      rw [hu]
      exact ⟨_, rfl⟩

end Size

end Ktux.Video
