import Ktux.Printf

set_option autoImplicit false

/-!
# The keyboard driver

`keyboard.c`: scancodes to modifier bits, lock keys, consoles and characters, and the command buffer behind
them. What the driver asks of the rest of the kernel is a list of effects.
-/
namespace Ktux.Keyboard
open Words ByteMemory Printf

def raw1LeftCtrl : UInt8 := 0x1D
def raw1RightCtrl : UInt8 := 0x1D
def raw1LeftShift : UInt8 := 0x2A
def raw1RightShift : UInt8 := 0x36
def raw1LeftAlt : UInt8 := 0x38
def raw1RightAlt : UInt8 := 0x38
def raw1CapsLock : UInt8 := 0x3A
def raw1F1 : UInt8 := 0x3B
def raw1F10 : UInt8 := 0x44
def raw1NumLock : UInt8 := 0x45
def raw1ScrollLock : UInt8 := 0x46

def kbdMetaAlt : BitVec 16 := 0x0200
def kbdMetaCtrl : BitVec 16 := 0x0400
def kbdMetaShift : BitVec 16 := 0x0800
def kbdMetaCaps : BitVec 16 := 0x1000
def kbdMetaNum : BitVec 16 := 0x2000
def kbdMetaScrl : BitVec 16 := 0x4000

def special : UInt8 := 0
def enter : UInt8 := 10
def pause : UInt8 := ascii 'P'
def keyDel : UInt8 := 0x91

def kbdBufSize : ℕ := 64
def cmdBufSize : ℕ := 256

@[simp] def ok : ℕ := 1
@[simp] def error : ℕ := 0

def backspace : UInt8 := 8
def tab : UInt8 := 9
def newline : UInt8 := 10
def space : UInt8 := 32

def typed (keys : String) : List UInt8 := keys.toList.map ascii

/-- The ten function keys have their own scancodes as characters. -/
def functionKeys : List UInt8 := [0x3B, 0x3C, 0x3D, 0x3E, 0x3F, 0x40, 0x41, 0x42, 0x43, 0x44]

/-- A table up to its last initialiser; the rest of its 256 characters is zero. -/
def scancodeToAscii : List UInt8 :=
  [special, special] ++ typed "1234567890-=" ++ [backspace, tab] ++ typed "qwertyuiop[]" ++ [enter, special] ++
    typed "asdfghjkl;'`\\" ++ typed "\\zxcvbnm,./" ++ [special, special, special] ++ [space, special] ++
    functionKeys ++ [special, special, pause, special, special]

def scancodeToAsciiCaps : List UInt8 :=
  [special, special] ++ typed "1234567890-=" ++ [backspace, tab] ++ typed "QWERTYUIOP[]" ++ [enter, special] ++
    typed "ASDFGHJKL;'`\\" ++ typed "\\ZXCVBNM,./" ++ [special, special, special] ++ [space, special] ++
    functionKeys ++ [pause, special, special]

def scancodeToAsciiShift : List UInt8 :=
  [special, special] ++ typed "!@#$%^&*()_+" ++ [backspace, tab] ++ typed "QWERTYUIOP\x7b\x7d" ++
    [enter, special] ++ typed "ASDFGHJKL:\"~|" ++ typed "|ZXCVBNM<>?" ++ [special, special, special] ++
    [space, special] ++ functionKeys ++ [pause, special, special]

/-- `processCommand` gets the address of the command buffer, hence the buffer as it is. -/
inductive Effect where
  | writeKbd (adr : ℕ) (data : BitVec 8)
  | selectVc (whichVc : ℕ)
  | processCommand (command : ByteMem)
  | putch (c : UInt8)
  | ps
  | reboot

/-- An index of `commandBuffer` from `CMD_BUF_SIZE` on is a byte behind the array. `written` lists the indices
that have been stored to. -/
structure Driver where
  echo : Bool
  kbdBufPos : ℕ
  cmdBufPos : ℕ
  keyboardBuffer : ℕ → UInt8
  commandBuffer : ByteMem
  kbdStatus : BitVec 16
  sawBreakCode : Bool
  written : List ℕ
  effects : List Effect

def initKeyboard (s : Driver) : Driver := { s with kbdBufPos := 0, cmdBufPos := 0 }

def emit (e : Effect) (s : Driver) : Driver := { s with effects := s.effects ++ [e] }

def store (i : ℕ) (c : UInt8) (s : Driver) : Driver :=
  { s with commandBuffer := Function.update s.commandBuffer i c, written := s.written ++ [i] }

def putSpaces : ℕ → Driver → Driver
  | 0, s => s
  | n + 1, s => putSpaces n { store s.cmdBufPos space s with cmdBufPos := wadd s.cmdBufPos 1 }

def memsetd : (count dst : ℕ) → Driver → Driver
  | 0, _, s => s
  | count + 1, dst, s =>
    memsetd count (dst + 4) (store (dst + 3) 0 (store (dst + 2) 0 (store (dst + 1) 0 (store dst 0 s))))

def cmdBufAdd (key : UInt8) (s : Driver) : ℕ × Driver :=
  if key = backspace then
    if 0 < s.cmdBufPos then (ok, store (s.cmdBufPos - 1) 0 { s with cmdBufPos := s.cmdBufPos - 1 })
    else (error, s)
  else if key = tab then (ok, putSpaces ((wadd s.cmdBufPos 8 &&& 7) - s.cmdBufPos) s)
  else if key = newline then
    (ok, { memsetd (cmdBufSize / 4) 0 (emit (.processCommand s.commandBuffer) s) with cmdBufPos := 0 })
  else (ok, store (s.cmdBufPos % cmdBufSize) key { s with cmdBufPos := wadd s.cmdBufPos 1 })

def asciiTable (kbdStatus : BitVec 16) : List UInt8 :=
  if kbdStatus &&& kbdMetaShift ≠ 0 then scancodeToAsciiShift
  else if kbdStatus &&& kbdMetaCaps ≠ 0 then scancodeToAsciiCaps
  else scancodeToAscii

/-- Every `unsigned char` is an index of the tables. -/
def convert (key : UInt8) (s : Driver) : UInt8 × Driver :=
  if raw1F1 ≤ key ∧ key ≤ raw1ScrollLock then (0, s)
  else
    let temp := (asciiTable s.kbdStatus).getD key.toNat 0
    if temp = 0 then (0, s)
    else if s.kbdStatus &&& kbdMetaCtrl ≠ 0 ∧ s.kbdStatus &&& kbdMetaAlt ≠ 0 ∧ temp = keyDel then
      (temp, emit .reboot s)
    else (temp, s)

def ledBits (kbdStatus : BitVec 16) : BitVec 8 :=
  (if kbdStatus &&& kbdMetaScrl ≠ 0 then 1 else 0) ||| (if kbdStatus &&& kbdMetaNum ≠ 0 then 2 else 0) |||
    (if kbdStatus &&& kbdMetaCaps ≠ 0 then 4 else 0)

def setLeds (s : Driver) : Driver := emit (.writeKbd 0x60 (ledBits s.kbdStatus)) (emit (.writeKbd 0x60 0xED) s)

def isAlt (keycode : UInt8) : Bool := keycode = raw1LeftAlt || keycode = raw1RightAlt

def isCtrl (keycode : UInt8) : Bool := keycode = raw1LeftCtrl || keycode = raw1RightCtrl

def isShift (keycode : UInt8) : Bool := keycode = raw1LeftShift || keycode = raw1RightShift

def breakStatus (keycode : UInt8) (kbdStatus : BitVec 16) : BitVec 16 :=
  if isAlt keycode then kbdStatus &&& ~~~kbdMetaAlt
  else if isCtrl keycode then kbdStatus &&& ~~~kbdMetaCtrl
  else if isShift keycode then kbdStatus &&& ~~~kbdMetaShift
  else kbdStatus

/-- A character that the command buffer takes is echoed, and `s` lists the threads. -/
def typeKey (i : UInt8) (s : Driver) : Driver :=
  let added := cmdBufAdd i s
  if added.1 = ok ∧ added.2.echo then
    let s := emit (.putch i) added.2
    if i = ascii 's' then emit .ps s else s
  else added.2

def processKbd (keycode : UInt8) (s : Driver) : Driver :=
  let sawBreakCode := s.sawBreakCode || decide (0x80 ≤ keycode)
  let keycode := if 0x80 ≤ keycode then keycode &&& 0x7F else keycode
  if sawBreakCode then { s with kbdStatus := breakStatus keycode s.kbdStatus, sawBreakCode := false }
  else if isAlt keycode then { s with kbdStatus := s.kbdStatus ||| kbdMetaAlt }
  else if isCtrl keycode then { s with kbdStatus := s.kbdStatus ||| kbdMetaCtrl }
  else if isShift keycode then { s with kbdStatus := s.kbdStatus ||| kbdMetaShift }
  else if keycode = raw1ScrollLock then setLeds { s with kbdStatus := s.kbdStatus ^^^ kbdMetaScrl }
  else if keycode = raw1NumLock then setLeds { s with kbdStatus := s.kbdStatus ^^^ kbdMetaNum }
  else if keycode = raw1CapsLock then setLeds { s with kbdStatus := s.kbdStatus ^^^ kbdMetaCaps }
  else if raw1F1 ≤ keycode ∧ keycode ≤ raw1F10 then emit (.selectVc (keycode.toNat - raw1F1.toNat)) s
  else
    let converted := convert keycode s
    if converted.1 ≠ 0 then typeKey converted.1 converted.2 else converted.2

def kbdIrqHandler (keycode : UInt8) (s : Driver) : Driver :=
  processKbd keycode { s with
    keyboardBuffer := Function.update s.keyboardBuffer (s.kbdBufPos % kbdBufSize) keycode
    kbdBufPos := wadd s.kbdBufPos 1 }

/-- The `.bss` and `.data` of the driver, over memory `behind`. -/
def staticKeyboard (behind : ByteMem) : Driver where
  echo := true
  kbdBufPos := 0
  cmdBufPos := 0
  keyboardBuffer := fun _ => 0
  commandBuffer := fun i => if i < cmdBufSize then 0 else behind i
  kbdStatus := 0
  sawBreakCode := false
  written := []
  effects := []

def processAll (keycodes : List UInt8) (s : Driver) : Driver := keycodes.foldl (fun s k => processKbd k s) s

def addAll (keys : List UInt8) (s : Driver) : Driver := keys.foldl (fun s k => (cmdBufAdd k s).2) s

end Ktux.Keyboard
