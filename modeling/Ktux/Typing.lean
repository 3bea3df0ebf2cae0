import Ktux.KeyboardStatus
import Ktux.Shell

set_option autoImplicit false

/-!
# Typing at the shell

A text that somebody types, key after key, as scancodes from the interrupt to the commands that the shell runs.
-/
namespace Ktux.Typing
open Printf (ascii)
open ByteMemory CString StringCompare Keyboard KeyboardStatus CommandBuffer Shell
open Pic (toggleIrq)

inductive Side where
  | left | right

def shiftKey : Side → UInt8
  | .left => raw1LeftShift
  | .right => raw1RightShift

/-- The keys of the main block, without the modifiers that are among them. -/
def plainKey (k : UInt8) : Bool := decide (k < raw1CapsLock) && !isAlt k && !isCtrl k && !isShift k

def keyOf (table : List UInt8) (c : UInt8) : Option UInt8 :=
  ((List.range 58).map UInt8.ofNat).find? fun k => plainKey k && table.getD k.toNat 0 == c

/-- The scancodes of one character: a key pressed and let go, if need be under one of the Shift keys. -/
def stroke (side : Side) (c : UInt8) : List UInt8 :=
  match keyOf scancodeToAscii c with
  | some k => [k, breakCode k]
  | none =>
    match keyOf scancodeToAsciiShift c with
    | some k => [shiftKey side, k, breakCode k, breakCode (shiftKey side)]
    | none => []

/-- A line, with the Shift key that is used for each character. -/
abbrev TypedLine := List (Side × UInt8)

def text (line : TypedLine) : List UInt8 := line.map Prod.snd

def lineStrokes (line : TypedLine) : List UInt8 :=
  line.flatMap (fun p => stroke p.1 p.2) ++ stroke .left newline

/-- Each scancode comes with an interrupt. -/
def press (keycodes : List UInt8) (s : Driver) : Driver := keycodes.foldl (fun s k => kbdIrqHandler k s) s

def echoOf (c : UInt8) : List Effect := if c = ascii 's' then [.putch c, .ps] else [.putch c]

/-- What the driver asks for when a line is typed that ends in `command`. -/
def lineEffects (line : List UInt8) (command : ByteMem) : List Effect :=
  line.flatMap echoOf ++ [.processCommand command, .putch newline]

/-- The effects of a text, and the strings that its lines become. -/
def textEffects (typing : List TypedLine) (commands : List ByteMem) : List Effect :=
  (List.zipWith (fun typed command => lineEffects (text typed) command) typing commands).flatten

/-- Each line has reached the shell as a string. -/
def Commands (typing : List TypedLine) (commands : List ByteMem) : Prop :=
  List.Forall₂ (fun typed command => StringAt command 0 (text typed)) typing commands

/-- The shell, called where the driver calls it. -/
def runEffect (fuel : ℕ) (s : State) : Effect → Option State
  | .processCommand command => processCommand fuel command s
  | _ => some s

def runEffects (fuel : ℕ) (effects : List Effect) (s : State) : Option State :=
  effects.foldlM (runEffect fuel) s

/-- Where the line leaves the word, its character is the next one after the word's. -/
def oneAbove : List UInt8 → List UInt8 → Bool
  | c :: line, d :: word => if c = d then oneAbove line word else c.toNat = d.toNat + 1
  | c :: _, [] => c.toNat = 1
  | [], _ => false

def lineEntered (s : State) (line : List UInt8) : State :=
  if oneAbove line timer then { s with irqs := (toggleIrq irqTimer s.irqs).2 } else s

/-- The command buffer shows what has been typed of the line, and the modifier bits are `status`. -/
structure AtLine (line : List UInt8) (status : BitVec 16) (s : Driver) : Prop where
  shows_line : Shows s line
  status : s.kbdStatus = status
  saw : s.sawBreakCode = false
  echo : s.echo = true

def received (keycode : UInt8) (s : Driver) : Driver := { s with
  keyboardBuffer := Function.update s.keyboardBuffer (s.kbdBufPos % kbdBufSize) keycode
  kbdBufPos := Words.wadd s.kbdBufPos 1 }

section Keys
variable {s : Driver} {k c : UInt8} {line : List UInt8}

theorem keyOf_some {table : List UInt8} (h : keyOf table c = some k) :
    plainKey k = true ∧ table.getD k.toNat 0 = c := by
  have hfound := List.find?_some h
  simpa using hfound

theorem typeable_all : ((List.range 256).all fun n => decide
    (0x20 ≤ n ∧ n < 0x7F ∨ n = 10 → (keyOf scancodeToAscii (UInt8.ofNat n)).isSome = true ∨
      (keyOf scancodeToAsciiShift (UInt8.ofNat n)).isSome = true)) = true := by
  decide +kernel

theorem typeable (hc : Printable c ∨ c = newline) :
    (keyOf scancodeToAscii c).isSome = true ∨ (keyOf scancodeToAsciiShift c).isSome = true := by
  have h := List.all_eq_true.mp typeable_all c.toNat (List.mem_range.mpr c.toNat_lt)
  rw [UInt8.ofNat_toNat] at h
  apply of_decide_eq_true h
  rcases hc with hc | rfl
  · exact Or.inl ⟨UInt8.le_iff_toNat_le.mp hc.1, UInt8.lt_iff_toNat_lt.mp hc.2⟩
  · exact Or.inr rfl

theorem plainKey_facts (h : plainKey k = true) : k < raw1CapsLock ∧ isAlt k = false ∧ isCtrl k = false ∧
    isShift k = false := by
  simpa [plainKey, and_assoc] using h

/-- The make code of a plain key, with no modifier but Shift. -/
theorem processKbd_plain (hk : plainKey k = true) (hsaw : s.sawBreakCode = false)
    (hctrl : s.kbdStatus &&& kbdMetaCtrl = 0) (hc : (asciiTable s.kbdStatus).getD k.toNat 0 = c) (h0 : c ≠ 0) :
    processKbd k s = typeKey c s := by
  obtain ⟨hlt, halt, hctrl', hshift⟩ := plainKey_facts hk
  have hsmall : k.toNat < 58 := UInt8.lt_iff_toNat_lt.mp hlt
  have hmake : ¬ (0x80 : UInt8) ≤ k := by
    rw [UInt8.le_iff_toNat_le]
    change ¬ 128 ≤ k.toNat
    omega
  have hne : ∀ x : UInt8, 58 ≤ x.toNat → k ≠ x := by
    rintro x hx rfl
    omega
  have hf1 : ¬ raw1F1 ≤ k := by
    rw [UInt8.le_iff_toNat_le]
    change ¬ 59 ≤ k.toNat
    omega
  have hconvert : convert k s = (c, s) := by
    unfold convert
    rw [if_neg fun hkeys => hf1 hkeys.1, hc]
    simp [h0, hctrl]
  have hscroll : k ≠ raw1ScrollLock := hne _ (by decide)
  have hnum : k ≠ raw1NumLock := hne _ (by decide)
  have hcaps : k ≠ raw1CapsLock := hne _ (by decide)
  simp [processKbd, hmake, hsaw, halt, hctrl', hshift, hscroll, hnum, hcaps, hf1, hconvert, h0]

theorem breakCode_all : ((List.range 128).all fun n => decide
    (0x80 ≤ breakCode (UInt8.ofNat n) ∧ breakCode (UInt8.ofNat n) &&& 0x7F = UInt8.ofNat n)) = true := by
  decide +kernel

theorem breakCode_facts (hlt : k < 0x80) : 0x80 ≤ breakCode k ∧ breakCode k &&& 0x7F = k := by
  have h := List.all_eq_true.mp breakCode_all k.toNat (List.mem_range.mpr (UInt8.lt_iff_toNat_lt.mp hlt))
  rw [UInt8.ofNat_toNat] at h
  exact of_decide_eq_true h

theorem processKbd_break (hlt : k < 0x80) (s : Driver) : processKbd (breakCode k) s =
    { s with kbdStatus := breakStatus k s.kbdStatus, sawBreakCode := false } := by
  obtain ⟨hbreak, hmask⟩ := breakCode_facts hlt
  simp [processKbd, hbreak, hmask]

theorem processKbd_release (hk : plainKey k = true) (hsaw : s.sawBreakCode = false) :
    processKbd (breakCode k) s = s := by
  obtain ⟨hlt, halt, hctrl, hshift⟩ := plainKey_facts hk
  have hsmall : k < 0x80 := UInt8.lt_trans hlt (by decide)
  rw [processKbd_break hsmall]
  simp only [breakStatus, halt, hctrl, hshift, Bool.false_eq_true, if_false]
  rw [← hsaw]

theorem processKbd_shift (side : Side) (hsaw : s.sawBreakCode = false) :
    processKbd (shiftKey side) s = { s with kbdStatus := s.kbdStatus ||| kbdMetaShift } := by
  cases side <;> simp [processKbd, hsaw, shiftKey, raw1LeftShift, raw1RightShift, isAlt, isCtrl, isShift,
    raw1LeftAlt, raw1RightAlt, raw1LeftCtrl, raw1RightCtrl]

theorem breakStatus_shift (side : Side) (status : BitVec 16) :
    breakStatus (shiftKey side) status = status &&& ~~~kbdMetaShift := by
  cases side <;> rfl

end Keys

section Lines
variable {s u : Driver} {k c : UInt8} {line : List UInt8} {status : BitVec 16}

theorem kbdIrqHandler_eq (k : UInt8) (s : Driver) : kbdIrqHandler k s = processKbd k (received k s) := rfl

theorem AtLine.received (h : AtLine line status s) (k : UInt8) : AtLine line status (received k s) :=
  ⟨⟨h.shows_line.pos, h.shows_line.chars, h.shows_line.clear⟩, h.status, h.saw, h.echo⟩

theorem AtLine.withStatus (h : AtLine line status s) (status' : BitVec 16) :
    AtLine line status' { s with kbdStatus := status' } :=
  ⟨⟨h.shows_line.pos, h.shows_line.chars, h.shows_line.clear⟩, rfl, h.saw, h.echo⟩

theorem AtLine.release (h : AtLine line status s) (hk : plainKey k = true) :
    AtLine line status (kbdIrqHandler (breakCode k) s) ∧
      (kbdIrqHandler (breakCode k) s).effects = s.effects := by
  have hr := h.received (breakCode k)
  rw [kbdIrqHandler_eq, processKbd_release hk hr.saw]
  exact ⟨hr, rfl⟩

theorem AtLine.shiftDown (h : AtLine line 0 s) (side : Side) :
    AtLine line kbdMetaShift (kbdIrqHandler (shiftKey side) s) ∧
      (kbdIrqHandler (shiftKey side) s).effects = s.effects := by
  have hr := h.received (shiftKey side)
  have hstatus : (Typing.received (shiftKey side) s).kbdStatus ||| kbdMetaShift = kbdMetaShift := by
    rw [hr.status]
    rfl
  rw [kbdIrqHandler_eq, processKbd_shift side hr.saw, hstatus]
  exact ⟨hr.withStatus _, rfl⟩

theorem AtLine.shiftUp (h : AtLine line kbdMetaShift s) (side : Side) :
    AtLine line 0 (kbdIrqHandler (breakCode (shiftKey side)) s) ∧
      (kbdIrqHandler (breakCode (shiftKey side)) s).effects = s.effects := by
  have hr := h.received (breakCode (shiftKey side))
  have hlt : shiftKey side < 0x80 := by cases side <;> decide
  have hstatus : breakStatus (shiftKey side) (Typing.received (breakCode (shiftKey side)) s).kbdStatus = 0 := by
    rw [hr.status, breakStatus_shift]
    rfl
  have hsaw := hr.saw
  rw [kbdIrqHandler_eq, processKbd_break hlt, hstatus]
  refine ⟨?_, rfl⟩
  rw [← hsaw]
  exact hr.withStatus 0

theorem AtLine.press_key (h : AtLine line status s) (hk : plainKey k = true)
    (hctrl : status &&& kbdMetaCtrl = 0) (hc : (asciiTable status).getD k.toNat 0 = c) (h0 : c ≠ 0) :
    kbdIrqHandler k s = typeKey c (Typing.received k s) := by
  have hr := h.received k
  rw [kbdIrqHandler_eq]
  apply processKbd_plain hk hr.saw
  · rwa [hr.status]
  · rwa [hr.status]
  · exact h0

/-- A stroke types its character, once the modifiers are as they have to be, and leaves them as they were. -/
theorem AtLine.stroke_types (h : AtLine line 0 s) (hc : Printable c ∨ c = newline) (side : Side) :
    ∃ status u, AtLine line status u ∧ u.effects = s.effects ∧
      ∀ line', AtLine line' status (typeKey c u) → AtLine line' 0 (press (stroke side c) s) ∧
        (press (stroke side c) s).effects = (typeKey c u).effects := by
  have h0 : c ≠ 0 := by
    rcases hc with hc | rfl
    · exact hc.char.2.2.2
    · decide
  unfold stroke
  split
  · next k hk =>
    obtain ⟨hplain, htable⟩ := keyOf_some hk
    have hkey := h.press_key hplain (by decide) htable h0
    refine ⟨0, Typing.received k s, h.received k, rfl, fun line' hline' => ?_⟩
    rw [← hkey] at hline' ⊢
    exact hline'.release hplain
  · next hnone =>
    split
    · next k hk =>
      obtain ⟨hplain, htable⟩ := keyOf_some hk
      obtain ⟨hdown, heffects⟩ := h.shiftDown side
      have hkey := hdown.press_key hplain (by decide) htable h0
      refine ⟨kbdMetaShift, Typing.received k (kbdIrqHandler (shiftKey side) s), hdown.received k, heffects,
        fun line' hline' => ?_⟩
      rw [← hkey] at hline' ⊢
      obtain ⟨hreleased, hsame⟩ := hline'.release hplain
      obtain ⟨hup, hsame'⟩ := hreleased.shiftUp side
      exact ⟨hup, hsame'.trans hsame⟩
    · next hnone' =>
      have hkeyboard := typeable hc
      rw [hnone, hnone'] at hkeyboard
      simp at hkeyboard

theorem AtLine.emit (h : AtLine line status s) (e : Effect) : AtLine line status (emit e s) :=
  ⟨⟨h.shows_line.pos, h.shows_line.chars, h.shows_line.clear⟩, h.status, h.saw, h.echo⟩

/-- A key that the command buffer takes, with the echo on. -/
theorem typeKey_echoes (hok : (cmdBufAdd c s).1 = ok) (hecho : (cmdBufAdd c s).2.echo = true) : typeKey c s =
    if c = ascii 's' then Keyboard.emit .ps (Keyboard.emit (.putch c) (cmdBufAdd c s).2)
    else Keyboard.emit (.putch c) (cmdBufAdd c s).2 := by
  simp [typeKey, hok, hecho]

theorem AtLine.typeKey_char (h : AtLine line status s) (hc : Printable c) (hlen : line.length < cmdBufSize) :
    AtLine (line ++ [c]) status (typeKey c s) ∧ (typeKey c s).effects = s.effects ++ echoOf c := by
  obtain ⟨hb, ht, hn, _⟩ := hc.char
  have hshows := h.shows_line.typed hlen hc
  have hadd := cmdBufAdd_char hb ht hn s
  have hsame := cmdBufAdd_sameStatus c s
  have hecho : (cmdBufAdd c s).2.echo = true := by
    rw [hadd]
    exact h.echo
  have heffects : (cmdBufAdd c s).2.effects = s.effects := by rw [hadd]; rfl
  have hok : (cmdBufAdd c s).1 = ok := by rw [hadd]
  have hline : AtLine (line ++ [c]) status (cmdBufAdd c s).2 :=
    ⟨hshows, hsame.status.trans h.status, hsame.saw.trans h.saw, hecho⟩
  rw [typeKey_echoes hok hecho, echoOf]
  split
  · exact ⟨(hline.emit _).emit _, by simp [Keyboard.emit, heffects]⟩
  · exact ⟨hline.emit _, by simp [Keyboard.emit, heffects]⟩

theorem memsetd_echo (count dst : ℕ) (s : Driver) : (memsetd count dst s).echo = s.echo := by
  induction count generalizing dst s with
  | zero => rfl
  | succ count ih =>
    rw [memsetd, ih]
    rfl

theorem clearLine_echo (count : ℕ) (s : Driver) : ({
    memsetd count 0 (Keyboard.emit (.processCommand s.commandBuffer) s) with cmdBufPos := 0 } : Driver).echo =
      s.echo := memsetd_echo count 0 _

theorem AtLine.typeKey_newline (h : AtLine line status s) (hlen : line.length < cmdBufSize)
    (hchars : ∀ c ∈ line, c ≠ 0) : ∃ command, StringAt command 0 line ∧ AtLine [] status (typeKey newline s) ∧
      (typeKey newline s).effects = s.effects ++ [.processCommand command, .putch newline] := by
  obtain ⟨command, heffects, hstring, hshows⟩ := h.shows_line.enters hlen hchars
  have hsame := cmdBufAdd_sameStatus newline s
  have hecho : (cmdBufAdd newline s).2.echo = true := by
    rw [cmdBufAdd_newline]
    exact (clearLine_echo _ s).trans h.echo
  have hok : (cmdBufAdd newline s).1 = ok := by rw [cmdBufAdd_newline]
  have hnot : newline ≠ ascii 's' := by decide
  have hline : AtLine [] status (cmdBufAdd newline s).2 :=
    ⟨hshows, hsame.status.trans h.status, hsame.saw.trans h.saw, hecho⟩
  rw [typeKey_echoes hok hecho, if_neg hnot]
  exact ⟨command, hstring, hline.emit _, by simp [Keyboard.emit, heffects]⟩

theorem press_append (codes codes' : List UInt8) (s : Driver) :
    press (codes ++ codes') s = press codes' (press codes s) := List.foldl_append

theorem AtLine.stroke_char (h : AtLine line 0 s) (hc : Printable c) (hlen : line.length < cmdBufSize)
    (side : Side) : AtLine (line ++ [c]) 0 (press (stroke side c) s) ∧
      (press (stroke side c) s).effects = s.effects ++ echoOf c := by
  obtain ⟨status, u, hu, heffects, hend⟩ := h.stroke_types (Or.inl hc) side
  obtain ⟨hline, htyped⟩ := hu.typeKey_char hc hlen
  obtain ⟨hdone, hsame⟩ := hend _ hline
  rw [htyped, heffects] at hsame
  exact ⟨hdone, hsame⟩

theorem AtLine.stroke_newline (h : AtLine line 0 s) (hlen : line.length < cmdBufSize)
    (hchars : ∀ c ∈ line, c ≠ 0) (side : Side) : ∃ command, StringAt command 0 line ∧
      AtLine [] 0 (press (stroke side newline) s) ∧
      (press (stroke side newline) s).effects = s.effects ++ [.processCommand command, .putch newline] := by
  obtain ⟨status, u, hu, heffects, hend⟩ := h.stroke_types (Or.inr rfl) side
  obtain ⟨command, hstring, hline, htyped⟩ := hu.typeKey_newline hlen hchars
  obtain ⟨hdone, hsame⟩ := hend _ hline
  rw [htyped, heffects] at hsame
  exact ⟨command, hstring, hdone, hsame⟩

/-- The characters of a line one after the other, after those that are there. -/
theorem AtLine.strokes {typed : TypedLine} (h : AtLine line 0 s) (hc : ∀ p ∈ typed, Printable p.2)
    (hlen : line.length + typed.length ≤ cmdBufSize) :
    AtLine (line ++ text typed) 0 (press (typed.flatMap fun p => stroke p.1 p.2) s) ∧
      (press (typed.flatMap fun p => stroke p.1 p.2) s).effects = s.effects ++ (text typed).flatMap echoOf := by
  induction typed generalizing line s with
  | nil => simpa [text, press] using h
  | cons p typed ih =>
    rw [List.length_cons] at hlen
    obtain ⟨hfirst, heffects⟩ := h.stroke_char (hc p (by simp)) (by omega) p.1
    obtain ⟨hrest, hall⟩ := ih hfirst (fun q hq => hc q (by simp [hq])) (by
      rw [List.length_append, List.length_singleton]
      omega)
    rw [List.flatMap_cons, press_append]
    refine ⟨?_, ?_⟩
    · simpa [text] using hrest
    · simp [hall, heffects, text]

/-- A typed line fits the command buffer with the NUL behind it. -/
structure Fits (typed : TypedLine) : Prop where
  printable : ∀ p ∈ typed, Printable p.2
  room : typed.length < cmdBufSize

theorem Fits.nonzero {typed : TypedLine} (h : Fits typed) : ∀ c ∈ text typed, c ≠ 0 := by
  intro c hc
  obtain ⟨p, hp, rfl⟩ := List.mem_map.mp hc
  exact (h.printable p hp).char.2.2.2

theorem AtLine.types_line {typed : TypedLine} (h : AtLine [] 0 s) (hfits : Fits typed) :
    ∃ command, StringAt command 0 (text typed) ∧ AtLine [] 0 (press (lineStrokes typed) s) ∧
      (press (lineStrokes typed) s).effects = s.effects ++ lineEffects (text typed) command := by
  have hroom := hfits.room
  obtain ⟨hline, heffects⟩ := h.strokes hfits.printable (by simpa using hroom.le)
  have hlen : ([] ++ text typed).length < cmdBufSize := by simpa [text] using hroom
  obtain ⟨command, hstring, hdone, hall⟩ := hline.stroke_newline hlen hfits.nonzero .left
  rw [← press_append] at hdone hall
  refine ⟨command, hstring, hdone, ?_⟩
  rw [lineStrokes, hall, heffects, lineEffects, List.append_assoc]

end Lines

section Shell
variable {s : State} {xs ys line : List UInt8} {command : Chars}

theorem strcmp_mono {fuel fuel' : ℕ} {s1 s2 : Chars} {r : ℤ} (hle : fuel ≤ fuel')
    (h : strcmp fuel s1 s2 = some r) : strcmp fuel' s1 s2 = some r := by
  obtain ⟨p, hp, rfl⟩ := Option.map_eq_some_iff.mp h
  rw [strcmp, Loops.whileLoop_mono hle hp, Option.map_some]

/-- The value of `strcmp` is 1 exactly when the first string leaves the second one upwards by one. -/
theorem oneAbove_iff {k : ℕ} (hxs : ∀ c ∈ xs, c ≠ 0) (hgo : ∀ j < k, Alike xs ys j) (hstop : ¬ Alike xs ys k) :
    charDiff (xs.getD k 0) (ys.getD k 0) = 1 ↔ oneAbove xs ys = true := by
  induction k generalizing xs ys with
  | zero =>
    rw [charDiff_eq_one]
    cases xs with
    | nil => simp [oneAbove]
    | cons c xs =>
      cases ys with
      | nil => simp [oneAbove]
      | cons d ys =>
        have hne : c ≠ d := by
          rintro rfl
          exact hstop ⟨hxs c (by simp), rfl⟩
        simp [oneAbove, hne]
  | succ k ih =>
    obtain ⟨hnonzero, heq⟩ := hgo 0 (Nat.succ_pos k)
    cases xs with
    | nil => simp at hnonzero
    | cons c xs =>
      cases ys with
      | nil =>
        rw [heq] at hnonzero
        simp at hnonzero
      | cons d ys =>
        have hcd : c = d := heq
        have hrest := ih (List.forall_mem_cons.mp hxs).2
          (fun j hj => hgo (j + 1) (Nat.succ_lt_succ hj)) hstop
        rw [List.getD_cons_succ, List.getD_cons_succ, hrest, oneAbove, if_pos hcd]

theorem processCommand_line (hc : Holds command line) (hinit : s.shellInitialized = true) {fuel : ℕ}
    (hfuel : 6 ≤ fuel) : processCommand fuel command s = some (lineEntered s line) := by
  obtain ⟨k, hgo, hstop, hrun⟩ := strcmp_returns hc (holds_getD timer_nonzero)
  have hk : k ≤ 5 := (alike_length hgo).2
  have hmore := strcmp_mono (show k + 1 ≤ fuel by omega) hrun
  rw [processCommand_eq hinit hmore, lineEntered]
  simp only [oneAbove_iff hc.nonzero hgo hstop]

theorem holds_of_stringAt (h : StringAt command 0 line) : Holds command line :=
  ⟨fun i hi => (congrArg command (Nat.zero_add i)).symm.trans (h.byte hi), h.nonzero⟩

theorem runEffects_append (fuel : ℕ) (es es' : List Effect) (s : State) :
    runEffects fuel (es ++ es') s = (runEffects fuel es s).bind (runEffects fuel es') := List.foldlM_append

theorem runEffects_echo (fuel : ℕ) (line : List UInt8) (s : State) :
    runEffects fuel (line.flatMap echoOf) s = some s := by
  induction line with
  | nil => rfl
  | cons c line ih =>
    have hfirst : runEffects fuel (echoOf c) s = some s := by
      unfold echoOf
      split <;> rfl
    rw [List.flatMap_cons, runEffects_append, hfirst]
    exact ih

theorem runEffects_line (h : StringAt command 0 line) (hinit : s.shellInitialized = true) {fuel : ℕ}
    (hfuel : 6 ≤ fuel) : runEffects fuel (lineEffects line command) s = some (lineEntered s line) := by
  have hrun := processCommand_line (holds_of_stringAt h) hinit hfuel
  rw [lineEffects, runEffects_append, runEffects_echo, Option.bind_some]
  change (processCommand fuel command s).bind _ = _
  rw [hrun]
  rfl

theorem lineEntered_initialized (s : State) (line : List UInt8) :
    (lineEntered s line).shellInitialized = s.shellInitialized := by
  unfold lineEntered
  split <;> rfl

theorem textEffects_cons (typed : TypedLine) (command : ByteMem) (typing : List TypedLine)
    (commands : List ByteMem) : textEffects (typed :: typing) (command :: commands) =
      lineEffects (text typed) command ++ textEffects typing commands := rfl

theorem runEffects_text {typing : List TypedLine} {commands : List ByteMem}
    (h : Commands typing commands) (hinit : s.shellInitialized = true) {fuel : ℕ} (hfuel : 6 ≤ fuel) :
    runEffects fuel (textEffects typing commands) s = some ((typing.map text).foldl lineEntered s) := by
  unfold Commands at h
  induction h generalizing s with
  | nil => rfl
  | cons hstring _ ih =>
    rw [textEffects_cons, runEffects_append, runEffects_line hstring hinit hfuel, Option.bind_some,
      ih ((lineEntered_initialized _ _).trans hinit)]
    rfl

end Shell

theorem AtLine.types_text {d : Driver} {typing : List TypedLine} (h : AtLine [] 0 d)
    (hfits : ∀ typed ∈ typing, Fits typed) : ∃ commands, Commands typing commands ∧
      (press (typing.flatMap lineStrokes) d).effects = d.effects ++ textEffects typing commands := by
  induction typing generalizing d with
  | nil => exact ⟨[], .nil, (List.append_nil _).symm⟩
  | cons typed typing ih =>
    obtain ⟨command, hstring, hline, heffects⟩ := h.types_line (hfits typed (by simp))
    obtain ⟨commands, hall, hrest⟩ := ih hline fun l hl => hfits l (by simp [hl])
    refine ⟨command :: commands, .cons hstring hall, ?_⟩
    rw [List.flatMap_cons, press_append, hrest, heffects, textEffects_cons, List.append_assoc]

theorem initKeyboard_atLine (behind : ByteMem) : AtLine [] 0 (initKeyboard (staticKeyboard behind)) :=
  ⟨⟨rfl, trivial, fun _ _ hi => if_pos hi⟩, rfl, rfl, rfl⟩

/-- A text of printable lines, typed with either Shift key: every character is echoed, each line reaches the
shell as the string that it is, in the order of the lines, and the shell toggles the timer interrupt once for
each line that leaves "timer" upwards by one. -/
theorem typing_reaches_shell (behind : ByteMem) (typing : List TypedLine)
    (hfits : ∀ typed ∈ typing, Fits typed) (s : State) (hinit : s.shellInitialized = true) : ∃ commands effects,
      (press (typing.flatMap lineStrokes) (initKeyboard (staticKeyboard behind))).effects = effects ∧
      Commands typing commands ∧ effects = textEffects typing commands ∧
      ∀ fuel ≥ 6, runEffects fuel effects s = some ((typing.map text).foldl lineEntered s) := by
  obtain ⟨commands, hall, heffects⟩ := (initKeyboard_atLine behind).types_text hfits
  exact ⟨commands, _, rfl, hall, heffects, fun fuel hfuel => by
    rw [heffects]
    exact runEffects_text hall hinit hfuel⟩

def twoLines : List TypedLine :=
  [(typed "uimer").map fun c => (.left, c), (typed "Is it 5 o'clock?").map fun c => (.right, c)]

theorem twoLines_fits : ∀ typed ∈ twoLines, Fits typed := by
  intro line hline
  simp only [twoLines, List.mem_cons, List.not_mem_nil, or_false] at hline
  have hall : ∀ line ∈ twoLines, ∀ p ∈ line, (0x20 : UInt8) ≤ p.2 ∧ p.2 < 0x7F := by decide
  rcases hline with rfl | rfl
  · exact ⟨hall _ (by simp [twoLines]), by decide⟩
  · exact ⟨hall _ (by simp [twoLines]), by decide⟩

theorem typing_reaches_shell_twoLines : ∃ commands effects,
    (press (twoLines.flatMap lineStrokes) (initKeyboard (staticKeyboard fun _ => 0))).effects = effects ∧
      Commands twoLines commands ∧ effects = textEffects twoLines commands ∧
      ∀ fuel ≥ 6, runEffects fuel effects ready = some ((twoLines.map text).foldl lineEntered ready) :=
  typing_reaches_shell (fun _ => 0) twoLines twoLines_fits ready rfl

end Ktux.Typing
