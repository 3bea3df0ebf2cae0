import Ktux.FairSchedules

set_option autoImplicit false

/-!
# The A20 handshake

`EnableA20` talks to the keyboard controller through two one-byte buffers. The controller works in its own
time: it takes what the loader sends, and answers, at any later turn. No key is pressed meanwhile.
-/
namespace Ktux.EnableA20
open FairSchedules

abbrev Byte := BitVec 8

/-- A byte sent to port 64h or to port 60h. -/
inductive Sent where
  | command (b : Byte)
  | data (b : Byte)
  deriving DecidableEq

/-- The labels of the routine, and the instructions between them that use a port. -/
inductive Place where
  | startAttempt1 | sendRead1 | dataWait1 | readPort
  | commandWait2 | sendWrite | cmdWait3 | writePort
  | cmdWait4 | sendRead2 | dataWait2 | readBack1
  | startAttempt2 | sendEnable | cmdWait6 | sendRead3 | dataWait3 | readBack2
  | returned (eax : BitVec 32)
  deriving DecidableEq

/-- What the chip set does: whether writing the output port moves the A20 line, and whether command DFh does. -/
structure Chip where
  portWrites : Bool
  enables : Bool

/-- The controller: what is in its buffers, whether it expects a byte for the output port, and that port. -/
structure Controller where
  inBuf : Option Sent
  outBuf : Option Byte
  expecting : Bool
  port : Byte

/-- The loader at its place, with the counter and the pushed byte, and the controller. -/
structure Handshake where
  place : Place
  cx : ℕ
  pushed : Byte
  kbc : Controller

inductive Party where
  | loader | controller
  deriving DecidableEq

/-- Bit 1 of the output port. -/
def a20 (b : Byte) : Bool := b.getLsbD 1

section Loader
variable (s : Handshake)

/-- `KeyboardCmdWait`, one read of the status port at a time. -/
def cmdWait (next : Place) : Handshake := if s.kbc.inBuf.isSome then s else { s with place := next }

/-- `KeyboardDataWait`. -/
def dataWait (next : Place) : Handshake := if s.kbc.outBuf.isSome then { s with place := next } else s

def send (b : Sent) (next : Place) : Handshake :=
  { s with place := next, kbc := { s.kbc with inBuf := some b } }

/-- `in al, 60h`: the byte, and the state after it. -/
def readData : Byte × Handshake := (s.kbc.outBuf.getD 0, { s with kbc := { s.kbc with outBuf := none } })

/-- The test of the byte read back, and `loop`. -/
def checkA20 (again failed : Place) (b : Byte) : Handshake :=
  if a20 b then { s with place := .returned 0 }
  else if s.cx - 1 ≠ 0 then { s with cx := s.cx - 1, place := again }
  else { s with cx := 5, place := failed }

def loaderStep : Handshake :=
  match s.place with
  | .startAttempt1 => cmdWait s .sendRead1
  | .sendRead1 => send s (.command 0xD0) .dataWait1
  | .dataWait1 => dataWait s .readPort
  | .readPort => { (readData s).2 with pushed := (readData s).1, place := .commandWait2 }
  | .commandWait2 => cmdWait s .sendWrite
  | .sendWrite => send s (.command 0xD1) .cmdWait3
  | .cmdWait3 => cmdWait s .writePort
  | .writePort => send s (.data (s.pushed ||| 0x02)) .cmdWait4
  | .cmdWait4 => cmdWait s .sendRead2
  | .sendRead2 => send s (.command 0xD0) .dataWait2
  | .dataWait2 => dataWait s .readBack1
  | .readBack1 => checkA20 (readData s).2 .startAttempt1 .startAttempt2 (readData s).1
  | .startAttempt2 => cmdWait s .sendEnable
  | .sendEnable => send s (.command 0xDF) .cmdWait6
  | .cmdWait6 => cmdWait s .sendRead3
  | .sendRead3 => send s (.command 0xD0) .dataWait3
  | .dataWait3 => dataWait s .readBack2
  | .readBack2 => checkA20 (readData s).2 .startAttempt2 (.returned 0xFFFFFFFF) (readData s).1
  | .returned _ => s

end Loader

/-- The byte `b` written to the output port `port`. -/
def written (chip : Chip) (b port : Byte) : Byte := if chip.portWrites then b else b &&& 0xFD ||| port &&& 0x02

def enabled (chip : Chip) (port : Byte) : Byte := if chip.enables then port ||| 0x02 else port

/-- The controller takes a byte that it was sent. An answer has to wait until the last one is read. The output
buffer only gets answers: a key would put its scan code there. -/
def controllerStep (chip : Chip) (c : Controller) : Controller :=
  match c.inBuf with
  | none => c
  | some (.command b) =>
    if b = 0xD0 then
      if c.outBuf.isSome then c else { c with inBuf := none, outBuf := some c.port }
    else if b = 0xD1 then { c with inBuf := none, expecting := true }
    else if b = 0xDF then { c with inBuf := none, port := enabled chip c.port }
    else { c with inBuf := none }
  | some (.data b) =>
    if c.expecting then { c with inBuf := none, expecting := false, port := written chip b c.port }
    else { c with inBuf := none }

def turn (chip : Chip) : Party → Handshake → Handshake
  | .loader, s => loaderStep s
  | .controller, s => { s with kbc := controllerStep chip s.kbc }

/-- The routine is entered with both buffers empty. -/
def start (port pushed : Byte) : Handshake where
  place := .startAttempt1
  cx := 5
  pushed := pushed
  kbc := { inBuf := none, outBuf := none, expecting := false, port := port }

/-! ### What holds at each place -/

section Handshakes
variable {chip : Chip} {p q : Byte} {c : Controller} {s : Handshake}

/-- Nothing is under way, and the port has the value `q`. -/
structure Idle (q : Byte) (c : Controller) : Prop where
  input : c.inBuf = none
  output : c.outBuf = none
  expecting : c.expecting = false
  port : c.port = q

/-- The controller has been sent `b`. Taking it brings it from `before` to `after`. -/
structure Sending (b : Sent) (before after : Bool × Byte) (c : Controller) : Prop where
  output : c.outBuf = none
  taken : c.inBuf = some b ∧ (c.expecting, c.port) = before ∨ c.inBuf = none ∧ (c.expecting, c.port) = after

/-- The port has been asked for. -/
structure Asking (q : Byte) (c : Controller) : Prop where
  expecting : c.expecting = false
  port : c.port = q
  answer : c.inBuf = some (.command 0xD0) ∧ c.outBuf = none ∨ c.inBuf = none ∧ c.outBuf = some q

structure Answered (q : Byte) (c : Controller) : Prop where
  input : c.inBuf = none
  output : c.outBuf = some q
  expecting : c.expecting = false
  port : c.port = q

/-- The controller waits for the byte of the output port. -/
structure Expecting (q : Byte) (c : Controller) : Prop where
  input : c.inBuf = none
  output : c.outBuf = none
  expecting : c.expecting = true
  port : c.port = q

/-- The line is on, or one of the two methods turns it on. -/
def Works (chip : Chip) (p : Byte) : Prop := a20 p = true ∨ chip.portWrites = true ∨ chip.enables = true

/-- The first method is of no use. -/
def Stuck (chip : Chip) (p : Byte) : Prop := a20 p = false ∧ chip.portWrites = false

/-- The controller at each place of the loader, when the port was `p` at the start. -/
def At (chip : Chip) (p : Byte) (c : Controller) : Place → Prop
  | .startAttempt1 | .sendRead1 | .commandWait2 | .sendWrite => Idle p c
  | .dataWait1 => Asking p c
  | .readPort => Answered p c
  | .cmdWait3 => Sending (.command 0xD1) (false, p) (true, p) c
  | .writePort => Expecting p c
  | .cmdWait4 => Sending (.data (p ||| 0x02)) (true, p) (false, written chip (p ||| 0x02) p) c
  | .sendRead2 => Idle (written chip (p ||| 0x02) p) c
  | .dataWait2 => Asking (written chip (p ||| 0x02) p) c
  | .readBack1 => Answered (written chip (p ||| 0x02) p) c
  | .startAttempt2 | .sendEnable => Stuck chip p ∧ Idle p c
  | .cmdWait6 => Stuck chip p ∧ Sending (.command 0xDF) (false, p) (false, enabled chip p) c
  | .sendRead3 => Stuck chip p ∧ Idle (enabled chip p) c
  | .dataWait3 => Stuck chip p ∧ Asking (enabled chip p) c
  | .readBack2 => Stuck chip p ∧ Answered (enabled chip p) c
  | .returned eax =>
    eax = 0 ∧ Works chip p ∧ Idle (p ||| 0x02) c ∨ eax = 0xFFFFFFFF ∧ ¬ Works chip p ∧ Idle p c

/-- The places between the first read of the port and its use. -/
def holdsPort : Place → Bool
  | .commandWait2 | .sendWrite | .cmdWait3 | .writePort => true
  | _ => false

structure Kept (chip : Chip) (p : Byte) (s : Handshake) : Prop where
  at_place : At chip p s.kbc s.place
  pushed : holdsPort s.place = true → s.pushed = p
  more : 1 ≤ s.cx

theorem a20_set (b : Byte) : a20 (b ||| 0x02) = true := by simp [a20]

theorem clear_of_not_a20 {b : Byte} : a20 b = false → (b ||| 0x02) &&& 0xFD ||| b &&& 0x02 = b := by
  revert b
  decide

theorem kept_of_a20 {b : Byte} : a20 b = true → (b ||| 0x02) &&& 0xFD ||| b &&& 0x02 = b ||| 0x02 := by
  revert b
  decide

theorem written_on (h : a20 p = true ∨ chip.portWrites = true) : written chip (p ||| 0x02) p = p ||| 0x02 := by
  unfold written
  split
  · rfl
  · next hport =>
    exact kept_of_a20 (h.resolve_right hport)

theorem written_off (h : Stuck chip p) : written chip (p ||| 0x02) p = p := by
  rw [written, h.2]
  exact clear_of_not_a20 h.1

theorem not_stuck : ¬ Stuck chip p ↔ a20 p = true ∨ chip.portWrites = true := by
  simp [Stuck, or_iff_not_imp_left]

theorem a20_written : a20 (written chip (p ||| 0x02) p) = true ↔ ¬ Stuck chip p := by
  constructor
  · intro h hstuck
    rw [written_off hstuck, hstuck.1] at h
    contradiction
  · intro h
    rw [written_on (not_stuck.mp h)]
    exact a20_set p

theorem stuck_of_not_a20 (h : a20 (written chip (p ||| 0x02) p) = false) : Stuck chip p := by
  by_contra hnot
  rw [a20_written.mpr hnot] at h
  contradiction

theorem a20_enabled (h : Stuck chip p) : a20 (enabled chip p) = true ↔ chip.enables = true := by
  unfold enabled
  split
  · next hen =>
    rw [a20_set, hen]
  · next hen =>
    simp [hen, h.1]

theorem enabled_off (h : Stuck chip p) (hq : a20 (enabled chip p) = false) :
    ¬ Works chip p ∧ enabled chip p = p := by
  have hen : chip.enables = false := by
    rw [Bool.eq_false_iff]
    intro hen
    rw [(a20_enabled h).mpr hen] at hq
    contradiction
  constructor
  · simp [Works, h.1, h.2, hen]
  · simp [enabled, hen]

/-! ### One turn of the controller -/

theorem controllerStep_empty (h : c.inBuf = none) : controllerStep chip c = c := by
  simp [controllerStep, h]

/-- Taking a byte other than a request that cannot be answered yet empties the input buffer. -/
theorem controllerStep_same_or_takes (chip : Chip) (c : Controller) :
    controllerStep chip c = c ∨ c.inBuf.isSome = true ∧ (controllerStep chip c).inBuf = none := by
  unfold controllerStep
  split
  · exact Or.inl rfl
  · next b hin =>
    split_ifs <;> simp [hin]
  · next b hin =>
    split_ifs <;> simp [hin]

theorem Idle.controller (h : Idle q c) : Idle q (controllerStep chip c) := by
  rw [controllerStep_empty h.input]
  exact h

theorem Answered.controller (h : Answered q c) : Answered q (controllerStep chip c) := by
  rw [controllerStep_empty h.input]
  exact h

theorem Expecting.controller (h : Expecting q c) : Expecting q (controllerStep chip c) := by
  rw [controllerStep_empty h.input]
  exact h

theorem Asking.controller (h : Asking q c) : Asking q (controllerStep chip c) := by
  rcases h.answer with ⟨hin, hout⟩ | ⟨hin, hout⟩
  · constructor
    · simp [controllerStep, hin, hout, h.expecting]
    · simp [controllerStep, hin, hout, h.port]
    · simp [controllerStep, hin, hout, h.port]
  · rw [controllerStep_empty hin]
    exact h

/-- What taking the byte sent has to do. -/
theorem Sending.controller {b : Sent} {before after : Bool × Byte} (h : Sending b before after c)
    (htakes : c.inBuf = some b → (c.expecting, c.port) = before →
      controllerStep chip c = ⟨none, c.outBuf, after.1, after.2⟩) :
    Sending b before after (controllerStep chip c) := by
  rcases h.taken with ⟨hin, hbefore⟩ | ⟨hin, _⟩
  · rw [htakes hin hbefore]
    exact ⟨h.output, Or.inr ⟨rfl, rfl⟩⟩
  · rw [controllerStep_empty hin]
    exact h

theorem At.controller {place : Place} (h : At chip p c place) : At chip p (controllerStep chip c) place := by
  cases place with
  | startAttempt1 | sendRead1 | commandWait2 | sendWrite | sendRead2 => exact Idle.controller h
  | dataWait1 | dataWait2 => exact Asking.controller h
  | readPort | readBack1 => exact Answered.controller h
  | writePort => exact Expecting.controller h
  | cmdWait3 =>
    apply Sending.controller h
    intro hin hbefore
    have hport : c.port = p := congrArg Prod.snd hbefore
    simp [controllerStep, hin, hport]
  | cmdWait4 =>
    apply Sending.controller h
    intro hin hbefore
    have hexpecting : c.expecting = true := congrArg Prod.fst hbefore
    have hport : c.port = p := congrArg Prod.snd hbefore
    simp [controllerStep, hin, hexpecting, hport]
  | startAttempt2 | sendEnable | sendRead3 => exact ⟨h.1, Idle.controller h.2⟩
  | cmdWait6 =>
    refine ⟨h.1, Sending.controller h.2 ?_⟩
    intro hin hbefore
    have hexpecting : c.expecting = false := congrArg Prod.fst hbefore
    have hport : c.port = p := congrArg Prod.snd hbefore
    simp [controllerStep, hin, hexpecting, hport]
  | dataWait3 => exact ⟨h.1, Asking.controller h.2⟩
  | readBack2 => exact ⟨h.1, Answered.controller h.2⟩
  | returned eax =>
    rcases h with ⟨heax, hworks, hidle⟩ | ⟨heax, hworks, hidle⟩
    · exact Or.inl ⟨heax, hworks, hidle.controller⟩
    · exact Or.inr ⟨heax, hworks, hidle.controller⟩

/-! ### One turn of the loader -/

theorem cmdWait_kept {next : Place} (hs : Kept chip p s) (hnext : s.kbc.inBuf = none → At chip p s.kbc next)
    (hpushed : holdsPort next = true → s.pushed = p) : Kept chip p (cmdWait s next) := by
  cases hin : s.kbc.inBuf with
  | some b =>
    simp only [cmdWait, hin]
    exact hs
  | none =>
    simp only [cmdWait, hin]
    exact ⟨hnext hin, hpushed, hs.more⟩

theorem dataWait_kept {next : Place} (hs : Kept chip p s) (hq : Asking q s.kbc)
    (hnext : Answered q s.kbc → At chip p s.kbc next) (hpushed : holdsPort next = false) :
    Kept chip p (dataWait s next) := by
  rcases hq.answer with ⟨hin, hout⟩ | ⟨hin, hout⟩
  · simp only [dataWait, hout]
    exact hs
  · simp only [dataWait, hout]
    refine ⟨hnext ⟨hin, hout, hq.expecting, hq.port⟩, ?_, hs.more⟩
    simp [hpushed]

theorem Idle.asks (h : Idle q c) : Asking q { c with inBuf := some (.command 0xD0) } :=
  ⟨h.expecting, h.port, Or.inl ⟨rfl, h.output⟩⟩

theorem Idle.sends {b : Sent} {after : Bool × Byte} (h : Idle q c) :
    Sending b (false, q) after { c with inBuf := some b } :=
  ⟨h.output, Or.inl ⟨rfl, Prod.ext h.expecting h.port⟩⟩

theorem Expecting.sends {b : Sent} {after : Bool × Byte} (h : Expecting q c) :
    Sending b (true, q) after { c with inBuf := some b } :=
  ⟨h.output, Or.inl ⟨rfl, Prod.ext h.expecting h.port⟩⟩

theorem Sending.taken_idle {b : Sent} {before : Bool × Byte} (h : Sending b before (false, q) c)
    (hin : c.inBuf = none) : Idle q c := by
  rcases h.taken with ⟨hin', _⟩ | ⟨_, hafter⟩
  · rw [hin] at hin'
    contradiction
  · exact ⟨hin, h.output, congrArg Prod.fst hafter, congrArg Prod.snd hafter⟩

theorem Sending.taken_expecting {b : Sent} {before : Bool × Byte} (h : Sending b before (true, q) c)
    (hin : c.inBuf = none) : Expecting q c := by
  rcases h.taken with ⟨hin', _⟩ | ⟨_, hafter⟩
  · rw [hin] at hin'
    contradiction
  · exact ⟨hin, h.output, congrArg Prod.fst hafter, congrArg Prod.snd hafter⟩

theorem Answered.reads (h : Answered q c) : Idle q { c with outBuf := none } :=
  ⟨h.input, rfl, h.expecting, h.port⟩

/-- The byte read back decides between success, another attempt and the next method. -/
theorem checkA20_kept {again failed : Place} (hs : Answered q s.kbc) (hmore : 1 ≤ s.cx)
    (hon : a20 q = true → At chip p { s.kbc with outBuf := none } (.returned 0))
    (hagain : a20 q = false → At chip p { s.kbc with outBuf := none } again ∧ holdsPort again = false)
    (hfailed : a20 q = false → At chip p { s.kbc with outBuf := none } failed ∧ holdsPort failed = false) :
    Kept chip p (checkA20 (readData s).2 again failed (readData s).1) := by
  have hbyte : (readData s).1 = q := by simp [readData, hs.output]
  rw [hbyte]
  unfold checkA20
  split
  · next hq =>
    exact ⟨hon hq, by simp [holdsPort], hmore⟩
  · next hq =>
    rw [Bool.not_eq_true] at hq
    split
    · refine ⟨(hagain hq).1, ?_, ?_⟩
      · simp [(hagain hq).2]
      · change 1 ≤ (readData s).2.cx - 1
        omega
    · refine ⟨(hfailed hq).1, ?_, by simp⟩
      simp [(hfailed hq).2]

theorem loaderStep_kept (hs : Kept chip p s) : Kept chip p (loaderStep s) := by
  obtain ⟨place, cx, pushed, kbc⟩ := s
  have hmore : 1 ≤ cx := hs.more
  have hat : At chip p kbc place := hs.at_place
  have hpushed : holdsPort place = true → pushed = p := hs.pushed
  cases place with
  | startAttempt1 => exact cmdWait_kept hs (fun _ => hat) (by simp [holdsPort])
  | sendRead1 => exact ⟨Idle.asks hat, by simp [loaderStep, send, holdsPort], hmore⟩
  | dataWait1 => exact dataWait_kept hs hat (fun h => h) rfl
  | readPort =>
    have hport : (kbc.outBuf.getD 0 : Byte) = p := by simp [Answered.output hat]
    exact ⟨Answered.reads hat, fun _ => hport, hmore⟩
  | commandWait2 => exact cmdWait_kept hs (fun _ => hat) (fun _ => hpushed rfl)
  | sendWrite => exact ⟨Idle.sends hat, fun _ => hpushed rfl, hmore⟩
  | cmdWait3 => exact cmdWait_kept hs (fun hin => Sending.taken_expecting hat hin) (fun _ => hpushed rfl)
  | writePort =>
    have hp : pushed = p := hpushed rfl
    subst hp
    exact ⟨Expecting.sends hat, by simp [loaderStep, send, holdsPort], hmore⟩
  | cmdWait4 => exact cmdWait_kept hs (fun hin => Sending.taken_idle hat hin) (by simp [holdsPort])
  | sendRead2 => exact ⟨Idle.asks hat, by simp [loaderStep, send, holdsPort], hmore⟩
  | dataWait2 => exact dataWait_kept hs hat (fun h => h) rfl
  | readBack1 =>
    have hanswered : Answered (written chip (p ||| 0x02) p) kbc := hat
    have hread := hanswered.reads
    apply checkA20_kept hanswered hmore
    · intro hq
      have hon := not_stuck.mp (a20_written.mp hq)
      rw [written_on hon] at hread
      exact Or.inl ⟨rfl, hon.imp_right Or.inl, hread⟩
    · intro hq
      rw [written_off (stuck_of_not_a20 hq)] at hread
      exact ⟨hread, rfl⟩
    · intro hq
      have hstuck := stuck_of_not_a20 hq
      rw [written_off hstuck] at hread
      exact ⟨⟨hstuck, hread⟩, rfl⟩
  | startAttempt2 => exact cmdWait_kept hs (fun _ => hat) (by simp [holdsPort])
  | sendEnable => exact ⟨⟨hat.1, Idle.sends hat.2⟩, by simp [loaderStep, send, holdsPort], hmore⟩
  | cmdWait6 => exact cmdWait_kept hs (fun hin => ⟨hat.1, Sending.taken_idle hat.2 hin⟩) (by simp [holdsPort])
  | sendRead3 => exact ⟨⟨hat.1, Idle.asks hat.2⟩, by simp [loaderStep, send, holdsPort], hmore⟩
  | dataWait3 => exact dataWait_kept hs hat.2 (fun h => ⟨hat.1, h⟩) rfl
  | readBack2 =>
    have hstuck : Stuck chip p := hat.1
    have hanswered : Answered (enabled chip p) kbc := hat.2
    have hread := hanswered.reads
    apply checkA20_kept hanswered hmore
    · intro hq
      have hen := (a20_enabled hstuck).mp hq
      rw [enabled, hen] at hread
      exact Or.inl ⟨rfl, Or.inr (Or.inr hen), hread⟩
    · intro hq
      rw [(enabled_off hstuck hq).2] at hread
      exact ⟨⟨hstuck, hread⟩, rfl⟩
    · intro hq
      obtain ⟨hworks, hport⟩ := enabled_off hstuck hq
      rw [hport] at hread
      exact ⟨Or.inr ⟨rfl, hworks, hread⟩, rfl⟩
  | returned eax => exact hs

theorem turn_kept (party : Party) (hs : Kept chip p s) : Kept chip p (turn chip party s) := by
  cases party with
  | loader => exact loaderStep_kept hs
  | controller => exact ⟨hs.at_place.controller, hs.pushed, hs.more⟩

theorem start_kept (chip : Chip) (p pushed : Byte) : Kept chip p (start p pushed) :=
  ⟨⟨rfl, rfl, rfl, rfl⟩, by simp [start, holdsPort], by simp [start]⟩

theorem states_kept (chip : Chip) (p pushed : Byte) (schedule : ℕ → Party) (n : ℕ) :
    Kept chip p (states (turn chip) schedule (start p pushed) n) :=
  states_invariant (fun party _ hs => turn_kept party hs) (start_kept chip p pushed) n

/-! ### The rank -/

/-- What is left of an attempt. An attempt of the first method counts on top of all of the second. -/
def left : Place → ℕ
  | .startAttempt1 => 211
  | .sendRead1 => 210
  | .dataWait1 => 209
  | .readPort => 208
  | .commandWait2 => 207
  | .sendWrite => 206
  | .cmdWait3 => 205
  | .writePort => 204
  | .cmdWait4 => 203
  | .sendRead2 => 202
  | .dataWait2 => 201
  | .readBack1 => 200
  | .startAttempt2 => 105
  | .sendEnable => 104
  | .cmdWait6 => 103
  | .sendRead3 => 102
  | .dataWait3 => 101
  | .readBack2 => 100
  | .returned _ => 0

def rank (s : Handshake) : ℕ := 30 * s.cx + 2 * left s.place + s.kbc.inBuf.elim 0 fun _ => 1

theorem cmdWait_lowers {next : Place} (hleft : left next < left s.place) :
    cmdWait s next = s ∨ rank (cmdWait s next) < rank s := by
  unfold cmdWait
  split
  · exact Or.inl rfl
  · right
    simp only [rank]
    omega

theorem dataWait_lowers {next : Place} (hleft : left next < left s.place) :
    dataWait s next = s ∨ rank (dataWait s next) < rank s := by
  unfold dataWait
  split
  · right
    simp only [rank]
    omega
  · exact Or.inl rfl

theorem send_lowers {b : Sent} {next : Place} (hleft : left next < left s.place) :
    rank (send s b next) < rank s := by
  simp only [rank, send, Option.elim_some]
  omega

theorem checkA20_lowers {again failed : Place} {b : Byte} (hmore : 1 ≤ s.cx)
    (hagain : left again ≤ left s.place + 11) (hfailed : left failed + 61 ≤ left s.place) :
    rank (checkA20 s again failed b) < rank s := by
  have hzero : left (.returned 0) = 0 := rfl
  unfold checkA20
  split
  · simp only [rank, hzero]
    omega
  · split
    · simp only [rank]
      omega
    · simp only [rank]
      omega

theorem loaderStep_lowers (hmore : 1 ≤ s.cx) : loaderStep s = s ∨ rank (loaderStep s) < rank s := by
  obtain ⟨place, cx, pushed, kbc⟩ := s
  cases place with
  | startAttempt1 | commandWait2 | cmdWait3 | cmdWait4 | startAttempt2 | cmdWait6 =>
    apply cmdWait_lowers
    simp [left]
  | sendRead1 | sendWrite | writePort | sendRead2 | sendEnable | sendRead3 =>
    right
    apply send_lowers
    simp [left]
  | dataWait1 | dataWait2 | dataWait3 =>
    apply dataWait_lowers
    simp [left]
  | readPort =>
    right
    simp only [loaderStep, rank, left, readData]
    omega
  | readBack1 =>
    right
    have hagain : left .startAttempt1 ≤ left .readBack1 + 11 := by decide
    have hfailed : left .startAttempt2 + 61 ≤ left .readBack1 := by decide
    exact checkA20_lowers (s := (readData ⟨.readBack1, cx, pushed, kbc⟩).2) hmore hagain hfailed
  | readBack2 =>
    right
    have hagain : left .startAttempt2 ≤ left .readBack2 + 11 := by decide
    have hfailed : left (.returned 0xFFFFFFFF) + 61 ≤ left .readBack2 := by decide
    exact checkA20_lowers (s := (readData ⟨.readBack2, cx, pushed, kbc⟩).2) hmore hagain hfailed
  | returned eax => exact Or.inl rfl

theorem turn_lowers (party : Party) (hs : Kept chip p s) :
    turn chip party s = s ∨ rank (turn chip party s) < rank s := by
  cases party with
  | loader => exact loaderStep_lowers hs.more
  | controller =>
    rcases controllerStep_same_or_takes chip s.kbc with hsame | ⟨hin, hempty⟩
    · left
      simp [turn, hsame]
    · right
      obtain ⟨b, hb⟩ := Option.isSome_iff_exists.mp hin
      simp [turn, rank, hb, hempty]

/-! ### Somebody can move -/

theorem controllerStep_takes (chip : Chip) (hout : c.outBuf = none) :
    (controllerStep chip c).inBuf = none := by
  unfold controllerStep
  split
  · assumption
  · split_ifs <;> simp_all
  · split_ifs <;> rfl

/-- While the controller has not taken a byte there is nothing to be read. -/
theorem At.output_of_input {place : Place} (h : At chip p c place) (hin : c.inBuf ≠ none) :
    c.outBuf = none := by
  cases place with
  | startAttempt1 | sendRead1 | commandWait2 | sendWrite | sendRead2 => exact Idle.output h
  | dataWait1 | dataWait2 => exact (Asking.answer h).elim And.right fun hempty => absurd hempty.1 hin
  | readPort | readBack1 => exact absurd (Answered.input h) hin
  | cmdWait3 | cmdWait4 => exact Sending.output h
  | writePort => exact Expecting.output h
  | startAttempt2 | sendEnable | sendRead3 => exact Idle.output h.2
  | cmdWait6 => exact Sending.output h.2
  | dataWait3 => exact (Asking.answer h.2).elim And.right fun hempty => absurd hempty.1 hin
  | readBack2 => exact absurd (Answered.input h.2) hin
  | returned eax => exact h.elim (fun hon => hon.2.2.output) fun hoff => hoff.2.2.output

theorem controller_moves (hs : Kept chip p s) (hin : s.kbc.inBuf ≠ none) : turn chip .controller s ≠ s := by
  intro heq
  have htakes := controllerStep_takes chip (hs.at_place.output_of_input hin)
  have hkbc : controllerStep chip s.kbc = s.kbc := congrArg Handshake.kbc heq
  rw [hkbc] at htakes
  exact hin htakes

theorem Asking.answered (h : Asking q c) (hin : c.inBuf = none) : c.outBuf = some q := by
  rcases h.answer with ⟨hin', _⟩ | ⟨_, hout⟩
  · rw [hin] at hin'
    contradiction
  · exact hout

theorem checkA20_moves {again failed : Place} {b : Byte} (hagain : again ≠ s.place)
    (hfailed : failed ≠ s.place) (hreturn : s.place ≠ .returned 0) :
    (checkA20 s again failed b).place ≠ s.place := by
  unfold checkA20
  split_ifs
  · exact hreturn.symm
  · exact hagain
  · exact hfailed

/-- With the input buffer empty the loader goes on to another place. -/
theorem loader_moves (hs : Kept chip p s) (hin : s.kbc.inBuf = none) (hplace : ∀ eax, s.place ≠ .returned eax) :
    (loaderStep s).place ≠ s.place := by
  obtain ⟨place, cx, pushed, kbc⟩ := s
  have hat : At chip p kbc place := hs.at_place
  have hempty : kbc.inBuf = none := hin
  cases place with
  | startAttempt1 | commandWait2 | cmdWait3 | cmdWait4 | startAttempt2 | cmdWait6 =>
    simp [loaderStep, cmdWait, hempty]
  | sendRead1 | sendWrite | writePort | sendRead2 | sendEnable | sendRead3 => simp [loaderStep, send]
  | dataWait1 | dataWait2 => simp [loaderStep, dataWait, Asking.answered hat hempty]
  | dataWait3 => simp [loaderStep, dataWait, Asking.answered hat.2 hempty]
  | readPort => simp [loaderStep]
  | readBack1 | readBack2 => apply checkA20_moves <;> simp [readData]
  | returned eax => exact absurd rfl (hplace eax)

theorem somebody_moves (hs : Kept chip p s) (hplace : ¬ ∃ eax, s.place = .returned eax) :
    ∃ party, turn chip party s ≠ s := by
  by_cases hin : s.kbc.inBuf = none
  · refine ⟨.loader, fun heq => ?_⟩
    apply loader_moves hs hin fun eax heax => hplace ⟨eax, heax⟩
    exact congrArg Handshake.place heq
  · exact ⟨.controller, controller_moves hs hin⟩

theorem handshake_ranked (chip : Chip) (p : Byte) :
    Ranked (turn chip) (Kept chip p) (fun s => ∃ eax, s.place = .returned eax) rank where
  keeps party _ hs := turn_kept party hs
  lowers party _ hs := turn_lowers party hs
  moves _ hs hplace := somebody_moves hs hplace

/-! ### Every interleaving -/

def sends : Place → Bool
  | .sendRead1 | .sendWrite | .writePort | .sendRead2 | .sendEnable | .sendRead3 => true
  | _ => false

def reads : Place → Bool
  | .readPort | .readBack1 | .readBack2 => true
  | _ => false

theorem At.sends {place : Place} (h : At chip p c place) (hplace : sends place = true) : c.inBuf = none := by
  cases place with
  | sendRead1 | sendWrite | sendRead2 => exact Idle.input h
  | writePort => exact Expecting.input h
  | sendEnable | sendRead3 => exact Idle.input h.2
  | _ => simp [EnableA20.sends] at hplace

theorem At.reads {place : Place} (h : At chip p c place) (hplace : reads place = true) :
    c.outBuf = some c.port := by
  cases place with
  | readPort | readBack1 => rw [Answered.output h, Answered.port h]
  | readBack2 => rw [Answered.output h.2, Answered.port h.2]
  | _ => simp [EnableA20.reads] at hplace

/-- The one data byte that is ever sent is the one for the output port. -/
theorem At.data {place : Place} {b : Byte} (h : At chip p c place) (hin : c.inBuf = some (.data b)) :
    c.expecting = true ∧ b = p ||| 0x02 := by
  have idle {q : Byte} (h : Idle q c) : False := by simp [h.input] at hin
  have answered {q : Byte} (h : Answered q c) : False := by simp [h.input] at hin
  have asking {q : Byte} (h : Asking q c) : False := by
    rcases h.answer with ⟨hin', _⟩ | ⟨hin', _⟩ <;> simp [hin'] at hin
  cases place with
  | startAttempt1 | sendRead1 | commandWait2 | sendWrite | sendRead2 => exact (idle h).elim
  | dataWait1 | dataWait2 => exact (asking h).elim
  | readPort | readBack1 => exact (answered h).elim
  | cmdWait3 => rcases Sending.taken h with ⟨hin', _⟩ | ⟨hin', _⟩ <;> simp [hin'] at hin
  | cmdWait4 =>
    rcases Sending.taken h with ⟨hin', hbefore⟩ | ⟨hin', _⟩
    · rw [hin'] at hin
      simp only [Option.some.injEq, Sent.data.injEq] at hin
      exact ⟨congrArg Prod.fst hbefore, hin.symm⟩
    · simp [hin'] at hin
  | writePort => simp [Expecting.input h] at hin
  | startAttempt2 | sendEnable | sendRead3 => exact (idle h.2).elim
  | cmdWait6 => rcases Sending.taken h.2 with ⟨hin', _⟩ | ⟨hin', _⟩ <;> simp [hin'] at hin
  | dataWait3 => exact (asking h.2).elim
  | readBack2 => exact (answered h.2).elim
  | returned eax => exact (h.elim (fun hon => idle hon.2.2) fun hoff => idle hoff.2.2).elim

theorem written_port (chip : Chip) (p : Byte) :
    written chip (p ||| 0x02) p = p ∨ written chip (p ||| 0x02) p = p ||| 0x02 := by
  by_cases h : Stuck chip p
  · exact Or.inl (written_off h)
  · exact Or.inr (written_on (not_stuck.mp h))

theorem enabled_port (chip : Chip) (p : Byte) : enabled chip p = p ∨ enabled chip p = p ||| 0x02 := by
  unfold enabled
  split <;> simp

theorem Sending.port {b : Sent} {q r : Byte} {x y : Bool} (h : Sending b (x, q) (y, r) c) :
    c.port = q ∨ c.port = r :=
  h.taken.imp (fun hbefore => congrArg Prod.snd hbefore.2) fun hafter => congrArg Prod.snd hafter.2

theorem At.port {place : Place} (h : At chip p c place) : c.port = p ∨ c.port = p ||| 0x02 := by
  have hwritten := written_port chip p
  have henabled := enabled_port chip p
  cases place with
  | startAttempt1 | sendRead1 | commandWait2 | sendWrite => exact Or.inl (Idle.port h)
  | dataWait1 => exact Or.inl (Asking.port h)
  | readPort => exact Or.inl (Answered.port h)
  | cmdWait3 => exact Or.inl ((Sending.port h).elim id id)
  | writePort => exact Or.inl (Expecting.port h)
  | cmdWait4 =>
    rcases Sending.port h with hport | hport <;> rw [hport]
    · exact Or.inl rfl
    · exact hwritten
  | sendRead2 =>
    rw [Idle.port h]
    exact hwritten
  | dataWait2 =>
    rw [Asking.port h]
    exact hwritten
  | readBack1 =>
    rw [Answered.port h]
    exact hwritten
  | startAttempt2 | sendEnable => exact Or.inl (Idle.port h.2)
  | cmdWait6 =>
    rcases Sending.port h.2 with hport | hport <;> rw [hport]
    · exact Or.inl rfl
    · exact henabled
  | sendRead3 =>
    rw [Idle.port h.2]
    exact henabled
  | dataWait3 =>
    rw [Asking.port h.2]
    exact henabled
  | readBack2 =>
    rw [Answered.port h.2]
    exact henabled
  | returned eax =>
    rcases h with ⟨_, _, hidle⟩ | ⟨_, _, hidle⟩
    · exact Or.inr hidle.port
    · exact Or.inl hidle.port

/-- While no key is pressed, and however the two take turns: a port is written only when the controller has taken
what was sent before, 60h is read only when the value of the output port waits there, no byte reaches the
keyboard, and no other bit of the output port ever changes. -/
theorem handshake_safe (chip : Chip) (p pushed : Byte) (schedule : ℕ → Party) (n : ℕ) :
    let s := states (turn chip) schedule (start p pushed) n
    (sends s.place = true → s.kbc.inBuf = none) ∧ (reads s.place = true → s.kbc.outBuf = some s.kbc.port) ∧
      (∀ b, s.kbc.inBuf = some (.data b) → s.kbc.expecting = true ∧ b = p ||| 0x02) ∧
      (s.kbc.port = p ∨ s.kbc.port = p ||| 0x02) := by
  have hat := (states_kept chip p pushed schedule n).at_place
  exact ⟨hat.sends, hat.reads, fun _ => hat.data, hat.port⟩

theorem returned_stays {eax : BitVec 32} (hs : Kept chip p s) (hplace : s.place = .returned eax)
    (party : Party) : turn chip party s = s := by
  have hat := hs.at_place
  rw [hplace] at hat
  cases party with
  | loader => simp [turn, loaderStep, hplace]
  | controller =>
    have hin : s.kbc.inBuf = none := hat.elim (fun hon => hon.2.2.input) fun hoff => hoff.2.2.input
    simp [turn, controllerStep_empty hin]

/-- While no key is pressed, the routine returns however slow the controller is, and nothing happens after it. It
returns 0 exactly when the line was on or a method turns it on, and then the line is on; otherwise -1, and the
port is as it was. -/
theorem enableA20_returns (chip : Chip) (p pushed : Byte) (schedule : ℕ → Party) (hfair : Fair schedule) :
    ∃ n eax s, (∀ m, n ≤ m → states (turn chip) schedule (start p pushed) m = s) ∧ s.place = .returned eax ∧
      (eax = 0 ∧ Works chip p ∧ s.kbc.port = p ||| 0x02 ∨
        eax = 0xFFFFFFFF ∧ ¬ Works chip p ∧ s.kbc.port = p) := by
  obtain ⟨n, eax, hplace⟩ := (handshake_ranked chip p).reaches hfair (start_kept chip p pushed)
  have hkept := states_kept chip p pushed schedule n
  have hat := hkept.at_place
  rw [hplace] at hat
  refine ⟨n, eax, _, states_stay (returned_stays hkept hplace), hplace, ?_⟩
  rcases hat with ⟨heax, hworks, hidle⟩ | ⟨heax, hworks, hidle⟩
  · exact Or.inl ⟨heax, hworks, hidle.port⟩
  · exact Or.inr ⟨heax, hworks, hidle.port⟩

/-- Two turns of the loader to one of the controller, on a chip set where only command DFh works. -/
def loaderTwice (n : ℕ) : Party := if n % 3 = 2 then .controller else .loader

theorem loaderTwice_fair : Fair loaderTwice := by
  intro party n
  cases party with
  | loader =>
    refine ⟨3 * n, by omega, ?_⟩
    have hthird : 3 * n % 3 = 0 := by omega
    simp [loaderTwice, hthird]
  | controller =>
    refine ⟨3 * n + 2, by omega, ?_⟩
    have hthird : (3 * n + 2) % 3 = 2 := by omega
    simp [loaderTwice, hthird]

theorem enableA20_returns_second :
    ∃ n eax s, (∀ m, n ≤ m → states (turn ⟨false, true⟩) loaderTwice (start 0xCD 0) m = s) ∧
      s.place = .returned eax ∧
      (eax = 0 ∧ Works ⟨false, true⟩ 0xCD ∧ s.kbc.port = 0xCD ||| 0x02 ∨
        eax = 0xFFFFFFFF ∧ ¬ Works ⟨false, true⟩ 0xCD ∧ s.kbc.port = 0xCD) :=
  enableA20_returns ⟨false, true⟩ 0xCD 0 loaderTwice loaderTwice_fair

end Handshakes

end Ktux.EnableA20
