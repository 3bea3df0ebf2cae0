import Ktux.Keyboard
import Mathlib.Data.List.Induction

set_option autoImplicit false

/-!
# Modifier and lock bits

`kbd_status` against the history of scancodes: which keys are held, and how often each lock key went down.
-/
namespace Ktux.KeyboardStatus
open ByteMemory Keyboard

def breakCode (key : UInt8) : UInt8 := key + 0x80

def heldAfter (key : UInt8) (held : Bool) (keycode : UInt8) : Bool :=
  if keycode = key then true else if keycode = breakCode key then false else held

/-- The last make or break of `key` is a make. -/
def held (key : UInt8) (keycodes : List UInt8) : Bool := keycodes.foldl (heldAfter key) false

def isSet (mask kbdStatus : BitVec 16) : Bool := kbdStatus &&& mask ≠ 0

def toggled (key : UInt8) (keycodes : List UInt8) : Bool := keycodes.count key % 2 = 1

structure Follows (kbdStatus : BitVec 16) (keycodes : List UInt8) : Prop where
  shift : isSet kbdMetaShift kbdStatus = (held raw1LeftShift keycodes || held raw1RightShift keycodes)
  ctrl : isSet kbdMetaCtrl kbdStatus = (held raw1LeftCtrl keycodes || held raw1RightCtrl keycodes)
  alt : isSet kbdMetaAlt kbdStatus = (held raw1LeftAlt keycodes || held raw1RightAlt keycodes)
  caps : isSet kbdMetaCaps kbdStatus = toggled raw1CapsLock keycodes
  num : isSet kbdMetaNum kbdStatus = toggled raw1NumLock keycodes
  scrl : isSet kbdMetaScrl kbdStatus = toggled raw1ScrollLock keycodes

/-- After `keycodes` one Shift key goes up while the other is down. -/
def LetsGoOfOneShift (keycodes : List UInt8) (keycode : UInt8) : Prop :=
  keycode = breakCode raw1LeftShift ∧ held raw1RightShift keycodes = true ∨
    keycode = breakCode raw1RightShift ∧ held raw1LeftShift keycodes = true

/-- What a scancode does to one bit of `kbd_status`. -/
inductive Change where
  | set (bit : ℕ)
  | clear (bit : ℕ)
  | flip (bit : ℕ)
  | none

def change (keycode : UInt8) : Change :=
  if 0x80 ≤ keycode then
    if isAlt (keycode &&& 0x7F) then .clear 9
    else if isCtrl (keycode &&& 0x7F) then .clear 10
    else if isShift (keycode &&& 0x7F) then .clear 11
    else .none
  else if isAlt keycode then .set 9
  else if isCtrl keycode then .set 10
  else if isShift keycode then .set 11
  else if keycode = raw1ScrollLock then .flip 14
  else if keycode = raw1NumLock then .flip 13
  else if keycode = raw1CapsLock then .flip 12
  else .none

def Change.apply (kbdStatus : BitVec 16) : Change → BitVec 16
  | set bit => kbdStatus ||| BitVec.twoPow 16 bit
  | clear bit => kbdStatus &&& ~~~BitVec.twoPow 16 bit
  | flip bit => kbdStatus ^^^ BitVec.twoPow 16 bit
  | none => kbdStatus

def Change.bitAfter (k : ℕ) (b : Bool) : Change → Bool
  | set bit => b || decide (k = bit)
  | clear bit => b && !decide (k = bit)
  | flip bit => b ^^ decide (k = bit)
  | none => b

section Frame
variable {s : Driver} {keycode key : UInt8}

/-- What typing leaves alone. -/
structure SameStatus (s u : Driver) : Prop where
  status : u.kbdStatus = s.kbdStatus
  saw : u.sawBreakCode = s.sawBreakCode

theorem SameStatus.after {u v : Driver} (h' : SameStatus u v) (h : SameStatus s u) : SameStatus s v :=
  ⟨h'.status.trans h.status, h'.saw.trans h.saw⟩

theorem putSpaces_sameStatus (n : ℕ) (s : Driver) : SameStatus s (putSpaces n s) := by
  induction n generalizing s with
  | zero => exact ⟨rfl, rfl⟩
  | succ n ih =>
    rw [putSpaces]
    exact (ih _).after ⟨rfl, rfl⟩

theorem memsetd_sameStatus (count dst : ℕ) (s : Driver) : SameStatus s (memsetd count dst s) := by
  induction count generalizing dst s with
  | zero => exact ⟨rfl, rfl⟩
  | succ count ih =>
    rw [memsetd]
    exact (ih _ _).after ⟨rfl, rfl⟩

theorem clearLine_sameStatus (count : ℕ) (s : Driver) : SameStatus s
    { memsetd count 0 (emit (.processCommand s.commandBuffer) s) with cmdBufPos := 0 } :=
  have h := memsetd_sameStatus count 0 (emit (.processCommand s.commandBuffer) s)
  ⟨h.status, h.saw⟩

theorem cmdBufAdd_sameStatus (key : UInt8) (s : Driver) : SameStatus s (cmdBufAdd key s).2 := by
  unfold cmdBufAdd
  split_ifs
  · exact ⟨rfl, rfl⟩
  · exact ⟨rfl, rfl⟩
  · exact putSpaces_sameStatus _ s
  · exact clearLine_sameStatus _ s
  · exact ⟨rfl, rfl⟩

theorem typeKey_sameStatus (i : UInt8) (s : Driver) : SameStatus s (typeKey i s) := by
  have h := cmdBufAdd_sameStatus i s
  unfold typeKey
  dsimp only
  split_ifs
  · exact ⟨h.status, h.saw⟩
  · exact ⟨h.status, h.saw⟩
  · exact h

theorem convert_sameStatus (key : UInt8) (s : Driver) : SameStatus s (convert key s).2 := by
  unfold convert
  dsimp only
  split_ifs <;> exact ⟨rfl, rfl⟩

theorem processKbd_status (h : s.sawBreakCode = false) (keycode : UInt8) :
    (processKbd keycode s).kbdStatus = (change keycode).apply s.kbdStatus ∧
      (processKbd keycode s).sawBreakCode = false := by
  unfold processKbd change
  dsimp only
  by_cases hbreak : 0x80 ≤ keycode
  · simp only [hbreak, decide_true, Bool.or_true, if_true]
    refine ⟨?_, trivial⟩
    unfold breakStatus
    split_ifs <;> rfl
  · simp only [h, hbreak, decide_false, Bool.or_self, Bool.false_eq_true, if_false]
    split_ifs
    · exact ⟨rfl, rfl⟩
    · exact ⟨rfl, rfl⟩
    · exact ⟨rfl, rfl⟩
    · exact ⟨rfl, rfl⟩
    · exact ⟨rfl, rfl⟩
    · exact ⟨rfl, rfl⟩
    · exact ⟨rfl, h⟩
    · have hsame := (typeKey_sameStatus (convert keycode s).1 _).after (convert_sameStatus keycode s)
      exact ⟨hsame.status, hsame.saw.trans h⟩
    · have hsame := convert_sameStatus keycode s
      exact ⟨hsame.status, hsame.saw.trans h⟩

theorem processAll_snoc (keycodes : List UInt8) (keycode : UInt8) (s : Driver) :
    processAll (keycodes ++ [keycode]) s = processKbd keycode (processAll keycodes s) :=
  List.foldl_append ..

theorem processAll_saw (h : s.sawBreakCode = false) (keycodes : List UInt8) :
    (processAll keycodes s).sawBreakCode = false := by
  induction keycodes using List.reverseRecOn with
  | nil => exact h
  | append_singleton keycodes keycode ih =>
    rw [processAll_snoc]
    exact (processKbd_status ih keycode).2

end Frame

section Bits
variable {kbdStatus : BitVec 16}

theorem isSet_twoPow (k : ℕ) (h : k < 16) : isSet (BitVec.twoPow 16 k) kbdStatus = kbdStatus.getLsbD k := by
  rw [isSet, BitVec.and_twoPow]
  have hne : BitVec.twoPow 16 k ≠ 0 := by
    intro hzero
    have hbit := congrArg (fun x => x.getLsbD k) hzero
    simp [h] at hbit
  cases kbdStatus.getLsbD k
  · simp
  · simpa using hne

theorem apply_isSet {k : ℕ} (mask : BitVec 16) (hmask : mask = BitVec.twoPow 16 k) (h : k < 16) (c : Change) :
    isSet mask (c.apply kbdStatus) = c.bitAfter k (isSet mask kbdStatus) := by
  subst hmask
  rw [isSet_twoPow k h, isSet_twoPow k h]
  cases c with
  | set bit => simp [Change.apply, Change.bitAfter, h]
  | clear bit => simp [Change.apply, Change.bitAfter, h]
  | flip bit => simp [Change.apply, Change.bitAfter, h]
  | none => rfl

/-- How `keycode` changes the bit of one key, or of the two Shift keys held as `b` and `b'` say. -/
def ReadsKeys (keycode : UInt8) (b b' : Bool) : Prop :=
  ((change keycode).bitAfter 11 (b || b') =
      (heldAfter raw1LeftShift b keycode || heldAfter raw1RightShift b' keycode) ↔
    ¬ (keycode = breakCode raw1LeftShift ∧ b' = true ∨ keycode = breakCode raw1RightShift ∧ b = true)) ∧
  (change keycode).bitAfter 10 b = heldAfter raw1LeftCtrl b keycode ∧
  (change keycode).bitAfter 9 b = heldAfter raw1LeftAlt b keycode ∧
  (change keycode).bitAfter 12 b = (b ^^ keycode == raw1CapsLock) ∧
  (change keycode).bitAfter 13 b = (b ^^ keycode == raw1NumLock) ∧
  (change keycode).bitAfter 14 b = (b ^^ keycode == raw1ScrollLock)

instance (keycode : UInt8) (b b' : Bool) : Decidable (ReadsKeys keycode b b') :=
  inferInstanceAs (Decidable (_ ∧ _))

theorem readsKeys_all :
    ((List.range 256).all fun n => decide (∀ b b', ReadsKeys (UInt8.ofNat n) b b')) = true := by
  decide +kernel

theorem readsKeys (keycode : UInt8) (b b' : Bool) : ReadsKeys keycode b b' := by
  have h := List.all_eq_true.mp readsKeys_all keycode.toNat (List.mem_range.mpr keycode.toNat_lt)
  rw [UInt8.ofNat_toNat] at h
  exact of_decide_eq_true h b b'

end Bits

section History
variable {keycodes : List UInt8}

theorem held_snoc (key : UInt8) (keycodes : List UInt8) (keycode : UInt8) :
    held key (keycodes ++ [keycode]) = heldAfter key (held key keycodes) keycode := List.foldl_append ..

theorem toggled_snoc (key : UInt8) (keycodes : List UInt8) (keycode : UInt8) :
    toggled key (keycodes ++ [keycode]) = (toggled key keycodes ^^ keycode == key) := by
  unfold toggled
  rw [List.count_append, List.count_singleton]
  by_cases h : keycode = key
  · simp only [h, beq_self_eq_true, if_true, Bool.xor_true]
    have hparity := Nat.mod_two_eq_zero_or_one (keycodes.count key)
    rcases hparity with hp | hp
    · simp [Nat.add_mod, hp]
    · simp [Nat.add_mod, hp]
  · have hfalse : (keycode == key) = false := beq_eq_false_iff_ne.mpr h
    simp only [hfalse, Bool.false_eq_true, if_false, Nat.add_zero, Bool.xor_false]

theorem follows_initial : Follows 0 [] := by constructor <;> rfl

/-- One scancode keeps the status in step, except where one Shift key goes up and the other is down. -/
theorem Follows.apply_iff {kbdStatus : BitVec 16} (h : Follows kbdStatus keycodes) (keycode : UInt8) :
    Follows ((change keycode).apply kbdStatus) (keycodes ++ [keycode]) ↔
    ¬ LetsGoOfOneShift keycodes keycode := by
  have hpair := (readsKeys keycode (held raw1LeftShift keycodes) (held raw1RightShift keycodes)).1
  have hctrl := (readsKeys keycode (held raw1LeftCtrl keycodes) false).2.1
  have halt := (readsKeys keycode (held raw1LeftAlt keycodes) false).2.2.1
  have hcaps := (readsKeys keycode (toggled raw1CapsLock keycodes) false).2.2.2.1
  have hnum := (readsKeys keycode (toggled raw1NumLock keycodes) false).2.2.2.2.1
  have hscrl := (readsKeys keycode (toggled raw1ScrollLock keycodes) false).2.2.2.2.2
  constructor
  · intro hfollows hgo
    have hbit := hfollows.shift
    rw [apply_isSet kbdMetaShift (k := 11) rfl (by decide), h.shift, held_snoc, held_snoc] at hbit
    exact hpair.mp hbit hgo
  · intro hnot
    refine ⟨?_, ?_, ?_, ?_, ?_, ?_⟩
    · rw [apply_isSet kbdMetaShift (k := 11) rfl (by decide), h.shift, held_snoc, held_snoc]
      exact hpair.mpr hnot
    · have hright : raw1RightCtrl = raw1LeftCtrl := rfl
      rw [apply_isSet kbdMetaCtrl (k := 10) rfl (by decide), h.ctrl, hright, Bool.or_self, held_snoc,
        Bool.or_self, hctrl]
    · have hright : raw1RightAlt = raw1LeftAlt := rfl
      rw [apply_isSet kbdMetaAlt (k := 9) rfl (by decide), h.alt, hright, Bool.or_self, held_snoc,
        Bool.or_self, halt]
    · rw [apply_isSet kbdMetaCaps (k := 12) rfl (by decide), h.caps, toggled_snoc, hcaps]
    · rw [apply_isSet kbdMetaNum (k := 13) rfl (by decide), h.num, toggled_snoc, hnum]
    · rw [apply_isSet kbdMetaScrl (k := 14) rfl (by decide), h.scrl, toggled_snoc, hscrl]

theorem kbdStatus_follows_iff (behind : ByteMem) (keycodes : List UInt8) :
    (∀ pre post, keycodes = pre ++ post →
      Follows (processAll pre (initKeyboard (staticKeyboard behind))).kbdStatus pre) ↔
    ∀ pre keycode post, keycodes = pre ++ keycode :: post → ¬ LetsGoOfOneShift pre keycode := by
  set s := initKeyboard (staticKeyboard behind)
  have hstep : ∀ pre keycode, Follows (processAll pre s).kbdStatus pre →
      (Follows (processAll (pre ++ [keycode]) s).kbdStatus (pre ++ [keycode]) ↔
      ¬ LetsGoOfOneShift pre keycode) := by
    intro pre keycode h
    rw [processAll_snoc, (processKbd_status (processAll_saw rfl pre) keycode).1]
    exact h.apply_iff keycode
  constructor
  · intro hall pre keycode post heq
    refine (hstep pre keycode (hall pre _ heq)).mp (hall (pre ++ [keycode]) post ?_)
    rw [heq, List.append_assoc, List.singleton_append]
  · intro hnever pre
    -- the scancodes up to here, one by one
    induction pre using List.reverseRecOn with
    | nil => exact fun _ _ => follows_initial
    | append_singleton pre keycode ih =>
      intro post heq
      rw [List.append_assoc, List.singleton_append] at heq
      exact (hstep pre keycode (ih _ heq)).mpr (hnever pre keycode post heq)

/-- Left Shift down, right Shift down, right Shift up. -/
theorem kbdStatus_follows_fails : ¬ ∀ (behind : ByteMem) (keycodes pre post : List UInt8),
    keycodes = pre ++ post →
    Follows (processAll pre (initKeyboard (staticKeyboard behind))).kbdStatus pre := by
  intro h
  have hfollows := h (fun _ => 0) [0x2A, 0x36, 0xB6] [0x2A, 0x36, 0xB6] [] rfl
  exact absurd hfollows.shift (by decide)

end History

end Ktux.KeyboardStatus
