import Ktux.CommandBuffer
import Ktux.Pic
import Ktux.StringCompare

set_option autoImplicit false

/-!
# The shell
-/
namespace Ktux.Shell
open CString StringCompare Pic

@[simp] def irqTimer : ℕ := 0

/-- The literal that commands are compared with. -/
def timer : List UInt8 := Keyboard.typed "timer"

structure State where
  shellInitialized : Bool
  irqs : Irqs

def processCommand (fuel : ℕ) (command : Chars) (s : State) : Option State :=
  if s.shellInitialized = false then some s
  else (strcmp fuel command fun i => timer.getD i 0).map fun r =>
    if r = 1 then { s with irqs := (toggleIrq irqTimer s.irqs).2 } else s

/-- The string toggles the timer interrupt exactly when it is the literal. -/
def TogglesTimer (line : List UInt8) : Prop :=
  ∀ command s, Holds command line → s.shellInitialized = true → ∃ fuel, processCommand fuel command s =
    some (if line = timer then { s with irqs := (toggleIrq irqTimer s.irqs).2 } else s)

/-- Where it leaves the literal, the string is not one above it; so it is not the literal either. -/
def NotOneAbove (line : List UInt8) : Prop :=
  line ≠ timer ∧ ∀ i, FirstDifference line timer i → (line.getD i 0).toNat ≠ (timer.getD i 0).toNat + 1

theorem timer_nonzero : ∀ c ∈ timer, c ≠ 0 := nonzero_of_not_mem (by decide)

theorem setStatus_self (irqNum x : ℕ) (s : Irqs) : (setStatus irqNum x s).irqStatus irqNum = x := by
  change Function.update s.irqStatus irqNum x irqNum = x
  rw [Function.update_self]

theorem toggle_ne {s : Irqs} (h : s.idtInitialized = true) : (toggleIrq irqTimer s).2 ≠ s := by
  intro hsame
  have hstatus := congrArg (fun u : Irqs => u.irqStatus irqTimer) hsame
  rw [toggleIrq, if_neg (by rw [h]; decide), if_neg (by decide)] at hstatus
  dsimp only at hstatus
  split_ifs at hstatus with hzero
  · rw [enableIrq, if_neg (by decide), if_pos (by decide)] at hstatus
    rw [setStatus_self, hzero] at hstatus
    exact absurd hstatus (by decide)
  · rw [disableIrq, if_neg (by decide), if_pos (by decide)] at hstatus
    rw [setStatus_self] at hstatus
    exact hzero hstatus.symm

section Lines
variable {line : List UInt8} {command : Chars} {s : State}

theorem processCommand_eq (hinit : s.shellInitialized = true) {fuel : ℕ} {r : ℤ}
    (hrun : strcmp fuel command (fun i => timer.getD i 0) = some r) : processCommand fuel command s =
      some (if r = 1 then { s with irqs := (toggleIrq irqTimer s.irqs).2 } else s) := by
  rw [processCommand, if_neg (by rw [hinit]; decide), hrun, Option.map_some]

theorem processCommand_unique {fuel fuel' : ℕ} {t t' : State} (h : processCommand fuel command s = some t)
    (h' : processCommand fuel' command s = some t') : t = t' := by
  unfold processCommand at h h'
  split_ifs at h h' with hinit
  · exact Option.some.inj (h.symm.trans h')
  · obtain ⟨r, hr, rfl⟩ := Option.map_eq_some_iff.mp h
    obtain ⟨r', hr', rfl⟩ := Option.map_eq_some_iff.mp h'
    rw [strcmp_unique hr hr']

theorem charDiff_eq_one {a b : UInt8} : charDiff a b = 1 ↔ a.toNat = b.toNat + 1 := by
  rw [charDiff]
  omega

/-- The typed literal itself does nothing: `strcmp` is 0 on it. -/
theorem processCommand_timer (hc : Holds command timer) (hinit : s.shellInitialized = true) :
    ∃ fuel, processCommand fuel command s = some s := by
  obtain ⟨fuel, r, hrun, hcompares⟩ := strcmp_compares hc (holds_getD timer_nonzero)
  refine ⟨fuel, ?_⟩
  rw [processCommand_eq hinit hrun, hcompares.equal.mpr rfl]
  rfl

theorem processCommand_differs (hc : Holds command line) (hinit : s.shellInitialized = true) {i : ℕ}
    (hi : FirstDifference line timer i) : ∃ fuel, processCommand fuel command s =
      some (if (line.getD i 0).toNat = (timer.getD i 0).toNat + 1 then
        { s with irqs := (toggleIrq irqTimer s.irqs).2 } else s) := by
  obtain ⟨fuel, hrun⟩ := strcmp_firstDifference hc (holds_getD timer_nonzero) hi
  refine ⟨fuel, ?_⟩
  rw [processCommand_eq hinit hrun]
  simp only [charDiff_eq_one]

/-- A shell on which a toggle shows. -/
def ready : State := ⟨true, ⟨⟨0, 0⟩, ⟨0, 0⟩, fun _ => 0, true⟩⟩

theorem not_togglesTimer_timer : ¬TogglesTimer timer := by
  intro htoggles
  have hholds := holds_getD timer_nonzero
  obtain ⟨fuel, hrun⟩ := htoggles _ ready hholds rfl
  obtain ⟨fuel', hkept⟩ := processCommand_timer hholds (s := ready) rfl
  rw [if_pos rfl] at hrun
  exact toggle_ne (s := ready.irqs) rfl (congrArg State.irqs (processCommand_unique hrun hkept))

theorem togglesTimer_differs (hline : ∀ c ∈ line, c ≠ 0) {i : ℕ} (hi : FirstDifference line timer i) :
    TogglesTimer line ↔ (line.getD i 0).toNat ≠ (timer.getD i 0).toNat + 1 := by
  have hne : line ≠ timer := fun h => hi.differ (h ▸ rfl)
  constructor
  · intro htoggles habove
    obtain ⟨fuel, hrun⟩ := htoggles _ ready (holds_getD hline) rfl
    obtain ⟨fuel', htoggled⟩ := processCommand_differs (holds_getD hline) (s := ready) rfl hi
    rw [if_neg hne] at hrun
    rw [if_pos habove] at htoggled
    exact toggle_ne (s := ready.irqs) rfl (congrArg State.irqs (processCommand_unique htoggled hrun))
  · intro habove command s hc hinit
    obtain ⟨fuel, hrun⟩ := processCommand_differs hc hinit hi
    rw [if_neg habove] at hrun
    rw [if_neg hne]
    exact ⟨fuel, hrun⟩

theorem togglesTimer_iff (hline : ∀ c ∈ line, c ≠ 0) : TogglesTimer line ↔ NotOneAbove line := by
  by_cases heq : line = timer
  · exact iff_of_false (heq ▸ not_togglesTimer_timer) fun h => h.1 heq
  · obtain ⟨i, hi⟩ := exists_firstDifference hline timer_nonzero heq
    rw [togglesTimer_differs hline hi]
    exact ⟨fun habove => ⟨heq, fun k hk => hk.unique hi ▸ habove⟩, fun h => h.2 i hi⟩

end Lines

/-- The command buffer with "timer" in it goes to the shell, and the interrupts stay as they are. -/
theorem entered_timer_ignored {d : Keyboard.Driver} (h : CommandBuffer.EntersLine d timer) {s : State}
    (hinit : s.shellInitialized = true) : ∃ command, (Keyboard.cmdBufAdd Keyboard.newline d).2.effects =
      d.effects ++ [.processCommand command] ∧ ∃ fuel, processCommand fuel command s = some s := by
  obtain ⟨command, heffect, hstring, _⟩ := h
  have hholds : Holds command timer :=
    ⟨fun i hi => (congrArg command (Nat.zero_add i)).symm.trans (hstring.byte hi), hstring.nonzero⟩
  exact ⟨command, heffect, processCommand_timer hholds hinit⟩

theorem processCommand_toggles_iff {line : List UInt8} (hnul : 0 ∉ line) :
    (∀ ys s1 s2, Holds s1 line → Holds s2 ys → ∃ fuel r, strcmp fuel s1 s2 = some r ∧ Compares line ys r) ∧
      (TogglesTimer line ↔ NotOneAbove line) :=
  ⟨fun _ _ _ => strcmp_compares, togglesTimer_iff (nonzero_of_not_mem hnul)⟩

theorem processCommand_toggles_words :
    TogglesTimer (Keyboard.typed "time") ∧ ¬TogglesTimer (Keyboard.typed "uimer") := by
  refine ⟨(processCommand_toggles_iff (by decide)).2.mpr ⟨by decide, fun i hi => ?_⟩, fun h => ?_⟩
  · have hend : FirstDifference (Keyboard.typed "time") timer 4 := ⟨by decide, by decide⟩
    rw [hi.unique hend]
    decide
  · exact ((processCommand_toggles_iff (by decide)).2.mp h).2 0 ⟨by decide, by decide⟩ (by decide)

theorem processCommand_misses_timer : ¬∀ line, 0 ∉ line → TogglesTimer line :=
  fun h => not_togglesTimer_timer (h timer (by decide))

end Ktux.Shell
