import Ktux.Pic
import Ktux.Runs
import Mathlib.Data.Finset.Max

set_option autoImplicit false

/-!
# Acknowledging interrupts

Every stub of `isr.s` ends with an end-of-interrupt command to both controllers, whether a line or an
instruction has called it, and a stub that a thread entered may be left by another. Here is what the lines
see of this while handlers nest and threads switch. Stubs return to where they were entered from.
-/
namespace Ktux.Acknowledge
open Runs Pic

section Controller

/-- A non-specific end of interrupt ends the service with the highest priority, the lowest line. -/
def eoi (s : Finset ℕ) : Finset ℕ := if h : s.Nonempty then s.erase (s.min' h) else s

def Free (n : ℕ) (s : Finset ℕ) : Prop := ∀ k ∈ s, n < k

variable {s : Finset ℕ} {n : ℕ}

theorem eoi_subset (s : Finset ℕ) : eoi s ⊆ s := by
  unfold eoi
  split_ifs
  · exact Finset.erase_subset _ _
  · exact Finset.Subset.refl s

theorem eoi_least (hn : n ∈ s) (hleast : ∀ k ∈ s, n ≤ k) : eoi s = s.erase n := by
  have hmin : s.min' ⟨n, hn⟩ = n := le_antisymm (Finset.min'_le s n hn) (hleast _ (Finset.min'_mem s _))
  rw [eoi, dif_pos ⟨n, hn⟩, hmin]

theorem least_not_mem_eoi (hleast : ∀ k ∈ s, n ≤ k) : n ∉ eoi s := by
  by_cases hn : n ∈ s
  · rw [eoi_least hn hleast]
    exact Finset.notMem_erase n s
  · exact fun h => hn (eoi_subset s h)

end Controller

structure InService where
  master : Finset ℕ
  slave : Finset ℕ

/-- `out 0xA0, al` and `out 0x20, al` of `MACRO_REGS_RESTORE`. -/
def InService.acknowledge (v : InService) : InService := ⟨eoi v.master, eoi v.slave⟩

def Accepts (irqs : Irqs) (v : InService) (n : ℕ) : Prop :=
  masked irqs n = false ∧
    if n < 8 then Free n v.master
    else masked irqs irqCascade = false ∧ Free irqCascade v.master ∧ Free (n - 8) v.slave

def InService.raise (n : ℕ) (v : InService) : InService :=
  if n < 8 then { v with master := insert n v.master }
  else ⟨insert irqCascade v.master, insert (n - 8) v.slave⟩

/-- The stubs: of the timer and of `int 0x20`, of the keyboard, and all others. -/
inductive Handler where
  | taskSwitch | keyboard | other
  deriving DecidableEq

def handlerOf : ℕ → Handler
  | 0 => .taskSwitch
  | 1 => .keyboard
  | _ => .other

/-- A stub that has been entered and not left, and the interrupt flag in the EFLAGS that it saved. -/
structure Activation where
  handler : Handler
  interruptFlag : Bool

structure State where
  irqs : Irqs
  inService : InService
  interruptFlag : Bool
  running : ℕ
  active : ℕ → List Activation

def State.push (h : Handler) (s : State) : State :=
  { s with
    interruptFlag := false
    active := Function.update s.active s.running (⟨h, s.interruptFlag⟩ :: s.active s.running) }

def State.resume (t : ℕ) (flag : Bool) (rest : List Activation) (s : State) : State :=
  { s with
    inService := s.inService.acknowledge
    interruptFlag := flag
    running := t
    active := Function.update s.active t rest }

/-- `__task_switch` is being called. -/
def switches (xs : List Activation) : Bool := xs.head?.any fun a => a.handler = .taskSwitch

inductive Act where
  | flag (b : Bool)
  | toggled
  | irq (n : ℕ)
  | soft (h : Handler)
  | created (t : ℕ)
  | ended (h : Handler)
  deriving DecidableEq

/-- `__task_switch` neither sets the flag nor causes an interrupt; everything else may do both. -/
inductive AckStep : State → Act → State → Prop where
  | flag {s : State} (b : Bool) (hbody : switches (s.active s.running) = false) :
      AckStep s (.flag b) { s with interruptFlag := b }
  -- the command `timer` of the shell
  | toggle {s : State} (hbody : switches (s.active s.running) = false) :
      AckStep s .toggled { s with irqs := (toggleIrq 0 s.irqs).2 }
  | irq {s : State} (n : ℕ) (hline : n < 16) (hcascade : n ≠ irqCascade) (hflag : s.interruptFlag = true)
      (haccepts : Accepts s.irqs s.inService n) :
      AckStep s (.irq n) ({ s with inService := s.inService.raise n }.push (handlerOf n))
  | soft {s : State} (h : Handler) (hkeyboard : h ≠ .keyboard) (hbody : switches (s.active s.running) = false) :
      AckStep s (.soft h) (s.push h)
  -- the frame that `create_kernel_thread` prepares has the flag set
  | create {s : State} (t : ℕ) (hother : t ≠ s.running) (hnew : s.active t = []) :
      AckStep s (.created t) { s with active := Function.update s.active t [⟨.taskSwitch, true⟩] }
  | switch {s : State} (t : ℕ) (flag : Bool) (rest : List Activation)
      (hbody : switches (s.active s.running) = true) (hinto : s.active t = ⟨.taskSwitch, flag⟩ :: rest) :
      AckStep s (.ended .taskSwitch) (s.resume t flag rest)
  | ret {s : State} (h : Handler) (flag : Bool) (rest : List Activation) (hbody : h ≠ .taskSwitch)
      (htop : s.active s.running = ⟨h, flag⟩ :: rest) :
      AckStep s (.ended h) (s.resume s.running flag rest)

/-- The boot code, as the thread `t`, in front of the `sti` of `_kernel_main`. -/
def start (t : ℕ) : State where
  irqs := (enableIrq 0 (enableIrq 1 (initPic afterInitInterrupts)).2).2
  inService := ⟨∅, ∅⟩
  interruptFlag := false
  running := t
  active := fun _ => []

structure TwoLines (irqs : Irqs) : Prop where
  booked : Booked irqs
  keyboard : masked irqs 1 = false
  closed : ∀ n < 16, n ≠ irqCascade → n ≠ 0 → n ≠ 1 → masked irqs n = true

structure Acknowledged (s : State) : Prop where
  lines : TwoLines s.irqs
  master : ∀ n ∈ s.inService.master, n = 0 ∨ n = 1
  flag : s.interruptFlag = true → switches (s.active s.running) = false
  timer : 0 ∈ s.inService.master → switches (s.active s.running) = true
  keyboard : 1 ∈ s.inService.master → ∃ t, ∃ a ∈ s.active t, a.handler = .keyboard
  -- nothing is entered from `__task_switch`
  inner : ∀ t, ∀ a ∈ (s.active t).tail, a.handler ≠ .taskSwitch

section Lines
variable {irqs : Irqs} {n : ℕ}

theorem TwoLines.toggle (h : TwoLines irqs) : TwoLines (toggleIrq 0 irqs).2 := by
  have hkept : Kept (.toggle 0) := Or.inl (by decide)
  obtain ⟨hbooked, hsound⟩ := hkept.sound h.booked (by decide)
  refine ⟨hbooked, (hsound.others 1 (by decide) (by decide) (by decide)).trans h.keyboard, ?_⟩
  intro n hn hcascade hzero hone
  exact (hsound.others n hn hcascade hzero).trans (h.closed n hn hcascade hzero hone)

theorem start_lines (t : ℕ) : TwoLines (start t).irqs := by
  have hinit := initPic_booked (s := afterInitInterrupts) rfl
  have hfirst := (enableIrq_low hinit (n := 1) (by decide)).booked hinit (by decide) (by decide)
  have hbooked := (enableIrq_low hfirst (n := 0) (by decide)).booked hfirst (by decide) (by decide)
  exact ⟨hbooked, (by decide : masked (start 0).irqs 1 = false),
    (by decide : ∀ n < 16, n ≠ irqCascade → n ≠ 0 → n ≠ 1 → masked (start 0).irqs n = true)⟩

theorem TwoLines.line_cases (h : TwoLines irqs) {v : InService} (hn : n < 16) (hcascade : n ≠ irqCascade)
    (haccepts : Accepts irqs v n) : n = 0 ∨ n = 1 := by
  by_contra hnot
  obtain ⟨hzero, hone⟩ := not_or.mp hnot
  have hclosed := h.closed n hn hcascade hzero hone
  rw [haccepts.1] at hclosed
  contradiction

end Lines

section Steps
variable {s u : State} {a : Act}

theorem switches_cons (b : Activation) (rest : List Activation) :
    switches (b :: rest) = true ↔ b.handler = .taskSwitch := by
  simp [switches]

theorem switches_tail {xs : List Activation} (h : ∀ a ∈ xs, a.handler ≠ .taskSwitch) : switches xs = false := by
  cases xs with
  | nil => rfl
  | cons x xs => exact eq_false_of_ne_true fun hx => h x (List.mem_cons_self ..) ((switches_cons x xs).mp hx)

theorem eoi_zero (m : Finset ℕ) : 0 ∉ eoi m ∧ (1 ∈ eoi m → 0 ∈ m) := by
  refine ⟨least_not_mem_eoi fun k _ => Nat.zero_le k, fun hone => ?_⟩
  by_contra hzero
  have hleast : ∀ k ∈ m, 1 ≤ k := fun k hk => Nat.one_le_iff_ne_zero.mpr fun heq => hzero (heq ▸ hk)
  exact least_not_mem_eoi hleast hone

theorem Acknowledged.push (h : Acknowledged s) (hbody : switches (s.active s.running) = false)
    (handler : Handler) {v : InService} (hmaster : ∀ n ∈ v.master, n = 0 ∨ n = 1)
    (htimer : 0 ∈ v.master → handler = .taskSwitch)
    (hkeyboard : 1 ∈ v.master → handler = .keyboard ∨ 1 ∈ s.inService.master) :
    Acknowledged ({ s with inService := v }.push handler) := by
  have htop : ({ s with inService := v }.push handler).active s.running =
      ⟨handler, s.interruptFlag⟩ :: s.active s.running := Function.update_self ..
  have hother : ∀ t ≠ s.running, ({ s with inService := v }.push handler).active t = s.active t :=
    fun t ht => Function.update_of_ne ht ..
  refine ⟨h.lines, hmaster, fun hflag => ?_, fun hzero => ?_, fun hone => ?_, fun t => ?_⟩
  · cases hflag
  · change switches (({ s with inService := v }.push handler).active s.running) = true
    rw [htop]
    exact (switches_cons _ _).mpr (htimer hzero)
  · rcases hkeyboard hone with hnew | hold
    · exact ⟨s.running, _, htop ▸ List.mem_cons_self .., hnew⟩
    · obtain ⟨t, b, hb, hhandler⟩ := h.keyboard hold
      refine ⟨t, b, ?_, hhandler⟩
      by_cases ht : t = s.running
      · subst ht
        rw [htop]
        exact List.mem_cons_of_mem _ hb
      · rwa [hother t ht]
  · by_cases ht : t = s.running
    · subst ht
      rw [htop, List.tail_cons]
      have hinner := h.inner s.running
      cases hactive : s.active s.running with
      | nil => simp
      | cons b rest =>
        rw [hactive] at hbody hinner
        refine List.forall_mem_cons.mpr ⟨fun hb => ?_, hinner⟩
        rw [(switches_cons b rest).mpr hb] at hbody
        contradiction
    · rw [hother t ht]
      exact h.inner t

/-- A stub is left. While the keyboard's line stays in service, it is not the keyboard's. -/
theorem Acknowledged.resume (h : Acknowledged s) {t : ℕ} {flag : Bool} {handler : Handler}
    {rest : List Activation} (htop : s.active t = ⟨handler, flag⟩ :: rest)
    (hkeyboard : 1 ∈ eoi s.inService.master → handler ≠ .keyboard) : Acknowledged (s.resume t flag rest) := by
  have hself : (s.resume t flag rest).active t = rest := Function.update_self ..
  have hother : ∀ t' ≠ t, (s.resume t flag rest).active t' = s.active t' :=
    fun t' ht => Function.update_of_ne ht ..
  have hinner : ∀ a ∈ rest, a.handler ≠ .taskSwitch := by
    have htail := h.inner t
    rwa [htop, List.tail_cons] at htail
  have hbody : switches ((s.resume t flag rest).active t) = false := by
    rw [hself]
    exact switches_tail hinner
  obtain ⟨hzero, _⟩ := eoi_zero s.inService.master
  refine ⟨h.lines, fun n hn => h.master n (eoi_subset _ hn), fun _ => hbody, fun hn => absurd hn hzero,
    fun hone => ?_, fun t' => ?_⟩
  · obtain ⟨t', b, hb, hhandler⟩ := h.keyboard (eoi_subset _ hone)
    refine ⟨t', b, ?_, hhandler⟩
    by_cases ht : t' = t
    · subst ht
      rw [hself]
      rw [htop] at hb
      rcases List.mem_cons.mp hb with rfl | hb
      · exact absurd hhandler (hkeyboard hone)
      · exact hb
    · rwa [hother t' ht]
  · by_cases ht : t' = t
    · subst ht
      rw [hself]
      exact fun a ha => hinner a (List.mem_of_mem_tail ha)
    · rw [hother t' ht]
      exact h.inner t'

theorem Acknowledged.create (h : Acknowledged s) {t : ℕ} (hother : t ≠ s.running) (hnew : s.active t = []) :
    Acknowledged { s with active := Function.update s.active t [⟨.taskSwitch, true⟩] } := by
  have hsame : ∀ t' ≠ t, Function.update s.active t [⟨.taskSwitch, true⟩] t' = s.active t' :=
    fun t' ht => Function.update_of_ne ht ..
  have hrunning := congrArg switches (hsame s.running hother.symm)
  refine ⟨h.lines, h.master, fun hflag => hrunning.trans (h.flag hflag),
    fun hzero => hrunning.trans (h.timer hzero), fun hone => ?_, fun t' => ?_⟩
  · obtain ⟨t', b, hb, hhandler⟩ := h.keyboard hone
    refine ⟨t', b, ?_, hhandler⟩
    by_cases ht : t' = t
    · subst ht
      rw [hnew] at hb
      exact absurd hb List.not_mem_nil
    · dsimp only
      rwa [hsame t' ht]
  · by_cases ht : t' = t
    · subst ht
      simp
    · dsimp only
      rw [hsame t' ht]
      exact h.inner t'

theorem Acknowledged.step (h : Acknowledged s) (hstep : AckStep s a u) : Acknowledged u := by
  cases hstep with
  | flag b hbody => exact ⟨h.lines, h.master, fun _ => hbody, h.timer, h.keyboard, h.inner⟩
  | toggle hbody => exact ⟨h.lines.toggle, h.master, h.flag, h.timer, h.keyboard, h.inner⟩
  | irq n hline hcascade hflag haccepts =>
    have hbody := h.flag hflag
    rcases h.lines.line_cases hline hcascade haccepts with rfl | rfl
    · refine h.push hbody .taskSwitch (fun n hn => ?_) (fun _ => rfl) fun hone => ?_
      · exact (Finset.mem_insert.mp hn).elim Or.inl (h.master n)
      · exact Or.inr ((Finset.mem_insert.mp hone).resolve_left (by decide))
    · refine h.push hbody .keyboard (fun n hn => ?_) (fun hzero => ?_) fun _ => Or.inl rfl
      · exact (Finset.mem_insert.mp hn).elim Or.inr (h.master n)
      · have hmem : 0 ∈ s.inService.master := (Finset.mem_insert.mp hzero).resolve_left (by decide)
        exact absurd (haccepts.2 0 hmem) (by decide)
  | soft handler hkeyboard hbody =>
    refine h.push hbody handler h.master (fun hzero => ?_) Or.inr
    rw [h.timer hzero] at hbody
    contradiction
  | create t hother hnew => exact h.create hother hnew
  | switch t flag rest hbody hinto => exact h.resume hinto fun _ => by decide
  | ret handler flag rest hbody htop =>
    refine h.resume htop fun hone => ?_
    have hswitches := h.timer ((eoi_zero _).2 hone)
    rw [htop] at hswitches
    exact absurd ((switches_cons _ _).mp hswitches) hbody

theorem start_acknowledged (t : ℕ) : Acknowledged (start t) :=
  ⟨start_lines t, by simp [start], fun h => (by cases h), by simp [start], by simp [start], by simp [start]⟩

end Steps

/-- However handlers nest and threads switch inside them, no line gets stuck. With interrupts on, the timer gets
through unless its line is masked, and the keyboard unless a handler of it is still to return. -/
theorem lines_open {t : ℕ} {acts : List Act} {s : State} (hrun : Run AckStep (start t) acts s)
    (hflag : s.interruptFlag = true) : (Accepts s.irqs s.inService 0 ↔ masked s.irqs 0 = false) ∧
      (Accepts s.irqs s.inService 1 ∨ ∃ t, ∃ a ∈ s.active t, a.handler = .keyboard) := by
  have h : Acknowledged s :=
    hrun.invariant Acknowledged (start_acknowledged t) fun _ _ _ hu hstep => hu.step hstep
  have hzero : 0 ∉ s.inService.master := by
    intro hmem
    have hbody := h.flag hflag
    rw [h.timer hmem] at hbody
    contradiction
  constructor
  · exact ⟨And.left, fun hopen => ⟨hopen, fun k hk => Nat.pos_of_ne_zero fun heq => hzero (heq ▸ hk)⟩⟩
  · by_cases hone : 1 ∈ s.inService.master
    · exact Or.inr (h.keyboard hone)
    · refine Or.inl ⟨h.lines.keyboard, fun k hk => ?_⟩
      rcases h.master k hk with rfl | rfl
      · exact absurd hk hzero
      · exact absurd hk hone

/-- A key is pressed, the timer interrupts its handler and switches to a new thread, and that one yields: the
stub of `int 0x20` acknowledges the key before its handler returns. -/
def keyAndTimer : List Act :=
  [.created 2, .flag true, .irq 1, .flag true, .irq 0, .ended .taskSwitch, .soft .taskSwitch,
    .ended .taskSwitch]

theorem lines_open_keyAndTimer : ∃ s, Run AckStep (start 1) keyAndTimer s ∧ s.inService.master = ∅ ∧
    s.active 1 = [⟨.keyboard, true⟩] ∧ Accepts s.irqs s.inService 0 := by
  have hlines : masked (start 1).irqs 0 = false ∧ masked (start 1).irqs 1 = false := by decide
  have hkey : Accepts (start 1).irqs ⟨∅, ∅⟩ 1 := ⟨hlines.2, by simp [Free]⟩
  have htimer : Accepts (start 1).irqs ⟨insert 1 ∅, ∅⟩ 0 := ⟨hlines.1, by simp [Free]⟩
  have hcreated : Run AckStep (start 1) [.created 2] _ := .single (.create 2 (by decide) rfl)
  have hpressed := (hcreated.snoc (.flag true rfl)).snoc (.irq 1 (by decide) (by decide) rfl hkey)
  have hpreempted := (hpressed.snoc (.flag true rfl)).snoc (.irq 0 (by decide) (by decide) rfl htimer)
  have hyields := (hpreempted.snoc (.switch 2 true [] rfl rfl)).snoc (.soft .taskSwitch (by decide) rfl)
  have hrun := hyields.snoc (.switch 1 true [⟨.keyboard, true⟩] rfl rfl)
  have hmaster : eoi (eoi (insert 0 (insert 1 ∅))) = ∅ := by decide
  exact ⟨_, hrun, hmaster, rfl, (lines_open hrun rfl).1.mpr hlines.1⟩

end Ktux.Acknowledge
