import Mathlib.Algebra.Group.Nat.Defs
import Mathlib.Tactic.Common

set_option autoImplicit false

/-!
# The stack of a 32-bit x86 processor

The registers that an interrupt saves, a memory of bytes, and the instructions that move words between
them. A stack is the list of words from the stack pointer up.
-/
namespace Ktux.X86Stack

abbrev Dword := BitVec 32
abbrev Selector := BitVec 16
abbrev Mem := Dword → BitVec 8

/-- The low byte stands at the lowest address; addresses wrap. -/
def load (m : Mem) (a : Dword) : Dword := m (a + 3) ++ m (a + 2) ++ m (a + 1) ++ m a

def store (a v : Dword) (m : Mem) : Mem :=
  fun b => if (b - a).toNat < 4 then v.extractLsb' (8 * (b - a).toNat) 8 else m b

structure Context where
  eax : Dword
  ecx : Dword
  edx : Dword
  ebx : Dword
  esp : Dword
  ebp : Dword
  esi : Dword
  edi : Dword
  ds : Selector
  es : Selector
  fs : Selector
  gs : Selector
  cs : Selector
  eip : Dword
  eflags : Dword
  deriving DecidableEq

structure Cpu extends Context where
  mem : Mem

structure Gate where
  selector : Selector
  offset : Dword

section Instructions

def push (w : Dword) (c : Cpu) : Cpu := { c with esp := c.esp - 4, mem := store (c.esp - 4) w c.mem }

def pushSegment (s : Selector) (c : Cpu) : Cpu := push (s.setWidth 32) c

def top (c : Cpu) : Dword := load c.mem c.esp

def drop (c : Cpu) : Cpu := { c with esp := c.esp + 4 }

/-- The word `n` bytes above the stack pointer. -/
def stackWord (n : Dword) (c : Cpu) : Dword := load c.mem (c.esp + n)

def setStackWord (n w : Dword) (c : Cpu) : Cpu := { c with mem := store (c.esp + n) w c.mem }

def popEAX (c : Cpu) : Cpu := { drop c with eax := top c }
def popDS (c : Cpu) : Cpu := { drop c with ds := (top c).setWidth 16 }
def popES (c : Cpu) : Cpu := { drop c with es := (top c).setWidth 16 }
def popFS (c : Cpu) : Cpu := { drop c with fs := (top c).setWidth 16 }
def popGS (c : Cpu) : Cpu := { drop c with gs := (top c).setWidth 16 }

/-- Every push takes the stack pointer as it was before the instruction. -/
def pushad (c : Cpu) : Cpu :=
  push c.edi (push c.esi (push c.ebp (push c.esp (push c.ebx (push c.edx (push c.ecx (push c.eax c)))))))

/-- The word that `pushad` stored for the stack pointer is skipped. -/
def popad (c : Cpu) : Cpu :=
  { c with
    edi := stackWord 0 c
    esi := stackWord 4 c
    ebp := stackWord 8 c
    ebx := stackWord 16 c
    edx := stackWord 20 c
    ecx := stackWord 24 c
    eax := stackWord 28 c
    esp := c.esp + 32 }

/-- Bit 9 of EFLAGS, the interrupt flag. -/
def interruptFlag : Dword := 0x200

def cli (c : Cpu) : Cpu := { c with eflags := c.eflags &&& ~~~interruptFlag }
def sti (c : Cpu) : Cpu := { c with eflags := c.eflags ||| interruptFlag }

/-- Entry through an interrupt gate without a change of privilege, which also masks interrupts. -/
def interrupt (g : Gate) (c : Cpu) : Cpu :=
  { cli (push c.eip (pushSegment c.cs (push c.eflags c))) with cs := g.selector, eip := g.offset }

/-- The same for an exception that pushes an error code. -/
def exception (g : Gate) (errorCode : Dword) (c : Cpu) : Cpu := push errorCode (interrupt g c)

def iret (c : Cpu) : Cpu :=
  { c with
    eip := stackWord 0 c
    cs := (stackWord 4 c).setWidth 16
    eflags := stackWord 8 c
    esp := c.esp + 12 }

section Effects
variable (w : Dword) (s : Selector) (g : Gate) (c : Cpu)

@[simp] theorem push_toContext : (push w c).toContext = { c.toContext with esp := c.esp - 4 } := rfl

@[simp] theorem pushSegment_toContext :
    (pushSegment s c).toContext = { c.toContext with esp := c.esp - 4 } := rfl

@[simp] theorem pushad_toContext : (pushad c).toContext = { c.toContext with esp := c.esp - 32 } := by
  simp [pushad, BitVec.sub_sub]

@[simp] theorem popEAX_toContext :
    (popEAX c).toContext = { c.toContext with esp := c.esp + 4, eax := top c } := rfl

@[simp] theorem popDS_toContext :
    (popDS c).toContext = { c.toContext with esp := c.esp + 4, ds := (top c).setWidth 16 } := rfl

@[simp] theorem popES_toContext :
    (popES c).toContext = { c.toContext with esp := c.esp + 4, es := (top c).setWidth 16 } := rfl

@[simp] theorem popFS_toContext :
    (popFS c).toContext = { c.toContext with esp := c.esp + 4, fs := (top c).setWidth 16 } := rfl

@[simp] theorem popGS_toContext :
    (popGS c).toContext = { c.toContext with esp := c.esp + 4, gs := (top c).setWidth 16 } := rfl

@[simp] theorem popEAX_mem : (popEAX c).mem = c.mem := rfl
@[simp] theorem popDS_mem : (popDS c).mem = c.mem := rfl
@[simp] theorem popES_mem : (popES c).mem = c.mem := rfl
@[simp] theorem popFS_mem : (popFS c).mem = c.mem := rfl
@[simp] theorem popGS_mem : (popGS c).mem = c.mem := rfl

@[simp] theorem iret_sti : iret (sti c) = iret c := rfl

@[simp] theorem cli_interrupt : cli (interrupt g c) = interrupt g c := by
  simp [interrupt, cli, BitVec.and_assoc]

@[simp] theorem interrupt_toContext : (interrupt g c).toContext =
    { c.toContext with
      esp := c.esp - 12
      eflags := c.eflags &&& ~~~interruptFlag
      cs := g.selector
      eip := g.offset } := by
  simp [interrupt, cli, BitVec.sub_sub]

theorem cli_exception (errorCode : Dword) : cli (exception g errorCode c) = exception g errorCode c :=
  congrArg (push errorCode) (cli_interrupt g c)

theorem exception_toContext (errorCode : Dword) : (exception g errorCode c).toContext =
    { c.toContext with
      esp := c.esp - 16
      eflags := c.eflags &&& ~~~interruptFlag
      cs := g.selector
      eip := g.offset } := by
  simp [exception, BitVec.sub_sub]

end Effects

end Instructions

/-- What the calling convention promises of a function with `args` words of arguments: it returns with
the stack pointer it was called with, and keeps the caller's words behind its arguments. -/
structure CFunction (args kept : ℕ) where
  run : Cpu → Cpu
  esp_run (c : Cpu) : (run c).esp = c.esp
  kept_run (c : Cpu) (i : ℕ) (hargs : args ≤ i) (hkept : i < args + kept) :
    load (run c).mem (c.esp + 4 * BitVec.ofNat 32 i) = load c.mem (c.esp + 4 * BitVec.ofNat 32 i)

/-- The words `ws` stand at `p` and up. -/
def StackHolds (m : Mem) : Dword → List Dword → Prop
  | _, [] => True
  | p, w :: ws => load m p = w ∧ StackHolds m (p + 4) ws

section Memory
variable {m : Mem} {a p v w : Dword} {ws : List Dword}

theorem dword_bytes (v : Dword) :
    v.extractLsb' 24 8 ++ v.extractLsb' 16 8 ++ v.extractLsb' 8 8 ++ v.extractLsb' 0 8 = v := by
  apply BitVec.eq_of_getLsbD_eq
  intro i hi
  simp only [BitVec.getLsbD_append, BitVec.getLsbD_extractLsb', Nat.zero_add]
  by_cases h0 : i < 8
  · simp [h0]
  by_cases h1 : i < 16
  · simp [h0, show i - 8 < 8 by omega, show 8 + (i - 8) = i by omega]
  by_cases h2 : i < 24
  · simp [h0, show ¬ i - 8 < 8 by omega, show i - 8 - 8 < 8 by omega, show 16 + (i - 8 - 8) = i by omega]
  · simp [h0, show ¬ i - 8 < 8 by omega, show ¬ i - 8 - 8 < 8 by omega,
      show i - 8 - 8 - 8 < 8 by omega, show 24 + (i - 8 - 8 - 8) = i by omega]

theorem load_store_same (m : Mem) (a v : Dword) : load (store a v m) a = v := by
  have h0 : (a - a).toNat = 0 := by bv_omega
  have h1 : (a + 1 - a).toNat = 1 := by bv_omega
  have h2 : (a + 2 - a).toNat = 2 := by bv_omega
  have h3 : (a + 3 - a).toNat = 3 := by bv_omega
  simp only [load, store, h0, h1, h2, h3]
  exact dword_bytes v

theorem load_store_other (hlow : 4 ≤ (p - a).toNat) (hhigh : (p - a).toNat + 4 ≤ 2 ^ 32) :
    load (store a v m) p = load m p := by
  have h0 : ¬ (p - a).toNat < 4 := by omega
  have h1 : ¬ (p + 1 - a).toNat < 4 := by bv_omega
  have h2 : ¬ (p + 2 - a).toNat < 4 := by bv_omega
  have h3 : ¬ (p + 3 - a).toNat < 4 := by bv_omega
  simp only [load, store, if_neg h0, if_neg h1, if_neg h2, if_neg h3]

theorem StackHolds.store (hlow : 4 ≤ (p - a).toNat) (hhigh : (p - a).toNat + 4 * ws.length ≤ 2 ^ 32)
    (h : StackHolds m p ws) : StackHolds (store a v m) p ws := by
  induction ws generalizing p with
  | nil => trivial
  | cons w ws ih =>
    rw [List.length_cons] at hhigh
    refine ⟨(load_store_other hlow (by omega)).trans h.1, ?_⟩
    cases ws with
    | nil => trivial
    | cons w' ws =>
      rw [List.length_cons] at hhigh ih
      exact ih (by bv_omega) (by bv_omega) h.2

/-- A store to one word of the list changes that word only. -/
theorem StackHolds.set {i : ℕ} (hfit : 4 * ws.length ≤ 2 ^ 32) (hi : i < ws.length)
    (h : StackHolds m p ws) :
    StackHolds (X86Stack.store (p + 4 * BitVec.ofNat 32 i) v m) p (ws.set i v) := by
  induction ws generalizing p i with
  | nil => trivial
  | cons w ws ih =>
    rw [List.length_cons] at hfit hi
    cases i with
    | zero =>
      rw [show p + 4 * BitVec.ofNat 32 0 = p by bv_omega]
      refine ⟨load_store_same _ _ _, ?_⟩
      cases ws with
      | nil => trivial
      | cons w' ws =>
        rw [List.length_cons] at hfit
        exact StackHolds.store (by bv_omega) (by rw [List.length_cons]; bv_omega) h.2
    | succ i =>
      refine ⟨(load_store_other (by bv_omega) (by bv_omega)).trans h.1, ?_⟩
      rw [show p + 4 * BitVec.ofNat 32 (i + 1) = p + 4 + 4 * BitVec.ofNat 32 i by bv_omega]
      exact ih (by omega) (by omega) h.2

theorem stackHolds_append (m : Mem) (p : Dword) (xs ws : List Dword) :
    StackHolds m p (xs ++ ws) ↔
      StackHolds m p xs ∧ StackHolds m (p + 4 * BitVec.ofNat 32 xs.length) ws := by
  induction xs generalizing p with
  | nil => simp [StackHolds]
  | cons x xs ih =>
    have hp : p + 4 + 4 * BitVec.ofNat 32 xs.length = p + 4 * BitVec.ofNat 32 (xs.length + 1) := by
      bv_omega
    rw [List.cons_append, StackHolds, StackHolds, ih, List.length_cons, hp, and_assoc]

theorem stackHolds_congr {m m' : Mem} (hsame : ∀ i, i < ws.length →
    load m' (p + 4 * BitVec.ofNat 32 i) = load m (p + 4 * BitVec.ofNat 32 i)) (h : StackHolds m p ws) :
    StackHolds m' p ws := by
  induction ws generalizing p with
  | nil => trivial
  | cons w ws ih =>
    refine ⟨?_, ih (fun i hi => ?_) h.2⟩
    · have h0 := hsame 0 (Nat.succ_pos _)
      rw [show p + 4 * BitVec.ofNat 32 0 = p by bv_omega] at h0
      exact h0.trans h.1
    · rw [show p + 4 + 4 * BitVec.ofNat 32 i = p + 4 * BitVec.ofNat 32 (i + 1) by bv_omega]
      exact hsame (i + 1) (Nat.succ_lt_succ hi)

theorem StackHolds.pushed (hfit : 4 * (ws.length + 1) ≤ 2 ^ 32) (h : StackHolds m p ws) :
    StackHolds (X86Stack.store (p - 4) w m) (p - 4) (w :: ws) := by
  refine ⟨load_store_same _ _ _, ?_⟩
  rw [BitVec.sub_add_cancel]
  exact h.store (by bv_omega) (by bv_omega)

theorem stackHolds_push (c : Cpu) (hfit : 4 * (ws.length + 1) ≤ 2 ^ 32) (h : StackHolds c.mem c.esp ws) :
    StackHolds (push w c).mem (push w c).esp (w :: ws) := h.pushed hfit

theorem stackHolds_call {args kept : ℕ} {c : Cpu} (f : CFunction args kept) (xs : List Dword)
    (hxs : xs.length = args) (hws : ws.length ≤ kept) (h : StackHolds c.mem c.esp (xs ++ ws)) :
    StackHolds (f.run c).mem ((f.run c).esp + 4 * BitVec.ofNat 32 args) ws := by
  rw [stackHolds_append, hxs] at h
  rw [f.esp_run]
  refine stackHolds_congr (fun i hi => ?_) h.2
  have hi' : c.esp + 4 * BitVec.ofNat 32 args + 4 * BitVec.ofNat 32 i =
      c.esp + 4 * BitVec.ofNat 32 (args + i) := by
    bv_omega
  rw [hi']
  exact f.kept_run c (args + i) (Nat.le_add_right _ _) (by omega)
theorem interrupt_holds (g : Gate) (c : Cpu) (ws : List Dword) (hfit : 4 * (ws.length + 3) ≤ 2 ^ 32)
    (h : StackHolds c.mem c.esp ws) :
    StackHolds (interrupt g c).mem (interrupt g c).esp (c.eip :: c.cs.setWidth 32 :: c.eflags :: ws) :=
  stackHolds_push _ (by simp only [List.length_cons]; omega)
    (stackHolds_push _ (by simp only [List.length_cons]; omega) (stackHolds_push _ (by omega) h))

theorem pushad_holds (c : Cpu) (hfit : 4 * (ws.length + 8) ≤ 2 ^ 32) (h : StackHolds c.mem c.esp ws) :
    StackHolds (pushad c).mem (pushad c).esp
      (c.edi :: c.esi :: c.ebp :: c.esp :: c.ebx :: c.edx :: c.ecx :: c.eax :: ws) := by
  unfold pushad
  iterate 7 refine stackHolds_push _ (by simp only [List.length_cons]; omega) ?_
  exact stackHolds_push _ (by omega) h

end Memory

end Ktux.X86Stack
