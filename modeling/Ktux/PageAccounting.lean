import Ktux.HeapSpace

set_option autoImplicit false

/-!
# The memory counters

`usedMemory` and `freeMemory` against the free page list, over any sequence of `alloc_page` and `free_page`
calls from the state that `init_virt_mem` leaves.
-/
namespace Ktux.PageAccounting
open Words MemoryLayout Runs PageAllocator KernelMemory FreePageList

def call : PageOp → Allocator → ℕ × Allocator
  | .allocPage, m => allocPage m
  | .freePage address, m => freePage m address

def CallStep (m : Allocator) (op : PageOp) (u : Allocator) : Prop := u = (call op m).2

/-- The counters agree with the list, in unsigned arithmetic. -/
structure Accounts (m : Allocator) : Prop where
  used : wadd m.usedMemory (wmul pageSize m.freePageListEntries) = m.pTotalMemory
  free : m.freeMemory = wmul pageSize m.freePageListEntries

/-- `alloc_page` hands out nothing, or `free_page` is given an address inside a page. -/
def Fails : PageOp → Allocator → Prop
  | .allocPage, m => (allocPage m).1 = 0
  | .freePage address, _ => address % pageSize ≠ 0

def CallAccounted (m : Allocator) (op : PageOp) (u : Allocator) : Prop :=
  Accounts u ∧ (Fails op m → u = m)

/-- The guards of the two functions, before anything is changed. -/
def Refused : PageOp → Allocator → Prop
  | .allocPage, m => m.pTotalMemory = 0 ∨ m.freePageListEntries = 0 ∨
    m.freePageList m.freePageListEntries = 0
  | .freePage address, m => m.pTotalMemory = 0 ∨ address % pageSize ≠ 0

section Calls
variable {m u : Allocator} {op : PageOp}

theorem aligned_iff (address : ℕ) : address &&& 0xFFF ≠ 0 ↔ address % pageSize ≠ 0 :=
  not_congr (Eq.congr_left (and_lowMask 12 address))

theorem call_refused (h : Refused op m) : (call op m).2 = m := by
  cases op with
  | allocPage =>
    rcases h with h | h | h
    · exact congrArg Prod.snd (if_pos h)
    · exact congrArg Prod.snd (allocPage_empty h)
    · exact congrArg Prod.snd (allocPage_zeroTop h)
  | freePage address =>
    change (freePage m address).2 = m
    unfold freePage
    rcases h with h | h
    · rw [if_pos h]
    · rw [if_pos ((aligned_iff address).mpr h)]
      split_ifs <;> rfl

theorem refused_of_fails (h : Fails op m) : Refused op m := by
  cases op with
  | freePage address => exact Or.inr h
  | allocPage =>
    change (allocPage m).1 = 0 at h
    unfold allocPage at h
    dsimp only at h
    split_ifs at h with hinit hempty htop
    · exact Or.inl hinit
    · exact Or.inr (Or.inl hempty)
    · exact absurd h htop.ne'
    · exact Or.inr (Or.inr h)

theorem call_failed (h : Fails op m) : (call op m).2 = m := call_refused (refused_of_fails h)

/-- A call that is carried out moves the count and leaves `freeMemory`. -/
theorem call_carried_out (h : ¬ Refused op m) : (call op m).2.freeMemory = m.freeMemory ∧
    ((call op m).2.freePageListEntries = wsub m.freePageListEntries 1 ∨
      (call op m).2.freePageListEntries = wadd m.freePageListEntries 1) := by
  cases op with
  | allocPage =>
    obtain ⟨hinit, hempty, htop⟩ := not_or.mp h |>.imp id not_or.mp
    have htaken : 0 < m.freePageList m.freePageListEntries := Nat.pos_of_ne_zero htop
    change (allocPage m).2.freeMemory = _ ∧ _
    simp only [call, allocPage, if_neg hinit, if_neg hempty, if_pos htaken]
    exact ⟨trivial, Or.inl trivial⟩
  | freePage address =>
    obtain ⟨hinit, haligned⟩ := not_or.mp h
    have hwhole : ¬ address &&& 0xFFF ≠ 0 := fun hne => haligned ((aligned_iff address).mp hne)
    simp only [call, freePage, if_neg hinit, if_neg hwhole]
    exact ⟨trivial, Or.inr trivial⟩

theorem refused_of_accounts (h : Accounts m) (hu : Accounts (call op m).2) : Refused op m := by
  by_contra hcarried
  obtain ⟨hfree, hentries⟩ := call_carried_out hcarried
  have hbefore := h.free
  have hafter := hu.free
  rw [hfree, hbefore] at hafter
  -- the list has grown or shrunk by one page, which is less than all of memory
  rcases hentries with hentries | hentries
  · rw [hentries, wmul, wmul, wsub, pageSize, wordSize_eq] at hafter
    omega
  · rw [hentries, wmul, wmul, wadd, pageSize, wordSize_eq] at hafter
    omega

theorem Accounts.refused (h : Accounts m) (hrefused : Refused op m) (hstep : CallStep m op u) :
    CallAccounted m op u := by
  rw [hstep, call_refused hrefused]
  exact ⟨h, fun _ => rfl⟩

end Calls

section Boot
variable {fuel : ℕ} {sysInfo : SystemInfo} {m u : Memory}

theorem initPageTables_pages (h : initPageTables fuel m = some u) : u.pages = m.pages := by
  unfold initPageTables at h
  simp only [Option.bind_eq_bind, Option.bind_eq_some_iff, Option.pure_def, Option.some.injEq] at h
  obtain ⟨lower, -, lower', -, kernel, -, cleared, -, directory, -, phys, -, rfl⟩ := h
  rfl

theorem initVirtMem_accounts (h : initVirtMem fuel sysInfo m = some u)
    (hword : sysInfo.totalMemory < wordSize) : Accounts u.pages := by
  obtain ⟨v, hv, hlist⟩ := Option.bind_eq_some_iff.mp h
  obtain ⟨s, -, rfl⟩ := Option.map_eq_some_iff.mp hlist
  have hpages := initPageTables_pages hv
  have htotal : v.pages.pTotalMemory = sysInfo.totalMemory := by
    rw [hpages]
    rfl
  have hfree : wsub s.i 1 <<< pageSizeShift % wordSize = wmul pageSize (wsub s.i 1) := by
    rw [Nat.shiftLeft_eq, Nat.mul_comm]
    rfl
  refine ⟨?_, hfree⟩
  change wadd (wsub v.pages.pTotalMemory (wsub s.i 1 <<< pageSizeShift % wordSize)) _ = v.pages.pTotalMemory
  change wadd (wsub _ _) (wmul pageSize (wsub s.i 1)) = _
  rw [hfree, htotal]
  unfold wadd wsub wmul
  rw [wordSize_eq] at *
  omega

end Boot

/-- The counters match in every state of a run exactly when each of its calls is refused. `alloc_page`
subtracts the page from `usedMemory` where it has to add it, and neither call counts `freeMemory`. -/
theorem accounting_iff {fuel : ℕ} {sysInfo : SystemInfo} {m u : Memory}
    (h : initVirtMem fuel sysInfo m = some u) (hword : sysInfo.totalMemory < wordSize) (ops : List PageOp) :
    Accounts u.pages ∧ (Every CallStep (fun _ => CallAccounted) u.pages ops ↔
      Every CallStep (fun _ m op _ => Refused op m) u.pages ops) := by
  have hstart := initVirtMem_accounts h hword
  refine ⟨hstart, fun hall => ?_, fun hall => ?_⟩
  · refine every_of_guarded_invariant (fun _ => Accounts) hstart (fun _ _ _ _ _ _ _ haccounted => haccounted.1)
      (fun _ m op v hm hstep haccounted => ?_) hall
    rw [hstep] at haccounted
    exact refused_of_accounts hm haccounted.1
  · refine every_of_guarded_invariant (fun _ => Accounts) hstart ?_ ?_ hall
    · exact fun _ m op v _ hm hstep hrefused => (hm.refused hrefused hstep).1
    · exact fun _ m op v hm hstep hrefused => hm.refused hrefused hstep

theorem accounting_small : ∃ u, initVirtMem wordSize smallMachine (staticMemory (fun _ => 0) fun _ => 0) =
    some u ∧ Accounts u.pages ∧ (Every CallStep (fun _ => CallAccounted) u.pages [.freePage 0x9001] ↔
      Every CallStep (fun _ m op _ => Refused op m) u.pages [.freePage 0x9001]) := by
  obtain ⟨s, -, -, hrun⟩ := initVirtMem_eq smallMachine_admissible (staticMemory (fun _ => 0) fun _ => 0)
    (le_refl wordSize)
  exact ⟨_, hrun, accounting_iff hrun (by decide) _⟩

/-- After the first page is handed out the counters no longer match. -/
theorem accounting_fails : ∃ u, initVirtMem wordSize smallMachine (staticMemory (fun _ => 0) fun _ => 0) =
    some u ∧ (allocPage u.pages).1 ≠ 0 ∧ ¬ Every CallStep (fun _ => CallAccounted) u.pages [.allocPage] := by
  obtain ⟨s, haddr, hs, hrun⟩ := initVirtMem_eq smallMachine_admissible
    (staticMemory (fun _ => 0) fun _ => 0) (le_refl wordSize)
  have htaken := HeapSpace.allocPage_boot smallMachine_admissible _ haddr hs
  refine ⟨_, hrun, htaken, fun hall => ?_⟩
  have hstart := initVirtMem_accounts hrun (by decide)
  have hafter := hall [] .allocPage [] _ _ rfl (.refl _) rfl
  rcases (refused_of_accounts hstart hafter.1 : Refused .allocPage _) with h | h | h
  · exact htaken (congrArg Prod.fst (if_pos h))
  · exact htaken (congrArg Prod.fst (allocPage_empty h))
  · exact htaken (congrArg Prod.fst (allocPage_zeroTop h))

end Ktux.PageAccounting
