import Ktux.PageCalls
import Ktux.TranslationCache

set_option autoImplicit false

/-!
# Stale translations

The processor translates through its TLB. `map_page_helper` ends with `invalidate(virt)`, whose `invlpg` takes
the argument's place on the stack for its operand, and `unmap_page_helper` does not invalidate at all.
-/
namespace Ktux.StaleTranslations
open Words MemoryLayout TwoLevelPaging KernelMemory FreePageList MapPage UnmapPage Heap
open PageCalls TranslationCache

def invlpg (address : ℕ) (tlb : PageMap) : PageMap :=
  fun n => if decide (n ≠ address / 4096) then tlb n else none

/-- `invlpg [ebp+8]`, where the argument `virt` lies at the address `argument`. -/
def invalidate (_virt argument : ℕ) (tlb : PageMap) : PageMap := invlpg argument tlb

def writeCr3 (_tlb : PageMap) : PageMap := fun _ => none

/-- The calls, with the place of the argument of `invalidate` on the stack. -/
inductive Operation where
  | mapKpage (virt physAddr flags argument : ℕ)
  | unmapKpage (virt : ℕ)
  | reloadCr3

structure Processor where
  memory : Memory
  tlb : PageMap

def operate (fuel : ℕ) (p : Processor) : Operation → Option Processor
  | .mapKpage virt physAddr flags argument => do
    let m ← mapPageHelper pKernelPageDirectory virt physAddr flags fuel p.memory
    return ⟨m, invalidate virt argument p.tlb⟩
  | .unmapKpage virt => do
    let m ← unmapPageHelper pKernelPageDirectory virt p.memory
    return ⟨m, p.tlb⟩
  | .reloadCr3 => some ⟨p.memory, writeCr3 p.tlb⟩

/-- The processor looks a page up, forgets one, or does what the kernel says. -/
def turn (fuel : ℕ) (p : Processor) : Event ℕ Operation → Option Processor
  | .access n => some { p with tlb := Function.update p.tlb n (p.tlb n <|> pageMap p.memory.phys n) }
  | .evict n => some { p with tlb := Function.update p.tlb n none }
  | .update operation => operate fuel p operation

/-- No cached translation differs from what the directory says. -/
def Fresh (p : Processor) : Prop := ∀ n e, p.tlb n = some e → pageMap p.memory.phys n = some e

def AllowedOperation : Operation → Prop
  | .mapKpage virt physAddr flags _ => Allowed (.mapKpage virt physAddr flags)
  | .unmapKpage virt => Allowed (.unmapKpage virt)
  | .reloadCr3 => True

def mapped (μ : PageMap) : Operation → PageMap
  | .mapKpage virt physAddr flags _ => effect μ (.mapKpage virt physAddr flags)
  | .unmapKpage virt => effect μ (.unmapKpage virt)
  | .reloadCr3 => μ

/-- A page that is mapped is mapped to the same frame with the same flags, unless it is the page of the stack;
and it is not unmapped. -/
def LeavesMapped (μ : PageMap) : Operation → Prop
  | .mapKpage virt physAddr flags argument => virt / 4096 = argument / 4096 ∨ μ (virt / 4096) = none ∨
      μ (virt / 4096) = mapping physAddr flags
  | .unmapKpage virt => μ (virt / 4096) = none
  | .reloadCr3 => True

def kept : Operation → ℕ → Bool
  | .mapKpage _ _ _ argument, n => decide (n ≠ argument / 4096)
  | .unmapKpage _, _ => true
  | .reloadCr3, _ => false

def operations : Updates ℕ (ℕ × ℕ) Operation := ⟨mapped, kept⟩

def cached (p : Processor) : Cached ℕ (ℕ × ℕ) := ⟨pageMap p.memory.phys, p.tlb⟩

section Turns
variable {p : Processor} {μ : PageMap}

/-- A change to one page is silent when this page is not mapped, or dropped, or mapped as before. -/
theorem silent_update {operation : Operation} {n : ℕ} {e : Option (ℕ × ℕ)}
    (hmapped : mapped μ operation = Function.update μ n e) :
    Silent operations operation μ ↔ kept operation n = false ∨ μ n = none ∨ μ n = e := by
  have heffect : operations.effect μ operation = Function.update μ n e := hmapped
  constructor
  · intro h
    by_contra hnot
    push Not at hnot
    obtain ⟨hkept, hsome, hne⟩ := hnot
    obtain ⟨b, hb⟩ := Option.ne_none_iff_exists'.mp hsome
    have hkeep : kept operation n = true := by simpa using hkept
    have hafter := h n b hb hkeep
    rw [heffect, Function.update_self] at hafter
    exact hne (hb.trans hafter.symm)
  · intro h a b hab hkept
    rw [heffect]
    by_cases ha : a = n
    · subst ha
      rw [Function.update_self]
      rcases h with hdrop | hnone | hsame
      · have hkeep : kept operation a = true := hkept
        rw [hdrop] at hkeep
        contradiction
      · rw [hnone] at hab
        contradiction
      · rw [← hsame, hab]
    · rwa [Function.update_of_ne ha]

theorem silent_iff (operation : Operation) : Silent operations operation μ ↔ LeavesMapped μ operation := by
  cases operation with
  | mapKpage virt physAddr flags argument =>
    rw [silent_update rfl, LeavesMapped]
    simp [kept]
  | unmapKpage virt =>
    rw [silent_update rfl, LeavesMapped]
    simp [kept]
  | reloadCr3 =>
    constructor
    · intro _
      trivial
    · intro _ a b hab _
      exact hab

/-- One event, with the tables in place: what the processor holds afterwards is what the cache of the page map
holds. -/
theorem turn_cached (h : TablesInPlace p.memory.phys) (event : Event ℕ Operation)
    (hevent : ∀ operation, event = .update operation → AllowedOperation operation) :
    ∃ q, (∀ fuel ≥ wordSize, turn fuel p event = some q) ∧ TablesInPlace q.memory.phys ∧
      cached q = after operations (cached p) event := by
  cases event with
  | access n => exact ⟨_, fun _ _ => rfl, h, rfl⟩
  | evict n => exact ⟨_, fun _ _ => rfl, h, rfl⟩
  | update operation =>
    have hallowed := hevent operation rfl
    cases operation with
    | mapKpage virt physAddr flags argument =>
      obtain ⟨u, hu, htables, hmap, _⟩ := call_returns (c := .mapKpage virt physAddr flags) h hallowed
      refine ⟨⟨u, invalidate virt argument p.tlb⟩, fun fuel hfuel => ?_, htables, ?_⟩
      · have hcall : mapPageHelper pKernelPageDirectory virt physAddr flags fuel p.memory = some u :=
          hu fuel hfuel
        change (mapPageHelper _ _ _ _ _ _).bind _ = _
        rw [hcall]
        rfl
      · exact congrArg (Cached.mk · _) hmap
    | unmapKpage virt =>
      obtain ⟨u, hu, htables, hmap, _⟩ := call_returns (c := .unmapKpage virt) h hallowed
      refine ⟨⟨u, p.tlb⟩, fun fuel hfuel => ?_, htables, ?_⟩
      · have hcall : unmapPageHelper pKernelPageDirectory virt p.memory = some u := hu fuel hfuel
        change (unmapPageHelper _ _ _).bind _ = _
        rw [hcall]
        rfl
      · exact congrArg (Cached.mk · _) hmap
    | reloadCr3 => exact ⟨_, fun _ _ => rfl, h, rfl⟩

theorem turns_cached {events : List (Event ℕ Operation)} (h : TablesInPlace p.memory.phys)
    (hallowed : ∀ operation ∈ updatesOf events, AllowedOperation operation) :
    ∃ q, (∀ fuel ≥ wordSize, events.foldlM (turn fuel) p = some q) ∧
      cached q = events.foldl (after operations) (cached p) := by
  induction events generalizing p with
  | nil => exact ⟨p, fun _ _ => rfl, rfl⟩
  | cons event events ih =>
    obtain ⟨q, hq, htables, hcached⟩ := turn_cached h event fun operation heq => hallowed operation (by
      subst heq
      simp [updatesOf])
    obtain ⟨r, hr, hend⟩ := ih htables fun operation hmem => hallowed operation (by
      cases event <;> simp [updatesOf, hmem])
    refine ⟨r, fun fuel hfuel => ?_, ?_⟩
    · change (turn fuel p event).bind (fun q => events.foldlM (turn fuel) q) = some r
      rw [hq fuel hfuel]
      exact hr fuel hfuel
    · rw [hend, hcached, List.foldl_cons]

/-- Whatever the processor looks up in between, up to each of the operations, no translation is ever stale. -/
def AlwaysFresh (p : Processor) (ops : List Operation) : Prop :=
  ∀ events : List (Event ℕ Operation), updatesOf events <+: ops →
    ∃ q, (∀ fuel ≥ wordSize, events.foldlM (turn fuel) p = some q) ∧ Fresh q

theorem alwaysFresh_iff (h : TablesInPlace p.memory.phys) (hfresh : Fresh p) {ops : List Operation}
    (hallowed : ∀ operation ∈ ops, AllowedOperation operation) :
    AlwaysFresh p ops ↔ ∀ pre operation post, ops = pre ++ operation :: post →
      LeavesMapped (pre.foldl mapped (pageMap p.memory.phys)) operation := by
  have hiff := TranslationCache.coherent_iff (U := operations) (s := cached p) hfresh ops
  simp only [silent_iff] at hiff
  refine Iff.trans ?_ hiff
  constructor
  · intro hall events hsome
    obtain ⟨q, hq, hqfresh⟩ := hall events hsome
    obtain ⟨r, hr, hcached⟩ := turns_cached h fun operation hmem => hallowed operation (hsome.subset hmem)
    have hsame : q = r := Option.some.inj ((hq wordSize le_rfl).symm.trans (hr wordSize le_rfl))
    subst hsame
    rw [← hcached]
    exact hqfresh
  · intro hall events hsome
    obtain ⟨r, hr, hcached⟩ := turns_cached h fun operation hmem => hallowed operation (hsome.subset hmem)
    refine ⟨r, hr, ?_⟩
    have hcoherent := hall events hsome
    rw [← hcached] at hcoherent
    exact hcoherent

end Turns

/-- From the heap of `init_heap` on, a sequence of operations on pages whose tables are in place leaves no stale
translation, whenever the processor looks pages up, exactly when none unmaps a page that is mapped and none maps
such a page anew, but for the page of its own argument on the stack. -/
theorem noStaleTranslation_iff {sysInfo : SystemInfo} (h : Admissible sysInfo)
    (hfits : virt2Phys sysInfo.kernelEnd + sysInfo.totalMemory / 1024 ≤ 0x400000) (ram : Phys) (list : ℕ → ℕ)
    (ops : List Operation) (hops : ∀ operation ∈ ops, AllowedOperation operation) :
    ∃ b m, initVirtMem wordSize sysInfo (staticMemory ram list) = some b ∧ initHeap b = some m ∧
      ∀ tlb, Fresh ⟨m, tlb⟩ → (AlwaysFresh ⟨m, tlb⟩ ops ↔ ∀ pre operation post, ops = pre ++ operation :: post →
        LeavesMapped (pre.foldl mapped (pageMap m.phys)) operation) := by
  obtain ⟨b, m, hb, hm, htables⟩ := initHeap_tables h hfits ram list
  exact ⟨b, m, hb, hm, fun tlb hfresh => alwaysFresh_iff (p := ⟨m, tlb⟩) htables hfresh hops⟩

/-- A page of the heap is mapped, mapped to another frame, and unmapped after a reload of the directory. -/
def remapping : List Operation :=
  [.mapKpage 0xD0010000 0x800000 3 0x9000, .mapKpage 0xD0010000 0x900000 3 0x9000, .reloadCr3,
    .unmapKpage 0xD0010000]

theorem remapping_allowed : ∀ operation ∈ remapping, AllowedOperation operation := by
  intro operation hmem
  simp only [remapping, List.mem_cons, List.not_mem_nil, or_false] at hmem
  have hplain : Plain (0xD0010000 / 4096) := ⟨by decide, by decide⟩
  rcases hmem with rfl | rfl | rfl | rfl
  · exact ⟨by decide, by decide, hplain⟩
  · exact ⟨by decide, by decide, hplain⟩
  · trivial
  · exact ⟨by decide, hplain⟩

/-- The second mapping leaves the first one's frame in the cache. -/
theorem noStaleTranslation_remapping :
    ∃ b m, initVirtMem wordSize smallMachine (staticMemory (fun _ => 0) fun _ => 0) = some b ∧
      initHeap b = some m ∧ Fresh ⟨m, fun _ => none⟩ ∧ ¬ AlwaysFresh ⟨m, fun _ => none⟩ remapping := by
  obtain ⟨b, m, hb, hm, hiff⟩ := noStaleTranslation_iff smallMachine_admissible (by decide) (fun _ => 0)
    (fun _ => 0) remapping remapping_allowed
  have hfresh : Fresh ⟨m, fun _ => none⟩ := fun n e h => absurd h (by simp)
  refine ⟨b, m, hb, hm, hfresh, fun hall => ?_⟩
  have hleaves := (hiff _ hfresh).mp hall [.mapKpage 0xD0010000 0x800000 3 0x9000]
    (.mapKpage 0xD0010000 0x900000 3 0x9000) [.reloadCr3, .unmapKpage 0xD0010000] rfl
  have hmap : mapped (pageMap m.phys) (.mapKpage 0xD0010000 0x800000 3 0x9000) (0xD0010000 / 4096) =
      mapping 0x800000 3 := by
    rw [mapped, effect, Function.update_self]
  rcases hleaves with hstack | hnone | hsame
  · exact absurd hstack (by decide)
  · exact absurd (hmap.symm.trans hnone) (by decide)
  · exact absurd (hmap.symm.trans hsame) (by decide)

end Ktux.StaleTranslations
