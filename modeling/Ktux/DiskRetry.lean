import Ktux.Loops
import Ktux.Words

set_option autoImplicit false

/-!
# Retried disk reads

The four loops of `klLoadKernel.s` and `bootsect.s` that repeat a read through `int 0x13`, with the flags that
their branches test. The BIOS answers in the carry flag and keeps the other registers that count.
-/
namespace Ktux.DiskRetry
open Words Loops

/-- The carry flag after each read and after each reset. -/
structure Bios where
  read : ℕ → Bool
  reset : ℕ → Bool

inductive Exit where
  | success
  | failure
  deriving DecidableEq

/-- `counter` is the word on the stack, or DI; `reads` and `resets` count the calls made. -/
structure State where
  ax : ℕ
  counter : ℕ
  cf : Bool
  zf : Bool
  reads : ℕ
  resets : ℕ
  exit : Option Exit

section Instructions

def State.int13Read (b : Bios) (s : State) : State := { s with cf := b.read s.reads, reads := s.reads + 1 }

def State.int13Reset (b : Bios) (s : State) : State := { s with cf := b.reset s.resets, resets := s.resets + 1 }

def State.popAx (s : State) : State := { s with ax := s.counter }

def State.pushAx (s : State) : State := { s with counter := s.ax }

def State.incAx (s : State) : State :=
  { s with ax := (s.ax + 1) % 2 ^ 16, zf := decide ((s.ax + 1) % 2 ^ 16 = 0) }

def State.decDi (s : State) : State :=
  { s with counter := dec16 s.counter, zf := decide (dec16 s.counter = 0) }

def State.cmp (x y : ℕ) (s : State) : State := { s with cf := decide (x < y), zf := decide (x = y) }

def State.movAx (x : ℕ) (s : State) : State := { s with ax := x }

def State.leave (e : Exit) (s : State) : State := { s with exit := some e }

end Instructions

def State.resetAndCount (b : Bios) (s : State) : State := (s.int13Reset b).popAx.incAx.pushAx

/-- One pass of a loop of `klLoadKernel.s`; `test` stands before its `jnae`. -/
def attempt (test : State → State) (b : Bios) (s : State) : State :=
  let s := s.int13Read b
  if s.cf = false then s.leave .success
  else
    let s := test (s.resetAndCount b)
    if s.cf then s else s.leave .failure

/-- The three pops before the `jnz` leave the flags alone. -/
def bootAttempt (b : Bios) (s : State) : State :=
  let s := s.int13Read b
  if s.cf = false then s.leave .success
  else
    let s := (s.int13Reset b).decDi
    if s.zf = false then s else s.leave .failure

def enter (counter : ℕ) (s : State) : State :=
  { s with counter := counter, reads := 0, resets := 0, exit := none }

def unfinished (s : State) : Bool := s.exit.isNone

def loadRootDirectory (b : Bios) (fuel : ℕ) (s : State) : Option State :=
  whileLoop unfinished (fun s => some (attempt (fun s => s.cmp s.ax 5) b s)) fuel (enter 0 s)

/-- `mov ax, 0x05` stands where the other two have a comparison. -/
def loadFAT (b : Bios) (fuel : ℕ) (s : State) : Option State :=
  whileLoop unfinished (fun s => some (attempt (fun s => s.movAx 5) b s)) fuel (enter 0 s)

def loadFileCluster (b : Bios) (fuel : ℕ) (s : State) : Option State :=
  whileLoop unfinished (fun s => some (attempt (fun s => s.cmp (s.ax % 2 ^ 8) 5) b s)) fuel (enter 0 s)

/-- One sector of `ReadSectors`; `.failure` is `int 0x18`. -/
def readSector (b : Bios) (fuel : ℕ) (s : State) : Option State :=
  whileLoop unfinished (fun s => some (bootAttempt b s)) fuel (enter 5 s)

def FirstSuccess (b : Bios) (k : ℕ) : Prop := (∀ j < k, b.read j = true) ∧ b.read k = false

/-- The loop ends with the first success among five reads, and else fails after the fifth. -/
def FiveAttempts (loop : ℕ → State → Option State) (b : Bios) : Prop :=
  ∀ s, ∃ fuel t, loop fuel s = some t ∧
    (∀ k < 5, FirstSuccess b k → t.exit = some .success ∧ t.reads = k + 1) ∧
    ((∀ j < 5, b.read j = true) → t.exit = some .failure ∧ t.reads = 5)

structure RetriedFive (b : Bios) : Prop where
  rootDirectory : FiveAttempts (loadRootDirectory b) b
  fat : FiveAttempts (loadFAT b) b
  file : FiveAttempts (loadFileCluster b) b
  boot : FiveAttempts (readSector b) b

/-- Each reset before the first success fails; without a success the first four fail and the fifth does not. -/
def ResetsFail (b : Bios) : Prop :=
  (∀ k < 5, FirstSuccess b k → ∀ j < k, b.reset j = true) ∧
    ((∀ j < 5, b.read j = true) → (∀ j < 4, b.reset j = true) ∧ b.reset 4 = false)

section Loop
variable {b : Bios} {again : ℕ → Bool} {pass : State → State} {I : ℕ → State → Prop} {s t : State} {k n : ℕ}

structure Passes (b : Bios) (again : ℕ → Bool) (pass : State → State) (I : ℕ → State → Prop) : Prop where
  going : ∀ k s, I k s → s.exit = none
  success : ∀ k s, I k s → b.read k = false → (pass s).exit = some .success ∧ (pass s).reads = k + 1
  failure : ∀ k s, I k s → b.read k = true → again k = false →
    (pass s).exit = some .failure ∧ (pass s).reads = k + 1
  next : ∀ k s, I k s → b.read k = true → again k = true → I (k + 1) (pass s)

def EndsWith (b : Bios) (again : ℕ → Bool) (n : ℕ) : Prop :=
  (∀ j < n, b.read j = true ∧ again j = true) ∧ ¬(b.read n = true ∧ again n = true)

theorem EndsWith.unique (h : EndsWith b again n) (h' : EndsWith b again k) : n = k := by
  rcases Nat.lt_trichotomy n k with hlt | heq | hlt
  · exact absurd (h'.1 n hlt) h.2
  · exact heq
  · exact absurd (h.1 k hlt) h'.2

theorem Passes.returns (hp : Passes b again pass I) {d : ℕ} (hI : I k s) (hend : EndsWith b again (k + d)) :
    ∃ t, whileLoop unfinished (fun s => some (pass s)) (d + 2) s = some t ∧
      t.exit = some (if b.read (k + d) then .failure else .success) ∧ t.reads = k + d + 1 := by
  have hgoing : unfinished s = true := by rw [unfinished, hp.going k s hI]; rfl
  induction d generalizing k s with
  | zero =>
    have hlast : (pass s).exit = some (if b.read k then .failure else .success) ∧ (pass s).reads = k + 1 := by
      cases hread : b.read k with
      | false => exact hp.success k s hI hread
      | true =>
        have hagain : again k = false := Bool.eq_false_iff.mpr fun h => hend.2 ⟨hread, h⟩
        exact hp.failure k s hI hread hagain
    have hstop : unfinished (pass s) = false := by rw [unfinished, hlast.1]; rfl
    exact ⟨pass s, by rw [whileLoop_next hgoing rfl, whileLoop_stop hstop], hlast⟩
  | succ d ih =>
    obtain ⟨hread, hagain⟩ := hend.1 k (by omega)
    have hnext := hp.next k s hI hread hagain
    have hshift : k + (d + 1) = k + 1 + d := by omega
    rw [hshift] at hend ⊢
    obtain ⟨t, hrun, ht⟩ := ih hnext hend (by rw [unfinished, hp.going _ _ hnext]; rfl)
    exact ⟨t, by rw [whileLoop_next hgoing rfl, hrun], ht⟩

theorem Passes.ends (hp : Passes b again pass I) {fuel : ℕ} (hI : I k s)
    (hbefore : ∀ j < k, b.read j = true ∧ again j = true)
    (hrun : whileLoop unfinished (fun s => some (pass s)) fuel s = some t) : ∃ n, EndsWith b again n := by
  induction fuel generalizing k s with
  | zero => cases hrun
  | succ fuel ih =>
    by_cases hgo : b.read k = true ∧ again k = true
    · have hgoing : unfinished s = true := by rw [unfinished, hp.going k s hI]; rfl
      rw [whileLoop_next hgoing rfl] at hrun
      refine ih (hp.next k s hI hgo.1 hgo.2) (fun j hj => ?_) hrun
      rcases Nat.lt_succ_iff_lt_or_eq.mp hj with hlt | rfl
      · exact hbefore j hlt
      · exact hgo
    · exact ⟨k, hbefore, hgo⟩

structure FiveEnd (b : Bios) (n : ℕ) : Prop where
  success : ∀ k < 5, FirstSuccess b k → n = k
  failure : (∀ j < 5, b.read j = true) → n = 4

theorem fiveAttempts_iff (hp : Passes b again pass I) {loop : ℕ → State → Option State} {start : State → State}
    (hloop : ∀ fuel s, loop fuel s = whileLoop unfinished (fun s => some (pass s)) fuel (start s))
    (hstart : ∀ s, I 0 (start s)) :
    FiveAttempts loop b ↔ ∃ n, EndsWith b again n ∧ FiveEnd b n := by
  have hnone : ∀ j < 0, b.read j = true ∧ again j = true := fun j hj => absurd hj (Nat.not_lt_zero j)
  constructor
  · intro hfive
    obtain ⟨fuel, t, hrun, hsuccess, hfailure⟩ := hfive ⟨0, 0, false, false, 0, 0, none⟩
    rw [hloop] at hrun
    obtain ⟨n, hend⟩ := hp.ends (hstart _) hnone hrun
    obtain ⟨t', hrun', -, hreads⟩ := @Passes.returns _ _ _ _ _ 0 hp n (hstart _) (by rwa [Nat.zero_add])
    obtain rfl := whileLoop_unique hrun hrun'
    refine ⟨n, hend, fun k hk hfirst => ?_, fun hall => ?_⟩
    · have hcount := (hsuccess k hk hfirst).2
      omega
    · have hcount := (hfailure hall).2
      omega
  · rintro ⟨n, hend, hsuccess, hfailure⟩ s
    obtain ⟨t, hrun, hexit, hreads⟩ := @Passes.returns _ _ _ _ _ 0 hp n (hstart s) (by rwa [Nat.zero_add])
    rw [Nat.zero_add] at hexit hreads
    refine ⟨n + 2, t, (hloop _ s).trans hrun, fun k hk hfirst => ?_, fun hall => ?_⟩
    · obtain rfl := hsuccess k hk hfirst
      rw [hexit, hfirst.2]
      exact ⟨rfl, hreads⟩
    · obtain rfl := hfailure hall
      rw [hexit, hall 4 (by decide)]
      exact ⟨rfl, hreads⟩

theorem FirstSuccess.unique (h : FirstSuccess b k) (h' : FirstSuccess b n) : k = n := by
  rcases Nat.lt_trichotomy k n with hlt | heq | hlt
  · exact absurd (h'.1 k hlt) (by rw [h.2]; decide)
  · exact heq
  · exact absurd (h.1 n hlt) (by rw [h'.2]; decide)

theorem counted_ends (b : Bios) : ∃ n, EndsWith b (fun k => decide (k + 1 < 5)) n ∧ FiveEnd b n := by
  obtain ⟨n, hn, hbefore, hstop⟩ := @exists_first_not
    (fun k => b.read k = true ∧ decide (k + 1 < 5) = true) 4 (fun h => absurd h.2 (by decide))
  refine ⟨n, ⟨hbefore, hstop⟩, fun k hk hfirst => ?_, fun hall => ?_⟩
  · rcases Nat.lt_trichotomy n k with hlt | heq | hlt
    · exact absurd ⟨hfirst.1 n hlt, decide_eq_true (by omega)⟩ hstop
    · exact heq
    · exact absurd (hbefore k hlt).1 (by rw [hfirst.2]; decide)
  · by_contra hne
    exact hstop ⟨hall n (by omega), decide_eq_true (by omega)⟩

theorem resets_end_iff : (∃ n, EndsWith b b.reset n ∧ FiveEnd b n) ↔ ResetsFail b := by
  constructor
  · rintro ⟨n, hend, hsuccess, hfailure⟩
    refine ⟨fun k hk hfirst j hj => ?_, fun hall => ?_⟩
    · obtain rfl := hsuccess k hk hfirst
      exact (hend.1 j hj).2
    · obtain rfl := hfailure hall
      exact ⟨fun j hj => (hend.1 j hj).2, Bool.eq_false_iff.mpr fun h => hend.2 ⟨hall 4 (by decide), h⟩⟩
  · rintro ⟨hsuccess, hfailure⟩
    by_cases hall : ∀ j < 5, b.read j = true
    · obtain ⟨hresets, hlast⟩ := hfailure hall
      refine ⟨4, ⟨fun j hj => ⟨hall j (by omega), hresets j hj⟩, fun h => ?_⟩, fun k hk hfirst => ?_,
        fun _ => rfl⟩
      · exact absurd h.2 (by rw [hlast]; decide)
      · exact absurd (hall k hk) (by rw [hfirst.2]; decide)
    · obtain ⟨j, hj, hread⟩ : ∃ j < 5, ¬b.read j = true := by simpa using hall
      obtain ⟨k, hk, hbefore, hstop⟩ := exists_first_not (P := fun j => b.read j = true) hread
      have hfirst : FirstSuccess b k := ⟨hbefore, Bool.eq_false_iff.mpr hstop⟩
      refine ⟨k, ⟨fun j hj => ⟨hbefore j hj, hsuccess k (by omega) hfirst j hj⟩, fun h => hstop h.1⟩,
        fun k' _ hfirst' => hfirst.unique hfirst', fun hall' => absurd hall' hall⟩

end Loop

section Passes
variable {b : Bios} {again : ℕ → Bool} {pass : State → State} {I : ℕ → State → Prop}

theorem passes_of_pass (after : State → State) (more : State → Bool)
    (hpass : ∀ s, pass s = if b.read s.reads = false then (s.int13Read b).leave .success
      else if more (after s) = true then after s else (after s).leave .failure)
    (hafter : ∀ s, (after s).reads = s.reads + 1)
    (hI : ∀ k s, I k s → s.exit = none ∧ s.reads = k ∧ more (after s) = again k)
    (hnext : ∀ k s, I k s → again k = true → I (k + 1) (after s)) : Passes b again pass I := by
  constructor
  · intro k s h
    exact (hI k s h).1
  · intro k s h hread
    obtain ⟨-, hreads, -⟩ := hI k s h
    rw [hpass, if_pos (by rwa [hreads])]
    exact ⟨rfl, congrArg (· + 1) hreads⟩
  · intro k s h hread hagain
    obtain ⟨-, hreads, hmore⟩ := hI k s h
    rw [hpass, if_neg (by rw [hreads, hread]; decide), if_neg (by rw [hmore, hagain]; decide)]
    exact ⟨rfl, (hafter s).trans (congrArg (· + 1) hreads)⟩
  · intro k s h hread hagain
    obtain ⟨-, hreads, hmore⟩ := hI k s h
    rw [hpass, if_neg (by rw [hreads, hread]; decide), if_pos (hmore.trans hagain)]
    exact hnext k s h hagain

theorem attempt_eq (test : State → State) (s : State) : attempt test b s =
    if b.read s.reads = false then (s.int13Read b).leave .success
    else if (test ((s.int13Read b).resetAndCount b)).cf = true then test ((s.int13Read b).resetAndCount b)
    else (test ((s.int13Read b).resetAndCount b)).leave .failure := rfl

theorem bootAttempt_eq (s : State) : bootAttempt b s =
    if b.read s.reads = false then (s.int13Read b).leave .success
    else if (!(((s.int13Read b).int13Reset b).decDi).zf) = true then ((s.int13Read b).int13Reset b).decDi
    else (((s.int13Read b).int13Reset b).decDi).leave .failure := by
  simp only [Bool.not_eq_true']
  rfl

structure Counted (k : ℕ) (s : State) : Prop where
  exit : s.exit = none
  reads : s.reads = k
  counter : s.counter = k
  low : k < 5

theorem Counted.count {k : ℕ} {s : State} (h : Counted k s) : ((s.int13Read b).resetAndCount b).ax = k + 1 := by
  have hlow := h.low
  change (s.counter + 1) % 2 ^ 16 = k + 1
  rw [h.counter]
  omega

/-- `low` is the part of AX that is compared with five. -/
theorem counted_passes (low : ℕ → ℕ) (hlow : ∀ x ≤ 5, low x = x) :
    Passes b (fun k => decide (k + 1 < 5)) (attempt (fun s => s.cmp (low s.ax) 5) b) Counted := by
  refine passes_of_pass _ State.cf (attempt_eq _) (fun _ => rfl) (fun k s h => ⟨h.exit, h.reads, ?_⟩)
    fun k s h hagain => ⟨h.exit, congrArg (· + 1) h.reads, h.count, of_decide_eq_true hagain⟩
  change decide (low ((s.int13Read b).resetAndCount b).ax < 5) = decide (k + 1 < 5)
  rw [h.count, hlow _ h.low]

structure Reset (k : ℕ) (s : State) : Prop where
  exit : s.exit = none
  reads : s.reads = k
  resets : s.resets = k

theorem reset_passes : Passes b b.reset (attempt (fun s => s.movAx 5) b) Reset :=
  passes_of_pass _ State.cf (attempt_eq _) (fun _ => rfl)
    (fun _ _ h => ⟨h.exit, h.reads, congrArg b.reset h.resets⟩)
    fun _ _ h _ => ⟨h.exit, congrArg (· + 1) h.reads, congrArg (· + 1) h.resets⟩

structure CountedDown (k : ℕ) (s : State) : Prop where
  exit : s.exit = none
  reads : s.reads = k
  counter : s.counter + k = 5
  left : 0 < s.counter

theorem CountedDown.count {k : ℕ} {s : State} (h : CountedDown k s) :
    dec16 s.counter = s.counter - 1 := dec16_of_pos h.left

theorem countedDown_passes : Passes b (fun k => decide (k + 1 < 5)) (bootAttempt b) CountedDown := by
  refine passes_of_pass (fun s => ((s.int13Read b).int13Reset b).decDi) (fun s => !s.zf) bootAttempt_eq
    (fun _ => rfl) (fun k s h => ⟨h.exit, h.reads, ?_⟩) fun k s h hagain => ?_
  · change (!decide (dec16 s.counter = 0)) = decide (k + 1 < 5)
    have hcounter := h.counter
    have hzero : s.counter - 1 = 0 ↔ ¬k + 1 < 5 := by omega
    rw [h.count, decide_eq_decide.mpr hzero, decide_not, Bool.not_not]
  · have hcounter := h.counter
    have hlow := of_decide_eq_true hagain
    have hdown : (((s.int13Read b).int13Reset b).decDi).counter = s.counter - 1 := h.count
    exact ⟨h.exit, congrArg (· + 1) h.reads, by rw [hdown]; omega, by rw [hdown]; omega⟩

end Passes

theorem loadRootDirectory_five (b : Bios) : FiveAttempts (loadRootDirectory b) b :=
  (fiveAttempts_iff (counted_passes id fun _ _ => rfl) (fun _ _ => rfl)
    fun _ => ⟨rfl, rfl, rfl, by decide⟩).mpr (counted_ends b)

theorem loadFileCluster_five (b : Bios) : FiveAttempts (loadFileCluster b) b :=
  (fiveAttempts_iff (counted_passes (· % 2 ^ 8) fun _ hx => Nat.mod_eq_of_lt (by omega)) (fun _ _ => rfl)
    fun _ => ⟨rfl, rfl, rfl, by decide⟩).mpr (counted_ends b)

theorem readSector_five (b : Bios) : FiveAttempts (readSector b) b :=
  (fiveAttempts_iff countedDown_passes (fun _ _ => rfl)
    fun _ => ⟨rfl, rfl, rfl, Nat.succ_pos 4⟩).mpr (counted_ends b)

theorem loadFAT_five_iff (b : Bios) : FiveAttempts (loadFAT b) b ↔ ResetsFail b :=
  (fiveAttempts_iff reset_passes (fun _ _ => rfl) fun _ => ⟨rfl, rfl, rfl⟩).trans resets_end_iff

/-- All four loops keep to five attempts exactly when `loadFAT` does; the other three always do. -/
theorem retriedFive_iff (b : Bios) : (RetriedFive b ↔ ResetsFail b) ∧ FiveAttempts (loadRootDirectory b) b ∧
    FiveAttempts (loadFileCluster b) b ∧ FiveAttempts (readSector b) b := by
  have hroot := loadRootDirectory_five b
  have hfile := loadFileCluster_five b
  have hboot := readSector_five b
  refine ⟨?_, hroot, hfile, hboot⟩
  rw [← loadFAT_five_iff]
  exact ⟨fun h => h.fat, fun hfat => ⟨hroot, hfat, hfile, hboot⟩⟩

def failsOnce : Bios := ⟨fun k => decide (k < 1), fun _ => false⟩

/-- The first read of the FAT fails, the reset succeeds, and the load fails without a second read. -/
theorem loadFAT_gives_up : ¬RetriedFive failsOnce := by
  intro hfive
  obtain ⟨fuel, t, hrun, hsuccess, -⟩ := hfive.fat ⟨0, 0, false, false, 0, 0, none⟩
  have honce : loadFAT failsOnce 2 ⟨0, 0, false, false, 0, 0, none⟩ =
      some ⟨5, 1, false, false, 1, 1, some .failure⟩ := rfl
  obtain rfl := whileLoop_unique hrun honce
  exact absurd (hsuccess 1 (by decide) ⟨by decide, rfl⟩).2 (by decide)

end Ktux.DiskRetry
