import Ktux.CString
import Ktux.Loops
import Mathlib.Data.List.Nodup
import Mathlib.Data.List.Perm.Subperm
import Mathlib.Data.List.Range

set_option autoImplicit false

/-!
# FAT12 tables, cluster chains and CHS addresses
-/
namespace Ktux.Fat12
open ByteMemory CString Loops

/-- Twelve-bit entries, two in three bytes. -/
def entry (fat : ByteMem) (c : ℕ) : ℕ :=
  if c % 2 = 1 then readWord fat (3 * c / 2) / 16 else readWord fat (3 * c / 2) % 4096

theorem entry_congr {fat fat' : ByteMem} {c : ℕ} (h : readWord fat (3 * c / 2) = readWord fat' (3 * c / 2)) :
    entry fat c = entry fat' c := by
  rw [entry, entry, h]

abbrev Entry := Fin 4096

/-- The table that holds the entries; a last entry alone takes two bytes. -/
def pack : List Entry → List UInt8
  | [] => []
  | [a] => [UInt8.ofNat a, UInt8.ofNat (a / 256)]
  | a :: b :: es =>
    UInt8.ofNat a :: UInt8.ofNat (a / 256 + 16 * (b % 16)) :: UInt8.ofNat (b / 16) :: pack es

section Pack
variable {es : List Entry} {fat : ByteMem} {c : ℕ}

theorem pack_length (es : List Entry) : (pack es).length = (3 * es.length + 1) / 2 := by
  induction es using pack.induct with
  | case1 => rfl
  | case2 a => simp [pack]
  | case3 a b es ih =>
    simp only [pack, List.length_cons, ih]
    omega

/-- Both bytes that an entry is read from are in the table. -/
theorem pack_inside (hc : c < es.length) : 3 * c / 2 + 1 < (pack es).length := by
  rw [pack_length]
  omega

theorem entry_shift (fat : ByteMem) (c : ℕ) : entry fat (c + 2) = entry (fun i => fat (i + 3)) c := by
  have hword : 3 * (c + 2) / 2 = 3 * c / 2 + 3 := by omega
  have hnext : 3 * c / 2 + 3 + 1 = 3 * c / 2 + 1 + 3 := by omega
  simp only [entry, readWord, hword, hnext, Nat.add_mod_right]

theorem entry_pack (hfat : ListAt fat 0 (pack es)) (hc : c < es.length) : entry fat c = es[c] := by
  induction es using pack.induct generalizing fat c with
  | case1 => simp at hc
  | case2 a =>
    obtain rfl : c = 0 := by simpa using hc
    obtain ⟨h0, h1, -⟩ := hfat
    simp [entry, readWord, h0, h1]
    omega
  | case3 a b es ih =>
    obtain ⟨h0, h1, h2, hrest⟩ := hfat
    rcases c with _ | _ | c
    · simp [entry, readWord, h0, h1]
      omega
    · simp [entry, readWord, h1, h2]
      omega
    · refine (entry_shift fat c).trans (ih (ListAt.of_getElem fun i hi => ?_) (by simpa using hc))
      rw [← hrest.getElem hi]
      exact congrArg fat (by omega)

end Pack

/-- The clusters after `c` are those of the list, and the last one ends the chain. -/
def Chain (next : ℕ → ℕ) (ends : ℕ → Prop) : ℕ → List ℕ → Prop
  | c, [] => ends (next c)
  | c, d :: ds => next c = d ∧ Chain next ends d ds

theorem Chain.exists_end {next : ℕ → ℕ} {ends : ℕ → Prop} {c : ℕ} {cs : List ℕ}
    (h : Chain next ends c cs) : ∃ e, ends e ∧ Chain next (· = e) c cs := by
  induction cs generalizing c with
  | nil => exact ⟨next c, h, rfl⟩
  | cons d ds ih =>
    obtain ⟨e, he, hrest⟩ := ih h.2
    exact ⟨e, he, h.1, hrest⟩

theorem Chain.suffix {next : ℕ → ℕ} {ends : ℕ → Prop} {c d : ℕ} {pre post : List ℕ}
    (h : Chain next ends c (pre ++ d :: post)) : Chain next ends d post := by
  induction pre generalizing c with
  | nil => exact h.2
  | cons e pre ih => exact ih h.2

theorem length_le_of_nodup {cs : List ℕ} {n : ℕ} (h : cs.Nodup) (hlt : ∀ c ∈ cs, c < n) :
    cs.length ≤ n := by
  have hsub : cs ⊆ List.range n := fun c hc => List.mem_range.mpr (hlt c hc)
  exact (h.subperm hsub).length_le.trans_eq List.length_range

/-- A chain that ends can be followed to its first end without coming twice to one cluster. -/
theorem Chain.exists_simple {next : ℕ → ℕ} {ends : ℕ → Prop} {c : ℕ} {cs : List ℕ}
    (h : Chain next ends c cs) :
    ∃ ds, Chain next ends c ds ∧ (∀ d ∈ ds, ¬ ends d) ∧ (c :: ds).Nodup ∧ ds.length ≤ cs.length := by
  induction cs generalizing c with
  | nil => exact ⟨[], h, fun _ hd => absurd hd List.not_mem_nil, List.nodup_singleton c, le_rfl⟩
  | cons d cs ih =>
    obtain ⟨hnext, hrest⟩ := h
    by_cases hends : ends d
    · have hend : ends (next c) := by rwa [hnext]
      exact ⟨[], hend, fun _ hd => absurd hd List.not_mem_nil, List.nodup_singleton c, Nat.zero_le _⟩
    · obtain ⟨ds, hchain, hinside, hnodup, hlength⟩ := ih hrest
      have hall : ∀ e ∈ d :: ds, ¬ ends e := List.forall_mem_cons.mpr ⟨hends, hinside⟩
      by_cases hmem : c ∈ d :: ds
      · -- the chain comes back to `c`: what follows that place is a chain from `c` already
        obtain ⟨pre, post, heq⟩ := List.append_of_mem hmem
        have hlong := congrArg List.length heq
        rw [List.length_cons, List.length_append, List.length_cons] at hlong
        refine ⟨post, ?_, fun e he => hall e ?_, ?_, ?_⟩
        · cases pre with
          | nil =>
            obtain ⟨rfl, rfl⟩ := List.cons.inj heq
            exact hchain
          | cons e pre =>
            obtain ⟨rfl, rfl⟩ := List.cons.inj heq
            exact hchain.suffix
        · rw [heq]
          exact List.mem_append_right _ (List.mem_cons_of_mem _ he)
        · rw [heq] at hnodup
          exact hnodup.of_append_right
        · rw [List.length_cons]
          omega
      · exact ⟨d :: ds, ⟨hnext, hchain⟩, hall, List.nodup_cons.mpr ⟨hmem, hnodup⟩, Nat.succ_le_succ hlength⟩

theorem not_chain_of_fixed {next : ℕ → ℕ} {ends : ℕ → Prop} {c : ℕ} (hnext : next c = c) (hends : ¬ ends c)
    (cs : List ℕ) : ¬ Chain next ends c cs := by
  induction cs with
  | nil =>
    intro h
    rw [Chain, hnext] at h
    exact hends h
  | cons d ds ih =>
    rintro ⟨hd, hrest⟩
    rw [← hd, hnext] at hrest
    exact ih hrest

/-- A loop that goes on with the cluster after its own until that one ends the chain stops within `n` passes
exactly when a chain is shorter than that. `I` holds with as many passes left as its number says. -/
theorem doLoop_chain_iff {σ : Type*} {b : σ → Option σ} {c : σ → Bool} {next : ℕ → ℕ} {ends : ℕ → Prop}
    (cluster : σ → ℕ) (I : ℕ → σ → Prop)
    (hpass : ∀ n s, I (n + 1) s → ∃ u, b s = some u ∧ (c u = false ↔ ends (next (cluster s))) ∧
      (c u = true → cluster u = next (cluster s) ∧ I n u)) {n : ℕ} {s : σ} (h : I n s) :
    (∃ t, doLoop b c n s = some t) ↔ ∃ cs : List ℕ, cs.length < n ∧ Chain next ends (cluster s) cs := by
  induction n generalizing s with
  | zero =>
    constructor
    · rintro ⟨t, ht⟩
      obtain ⟨u, _, hu⟩ := Option.bind_eq_some_iff.mp ht
      cases hu
    · rintro ⟨cs, hlt, _⟩
      exact absurd hlt (Nat.not_lt_zero _)
  | succ n ih =>
    obtain ⟨u, hb, hstop, hgo⟩ := hpass n s h
    cases hc : c u with
    | false => exact iff_of_true ⟨u, doLoop_stop hb hc n⟩ ⟨[], Nat.succ_pos n, hstop.mp hc⟩
    | true =>
      obtain ⟨hnext, hu⟩ := hgo hc
      have hends : ¬ ends (cluster u) := by
        rw [hnext, ← hstop, hc]
        decide
      rw [doLoop_pass hb hc, ih hu]
      constructor
      · rintro ⟨cs, hlt, hchain⟩
        exact ⟨cluster u :: cs, Nat.succ_lt_succ hlt, hnext.symm, hchain⟩
      · rintro ⟨cs, hlt, hchain⟩
        cases cs with
        | nil => exact absurd (hnext ▸ hchain) hends
        | cons d ds =>
          obtain ⟨hd, hrest⟩ := hchain
          refine ⟨ds, Nat.lt_of_succ_lt_succ hlt, ?_⟩
          rw [hnext, hd]
          exact hrest

/-- The sector that a cylinder, a head and a sector counted from `1` address. -/
def chsSector (sectorsPerTrack heads cylinder head sector : ℕ) : ℕ :=
  (cylinder * heads + head) * sectorsPerTrack + (sector - 1)

section CHS
variable {p n : ℕ}

theorem chsSector_divisions (p n x : ℕ) : chsSector p n (x / p / n) (x / p % n) (x % p + 1) = x := by
  rw [chsSector, Nat.div_add_mod' (x / p) n, Nat.add_sub_cancel, Nat.div_add_mod']

theorem chsSector_le {c c' h h' s : ℕ} (hc : c' ≤ c) (hh : h' ≤ h) :
    chsSector p n c' h' s ≤ chsSector p n c h s := by
  have hmul : c' * n + h' ≤ c * n + h := Nat.add_le_add (Nat.mul_le_mul_right n hc) hh
  exact Nat.add_le_add_right (Nat.mul_le_mul_right p hmul) _

theorem chsSector_eq_iff {c c' h h' s : ℕ} (hp : 0 < p) (hn : 0 < n) (hc : c' ≤ c) (hh : h' ≤ h) :
    chsSector p n c' h' s = chsSector p n c h s ↔ c' = c ∧ h' = h := by
  constructor
  · intro heq
    have hmul : c' * n + h' = c * n + h := Nat.eq_of_mul_eq_mul_right hp (Nat.add_right_cancel heq)
    have hle : c' * n ≤ c * n := Nat.mul_le_mul_right n hc
    have hcyl : c' * n = c * n := by omega
    exact ⟨Nat.eq_of_mul_eq_mul_right hn hcyl, by omega⟩
  · rintro ⟨rfl, rfl⟩
    rfl

end CHS

end Ktux.Fat12
