import Mathlib.Algebra.Group.Nat.Defs
import Mathlib.Logic.Function.Basic
import Mathlib.Tactic.Common

set_option autoImplicit false

/-!
# Two-level address translation

The i386 walk over physical memory given as 32-bit words. A directory entry that names the directory
itself opens a window through which the page tables are ordinary memory.
-/
namespace Ktux.TwoLevelPaging

/-- The word at each physical word index, that is at four times that address. -/
abbrev Phys := ℕ → ℕ

def dirIndex (v : ℕ) : ℕ := v / 4194304
def pageIndex (v : ℕ) : ℕ := v / 4096 % 1024

def present (e : ℕ) : Prop := e % 2 = 1

instance (e : ℕ) : Decidable (present e) := inferInstanceAs (Decidable (e % 2 = 1))

def frame (e : ℕ) : ℕ := e / 4096

def entryIndex (f i : ℕ) : ℕ := f * 1024 + i

def entryAt (m : Phys) (f i : ℕ) : ℕ := m (entryIndex f i)

/-- The directory and table entries that translate `v`, under the directory in frame `D`. -/
def walk (m : Phys) (D v : ℕ) : Option (ℕ × ℕ) :=
  if present (entryAt m D (dirIndex v)) then
    if present (entryAt m (frame (entryAt m D (dirIndex v))) (pageIndex v)) then
      some (entryAt m D (dirIndex v), entryAt m (frame (entryAt m D (dirIndex v))) (pageIndex v))
    else none
  else none

def translate (m : Phys) (D v : ℕ) : Option ℕ :=
  (walk m D v).map fun e => frame e.2 * 4096 + v % 4096

/-- Aligned word accesses with paging on; `none` is a page fault. -/
def load (m : Phys) (D v : ℕ) : Option ℕ := (translate m D v).map fun p => m (p / 4)

def store (m : Phys) (D v x : ℕ) : Option Phys :=
  (translate m D v).map fun p => Function.update m (p / 4) x

/-- Byte `k` of the word `w`, counted from the low end, replaced. -/
def setByte (w k x : ℕ) : ℕ := w / 256 ^ (k + 1) * 256 ^ (k + 1) + x % 256 * 256 ^ k + w % 256 ^ k

def storeByte (m : Phys) (D v x : ℕ) : Option Phys :=
  (translate m D v).map fun p => Function.update m (p / 4) (setByte (m (p / 4)) (p % 4) x)

theorem entryIndex_inj {f f' i i' : ℕ} (hi : i < 1024) (hi' : i' < 1024)
    (h : entryIndex f i = entryIndex f' i') : f = f' ∧ i = i' := by
  unfold entryIndex at h
  omega

theorem pageIndex_lt (v : ℕ) : pageIndex v < 1024 := Nat.mod_lt _ (by decide)

theorem same_page {v w : ℕ} (hd : dirIndex v = dirIndex w) (hp : pageIndex v = pageIndex w) :
    v / 4096 = w / 4096 := by
  unfold dirIndex at hd
  unfold pageIndex at hp
  omega

theorem entryAt_update_same (m : Phys) (f i x : ℕ) :
    entryAt (Function.update m (entryIndex f i) x) f i = x := Function.update_self _ _ _

theorem entryAt_update_frame (m : Phys) {f f' i i' x : ℕ} (hi : i < 1024) (hi' : i' < 1024)
    (hf : f' ≠ f) : entryAt (Function.update m (entryIndex f i) x) f' i' = entryAt m f' i' :=
  Function.update_of_ne (fun h => hf (entryIndex_inj hi' hi h).1) _ _

theorem entryAt_update_index (m : Phys) {f f' i i' x : ℕ} (hi : i < 1024) (hi' : i' < 1024)
    (hne : i' ≠ i) : entryAt (Function.update m (entryIndex f i) x) f' i' = entryAt m f' i' :=
  Function.update_of_ne (fun h => hne (entryIndex_inj hi' hi h).2) _ _

theorem walk_missing {m : Phys} {D v : ℕ} (h : ¬ present (entryAt m D (dirIndex v))) :
    walk m D v = none := if_neg h

theorem walk_table {m : Phys} {D v : ℕ} (h : present (entryAt m D (dirIndex v))) :
    walk m D v =
      if present (entryAt m (frame (entryAt m D (dirIndex v))) (pageIndex v)) then
        some (entryAt m D (dirIndex v), entryAt m (frame (entryAt m D (dirIndex v))) (pageIndex v))
      else none := if_pos h

theorem walk_of_present {m : Phys} {D v : ℕ} (h : present (entryAt m D (dirIndex v)))
    (h' : present (entryAt m (frame (entryAt m D (dirIndex v))) (pageIndex v))) :
    walk m D v =
      some (entryAt m D (dirIndex v), entryAt m (frame (entryAt m D (dirIndex v))) (pageIndex v)) := by
  rw [walk_table h, if_pos h']

theorem walk_congr {m m' : Phys} {D v : ℕ}
    (hdir : entryAt m' D (dirIndex v) = entryAt m D (dirIndex v))
    (htable : present (entryAt m D (dirIndex v)) →
      entryAt m' (frame (entryAt m D (dirIndex v))) (pageIndex v) =
        entryAt m (frame (entryAt m D (dirIndex v))) (pageIndex v)) :
    walk m' D v = walk m D v := by
  unfold walk
  rw [hdir]
  split_ifs with hp h1 h2 h2
  · rw [htable hp]
  · exact absurd (htable hp ▸ h1) h2
  · exact absurd ((htable hp).symm ▸ h2) h1
  · rfl
  · rfl

theorem load_of_walk {m : Phys} {D v pde pte : ℕ} (h : walk m D v = some (pde, pte)) :
    load m D v = some (m (frame pte * 1024 + v % 4096 / 4)) := by
  have hword : (frame pte * 4096 + v % 4096) / 4 = frame pte * 1024 + v % 4096 / 4 := by omega
  simp [load, translate, h, hword]

theorem store_of_walk {m : Phys} {D v pde pte x : ℕ} (h : walk m D v = some (pde, pte)) :
    store m D v x = some (Function.update m (frame pte * 1024 + v % 4096 / 4) x) := by
  have hword : (frame pte * 4096 + v % 4096) / 4 = frame pte * 1024 + v % 4096 / 4 := by omega
  simp [store, translate, h, hword]

theorem storeByte_of_walk {m : Phys} {D v pde pte x : ℕ} (h : walk m D v = some (pde, pte)) :
    ∃ w, storeByte m D v x =
      some (Function.update m (entryIndex (frame pte) (v % 4096 / 4)) w) := by
  have hword : (frame pte * 4096 + v % 4096) / 4 = entryIndex (frame pte) (v % 4096 / 4) := by
    unfold entryIndex
    omega
  refine ⟨setByte (m (entryIndex (frame pte) (v % 4096 / 4))) ((frame pte * 4096 + v % 4096) % 4) x, ?_⟩
  simp only [storeByte, translate, h, Option.map_some, hword]

theorem store_fault {m : Phys} {D v x : ℕ} (h : walk m D v = none) : store m D v x = none := by
  simp [store, translate, h]

section Window
variable {m : Phys} {D slot : ℕ}

/-- The address at which the window in directory slot `slot` shows entry `i` of table `d`. -/
def windowAddress (slot d i : ℕ) : ℕ := slot * 4194304 + d * 4096 + 4 * i

theorem windowAddress_dirIndex {d i : ℕ} (hd : d < 1024) (hi : i < 1024) :
    dirIndex (windowAddress slot d i) = slot := by
  unfold dirIndex windowAddress
  omega

theorem windowAddress_pageIndex {d i : ℕ} (hd : d < 1024) (hi : i < 1024) :
    pageIndex (windowAddress slot d i) = d := by
  unfold pageIndex windowAddress
  omega

theorem windowAddress_offset {d i : ℕ} (hi : i < 1024) :
    windowAddress slot d i % 4096 / 4 = i := by
  unfold windowAddress
  omega

/-- Through a directory entry that names the directory itself, the table of `d` is seen exactly when
directory entry `d` is present. -/
theorem window_walk (hself : present (entryAt m D slot)) (hframe : frame (entryAt m D slot) = D)
    {d i : ℕ} (hd : d < 1024) (hi : i < 1024) :
    walk m D (windowAddress slot d i) =
      if present (entryAt m D d) then some (entryAt m D slot, entryAt m D d) else none := by
  have hdir : dirIndex (windowAddress slot d i) = slot := windowAddress_dirIndex hd hi
  have hpage : pageIndex (windowAddress slot d i) = d := windowAddress_pageIndex hd hi
  rw [walk_table (by rwa [hdir]), hdir, hpage, hframe]

theorem window_translate (hself : present (entryAt m D slot)) (hframe : frame (entryAt m D slot) = D)
    {d i : ℕ} (hd : d < 1024) (hi : i < 1024) (hp : present (entryAt m D d)) :
    translate m D (windowAddress slot d i) = some (4 * entryIndex (frame (entryAt m D d)) i) := by
  have hwalk := (window_walk hself hframe hd hi).trans (if_pos hp)
  have hoffset : windowAddress slot d i % 4096 = 4 * i := by
    unfold windowAddress
    omega
  have hbytes : frame (entryAt m D d) * 4096 + 4 * i = 4 * entryIndex (frame (entryAt m D d)) i := by
    unfold entryIndex
    omega
  rw [translate, hwalk, Option.map_some, hoffset, hbytes]

theorem window_store (hself : present (entryAt m D slot)) (hframe : frame (entryAt m D slot) = D)
    {d i : ℕ} (hd : d < 1024) (hi : i < 1024) (hp : present (entryAt m D d)) (x : ℕ) :
    store m D (windowAddress slot d i) x =
      some (Function.update m (entryIndex (frame (entryAt m D d)) i) x) := by
  have hw := window_walk hself hframe hd hi
  rw [if_pos hp] at hw
  rw [store_of_walk hw, windowAddress_offset hi]
  rfl

theorem window_fault (hself : present (entryAt m D slot)) (hframe : frame (entryAt m D slot) = D)
    {d i : ℕ} (hd : d < 1024) (hi : i < 1024) (hp : ¬ present (entryAt m D d)) (x : ℕ) :
    store m D (windowAddress slot d i) x = none := by
  have hw := window_walk hself hframe hd hi
  rw [if_neg hp] at hw
  exact store_fault hw

end Window

theorem walk_update_table {m : Phys} {D t i x v : ℕ} (hi : i < 1024) (hd : dirIndex v < 1024)
    (ht : t ≠ D)
    (hother : present (entryAt m D (dirIndex v)) → frame (entryAt m D (dirIndex v)) = t →
      pageIndex v ≠ i) :
    walk (Function.update m (entryIndex t i) x) D v = walk m D v := by
  refine walk_congr (entryAt_update_frame m hi hd (Ne.symm ht)) fun hp => ?_
  by_cases hf : frame (entryAt m D (dirIndex v)) = t
  · exact entryAt_update_index m hi (pageIndex_lt v) (hother hp hf)
  · exact entryAt_update_frame m hi (pageIndex_lt v) hf

theorem walk_update_entry {m : Phys} {D v x : ℕ} (hd : dirIndex v < 1024)
    (hp : present (entryAt m D (dirIndex v))) (ht : frame (entryAt m D (dirIndex v)) ≠ D)
    (hx : present x) :
    walk (Function.update m (entryIndex (frame (entryAt m D (dirIndex v))) (pageIndex v)) x) D v =
      some (entryAt m D (dirIndex v), x) := by
  have hdir := entryAt_update_frame m (x := x) (pageIndex_lt v) hd (Ne.symm ht)
  have hentry := entryAt_update_same m (frame (entryAt m D (dirIndex v))) (pageIndex v) x
  rw [walk_of_present (by rwa [hdir]) (by rw [hdir, hentry]; exact hx), hdir, hentry]

theorem walk_same_page {m : Phys} {D v w : ℕ} (h : v / 4096 = w / 4096) : walk m D v = walk m D w := by
  have hd : dirIndex v = dirIndex w := by
    unfold dirIndex
    omega
  have hp : pageIndex v = pageIndex w := by
    unfold pageIndex
    omega
  unfold walk
  rw [hd, hp]

/-- The translation of `v` rests on the physical word `k`. -/
def Consults (m : Phys) (D v k : ℕ) : Prop :=
  entryIndex D (dirIndex v) = k ∨ present (entryAt m D (dirIndex v)) ∧
    entryIndex (frame (entryAt m D (dirIndex v))) (pageIndex v) = k

theorem walk_update_unread {m : Phys} {D v k : ℕ} (h : ¬ Consults m D v k) (x : ℕ) :
    walk (Function.update m k x) D v = walk m D v := by
  obtain ⟨hdir, htable⟩ := not_or.mp h
  refine walk_congr (Function.update_of_ne hdir _ _) fun hp => ?_
  exact Function.update_of_ne (fun heq => htable ⟨hp, heq⟩) _ _

theorem walk_update_cleared {m : Phys} {D v k x : ℕ} (h : Consults m D v k) (hx : ¬ present x) :
    walk (Function.update m k x) D v = none := by
  by_cases hdir : entryIndex D (dirIndex v) = k
  · apply walk_missing
    rwa [entryAt, hdir, Function.update_self]
  · obtain ⟨hp, htable⟩ := h.resolve_left hdir
    have hkeep : entryAt (Function.update m k x) D (dirIndex v) = entryAt m D (dirIndex v) :=
      Function.update_of_ne hdir _ _
    have hcleared : entryAt (Function.update m k x) (frame (entryAt m D (dirIndex v))) (pageIndex v) = x := by
      rw [entryAt, htable, Function.update_self]
    rw [walk_table (by rwa [hkeep]), hkeep, hcleared, if_neg hx]

/-- The directory in frame `D` and the tables it names hold the same words. -/
structure SameTables (D : ℕ) (m u : Phys) : Prop where
  dir : ∀ d < 1024, entryAt u D d = entryAt m D d
  table : ∀ d < 1024, present (entryAt m D d) → ∀ i < 1024,
    entryAt u (frame (entryAt m D d)) i = entryAt m (frame (entryAt m D d)) i

section Tables
variable {m u w : Phys} {D : ℕ}

theorem SameTables.refl (m : Phys) : SameTables D m m := ⟨fun _ _ => rfl, fun _ _ _ _ _ => rfl⟩

theorem SameTables.trans (h : SameTables D m u) (h' : SameTables D u w) : SameTables D m w := by
  refine ⟨fun d hd => (h'.dir d hd).trans (h.dir d hd), fun d hd hp i hi => ?_⟩
  have htable := h'.table d hd
  rw [h.dir d hd] at htable
  exact (htable hp i hi).trans (h.table d hd hp i hi)

theorem SameTables.walk_eq (h : SameTables D m u) {v : ℕ} (hd : dirIndex v < 1024) :
    walk u D v = walk m D v :=
  walk_congr (h.dir _ hd) fun hp => h.table _ hd hp _ (pageIndex_lt v)

/-- A write to a frame that is neither the directory nor a table. -/
theorem sameTables_update {f i x : ℕ} (hi : i < 1024) (hD : f ≠ D)
    (htables : ∀ d < 1024, present (entryAt m D d) → frame (entryAt m D d) ≠ f) :
    SameTables D m (Function.update m (entryIndex f i) x) := by
  refine ⟨fun d hd => entryAt_update_frame m hi hd hD.symm, fun d hd hp j hj => ?_⟩
  exact entryAt_update_frame m hi hj (htables d hd hp)

end Tables

end Ktux.TwoLevelPaging
