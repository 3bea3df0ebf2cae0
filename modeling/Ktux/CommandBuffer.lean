import Ktux.CString
import Ktux.Keyboard
import Mathlib.Data.List.Induction
import Mathlib.Data.List.Infix

set_option autoImplicit false

/-!
# The command buffer

`cmd_buf_add` against a line that is edited, and the indices that it stores to.
-/
namespace Ktux.CommandBuffer
open Words ByteMemory CString Keyboard

def Printable (key : UInt8) : Prop := 0x20 ≤ key ∧ key < 0x7F

def edit (line : List UInt8) (key : UInt8) : List UInt8 :=
  if key = backspace then line.dropLast
  else if key = tab then line ++ List.replicate (8 - line.length % 8) space
  else line ++ [key]

def edited (keys : List UInt8) : List UInt8 := keys.foldl edit []

def answer (line : List UInt8) (key : UInt8) : ℕ := if key = backspace ∧ line = [] then error else ok

structure Shows (s : Driver) (line : List UInt8) : Prop where
  pos : s.cmdBufPos = line.length
  chars : ListAt s.commandBuffer 0 line
  clear : ∀ i, line.length ≤ i → i < cmdBufSize → s.commandBuffer i = 0

/-- A newline hands over the line as a string and leaves an empty one. -/
def EntersLine (s : Driver) (line : List UInt8) : Prop :=
  ∃ command, (cmdBufAdd newline s).2.effects = s.effects ++ [.processCommand command] ∧
    StringAt command 0 line ∧ Shows (cmdBufAdd newline s).2 []

/-- `keys`, one after the other, edit a line that is empty at `s`. -/
structure EditsLine (s : Driver) (keys : List UInt8) : Prop where
  shows_line : ∀ pre post, keys = pre ++ post → Shows (addAll pre s) (edited pre)
  answers : ∀ pre key post, keys = pre ++ key :: post →
    (cmdBufAdd key (addAll pre s)).1 = answer (edited pre) key ∧
      (answer (edited pre) key = error → (cmdBufAdd key (addAll pre s)).2 = addAll pre s)
  enters : ∀ pre post, keys = pre ++ post → EntersLine (addAll pre s) (edited pre)

/-- The characters since the last newline, less those taken back. -/
def positionAfter (position : ℕ) (key : UInt8) : ℕ :=
  if key = backspace then position - 1
  else if key = tab then position
  else if key = newline then 0
  else wadd position 1

def position (keys : List UInt8) : ℕ := keys.foldl positionAfter 0

section Calls
variable {s : Driver} {key : UInt8}

theorem cmdBufAdd_backspace (s : Driver) : cmdBufAdd backspace s =
    if 0 < s.cmdBufPos then (ok, store (s.cmdBufPos - 1) 0 { s with cmdBufPos := s.cmdBufPos - 1 })
    else (error, s) :=
  if_pos rfl

/-- The mask `& 7` leaves less than the position, so the loop makes no pass. -/
theorem cmdBufAdd_tab (s : Driver) : cmdBufAdd tab s = (ok, s) := by
  have hmask : wadd s.cmdBufPos 8 &&& 7 = s.cmdBufPos % 8 := by
    refine (and_lowMask 3 _).trans ?_
    unfold wadd wordSize
    omega
  have hnone : (wadd s.cmdBufPos 8 &&& 7) - s.cmdBufPos = 0 := by
    rw [hmask]
    have := Nat.mod_le s.cmdBufPos 8
    omega
  rw [cmdBufAdd, if_neg (by decide), if_pos rfl, hnone, putSpaces]

theorem cmdBufAdd_newline (s : Driver) : cmdBufAdd newline s =
    (ok, { memsetd (cmdBufSize / 4) 0 (emit (.processCommand s.commandBuffer) s) with cmdBufPos := 0 }) := by
  rw [cmdBufAdd, if_neg (by decide), if_neg (by decide), if_pos rfl]

theorem cmdBufAdd_char (hb : key ≠ backspace) (ht : key ≠ tab) (hn : key ≠ newline) (s : Driver) :
    cmdBufAdd key s = (ok, store (s.cmdBufPos % cmdBufSize) key
    { s with cmdBufPos := wadd s.cmdBufPos 1 }) := by
  rw [cmdBufAdd, if_neg hb, if_neg ht, if_neg hn]

theorem Printable.char (h : Printable key) : key ≠ backspace ∧ key ≠ tab ∧ key ≠ newline ∧ key ≠ 0 := by
  refine ⟨?_, ?_, ?_, ?_⟩ <;> rintro rfl <;> exact absurd h.1 (by decide)

theorem memsetd_eq (count dst : ℕ) (s : Driver) :
    (memsetd count dst s).effects = s.effects ∧
      (memsetd count dst s).written = s.written ++ List.range' dst (4 * count) ∧
      (memsetd count dst s).commandBuffer = blit dst (4 * count) (fun _ => 0) s.commandBuffer := by
  induction count generalizing dst s with
  | zero => exact ⟨rfl, (List.append_nil _).symm, (blit_zero dst _ _).symm⟩
  | succ count ih =>
    rw [memsetd]
    obtain ⟨he, hw, hm⟩ := ih (dst + 4) (store (dst + 3) 0
      (store (dst + 2) 0 (store (dst + 1) 0 (store dst 0 s))))
    refine ⟨he, ?_, ?_⟩
    · rw [hw, Nat.mul_succ, Nat.add_comm (4 * count) 4, ← List.range'_append_1]
      simp [store, List.range'_succ]
    · rw [hm, Nat.mul_succ, Nat.add_comm (4 * count) 4, ← blit_blit]
      congr 1
      funext a
      simp only [store, blit, Function.update_apply]
      split_ifs <;> first | rfl | omega

theorem zeroed (count : ℕ) (s : Driver) {i : ℕ} (hi : i < 4 * count) :
    (memsetd count 0 s).commandBuffer i = 0 := by
  rw [(memsetd_eq count 0 s).2.2, ← Nat.zero_add i, blit_inside hi]

theorem cleared_shows_nil {count : ℕ} (h : cmdBufSize ≤ 4 * count) (s : Driver) :
    Shows { memsetd count 0 s with cmdBufPos := 0 } [] :=
  ⟨rfl, trivial, fun _ _ hi => zeroed count s (Nat.lt_of_lt_of_le hi h)⟩

theorem cleared_effects (count : ℕ) (s : Driver) :
    ({ memsetd count 0 s with cmdBufPos := 0 } : Driver).effects = s.effects := (memsetd_eq count 0 s).1

theorem newline_shows_nil (s : Driver) : Shows (cmdBufAdd newline s).2 [] := by
  rw [cmdBufAdd_newline]
  exact cleared_shows_nil (by decide) _

end Calls

section Editing
variable {s : Driver} {line keys : List UInt8} {key : UInt8}

theorem Shows.listAt_zero (h : Shows s line) (hlen : line.length < cmdBufSize) :
    ListAt s.commandBuffer 0 (line ++ [0]) := by
  refine ListAt.append.mpr ⟨h.chars, ?_, trivial⟩
  rw [Nat.zero_add]
  exact h.clear _ le_rfl hlen

theorem Shows.enters (h : Shows s line) (hlen : line.length < cmdBufSize) (hchars : ∀ c ∈ line, c ≠ 0) :
    EntersLine s line := by
  have hfits : 0 + line.length < wordSize := by
    unfold cmdBufSize at hlen
    rw [wordSize_eq]
    omega
  refine ⟨s.commandBuffer, ?_, ⟨h.listAt_zero hlen, hchars, hfits⟩, newline_shows_nil s⟩
  rw [cmdBufAdd_newline]
  exact cleared_effects _ _

theorem Shows.rubOut (h : Shows s line) (hlen : line.length < cmdBufSize) :
    Shows (cmdBufAdd backspace s).2 line.dropLast := by
  rw [cmdBufAdd_backspace, h.pos]
  rcases List.eq_nil_or_concat line with rfl | ⟨line, c, rfl⟩
  · rw [List.length_nil, if_neg (Nat.lt_irrefl 0)]
    exact h
  · rw [List.concat_eq_append] at h hlen ⊢
    have hchars := (ListAt.append.mp h.chars).1
    rw [List.length_append, List.length_singleton] at hlen ⊢
    rw [if_pos (Nat.succ_pos _), Nat.add_sub_cancel, List.dropLast_concat]
    refine ⟨rfl, ListAt.of_getElem fun i hi => ?_, fun i hi hi' => ?_⟩
    · exact (Function.update_of_ne (by omega) _ _).trans (hchars.getElem hi)
    · by_cases heq : i = line.length
      · exact heq ▸ Function.update_self ..
      · refine (Function.update_of_ne heq _ _).trans (h.clear i ?_ hi')
        rw [List.length_append, List.length_singleton]
        omega

theorem Shows.typed (h : Shows s line) (hlen : line.length < cmdBufSize) (hkey : Printable key) :
    Shows (cmdBufAdd key s).2 (line ++ [key]) := by
  obtain ⟨hb, ht, hn, _⟩ := hkey.char
  have hword : line.length + 1 < wordSize := by
    unfold cmdBufSize at hlen
    rw [wordSize_eq]
    omega
  rw [cmdBufAdd_char hb ht hn, h.pos, Nat.mod_eq_of_lt hlen, wadd_of_lt hword]
  refine ⟨?_, ListAt.append.mpr ⟨ListAt.of_getElem fun i hi => ?_, ?_, trivial⟩,
    fun i hi hi' => ?_⟩
  · rw [List.length_append, List.length_singleton]
    rfl
  · exact (Function.update_of_ne (by omega) _ _).trans (h.chars.getElem hi)
  · rw [Nat.zero_add]
    exact Function.update_self ..
  · rw [List.length_append, List.length_singleton] at hi
    exact (Function.update_of_ne (by omega) _ _).trans (h.clear i (by omega) hi')

theorem addAll_snoc (keys : List UInt8) (key : UInt8) (s : Driver) :
    addAll (keys ++ [key]) s = (cmdBufAdd key (addAll keys s)).2 := List.foldl_append ..

theorem edited_snoc (keys : List UInt8) (key : UInt8) : edited (keys ++ [key]) = edit (edited keys) key :=
  List.foldl_append ..

theorem edit_char (hkey : Printable key) (line : List UInt8) : edit line key = line ++ [key] := by
  rw [edit, if_neg hkey.char.1, if_neg hkey.char.2.1]

theorem edited_nonzero (hkeys : ∀ k ∈ keys, Printable k ∨ k = backspace) : ∀ c ∈ edited keys, c ≠ 0 := by
  induction keys using List.reverseRecOn with
  | nil => exact fun c hc => absurd hc List.not_mem_nil
  | append_singleton keys key ih =>
    have hline := ih fun k hk => hkeys k (List.mem_append_left _ hk)
    rw [edited_snoc]
    rcases hkeys key (List.mem_append_right _ (List.mem_singleton_self key)) with hkey | rfl
    · rw [edit_char hkey]
      intro c hc
      rcases List.mem_append.mp hc with hc | hc
      · exact hline c hc
      · rw [List.mem_singleton.mp hc]
        exact hkey.char.2.2.2
    · exact fun c hc => hline c (List.dropLast_subset _ hc)

/-- One printable character or backspace. -/
theorem Shows.answers (h : Shows s line) (hlen : line.length < cmdBufSize)
    (hkey : Printable key ∨ key = backspace) :
    Shows (cmdBufAdd key s).2 (edit line key) ∧ (cmdBufAdd key s).1 = answer line key ∧
      (answer line key = error → (cmdBufAdd key s).2 = s) := by
  rcases hkey with hkey | rfl
  · have hanswer : answer line key = ok := if_neg fun hb => hkey.char.1 hb.1
    rw [edit_char hkey, hanswer]
    refine ⟨h.typed hlen hkey, ?_, fun hne => absurd hne (by decide)⟩
    rw [cmdBufAdd_char hkey.char.1 hkey.char.2.1 hkey.char.2.2.1]
  · refine ⟨h.rubOut hlen, ?_⟩
    rw [cmdBufAdd_backspace, h.pos, answer]
    by_cases hline : line = []
    · rw [hline, List.length_nil, if_neg (Nat.lt_irrefl 0), if_pos ⟨rfl, rfl⟩]
      exact ⟨rfl, fun _ => rfl⟩
    · rw [if_pos (List.length_pos_iff.mpr hline), if_neg fun hb => hline hb.2]
      exact ⟨rfl, fun hne => absurd hne (by decide)⟩

theorem addAll_shows (hs : Shows s []) (hkeys : ∀ k ∈ keys, Printable k ∨ k = backspace)
    (hlen : ∀ pre post, keys = pre ++ post → (edited pre).length < cmdBufSize) :
    Shows (addAll keys s) (edited keys) := by
  induction keys using List.reverseRecOn with
  | nil => exact hs
  | append_singleton keys key ih =>
    have hshows := ih (fun k hk => hkeys k (List.mem_append_left _ hk)) fun pre post heq =>
      hlen pre (post ++ [key]) (by rw [heq, List.append_assoc])
    rw [addAll_snoc, edited_snoc]
    exact (hshows.answers (hlen keys [key] rfl)
      (hkeys key (List.mem_append_right _ (List.mem_singleton_self key)))).1

theorem editsLine_iff (hs : Shows s []) (hkeys : ∀ k ∈ keys, Printable k ∨ k = backspace ∨ k = tab)
    (hlen : ∀ pre post, keys = pre ++ post → (edited pre).length < cmdBufSize) :
    EditsLine s keys ↔ tab ∉ keys := by
  constructor
  · intro h htab
    obtain ⟨pre, post, heq⟩ := List.append_of_mem htab
    have hbefore := (h.shows_line pre (tab :: post) heq).pos
    have hafter := (h.shows_line (pre ++ [tab]) post
      (by rw [heq, List.append_assoc, List.singleton_append])).pos
    rw [addAll_snoc, cmdBufAdd_tab, hbefore, edited_snoc, edit, if_neg (by decide), if_pos rfl,
      List.length_append,
      List.length_replicate] at hafter
    have hmod := Nat.mod_lt (edited pre).length (show 0 < 8 by decide)
    omega
  · intro hnone
    have hkeys' : ∀ pre post, keys = pre ++ post → ∀ k ∈ pre, Printable k ∨ k = backspace := by
      intro pre post heq k hk
      have hmem : k ∈ keys := heq ▸ List.mem_append_left post hk
      rcases hkeys k hmem with hp | hb | ht
      · exact Or.inl hp
      · exact Or.inr hb
      · exact absurd (ht ▸ hmem) hnone
    have hshows : ∀ pre post, keys = pre ++ post → Shows (addAll pre s) (edited pre) := fun pre post heq =>
      addAll_shows hs (hkeys' pre post heq) fun pre' post' heq' =>
        hlen pre' (post' ++ post) (by rw [heq, heq', List.append_assoc])
    refine ⟨hshows, fun pre key post heq => ?_, fun pre post heq => ?_⟩
    · have hkey := hkeys' (pre ++ [key]) post (by rw [heq, List.append_assoc, List.singleton_append]) key
        (List.mem_append_right _ (List.mem_singleton_self key))
      exact ((hshows pre _ heq).answers (hlen pre _ heq) hkey).2
    · exact (hshows pre post heq).enters (hlen pre post heq) (edited_nonzero (hkeys' pre post heq))

theorem newline_shows (behind : ByteMem) {earlier : List UInt8}
    (hstart : earlier = [] ∨ ∃ before, earlier = before ++ [newline]) :
    Shows (addAll earlier (initKeyboard (staticKeyboard behind))) [] := by
  rcases hstart with rfl | ⟨before, rfl⟩
  · exact ⟨rfl, trivial, fun i _ hi => if_pos hi⟩
  · rw [addAll_snoc]
    exact newline_shows_nil _

end Editing

/-- The keys since the last newline edit the line, as long as it fits, exactly when none of them is a tab. -/
theorem commandLine_iff (behind : ByteMem) {earlier keys : List UInt8}
    (hstart : earlier = [] ∨ ∃ before, earlier = before ++ [newline])
    (hkeys : ∀ k ∈ keys, Printable k ∨ k = backspace ∨ k = tab)
    (hlen : ∀ pre post, keys = pre ++ post → (edited pre).length < cmdBufSize) :
    EditsLine (addAll earlier (initKeyboard (staticKeyboard behind))) keys ↔ tab ∉ keys :=
  editsLine_iff (newline_shows behind hstart) hkeys hlen

theorem short_of_inits {keys : List UInt8} (h : ∀ pre ∈ keys.inits, (edited pre).length < cmdBufSize) :
    ∀ pre post, keys = pre ++ post → (edited pre).length < cmdBufSize :=
  fun pre post heq => h pre ((List.mem_inits pre keys).mpr ⟨post, heq.symm⟩)

theorem commandLine_a_backspace :
    EditsLine (addAll [] (initKeyboard (staticKeyboard fun _ => 0))) [0x61, backspace] ↔
      tab ∉ [0x61, backspace] :=
  commandLine_iff (fun _ => 0) (Or.inl rfl) (by simp [Printable]) (short_of_inits (by decide))

/-- The line after a tab is empty still. -/
theorem commandLine_fails : ¬ ∀ (behind : ByteMem) (earlier keys : List UInt8),
    (earlier = [] ∨ ∃ before, earlier = before ++ [newline]) →
    (∀ k ∈ keys, Printable k ∨ k = backspace ∨ k = tab) →
    (∀ pre post, keys = pre ++ post → (edited pre).length < cmdBufSize) →
    EditsLine (addAll earlier (initKeyboard (staticKeyboard behind))) keys := by
  intro h
  have htab := h (fun _ => 0) [] [tab] (Or.inl rfl) (by simp) (short_of_inits (by decide))
  exact absurd (htab.shows_line [tab] [] rfl).pos (by decide)

section Bounds
variable {keys : List UInt8} {key : UInt8} {s : Driver}

theorem position_snoc (keys : List UInt8) (key : UInt8) :
    position (keys ++ [key]) = positionAfter (position keys) key := List.foldl_append ..

theorem cleared_written (count : ℕ) (s : Driver) :
    ({ memsetd count 0 s with cmdBufPos := 0 } : Driver).written =
      s.written ++ List.range' 0 (4 * count) := (memsetd_eq count 0 s).2.1

theorem cmdBufAdd_written (key : UInt8) (s : Driver) :
    (cmdBufAdd key s).2.cmdBufPos = positionAfter s.cmdBufPos key ∧
    ∃ stores, (cmdBufAdd key s).2.written = s.written ++ stores ∧
      ((∀ i ∈ stores, i < cmdBufSize) ↔ key = backspace → s.cmdBufPos ≤ cmdBufSize) := by
  by_cases hb : key = backspace
  · subst hb
    rw [cmdBufAdd_backspace, positionAfter, if_pos rfl]
    split_ifs with hpos
    · refine ⟨rfl, [s.cmdBufPos - 1], rfl, ?_⟩
      simp only [List.mem_singleton, forall_eq, forall_const]
      omega
    · have hzero : s.cmdBufPos = 0 := by omega
      refine ⟨?_, [], (List.append_nil _).symm, fun _ _ => ?_, fun _ _ hi => absurd hi List.not_mem_nil⟩
      · rw [hzero]
      · rw [hzero]
        exact Nat.zero_le _
  · rw [positionAfter, if_neg hb]
    have hinside : ∀ {stores : List ℕ}, (∀ i ∈ stores, i < cmdBufSize) →
        ((∀ i ∈ stores, i < cmdBufSize) ↔ key = backspace → s.cmdBufPos ≤ cmdBufSize) :=
      fun h => ⟨fun _ hk => absurd hk hb, fun _ => h⟩
    by_cases ht : key = tab
    · subst ht
      rw [cmdBufAdd_tab, if_pos rfl]
      exact ⟨rfl, [], (List.append_nil _).symm, hinside fun i hi => absurd hi List.not_mem_nil⟩
    · by_cases hn : key = newline
      · subst hn
        rw [cmdBufAdd_newline, if_neg ht, if_pos rfl]
        refine ⟨rfl, _, cleared_written _ _, hinside fun i hi => ?_⟩
        have hlt := List.mem_range'_1.mp hi
        exact Nat.lt_of_lt_of_le hlt.2 (by decide)
      · rw [cmdBufAdd_char hb ht hn, if_neg ht, if_neg hn]
        refine ⟨rfl, [s.cmdBufPos % cmdBufSize], rfl, hinside fun i hi => ?_⟩
        rw [List.mem_singleton.mp hi]
        exact Nat.mod_lt _ (by decide)

theorem addAll_pos (behind : ByteMem) (keys : List UInt8) :
    (addAll keys (initKeyboard (staticKeyboard behind))).cmdBufPos = position keys := by
  induction keys using List.reverseRecOn with
  | nil => rfl
  | append_singleton keys key ih => rw [addAll_snoc, position_snoc, (cmdBufAdd_written key _).1, ih]

end Bounds

/-- Every store is inside the buffer exactly when no backspace comes at a position past its end. -/
theorem commandBuffer_bounds_iff (behind : ByteMem) (keys : List UInt8) :
    (∀ i ∈ (addAll keys (initKeyboard (staticKeyboard behind))).written, i < cmdBufSize) ↔
      ∀ pre post, keys = pre ++ backspace :: post → position pre ≤ cmdBufSize := by
  induction keys using List.reverseRecOn with
  | nil =>
    refine ⟨fun _ pre post heq => ?_, fun _ i hi => absurd hi List.not_mem_nil⟩
    exact absurd heq.symm (List.append_ne_nil_of_right_ne_nil _ (List.cons_ne_nil _ _))
  | append_singleton keys key ih =>
    obtain ⟨-, stores, hwritten, hstores⟩ := cmdBufAdd_written key
      (addAll keys (initKeyboard (staticKeyboard behind)))
    rw [addAll_pos] at hstores
    rw [addAll_snoc, hwritten, List.forall_mem_append, ih, hstores]
    constructor
    · rintro ⟨hbefore, hlast⟩ pre post heq
      rcases List.eq_nil_or_concat post with rfl | ⟨post, c, rfl⟩
      · obtain ⟨rfl, hkey⟩ := List.append_inj' heq rfl
        exact hlast (List.cons.inj hkey).1
      · have heq' : keys ++ [key] = (pre ++ backspace :: post) ++ [c] := by simpa using heq
        exact hbefore pre post (List.append_inj_left' heq' rfl)
    · intro hall
      refine ⟨fun pre post heq => hall pre (post ++ [key]) (by rw [heq, List.append_assoc]; rfl),
        fun hkey => ?_⟩
      exact hall keys [] (by rw [hkey])

/-- 257 characters, then a backspace. -/
theorem commandBuffer_bounds_fail : ¬ ∀ (behind : ByteMem) (keys : List UInt8),
    ∀ i ∈ (addAll keys (initKeyboard (staticKeyboard behind))).written, i < cmdBufSize := by
  intro h
  have hin := h (fun _ => 0) (List.replicate 257 0x61 ++ [backspace])
  have hout : 256 ∈ (addAll (List.replicate 257 0x61 ++ [backspace])
      (initKeyboard (staticKeyboard fun _ => 0))).written := by decide +kernel
  exact absurd (hin 256 hout) (by decide)

end Ktux.CommandBuffer
