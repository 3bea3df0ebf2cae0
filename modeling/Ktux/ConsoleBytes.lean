import Ktux.ConsoleBounds
import Mathlib.Tactic.IntervalCases

set_option autoImplicit false

/-!
# The bytes that reach the screen

A byte goes from `do_printf` as a `char` to `fn`, as an `unsigned` to `putch_help`, and with the attribute
into a cell. Bytes from 0x80 on are negative as a `char`, and their sign covers the attribute.
-/
namespace Ktux.ConsoleBytes
open Words Runs ByteMemory KernelString Video VirtualConsole ConsoleText Printf FormatReference PrintfEmit
open PrintfScan Sprintf

/-- `kprintf_help`, where the format and the strings are read with `mem`. -/
def consoleSink (tabs : ℕ) (mem : Option Display → ByteMem) : Sink (Option Display) :=
  { kprintfSink tabs [] with mem := mem }

/-- One byte that `do_printf` gives to `kprintf_help`. -/
def ByteStep (v : Display) (b : UInt8) (v' : Display) : Prop := ∃ tabs, putch tabs (signedChar b) v = some v'

def current (v : Display) : Screen := v.screen v.currVc

/-- The screen right after `*where = (c | att)`. -/
def stored (b : UInt8) (s : Screen) : Screen := (s.setCon Console.endEsc).put (signedChar b)

def cursorAdr (s : Screen) : ℕ := s.cellAdr (wadd (wmul s.con.csrY s.width) s.con.csrX)

/-- The byte goes to the screen: it is no control character, and no escape sequence takes it. -/
def Drawn (b : UInt8) (s : Screen) : Prop := 0x20 ≤ b ∧ escape (signedChar b) s = none

/-- The call stores one cell, that of the byte in the console's attribute, and moves on. -/
structure Shows (b : UInt8) (v v' : Display) : Prop where
  moves : v'.screen v.currVc =
    scroll ((stored b (current v)).setX (wadd (current v).con.csrX 1)).wrap
  low : (stored b (current v)).mem (cursorAdr (current v)) = b
  high : ((stored b (current v)).mem (cursorAdr (current v) + 1)).toNat = (current v).con.attrib

structure Unchanged (b : UInt8) (v v' : Display) : Prop where
  attrib : (current v').con.attrib < 0x80
  shows : Drawn b (current v) → Shows b v v'

/-- Between `ESC [` and the end of the sequence. -/
def InSequence (s : Screen) : Prop := s.con.esc = 2 ∨ s.con.esc = 3 ∨ s.con.esc = 4

def Plain (b : UInt8) (v : Display) : Prop := b < 0x80 ∨ InSequence (current v)

section Attributes
variable {s u : Screen} {fuel c : ℕ}

theorem ansiToVga_lt (i : ℕ) : ansiToVga.getD i 0 < 8 := by
  unfold ansiToVga
  rcases Nat.lt_or_ge i 8 with hi | hi
  · interval_cases i <;> decide
  · rw [List.getD_eq_default _ _ hi]
    decide

theorem newAtt_lt (att : ℕ) {attrib : ℕ} (h : attrib < 0x80) : newAtt att attrib < 0x80 := by
  have hmask : ∀ m, attrib &&& m < 2 ^ 7 := fun m => Nat.and_le_left.trans_lt h
  unfold newAtt
  split_ifs
  · exact hmask _
  · exact Nat.or_lt_two_pow (n := 7) h (by decide)
  · exact Nat.or_lt_two_pow (hmask _) ((ansiToVga_lt _).trans (by decide))
  · refine Nat.or_lt_two_pow (hmask _) ?_
    rw [Nat.shiftLeft_eq]
    have hcolor := ansiToVga_lt (att - 40)
    omega
  · exact h

theorem setCon_attrib {f : Console → Console} {a : ℕ} (ha : a < 0x80) (hf : (f s.con).attrib = a) :
    (s.setCon f).con.attrib < 0x80 := lt_of_eq_of_lt hf ha

theorem escape_attrib (h : s.con.attrib < 0x80) (hescape : escape c s = some u) : u.con.attrib < 0x80 := by
  have hone := newAtt_lt s.con.esc1 h
  have htwo := newAtt_lt s.con.esc2 hone
  have hthree := newAtt_lt s.con.esc3 htwo
  unfold escape at hescape
  split_ifs at hescape <;> cases hescape
  · exact setCon_attrib h rfl
  · unfold escapeOne
    split_ifs
    any_goals exact setCon_attrib h rfl
    exact setCon_attrib hone rfl
  · unfold escapeTwo
    split_ifs
    any_goals exact setCon_attrib h rfl
    exact setCon_attrib htwo rfl
  · unfold escapeThree
    split_ifs
    · exact setCon_attrib h rfl
    · exact setCon_attrib hthree rfl
    · exact setCon_attrib h rfl

theorem put_con (c : ℕ) (s : Screen) : (s.put c).con = s.con := rfl

theorem draw_attrib (h : draw fuel c s = some u) : u.con.attrib = s.con.attrib := by
  have hset : ∀ (x : ℕ) (s : Screen), (s.setX x).con.attrib = s.con.attrib := fun _ _ => rfl
  unfold draw at h
  split_ifs at h
  · rw [← Option.some.inj h, put_con]
    exact hset _ s
  · rw [← Option.some.inj h]
  · exact (Loops.whileLoop_invariant (fun u : Screen => u.con.attrib = s.con.attrib)
      (fun v w hv _ hpass => by
        cases hpass
        exact (hset _ (v.put 0x20)).trans hv) rfl h).1
  all_goals rw [← Option.some.inj h]
  · exact hset 0 s
  · rfl
  · exact hset _ (s.put c)

theorem putchScreen_attrib (h : s.con.attrib < 0x80) (hput : putchScreen fuel c s = some u) :
    u.con.attrib < 0x80 := by
  unfold putchScreen at hput
  cases hescape : escape c s with
  | some w =>
    rw [hescape] at hput
    cases hput
    exact escape_attrib h hescape
  | none =>
    rw [hescape] at hput
    dsimp only at hput
    split_ifs at hput
    · cases hput
      exact h
    · obtain ⟨w, hw, rfl⟩ := Option.map_eq_some_iff.mp hput
      rw [((wrap_kept w).trans (scroll_kept _)).attrib, draw_attrib hw]
      exact h

end Attributes

section Bytes
variable {s : Screen} {v v' : Display} {b : UInt8}

theorem signedChar_ascii (h : b < 0x80) : signedChar b = b.toNat := if_pos h

theorem signedChar_high (h : ¬ b < 0x80) : signedChar b / 256 = 2 ^ 24 - 1 ∧ signedChar b % 256 = b.toNat := by
  have hlt := b.toNat_lt
  rw [signedChar, if_neg h, wordSize_eq]
  omega

theorem stored_low (b : UInt8) (s : Screen) : (stored b s).mem (cursorAdr s) = b := by
  have hcell : (stored b s).mem (cursorAdr s) = UInt8.ofNat (signedChar b ||| wmul s.con.attrib 256) :=
    storeWord_low _ _ _
  rw [hcell]
  have hatt : wmul s.con.attrib 256 % 2 ^ 8 = 0 := by
    rw [wmul, wordSize_eq]
    omega
  have hmod : (signedChar b ||| wmul s.con.attrib 256) % 2 ^ 8 = b.toNat := by
    rw [Nat.or_mod_two_pow, hatt, Nat.or_zero]
    by_cases hb : b < 0x80
    · rw [signedChar_ascii hb, Nat.mod_eq_of_lt b.toNat_lt]
    · exact (signedChar_high hb).2
  rw [← UInt8.toNat_inj, UInt8.toNat_ofNat', hmod]

/-- The high byte of the cell is the attribute, unless the sign of the byte covers it. -/
theorem stored_high (b : UInt8) (h : s.con.attrib < 0x80) :
    ((stored b s).mem (cursorAdr s + 1)).toNat = s.con.attrib ↔ b < 0x80 := by
  have hcell : (stored b s).mem (cursorAdr s + 1) =
      UInt8.ofNat ((signedChar b ||| wmul s.con.attrib 256) / 256) := storeWord_high _ _ _
  have hatt : wmul s.con.attrib 256 / 2 ^ 8 = s.con.attrib := by
    rw [wmul, wordSize_eq]
    omega
  have hhigh : ((stored b s).mem (cursorAdr s + 1)).toNat = (signedChar b / 256 ||| s.con.attrib) % 2 ^ 8 := by
    rw [hcell, UInt8.toNat_ofNat']
    change (signedChar b ||| wmul s.con.attrib 256) / 2 ^ 8 % 2 ^ 8 = _
    rw [Nat.or_div_two_pow, hatt]
  rw [hhigh]
  constructor
  · intro heq
    by_contra hb
    rw [(signedChar_high hb).1, Nat.or_mod_two_pow] at heq
    have hle : 255 ≤ (2 ^ 24 - 1) % 2 ^ 8 ||| s.con.attrib % 2 ^ 8 := Nat.left_le_or
    omega
  · intro hb
    have hzero : signedChar b / 256 = 0 := by
      rw [signedChar_ascii hb]
      exact Nat.div_eq_of_lt b.toNat_lt
    rw [hzero, Nat.zero_or]
    exact Nat.mod_eq_of_lt (h.trans (by decide))

theorem ge_space (h : 0x20 ≤ b) : 0x20 ≤ signedChar b := by
  by_cases hb : b < 0x80
  · rw [signedChar_ascii hb]
    exact UInt8.le_iff_toNat_le.mp h
  · have hhigh := (signedChar_high hb).1
    omega

theorem putchScreen_drawn (fuel : ℕ) (h : Drawn b s) :
    putchScreen fuel (signedChar b) s = some (scroll ((stored b s).setX (wadd s.con.csrX 1)).wrap) := by
  obtain ⟨hspace, hescape⟩ := h
  have hprintable := putchScreen_printable (s := s.setCon Console.endEsc) fuel rfl (ge_space hspace)
  rw [putchScreen, escape_none rfl] at hprintable
  rw [putchScreen, hescape]
  exact hprintable

/-- From 0x80 on a byte is in a sequence or is drawn; no bracket opens one. -/
theorem escape_high (hb : ¬ b < 0x80) : escape (signedChar b) s = none ↔ ¬ InSequence s := by
  have hne : signedChar b ≠ 0x5B := by
    have hhigh := (signedChar_high hb).1
    omega
  unfold escape InSequence
  split_ifs with h1 h2 h3 h4 <;> simp [*]

theorem high_space (hb : ¬ b < 0x80) : 0x20 ≤ b := by
  rw [UInt8.le_iff_toNat_le]
  rw [UInt8.lt_iff_toNat_lt] at hb
  exact le_trans (by decide) (Nat.le_of_not_lt hb)

theorem ByteStep.screen (h : ByteStep v b v') : v'.currVc = v.currVc ∧
    ∃ tabs, putchScreen tabs (signedChar b) (current v) = some (current v') := by
  obtain ⟨tabs, hput⟩ := h
  have hcurr := (ConsoleBounds.putchHelp_apart hput).currVc
  refine ⟨hcurr, tabs, ?_⟩
  rw [current, current, hcurr, ← putchHelp_screen]
  exact Option.map_eq_some_iff.mpr ⟨v', hput, rfl⟩

theorem ByteStep.attrib (h : ByteStep v b v') (hattrib : (current v).con.attrib < 0x80) :
    (current v').con.attrib < 0x80 := by
  obtain ⟨-, tabs, hput⟩ := h.screen
  exact putchScreen_attrib hattrib hput

theorem ByteStep.unchanged_iff (h : ByteStep v b v') (hattrib : (current v).con.attrib < 0x80) :
    Unchanged b v v' ↔ Plain b v := by
  constructor
  · intro hunchanged
    by_contra hplain
    obtain ⟨hb, hout⟩ := not_or.mp hplain
    have hshows := hunchanged.shows ⟨high_space hb, (escape_high hb).mpr hout⟩
    exact hb ((stored_high b hattrib).mp hshows.high)
  · intro hplain
    refine ⟨h.attrib hattrib, fun hdrawn => ?_⟩
    have hb : b < 0x80 := by
      by_contra hb
      exact (escape_high hb).mp hdrawn.2 (hplain.resolve_left hb)
    obtain ⟨hcurr, tabs, hput⟩ := h.screen
    have hmoves := Option.some.inj ((putchScreen_drawn tabs hdrawn).symm.trans hput)
    exact ⟨(congrArg v'.screen hcurr.symm).trans hmoves.symm, stored_low b _, (stored_high b hattrib).mpr hb⟩

end Bytes

section Streams
variable {v v' : Display} {text : List UInt8}

theorem run_attrib (hattrib : (current v).con.attrib < 0x80) (hrun : Run ByteStep v text v') :
    (current v').con.attrib < 0x80 :=
  hrun.invariant (fun v => (current v).con.attrib < 0x80) hattrib fun _ _ _ h hstep => hstep.attrib h

theorem unchanged_iff_plain (hattrib : (current v).con.attrib < 0x80) (text : List UInt8) :
    Every ByteStep (fun _ u b u' => Unchanged b u u') v text ↔
      Every ByteStep (fun _ u b _ => Plain b u) v text :=
  ⟨fun h => h.imp fun _ _ _ _ hrun hstep hu => (hstep.unchanged_iff (run_attrib hattrib hrun)).mp hu,
    fun h => h.imp fun _ _ _ _ hrun hstep hp => (hstep.unchanged_iff (run_attrib hattrib hrun)).mpr hp⟩

theorem passAll_run {tabs : ℕ} (htabs : wordSize < tabs) (mem : Option Display → ByteMem) (text : List UInt8)
    (v : Display) : ∃ v', passAll (consoleSink tabs mem) text (some v) = some v' ∧ Run ByteStep v text v' := by
  induction text generalizing v with
  | nil => exact ⟨v, rfl, .refl v⟩
  | cons b text ih =>
    obtain ⟨u, hu⟩ := putchHelp_returns htabs v.currVc (signedChar b) v
    obtain ⟨v', hall, hrun⟩ := ih u
    refine ⟨v', ?_, .next ⟨tabs, hu⟩ hrun⟩
    rw [← hall]
    exact congrArg (passAll (consoleSink tabs mem) text) hu

end Streams

/-- What a format makes of its arguments reaches the console byte by byte. The attribute stays below 0x80, and
the cells hold the bytes in it as long as those from 0x80 on are parts of escape sequences. -/
theorem charactersUnchanged_iff {v : Display} (hattrib : (current v).con.attrib < 0x80) :
    (∀ text, (∀ v', Run ByteStep v text v' → (current v').con.attrib < 0x80) ∧
      (Every ByteStep (fun _ u b u' => Unchanged b u u') v text ↔
        Every ByteStep (fun _ u b _ => Plain b u) v text)) ∧
    ∀ (tabs : ℕ) (mem : Option Display → ByteMem) (slots : ℕ → ℕ) (fmt : ℕ) (items : List Item) (as : List Arg),
      wordSize < tabs → (∀ i ∈ items, i.WellFormed) →
      Readable (consoleSink tabs mem) (some v) (render items as) fmt (formatText items) →
      Supplied slots (Readable (consoleSink tabs mem) (some v) (render items as)) 0 items as →
      ∃ ret v', (∃ n, ∀ fuel, n ≤ fuel →
          doPrintf (consoleSink tabs mem) slots fuel fmt (some v) = some (ret, some v')) ∧
        Run ByteStep v (render items as) v' := by
  refine ⟨fun text => ⟨fun v' hrun => run_attrib hattrib hrun, unchanged_iff_plain hattrib text⟩,
    fun tabs mem slots fmt items as htabs hitems hfmt hargs => ?_⟩
  obtain ⟨n, hprints⟩ := doPrintf_prints hitems hfmt hargs
  obtain ⟨v', hall, hrun⟩ := passAll_run htabs mem (render items as) v
  exact ⟨_, v', ⟨n, fun fuel hfuel => hall ▸ hprints fuel hfuel⟩, hrun⟩

theorem charactersUnchanged_sample : (∀ text, (∀ v', Run ByteStep sampleDisplay text v' →
      (current v').con.attrib < 0x80) ∧
      (Every ByteStep (fun _ u b u' => Unchanged b u u') sampleDisplay text ↔
        Every ByteStep (fun _ u b _ => Plain b u) sampleDisplay text)) ∧
    ∃ ret v', (∃ n, ∀ fuel, n ≤ fuel → doPrintf (consoleSink (wordSize + 1) fun _ => sampleMemory)
        (fun i => (sampleArgs.map Arg.slot).getD i 0) fuel 0x1000 (some sampleDisplay) = some (ret, some v')) ∧
      Run ByteStep sampleDisplay sampleText v' := by
  obtain ⟨hstreams, hformats⟩ := charactersUnchanged_iff (v := sampleDisplay) (by decide)
  have hstring : Readable (consoleSink (wordSize + 1) fun _ => sampleMemory) (some sampleDisplay)
      (render sampleFormat sampleArgs) 0x3000 [ascii 'a', ascii 'b'] := fun _ _ => sampleArgs_string
  have hargs : Supplied (fun i => (sampleArgs.map Arg.slot).getD i 0)
      (Readable (consoleSink (wordSize + 1) fun _ => sampleMemory) (some sampleDisplay)
        (render sampleFormat sampleArgs)) 0 sampleFormat sampleArgs :=
    ⟨⟨rfl, by decide, by decide, fun h => Conversion.noConfusion h⟩,
      ⟨rfl, by decide, by decide, fun _ => hstring⟩, rfl⟩
  have hprints := hformats _ (fun _ => sampleMemory) _ 0x1000 _ _ (Nat.lt_succ_self _) sampleFormat_wellFormed
    (fun _ _ => sampleFormat_string) hargs
  rw [sampleText_eq] at hprints
  exact ⟨hstreams, hprints⟩

/-- `kprintf` of one character from the upper half stores 0xFF for the attribute 7. -/
theorem charactersUnchanged_fails : ∃ v', kprintf 2 1 [0xE9] [] sampleDisplay = some v' ∧
    Run ByteStep sampleDisplay [0xE9] v' ∧ (stored 0xE9 (current sampleDisplay)).mem 0xB800B = 0xFF ∧
    ¬ Every ByteStep (fun _ u b u' => Unchanged b u u') sampleDisplay [0xE9] := by
  obtain ⟨v', hput⟩ : ∃ v', putch 1 (signedChar 0xE9) sampleDisplay = some v' := ⟨_, rfl⟩
  have hstep : ByteStep sampleDisplay 0xE9 v' := ⟨1, hput⟩
  refine ⟨v', hput, .single hstep, rfl, fun hall => ?_⟩
  have hunchanged := hall [] 0xE9 [] sampleDisplay v' rfl (.refl _) hstep
  rcases (hstep.unchanged_iff (by decide)).mp hunchanged with hlow | hsequence
  · exact absurd hlow (by decide)
  · exact absurd hsequence (by unfold InSequence; decide)

end Ktux.ConsoleBytes
