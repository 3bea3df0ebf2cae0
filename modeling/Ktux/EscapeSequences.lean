import Ktux.ConsoleText
import Mathlib.Data.List.Induction

set_option autoImplicit false

/-!
# The escape sequences

What `ESC [ n ; .. x` does to a console, for digit strings of any length. Each parameter is read by one state
of the machine, into its own accumulator.
-/
namespace Ktux.EscapeSequences
open Words ByteMemory KernelString Video ConsoleText

def feed (fuel : ℕ) (text : List ℕ) (s : Screen) : Option Screen :=
  text.foldlM (fun s c => putchScreen fuel c s) s

def putchAll (fuel con : ℕ) (text : List ℕ) (v : Display) : Option Display :=
  text.foldlM (fun v c => putchHelp fuel con c v) v

def Digits (p : List ℕ) : Prop := ∀ c ∈ p, isDigit c = true

def value (p : List ℕ) : ℕ := p.foldl (fun n c => 10 * n + (c - 0x30)) 0

/-- The value as the parser has it. -/
def wordValue (p : List ℕ) : ℕ := value p % wordSize

def escapeSequence (ps : List (List ℕ)) (final : ℕ) : List ℕ :=
  [0x1B, 0x5B] ++ [0x3B].intercalate ps ++ [final]

/-- The accumulator of the state `esc`. -/
def Console.param (esc : ℕ) (con : Console) : ℕ :=
  if esc = 2 then con.esc1 else if esc = 3 then con.esc2 else con.esc3

def Console.setParam (esc x : ℕ) (con : Console) : Console :=
  if esc = 2 then { con with esc1 := x } else if esc = 3 then { con with esc2 := x } else { con with esc3 := x }

section Feeding
variable {fuel con : ℕ} {s u : Screen} {v : Display} {xs ys : List ℕ}

theorem putchAll_screen (fuel con : ℕ) (text : List ℕ) (v : Display) :
    (putchAll fuel con text v).map (fun v => v.screen con) = feed fuel text (v.screen con) := by
  induction text generalizing v with
  | nil => rfl
  | cons c text ih =>
    unfold putchAll feed at ih ⊢
    rw [List.foldlM_cons, List.foldlM_cons, ← putchHelp_screen]
    cases putchHelp fuel con c v with
    | none => rfl
    | some v' => exact ih v'

theorem putchAll_of_feed (h : feed fuel xs (v.screen con) = some u) :
    ∃ v', putchAll fuel con xs v = some v' ∧ v'.screen con = u := by
  rw [← putchAll_screen] at h
  exact Option.map_eq_some_iff.mp h

theorem feed_append (h : feed fuel xs s = some u) : feed fuel (xs ++ ys) s = feed fuel ys u := by
  unfold feed at h ⊢
  rw [List.foldlM_append, h]
  rfl

theorem feed_escape (fuel : ℕ) {c : ℕ} (h : escape c s = some u) : feed fuel [c] s = some u := by
  unfold feed
  rw [List.foldlM_cons, putchScreen_escape fuel h]
  rfl

end Feeding

section Parameters
variable {fuel k : ℕ} {s : Screen} {p : List ℕ}

theorem value_append (p : List ℕ) (c : ℕ) : value (p ++ [c]) = 10 * value p + (c - 0x30) := by
  rw [value, List.foldl_append]
  rfl

theorem addDigit_mod {c : ℕ} (hc : isDigit c = true) (n : ℕ) :
    addDigit (n % wordSize) c = (10 * n + (c - 0x30)) % wordSize := by
  have hrange : 0x30 ≤ c ∧ c ≤ 0x39 := by
    simpa [isDigit] using hc
  unfold addDigit wsub wadd wmul
  rw [wordSize_eq]
  omega

/-- The accumulator holds the value of the digits read so far. -/
theorem addDigits (hp : Digits p) : p.foldl addDigit 0 = wordValue p := by
  induction p using List.reverseRecOn with
  | nil =>
    have hempty : value [] = 0 := rfl
    rw [wordValue, hempty, Nat.zero_mod, List.foldl_nil]
  | append_singleton p c ih =>
    obtain ⟨hp, hc⟩ := List.forall_mem_append.mp hp
    rw [List.foldl_append, ih hp, wordValue, wordValue, value_append, List.foldl_cons, List.foldl_nil]
    exact addDigit_mod (hc c (List.mem_singleton_self c)) _

theorem setParam_esc (k x : ℕ) (con : Console) : (Console.setParam k x con).esc = con.esc := by
  unfold Console.setParam
  split_ifs <;> rfl

theorem param_setParam (k x : ℕ) (con : Console) : Console.param k (Console.setParam k x con) = x := by
  unfold Console.param Console.setParam
  split_ifs <;> rfl

theorem setParam_setParam (k x y : ℕ) (con : Console) :
    Console.setParam k y (Console.setParam k x con) = Console.setParam k y con := by
  unfold Console.setParam
  split_ifs <;> rfl

theorem escape_param (hk : 2 ≤ k ∧ k ≤ 4) (hesc : s.con.esc = k) {c : ℕ} (hc : isDigit c = true) :
    escape c s = some (s.setCon fun con => Console.setParam k (addDigit (Console.param k con) c) con) := by
  obtain rfl | rfl | rfl : k = 2 ∨ k = 3 ∨ k = 4 := by omega
  · simp [escape, escapeOne, hesc, hc, Console.param, Console.setParam]
  · simp [escape, escapeTwo, hesc, hc, Console.param, Console.setParam]
  · simp [escape, escapeThree, hesc, hc, Console.param, Console.setParam]

theorem feed_digits (hk : 2 ≤ k ∧ k ≤ 4) (hesc : s.con.esc = k) (hp : Digits p) :
    feed fuel p s =
      some (s.setCon fun con => Console.setParam k (p.foldl addDigit (Console.param k con)) con) := by
  induction p generalizing s with
  | nil =>
    refine congrArg some ?_
    obtain ⟨mem, con, width, height⟩ := s
    unfold Screen.setCon Console.setParam Console.param
    dsimp only [List.foldl_nil]
    split_ifs <;> rfl
  | cons c p ih =>
    obtain ⟨hc, hp⟩ := List.forall_mem_cons.mp hp
    have hfirst := feed_escape fuel (escape_param hk hesc hc)
    change feed fuel ([c] ++ p) s = _
    rw [feed_append hfirst, ih (by rw [setCon_con, setParam_esc, hesc]) hp]
    refine congrArg some ?_
    unfold Screen.setCon
    simp only [param_setParam, setParam_setParam, List.foldl_cons]

/-- A parameter whose accumulator was reset. -/
theorem feed_param (hk : 2 ≤ k ∧ k ≤ 4) (hesc : s.con.esc = k) (hzero : Console.param k s.con = 0)
    (hp : Digits p) : feed fuel p s = some (s.setCon (Console.setParam k (wordValue p))) := by
  rw [feed_digits hk hesc hp]
  unfold Screen.setCon
  dsimp only
  rw [hzero, addDigits hp]

theorem feed_open (hesc : s.con.esc = 0) :
    feed fuel [0x1B, 0x5B] s = some (s.setCon fun con => { con with esc := 2, esc1 := 0 }) := by
  have hfirst : feed fuel [0x1B] s = some (s.setCon fun con => { con with esc := 1 }) := by
    unfold feed
    rw [List.foldlM_cons, putchScreen, escape_none hesc, endEsc_self hesc]
    rfl
  change feed fuel ([0x1B] ++ [0x5B]) s = _
  rw [feed_append hfirst]
  exact feed_escape fuel rfl

theorem feed_separator (fuel : ℕ) (hk : k = 2 ∨ k = 3) (hesc : s.con.esc = k) : feed fuel [0x3B] s =
    some (s.setCon fun con => Console.setParam (k + 1) 0 { con with esc := k + 1 }) := by
  apply feed_escape
  rcases hk with rfl | rfl
  · simp [escape, escapeOne, isDigit, hesc, Console.setParam, wadd, wordSize, Screen.setCon]
  · simp [escape, escapeTwo, isDigit, hesc, Console.setParam, wadd, wordSize, Screen.setCon]

end Parameters

section Sequences
variable {fuel c : ℕ} {s : Screen} {p q r : List ℕ}

def oneParam (p : List ℕ) (con : Console) : Console := { con with esc := 2, esc1 := wordValue p }

def twoParams (p q : List ℕ) (con : Console) : Console :=
  { con with esc := 3, esc1 := wordValue p, esc2 := wordValue q }

def threeParams (p q r : List ℕ) (con : Console) : Console :=
  { con with esc := 4, esc1 := wordValue p, esc2 := wordValue q, esc3 := wordValue r }

theorem feed_one (hesc : s.con.esc = 0) (hp : Digits p) :
    feed fuel ([0x1B, 0x5B] ++ p) s = some (s.setCon (oneParam p)) := by
  rw [feed_append (feed_open hesc)]
  exact feed_param (k := 2) (by decide) rfl rfl hp

theorem feed_two (hesc : s.con.esc = 0) (hp : Digits p) (hq : Digits q) :
    feed fuel ([0x1B, 0x5B] ++ p ++ [0x3B] ++ q) s = some (s.setCon (twoParams p q)) := by
  have hopen := feed_separator fuel (s := s.setCon (oneParam p)) (k := 2) (Or.inl rfl) rfl
  rw [← feed_append (feed_one hesc hp)] at hopen
  rw [feed_append hopen]
  exact feed_param (k := 3) (by decide) rfl rfl hq

theorem feed_three (hesc : s.con.esc = 0) (hp : Digits p) (hq : Digits q) (hr : Digits r) :
    feed fuel ([0x1B, 0x5B] ++ p ++ [0x3B] ++ q ++ [0x3B] ++ r) s = some (s.setCon (threeParams p q r)) := by
  have hopen := feed_separator fuel (s := s.setCon (twoParams p q)) (k := 3) (Or.inr rfl) rfl
  rw [← feed_append (feed_two hesc hp hq)] at hopen
  rw [feed_append hopen]
  exact feed_param (k := 4) (by decide) rfl rfl hr

theorem sequence_one (hesc : s.con.esc = 0) (hp : Digits p) (c : ℕ) :
    feed fuel (escapeSequence [p] c) s = some (escapeOne c (s.setCon (oneParam p))) := by
  have htext : escapeSequence [p] c = [0x1B, 0x5B] ++ p ++ [c] := by simp [escapeSequence]
  rw [htext, feed_append (feed_one hesc hp)]
  exact feed_escape fuel rfl

theorem sequence_two (hesc : s.con.esc = 0) (hp : Digits p) (hq : Digits q) (c : ℕ) :
    feed fuel (escapeSequence [p, q] c) s = some (escapeTwo c (s.setCon (twoParams p q))) := by
  have htext : escapeSequence [p, q] c = [0x1B, 0x5B] ++ p ++ [0x3B] ++ q ++ [c] := by
    simp [escapeSequence, List.intercalate]
  rw [htext, feed_append (feed_two hesc hp hq)]
  exact feed_escape fuel rfl

theorem sequence_three (hesc : s.con.esc = 0) (hp : Digits p) (hq : Digits q) (hr : Digits r) (c : ℕ) :
    feed fuel (escapeSequence [p, q, r] c) s = some (escapeThree c (s.setCon (threeParams p q r))) := by
  have htext : escapeSequence [p, q, r] c =
      [0x1B, 0x5B] ++ p ++ [0x3B] ++ q ++ [0x3B] ++ r ++ [c] := by
    simp [escapeSequence, List.intercalate]
  rw [htext, feed_append (feed_three hesc hp hq hr)]
  exact feed_escape fuel rfl

end Sequences

/-- The sequence is over, with no cell changed, the cursor at `(x, y)` and the attribute `a`. -/
structure Leaves (s u : Screen) (x y a : ℕ) : Prop where
  mem : u.mem = s.mem
  csrX : u.con.csrX = x
  csrY : u.con.csrY = y
  attrib : u.con.attrib = a
  esc : u.con.esc = 0

/-- The same attribute, cursor, cells and state of the machine. -/
structure SameEffect (u w : Screen) : Prop where
  mem : u.mem = w.mem
  csrX : u.con.csrX = w.con.csrX
  csrY : u.con.csrY = w.con.csrY
  attrib : u.con.attrib = w.con.attrib
  esc : u.con.esc = w.con.esc

/-- The screen is blank in the console's attribute and the cursor is home. -/
structure Cleared (s u : Screen) : Prop where
  cells : ∀ i < wmul s.height s.width,
    u.mem (s.cellAdr i) = 0x20 ∧ u.mem (s.cellAdr i + 1) = UInt8.ofNat s.con.attrib
  csrX : u.con.csrX = 0
  csrY : u.con.csrY = 0
  attrib : u.con.attrib = s.con.attrib
  esc : u.con.esc = 0

/-- A character that ends a sequence of `n` parameters and has no meaning there. -/
structure OtherFinal (n c : ℕ) : Prop where
  digit : isDigit c = false
  attributes : c ≠ 0x6D
  clear : n = 1 → c ≠ 0x4A
  cursor : n = 2 → c ≠ 0x48
  separator : n < 3 → c ≠ 0x3B

section Laws
variable {fuel c : ℕ} {s u w : Screen} {p q r : List ℕ}

theorem Leaves.sameEffect {x y a : ℕ} (h : Leaves s u x y a) (h' : Leaves s w x y a) : SameEffect u w :=
  ⟨h.mem.trans h'.mem.symm, h.csrX.trans h'.csrX.symm, h.csrY.trans h'.csrY.symm, h.attrib.trans h'.attrib.symm,
    h.esc.trans h'.esc.symm⟩

theorem attributes_one (fuel : ℕ) (hesc : s.con.esc = 0) (hp : Digits p) :
    ∃ u, feed fuel (escapeSequence [p] 0x6D) s = some u ∧
      Leaves s u s.con.csrX s.con.csrY (newAtt (wordValue p) s.con.attrib) :=
  ⟨_, sequence_one hesc hp 0x6D, rfl, rfl, rfl, rfl, rfl⟩

/-- One sequence after another. -/
theorem attributes_each (fuel : ℕ) {ps : List (List ℕ)} (hesc : s.con.esc = 0) (hps : ∀ p ∈ ps, Digits p) :
    ∃ u, feed fuel (ps.flatMap fun p => escapeSequence [p] 0x6D) s = some u ∧
      Leaves s u s.con.csrX s.con.csrY (ps.foldl (fun a p => newAtt (wordValue p) a) s.con.attrib) := by
  induction ps generalizing s with
  | nil => exact ⟨s, rfl, rfl, rfl, rfl, rfl, hesc⟩
  | cons p ps ih =>
    obtain ⟨hp, hps⟩ := List.forall_mem_cons.mp hps
    obtain ⟨u, hu, hfirst⟩ := attributes_one fuel hesc hp
    obtain ⟨w, hw, hrest⟩ := ih hfirst.esc hps
    refine ⟨w, ?_, hrest.mem.trans hfirst.mem, hrest.csrX.trans hfirst.csrX, hrest.csrY.trans hfirst.csrY, ?_,
      hrest.esc⟩
    · rw [List.flatMap_cons, feed_append hu, hw]
    · rw [hrest.attrib, hfirst.attrib, List.foldl_cons]

theorem attributes_together (fuel : ℕ) (hesc : s.con.esc = 0) (hp : Digits p) (hq : Digits q) (hr : Digits r)
    {ps : List (List ℕ)} (hps : ps = [p] ∨ ps = [p, q] ∨ ps = [p, q, r]) :
    ∃ u, feed fuel (escapeSequence ps 0x6D) s = some u ∧
      Leaves s u s.con.csrX s.con.csrY (ps.foldl (fun a p => newAtt (wordValue p) a) s.con.attrib) := by
  rcases hps with rfl | rfl | rfl
  · exact attributes_one fuel hesc hp
  · exact ⟨_, sequence_two hesc hp hq 0x6D, rfl, rfl, rfl, rfl, rfl⟩
  · exact ⟨_, sequence_three hesc hp hq hr 0x6D, rfl, rfl, rfl, rfl, rfl⟩

theorem cursor_moved (hesc : s.con.esc = 0) (hp : Digits p) (hq : Digits q) :
    ∃ u, feed fuel (escapeSequence [p, q] 0x48) s = some u ∧
      Leaves s u (if wordValue q < s.width then wordValue q else s.con.csrX)
        (if wordValue p < s.height then wordValue p else s.con.csrY) s.con.attrib :=
  ⟨_, sequence_two hesc hp hq 0x48, rfl, rfl, rfl, rfl, rfl⟩

theorem screen_cleared (hesc : s.con.esc = 0) (hfb : s.con.fbAdr < wordSize) (hp : Digits p)
    (hvalue : wordValue p = 2) :
    ∃ u, feed fuel (escapeSequence [p] 0x4A) s = some u ∧ Cleared s u := by
  have hclear : escapeOne 0x4A (s.setCon (oneParam p)) =
      (s.setCon (oneParam p)).clear.setCon Console.endEsc := by
    simp [escapeOne, isDigit, oneParam, hvalue]
  refine ⟨_, (sequence_one hesc hp 0x4A).trans (congrArg some hclear), fun i hi => ?_, rfl, rfl, rfl, rfl⟩
  obtain ⟨hlow, hhigh⟩ := att_bytes s.con.attrib (c := 0x20) (by decide)
  have hholds := memsetw_holds (0x20 ||| s.att) s.mem hfb hi
  exact ⟨hholds.1.trans hlow, hholds.2.trans hhigh⟩

theorem not_cleared (hesc : s.con.esc = 0) (hp : Digits p) (hvalue : wordValue p ≠ 2) :
    ∃ u, feed fuel (escapeSequence [p] 0x4A) s = some u ∧ Leaves s u s.con.csrX s.con.csrY s.con.attrib := by
  have hkeep : escapeOne 0x4A (s.setCon (oneParam p)) = (s.setCon (oneParam p)).setCon Console.endEsc := by
    simp [escapeOne, isDigit, oneParam, hvalue]
  exact ⟨_, (sequence_one hesc hp 0x4A).trans (congrArg some hkeep), rfl, rfl, rfl, rfl, rfl⟩

theorem other_ignored (hesc : s.con.esc = 0) (hp : Digits p) (hq : Digits q) (hr : Digits r)
    {ps : List (List ℕ)} (hps : ps = [p] ∨ ps = [p, q] ∨ ps = [p, q, r]) (hc : OtherFinal ps.length c) :
    ∃ u, feed fuel (escapeSequence ps c) s = some u ∧ Leaves s u s.con.csrX s.con.csrY s.con.attrib := by
  have hdigit := hc.digit
  have hattributes := hc.attributes
  rcases hps with rfl | rfl | rfl
  · have hkeep : escapeOne c (s.setCon (oneParam p)) = (s.setCon (oneParam p)).setCon Console.endEsc := by
      simp [escapeOne, hdigit, hattributes, hc.clear rfl, hc.separator (by simp)]
    exact ⟨_, (sequence_one hesc hp c).trans (congrArg some hkeep), rfl, rfl, rfl, rfl, rfl⟩
  · have hkeep : escapeTwo c (s.setCon (twoParams p q)) =
        (s.setCon (twoParams p q)).setCon Console.endEsc := by
      simp [escapeTwo, hdigit, hattributes, hc.cursor rfl, hc.separator (by simp)]
    exact ⟨_, (sequence_two hesc hp hq c).trans (congrArg some hkeep), rfl, rfl, rfl, rfl, rfl⟩
  · have hkeep : escapeThree c (s.setCon (threeParams p q r)) =
        (s.setCon (threeParams p q r)).setCon Console.endEsc := by
      simp [escapeThree, hdigit, hattributes]
    exact ⟨_, (sequence_three hesc hp hq hr c).trans (congrArg some hkeep), rfl, rfl, rfl, rfl, rfl⟩

end Laws

/-- After `text` the console `con` of `v` satisfies `P`. -/
def Ends (fuel con : ℕ) (text : List ℕ) (v : Display) (P : Screen → Prop) : Prop :=
  ∃ v', putchAll fuel con text v = some v' ∧ P (v'.screen con)

theorem ends_of_feed {fuel con : ℕ} {text : List ℕ} {v : Display} {P : Screen → Prop}
    (h : ∃ u, feed fuel text (v.screen con) = some u ∧ P u) : Ends fuel con text v P := by
  obtain ⟨u, hu, hP⟩ := h
  obtain ⟨v', hv', rfl⟩ := putchAll_of_feed hu
  exact ⟨v', hv', hP⟩

/-- The escape sequences of one, two and three parameters, for every digit string and from every state of the
console outside a sequence. -/
theorem escapeSequences_mean {v : Display} {con : ℕ} (fuel : ℕ) (hesc : (v.vc con).esc = 0)
    (hfb : (v.vc con).fbAdr < wordSize) {p q r : List ℕ} (hp : Digits p) (hq : Digits q) (hr : Digits r) :
    (∀ ps, ps = [p] ∨ ps = [p, q] ∨ ps = [p, q, r] →
      Ends fuel con (escapeSequence ps 0x6D) v fun u =>
        u.con.esc = 0 ∧ u.mem = v.mem ∧
          Ends fuel con (ps.flatMap fun p => escapeSequence [p] 0x6D) v (SameEffect u)) ∧
    Ends fuel con (escapeSequence [p, q] 0x48) v (Leaves (v.screen con) ·
      (if wordValue q < v.vcWidth then wordValue q else (v.vc con).csrX)
      (if wordValue p < v.vcHeight then wordValue p else (v.vc con).csrY) (v.vc con).attrib) ∧
    (wordValue p = 2 → Ends fuel con (escapeSequence [p] 0x4A) v (Cleared (v.screen con))) ∧
    (wordValue p ≠ 2 → Ends fuel con (escapeSequence [p] 0x4A) v
      (Leaves (v.screen con) · (v.vc con).csrX (v.vc con).csrY (v.vc con).attrib)) ∧
    ∀ ps, ps = [p] ∨ ps = [p, q] ∨ ps = [p, q, r] → ∀ c, OtherFinal ps.length c →
      Ends fuel con (escapeSequence ps c) v
        (Leaves (v.screen con) · (v.vc con).csrX (v.vc con).csrY (v.vc con).attrib) := by
  have hesc' : (v.screen con).con.esc = 0 := hesc
  refine ⟨fun ps hps => ?_, ends_of_feed (cursor_moved hesc' hp hq), fun hvalue => ?_, fun hvalue => ?_,
    fun ps hps c hc => ends_of_feed (other_ignored hesc' hp hq hr hps hc)⟩
  · obtain ⟨u, hu, htogether⟩ := attributes_together fuel hesc' hp hq hr hps
    have hdigits : ∀ x ∈ ps, Digits x := by
      rcases hps with rfl | rfl | rfl
      all_goals simp [hp, hq, hr]
    obtain ⟨w, hw, heach⟩ := attributes_each fuel hesc' hdigits
    refine ends_of_feed ⟨u, hu, htogether.esc, htogether.mem, ?_⟩
    exact ends_of_feed ⟨w, hw, htogether.sameEffect heach⟩
  · exact ends_of_feed (screen_cleared hesc' hfb hp hvalue)
  · exact ends_of_feed (not_cleared hesc' hp hvalue)

/-- ESC[1;2H on a screen of three columns and two rows. -/
theorem escapeSequences_sample : Ends 0 0 (escapeSequence [[0x31], [0x32]] 0x48) sampleDisplay
    (Leaves (sampleDisplay.screen 0) · 2 1 7) := by
  have hdigits : ∀ c, isDigit c = true → Digits [c] := fun c hc => List.forall_mem_singleton.mpr hc
  exact (escapeSequences_mean 0 rfl (by decide) (hdigits 0x31 rfl) (hdigits 0x32 rfl) (hdigits 0x30 rfl)).2.1

end Ktux.EscapeSequences
