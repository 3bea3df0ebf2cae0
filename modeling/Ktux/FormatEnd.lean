import Ktux.Runs
import Ktux.Sprintf

set_option autoImplicit false

/-!
# The end of a format string

The passes of the scanner of `do_printf`, with the number of format characters that each looks at. A pass
that meets the NUL in the middle of a specification steps over it.
-/
namespace Ktux.FormatEnd
open Words Runs ByteMemory CString Printf FormatReference PrintfEmit PrintfScan Sprintf

variable {P : Type} {k : Sink P} {slots : ℕ → ℕ}

/-- `%0` and `%-0`: the character behind the zero is looked at in the same pass. -/
def flagsLength (k : Sink P) (s : Scanner P) : ℕ := if s.char k = ascii '0' then 2 else 1

/-- The characters of the format that a pass looks at, from the one that the loop has tested on. -/
def passLength (k : Sink P) (s : Scanner P) : ℕ :=
  match s.state with
  | .awaitingPercent => if s.char k = ascii '%' then 1 + flagsLength k s.advance else 1
  | .awaitingFlags => flagsLength k s
  | _ => 1

/-- A pass of the loop from one test of `*fmt` to the next, and how far it moves in the format. -/
def Pass (k : Sink P) (slots : ℕ → ℕ) (s : Scanner P) (length : ℕ) (u : Scanner P) : Prop :=
  s.char k ≠ 0 ∧ length = passLength k s ∧ ∃ v, (∀ n, wordSize < n → scan k slots n s = some v) ∧ u = v.advance

/-- The start of a run of passes; the sum of their lengths is the index that `fmt` stands at. -/
def start (k : Sink P) (fmt : ℕ) (out : P) : Scanner P := between k out fmt 0 []

/-- No test of the loop and no pass looks at an index greater than that of the NUL. -/
def NeverPast (k : Sink P) (slots : ℕ → ℕ) (fmt : ℕ) (out : P) (text : List UInt8) : Prop :=
  ∀ lengths s, Run (Pass k slots) (start k fmt out) lengths s →
    lengths.sum ≤ text.length ∧ (s.char k ≠ 0 → lengths.sum + passLength k s ≤ text.length + 1)

def Terminates (k : Sink P) (slots : ℕ → ℕ) (fmt : ℕ) (out : P) : Prop :=
  ∃ n r, ∀ fuel, n ≤ fuel → doPrintf k slots fuel fmt out = some r

def TakesString (k : Sink P) (s : Scanner P) : Prop :=
  (s.state = .awaitingPercent → s.char k = ascii '%') ∧
    k.mem s.out (s.fmt + (passLength k s - 1)) = ascii 's'

/-- The next argument is a string that its own field leaves alone. -/
def StringArg (k : Sink P) (slots : ℕ → ℕ) (s : Scanner P) : Prop :=
  ∃ xs, (∀ c ∈ xs, c ≠ 0) ∧ xs.length < wordSize ∧
    Stable k (.str (slots s.args)) xs (layout s.flags.prLJ false false s.givenWd xs) s.out

/-- Enough arguments of the right kind, and a format that the output does not reach. -/
structure Provided (k : Sink P) (slots : ℕ → ℕ) (fmt : ℕ) (out : P) (text : List UInt8) : Prop where
  words : ∀ i, slots i < wordSize
  format : ∀ lengths s, Run (Pass k slots) (start k fmt out) lengths s → lengths.sum ≤ text.length →
    StringAt (k.mem s.out) fmt text
  strings : ∀ lengths s, Run (Pass k slots) (start k fmt out) lengths s → lengths.sum < text.length →
    TakesString k s → StringArg k slots s

/-- Where a scan of the format stands: outside a specification, behind its `%`, behind `%-`, behind the flag
`0`, in the width, behind a modifier. -/
inductive Place where
  | text | opened | dashed | zeroed | width | modifier
  deriving DecidableEq

def isModifier (c : UInt8) : Bool :=
  c = ascii 'F' || c = ascii 'N' || c = ascii 'L' || c = ascii 'l' || c = ascii 'h'

def isWidth (c : UInt8) : Bool := ascii '0' ≤ c && c ≤ ascii '9'

def afterModifier (c : UInt8) : Place := if isModifier c then .modifier else .text

def afterWidthChar (c : UInt8) : Place := if isWidth c then .width else afterModifier c

def afterFlag (dash : Place) (c : UInt8) : Place :=
  if c = ascii '%' then .text
  else if c = ascii '-' then dash
  else if c = ascii '0' then .zeroed
  else afterWidthChar c

def Place.next : Place → UInt8 → Place
  | .text, c => if c = ascii '%' then .opened else .text
  | .opened, c => afterFlag .dashed c
  | .dashed, c => afterFlag .text c
  | .zeroed, c => afterWidthChar c
  | .width, c => afterWidthChar c
  | .modifier, c => afterModifier c

def place (text : List UInt8) : Place := text.foldl Place.next .text

/-- The format ends right behind the `%` of a specification, or behind its flag `0`. -/
def EndsOpen (text : List UInt8) : Prop := place text = .opened ∨ place text = .zeroed

instance (text : List UInt8) : Decidable (EndsOpen text) :=
  inferInstanceAs (Decidable (place text = .opened ∨ place text = .zeroed))

theorem place_snoc (text : List UInt8) (c : UInt8) : place (text ++ [c]) = (place text).next c := by
  rw [place, place, List.foldl_append]
  rfl

section Conversions
variable {s u v : Scanner P} {n : ℕ}

theorem field_fmt (xs : List UInt8) (hu : u.fmt = s.fmt) : (setWidth 0 (emitAll k xs u)).fmt = s.fmt :=
  (emitAll_frame xs u).1.trans hu

theorem loadNum_lt (hslots : ∀ i, slots i < wordSize) (s : Scanner P) : loadNum slots s < wordSize := by
  have hslot := hslots s.args
  have hlow : slots s.args % 2 ^ 16 < 2 ^ 16 := Nat.mod_lt _ (by decide)
  unfold loadNum signExtend
  rw [wordSize_eq] at *
  split_ifs <;> omega

theorem doNum_field (hslots : ∀ i, slots i < wordSize) (hws : s.flags.prWS = false)
    (hwide : s.givenWd < wordSize) {radix : ℕ} (hradix : 8 ≤ radix) (hsmall : radix ≤ 16) :
    ∃ u, (∀ n, wordSize < n → doNum k slots n radix s = some u) ∧ u.fmt = s.fmt :=
  ⟨_, fun _ hn => doNum_emits hws (loadNum_lt hslots s) hwide hradix hsmall hn rfl, field_fmt _ rfl⟩

theorem char_field (hwide : s.givenWd < wordSize) : ∃ u, (∀ n, wordSize < n →
    emit2 k n (.buf [UInt8.ofNat (slots s.args)]) 1 ((s.flag fun f => { f with prLZ := false }).takeArg false) =
      some u) ∧ u.fmt = s.fmt := by
  obtain ⟨v, hv⟩ : ∃ v, v = (s.flag fun f => { f with prLZ := false }).takeArg false := ⟨_, rfl⟩
  have hvwide : v.givenWd = s.givenWd := by rw [hv]; rfl
  have hfmt : v.fmt = s.fmt := by rw [hv]; rfl
  rw [← hv]
  -- a NUL is a field of width 1 without a character
  obtain ⟨xs, hxs, hlen, hstable⟩ : ∃ xs : List UInt8, (∀ c ∈ xs, c ≠ 0) ∧ xs.length ≤ 1 ∧
      ∀ text, Stable k (.buf [UInt8.ofNat (slots s.args)]) xs text v.out := by
    by_cases hzero : UInt8.ofNat (slots s.args) = 0
    · refine ⟨[], fun c hc => absurd hc List.not_mem_nil, Nat.zero_le _, fun text ys _ i hi => ?_⟩
      rw [hzero, Nat.le_zero.mp hi]
      rfl
    · exact ⟨_, by simpa using hzero, le_rfl, fun text => stable_buf _ text _⟩
  have hwords : 1 < wordSize := by
    rw [wordSize_eq]
    decide
  exact ⟨_, fun n hn => emit2_eq hxs (by omega) (hstable _) (by omega) (by omega), field_fmt _ hfmt⟩

theorem string_field (hws : s.flags.prWS = false) (hwide : s.givenWd < wordSize)
    (hstring : StringArg k slots s) : ∃ u, (∀ n, wordSize < n →
    emit k n (.str (slots s.args)) ((s.flag fun f => { f with prLZ := false }).takeArg false) = some u) ∧
      u.fmt = s.fmt := by
  obtain ⟨xs, hxs, hlen, hstable⟩ := hstring
  obtain ⟨v, hv⟩ : ∃ v, v = (s.flag fun f => { f with prLZ := false }).takeArg false := ⟨_, rfl⟩
  have hvwide : v.givenWd = s.givenWd := by rw [hv]; rfl
  have hfmt : v.fmt = s.fmt := by rw [hv]; rfl
  have hvflags : v.flags = { s.flags with prLZ := false } := by rw [hv]; rfl
  have hvws : v.flags.prWS = false := by rw [hvflags]; exact hws
  have hout : v.out = s.out := by rw [hv]; rfl
  rw [← hv]
  refine ⟨_, fun n hn => emit_eq hxs hlen (fun hsign => ?_) ?_ (by omega) (by omega), field_fmt _ hfmt⟩
  · rw [hvws] at hsign
    cases hsign
  · rw [hvws, hvwide, hout, hvflags]
    exact hstable

theorem convertChar_field (hslots : ∀ i, slots i < wordSize) (hws : s.flags.prWS = false)
    (hwide : s.givenWd < wordSize) (hstring : s.char k = ascii 's' → StringArg k slots s) :
    ∃ u, (∀ n, wordSize < n → convertChar k slots n s = some u) ∧ u.fmt = s.fmt := by
  have hnum : ∀ (f : Flags → Flags) (radix : ℕ), (f s.flags).prWS = s.flags.prWS → 8 ≤ radix → radix ≤ 16 →
      ∃ u, (∀ n, wordSize < n → doNum k slots n radix (s.flag f) = some u) ∧ u.fmt = s.fmt := by
    intro f radix hf hradix hsmall
    exact doNum_field (s := s.flag f) hslots (hf.trans hws) hwide hradix hsmall
  unfold convertChar
  dsimp only
  split_ifs with _ _ _ _ _ _ hs
  · exact hnum _ 16 rfl (by decide) le_rfl
  · exact hnum id 16 rfl (by decide) le_rfl
  · exact hnum _ 10 rfl (by decide) (by decide)
  · exact hnum id 10 rfl (by decide) (by decide)
  · exact hnum id 8 rfl le_rfl (by decide)
  · exact char_field hwide
  · exact string_field hws hwide (hstring hs)
  · exact ⟨s, fun _ _ => rfl, rfl⟩

end Conversions

section Passes
variable {s u v : Scanner P} {p : Place} {c : UInt8}

/-- The scanner at the test of its loop. `opened` and `zeroed` are places inside a pass. -/
def Stands : Place → Scanner P → Prop
  | .text, s => s.state = .awaitingPercent ∧ s.flags = {} ∧ s.givenWd = 0
  | .dashed, s => s.state = .awaitingFlags ∧ s.flags.prLJ = true
  | .width, s => s.state = .awaitingWidth
  | .modifier, s => s.state = .awaitingModifier
  | .opened, _ => False
  | .zeroed, _ => False

/-- What scanning keeps: no sign is set between conversions, and the width is a word. -/
structure Orderly (s : Scanner P) : Prop where
  sign : s.flags.prWS = false
  width : s.givenWd < wordSize

/-- A rest of a pass that ends with the character at `fmt`, and leads to the place `p`. -/
def LeadsTo (p : Place) (s : Scanner P) (e : ℕ → Option (Scanner P)) : Prop :=
  ∃ v, (∀ n, wordSize < n → e n = some v) ∧ v.fmt = s.fmt ∧ Stands p v ∧ Orderly v

theorem reset_orderly (s : Scanner P) : Orderly s.reset := ⟨rfl, wordSize_eq ▸ Nat.zero_lt_succ _⟩

theorem reset_stands (s : Scanner P) : Stands .text s.reset := ⟨rfl, rfl, rfl⟩

theorem conversion_leads (hslots : ∀ i, slots i < wordSize) (h : Orderly s)
    (hstring : s.char k = ascii 's' → StringArg k slots s) :
    LeadsTo .text s fun n => scanConversion k slots n s := by
  obtain ⟨u, hu, hfmt⟩ := convertChar_field hslots h.sign h.width hstring
  refine ⟨u.reset, fun n hn => ?_, hfmt, reset_stands u, reset_orderly u⟩
  change (convertChar k slots n s).map Scanner.reset = _
  rw [hu n hn]
  rfl

theorem modifier_leads (hslots : ∀ i, slots i < wordSize) (h : Orderly s) (hstate : s.state = .awaitingModifier)
    (hstring : s.char k = ascii 's' → StringArg k slots s) :
    LeadsTo (afterModifier (s.char k)) s fun n => scanModifier k slots n s := by
  have hletter : ∀ f : Flags → Flags, (f s.flags).prWS = s.flags.prWS → isModifier (s.char k) = true →
      LeadsTo (afterModifier (s.char k)) s fun _ => some (s.flag f) := by
    intro f hf hmodifier
    refine ⟨s.flag f, fun _ _ => rfl, rfl, ?_, hf.trans h.sign, h.width⟩
    rw [afterModifier, if_pos hmodifier]
    exact hstate
  have hnone : isModifier (s.char k) = false → LeadsTo (afterModifier (s.char k)) s fun n =>
      scanConversion k slots n { s with state := .awaitingConversion } := by
    intro hmodifier
    rw [afterModifier, hmodifier]
    exact conversion_leads (s := { s with state := .awaitingConversion }) hslots ⟨h.sign, h.width⟩ hstring
  unfold scanModifier
  dsimp only
  split_ifs with hF hN hL hl hh
  · exact hletter _ rfl (by rw [hF]; rfl)
  · exact hletter id rfl (by rw [hN]; rfl)
  · exact hletter _ rfl (by rw [hL]; rfl)
  · exact hletter _ rfl (by rw [hl]; rfl)
  · exact hletter _ rfl (by rw [hh]; rfl)
  · exact hnone (by simp [isModifier, hF, hN, hL, hl, hh])

theorem width_leadsTo (hslots : ∀ i, slots i < wordSize) (h : Orderly s) (hstate : s.state = .awaitingWidth)
    (hstring : s.char k = ascii 's' → StringArg k slots s) :
    LeadsTo (afterWidthChar (s.char k)) s fun n => scanWidth k slots n s := by
  unfold scanWidth
  dsimp only
  split_ifs with hdigit
  · refine ⟨_, fun _ _ => rfl, rfl, ?_, h.sign, wadd_lt _ _⟩
    rw [afterWidthChar, isWidth, if_pos (by simpa using hdigit)]
    exact hstate
  · rw [afterWidthChar, isWidth, if_neg (by simpa using hdigit)]
    exact modifier_leads (s := { s with state := .awaitingModifier }) hslots ⟨h.sign, h.width⟩ rfl hstring

/-- Behind `%` or `%-`, when no zero follows. -/
theorem flags_leads (hslots : ∀ i, slots i < wordSize) (h : Orderly s) (hstate : s.state = .awaitingFlags)
    (hzero : s.char k ≠ ascii '0') (hstring : s.char k = ascii 's' → StringArg k slots s) :
    LeadsTo (afterFlag (if s.flags.prLJ then .text else .dashed) (s.char k)) s
      fun n => scanFlags k slots n s := by
  unfold scanFlags afterFlag
  dsimp only
  split_ifs with hpercent hdash hlj
  · exact ⟨_, fun _ _ => rfl, rfl, reset_stands _, reset_orderly _⟩
  · exact ⟨_, fun _ _ => rfl, rfl, reset_stands _, reset_orderly _⟩
  · exact ⟨_, fun _ _ => rfl, rfl, ⟨hstate, rfl⟩, h.sign, h.width⟩
  · exact width_leadsTo (s := { s with state := .awaitingWidth }) hslots ⟨h.sign, h.width⟩ rfl hstring

theorem zero_leads (hslots : ∀ i, slots i < wordSize) (h : Orderly s) (hzero : s.char k = ascii '0')
    (hstring : s.advance.char k = ascii 's' → StringArg k slots s) :
    LeadsTo (afterWidthChar (s.advance.char k)) s.advance fun n => scanFlags k slots n s := by
  have hscan : ∀ n, scanFlags k slots n s = scanWidth k slots n
      { s with state := .awaitingWidth, flags := { s.flags with prLZ := true }, fmt := wadd s.fmt 1 } := by
    intro n
    unfold scanFlags
    rw [hzero]
    rfl
  rw [funext hscan]
  exact width_leadsTo (s := { s with
    state := .awaitingWidth, flags := { s.flags with prLZ := true }, fmt := wadd s.fmt 1 }) hslots
    ⟨h.sign, h.width⟩ rfl hstring

end Passes

section Heads
variable {s v : Scanner P} {fmt length : ℕ} {text pre rest : List UInt8} {c : UInt8} {p : Place}
variable {e : ℕ → Option (Scanner P)}

/-- The scanner at a test of its loop inside the format, between `pre` and `rest`. -/
structure Head (fmt : ℕ) (text pre rest : List UInt8) (s : Scanner P) : Prop where
  split : pre ++ rest = text
  stands : Stands (place pre) s
  orderly : Orderly s
  fmt : s.fmt = fmt + pre.length

/-- A rest of a pass of so many characters: it ends in the format, or has stepped over the NUL. -/
def Moves (fmt : ℕ) (text pre rest : List UInt8) (length : ℕ) (v : Scanner P) : Prop :=
  (∃ more rest', rest = more ++ rest' ∧ more.length = length ∧ Head fmt text (pre ++ more) rest' v.advance) ∨
    (length = rest.length + 1 ∧ EndsOpen text)

theorem Moves.cons (h : Moves fmt text (pre ++ [c]) rest length v) :
    Moves fmt text pre (c :: rest) (1 + length) v := by
  rcases h with ⟨more, rest', rfl, rfl, hhead⟩ | ⟨rfl, hends⟩
  · rw [List.append_assoc] at hhead
    exact Or.inl ⟨c :: more, rest', rfl, by rw [List.length_cons, Nat.add_comm], hhead⟩
  · exact Or.inr ⟨by rw [List.length_cons]; omega, hends⟩

theorem stands_advance (h : Stands p s) : Stands p s.advance := by
  cases p <;> exact h

theorem flagsLength_pos (k : Sink P) (s : Scanner P) : 1 ≤ flagsLength k s := by
  unfold flagsLength
  split_ifs <;> decide

theorem passLength_pos (k : Sink P) (s : Scanner P) : 1 ≤ passLength k s := by
  unfold passLength
  split
  · split_ifs <;> omega
  · exact flagsLength_pos k s
  · exact le_rfl

theorem LeadsTo.head (h : LeadsTo (p.next c) s e) (hp : place pre = p) (hfits : fmt + text.length < wordSize)
    (hsplit : pre ++ c :: rest = text) (hfmt : s.fmt = fmt + pre.length) :
    ∃ v, (∀ n, wordSize < n → e n = some v) ∧ Moves fmt text pre (c :: rest) 1 v := by
  obtain ⟨v, hv, hat, hstands, horderly⟩ := h
  have hlength : text.length = pre.length + (rest.length + 1) := by
    rw [← hsplit, List.length_append, List.length_cons]
  refine ⟨v, hv, Or.inl ⟨[c], rest, rfl, rfl, by rw [List.append_assoc]; exact hsplit, ?_, ⟨horderly.sign,
    horderly.width⟩, ?_⟩⟩
  · rw [place_snoc, hp]
    exact stands_advance hstands
  · change wadd v.fmt 1 = _
    rw [hat, hfmt, wadd_of_lt (by omega), List.length_append]
    rfl

/-- The character behind `pre` in the format, the NUL at its end. -/
theorem char_at {i : ℕ} (hformat : StringAt (k.mem s.out) fmt text) (hsplit : pre ++ rest = text)
    (hi : i ≤ rest.length) : k.mem s.out (fmt + pre.length + i) = rest.getD i 0 := by
  subst hsplit
  have hbyte := hformat.byte (i := pre.length + i) (by rw [List.length_append]; omega)
  rw [Nat.add_assoc, hbyte, List.getD_append_right _ _ _ _ (Nat.le_add_right _ _), Nat.add_sub_cancel_left]

theorem char_head (hformat : StringAt (k.mem s.out) fmt text) (hsplit : pre ++ rest = text)
    (hfmt : s.fmt = fmt + pre.length) : s.char k = rest.getD 0 0 := by
  have hat := char_at hformat hsplit (Nat.zero_le _)
  rw [Nat.add_zero, ← hfmt] at hat
  exact hat

theorem split_snoc (hsplit : pre ++ c :: rest = text) : (pre ++ [c]) ++ rest = text := by
  rw [List.append_assoc]
  exact hsplit

/-- The flag `0` and the character behind it, which the same pass looks at. -/
theorem zero_move (hslots : ∀ i, slots i < wordSize) (horderly : Orderly s) (hzero : s.char k = ascii '0')
    (hplace : place (pre ++ [ascii '0']) = .zeroed) (hformat : StringAt (k.mem s.out) fmt text)
    (hsplit : pre ++ ascii '0' :: rest = text) (hfmt : s.fmt = fmt + pre.length)
    (hstring : k.mem s.out (s.fmt + 1) = ascii 's' → StringArg k slots s) :
    ∃ v, (∀ n, wordSize < n → scanFlags k slots n s = some v) ∧
      Moves fmt text pre (ascii '0' :: rest) 2 v := by
  have hfits := hformat.fits
  have hlength : text.length = pre.length + (rest.length + 1) := by
    rw [← hsplit, List.length_append, List.length_cons]
  have hnext : s.advance.fmt = s.fmt + 1 := wadd_of_lt (by omega)
  have hfmt' : s.advance.fmt = fmt + (pre ++ [ascii '0']).length := by
    rw [hnext, hfmt, List.length_append, List.length_singleton, Nat.add_assoc]
  have hafter : s.advance.char k = rest.getD 0 0 := char_head (s := s.advance) hformat (split_snoc hsplit) hfmt'
  have hleads := zero_leads hslots horderly hzero fun hs => hstring (by
    rw [← hnext]
    exact hs)
  cases rest with
  | nil =>
    obtain ⟨v, hv, -⟩ := hleads
    refine ⟨v, hv, Or.inr ⟨rfl, Or.inr ?_⟩⟩
    rw [← hsplit, hplace]
  | cons c rest =>
    rw [hafter] at hleads
    obtain ⟨v, hv, hmoves⟩ := LeadsTo.head (p := .zeroed) hleads hplace hfits (split_snoc hsplit) hfmt'
    exact ⟨v, hv, hmoves.cons⟩

/-- From behind `%` or `%-` on. -/
theorem flags_move (hslots : ∀ i, slots i < wordSize) (horderly : Orderly s) (hstate : s.state = .awaitingFlags)
    (hplace : ∀ c, (place pre).next c = afterFlag (if s.flags.prLJ then .text else .dashed) c)
    (hrest : rest = [] → place pre = .opened) (hformat : StringAt (k.mem s.out) fmt text)
    (hsplit : pre ++ rest = text) (hfmt : s.fmt = fmt + pre.length)
    (hstring : k.mem s.out (s.fmt + (flagsLength k s - 1)) = ascii 's' → StringArg k slots s) :
    ∃ v, (∀ n, wordSize < n → scanFlags k slots n s = some v) ∧
      Moves fmt text pre rest (flagsLength k s) v := by
  have hchar := char_head hformat hsplit hfmt
  by_cases hzero : s.char k = ascii '0'
  · have htwo : flagsLength k s = 2 := if_pos hzero
    rw [htwo] at hstring ⊢
    rw [hzero] at hchar
    cases rest with
    | nil => exact absurd hchar (by decide)
    | cons c rest =>
      obtain rfl : ascii '0' = c := hchar
      have hzeroed : place (pre ++ [ascii '0']) = .zeroed := by
        rw [place_snoc, hplace]
        rfl
      exact zero_move hslots horderly hzero hzeroed hformat hsplit hfmt hstring
  · have hone : flagsLength k s = 1 := if_neg hzero
    rw [hone] at hstring ⊢
    have hleads := flags_leads hslots horderly hstate hzero hstring
    cases rest with
    | nil =>
      obtain ⟨v, hv, -⟩ := hleads
      refine ⟨v, hv, Or.inr ⟨rfl, Or.inl ?_⟩⟩
      rw [← hsplit, List.append_nil]
      exact hrest rfl
    | cons c rest =>
      have hc : s.char k = c := hchar
      rw [hc, ← hplace] at hleads
      exact hleads.head rfl hformat.fits hsplit hfmt

/-- Outside a specification, at its `%`: the flags are looked at in the same pass. -/
theorem Head.percent (hslots : ∀ i, slots i < wordSize) (h : Head fmt text pre (c :: rest) s)
    (hp : place pre = .text) (hpercent : s.char k = ascii '%') (hformat : StringAt (k.mem s.out) fmt text)
    (hstring : TakesString k s → StringArg k slots s) :
    ∃ v, (∀ n, wordSize < n → scan k slots n s = some v) ∧
      Moves fmt text pre (c :: rest) (passLength k s) v := by
  obtain ⟨hsplit, hstands, horderly, hfmt⟩ := h
  rw [hp] at hstands
  obtain ⟨hstate, hflags, -⟩ := hstands
  have hc : s.char k = c := char_head hformat hsplit hfmt
  have hfits := hformat.fits
  have hlength : text.length = pre.length + (rest.length + 1) := by
    rw [← hsplit, List.length_append, List.length_cons]
  obtain ⟨u, hu⟩ : ∃ u, u = { s with state := .awaitingFlags, fmt := wadd s.fmt 1 } := ⟨_, rfl⟩
  have hlen : passLength k s = 1 + flagsLength k u := by
    unfold passLength
    rw [hstate, hu]
    exact if_pos hpercent
  have hlj : u.flags.prLJ = false := by
    rw [hu]
    exact congrArg Flags.prLJ hflags
  have hopened : place (pre ++ [c]) = .opened := by
    rw [place_snoc, hp, ← hc, hpercent]
    rfl
  have hnext : u.fmt = s.fmt + 1 := by
    rw [hu]
    exact wadd_of_lt (by omega)
  have hout : u.out = s.out := by rw [hu]
  have hpos := flagsLength_pos k u
  have hfmt' : u.fmt = fmt + (pre ++ [c]).length := by
    rw [hnext, hfmt, List.length_append, List.length_singleton, Nat.add_assoc]
  have hstring' : k.mem u.out (u.fmt + (flagsLength k u - 1)) = ascii 's' → StringArg k slots u := by
    intro hs
    rw [hout, show u.fmt + (flagsLength k u - 1) = s.fmt + (passLength k s - 1) by omega] at hs
    have harg := hstring ⟨fun _ => hpercent, hs⟩
    rw [hu]
    exact harg
  obtain ⟨v, hv, hmoves⟩ := flags_move hslots (by rw [hu]; exact ⟨horderly.sign, horderly.width⟩)
    (by rw [hu]) (fun c' => by rw [hopened, hlj]; rfl) (fun _ => hopened) (hout ▸ hformat) (split_snoc hsplit)
    hfmt' hstring'
  rw [hlen]
  refine ⟨v, fun n hn => ?_, hmoves.cons⟩
  unfold scan
  rw [hstate]
  rw [hu] at hv
  exact (if_neg (not_not.mpr hpercent)).trans (hv n hn)

/-- Outside a specification, at any other character. -/
theorem Head.plain (h : Head fmt text pre (c :: rest) s) (hp : place pre = .text)
    (hplain : s.char k ≠ ascii '%') (hformat : StringAt (k.mem s.out) fmt text) :
    ∃ v, (∀ n, wordSize < n → scan k slots n s = some v) ∧
      Moves fmt text pre (c :: rest) (passLength k s) v := by
  obtain ⟨hsplit, hstands, horderly, hfmt⟩ := h
  rw [hp] at hstands
  obtain ⟨hstate, hflags, hwd⟩ := hstands
  have hc : s.char k = c := char_head hformat hsplit hfmt
  have hlen : passLength k s = 1 := by
    unfold passLength
    rw [hstate]
    exact if_neg hplain
  have hleads : LeadsTo (Place.next .text c) s fun _ => some (s.emit k (s.char k)) := by
    refine ⟨_, fun _ _ => rfl, rfl, ?_, horderly.sign, horderly.width⟩
    rw [Place.next, if_neg (hc ▸ hplain)]
    exact ⟨hstate, hflags, hwd⟩
  obtain ⟨v, hv, hmoves⟩ := hleads.head hp hformat.fits hsplit hfmt
  rw [hlen]
  refine ⟨v, fun n hn => ?_, hmoves⟩
  unfold scan
  rw [hstate]
  exact (if_pos hplain).trans (hv n hn)

theorem takesString_single (hstate : s.state ≠ .awaitingPercent) (hlen : passLength k s = 1)
    (hs : s.char k = ascii 's') : TakesString k s := by
  refine ⟨fun hpercent => absurd hpercent hstate, ?_⟩
  rw [hlen]
  exact hs

/-- One pass from the test of the loop. -/
theorem Head.pass (hslots : ∀ i, slots i < wordSize) (h : Head fmt text pre (c :: rest) s)
    (hformat : StringAt (k.mem s.out) fmt text) (hstring : TakesString k s → StringArg k slots s) :
    ∃ v, (∀ n, wordSize < n → scan k slots n s = some v) ∧
      Moves fmt text pre (c :: rest) (passLength k s) v := by
  have hstands := h.stands
  have hc : s.char k = c := char_head hformat h.split h.fmt
  cases hp : place pre with
  | text =>
    by_cases hpercent : s.char k = ascii '%'
    · exact h.percent hslots hp hpercent hformat hstring
    · exact h.plain hp hpercent hformat
  | opened =>
    rw [hp] at hstands
    exact hstands.elim
  | zeroed =>
    rw [hp] at hstands
    exact hstands.elim
  | dashed =>
    rw [hp] at hstands
    obtain ⟨hstate, hlj⟩ := hstands
    have hlen : passLength k s = flagsLength k s := by rw [passLength, hstate]
    unfold scan
    rw [hstate, hlen]
    have hnot : s.state ≠ .awaitingPercent := by
      rw [hstate]
      decide
    refine flags_move hslots h.orderly hstate (fun c' => by rw [hp, hlj]; rfl) (fun hnil => by cases hnil)
      hformat h.split h.fmt fun hs => hstring ⟨fun hpercent => absurd hpercent hnot, ?_⟩
    rw [hlen]
    exact hs
  | width =>
    rw [hp] at hstands
    have hstate : s.state = .awaitingWidth := hstands
    have hlen : passLength k s = 1 := by rw [passLength, hstate]
    unfold scan
    rw [hstate, hlen]
    have hleads := width_leadsTo hslots h.orderly hstate fun hs =>
      hstring (takesString_single (by rw [hstate]; decide) hlen hs)
    rw [hc] at hleads
    exact LeadsTo.head (p := .width) hleads hp hformat.fits h.split h.fmt
  | modifier =>
    rw [hp] at hstands
    have hstate : s.state = .awaitingModifier := hstands
    have hlen : passLength k s = 1 := by rw [passLength, hstate]
    unfold scan
    rw [hstate, hlen]
    have hleads := modifier_leads hslots h.orderly hstate fun hs =>
      hstring (takesString_single (by rw [hstate]; decide) hlen hs)
    rw [hc] at hleads
    exact LeadsTo.head (p := .modifier) hleads hp hformat.fits h.split h.fmt

end Heads

section Runs
variable {s u : Scanner P} {fmt length : ℕ} {out : P} {text pre rest : List UInt8} {lengths : List ℕ}

theorem start_head (fmt : ℕ) (out : P) (text : List UInt8) : Head fmt text [] text (start k fmt out) := by
  have horderly : Orderly (start k fmt out) := ⟨rfl, wordSize_eq ▸ Nat.zero_lt_succ _⟩
  exact ⟨rfl, ⟨rfl, rfl, rfl⟩, horderly, rfl⟩

/-- A pass from a test of the loop inside the format. -/
theorem Head.step (h : Provided k slots fmt out text) (hrun : Run (Pass k slots) (start k fmt out) lengths s)
    (hhead : Head fmt text pre rest s) (hsum : lengths.sum = pre.length) (hchar : s.char k ≠ 0) :
    ∃ v, (∀ n, wordSize < n → scan k slots n s = some v) ∧ Moves fmt text pre rest (passLength k s) v := by
  have hlength : text.length = pre.length + rest.length := by rw [← hhead.split, List.length_append]
  have hformat := h.format lengths s hrun (by omega)
  cases rest with
  | nil => exact absurd (char_head hformat hhead.split hhead.fmt) hchar
  | cons c rest =>
    rw [List.length_cons] at hlength
    exact hhead.pass h.words hformat (h.strings lengths s hrun (by omega))

theorem Pass.moves (h : Provided k slots fmt out text)
    (hrun : Run (Pass k slots) (start k fmt out) lengths s) (hhead : Head fmt text pre rest s)
    (hsum : lengths.sum = pre.length) (hpass : Pass k slots s length u) :
    ∃ v, u = v.advance ∧ Moves fmt text pre rest length v := by
  obtain ⟨hchar, rfl, v, hscan, rfl⟩ := hpass
  obtain ⟨w, hw, hmoves⟩ := hhead.step h hrun hsum hchar
  have heq : some v = some w :=
    (hscan _ (Nat.lt_succ_self wordSize)).symm.trans (hw _ (Nat.lt_succ_self wordSize))
  exact ⟨v, rfl, Option.some.inj heq ▸ hmoves⟩

/-- As long as it is inside the format, the scanner stands at the place that the format gives. -/
theorem run_head (h : Provided k slots fmt out text)
    (hrun : Run (Pass k slots) (start k fmt out) lengths s) (hinside : lengths.sum ≤ text.length) :
    ∃ pre rest, Head fmt text pre rest s ∧ lengths.sum = pre.length := by
  refine hrun.guarded_invariant (C := fun _ _ _ _ => True) (fun lengths s => lengths.sum ≤ text.length →
    ∃ pre rest, Head fmt text pre rest s ∧ lengths.sum = pre.length)
    (fun _ => ⟨[], text, start_head fmt out text, rfl⟩) (fun before s length u hbefore ih hpass _ hle => ?_)
    (fun _ _ _ _ _ _ _ _ => trivial) hinside
  rw [List.sum_append, List.sum_singleton] at hle ⊢
  obtain ⟨pre, rest, hhead, hsum⟩ := ih (by omega)
  obtain ⟨v, rfl, ⟨more, rest', -, rfl, hnext⟩ | ⟨rfl, -⟩⟩ := hpass.moves h hbefore hhead hsum
  · exact ⟨pre ++ more, rest', hnext, by rw [hsum, List.length_append]⟩
  · have hlength : text.length = pre.length + rest.length := by rw [← hhead.split, List.length_append]
    omega

/-- The passes come to the NUL, or step over it where the format ends open. -/
theorem reaches_end (h : Provided k slots fmt out text)
    (hrun : Run (Pass k slots) (start k fmt out) lengths s) (hhead : Head fmt text pre rest s)
    (hsum : lengths.sum = pre.length) : ∃ all u, Run (Pass k slots) (start k fmt out) all u ∧
      (Head fmt text text [] u ∧ all.sum = text.length ∨ all.sum = text.length + 1 ∧ EndsOpen text) := by
  induction hn : rest.length using Nat.strong_induction_on generalizing pre rest lengths s with
  | _ n ih =>
    have hlength : text.length = pre.length + rest.length := by rw [← hhead.split, List.length_append]
    by_cases hchar : s.char k = 0
    · cases rest with
      | nil =>
        obtain rfl : pre = text := (List.append_nil pre).symm.trans hhead.split
        exact ⟨lengths, s, hrun, Or.inl ⟨hhead, hsum⟩⟩
      | cons c rest =>
        have hformat := h.format lengths s hrun (by omega)
        have hat := char_head hformat hhead.split hhead.fmt
        have hmem : c ∈ text := hhead.split ▸ List.mem_append_right _ (List.mem_cons_self ..)
        exact absurd (hat.symm.trans hchar) (hformat.nonzero c hmem)
    · obtain ⟨v, hv, hmoves⟩ := hhead.step h hrun hsum hchar
      have hpass : Pass k slots s (passLength k s) v.advance := ⟨hchar, rfl, v, hv, rfl⟩
      have hpos := passLength_pos k s
      rcases hmoves with ⟨more, rest', rfl, hmore, hnext⟩ | ⟨hlen, hends⟩
      · rw [List.length_append] at hn
        refine ih rest'.length (by omega) (hrun.snoc hpass) hnext ?_ rfl
        rw [List.sum_append, List.sum_singleton, hsum, ← hmore, List.length_append]
      · refine ⟨_, _, hrun.snoc hpass, Or.inr ⟨?_, hends⟩⟩
        rw [List.sum_append, List.sum_singleton, hsum, hlen]
        omega

theorem Run.scans (hrun : Run (Pass k slots) s lengths u) : Scans k slots s u := by
  induction hrun with
  | refl s => exact Scans.refl s
  | next hpass _ ih =>
    obtain ⟨hchar, -, v, hscan, rfl⟩ := hpass
    have hleads : Leads k slots (fun n => scan k slots n _) v.advance := Leads.done hscan
    exact (hleads.scans hchar).trans ih

theorem Head.closed (h : Head fmt text text [] s) : ¬ EndsOpen text := by
  intro hends
  have hstands := h.stands
  rcases hends with hplace | hplace <;> rw [hplace] at hstands <;> exact hstands

theorem terminates (h : Provided k slots fmt out text) (hclosed : ¬ EndsOpen text) :
    Terminates k slots fmt out := by
  obtain ⟨all, u, hrun, ⟨hhead, hsum⟩ | ⟨-, hends⟩⟩ := reaches_end h (.refl _) (start_head fmt out text) rfl
  · have hformat := h.format all u hrun hsum.le
    obtain ⟨n, hreturns⟩ := Scans.returns (Run.scans hrun) (char_head hformat hhead.split hhead.fmt)
    exact ⟨n, _, hreturns⟩
  · exact absurd hends hclosed

theorem neverPast (h : Provided k slots fmt out text) (hclosed : ¬ EndsOpen text) :
    NeverPast k slots fmt out text := by
  intro lengths s hrun
  have hinside : lengths.sum ≤ text.length := by
    refine hrun.guarded_invariant (C := fun _ _ _ _ => True) (fun lengths _ => lengths.sum ≤ text.length)
      (Nat.zero_le _) (fun before s length u hbefore ih hpass _ => ?_) (fun _ _ _ _ _ _ _ _ => trivial)
    obtain ⟨pre, rest, hhead, hsum⟩ := run_head h hbefore ih
    obtain ⟨v, rfl, ⟨more, rest', -, rfl, hnext⟩ | ⟨-, hends⟩⟩ := hpass.moves h hbefore hhead hsum
    · rw [List.sum_append, List.sum_singleton, hsum, ← hnext.split, List.length_append, List.length_append]
      exact Nat.le_add_right _ _
    · exact absurd hends hclosed
  refine ⟨hinside, fun hchar => ?_⟩
  obtain ⟨pre, rest, hhead, hsum⟩ := run_head h hrun hinside
  obtain ⟨v, -, ⟨more, rest', rfl, hmore, -⟩ | ⟨-, hends⟩⟩ := hhead.step h hrun hsum hchar
  · rw [hsum, ← hmore, ← hhead.split, List.length_append, List.length_append]
    omega
  · exact absurd hends hclosed

end Runs

/-- `do_printf` stays inside its format and returns exactly when the format does not end open. The sum of the
lengths of the passes is where `fmt` stands. -/
theorem formatEnd_iff {fmt : ℕ} {out : P} {text : List UInt8} (h : Provided k slots fmt out text) :
    (NeverPast k slots fmt out text ∧ Terminates k slots fmt out ↔ ¬ EndsOpen text) ∧
    ∀ lengths s, Run (Pass k slots) (start k fmt out) lengths s → lengths.sum ≤ text.length →
      s.fmt = fmt + lengths.sum := by
  refine ⟨⟨fun ⟨hnever, _⟩ hends => ?_, fun hclosed => ⟨neverPast h hclosed, terminates h hclosed⟩⟩,
    fun lengths s hrun hinside => ?_⟩
  · obtain ⟨all, u, hrun, ⟨hhead, -⟩ | ⟨hsum, -⟩⟩ := reaches_end h (.refl _) (start_head fmt out text) rfl
    · exact hhead.closed hends
    · have hinside := (hnever all u hrun).1
      omega
  · obtain ⟨pre, rest, hhead, hsum⟩ := run_head h hrun hinside
    rw [hhead.fmt, hsum]

def endMemory (text : List UInt8) : ByteMem := store 0x1000 (text ++ [0]) fun _ => 0

/-- A format at 0x1000, and an empty string for every argument. -/
theorem provided_log {text : List UInt8} (hnonzero : ∀ c ∈ text, c ≠ 0) (hlen : text.length < 0x1000) :
    Provided (logSink (endMemory text)) (fun _ => 0x3000) 0x1000 [] text := by
  have hroom : 0x1000 + text.length < wordSize := by
    rw [wordSize_eq]
    omega
  have hempty : endMemory text 0x3000 = 0 := store_outside (Or.inr (by
    rw [List.length_append, List.length_singleton]
    omega))
  refine ⟨fun _ => by rw [wordSize_eq]; decide, fun _ _ _ _ => store_string hnonzero hroom,
    fun _ s _ _ _ => ⟨[], fun c hc => absurd hc List.not_mem_nil, by rw [wordSize_eq]; decide,
      fun ys _ i hi => ?_⟩⟩
  rw [Nat.le_zero.mp hi]
  exact hempty

/-- The format `%5`, which ends in its width. -/
theorem formatEnd_width :
    (NeverPast (logSink (endMemory [ascii '%', ascii '5'])) (fun _ => 0x3000) 0x1000 [] [ascii '%', ascii '5'] ∧
      Terminates (logSink (endMemory [ascii '%', ascii '5'])) (fun _ => 0x3000) 0x1000 [] ↔
      ¬ EndsOpen [ascii '%', ascii '5']) ∧ ¬ EndsOpen [ascii '%', ascii '5'] ∧
    ∀ lengths s, Run (Pass (logSink (endMemory [ascii '%', ascii '5'])) fun _ => 0x3000)
      (start (logSink (endMemory [ascii '%', ascii '5'])) 0x1000 []) lengths s → lengths.sum ≤ 2 →
        s.fmt = 0x1000 + lengths.sum := by
  obtain ⟨hiff, hindex⟩ := formatEnd_iff (@provided_log [ascii '%', ascii '5']
    (nonzero_of_not_mem (by decide)) (by decide))
  exact ⟨hiff, by decide, hindex⟩

/-- The format `%`: the NUL is taken for its conversion, and the test of the loop reads what lies behind. -/
theorem neverPast_fails :
    Provided (logSink (endMemory [ascii '%'])) (fun _ => 0x3000) 0x1000 [] [ascii '%'] ∧
      ¬ NeverPast (logSink (endMemory [ascii '%'])) (fun _ => 0x3000) 0x1000 [] [ascii '%'] := by
  have hprovided := @provided_log [ascii '%'] (nonzero_of_not_mem (by decide)) (by decide)
  refine ⟨hprovided, fun hnever => ?_⟩
  have hends : EndsOpen [ascii '%'] := by decide
  obtain ⟨all, u, hrun, ⟨hhead, -⟩ | ⟨hsum, -⟩⟩ := reaches_end hprovided (.refl _) (start_head _ _ _) rfl
  · exact hhead.closed hends
  · have hinside := (hnever all u hrun).1
    rw [hsum] at hinside
    exact absurd hinside (by decide)

end Ktux.FormatEnd
