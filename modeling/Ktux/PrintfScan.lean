import Ktux.PrintfEmit

set_option autoImplicit false

/-!
# How `do_printf` scans a format

Between two items of the format the scanner waits for a percent sign with nothing carried over.
-/
namespace Ktux.PrintfScan
open Words Loops ByteMemory CString Printf FormatReference PrintfEmit

variable {P : Type} {k : Sink P} {slots : ℕ → ℕ} {s u v : Scanner P} {e : ℕ → Option (Scanner P)}

/-- The `for` loop, with `n` as the fuel of the loops inside it. -/
def loop (k : Sink P) (slots : ℕ → ℕ) (n fuel : ℕ) : Scanner P → Option (Scanner P) :=
  whileLoop (fun s => s.char k ≠ 0) (fun s => (scan k slots n s).map Scanner.advance) fuel

def Scans (k : Sink P) (slots : ℕ → ℕ) (s u : Scanner P) : Prop :=
  ∃ passes, ∀ n, wordSize < n → ∀ fuel, loop k slots n (passes + fuel) s = loop k slots n fuel u

/-- The pass whose remainder is `e`, and some more, lead to a loop head. -/
def Leads (k : Sink P) (slots : ℕ → ℕ) (e : ℕ → Option (Scanner P)) (u : Scanner P) : Prop :=
  ∃ passes, ∀ n, wordSize < n → ∀ fuel,
    ((e n).map Scanner.advance).bind (loop k slots n (passes + fuel)) = loop k slots n fuel u

theorem Scans.refl (s : Scanner P) : Scans k slots s s :=
  ⟨0, fun n _ fuel => congrArg (fun j => loop k slots n j s) (Nat.zero_add fuel)⟩

theorem Scans.trans (h : Scans k slots s u) (h' : Scans k slots u v) : Scans k slots s v := by
  obtain ⟨i, hi⟩ := h
  obtain ⟨j, hj⟩ := h'
  refine ⟨i + j, fun n hn fuel => ?_⟩
  rw [Nat.add_assoc, hi n hn, hj n hn]

theorem Leads.scans (hchar : s.char k ≠ 0) (h : Leads k slots (fun n => scan k slots n s) u) :
    Scans k slots s u := by
  obtain ⟨j, hj⟩ := h
  refine ⟨j + 1, fun n hn fuel => ?_⟩
  rw [← hj n hn, Nat.add_right_comm, loop, whileLoop, if_pos (decide_eq_true hchar)]
  rfl

theorem Leads.done (h : ∀ n, wordSize < n → e n = some s) : Leads k slots e s.advance := by
  refine ⟨0, fun n hn fuel => ?_⟩
  rw [h n hn, Nat.zero_add]
  rfl

theorem Leads.next (h : ∀ n, e n = some s) (hchar : s.advance.char k ≠ 0)
    (hrest : Leads k slots (fun n => scan k slots n s.advance) u) : Leads k slots e u := by
  obtain ⟨j, hj⟩ := hrest.scans hchar
  refine ⟨j, fun n hn fuel => ?_⟩
  rw [h n, ← hj n hn]
  rfl

section Letters
variable {c : UInt8} {xs ys : List UInt8}

structure Reads (k : Sink P) (s : Scanner P) (xs : List UInt8) : Prop where
  bytes : ListAt (k.mem s.out) s.fmt xs
  nonzero : ∀ c ∈ xs, c ≠ 0
  fits : s.fmt + xs.length < wordSize

theorem Reads.char (h : Reads k s (c :: xs)) : s.char k = c := h.bytes.1

theorem Reads.fmt (h : Reads k s (c :: xs)) : wadd s.fmt 1 = s.fmt + 1 := by
  have hfits := h.fits
  rw [List.length_cons] at hfits
  exact wadd_of_lt (by omega)

theorem Reads.drop (h : Reads k s (xs ++ ys)) (hfmt : v.fmt = s.fmt + xs.length) (hout : v.out = s.out) :
    Reads k v ys := by
  refine ⟨?_, fun c hc => h.nonzero c (List.mem_append_right _ hc), ?_⟩
  · rw [hfmt, hout]
    exact (ListAt.append.mp h.bytes).2
  · have hfits := h.fits
    rw [List.length_append] at hfits
    omega

theorem Reads.next (h : Reads k s (c :: xs)) (hfmt : v.fmt = wadd s.fmt 1) (hout : v.out = s.out) :
    Reads k v xs := @Reads.drop _ k s v [c] xs h (hfmt.trans h.fmt) hout

theorem Reads.char_ne_zero (h : Reads k s xs) (hxs : xs ≠ []) : s.char k ≠ 0 := by
  cases xs with
  | nil => exact absurd rfl hxs
  | cons c xs =>
    rw [h.char]
    exact h.nonzero c (List.mem_cons_self ..)

end Letters

section Modifiers
variable {ms : List Modifier} {conversion : Conversion}

def setModifier (f : Flags) : Modifier → Flags
  | .far => { f with prFP := true }
  | .near => f
  | .long => { f with pr32 := true }
  | .short => { f with pr16 := true }

theorem scanModifier_letter {m : Modifier} (h : s.char k = m.letter) (n : ℕ) :
    scanModifier k slots n s = some (s.flag fun f => setModifier f m) := by
  unfold scanModifier
  rw [h]
  cases m <;> rfl

theorem scanModifier_conversion (h : s.char k = conversion.letter) (n : ℕ) :
    scanModifier k slots n s = scanConversion k slots n { s with state := .awaitingConversion } := by
  unfold scanModifier
  rw [h]
  cases conversion <;> rfl

def afterModifiers (ms : List Modifier) (s : Scanner P) : Scanner P :=
  { s with state := .awaitingConversion, fmt := s.fmt + ms.length, flags := ms.foldl setModifier s.flags }

theorem modifiers_lead (hstate : s.state = .awaitingModifier)
    (hreads : Reads k s (ms.map Modifier.letter ++ [conversion.letter]))
    (h : Leads k slots (fun n => scanConversion k slots n (afterModifiers ms s)) u) :
    Leads k slots (fun n => scanModifier k slots n s) u := by
  induction ms generalizing s with
  | nil =>
    have hfall := @scanModifier_conversion _ k slots s conversion hreads.char
    rw [funext hfall]
    exact h
  | cons m ms ih =>
    have hnext : Reads k (s.flag fun f => setModifier f m).advance
        (ms.map Modifier.letter ++ [conversion.letter]) := hreads.next rfl rfl
    have hafter : afterModifiers ms (s.flag fun f => setModifier f m).advance = afterModifiers (m :: ms) s := by
      have hfmt : wadd s.fmt 1 + ms.length = s.fmt + (m :: ms).length := by
        rw [hreads.fmt, List.length_cons]
        omega
      unfold afterModifiers
      rw [← hfmt]
      rfl
    refine Leads.next (scanModifier_letter hreads.char) (hnext.char_ne_zero (by simp)) ?_
    have hscan : ∀ n, scan k slots n (s.flag fun f => setModifier f m).advance =
        scanModifier k slots n (s.flag fun f => setModifier f m).advance := by
      intro n
      have hkept : (s.flag fun f => setModifier f m).advance.state = .awaitingModifier := hstate
      rw [scan, hkept]
    rw [funext hscan]
    exact ih hstate hnext (by rw [hafter]; exact h)

end Modifiers

section Width
variable {ds : List (Fin 10)} {rest : List UInt8}

def Plain (c : UInt8) : Prop :=
  c ≠ ascii '%' ∧ c ≠ ascii '-' ∧ ¬ (ascii '0' ≤ c ∧ c ≤ ascii '9')

theorem plain_modifier (m : Modifier) : Plain m.letter := by
  cases m <;> exact ⟨by decide, by decide, by decide⟩

theorem plain_conversion (conversion : Conversion) : Plain conversion.letter := by
  cases conversion <;> exact ⟨by decide, by decide, by decide⟩

theorem tail_plain (ms : List Modifier) (conversion : Conversion) :
    ∃ c rest, ms.map Modifier.letter ++ [conversion.letter] = c :: rest ∧ Plain c := by
  cases ms with
  | nil => exact ⟨_, _, rfl, plain_conversion conversion⟩
  | cons m ms => exact ⟨_, _, rfl, plain_modifier m⟩

theorem widthLetter_digit (d : Fin 10) : (ascii '0' ≤ widthLetter d ∧ widthLetter d ≤ ascii '9') ∧
    (widthLetter d - ascii '0').toNat = d.val ∧ widthLetter d ≠ ascii '%' ∧ widthLetter d ≠ ascii '-' ∧
      (d ≠ 0 → widthLetter d ≠ ascii '0') := by
  revert d
  decide

theorem scanWidth_digit {d : Fin 10} (h : s.char k = widthLetter d) (n : ℕ) :
    scanWidth k slots n s = some { s with givenWd := wadd (wmul 10 s.givenWd) d.val } := by
  obtain ⟨hdigit, hvalue, -⟩ := widthLetter_digit d
  unfold scanWidth
  rw [h]
  simp only [hdigit, hvalue, and_self, if_true]

theorem scanWidth_plain (h : Plain (s.char k)) (n : ℕ) :
    scanWidth k slots n s = scanModifier k slots n { s with state := .awaitingModifier } := by
  unfold scanWidth
  exact if_neg h.2.2

theorem le_foldl_width (ds : List (Fin 10)) (n : ℕ) : n ≤ ds.foldl (fun n d => 10 * n + d.val) n := by
  induction ds generalizing n with
  | nil => exact le_rfl
  | cons d ds ih =>
    rw [List.foldl_cons]
    exact le_trans (by omega) (ih (10 * n + d.val))

def afterWidth (ds : List (Fin 10)) (s : Scanner P) : Scanner P :=
  { s with
    state := .awaitingModifier
    fmt := s.fmt + ds.length
    givenWd := ds.foldl (fun n d => 10 * n + d.val) s.givenWd }

theorem width_leads (hstate : s.state = .awaitingWidth) (hreads : Reads k s (ds.map widthLetter ++ rest))
    (hrest : ∃ c cs, rest = c :: cs ∧ Plain c)
    (hwidth : ds.foldl (fun n d => 10 * n + d.val) s.givenWd < wordSize)
    (h : Leads k slots (fun n => scanModifier k slots n (afterWidth ds s)) u) :
    Leads k slots (fun n => scanWidth k slots n s) u := by
  obtain ⟨c, cs, rfl, hplain⟩ := hrest
  induction ds generalizing s with
  | nil =>
    have hfall := @scanWidth_plain _ k slots s (by rw [hreads.char]; exact hplain)
    rw [funext hfall]
    exact h
  | cons d ds ih =>
    rw [List.foldl_cons] at hwidth
    have hstep := le_foldl_width ds (10 * s.givenWd + d.val)
    have hvalue : wadd (wmul 10 s.givenWd) d.val = 10 * s.givenWd + d.val := by
      rw [wmul_of_lt (by omega), wadd_of_lt (by omega)]
    have hdigit : ∀ n, scanWidth k slots n s = some (setWidth (10 * s.givenWd + d.val) s) := by
      intro n
      rw [scanWidth_digit hreads.char, hvalue]
      rfl
    have hnext : Reads k (setWidth (10 * s.givenWd + d.val) s).advance (ds.map widthLetter ++ c :: cs) :=
      hreads.next rfl rfl
    have hafter : afterWidth ds (setWidth (10 * s.givenWd + d.val) s).advance = afterWidth (d :: ds) s := by
      have hfmt : wadd s.fmt 1 + ds.length = s.fmt + (d :: ds).length := by
        rw [hreads.fmt, List.length_cons]
        omega
      unfold afterWidth
      rw [← hfmt]
      rfl
    refine Leads.next hdigit (hnext.char_ne_zero (by simp)) ?_
    have hscan : ∀ n, scan k slots n (setWidth (10 * s.givenWd + d.val) s).advance =
        scanWidth k slots n (setWidth (10 * s.givenWd + d.val) s).advance := by
      intro n
      have hkept : (setWidth (10 * s.givenWd + d.val) s).advance.state = .awaitingWidth := hstate
      rw [scan, hkept]
    rw [funext hscan]
    exact ih hstate hwidth (by rw [hafter]; exact h) hnext

end Width

section Flags
variable {rest : List UInt8}

def afterZero (zero : Bool) (s : Scanner P) : Scanner P :=
  { s with
    state := .awaitingWidth
    fmt := if zero then s.fmt + 1 else s.fmt
    flags := { s.flags with prLZ := zero } }

theorem afterZero_false (h : s.flags.prLZ = false) :
    afterZero false s = { s with state := .awaitingWidth } := by
  obtain ⟨fmt, state, ⟨prLJ, prCA, prSG, pr32, pr64, pr16, prWS, prLZ, prFP⟩, count, givenWd, args, out⟩ := s
  cases h
  rfl

theorem scanFlags_zero {zero : Bool} (hlz : s.flags.prLZ = false)
    (hreads : Reads k s ((if zero then [ascii '0'] else []) ++ rest))
    (hrest : zero = false → ∃ c cs, rest = c :: cs ∧ c ≠ ascii '%' ∧ c ≠ ascii '-' ∧ c ≠ ascii '0')
    (n : ℕ) : scanFlags k slots n s = scanWidth k slots n (afterZero zero s) := by
  cases zero with
  | true =>
    have hchar : s.char k = ascii '0' := hreads.char
    have hfmt : wadd s.fmt 1 = s.fmt + 1 := Reads.fmt hreads
    unfold scanFlags
    rw [hchar, hfmt]
    rfl
  | false =>
    obtain ⟨c, cs, rfl, hpercent, hminus, hzero⟩ := hrest rfl
    have hchar : s.char k = c := hreads.char
    unfold scanFlags
    rw [hchar, afterZero_false hlz]
    simp only [hpercent, hminus, hzero, if_false]

def afterLeft (left : Bool) (s : Scanner P) : Scanner P :=
  { s with fmt := if left then s.fmt + 1 else s.fmt, flags := { s.flags with prLJ := left } }

theorem afterLeft_false (h : s.flags.prLJ = false) : afterLeft false s = s := by
  obtain ⟨fmt, state, ⟨prLJ, prCA, prSG, pr32, pr64, pr16, prWS, prLZ, prFP⟩, count, givenWd, args, out⟩ := s
  cases h
  rfl

theorem left_leads {left : Bool} (hstate : s.state = .awaitingFlags) (hlj : s.flags.prLJ = false)
    (hreads : Reads k s ((if left then [ascii '-'] else []) ++ rest)) (hrest : rest ≠ [])
    (h : Leads k slots (fun n => scanFlags k slots n (afterLeft left s)) u) :
    Leads k slots (fun n => scanFlags k slots n s) u := by
  cases left with
  | false =>
    rw [afterLeft_false hlj] at h
    exact h
  | true =>
    have hchar : s.char k = ascii '-' := hreads.char
    have hflag : ∀ n, scanFlags k slots n s = some (s.flag fun f => { f with prLJ := true }) := by
      intro n
      unfold scanFlags
      rw [hchar, hlj]
      rfl
    have hnext : Reads k (s.flag fun f => { f with prLJ := true }).advance rest := Reads.next hreads rfl rfl
    have hafter : (s.flag fun f => { f with prLJ := true }).advance = afterLeft true s := by
      rw [Scanner.advance, Scanner.flag, Reads.fmt hreads]
      rfl
    refine Leads.next hflag (hnext.char_ne_zero hrest) ?_
    have hscan : ∀ n, scan k slots n (s.flag fun f => { f with prLJ := true }).advance =
        scanFlags k slots n (s.flag fun f => { f with prLJ := true }).advance := by
      intro n
      have hkept : (s.flag fun f => { f with prLJ := true }).advance.state = .awaitingFlags := hstate
      rw [scan, hkept]
    rw [funext hscan, hafter]
    exact h

end Flags

section Items
variable {out : P} {fmt args : ℕ} {text ys : List UInt8}

/-- The scanner between two items, when the text `ys` has gone out. -/
def between (k : Sink P) (out : P) (fmt args : ℕ) (ys : List UInt8) : Scanner P :=
  ⟨fmt, .awaitingPercent, {}, ys.length % wordSize, 0, args, passAll k ys out⟩

theorem emitAll_between (xs : List UInt8) :
    emitAll k xs (between k out fmt args ys) = between k out fmt args (ys ++ xs) := by
  have hcount : wadd (ys.length % wordSize) xs.length = (ys ++ xs).length % wordSize := by
    rw [wadd, Nat.mod_add_mod, List.length_append]
  have hlt : (between k out fmt args ys).count < wordSize := Nat.mod_lt _ (by rw [wordSize_eq]; decide)
  have hjoined : between k out fmt args (ys ++ xs) = ⟨fmt, .awaitingPercent, {},
      wadd (ys.length % wordSize) xs.length, 0, args, passAll k xs (passAll k ys out)⟩ := by
    rw [hcount, ← passAll_append]
    rfl
  rw [emitAll_eq xs hlt, hjoined]
  rfl

theorem between_advance (h : fmt + 1 < wordSize) :
    (between k out fmt args ys).advance = between k out (fmt + 1) args ys := by
  rw [Scanner.advance, between, wadd_of_lt h]
  rfl

theorem literal_scans {c : UInt8} (hc : c ≠ ascii '%') (h : Reads k (between k out fmt args ys) [c]) :
    Scans k slots (between k out fmt args ys) (between k out (fmt + 1) args (ys ++ [c])) := by
  have hscan : ∀ n, scan k slots n (between k out fmt args ys) =
      some (between k out fmt args (ys ++ [c])) := by
    intro n
    have hstate : (between k out fmt args ys).state = .awaitingPercent := rfl
    rw [scan, hstate, ← emitAll_between, h.char]
    exact if_pos hc
  have hlead : Leads k slots (fun n => scan k slots n (between k out fmt args ys)) _ :=
    Leads.done fun n _ => hscan n
  have hfits : fmt + 1 < wordSize := h.fits
  rw [between_advance hfits] at hlead
  exact hlead.scans (h.char_ne_zero (List.cons_ne_nil _ _))

theorem scan_percent {rest : List UInt8} (h : Reads k (between k out fmt args ys) (ascii '%' :: rest)) (n : ℕ) :
    scan k slots n (between k out fmt args ys) =
      scanFlags k slots n { between k out (fmt + 1) args ys with state := .awaitingFlags } := by
  have hstate : (between k out fmt args ys).state = .awaitingPercent := rfl
  have hfmt : wadd (between k out fmt args ys).fmt 1 = fmt + 1 := h.fmt
  rw [scan, hstate, hfmt, h.char]
  rfl

theorem percent_scans (h : Reads k (between k out fmt args ys) [ascii '%', ascii '%']) :
    Scans k slots (between k out fmt args ys) (between k out (fmt + 2) args (ys ++ [ascii '%'])) := by
  have hsecond : Reads k { between k out (fmt + 1) args ys with state := .awaitingFlags } [ascii '%'] :=
    h.next h.fmt.symm rfl
  have hscan : ∀ n, scan k slots n (between k out fmt args ys) =
      some (between k out (fmt + 1) args (ys ++ [ascii '%'])) := by
    intro n
    rw [scan_percent h, ← emitAll_between]
    unfold scanFlags
    rw [hsecond.char]
    rfl
  have hlead : Leads k slots (fun n => scan k slots n (between k out fmt args ys)) _ :=
    Leads.done fun n _ => hscan n
  have hfits : fmt + 2 < wordSize := h.fits
  rw [between_advance hfits] at hlead
  exact hlead.scans (h.char_ne_zero (List.cons_ne_nil _ _))

theorem foldl_setModifier (ms : List Modifier) (f : Flags) : ms.foldl setModifier f =
    { f with
      pr32 := f.pr32 || decide (Modifier.long ∈ ms)
      pr16 := f.pr16 || decide (Modifier.short ∈ ms)
      prFP := f.prFP || decide (Modifier.far ∈ ms) } := by
  induction ms generalizing f with
  | nil => simp
  | cons m ms ih =>
    rw [List.foldl_cons, ih]
    cases m <;> simp [setModifier]

def atConversion (d : Directive) (s : Scanner P) : Scanner P :=
  afterModifiers d.modifiers (afterWidth d.width (afterZero d.zero (afterLeft d.left s)))

theorem atConversion_fmt (d : Directive) (s : Scanner P) :
    (atConversion d s).fmt + 1 = s.fmt + d.letters.length := by
  unfold Directive.letters
  simp only [List.length_append, List.length_map, List.length_singleton]
  change (if d.zero then (if d.left then s.fmt + 1 else s.fmt) + 1 else
    if d.left then s.fmt + 1 else s.fmt) + d.width.length + d.modifiers.length + 1 = _
  cases d.left <;> cases d.zero <;> simp <;> omega

theorem directive_leads {d : Directive} (hd : d.WellFormed)
    (hs : s = { between k out fmt args ys with state := .awaitingFlags }) (hreads : Reads k s d.letters)
    (h : Leads k slots (fun n => scanConversion k slots n (atConversion d s)) u) :
    Leads k slots (fun n => scanFlags k slots n s) u := by
  obtain ⟨c, cs, htail, hplain⟩ := tail_plain d.modifiers d.conversion
  have hrest : d.zero = false → ∃ c cs, d.width.map widthLetter ++
      (d.modifiers.map Modifier.letter ++ [d.conversion.letter]) = c :: cs ∧
        c ≠ ascii '%' ∧ c ≠ ascii '-' ∧ c ≠ ascii '0' := by
    intro hzero
    cases hwidth : d.width with
    | nil =>
      refine ⟨c, cs, htail, hplain.1, hplain.2.1, fun hc => hplain.2.2 ?_⟩
      rw [hc]
      decide
    | cons x xs =>
      have hhead : x ≠ 0 := by
        intro hx
        refine hd.width_head hzero ?_
        rw [hwidth, hx]
        rfl
      obtain ⟨-, -, hpercent, hminus, hnonzero⟩ := widthLetter_digit x
      exact ⟨_, _, rfl, hpercent, hminus, hnonzero hhead⟩
  have hstate : s.state = .awaitingFlags := by rw [hs]
  have hlj : s.flags.prLJ = false := by rw [hs]; rfl
  have hlz : (afterLeft d.left s).flags.prLZ = false := by rw [hs]; rfl
  have hwd : (afterZero d.zero (afterLeft d.left s)).givenWd = 0 := by rw [hs]; rfl
  have hzero : Reads k (afterLeft d.left s) ((if d.zero then [ascii '0'] else []) ++
      (d.width.map widthLetter ++ (d.modifiers.map Modifier.letter ++ [d.conversion.letter]))) := by
    refine hreads.drop ?_ rfl
    change (if d.left then s.fmt + 1 else s.fmt) = _
    cases d.left <;> rfl
  have hwidth : Reads k (afterZero d.zero (afterLeft d.left s))
      (d.width.map widthLetter ++ (d.modifiers.map Modifier.letter ++ [d.conversion.letter])) := by
    refine hzero.drop ?_ rfl
    change (if d.zero then (afterLeft d.left s).fmt + 1 else (afterLeft d.left s).fmt) = _
    cases d.zero <;> rfl
  have hmodifiers : Reads k (afterWidth d.width (afterZero d.zero (afterLeft d.left s)))
      (d.modifiers.map Modifier.letter ++ [d.conversion.letter]) := by
    refine hwidth.drop ?_ rfl
    rw [List.length_map]
    rfl
  refine left_leads hstate hlj hreads (by simp) ?_
  rw [funext (@scanFlags_zero _ k slots _ _ _ hlz hzero hrest)]
  refine width_leads rfl hwidth ⟨c, cs, htail, hplain⟩ (by rw [hwd]; exact hd.width_lt) ?_
  exact modifiers_lead rfl hmodifiers h

theorem directive_scans {d : Directive} {a : Arg} (hd : d.WellFormed) (hslot : slots args = a.slot)
    (hlt : a.slot < wordSize) (hfits : Fits k d a (passAll k ys out))
    (hreads : Reads k (between k out fmt args ys) (ascii '%' :: d.letters)) :
    Scans k slots (between k out fmt args ys)
      (between k out (fmt + (ascii '%' :: d.letters).length) (args + 1) (ys ++ d.render a)) := by
  obtain ⟨s, hs⟩ : ∃ s, s = { between k out (fmt + 1) args ys with state := .awaitingFlags } := ⟨_, rfl⟩
  have hletters : Reads k s d.letters := hreads.next (by rw [hs]; exact hreads.fmt.symm) (by rw [hs]; rfl)
  have hlength := hreads.fits
  have hfmt := atConversion_fmt d s
  have hsfmt : s.fmt = fmt + 1 := by
    rw [hs]
    rfl
  have hfmt' : (atConversion d s).fmt + 1 = fmt + (ascii '%' :: d.letters).length := by
    rw [hfmt, hsfmt, List.length_cons]
    omega
  have hsome : 1 ≤ d.letters.length := by
    simp only [Directive.letters, List.length_append, List.length_singleton]
    omega
  have hready : Ready k slots d a (atConversion d s) := by
    refine ⟨?_, ?_, ?_, ?_, hlt⟩
    · change d.modifiers.foldl setModifier _ = _
      rw [foldl_setModifier, hs]
      simp only [directiveFlags, afterWidth, afterZero, afterLeft, between, Bool.false_or]
    · rw [hs]
      rfl
    · refine (@Reads.drop _ k s (atConversion d s) d.letters.dropLast [d.conversion.letter] ?_ ?_ rfl).char
      · have hsplit : d.letters.dropLast ++ [d.conversion.letter] = d.letters := by
          unfold Directive.letters
          simp only [← List.append_assoc, List.dropLast_concat]
        rw [hsplit]
        exact hletters
      · rw [List.length_dropLast, ← Nat.add_sub_assoc hsome, ← hfmt]
        rfl
    · rw [hs]
      exact hslot
  have hout : (atConversion d s).out = passAll k ys out := by
    rw [hs]
    rfl
  have hreset : ((atConversion d s).takeArg false).reset =
      between k out (atConversion d s).fmt (args + 1) ys := by
    rw [hs]
    rfl
  have hwritten : ∀ n, wordSize < n → scanConversion k slots n (atConversion d s) =
      some (between k out (atConversion d s).fmt (args + 1) (ys ++ d.render a)) := by
    intro n hn
    rw [hready.scanConversion (by rw [hout]; exact hfits) hn, written, hreset, emitAll_between]
  have hlead := directive_leads hd hs hletters (Leads.done hwritten)
  have hend : (atConversion d s).fmt + 1 < wordSize := hfmt' ▸ hlength
  rw [between_advance hend, hfmt'] at hlead
  rw [hs, ← funext (scan_percent hreads)] at hlead
  exact hlead.scans (hreads.char_ne_zero (List.cons_ne_nil _ _))

/-- A string that the output of `text` leaves alone. -/
def Readable (k : Sink P) (out : P) (text : List UInt8) (p : ℕ) (xs : List UInt8) : Prop :=
  ∀ ys, ys <+: text → StringAt (k.mem (passAll k ys out)) p xs

/-- The slots hold the arguments, from the `n`th on. -/
def Supplied (slots : ℕ → ℕ) (readable : ℕ → List UInt8 → Prop) : ℕ → List Item → List Arg → Prop
  | _, [], as => as = []
  | n, .literal _ :: items, as => Supplied slots readable n items as
  | n, .percent :: items, as => Supplied slots readable n items as
  | _, .directive _ :: _, [] => False
  | n, .directive d :: items, a :: as =>
    (slots n = a.slot ∧ a.slot < wordSize ∧ (d.conversion = .char → UInt8.ofNat a.slot ≠ 0) ∧
      (d.conversion = .string → readable a.slot a.text)) ∧ Supplied slots readable (n + 1) items as

theorem Supplied.mono {slots : ℕ → ℕ} {r r' : ℕ → List UInt8 → Prop} {items : List Item} {as : List Arg}
    {n : ℕ} (h : Supplied slots r n items as) (hr : ∀ p xs, r p xs → r' p xs) :
    Supplied slots r' n items as := by
  induction items generalizing as n with
  | nil => exact h
  | cons item items ih =>
    cases item with
    | literal c => exact ih h
    | percent => exact ih h
    | directive d =>
      cases as with
      | nil => exact h
      | cons a as =>
        obtain ⟨⟨hslot, hlt, hchar, hstring⟩, h⟩ := h
        exact ⟨⟨hslot, hlt, hchar, fun hconv => hr _ _ (hstring hconv)⟩, ih h⟩

theorem Readable.stable {p : ℕ} {xs us vs : List UInt8} (h : Readable k out text p xs)
    (htext : ys ++ us ++ vs = text) : Stable k (.str p) xs us (passAll k ys out) := by
  intro zs hzs i hi
  have hbefore : ys ++ zs <+: text :=
    htext ▸ ((List.prefix_append_right_inj ys).mpr hzs).trans (List.prefix_append _ _)
  have hstring := h _ hbefore
  have hfits := hstring.fits
  rw [← passAll_append, Where.byte, wadd_of_lt (by omega)]
  exact hstring.byte hi

theorem Readable.reads {xs us vs : List UInt8} (h : Readable k out text fmt (xs ++ us))
    (htext : ys ++ vs = text) : Reads k (between k out fmt args ys) xs := by
  have hstring := h ys (htext ▸ List.prefix_append ys vs)
  have hfits := hstring.fits
  have hbytes := hstring.bytes
  rw [List.append_assoc] at hbytes
  rw [List.length_append] at hfits
  refine ⟨(ListAt.append.mp hbytes).1, fun c hc => hstring.nonzero c (List.mem_append_left _ hc), ?_⟩
  change fmt + xs.length < wordSize
  omega

theorem Readable.drop {xs us : List UInt8} (h : Readable k out text fmt (xs ++ us)) :
    Readable k out text (fmt + xs.length) us := fun zs hzs => (h zs hzs).drop

theorem items_scan {items : List Item} {as : List Arg} (hitems : ∀ i ∈ items, i.WellFormed)
    (htext : ys ++ render items as = text) (hfmt : Readable k out text fmt (formatText items))
    (hargs : Supplied slots (Readable k out text) args items as) :
    Scans k slots (between k out fmt args ys)
      (between k out (fmt + (formatText items).length) (args + as.length) text) := by
  -- what has gone out so far and what is left to render always make up the whole text
  induction items generalizing as fmt args ys with
  | nil =>
    have has : as = [] := hargs
    rw [render, List.append_nil] at htext
    rw [has, htext]
    exact Scans.refl _
  | cons item items ih =>
    obtain ⟨hitem, hrest⟩ := List.forall_mem_cons.mp hitems
    have hletters : formatText (item :: items) = item.letters ++ formatText items := List.flatMap_cons
    rw [hletters] at hfmt ⊢
    rw [List.length_append, ← Nat.add_assoc]
    cases item with
    | literal c =>
      rw [render, ← List.singleton_append, ← List.append_assoc] at htext
      have hsplit : ys ++ ([c] ++ render items as) = text := by rw [← htext, List.append_assoc]
      exact (literal_scans hitem.2 (hfmt.reads hsplit)).trans (ih hrest htext hfmt.drop hargs)
    | percent =>
      rw [render, ← List.singleton_append, ← List.append_assoc] at htext
      have hsplit : ys ++ ([ascii '%'] ++ render items as) = text := by rw [← htext, List.append_assoc]
      exact (percent_scans (hfmt.reads hsplit)).trans (ih hrest htext hfmt.drop hargs)
    | directive d =>
      cases as with
      | nil => exact hargs.elim
      | cons a as =>
        obtain ⟨⟨hslot, hlt, hchar, hstring⟩, hargs⟩ := hargs
        rw [render, ← List.append_assoc] at htext
        have hsplit : ys ++ (d.render a ++ render items as) = text := by rw [← htext, List.append_assoc]
        have hfits : Fits k d a (passAll k ys out) := by
          refine ⟨hitem.width_lt, hchar, fun hconv => ?_⟩
          have htextAt := hstring hconv ys (htext ▸ (List.prefix_append _ _).trans (List.prefix_append _ _))
          have hlen := htextAt.fits
          exact ⟨htextAt.nonzero, by omega, (hstring hconv).stable htext⟩
        have hcount : args + (a :: as).length = args + 1 + as.length := by
          rw [List.length_cons]
          omega
        rw [hcount]
        exact (directive_scans hitem hslot hlt hfits (hfmt.reads hsplit)).trans (ih hrest htext hfmt.drop hargs)

end Items

end Ktux.PrintfScan
