import Ktux.Sprintf

set_option autoImplicit false

/-!
# The 64-bit conversions

`%L` takes a `long long` from the argument list, but `num` is a `long`: what is printed is the low word.
-/
namespace Ktux.WideNumbers
open Words ByteMemory CString Printf FormatReference PrintfEmit PrintfScan Sprintf

@[simp] def prBufLen : ℕ := 32

def wideLetters (conversion : Conversion) : List UInt8 := [ascii '%', ascii 'L', conversion.letter]

def readAs (bits : ℕ) (signed : Bool) (v : ℕ) : ℤ :=
  if signed ∧ 2 ^ (bits - 1) ≤ v then (v : ℤ) - 2 ^ bits else v

/-- The shortest representation, behind the sign of a negative number. -/
def numberText (conversion : Conversion) (n : ℤ) : List UInt8 :=
  (if n < 0 then [ascii '-'] else []) ++ digits conversion.caps conversion.radix n.natAbs

/-- Two slots, the low word first. -/
structure WideArg (slots : ℕ → ℕ) (args v : ℕ) : Prop where
  low : slots args = v % 2 ^ 32
  high : slots (args + 1) = v / 2 ^ 32

/-- `do_printf` goes from the conversion to what follows it, with its text put out and its slots taken. -/
def Emits {P : Type} (k : Sink P) (slots : ℕ → ℕ) (out : P) (fmt args : ℕ) (ys text : List UInt8) : Prop :=
  Scans k slots (between k out fmt args ys) (between k out (fmt + 3) (args + 2) (ys ++ text))

/-- The conversion prints the 64-bit value wherever it stands, and the digits of a number fit the buffer. -/
structure PrintsWide (conversion : Conversion) (v : ℕ) : Prop where
  emits : ∀ (P : Type) (k : Sink P) (slots : ℕ → ℕ) (out : P) (fmt args : ℕ) (ys : List UInt8),
    WideArg slots args v → Reads k (between k out fmt args ys) (wideLetters conversion) →
      Emits k slots out fmt args ys (numberText conversion (readAs 64 conversion.signed v))
  inside : ∀ num < wordSize, ∀ fuel ds, convert fuel conversion.radix conversion.caps num = some ds →
    ds.length + 1 ≤ prBufLen

def FitsLong (conversion : Conversion) (v : ℕ) : Prop :=
  if conversion.signed then v < 2 ^ 31 ∨ 2 ^ 64 - 2 ^ 31 ≤ v else v < 2 ^ 32

instance (conversion : Conversion) (v : ℕ) : Decidable (FitsLong conversion v) := by
  unfold FitsLong
  infer_instance

section Texts
variable {conversion : Conversion} {m n : ℕ} {a b : ℤ}

def digitValue (c : UInt8) : ℕ :=
  if c < ascii 'A' then (c - ascii '0').toNat
  else if c < ascii 'a' then (c - ascii 'A').toNat + 10
  else (c - ascii 'a').toNat + 10

theorem digitValue_digit (caps : Bool) {d : ℕ} (hd : d < 16) : digitValue (digit caps d) = d := by
  revert d
  cases caps <;> decide

theorem digit_ne_minus (caps : Bool) {d : ℕ} (hd : d < 16) : digit caps d ≠ ascii '-' := by
  revert d
  cases caps <;> decide

/-- The number that digits stand for, the last one first. -/
def decode (radix : ℕ) (xs : List UInt8) : ℕ := Nat.ofDigits radix (xs.reverse.map digitValue)

theorem decode_digits (caps : Bool) {radix : ℕ} (hradix : 1 < radix) (hsmall : radix ≤ 16) (n : ℕ) :
    decode radix (digits caps radix n) = n := by
  unfold decode digits
  split_ifs with hzero
  · rw [hzero]
    rfl
  · rw [List.reverse_reverse, List.map_map]
    have hid : (Nat.digits radix n).map (digitValue ∘ digit caps) = Nat.digits radix n := by
      refine (List.map_congr_left fun d hd => ?_).trans (List.map_id _)
      exact digitValue_digit caps ((Nat.digits_lt_base hradix hd).trans_le hsmall)
    rw [hid, Nat.ofDigits_digits]

theorem digits_ne_minus (caps : Bool) {radix : ℕ} (hradix : 1 < radix) (hsmall : radix ≤ 16) (n : ℕ) :
    ascii '-' ∉ digits caps radix n := by
  intro hmem
  unfold digits at hmem
  split_ifs at hmem
  · exact absurd hmem (by decide)
  · obtain ⟨d, hd, heq⟩ := List.mem_map.mp (List.mem_reverse.mp hmem)
    exact digit_ne_minus caps ((Nat.digits_lt_base hradix hd).trans_le hsmall) heq

theorem radix_bounds (conversion : Conversion) : 8 ≤ conversion.radix ∧ conversion.radix ≤ 16 := by
  cases conversion <;> decide

theorem numberText_injective (h : numberText conversion a = numberText conversion b) : a = b := by
  obtain ⟨hlow, hsmall⟩ := radix_bounds conversion
  have hradix : 1 < conversion.radix := by omega
  have hminus : ∀ n : ℤ, ascii '-' ∈ numberText conversion n ↔ n < 0 := by
    intro n
    have hdigits := digits_ne_minus conversion.caps hradix hsmall n.natAbs
    unfold numberText
    split_ifs with hn <;> simp [hn, hdigits]
  have hsign : a < 0 ↔ b < 0 := by rw [← hminus, h, hminus]
  have habs : a.natAbs = b.natAbs := by
    unfold numberText at h
    rw [if_congr hsign rfl rfl] at h
    rw [← decode_digits conversion.caps hradix hsmall a.natAbs, List.append_cancel_left h,
      decode_digits _ hradix hsmall]
  omega

theorem readAs_low (conversion : Conversion) {v : ℕ} (hv : v < 2 ^ 64) :
    readAs 32 conversion.signed (v % 2 ^ 32) = readAs 64 conversion.signed v ↔ FitsLong conversion v := by
  unfold readAs FitsLong
  cases conversion.signed
  · simp only [Bool.false_eq_true, false_and, if_false]
    omega
  · simp only [true_and, if_true]
    split_ifs <;> omega

theorem layout_tight (negative : Bool) (body : List UInt8) :
    layout false false negative 0 body = (if negative then [ascii '-'] else []) ++ body := by
  simp [layout]

end Texts

section Scanning
variable {P : Type} {k : Sink P} {slots : ℕ → ℕ} {out : P} {fmt args v : ℕ} {ys : List UInt8}
variable {conversion : Conversion}

/-- The field of a `long`: the sign is that of the low word, and `-num` its magnitude. -/
theorem low_field (conversion : Conversion) {num : ℕ} (hnum : num < wordSize) :
    layout false false (conversion.signed && decide (2 ^ 31 ≤ num)) 0 (digits conversion.caps conversion.radix
      (if (conversion.signed && decide (2 ^ 31 ≤ num)) = true then wsub 0 num else num)) =
      numberText conversion (readAs 32 conversion.signed num) := by
  have hvalue : (if (conversion.signed && decide (2 ^ 31 ≤ num)) = true then wsub 0 num else num) =
      (readAs 32 conversion.signed num).natAbs ∧
      (conversion.signed && decide (2 ^ 31 ≤ num)) = decide (readAs 32 conversion.signed num < 0) := by
    unfold readAs wsub
    rw [wordSize_eq] at *
    cases conversion.signed
    · simp
    · simp only [Bool.true_and, decide_eq_true_eq, true_and]
      split_ifs <;> simp <;> omega
  rw [hvalue.1, hvalue.2, layout_tight, numberText]
  simp only [decide_eq_true_eq]

structure Wide (s : Scanner P) : Prop where
  flags : s.flags = { pr64 := true }
  width : s.givenWd = 0

theorem wide_modifier {s : Scanner P} {rest : List UInt8} (hreads : Reads k s (ascii 'L' :: rest)) (n : ℕ) :
    scanFlags k slots n s =
      some ({ s with state := .awaitingModifier }.flag fun f => { f with pr64 := true }) := by
  have hflags : scanFlags k slots n s = scanWidth k slots n { s with state := .awaitingWidth } := by
    unfold scanFlags
    rw [hreads.char]
    rfl
  have hplain : Plain ({ s with state := .awaitingWidth }.char k) := by
    change Plain (s.char k)
    rw [hreads.char]
    exact ⟨by decide, by decide, by decide⟩
  have hat : Scanner.char k { s with state := .awaitingModifier } = ascii 'L' := hreads.char
  rw [hflags, scanWidth_plain hplain]
  unfold scanModifier
  rw [hat]
  rfl

theorem Wide.scanConversion {s : Scanner P} (h : Wide s) (hchar : conversion ≠ .char)
    (hstring : conversion ≠ .string) (hletter : s.char k = conversion.letter) (hslot : slots s.args < wordSize)
    {n : ℕ} (hn : wordSize < n) :
    scanConversion k slots n s = some (emitAll k
      (numberText conversion (readAs 32 conversion.signed (slots s.args))) (s.takeArg true).reset) := by
  obtain ⟨hradix, hsmall⟩ := radix_bounds conversion
  obtain ⟨w, hw⟩ : ∃ w, w = s.flag fun f => { f with prSG := conversion.signed, prCA := conversion.caps } :=
    ⟨_, rfl⟩
  have hflags : w.flags = { pr64 := true, prSG := conversion.signed, prCA := conversion.caps } := by
    rw [hw, Scanner.flag, h.flags]
  have hwide : w.givenWd = 0 := by
    rw [hw]
    exact h.width
  have hload : loadNum slots w = slots s.args := by
    unfold loadNum
    rw [hflags, hw]
    rfl
  have hwidth : w.givenWd < wordSize := by
    rw [hwide, wordSize_eq]
    decide
  have hemits : doNum k slots n conversion.radix w = some _ :=
    doNum_emits (by rw [hflags]) (hload ▸ hslot) hwidth hradix hsmall hn rfl
  rw [hload, hwide, hflags] at hemits
  have hfield := low_field conversion hslot
  rw [Printf.scanConversion, convertChar_number hchar hstring hletter (by rw [h.flags]) (by rw [h.flags]), ← hw,
    hemits, hfield, Option.map_some, reset_emitted, hw]
  rfl

/-- What the code does: the low word is printed, and both slots are taken. -/
theorem wide_scans (hchar : conversion ≠ .char) (hstring : conversion ≠ .string) (harg : WideArg slots args v)
    (hreads : Reads k (between k out fmt args ys) (wideLetters conversion)) :
    Emits k slots out fmt args ys (numberText conversion (readAs 32 conversion.signed (v % 2 ^ 32))) := by
  have hfits : fmt + 3 < wordSize := hreads.fits
  obtain ⟨s, hs⟩ : ∃ s, s = { between k out (fmt + 1) args ys with state := .awaitingFlags } := ⟨_, rfl⟩
  have hletters : Reads k s [ascii 'L', conversion.letter] :=
    hreads.next (by rw [hs]; exact hreads.fmt.symm) (by rw [hs]; rfl)
  -- the first pass ends behind the modifier
  obtain ⟨u, hu⟩ : ∃ u, u =
      ({ s with state := .awaitingModifier }.flag fun f => { f with pr64 := true }).advance := ⟨_, rfl⟩
  have hletter : Reads k u [conversion.letter] := hletters.next (by rw [hu]; rfl) (by rw [hu]; rfl)
  obtain ⟨w, hw⟩ : ∃ w, w = { u with state := .awaitingConversion } := ⟨_, rfl⟩
  have hwide : Wide w := by
    rw [hw, hu, hs]
    exact ⟨rfl, rfl⟩
  have hslot : slots w.args = v % 2 ^ 32 := by
    rw [← harg.low, hw, hu, hs]
    rfl
  have hwletter : w.char k = conversion.letter := by
    rw [hw]
    exact hletter.char
  have hreset : (w.takeArg true).reset = between k out (fmt + 2) (args + 2) ys := by
    have hat : wadd (fmt + 1) 1 = fmt + 2 := wadd_of_lt (by omega)
    rw [hw, hu, hs, ← hat]
    rfl
  have hscan : ∀ n, wordSize < n → scan k slots n u = some (between k out (fmt + 2) (args + 2)
      (ys ++ numberText conversion (readAs 32 conversion.signed (v % 2 ^ 32)))) := by
    intro n hn
    have hstate : u.state = .awaitingModifier := by
      rw [hu]
      rfl
    rw [scan, hstate]
    change scanModifier k slots n u = _
    rw [scanModifier_conversion hletter.char, ← hw,
      hwide.scanConversion hchar hstring hwletter (hslot ▸ Nat.mod_lt _ (by decide)) hn, hslot, hreset,
      emitAll_between]
  have hlead := Leads.next (e := fun n => scanFlags k slots n s) (wide_modifier hletters)
    (by rw [← hu]; exact hletter.char_ne_zero (List.cons_ne_nil _ _)) (hu ▸ Leads.done hscan)
  rw [between_advance (by omega), hs, ← funext (scan_percent hreads)] at hlead
  exact hlead.scans (hreads.char_ne_zero (List.cons_ne_nil _ _))

end Scanning

section Values
variable {conversion : Conversion} {v : ℕ}

def conversionMemory (conversion : Conversion) : ByteMem :=
  store 0x1000 (wideLetters conversion ++ [0]) fun _ => 0

def wideSlots (v i : ℕ) : ℕ := if i = 0 then v % 2 ^ 32 else v / 2 ^ 32

theorem wideLetters_nonzero (conversion : Conversion) : ∀ c ∈ wideLetters conversion, c ≠ 0 := by
  refine nonzero_of_not_mem ?_
  cases conversion <;> decide

theorem conversionMemory_string (conversion : Conversion) :
    StringAt (conversionMemory conversion) 0x1000 (wideLetters conversion) := by
  have hlength : (wideLetters conversion).length = 3 := rfl
  exact store_string (wideLetters_nonzero conversion) (by rw [hlength, wordSize_eq]; decide)

theorem char_log (m : ByteMem) (log : List UInt8) (fmt args : ℕ) (ys : List UInt8) :
    (between (logSink m) log fmt args ys).char (logSink m) = m fmt := rfl

/-- Two texts for the format `%L` and a letter alone are the same. -/
theorem emits_unique {xs ys : List UInt8}
    (hxs : Emits (logSink (conversionMemory conversion)) (wideSlots v) [] 0x1000 0 [] xs)
    (hys : Emits (logSink (conversionMemory conversion)) (wideSlots v) [] 0x1000 0 [] ys) : xs = ys := by
  have hend : ∀ zs, (between (logSink (conversionMemory conversion)) [] (0x1000 + 3) (0 + 2) ([] ++ zs)).char
      (logSink (conversionMemory conversion)) = 0 := by
    intro zs
    have hbyte := (conversionMemory_string conversion).byte le_rfl
    have hlength : (wideLetters conversion).length = 3 := rfl
    rw [List.getD_eq_default _ _ le_rfl, hlength] at hbyte
    rw [char_log, hbyte]
  obtain ⟨n, hn⟩ := Scans.returns hxs (hend xs)
  obtain ⟨n', hn'⟩ := Scans.returns hys (hend ys)
  have heq := (hn _ (Nat.le_max_left n n')).symm.trans (hn' _ (Nat.le_max_right n n'))
  have hout := congrArg Prod.snd (Option.some.inj heq)
  exact (passAll_log _ xs []).symm.trans (hout.trans (passAll_log _ ys []))

theorem wide_log (conversion : Conversion) (v : ℕ) : WideArg (wideSlots v) 0 v ∧
    Reads (logSink (conversionMemory conversion))
      (between (logSink (conversionMemory conversion)) [] 0x1000 0 []) (wideLetters conversion) := by
  have hstring := conversionMemory_string conversion
  exact ⟨⟨rfl, rfl⟩, (ListAt.append.mp hstring.bytes).1, hstring.nonzero, hstring.fits⟩

theorem PrintsWide.fitsLong (h : PrintsWide conversion v) (hchar : conversion ≠ .char)
    (hstring : conversion ≠ .string) (hv : v < 2 ^ 64) : FitsLong conversion v := by
  obtain ⟨harg, hreads⟩ := wide_log conversion v
  have htext := emits_unique (wide_scans hchar hstring harg hreads) (h.emits _ _ _ _ _ _ _ harg hreads)
  exact (readAs_low conversion hv).mp (numberText_injective htext)

theorem convert_inside (conversion : Conversion) {num : ℕ} (hnum : num < wordSize) {fuel : ℕ} {ds : List UInt8}
    (hconvert : convert fuel conversion.radix conversion.caps num = some ds) : ds.length + 1 ≤ prBufLen := by
  obtain ⟨hradix, hsmall⟩ := radix_bounds conversion
  obtain ⟨t, ht, rfl⟩ := Option.map_eq_some_iff.mp hconvert
  have hmore := congrArg (Option.map Prod.snd) (Loops.doLoop_mono (Nat.le_max_left fuel (num + 1)) ht)
  have hdigits := @convert_eq conversion.radix num (max fuel (num + 1)) conversion.caps (by omega) hsmall
    (Nat.lt_of_lt_of_le (Nat.lt_succ_self num) (Nat.le_max_right _ _))
  have heq := Option.some.inj (hmore.symm.trans hdigits)
  have hlength := digits_length conversion.caps hradix hnum
  rw [heq, prBufLen]
  omega

end Values

/-- A 64-bit conversion prints its value exactly when a `long` holds it. In every context it takes the two slots
of the value, and prints the low word of it. -/
theorem wideNumbers_iff {conversion : Conversion} (hchar : conversion ≠ .char) (hstring : conversion ≠ .string)
    {v : ℕ} (hv : v < 2 ^ 64) :
    (PrintsWide conversion v ↔ FitsLong conversion v) ∧
    ∀ (P : Type) (k : Sink P) (slots : ℕ → ℕ) (out : P) (fmt args : ℕ) (ys : List UInt8),
      WideArg slots args v → Reads k (between k out fmt args ys) (wideLetters conversion) →
        Emits k slots out fmt args ys (numberText conversion (readAs 32 conversion.signed (v % 2 ^ 32))) := by
  refine ⟨⟨fun h => h.fitsLong hchar hstring hv, fun hfits => ⟨fun P k slots out fmt args ys harg hreads => ?_,
    fun num hnum fuel ds hconvert => convert_inside conversion hnum hconvert⟩⟩,
    fun P k slots out fmt args ys harg hreads => wide_scans hchar hstring harg hreads⟩
  rw [← (readAs_low conversion hv).mpr hfits]
  exact wide_scans hchar hstring harg hreads

/-- `%Lx` of the largest value that goes right, and `%Ld` of the least. -/
theorem wideNumbers_bounds : (PrintsWide .hex (2 ^ 32 - 1) ∧ PrintsWide .decimal (2 ^ 64 - 2 ^ 31)) ∧
    Emits (logSink (conversionMemory .hex)) (wideSlots (2 ^ 32 - 1)) [] 0x1000 0 []
      (numberText .hex (readAs 32 false ((2 ^ 32 - 1) % 2 ^ 32))) := by
  obtain ⟨hhex, hemits⟩ := @wideNumbers_iff .hex (by decide) (by decide) (2 ^ 32 - 1) (by decide)
  obtain ⟨hdecimal, -⟩ := @wideNumbers_iff .decimal (by decide) (by decide) (2 ^ 64 - 2 ^ 31) (by decide)
  obtain ⟨harg, hreads⟩ := wide_log .hex (2 ^ 32 - 1)
  exact ⟨⟨hhex.mpr (by decide), hdecimal.mpr (by decide)⟩, hemits _ _ _ _ _ _ _ harg hreads⟩

/-- `%Lu` of 2³² prints `0`. -/
theorem printsWide_fails : ¬ PrintsWide .unsigned (2 ^ 32) ∧
    Emits (logSink (conversionMemory .unsigned)) (wideSlots (2 ^ 32)) [] 0x1000 0 [] [ascii '0'] := by
  obtain ⟨harg, hreads⟩ := wide_log .unsigned (2 ^ 32)
  have hemits := wide_scans (by decide) (by decide) harg hreads
  refine ⟨fun h => ?_, hemits⟩
  exact absurd (h.fitsLong (by decide) (by decide) (by decide)) (by decide)

end Ktux.WideNumbers
