import Ktux.FormatReference
import Mathlib.Data.List.Induction
import Mathlib.Data.Nat.Digits.Lemmas

set_option autoImplicit false

/-!
# What `do_printf` emits for one conversion
-/
namespace Ktux.PrintfEmit
open Words Loops ByteMemory CString Printf FormatReference

variable {P : Type} {k : Sink P} {s : Scanner P}

def passAll (k : Sink P) (xs : List UInt8) (out : P) : P := xs.foldl (fun p c => k.fn c p) out

def emitAll (k : Sink P) (xs : List UInt8) (s : Scanner P) : Scanner P :=
  xs.foldl (fun s c => s.emit k c) s

def setWidth (n : ℕ) (s : Scanner P) : Scanner P := { s with givenWd := n }

theorem passAll_append (xs ys : List UInt8) (out : P) :
    passAll k (xs ++ ys) out = passAll k ys (passAll k xs out) := List.foldl_append

theorem emitAll_append (xs ys : List UInt8) (s : Scanner P) :
    emitAll k (xs ++ ys) s = emitAll k ys (emitAll k xs s) := List.foldl_append

theorem emitAll_eq (xs : List UInt8) (hcount : s.count < wordSize) :
    emitAll k xs s = { s with out := passAll k xs s.out, count := wadd s.count xs.length } := by
  induction xs using List.reverseRecOn with
  | nil =>
    rw [List.length_nil, wadd_of_lt (by omega)]
    rfl
  | append_singleton xs c ih =>
    have hwadd : wadd (wadd s.count xs.length) 1 = wadd s.count (xs ++ [c]).length := by
      rw [List.length_append, List.length_singleton]
      unfold wadd
      rw [wordSize_eq]
      omega
    rw [emitAll_append, ih, passAll_append, ← hwadd]
    rfl

@[simp] theorem emitAll_out (xs : List UInt8) (s : Scanner P) :
    (emitAll k xs s).out = passAll k xs s.out := by
  induction xs generalizing s with
  | nil => rfl
  | cons c xs ih => exact ih (s.emit k c)

theorem emitAll_frame (xs : List UInt8) (s : Scanner P) :
    (emitAll k xs s).fmt = s.fmt ∧ (emitAll k xs s).state = s.state ∧ (emitAll k xs s).flags = s.flags ∧
      (emitAll k xs s).givenWd = s.givenWd ∧ (emitAll k xs s).args = s.args := by
  induction xs generalizing s with
  | nil => exact ⟨rfl, rfl, rfl, rfl, rfl⟩
  | cons c xs ih => exact ih (s.emit k c)

@[simp] theorem emitAll_flags (xs : List UInt8) (s : Scanner P) : (emitAll k xs s).flags = s.flags :=
  (emitAll_frame xs s).2.2.1

@[simp] theorem emitAll_givenWd (xs : List UInt8) (s : Scanner P) :
    (emitAll k xs s).givenWd = s.givenWd := (emitAll_frame xs s).2.2.2.1

theorem emitAll_setWidth (xs : List UInt8) (n : ℕ) (s : Scanner P) :
    emitAll k xs (setWidth n s) = setWidth n (emitAll k xs s) := by
  induction xs generalizing s with
  | nil => rfl
  | cons c xs ih => exact ih (s.emit k c)

section Padding
variable {c : Scanner P → Bool} {b : Scanner P → Option (Scanner P)} {x : UInt8} {f : Flags} {a : ℕ}

theorem padLoop (hc : ∀ s, c s = true ↔ a < s.givenWd) (hb : ∀ s, s.flags = f → b s = some (s.pad k x))
    {fuel : ℕ} (hf : s.flags = f) (hfuel : s.givenWd - a < fuel) :
    whileLoop c b fuel s =
      some (setWidth (min s.givenWd a) (emitAll k (List.replicate (s.givenWd - a) x) s)) := by
  -- on the number of characters still to be padded
  induction hn : s.givenWd - a generalizing s fuel with
  | zero =>
    obtain ⟨fuel, rfl⟩ := exists_fuel hfuel
    have hstop : c s = false := by
      rw [← Bool.not_eq_true, hc]
      omega
    rw [whileLoop_stop hstop, Nat.min_eq_left (by omega)]
    rfl
  | succ n ih =>
    obtain ⟨fuel, rfl⟩ := exists_fuel hfuel
    have hpad : s.pad k x = setWidth (s.givenWd - 1) (s.emit k x) := rfl
    have hwidth : (s.pad k x).givenWd = s.givenWd - 1 := rfl
    rw [whileLoop_pass ((hc s).mpr (by omega)) (hb s hf)]
    have hrest := @ih (s.pad k x) fuel hf (by rw [hwidth]; omega) (by rw [hwidth]; omega)
    rw [hrest, hpad, emitAll_setWidth, List.replicate_succ]
    have hmin : min (s.givenWd - 1) a = min s.givenWd a := by omega
    change some (setWidth (min (s.givenWd - 1) a) (emitAll k _ (s.emit k x))) = _
    rw [hmin]
    rfl

theorem padLeft_eq {fuel actualWd : ℕ} (hfuel : s.givenWd < fuel) :
    padLeft k fuel actualWd s = some (setWidth (min s.givenWd actualWd)
      (emitAll k (List.replicate (s.givenWd - actualWd)
        (if s.flags.prLZ then ascii '0' else ascii ' ')) s)) :=
  padLoop (f := s.flags) (fun _ => decide_eq_true_iff) (fun u hu => by rw [hu]) rfl (by omega)

theorem padRight_eq {fuel : ℕ} (hfuel : s.givenWd < fuel) :
    padRight k fuel s = some (setWidth 0 (emitAll k (List.replicate s.givenWd (ascii ' ')) s)) := by
  have h := padLoop (k := k) (s := s) (x := ascii ' ') (f := s.flags) (a := 0)
    (c := fun s => s.givenWd ≠ 0) (b := fun s => some (s.pad k (ascii ' ')))
    (fun u => by rw [decide_eq_true_iff, Nat.pos_iff_ne_zero]) (fun _ _ => rfl) rfl (by omega)
  rw [Nat.min_zero, Nat.sub_zero] at h
  exact h

end Padding

section Body
variable {w : Where} {xs : List UInt8} {fuel : ℕ}

/-- The characters at `where` are `xs`, as long as the output is a part of `text` further. -/
def Stable (k : Sink P) (w : Where) (xs text : List UInt8) (out : P) : Prop :=
  ∀ ys, ys <+: text → ∀ i ≤ xs.length, w.byte k (passAll k ys out) i = xs.getD i 0

theorem getD_nonzero {i : ℕ} (hxs : ∀ c ∈ xs, c ≠ 0) : xs.getD i 0 ≠ 0 ↔ i < xs.length := by
  constructor
  · intro h
    by_contra hge
    exact h (List.getD_eq_default _ _ (Nat.le_of_not_lt hge))
  · intro h
    rw [List.getD_eq_getElem _ _ h]
    exact hxs _ (List.getElem_mem h)

theorem strlen_eq {out : P} (hxs : ∀ c ∈ xs, c ≠ 0) (hlen : xs.length < wordSize)
    (hw : ∀ i ≤ xs.length, w.byte k out i = xs.getD i 0) (hfuel : xs.length < fuel) :
    strlen k fuel out w = some xs.length := by
  obtain ⟨n, hrun, hend⟩ := whileLoop_total (k := xs.length) (s := 0)
    (c := fun i => w.byte k out i ≠ 0) (b := fun i => some (wadd i 1))
    (fun left i => i + left = xs.length)
    (fun left i hi => by
      refine ⟨decide_eq_true (p := w.byte k out i ≠ 0) ?_, wadd i 1, rfl, ?_⟩
      · rw [hw i (by omega), getD_nonzero hxs]
        omega
      · rw [wadd_of_lt (by omega)]
        omega)
    (fun i hi => by
      rw [decide_eq_false_iff_not, hw i (by omega), getD_nonzero hxs]
      omega)
    (Nat.zero_add _)
  have hn : n = xs.length := hend
  rw [strlen, whileLoop_mono (by omega) hrun, hn]

theorem emitWhere_rest {pre suf : List UInt8} (hxs : ∀ c ∈ pre ++ suf, c ≠ 0)
    (hlen : (pre ++ suf).length < wordSize) (hw : Stable k w (pre ++ suf) (pre ++ suf) s.out)
    (hfuel : suf.length < fuel) :
    whileLoop (w.more k) (fun t => some (w.emitNext k t)) fuel (pre.length, emitAll k pre s) =
      some ((pre ++ suf).length, emitAll k (pre ++ suf) s) := by
  -- on the characters that are left; those of `pre` have gone out
  induction suf generalizing pre fuel with
  | nil =>
    obtain ⟨fuel, rfl⟩ := exists_fuel hfuel
    rw [List.append_nil] at hw hxs ⊢
    have hstop : w.more k (pre.length, emitAll k pre s) = false := by
      refine decide_eq_false ?_
      rw [emitAll_out, hw pre (List.prefix_refl _) _ le_rfl, getD_nonzero hxs]
      exact Nat.lt_irrefl _
    exact whileLoop_stop hstop fuel
  | cons c suf ih =>
    obtain ⟨fuel, rfl⟩ := exists_fuel hfuel
    have hlt : pre.length < (pre ++ c :: suf).length := by
      rw [List.length_append, List.length_cons]
      omega
    have hbyte : w.byte k (emitAll k pre s).out pre.length = c := by
      rw [emitAll_out, hw pre (List.prefix_append _ _) _ hlt.le, List.getD_eq_getElem _ _ hlt,
        List.getElem_append_right le_rfl]
      simp
    have hsplit : pre ++ c :: suf = (pre ++ [c]) ++ suf := by simp
    have hmore : w.more k (pre.length, emitAll k pre s) = true := by
      refine decide_eq_true ?_
      rw [hbyte]
      exact hxs c (by simp)
    have hpass : w.emitNext k (pre.length, emitAll k pre s) =
        ((pre ++ [c]).length, emitAll k (pre ++ [c]) s) := by
      rw [Where.emitNext, hbyte, wadd_of_lt (by omega), List.length_append, emitAll_append]
      rfl
    rw [whileLoop_pass (b := fun t => some (w.emitNext k t)) hmore (congrArg some hpass), hsplit]
    rw [hsplit] at hxs hlen hw
    exact ih hxs hlen hw (Nat.lt_of_succ_lt_succ hfuel)

theorem emitWhere_eq (hxs : ∀ c ∈ xs, c ≠ 0) (hlen : xs.length < wordSize)
    (hw : Stable k w xs xs s.out) (hfuel : xs.length < fuel) :
    emitWhere k fuel w s = some (xs.length, emitAll k xs s) :=
  @emitWhere_rest _ k s w fuel [] xs hxs hlen hw hfuel

/-- What `EMIT2` adds to the sign that `EMIT` may have emitted. -/
def emit2Text (f : Flags) (width actualWd : ℕ) (xs : List UInt8) : List UInt8 :=
  (if f.prLJ then [] else List.replicate (width - actualWd) (if f.prLZ then ascii '0' else ascii ' ')) ++
    ((if f.prWS && !f.prLZ then [ascii '-'] else []) ++
      (xs ++ if f.prLJ then List.replicate (width - actualWd) (ascii ' ') else []))

theorem Stable.rest {out : P} {ys zs : List UInt8} (h : Stable k w xs (ys ++ zs) out) :
    Stable k w xs zs (passAll k ys out) := by
  intro us hus i hi
  rw [← passAll_append]
  exact h _ ((List.prefix_append_right_inj ys).mpr hus) i hi

theorem Stable.of_prefix {out : P} {ys zs : List UInt8} (h : Stable k w xs zs out) (hp : ys <+: zs) :
    Stable k w xs ys out := fun us hus => h us (hus.trans hp)

theorem emit_if (b : Bool) (x : UInt8) (s : Scanner P) :
    (if b then s.emit k x else s) = emitAll k (if b then [x] else []) s := by
  cases b <;> rfl

theorem restWidth_eq (actualWd : ℕ) (s : Scanner P) :
    s.restWidth actualWd = setWidth (s.givenWd - actualWd) s := by
  have hwidth : (if s.givenWd < actualWd then 0 else s.givenWd - actualWd) = s.givenWd - actualWd := by
    split_ifs <;> omega
  rw [Scanner.restWidth, hwidth]
  rfl

theorem emit2_eq {actualWd : ℕ} (hxs : ∀ c ∈ xs, c ≠ 0) (hlen : xs.length < wordSize)
    (hw : Stable k w xs (emit2Text s.flags s.givenWd actualWd xs) s.out) (hlong : xs.length < fuel)
    (hwide : s.givenWd < fuel) :
    emit2 k fuel w actualWd s =
      some (setWidth 0 (emitAll k (emit2Text s.flags s.givenWd actualWd xs) s)) := by
  unfold emit2Text at hw ⊢
  generalize hleft : (if s.flags.prLJ then [] else List.replicate (s.givenWd - actualWd)
    (if s.flags.prLZ then ascii '0' else ascii ' ')) = left at hw ⊢
  generalize hsign : (if s.flags.prWS && !s.flags.prLZ then [ascii '-'] else []) = sign at hw ⊢
  generalize hright : (if s.flags.prLJ then List.replicate (s.givenWd - actualWd) (ascii ' ')
    else []) = right at hw ⊢
  -- the width that is left after the padding on the left
  obtain ⟨n, hfirst, hn, hnfuel⟩ : ∃ n, rightJustify k fuel actualWd s =
      some (setWidth n (emitAll k left s)) ∧ List.replicate (n - actualWd) (ascii ' ') = right ∧
        n < fuel := by
    rw [← hleft, ← hright, rightJustify]
    cases hlj : s.flags.prLJ with
    | true => exact ⟨s.givenWd, rfl, rfl, hwide⟩
    | false =>
      refine ⟨min s.givenWd actualWd, padLeft_eq hwide, ?_, by omega⟩
      rw [show min s.givenWd actualWd - actualWd = 0 by omega]
      rfl
  have hstable : Stable k w xs xs (emitAll k sign (setWidth n (emitAll k left s))).out := by
    rw [emitAll_setWidth]
    change Stable k w xs xs (emitAll k sign (emitAll k left s)).out
    rw [emitAll_out, emitAll_out]
    exact hw.rest.rest.of_prefix (List.prefix_append _ _)
  have hbody := emitWhere_eq hxs hlen hstable hlong
  have hflags : (setWidth n (emitAll k left s)).flags = s.flags := emitAll_flags left s
  simp only [emit2, Option.bind_eq_bind, hfirst, Option.bind_some, emit_if, hflags, hsign, hbody]
  rw [restWidth_eq, emitAll_givenWd, emitAll_givenWd]
  have hrest : (setWidth ((setWidth n (emitAll k left s)).givenWd - actualWd)
      (emitAll k xs (emitAll k sign (setWidth n (emitAll k left s))))).givenWd = n - actualWd := rfl
  rw [padRight_eq (by omega), hrest, hn, emitAll_setWidth, emitAll_append, emitAll_append, emitAll_append,
    emitAll_setWidth, emitAll_setWidth, emitAll_setWidth]
  rfl

end Body

section Fields
variable {w : Where} {xs : List UInt8} {fuel : ℕ}

/-- The emission code lays a field out, whichever place the sign is emitted in. -/
theorem layout_eq (f : Flags) (width : ℕ) (xs : List UInt8) :
    (if f.prWS && f.prLZ then [ascii '-'] else []) ++
      emit2Text f width (if f.prWS then xs.length + 1 else xs.length) xs =
        layout f.prLJ f.prLZ f.prWS width xs := by
  cases hlj : f.prLJ <;> cases hlz : f.prLZ <;> cases hws : f.prWS <;>
    simp [emit2Text, layout, hlj, hlz, hws]

theorem emit_eq (hxs : ∀ c ∈ xs, c ≠ 0) (hlen : xs.length < wordSize)
    (hsign : s.flags.prWS = true → xs.length + 1 < wordSize)
    (hw : Stable k w xs (layout s.flags.prLJ s.flags.prLZ s.flags.prWS s.givenWd xs) s.out)
    (hlong : xs.length < fuel) (hwide : s.givenWd < fuel) :
    emit k fuel w s = some (setWidth 0 (emitAll k
      (layout s.flags.prLJ s.flags.prLZ s.flags.prWS s.givenWd xs) s)) := by
  have hstrlen : strlen k fuel s.out w = some xs.length :=
    strlen_eq hxs hlen (hw [] List.nil_prefix) hlong
  have hactual : (if s.flags.prWS then wadd xs.length 1 else xs.length) =
      if s.flags.prWS then xs.length + 1 else xs.length := by
    split_ifs with hws
    · exact wadd_of_lt (hsign hws)
    · rfl
  rw [← layout_eq] at hw ⊢
  simp only [emit, Option.bind_eq_bind, hstrlen, Option.bind_some, hactual, emit_if]
  generalize (if s.flags.prWS then xs.length + 1 else xs.length) = actualWd at hw ⊢
  generalize (if s.flags.prWS && s.flags.prLZ then [ascii '-'] else []) = sign at hw ⊢
  have hrest := hw.rest
  rw [emit2_eq (s := emitAll k sign s) hxs hlen
    (by rw [emitAll_flags, emitAll_givenWd, emitAll_out]; exact hrest) hlong
    (by rw [emitAll_givenWd]; exact hwide), emitAll_flags, emitAll_givenWd, emitAll_append]

theorem stable_buf (xs text : List UInt8) (out : P) : Stable k (.buf xs) xs text out :=
  fun _ _ _ _ => rfl

theorem emit2_char {c : UInt8} (hc : c ≠ 0) (hws : s.flags.prWS = false) (hlz : s.flags.prLZ = false)
    (hlong : 1 < fuel) (hwide : s.givenWd < fuel) : emit2 k fuel (.buf [c]) 1 s =
      some (setWidth 0 (emitAll k (layout s.flags.prLJ false false s.givenWd [c]) s)) := by
  have hlayout := layout_eq s.flags s.givenWd [c]
  rw [hws, hlz] at hlayout
  have htext : emit2Text s.flags s.givenWd 1 [c] = layout s.flags.prLJ false false s.givenWd [c] := hlayout
  have hlen : [c].length < wordSize := by
    rw [List.length_singleton, wordSize_eq]
    decide
  have hnonzero : ∀ d ∈ [c], d ≠ 0 := by simpa using hc
  rw [emit2_eq hnonzero hlen (stable_buf _ _ _) hlong hwide, htext]

end Fields

section Digits

theorem digitChar_eq (caps : Bool) {d : ℕ} (hd : d < 16) : digitChar caps d = digit caps d := by
  revert d
  cases caps <;> decide

theorem digit_ne_zero (caps : Bool) {d : ℕ} (hd : d < 16) : digit caps d ≠ 0 := by
  revert d
  cases caps <;> decide

theorem digits_step (caps : Bool) {radix n : ℕ} (hradix : 1 < radix) (hn : n / radix ≠ 0) :
    digits caps radix n = digits caps radix (n / radix) ++ [digit caps (n % radix)] := by
  have hpos : 0 < n := Nat.pos_of_ne_zero fun h => hn (by rw [h, Nat.zero_div])
  rw [digits, if_neg hpos.ne', digits, if_neg hn, Nat.digits_def' hradix hpos, List.map_cons,
    List.reverse_cons]

theorem digits_last (caps : Bool) {radix n : ℕ} (hradix : 1 < radix) (hn : n / radix = 0) :
    digits caps radix n = [digit caps (n % radix)] := by
  have hlt : n < radix := by
    by_contra hge
    have hdiv := Nat.div_pos (Nat.le_of_not_lt hge) (by omega)
    omega
  rw [Nat.mod_eq_of_lt hlt, digits]
  split_ifs with hzero
  · rw [hzero]
    cases caps <;> rfl
  · rw [Nat.digits_of_lt radix n hzero hlt]
    rfl

theorem convert_loop {radix : ℕ} (caps : Bool) (hradix : 1 < radix) (hsmall : radix ≤ 16) {num fuel : ℕ}
    (acc : List UInt8) (hfuel : num < fuel) :
    doLoop (fun t => some (convertDigit radix caps t)) (fun t => t.1 ≠ 0) fuel (num, acc) =
      some (0, digits caps radix num ++ acc) := by
  induction num using Nat.strong_induction_on generalizing acc fuel with
  | _ num ih =>
    obtain ⟨fuel, rfl⟩ := exists_fuel hfuel
    have hdigit : digitChar caps (num % radix) = digit caps (num % radix) :=
      digitChar_eq caps ((Nat.mod_lt _ (by omega)).trans_le hsmall)
    have hpass : some (convertDigit radix caps (num, acc)) =
        some (num / radix, digit caps (num % radix) :: acc) := by
      rw [convertDigit, hdigit]
    by_cases hdone : num / radix = 0
    · rw [doLoop_stop (b := fun t => some (convertDigit radix caps t)) hpass (by simp [hdone]) fuel,
        digits_last caps hradix hdone, hdone]
      rfl
    · have hlt : num / radix < num := Nat.div_lt_self (by
        rcases Nat.eq_zero_or_pos num with rfl | hpos
        · exact absurd (Nat.zero_div radix) hdone
        · exact hpos) hradix
      rw [doLoop_pass (b := fun t => some (convertDigit radix caps t)) hpass (by simp [hdone]) fuel,
        ih _ hlt _ (by omega), digits_step caps hradix hdone, List.append_assoc]
      rfl

theorem convert_eq {radix num fuel : ℕ} (caps : Bool) (hradix : 1 < radix) (hsmall : radix ≤ 16)
    (hfuel : num < fuel) : convert fuel radix caps num = some (digits caps radix num) := by
  rw [convert, convert_loop caps hradix hsmall [] hfuel, Option.map_some, List.append_nil]

theorem digits_nonzero {radix n : ℕ} (caps : Bool) (hradix : 1 < radix) (hsmall : radix ≤ 16) :
    ∀ c ∈ digits caps radix n, c ≠ 0 := by
  intro c hc
  unfold digits at hc
  split_ifs at hc
  · rw [List.mem_singleton.mp hc]
    decide
  · obtain ⟨d, hd, rfl⟩ := List.mem_map.mp (List.mem_reverse.mp hc)
    exact digit_ne_zero caps ((Nat.digits_lt_base hradix hd).trans_le hsmall)

theorem digits_length {radix n : ℕ} (caps : Bool) (hradix : 8 ≤ radix) (hn : n < wordSize) :
    (digits caps radix n).length ≤ 11 := by
  unfold digits
  split_ifs
  · decide
  · rw [List.length_reverse, List.length_map, Nat.digits_length_le_iff (by omega)]
    have hpow : 8 ^ 11 ≤ radix ^ 11 := Nat.pow_le_pow_left hradix 11
    rw [wordSize_eq] at hn
    omega

end Digits

section Conversion
variable {slots : ℕ → ℕ} {d : Directive} {a : Arg} {fuel : ℕ}

/-- The flags that the letters of a directive set before its conversion. -/
def directiveFlags (d : Directive) : Flags where
  prLJ := d.left
  prLZ := d.zero
  pr32 := Modifier.long ∈ d.modifiers
  pr16 := Modifier.short ∈ d.modifiers
  prFP := Modifier.far ∈ d.modifiers

theorem emitAll_reset (xs : List UInt8) (s : Scanner P) : (emitAll k xs s).reset = emitAll k xs s.reset := by
  induction xs generalizing s with
  | nil => rfl
  | cons c xs ih => exact ih (s.emit k c)

theorem bits_cases (d : Directive) :
    d.bits = 16 ∧ Modifier.long ∉ d.modifiers ∧ Modifier.short ∈ d.modifiers ∨
      d.bits = 32 ∧ (Modifier.long ∈ d.modifiers ∨ Modifier.short ∉ d.modifiers) := by
  unfold Directive.bits
  split_ifs with h
  · exact Or.inl ⟨rfl, h.2, h.1⟩
  · exact Or.inr ⟨rfl, by tauto⟩

/-- The scanner has read the directive up to its conversion. -/
structure Ready (k : Sink P) (slots : ℕ → ℕ) (d : Directive) (a : Arg) (s : Scanner P) : Prop where
  flags : s.flags = directiveFlags d
  width : s.givenWd = widthValue d.width
  letter : s.char k = d.conversion.letter
  slot : slots s.args = a.slot
  slot_lt : a.slot < wordSize

theorem loadNum_eq (hflags : s.flags = { directiveFlags d with
      prSG := d.conversion.signed, prCA := d.conversion.caps }) (hslot : slots s.args = a.slot) :
    loadNum slots s =
      if d.bits = 16 then
        if d.conversion.signed then signExtend (a.slot % 2 ^ 16) else a.slot % 2 ^ 16
      else a.slot := by
  unfold loadNum
  rw [hflags, hslot]
  rcases bits_cases d with ⟨hbits, hlong, hshort⟩ | ⟨hbits, hlong | hshort⟩
  · simp [directiveFlags, hbits, hlong, hshort]
  · simp [directiveFlags, hbits, hlong]
  · simp [directiveFlags, hbits, hshort]

theorem loadNum_value {num : ℕ} (ha : a.slot < wordSize)
    (hnum : num = if d.bits = 16 then
        if d.conversion.signed then signExtend (a.slot % 2 ^ 16) else a.slot % 2 ^ 16
      else a.slot) :
    (d.conversion.signed && decide (2 ^ 31 ≤ num)) = decide (d.value a < 0) ∧
      (if d.value a < 0 then wsub 0 num else num) = (d.value a).natAbs ∧ num < wordSize := by
  unfold signExtend at hnum
  unfold Directive.value wsub
  rw [wordSize_eq] at *
  have hbits : d.bits = 16 ∨ d.bits = 32 := (bits_cases d).imp And.left And.left
  rcases hbits with hbits | hbits <;> cases hsigned : d.conversion.signed <;>
    simp only [hbits, hsigned] at hnum ⊢ <;> norm_num at hnum ⊢
  all_goals split_ifs at hnum ⊢ <;> omega

def written (k : Sink P) (d : Directive) (a : Arg) (s : Scanner P) : Scanner P :=
  emitAll k (d.render a) (s.takeArg false).reset

theorem reset_emitted (xs : List UInt8) (u : Scanner P) :
    (setWidth 0 (emitAll k xs u)).reset = emitAll k xs u.reset := by
  rw [← emitAll_reset]
  rfl

theorem reset_written (xs : List UInt8) {u : Scanner P} (h : u.reset = (s.takeArg false).reset) :
    (setWidth 0 (emitAll k xs u)).reset = emitAll k xs (s.takeArg false).reset := by
  rw [reset_emitted, h]

theorem flag_sign_off (h : s.flags.prWS = false) : s.flag (fun f => { f with prWS := false }) = s := by
  obtain ⟨fmt, state, flags, count, givenWd, args, out⟩ := s
  obtain ⟨prLJ, prCA, prSG, pr32, pr64, pr16, prWS, prLZ, prFP⟩ := flags
  cases h
  rfl

/-- A number goes out as a field: its magnitude in the radix, behind its sign. -/
theorem doNum_emits {radix : ℕ} {negative : Bool} (hws : s.flags.prWS = false)
    (hlt : loadNum slots s < wordSize) (hwide : s.givenWd < wordSize) (hradix : 8 ≤ radix)
    (hsmall : radix ≤ 16) (hfuel : wordSize < fuel)
    (hnegative : (s.flags.prSG && decide (2 ^ 31 ≤ loadNum slots s)) = negative) :
    doNum k slots fuel radix s = some (setWidth 0 (emitAll k
      (layout s.flags.prLJ s.flags.prLZ negative s.givenWd (digits s.flags.prCA radix
        (if negative then wsub 0 (loadNum slots s) else loadNum slots s)))
      ((s.takeArg (!s.flags.pr32 && s.flags.pr64)).flag fun f => { f with prWS := negative }))) := by
  obtain ⟨u, hu⟩ : ∃ u, u = s.takeArg (!s.flags.pr32 && s.flags.pr64) := ⟨_, rfl⟩
  have huflags : u.flags = s.flags := by
    rw [hu]
    rfl
  have hsign : (if negative then u.flag fun f => { f with prWS := true } else u) =
      u.flag fun f => { f with prWS := negative } := by
    cases negative with
    | true => rfl
    | false => exact (flag_sign_off (huflags ▸ hws)).symm
  obtain ⟨v, hv⟩ : ∃ v, v = u.flag fun f => { f with prWS := negative } := ⟨_, rfl⟩
  have hvflags : v.flags = { s.flags with prWS := negative } := by
    rw [hv, ← huflags]
    rfl
  have hvwide : v.givenWd = s.givenWd := by
    rw [hv, hu]
    rfl
  generalize hnum : (if negative then wsub 0 (loadNum slots s) else loadNum slots s) = num
  have hnum_lt : num < wordSize := by
    rw [← hnum]
    split_ifs
    · exact wsub_lt _ _
    · exact hlt
  have hconvert := @convert_eq radix num fuel s.flags.prCA (by omega) hsmall (by omega)
  have hcaps : v.flags.prCA = s.flags.prCA := by rw [hvflags]
  have hlj : v.flags.prLJ = s.flags.prLJ := by rw [hvflags]
  have hlz : v.flags.prLZ = s.flags.prLZ := by rw [hvflags]
  have hvws : v.flags.prWS = negative := by rw [hvflags]
  have husg : u.flags.prSG = s.flags.prSG := congrArg Flags.prSG huflags
  have hdo : doNum k slots fuel radix s = emit k fuel (.buf (digits s.flags.prCA radix num)) v := by
    simp only [doNum, Option.bind_eq_bind, ← hu, husg, hnegative, hsign, ← hv, hcaps, hnum, hconvert,
      Option.bind_some]
  have hlength := digits_length s.flags.prCA hradix hnum_lt
  have hwords : 11 + 1 < wordSize := by
    rw [wordSize_eq]
    decide
  have hnonzero := @digits_nonzero radix num s.flags.prCA (by omega) hsmall
  have hemit := @emit_eq _ k v (.buf (digits s.flags.prCA radix num)) _ fuel hnonzero (by omega)
    (fun _ => by omega) (stable_buf _ _ _) (by omega) (by omega)
  rw [hdo, hemit, hlj, hlz, hvws, hvwide, ← hu, ← hv]

theorem Ready.doNum (h : Ready k slots d a s) (hrender : d.render a = layout d.left d.zero (d.value a < 0)
      (widthValue d.width) (digits d.conversion.caps d.conversion.radix (d.value a).natAbs))
    {u : Scanner P} (hu : u = s.flag fun f => { f with
      prSG := d.conversion.signed, prCA := d.conversion.caps }) (hfuel : wordSize < fuel)
    (hwidth : widthValue d.width < wordSize) (hradix : 8 ≤ d.conversion.radix)
    (hsmall : d.conversion.radix ≤ 16) :
    (doNum k slots fuel d.conversion.radix u).map Scanner.reset = some (written k d a s) := by
  have hflags : u.flags = { directiveFlags d with
      prSG := d.conversion.signed, prCA := d.conversion.caps } := by
    rw [hu, ← h.flags]
    rfl
  have hslot : slots u.args = a.slot := by
    rw [hu]
    exact h.slot
  have hgiven : u.givenWd = widthValue d.width := by
    rw [hu]
    exact h.width
  obtain ⟨hnegative, hmagnitude, hlt⟩ := loadNum_value h.slot_lt (loadNum_eq hflags hslot)
  have h64 : (!u.flags.pr32 && u.flags.pr64) = false := by
    rw [hflags]
    exact Bool.and_false _
  have hsg : u.flags.prSG = d.conversion.signed := congrArg Flags.prSG hflags
  have hcaps : u.flags.prCA = d.conversion.caps := congrArg Flags.prCA hflags
  have hlj : u.flags.prLJ = d.left := congrArg Flags.prLJ hflags
  have hlz : u.flags.prLZ = d.zero := congrArg Flags.prLZ hflags
  have hemits := @doNum_emits _ k u slots fuel _ _ (congrArg Flags.prWS hflags) hlt (hgiven ▸ hwidth) hradix
    hsmall hfuel (hsg ▸ hnegative)
  simp only [decide_eq_true_eq, hmagnitude, hlj, hlz, hcaps, hgiven, ← hrender, h64] at hemits
  rw [hemits, Option.map_some, written]
  exact congrArg some (reset_written _ (by rw [hu]; rfl))

structure Fits (k : Sink P) (d : Directive) (a : Arg) (out : P) : Prop where
  width : widthValue d.width < wordSize
  char : d.conversion = .char → UInt8.ofNat a.slot ≠ 0
  string : d.conversion = .string → (∀ c ∈ a.text, c ≠ 0) ∧ a.text.length < wordSize ∧
    Stable k (.str a.slot) a.text (d.render a) out

/-- Characters and strings are never padded with zeros. -/
theorem Ready.textField (h : Ready k slots d a s) {u : Scanner P}
    (hu : u = (s.flag fun f => { f with prLZ := false }).takeArg false) :
    u.flags.prLJ = d.left ∧ u.flags.prLZ = false ∧ u.flags.prWS = false ∧ u.givenWd = widthValue d.width ∧
      u.out = s.out ∧ u.reset = (s.takeArg false).reset := by
  rw [hu]
  exact ⟨congrArg Flags.prLJ h.flags, rfl, congrArg Flags.prWS h.flags, h.width, rfl, rfl⟩

theorem Ready.convertChar_char (h : Ready k slots d a s) (hfits : Fits k d a s.out)
    (hconv : d.conversion = .char) (hfuel : wordSize < fuel) :
    (convertChar k slots fuel s).map Scanner.reset = some (written k d a s) := by
  obtain ⟨u, hu⟩ : ∃ u, u = (s.flag fun f => { f with prLZ := false }).takeArg false := ⟨_, rfl⟩
  obtain ⟨hlj, hlz, hws, hwide, -, hreset⟩ := h.textField hu
  have hwords : 1 < wordSize := by
    rw [wordSize_eq]
    decide
  have hwidth := hfits.width
  have hletter := h.letter
  rw [hconv] at hletter
  have hswitch : convertChar k slots fuel s = emit2 k fuel (.buf [UInt8.ofNat (slots s.args)]) 1 u := by
    unfold convertChar
    rw [hletter, hu]
    rfl
  have hrender : d.render a = layout d.left false false (widthValue d.width) [UInt8.ofNat a.slot] := by
    rw [Directive.render, hconv]
  rw [hswitch, h.slot, emit2_char (hfits.char hconv) hws hlz (by omega) (by omega), hlj, hwide, ← hrender,
    Option.map_some, written]
  exact congrArg some (reset_written _ hreset)

theorem Ready.convertChar_string (h : Ready k slots d a s) (hfits : Fits k d a s.out)
    (hconv : d.conversion = .string) (hfuel : wordSize < fuel) :
    (convertChar k slots fuel s).map Scanner.reset = some (written k d a s) := by
  obtain ⟨u, hu⟩ : ∃ u, u = (s.flag fun f => { f with prLZ := false }).takeArg false := ⟨_, rfl⟩
  obtain ⟨hlj, hlz, hws, hwide, hout, hreset⟩ := h.textField hu
  obtain ⟨hnonzero, hlen, hstable⟩ := hfits.string hconv
  have hwidth := hfits.width
  have hletter := h.letter
  rw [hconv] at hletter
  have hswitch : convertChar k slots fuel s = emit k fuel (.str (slots s.args)) u := by
    unfold convertChar
    rw [hletter, hu]
    rfl
  have hrender : d.render a = layout d.left false false (widthValue d.width) a.text := by
    rw [Directive.render, hconv]
  have hemit := @emit_eq _ k u (.str a.slot) a.text fuel hnonzero hlen
  rw [hlj, hws, hlz, hwide, hout, ← hrender] at hemit
  rw [hswitch, h.slot, hemit (fun hsign => absurd hsign Bool.false_ne_true) hstable (by omega) (by omega),
    Option.map_some, written]
  exact congrArg some (reset_written _ hreset)

/-- The letter of a number fixes its radix, and the flags of its sign and its letters. -/
theorem convertChar_number {conversion : Conversion} (hchar : conversion ≠ .char)
    (hstring : conversion ≠ .string) (hletter : s.char k = conversion.letter) (hsg : s.flags.prSG = false)
    (hca : s.flags.prCA = false) :
    convertChar k slots fuel s = doNum k slots fuel conversion.radix
      (s.flag fun f => { f with prSG := conversion.signed, prCA := conversion.caps }) := by
  unfold convertChar
  rw [hletter]
  obtain ⟨fmt, state, ⟨prLJ, prCA, prSG, pr32, pr64, pr16, prWS, prLZ, prFP⟩, count, givenWd, args, out⟩ := s
  cases hsg
  cases hca
  cases conversion with
  | char => exact absurd rfl hchar
  | string => exact absurd rfl hstring
  | _ => rfl

theorem Ready.scanConversion (h : Ready k slots d a s) (hfits : Fits k d a s.out)
    (hfuel : wordSize < fuel) : scanConversion k slots fuel s = some (written k d a s) := by
  unfold Printf.scanConversion
  have hsg : s.flags.prSG = false := congrArg Flags.prSG h.flags
  have hca : s.flags.prCA = false := congrArg Flags.prCA h.flags
  cases hconv : d.conversion with
  | char => exact h.convertChar_char hfits hconv hfuel
  | string => exact h.convertChar_string hfits hconv hfuel
  | _ =>
    have hrender : d.render a = layout d.left d.zero (d.value a < 0) (widthValue d.width)
        (digits d.conversion.caps d.conversion.radix (d.value a).natAbs) := by
      rw [Directive.render, hconv]
    rw [convertChar_number (by rw [hconv]; decide) (by rw [hconv]; decide) h.letter hsg hca]
    exact h.doNum hrender rfl hfuel hfits.width (by rw [hconv]; decide) (by rw [hconv]; decide)

end Conversion

end Ktux.PrintfEmit
