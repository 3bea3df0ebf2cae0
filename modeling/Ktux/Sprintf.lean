import Ktux.PrintfScan

set_option autoImplicit false

/-!
# `do_printf`, `vsprintf` and `sprintf` against the reference
-/
namespace Ktux.Sprintf
open Words Loops ByteMemory CString Printf FormatReference PrintfEmit PrintfScan

/-- A call that prints through `do_printf`: the address of its format and what it is given. -/
structure Line where
  fmt : ℕ
  items : List Item
  as : List Arg

def Line.text (l : Line) : List UInt8 := render l.items l.as

def Line.slot (l : Line) (n : ℕ) : ℕ := (l.as.getD n ⟨0, []⟩).slot

section DoPrintf
variable {P : Type} {k : Sink P} {slots : ℕ → ℕ} {items : List Item} {as : List Arg} {fmt : ℕ} {out : P}

/-- With enough fuel `do_printf` passes `text` to `fn` and returns `ret`. -/
def Prints (k : Sink P) (slots : ℕ → ℕ) (fmt : ℕ) (out : P) (ret : ℤ) (text : List UInt8) : Prop :=
  ∃ n, ∀ fuel, n ≤ fuel → doPrintf k slots fuel fmt out = some (ret, passAll k text out)

theorem toInt_mod (n : ℕ) : toInt (n % wordSize) = (n : ℤ).bmod wordSize := by
  rw [toInt, Int.bmod_def, wordSize_eq]
  push_cast
  split_ifs <;> omega

theorem start_between (fmt : ℕ) (out : P) :
    (⟨fmt, .awaitingPercent, {}, 0, 0, 0, out⟩ : Scanner P) = between k out fmt 0 [] := by
  rw [between, List.length_nil, Nat.zero_mod]
  rfl

/-- A scan that comes to the NUL is the whole run. -/
theorem Scans.returns {u : Scanner P} (h : Scans k slots (between k out fmt 0 []) u) (hend : u.char k = 0) :
    ∃ n, ∀ fuel, n ≤ fuel → doPrintf k slots fuel fmt out = some (toInt u.count, u.out) := by
  obtain ⟨passes, hloop⟩ := h
  refine ⟨passes + wordSize + 1, fun fuel hfuel => ?_⟩
  obtain ⟨rest, rfl⟩ := Nat.exists_eq_add_of_le hfuel
  have hstop : loop k slots (passes + wordSize + 1 + rest) (wordSize + rest + 1) u = some u := by
    have hcond : decide (u.char k ≠ 0) = false := by
      rw [hend]
      rfl
    exact @whileLoop_stop _ (fun s : Scanner P => s.char k ≠ 0) _ _ hcond _
  have hsplit : passes + wordSize + 1 + rest = passes + (wordSize + rest + 1) := by omega
  have hrun := hloop (passes + wordSize + 1 + rest) (by omega) (wordSize + rest + 1)
  rw [hstop, ← hsplit] at hrun
  unfold doPrintf
  rw [start_between]
  change (loop k slots (passes + wordSize + 1 + rest) (passes + wordSize + 1 + rest) _).map _ = _
  rw [hrun, Option.map_some]

theorem Scans.prints {s : Scanner P} {text : List UInt8}
    (h : Scans k slots (between k out fmt 0 []) (between k out s.fmt s.args text))
    (hend : (between k out s.fmt s.args text).char k = 0) :
    Prints k slots fmt out ((text.length : ℤ).bmod wordSize) text := by
  obtain ⟨n, hreturns⟩ := Scans.returns h hend
  refine ⟨n, fun fuel hfuel => ?_⟩
  rw [hreturns fuel hfuel, ← toInt_mod]
  rfl

theorem doPrintf_prints (hitems : ∀ i ∈ items, i.WellFormed)
    (hfmt : Readable k out (render items as) fmt (formatText items))
    (hargs : Supplied slots (Readable k out (render items as)) 0 items as) :
    Prints k slots fmt out (((render items as).length : ℤ).bmod wordSize) (render items as) := by
  have hscan := items_scan hitems (List.nil_append _) hfmt hargs
  have hstring := hfmt _ (List.prefix_refl _)
  have hend := hstring.byte le_rfl
  rw [List.getD_eq_default _ _ le_rfl] at hend
  exact Scans.prints (s := ⟨_, .awaitingPercent, {}, 0, 0, _, out⟩) hscan hend

def printLines (k : Sink P) (fuel : ℕ) (lines : List Line) (out : P) : Option P :=
  lines.foldlM (fun out l => (doPrintf k l.slot fuel l.fmt out).map Prod.snd) out

/-- The format and the strings stay as they are while `text` goes out. -/
structure Line.Printable (k : Sink P) (out : P) (text : List UInt8) (l : Line) : Prop where
  wellFormed : ∀ i ∈ l.items, i.WellFormed
  format : Readable k out text l.fmt (formatText l.items)
  args : Supplied l.slot (Readable k out text) 0 l.items l.as

theorem readable_first {xs ys s : List UInt8} {p : ℕ} (h : Readable k out (xs ++ ys) p s) :
    Readable k out xs p s := fun zs hzs => h zs (hzs.trans (List.prefix_append xs ys))

theorem readable_rest {xs ys s : List UInt8} {p : ℕ} (h : Readable k out (xs ++ ys) p s) :
    Readable k (passAll k xs out) ys p s := by
  intro zs hzs
  rw [← passAll_append]
  exact h _ ((List.prefix_append_right_inj xs).mpr hzs)

/-- Lines printed one after the other pass their texts one after the other. -/
theorem printLines_eq {lines : List Line} (h : ∀ l ∈ lines, l.Printable k out (lines.flatMap Line.text)) :
    ∃ n, ∀ fuel, n ≤ fuel → printLines k fuel lines out = some (passAll k (lines.flatMap Line.text) out) := by
  induction lines generalizing out with
  | nil => exact ⟨0, fun _ _ => rfl⟩
  | cons l lines ih =>
    obtain ⟨hfirst, hrest⟩ := List.forall_mem_cons.mp h
    rw [List.flatMap_cons] at hfirst hrest ⊢
    obtain ⟨n, hn⟩ := doPrintf_prints hfirst.wellFormed (readable_first hfirst.format)
      (hfirst.args.mono fun _ _ => readable_first)
    have hlater : ∀ l' ∈ lines, l'.Printable k (passAll k l.text out) (lines.flatMap Line.text) := by
      intro l' hl'
      obtain ⟨hwell, hformat, hargs⟩ := hrest l' hl'
      exact ⟨hwell, readable_rest hformat, hargs.mono fun _ _ => readable_rest⟩
    obtain ⟨n', hn'⟩ := ih hlater
    refine ⟨max n n', fun fuel hfuel => ?_⟩
    have hline := hn fuel ((Nat.le_max_left n n').trans hfuel)
    have hlines := hn' fuel ((Nat.le_max_right n n').trans hfuel)
    rw [passAll_append, ← hlines, printLines, List.foldlM_cons, hline]
    rfl

end DoPrintf

section Buffer
variable {m : ByteMem} {buffer : ℕ}

theorem update_blit (dst n : ℕ) (f : ℕ → UInt8) (m : ByteMem) :
    Function.update (blit dst n f m) (dst + n) (f n) = blit dst (n + 1) f m := by
  rw [← blit_blit, blit_one]
  rfl

def store (buffer : ℕ) (xs : List UInt8) (m : ByteMem) : ByteMem :=
  blit buffer xs.length (fun i => xs.getD i 0) m

theorem store_append (xs : List UInt8) (c : UInt8) (m : ByteMem) :
    store buffer (xs ++ [c]) m = Function.update (store buffer xs m) (buffer + xs.length) c := by
  have hlast : (xs ++ [c]).getD xs.length 0 = c := by simp
  have hprefix : ∀ i < xs.length, (xs ++ [c]).getD i 0 = xs.getD i 0 :=
    fun i hi => List.getD_append _ _ _ _ hi
  have hstep := update_blit buffer xs.length (fun i => (xs ++ [c]).getD i 0) m
  rw [blit_congr hprefix, hlast] at hstep
  rw [store, List.length_append, List.length_singleton, ← hstep]
  rfl

theorem passAll_store (xs : List UInt8) (m : ByteMem) (hroom : buffer + xs.length < wordSize) :
    passAll vsprintfSink xs (m, buffer) = (store buffer xs m, buffer + xs.length) := by
  induction xs using List.reverseRecOn with
  | nil =>
    have hempty : store buffer [] m = m := blit_zero buffer _ m
    rw [hempty]
    rfl
  | append_singleton xs c ih =>
    rw [List.length_append, List.length_singleton] at hroom
    rw [passAll_append, ih (by omega), store_append, List.length_append, List.length_singleton,
      ← Nat.add_assoc, ← wadd_of_lt (a := buffer + xs.length) (by omega)]
    rfl

theorem store_outside {xs : List UInt8} {a : ℕ} (h : a < buffer ∨ buffer + xs.length ≤ a) :
    store buffer xs m a = m a := blit_outside h

theorem store_string {xs : List UInt8} (hxs : ∀ c ∈ xs, c ≠ 0) (hroom : buffer + xs.length < wordSize) :
    StringAt (store buffer (xs ++ [0]) m) buffer xs := by
  refine ⟨ListAt.of_getElem fun i hi => ?_, hxs, hroom⟩
  rw [store, blit_inside hi, List.getD_eq_getElem _ _ hi]

/-- `n` bytes and a NUL from `p` on lie outside the `len` bytes from `buffer` on. -/
def Apart (buffer len p n : ℕ) : Prop := p + n < buffer ∨ buffer + len ≤ p

theorem readable_store {text xs : List UInt8} {p : ℕ} (hroom : buffer + text.length < wordSize)
    (hstring : StringAt m p xs) (hapart : Apart buffer text.length p xs.length) :
    Readable vsprintfSink (m, buffer) text p xs := by
  intro ys hys
  have hlen := hys.length_le
  rw [passAll_store ys m (by omega)]
  refine hstring.congr fun a hlow hhigh => store_outside ?_
  unfold Apart at hapart
  omega

theorem layout_nonzero (left zero negative : Bool) (width : ℕ) {body : List UInt8}
    (hbody : ∀ c ∈ body, c ≠ 0) : ∀ c ∈ layout left zero negative width body, c ≠ 0 := by
  have hsign : ∀ c ∈ if negative then [ascii '-'] else [], c ≠ 0 := by
    cases negative <;> exact nonzero_of_not_mem (by decide)
  have hfill : ∀ (n : ℕ) (x : Char), ascii x ≠ 0 → ∀ c ∈ List.replicate n (ascii x), c ≠ 0 := by
    intro n x hx c hc
    rw [List.eq_of_mem_replicate hc]
    exact hx
  simp only [layout]
  generalize (if negative then [ascii '-'] else []) = sign at hsign ⊢
  have hspace := hfill (width - (sign ++ body).length) ' ' (by decide)
  have hzero := hfill (width - (sign ++ body).length) '0' (by decide)
  have hnumber := List.forall_mem_append.mpr ⟨hsign, hbody⟩
  split_ifs
  · exact List.forall_mem_append.mpr ⟨hnumber, hspace⟩
  · exact List.forall_mem_append.mpr ⟨List.forall_mem_append.mpr ⟨hsign, hzero⟩, hbody⟩
  · exact List.forall_mem_append.mpr ⟨hspace, hnumber⟩

theorem directive_nonzero (d : Directive) (a : Arg) (hchar : d.conversion = .char → UInt8.ofNat a.slot ≠ 0)
    (hstring : d.conversion = .string → ∀ c ∈ a.text, c ≠ 0) : ∀ c ∈ d.render a, c ≠ 0 := by
  unfold Directive.render
  cases hconv : d.conversion with
  | char => exact layout_nonzero _ _ _ _ (by simpa using hchar hconv)
  | string => exact layout_nonzero _ _ _ _ (hstring hconv)
  | _ => exact layout_nonzero _ _ _ _ (digits_nonzero _ (by decide) (by decide))

theorem render_nonzero {slots : ℕ → ℕ} {readable : ℕ → List UInt8 → Prop} {items : List Item} {as : List Arg}
    {n : ℕ} (hitems : ∀ i ∈ items, i.WellFormed) (hargs : Supplied slots readable n items as)
    (hreadable : ∀ p xs, readable p xs → ∀ c ∈ xs, c ≠ 0) : ∀ c ∈ render items as, c ≠ 0 := by
  induction items generalizing as n with
  | nil => exact fun c hc => absurd hc List.not_mem_nil
  | cons item items ih =>
    obtain ⟨hitem, hrest⟩ := List.forall_mem_cons.mp hitems
    cases item with
    | literal c => exact List.forall_mem_cons.mpr ⟨hitem.1, ih hrest hargs⟩
    | percent => exact List.forall_mem_cons.mpr ⟨by decide, ih hrest hargs⟩
    | directive d =>
      cases as with
      | nil => exact hargs.elim
      | cons a as =>
        obtain ⟨⟨-, -, hchar, hstring⟩, hargs⟩ := hargs
        refine List.forall_mem_append.mpr ⟨?_, ih hrest hargs⟩
        exact directive_nonzero d a hchar fun hconv => hreadable _ _ (hstring hconv)

/-- `text` and one NUL at `buffer`, and every other byte as it was. -/
structure Written (m m' : ByteMem) (buffer : ℕ) (text : List UInt8) : Prop where
  string : StringAt m' buffer text
  frame : ∀ a, a < buffer ∨ buffer + text.length < a → m' a = m a

theorem vsprintf_writes {slots : ℕ → ℕ} {items : List Item} {as : List Arg} {fmt : ℕ}
    (hitems : ∀ i ∈ items, i.WellFormed) (hroom : buffer + (render items as).length < wordSize)
    (hfmt : StringAt m fmt (formatText items))
    (hapart : Apart buffer (render items as).length fmt (formatText items).length)
    (hargs : Supplied slots (fun p xs => StringAt m p xs ∧ Apart buffer (render items as).length p xs.length)
      0 items as) :
    ∃ n m', Written m m' buffer (render items as) ∧ ∀ fuel, n ≤ fuel → vsprintf fuel buffer fmt slots m =
      some (((render items as).length : ℤ).bmod wordSize, m') := by
  have hnonzero := render_nonzero hitems hargs fun p xs hr => hr.1.nonzero
  have hreadable := hargs.mono fun p xs hr => readable_store hroom hr.1 hr.2
  obtain ⟨n, hprints⟩ := doPrintf_prints hitems (readable_store hroom hfmt hapart) hreadable
  generalize render items as = text at *
  refine ⟨n, store buffer (text ++ [0]) m, ⟨store_string hnonzero hroom, fun a ha => ?_⟩, fun fuel hfuel => ?_⟩
  · refine store_outside ?_
    rw [List.length_append, List.length_singleton]
    omega
  · have hnul : ((buffer + (text.length : ℤ).bmod wordSize) % wordSize).toNat = buffer + text.length := by
      rw [Int.add_emod, Int.bmod_emod, ← Int.add_emod, Int.emod_eq_of_lt (by omega) (by omega)]
      rfl
    rw [vsprintf, hprints fuel hfuel, passAll_store text m hroom, Option.map_some, store_append]
    change some (_, Function.update _ ((buffer + (text.length : ℤ).bmod wordSize) % wordSize).toNat 0) = _
    rw [hnul]

/-- The format means what the reference says. The `int` returned is the length of the text, as far as an
`int` holds it. -/
theorem printf_renders {items : List Item} (hitems : ∀ i ∈ items, i.WellFormed) :
    (∀ {P : Type} (k : Sink P) (slots : ℕ → ℕ) (as : List Arg) (fmt : ℕ) (out : P),
      Readable k out (render items as) fmt (formatText items) →
      Supplied slots (Readable k out (render items as)) 0 items as →
        Prints k slots fmt out (((render items as).length : ℤ).bmod wordSize) (render items as)) ∧
    ∀ (m : ByteMem) (buffer fmt : ℕ) (slots : ℕ → ℕ) (as : List Arg),
      buffer + (render items as).length < wordSize →
      StringAt m fmt (formatText items) →
      Apart buffer (render items as).length fmt (formatText items).length →
      Supplied slots (fun p xs => StringAt m p xs ∧ Apart buffer (render items as).length p xs.length)
        0 items as →
        ∃ n m', Written m m' buffer (render items as) ∧ ∀ fuel, n ≤ fuel →
          vsprintf fuel buffer fmt slots m = some (((render items as).length : ℤ).bmod wordSize, m') ∧
            sprintf fuel buffer fmt slots m = some (((render items as).length : ℤ).bmod wordSize, m') := by
  refine ⟨fun k slots as fmt out hfmt hargs => doPrintf_prints hitems hfmt hargs, ?_⟩
  intro m buffer fmt slots as hroom hfmt hapart hargs
  obtain ⟨n, m', hwritten, hruns⟩ := vsprintf_writes hitems hroom hfmt hapart hargs
  exact ⟨n, m', hwritten, fun fuel hfuel => ⟨hruns fuel hfuel, hruns fuel hfuel⟩⟩

/-- `%05d|%-3s` -/
def sampleFormat : List Item :=
  [.directive ⟨false, true, [5], [], .decimal⟩, .literal (ascii '|'),
    .directive ⟨true, false, [3], [], .string⟩]

def sampleArgs : List Arg := [⟨2 ^ 32 - 42, []⟩, ⟨0x3000, [ascii 'a', ascii 'b']⟩]

def sampleText : List UInt8 := "-0042|ab ".toList.map ascii

def sampleMemory : ByteMem :=
  store 0x1000 (formatText sampleFormat ++ [0]) (store 0x3000 ([ascii 'a', ascii 'b'] ++ [0]) fun _ => 0)

theorem sampleFormat_wellFormed : ∀ i ∈ sampleFormat, i.WellFormed := by
  simp only [sampleFormat, List.forall_mem_cons, List.not_mem_nil, false_implies, implies_true, and_true]
  exact ⟨⟨by decide, by decide⟩, ⟨by decide, by decide⟩, ⟨by decide, by decide⟩⟩

theorem sampleText_eq : render sampleFormat sampleArgs = sampleText := by decide

theorem sampleFormat_string : StringAt sampleMemory 0x1000 (formatText sampleFormat) :=
  store_string (nonzero_of_not_mem (by decide)) (by decide)

theorem sampleArgs_string : StringAt sampleMemory 0x3000 [ascii 'a', ascii 'b'] := by
  have hstring : StringAt (store 0x3000 ([ascii 'a', ascii 'b'] ++ [0]) fun _ => 0) 0x3000
      [ascii 'a', ascii 'b'] := store_string (nonzero_of_not_mem (by decide)) (by decide)
  have hend : 0x1000 + (formatText sampleFormat ++ [0]).length ≤ 0x3000 := by decide
  exact hstring.congr fun a hlow _ => store_outside (Or.inr (hend.trans hlow))

theorem printf_renders_sample : ∃ n m', Written sampleMemory m' 0x2000 sampleText ∧ ∀ fuel, n ≤ fuel →
    sprintf fuel 0x2000 0x1000 (fun i => (sampleArgs.map Arg.slot).getD i 0) sampleMemory = some (9, m') := by
  have hargs : Supplied (fun i => (sampleArgs.map Arg.slot).getD i 0)
      (fun p xs => StringAt sampleMemory p xs ∧ Apart 0x2000 sampleText.length p xs.length) 0 sampleFormat
      sampleArgs :=
    ⟨⟨rfl, by decide, by decide, fun h => Conversion.noConfusion h⟩,
      ⟨rfl, by decide, by decide, fun _ => ⟨sampleArgs_string, Or.inr (by decide)⟩⟩, rfl⟩
  have hrenders := (printf_renders sampleFormat_wellFormed).2 sampleMemory 0x2000 0x1000
    (fun i => (sampleArgs.map Arg.slot).getD i 0) sampleArgs
  have hroom : 0x2000 + sampleText.length < wordSize := by
    rw [wordSize_eq]
    decide
  rw [sampleText_eq] at hrenders
  obtain ⟨n, m', hwritten, hruns⟩ := hrenders hroom sampleFormat_string (Or.inl (by decide)) hargs
  have hret : (sampleText.length : ℤ).bmod wordSize = 9 := by
    rw [wordSize_eq]
    decide
  rw [hret] at hruns
  exact ⟨n, m', hwritten, fun fuel hfuel => (hruns fuel hfuel).2⟩

def logSink (m : ByteMem) : Sink (List UInt8) := ⟨fun _ => m, fun c log => log ++ [c]⟩

theorem passAll_log (m : ByteMem) (zs log : List UInt8) : passAll (logSink m) zs log = log ++ zs := by
  induction zs generalizing log with
  | nil => exact (List.append_nil log).symm
  | cons z zs ih => exact (ih (log ++ [z])).trans (List.append_assoc log [z] zs)

/-- `%2147483648s` -/
def wideFormat : List Item := [.directive ⟨false, false, [2, 1, 4, 7, 4, 8, 3, 6, 4, 8], [], .string⟩]

def wideMemory : ByteMem := store 0x1000 (formatText wideFormat ++ [0]) fun _ => 0

theorem wideText_length : (render wideFormat [⟨0x3000, []⟩]).length = 2 ^ 31 := by
  have hwidth : widthValue [2, 1, 4, 7, 4, 8, 3, 6, 4, 8] = 2 ^ 31 := by decide
  have hrender : render wideFormat [⟨0x3000, []⟩] = layout false false false
    (widthValue [2, 1, 4, 7, 4, 8, 3, 6, 4, 8]) [] ++ [] := rfl
  rw [hrender, hwidth, List.append_nil]
  exact (congrArg List.length (List.append_nil _)).trans List.length_replicate

/-- A text of 2³¹ characters is in the domain, and its length is no `int`. -/
theorem returnsLength_fails : (∀ i ∈ wideFormat, i.WellFormed) ∧
    Readable (logSink wideMemory) [] (render wideFormat [⟨0x3000, []⟩]) 0x1000 (formatText wideFormat) ∧
    Supplied (fun _ => 0x3000) (Readable (logSink wideMemory) [] (render wideFormat [⟨0x3000, []⟩])) 0
      wideFormat [⟨0x3000, []⟩] ∧
    ¬ Prints (logSink wideMemory) (fun _ => 0x3000) 0x1000 [] (render wideFormat [⟨0x3000, []⟩]).length
      (render wideFormat [⟨0x3000, []⟩]) := by
  have hitems : ∀ i ∈ wideFormat, i.WellFormed := by
    simp only [wideFormat, List.forall_mem_cons, List.not_mem_nil, false_implies, implies_true, and_true]
    exact ⟨by decide, by decide⟩
  have hformat : StringAt wideMemory 0x1000 (formatText wideFormat) :=
    store_string (nonzero_of_not_mem (by decide)) (by decide)
  have hempty : StringAt wideMemory 0x3000 [] := by
    have hend : 0x1000 + (formatText wideFormat ++ [0]).length ≤ 0x3000 := by decide
    exact ⟨⟨store_outside (Or.inr hend), trivial⟩, nonzero_of_not_mem (by decide), by decide⟩
  have hreadable : Readable (logSink wideMemory) [] (render wideFormat [⟨0x3000, []⟩]) 0x1000
      (formatText wideFormat) := fun _ _ => hformat
  have hargs : Supplied (fun _ => 0x3000) (Readable (logSink wideMemory) [] (render wideFormat [⟨0x3000, []⟩]))
      0 wideFormat [⟨0x3000, []⟩] := ⟨⟨rfl, by decide, by decide, fun _ _ _ => hempty⟩, rfl⟩
  refine ⟨hitems, hreadable, hargs, fun hprints => ?_⟩
  obtain ⟨n, hn⟩ := hprints
  obtain ⟨n', hn'⟩ := doPrintf_prints hitems hreadable hargs
  have hsame := (hn (max n n') (le_max_left _ _)).symm.trans (hn' (max n n') (le_max_right _ _))
  have hret := congrArg Prod.fst (Option.some.inj hsame)
  rw [wideText_length, wordSize_eq] at hret
  revert hret
  decide

end Buffer

end Ktux.Sprintf
