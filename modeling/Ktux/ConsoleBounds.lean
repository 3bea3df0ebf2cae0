import Ktux.ConsoleText
import Ktux.Runs
import Ktux.Sprintf
import Ktux.VirtualConsole

set_option autoImplicit false

/-!
# Each console stays inside its own screen

The cursor never leaves the screen, whatever is written. What is written stays in the console's cells
until a tab runs past the last of them.
-/
namespace Ktux.ConsoleBounds
open Words Loops Runs ByteMemory CString KernelString Printf FormatReference PrintfEmit PrintfScan Sprintf Video
  VirtualConsole ConsoleText

section Screens
variable {s u : Screen} {a c fuel : ℕ}

structure Sized (s : Screen) : Prop where
  width_pos : 0 < s.width
  height_pos : 0 < s.height
  small : s.width * s.height ≤ 16384
  low : s.con.fbAdr < 2 ^ 20

structure Bounded (s : Screen) : Prop where
  csrX : s.con.csrX < s.width
  csrY : s.con.csrY < s.height

def Outside (s : Screen) (a : ℕ) : Prop :=
  a < s.con.fbAdr ∨ s.con.fbAdr + 2 * (s.width * s.height) ≤ a

def Within (s u : Screen) : Prop := ∀ a, Outside s a → u.mem a = s.mem a

/-- The screen and its place; the contents and the cursor may differ. -/
structure SamePlace (s u : Screen) : Prop where
  size : SameSize s u
  fbAdr : u.con.fbAdr = s.con.fbAdr

theorem SamePlace.refl (s : Screen) : SamePlace s s := ⟨⟨rfl, rfl⟩, rfl⟩

theorem SamePlace.trans {w : Screen} (h : SamePlace s u) (h' : SamePlace u w) : SamePlace s w :=
  ⟨h.size.trans h'.size, h'.fbAdr.trans h.fbAdr⟩

theorem SamePlace.sized (h : SamePlace s u) (hs : Sized s) : Sized u := by
  refine ⟨?_, ?_, ?_, ?_⟩
  · rw [h.size.1]
    exact hs.width_pos
  · rw [h.size.2]
    exact hs.height_pos
  · rw [h.size.1, h.size.2]
    exact hs.small
  · rw [h.fbAdr]
    exact hs.low

theorem SamePlace.outside (h : SamePlace s u) : Outside u a ↔ Outside s a := by
  unfold Outside
  rw [h.fbAdr, h.size.1, h.size.2]

theorem setX_place (x : ℕ) (s : Screen) : SamePlace s (s.setX x) := ⟨setX_size x s, rfl⟩

theorem put_place (c : ℕ) (s : Screen) : SamePlace s (s.put c) := ⟨put_size c s, rfl⟩

theorem Within.trans {w : Screen} (hplace : SamePlace s u) (h : Within s u) (h' : Within u w) : Within s w :=
  fun a ha => (h' a (hplace.outside.mpr ha)).trans (h a ha)

theorem Sized.placed (h : Sized s) : Placed s := by
  refine ⟨h.width_pos, h.height_pos, ?_⟩
  have hsmall := h.small
  have hlow := h.low
  rw [wordSize_eq]
  omega

theorem Sized.narrow (h : Sized s) : s.width ≤ 16384 :=
  (Nat.le_mul_of_pos_right _ h.height_pos).trans h.small

theorem Sized.flat (h : Sized s) : s.height ≤ 16384 :=
  (Nat.le_mul_of_pos_left _ h.width_pos).trans h.small

theorem blit_within {dst n : ℕ} {f : ℕ → UInt8} {m : ByteMem} (ha : Outside s a) (hlow : s.con.fbAdr ≤ dst)
    (hhigh : dst + n ≤ s.con.fbAdr + 2 * (s.width * s.height)) : blit dst n f m a = m a := by
  unfold Outside at ha
  exact blit_outside (by omega)

theorem clear_within (h : Sized s) : Within s s.clear := by
  have hfits := h.placed.fits
  have harea : wmul s.height s.width = s.width * s.height := by
    rw [Nat.mul_comm s.width] at hfits ⊢
    exact wmul_of_lt (by omega)
  intro a ha
  unfold Screen.clear
  rw [harea]
  change memsetw _ _ _ s.mem a = s.mem a
  rw [memsetw_eq _ hfits]
  exact blit_within ha le_rfl le_rfl

theorem scroll_within (h : Sized s) (hy : s.con.csrY ≤ s.height) : Within s (scroll s) := by
  rcases hy.lt_or_eq with hinside | hfull
  · rw [scroll, if_neg (Nat.not_le.mpr hinside)]
    exact fun a _ => rfl
  · have hfits := h.placed.fits
    have harea := @rows_above s.width _ h.height_pos
    rw [scroll_full h.placed hfull]
    intro a ha
    change memsetw _ _ _ (memcpy _ _ _ s.mem) a = s.mem a
    rw [memsetw_eq _ (by omega), blit_within ha (Nat.le_add_right _ _) (by omega),
      memcpy_eq _ (by omega) (by omega), blit_within ha le_rfl (by omega)]

theorem scroll_bounded (h : Sized s) (hx : s.con.csrX < s.width) (hy : s.con.csrY ≤ s.height) :
    SamePlace s (scroll s) ∧ Bounded (scroll s) := by
  have hheight := h.height_pos
  have hflat := h.flat
  refine ⟨⟨scroll_size s, ?_⟩, ?_, ?_⟩
  · rw [scroll_con]
  · rw [scroll_con, (scroll_size s).1]
    exact hx
  · rw [scroll_con, (scroll_size s).2]
    simp only
    split_ifs with hfull
    · rw [wsub_of_le hheight (by rw [wordSize_eq]; omega)]
      omega
    · exact Nat.not_le.mp hfull

/-- A character leaves the cursor in a row of the screen, or at the start of the row below the last. -/
structure Drawn (s u : Screen) : Prop where
  place : SamePlace s u
  row : u.con.csrY < u.height ∨ u.con.csrY = u.height ∧ u.con.csrX = 0

theorem wrap_row (h : Sized s) (hd : Drawn s u) :
    SamePlace s u.wrap ∧ u.wrap.con.csrX < u.wrap.width ∧ u.wrap.con.csrY ≤ u.wrap.height ∧
      u.wrap.mem = u.mem := by
  have hu := hd.place.sized h
  have hwidth := hu.width_pos
  have hflat := hu.flat
  have hrow := hd.row
  unfold Screen.wrap
  split_ifs with hwrap
  · have hnext : u.nextRow.con.csrY = u.con.csrY + 1 := wadd_of_lt (by rw [wordSize_eq]; omega)
    refine ⟨hd.place.trans ⟨setCon_size _ _, rfl⟩, hwidth, ?_, rfl⟩
    rw [hnext]
    change _ ≤ u.height
    omega
  · exact ⟨hd.place, by omega, by omega, rfl⟩

theorem finish_bounded (h : Sized s) (hd : Drawn s u) :
    SamePlace s (scroll u.wrap) ∧ Bounded (scroll u.wrap) ∧
      ∀ a, Outside s a → (scroll u.wrap).mem a = u.mem a := by
  obtain ⟨hplace, hx, hy, hmem⟩ := wrap_row h hd
  have hw := hplace.sized h
  obtain ⟨hscroll, hbounded⟩ := scroll_bounded hw hx hy
  refine ⟨hplace.trans hscroll, hbounded, fun a ha => ?_⟩
  rw [scroll_within hw hy a (hplace.outside.mpr ha), hmem]

theorem put_mem (h : Sized s) (hx : s.con.csrX ≤ s.width + 8) (hy : s.con.csrY < s.height) :
    (s.put c).mem = storeWord (s.con.fbAdr + 2 * (s.width * s.con.csrY + s.con.csrX)) (c ||| s.att) s.mem := by
  have hsmall := h.small
  have hlow := h.low
  have hnarrow := h.narrow
  have hrow : s.width * s.con.csrY ≤ s.width * s.height := Nat.mul_le_mul_left _ hy.le
  have hadr : s.cellAdr (wadd (wmul s.con.csrY s.width) s.con.csrX) =
      s.con.fbAdr + 2 * (s.width * s.con.csrY + s.con.csrX) := by
    rw [Nat.mul_comm s.width s.con.csrY] at hrow ⊢
    have hindex : wadd (wmul s.con.csrY s.width) s.con.csrX = s.con.csrY * s.width + s.con.csrX := by
      rw [wmul_of_lt (by rw [wordSize_eq]; omega), wadd_of_lt (by rw [wordSize_eq]; omega)]
    rw [hindex, Screen.cellAdr, wmul_of_lt (by rw [wordSize_eq]; omega),
      wadd_of_lt (by rw [wordSize_eq]; omega)]
  rw [← hadr]
  rfl

theorem put_within (h : Sized s) (hb : Bounded s) : Within s (s.put c) := by
  have hindex := index_lt hb.csrY hb.csrX
  have hx := hb.csrX
  intro a ha
  rw [put_mem h (by omega) hb.csrY]
  exact blit_within ha (Nat.le_add_right _ _) (by omega)

/-- The tab stop behind the cursor. -/
def nextStop (x : ℕ) : ℕ := (x / 8 + 1) * 8

theorem nextStop_bounds (x : ℕ) : x < nextStop x ∧ nextStop x ≤ x + 8 := by
  unfold nextStop
  omega

theorem eot_stop (hx : s.con.csrX + 8 < 2 ^ 16) :
    (wadd s.con.csrX 8 &&& 0xFFFFFFF8) % 2 ^ 16 = nextStop s.con.csrX := by
  have hmask : (0xFFFFFFF8 : ℕ) = highMask 3 := rfl
  rw [wadd_of_lt (by rw [wordSize_eq]; omega), hmask, and_highMask 3 _ (by omega) (by rw [wordSize_eq]; omega),
    nextStop]
  omega

theorem eot_eq (h : Sized s) (hx : s.con.csrX < s.width) :
    (wadd s.con.csrX 8 &&& 0xFFFFFFF8) % 2 ^ 16 = nextStop s.con.csrX := by
  have hnarrow := h.narrow
  exact eot_stop (by omega)

/-- The tab loop blanks the cells from the cursor on, one after the other. -/
theorem tab_passes (h : Sized s) (hy : s.con.csrY < s.height) {n eot : ℕ} (hn : eot = s.con.csrX + n)
    (heot : eot ≤ s.width + 8) (rest : ℕ) :
    whileLoop (fun s : Screen => s.con.csrX ≠ eot)
      (fun s => some ((s.put 0x20).setX (wadd s.con.csrX 1))) (n + 1 + rest) s =
    some ((s.setMem (memsetw n (s.con.fbAdr + 2 * (s.width * s.con.csrY + s.con.csrX)) (0x20 ||| s.att))).setX
      eot) := by
  induction n generalizing s with
  | zero =>
    subst hn
    have hstop : 0 + 1 + rest = rest + 1 := by omega
    have hdone : decide (s.con.csrX ≠ s.con.csrX + 0) = false := decide_eq_false (not_not.mpr rfl)
    rw [hstop, whileLoop, if_neg (Bool.not_eq_true _ ▸ hdone)]
    rfl
  | succ n ih =>
    have hnarrow := h.narrow
    have hflat := h.flat
    have hsmall := h.small
    have hlow := h.low
    have hrow : s.width * s.con.csrY ≤ s.width * s.height := Nat.mul_le_mul_left _ hy.le
    obtain ⟨u, hu⟩ : ∃ u, u = (s.put 0x20).setX (wadd s.con.csrX 1) := ⟨_, rfl⟩
    have hnext : wadd s.con.csrX 1 = s.con.csrX + 1 := wadd_of_lt (by rw [wordSize_eq]; omega)
    have hx : u.con.csrX = s.con.csrX + 1 := by
      rw [hu, ← hnext]
      rfl
    have hplace : SamePlace s u := by
      rw [hu]
      exact (put_place _ _).trans (setX_place _ _)
    have hyu : u.con.csrY < u.height := by
      rw [hu]
      exact hy
    have hpass : n + 1 + 1 + rest = n + 1 + rest + 1 := by omega
    have hmore : decide (s.con.csrX ≠ eot) = true := decide_eq_true (by omega)
    rw [hpass, whileLoop, if_pos hmore, Option.bind_some, ← hu,
      ih (hplace.sized h) hyu (by omega) (by rw [hplace.size.1]; exact heot)]
    have hdst : wadd (s.con.fbAdr + 2 * (s.width * s.con.csrY + s.con.csrX)) 2 =
        s.con.fbAdr + 2 * (s.width * s.con.csrY + (s.con.csrX + 1)) := wadd_of_lt (by rw [wordSize_eq]; omega)
    have hput := @put_mem s 0x20 h (by omega) hy
    rw [hx, hu]
    change some (Screen.mk (memsetw n (s.con.fbAdr + 2 * (s.width * s.con.csrY + (s.con.csrX + 1)))
      (0x20 ||| s.att) (s.put 0x20).mem) _ _ _) = some (Screen.mk (memsetw n (wadd _ 2) (0x20 ||| s.att)
        (storeWord _ _ s.mem)) _ _ _)
    rw [hput, hdst]
    rfl

/-- The cells up to the next tab stop are the console's own. -/
def StopFits (s : Screen) : Prop :=
  s.width * s.con.csrY + nextStop s.con.csrX ≤ s.width * s.height

/-- What one character does: only a tab that does not fit writes past the last cell. -/
structure Effect (fits : Prop) (s u : Screen) : Prop where
  within : fits → Within s u
  past : ¬ fits → u.mem (s.con.fbAdr + 2 * (s.width * s.height)) = 0x20

theorem tab_drawn (h : Sized s) (hb : Bounded s) (hfuel : 9 ≤ fuel) :
    ∃ u, tab fuel s = some u ∧ Drawn s u ∧ Effect (StopFits s) s u := by
  have hsmall := h.small
  have hlow := h.low
  have hx := hb.csrX
  have hindex := index_lt hb.csrY hx
  obtain ⟨hbehind, hnear⟩ := nextStop_bounds s.con.csrX
  obtain ⟨n, hn⟩ := Nat.exists_eq_add_of_le hbehind.le
  obtain ⟨rest, hrest⟩ := Nat.exists_eq_add_of_le (show n + 1 ≤ fuel by omega)
  have hfill := @memsetw_eq n (s.con.fbAdr + 2 * (s.width * s.con.csrY + s.con.csrX)) (0x20 ||| s.att) s.mem
    (by rw [wordSize_eq]; omega)
  have htab : tab fuel s = some ((s.setMem (memsetw n
      (s.con.fbAdr + 2 * (s.width * s.con.csrY + s.con.csrX)) (0x20 ||| s.att))).setX
        (nextStop s.con.csrX)) := by
    unfold tab
    simp only [eot_eq h hx]
    rw [hrest]
    exact tab_passes h hb.csrY hn (by omega) rest
  refine ⟨_, htab, ⟨⟨(setMem_size _ _).trans (setX_size _ _), rfl⟩, Or.inl hb.csrY⟩, fun hfits a ha => ?_,
    fun hpast => ?_⟩
  · unfold StopFits at hfits
    change memsetw _ _ _ s.mem a = s.mem a
    rw [hfill]
    exact blit_within ha (Nat.le_add_right _ _) (by omega)
  · unfold StopFits at hpast
    obtain ⟨k, hk⟩ := Nat.exists_eq_add_of_le hindex.le
    have hend : s.con.fbAdr + 2 * (s.width * s.height) =
        s.con.fbAdr + 2 * (s.width * s.con.csrY + s.con.csrX) + 2 * k := by omega
    change memsetw _ _ _ s.mem _ = 0x20
    rw [hfill, hend, blit_inside (by omega), Nat.mul_mod_right, wordByte, pow_zero, Nat.div_one]
    exact (att_bytes s.con.attrib (by decide)).1

theorem setX_put (h : Sized s) (hy : s.con.csrY < s.height) {x : ℕ} (hx : x < s.width) :
    Drawn s ((s.setX x).put 0x20) ∧ Within s ((s.setX x).put 0x20) := by
  have hplace := setX_place x s
  refine ⟨⟨hplace.trans (put_place _ _), Or.inl hy⟩, ?_⟩
  exact Within.trans hplace (fun a _ => rfl) (put_within (hplace.sized h) ⟨hx, hy⟩)

theorem draw_drawn (h : Sized s) (hb : Bounded s) (hfuel : 9 ≤ fuel) :
    ∃ u, draw fuel c s = some u ∧ Drawn s u ∧ Effect (c = 0x09 → StopFits s) s u := by
  have hinside {u : Screen} (hplace : SamePlace s u)
      (hy : u.con.csrY < u.height ∨ u.con.csrY = u.height ∧ u.con.csrX = 0)
      (hwithin : Within s u) (hc : c ≠ 0x09) : Drawn s u ∧ Effect (c = 0x09 → StopFits s) s u :=
    ⟨⟨hplace, hy⟩, fun _ => hwithin, fun hpast => absurd (fun heq => absurd heq hc) hpast⟩
  have hnarrow := h.narrow
  unfold draw
  split_ifs with hback hmove htab hreturn hnewline hprint
  · have hleft : wsub s.con.csrX 1 = s.con.csrX - 1 := by
      have hx := hb.csrX
      exact wsub_of_le (by omega) (by rw [wordSize_eq]; omega)
    have hx : wsub s.con.csrX 1 < s.width := by
      rw [hleft]
      exact Nat.lt_of_le_of_lt (Nat.sub_le _ 1) hb.csrX
    obtain ⟨hdrawn, hwithin⟩ := setX_put h hb.csrY hx
    exact ⟨_, rfl, hinside hdrawn.place hdrawn.row hwithin (by omega)⟩
  · exact ⟨s, rfl, hinside (SamePlace.refl _) (Or.inl hb.csrY) (fun a _ => rfl) (by omega)⟩
  · obtain ⟨u, hu, hdrawn, heffect⟩ := tab_drawn h hb hfuel
    exact ⟨u, hu, hdrawn, fun hfits => heffect.within (hfits htab),
      fun hpast => heffect.past fun hfits => hpast fun _ => hfits⟩
  · exact ⟨_, rfl, hinside (setX_place _ _) (Or.inl hb.csrY) (fun a _ => rfl) (by omega)⟩
  · have hnext : s.nextRow.con.csrY = s.con.csrY + 1 := by
      have hflat := h.flat
      have hy := hb.csrY
      exact wadd_of_lt (by rw [wordSize_eq]; omega)
    have hrow : s.nextRow.con.csrY < s.nextRow.height ∨
        s.nextRow.con.csrY = s.nextRow.height ∧ s.nextRow.con.csrX = 0 := by
      have hy := hb.csrY
      rw [hnext]
      change _ < s.height ∨ _ = s.height ∧ 0 = 0
      omega
    exact ⟨_, rfl, hinside ⟨setCon_size _ _, rfl⟩ hrow (fun a _ => rfl) (by omega)⟩
  · exact ⟨_, rfl, hinside ((put_place _ _).trans (setX_place _ _)) (Or.inl hb.csrY) (put_within h hb)
      (by omega)⟩
  · exact ⟨s, rfl, hinside (SamePlace.refl _) (Or.inl hb.csrY) (fun a _ => rfl) (by omega)⟩

structure Stays (s u : Screen) : Prop where
  place : SamePlace s u
  bounded : Bounded u
  within : Within s u

theorem setCon_stays (hb : Bounded s) {f : Console → Console} (hx : (f s.con).csrX = s.con.csrX)
    (hy : (f s.con).csrY = s.con.csrY) (hfb : (f s.con).fbAdr = s.con.fbAdr) : Stays s (s.setCon f) := by
  refine ⟨⟨setCon_size f s, hfb⟩, ⟨?_, ?_⟩, fun a _ => rfl⟩ <;> rw [setCon_con]
  · rw [hx]
    exact hb.csrX
  · rw [hy]
    exact hb.csrY

theorem Stays.endEsc (h : Stays s u) : Stays s (u.setCon Console.endEsc) :=
  ⟨h.place.trans ⟨setCon_size _ _, rfl⟩, ⟨h.bounded.csrX, h.bounded.csrY⟩, h.within⟩

theorem clear_stays (h : Sized s) : Stays s s.clear :=
  ⟨⟨clear_size s, rfl⟩, ⟨h.width_pos, h.height_pos⟩, clear_within h⟩

theorem moveTo_stays (hb : Bounded s) (x y : ℕ) : Stays s (s.moveTo x y) := by
  refine ⟨⟨setCon_size _ _, rfl⟩, ⟨?_, ?_⟩, fun a _ => rfl⟩
  · change (if x < s.width then x else s.con.csrX) < s.width
    split_ifs with hx
    exacts [hx, hb.csrX]
  · change (if y < s.height then y else s.con.csrY) < s.height
    split_ifs with hy
    exacts [hy, hb.csrY]

theorem escapeOne_stays (h : Sized s) (hb : Bounded s) : Stays s (escapeOne c s) := by
  have hself : Stays s s := ⟨SamePlace.refl _, hb, fun a _ => rfl⟩
  unfold escapeOne
  split_ifs
  · exact setCon_stays hb rfl rfl rfl
  · exact setCon_stays hb rfl rfl rfl
  · exact (clear_stays h).endEsc
  · exact hself.endEsc
  · exact setCon_stays hb rfl rfl rfl
  · exact hself.endEsc

theorem escapeTwo_stays (hb : Bounded s) : Stays s (escapeTwo c s) := by
  unfold escapeTwo
  split_ifs
  · exact setCon_stays hb rfl rfl rfl
  · exact setCon_stays hb rfl rfl rfl
  · exact (moveTo_stays hb _ _).endEsc
  all_goals exact setCon_stays hb rfl rfl rfl

theorem escapeThree_stays (hb : Bounded s) : Stays s (escapeThree c s) := by
  unfold escapeThree
  split_ifs <;> exact setCon_stays hb rfl rfl rfl

theorem escape_stays (h : Sized s) (hb : Bounded s) (hescape : escape c s = some u) : Stays s u := by
  unfold escape at hescape
  split_ifs at hescape <;> cases hescape
  · exact setCon_stays hb rfl rfl rfl
  · exact escapeOne_stays h hb
  · exact escapeTwo_stays hb
  · exact escapeThree_stays hb

/-- A tab is drawn unless an escape sequence takes it. -/
def TabFits (c : ℕ) (s : Screen) : Prop := c = 0x09 → s.con.esc < 2 ∨ 4 < s.con.esc → StopFits s

theorem escape_tab : escape 0x09 s = none ↔ s.con.esc < 2 ∨ 4 < s.con.esc := by
  unfold escape
  split_ifs <;> simp <;> omega

theorem putchScreen_effect (h : Sized s) (hb : Bounded s) (hfuel : 9 ≤ fuel) :
    ∃ u, putchScreen fuel c s = some u ∧ SamePlace s u ∧ Bounded u ∧ Effect (TabFits c s) s u := by
  unfold putchScreen
  cases hescape : escape c s with
  | some u =>
    have hstays := escape_stays h hb hescape
    refine ⟨u, rfl, hstays.place, hstays.bounded, fun _ => hstays.within,
      fun hpast => absurd (fun hc hesc => ?_) hpast⟩
    rw [hc, escape_tab.mpr hesc] at hescape
    cases hescape
  | none =>
    have hended : Stays s (s.setCon Console.endEsc) := setCon_stays hb rfl rfl rfl
    simp only
    split_ifs with hesc
    · have hstays : Stays s ((s.setCon Console.endEsc).setCon fun con => { con with esc := 1 }) :=
        ⟨hended.place.trans ⟨setCon_size _ _, rfl⟩, ⟨hb.csrX, hb.csrY⟩, hended.within⟩
      refine ⟨_, rfl, hstays.place, hstays.bounded, fun _ => hstays.within,
        fun hpast => absurd (fun hc => ?_) hpast⟩
      omega
    · have hsized := hended.place.sized h
      obtain ⟨u, hu, hdrawn, heffect⟩ := @draw_drawn _ c fuel hsized hended.bounded hfuel
      obtain ⟨hplace, hbounded, hmem⟩ := finish_bounded hsized hdrawn
      refine ⟨scroll u.wrap, by rw [hu]; rfl, hended.place.trans hplace, hbounded, fun hfits a ha => ?_,
        fun hpast => ?_⟩
      · rw [hmem a ha]
        refine heffect.within (fun hc => hfits hc (escape_tab.mp ?_)) a ha
        rw [← hc]
        exact hescape
      · have hend : Outside s (s.con.fbAdr + 2 * (s.width * s.height)) := Or.inr le_rfl
        rw [hmem _ hend]
        exact heffect.past fun hfits => hpast fun hc _ => hfits hc

end Screens

section Displays
variable {v v' : Display} {con c fuel tabs i : ℕ}

/-- What a call on the console `con` leaves alone. -/
structure Apart (con : ℕ) (v v' : Display) : Prop where
  currVc : v'.currVc = v.currVc
  vgaFbAdr : v'.vgaFbAdr = v.vgaFbAdr
  vc : ∀ i, i ≠ con → v'.vc i = v.vc i

theorem putchHelp_apart (h : putchHelp fuel con c v = some v') : Apart con v v' := by
  have hstore (s : Screen) : Apart con v (v.store con s) := ⟨rfl, rfl, fun i hi => Function.update_of_ne hi _ _⟩
  have hmove (s : Screen) : Apart con v (moveCurrent con (v.store con s)) := by
    unfold moveCurrent
    split_ifs
    · obtain ⟨crtc, hcrtc⟩ := moveCsr_crtc (v.store con s)
      rw [hcrtc]
      exact ⟨rfl, rfl, (hstore s).vc⟩
    · exact hstore s
  unfold putchHelp at h
  cases hescape : escape c (v.screen con) with
  | some s =>
    rw [hescape] at h
    rw [← Option.some.inj h]
    exact hstore s
  | none =>
    rw [hescape] at h
    simp only at h
    split_ifs at h
    · rw [← Option.some.inj h]
      exact hstore _
    · obtain ⟨s, -, hs⟩ := Option.map_eq_some_iff.mp h
      rw [← hs]
      exact hmove _

theorem putchHelp_mono {fuel' : ℕ} (hle : fuel ≤ fuel') (h : putchHelp fuel con c v = some v') :
    putchHelp fuel' con c v = some v' := by
  unfold putchHelp at h ⊢
  cases hescape : escape c (v.screen con) with
  | some s =>
    rw [hescape] at h
    exact h
  | none =>
    rw [hescape] at h
    simp only at h ⊢
    split_ifs at h ⊢
    · exact h
    · obtain ⟨s, hs, hv⟩ := Option.map_eq_some_iff.mp h
      refine Option.map_eq_some_iff.mpr ⟨s, ?_, hv⟩
      unfold draw at hs ⊢
      split_ifs at hs ⊢
      all_goals first | exact hs | exact whileLoop_mono hle hs

/-- The screens of the first `n` consoles are sound. -/
structure Sound (n : ℕ) (v : Display) : Prop where
  sized : ∀ i < n, Sized (v.screen i)
  bounded : ∀ i < n, Bounded (v.screen i)

structure SamePlaces (v v' : Display) : Prop where
  vgaFbAdr : v'.vgaFbAdr = v.vgaFbAdr
  place : ∀ i, SamePlace (v.screen i) (v'.screen i)

theorem putchHelp_effect {n : ℕ} (h : Sound n v) (hcon : con < n) (c : ℕ) :
    ∃ v', (∀ fuel, 9 ≤ fuel → putchHelp fuel con c v = some v') ∧ Sound n v' ∧ SamePlaces v v' ∧
      v'.currVc = v.currVc ∧ (∀ i, i ≠ con → v'.vc i = v.vc i) ∧
      Effect (TabFits c (v.screen con)) (v.screen con) (v'.screen con) := by
  obtain ⟨u, hu, hplace, hbounded, heffect⟩ := @putchScreen_effect _ c 9 (h.sized con hcon)
    (h.bounded con hcon) le_rfl
  obtain ⟨v', hv', rfl⟩ := putchHelp_of_screen hu
  have hapart := putchHelp_apart hv'
  have hplaces (i : ℕ) : SamePlace (v.screen i) (v'.screen i) := by
    by_cases hi : i = con
    · rw [hi]
      exact hplace
    · refine ⟨hplace.size, ?_⟩
      change (v'.vc i).fbAdr = (v.vc i).fbAdr
      rw [hapart.vc i hi]
  refine ⟨v', fun fuel hfuel => putchHelp_mono hfuel hv',
    ⟨fun i hi => (hplaces i).sized (h.sized i hi), fun i hi => ?_⟩,
    ⟨hapart.vgaFbAdr, hplaces⟩, hapart.currVc, hapart.vc, heffect⟩
  by_cases hic : i = con
  · rw [hic]
    exact hbounded
  · obtain ⟨hx, hy⟩ := h.bounded i hi
    refine ⟨?_, ?_⟩
    · change (v'.vc i).csrX < v'.vcWidth
      rw [hapart.vc i hic]
      exact lt_of_lt_of_eq hx hplace.size.1.symm
    · change (v'.vc i).csrY < v'.vcHeight
      rw [hapart.vc i hic]
      exact lt_of_lt_of_eq hy hplace.size.2.symm

theorem passAll_effect {n : ℕ} (fmt : List UInt8) (xs : List UInt8) (h : Sound n v) (hcur : v.currVc < n) :
    ∃ v', (∀ tabs, 9 ≤ tabs → passAll (kprintfSink tabs fmt) xs (some v) = some v') ∧ Sound n v' ∧
      SamePlaces v v' ∧ ∀ i, i ≠ v.currVc → v'.vc i = v.vc i := by
  induction xs generalizing v with
  | nil => exact ⟨v, fun _ _ => rfl, h, ⟨rfl, fun _ => SamePlace.refl _⟩, fun _ _ => rfl⟩
  | cons x xs ih =>
    obtain ⟨u, hput, hsound, hplaces, hcurr, hothers, -⟩ := putchHelp_effect h hcur (signedChar x)
    obtain ⟨v', hall, hsound', hplaces', hothers'⟩ := ih hsound (hcurr ▸ hcur)
    refine ⟨v', fun tabs htabs => ?_, hsound', ⟨hplaces'.vgaFbAdr.trans hplaces.vgaFbAdr,
      fun i => (hplaces.place i).trans (hplaces'.place i)⟩, fun i hi => ?_⟩
    · rw [← hall tabs htabs]
      exact congrArg (passAll (kprintfSink tabs fmt) xs) (hput tabs htabs)
    · rw [hothers' i (hcurr ▸ hi), hothers i hi]

def bannerItems : List Item :=
  ("\x1B[2Jktux console ".toList.map fun c => .literal (ascii c)) ++
    [.directive ⟨false, false, [], [], .unsigned⟩, .literal (ascii '\n'), .literal (ascii '\n')]

theorem banner_items : formatText bannerItems = banner := by decide

theorem bannerItems_wellFormed : ∀ item ∈ bannerItems, item.WellFormed := by
  have hall : ("\x1B[2Jktux console ".toList.all fun c => ascii c != 0 && ascii c != ascii '%') = true := by
    decide
  have hliteral : ∀ c ∈ "\x1B[2Jktux console ".toList, ascii c ≠ 0 ∧ ascii c ≠ ascii '%' := by
    simpa only [List.all_eq_true, Bool.and_eq_true, bne_iff_ne] using hall
  have hnewline : (Item.literal (ascii '\n')).WellFormed := ⟨by decide, by decide⟩
  intro item hitem
  rcases List.mem_append.mp hitem with hmap | htail
  · obtain ⟨c, hc, rfl⟩ := List.mem_map.mp hmap
    exact hliteral c hc
  · rcases List.mem_cons.mp htail with rfl | htail
    · exact ⟨by decide, fun _ => by simp⟩
    · rcases List.mem_cons.mp htail with rfl | htail
      · exact hnewline
      · rw [List.mem_singleton.mp htail]
        exact hnewline

theorem literal_string {xs : List UInt8} (hxs : ∀ c ∈ xs, c ≠ 0) (hlen : xs.length < wordSize) :
    StringAt (fun a => xs.getD a 0) 0 xs := by
  refine ⟨ListAt.of_getElem fun i hi => ?_, hxs, by omega⟩
  rw [Nat.zero_add]
  rw [List.length_append, List.length_singleton] at hi
  rcases Nat.lt_or_eq_of_le (Nat.le_of_lt_succ hi) with hlt | rfl
  · rw [List.getElem_append_left hlt, List.getD_eq_getElem _ _ hlt]
  · rw [List.getElem_concat_length rfl, List.getD_eq_default _ _ le_rfl]

theorem banner_supplied {slots : ℕ → ℕ} {readable : ℕ → List UInt8 → Prop} (hslot : slots 0 = i)
    (hi : i < wordSize) : Supplied slots readable 0 bannerItems [⟨i, []⟩] := by
  have hliterals (cs : List Char) {items : List Item} {as : List Arg} (h : Supplied slots readable 0 items as) :
      Supplied slots readable 0 ((cs.map fun c => .literal (ascii c)) ++ items) as := by
    induction cs with
    | nil => exact h
    | cons c cs ih => exact ih
  exact hliterals _ ⟨⟨hslot, hi, by simp, by simp⟩, rfl⟩

/-- The text of the banner, which goes to the current console. -/
theorem kprintf_banner {n : ℕ} (h : Sound n v) (hcur : v.currVc < n) (hi : i < wordSize) (j : ℕ) :
    ∃ v', (∀ tabs, 9 ≤ tabs → ∃ m, ∀ fuel, m ≤ fuel → kprintf fuel tabs banner [i, j] v = some v') ∧
      Sound n v' ∧ SamePlaces v v' ∧ ∀ i, i ≠ v.currVc → v'.vc i = v.vc i := by
  obtain ⟨v', hall, hsound⟩ := passAll_effect banner (render bannerItems [⟨i, []⟩]) h hcur
  have hstring : StringAt (fun a => banner.getD a 0) 0 banner :=
    literal_string (nonzero_of_not_mem (by decide)) (by decide)
  refine ⟨v', fun tabs htabs => ?_, hsound⟩
  obtain ⟨m, hm⟩ := @doPrintf_prints _ (kprintfSink tabs banner) (fun k => [i, j].getD k 0) bannerItems
    [⟨i, []⟩] 0
    (some v) bannerItems_wellFormed (fun _ _ => banner_items ▸ hstring) (banner_supplied rfl hi)
  refine ⟨m, fun fuel hfuel => ?_⟩
  rw [kprintf, hm fuel hfuel, Option.bind_some, hall tabs htabs]

/-- The consoles before the `k`th are set up, each behind the one before. -/
structure Filled (start : Display) (k : ℕ) (v : Display) : Prop where
  sound : Sound k v
  vgaFbAdr : v.vgaFbAdr = start.vgaFbAdr
  width : v.vcWidth = start.vcWidth
  height : v.vcHeight = start.vcHeight
  fbAdr : ∀ i < k, (v.vc i).fbAdr = start.vgaFbAdr + 2 * (start.vcWidth * start.vcHeight * i)
  rest : ∀ i, k ≤ i → v.vc i = ⟨0, 0, 0, 0, 0, 0, 0, 0⟩
  first : 0 < k → v.vc 0 = ⟨0, 1, 0, 0, 0, 0, 0, start.vgaFbAdr⟩

/-- The probed screen: it has cells, and they fit into the text buffer. -/
structure Probed (start : Display) : Prop where
  width_pos : 0 < start.vcWidth
  height_pos : 0 < start.vcHeight
  fits : 2 * (start.vcWidth * start.vcHeight) ≤ 32768
  low : start.vgaFbAdr ≤ 0xB8000

theorem placeVc_other {i k : ℕ} (hi : i ≠ k) : (placeVc k v).vc i = v.vc i := Function.update_of_ne hi _ _

/-- Where the `k`th console lies does not wrap. -/
theorem placeVc_console {start : Display} (hstart : Probed start) {k : ℕ} (h : Filled start k v)
    (hroom : 2 * (start.vcWidth * start.vcHeight) * (k + 1) ≤ 32768) : (placeVc k v).vc k =
      ⟨0, k + 1, 0, 0, 0, 0, 0, start.vgaFbAdr + 2 * (start.vcWidth * start.vcHeight * k)⟩ := by
  have hlow := hstart.low
  have hfits := hstart.fits
  rw [Nat.mul_assoc, Nat.mul_succ] at hroom
  have hk : k ≤ start.vcWidth * start.vcHeight * k :=
    Nat.le_mul_of_pos_left _ (Nat.mul_pos hstart.width_pos hstart.height_pos)
  have hadr : wadd start.vgaFbAdr (wmul 2 (wmul (wmul start.vcWidth start.vcHeight) k)) =
      start.vgaFbAdr + 2 * (start.vcWidth * start.vcHeight * k) := by
    rw [wmul_of_lt (a := start.vcWidth) (by rw [wordSize_eq]; omega),
      wmul_of_lt (a := _ * _) (by rw [wordSize_eq]; omega),
      wmul_of_lt (by rw [wordSize_eq]; omega), wadd_of_lt (by rw [wordSize_eq]; omega)]
  have hnext : wadd k 1 = k + 1 := wadd_of_lt (by rw [wordSize_eq]; omega)
  rw [← hadr, ← hnext, ← h.vgaFbAdr, ← h.width, ← h.height]
  change Function.update v.vc k _ k = _
  rw [Function.update_self, h.rest k le_rfl]

theorem placeVc_sound {start : Display} (hstart : Probed start) {k : ℕ} (h : Filled start k v)
    (hroom : 2 * (start.vcWidth * start.vcHeight) * (k + 1) ≤ 32768) : Sound (k + 1) (placeVc k v) := by
  have hlow := hstart.low
  have hcells := hstart.fits
  have hcon := placeVc_console hstart h hroom
  have hplace (i : ℕ) (hi : i ≠ k) : (placeVc k v).screen i = v.screen i :=
    congrArg (fun con => Screen.mk v.mem con v.vcWidth v.vcHeight) (placeVc_other hi)
  rw [Nat.mul_assoc, Nat.mul_succ] at hroom
  constructor
  · intro i hi
    by_cases hik : i = k
    · rw [hik]
      refine ⟨?_, ?_, ?_, ?_⟩
      · exact hstart.width_pos.trans_eq h.width.symm
      · exact hstart.height_pos.trans_eq h.height.symm
      · change v.vcWidth * v.vcHeight ≤ 16384
        rw [h.width, h.height]
        omega
      · change ((placeVc k v).vc k).fbAdr < _
        rw [hcon]
        simp only
        omega
    · rw [hplace i hik]
      exact h.sound.sized i (by omega)
  · intro i hi
    by_cases hik : i = k
    · rw [hik]
      refine ⟨?_, ?_⟩
      · change ((placeVc k v).vc k).csrX < v.vcWidth
        rw [hcon, h.width]
        exact hstart.width_pos
      · change ((placeVc k v).vc k).csrY < v.vcHeight
        rw [hcon, h.height]
        exact hstart.height_pos
    · rw [hplace i hik]
      exact h.sound.bounded i (by omega)

theorem placeVc_filled {start : Display} (hstart : Probed start) {k : ℕ} (h : Filled start k v)
    (hroom : 2 * (start.vcWidth * start.vcHeight) * (k + 1) ≤ 32768) : Filled start (k + 1) (placeVc k v) := by
  have hcon := placeVc_console hstart h hroom
  refine ⟨placeVc_sound hstart h hroom, h.vgaFbAdr, h.width, h.height, fun i hi => ?_, fun i hi => ?_,
    fun _ => ?_⟩
  · by_cases hik : i = k
    · rw [hik, hcon]
    · rw [placeVc_other hik]
      exact h.fbAdr i (by omega)
  · rw [placeVc_other (by omega)]
    exact h.rest i (by omega)
  · rcases Nat.eq_zero_or_pos k with rfl | hk
    · rw [hcon]
      rfl
    · rw [placeVc_other (by omega)]
      exact h.first hk

theorem initVc_filled {start : Display} (hstart : Probed start) {k : ℕ} (h : Filled start k v)
    (hroom : 2 * (start.vcWidth * start.vcHeight) * (k + 1) ≤ 32768) (numVcs : ℕ) :
    ∃ v', (∀ tabs, 9 ≤ tabs → ∃ m, ∀ fuel, m ≤ fuel → initVc fuel tabs numVcs k v = some v') ∧
      Filled start (k + 1) v' := by
  have hplaced := placeVc_filled hstart h hroom
  rcases Nat.eq_zero_or_pos k with rfl | hk
  · exact ⟨_, fun _ _ => ⟨0, fun _ _ => rfl⟩, hplaced⟩
  · have hsmall : k < wordSize := by
      have hcells := Nat.mul_pos hstart.width_pos hstart.height_pos
      have hle : k + 1 ≤ 2 * (start.vcWidth * start.vcHeight) * (k + 1) := Nat.le_mul_of_pos_left _ (by omega)
      rw [wordSize_eq]
      omega
    obtain ⟨v', hprint, hsound, hplaces, hothers⟩ :=
      kprintf_banner hplaced.sound (Nat.lt_succ_self k) hsmall (wsub numVcs 1)
    refine ⟨v', fun tabs htabs => ?_, hsound, hplaces.vgaFbAdr.trans hplaced.vgaFbAdr,
      (hplaces.place 0).size.1.trans hplaced.width, (hplaces.place 0).size.2.trans hplaced.height,
      fun i hi => ?_,
      fun i hi => ?_, fun _ => ?_⟩
    · obtain ⟨m, hm⟩ := hprint tabs htabs
      refine ⟨m, fun fuel hfuel => ?_⟩
      rw [initVc, if_pos hk]
      exact hm fuel hfuel
    · rw [← hplaced.fbAdr i hi]
      exact (hplaces.place i).fbAdr
    · rw [hothers i (by change i ≠ k; omega), hplaced.rest i hi]
    · rw [hothers 0 (by change 0 ≠ k; omega), hplaced.first (Nat.succ_pos k)]

theorem initVcs_filled {start : Display} (hstart : Probed start) (hfilled : Filled start 0 start)
    (numVcs : ℕ) {k : ℕ} (hroom : 2 * (start.vcWidth * start.vcHeight) * k ≤ 32768) :
    ∃ v', (∀ tabs, 9 ≤ tabs → ∃ m, ∀ fuel, m ≤ fuel →
      (List.range k).foldlM (fun v i => initVc fuel tabs numVcs i v) start = some v') ∧ Filled start k v' := by
  induction k with
  | zero => exact ⟨start, fun _ _ => ⟨0, fun _ _ => rfl⟩, hfilled⟩
  | succ k ih =>
    obtain ⟨v, hrange, hv⟩ := ih (Nat.le_trans (Nat.mul_le_mul_left _ (Nat.le_succ k)) hroom)
    obtain ⟨v', hinit, hv'⟩ := initVc_filled hstart hv hroom numVcs
    refine ⟨v', fun tabs htabs => ?_, hv'⟩
    obtain ⟨m₁, hm₁⟩ := hrange tabs htabs
    obtain ⟨m₂, hm₂⟩ := hinit tabs htabs
    refine ⟨max m₁ m₂, fun fuel hfuel => ?_⟩
    rw [List.range_succ, List.foldlM_append, hm₁ fuel (by omega)]
    change ([k].foldlM (fun v i => initVc fuel tabs numVcs i v) v) = some v'
    rw [List.foldlM_cons, hm₂ fuel (by omega)]
    rfl

end Displays

section Calls
variable {v v' home : Consoles} {call : Call} {a : ℕ}

/-- Each console has its own `w * h` cells of the text buffer. -/
structure Regions (w h : ℕ) (v : Consoles) : Prop where
  width : v.display.vcWidth = w
  height : v.display.vcHeight = h
  inside : ∀ i < v.numVcs, v.display.vgaFbAdr ≤ (v.display.vc i).fbAdr ∧
    (v.display.vc i).fbAdr + 2 * (w * h) ≤ v.display.vgaFbAdr + 32768
  apart : ∀ i < v.numVcs, ∀ j < v.numVcs, i ≠ j →
    (v.display.vc i).fbAdr + 2 * (w * h) ≤ (v.display.vc j).fbAdr ∨
      (v.display.vc j).fbAdr + 2 * (w * h) ≤ (v.display.vc i).fbAdr

def withMem (mem : ByteMem) (v : Consoles) : Consoles :=
  { v with display := { v.display with mem := mem } }

/-- A call writes a byte if it changes what some memory has there. -/
def Writes (call : Call) (v : Consoles) (a : ℕ) : Prop :=
  ∃ mem fuel v', call.apply fuel (withMem mem v) = some v' ∧ v'.display.mem a ≠ mem a

/-- The cells of the console that a call is for. -/
def Region (home : Consoles) : Call → ℕ → Prop
  | .putch con _, a => ¬ Outside (home.display.screen con) a
  | .select _, _ => False

def StaysInside (home : Consoles) (call : Call) (v : Consoles) : Prop :=
  ∀ a, Writes call v a → Region home call a

/-- No tab runs past the last cell of its console. -/
def TabsFit : Call → Consoles → Prop
  | .putch con c, v => TabFits c (v.display.screen con)
  | .select _, _ => True

theorem showVc_crtc (whichVc : ℕ) (v : Display) : OnlyCrtc { v with currVc := whichVc } (showVc whichVc v) :=
  (outportb_crtc _ _ _).trans ((outportb_crtc _ _ _).trans ((outportb_crtc _ _ _).trans
    ((outportb_crtc _ _ _).trans (moveCsr_crtc _))))

/-- `select_vc` changes the current console and the hardware. -/
theorem selectVc_eq (whichVc : ℕ) (v : Consoles) :
    ∃ currVc crtc, selectVc whichVc v =
      { v with display := { v.display with currVc := currVc, crtc := crtc } } := by
  unfold selectVc
  split_ifs
  · exact ⟨v.display.currVc, v.display.crtc, rfl⟩
  · obtain ⟨crtc, hcrtc⟩ := showVc_crtc whichVc v.display
    exact ⟨whichVc, crtc, congrArg (Consoles.mk · v.numVcs) hcrtc⟩

/-- What holds of the consoles in every run: they are as many and where they were. -/
structure Kept (home v : Consoles) : Prop where
  numVcs : v.numVcs = home.numVcs
  sound : Sound home.numVcs v.display
  places : SamePlaces home.display v.display

theorem withMem_kept (h : Kept home v) (mem : ByteMem) : Kept home (withMem mem v) := by
  refine ⟨h.numVcs, ⟨fun i hi => ?_, fun i hi => ?_⟩, h.places.vgaFbAdr, fun i => ?_⟩
  · obtain ⟨hw, hh, hsmall, hlow⟩ := h.sound.sized i hi
    exact ⟨hw, hh, hsmall, hlow⟩
  · obtain ⟨hx, hy⟩ := h.sound.bounded i hi
    exact ⟨hx, hy⟩
  · obtain ⟨hsize, hfb⟩ := h.places.place i
    exact ⟨hsize, hfb⟩

/-- A call from a sound state returns, to a sound state. -/
theorem apply_effect (h : Kept home v) (hvalid : call.Valid v) :
    ∃ v', (∀ fuel, 9 ≤ fuel → call.apply fuel v = some v') ∧ Kept home v' := by
  cases call with
  | putch con c =>
    have hcon : con < home.numVcs := lt_of_lt_of_eq hvalid.1 h.numVcs
    obtain ⟨d, hput, hsound, hplaces, -⟩ := putchHelp_effect h.sound hcon c
    refine ⟨{ v with display := d }, fun fuel hfuel => ?_, h.numVcs, hsound,
      hplaces.vgaFbAdr.trans h.places.vgaFbAdr, fun i => (h.places.place i).trans (hplaces.place i)⟩
    rw [Call.apply, hput fuel hfuel]
    rfl
  | select whichVc =>
    refine ⟨selectVc whichVc v, fun _ _ => rfl, ?_⟩
    obtain ⟨currVc, crtc, hselect⟩ := selectVc_eq whichVc v
    rw [hselect]
    refine ⟨h.numVcs, ⟨fun i hi => ?_, fun i hi => ?_⟩, h.places.vgaFbAdr, fun i => ?_⟩
    · exact h.sound.sized i hi
    · exact h.sound.bounded i hi
    · exact h.places.place i

theorem apply_mono {fuel fuel' : ℕ} (hle : fuel ≤ fuel') (h : call.apply fuel v = some v') :
    call.apply fuel' v = some v' := by
  cases call with
  | putch con c =>
    obtain ⟨d, hd, hv⟩ := Option.map_eq_some_iff.mp h
    exact Option.map_eq_some_iff.mpr ⟨d, putchHelp_mono hle hd, hv⟩
  | select whichVc => exact h

theorem step_kept (h : Kept home v) (hstep : Step v call v') : Kept home v' := by
  obtain ⟨hvalid, fuel, happly⟩ := hstep
  obtain ⟨u, hu, hkept⟩ := apply_effect h hvalid
  have hmax := apply_mono (Nat.le_max_left fuel 9) happly
  rw [hu _ (Nat.le_max_right fuel 9)] at hmax
  exact Option.some.inj hmax ▸ hkept

/-- A call stays inside its console's cells exactly when its tab does. -/
theorem staysInside_iff (h : Kept home v) (hvalid : call.Valid v) :
    StaysInside home call v ↔ TabsFit call v := by
  cases call with
  | select whichVc =>
    refine ⟨fun _ => trivial, ?_⟩
    rintro - a ⟨mem, fuel, v', happly, hne⟩
    obtain ⟨currVc, crtc, hselect⟩ := selectVc_eq whichVc (withMem mem v)
    rw [Call.apply, hselect] at happly
    rw [← Option.some.inj happly] at hne
    exact absurd rfl hne
  | putch con c =>
    have hcon : con < home.numVcs := lt_of_lt_of_eq hvalid.1 h.numVcs
    -- the effect from any contents of memory
    have heffect (mem : ByteMem) := putchHelp_effect (withMem_kept h mem).sound hcon c
    have hregion (a : ℕ) : Region home (.putch con c) a ↔ ¬ Outside (v.display.screen con) a :=
      not_congr (h.places.place con).outside.symm
    constructor
    · intro hinside
      by_contra hpast
      obtain ⟨d, hput, -, -, -, -, heff⟩ := heffect fun _ => 0
      have hend := heff.past hpast
      refine (hregion _).mp (hinside _ ⟨fun _ => 0, 9, { v with display := d }, ?_, ?_⟩) (Or.inr le_rfl)
      · rw [Call.apply, hput 9 le_rfl]
        rfl
      · exact ne_of_eq_of_ne hend (show (0x20 : UInt8) ≠ 0 by decide)
    · rintro hfits a ⟨mem, fuel, v', happly, hne⟩
      obtain ⟨d, hput, -, -, -, -, heff⟩ := heffect mem
      have hmax := apply_mono (Nat.le_max_left fuel 9) happly
      rw [Call.apply, hput _ (Nat.le_max_right fuel 9), Option.map_some] at hmax
      rw [← Option.some.inj hmax] at hne
      exact (hregion a).mpr fun hout => hne (heff.within hfits a hout)

theorem run_kept {calls : List Call} (h : Kept home home) (hrun : Run Step home calls v) : Kept home v :=
  hrun.invariant (Kept home) h fun _ _ _ hkept hstep => step_kept hkept hstep

theorem probe_filled (misc : ℕ) (mem : ByteMem) (crtc : Crtc) :
    Filled (probe misc mem crtc) 0 (probe misc mem crtc) :=
  ⟨⟨fun i hi => absurd hi (Nat.not_lt_zero i), fun i hi => absurd hi (Nat.not_lt_zero i)⟩, rfl, rfl, rfl,
    fun i hi => absurd hi (Nat.not_lt_zero i), fun _ _ => rfl, fun h => absurd h (Nat.lt_irrefl 0)⟩

/-- There is a first console, and all of them together fit into the text buffer. -/
theorem countVcs_fits {start : Display} (hstart : Probed start) : ∃ n,
    countVcs start.vcWidth start.vcHeight = some n ∧ 0 < n ∧
      2 * (start.vcWidth * start.vcHeight) * n ≤ 32768 := by
  have hfits := hstart.fits
  have hcells : 0 < start.vcWidth * start.vcHeight := Nat.mul_pos hstart.width_pos hstart.height_pos
  have hsize : wmul (wmul start.vcWidth start.vcHeight) 2 = 2 * (start.vcWidth * start.vcHeight) := by
    rw [wmul_of_lt (a := start.vcWidth) (by rw [wordSize_eq]; omega),
      wmul_of_lt (by rw [wordSize_eq]; omega), Nat.mul_comm]
  have hquot : 32768 / (2 * (start.vcWidth * start.vcHeight)) ≤ 32768 := Nat.div_le_self _ _
  have hone : 1 ≤ 32768 / (2 * (start.vcWidth * start.vcHeight)) := (Nat.one_le_div_iff (by omega)).mpr hfits
  refine ⟨min (32768 / (2 * (start.vcWidth * start.vcHeight)) % 2 ^ 16) maxVc, ?_, ?_, ?_⟩
  · rw [countVcs, hsize]
    exact if_neg (by omega)
  · rw [Nat.mod_eq_of_lt (by omega), maxVc]
    omega
  · rw [Nat.mod_eq_of_lt (by omega)]
    exact (Nat.mul_le_mul_left _ (Nat.min_le_left _ _)).trans (Nat.mul_div_le _ _)

theorem Filled.regions {start d : Display} {n : ℕ} (h : Filled start n d)
    (hroom : 2 * (start.vcWidth * start.vcHeight) * n ≤ 32768) :
    Regions start.vcWidth start.vcHeight ⟨d, n⟩ := by
  -- the end of one console is at most the start of any later one
  have hstack (i j : ℕ) (hij : i < j) : start.vcWidth * start.vcHeight * i + start.vcWidth * start.vcHeight ≤
      start.vcWidth * start.vcHeight * j := by
    rw [← Nat.mul_succ]
    exact Nat.mul_le_mul_left _ hij
  refine ⟨h.width, h.height, fun i hi => ?_, fun i hi j hj hij => ?_⟩
  · have hend := hstack i n hi
    rw [Nat.mul_assoc] at hroom
    change d.vgaFbAdr ≤ (d.vc i).fbAdr ∧ (d.vc i).fbAdr + _ ≤ d.vgaFbAdr + 32768
    rw [h.fbAdr i hi, h.vgaFbAdr]
    omega
  · change (d.vc i).fbAdr + _ ≤ (d.vc j).fbAdr ∨ (d.vc j).fbAdr + _ ≤ (d.vc i).fbAdr
    rw [h.fbAdr i hi, h.fbAdr j hj]
    rcases Nat.lt_or_gt_of_ne hij with hlt | hgt
    · have hend := hstack i j hlt
      omega
    · have hend := hstack j i hgt
      omega

theorem initConsole_regions (misc : ℕ) (mem : ByteMem) (crtc : Crtc) (hwidth : 1 ≤ readWord mem 0x44A)
    (hfits : 2 * (readWord mem 0x44A * ((mem 0x484).toNat + 1)) ≤ 32768) :
    ∃ v₀, (∀ tabs, 9 ≤ tabs → ∃ m, ∀ fuel, m ≤ fuel → initConsole fuel tabs misc mem crtc = some v₀) ∧
      Kept v₀ v₀ ∧ Regions (readWord mem 0x44A) ((mem 0x484).toNat + 1) v₀ ∧ 0 < v₀.numVcs ∧
      v₀.display.vc 0 = ⟨0, 1, 0, 0, 0, 0, 0, v₀.display.vgaFbAdr⟩ ∧ v₀.display.vgaFbAdr ≤ 0xB8000 := by
  have hbase : (probe misc mem crtc).vgaFbAdr ≤ 0xB8000 := by
    change (if misc &&& 1 ≠ 0 then 0xB8000 else 0xB0000) ≤ 0xB8000
    split_ifs <;> decide
  have hprobed : Probed (probe misc mem crtc) := ⟨hwidth, Nat.succ_pos _, hfits, hbase⟩
  obtain ⟨n, hcount, hpos, hroom⟩ := countVcs_fits hprobed
  obtain ⟨d, hinit, hfilled⟩ := initVcs_filled hprobed (probe_filled misc mem crtc) n hroom
  obtain ⟨currVc, crtc', hselect⟩ := selectVc_eq 0 ⟨d, n⟩
  refine ⟨selectVc 0 ⟨d, n⟩, fun tabs htabs => ?_, ?_⟩
  · obtain ⟨m, hm⟩ := hinit tabs htabs
    refine ⟨m, fun fuel hfuel => ?_⟩
    unfold initConsole
    simp only [hcount, Option.bind_eq_bind, Option.bind_some]
    rw [hm fuel hfuel]
    rfl
  · obtain ⟨hw, hh, hinside, hapart⟩ := hfilled.regions hroom
    rw [hselect]
    refine ⟨⟨rfl, ⟨hfilled.sound.sized, hfilled.sound.bounded⟩, rfl, fun _ => SamePlace.refl _⟩,
      ⟨hw, hh, hinside, hapart⟩, hpos, ?_, ?_⟩
    · change d.vc 0 = ⟨0, 1, 0, 0, 0, 0, 0, d.vgaFbAdr⟩
      rw [hfilled.first hpos, hfilled.vgaFbAdr]
    · change d.vgaFbAdr ≤ 0xB8000
      rw [hfilled.vgaFbAdr]
      exact hbase

/-- The consoles after `init_console`. With more fuel the result stays the same. -/
def Started (misc : ℕ) (mem : ByteMem) (crtc : Crtc) (v : Consoles) : Prop :=
  ∀ tabs, 9 ≤ tabs → ∃ m, ∀ fuel, m ≤ fuel → initConsole fuel tabs misc mem crtc = some v

/-- The cursors stay on the screen in every run. The text stays in its console's cells exactly in the runs
whose tabs do. -/
theorem consoles_stay (misc : ℕ) (mem : ByteMem) (crtc : Crtc) (hwidth : 1 ≤ readWord mem 0x44A)
    (hfits : 2 * (readWord mem 0x44A * ((mem 0x484).toNat + 1)) ≤ 32768) :
    ∃ v₀, Started misc mem crtc v₀ ∧ Regions (readWord mem 0x44A) ((mem 0x484).toNat + 1) v₀ ∧
      ∀ calls v, Run Step v₀ calls v →
        (∀ i < v₀.numVcs, (v.display.vc i).csrX < readWord mem 0x44A ∧
          (v.display.vc i).csrY < (mem 0x484).toNat + 1) ∧
        (Every Step (fun _ u call _ => StaysInside v₀ call u) v₀ calls ↔
          Every Step (fun _ u call _ => TabsFit call u) v₀ calls) ∧
        ∀ call, call.Valid v → ∃ v', Step v call v' := by
  obtain ⟨v₀, hinit, hkept, hregions, -, -⟩ := initConsole_regions misc mem crtc hwidth hfits
  refine ⟨v₀, hinit, hregions, fun calls v hrun => ⟨fun i hi => ?_, ?_, fun call hvalid => ?_⟩⟩
  · have h := run_kept hkept hrun
    obtain ⟨hx, hy⟩ := h.sound.bounded i hi
    have hsize := (h.places.place i).size
    rw [hsize.1] at hx
    rw [hsize.2] at hy
    exact ⟨lt_of_lt_of_eq hx hregions.width, lt_of_lt_of_eq hy hregions.height⟩
  · constructor <;> intro hevery <;> refine hevery.imp fun pre u call u' hpre hstep h => ?_
    · exact (staysInside_iff (run_kept hkept hpre) hstep.1).mp h
    · exact (staysInside_iff (run_kept hkept hpre) hstep.1).mpr h
  · obtain ⟨v', happly, -⟩ := apply_effect (run_kept hkept hrun) hvalid
    exact ⟨v', hvalid, 9, happly 9 le_rfl⟩

theorem run_of_screen {con : ℕ} {s u : Screen} {text : List ℕ} (hcon : con < v.numVcs)
    (htext : ∀ c ∈ text, c < wordSize)
    (hs : v.display.screen con = s) (htype : text.foldlM (fun s c => putchScreen 9 c s) s = some u) :
    ∃ v', Run Step v (text.map (.putch con)) v' ∧ v'.display.screen con = u := by
  induction text generalizing v s with
  | nil =>
    cases htype
    exact ⟨v, .refl v, hs⟩
  | cons c text ih =>
    obtain ⟨hc, htext⟩ := List.forall_mem_cons.mp htext
    rw [List.foldlM_cons] at htype
    obtain ⟨w, hw, hrest⟩ := Option.bind_eq_some_iff.mp htype
    rw [← hs] at hw
    obtain ⟨d, hput, hd⟩ := putchHelp_of_screen hw
    have happly : Call.apply 9 (.putch con c) v = some { v with display := d } := by
      rw [Call.apply, hput]
      rfl
    have hstep : Step v (.putch con c) { v with display := d } := ⟨⟨hcon, hc⟩, 9, happly⟩
    obtain ⟨v', hrun, hv'⟩ := ih (v := { v with display := d }) hcon htext hd hrest
    exact ⟨v', .next hstep hrun, hv'⟩

/-- A text mode of 132 columns and 25 rows. -/
def wideMode : ByteMem := fun a => if a = 0x44A then 132 else if a = 0x484 then 24 else 0

/-- ESC[24;128H moves to the bottom row, past its last tab stop. -/
def toLastStop : List ℕ := [0x1B, 0x5B, 0x32, 0x34, 0x3B, 0x31, 0x32, 0x38, 0x48]

theorem consoles_stay_wideMode : ∃ v₀, Started 1 wideMode ⟨0, fun _ => 0⟩ v₀ ∧ Regions 132 25 v₀ ∧
    ∀ calls v, Run Step v₀ calls v →
      (∀ i < v₀.numVcs, (v.display.vc i).csrX < 132 ∧ (v.display.vc i).csrY < 25) ∧
      (Every Step (fun _ u call _ => StaysInside v₀ call u) v₀ calls ↔
        Every Step (fun _ u call _ => TabsFit call u) v₀ calls) ∧
      ∀ call, call.Valid v → ∃ v', Step v call v' :=
  consoles_stay 1 wideMode ⟨0, fun _ => 0⟩ (by decide) (by decide)

theorem toLastStop_screen (m : ByteMem) (fb : ℕ) :
    toLastStop.foldlM (fun s c => putchScreen 9 c s) ⟨m, ⟨0, 1, 0, 0, 0, 0, 0, fb⟩, 132, 25⟩ =
      some ⟨m, ⟨0, 1, 128, 24, 24, 128, 0, fb⟩, 132, 25⟩ := by
  simp [toLastStop, putchScreen, escape, escapeOne, escapeTwo, isDigit, addDigit, Screen.setCon, Screen.moveTo,
    Console.endEsc, wadd, wsub, wmul, wordSize]

theorem tab_leaves_console : ∃ v₀, Started 1 wideMode ⟨0, fun _ => 0⟩ v₀ ∧ Regions 132 25 v₀ ∧
    ∃ v, Run Step v₀ ((toLastStop ++ [0x09]).map (.putch 0)) v ∧
      ¬ Every Step (fun _ u call _ => StaysInside v₀ call u) v₀ ((toLastStop ++ [0x09]).map (.putch 0)) := by
  obtain ⟨v₀, hinit, hkept, hregions, hpos, hfirst, -⟩ :=
    initConsole_regions 1 wideMode ⟨0, fun _ => 0⟩ (by decide) (by decide)
  have hscreen : v₀.display.screen 0 =
      ⟨v₀.display.mem, ⟨0, 1, 0, 0, 0, 0, 0, v₀.display.vgaFbAdr⟩, 132, 25⟩ := by
    rw [Display.screen, hfirst, hregions.width, hregions.height]
    rfl
  obtain ⟨u, hrun, hu⟩ := @run_of_screen v₀ 0 _
    ⟨v₀.display.mem, ⟨0, 1, 128, 24, 24, 128, 0, v₀.display.vgaFbAdr⟩, 132, 25⟩ toLastStop hpos
    (by decide) hscreen (toLastStop_screen _ _)
  have hkeptu := run_kept hkept hrun
  have hvalid : (Call.putch 0 0x09).Valid u := ⟨hkeptu.numVcs ▸ hpos, by decide⟩
  obtain ⟨v, happly, -⟩ := apply_effect hkeptu hvalid
  have hstep : Step u (.putch 0 0x09) v := ⟨hvalid, 9, happly 9 le_rfl⟩
  rw [List.map_append]
  refine ⟨v₀, hinit, hregions, v, hrun.snoc hstep, fun hevery => ?_⟩
  have htab := (staysInside_iff hkeptu hvalid).mp ((every_snoc.mp hevery).2 u v hrun hstep)
  have hesc : (u.display.screen 0).con.esc < 2 := by
    rw [hu]
    exact Nat.zero_lt_two
  have hpast := htab rfl (Or.inl hesc)
  rw [hu] at hpast
  exact absurd hpast (show ¬ 132 * 24 + (128 / 8 + 1) * 8 ≤ 132 * 25 by decide)

end Calls

end Ktux.ConsoleBounds
