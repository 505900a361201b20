import Mathlib.Algebra.BigOperators.Group.List.Basic
import Mathlib.Algebra.Order.BigOperators.Group.List
import Mathlib.Algebra.Ring.Nat

/-!
# Antiproton.Images.Window

Which images of a conversation one request carries (`windowBounds`, `src/model/images.ts`): the newest that fit the window,
the start snapped forward to a multiple of a step.

* `fits_le_iff`: `fits` is the oldest index from which the images fit.
* `start_append`: the start never moves back.
* `start_apart`: where the byte budget does not bind, two moves of the start are a step of images apart.
-/

namespace Antiproton.Images

structure ImageWindow where
  maxImages : Nat
  maxBytes : Nat
deriving DecidableEq

def DEFAULT_IMAGE_WINDOW : ImageWindow := ⟨8, 12 * 1024 * 1024⟩

def IMAGE_WINDOW_STEP : Nat := 4

def windowStep (window : ImageWindow) : Nat := max 1 (min IMAGE_WINDOW_STEP window.maxImages)

/-- How far back the images fit, from `fits` on, where those past it are `bytes` already. -/
def fitsFrom (sizes : List Nat) (window : ImageWindow) : Nat → Nat → Nat
  | 0, _ => 0
  | fits + 1, bytes =>
    if sizes.length - fits ≤ window.maxImages ∧ bytes + sizes.getD fits 0 ≤ window.maxBytes then
      fitsFrom sizes window fits (bytes + sizes.getD fits 0)
    else fits + 1

/-- `Math.ceil(fits / step) * step`. -/
def snapped (step fits : Nat) : Nat := (fits + step - 1) / step * step

structure Bounds where
  fits : Nat
  start : Nat
deriving DecidableEq

def windowBounds (sizes : List Nat) (window : ImageWindow) : Bounds :=
  let fits := fitsFrom sizes window sizes.length 0
  ⟨fits, if fits < sizes.length then min (snapped (windowStep window) fits) (sizes.length - 1) else sizes.length⟩

def windowStart (sizes : List Nat) (window : ImageWindow) : Nat := (windowBounds sizes window).start

/-- The images from an index to the end fit the window. -/
def SuffixFits (sizes : List Nat) (window : ImageWindow) (i : Nat) : Prop :=
  sizes.length - i ≤ window.maxImages ∧ (sizes.drop i).sum ≤ window.maxBytes

section Fits

variable {sizes : List Nat} {window : ImageWindow}

theorem sum_drop {i : Nat} (h : i < sizes.length) : (sizes.drop i).sum = sizes.getD i 0 + (sizes.drop (i + 1)).sum := by
  rw [List.drop_eq_getElem_cons h, List.sum_cons, List.getD_eq_getElem?_getD, List.getElem?_eq_getElem h, Option.getD_some]

theorem SuffixFits.later {i j : Nat} (h : SuffixFits sizes window i) (hij : i ≤ j) : SuffixFits sizes window j := by
  refine ⟨by have := h.1; omega, ?_⟩
  obtain ⟨k, rfl⟩ := Nat.exists_eq_add_of_le hij
  rw [← List.drop_drop]
  have hsum := congrArg List.sum (List.take_append_drop k (sizes.drop i))
  rw [List.sum_append] at hsum
  have := h.2
  omega

theorem fitsFrom_le_iff {k bytes : Nat} (hk : k ≤ sizes.length) (hfits : SuffixFits sizes window k)
    (hbytes : bytes = (sizes.drop k).sum) {i : Nat} (hi : i ≤ k) :
    fitsFrom sizes window k bytes ≤ i ↔ SuffixFits sizes window i := by
  induction k generalizing bytes i with
  | zero =>
    rw [Nat.le_zero.1 hi]
    exact iff_of_true (Nat.le_refl 0) hfits
  | succ k ih =>
    have hsum := sum_drop hk
    unfold fitsFrom
    split
    · next hgo =>
      have hfits' : SuffixFits sizes window k := ⟨hgo.1, by omega⟩
      rcases Nat.lt_or_eq_of_le hi with hlt | rfl
      · exact ih (Nat.le_of_lt hk) hfits' (by omega) (Nat.le_of_lt_succ hlt)
      · have hbytes' : bytes + sizes.getD k 0 = (sizes.drop k).sum := by omega
        have hle := (ih (Nat.le_of_lt hk) hfits' hbytes' (Nat.le_refl k)).2 hfits'
        exact iff_of_true (Nat.le_succ_of_le hle) hfits
    · next hstop =>
      constructor
      · intro hle
        rw [Nat.le_antisymm hi hle]
        exact hfits
      · intro h
        refine Nat.le_of_not_lt fun hlt => hstop ?_
        obtain ⟨hcount, hbudget⟩ := h.later (Nat.le_of_lt_succ hlt)
        exact ⟨hcount, by omega⟩

/-- `fits` is the oldest index from which the images fit. -/
theorem fits_le_iff {i : Nat} (hi : i ≤ sizes.length) :
    (windowBounds sizes window).fits ≤ i ↔ SuffixFits sizes window i := by
  refine fitsFrom_le_iff (Nat.le_refl _) ⟨?_, ?_⟩ ?_ hi
  · omega
  · rw [List.drop_length]
    exact Nat.zero_le _
  · rw [List.drop_length]
    rfl

theorem fits_le (sizes : List Nat) (window : ImageWindow) : (windowBounds sizes window).fits ≤ sizes.length := by
  refine (fits_le_iff (Nat.le_refl _)).2 ⟨by omega, ?_⟩
  rw [List.drop_length]
  exact Nat.zero_le _

theorem windowStep_pos (window : ImageWindow) : 0 < windowStep window := Nat.lt_of_lt_of_le Nat.one_pos (Nat.le_max_left _ _)

theorem le_snapped {step : Nat} (hstep : 0 < step) (fits : Nat) : fits ≤ snapped step fits ∧ snapped step fits < fits + step := by
  unfold snapped
  have hdiv := Nat.div_add_mod (fits + step - 1) step
  have hmod := Nat.mod_lt (fits + step - 1) hstep
  rw [Nat.mul_comm] at hdiv
  omega

theorem snapped_zero {step : Nat} (hstep : 0 < step) : snapped step 0 = 0 := by
  unfold snapped
  rw [Nat.zero_add, Nat.div_eq_of_lt (Nat.sub_lt hstep Nat.one_pos), Nat.zero_mul]

theorem snapped_mono (step : Nat) {fits fits' : Nat} (h : fits ≤ fits') : snapped step fits ≤ snapped step fits' :=
  Nat.mul_le_mul_right _ (Nat.div_le_div_right (by omega))

theorem start_eq (sizes : List Nat) (window : ImageWindow) : windowStart sizes window =
    if (windowBounds sizes window).fits < sizes.length then
      min (snapped (windowStep window) (windowBounds sizes window).fits) (sizes.length - 1)
    else sizes.length := rfl

theorem fits_le_start (sizes : List Nat) (window : ImageWindow) :
    (windowBounds sizes window).fits ≤ windowStart sizes window ∧ windowStart sizes window ≤ sizes.length := by
  have hle := fits_le sizes window
  have hsnap := (le_snapped (windowStep_pos window) (windowBounds sizes window).fits).1
  rw [start_eq]
  split <;> omega

/-- The images sent fit the window. -/
theorem start_fits (sizes : List Nat) (window : ImageWindow) : SuffixFits sizes window (windowStart sizes window) := by
  have h : SuffixFits sizes window (windowBounds sizes window).fits :=
    (fits_le_iff (fits_le sizes window)).1 (Nat.le_refl _)
  exact h.later (fits_le_start sizes window).1

/-- The newest image is sent when it fits alone. -/
theorem start_newest {sizes : List Nat} {size : Nat} (hcount : 1 ≤ window.maxImages) (hsize : size ≤ window.maxBytes) :
    windowStart (sizes ++ [size]) window ≤ sizes.length := by
  have hfits : (windowBounds (sizes ++ [size]) window).fits ≤ sizes.length := by
    refine (fits_le_iff (by simp)).2 ⟨?_, ?_⟩
    · rw [List.length_append, List.length_singleton]
      omega
    · rw [List.drop_left, List.sum_singleton]
      exact hsize
  rw [start_eq, List.length_append, List.length_singleton, if_pos (Nat.lt_succ_of_le hfits)]
  exact Nat.min_le_right _ _

theorem fits_append (sizes more : List Nat) (window : ImageWindow) :
    (windowBounds sizes window).fits ≤ (windowBounds (sizes ++ more) window).fits := by
  rcases Nat.lt_or_ge sizes.length (windowBounds (sizes ++ more) window).fits with hlt | hge
  · exact Nat.le_trans (fits_le sizes window) (Nat.le_of_lt hlt)
  · obtain ⟨hcount, hbytes⟩ := (fits_le_iff (fits_le (sizes ++ more) window)).1 (Nat.le_refl _)
    rw [List.length_append] at hcount
    rw [List.drop_append_of_le_length hge, List.sum_append] at hbytes
    exact (fits_le_iff hge).2 ⟨by omega, by omega⟩

/-- The start never moves back. -/
theorem start_append (sizes more : List Nat) (window : ImageWindow) :
    windowStart sizes window ≤ windowStart (sizes ++ more) window := by
  have hfits := fits_append sizes more window
  have hsnap := snapped_mono (windowStep window) hfits
  have hsnapped := (le_snapped (windowStep_pos window) (windowBounds (sizes ++ more) window).fits).1
  have hle := fits_le sizes window
  have hle' := fits_le (sizes ++ more) window
  rw [start_eq, start_eq]
  rw [List.length_append] at *
  split <;> split
  · omega
  · omega
  · rcases Nat.eq_zero_or_pos more.length with hzero | hpos
    · omega
    · omega
  · omega

end Fits

/-! ## Where the byte budget does not bind -/

/-- The newest images the window may hold by their number fit it by their bytes. -/
def BytesFree (sizes : List Nat) (window : ImageWindow) : Prop :=
  (sizes.drop (sizes.length - window.maxImages)).sum ≤ window.maxBytes

section Free

variable {sizes : List Nat} {window : ImageWindow}

theorem fits_free (h : BytesFree sizes window) : (windowBounds sizes window).fits = sizes.length - window.maxImages := by
  refine Nat.le_antisymm ?_ ?_
  · exact (fits_le_iff (Nat.sub_le _ _)).2 ⟨by omega, h⟩
  · have hcount := ((fits_le_iff (fits_le sizes window)).1 (Nat.le_refl _)).1
    omega

theorem start_free (h : BytesFree sizes window) :
    windowStart sizes window = snapped (windowStep window) (sizes.length - window.maxImages) := by
  have hsnap := le_snapped (windowStep_pos window) (sizes.length - window.maxImages)
  have hzero := snapped_zero (windowStep_pos window)
  have hstep : windowStep window = max 1 (min 4 window.maxImages) := rfl
  rw [start_eq, fits_free h]
  split
  · refine Nat.min_eq_left ?_
    rcases Nat.le_total sizes.length window.maxImages with hle | hle
    · rw [Nat.sub_eq_zero_of_le hle, hzero]
      exact Nat.zero_le _
    · omega
  · rcases Nat.eq_zero_or_pos window.maxImages with hnone | hpos
    · have hone : windowStep window = 1 := by omega
      rw [hone] at hsnap ⊢
      omega
    · have hempty : sizes.length = 0 := by omega
      rw [hempty, Nat.zero_sub, hzero]

/-- The snapped value moves only past a multiple of the step. -/
theorem snapped_moves {step a : Nat} (hstep : 0 < step) (h : snapped step a ≠ snapped step (a + 1)) : step ∣ a := by
  by_contra hno
  have hnext : a + 1 + step - 1 = (a + step - 1) + 1 := by omega
  have hsame : (a + step - 1 + 1) / step = (a + step - 1) / step := by
    rw [Nat.succ_div, if_neg, Nat.add_zero]
    intro hdvd
    have hdvd' : step ∣ a + step := by
      have heq : a + step - 1 + 1 = a + step := by omega
      rwa [heq] at hdvd
    exact hno ((Nat.dvd_add_left (Nat.dvd_refl step)).1 hdvd')
  refine h ?_
  unfold snapped
  rw [hnext, hsame]

theorem snapped_apart {step a b : Nat} (hstep : 0 < step) (ha : snapped step a ≠ snapped step (a + 1))
    (hb : snapped step b ≠ snapped step (b + 1)) (hab : a < b) : step ≤ b - a :=
  Nat.le_of_dvd (Nat.sub_pos_of_lt hab) (Nat.dvd_sub (snapped_moves hstep hb) (snapped_moves hstep ha))

/-- Two moves of the start are a step of appended images apart. -/
theorem start_apart {more : List Nat} (hfree : ∀ k ≤ more.length, BytesFree (sizes ++ more.take k) window) {i j : Nat}
    (hij : i < j) (hj : j < more.length)
    (hi : windowStart (sizes ++ more.take i) window ≠ windowStart (sizes ++ more.take (i + 1)) window)
    (hj' : windowStart (sizes ++ more.take j) window ≠ windowStart (sizes ++ more.take (j + 1)) window) :
    windowStep window ≤ j - i := by
  have hstart : ∀ k ≤ more.length, windowStart (sizes ++ more.take k) window =
      snapped (windowStep window) (sizes.length + k - window.maxImages) := by
    intro k hk
    rw [start_free (hfree k hk), List.length_append, List.length_take_of_le hk]
  have hmoves : ∀ k < more.length,
      windowStart (sizes ++ more.take k) window ≠ windowStart (sizes ++ more.take (k + 1)) window →
        window.maxImages ≤ sizes.length + k ∧ snapped (windowStep window) (sizes.length + k - window.maxImages) ≠
          snapped (windowStep window) (sizes.length + k - window.maxImages + 1) := by
    intro k hk hmove
    rw [hstart k (Nat.le_of_lt hk), hstart (k + 1) hk] at hmove
    rcases Nat.lt_or_ge (sizes.length + k) window.maxImages with hlt | hge
    · refine absurd ?_ hmove
      rw [Nat.sub_eq_zero_of_le (Nat.le_of_lt hlt), Nat.sub_eq_zero_of_le (by omega)]
    · have hnext : sizes.length + (k + 1) - window.maxImages = sizes.length + k - window.maxImages + 1 := by omega
      rw [hnext] at hmove
      exact ⟨hge, hmove⟩
  obtain ⟨hge, hi⟩ := hmoves i (by omega) hi
  obtain ⟨-, hj'⟩ := hmoves j hj hj'
  have := snapped_apart (windowStep_pos window) hi hj' (by omega)
  omega

end Free

end Antiproton.Images
