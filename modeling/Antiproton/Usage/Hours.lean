import Antiproton.Lib.Intervals
import Antiproton.Usage.Outbox

/-!
# Antiproton.Usage.Hours

One interval cut at hour boundaries (`msByHour`, `src/usage/outbox.ts`). Every resource charged by time cuts it here:
the object's own busy spans and a container's life.

* `mem_hoursIn`: the loop goes through the hours the interval reaches, each once.
* `msByHour_at`: what it gives an hour is the part of the interval in that hour.
* `msByHour_sum`: the parts add up to the interval.
-/

namespace Antiproton
namespace Usage

open Intervals

/-- Whose object it is. -/
structure Who where
  tenantId : String
  agentId : String
deriving DecidableEq

/-- `Math.round`. -/
def mathRound {α : Type} [Field α] [LinearOrder α] [FloorRing α] (x : α) : Int := ⌊x + 1 / 2⌋

/-- `Math.floor(t / HOUR_MS) * HOUR_MS`. -/
def hourStart (t : ℚ) : Int := ⌊t / hourMs⌋ * hourMs

/-- The values `h` takes in the loop of `msByHour`. -/
def hoursIn (start stop : ℚ) : List Int :=
  (List.range (⌈stop / hourMs⌉ - ⌊start / hourMs⌋).toNat).map fun k : Nat => (⌊start / hourMs⌋ + k) * hourMs

/-- `msByHour`. -/
def msByHour (start stop : ℚ) : List (Int × ℚ) :=
  if stop ≤ start then []
  else (hoursIn start stop).filterMap fun h : Int =>
    let ms := min stop (h + hourMs) - max start h
    if 0 < ms then some (h, ms) else none

/-- The part of an interval in the hour that starts at `h`. -/
def inHour (h : Int) (i : HalfOpen) : ℚ := overlap h (h + hourMs) i

theorem mathRound_cast (q : ℚ) : mathRound (q : ℝ) = mathRound q := by
  have hcast : (q : ℝ) + 1 / 2 = ((q + 1 / 2 : ℚ) : ℝ) := by push_cast; rfl
  rw [mathRound, hcast, Rat.floor_cast, mathRound]

theorem mathRound_int (n : Int) : mathRound (n : ℚ) = n := by
  unfold mathRound
  rw [Int.floor_intCast_add]
  norm_num

theorem mathRound_mono {x y : ℝ} (h : x ≤ y) : mathRound x ≤ mathRound y := Int.floor_mono (by linarith)

theorem mathRound_nonneg {x : ℝ} (h : 0 ≤ x) : 0 ≤ mathRound x := Int.floor_nonneg.2 (by linarith)

theorem hourOf_hour {h : Int} (hd : hourMs ∣ h) : hourOf h = h := Int.ediv_mul_cancel hd

/-! ## The hours gone through -/

theorem hourMs_pos : (0 : ℚ) < hourMs := by norm_num [hourMs]

theorem mem_hoursIn {start stop : ℚ} {h : Int} :
    h ∈ hoursIn start stop ↔ hourMs ∣ h ∧ hourStart start ≤ h ∧ (h : ℚ) < stop := by
  have hpos : (0 : Int) < hourMs := by decide
  unfold hoursIn hourStart
  simp only [List.mem_map, List.mem_range]
  constructor
  · rintro ⟨k, hk, rfl⟩
    refine ⟨Dvd.intro_left _ rfl, ?_, ?_⟩
    · exact mul_le_mul_of_nonneg_right (by omega) hpos.le
    · have hlt : ⌊start / hourMs⌋ + (k : Int) < ⌈stop / hourMs⌉ := by omega
      rw [Int.lt_ceil, lt_div_iff₀ hourMs_pos] at hlt
      exact_mod_cast hlt
  · rintro ⟨⟨m, rfl⟩, hfrom, hto⟩
    rw [mul_comm] at hfrom
    have hle : ⌊start / hourMs⌋ ≤ m := le_of_mul_le_mul_left hfrom hpos
    have hlt : m < ⌈stop / hourMs⌉ := by
      rw [Int.lt_ceil, lt_div_iff₀ hourMs_pos, mul_comm]
      exact_mod_cast hto
    refine ⟨(m - ⌊start / hourMs⌋).toNat, by omega, ?_⟩
    rw [mul_comm, Int.toNat_of_nonneg (by omega)]
    ring

theorem hour_of_msByHour {start stop : ℚ} {h : Int} (hh : h ∈ (msByHour start stop).map Prod.fst) : hourMs ∣ h := by
  obtain ⟨r, hr, rfl⟩ := List.mem_map.1 hh
  unfold msByHour at hr
  split at hr
  · cases hr
  · obtain ⟨k, hk, hr⟩ := List.mem_filterMap.1 hr
    dsimp only at hr
    split at hr
    · cases hr
      exact (mem_hoursIn.1 hk).1
    · cases hr

theorem msByHour_pos {start stop : ℚ} {r : Int × ℚ} (hr : r ∈ msByHour start stop) : 0 < r.2 := by
  unfold msByHour at hr
  split at hr
  · cases hr
  · obtain ⟨k, -, hr⟩ := List.mem_filterMap.1 hr
    dsimp only at hr
    split at hr
    · rename_i hpos
      cases hr
      exact hpos
    · cases hr

theorem nodup_hoursIn (start stop : ℚ) : (hoursIn start stop).Nodup := by
  refine List.nodup_range.map fun k k' h => ?_
  have hpos : hourMs ≠ 0 := by decide
  have hsame := mul_right_cancel₀ hpos h
  omega

theorem hourStart_le (t : ℚ) : (hourStart t : ℚ) ≤ t := by
  have h := Int.floor_le (t / hourMs)
  rw [le_div_iff₀ hourMs_pos] at h
  unfold hourStart
  exact_mod_cast h

theorem lt_hourStart_add (t : ℚ) : t < hourStart t + hourMs := by
  have h := Int.lt_floor_add_one (t / hourMs)
  rw [div_lt_iff₀ hourMs_pos] at h
  unfold hourStart
  push_cast
  linarith

/-- An hour the loop leaves out has no part of the interval. -/
theorem inHour_outside {start stop : ℚ} {h : Int} (hd : hourMs ∣ h) (hh : h ∉ hoursIn start stop) :
    inHour h (start, stop) = 0 := by
  rw [mem_hoursIn] at hh
  refine overlap_outside ?_
  by_cases hto : (h : ℚ) < stop
  · left
    have hlt : h < hourStart start := not_le.1 fun hle => hh ⟨hd, hle, hto⟩
    obtain ⟨m, rfl⟩ := hd
    have hm : m + 1 ≤ ⌊start / hourMs⌋ := by
      have hpos : (0 : Int) < hourMs := by decide
      unfold hourStart at hlt
      rw [mul_comm] at hlt
      exact Int.add_one_le_iff.2 (lt_of_mul_lt_mul_right hlt hpos.le)
    have hnext : hourMs * m + hourMs ≤ hourStart start := by
      unfold hourStart
      calc hourMs * m + hourMs = (m + 1) * hourMs := by ring
        _ ≤ ⌊start / hourMs⌋ * hourMs := mul_le_mul_of_nonneg_right hm (by decide)
    have hcast : ((hourMs * m : Int) : ℚ) + hourMs ≤ hourStart start := by exact_mod_cast hnext
    exact hcast.trans (hourStart_le start)
  · exact .inr (not_lt.1 hto)

/-! ## The parts -/

theorem inHour_nonneg (h : Int) (i : HalfOpen) : 0 ≤ inHour h i := overlap_nonneg ..

/-- A sum over the parts an hour loop keeps is a sum over the hours. -/
theorem total_parts (p : Int → Bool) (i : HalfOpen) (hours : List Int) :
    Ledger.total p (hours.filterMap fun h : Int =>
      if 0 < min i.2 (h + hourMs) - max i.1 h then some (h, min i.2 (h + hourMs) - max i.1 h) else none) =
      (hours.map fun h => if p h then inHour h i else 0).sum := by
  induction hours with
  | nil => rfl
  | cons h hours ih =>
    rw [List.map_cons, List.sum_cons, List.filterMap_cons]
    by_cases hms : 0 < min i.2 ((h : ℚ) + hourMs) - max i.1 h
    · rw [if_pos hms, Ledger.total_cons, ih, inHour, overlap, max_eq_right hms.le]
    · rw [if_neg hms, ih, inHour, overlap, max_eq_left (not_lt.1 hms), ite_self, zero_add]

theorem total_msByHour (p : Int → Bool) {start stop : ℚ} (h : start < stop) :
    Ledger.total p (msByHour start stop) =
      ((hoursIn start stop).map fun k => if p k then inHour k (start, stop) else 0).sum := by
  rw [← total_parts, msByHour, if_neg (not_le.2 h)]

theorem sum_at {hours : List Int} (hn : hours.Nodup) (g : Int → ℚ) (h : Int) :
    (hours.map fun k => if k = h then g k else 0).sum = if h ∈ hours then g h else 0 := by
  induction hours with
  | nil => rfl
  | cons k hours ih =>
    rw [List.nodup_cons] at hn
    rw [List.map_cons, List.sum_cons, ih hn.2]
    by_cases hk : k = h
    · subst hk
      simp [hn.1]
    · simp [hk, Ne.symm hk]

/-- What an hour is given is the part of the interval in it. -/
theorem msByHour_at {start stop : ℚ} {h : Int} (hd : hourMs ∣ h) :
    Ledger.total (fun k => decide (k = h)) (msByHour start stop) = inHour h (start, stop) := by
  by_cases hlt : start < stop
  · rw [total_msByHour _ hlt]
    simp only [decide_eq_true_eq]
    rw [sum_at (nodup_hoursIn start stop)]
    split
    · rfl
    · rename_i hh
      rw [inHour_outside hd hh]
  · rw [msByHour, if_pos (not_lt.1 hlt), Ledger.total_nil, inHour, overlap, max_eq_left]
    have h1 : min stop ((h : ℚ) + hourMs) ≤ stop := min_le_left ..
    have h2 : start ≤ max start (h : ℚ) := le_max_left ..
    linarith

/-- Consecutive hours hold the part of an interval that the time from the first to the last of them does. -/
theorem sum_inHour {i : HalfOpen} (hi : i.1 ≤ i.2) (f : Int) (n : Nat) :
    ((List.range n).map fun k : Nat => inHour ((f + k) * hourMs) i).sum =
      overlap ((f * hourMs : Int) : ℚ) (((f + n) * hourMs : Int) : ℚ) i := by
  induction n with
  | zero =>
    have hzero : overlap ((f * hourMs : Int) : ℚ) ((f * hourMs : Int) : ℚ) i = 0 := by
      refine max_eq_left (sub_nonpos.2 ?_)
      exact (min_le_right _ _).trans (le_max_right _ _)
    simpa using hzero.symm
  | succ n ih =>
    rw [List.range_succ, List.map_append, List.sum_append, ih]
    have hstep : (((f + n) * hourMs : Int) : ℚ) + hourMs = (((f + (n + 1 : Nat)) * hourMs : Int) : ℚ) := by
      push_cast
      ring
    have hle : ((f * hourMs : Int) : ℚ) ≤ ((f + n) * hourMs : Int) := by
      exact_mod_cast mul_le_mul_of_nonneg_right (by omega : f ≤ f + (n : Int)) (by decide)
    have hnext : (((f + n) * hourMs : Int) : ℚ) ≤ ((f + (n + 1 : Nat)) * hourMs : Int) := by
      rw [← hstep]
      exact le_add_of_nonneg_right hourMs_pos.le
    simp only [List.map_cons, List.map_nil, List.sum_cons, List.sum_nil, add_zero, inHour, hstep]
    exact overlap_split hi hle hnext

theorem msByHour_sum {start stop : ℚ} (h : start < stop) :
    Ledger.total (fun _ => true) (msByHour start stop) = stop - start := by
  rw [total_msByHour _ h]
  simp only [if_true]
  rw [hoursIn, List.map_map, Function.comp_def, sum_inHour h.le]
  have hceil := Int.le_ceil (stop / hourMs)
  rw [div_le_iff₀ hourMs_pos] at hceil
  have hreach : ⌊start / hourMs⌋ ≤ ⌈stop / hourMs⌉ := by
    have hdiv : start / hourMs ≤ stop / hourMs := (div_le_div_iff_of_pos_right hourMs_pos).2 h.le
    exact (Int.floor_mono hdiv).trans (Int.floor_le_ceil _)
  refine overlap_inside h.le (hourStart_le start) ?_
  rw [Int.toNat_of_nonneg (by omega), add_sub_cancel]
  exact_mod_cast hceil

/-- An interval has no part anywhere where it is empty, and only there. -/
theorem msByHour_eq_nil {start stop : ℚ} : msByHour start stop = [] ↔ stop ≤ start := by
  constructor
  · intro h
    by_contra hlt
    have hsum := msByHour_sum (not_le.1 hlt)
    rw [h, Ledger.total_nil] at hsum
    linarith
  · intro h
    rw [msByHour, if_pos h]

theorem inHour_empty {h : Int} {start stop : ℚ} (hle : stop ≤ start) : inHour h (start, stop) = 0 := by
  refine max_eq_left (sub_nonpos.2 ?_)
  exact (min_le_left _ _).trans (hle.trans (le_max_left _ _))

/-- The part of an interval in an hour is the parts of it before and after an instant of it. -/
theorem inHour_split {h : Int} {a b c : ℚ} (hab : a ≤ b) (hbc : b ≤ c) :
    inHour h (a, b) + inHour h (b, c) = inHour h (a, c) := by
  simp only [inHour, overlap, max_def, min_def]
  split_ifs <;> linarith

end Usage
end Antiproton
