import Antiproton.Lib.Table
import Mathlib.MeasureTheory.Measure.Lebesgue.Basic
import Mathlib.MeasureTheory.Measure.Real
import Mathlib.Order.CompletePartialOrder

/-!
# Antiproton.Lib.Intervals

Lists of half-open intervals and the time they cover. `merge` sorts and joins them; what it leaves is separated, covers
the same instants, and so its lengths add up to the measure of the union, cut to any window.

* `covered_merge`, `separated_merge`: the joined intervals cover what the intervals did, and touch nowhere.
* `measure_covered`: of separated intervals, the measure in a window is the sum of the parts in it.
* `overlap_split`: the part of an interval in a window is the parts in two halves of it.
-/

open MeasureTheory

/-- From the first rational up to the second, which it leaves out. -/
abbrev HalfOpen := ℚ × ℚ

namespace Intervals

/-- The instants some interval holds. -/
def covered (l : List HalfOpen) : Set ℝ := {x | ∃ i ∈ l, (i.1 : ℝ) ≤ x ∧ x < i.2}

/-- The time of a set of instants between two ends. -/
noncomputable def timeIn (s : Set ℝ) (a b : ℚ) : ℝ := volume.real (s ∩ Set.Ico (a : ℝ) b)

/-- An interval grown by those of a sorted list which it meets, and the rest joined in turn. -/
def mergeFrom : HalfOpen → List HalfOpen → List HalfOpen
  | cur, [] => [cur]
  | cur, i :: rest => if i.1 ≤ cur.2 then mergeFrom (cur.1, max cur.2 i.2) rest else cur :: mergeFrom i rest

/-- Sorted by where they start, and joined where one meets the next. -/
def merge (l : List HalfOpen) : List HalfOpen :=
  match Table.orderBy Prod.fst l with
  | [] => []
  | i :: rest => mergeFrom i rest

/-- How much of an interval lies between two ends. -/
def overlap (a b : ℚ) (i : HalfOpen) : ℚ := max 0 (min i.2 b - max i.1 a)

/-- No interval is empty, and each ends before the next starts. -/
def Separated (l : List HalfOpen) : Prop := (∀ i ∈ l, i.1 < i.2) ∧ l.Pairwise fun i j => i.2 < j.1

/-! ## What is covered -/

@[simp] theorem covered_nil : covered [] = ∅ := by
  ext x
  simp [covered]

theorem covered_cons (i : HalfOpen) (l : List HalfOpen) :
    covered (i :: l) = Set.Ico (i.1 : ℝ) i.2 ∪ covered l := by
  ext x
  simp [covered]

theorem covered_mono {l l' : List HalfOpen} (h : ∀ i ∈ l, i.1 < i.2 → i ∈ l') : covered l ⊆ covered l' := by
  intro x ⟨i, hi, hle, hlt⟩
  have hne : i.1 < i.2 := by exact_mod_cast hle.trans_lt hlt
  exact ⟨i, h i hi hne, hle, hlt⟩

theorem covered_congr {l l' : List HalfOpen} (h : ∀ i, i ∈ l ↔ i ∈ l') : covered l = covered l' := by
  refine Set.Subset.antisymm (covered_mono ?_) (covered_mono ?_)
  · intro i hi _
    exact (h i).1 hi
  · intro i hi _
    exact (h i).2 hi

theorem window_finite (s : Set ℝ) (a b : ℚ) : volume (s ∩ Set.Ico (a : ℝ) b) ≠ ⊤ := by
  have hfin : volume (Set.Ico (a : ℝ) b) < ⊤ := by simp
  exact ((measure_mono Set.inter_subset_right).trans_lt hfin).ne

theorem timeIn_mono {s s' : Set ℝ} (h : s ⊆ s') (a b : ℚ) : timeIn s a b ≤ timeIn s' a b := by
  unfold timeIn
  exact measureReal_mono (Set.inter_subset_inter_left _ h) (window_finite s' a b)

/-! ## Joining -/

theorem covered_mergeFrom {cur : HalfOpen} {rest : List HalfOpen} (hcur : cur.1 < cur.2)
    (hne : ∀ i ∈ rest, i.1 < i.2) (hs : (cur :: rest).Pairwise fun i j => i.1 ≤ j.1) :
    covered (mergeFrom cur rest) = covered (cur :: rest) := by
  induction rest generalizing cur with
  | nil => rfl
  | cons i rest ih =>
    have hle : cur.1 ≤ i.1 := (List.pairwise_cons.1 hs).1 i (by simp)
    have hi : i.1 < i.2 := hne i (by simp)
    have hrest : ∀ j ∈ rest, j.1 < j.2 := fun j hj => hne j (by simp [hj])
    have htail := (List.pairwise_cons.1 hs).2
    unfold mergeFrom
    split
    · rename_i hmeet
      have hjoined : ((cur.1, max cur.2 i.2) :: rest).Pairwise fun i j => i.1 ≤ j.1 := by
        refine List.pairwise_cons.2 ⟨fun j hj => ?_, (List.pairwise_cons.1 htail).2⟩
        exact (List.pairwise_cons.1 hs).1 j (by simp [hj])
      rw [ih (lt_max_of_lt_left hcur) hrest hjoined, covered_cons, covered_cons, covered_cons, ← Set.union_assoc]
      congr 1
      have hab : (i.1 : ℝ) ≤ cur.2 := by exact_mod_cast hmeet
      have hcd : (cur.1 : ℝ) ≤ i.2 := by exact_mod_cast hle.trans hi.le
      rw [Set.Ico_union_Ico' hab hcd, min_eq_left (by exact_mod_cast hle)]
      push_cast
      rfl
    · rw [covered_cons, ih hi hrest htail, ← covered_cons]

theorem start_mergeFrom {cur : HalfOpen} {rest : List HalfOpen} (hs : (cur :: rest).Pairwise fun i j => i.1 ≤ j.1) :
    ∀ j ∈ mergeFrom cur rest, cur.1 ≤ j.1 := by
  induction rest generalizing cur with
  | nil => simp [mergeFrom]
  | cons i rest ih =>
    obtain ⟨hle, htail⟩ := List.pairwise_cons.1 hs
    intro j hj
    unfold mergeFrom at hj
    split at hj
    · have hmerged : ((cur.1, max cur.2 i.2) :: rest).Pairwise fun i j => i.1 ≤ j.1 :=
        List.pairwise_cons.2 ⟨fun k hk => hle k (by simp [hk]), (List.pairwise_cons.1 htail).2⟩
      exact ih hmerged j hj
    · rcases List.mem_cons.1 hj with rfl | hj
      · exact le_rfl
      · exact (hle i (by simp)).trans (ih htail j hj)

theorem separated_mergeFrom {cur : HalfOpen} {rest : List HalfOpen} (hcur : cur.1 < cur.2)
    (hne : ∀ i ∈ rest, i.1 < i.2) (hs : (cur :: rest).Pairwise fun i j => i.1 ≤ j.1) :
    Separated (mergeFrom cur rest) := by
  induction rest generalizing cur with
  | nil => exact ⟨by simpa [mergeFrom] using hcur, by simp [mergeFrom]⟩
  | cons i rest ih =>
    obtain ⟨hle, htail⟩ := List.pairwise_cons.1 hs
    have hi : i.1 < i.2 := hne i (by simp)
    have hrest : ∀ j ∈ rest, j.1 < j.2 := fun j hj => hne j (by simp [hj])
    unfold mergeFrom
    split
    · refine ih (lt_max_of_lt_left hcur) hrest ?_
      exact List.pairwise_cons.2 ⟨fun k hk => hle k (by simp [hk]), (List.pairwise_cons.1 htail).2⟩
    · rename_i hapart
      obtain ⟨hnonempty, hpair⟩ := ih hi hrest htail
      refine ⟨?_, List.pairwise_cons.2 ⟨fun j hj => ?_, hpair⟩⟩
      · intro j hj
        rcases List.mem_cons.1 hj with rfl | hj
        · exact hcur
        · exact hnonempty j hj
      · exact (not_le.1 hapart).trans_le (start_mergeFrom htail j hj)

section Merge

variable {l : List HalfOpen} (hne : ∀ i ∈ l, i.1 < i.2)
include hne

theorem covered_merge : covered (merge l) = covered l := by
  have hperm : (Table.orderBy Prod.fst l).Perm l := Table.orderBy_perm Prod.fst l
  have hsorted : (Table.orderBy Prod.fst l).Pairwise fun i j => i.1 ≤ j.1 := Table.pairwise_orderBy Prod.fst l
  have hsame : covered (Table.orderBy Prod.fst l) = covered l := covered_congr fun i => hperm.mem_iff
  rw [← hsame]
  unfold merge
  split
  · rename_i h
    rw [h]
  · rename_i i rest h
    have hmem : ∀ j ∈ i :: rest, j.1 < j.2 := fun j hj => hne j (hperm.mem_iff.1 (by rw [h]; exact hj))
    rw [h] at hsorted ⊢
    exact covered_mergeFrom (hmem i (by simp)) (fun j hj => hmem j (by simp [hj])) hsorted

theorem separated_merge : Separated (merge l) := by
  have hperm : (Table.orderBy Prod.fst l).Perm l := Table.orderBy_perm Prod.fst l
  have hsorted : (Table.orderBy Prod.fst l).Pairwise fun i j => i.1 ≤ j.1 := Table.pairwise_orderBy Prod.fst l
  unfold merge
  split
  · exact ⟨by simp, List.Pairwise.nil⟩
  · rename_i i rest h
    have hmem : ∀ j ∈ i :: rest, j.1 < j.2 := fun j hj => hne j (hperm.mem_iff.1 (by rw [h]; exact hj))
    rw [h] at hsorted
    exact separated_mergeFrom (hmem i (by simp)) (fun j hj => hmem j (by simp [hj])) hsorted

end Merge

/-! ## Measuring -/

theorem measure_overlap (i : HalfOpen) (a b : ℚ) :
    volume.real (Set.Ico (i.1 : ℝ) i.2 ∩ Set.Ico (a : ℝ) b) = (overlap a b i : ℝ) := by
  rw [Set.Ico_inter_Ico, Real.volume_real_Ico, overlap]
  push_cast
  exact max_comm ..

theorem disjoint_covered {i : HalfOpen} {l : List HalfOpen} (h : ∀ j ∈ l, i.2 < j.1) :
    Disjoint (Set.Ico (i.1 : ℝ) i.2) (covered l) := by
  refine Set.disjoint_left.2 fun x hx ⟨j, hj, hle, _⟩ => ?_
  have hapart : (i.2 : ℝ) < j.1 := by exact_mod_cast h j hj
  exact absurd (hx.2.trans hapart) (not_lt.2 hle)

theorem measurable_covered (l : List HalfOpen) : MeasurableSet (covered l) := by
  induction l with
  | nil => simp
  | cons i l ih => rw [covered_cons]; exact measurableSet_Ico.union ih

/-- Of separated intervals, the time in a window is the sum of the parts in it. -/
theorem measure_covered {l : List HalfOpen} (hl : Separated l) (a b : ℚ) :
    timeIn (covered l) a b = ((l.map (overlap a b)).sum : ℚ) := by
  unfold timeIn
  induction l with
  | nil => simp
  | cons i l ih =>
    obtain ⟨hne, hpair⟩ := hl
    obtain ⟨hapart, htail⟩ := List.pairwise_cons.1 hpair
    have hrest := ih ⟨fun j hj => hne j (by simp [hj]), htail⟩
    have hdisj := (disjoint_covered hapart).mono (Set.inter_subset_left (t := Set.Ico (a : ℝ) b))
      (Set.inter_subset_left (t := Set.Ico (a : ℝ) b))
    rw [covered_cons, Set.union_inter_distrib_right,
      measureReal_union hdisj ((measurable_covered l).inter measurableSet_Ico)
        (window_finite _ a b) (window_finite _ a b),
      measure_overlap, hrest]
    push_cast
    simp

theorem overlap_split {i : HalfOpen} (hi : i.1 ≤ i.2) {a b c : ℚ} (hab : a ≤ b) (hbc : b ≤ c) :
    overlap a b i + overlap b c i = overlap a c i := by
  simp only [overlap, max_def, min_def]
  split_ifs <;> linarith

theorem overlap_outside {i : HalfOpen} {a b : ℚ} (h : b ≤ i.1 ∨ i.2 ≤ a) : overlap a b i = 0 := by
  refine max_eq_left (sub_nonpos.2 ?_)
  rcases h with h | h
  · exact (min_le_right _ _).trans (h.trans (le_max_left _ _))
  · exact (min_le_left _ _).trans (h.trans (le_max_right _ _))

theorem overlap_inside {i : HalfOpen} {a b : ℚ} (hi : i.1 ≤ i.2) (ha : a ≤ i.1) (hb : i.2 ≤ b) :
    overlap a b i = i.2 - i.1 := by
  rw [overlap, min_eq_left hb, max_eq_left ha, max_eq_right (sub_nonneg.2 hi)]

theorem overlap_nonneg (i : HalfOpen) (a b : ℚ) : 0 ≤ overlap a b i := le_max_left ..

end Intervals
