import Mathlib.Algebra.BigOperators.Group.List.Basic
import Mathlib.Algebra.Ring.Defs
import Mathlib.Data.List.Basic
import Mathlib.Data.List.Nodup

/-!
# Antiproton.Lib.Ledger

Tables of quantities, one row a key: the new row of a key that has one is added to it. `total p` is the sum of the
rows whose key meets `p`, in any commutative monoid.

* `total_add`, `total_post`: a row added is added to every total its key counts in.
* `total_group`: rows grouped by key keep every total.
* `total_key`: of a table with one row a key, the total of a key is its row.
* `total_move`: rows taken from one table and posted, grouped and renamed, to another are in one or the other.
* `weigh w` is the sum of the rows, each times the weight of its key: `weigh_post`, `weigh_regroup`.
-/

/-- Rows of a key and a quantity, in the order the keys first came. -/
abbrev Ledger (K Q : Type) := List (K × Q)

namespace Ledger

variable {K Q R : Type} [DecidableEq K] [AddCommMonoid Q]

/-- `INSERT … ON CONFLICT(key) DO UPDATE SET quantity = quantity + excluded.quantity`. -/
def add (k : K) (q : Q) : Ledger K Q → Ledger K Q
  | [] => [(k, q)]
  | (k', q') :: rest => if k' = k then (k', q' + q) :: rest else (k', q') :: add k q rest

/-- The rows of another table, added one after another. -/
def post (rows : List (K × Q)) (l : Ledger K Q) : Ledger K Q := rows.foldl (fun l r => add r.1 r.2 l) l

/-- Rows summed by a key. -/
def group (f : R → K) (q : R → Q) (rows : List R) : Ledger K Q := post (rows.map fun r => (f r, q r)) []

/-- The sum of the rows whose key meets `p`. -/
def total (p : K → Bool) (l : Ledger K Q) : Q := ((l.filter fun r => p r.1).map (·.2)).sum

omit [DecidableEq K] in
@[simp] theorem total_nil (p : K → Bool) : total p ([] : Ledger K Q) = 0 := rfl

omit [DecidableEq K] in
theorem total_cons (p : K → Bool) (r : K × Q) (l : Ledger K Q) :
    total p (r :: l) = (if p r.1 then r.2 else 0) + total p l := by
  unfold total
  rw [List.filter_cons]
  split
  · rw [List.map_cons, List.sum_cons]
  · rw [zero_add]

omit [DecidableEq K] in
theorem total_append (p : K → Bool) (l l' : Ledger K Q) : total p (l ++ l') = total p l + total p l' := by
  unfold total
  rw [List.filter_append, List.map_append, List.sum_append]

theorem total_add (p : K → Bool) (k : K) (q : Q) (l : Ledger K Q) :
    total p (add k q l) = total p l + if p k then q else 0 := by
  induction l with
  | nil => simp [add, total_cons]
  | cons r rest ih =>
    obtain ⟨k', q'⟩ := r
    unfold add
    split
    · rename_i hk
      subst hk
      rw [total_cons, total_cons]
      by_cases hp : p k' = true
      · simp only [hp, if_true]
        rw [add_right_comm]
      · simp [hp]
    · rw [total_cons, total_cons, ih, add_assoc]

theorem total_post (p : K → Bool) (rows : List (K × Q)) (l : Ledger K Q) :
    total p (post rows l) = total p l + total p rows := by
  induction rows generalizing l with
  | nil => simp [post]
  | cons r rows ih =>
    have hrest := ih (add r.1 r.2 l)
    rw [total_add] at hrest
    rw [total_cons, ← add_assoc]
    exact hrest

/-- Grouping keeps every total. -/
theorem total_group (p : K → Bool) (f : R → K) (q : R → Q) (rows : List R) :
    total p (group f q rows) = ((rows.filter fun r => p (f r)).map q).sum := by
  unfold group
  rw [total_post, total_nil, zero_add]
  induction rows with
  | nil => rfl
  | cons r rows ih =>
    rw [List.map_cons, total_cons, ih, List.filter_cons]
    split
    · rw [List.map_cons, List.sum_cons]
    · rw [zero_add]

omit [DecidableEq K] in
theorem total_perm (p : K → Bool) {l l' : Ledger K Q} (h : l.Perm l') : total p l = total p l' := by
  unfold total
  exact ((h.filter fun r => p r.1).map fun r => r.2).sum_eq

/-! ## One row a key -/

theorem keys_add (k : K) (q : Q) (l : Ledger K Q) :
    (add k q l).map Prod.fst = if k ∈ l.map Prod.fst then l.map Prod.fst else l.map Prod.fst ++ [k] := by
  induction l with
  | nil => rfl
  | cons r rest ih =>
    obtain ⟨k', q'⟩ := r
    unfold add
    by_cases hk : k' = k
    · simp [hk]
    · rw [if_neg hk, List.map_cons, ih]
      simp only [List.map_cons, List.mem_cons, Ne.symm hk, false_or]
      split
      · rfl
      · rfl

theorem nodup_add (k : K) (q : Q) {l : Ledger K Q} (hl : (l.map Prod.fst).Nodup) :
    ((add k q l).map Prod.fst).Nodup := by
  rw [keys_add]
  split
  · exact hl
  · rename_i hk
    rw [← List.concat_eq_append]
    exact List.Nodup.concat hk hl

theorem nodup_post (rows : List (K × Q)) {l : Ledger K Q} (hl : (l.map Prod.fst).Nodup) :
    ((post rows l).map Prod.fst).Nodup := by
  induction rows generalizing l with
  | nil => exact hl
  | cons r rows ih => exact ih (nodup_add r.1 r.2 hl)

theorem mem_keys_post {k : K} {rows : List (K × Q)} {l : Ledger K Q} (h : k ∈ (post rows l).map Prod.fst) :
    k ∈ l.map Prod.fst ∨ k ∈ rows.map Prod.fst := by
  induction rows generalizing l with
  | nil => exact .inl h
  | cons r rows ih =>
    rcases ih h with h | h
    · rw [keys_add] at h
      split at h
      · exact .inl h
      · rcases List.mem_append.1 h with h | h
        · exact .inl h
        · exact .inr (by simp [List.mem_singleton.1 h])
    · exact .inr (by simp [h])

theorem mem_keys_post_iff {k : K} (rows : List (K × Q)) (l : Ledger K Q) :
    k ∈ (post rows l).map Prod.fst ↔ k ∈ l.map Prod.fst ∨ k ∈ rows.map Prod.fst := by
  induction rows generalizing l with
  | nil => simp [post]
  | cons r rows ih =>
    have hrest := ih (add r.1 r.2 l)
    have hadd : k ∈ (add r.1 r.2 l).map Prod.fst ↔ k ∈ l.map Prod.fst ∨ k = r.1 := by
      rw [keys_add]
      split
      · rename_i hr
        exact ⟨.inl, fun h => h.elim id fun h => h ▸ hr⟩
      · rw [List.mem_append, List.mem_singleton]
    rw [hadd, or_assoc] at hrest
    rw [List.map_cons, List.mem_cons]
    exact hrest

theorem mem_keys_group {k : K} (f : R → K) (q : R → Q) (rows : List R) :
    k ∈ (group f q rows).map Prod.fst ↔ ∃ r ∈ rows, f r = k := by
  unfold group
  rw [mem_keys_post_iff, List.map_map]
  simp only [List.map_nil, List.not_mem_nil, false_or, List.mem_map, Function.comp]

theorem total_absent {k : K} {l : Ledger K Q} (h : k ∉ l.map Prod.fst) : total (fun k' => decide (k' = k)) l = 0 := by
  induction l with
  | nil => rfl
  | cons r l ih =>
    rw [List.map_cons, List.mem_cons, not_or] at h
    rw [total_cons, ih h.2, if_neg (by simpa using Ne.symm h.1), add_zero]

theorem total_key {k : K} {q : Q} {l : Ledger K Q} (hl : (l.map Prod.fst).Nodup) (hr : (k, q) ∈ l) :
    total (fun k' => decide (k' = k)) l = q := by
  induction l with
  | nil => cases hr
  | cons r l ih =>
    rw [List.map_cons, List.nodup_cons] at hl
    rw [total_cons]
    rcases List.mem_cons.1 hr with rfl | hr
    · rw [total_absent hl.1, if_pos (by simp), add_zero]
    · have hne : r.1 ≠ k := fun h => hl.1 (h ▸ List.mem_map_of_mem hr)
      rw [ih hl.2 hr, if_neg (by simpa using hne), zero_add]

omit [DecidableEq K] in
theorem total_partition (p q : K → Bool) (l : Ledger K Q) :
    total p (l.filter fun r => q r.1) + total p (l.filter fun r => !q r.1) = total p l := by
  induction l with
  | nil => simp
  | cons r l ih =>
    rw [List.filter_cons, List.filter_cons, total_cons, ← ih]
    cases hq : q r.1 with
    | true => simp only [Bool.not_true, if_true, Bool.false_eq_true, if_false, total_cons, add_assoc]
    | false =>
      simp only [Bool.not_false, if_true, Bool.false_eq_true, if_false, total_cons]
      rw [add_left_comm]

omit [DecidableEq K] in
/-- Rows of one table grouped under other keys and moved to another: every total the renaming keeps is kept over the
two tables. -/
theorem total_move {K' : Type} [DecidableEq K'] {p : K → Bool} {p' : K' → Bool} (q : K → Bool) {f : K → K'}
    (hp : ∀ k, q k = true → p' (f k) = p k) (l : Ledger K Q) (l' : Ledger K' Q) :
    total p (l.filter fun r => !q r.1) +
      total p' (post (group (fun r => f r.1) (·.2) (l.filter fun r => q r.1)) l') = total p l + total p' l' := by
  have hmoved : ((l.filter fun r => q r.1).filter fun r => p' (f r.1)) =
      (l.filter fun r => q r.1).filter fun r => p r.1 := by
    refine List.filter_congr fun r hr => ?_
    exact hp r.1 (List.mem_filter.1 hr).2
  rw [total_post, total_group, hmoved, ← total_partition p q l]
  simp only [total]
  rw [add_left_comm, add_comm]
  congr 1
  rw [add_comm]

end Ledger

namespace Ledger

/-! ## Weighed rows -/

section Weigh

variable {K K' Q R : Type} [NonUnitalNonAssocSemiring Q]

/-- The sum of the rows, each times the weight of its key. -/
def weigh (w : K → Q) (l : Ledger K Q) : Q := (l.map fun r => w r.1 * r.2).sum

@[simp] theorem weigh_nil (w : K → Q) : weigh w ([] : Ledger K Q) = 0 := rfl

theorem weigh_cons (w : K → Q) (r : K × Q) (l : Ledger K Q) : weigh w (r :: l) = w r.1 * r.2 + weigh w l := by
  unfold weigh
  rw [List.map_cons, List.sum_cons]

theorem weigh_append (w : K → Q) (l l' : Ledger K Q) : weigh w (l ++ l') = weigh w l + weigh w l' := by
  unfold weigh
  rw [List.map_append, List.sum_append]

theorem weigh_congr {w w' : K → Q} {l : Ledger K Q} (h : ∀ k ∈ l.map Prod.fst, w k = w' k) :
    weigh w l = weigh w' l := by
  unfold weigh
  congr 1
  refine List.map_congr_left fun r hr => ?_
  rw [h r.1 (List.mem_map_of_mem hr)]

/-- The rows of a condition, weighed, are all the rows with no weight outside it. -/
theorem weigh_filter (w : K → Q) (p : K → Bool) (l : Ledger K Q) :
    weigh w (l.filter fun r => p r.1) = weigh (fun k => if p k then w k else 0) l := by
  induction l with
  | nil => rfl
  | cons r l ih =>
    rw [List.filter_cons, weigh_cons, ← ih]
    split
    · rw [weigh_cons]
    · rw [zero_mul, zero_add]

theorem weigh_add_weights (w w' : K → Q) (l : Ledger K Q) :
    weigh (fun k => w k + w' k) l = weigh w l + weigh w' l := by
  induction l with
  | nil => simp
  | cons r l ih =>
    rw [weigh_cons, weigh_cons, weigh_cons, ih, add_mul]
    exact add_add_add_comm ..

/-- Rows under other keys have the weights of these. -/
theorem weigh_rename (w : K' → Q) (f : K → K') (l : Ledger K Q) :
    weigh w (l.map fun r => (f r.1, r.2)) = weigh (fun k => w (f k)) l := by
  unfold weigh
  rw [List.map_map]
  rfl

variable [DecidableEq K] [DecidableEq K']

theorem weigh_add (w : K → Q) (k : K) (q : Q) (l : Ledger K Q) : weigh w (add k q l) = weigh w l + w k * q := by
  induction l with
  | nil => simp [add, weigh_cons]
  | cons r rest ih =>
    obtain ⟨k', q'⟩ := r
    unfold add
    split
    · rename_i hk
      subst hk
      rw [weigh_cons, weigh_cons, mul_add, add_right_comm]
    · rw [weigh_cons, weigh_cons, ih, add_assoc]

theorem weigh_post (w : K → Q) (rows : List (K × Q)) (l : Ledger K Q) :
    weigh w (post rows l) = weigh w l + weigh w rows := by
  induction rows generalizing l with
  | nil => simp [post]
  | cons r rows ih =>
    have hrest := ih (add r.1 r.2 l)
    rw [weigh_add] at hrest
    rw [weigh_cons, ← add_assoc]
    exact hrest

/-- Rows summed by a key weigh what they weighed one by one. -/
theorem weigh_group (w : K → Q) (f : R → K) (q : R → Q) (rows : List R) :
    weigh w (group f q rows) = (rows.map fun r => w (f r) * q r).sum := by
  unfold group
  rw [weigh_post, weigh_nil, zero_add, weigh, List.map_map]
  rfl

omit [DecidableEq K] in
/-- Rows of a table summed under other keys have the weights of these. -/
theorem weigh_regroup (w : K' → Q) (f : K → K') (l : Ledger K Q) :
    weigh w (group (fun r => f r.1) (·.2) l) = weigh (fun k => w (f k)) l := weigh_group ..

end Weigh

end Ledger
