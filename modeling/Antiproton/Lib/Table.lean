import Mathlib.Algebra.Order.Ring.Int
import Mathlib.Data.List.Sort
import Mathlib.Data.List.Basic
import Mathlib.Data.List.Dedup

/-!
# Antiproton.Lib.Table

Relational tables as lists of rows in insertion order, with the statements a program runs on them:
`select`, `one`, `update`, `delete` and the four forms of `INSERT`. Nothing here depends on what the
rows are.

* `one_update`: an update that keeps a lookup's condition acts on the row the lookup finds.
* `one_insertOrIgnore_self`, `one_upsert_self`: what a lookup by key reads after a keyed insert.
* `sum_upsert`, `sum_delete`: how a sum over the rows moves when the row of one key does.
* `map_*`: a function on rows that the conditions do not see goes through every statement.
-/

namespace Table

variable {R S : Type}

/-- `SELECT * FROM t WHERE p`. -/
def select (p : R → Bool) (t : List R) : List R := t.filter p

/-- The first row of `SELECT * FROM t WHERE p`, as `.get()` and `[0]` read it. -/
def one (p : R → Bool) (t : List R) : Option R := t.find? p

/-- `UPDATE t SET f WHERE p`. -/
def update (p : R → Bool) (f : R → R) (t : List R) : List R := t.map fun r => if p r then f r else r

/-- The number of rows `UPDATE` or `DELETE … WHERE p` reports as changed. -/
def changes (p : R → Bool) (t : List R) : Nat := t.countP p

/-- `DELETE FROM t WHERE p`. -/
def delete (p : R → Bool) (t : List R) : List R := t.filter fun r => !p r

/-- `INSERT INTO t VALUES r`, `none` where a row of the same key is there. -/
def insert (clash : R → Bool) (r : R) (t : List R) : Option (List R) :=
  if t.any clash then none else some (t ++ [r])

/-- `INSERT … ON CONFLICT DO NOTHING` and `INSERT OR IGNORE`. -/
def insertOrIgnore (clash : R → Bool) (r : R) (t : List R) : List R :=
  if t.any clash then t else t ++ [r]

/-- `INSERT … ON CONFLICT DO UPDATE SET merge`. -/
def upsert (clash : R → Bool) (r : R) (merge : R → R) (t : List R) : List R :=
  if t.any clash then update clash merge t else t ++ [r]

/-- `ORDER BY key ASC`, rows of equal keys in insertion order. -/
def orderBy {K : Type} [LE K] [DecidableLE K] (key : R → K) (t : List R) : List R :=
  t.insertionSort fun a b => key a ≤ key b

/-- `SUM(key)` over the rows, `0` over none. -/
def sum (key : R → Int) (t : List R) : Int := (t.map key).sum

/-! ## Reading by a condition -/

@[simp] theorem one_nil (p : R → Bool) : one p [] = none := rfl

theorem one_some {p : R → Bool} {t : List R} {r : R} (h : one p t = some r) : p r = true :=
  List.find?_some h

theorem one_mem {p : R → Bool} {t : List R} {r : R} (h : one p t = some r) : r ∈ t :=
  List.mem_of_find?_eq_some h

theorem one_eq_none {p : R → Bool} {t : List R} : one p t = none ↔ ∀ r ∈ t, p r = false := by
  simp [one]

theorem one_isSome {p : R → Bool} {t : List R} : (one p t).isSome = t.any p := by
  rw [Bool.eq_iff_iff, one, List.find?_isSome, List.any_eq_true]

theorem any_eq_false {p : R → Bool} {t : List R} : t.any p = false ↔ one p t = none := by
  rw [← one_isSome]; cases one p t <;> simp

theorem one_append (p : R → Bool) (t u : List R) : one p (t ++ u) = (one p t).or (one p u) := by
  simp [one]

theorem one_congr {p q : R → Bool} {t : List R} (h : ∀ r ∈ t, p r = q r) : one p t = one q t := by
  induction t with
  | nil => rfl
  | cons r t ih =>
    have hr : p r = q r := h r (by simp)
    have ht : one p t = one q t := ih fun r' h' => h r' (by simp [h'])
    simp only [one] at ht
    simp [one, List.find?_cons, hr, ht]

theorem changes_pos {p : R → Bool} {t : List R} : 0 < changes p t ↔ (one p t).isSome := by
  simp [changes, one, List.countP_pos_iff]

theorem orderBy_perm {K : Type} [LE K] [DecidableLE K] (key : R → K) (t : List R) : (orderBy key t).Perm t :=
  List.perm_insertionSort ..

theorem pairwise_orderBy {K : Type} [LinearOrder K] (key : R → K) (t : List R) :
    (orderBy key t).Pairwise fun r r' => key r ≤ key r' := by
  have : Std.Total fun a b : R => key a ≤ key b := ⟨fun a b => le_total (key a) (key b)⟩
  have : IsTrans R fun a b => key a ≤ key b := ⟨fun _ _ _ => le_trans⟩
  exact List.pairwise_insertionSort (fun a b => key a ≤ key b) t

/-! ## Reading after a write -/

theorem one_update {p q : R → Bool} {f : R → R} (h : ∀ r, q r = true → p r = true → q (f r) = true)
    (h' : ∀ r, q r = false → p r = true → q (f r) = false) (t : List R) :
    one q (update p f t) = (one q t).map fun r => if p r then f r else r := by
  induction t with
  | nil => rfl
  | cons r t ih =>
    simp only [one, update, List.map_cons, List.find?_cons] at ih ⊢
    cases hp : p r with
    | false => cases hq : q r <;> simp [ih, hp, hq]
    | true =>
      cases hq : q r with
      | false => simp [h' r hq hp, ih]
      | true => simp [h r hq hp, hp]

/-- An update whose new rows meet the lookup's condition exactly when the old ones did. -/
theorem one_update_key {p q : R → Bool} {f : R → R} (h : ∀ r, q (f r) = q r) (t : List R) :
    one q (update p f t) = (one q t).map fun r => if p r then f r else r :=
  one_update (fun r hq _ => (h r).trans hq) (fun r hq _ => (h r).trans hq) t

/-- An update of the very rows a lookup finds. -/
theorem one_update_self {q : R → Bool} {f : R → R} (h : ∀ r, q (f r) = q r) (t : List R) :
    one q (update q f t) = (one q t).map f := by
  rw [one_update_key h]
  cases hq : one q t with
  | none => rfl
  | some r => simp [one_some hq]

/-- An update of other rows than the ones a lookup finds. -/
theorem one_update_other {p q : R → Bool} {f : R → R} (h : ∀ r, q (f r) = q r)
    (hd : ∀ r, q r = true → p r = false) (t : List R) : one q (update p f t) = one q t := by
  rw [one_update_key h]
  cases hq : one q t with
  | none => rfl
  | some r => simp [hd r (one_some hq)]

theorem one_insertOrIgnore (p clash : R → Bool) (r : R) (t : List R) :
    one p (insertOrIgnore clash r t) =
      if t.any clash then one p t else (one p t).or (if p r then some r else none) := by
  unfold insertOrIgnore
  split
  · rfl
  · rw [one_append]; simp [one, List.find?_cons]; cases p r <;> simp

/-- A keyed insert-or-ignore leaves the row of the key that was there, else the new one. -/
theorem one_insertOrIgnore_self {clash : R → Bool} {r : R} (h : clash r = true) (t : List R) :
    one clash (insertOrIgnore clash r t) = some ((one clash t).getD r) := by
  rw [one_insertOrIgnore]
  cases hc : one clash t with
  | none => simp [any_eq_false.2 hc, h]
  | some r' => simp [← one_isSome, hc]

/-- A keyed upsert leaves the row of the key that was there, merged, else the new one. -/
theorem one_upsert_self {clash : R → Bool} {r : R} {merge : R → R} (h : clash r = true)
    (hm : ∀ r', clash (merge r') = clash r') (t : List R) :
    one clash (upsert clash r merge t) = some (((one clash t).map merge).getD r) := by
  unfold upsert
  cases hc : one clash t with
  | none =>
    rw [any_eq_false.2 hc, if_neg Bool.false_ne_true, one_append, hc]
    simp [one, h]
  | some r' =>
    have hany : t.any clash = true := by rw [← one_isSome, hc]; rfl
    rw [if_pos hany, one_update_self hm, hc]
    rfl

/-- A keyed upsert leaves the rows of another key alone. -/
theorem one_upsert_other {clash q : R → Bool} {r : R} {merge : R → R} (hr : q r = false)
    (hm : ∀ r', q (merge r') = q r') (hd : ∀ r', q r' = true → clash r' = false) (t : List R) :
    one q (upsert clash r merge t) = one q t := by
  unfold upsert
  split
  · exact one_update_other hm hd t
  · rw [one_append]
    simp [one, hr]

/-- What a lookup by key reads after an upsert by key. -/
theorem one_upsert {K : Type} [BEq K] [LawfulBEq K] [DecidableEq K] (key : R → K) (merge : R → R)
    (hm : ∀ r, key (merge r) = key r) (x : R) (k : K) (t : List R) :
    one (fun r => key r == k) (upsert (fun r => key r == key x) x merge t) =
      if key x = k then some (((one (fun r => key r == k) t).map merge).getD x) else one (fun r => key r == k) t := by
  have hclash : ∀ r, (key (merge r) == k) = (key r == k) := fun r => by rw [hm r]
  split
  · rename_i hk
    subst hk
    refine one_upsert_self ?_ hclash t
    exact beq_self_eq_true (key x)
  · rename_i hk
    refine one_upsert_other ?_ hclash (fun r hr => ?_) t
    · simpa using hk
    · rw [beq_iff_eq.1 hr]
      simpa using Ne.symm hk

/-- What a lookup by key reads of the rows whose keys meet a condition. -/
theorem one_filter_key {K : Type} [BEq K] [LawfulBEq K] (key : R → K) (q : K → Bool) (k : K) (t : List R) :
    one (fun r => key r == k) (t.filter fun r => q (key r)) = if q k then one (fun r => key r == k) t else none := by
  induction t with
  | nil => simp
  | cons r t ih =>
    by_cases hk : key r = k
    · subst hk
      cases hq : q (key r) with
      | true => simp [one, hq]
      | false =>
        rw [hq] at ih
        rw [List.filter_cons, hq]
        exact ih
    · have hother : ∀ t', one (fun r => key r == k) (r :: t') = one (fun r => key r == k) t' := by
        intro t'
        simp [one, beq_false_of_ne hk]
      rw [hother, ← ih, List.filter_cons]
      split
      · exact hother _
      · rfl

/-- An update of rows a condition does not select leaves what it selects alone. -/
theorem select_update_other {p q : R → Bool} {f : R → R} (hf : ∀ r, q (f r) = q r)
    (hd : ∀ r, q r = true → p r = false) (t : List R) : select q (update p f t) = select q t := by
  induction t with
  | nil => rfl
  | cons x t ih =>
    simp only [update, select, List.map_cons, List.filter_cons] at ih ⊢
    cases hx : q x with
    | true => simp [hd x hx, hx, ih]
    | false =>
      have hnew : q (if p x then f x else x) = false := by
        split
        · rw [hf, hx]
        · exact hx
      simp [hnew, ih]

/-- An upsert of rows a condition does not select leaves what it selects alone. -/
theorem select_upsert_other {clash q : R → Bool} {r : R} {merge : R → R} (hr : q r = false)
    (hm : ∀ r', q (merge r') = q r') (hd : ∀ r', q r' = true → clash r' = false) (t : List R) :
    select q (upsert clash r merge t) = select q t := by
  unfold upsert
  split
  · exact select_update_other hm hd t
  · simp [select, hr]

theorem mem_update {p : R → Bool} {f : R → R} {t : List R} {r : R} :
    r ∈ update p f t ↔ ∃ r' ∈ t, (if p r' then f r' else r') = r := by
  simp [update]

theorem mem_delete {p : R → Bool} {t : List R} {r : R} :
    r ∈ delete p t ↔ r ∈ t ∧ p r = false := by
  simp [delete]

theorem mem_insertOrIgnore {clash : R → Bool} {x r : R} {t : List R}
    (h : r ∈ insertOrIgnore clash x t) : r ∈ t ∨ r = x := by
  unfold insertOrIgnore at h
  split at h
  · exact .inl h
  · simpa using h

theorem mem_upsert {clash : R → Bool} {x r : R} {merge : R → R} {t : List R}
    (h : r ∈ upsert clash x merge t) :
    r ∈ t ∨ r = x ∨ ∃ r' ∈ t, clash r' = true ∧ merge r' = r := by
  unfold upsert at h
  split at h
  · obtain ⟨r', hr', rfl⟩ := mem_update.1 h
    split
    · exact .inr (.inr ⟨r', hr', ‹_›, rfl⟩)
    · exact .inl hr'
  · rcases List.mem_append.1 h with h | h
    · exact .inl h
    · exact .inr (.inl (by simpa using h))

theorem update_of_forall_not {p : R → Bool} {f : R → R} {t : List R} (h : one p t = none) :
    update p f t = t := by
  rw [one_eq_none] at h
  unfold update
  conv_rhs => rw [← List.map_id t]
  exact List.map_congr_left fun r hr => by simp [h r hr]

theorem delete_of_forall_not {p : R → Bool} {t : List R} (h : one p t = none) :
    delete p t = t := by
  rw [one_eq_none] at h
  exact List.filter_eq_self.2 fun r hr => by simp [h r hr]

/-! ## Primary keys -/

section Unique

variable {K : Type} {key : R → K}

/-- No two rows have the same key. -/
def Unique (key : R → K) (t : List R) : Prop := (t.map key).Nodup

theorem pairwise_lt_orderBy {K : Type} [LinearOrder K] {key : R → K} {t : List R} (ht : Unique key t) :
    (orderBy key t).Pairwise fun r r' => key r < key r' := by
  have hne : ((orderBy key t).map key).Nodup := ((orderBy_perm key t).map key).nodup_iff.2 ht
  have hle := (pairwise_orderBy key t).and (List.pairwise_map.1 hne)
  exact hle.imp fun h => lt_of_le_of_ne h.1 h.2

/-- Of rows made one for each key, the row of a key. -/
theorem one_made {K : Type} [DecidableEq K] {f : K → R} (key : R → K) (hkey : ∀ k, key (f k) = k) (keys : List K)
    (k : K) : one (fun r => key r == k) (keys.map f) = if k ∈ keys then some (f k) else none := by
  induction keys with
  | nil => rfl
  | cons k' keys ih =>
    unfold one at ih ⊢
    rw [List.map_cons, List.find?_cons, hkey, ih]
    by_cases hk : k' = k
    · simp [hk]
    · simp [beq_false_of_ne hk, Ne.symm hk]

/-- `SELECT DISTINCT … ORDER BY key`. -/
def distinct {K : Type} [LE K] [DecidableLE K] [DecidableEq R] (key : R → K) (l : List R) : List R :=
  orderBy key l.dedup

theorem mem_distinct {K : Type} [LE K] [DecidableLE K] [DecidableEq R] {key : R → K} {l : List R} {r : R} :
    r ∈ distinct key l ↔ r ∈ l := by
  rw [distinct, (orderBy_perm key _).mem_iff, List.mem_dedup]

/-- Lists of the same members have the same distinct ones, in the same order. -/
theorem distinct_congr {K : Type} [LinearOrder K] [DecidableEq R] {key : R → K} (hkey : Function.Injective key)
    {l l' : List R} (h : ∀ r, r ∈ l ↔ r ∈ l') : distinct key l = distinct key l' := by
  have hu : ∀ m : List R, Unique key m.dedup := fun m => m.nodup_dedup.map hkey
  have hperm : (distinct key l).Perm (distinct key l') := by
    refine (orderBy_perm key _).trans (List.Perm.trans ?_ (orderBy_perm key _).symm)
    refine (List.perm_ext_iff_of_nodup l.nodup_dedup l'.nodup_dedup).2 fun r => ?_
    rw [List.mem_dedup, List.mem_dedup, h]
  exact hperm.eq_of_pairwise (fun r r' _ _ hlt hgt => absurd hlt (lt_asymm hgt)) (pairwise_lt_orderBy (hu l))
    (pairwise_lt_orderBy (hu l'))

/-- A condition on rows of different keys may be asked before they are put in order or after. -/
theorem orderBy_select {K : Type} [LinearOrder K] {key : R → K} {t : List R} (ht : Unique key t) (p : R → Bool) :
    orderBy key (select p t) = select p (orderBy key t) := by
  have hsub : Unique key (select p t) := List.Nodup.sublist (List.filter_sublist.map key) ht
  have hperm : (orderBy key (select p t)).Perm (select p (orderBy key t)) :=
    (orderBy_perm key _).trans ((orderBy_perm key t).symm.filter p)
  refine hperm.eq_of_pairwise (fun r r' _ _ hlt hgt => absurd hlt (lt_asymm hgt)) (pairwise_lt_orderBy hsub) ?_
  exact (pairwise_lt_orderBy ht).filter p

theorem unique_nil : Unique key ([] : List R) := List.nodup_nil

theorem unique_update_where {p : R → Bool} {f : R → R} {t : List R} (ht : Unique key t)
    (hf : ∀ r, p r = true → key (f r) = key r) : Unique key (update p f t) := by
  have hk : (update p f t).map key = t.map key := by
    simp only [update, List.map_map]
    refine List.map_congr_left fun r _ => ?_
    simp only [Function.comp]
    split
    · rename_i hp
      exact hf r hp
    · rfl
  rw [Unique, hk]
  exact ht

theorem unique_update {p : R → Bool} {f : R → R} {t : List R} (ht : Unique key t)
    (hf : ∀ r, key (f r) = key r) : Unique key (update p f t) := unique_update_where ht fun r _ => hf r

theorem unique_insertOrIgnore {clash : R → Bool} {r : R} {t : List R} (ht : Unique key t)
    (hc : ∀ r', key r' = key r → clash r' = true) : Unique key (insertOrIgnore clash r t) := by
  unfold insertOrIgnore
  split
  · exact ht
  · rename_i hn
    have hr : key r ∉ t.map key := by
      intro hm
      obtain ⟨r', hr', he⟩ := List.mem_map.1 hm
      exact hn (List.any_eq_true.2 ⟨r', hr', hc r' he⟩)
    rw [Unique, List.map_append, List.map_singleton]
    exact List.nodup_append.2 ⟨ht, List.nodup_singleton _, by
      rintro k hk _ hk' rfl
      rw [List.mem_singleton] at hk'
      exact hr (hk' ▸ hk)⟩

theorem unique_upsert_where {clash : R → Bool} {r : R} {merge : R → R} {t : List R} (ht : Unique key t)
    (hc : ∀ r', key r' = key r → clash r' = true) (hm : ∀ r', clash r' = true → key (merge r') = key r') :
    Unique key (upsert clash r merge t) := by
  unfold upsert
  split
  · exact unique_update_where ht hm
  · rename_i hn
    have h := unique_insertOrIgnore ht hc
    rwa [insertOrIgnore, if_neg hn] at h

theorem unique_upsert {clash : R → Bool} {r : R} {merge : R → R} {t : List R} (ht : Unique key t)
    (hc : ∀ r', key r' = key r → clash r' = true) (hm : ∀ r', key (merge r') = key r') :
    Unique key (upsert clash r merge t) := unique_upsert_where ht hc fun r' _ => hm r'

theorem unique_delete {p : R → Bool} {t : List R} (ht : Unique key t) : Unique key (delete p t) :=
  ht.sublist (List.filter_sublist.map key)

/-- A condition on the key finds the one row that has it. -/
theorem one_of_mem {p : R → Bool} {t : List R} {r : R} (ht : Unique key t) (hm : r ∈ t) (hr : p r = true)
    (hp : ∀ r', p r' = true → key r' = key r) : one p t = some r := by
  obtain ⟨r', hr'⟩ : ∃ r', one p t = some r' := by
    cases h : one p t with
    | none => rw [one_eq_none.1 h r hm] at hr; cases hr
    | some r' => exact ⟨r', rfl⟩
  have he : r' = r := List.inj_on_of_nodup_map ht (one_mem hr') hm (hp r' (one_some hr'))
  rw [hr', he]

/-- The rows a condition on the key selects are the one row that has it. -/
theorem select_of_key {p : R → Bool} {t : List R} {r : R} (ht : Unique key t)
    (hp : ∀ r r', p r = true → p r' = true → key r = key r') (hr : one p t = some r) : select p t = [r] := by
  induction t with
  | nil => cases hr
  | cons x t ih =>
    obtain ⟨hx, ht⟩ := List.nodup_cons.1 ht
    cases h : p x with
    | false =>
      simp only [one, List.find?_cons, h] at hr
      simp only [select, List.filter_cons, h, Bool.false_eq_true, if_false]
      exact ih ht hr
    | true =>
      simp only [one, List.find?_cons, h, Option.some.injEq] at hr
      have hrest : t.filter p = [] := by
        rw [List.filter_eq_nil_iff]
        intro r' hr' hpr
        exact hx (hp x r' h hpr ▸ List.mem_map_of_mem hr')
      subst hr
      rw [select, List.filter_cons_of_pos h, hrest]

/-! ## Sums over the rows -/

theorem sum_select (p : R → Bool) (w : R → Nat) (t : List R) :
    ((select p t).map w).sum = (t.map fun r => if p r then w r else 0).sum := by
  induction t with
  | nil => rfl
  | cons r t ih =>
    simp only [select, List.map_cons, List.sum_cons, List.filter_cons] at ih ⊢
    cases p r with
    | true => simp [ih]
    | false => simp [ih]

theorem sum_update (p : R → Bool) (f : R → R) (w : R → Nat) (t : List R) :
    ((update p f t).map w).sum + (t.map fun r => if p r then w r else 0).sum =
      (t.map w).sum + (t.map fun r => if p r then w (f r) else 0).sum := by
  induction t with
  | nil => rfl
  | cons r t ih =>
    simp only [update, List.map_cons, List.sum_cons] at ih ⊢
    cases p r with
    | true => simp only [if_true]; omega
    | false => simp only [Bool.false_eq_true, if_false]; omega

theorem sum_delete (p : R → Bool) (w : R → Nat) (t : List R) :
    ((delete p t).map w).sum + (t.map fun r => if p r then w r else 0).sum = (t.map w).sum := by
  induction t with
  | nil => rfl
  | cons r t ih =>
    simp only [delete, List.map_cons, List.sum_cons, List.filter_cons] at ih ⊢
    cases p r with
    | true => simp only [Bool.not_true, Bool.false_eq_true, if_false, if_true]; omega
    | false => simp only [Bool.not_false, if_true, Bool.false_eq_true, if_false, List.map_cons, List.sum_cons]; omega

/-- Over the rows of one key a sum is the one row's. -/
theorem sum_of_key {p : R → Bool} {t : List R} (ht : Unique key t)
    (hp : ∀ r r', p r = true → p r' = true → key r = key r') (w : R → Nat) :
    (t.map fun r => if p r then w r else 0).sum = ((one p t).map w).getD 0 := by
  induction t with
  | nil => rfl
  | cons r t ih =>
    obtain ⟨hr, ht⟩ := List.nodup_cons.1 ht
    cases h : p r with
    | false =>
      have := ih ht
      simp only [one, List.map_cons, List.sum_cons, List.find?_cons, h] at this ⊢
      simpa using this
    | true =>
      have hrest : ∀ r' ∈ t, p r' = false := by
        intro r' hr'
        by_contra hn
        have hk := hp r r' h (by simpa using hn)
        exact hr (hk ▸ List.mem_map_of_mem hr')
      have hzero : (t.map fun r => if p r then w r else 0).sum = 0 := by
        rw [ih ht, one_eq_none.2 hrest]
        rfl
      simp only [one, List.map_cons, List.sum_cons, List.find?_cons, h, if_true, hzero]
      rfl

/-- A keyed upsert moves a sum by the new row less the one it replaces. -/
theorem sum_upsert {clash : R → Bool} {r : R} {merge : R → R} {t : List R} (ht : Unique key t)
    (hp : ∀ r r', clash r = true → clash r' = true → key r = key r') {w : R → Nat}
    (hw : ∀ r', clash r' = true → w (merge r') = w r) :
    ((upsert clash r merge t).map w).sum + ((one clash t).map w).getD 0 = (t.map w).sum + w r := by
  unfold upsert
  cases hc : one clash t with
  | none =>
    rw [any_eq_false.2 hc]
    simp
  | some r' =>
    have hany : t.any clash = true := by rw [← one_isSome, hc]; rfl
    have hnew : (t.map fun x => if clash x then w (merge x) else 0).sum = w r := by
      have heq : (t.map fun x => if clash x then w (merge x) else 0) =
          t.map fun x => if clash x then w r else 0 := by
        refine List.map_congr_left fun x _ => ?_
        cases hx : clash x with
        | true => simp [hw x hx]
        | false => simp
      rw [heq, sum_of_key ht hp fun _ => w r, hc]
      rfl
    have hmove := sum_update clash merge w t
    rw [sum_of_key ht hp w, hc, hnew] at hmove
    rw [if_pos hany]
    exact hmove

end Unique

/-! ## Functions on rows that the conditions do not see -/

section Map

variable {g : R → S} {p : R → Bool} {q : S → Bool}

theorem map_select (h : ∀ r, q (g r) = p r) (t : List R) :
    select q (t.map g) = (select p t).map g := by
  have hp : q ∘ g = p := funext h
  simp [select, List.filter_map, hp]

theorem map_one (h : ∀ r, q (g r) = p r) (t : List R) : one q (t.map g) = (one p t).map g := by
  have hp : q ∘ g = p := funext h
  unfold one
  rw [List.find?_map, hp]

theorem map_update {f : R → R} {k : S → S} (h : ∀ r, q (g r) = p r)
    (hf : ∀ r, p r = true → k (g r) = g (f r)) (t : List R) :
    update q k (t.map g) = (update p f t).map g := by
  simp only [update, List.map_map]
  refine List.map_congr_left fun r _ => ?_
  simp only [Function.comp, h r]
  cases hp : p r <;> simp [hf, hp]

theorem map_delete (h : ∀ r, q (g r) = p r) (t : List R) :
    delete q (t.map g) = (delete p t).map g := by
  have hp : (fun s => !q s) ∘ g = fun r => !p r := funext fun r => by simp [h r]
  simp [delete, List.filter_map, hp]

theorem map_insertOrIgnore {r : R} {s : S} (h : ∀ r, q (g r) = p r) (hs : g r = s) (t : List R) :
    insertOrIgnore q s (t.map g) = (insertOrIgnore p r t).map g := by
  have hp : q ∘ g = p := funext h
  simp only [insertOrIgnore, List.any_map, hp]
  split <;> simp [hs]

theorem map_changes (h : ∀ r, q (g r) = p r) (t : List R) : changes q (t.map g) = changes p t := by
  have hp : q ∘ g = p := funext h
  simp [changes, List.countP_map, hp]

theorem map_orderBy {K : Type} [LE K] [DecidableLE K] {key : R → K} {key' : S → K}
    (h : ∀ r, key' (g r) = key r) (t : List R) : orderBy key' (t.map g) = (orderBy key t).map g := by
  refine (List.map_insertionSort (fun a b => key a ≤ key b) (fun a b => key' a ≤ key' b) g t ?_).symm
  intro a _ b _
  rw [h, h]

end Map

/-! ## Tables that are equal through a function

`g` forgets the columns two tables differ in, and the conditions do not see them. -/

section Through

variable {g : R → R} {p : R → Bool} {t t' : List R}

theorem select_through (h : t'.map g = t.map g) (hp : ∀ r, p (g r) = p r) :
    (select p t').map g = (select p t).map g := by
  rw [← map_select hp, h, map_select hp]

theorem one_through (h : t'.map g = t.map g) (hp : ∀ r, p (g r) = p r) :
    (one p t').map g = (one p t).map g := by
  rw [← map_one hp, h, map_one hp]

theorem changes_through (h : t'.map g = t.map g) (hp : ∀ r, p (g r) = p r) :
    changes p t' = changes p t := by
  rw [← map_changes hp t', h, map_changes hp]

theorem any_through (h : t'.map g = t.map g) (hp : ∀ r, p (g r) = p r) : t'.any p = t.any p := by
  have hc : p ∘ g = p := funext hp
  rw [← hc, ← List.any_map, h, List.any_map]

theorem update_through {f f' : R → R} (h : t'.map g = t.map g) (hp : ∀ r, p (g r) = p r)
    (hf : ∀ r r', g r' = g r → g (f' r') = g (f r)) : (update p f' t').map g = (update p f t).map g := by
  induction t' generalizing t with
  | nil =>
    cases t with
    | nil => rfl
    | cons r t => cases h
  | cons r' t' ih =>
    cases t with
    | nil => cases h
    | cons r t =>
      obtain ⟨hr, ht⟩ := List.cons.inj h
      have hpr : p r' = p r := by rw [← hp r', hr, hp r]
      have := ih ht
      simp only [update, List.map_cons, hpr, List.cons.injEq] at this ⊢
      refine ⟨?_, this⟩
      split
      · exact hf r r' hr
      · exact hr

theorem delete_through (h : t'.map g = t.map g) (hp : ∀ r, p (g r) = p r) :
    (delete p t').map g = (delete p t).map g := by
  rw [← map_delete hp, h, map_delete hp]

theorem insertOrIgnore_through {r : R} (h : t'.map g = t.map g) (hp : ∀ r, p (g r) = p r) :
    (insertOrIgnore p r t').map g = (insertOrIgnore p r t).map g := by
  rw [← map_insertOrIgnore hp rfl, h, map_insertOrIgnore hp rfl]

theorem orderBy_through {K : Type} [LE K] [DecidableLE K] {key : R → K} (h : t'.map g = t.map g)
    (hk : ∀ r, key (g r) = key r) : (orderBy key t').map g = (orderBy key t).map g := by
  rw [← map_orderBy hk, h, map_orderBy hk]

end Through

end Table
