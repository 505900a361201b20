import Mathlib.Data.Finset.Sort
import Mathlib.Data.Set.Finite.Basic
import Mathlib.Data.Set.Finite.Lattice
import Mathlib.Data.Prod.Lex

/-!
# Antiproton.Lib.OrderedMap

Maps of finitely many keys, read in the order of the keys. Nothing here depends on what the keys and the values are.

* `entries_eq`: a sorted list of what a map holds is its entries.
* `index`: the map by another order, of the values that have a place in it.
-/

/-- A map of finitely many keys. -/
structure OrderedMap (K V : Type) where
  find : K → Option V
  finite : {k | (find k).isSome}.Finite

namespace OrderedMap

variable {K V I : Type}

@[ext] theorem ext {m m' : OrderedMap K V} (h : ∀ k, m.find k = m'.find k) : m = m' := by
  obtain ⟨find, finite⟩ := m
  obtain ⟨find', finite'⟩ := m'
  have heq : find = find' := funext h
  subst heq
  rfl

def empty : OrderedMap K V where
  find _ := none
  finite := by simp

instance : Inhabited (OrderedMap K V) := ⟨empty⟩

section Writes

variable [DecidableEq K] (m : OrderedMap K V)

def insert (k : K) (v : V) : OrderedMap K V where
  find k' := if k = k' then some v else m.find k'
  finite := by
    refine (m.finite.insert k).subset fun k' hk' => ?_
    rw [Set.mem_insert_iff]
    by_cases h : k = k'
    · exact .inl h.symm
    · refine .inr ?_
      have hk' : (if k = k' then some v else m.find k').isSome = true := hk'
      rwa [if_neg h] at hk'

end Writes

/-- The map without the keys that meet a condition. -/
def eraseIf (m : OrderedMap K V) (p : K → Bool) : OrderedMap K V where
  find k := if p k then none else m.find k
  finite := by
    refine m.finite.subset fun k hk => ?_
    have hk : (if p k then none else m.find k).isSome = true := hk
    split at hk
    · cases hk
    · exact hk

/-- Both maps, the first where both hold a key. -/
def union (m m' : OrderedMap K V) : OrderedMap K V where
  find k := (m.find k).or (m'.find k)
  finite := by
    refine (m.finite.union m'.finite).subset fun k hk => ?_
    have hk : ((m.find k).or (m'.find k)).isSome = true := hk
    cases h : m.find k with
    | some v => exact .inl (by simp [h])
    | none =>
      rw [h] at hk
      exact .inr hk

/-- The map by another order, then by key: of the values that have a place in it. -/
def index [DecidableEq I] (m : OrderedMap K V) (place : V → Option I) : OrderedMap (I ×ₗ K) V where
  find x := (m.find (ofLex x).2).filter fun v => place v == some (ofLex x).1
  finite := by
    refine Set.Finite.of_injOn (f := fun x => (ofLex x).2) (fun x hx => ?_) (fun x hx y hy heq => ?_) m.finite
    · obtain ⟨v, hv⟩ := Option.isSome_iff_exists.1 hx
      exact Option.isSome_iff_exists.2 ⟨v, (Option.filter_eq_some_iff.1 hv).1⟩
    · obtain ⟨v, hv⟩ := Option.isSome_iff_exists.1 hx
      obtain ⟨w, hw⟩ := Option.isSome_iff_exists.1 hy
      obtain ⟨hfound, hplace⟩ := Option.filter_eq_some_iff.1 hv
      obtain ⟨hfound', hplace'⟩ := Option.filter_eq_some_iff.1 hw
      have heq : (ofLex x).2 = (ofLex y).2 := heq
      rw [heq, hfound', Option.some.injEq] at hfound
      subst hfound
      have hsame : (ofLex x).1 = (ofLex y).1 :=
        Option.some.inj ((beq_iff_eq.1 hplace).symm.trans (beq_iff_eq.1 hplace'))
      exact ofLex.injective (Prod.ext hsame heq)

section Entries

variable [LinearOrder K] (m : OrderedMap K V)

/-- What the map holds, in the order of the keys. -/
noncomputable def entries : List (K × V) :=
  (m.finite.toFinset.sort).filterMap fun k => (m.find k).map fun v => (k, v)

variable {m}

theorem mem_entries {k : K} {v : V} : (k, v) ∈ m.entries ↔ m.find k = some v := by
  unfold entries
  rw [List.mem_filterMap]
  constructor
  · rintro ⟨k', -, h⟩
    obtain ⟨v', hv', heq⟩ := Option.map_eq_some_iff.1 h
    cases heq
    exact hv'
  · intro h
    refine ⟨k, ?_, by rw [h]; rfl⟩
    rw [Finset.mem_sort, Set.Finite.mem_toFinset]
    exact Option.isSome_iff_exists.2 ⟨v, h⟩

theorem entries_sorted : m.entries.Pairwise fun x y => x.1 < y.1 := by
  unfold entries
  refine List.Pairwise.filterMap _ (fun k k' hlt x hx y hy => ?_) (Finset.sortedLT_sort m.finite.toFinset).pairwise
  obtain ⟨v, -, rfl⟩ := Option.map_eq_some_iff.1 hx
  obtain ⟨v', -, rfl⟩ := Option.map_eq_some_iff.1 hy
  exact hlt

/-- A list of what the map holds, in the order of the keys, is its entries. -/
theorem entries_eq {l : List (K × V)} (hsorted : l.Pairwise fun x y => x.1 < y.1)
    (hmem : ∀ k v, (k, v) ∈ l ↔ m.find k = some v) : m.entries = l := by
  have hnodup {l : List (K × V)} (h : l.Pairwise fun x y => x.1 < y.1) : l.Nodup :=
    h.imp fun hlt heq => absurd (heq ▸ hlt) (lt_irrefl _)
  have hperm : m.entries.Perm l := by
    refine (List.perm_ext_iff_of_nodup (hnodup entries_sorted) (hnodup hsorted)).2 fun x => ?_
    obtain ⟨k, v⟩ := x
    rw [mem_entries, hmem]
  exact hperm.eq_of_pairwise (fun x y _ _ hlt hgt => absurd hlt (lt_asymm hgt)) entries_sorted hsorted

end Entries

end OrderedMap
