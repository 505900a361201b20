import Antiproton.Lib.Slices

/-!
# Antiproton.Lib.Paging

A list read in pages, each of which says where the next starts. Nothing here depends on what a page is.

* `walk_whole`: where every page goes on from where it was asked to and ends further on, the walk ends, and its pages
  are the list.
-/

namespace Paging

open Slices

variable {A P : Type}

/-- The pages read one after another, each from where the one before says, up to one that says nothing. -/
inductive Walk (read : Nat → Option P) (next : P → Option Nat) : Nat → List P → Prop where
  | last {n : Nat} {p : P} (hread : read n = some p) (hnext : next p = none) : Walk read next n [p]
  | more {n m : Nat} {p : P} {pages : List P} (hread : read n = some p) (hnext : next p = some m)
      (hmore : Walk read next m pages) : Walk read next n (p :: pages)

/-- A page read from a good place: it is a part of the list from there, and either the last, or goes further to another
good place. -/
def Step (l : List A) (next : P → Option Nat) (data : P → List A) (good : Nat → Prop) (n : Nat) (p : P) : Prop :=
  ∃ m, n ≤ m ∧ m ≤ l.length ∧ data p = between l n m ∧
    (next p = none ∧ m = l.length ∨ next p = some m ∧ n < m ∧ good m)

variable {l : List A} {read : Nat → Option P} {next : P → Option Nat} {data : P → List A} {good : Nat → Prop}

theorem walk_whole (hstep : ∀ n, good n → ∃ p, read n = some p ∧ Step l next data good n p) {n : Nat} (hn : good n) :
    ∃ pages, Walk read next n pages ∧ pages.flatMap data = l.drop n ∧
      ∀ p ∈ pages, ∃ m, good m ∧ read m = some p := by
  induction hleft : l.length - n using Nat.strongRecOn generalizing n with
  | ind k ih =>
    subst hleft
    obtain ⟨p, hread, m, hnm, hm, hdata, hends⟩ := hstep n hn
    rcases hends with ⟨hnext, rfl⟩ | ⟨hnext, hlt, hgood⟩
    · refine ⟨[p], .last hread hnext, ?_, fun q hq => ⟨n, hn, List.mem_singleton.1 hq ▸ hread⟩⟩
      rw [List.flatMap_singleton, hdata, between, List.take_length]
    · obtain ⟨pages, hwalk, hwhole, hpages⟩ := ih (l.length - m) (by omega) hgood rfl
      refine ⟨p :: pages, .more hread hnext hwalk, ?_, fun q hq => ?_⟩
      · rw [List.flatMap_cons, hwhole, hdata, between]
        conv_rhs => rw [← List.take_append_drop m l]
        rw [List.drop_append_of_le_length]
        rw [List.length_take]
        omega
      · rcases List.mem_cons.1 hq with rfl | hq
        · exact ⟨n, hn, hread⟩
        · exact hpages q hq

end Paging
