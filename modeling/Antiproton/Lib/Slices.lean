import Mathlib.Data.List.Basic

/-!
# Antiproton.Lib.Slices

The part of a list between two positions, as `slice` gives it.

* `between_append`: two parts that meet are one.
* `between_grown`: a part of a list is the same part of a list that goes on.
-/

namespace Slices

variable {A : Type} {l m : List A} {a b c : Nat}

/-- `l.slice(a, b)`. -/
def between (l : List A) (a b : Nat) : List A := (l.take b).drop a

theorem length_between (hb : b ≤ l.length) : (between l a b).length = b - a := by
  rw [between, List.length_drop, List.length_take, Nat.min_eq_left hb]

theorem between_self (l : List A) (a : Nat) : between l a a = [] :=
  List.drop_eq_nil_of_le (List.length_take_le a l)

theorem between_append (hab : a ≤ b) (hbc : b ≤ c) : between l a b ++ between l b c = between l a c := by
  have htake : l.take b = (l.take c).take b := by rw [List.take_take, Nat.min_eq_left hbc]
  rw [between, between, between, htake]
  by_cases hlength : b ≤ (l.take c).length
  · have hdrop : (l.take c).drop a = ((l.take c).take b ++ (l.take c).drop b).drop a := by rw [List.take_append_drop]
    rw [hdrop, List.drop_append_of_le_length]
    rw [List.length_take]
    omega
  · rw [List.take_of_length_le (by omega), List.drop_eq_nil_of_le (i := b) (by omega), List.append_nil]

theorem between_grown (hb : b ≤ l.length) : between (l ++ m) a b = between l a b := by
  rw [between, between, List.take_append_of_le_length hb]

theorem getLast?_between (hab : a < b) (hb : b ≤ l.length) : (between l a b).getLast? = l[b - 1]? := by
  rw [List.getLast?_eq_getElem?, length_between hb, between, List.getElem?_drop, List.getElem?_take]
  rw [if_pos (by omega)]
  congr 1
  omega

theorem mem_between {x : A} (h : x ∈ between l a b) : x ∈ l := List.mem_of_mem_take (List.mem_of_mem_drop h)

end Slices
