import Mathlib.Data.Nat.Digits.Lemmas

/-!
# Antiproton.Lib.Positional

Numbers written in a base, most significant digit first, with one digit for zero.

* `read_written`: what is written reads back.
* `written_length`: a number below a power of the base takes no more digits than its exponent.
-/

namespace Positional

/-- The digits of a number. -/
def written (b n : Nat) : List Nat := if n = 0 then [0] else (b.digits n).reverse

/-- The number digits stand for. -/
def read (b : Nat) (ds : List Nat) : Nat := ds.foldl (fun n d => b * n + d) 0

variable {b n d k : Nat}

theorem read_written (b n : Nat) : read b (written b n) = n := by
  unfold read written
  split
  · rename_i hn
    rw [hn, List.foldl_cons, List.foldl_nil, Nat.mul_zero]
  · have hfold := Nat.ofDigits_eq_foldr b (b.digits n)
    rw [Nat.ofDigits_digits] at hfold
    rw [List.foldl_reverse]
    conv_rhs => rw [hfold]
    congr 1
    funext x y
    exact Nat.add_comm ..

theorem written_ne_nil (b n : Nat) : written b n ≠ [] := by
  unfold written
  split
  · exact List.cons_ne_nil _ _
  · rename_i hn
    rw [Ne, List.reverse_eq_nil_iff]
    exact Nat.digits_ne_nil_iff_ne_zero.2 hn

theorem written_lt (hb : 1 < b) (hd : d ∈ written b n) : d < b := by
  unfold written at hd
  split at hd
  · rw [List.mem_singleton.1 hd]
    omega
  · exact Nat.digits_lt_base hb (List.mem_reverse.1 hd)

theorem written_length (hb : 1 < b) (hk : 0 < k) (hn : n < b ^ k) : (written b n).length ≤ k := by
  unfold written
  split
  · exact hk
  · rw [List.length_reverse]
    exact (Nat.digits_length_le_iff hb n).2 hn

end Positional
