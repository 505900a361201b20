import Antiproton.Lib.History

/-!
# Antiproton.Lib.Progress

What a history comes to. `Until K goal`: once `K` holds it holds until a turn that is a goal.

* `Until.final`, `Until.at`: the goal was met, or `K` holds at the end, or at any turn.
* `Until.reached`: where each move lowers a measure, more moves than it has left meet the goal.
* `final_since`: what a turn establishes, and every step keeps, holds after a history with such a turn.
-/

namespace History

variable {S A R : Type} {exec : A → S → R × S}

/-- A place in a history is a place in its actions. -/
theorem splits_turns {acts : List A} {s : S} {y : List (Turn S A R) × Turn S A R × List (Turn S A R)}
    (hy : y ∈ splits (turns exec acts s)) : ∃ first a rest, acts = first ++ a :: rest ∧ y.1 = turns exec first s ∧
      y.2.1 = turn exec a (final exec first s) ∧ y.2.2 = turns exec rest (exec a (final exec first s)).2 := by
  obtain ⟨before, x, after⟩ := y
  obtain ⟨first, rest, rfl, rfl, hrest⟩ := split_turns (mem_splits.1 hy)
  cases rest with
  | nil => cases hrest
  | cons a rest =>
    rw [turns_cons, List.cons.injEq] at hrest
    exact ⟨first, a, rest, rfl, rfl, hrest.1, hrest.2⟩

def Until (exec : A → S → R × S) (K : S → Prop) (goal : Turn S A R → Prop) : Prop :=
  ∀ a s, K s → goal (turn exec a s) ∨ K (exec a s).2

section Goals

variable {K : S → Prop} {goal : Turn S A R → Prop} {acts : List A} {s : S}

theorem Until.final (h : Until exec K goal) (hs : K s) :
    (∃ x ∈ turns exec acts s, goal x) ∨ K (final exec acts s) := by
  induction acts generalizing s with
  | nil => exact .inr hs
  | cons a rest ih =>
    rcases h a s hs with hgoal | hK
    · exact .inl ⟨_, List.mem_cons_self, hgoal⟩
    · exact (ih hK).imp_left fun hmet => hmet.imp fun x hx => ⟨List.mem_cons_of_mem _ hx.1, hx.2⟩

theorem Until.at (h : Until exec K goal) (hs : K s) {y : List (Turn S A R) × Turn S A R × List (Turn S A R)}
    (hy : y ∈ splits (turns exec acts s)) : (∃ x ∈ y.1, goal x) ∨ K y.2.1.before := by
  obtain ⟨first, a, rest, -, hbefore, hturn, -⟩ := splits_turns hy
  rw [hbefore, hturn]
  exact h.final hs

/-- Each move short of the goal lowers the measure, and nothing else raises it. -/
theorem Until.reached (h : Until exec K goal) (d : S → Nat) (moves : Turn S A R → Bool)
    (hd : ∀ a s, K s → goal (turn exec a s) ∨ d (exec a s).2 + (if moves (turn exec a s) then 1 else 0) ≤ d s)
    (hs : K s) (hcount : d s < (turns exec acts s).countP moves) : ∃ x ∈ turns exec acts s, goal x := by
  induction acts generalizing s with
  | nil => exact absurd hcount (Nat.not_lt_zero _)
  | cons a rest ih =>
    rw [turns_cons, List.countP_cons] at hcount
    rcases h a s hs with hgoal | hK
    · exact ⟨_, List.mem_cons_self, hgoal⟩
    · rcases hd a s hs with hgoal | hlower
      · exact ⟨_, List.mem_cons_self, hgoal⟩
      · obtain ⟨x, hx, hgoal⟩ := ih hK (by omega)
        exact ⟨x, List.mem_cons_of_mem _ hx, hgoal⟩

/-- What a turn establishes under an invariant, and every step keeps, holds after a history with such a turn. -/
theorem final_since {I : S → Prop} {P : Turn S A R → Prop} (hI : ∀ a s, I s → I (exec a s).2)
    (hP : ∀ a s, I s → P (turn exec a s) → K (exec a s).2) (hK : ∀ a s, K s → K (exec a s).2) (hs : I s)
    (hmet : ∃ x ∈ turns exec acts s, P x) : K (final exec acts s) := by
  induction acts generalizing s with
  | nil =>
    obtain ⟨x, hx, -⟩ := hmet
    exact absurd hx List.not_mem_nil
  | cons a rest ih =>
    obtain ⟨x, hx, hPx⟩ := hmet
    rw [final_cons]
    rcases List.mem_cons.1 hx with rfl | hx
    · exact final_invariant (hP a s hs hPx) hK
    · exact ih (hI a s hs) ⟨x, hx, hPx⟩

end Goals

end History
