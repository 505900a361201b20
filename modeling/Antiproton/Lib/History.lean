import Mathlib.Data.List.Basic
import Mathlib.Data.List.Nodup

/-!
# Antiproton.Lib.History

Histories of a machine that takes one atomic action after another: `turns` is what each action found,
answered and left. A property of a history is proved from one step.

* `forall_turns`: what one step gives under an invariant holds of every turn.
* `pairwise_turns`: what a turn establishes and every step keeps excludes, or orders, the later ones.
* `numbered_turns`: answers drawn from a counter are consecutive.
* `fresh_turns`: what enters a list without duplicates enters it once.
-/

namespace History

/-- One action: the state it found, what it answered, and the state it left. -/
structure Turn (S A R : Type) where
  before : S
  act : A
  answer : R
  after : S

section Turns

variable {S A R : Type} (exec : A → S → R × S)

def turn (a : A) (s : S) : Turn S A R := ⟨s, a, (exec a s).1, (exec a s).2⟩

/-- The turns of a sequence of actions. -/
def turns : List A → S → List (Turn S A R)
  | [], _ => []
  | a :: rest, s => turn exec a s :: turns rest (exec a s).2

/-- The state after a sequence of actions. -/
def final (acts : List A) (s : S) : S := acts.foldl (fun s a => (exec a s).2) s

variable {exec}

@[simp] theorem turns_nil (s : S) : turns exec [] s = [] := rfl

@[simp] theorem turns_cons (a : A) (rest : List A) (s : S) :
    turns exec (a :: rest) s = turn exec a s :: turns exec rest (exec a s).2 := rfl

@[simp] theorem final_nil (s : S) : final exec [] s = s := rfl

@[simp] theorem final_cons (a : A) (rest : List A) (s : S) :
    final exec (a :: rest) s = final exec rest (exec a s).2 := rfl

theorem final_append (acts rest : List A) (s : S) :
    final exec (acts ++ rest) s = final exec rest (final exec acts s) := List.foldl_append ..

theorem turns_append (acts rest : List A) (s : S) :
    turns exec (acts ++ rest) s = turns exec acts s ++ turns exec rest (final exec acts s) := by
  induction acts generalizing s with
  | nil => rfl
  | cons a acts ih => rw [List.cons_append, turns_cons, turns_cons, ih, final_cons, List.cons_append]

/-- A cut of a history's turns is a cut of its actions. -/
theorem split_turns {acts : List A} {s : S} {before after : List (Turn S A R)}
    (h : turns exec acts s = before ++ after) :
    ∃ first rest, acts = first ++ rest ∧ before = turns exec first s ∧ after = turns exec rest (final exec first s) := by
  induction before generalizing acts s with
  | nil => exact ⟨[], acts, rfl, rfl, h.symm⟩
  | cons x before ih =>
    cases acts with
    | nil => cases h
    | cons a acts =>
      rw [turns_cons, List.cons_append, List.cons.injEq] at h
      obtain ⟨first, rest, rfl, rfl, hafter⟩ := ih h.2
      exact ⟨a :: first, rest, rfl, by rw [turns_cons, h.1], hafter⟩

variable {acts : List A} {s : S}

theorem final_invariant {I : S → Prop} (hs : I s) (hI : ∀ a s, I s → I (exec a s).2) :
    I (final exec acts s) := by
  induction acts generalizing s with
  | nil => exact hs
  | cons a rest ih => exact ih (hI a s hs)

/-- An invariant that steps keep where they are permitted holds after a history of permitted steps. -/
theorem final_guarded {I : S → Prop} {ok : S → A → Prop} (hs : I s) (hI : ∀ a s, I s → ok s a → I (exec a s).2)
    (hok : ∀ x ∈ turns exec acts s, ok x.before x.act) : I (final exec acts s) := by
  induction acts generalizing s with
  | nil => exact hs
  | cons a rest ih =>
    have hnow : ok s a := hok _ List.mem_cons_self
    exact ih (hI a s hs hnow) fun x hx => hok x (List.mem_cons_of_mem _ hx)

/-- An invariant that each action of a kind keeps holds after a history of such actions. -/
theorem final_permitted {I : S → Prop} {ok : A → Prop} (hs : I s) (hI : ∀ a s, I s → ok a → I (exec a s).2)
    (hok : ∀ a ∈ acts, ok a) : I (final exec acts s) := by
  induction acts generalizing s with
  | nil => exact hs
  | cons a rest ih => exact ih (hI a s hs (hok a List.mem_cons_self)) fun b hb => hok b (List.mem_cons_of_mem _ hb)

/-- Every turn of a history meets what one step gives under an invariant. -/
theorem forall_turns {I : S → Prop} {P : Turn S A R → Prop} (hs : I s) (hI : ∀ a s, I s → I (exec a s).2)
    (hP : ∀ a s, I s → P (turn exec a s)) : ∀ x ∈ turns exec acts s, P x := by
  induction acts generalizing s with
  | nil => simp
  | cons a rest ih =>
    intro x hx
    rcases List.mem_cons.1 hx with rfl | hx
    · exact hP a s hs
    · exact ih (hI a s hs) x hx

/-- The same under an invariant that steps keep where they are permitted. -/
theorem forall_turns_guarded {I : S → Prop} {ok : A → Prop} {P : Turn S A R → Prop} (hs : I s)
    (hI : ∀ a s, I s → ok a → I (exec a s).2) (hP : ∀ a s, I s → ok a → P (turn exec a s)) (hok : ∀ a ∈ acts, ok a) :
    ∀ x ∈ turns exec acts s, P x := by
  induction acts generalizing s with
  | nil => simp
  | cons a rest ih =>
    intro x hx
    have ha := hok a List.mem_cons_self
    rcases List.mem_cons.1 hx with rfl | hx
    · exact hP a s hs ha
    · exact ih (hI a s hs ha) (fun b hb => hok b (List.mem_cons_of_mem _ hb)) x hx

/-- The same where what is permitted depends on the state. -/
theorem forall_turns_where {I : S → Prop} {ok : S → A → Prop} {P : Turn S A R → Prop} (hs : I s)
    (hI : ∀ a s, I s → ok s a → I (exec a s).2) (hP : ∀ a s, I s → ok s a → P (turn exec a s))
    (hok : ∀ x ∈ turns exec acts s, ok x.before x.act) : ∀ x ∈ turns exec acts s, P x := by
  induction acts generalizing s with
  | nil => simp
  | cons a rest ih =>
    intro x hx
    have ha : ok s a := hok _ List.mem_cons_self
    rcases List.mem_cons.1 hx with rfl | hx
    · exact hP a s hs ha
    · exact ih (hI a s hs ha) (fun y hy => hok y (List.mem_cons_of_mem _ hy)) x hx

theorem mem_turns {x : Turn S A R} (hx : x ∈ turns exec acts s) : x = turn exec x.act x.before :=
  forall_turns (I := fun _ => True) (P := fun x => x = turn exec x.act x.before) trivial (fun _ _ _ => trivial)
    (fun _ _ _ => rfl) x hx

/-- What a turn establishes, and every step keeps, holds when each later turn is taken. -/
theorem pairwise_turns {K : Turn S A R → S → Prop} {P : Turn S A R → Turn S A R → Prop}
    (start : ∀ a s, K (turn exec a s) (exec a s).2) (keep : ∀ x a s, K x s → K x (exec a s).2)
    (use : ∀ x a s, K x s → P x (turn exec a s)) : (turns exec acts s).Pairwise P := by
  induction acts generalizing s with
  | nil => exact .nil
  | cons a rest ih =>
    refine .cons ?_ ih
    exact forall_turns (start a s) (fun b s hK => keep _ b s hK) fun b s hK => use _ b s hK

/-- Answers drawn from a counter are consecutive. -/
theorem numbered_turns {f : Turn S A R → Option Nat} {v : S → Nat}
    (step : ∀ a s, f (turn exec a s) = some (v s + 1) ∧ v (exec a s).2 = v s + 1 ∨
      f (turn exec a s) = none ∧ v (exec a s).2 = v s) :
    (turns exec acts s).filterMap f = List.range' (v s + 1) ((turns exec acts s).filterMap f).length := by
  induction acts generalizing s with
  | nil => rfl
  | cons a rest ih =>
    have hrest := ih (s := (exec a s).2)
    rcases step a s with ⟨hf, hv⟩ | ⟨hf, hv⟩
    · rw [hv] at hrest
      rw [turns_cons, List.filterMap_cons, hf, List.length_cons, List.range'_succ]
      exact congrArg _ hrest
    · rw [hv] at hrest
      rw [turns_cons, List.filterMap_cons, hf]
      exact hrest

/-- What is only ever appended to a list, and never what it holds, is appended once. -/
theorem fresh_turns {X : Type} {f : Turn S A R → List X} (held : S → List X)
    (step : ∀ a s, held (exec a s).2 = held s ++ f (turn exec a s) ∧ (f (turn exec a s)).Nodup ∧
      ∀ x ∈ f (turn exec a s), x ∉ held s) :
    ((turns exec acts s).flatMap f).Nodup ∧ ∀ x ∈ (turns exec acts s).flatMap f, x ∉ held s := by
  induction acts generalizing s with
  | nil => simp
  | cons a rest ih =>
    obtain ⟨happ, hnodup, hnew⟩ := step a s
    obtain ⟨hrest, hlater⟩ := ih (s := (exec a s).2)
    rw [turns_cons, List.flatMap_cons]
    refine ⟨List.nodup_append.2 ⟨hnodup, hrest, ?_⟩, ?_⟩
    · rintro x hx _ hy rfl
      have h := hlater x hy
      rw [happ] at h
      exact h (List.mem_append_right _ hx)
    · intro x hx hheld
      rcases List.mem_append.1 hx with hx | hx
      · exact hnew x hx hheld
      · have h := hlater x hx
        rw [happ] at h
        exact h (List.mem_append_left _ hheld)

end Turns

/-- A list around one of its places, before and after another item is put there. -/
theorem set_split {A : Type} {l : List A} {i : Nat} {x : A} (h : l[i]? = some x) (y : A) :
    l = l.take i ++ x :: l.drop (i + 1) ∧ l.set i y = l.take i ++ y :: l.drop (i + 1) := by
  obtain ⟨hi, rfl⟩ := List.getElem?_eq_some_iff.1 h
  exact ⟨by rw [← List.drop_eq_getElem_cons hi, List.take_append_drop], List.set_eq_take_append_cons_drop .. ▸ if_pos hi⟩

/-- Each place of a sequence, with what came before it and what came after. -/
def splits {A : Type} : List A → List (List A × A × List A)
  | [] => []
  | a :: rest => ([], a, rest) :: (splits rest).map fun x => (a :: x.1, x.2)

theorem mem_splits {A : Type} {acts before after : List A} {a : A} :
    (before, a, after) ∈ splits acts ↔ acts = before ++ a :: after := by
  induction acts generalizing before with
  | nil => simp [splits]
  | cons b rest ih =>
    rw [splits, List.mem_cons, List.mem_map]
    cases before with
    | nil => simp [eq_comm]
    | cons c before =>
      simp only [Prod.mk.injEq, reduceCtorEq, false_and, false_or, List.cons_append, List.cons.injEq]
      constructor
      · rintro ⟨⟨x, y, z⟩, hx, ⟨rfl, rfl⟩, heq⟩
        cases heq
        exact ⟨rfl, ih.1 hx⟩
      · rintro ⟨rfl, h⟩
        exact ⟨(before, a, after), ih.2 h, ⟨rfl, rfl⟩, rfl⟩

theorem splits_concat {A : Type} (acts : List A) (a : A) :
    splits (acts ++ [a]) = ((splits acts).map fun x => (x.1, x.2.1, x.2.2 ++ [a])) ++ [(acts, a, [])] := by
  induction acts with
  | nil => rfl
  | cons b rest ih =>
    rw [List.cons_append, splits, ih, splits]
    simp

end History
