import Mathlib.Data.List.Basic

/-!
# Antiproton.Lib.Offers

Offers made one after another, each a set of things, where each tells what it has and the one before it had not. What
an offer is, and what it offers, is left open.

* `told_since`: what the last offer has was offered from the first one on, or told by one after which no offer lacked it.
* `told_apart`: between two offers that tell one thing there is one that lacks it.
* `Kept`: an offer whose telling failed has been made up for by a later one that lacks what it told.
-/

namespace Offers

variable {A N : Type}

/-- Each offer stands so to the one made before it, the first to what was there. -/
def Chained (R : Option A → A → Prop) : Option A → List A → Prop
  | _, [] => True
  | prev, a :: rest => R prev a ∧ Chained R (some a) rest

/-- An offer tells what it adds to the one before; the first tells nothing. -/
def News (has tells : A → N → Prop) (prev : Option A) (a : A) : Prop := ∀ n, tells a n ↔ has a n ∧ ∃ p ∈ prev, ¬has p n

/-- Each offer that failed is followed by one that lacks what it told. -/
def Kept (has tells : A → N → Prop) (failed : A → Prop) : List A → Prop
  | [] => True
  | a :: rest => (failed a → ∀ n, tells a n → ∃ y ∈ rest, ¬has y n) ∧ Kept has tells failed rest

section Chains

variable {R : Option A → A → Prop} {l m : List A} {prev : Option A}

theorem chained_append : Chained R prev (l ++ m) ↔ Chained R prev l ∧ Chained R (l.getLast?.or prev) m := by
  induction l generalizing prev with
  | nil => simp [Chained]
  | cons a l ih =>
    have hlast : l.getLast?.or (some a) = (a :: l).getLast?.or prev := by
      rw [List.getLast?_cons]
      cases l.getLast? <;> rfl
    rw [List.cons_append, Chained, Chained, ih, hlast, and_assoc]

theorem chained_concat {a : A} : Chained R none (l ++ [a]) ↔ Chained R none l ∧ R l.getLast? a := by
  rw [chained_append, Option.or_none, Chained, Chained, and_true]

/-- The chain from one of its offers on. -/
theorem Chained.at {a : A} (h : Chained R prev (l ++ a :: m)) : R (l.getLast?.or prev) a ∧ Chained R (some a) m :=
  (chained_append.1 h).2

/-- An offer may take the place of one that stands the same to those before and after it. -/
theorem Chained.swap {x y : A} (h : Chained R prev (l ++ x :: m)) (hto : ∀ p, R p x → R p y)
    (hfrom : ∀ a, R (some x) a → R (some y) a) : Chained R prev (l ++ y :: m) := by
  obtain ⟨hl, hx, hm⟩ := chained_append.1 h
  refine chained_append.2 ⟨hl, hto _ hx, ?_⟩
  cases m with
  | nil => trivial
  | cons a m => exact ⟨hfrom a hm.1, hm.2⟩

theorem Chained.mono {Q : Option A → A → Prop} (h : Chained R prev l) (hRQ : ∀ prev a, R prev a → Q prev a) :
    Chained Q prev l := by
  induction l generalizing prev with
  | nil => trivial
  | cons a l ih => exact ⟨hRQ prev a h.1, ih h.2⟩

end Chains

section Telling

variable {has tells : A → N → Prop} {l : List A} {n : N}

theorem told_since {prev : Option A} (h : Chained (News has tells) prev l) (hl : ∀ a ∈ l.getLast?.or prev, has a n) :
    (∀ x ∈ l, has x n) ∧ (∀ p ∈ prev, has p n) ∨
      ∃ pre x post, l = pre ++ x :: post ∧ tells x n ∧ ∀ y ∈ post, has y n := by
  induction l generalizing prev with
  | nil => exact .inl ⟨fun x hx => absurd hx List.not_mem_nil, hl⟩
  | cons a l ih =>
    obtain ⟨hnews, hrest⟩ := h
    have hlast : ∀ x ∈ l.getLast?.or (some a), has x n := by
      intro x hx
      refine hl x ?_
      rw [List.getLast?_cons]
      revert hx
      cases l.getLast? <;> exact id
    rcases ih hrest hlast with ⟨hall, ha⟩ | ⟨pre, x, post, rfl, htells, hpost⟩
    · by_cases hprev : ∀ p ∈ prev, has p n
      · refine .inl ⟨fun x hx => ?_, hprev⟩
        rcases List.mem_cons.1 hx with rfl | hx
        · exact ha x rfl
        · exact hall x hx
      · -- The offer before lacked it, so this one tells it.
        obtain ⟨p, hp, hlacks⟩ : ∃ p ∈ prev, ¬has p n := by
          by_contra hnone
          exact hprev fun p hp => by_contra fun hlacks => hnone ⟨p, hp, hlacks⟩
        exact .inr ⟨[], a, l, rfl, (hnews n).2 ⟨ha a rfl, p, hp, hlacks⟩, hall⟩
    · exact .inr ⟨a :: pre, x, post, rfl, htells, hpost⟩

theorem told_apart {prev : Option A} {pre mid post : List A} {x y : A}
    (h : Chained (News has tells) prev (pre ++ x :: (mid ++ y :: post))) (hx : tells x n) (hy : tells y n) :
    ∃ z ∈ mid, ¬has z n := by
  obtain ⟨hnews, hmid⟩ := h.at
  obtain ⟨-, p, hp, hlacks⟩ := (hmid.at.1 n).1 hy
  cases hend : mid.getLast? with
  | none =>
    rw [hend] at hp
    cases hp
    exact absurd ((hnews n).1 hx).1 hlacks
  | some z =>
    rw [hend] at hp
    cases hp
    exact ⟨_, List.mem_of_getLast? hend, hlacks⟩

end Telling

section Keeping

variable {has tells : A → N → Prop} {failed : A → Prop} {l m : List A}

theorem kept_of_splits (h : ∀ pre x post, l = pre ++ x :: post → failed x → ∀ n, tells x n → ∃ y ∈ post, ¬has y n) :
    Kept has tells failed l := by
  induction l with
  | nil => trivial
  | cons a l ih => exact ⟨h [] a l rfl, ih fun pre x post hl => h (a :: pre) x post (congrArg (a :: ·) hl)⟩

theorem Kept.tail (h : Kept has tells failed (l ++ m)) : Kept has tells failed m := by
  induction l with
  | nil => exact h
  | cons a l ih => exact ih h.2

/-- What comes last may be replaced by what still lacks all that it lacked. -/
theorem Kept.replace {m' : List A} (h : Kept has tells failed (l ++ m)) (hm : Kept has tells failed m')
    (hlacks : ∀ n, (∃ y ∈ m, ¬has y n) → ∃ y ∈ m', ¬has y n) : Kept has tells failed (l ++ m') := by
  induction l with
  | nil => exact hm
  | cons a l ih =>
    refine ⟨fun hfailed n hn => ?_, ih h.2⟩
    obtain ⟨y, hy, hlack⟩ := h.1 hfailed n hn
    rcases List.mem_append.1 hy with hy | hy
    · exact ⟨y, List.mem_append_left _ hy, hlack⟩
    · obtain ⟨z, hz, hlack⟩ := hlacks n ⟨y, hy, hlack⟩
      exact ⟨z, List.mem_append_right _ hz, hlack⟩

theorem Kept.concat {a : A} (h : Kept has tells failed l) (ha : ¬failed a) : Kept has tells failed (l ++ [a]) := by
  rw [← List.append_nil l] at h
  refine h.replace ⟨fun hfailed => absurd hfailed ha, trivial⟩ ?_
  rintro n ⟨y, hy, -⟩
  exact absurd hy List.not_mem_nil

/-- What told a thing that no later offer lacks has not failed. -/
theorem Kept.sound {pre post : List A} {x : A} {n : N} (h : Kept has tells failed (pre ++ x :: post)) (hx : tells x n)
    (hpost : ∀ y ∈ post, has y n) : ¬failed x := by
  intro hfailed
  obtain ⟨y, hy, hlacks⟩ := h.tail.1 hfailed n hx
  exact hlacks (hpost y hy)

end Keeping

end Offers
