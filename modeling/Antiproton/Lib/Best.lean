import Mathlib.Data.List.Nodup
import Mathlib.Data.List.Perm.Basic

/-!
# Antiproton.Lib.Best

The element a list is reduced to by a comparison, one after another: the first, and then each that beats the one kept.

* `pick_free_iff`: the order of the list does not matter exactly if one element beats every other.
* `pick_leave`: an element of a lower rank than the one picked does not matter.
-/

namespace Best

variable {A : Type} (beats : A → A → Bool)

def choose (best : Option A) (a : A) : Option A :=
  match best with
  | none => some a
  | some b => if beats a b then some a else some b

def pick (l : List A) : Option A := l.foldl (choose beats) none

/-- An element that beats every other. -/
def Top (l : List A) (w : A) : Prop := w ∈ l ∧ ∀ x ∈ l, x ≠ w → beats w x = true

variable {beats} {l l' : List A} {a b w : A}

theorem fold_mem {best : Option A} (h : l.foldl (choose beats) best = some w) : best = some w ∨ w ∈ l := by
  induction l generalizing best with
  | nil => exact .inl h
  | cons a l ih =>
    rcases ih h with hc | hc
    · cases best with
      | none => exact .inr (Option.some.inj hc ▸ List.mem_cons_self)
      | some b =>
        unfold choose at hc
        dsimp only at hc
        split at hc
        · exact .inr (Option.some.inj hc ▸ List.mem_cons_self)
        · exact .inl hc
    · exact .inr (List.mem_cons_of_mem _ hc)

theorem pick_mem (h : pick beats l = some w) : w ∈ l := (fold_mem h).resolve_left nofun

theorem fold_isSome (b : A) : (l.foldl (choose beats) (some b)).isSome = true := by
  induction l generalizing b with
  | nil => rfl
  | cons a l ih =>
    rw [List.foldl_cons, choose]
    split
    · exact ih a
    · exact ih b

theorem pick_eq_none : pick beats l = none ↔ l = [] := by
  cases l with
  | nil => exact iff_of_true rfl rfl
  | cons a l =>
    refine iff_of_false (fun h => ?_) (List.cons_ne_nil _ _)
    have hsome : (l.foldl (choose beats) (some a)).isSome = true := fold_isSome a
    rw [pick, List.foldl_cons, choose] at h
    rw [h] at hsome
    cases hsome

/-- One that nothing beats is kept. -/
theorem fold_keeps (h : ∀ x ∈ l, beats x w = false) : l.foldl (choose beats) (some w) = some w := by
  induction l with
  | nil => rfl
  | cons a l ih =>
    rw [List.foldl_cons, choose]
    rw [if_neg (by rw [h a List.mem_cons_self]; exact Bool.false_ne_true)]
    exact ih fun x hx => h x (List.mem_cons_of_mem _ hx)

section Order

variable (hasymm : ∀ a b, beats a b = true → beats b a = false)
include hasymm

theorem beats_self (a : A) : beats a a = false := by
  cases h : beats a a with
  | false => rfl
  | true => exact h.symm.trans (hasymm a a h)

theorem pick_top (h : Top beats l w) : pick beats l = some w := by
  obtain ⟨hw, hall⟩ := h
  obtain ⟨before, after, rfl⟩ := List.append_of_mem hw
  have hkept : ∀ x ∈ after, beats x w = false := by
    intro x hx
    by_cases hxw : x = w
    · rw [hxw]
      exact beats_self hasymm w
    · exact hasymm w x (hall x (by simp [hx]) hxw)
  have htaken : choose beats (before.foldl (choose beats) none) w = some w := by
    cases hb : before.foldl (choose beats) none with
    | none => rfl
    | some b =>
      have hmem : b ∈ before := pick_mem hb
      rw [choose]
      by_cases hbw : b = w
      · rw [hbw, ite_self]
      · rw [if_pos (hall b (by simp [hmem]) hbw)]
  rw [pick, List.foldl_append, List.foldl_cons, htaken]
  exact fold_keeps hkept

/-- The order of the list does not matter exactly if one element beats every other. -/
theorem pick_free_iff (hl : l.Nodup) : (∀ l', l'.Perm l → pick beats l' = pick beats l) ↔ l = [] ∨ ∃ w, Top beats l w := by
  classical
  constructor
  · intro hfree
    cases hp : pick beats l with
    | none => exact .inl (pick_eq_none.1 hp)
    | some w =>
      have hw := pick_mem hp
      refine .inr ⟨w, hw, fun r hr hne => ?_⟩
      -- `r` first and `w` second: `w` is picked only if it beats `r`
      have hperm : (r :: w :: (l.erase w).erase r).Perm l := by
        have hr' : r ∈ l.erase w := (List.mem_erase_of_ne hne).2 hr
        refine (List.Perm.swap w r _).trans ?_
        exact ((List.perm_cons_erase hr').symm.cons w).trans (List.perm_cons_erase hw).symm
      have hpick := hfree _ hperm
      rw [hp, pick, List.foldl_cons, List.foldl_cons] at hpick
      by_contra hno
      have hsecond : choose beats (choose beats none r) w = some r := by
        rw [choose, choose]
        exact if_neg hno
      rw [hsecond] at hpick
      rcases fold_mem hpick with h | h
      · exact hne (Option.some.inj h)
      · exact (hl.not_mem_erase : w ∉ l.erase w) (List.mem_of_mem_erase h)
  · rintro (rfl | ⟨w, htop⟩) l' hperm
    · rw [hperm.eq_nil]
    · rw [pick_top hasymm htop]
      exact pick_top hasymm ⟨hperm.mem_iff.2 htop.1, fun x hx => htop.2 x (hperm.mem_iff.1 hx)⟩

end Order

/-- Where any two differ one way and the comparison is transitive, one beats every other. -/
theorem exists_top (htrans : ∀ a b c, beats a b = true → beats b c = true → beats a c = true)
    (htotal : ∀ a ∈ l, ∀ b ∈ l, a ≠ b → beats a b = true ∨ beats b a = true) (hl : l ≠ []) : ∃ w, Top beats l w := by
  induction l with
  | nil => exact absurd rfl hl
  | cons a l ih =>
    by_cases hempty : l = []
    · subst hempty
      exact ⟨a, List.mem_cons_self, fun x hx hne => absurd (List.mem_singleton.1 hx) hne⟩
    · obtain ⟨w, hw, hall⟩ := ih (fun x hx y hy => htotal x (List.mem_cons_of_mem _ hx) y (List.mem_cons_of_mem _ hy)) hempty
      by_cases haw : a = w
      · subst haw
        refine ⟨a, List.mem_cons_self, fun x hx hne => ?_⟩
        exact hall x ((List.mem_cons.1 hx).resolve_left hne) hne
      · rcases htotal a List.mem_cons_self w (List.mem_cons_of_mem _ hw) haw with hbeats | hbeats
        · refine ⟨a, List.mem_cons_self, fun x hx hne => ?_⟩
          have hx' := (List.mem_cons.1 hx).resolve_left hne
          by_cases hxw : x = w
          · rw [hxw]
            exact hbeats
          · exact htrans a w x hbeats (hall x hx' hxw)
        · refine ⟨w, List.mem_cons_of_mem _ hw, fun x hx hne => ?_⟩
          rcases List.mem_cons.1 hx with rfl | hx'
          · exact hbeats
          · exact hall x hx' hne

section Rank

variable {rank : A → Nat}

/-- Two elements kept are one, or neither ranks above `r`. -/
def Apart (rank : A → Nat) (r : A) (x y : Option A) : Prop :=
  x = y ∨ (∀ a ∈ x, rank a ≤ rank r) ∧ ∀ a ∈ y, rank a ≤ rank r

theorem choose_low {r : A} {x : Option A} (hx : ∀ a ∈ x, rank a ≤ rank r) (he : rank b ≤ rank r) :
    ∀ a ∈ choose beats x b, rank a ≤ rank r := by
  intro a ha
  cases x with
  | none =>
    cases ha
    exact he
  | some c =>
    unfold choose at ha
    dsimp only at ha
    split at ha
    · cases ha
      exact he
    · cases ha
      exact hx a rfl

variable (hhigh : ∀ a b, rank b < rank a → beats a b = true) (hlow : ∀ a b, rank a < rank b → beats a b = false)

include hhigh in
theorem choose_high {r : A} {x : Option A} (hx : ∀ a ∈ x, rank a ≤ rank r) (he : rank r < rank b) :
    choose beats x b = some b := by
  cases x with
  | none => rfl
  | some c => exact if_pos (hhigh b c (Nat.lt_of_le_of_lt (hx c rfl) he))

include hhigh in
theorem fold_apart {r : A} {x y : Option A} (h : Apart rank r x y) :
    Apart rank r (l.foldl (choose beats) x) (l.foldl (choose beats) y) := by
  induction l generalizing x y with
  | nil => exact h
  | cons e l ih =>
    refine ih ?_
    rcases h with rfl | ⟨hx, hy⟩
    · exact .inl rfl
    · rcases Nat.lt_or_ge (rank r) (rank e) with he | he
      · exact .inl ((choose_high hhigh hx he).trans (choose_high hhigh hy he).symm)
      · exact .inr ⟨choose_low hx he, choose_low hy he⟩

include hhigh hlow in
/-- An element of a lower rank than the one picked, with it or without it, does not matter. -/
theorem pick_leave {r : A} (h : (pick beats (l ++ r :: l') = some w ∨ pick beats (l ++ l') = some w) ∧ rank r < rank w) :
    pick beats (l ++ r :: l') = pick beats (l ++ l') := by
  obtain ⟨hpick, hrank⟩ := h
  have hstart : Apart rank r (choose beats (l.foldl (choose beats) none) r) (l.foldl (choose beats) none) := by
    cases hb : l.foldl (choose beats) none with
    | none => exact .inr ⟨fun a ha => by cases ha; exact Nat.le_refl _, nofun⟩
    | some b =>
      rw [choose]
      split
      · rename_i hbeats
        refine .inr ⟨fun a ha => by cases ha; exact Nat.le_refl _, fun a ha => ?_⟩
        cases ha
        by_contra hgt
        rw [hlow r b (by omega)] at hbeats
        cases hbeats
      · exact .inl rfl
  have hend := fold_apart hhigh (l := l') hstart
  rw [← List.foldl_cons, ← List.foldl_append, ← List.foldl_append] at hend
  rcases hend with hsame | ⟨hx, hy⟩
  · exact hsame
  · rcases hpick with hp | hp
    · have := hx w hp
      omega
    · have := hy w hp
      omega

end Rank

end Best
