import Mathlib.Data.List.Basic
import Mathlib.Logic.Function.Basic

/-!
# Antiproton.Lib.PrefixCode

Codes that are read from the front: what follows a code word does not change which one it is. Nothing here depends on
what the words are made of.

* `Code.Prefix`: the property. `Code.of_reader`: a function that reads words back has it.
* `Code.flatMap_injective`: words one after another are read back one after another.
* `Code.separated`: so are words between separators and before an end that no word starts with.
-/

namespace Code

variable {A B : Type}

/-- The first word written is known from what is written, whatever follows. -/
def Prefix (f : A → List B) : Prop := ∀ a b x y, f a ++ x = f b ++ y → a = b ∧ x = y

theorem of_reader {f : A → List B} {read : List B → Option (A × List B)} (h : ∀ a x, read (f a ++ x) = some (a, x)) :
    Prefix f := by
  intro a b x y heq
  have hread := congrArg read heq
  rw [h, h] at hread
  exact Prod.mk.inj (Option.some.inj hread)

theorem Prefix.injective {f : A → List B} (h : Prefix f) : Function.Injective f := by
  intro a b heq
  exact (h a b [] [] (by rw [heq])).1

theorem Prefix.comp {C : Type} {f : A → List B} (h : Prefix f) {g : C → A} (hg : Function.Injective g) :
    Prefix fun c => f (g c) := by
  intro a b x y heq
  obtain ⟨hab, hxy⟩ := h _ _ _ _ heq
  exact ⟨hg hab, hxy⟩

/-- A word before another word. -/
theorem Prefix.append {C : Type} {f : A → List B} {g : C → List B} (hf : Prefix f) (hg : Prefix g) :
    Prefix fun p : A × C => f p.1 ++ g p.2 := by
  rintro ⟨a, c⟩ ⟨b, d⟩ x y heq
  rw [List.append_assoc, List.append_assoc] at heq
  obtain ⟨rfl, hrest⟩ := hf _ _ _ _ heq
  obtain ⟨rfl, hxy⟩ := hg _ _ _ _ hrest
  exact ⟨rfl, hxy⟩

/-- Fixed text around a word. -/
theorem Prefix.wrap {f : A → List B} (h : Prefix f) (before after : List B) : Prefix fun a => before ++ f a ++ after := by
  intro a b x y heq
  simp only [List.append_assoc] at heq
  obtain ⟨hab, hxy⟩ := h _ _ _ _ (List.append_cancel_left heq)
  exact ⟨hab, List.append_cancel_left hxy⟩

theorem flatMap_injective {f : A → List B} (h : Prefix f) (hne : ∀ a, f a ≠ []) : Function.Injective (List.flatMap f) := by
  intro as
  induction as with
  | nil =>
    intro bs heq
    cases bs with
    | nil => rfl
    | cons b bs => exact absurd (List.append_eq_nil_iff.1 heq.symm).1 (hne b)
  | cons a as ih =>
    intro bs heq
    cases bs with
    | nil => exact absurd (List.append_eq_nil_iff.1 heq).1 (hne a)
    | cons b bs =>
      obtain ⟨rfl, hrest⟩ := h a b _ _ heq
      rw [ih hrest]

/-- The words of a list with a separator before each but the first. -/
def joined (f : A → List B) (sep : B) : List A → List B
  | [] => []
  | [a] => f a
  | a :: b :: rest => f a ++ sep :: joined f sep (b :: rest)

/-- Words between separators, before an end that neither a separator nor a word starts with. -/
theorem separated {f : A → List B} (h : Prefix f) {sep close : B} (hsep : sep ≠ close)
    (hclose : ∀ a x y, f a ++ x ≠ close :: y) : Prefix fun as : List A => joined f sep as ++ [close] := by
  intro as
  induction as with
  | nil =>
    intro bs x y heq
    match bs with
    | [] => exact ⟨rfl, List.append_cancel_left heq⟩
    | [b] =>
      simp only [joined, List.nil_append, List.append_assoc, List.cons_append] at heq
      exact absurd heq.symm (hclose b _ _)
    | b :: c :: rest =>
      simp only [joined, List.nil_append, List.append_assoc, List.cons_append] at heq
      exact absurd heq.symm (hclose b _ _)
  | cons a as ih =>
    intro bs x y heq
    match as, bs with
    | [], [] =>
      simp only [joined, List.nil_append, List.append_assoc, List.cons_append] at heq
      exact absurd heq (hclose a _ _)
    | _ :: _, [] =>
      simp only [joined, List.nil_append, List.append_assoc, List.cons_append] at heq
      exact absurd heq (hclose a _ _)
    | [], [b] =>
      simp only [joined, List.append_assoc] at heq
      obtain ⟨rfl, hrest⟩ := h _ _ _ _ heq
      exact ⟨rfl, List.append_cancel_left hrest⟩
    | [], b :: c :: rest =>
      simp only [joined, List.append_assoc, List.cons_append] at heq
      obtain ⟨-, hrest⟩ := h _ _ _ _ heq
      exact absurd (List.cons.inj hrest).1.symm hsep
    | d :: as, [b] =>
      simp only [joined, List.append_assoc, List.cons_append] at heq
      obtain ⟨-, hrest⟩ := h _ _ _ _ heq
      exact absurd (List.cons.inj hrest).1 hsep
    | d :: as, b :: c :: rest =>
      simp only [joined, List.append_assoc, List.cons_append] at heq
      obtain ⟨rfl, hrest⟩ := h _ _ _ _ heq
      have hmore := (List.cons.inj hrest).2
      obtain ⟨htail, hxy⟩ := ih (c :: rest) x y (by simpa using hmore)
      exact ⟨by rw [htail], hxy⟩

end Code
