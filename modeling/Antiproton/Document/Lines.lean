import Mathlib.Data.List.Infix
import Antiproton.Store.StateLines

/-!
# Antiproton.Document.Lines

The lines of a document, as the edits of `Store.StateLines` count them.

* `docLines`  — the lines an insert and a listing number: a break that ends the document opens no line.
* `weigh`     — the room lines take, the break after each included.
* `OnLine`    — the line a place of the document falls on.
-/

namespace Antiproton.Document

open Js

/-! ## Splitting and joining -/

theorem splitOn_eq (sep : UInt16) (s : Str) : splitOn sep s = s.splitOn sep := by
  induction s with
  | nil => rfl
  | cons u rest ih =>
    rw [splitOn, List.splitOn_cons_eq_if_modifyHead, ih]
    by_cases h : u = sep
    · simp [h]
    · have hne : (u == sep) = false := by simp [h]
      rw [if_neg h, if_neg (by simp [hne])]
      cases hs : rest.splitOn sep with
      | nil => exact absurd hs (List.splitOn_ne_nil sep rest)
      | cons line lines => rfl

theorem join_eq (sep : Str) (ls : List Str) : join sep ls = sep.intercalate ls := by
  induction ls with
  | nil => rfl
  | cons l ls ih =>
    cases ls with
    | nil => simp [join]
    | cons l' ls => rw [join, ih, List.intercalate_cons_cons]

theorem splitOn_append (sep : UInt16) (a b : Str) : splitOn sep (a ++ sep :: b) = splitOn sep a ++ splitOn sep b := by
  rw [splitOn_eq, splitOn_eq, splitOn_eq, List.splitOn_append_cons_self]

theorem splitOn_single {sep : UInt16} {s : Str} (h : sep ∉ s) : splitOn sep s = [s] := by
  rw [splitOn_eq, List.splitOn_eq_singleton h]

theorem splitOn_join {sep : UInt16} {ls : List Str} (hls : ls ≠ []) (h : ∀ l ∈ ls, sep ∉ l) :
    splitOn sep (join [sep] ls) = ls := by
  rw [splitOn_eq, join_eq, List.splitOn_intercalate sep h hls]

theorem sep_not_mem {sep : UInt16} {s l : Str} (h : l ∈ splitOn sep s) : sep ∉ l := by
  induction s generalizing l with
  | nil =>
    have hl : l = [] := by simpa [splitOn] using h
    simp [hl]
  | cons u rest ih =>
    unfold splitOn at h
    split at h
    · rcases List.mem_cons.1 h with rfl | h
      · simp
      · exact ih h
    · rename_i hu
      split at h
      · rename_i hs
        exact absurd hs (splitOn_ne_nil sep rest)
      · rename_i line lines hs
        rcases List.mem_cons.1 h with rfl | h
        · have := ih (l := line) (by rw [hs]; exact List.mem_cons_self)
          simpa [Ne.symm hu] using this
        · exact ih (by rw [hs]; exact List.mem_cons_of_mem _ h)

/-- A document has one line more than it has breaks. -/
theorem splitOn_length (sep : UInt16) (s : Str) : (splitOn sep s).length = s.count sep + 1 := by
  induction s with
  | nil => rfl
  | cons u rest ih =>
    unfold splitOn
    split
    · rename_i h
      simp [ih, h]
    · rename_i h
      split
      · rename_i hs
        exact absurd hs (splitOn_ne_nil sep rest)
      · rename_i line lines hs
        rw [hs] at ih
        simpa [List.count_cons, h] using ih

/-! ## The room lines take -/

/-- The length of lines with a break after each. -/
def weigh (ls : List Str) : Nat := (ls.map fun l => l.length + 1).sum

@[simp] theorem weigh_nil : weigh [] = 0 := rfl

@[simp] theorem weigh_cons (l : Str) (ls : List Str) : weigh (l :: ls) = l.length + 1 + weigh ls := rfl

theorem weigh_append (xs ys : List Str) : weigh (xs ++ ys) = weigh xs + weigh ys := by
  simp [weigh]

theorem weigh_take_drop (ls : List Str) (i : Nat) : weigh (ls.take i) + weigh (ls.drop i) = weigh ls := by
  rw [← weigh_append, List.take_append_drop]

theorem weigh_drop_le (ls : List Str) {i j : Nat} (h : i ≤ j) : weigh (ls.drop j) ≤ weigh (ls.drop i) := by
  have hsplit := weigh_take_drop (ls.drop i) (j - i)
  rw [List.drop_drop, show i + (j - i) = j by omega] at hsplit
  omega

theorem weigh_join {ls : List Str} (h : ls ≠ []) : (join [lf] ls).length + 1 = weigh ls := by
  induction ls with
  | nil => exact absurd rfl h
  | cons l ls ih =>
    cases ls with
    | nil => simp [join]
    | cons l' ls =>
      have := ih (by simp)
      simp only [join, List.length_append, List.length_singleton, weigh_cons] at this ⊢
      omega

theorem weigh_splitOn (s : Str) : weigh (splitOn lf s) = s.length + 1 := by
  rw [← weigh_join (splitOn_ne_nil lf s), join_splitOn]

/-! ## The lines of a document -/

theorem eolOf_cases (doc : Str) : eolOf doc = [cr, lf] ∨ eolOf doc = [lf] := by
  unfold eolOf
  split
  · exact .inl rfl
  · exact .inr rfl

/-- The document without the break it ends with. -/
def body (doc : Str) : Str :=
  if endsWith (eolOf doc) doc then doc.take (doc.length - (eolOf doc).length) else doc

/-- The break the document ends with, or nothing. -/
def trailing (doc : Str) : Str := if endsWith (eolOf doc) doc then eolOf doc else []

theorem body_trailing (doc : Str) : body doc ++ trailing doc = doc := by
  unfold body trailing
  split
  · rename_i h
    exact List.suffix_iff_eq_append.1 (List.isSuffixOf_iff_suffix.1 h)
  · exact List.append_nil doc

/-- The lines an insert and the listing count: an empty document has none. -/
def docLines (doc : Str) : List Str := if doc.isEmpty then [] else splitOn lf (body doc)

theorem docLines_cons {doc : Str} (h : doc ≠ []) : docLines doc = splitOn lf (body doc) := by
  simp [docLines, h]

/-! ## The line of a place -/

/-- Place `p` of a document of these lines falls on line `m`, from 1. -/
structure OnLine (ls : List Str) (p m : Nat) : Prop where
  positive : 0 < m
  inside : m ≤ ls.length
  starts : weigh (ls.take (m - 1)) ≤ p
  ends : m < ls.length → p < weigh (ls.take m)

/-- A place is on no line but one. -/
theorem OnLine.unique {ls : List Str} {p m n : Nat} (h : OnLine ls p m) (h' : OnLine ls p n) : m = n := by
  have bound : ∀ {a b : Nat}, OnLine ls p a → OnLine ls p b → a < b → False := by
    intro a b ha hb hlt
    have hend := ha.ends (Nat.lt_of_lt_of_le hlt hb.inside)
    have hstart := hb.starts
    have hsplit := weigh_take_drop (ls.take (b - 1)) a
    rw [List.take_take, Nat.min_eq_left (by omega)] at hsplit
    omega
  rcases Nat.lt_trichotomy m n with hlt | heq | hgt
  · exact (bound h h' hlt).elim
  · exact heq
  · exact (bound h' h hgt).elim

theorem onLine_splitOn (s : Str) (p : Nat) (h : p ≤ s.length) :
    OnLine (splitOn lf s) p ((s.take p).count lf + 1) := by
  induction s generalizing p with
  | nil =>
    have hp : p = 0 := by simpa using h
    subst hp
    exact ⟨by omega, by simp [splitOn], by simp [splitOn], by simp [splitOn]⟩
  | cons u rest ih =>
    cases p with
    | zero =>
      have hlen := splitOn_length lf (u :: rest)
      refine ⟨by omega, by simp [hlen], by simp, fun _ => ?_⟩
      cases hs : splitOn lf (u :: rest) with
      | nil => exact absurd hs (splitOn_ne_nil lf _)
      | cons line lines => simp
    | succ p =>
      have hrest := ih p (by simpa using h)
      by_cases hu : u = lf
      · subst hu
        have hs : splitOn lf (lf :: rest) = [] :: splitOn lf rest := by simp [splitOn]
        rw [hs, List.take_succ_cons, List.count_cons_self]
        refine ⟨by omega, by simpa using hrest.inside, ?_, ?_⟩
        · have := hrest.starts
          simp only [Nat.add_sub_cancel, List.take_succ_cons, weigh_cons, List.length_nil] at this ⊢
          omega
        · intro hlt
          have := hrest.ends (by simpa using hlt)
          simp only [List.take_succ_cons, weigh_cons, List.length_nil] at this ⊢
          omega
      · rw [List.take_succ_cons, List.count_cons_of_ne hu]
        cases hs : splitOn lf rest with
        | nil => exact absurd hs (splitOn_ne_nil lf _)
        | cons line lines =>
          have hcons : splitOn lf (u :: rest) = (u :: line) :: lines := by simp [splitOn, hu, hs]
          rw [hs] at hrest
          rw [hcons]
          refine ⟨by omega, by simpa using hrest.inside, ?_, ?_⟩
          · have := hrest.starts
            cases hc : (rest.take p).count lf with
            | zero => simp
            | succ c =>
              rw [hc] at this
              simp only [Nat.add_sub_cancel, List.take_succ_cons, weigh_cons, List.length_cons] at this ⊢
              omega
          · intro hlt
            have := hrest.ends (by simpa using hlt)
            simp only [List.take_succ_cons, weigh_cons, List.length_cons] at this ⊢
            omega

/-- `lineAt` counts lines as an insert numbers them. -/
theorem onLine_lineAt (doc : Str) (p : Nat) (h : p < doc.length) : OnLine (docLines doc) p (lineAt doc p) := by
  have hne : doc ≠ [] := by
    intro hnil
    simp [hnil] at h
  rw [docLines_cons hne]
  rcases Nat.lt_or_ge p (body doc).length with hp | hp
  · have htake : doc.take p = (body doc).take p := by
      conv_lhs => rw [← body_trailing doc]
      rw [List.take_append_of_le_length (by omega)]
    rw [lineAt, htake]
    exact onLine_splitOn (body doc) p (by omega)
  · -- The place is in the break that ends the document, before its `\n`.
    have hall := onLine_splitOn (body doc) (body doc).length (Nat.le_refl _)
    rw [List.take_length] at hall
    have hcount : (doc.take p).count lf = (body doc).count lf := by
      have hlen : p - (body doc).length < (trailing doc).length := by
        have := congrArg List.length (body_trailing doc)
        rw [List.length_append] at this
        omega
      conv_lhs => rw [← body_trailing doc]
      rw [List.take_append, List.take_of_length_le hp, List.count_append, Nat.add_eq_left]
      revert hlen
      generalize p - (body doc).length = q
      intro hlen
      unfold trailing at hlen ⊢
      split at hlen
      · rename_i hends
        rw [if_pos hends]
        rcases eolOf_cases doc with heol | heol
        · rw [heol] at hlen ⊢
          rcases (by simpa using hlen : q < 2) with _ | _
          · decide
          · simp_all
        · rw [heol] at hlen ⊢
          have : q = 0 := by simpa using hlen
          simp [this]
      · simp at hlen
    rw [lineAt, hcount]
    refine ⟨hall.positive, hall.inside, Nat.le_trans hall.starts hp, fun hlt => ?_⟩
    rw [splitOn_length] at hlt
    omega

end Antiproton.Document
