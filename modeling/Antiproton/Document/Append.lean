import Mathlib.Data.List.TakeWhile
import Antiproton.Document.Lines

/-!
# Antiproton.Document.Append

What `appendLines` keeps, drops and refuses.

* `Append`    — a document after an append: what is left of its lines, then the text.
* `Bounded`   — the promise of an append, for either way of being full.
* `append_bounded` — when it is kept: not on a CRLF document of blank lines alone that refuses, given a text
  that fills the cap. There the last blank line's two-unit break is still counted when the line itself is gone,
  so the text is refused though it fits alone.
-/

namespace Antiproton.Document

open Js

/-- The lines an append splits a document into. -/
def appendedTo (doc : Str) : List Str := splitOn lf (body doc)

/-- The document's lines but the first `i`, then the text. -/
def keep (doc text : Str) (i : Nat) : Str :=
  if (appendedTo doc).drop i = [] then text else join [lf] ((appendedTo doc).drop i) ++ eolOf doc ++ text

/-- An append that gave up the first `i` lines. -/
structure Append (doc text : Str) (max i : Nat) (kept : Str) (dropped : List Str) : Prop where
  inside : i ≤ (appendedTo doc).length
  whole : kept = keep doc text i
  ends : text <:+ kept
  fits : kept.length ≤ max
  told : dropped = (((appendedTo doc).take i).filter fun l => !blank l).map dropCr
  needed : ∀ j < i, ∀ l, (appendedTo doc)[j]? = some l → blank l = false → max < (keep doc text j).length

/-- Whether giving up blank lines at the head makes the text fit. -/
def FitsWithout (doc text : Str) (max : Nat) : Prop :=
  ∃ i, (∀ l ∈ (appendedTo doc).take i, blank l = true) ∧ (keep doc text i).length ≤ max

/-- What an append promises: bounded, minimal, and nothing lost silently. -/
def Bounded (key : String) (doc text : Str) (max : Nat) : WhenFull → Prop
  | .drop => ∃ kept dropped i, appendLines key doc text max .drop = .ok (kept, dropped) ∧
      Append doc text max i kept dropped
  | .refuse =>
    (∀ kept dropped, appendLines key doc text max .refuse = .ok (kept, dropped) →
      ∃ i, Append doc text max i kept dropped ∧ ∀ l ∈ (appendedTo doc).take i, blank l = true) ∧
    ((∃ e, appendLines key doc text max .refuse = .error e) ↔ max < doc.length ∨ ¬ FitsWithout doc text max)

/-- A CRLF document within its cap whose lines all say nothing, and a text that fills the cap. -/
def BlankAndFull (doc text : Str) (max : Nat) : Prop :=
  eolOf doc = [cr, lf] ∧ body doc ≠ [] ∧ (∀ l ∈ appendedTo doc, blank l = true) ∧ doc.length ≤ max ∧ text.length = max

/-! ## The lines given up -/

/-- Where giving up lines stopped, and the length it left. -/
structure GaveUp (onlyBlank : Bool) (max : Nat) (c : Int) (ls : List Str) (r : Nat × Int) : Prop where
  inside : r.1 ≤ ls.length
  left : r.2 = weigh (ls.drop r.1) + c
  exceeds : ∀ j < r.1, max < weigh (ls.drop j) + c
  quiet : onlyBlank = true → ∀ l ∈ ls.take r.1, blank l = true
  stopped : r.2 ≤ max ∨ r.1 = ls.length ∨ ∃ l, ls[r.1]? = some l ∧ onlyBlank = true ∧ blank l = false

theorem giveUp_spec (onlyBlank : Bool) (max : Nat) (c : Int) (ls : List Str) :
    GaveUp onlyBlank max c ls (giveUp onlyBlank max ls (weigh ls + c)) := by
  induction ls with
  | nil => exact ⟨by simp [giveUp], by simp [giveUp], by simp [giveUp], by simp, .inr (.inl rfl)⟩
  | cons line lines ih =>
    have hrest : (weigh (line :: lines) : Int) + c - (line.length + 1) = weigh lines + c := by
      rw [weigh_cons]
      omega
    rw [giveUp]
    split
    · rename_i h
      rw [hrest]
      simp only [Bool.and_eq_true, decide_eq_true_eq, Bool.or_eq_true, Bool.not_eq_true'] at h
      refine ⟨by simpa using ih.inside, by simpa using ih.left, ?_, ?_, by simpa using ih.stopped⟩
      · intro j hj
        cases j with
        | zero => exact h.1
        | succ j => simpa using ih.exceeds j (Nat.lt_of_succ_lt_succ hj)
      · intro hb l hl
        rw [List.take_succ_cons] at hl
        rcases List.mem_cons.1 hl with rfl | hl
        · exact h.2.resolve_left (by simp [hb])
        · exact ih.quiet hb l hl
    · rename_i h
      refine ⟨Nat.zero_le _, rfl, fun j hj => absurd hj (Nat.not_lt_zero j), by simp, ?_⟩
      by_cases hlt : (max : Int) < weigh (line :: lines) + c
      · simp only [hlt, decide_true, Bool.true_and, Bool.or_eq_true, Bool.not_eq_true', not_or, Bool.not_eq_true,
          Bool.not_eq_false] at h
        exact .inr (.inr ⟨line, rfl, h⟩)
      · exact .inl (by simpa using hlt)

/-- Nothing is given up of what fits. -/
theorem giveUp_fits {onlyBlank : Bool} {max : Int} {ls : List Str} {length : Int} (h : length ≤ max) :
    giveUp onlyBlank max ls length = (0, length) := by
  cases ls with
  | nil => rfl
  | cons line lines =>
    rw [giveUp, if_neg]
    simp [Int.not_lt.2 h]

/-! ## The document an append leaves -/

section

variable {key : String} {doc text : Str} {max : Nat}

/-- The room the text takes with the break before it, less the one of the last line. -/
def tailRoom (doc text : Str) : Nat := (eolOf doc).length - 1 + text.length

theorem eol_pos (doc : Str) : 0 < (eolOf doc).length := by
  rcases eolOf_cases doc with h | h
  · simp [h]
  · simp [h]

theorem keep_nil {i : Nat} (h : (appendedTo doc).length ≤ i) : keep doc text i = text :=
  if_pos (List.drop_eq_nil_of_le h)

theorem keep_length {i : Nat} (h : i < (appendedTo doc).length) :
    (keep doc text i).length = weigh ((appendedTo doc).drop i) + tailRoom doc text := by
  have hne : (appendedTo doc).drop i ≠ [] := by
    intro hnil
    have := congrArg List.length hnil
    rw [List.length_drop, List.length_nil] at this
    omega
  have hjoin := weigh_join hne
  have heol := eol_pos doc
  rw [keep, if_neg hne, List.length_append, List.length_append, tailRoom]
  omega

theorem appendedTo_pos (doc : Str) : 0 < (appendedTo doc).length :=
  List.length_pos_of_ne_nil (splitOn_ne_nil lf _)

theorem suffix_keep (doc text : Str) (i : Nat) : text <:+ keep doc text i := by
  unfold keep
  split
  · exact List.suffix_refl text
  · exact List.suffix_append _ text

/-- The lines given up, and the blank lines that would then open the document. -/
def openAt (doc : Str) (i : Nat) : Nat :=
  if 0 < i then i + (((appendedTo doc).drop i).takeWhile blank).length else i

theorem openAt_le {i : Nat} (h : i ≤ (appendedTo doc).length) : openAt doc i ≤ (appendedTo doc).length := by
  unfold openAt
  split
  · have hpre := (List.takeWhile_prefix (l := (appendedTo doc).drop i) blank).length_le
    rw [List.length_drop] at hpre
    omega
  · exact h

/-- What opens the document after the lines given up is blank. -/
theorem openAt_blank {i j : Nat} {l : Str} (hij : i ≤ j) (hj : j < openAt doc i)
    (hl : (appendedTo doc)[j]? = some l) : blank l = true := by
  unfold openAt at hj
  split at hj
  · have hpre := List.takeWhile_prefix (l := (appendedTo doc).drop i) blank
    have hlt : j - i < (((appendedTo doc).drop i).takeWhile blank).length := by omega
    have hget := List.IsPrefix.getElem hpre hlt
    have hmem := List.getElem_mem hlt
    have hsome : (appendedTo doc)[j]? = some (((appendedTo doc).drop i).takeWhile blank)[j - i] := by
      rw [hget, List.getElem_drop]
      simp only [Nat.add_sub_cancel' hij]
      exact List.getElem?_eq_getElem _
    rw [hl, Option.some.injEq] at hsome
    rw [hsome]
    exact List.mem_takeWhile_imp hmem
  · omega

theorem append_of {i : Nat} (htext : text.length ≤ max) (hi : i ≤ (appendedTo doc).length)
    (hover : ∀ j < i, ∀ l, (appendedTo doc)[j]? = some l → blank l = false → max < (keep doc text j).length)
    (hfit : i < (appendedTo doc).length → weigh ((appendedTo doc).drop i) + tailRoom doc text ≤ max) :
    Append doc text max (openAt doc i) (keep doc text (openAt doc i))
      ((((appendedTo doc).take (openAt doc i)).filter fun l => !blank l).map dropCr) := by
  refine ⟨openAt_le hi, rfl, suffix_keep doc text _, ?_, rfl, ?_⟩
  · rcases Nat.lt_or_ge (openAt doc i) (appendedTo doc).length with hlt | hge
    · have hle : i ≤ openAt doc i := by
        unfold openAt
        split
        · omega
        · omega
      have hweigh := weigh_drop_le (appendedTo doc) hle
      have := hfit (by omega)
      rw [keep_length hlt]
      omega
    · rw [keep_nil hge]
      exact htext
  · intro j hj l hl hblank
    rcases Nat.lt_or_ge j i with hlt | hge
    · exact hover j hlt l hl hblank
    · rw [openAt_blank hge hj hl] at hblank
      cases hblank

/-- The length of the document with nothing given up. -/
def fullLength (doc text : Str) : Int := (body doc).length + (eolOf doc).length + text.length

theorem fullLength_eq (doc text : Str) : fullLength doc text = weigh (appendedTo doc) + (tailRoom doc text : Int) := by
  have heol := eol_pos doc
  rw [fullLength, appendedTo, weigh_splitOn, tailRoom]
  omega

/-- The blank lines given up for free, and the length left. -/
def freed (doc text : Str) (max : Nat) (whenFull : WhenFull) : Nat × Int :=
  if max < fullLength doc text ∧ whenFull = .refuse then giveUp true max (appendedTo doc) (fullLength doc text)
  else (0, fullLength doc text)

/-- How many lines are given up in all. -/
def givenUp (doc text : Str) (max : Nat) (whenFull : WhenFull) : Nat :=
  (freed doc text max whenFull).1 +
    (giveUp false max ((appendedTo doc).drop (freed doc text max whenFull).1) (freed doc text max whenFull).2).1

theorem appendLines_eq (key : String) (whenFull : WhenFull) (hsize : ¬ (whenFull = .refuse ∧ max < doc.length))
    (htext : text.length ≤ max) (hbody : body doc ≠ []) :
    appendLines key doc text max whenFull =
      if max < fullLength doc text ∧ whenFull = .refuse ∧ max < (freed doc text max whenFull).2 then
        .error (documentFull key doc.length (fullLength doc text).toNat max
          ((freed doc text max whenFull).2 - max).toNat text (appendedTo doc) .remember)
      else
        .ok (keep doc text (openAt doc (givenUp doc text max whenFull)),
          (((appendedTo doc).take (openAt doc (givenUp doc text max whenFull))).filter fun l => !blank l).map dropCr) := by
  unfold appendLines
  simp only
  rw [if_neg hsize, if_neg (Nat.not_lt.2 htext)]
  change (if (body doc).isEmpty = true then _ else _) = _
  rw [if_neg (by simpa using hbody)]
  simp only [keep, List.isEmpty_iff]
  rfl

theorem appendedTo_nil (h : body doc = []) : appendedTo doc = [[]] := by
  rw [appendedTo, h]
  rfl

theorem appendLines_nil (key : String) (whenFull : WhenFull) (hsize : ¬ (whenFull = .refuse ∧ max < doc.length))
    (htext : text.length ≤ max) (hbody : body doc = []) :
    appendLines key doc text max whenFull = .ok (text, []) := by
  unfold appendLines
  simp only
  rw [if_neg hsize, if_neg (Nat.not_lt.2 htext)]
  exact if_pos (List.isEmpty_iff.2 hbody)

theorem append_nil (htext : text.length ≤ max) (hbody : body doc = []) : Append doc text max 1 text [] := by
  have hlines := appendedTo_nil hbody
  refine ⟨by simp [hlines], by rw [keep_nil (by simp [hlines])], List.suffix_refl text, htext, ?_, ?_⟩
  · rw [hlines]
    rfl
  · intro j hj l hl hblank
    have hj0 : j = 0 := by omega
    rw [hlines, hj0] at hl
    have hl : [] = l := by simpa using hl
    rw [← hl] at hblank
    cases hblank

/-! ### Dropping -/

theorem drop_bounded (key : String) (htext : text.length ≤ max) : Bounded key doc text max .drop := by
  have hsize : ¬ (WhenFull.drop = .refuse ∧ max < doc.length) := fun h => nomatch h.1
  by_cases hbody : body doc = []
  · exact ⟨text, [], 1, appendLines_nil key .drop hsize htext hbody, append_nil htext hbody⟩
  · have heq := appendLines_eq key .drop hsize htext hbody
    rw [if_neg (fun h => nomatch h.2.1)] at heq
    refine ⟨_, _, openAt doc (givenUp doc text max .drop), heq, ?_⟩
    have hfreed : freed doc text max .drop = (0, fullLength doc text) := if_neg fun h => nomatch h.2
    have hspec := giveUp_spec false max (tailRoom doc text) (appendedTo doc)
    have hgiven : givenUp doc text max .drop =
        (giveUp false max (appendedTo doc) (weigh (appendedTo doc) + (tailRoom doc text : Int))).1 := by
      rw [givenUp, hfreed, ← fullLength_eq]
      simp
    rw [hgiven]
    refine append_of htext hspec.inside ?_ ?_
    · intro j hj l hl _
      have hover := hspec.exceeds j hj
      rw [keep_length (Nat.lt_of_lt_of_le hj hspec.inside)]
      omega
    · intro hlt
      rcases hspec.stopped with hfits | hend | ⟨l, _, hfalse, _⟩
      · rw [hspec.left] at hfits
        omega
      · omega
      · cases hfalse

/-! ### Refusing -/

/-- The lines a refusing document gives up are blank, and what is left fits unless the append is refused. -/
structure Freed (doc text : Str) (max n : Nat) (length : Int) : Prop where
  inside : n ≤ (appendedTo doc).length
  left : length = weigh ((appendedTo doc).drop n) + (tailRoom doc text : Int)
  quiet : ∀ l ∈ (appendedTo doc).take n, blank l = true
  stopped : length ≤ max ∨ n = (appendedTo doc).length ∨ ∃ l, (appendedTo doc)[n]? = some l ∧ blank l = false

theorem freed_spec (doc text : Str) (max : Nat) :
    Freed doc text max (freed doc text max .refuse).1 (freed doc text max .refuse).2 := by
  unfold freed
  split
  · rw [fullLength_eq]
    have hspec := giveUp_spec true max (tailRoom doc text) (appendedTo doc)
    refine ⟨hspec.inside, hspec.left, hspec.quiet rfl, ?_⟩
    rcases hspec.stopped with hfits | hend | ⟨l, hl, _, hblank⟩
    · exact .inl hfits
    · exact .inr (.inl hend)
    · exact .inr (.inr ⟨l, hl, hblank⟩)
  · rename_i h
    refine ⟨Nat.zero_le _, by rw [fullLength_eq]; simp, by simp, .inl ?_⟩
    exact Int.not_lt.1 fun hlt => h ⟨hlt, rfl⟩

/-- Nothing more is given up of what fits. -/
theorem givenUp_refuse (h : (freed doc text max .refuse).2 ≤ max) :
    givenUp doc text max .refuse = (freed doc text max .refuse).1 := by
  rw [givenUp, giveUp_fits h, Nat.add_zero]

/-- A refusal past the free lines: some line that says something would have to go, or the text fills the cap alone
and the last line is not seen to take its break with it. -/
theorem fitsWithout_iff (htext : text.length ≤ max) (hover : max < (freed doc text max .refuse).2) :
    FitsWithout doc text max ↔
      (∀ l ∈ appendedTo doc, blank l = true) ∧ eolOf doc = [cr, lf] ∧ text.length = max := by
  obtain ⟨hinside, hleft, hquiet, hstopped⟩ := freed_spec doc text max
  generalize freed doc text max .refuse = f at *
  obtain ⟨n, length⟩ := f
  dsimp only at hover hinside hleft hquiet hstopped
  constructor
  · rintro ⟨i, hblank, hfits⟩
    have hn : n < i ∨ n = (appendedTo doc).length := by
      rcases Nat.lt_or_ge n i with hlt | hge
      · exact .inl hlt
      · rcases Nat.lt_or_ge i (appendedTo doc).length with hi | hi
        · have := weigh_drop_le (appendedTo doc) hge
          rw [keep_length hi] at hfits
          omega
        · exact .inr (by omega)
    have hend : n = (appendedTo doc).length := by
      rcases hstopped with hfit | hend | ⟨l, hl, hsaid⟩
      · omega
      · exact hend
      · rcases hn with hlt | hend
        · have hmem : l ∈ (appendedTo doc).take i :=
            List.mem_of_getElem? (by rw [List.getElem?_take_of_lt hlt]; exact hl)
          rw [hblank l hmem] at hsaid
          cases hsaid
        · exact hend
    subst hend
    rw [List.take_length] at hquiet
    rw [List.drop_length, weigh_nil, tailRoom] at hleft
    refine ⟨hquiet, ?_⟩
    rcases eolOf_cases doc with heol | heol
    · rw [heol] at hleft
      refine ⟨heol, ?_⟩
      simp only [List.length_cons, List.length_nil] at hleft
      omega
    · rw [heol] at hleft
      simp only [List.length_cons, List.length_nil] at hleft
      omega
  · rintro ⟨hblank, -, -⟩
    refine ⟨(appendedTo doc).length, by rwa [List.take_length], ?_⟩
    rw [keep_nil (Nat.le_refl _)]
    exact htext

theorem refuse_bounded_iff (key : String) (htext : text.length ≤ max) :
    Bounded key doc text max .refuse ↔ ¬ BlankAndFull doc text max := by
  by_cases hsize : max < doc.length
  · have heq : ∃ e, appendLines key doc text max .refuse = .error e := ⟨_, if_pos ⟨rfl, hsize⟩⟩
    refine ⟨fun _ h => absurd h.2.2.2.1 (Nat.not_le.2 hsize), fun _ => ⟨?_, fun _ => .inl hsize, fun _ => heq⟩⟩
    intro kept dropped hok
    obtain ⟨e, he⟩ := heq
    rw [he] at hok
    cases hok
  have hsize' : ¬ (WhenFull.refuse = .refuse ∧ max < doc.length) := fun h => hsize h.2
  by_cases hbody : body doc = []
  · have heq := appendLines_nil key .refuse hsize' htext hbody
    have hquiet : ∀ l ∈ (appendedTo doc).take 1, blank l = true := by
      rw [appendedTo_nil hbody]
      decide
    refine ⟨fun _ h => h.2.1 hbody, fun _ => ⟨?_, ?_⟩⟩
    · intro kept dropped hok
      rw [heq] at hok
      cases hok
      exact ⟨1, append_nil htext hbody, hquiet⟩
    · rw [heq]
      refine ⟨fun ⟨_, h⟩ => (nomatch h), fun h => ?_⟩
      refine (h.resolve_left hsize ⟨1, hquiet, ?_⟩).elim
      rw [keep_nil (by simp [appendedTo_nil hbody])]
      exact htext
  have heq := appendLines_eq key .refuse hsize' htext hbody
  have hspec := freed_spec doc text max
  by_cases hover : (max : Int) < (freed doc text max .refuse).2
  · -- The text is refused; what is left is whether it would have fitted without the blank lines.
    have hfull : (max : Int) < fullLength doc text := by
      have := weigh_drop_le (appendedTo doc) (Nat.zero_le (freed doc text max .refuse).1)
      rw [List.drop_zero] at this
      rw [hspec.left] at hover
      rw [fullLength_eq]
      omega
    rw [if_pos ⟨hfull, rfl, hover⟩] at heq
    have hiff := fitsWithout_iff htext hover
    constructor
    · rintro ⟨-, hthrows⟩ ⟨heol, -, hblank, -, hfills⟩
      exact (hthrows.1 ⟨_, heq⟩).resolve_left hsize (hiff.2 ⟨hblank, heol, hfills⟩)
    · intro hnot
      refine ⟨?_, fun _ => .inr fun hfits => ?_, fun _ => ⟨_, heq⟩⟩
      · intro kept dropped hok
        rw [heq] at hok
        cases hok
      · obtain ⟨hblank, heol, hfills⟩ := hiff.1 hfits
        exact hnot ⟨heol, hbody, hblank, Nat.not_lt.1 hsize, hfills⟩
  · have hfits := Int.not_lt.1 hover
    rw [if_neg fun h => hover h.2.2, givenUp_refuse hfits] at heq
    have hroom : (freed doc text max .refuse).1 < (appendedTo doc).length →
        weigh ((appendedTo doc).drop (freed doc text max .refuse).1) + tailRoom doc text ≤ max := by
      intro _
      have := hspec.left
      omega
    have hwithout : FitsWithout doc text max := by
      refine ⟨(freed doc text max .refuse).1, hspec.quiet, ?_⟩
      rcases Nat.lt_or_ge (freed doc text max .refuse).1 (appendedTo doc).length with hlt | hge
      · rw [keep_length hlt]
        exact hroom hlt
      · rw [keep_nil hge]
        exact htext
    have hquiet : ∀ l ∈ (appendedTo doc).take (openAt doc (freed doc text max .refuse).1), blank l = true := by
      intro l hl
      obtain ⟨j, hj, hget⟩ := List.mem_iff_getElem.1 hl
      rw [List.length_take] at hj
      rw [List.getElem_take] at hget
      have hsome : (appendedTo doc)[j]? = some l := by
        rw [← hget]
        exact List.getElem?_eq_getElem _
      rcases Nat.lt_or_ge j (freed doc text max .refuse).1 with hlt | hge
      · exact hspec.quiet l (List.mem_of_getElem? (by rw [List.getElem?_take_of_lt hlt]; exact hsome))
      · exact openAt_blank hge (by omega) hsome
    constructor
    · rintro - ⟨heol, -, -, -, hfills⟩
      -- A text that fills the cap leaves no room for a break, whatever was given up.
      have hleft := hspec.left
      rw [tailRoom, heol] at hleft
      simp only [List.length_cons, List.length_nil] at hleft
      omega
    · refine fun _ => ⟨?_, fun ⟨e, he⟩ => ?_, fun h => (h.resolve_left hsize hwithout).elim⟩
      · intro kept dropped hok
        rw [heq] at hok
        cases hok
        refine ⟨_, append_of htext hspec.inside ?_ hroom, hquiet⟩
        intro j hj l hl hsaid
        have hmem : l ∈ (appendedTo doc).take (freed doc text max .refuse).1 :=
          List.mem_of_getElem? (by rw [List.getElem?_take_of_lt hj]; exact hl)
        rw [hspec.quiet l hmem] at hsaid
        cases hsaid
      · rw [heq] at he
        cases he

end

/-- An append keeps its promise on every document, but for a CRLF one of blank lines alone that refuses when full, given
a text that fills the cap. -/
theorem append_bounded (key : String) (doc text : Str) (max : Nat) (whenFull : WhenFull) (htext : text.length ≤ max) :
    Bounded key doc text max whenFull ↔ ¬ (whenFull = .refuse ∧ BlankAndFull doc text max) := by
  cases whenFull with
  | drop => exact ⟨fun _ h => (nomatch h.1), fun _ => drop_bounded key htext⟩
  | refuse =>
    rw [refuse_bounded_iff key htext]
    exact ⟨fun h hw => h hw.2, fun h hw => h ⟨rfl, hw⟩⟩

theorem append_bounded_log :
    Bounded "log" (js "a\nb\n") (js "c") 3 .drop ↔
      ¬ (WhenFull.drop = .refuse ∧ BlankAndFull (js "a\nb\n") (js "c") 3) :=
  append_bounded "log" (js "a\nb\n") (js "c") 3 .drop (by decide)

/-- Two blank CRLF lines and a text of the cap's own length: refused, though it fits once they are gone. -/
theorem blank_document_refuses :
    (js "abcd").length ≤ 4 ∧ FitsWithout [cr, lf, cr, lf] (js "abcd") 4 ∧
      (∃ e, appendLines "memory" [cr, lf, cr, lf] (js "abcd") 4 .refuse = .error e) ∧
      ¬ Bounded "memory" [cr, lf, cr, lf] (js "abcd") 4 .refuse := by
  have hfits : FitsWithout [cr, lf, cr, lf] (js "abcd") 4 := ⟨2, by decide, by decide⟩
  have hthrows : ∃ e, appendLines "memory" [cr, lf, cr, lf] (js "abcd") 4 .refuse = .error e := ⟨_, rfl⟩
  refine ⟨by decide, hfits, hthrows, fun h => ?_⟩
  rcases h.2.1 hthrows with hlong | hnot
  · exact absurd hlong (by decide)
  · exact hnot hfits

end Antiproton.Document
