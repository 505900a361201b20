import Antiproton.Document.Lines

/-!
# Antiproton.Document.Revise

What `reviseText` changes, and what it refuses.

* `WholeLines`   — text from a line's start to a line's end, not itself beginning or ending with a break.
* `WithoutLines` — a document with such text gone, and one break with it.
* `Exact`        — the promise of a revision: it touches its target and nothing else.
* `revise_exact` — when it is kept: not for whole lines ended by a lone line feed in a document that has a CRLF,
  whose end is looked for as a CRLF, so that a blank line is left.
-/

namespace Antiproton.Document

open Js

/-- Text with `pre` before it and `post` after it that is a whole line or several. -/
structure WholeLines (pre o post : Str) : Prop where
  starts : pre = [] ∨ pre.getLast? = some lf
  ends : post = [] ∨ [lf] <+: post ∨ [cr, lf] <+: post
  head : o.head? ≠ some cr ∧ o.head? ≠ some lf
  last : o.getLast? ≠ some cr ∧ o.getLast? ≠ some lf

def IsBreak (b : Str) : Prop := b = [lf] ∨ b = [cr, lf]

/-- Whole lines gone with one break, never half of one: the one after them, or at the document's end the one before. -/
inductive WithoutLines (pre o post kept : Str) : Prop
  | after (b rest : Str) (hb : IsBreak b) (hpost : post = b ++ rest) (hkept : kept = pre ++ rest)
  | before (b front : Str) (hb : IsBreak b) (hwhole : b = [lf] → front.getLast? ≠ some cr) (hpost : post = [])
      (hpre : pre = front ++ b) (hkept : kept = front)
  | all (hpre : pre = []) (hpost : post = []) (hkept : kept = [])

def lineCount (doc : Str) : Nat := (splitOn lf doc).length

def blankCount (doc : Str) : Nat := (splitOn lf doc).countP blank

/-- What a revision leaves of `pre`, the one occurrence of `o`, and `post`. -/
def Leaves (pre o post n kept : Str) : Prop :=
  (n = [] → WholeLines pre o post → WithoutLines pre o post kept ∧
    (pre ++ post ≠ [] → lineCount kept + lineCount o = lineCount (pre ++ o ++ post) ∧
      blankCount kept + blankCount o = blankCount (pre ++ o ++ post))) ∧
  (¬ (n = [] ∧ WholeLines pre o post) → kept = pre ++ n ++ post)

/-- What a revision promises of its one target `o`, replaced by `n`. -/
structure Exact (key : String) (doc old : Str) (next : Option Str) (max : Nat) (o n : Str) : Prop where
  touches : ∀ kept r, reviseText key doc old next max = .ok (kept, r) → ∃ pre post, doc = pre ++ o ++ post ∧
    occurrences o doc = [pre.length] ∧ Leaves pre o post n kept ∧
    OnLine (docLines doc) pre.length r.line ∧ OnLine (docLines doc) (pre.length + o.length - 1) r.lastLine
  refuses : ∀ e, reviseText key doc old next max = .error e → old ≠ [] → ∀ pre post, doc = pre ++ o ++ post →
    occurrences o doc = [pre.length] → max < (pre ++ n ++ post).length ∧ doc.length < (pre ++ n ++ post).length

/-- The one occurrence of whole lines to delete ends at a lone line feed, in a document written with CRLF. -/
def EndsLone (doc old o n : Str) : Prop :=
  old ≠ [] ∧ n = [] ∧ eolOf doc = [cr, lf] ∧ ∃ pre post, doc = pre ++ o ++ post ∧ occurrences o doc = [pre.length] ∧
    WholeLines pre o post ∧ [lf] <+: post

/-! ## Counting lines -/

/-- What follows a text without a break goes on its last line. -/
theorem splitOn_last (s : Str) :
    ∃ init l, splitOn lf s = init ++ [l] ∧ ∀ t, lf ∉ t → splitOn lf (s ++ t) = init ++ [l ++ t] := by
  induction s with
  | nil => exact ⟨[], [], rfl, fun t ht => by simpa using splitOn_single ht⟩
  | cons u rest ih =>
    obtain ⟨init, l, hs, happ⟩ := ih
    by_cases hu : u = lf
    · refine ⟨[] :: init, l, by simp [splitOn, hu, hs], fun t ht => ?_⟩
      rw [List.cons_append, splitOn, if_pos hu, happ t ht]
      rfl
    · cases init with
      | nil =>
        refine ⟨[], u :: l, by simp [splitOn, hu, hs], fun t ht => ?_⟩
        rw [List.cons_append, splitOn, if_neg hu, happ t ht]
        rfl
      | cons first init =>
        refine ⟨(u :: first) :: init, l, by simp [splitOn, hu, hs], fun t ht => ?_⟩
        rw [List.cons_append, splitOn, if_neg hu, happ t ht]
        rfl

theorem lineCount_eq (doc : Str) : lineCount doc = doc.count lf + 1 := splitOn_length lf doc

/-- A carriage return at a line's end does not make it say something. -/
theorem blankCount_cr (s : Str) : blankCount (s ++ [cr]) = blankCount s := by
  obtain ⟨init, l, hs, happ⟩ := splitOn_last s
  rw [blankCount, blankCount, happ [cr] (by decide), hs, List.countP_append, List.countP_append]
  have hblank : blank (l ++ [cr]) = blank l := by
    simp only [blank, List.all_append, List.all_cons, List.all_nil, Bool.and_true]
    rw [show isSpace cr = true from by decide, Bool.and_true]
  simp [List.countP_cons, hblank]

theorem blankCount_break {b : Str} (hb : IsBreak b) (s t : Str) :
    blankCount (s ++ b ++ t) = blankCount s + blankCount t := by
  rcases hb with rfl | rfl
  · rw [List.append_assoc, List.singleton_append, blankCount, splitOn_append, List.countP_append]
    rfl
  · rw [show s ++ [cr, lf] ++ t = (s ++ [cr]) ++ lf :: t by simp, blankCount, splitOn_append, List.countP_append]
    exact congrArg (· + blankCount t) (blankCount_cr s)

theorem lineCount_break {b : Str} (hb : IsBreak b) (s t : Str) :
    lineCount (s ++ b ++ t) = lineCount s + lineCount t := by
  simp only [lineCount_eq, List.count_append]
  have : b.count lf = 1 := by
    rcases hb with rfl | rfl
    · decide
    · decide
  omega

/-- A text from a line's start counts for itself. -/
theorem blankCount_start {pre : Str} (hpre : pre = [] ∨ pre.getLast? = some lf) :
    ∃ c, ∀ s, blankCount (pre ++ s) = c + blankCount s := by
  rcases hpre with rfl | hlast
  · exact ⟨0, fun s => by simp⟩
  · obtain ⟨front, rfl⟩ := List.getLast?_eq_some_iff.1 hlast
    exact ⟨blankCount front, fun s => blankCount_break (.inl rfl) front s⟩

theorem WithoutLines.counts {pre o post kept : Str} (h : WithoutLines pre o post kept)
    (hstarts : pre = [] ∨ pre.getLast? = some lf) (hne : pre ++ post ≠ []) :
    lineCount kept + lineCount o = lineCount (pre ++ o ++ post) ∧
      blankCount kept + blankCount o = blankCount (pre ++ o ++ post) := by
  cases h with
  | after b rest hb hpost hkept =>
    subst hpost hkept
    obtain ⟨c, hc⟩ := blankCount_start hstarts
    have hlines := lineCount_break hb (pre ++ o) rest
    have hblank := blankCount_break hb o rest
    rw [← List.append_assoc]
    constructor
    · rw [hlines]
      simp only [lineCount_eq, List.count_append]
      omega
    · rw [show pre ++ o ++ b ++ rest = pre ++ (o ++ b ++ rest) by simp, hc, hc, hblank]
      omega
  | before b front hb _ hpost hpre hkept =>
    subst hpost hpre hkept
    rw [List.append_nil]
    exact ⟨(lineCount_break hb kept o).symm, (blankCount_break hb kept o).symm⟩
  | all hpre hpost =>
    subst hpre hpost
    exact absurd rfl hne

/-! ## The place of the one occurrence -/

theorem mem_occurrences {o doc : Str} {start : Nat} :
    start ∈ occurrences o doc ↔ ∃ pre post, doc = pre ++ o ++ post ∧ pre.length = start := by
  simp only [occurrences, List.mem_filter, List.mem_range, startsWith, List.isPrefixOf_iff_prefix]
  constructor
  · rintro ⟨hlt, post, hpost⟩
    refine ⟨doc.take start, post, ?_, by rw [List.length_take]; omega⟩
    rw [List.append_assoc, hpost, List.take_append_drop]
  · rintro ⟨pre, post, rfl, rfl⟩
    refine ⟨by simp only [List.length_append]; omega, post, ?_⟩
    rw [List.append_assoc, List.drop_left]

theorem includes_iff {t doc : Str} : includes t doc = true ↔ ∃ pre post, doc = pre ++ t ++ post := by
  simp only [includes, Bool.not_eq_true', List.isEmpty_eq_false_iff_exists_mem, mem_occurrences]
  constructor
  · rintro ⟨_, pre, post, h, -⟩
    exact ⟨pre, post, h⟩
  · rintro ⟨pre, post, h⟩
    exact ⟨pre.length, pre, post, h, rfl⟩

theorem eolOf_crlf {doc : Str} (h : eolOf doc = [lf]) (pre post : Str) : doc ≠ pre ++ [cr, lf] ++ post := by
  intro hdoc
  rw [eolOf, if_pos (includes_iff.2 ⟨pre, post, hdoc⟩)] at h
  exact absurd h (by decide)

/-! ## Whole lines -/

section

variable {pre o post : Str}

/-- The text a deletion at `start` leaves. -/
def afterDeletion (doc o : Str) (start : Nat) : Str :=
  doc.take (deletionSpan doc (eolOf doc) o start).1 ++ doc.drop (deletionSpan doc (eolOf doc) o start).2

/-- What `reviseText` asks before it takes a break too. -/
def takesBreak (doc pre o post : Str) : Bool :=
  (pre = [] || pre.getLast? = some lf) && (post = [] || startsWith (eolOf doc) post) &&
    !((o.head? = some cr || o.head? = some lf) || (o.getLast? = some cr || o.getLast? = some lf))

theorem deletionSpan_eq {doc : Str} (hdoc : doc = pre ++ o ++ post) :
    deletionSpan doc (eolOf doc) o pre.length =
      if takesBreak doc pre o post then
        if post ≠ [] then (pre.length, pre.length + o.length + (eolOf doc).length)
        else if pre ≠ [] then
          (pre.length - (if endsWith (eolOf doc) pre then (eolOf doc).length else 1), pre.length + o.length)
        else (pre.length, pre.length + o.length)
      else (pre.length, pre.length + o.length) := by
  have htake : doc.take pre.length = pre := by
    rw [hdoc, List.append_assoc, List.take_left]
  have hdrop : doc.drop (pre.length + o.length) = post := by
    rw [hdoc, ← List.length_append, List.drop_left]
  have hlen : doc.length = pre.length + o.length + post.length := by
    rw [hdoc, List.length_append, List.length_append]
  have hbefore : pre ≠ [] → doc[pre.length - 1]? = pre.getLast? := by
    intro hne
    have hpos := List.length_pos_of_ne_nil hne
    rw [hdoc, List.append_assoc, List.getElem?_append_left (by omega), List.getLast?_eq_getElem?]
  have hstarts : (pre.length = 0 || doc[pre.length - 1]? = some lf) = (pre = [] || pre.getLast? = some lf : Bool) := by
    cases pre with
    | nil => simp
    | cons u us =>
      rw [hbefore (by simp)]
      simp
  have hends : (pre.length + o.length = doc.length || startsWith (eolOf doc) (doc.drop (pre.length + o.length)) : Bool) =
      (post = [] || startsWith (eolOf doc) post) := by
    rw [hdrop, hlen]
    congr 1
    cases post with
    | nil => simp
    | cons u us => simp
  have hpost : pre.length + o.length < doc.length ↔ post ≠ [] := by
    rw [hlen, ← List.length_pos_iff]
    exact ⟨fun h => by omega, fun h => by omega⟩
  unfold deletionSpan
  simp only
  rw [hstarts, hends, htake]
  exact if_congr Iff.rfl (if_congr hpost rfl (if_congr List.length_pos_iff rfl rfl)) rfl

theorem takesBreak_iff {doc : Str} : takesBreak doc pre o post = true ↔
    (pre = [] ∨ pre.getLast? = some lf) ∧ (post = [] ∨ eolOf doc <+: post) ∧
      (o.head? ≠ some cr ∧ o.head? ≠ some lf) ∧ o.getLast? ≠ some cr ∧ o.getLast? ≠ some lf := by
  simp only [takesBreak, startsWith, Bool.and_eq_true, Bool.or_eq_true, decide_eq_true_eq, Bool.not_eq_true',
    Bool.or_eq_false_iff, decide_eq_false_iff_not, List.isPrefixOf_iff_prefix]
  exact ⟨fun ⟨⟨hs, he⟩, hh, hl⟩ => ⟨hs, he, hh, hl⟩, fun ⟨hs, he, hh, hl⟩ => ⟨⟨hs, he⟩, hh, hl⟩⟩

/-- Where a line is seen to end, it ends. -/
theorem wholeLines_of_takesBreak {doc : Str} (h : takesBreak doc pre o post = true) : WholeLines pre o post := by
  obtain ⟨hstarts, hends, hhead, hlast⟩ := takesBreak_iff.1 h
  refine ⟨hstarts, hends.imp_right fun hpost => ?_, hhead, hlast⟩
  rcases eolOf_cases doc with heol | heol
  · exact .inr (heol ▸ hpost)
  · exact .inl (heol ▸ hpost)

/-- A line that ends is seen to, but for a lone line feed among CRLFs. -/
theorem takesBreak_of_wholeLines {doc : Str} (hdoc : doc = pre ++ o ++ post)
    (hlone : ¬ (eolOf doc = [cr, lf] ∧ [lf] <+: post)) (h : WholeLines pre o post) :
    takesBreak doc pre o post = true := by
  refine takesBreak_iff.2 ⟨h.starts, ?_, h.head, h.last⟩
  rcases h.ends with hnil | hlf | ⟨rest, hcrlf⟩
  · exact .inl hnil
  · rcases eolOf_cases doc with heol | heol
    · exact (hlone ⟨heol, hlf⟩).elim
    · exact .inr (heol ▸ hlf)
  · rcases eolOf_cases doc with heol | heol
    · exact .inr (heol ▸ ⟨rest, hcrlf⟩)
    · refine (eolOf_crlf heol (pre ++ o) rest ?_).elim
      rw [hdoc, ← hcrlf, List.append_assoc (pre ++ o)]

theorem afterDeletion_span {doc : Str} {start a b : Nat} (h : deletionSpan doc (eolOf doc) o start = (a, b)) :
    afterDeletion doc o start = doc.take a ++ doc.drop b := by
  rw [afterDeletion, h]

/-- A deletion that takes no break removes exactly its target. -/
theorem afterDeletion_exact {doc : Str} (hdoc : doc = pre ++ o ++ post) (h : takesBreak doc pre o post = false) :
    afterDeletion doc o pre.length = pre ++ post := by
  have hspan := deletionSpan_eq hdoc
  rw [if_neg (by simp [h])] at hspan
  rw [afterDeletion_span hspan, hdoc, ← List.length_append, List.drop_left, List.append_assoc, List.take_left]

/-- Whole lines with the document's own break after them go with it. -/
theorem afterDeletion_after {doc rest : Str} (hdoc : doc = pre ++ o ++ post) (h : takesBreak doc pre o post = true)
    (hpost : post = eolOf doc ++ rest) : afterDeletion doc o pre.length = pre ++ rest := by
  have hne : post ≠ [] := by
    rcases eolOf_cases doc with heol | heol
    · simp [hpost, heol]
    · simp [hpost, heol]
  have hspan := deletionSpan_eq hdoc
  rw [if_pos h, if_pos hne] at hspan
  have hcut : doc.drop (pre.length + o.length + (eolOf doc).length) = rest := by
    have hall : doc = (pre ++ o ++ eolOf doc) ++ rest := by
      rw [List.append_assoc, ← hpost]
      exact hdoc
    conv_lhs =>
      rw [← List.length_append, ← List.length_append]
      enter [2]
      rw [hall]
    exact List.drop_left
  rw [afterDeletion_span hspan, hcut, hdoc, List.append_assoc, List.take_left]

/-- Whole lines at the document's end go with the break before them. -/
theorem afterDeletion_before {doc front b : Str} (hdoc : doc = pre ++ o) (h : takesBreak doc pre o [] = true)
    (hpre : pre = front ++ b) (hb : (if endsWith (eolOf doc) pre then (eolOf doc).length else 1) = b.length)
    (hpos : 0 < b.length) : afterDeletion doc o pre.length = front := by
  have hspan := deletionSpan_eq (show doc = pre ++ o ++ [] by rw [List.append_nil]; exact hdoc)
  have hne : pre ≠ [] := by
    intro hnil
    rw [hnil] at hpre
    have := congrArg List.length hpre
    rw [List.length_nil, List.length_append] at this
    omega
  rw [if_pos h, if_neg (by simp), if_pos hne, hb] at hspan
  rw [afterDeletion_span hspan, hdoc, ← List.length_append, List.drop_length, List.append_nil, hpre, List.length_append,
    Nat.add_sub_cancel, List.append_assoc, List.take_left]

/-- A deletion of whole lines takes one break with them. -/
theorem afterDeletion_lines {doc : Str} (hdoc : doc = pre ++ o ++ post) (h : takesBreak doc pre o post = true) :
    WithoutLines pre o post (afterDeletion doc o pre.length) := by
  obtain ⟨hstarts, hends, -⟩ := takesBreak_iff.1 h
  by_cases hpost : post = []
  · subst hpost
    by_cases hpre : pre = []
    · subst hpre
      have hspan := deletionSpan_eq hdoc
      rw [if_pos h, if_neg (by simp), if_neg (by simp)] at hspan
      refine .all rfl rfl ?_
      rw [afterDeletion_span hspan, hdoc]
      simp
    · rw [List.append_nil] at hdoc
      -- The break before is a CRLF only where the document is written with it.
      by_cases hcrlf : endsWith (eolOf doc) pre = true
      · obtain ⟨front, hfront⟩ := List.isSuffixOf_iff_suffix.1 hcrlf
        refine .before (eolOf doc) front (eolOf_cases doc).symm ?_ rfl hfront.symm ?_
        · intro heol hlast
          obtain ⟨front', rfl⟩ := List.getLast?_eq_some_iff.1 hlast
          refine eolOf_crlf heol front' o ?_
          rw [hdoc, ← hfront, heol]
          simp
        · refine afterDeletion_before hdoc h hfront.symm (if_pos hcrlf) ?_
          rcases eolOf_cases doc with heol | heol
          · simp [heol]
          · simp [heol]
      · obtain ⟨front, hfront⟩ := List.getLast?_eq_some_iff.1 (hstarts.resolve_left hpre)
        refine .before [lf] front (.inl rfl) (fun _ hlast => ?_) rfl hfront
          (afterDeletion_before hdoc h hfront (if_neg hcrlf) (by simp))
        obtain ⟨front', rfl⟩ := List.getLast?_eq_some_iff.1 hlast
        rcases eolOf_cases doc with heol | heol
        · refine hcrlf (List.isSuffixOf_iff_suffix.2 ⟨front', ?_⟩)
          rw [heol, hfront]
          simp
        · refine eolOf_crlf heol front' o ?_
          rw [hdoc, hfront]
          simp
  · obtain ⟨rest, hrest⟩ := hends.resolve_left hpost
    exact .after (eolOf doc) rest (eolOf_cases doc).symm hrest.symm (afterDeletion_after hdoc h hrest.symm)

end

/-! ## The revision -/

section

variable {key : String} {doc old : Str} {next : Option Str} {max : Nat}

/-- The document `reviseText` writes, its target at `start`. -/
def revised (doc o n : Str) (start : Nat) : Str :=
  if n = [] then afterDeletion doc o start else doc.take start ++ n ++ doc.drop (start + o.length)

/-- A revision whose target occurs once writes `revised`, or is refused for its size. -/
theorem reviseText_once (key : String) (next : Option Str) (max : Nat) (hold : old ≠ []) {start : Nat}
    (hocc : occurrences (withEol old (eolOf doc)) doc = [start]) :
    ∃ e r, r.line = lineAt doc start ∧ r.lastLine = lineAt doc (start + ((withEol old (eolOf doc)).length - 1)) ∧
      reviseText key doc old next max =
        if max < (revised doc (withEol old (eolOf doc)) (withEol (next.getD []) (eolOf doc)) start).length ∧
            doc.length < (revised doc (withEol old (eolOf doc)) (withEol (next.getD []) (eolOf doc)) start).length then
          .error e
        else .ok (revised doc (withEol old (eolOf doc)) (withEol (next.getD []) (eolOf doc)) start, r) := by
  have hisEmpty : old.isEmpty = false := by simpa using hold
  unfold reviseText
  simp only [hisEmpty, Bool.false_eq_true, if_false, hocc]
  generalize withEol old (eolOf doc) = o
  generalize withEol (next.getD []) (eolOf doc) = n
  have hkept : doc.take (if n.isEmpty then deletionSpan doc (eolOf doc) o start else (start, start + o.length)).1 ++ n ++
      doc.drop (if n.isEmpty then deletionSpan doc (eolOf doc) o start else (start, start + o.length)).2 =
        revised doc o n start := by
    cases n with
    | nil => simp [revised, afterDeletion]
    | cons u us => simp [revised]
  rw [hkept]
  by_cases hover : max < doc.length
  · simp only [if_pos hover]
    exact ⟨_, _, rfl, rfl, rfl⟩
  · simp only [if_neg hover]
    exact ⟨_, _, rfl, rfl, rfl⟩

/-- A revision that is not refused has one target. -/
theorem reviseText_ok {kept : Str} {r : Revised} (h : reviseText key doc old next max = .ok (kept, r)) :
    old ≠ [] ∧ ∃ start, occurrences (withEol old (eolOf doc)) doc = [start] := by
  unfold reviseText at h
  split at h
  · cases h
  · rename_i hold
    refine ⟨by simpa using hold, ?_⟩
    simp only at h
    split at h
    · cases h
    · rename_i start hocc
      exact ⟨start, hocc⟩
    · cases h

theorem withEol_ne_nil {s : Str} (eol : Str) (h : s ≠ []) : withEol s eol ≠ [] := by
  unfold withEol
  split
  · induction s with
    | nil => exact absurd rfl h
    | cons u rest ih =>
      rw [toCrLf]
      split
      · simp
      · split
        · rename_i hcr
          cases rest with
          | nil => simp at hcr
          | cons v rest => exact ih (by simp)
        · simp
  · exact h

/-- A deletion makes nothing longer. -/
theorem afterDeletion_length {pre o post : Str} (hdoc : doc = pre ++ o ++ post) :
    (afterDeletion doc o pre.length).length ≤ doc.length := by
  cases htakes : takesBreak doc pre o post with
  | false =>
    rw [afterDeletion_exact hdoc htakes, hdoc]
    simp only [List.length_append]
    omega
  | true =>
    have hlines := afterDeletion_lines hdoc htakes
    revert hlines
    generalize afterDeletion doc o pre.length = kept
    rintro (⟨b, rest, -, hpost, hkept⟩ | ⟨b, front, -, -, hpost, hpre, hkept⟩ | ⟨-, -, hkept⟩)
    · simp only [hdoc, hpost, hkept, List.length_append]
      omega
    · simp only [hdoc, hpre, hkept, List.length_append]
      omega
    · simp [hkept]

theorem revised_target {pre o post n : Str} (hdoc : doc = pre ++ o ++ post) (hn : n ≠ []) :
    revised doc o n pre.length = pre ++ n ++ post := by
  have htake : doc.take pre.length = pre := by
    rw [hdoc, List.append_assoc, List.take_left]
  rw [revised, if_neg hn, htake, hdoc, ← List.length_append, List.drop_left]

/-- What a revision leaves, but where whole lines end at a lone line feed among CRLFs. -/
theorem revised_leaves {pre o post n : Str} (hdoc : doc = pre ++ o ++ post)
    (hlone : ¬ (n = [] ∧ eolOf doc = [cr, lf] ∧ WholeLines pre o post ∧ [lf] <+: post)) :
    Leaves pre o post n (revised doc o n pre.length) := by
  by_cases hn : n = []
  · rw [revised, if_pos hn]
    refine ⟨fun _ hwhole => ?_, fun hnot => ?_⟩
    · have hlone' : ¬ (eolOf doc = [cr, lf] ∧ [lf] <+: post) := fun h => hlone ⟨hn, h.1, hwhole, h.2⟩
      have hlines := afterDeletion_lines hdoc (takesBreak_of_wholeLines hdoc hlone' hwhole)
      exact ⟨hlines, hlines.counts hwhole.starts⟩
    · have htakes : takesBreak doc pre o post = false := by
        rw [← Bool.not_eq_true]
        exact fun htakes => hnot ⟨hn, wholeLines_of_takesBreak htakes⟩
      rw [afterDeletion_exact hdoc htakes, hn, List.append_nil]
  · refine ⟨fun h => absurd h hn, fun _ => revised_target hdoc hn⟩

theorem target_unique {pre pre' o post post' : Str} (hdoc : doc = pre ++ o ++ post) (hdoc' : doc = pre' ++ o ++ post')
    (hlen : pre.length = pre'.length) : pre = pre' ∧ post = post' := by
  rw [hdoc, List.append_assoc, List.append_assoc] at hdoc'
  obtain ⟨hpre, hrest⟩ := List.append_inj hdoc' hlen
  exact ⟨hpre, List.append_cancel_left hrest⟩

/-- Whole lines ended by a lone line feed among CRLFs leave their break behind. -/
theorem revised_lone {pre o post : Str} (hdoc : doc = pre ++ o ++ post) (heol : eolOf doc = [cr, lf])
    (hpost : [lf] <+: post) (hwhole : WholeLines pre o post) :
    ¬ Leaves pre o post [] (revised doc o [] pre.length) := by
  have htakes : takesBreak doc pre o post = false := by
    rw [← Bool.not_eq_true]
    intro h
    obtain ⟨rest, rfl⟩ := hpost
    rcases (takesBreak_iff.1 h).2.1 with hnil | ⟨_, hcrlf⟩
    · cases hnil
    · rw [heol] at hcrlf
      have hhead := congrArg List.head? hcrlf
      exact absurd hhead (by simp [cr, lf])
  rw [revised, if_pos rfl, afterDeletion_exact hdoc htakes]
  intro hleaves
  have hbreak : ∀ b, IsBreak b → 0 < b.length := by
    rintro b (rfl | rfl)
    · decide
    · decide
  rcases (hleaves.1 rfl hwhole).1 with ⟨b, rest, hb, hrest, hkept⟩ | ⟨b, front, hb, -, hnil, -, -⟩ | ⟨-, hnil, -⟩
  · rw [List.append_cancel_left_eq] at hkept
    have hlen := congrArg List.length hrest
    have := hbreak b hb
    rw [hkept, List.length_append] at hlen
    omega
  · rw [hnil] at hpost
    exact absurd (List.prefix_nil.1 hpost) (by simp)
  · rw [hnil] at hpost
    exact absurd (List.prefix_nil.1 hpost) (by simp)

/-- A revision touches exactly its target, but where whole lines to delete end at a lone line feed in a document that
has a CRLF. -/
theorem revise_exact (key : String) (doc old : Str) (next : Option Str) (max : Nat) :
    Exact key doc old next max (withEol old (eolOf doc)) (withEol (next.getD []) (eolOf doc)) ↔
      ¬ EndsLone doc old (withEol old (eolOf doc)) (withEol (next.getD []) (eolOf doc)) := by
  constructor
  · rintro hexact ⟨hold, hn, heol, pre, post, hdoc, hocc, hwhole, hpost⟩
    obtain ⟨e, r, -, -, heq⟩ := reviseText_once key next max hold hocc
    rw [hn] at heq hexact
    rw [if_neg] at heq
    · obtain ⟨pre', post', hdoc', hocc', hleaves, -⟩ := hexact.touches _ _ heq
      obtain ⟨rfl, rfl⟩ := target_unique hdoc hdoc' (by rw [← List.singleton_inj, ← hocc, hocc'])
      exact revised_lone hdoc heol hpost hwhole hleaves
    · intro h
      have := afterDeletion_length (o := withEol old (eolOf doc)) hdoc
      rw [revised, if_pos rfl] at h
      omega
  · intro hnot
    refine ⟨fun kept r hok => ?_, fun e herr hold pre post hdoc hocc => ?_⟩
    · obtain ⟨hold, start, hocc⟩ := reviseText_ok hok
      obtain ⟨e, r', hline, hlast, heq⟩ := reviseText_once key next max hold hocc
      rw [heq] at hok
      split at hok
      · cases hok
      · cases hok
        obtain ⟨pre, post, hdoc, rfl⟩ := mem_occurrences.1 (by rw [hocc]; exact List.mem_singleton_self start)
        have hpos := List.length_pos_of_ne_nil (withEol_ne_nil (eolOf doc) hold)
        have hlen := congrArg List.length hdoc
        rw [List.length_append, List.length_append] at hlen
        refine ⟨pre, post, hdoc, hocc, revised_leaves hdoc ?_, ?_, ?_⟩
        · rintro ⟨hn, heol, hwhole, hlf⟩
          exact hnot ⟨hold, hn, heol, pre, post, hdoc, hocc, hwhole, hlf⟩
        · rw [hline]
          exact onLine_lineAt doc pre.length (by omega)
        · rw [hlast, ← Nat.add_sub_assoc hpos]
          exact onLine_lineAt doc _ (by omega)
    · obtain ⟨e', r, -, -, heq⟩ := reviseText_once key next max hold hocc
      rw [heq] at herr
      split at herr
      · rename_i hsize
        by_cases hn : withEol (next.getD []) (eolOf doc) = []
        · have := afterDeletion_length (o := withEol old (eolOf doc)) hdoc
          rw [revised, if_pos hn] at hsize
          omega
        · rwa [revised_target hdoc hn] at hsize
      · cases herr

end

/-- Deleting `a` of `a\nb\r\nc` leaves a blank line. -/
theorem delete_leaves_blank :
    (∃ r, reviseText "notes" [97, lf, 98, cr, lf, 99] [97] none 100 = .ok ([lf, 98, cr, lf, 99], r)) ∧
      ¬ Exact "notes" [97, lf, 98, cr, lf, 99] [97] none 100 [97] [] := by
  have hok : ∃ r, reviseText "notes" [97, lf, 98, cr, lf, 99] [97] none 100 = .ok ([lf, 98, cr, lf, 99], r) :=
    ⟨⟨1, 1, [97], none⟩, by decide⟩
  refine ⟨hok, fun h => ?_⟩
  obtain ⟨r, hr⟩ := hok
  obtain ⟨pre, post, hdoc, hocc, hleaves, -⟩ := h.touches _ r hr
  obtain ⟨rfl, rfl⟩ := target_unique hdoc (show _ = [] ++ [97] ++ [lf, 98, cr, lf, 99] from rfl) (by
    rw [← List.singleton_inj, ← hocc]
    decide)
  have hwhole : WholeLines [] [97] [lf, 98, cr, lf, 99] :=
    ⟨.inl rfl, .inr (.inl ⟨[98, cr, lf, 99], rfl⟩), by decide, by decide⟩
  have hcount := ((hleaves.1 rfl hwhole).2 (by simp)).1
  exact absurd hcount (by decide)

end Antiproton.Document
