import Antiproton.Document.Revise

/-!
# Antiproton.Document.Insert

What `insertLines` puts in a document, and that deleting it again gives the document back.

* `Gap`           — where an insert lands: in an empty document, at the top, between two lines, or at the end.
* `inserted_gap`  — the document an insert writes, by where it landed.
* `insert_delete` — the inserted text deleted by `reviseText`, and the lines of the document with it.
-/

namespace Antiproton.Document

open Js

/-- No bare carriage return, and no line feed alone where the document has carriage returns. -/
structure Uniform (doc : Str) : Prop where
  noBareCr : ∀ a b, doc = a ++ cr :: b → b.head? = some lf
  sameEnds : cr ∈ doc → ∀ a b, doc = a ++ lf :: b → a.getLast? = some cr

/-- A text an insert puts in whole: it says something, and neither begins nor ends with a break. -/
structure Insertable (text : Str) : Prop where
  noCr : cr ∉ text
  nonempty : text ≠ []
  head : text.head? ≠ some lf
  last : text.getLast? ≠ some lf

/-- The lines of a document, without the carriage return of the break after each. -/
def plainLines (doc : Str) : List Str := (docLines doc).map dropCr

/-- The document with `t` put in after line `k`. -/
def inserted (doc t : Str) (k : Nat) : Str :=
  (if k = 0 then (if (docLines doc).isEmpty then t else t ++ eolOf doc ++ body doc)
    else if k = (docLines doc).length then join [lf] ((docLines doc).take k) ++ eolOf doc ++ t
    else join [lf] ((docLines doc).take k) ++ [lf] ++ t ++ eolOf doc ++ join [lf] ((docLines doc).drop k)) ++
  trailing doc

theorem insertLines_ok {key : String} {doc text kept : Str} {k max line : Nat}
    (h : insertLines key doc (.int k) text max = .ok (kept, line)) :
    k ≤ (docLines doc).length ∧ kept = inserted doc (withEol text (eolOf doc)) k := by
  unfold insertLines at h
  change (if (k : Int) < 0 ∨ ((docLines doc).length : Int) < k then _ else
    if max < doc.length then _ else if max < (withEol text (eolOf doc)).length then _ else
      if max < (inserted doc (withEol text (eolOf doc)) k).length ∧
          doc.length < (inserted doc (withEol text (eolOf doc)) k).length then _
      else Except.ok (inserted doc (withEol text (eolOf doc)) k, _)) = _ at h
  by_cases hk : (k : Int) < 0 ∨ ((docLines doc).length : Int) < k
  · rw [if_pos hk] at h
    cases h
  rw [if_neg hk] at h
  by_cases hover : max < doc.length
  · rw [if_pos hover] at h
    cases h
  rw [if_neg hover] at h
  by_cases hlong : max < (withEol text (eolOf doc)).length
  · rw [if_pos hlong] at h
    cases h
  rw [if_neg hlong] at h
  by_cases hsize : max < (inserted doc (withEol text (eolOf doc)) k).length ∧
      doc.length < (inserted doc (withEol text (eolOf doc)) k).length
  · rw [if_pos hsize] at h
    cases h
  rw [if_neg hsize, Except.ok.injEq, Prod.mk.injEq] at h
  exact ⟨by omega, h.1.symm⟩

/-! ## Breaks -/

theorem toCrLf_cons {u : UInt16} {rest : Str} (hlf : u ≠ lf) (hcr : u ≠ cr) : toCrLf (u :: rest) = u :: toCrLf rest := by
  rw [toCrLf, if_neg hlf, if_neg (by simp [hcr])]

theorem toCrLf_lf (rest : Str) : toCrLf (lf :: rest) = cr :: lf :: toCrLf rest := by
  rw [toCrLf, if_pos rfl]

theorem dropCr_cons {u : UInt16} (h : u ≠ cr) (l : Str) : dropCr (u :: l) = u :: dropCr l := by
  cases l with
  | nil => simp [dropCr, h]
  | cons v l =>
    simp only [dropCr, List.getLast?_cons_cons]
    split
    · rfl
    · rfl

theorem dropCr_self {l : Str} (h : l.getLast? ≠ some cr) : dropCr l = l := if_neg h

theorem dropCr_snoc (l : Str) : dropCr (l ++ [cr]) = l := by simp [dropCr]

theorem map_dropCr_of_noCr {s : Str} (h : cr ∉ s) : (splitOn lf s).map dropCr = splitOn lf s := by
  induction s with
  | nil => rfl
  | cons u rest ih =>
    rw [List.mem_cons, not_or] at h
    have hrest := ih h.2
    by_cases hu : u = lf
    · simp [splitOn, hu, hrest, dropCr]
    · cases hs : splitOn lf rest with
      | nil => exact absurd hs (splitOn_ne_nil lf rest)
      | cons line lines =>
        rw [hs, List.map_cons, List.cons.injEq] at hrest
        simp [splitOn, hu, hs, dropCr_cons (Ne.symm h.1), hrest]

/-- The lines of a text written with CRLF are the text's. -/
theorem splitOn_toCrLf {s : Str} (h : cr ∉ s) : (splitOn lf (toCrLf s)).map dropCr = splitOn lf s := by
  induction s with
  | nil => rfl
  | cons u rest ih =>
    rw [List.mem_cons, not_or] at h
    have hrest := ih h.2
    have hlf : ¬ cr = lf := by decide
    by_cases hu : u = lf
    · subst hu
      rw [toCrLf_lf]
      simp [splitOn, hlf, hrest, dropCr]
    · rw [toCrLf_cons hu (Ne.symm h.1)]
      cases hs : splitOn lf (toCrLf rest) with
      | nil => exact absurd hs (splitOn_ne_nil lf _)
      | cons line lines =>
        rw [hs, List.map_cons] at hrest
        simp [splitOn, hu, hs, dropCr_cons (Ne.symm h.1), ← hrest]

theorem toCrLf_getLast {s : Str} (h : cr ∉ s) : (toCrLf s).getLast? = s.getLast? := by
  induction s with
  | nil => rfl
  | cons u rest ih =>
    rw [List.mem_cons, not_or] at h
    have hrest := ih h.2
    by_cases hu : u = lf
    · subst hu
      rw [toCrLf_lf, List.getLast?_cons_cons, List.getLast?_cons, List.getLast?_cons, hrest]
    · rw [toCrLf_cons hu (Ne.symm h.1), List.getLast?_cons, List.getLast?_cons, hrest]

section

variable {doc text : Str}

theorem withEol_lines (h : cr ∉ text) : (splitOn lf (withEol text (eolOf doc))).map dropCr = splitOn lf text := by
  unfold withEol
  split
  · exact splitOn_toCrLf h
  · exact map_dropCr_of_noCr h

theorem withEol_head (h : Insertable text) :
    (withEol text (eolOf doc)).head? ≠ some cr ∧ (withEol text (eolOf doc)).head? ≠ some lf := by
  obtain ⟨u, rest, rfl⟩ := List.exists_cons_of_ne_nil h.nonempty
  have hu : u ≠ lf := fun hlf => h.head (by rw [hlf]; rfl)
  have hcr : u ≠ cr := fun hcr => h.noCr (by simp [hcr])
  have hhead : (withEol (u :: rest) (eolOf doc)).head? = some u := by
    unfold withEol
    split
    · rw [toCrLf_cons hu hcr]
      rfl
    · rfl
  rw [hhead]
  exact ⟨fun h => hcr (Option.some.inj h), fun h => hu (Option.some.inj h)⟩

variable (doc) in
theorem withEol_last (h : Insertable text) :
    (withEol text (eolOf doc)).getLast? ≠ some cr ∧ (withEol text (eolOf doc)).getLast? ≠ some lf := by
  have hlast : (withEol text (eolOf doc)).getLast? = text.getLast? := by
    unfold withEol
    split
    · exact toCrLf_getLast h.noCr
    · rfl
  rw [hlast]
  exact ⟨fun hcr => h.noCr (List.mem_of_getLast? hcr), h.last⟩

/-! ## Uniform documents -/

/-- A document written with LF has no carriage return. -/
theorem Uniform.noCr (h : Uniform doc) (heol : eolOf doc = [lf]) : cr ∉ doc := by
  intro hmem
  obtain ⟨a, b, hab⟩ := List.append_of_mem hmem
  obtain ⟨b', hb'⟩ := List.head?_eq_some_iff.1 (h.noBareCr a b hab)
  exact eolOf_crlf heol a b' (by rw [hab, hb']; simp)

theorem mem_of_crlf (heol : eolOf doc = [cr, lf]) : ∃ a b, doc = a ++ [cr, lf] ++ b := by
  unfold eolOf at heol
  split at heol
  · rename_i h
    exact includes_iff.1 h
  · exact absurd heol (by decide)

/-- A document that does not end with its break does not end with any. -/
theorem Uniform.last (h : Uniform doc) (hends : endsWith (eolOf doc) doc = false) : doc.getLast? ≠ some lf := by
  intro hlast
  obtain ⟨a, ha⟩ := List.getLast?_eq_some_iff.1 hlast
  have hsuffix : eolOf doc <:+ doc := by
    rcases eolOf_cases doc with heol | heol
    · obtain ⟨x, y, hxy⟩ := mem_of_crlf heol
      have hmem : cr ∈ doc := by rw [hxy]; simp
      obtain ⟨a', rfl⟩ := List.getLast?_eq_some_iff.1 (h.sameEnds hmem a [] ha)
      exact ⟨a', by rw [heol, ha]; simp⟩
    · exact ⟨a, by rw [heol, ha]⟩
  rw [endsWith, List.isSuffixOf_iff_suffix.2 hsuffix] at hends
  cases hends

/-- The last line has no carriage return of its own. -/
theorem Uniform.body_last (h : Uniform doc) : (body doc).getLast? ≠ some cr := by
  intro hlast
  obtain ⟨a, ha⟩ := List.getLast?_eq_some_iff.1 hlast
  have hdoc := body_trailing doc
  rw [ha, List.append_assoc, List.singleton_append] at hdoc
  have hhead := h.noBareCr a (trailing doc) hdoc.symm
  unfold trailing at hhead hdoc
  split at hhead
  · rename_i hends
    rw [if_pos hends] at hdoc
    rcases eolOf_cases doc with heol | heol
    · rw [heol] at hhead
      exact absurd hhead (by decide)
    · rw [heol] at hdoc
      exact eolOf_crlf heol a [] (by rw [← hdoc]; simp)
  · cases hhead

/-- Lines joined by the document's break are the lines before it and those after. -/
theorem lines_break {a : Str} (b : Str) (h : eolOf doc = [lf] ∨ a.getLast? ≠ some cr) :
    (splitOn lf (a ++ eolOf doc ++ b)).map dropCr = (splitOn lf a).map dropCr ++ (splitOn lf b).map dropCr := by
  rcases eolOf_cases doc with heol | heol
  · have hlast := h.resolve_left (by rw [heol]; decide)
    obtain ⟨init, l, hs, happ⟩ := splitOn_last a
    have hl : l.getLast? ≠ some cr := by
      intro hcr
      have hjoin := join_splitOn lf a
      rw [hs] at hjoin
      refine hlast ?_
      cases init with
      | nil => rwa [← hjoin]
      | cons first init =>
        rw [join_append [lf] (by simp) (by simp)] at hjoin
        rw [← hjoin, List.getLast?_append, show join [lf] [l] = l from rfl, hcr]
        rfl
    rw [heol, show a ++ [cr, lf] ++ b = (a ++ [cr]) ++ lf :: b by simp, splitOn_append, List.map_append,
      happ [cr] (by decide), hs, List.map_append, List.map_append, List.map_singleton, List.map_singleton, dropCr_snoc,
      dropCr_self hl]
  · rw [heol, List.append_assoc, List.singleton_append, splitOn_append, List.map_append]

end

/-! ## Where an insert lands -/

/-- What stands before and after a text put in after line `k`. -/
inductive Gap (doc : Str) (k : Nat) (pre post : Str) : Prop
  | empty (hdoc : doc = []) (hk : k = 0) (hpre : pre = []) (hpost : post = [])
  | top (hdoc : doc ≠ []) (hk : k = 0) (hpre : pre = []) (hpost : post = eolOf doc ++ body doc ++ trailing doc)
  | middle (a b : Str) (ha : splitOn lf a = (docLines doc).take k) (hb : splitOn lf b = (docLines doc).drop k)
      (hbody : body doc = a ++ lf :: b) (hpre : pre = a ++ [lf]) (hpost : post = eolOf doc ++ b ++ trailing doc)
  | last (hdoc : doc ≠ []) (hk : k = (docLines doc).length) (hpre : pre = body doc ++ eolOf doc)
      (hpost : post = trailing doc)

theorem docLines_nil {doc : Str} : docLines doc = [] ↔ doc = [] := by
  unfold docLines
  split
  · rename_i h
    simpa using h
  · rename_i h
    exact ⟨fun hnil => absurd hnil (splitOn_ne_nil lf _), fun hnil => absurd (by simp [hnil]) h⟩

section

variable {doc text t pre post : Str} {k : Nat}

theorem inserted_gap (t : Str) (hk : k ≤ (docLines doc).length) :
    ∃ pre post, inserted doc t k = pre ++ t ++ post ∧ Gap doc k pre post := by
  by_cases hdoc : doc = []
  · have hlines := docLines_nil.2 hdoc
    have hk0 : k = 0 := by simpa [hlines] using hk
    refine ⟨[], [], ?_, .empty hdoc hk0 rfl rfl⟩
    subst hdoc hk0
    have htrailing : trailing [] = [] := by decide
    rw [inserted, hlines, htrailing]
    simp
  · have hlines := docLines_cons hdoc
    have hne : docLines doc ≠ [] := fun h => hdoc (docLines_nil.1 h)
    have hisEmpty : (docLines doc).isEmpty = false := by simpa using hne
    by_cases hk0 : k = 0
    · refine ⟨[], eolOf doc ++ body doc ++ trailing doc, ?_, .top hdoc hk0 rfl rfl⟩
      rw [inserted, if_pos hk0, if_neg (by simp [hisEmpty])]
      simp
    · by_cases hend : k = (docLines doc).length
      · refine ⟨body doc ++ eolOf doc, trailing doc, ?_, .last hdoc hend rfl rfl⟩
        rw [inserted, if_neg hk0, if_pos hend, hend, List.take_length]
        conv_lhs => rw [hlines, join_splitOn]
      · have hlt : k < (docLines doc).length := by omega
        have htake : (docLines doc).take k ≠ [] := by
          intro hnil
          rcases List.take_eq_nil_iff.1 hnil with h | h
          · exact hk0 h
          · exact hne h
        have hdrop : (docLines doc).drop k ≠ [] := by
          intro hnil
          have := List.drop_eq_nil_iff.1 hnil
          omega
        have hfree : ∀ l ∈ docLines doc, lf ∉ l := by
          intro l hl
          rw [hlines] at hl
          exact sep_not_mem hl
        refine ⟨join [lf] ((docLines doc).take k) ++ [lf],
          eolOf doc ++ join [lf] ((docLines doc).drop k) ++ trailing doc, ?_,
          .middle (join [lf] ((docLines doc).take k)) (join [lf] ((docLines doc).drop k)) ?_ ?_ ?_ rfl rfl⟩
        · rw [inserted, if_neg hk0, if_neg hend]
          simp
        · exact splitOn_join htake fun l hl => hfree l (List.mem_of_mem_take hl)
        · exact splitOn_join hdrop fun l hl => hfree l (List.mem_of_mem_drop hl)
        · have hjoin := join_append [lf] htake hdrop
          rw [List.take_append_drop] at hjoin
          conv_lhs at hjoin => rw [hlines, join_splitOn]
          rw [hjoin]
          simp

/-- Deleting the text at its gap gives the document back. -/
theorem Gap.deleted {kept : Str} (h : Gap doc k pre post) (hkept : kept = pre ++ t ++ post)
    (heol : eolOf kept = eolOf doc) (hhead : t.head? ≠ some cr ∧ t.head? ≠ some lf)
    (hlast : t.getLast? ≠ some cr ∧ t.getLast? ≠ some lf) : afterDeletion kept t pre.length = doc := by
  have hlf : (eolOf doc).getLast? = some lf := by
    rcases eolOf_cases doc with h | h
    · rw [h]
      rfl
    · rw [h]
      rfl
  have htakes : (pre = [] ∨ pre.getLast? = some lf) → (post = [] ∨ eolOf doc <+: post) →
      takesBreak kept pre t post = true := by
    intro hstarts hends
    exact takesBreak_iff.2 ⟨hstarts, heol ▸ hends, hhead, hlast⟩
  cases h with
  | empty hdoc _ hpre hpost =>
    have hlines := afterDeletion_lines hkept (htakes (.inl hpre) (.inl hpost))
    subst hdoc hpre hpost
    generalize afterDeletion kept t ([] : Str).length = gone at hlines
    rcases hlines with ⟨b, rest, hb, hnil, -⟩ | ⟨b, front, hb, -, -, hnil, -⟩ | ⟨-, -, hgone⟩
    · rcases hb with rfl | rfl
      · cases hnil
      · cases hnil
    · rcases hb with rfl | rfl
      · simp at hnil
      · simp at hnil
    · exact hgone
  | top _ _ hpre hpost =>
    have hpost' : post = eolOf kept ++ doc := by
      rw [hpost, heol, List.append_assoc, body_trailing]
    rw [afterDeletion_after hkept (htakes (.inl hpre) (.inr ⟨doc, by rw [hpost', heol]⟩)) hpost', hpre]
    rfl
  | middle a b _ _ hbody hpre hpost =>
    have hpost' : post = eolOf kept ++ (b ++ trailing doc) := by
      rw [hpost, heol, List.append_assoc]
    rw [afterDeletion_after hkept (htakes (.inr (by simp [hpre])) (.inr ⟨b ++ trailing doc, by rw [hpost', heol]⟩)) hpost',
      hpre]
    conv_rhs => rw [← body_trailing doc, hbody]
    simp
  | last _ _ hpre hpost =>
    have hstarts : pre.getLast? = some lf := by
      rw [hpre, List.getLast?_append, hlf]
      rfl
    by_cases hends : endsWith (eolOf doc) doc = true
    · have hpost' : post = eolOf kept ++ [] := by
        rw [hpost, trailing, if_pos hends, heol, List.append_nil]
      rw [afterDeletion_after hkept (htakes (.inr hstarts) (.inr ⟨[], by rw [hpost', heol]⟩)) hpost', hpre, List.append_nil]
      conv_rhs => rw [← body_trailing doc, trailing, if_pos hends]
    · have hnil : post = [] := by rw [hpost, trailing, if_neg hends]
      have hbody : body doc = doc := by rw [body, if_neg hends]
      subst hnil
      rw [List.append_nil] at hkept
      have hsuffix : endsWith (eolOf kept) pre = true :=
        List.isSuffixOf_iff_suffix.2 ⟨body doc, by rw [heol, hpre]⟩
      have hpos : 0 < (eolOf doc).length := List.length_pos_of_ne_nil (by intro hnil; rw [hnil] at hlf; cases hlf)
      rw [afterDeletion_before hkept (htakes (.inr hstarts) (.inl rfl)) hpre (by rw [if_pos hsuffix, heol]) hpos, hbody]

/-- An insert does not change how the document's lines end. -/
theorem Gap.eol {kept : Str} (h : Gap doc k pre post) (hkept : kept = pre ++ t ++ post) (hdoc : Uniform doc)
    (ht : eolOf doc = [lf] → cr ∉ t) : eolOf kept = eolOf doc := by
  rcases eolOf_cases doc with heol | heol
  · -- The document's CRLF, or the one the insert added, is still there.
    have hin : includes [cr, lf] kept = true := by
      rw [includes_iff, hkept]
      cases h with
      | empty hnil =>
        rw [hnil] at heol
        exact absurd heol (by decide)
      | top _ _ _ hpost => exact ⟨pre ++ t, body doc ++ trailing doc, by rw [hpost, heol]; simp⟩
      | middle a b _ _ _ _ hpost => exact ⟨pre ++ t, b ++ trailing doc, by rw [hpost, heol]; simp⟩
      | last _ _ hpre => exact ⟨body doc, t ++ post, by rw [hpre, heol]; simp⟩
    rw [eolOf, if_pos hin, heol]
  · have hcr := hdoc.noCr heol
    have hbody : cr ∉ body doc ∧ cr ∉ trailing doc := by
      rw [← body_trailing doc, List.mem_append, not_or] at hcr
      exact hcr
    have hlf : ¬ cr = lf := by decide
    have hkept' : cr ∉ kept := by
      rw [hkept, List.mem_append, List.mem_append, not_or, not_or]
      cases h with
      | empty _ _ hpre hpost => simp [hpre, hpost, ht heol]
      | top _ _ hpre hpost => simp [hpre, hpost, ht heol, heol, hbody, hlf]
      | middle a b _ _ hab hpre hpost =>
        have hsplit := hbody.1
        rw [hab, List.mem_append, List.mem_cons, not_or, not_or] at hsplit
        simp [hpre, hpost, ht heol, heol, hbody, hlf, hsplit]
      | last _ _ hpre hpost => simp [hpre, hpost, ht heol, heol, hbody, hlf]
    have hout : includes [cr, lf] kept = false := by
      rw [← Bool.not_eq_true, includes_iff]
      rintro ⟨a, b, hab⟩
      exact hkept' (by rw [hab]; simp)
    rw [eolOf, hout, heol]
    rfl

/-- An insert does not change whether the document ends with a break. -/
theorem Gap.trailing {kept : Str} (h : Gap doc k pre post) (hkept : kept = pre ++ t ++ post) (hdoc : Uniform doc)
    (heol : eolOf kept = eolOf doc) (hne : t ≠ []) (hlast : t.getLast? ≠ some lf) :
    trailing kept = trailing doc := by
  have hlf : ∀ s, endsWith (eolOf doc) s = true → s.getLast? = some lf := by
    intro s hs
    obtain ⟨front, rfl⟩ := List.isSuffixOf_iff_suffix.1 hs
    rcases eolOf_cases doc with h | h
    · simp [h]
    · simp [h]
  have hends : endsWith (eolOf doc) kept = endsWith (eolOf doc) doc := by
    cases hd : endsWith (eolOf doc) doc with
    | true =>
      have htr : Document.trailing doc = eolOf doc := if_pos hd
      refine List.isSuffixOf_iff_suffix.2 ?_
      cases h with
      | empty hnil =>
        have := hlf doc hd
        rw [hnil] at this
        cases this
      | top _ _ _ hpost => exact ⟨pre ++ t ++ eolOf doc ++ body doc, by rw [hkept, hpost, htr]; simp⟩
      | middle a b _ _ _ _ hpost => exact ⟨pre ++ t ++ eolOf doc ++ b, by rw [hkept, hpost, htr]; simp⟩
      | last _ _ _ hpost => exact ⟨pre ++ t, by rw [hkept, hpost, htr]⟩
    | false =>
      have htr : Document.trailing doc = [] := if_neg (by simp [hd])
      have hbody : body doc = doc := by rw [body, if_neg (by simp [hd])]
      have hdocLast := hdoc.last hd
      rw [← Bool.not_eq_true]
      intro hs
      have hkeptLast := hlf kept hs
      rw [hkept] at hkeptLast
      cases h with
      | empty _ _ hpre hpost =>
        rw [hpre, hpost, List.append_nil] at hkeptLast
        exact hlast hkeptLast
      | top hdocNe _ _ hpost =>
        rw [hpost, htr, hbody, List.append_nil, ← List.append_assoc, List.getLast?_append_of_ne_nil _ hdocNe] at hkeptLast
        exact hdocLast hkeptLast
      | middle a b _ _ hab _ hpost =>
        have hb : b ≠ [] := by
          intro hnil
          rw [hbody, hnil] at hab
          exact hdocLast (by rw [hab]; simp)
        rw [hpost, htr, List.append_nil, ← List.append_assoc, List.getLast?_append_of_ne_nil _ hb] at hkeptLast
        refine hdocLast ?_
        rw [← hbody, hab, List.getLast?_append_of_ne_nil _ (by simp), List.getLast?_cons, hkeptLast]
        rfl
      | last _ _ _ hpost =>
        rw [hpost, htr, List.append_nil, List.getLast?_append_of_ne_nil _ hne] at hkeptLast
        exact hlast hkeptLast
  rw [Document.trailing, Document.trailing, heol, hends]

/-- The lines of the document with the text's among them. -/
theorem Gap.lines {kept : Str} (h : Gap doc k pre post) (hkept : kept = pre ++ t ++ post) (hdoc : Uniform doc)
    (htrailing : Document.trailing kept = Document.trailing doc) (hne : t ≠ [])
    (ht : eolOf doc = [lf] ∨ t.getLast? ≠ some cr) :
    plainLines kept = (plainLines doc).take k ++ (splitOn lf t).map dropCr ++ (plainLines doc).drop k := by
  have hkeptNe : kept ≠ [] := by
    intro hnil
    rw [hnil, eq_comm, List.append_eq_nil_iff, List.append_eq_nil_iff] at hkept
    exact hne hkept.1.2
  have hcut : ∀ x, kept = x ++ Document.trailing doc → body kept = x := by
    intro x hx
    have := body_trailing kept
    rw [htrailing] at this
    exact List.append_cancel_right (this.trans hx)
  rw [plainLines, docLines_cons hkeptNe]
  cases h with
  | empty hnil hk hpre hpost =>
    have htr : Document.trailing doc = [] := by
      rw [hnil]
      decide
    rw [hcut t (by rw [hkept, hpre, hpost, htr]; simp), plainLines, docLines_nil.2 hnil]
    simp
  | top hdocNe hk hpre hpost =>
    rw [hcut (t ++ eolOf doc ++ body doc) (by rw [hkept, hpre, hpost]; simp), lines_break _ ht, plainLines,
      docLines_cons hdocNe, hk]
    simp
  | middle a b ha hb hab hpre hpost =>
    rw [hcut (a ++ [lf] ++ (t ++ eolOf doc ++ b)) (by rw [hkept, hpre, hpost]; simp), List.append_assoc,
      List.singleton_append, splitOn_append, List.map_append, lines_break _ ht, ha, hb, plainLines, List.map_take,
      List.map_drop, List.append_assoc]
  | last hdocNe hk hpre hpost =>
    have hlen : k = (plainLines doc).length := by rw [hk, plainLines, List.length_map]
    rw [hcut (body doc ++ eolOf doc ++ t) (by rw [hkept, hpre, hpost]), lines_break _ (.inr hdoc.body_last), hlen,
      List.take_length, List.drop_length, List.append_nil, plainLines, docLines_cons hdocNe]

end

/-- Deleting what an insert put in gives the document back, and the lines of an insert's document are the first `k`, the
text's, and the rest. -/
theorem insert_delete (key : String) (doc text : Str) (k max cap : Nat) (next : Option Str) (kept : Str) (line : Nat)
    (hdoc : Uniform doc) (htext : Insertable text) (hnext : next.getD [] = [])
    (hins : insertLines key doc (.int k) text max = .ok (kept, line))
    (honce : ∃ p, occurrences (withEol text (eolOf doc)) kept = [p]) :
    (∃ r, reviseText key kept text next cap = .ok (doc, r)) ∧
      plainLines kept = (plainLines doc).take k ++ splitOn lf text ++ (plainLines doc).drop k := by
  obtain ⟨hk, hkept⟩ := insertLines_ok hins
  obtain ⟨pre, post, hsplit, hgap⟩ := inserted_gap (withEol text (eolOf doc)) hk
  rw [hsplit] at hkept
  have hlf : eolOf doc = [lf] → cr ∉ withEol text (eolOf doc) := by
    intro heol
    rw [heol]
    exact htext.noCr
  have heol := hgap.eol hkept hdoc hlf
  have hlast := withEol_last doc htext
  have hne := withEol_ne_nil (eolOf doc) htext.nonempty
  have htrailing := hgap.trailing hkept hdoc heol hne hlast.2
  constructor
  · obtain ⟨p, hp⟩ := honce
    have hmem : pre.length ∈ occurrences (withEol text (eolOf doc)) kept := mem_occurrences.2 ⟨pre, post, hkept, rfl⟩
    rw [hp, List.mem_singleton] at hmem
    rw [← heol, ← hmem] at hp
    have hdeleted := hgap.deleted hkept heol (withEol_head htext) hlast
    obtain ⟨e, r, -, -, heq⟩ := reviseText_once key next cap htext.nonempty hp
    have hgone : withEol (next.getD []) (eolOf kept) = [] := by
      rw [hnext]
      unfold withEol
      split
      · rfl
      · rfl
    rw [hgone, revised, if_pos rfl, heol, hdeleted, if_neg] at heq
    · exact ⟨r, heq⟩
    · intro hsize
      have := congrArg List.length hkept
      have hle := afterDeletion_length hkept
      rw [hdeleted] at hle
      omega
  · rw [hgap.lines hkept hdoc htrailing hne (.inr hlast.1), withEol_lines htext.noCr]

theorem uniform_crlf : Uniform [97, cr, lf, 98] := by
  constructor
  · intro a b h
    rcases a with _ | ⟨u, _ | ⟨v, _ | ⟨w, _ | ⟨x, a⟩⟩⟩⟩
    · cases h
    · simp only [List.cons_append, List.nil_append, List.cons.injEq] at h
      rw [← h.2.2]
      rfl
    · cases h
    · cases h
    · simp at h
  · intro _ a b h
    rcases a with _ | ⟨u, _ | ⟨v, _ | ⟨w, _ | ⟨x, a⟩⟩⟩⟩
    · cases h
    · cases h
    · simp only [List.cons_append, List.nil_append, List.cons.injEq] at h
      rw [← h.1, ← h.2.1]
      rfl
    · cases h
    · simp at h

/-- Two lines put between `a` and `b` of a CRLF document, and deleted again. -/
theorem insert_delete_between :
    (∃ r, reviseText "notes" [97, cr, lf, 120, cr, lf, 121, cr, lf, 98] [120, lf, 121] none 0 = .ok ([97, cr, lf, 98], r)) ∧
      plainLines [97, cr, lf, 120, cr, lf, 121, cr, lf, 98] = [[97], [120], [121], [98]] :=
  insert_delete "notes" [97, cr, lf, 98] [120, lf, 121] 1 100 0 none [97, cr, lf, 120, cr, lf, 121, cr, lf, 98] 2
    uniform_crlf ⟨by decide, by decide, by decide, by decide⟩ rfl (by decide) ⟨3, by decide⟩

end Antiproton.Document
