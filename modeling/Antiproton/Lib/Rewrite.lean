import Mathlib.Data.List.Basic
import Mathlib.Data.List.Infix

/-!
# Antiproton.Lib.Rewrite

Texts rewritten by a pattern, left to right, as a global `replace` does: what the pattern finds is taken out and one word
put in its place, and a match may keep an element before what it takes.

* `scanned`: what a scan goes through, place by place.
* `keeps_of_shown`: a word that shares nothing with the word put in, found in a rewritten text, was kept from the old one.
* `merged`: two rewritings one after the other, as one.
-/

namespace Rewrite

variable {A : Type}

/-- A piece of a rewritten text: an element kept, or what the word was put in place of. -/
inductive Piece (A : Type) where
  | keep (a : A)
  | put (old : List A)

open Piece

def Piece.read : Piece A → List A
  | keep a => [a]
  | put old => old

def Piece.shown (new : List A) : Piece A → List A
  | keep a => [a]
  | put _ => new

/-- The text before. -/
def read (ps : List (Piece A)) : List A := ps.flatMap Piece.read

/-- The text after. -/
def shown (new : List A) (ps : List (Piece A)) : List A := ps.flatMap (Piece.shown new)

/-- What a pattern finds at a place: what of it stays, and what is taken. -/
structure Match (A : Type) where
  kept : List A
  taken : List A

/-- A pattern, at a place that is the start of the text or not, before the rest of the text. -/
abbrev Pattern (A : Type) := Bool → List A → Option (Match A)

def scan (find : Pattern A) : Nat → Bool → List A → List (Piece A)
  | _, _, [] => []
  | skip + 1, _, _ :: rest => scan find skip false rest
  | 0, start, a :: rest =>
    match find start (a :: rest) with
    | none => keep a :: scan find 0 false rest
    | some m => m.kept.map keep ++ put m.taken :: scan find (m.kept.length + m.taken.length - 1) false rest

/-- `text.replace(pattern, new)`, all of them. -/
def replaceAll (find : Pattern A) (new text : List A) : List A := shown new (scan find 0 true text)

/-- A pattern that takes something, from the place on, and keeps at most one element before it. -/
structure Lawful (find : Pattern A) : Prop where
  here : ∀ {start l m}, find start l = some m → ∃ rest, l = m.kept ++ m.taken ++ rest
  taken : ∀ {start l m}, find start l = some m → m.taken ≠ []
  kept : ∀ {start l m}, find start l = some m → m.kept = [] ∨ ∃ a, m.kept = [a]

/-- What a scan goes through. -/
inductive Scanned (find : Pattern A) : Bool → List A → List (Piece A) → Prop where
  | nil (start : Bool) : Scanned find start [] []
  | keep {start : Bool} {a : A} {rest : List A} {ps : List (Piece A)} (hnone : find start (a :: rest) = none)
      (hrest : Scanned find false rest ps) : Scanned find start (a :: rest) (.keep a :: ps)
  | found {start : Bool} {m : Match A} {rest : List A} {ps : List (Piece A)}
      (hsome : find start (m.kept ++ m.taken ++ rest) = some m) (hrest : Scanned find false rest ps) :
      Scanned find start (m.kept ++ m.taken ++ rest) (m.kept.map .keep ++ .put m.taken :: ps)

section Scan

variable {find : Pattern A} {start : Bool} {l : List A} {ps ps₁ ps₂ : List (Piece A)} {a b : A} {old : List A}

theorem scan_skip (find : Pattern A) (skip : Nat) (l : List A) :
    scan find skip false l = scan find 0 false (l.drop skip) := by
  induction skip generalizing l with
  | zero => rfl
  | succ skip ih =>
    cases l with
    | nil => rfl
    | cons a l => exact ih l

theorem scan_found (h : Lawful find) {m : Match A} {rest : List A}
    (hsome : find start (m.kept ++ m.taken ++ rest) = some m) :
    scan find 0 start (m.kept ++ m.taken ++ rest) = m.kept.map keep ++ put m.taken :: scan find 0 false rest := by
  have htaken := List.length_pos_iff.2 (h.taken hsome)
  obtain ⟨a, l, hl⟩ : ∃ a l, m.kept ++ m.taken ++ rest = a :: l := by
    refine List.exists_cons_of_ne_nil fun hnil => h.taken hsome ?_
    exact (List.append_eq_nil_iff.1 (List.append_eq_nil_iff.1 hnil).1).2
  have hdrop : l.drop (m.kept.length + m.taken.length - 1) = rest := by
    have hall : (a :: l).drop (m.kept.length + m.taken.length) = rest := by
      rw [← hl, ← List.length_append, List.drop_left]
    obtain ⟨k, hk⟩ : ∃ k, m.kept.length + m.taken.length = k + 1 := ⟨m.kept.length + m.taken.length - 1, by omega⟩
    rw [hk] at hall ⊢
    exact hall
  rw [hl] at hsome ⊢
  rw [scan, hsome]
  simp only []
  rw [scan_skip, hdrop]

theorem scanned (h : Lawful find) (start : Bool) (l : List A) : Scanned find start l (scan find 0 start l) := by
  induction hlength : l.length using Nat.strongRecOn generalizing start l with
  | ind n ih =>
    subst hlength
    cases l with
    | nil => exact .nil start
    | cons a rest =>
      cases hfind : find start (a :: rest) with
      | none =>
        rw [scan, hfind]
        exact .keep hfind (ih rest.length (Nat.lt_succ_self _) false rest rfl)
      | some m =>
        have htaken := List.length_pos_iff.2 (h.taken hfind)
        obtain ⟨rest', hrest⟩ := h.here hfind
        have hless : rest'.length < (a :: rest).length := by
          rw [hrest, List.length_append, List.length_append]
          omega
        rw [hrest] at hfind ⊢
        rw [scan_found h hfind]
        exact .found hfind (ih rest'.length hless false rest' rfl)

theorem read_keeps (l : List A) : read (l.map keep) = l := by
  induction l with
  | nil => rfl
  | cons a l ih => exact congrArg (a :: ·) ih

theorem shown_keeps (new l : List A) : shown new (l.map keep) = l := by
  induction l with
  | nil => rfl
  | cons a l ih => exact congrArg (a :: ·) ih

theorem read_append (ps₁ ps₂ : List (Piece A)) : read (ps₁ ++ ps₂) = read ps₁ ++ read ps₂ := List.flatMap_append

theorem shown_append (new : List A) (ps₁ ps₂ : List (Piece A)) :
    shown new (ps₁ ++ ps₂) = shown new ps₁ ++ shown new ps₂ := List.flatMap_append

theorem Scanned.read (h : Scanned find start l ps) : read ps = l := by
  induction h with
  | nil => rfl
  | keep hnone hrest ih => exact congrArg (_ :: ·) ih
  | @found start m rest ps hsome hrest ih =>
    rw [read_append, read_keeps, List.append_assoc]
    exact congrArg (m.kept ++ ·) (congrArg (m.taken ++ ·) ih)

/-- Nothing is found where two elements in a row are kept. -/
theorem Scanned.kept_none (hfind : Lawful find) (h : Scanned find start l ps)
    (hps : ps = ps₁ ++ Piece.keep a :: Piece.keep b :: ps₂) :
    ∃ start', (ps₁ = [] → start' = start) ∧ find start' (a :: b :: Rewrite.read ps₂) = none := by
  induction h generalizing ps₁ with
  | nil => exact absurd hps (by simp)
  | @keep start c rest ps hnone hrest ih =>
    cases ps₁ with
    | nil =>
      obtain ⟨hc, rfl⟩ := List.cons.inj hps
      cases hc
      have hread : b :: Rewrite.read ps₂ = rest := hrest.read
      rw [hread]
      exact ⟨start, fun _ => rfl, hnone⟩
    | cons p ps₁ =>
      obtain ⟨start', -, hfound⟩ := ih (List.cons.inj hps).2
      exact ⟨start', fun h => absurd h (List.cons_ne_nil _ _), hfound⟩
  | @found start m rest ps hsome hrest ih =>
    rcases hfind.kept hsome with hkept | ⟨c, hkept⟩
    · rw [hkept, List.map_nil, List.nil_append] at hps
      cases ps₁ with
      | nil => cases hps
      | cons p ps₁ =>
        obtain ⟨start', -, hfound⟩ := ih (List.cons.inj hps).2
        exact ⟨start', fun h => absurd h (List.cons_ne_nil _ _), hfound⟩
    · rw [hkept, List.map_singleton, List.singleton_append] at hps
      cases ps₁ with
      | nil => cases hps
      | cons p ps₁ =>
        cases ps₁ with
        | nil => cases hps
        | cons q ps₁ =>
          obtain ⟨start', -, hfound⟩ := ih (List.cons.inj (List.cons.inj hps).2).2
          exact ⟨start', fun h => absurd h (List.cons_ne_nil _ _), hfound⟩

/-- Nothing is found where a word of two elements or more is kept. -/
theorem Scanned.word_none (hfind : Lawful find) (h : Scanned find start l ps) {w : List A}
    (hps : ps = ps₁ ++ (a :: b :: w).map Piece.keep ++ ps₂) :
    ∃ start', (ps₁ = [] → start' = start) ∧ find start' (a :: b :: w ++ Rewrite.read ps₂) = none := by
  rw [List.append_assoc] at hps
  obtain ⟨start', hstart, hnone⟩ := h.kept_none hfind hps
  have hword : Rewrite.read (w.map Piece.keep ++ ps₂) = w ++ Rewrite.read ps₂ := by rw [read_append, read_keeps]
  exact ⟨start', hstart, by rwa [List.cons_append, List.cons_append, ← hword]⟩

/-- What is taken was found, after what the match keeps. -/
theorem Scanned.found_at (hfind : Lawful find) (h : Scanned find start l ps) (hps : ps = ps₁ ++ Piece.put old :: ps₂) :
    ∃ start' ps₀ m, ps₁ = ps₀ ++ m.kept.map Piece.keep ∧ m.taken = old ∧ (start' = true → ps₀ = [] ∧ start = true) ∧
      find start' (m.kept ++ old ++ Rewrite.read ps₂) = some m := by
  induction h generalizing ps₁ with
  | nil => exact absurd hps (by simp)
  | @keep start c rest ps hnone hrest ih =>
    cases ps₁ with
    | nil => cases hps
    | cons p ps₁ =>
      obtain ⟨start', ps₀, m, rfl, hold, hstart, hfound⟩ := ih (List.cons.inj hps).2
      exact ⟨start', p :: ps₀, m, rfl, hold, fun h => Bool.noConfusion (hstart h).2, hfound⟩
  | @found start m rest ps hsome hrest ih =>
    have hhere : m.kept.map Piece.keep ++ Piece.put m.taken :: ps = ps₁ ++ Piece.put old :: ps₂ →
        ps₁ = m.kept.map Piece.keep ∧ m.taken = old ∧ ps = ps₂ ∨
          ∃ ps₀, ps₁ = m.kept.map Piece.keep ++ Piece.put m.taken :: ps₀ ∧ ps = ps₀ ++ Piece.put old :: ps₂ := by
      intro hps
      rcases hfind.kept hsome with hkept | ⟨c, hkept⟩
      · rw [hkept] at hps ⊢
        rw [List.map_nil, List.nil_append] at hps
        rw [List.map_nil]
        cases ps₁ with
        | nil =>
          obtain ⟨hput, hrest⟩ := List.cons.inj hps
          cases hput
          exact .inl ⟨rfl, rfl, hrest⟩
        | cons p ps₁ =>
          obtain ⟨rfl, hrest⟩ := List.cons.inj hps
          exact .inr ⟨ps₁, rfl, hrest⟩
      · rw [hkept] at hps ⊢
        rw [List.map_singleton, List.singleton_append] at hps
        rw [List.map_singleton]
        cases ps₁ with
        | nil => cases hps
        | cons p ps₁ =>
          obtain ⟨rfl, hrest⟩ := List.cons.inj hps
          cases ps₁ with
          | nil =>
            obtain ⟨hput, htail⟩ := List.cons.inj hrest
            cases hput
            exact .inl ⟨rfl, rfl, htail⟩
          | cons q ps₁ =>
            obtain ⟨rfl, htail⟩ := List.cons.inj hrest
            exact .inr ⟨ps₁, rfl, htail⟩
    rcases hhere hps with ⟨rfl, rfl, rfl⟩ | ⟨ps₀, rfl, hrest'⟩
    · refine ⟨start, [], m, rfl, rfl, fun h => ⟨rfl, h⟩, ?_⟩
      rwa [hrest.read]
    · obtain ⟨start', ps₀', m', rfl, hold, hstart, hfound⟩ := ih hrest'
      refine ⟨start', m.kept.map Piece.keep ++ Piece.put m.taken :: ps₀', m', ?_, hold, ?_, hfound⟩
      · rw [List.append_assoc, List.cons_append]
      · exact fun h => Bool.noConfusion (hstart h).2

/-- A text in which nothing is taken stays. -/
theorem shown_self (hfind : Lawful find) {new : List A}
    (h : ∀ ps₁ old ps₂, scan find 0 start l ≠ ps₁ ++ Piece.put old :: ps₂) : shown new (scan find 0 start l) = l := by
  have hkeeps (ps : List (Piece A)) (hps : ∀ ps₁ old ps₂, ps ≠ ps₁ ++ Piece.put old :: ps₂) :
      shown new ps = Rewrite.read ps := by
    induction ps with
    | nil => rfl
    | cons p ps ih =>
      have hrest := ih fun ps₁ old ps₂ heq => hps (p :: ps₁) old ps₂ (by rw [heq]; rfl)
      cases p with
      | keep a => exact congrArg (a :: ·) hrest
      | put old => exact absurd rfl (hps [] old ps)
  rw [hkeeps _ h, (scanned hfind start l).read]

end Scan

/-! ## Words that share nothing -/

/-- No end of one is the beginning of the other, and neither lies in the other. -/
structure Apart (w new : List A) : Prop where
  after : ∀ s, s ≠ [] → s <:+ w → ¬s <+: new ∧ ¬new <+: s
  before : ∀ s, s ≠ [] → s <:+ new → ¬s <+: w ∧ ¬w <+: s

section Words

variable {w new u v : List A} {ps ps₁ ps₂ : List (Piece A)}

theorem Apart.symm (h : Apart w new) : Apart new w := ⟨h.before, h.after⟩

/-- A word at the beginning of a rewritten text was kept. -/
theorem keeps_start (h : ∀ s, s ≠ [] → s <:+ w → ¬s <+: new ∧ ¬new <+: s) (hps : shown new ps = w ++ v) :
    ∃ ps₃, ps = w.map keep ++ ps₃ ∧ shown new ps₃ = v := by
  induction w generalizing ps with
  | nil => exact ⟨ps, rfl, hps⟩
  | cons a w ih =>
    cases ps with
    | nil => cases hps
    | cons p ps =>
      cases p with
      | keep b =>
        obtain ⟨rfl, hrest⟩ := List.cons.inj hps
        obtain ⟨ps₃, rfl, hv⟩ := ih (fun s hs hsuffix => h s hs (hsuffix.trans (List.suffix_cons _ _))) hrest
        exact ⟨ps₃, rfl, hv⟩
      | put old =>
        have hno := h (a :: w) (List.cons_ne_nil _ _) (List.suffix_refl _)
        have hboth : new ++ shown new ps = (a :: w) ++ v := hps
        rcases List.append_eq_append_iff.1 hboth with ⟨t, ht, -⟩ | ⟨t, ht, -⟩
        · exact absurd ⟨t, ht.symm⟩ hno.2
        · exact absurd ⟨t, ht.symm⟩ hno.1

/-- A word in a rewritten text that shares nothing with the word put in was kept. -/
theorem keeps_of_shown (h : Apart w new) (hps : shown new ps = u ++ w ++ v) (hw : w ≠ []) :
    ∃ ps₁ ps₃, ps = ps₁ ++ w.map keep ++ ps₃ ∧ shown new ps₁ = u ∧ shown new ps₃ = v := by
  induction ps generalizing u with
  | nil =>
    obtain ⟨hu, -⟩ := List.append_eq_nil_iff.1 hps.symm
    exact absurd (List.append_eq_nil_iff.1 hu).2 hw
  | cons p ps ih =>
    cases p with
    | keep a =>
      cases u with
      | nil =>
        obtain ⟨ps₃, heq, hv⟩ := keeps_start h.after (hps.trans (by rw [List.nil_append]))
        exact ⟨[], ps₃, heq, rfl, hv⟩
      | cons b u =>
        obtain ⟨rfl, hrest⟩ := List.cons.inj hps
        obtain ⟨ps₁, ps₃, rfl, rfl, hv⟩ := ih hrest
        exact ⟨keep a :: ps₁, ps₃, rfl, rfl, hv⟩
    | put old =>
      have hboth : new ++ shown new ps = u ++ (w ++ v) := hps.trans (List.append_assoc ..)
      have hlater : ∀ t, u = new ++ t → shown new ps = t ++ (w ++ v) →
          ∃ ps₁ ps₃, put old :: ps = ps₁ ++ w.map keep ++ ps₃ ∧ shown new ps₁ = u ∧ shown new ps₃ = v := by
        rintro t rfl hrest
        obtain ⟨ps₁, ps₃, rfl, rfl, hv⟩ := ih (hrest.trans (List.append_assoc ..).symm)
        exact ⟨put old :: ps₁, ps₃, rfl, rfl, hv⟩
      rcases List.append_eq_append_iff.1 hboth with ⟨t, hu, hrest⟩ | ⟨t, hnew, hrest⟩
      · exact hlater t hu hrest
      · by_cases ht : t = []
        · subst ht
          refine hlater [] ?_ ?_
          · rw [hnew, List.append_nil, List.append_nil]
          · rw [List.nil_append, hrest, List.nil_append]
        · have hno := h.before t ht ⟨u, hnew.symm⟩
          rcases List.append_eq_append_iff.1 hrest with ⟨s, hs, -⟩ | ⟨s, hs, -⟩
          · exact absurd ⟨s, hs.symm⟩ hno.2
          · exact absurd ⟨s, hs.symm⟩ hno.1

end Words

/-! ## One rewriting after another -/

/-- A piece of a text rewritten twice: kept, or taken by the first rewriting or the second. -/
inductive Twice (A : Type) where
  | keep (a : A)
  | first (old : List A)
  | second (old : List A)

def Twice.read : Twice A → List A
  | keep a => [a]
  | first old | second old => old

def Twice.shown (new : List A) : Twice A → List A
  | keep a => [a]
  | first _ | second _ => new

/-- What the first rewriting makes of it. -/
def Twice.one : Twice A → List (Piece A)
  | keep a => [.keep a]
  | first old => [.put old]
  | second old => old.map .keep

/-- What the second does. -/
def Twice.two (new : List A) : Twice A → List (Piece A)
  | keep a => [.keep a]
  | first _ => new.map .keep
  | second old => [.put old]

section Twice

variable {w new : List A} {ps ps₁ ps₂ : List (Piece A)}

theorem read_one (ts : List (Twice A)) : read (ts.flatMap Twice.one) = ts.flatMap Twice.read := by
  induction ts with
  | nil => rfl
  | cons t ts ih =>
    rw [List.flatMap_cons, List.flatMap_cons, read_append, ih]
    cases t with
    | second old => rw [Twice.one, read_keeps]; rfl
    | _ => simp [Twice.one, Twice.read, read, Piece.read]

theorem shown_two (ts : List (Twice A)) : shown new (ts.flatMap (Twice.two new)) = ts.flatMap (Twice.shown new) := by
  induction ts with
  | nil => rfl
  | cons t ts ih =>
    rw [List.flatMap_cons, List.flatMap_cons, shown_append, ih]
    cases t with
    | first old => rw [Twice.two, shown_keeps]; rfl
    | _ => simp [Twice.two, Twice.shown, shown, Piece.shown]

/-- A text whose second rewriting takes only one word, apart from what the first put in, is rewritten in one go. -/
theorem merged (h : Apart w new) (hw : w ≠ []) (hall : ∀ p ∈ ps₂, p.read = p.shown w) (hboth : shown new ps₁ = read ps₂) :
    ∃ ts : List (Twice A), ps₁ = ts.flatMap Twice.one ∧ ps₂ = ts.flatMap (Twice.two new) := by
  have hread : ∀ ps : List (Piece A), (∀ p ∈ ps, p.read = p.shown w) → read ps = shown w ps := by
    intro ps hps
    exact List.flatMap_congr hps
  induction hlength : ps₁.length using Nat.strongRecOn generalizing ps₁ ps₂ with
  | ind n ih =>
    subst hlength
    cases ps₁ with
    | nil =>
      cases ps₂ with
      | nil => exact ⟨[], rfl, rfl⟩
      | cons p ps₂ =>
        have hp := hall p List.mem_cons_self
        rw [hread _ hall] at hboth
        cases p with
        | keep a => cases hboth
        | put old =>
          obtain ⟨hnil, -⟩ := List.append_eq_nil_iff.1 hboth.symm
          exact absurd hnil hw
    | cons q ps₁ =>
      cases q with
      | keep a =>
        cases ps₂ with
        | nil => cases hboth
        | cons p ps₂ =>
          have hrest : ∀ p ∈ ps₂, p.read = p.shown w := fun p hp => hall p (List.mem_cons_of_mem _ hp)
          cases p with
          | keep b =>
            obtain ⟨rfl, htail⟩ := List.cons.inj hboth
            obtain ⟨ts, rfl, rfl⟩ := ih ps₁.length (Nat.lt_succ_self _) hrest htail rfl
            exact ⟨.keep a :: ts, rfl, rfl⟩
          | put old =>
            have hold : old = w := hall (put old) List.mem_cons_self
            subst hold
            obtain ⟨ps₃, hps, htail⟩ := keeps_start h.after (hboth : shown new _ = old ++ read ps₂)
            have hless : ps₃.length < (keep a :: ps₁).length := by
              have hpos := List.length_pos_iff.2 hw
              rw [hps, List.length_append, List.length_map]
              omega
            obtain ⟨ts, rfl, rfl⟩ := ih ps₃.length hless hrest htail rfl
            exact ⟨.second old :: ts, hps, rfl⟩
      | put old =>
        have hstart : shown w ps₂ = new ++ shown new ps₁ := by
          rw [← hread _ hall, ← hboth]
          rfl
        obtain ⟨ps₃, rfl, htail⟩ := keeps_start h.symm.after hstart
        have hrest : ∀ p ∈ ps₃, p.read = p.shown w := fun p hp => hall p (List.mem_append_right _ hp)
        rw [← hread _ hrest] at htail
        obtain ⟨ts, rfl, rfl⟩ := ih ps₁.length (Nat.lt_succ_self _) hrest htail.symm rfl
        exact ⟨.first old :: ts, rfl, rfl⟩

end Twice

end Rewrite
