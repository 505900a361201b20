import Mathlib.Data.List.Basic

/-!
# Antiproton.Lib.Runs

A list cut at the runs of its marked positions, each run replaced by one marker.

* `Cut`: the cut, its runs as long as they can be.
* `infix_of_apart`: what shares nothing with a separator, and lies in what the separator separates, lies on one side.
* `Cut.infix_replace`: what shares nothing with the marker, and lies in the list with its runs replaced, lies in the list
  too, from an unmarked position on.
-/

namespace Runs

variable {α : Type}

/-- The runs from a position on, each with the stretch after it: runs marked, stretches not, and none between them empty. -/
def Cuts (marked : Nat → Prop) : Nat → List (List α × List α) → Prop
  | _, [] => True
  | n, (run, stretch) :: parts =>
    run ≠ [] ∧ (∀ i, n ≤ i → i < n + run.length → marked i) ∧
      (∀ i, n + run.length ≤ i → i < n + run.length + stretch.length → ¬marked i) ∧ (parts ≠ [] → stretch ≠ []) ∧
        Cuts marked (n + run.length + stretch.length) parts

/-- A list as its unmarked beginning and its marked runs, each with the unmarked stretch after it. -/
structure Cut (marked : Nat → Prop) (l : List α) where
  first : List α
  parts : List (List α × List α)
  whole : l = first ++ parts.flatMap fun p => p.1 ++ p.2
  clear : ∀ i, i < first.length → ¬marked i
  cuts : Cuts marked first.length parts

/-- The list with one marker for each run. -/
def Cut.replace {marked : Nat → Prop} {l : List α} (marker : List α) (c : Cut marked l) : List α :=
  c.first ++ c.parts.flatMap fun p => marker ++ p.2

/-- The same, where the list goes on from a marked position. -/
def Cut.resume {marked : Nat → Prop} {l : List α} (marker : List α) (c : Cut marked l) : List α :=
  match c.first, c.parts with
  | [], p :: parts => p.2 ++ parts.flatMap fun p => marker ++ p.2
  | _, _ => c.replace marker

section Making

variable {marked : Nat → Prop} {l : List α}

theorem cuts_shift {n : Nat} {parts : List (List α × List α)} (h : Cuts (fun i => marked (i + 1)) n parts) :
    Cuts marked (n + 1) parts := by
  induction parts generalizing n with
  | nil => trivial
  | cons p parts ih =>
    obtain ⟨hne, hrun, hstretch, hgap, hrest⟩ := h
    refine ⟨hne, ?_, ?_, hgap, ?_⟩
    · intro i hi hlt
      have h : marked (i - 1 + 1) := hrun (i - 1) (by omega) (by omega)
      rwa [show i - 1 + 1 = i by omega] at h
    · intro i hi hlt
      have h : ¬marked (i - 1 + 1) := hstretch (i - 1) (by omega) (by omega)
      rwa [show i - 1 + 1 = i by omega] at h
    · have h := ih hrest
      rwa [show n + p.1.length + p.2.length + 1 = n + 1 + p.1.length + p.2.length by omega] at h

/-- A cut list after an unmarked element. -/
theorem cut_unmarked (marker : List α) (u : α) (hu : ¬marked 0) (c : Cut (fun i => marked (i + 1)) l) :
    ∃ d : Cut marked (u :: l), d.replace marker = u :: c.replace marker ∧ d.resume marker = u :: c.replace marker := by
  refine ⟨⟨u :: c.first, c.parts, ?_, ?_, cuts_shift c.cuts⟩, rfl, rfl⟩
  · rw [List.cons_append]
    exact congrArg (u :: ·) c.whole
  · intro i hi
    cases i with
    | zero => exact hu
    | succ i => exact c.clear i (Nat.lt_of_succ_lt_succ hi)

/-- A cut list after a marked element: its first run is longer by one, or begins there. -/
theorem cut_marked (marker : List α) (u : α) (hu : marked 0) (c : Cut (fun i => marked (i + 1)) l) :
    ∃ d : Cut marked (u :: l), d.replace marker = marker ++ c.resume marker ∧ d.resume marker = c.resume marker := by
  obtain ⟨first, parts, hwhole, hclear, hcuts⟩ := c
  have hnew : (parts ≠ [] → first ≠ []) → ∃ d : Cut marked (u :: l),
      d.replace marker = marker ++ (first ++ parts.flatMap fun p => marker ++ p.2) ∧
        d.resume marker = first ++ parts.flatMap fun p => marker ++ p.2 := by
    intro hgap
    refine ⟨⟨[], ([u], first) :: parts, ?_, fun i hi => absurd hi (Nat.not_lt_zero i), ?_⟩, ?_, rfl⟩
    · rw [hwhole]
      rfl
    · refine ⟨List.cons_ne_nil _ _, ?_, ?_, hgap, ?_⟩
      · intro i _ hi
        have hi0 : i = 0 := by
          simp only [List.length_nil, List.length_singleton] at hi
          omega
        subst hi0
        exact hu
      · intro i hi hlt
        simp only [List.length_nil, List.length_singleton, Nat.zero_add] at hi hlt
        have h := hclear (i - 1) (by omega)
        rwa [show i - 1 + 1 = i by omega] at h
      · have h := cuts_shift hcuts
        rwa [List.length_nil, List.length_singleton, Nat.zero_add, Nat.add_comm 1]
    · change [] ++ (marker ++ first ++ _) = _
      rw [List.nil_append, List.append_assoc]
      rfl
  cases first with
  | cons v first => exact hnew fun _ => List.cons_ne_nil _ _
  | nil =>
    cases parts with
    | nil => exact hnew fun h => absurd rfl h
    | cons p parts =>
      obtain ⟨run, stretch⟩ := p
      have hlonger := cuts_shift hcuts
      obtain ⟨hne, hrun, hstretch, hgap, hrest⟩ := hlonger
      refine ⟨⟨[], (u :: run, stretch) :: parts, ?_, fun i hi => absurd hi (Nat.not_lt_zero i), ?_⟩, ?_, rfl⟩
      · rw [hwhole]
        rfl
      · have hlen : ([] : List α).length + (u :: run).length = ([] : List α).length + 1 + run.length := by
          simp only [List.length_nil, List.length_cons]
          omega
        refine ⟨List.cons_ne_nil _ _, ?_, ?_, hgap, ?_⟩
        · intro i _ hi
          cases i with
          | zero => exact hu
          | succ i => exact hrun (i + 1) (by simp) (by omega)
        · intro i hi hlt
          exact hstretch i (by omega) (by omega)
        · rw [hlen]
          exact hrest
      · change [] ++ (marker ++ stretch ++ _) = marker ++ (stretch ++ _)
        rw [List.nil_append, List.append_assoc]
        rfl

theorem cut_nil (marker : List α) : ∃ d : Cut marked ([] : List α), d.replace marker = [] ∧ d.resume marker = [] :=
  ⟨⟨[], [], rfl, fun i hi => absurd hi (Nat.not_lt_zero i), trivial⟩, rfl, rfl⟩

end Making

/-! ## What lies between markers -/

theorem infix_of_apart_left {x m b : List α} (hx : x ≠ []) (hm : ∀ u ∈ m, u ∉ x) (h : x <:+: m ++ b) : x <:+: b := by
  rcases List.infix_append_iff.1 h with hin | hin | ⟨t, s, rfl, ht, hs⟩
  · obtain ⟨u, rest, rfl⟩ := List.exists_cons_of_ne_nil hx
    exact absurd List.mem_cons_self (hm u (hin.subset List.mem_cons_self))
  · exact hin
  · cases t with
    | nil => exact hs.isInfix
    | cons u t => exact absurd List.mem_cons_self (hm u (ht.subset List.mem_cons_self))

theorem infix_of_apart {x a m b : List α} (hx : x ≠ []) (hne : m ≠ []) (hm : ∀ u ∈ m, u ∉ x) (h : x <:+: a ++ (m ++ b)) :
    x <:+: a ∨ x <:+: b := by
  rcases List.infix_append_iff.1 h with hin | hin | ⟨t, s, rfl, ht, hs⟩
  · exact .inl hin
  · exact .inr (infix_of_apart_left hx hm hin)
  · obtain ⟨u, m, rfl⟩ := List.exists_cons_of_ne_nil hne
    cases s with
    | nil =>
      rw [List.append_nil]
      exact .inl ht.isInfix
    | cons v s =>
      obtain ⟨rfl, -⟩ := List.cons_prefix_cons.1 hs
      exact absurd (List.mem_append_right t List.mem_cons_self) (hm v List.mem_cons_self)

section Between

variable {marked : Nat → Prop} {x marker : List α}

/-- What lies in an unmarked stretch. -/
theorem infix_stretch (hx : x ≠ []) {done stretch : List α} (more : List α)
    (hclear : ∀ i, done.length ≤ i → i < done.length + stretch.length → ¬marked i) (h : x <:+: stretch) :
    ∃ pre post, done ++ (stretch ++ more) = pre ++ x ++ post ∧ ¬marked pre.length := by
  obtain ⟨s, t, rfl⟩ := h
  have hpos := List.length_pos_iff.2 hx
  refine ⟨done ++ s, t ++ more, by simp only [List.append_assoc], hclear _ ?_ ?_⟩
  · rw [List.length_append]
    omega
  · simp only [List.length_append]
    omega

theorem infix_of_parts (hx : x ≠ []) (hne : marker ≠ []) (hm : ∀ u ∈ marker, u ∉ x) (done : List α) {first : List α}
    {parts : List (List α × List α)} (hclear : ∀ i, done.length ≤ i → i < done.length + first.length → ¬marked i)
    (hcuts : Cuts marked (done.length + first.length) parts) (h : x <:+: first ++ parts.flatMap fun p => marker ++ p.2) :
    ∃ pre post, done ++ (first ++ parts.flatMap fun p => p.1 ++ p.2) = pre ++ x ++ post ∧ ¬marked pre.length := by
  induction parts generalizing done first with
  | nil =>
    rw [List.flatMap_nil, List.append_nil] at h
    exact infix_stretch hx _ hclear h
  | cons p parts ih =>
    obtain ⟨run, stretch⟩ := p
    obtain ⟨-, -, hstretch, -, hrest⟩ := hcuts
    rw [List.flatMap_cons, List.append_assoc] at h
    rcases infix_of_apart hx hne hm h with hin | hin
    · exact infix_stretch hx _ hclear hin
    · have hlen : (done ++ first ++ run).length = done.length + first.length + run.length := by
        simp only [List.length_append]
      rw [← hlen] at hstretch hrest
      obtain ⟨pre, post, heq, hnot⟩ := ih _ hstretch hrest hin
      refine ⟨pre, post, ?_, hnot⟩
      rw [← heq, List.flatMap_cons]
      simp only [List.append_assoc]

theorem Cut.infix_replace {l : List α} (hx : x ≠ []) (hne : marker ≠ []) (hm : ∀ u ∈ marker, u ∉ x) (c : Cut marked l)
    (h : x <:+: c.replace marker) : ∃ pre post, l = pre ++ x ++ post ∧ ¬marked pre.length := by
  obtain ⟨pre, post, heq, hnot⟩ := infix_of_parts hx hne hm []
    (fun i _ hi => c.clear i (by simpa using hi)) (by simpa using c.cuts) h
  exact ⟨pre, post, c.whole.trans heq, hnot⟩

end Between

end Runs
