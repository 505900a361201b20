import Mathlib.Data.List.Basic

/-!
# Antiproton.Lib.Windows

A search of a list, left to right, for four good elements in a row, in which a match shares none with the match before it.

* `scan_iff`: it looks at exactly those fours before which the good elements in a row come to a multiple of four.
-/

namespace Windows

variable {A : Type} (good : A → Bool) (hit : A → A → A → A → Bool)

def scan : List A → Bool
  | a :: b :: c :: d :: rest =>
    if good a && good b && good c && good d then hit a b c d || scan rest else scan (b :: c :: d :: rest)
  | _ => false

/-- How many good elements in a row a list ends with, where `n` stand before it. -/
def run (n : Nat) : List A → Nat
  | [] => n
  | a :: rest => run (if good a then n + 1 else 0) rest

/-- Four good elements in a row that are a hit, and what comes before them. -/
def Hit (l before : List A) : Prop :=
  ∃ a b c d after, l = before ++ a :: b :: c :: d :: after ∧ (good a && good b && good c && good d) = true ∧
    hit a b c d = true

variable {good hit} {a b c d : A} {l before rest : List A} {n m : Nat}

/-- What stands before an element that is not good does not count. -/
theorem run_of_bad (h : before.all good = false) : run good n before = run good m before := by
  induction before generalizing n m with
  | nil => cases h
  | cons a rest ih =>
    rw [run, run]
    cases ha : good a with
    | true =>
      rw [List.all_cons, ha, Bool.true_and] at h
      exact ih h
    | false => rfl

theorem hit_cons (h : Hit good hit l before) (a : A) : Hit good hit (a :: l) (a :: before) := by
  obtain ⟨p, q, r, s, after, rfl, hgood, hhit⟩ := h
  exact ⟨p, q, r, s, after, rfl, hgood, hhit⟩

theorem hit_tail (h : Hit good hit (a :: l) (b :: before)) : a = b ∧ Hit good hit l before := by
  obtain ⟨p, q, r, s, after, hl, hgood, hhit⟩ := h
  obtain ⟨hab, hl⟩ := List.cons.inj hl
  exact ⟨hab, p, q, r, s, after, hl, hgood, hhit⟩

/-- A hit with nothing but good elements before it starts with four of them. -/
theorem hit_start (h : Hit good hit (a :: b :: c :: d :: rest) before) (hall : before.all good = true) :
    (good a && good b && good c && good d) = true := by
  obtain ⟨p, q, r, s, after, hl, hgood, -⟩ := h
  have htake : (a :: b :: c :: d :: rest).take (before.length + 4) = before ++ [p, q, r, s] := by
    rw [hl, List.take_length_add_append]
    rfl
  have hstart : ∀ x ∈ (a :: b :: c :: d :: rest).take (before.length + 4), good x = true := by
    intro x hx
    rw [htake] at hx
    rcases List.mem_append.1 hx with hx | hx
    · exact List.all_eq_true.1 hall x hx
    · simp only [Bool.and_eq_true] at hgood
      simp only [List.mem_cons, List.not_mem_nil, or_false] at hx
      rcases hx with rfl | rfl | rfl | rfl
      · exact hgood.1.1.1
      · exact hgood.1.1.2
      · exact hgood.1.2
      · exact hgood.2
  simp only [List.take_succ_cons] at hstart
  simp only [Bool.and_eq_true]
  exact ⟨⟨⟨hstart a (by simp), hstart b (by simp)⟩, hstart c (by simp)⟩, hstart d (by simp)⟩

/-- Where the first four are not all good, leaving the first changes nothing. -/
theorem run_leave (h : Hit good hit (b :: c :: d :: rest) before)
    (hbad : (good a && good b && good c && good d) = false) : run good n (a :: before) = run good 0 before := by
  cases hall : before.all good with
  | false => exact run_of_bad hall
  | true =>
    cases ha : good a with
    | false =>
      rw [run, ha]
      rfl
    | true =>
      have hstart := hit_start (hit_cons h a) (by rw [List.all_cons, ha, hall]; rfl)
      rw [hbad] at hstart
      cases hstart

theorem scan_from (l : List A) : ∀ n, n % 4 = 0 →
    (scan good hit l = true ↔ ∃ before, Hit good hit l before ∧ run good n before % 4 = 0) := by
  induction l using scan.induct good with
  | case1 a b c d rest hgood ih =>
    intro n hn
    rw [scan, if_pos hgood, Bool.or_eq_true]
    have hall := hgood
    simp only [Bool.and_eq_true] at hall
    obtain ⟨⟨⟨ha, hb⟩, hc⟩, hd⟩ := hall
    constructor
    · rintro (hhit | hrest)
      · exact ⟨[], ⟨a, b, c, d, rest, rfl, hgood, hhit⟩, hn⟩
      · obtain ⟨before, h, hrun⟩ := (ih (n + 4) (by omega)).1 hrest
        refine ⟨a :: b :: c :: d :: before, hit_cons (hit_cons (hit_cons (hit_cons h d) c) b) a, ?_⟩
        simp only [run, ha, hb, hc, hd, if_true]
        exact hrun
    · rintro ⟨before, h, hrun⟩
      cases before with
      | nil =>
        obtain ⟨p, q, r, s, after, hl, -, hhit⟩ := h
        cases hl
        exact .inl hhit
      | cons x before =>
        obtain ⟨rfl, h₁⟩ := hit_tail h
        cases before with
        | nil =>
          simp only [run, ha, if_true] at hrun
          omega
        | cons y before =>
          obtain ⟨rfl, h₂⟩ := hit_tail h₁
          cases before with
          | nil =>
            simp only [run, ha, hb, if_true] at hrun
            omega
          | cons z before =>
            obtain ⟨rfl, h₃⟩ := hit_tail h₂
            cases before with
            | nil =>
              simp only [run, ha, hb, hc, if_true] at hrun
              omega
            | cons w before =>
              obtain ⟨rfl, h₄⟩ := hit_tail h₃
              refine .inr ((ih (n + 4) (by omega)).2 ⟨before, h₄, ?_⟩)
              simp only [run, ha, hb, hc, hd, if_true] at hrun
              exact hrun
  | case2 a b c d rest hbad ih =>
    intro n hn
    have hbad := Bool.eq_false_iff.2 hbad
    rw [scan, hbad, if_neg Bool.false_ne_true, ih 0 rfl]
    constructor
    · rintro ⟨before, h, hrun⟩
      exact ⟨a :: before, hit_cons h a, by rw [run_leave h hbad]; exact hrun⟩
    · rintro ⟨before, h, hrun⟩
      cases before with
      | nil =>
        rw [hit_start h rfl] at hbad
        cases hbad
      | cons x before =>
        obtain ⟨rfl, h'⟩ := hit_tail h
        exact ⟨before, h', by rw [← run_leave h' hbad]; exact hrun⟩
  | case3 l hshort =>
    intro n hn
    have hno : scan good hit l = false := by
      unfold scan
      split
      · exact absurd rfl (hshort _ _ _ _ _)
      · rfl
    rw [hno]
    refine iff_of_false Bool.false_ne_true ?_
    rintro ⟨before, ⟨p, q, r, s, after, hl, -, -⟩, -⟩
    -- four elements are not short of four
    rcases before with - | ⟨x, - | ⟨y, - | ⟨z, - | ⟨w, before⟩⟩⟩⟩
    all_goals exact hshort _ _ _ _ _ hl

/-- The search looks at exactly the fours before which the good elements in a row come to a multiple of four. -/
theorem scan_iff : scan good hit l = true ↔ ∃ before, Hit good hit l before ∧ run good 0 before % 4 = 0 :=
  scan_from l 0 rfl

end Windows
