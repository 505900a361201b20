import Antiproton.Core.Js
import Antiproton.Document.Lines

/-!
# Antiproton.Prompt.Fences

Code fences around a text that is shown in a prompt (`src/plugins/state.ts`, `fenceFor`, `unfencedLines`), and the lines of
the prompt that stand outside them.

* `splitLines_end`: the lines of two texts with a line end between them.
* `run_le`: no line of a text is a longer run of backticks than the text's longest.
* `fenced_unread`: what a reader takes from a prompt with a fenced text in it is what it takes from the rest of it, unless a
  line end beside the fences becomes part of another one.
-/

namespace Antiproton.Fences

open Js Document

/-- The backtick. -/
def tick : UInt16 := 0x60

/-- `text.split(/\r\n|\r|\n/)`. -/
def splitLines : Str → List Str
  | [] => [[]]
  | u :: rest =>
    if u = cr then
      match rest with
      | v :: rest' => if v = lf then [] :: splitLines rest' else [] :: splitLines (v :: rest')
      | [] => [[], []]
    else if u = lf then [] :: splitLines rest
    else
      match splitLines rest with
      | line :: lines => (u :: line) :: lines
      | [] => [[u]]

/-- The runs of backticks in a text, each as long as it goes. -/
def tickRuns : Str → List Str
  | [] => []
  | u :: rest =>
    if u = tick then
      match rest.head? == some tick, tickRuns rest with
      | true, run :: runs => (u :: run) :: runs
      | _, runs => [u] :: runs
    else tickRuns rest

/-- `Math.max(0, …)` of the runs' lengths. -/
def longest (text : Str) : Nat := ((tickRuns text).map List.length).foldr max 0

def fenceFor (text : Str) : Str := List.replicate (max 3 (longest text + 1)) tick

/-- A line of backticks and nothing else. -/
def allTicks (line : Str) : Bool := line != [] && line.all (· == tick)

/-- The run of backticks a line begins with. -/
def leading (line : Str) : Nat := (line.takeWhile (· == tick)).length

/-- The fence that is open, 0 for none, and the lines taken. -/
structure Reading where
  opened : Nat
  out : List Str
deriving DecidableEq, Repr

def readLine (s : Reading) (line : Str) : Reading :=
  if s.opened ≠ 0 then
    if allTicks line && s.opened < (fenceFor line).length then { s with opened := 0 } else s
  else if (fenceFor []).length ≤ leading line then { s with opened := leading line }
  else { s with out := s.out ++ [line] }

def readLines (s : Reading) (lines : List Str) : Reading := lines.foldl readLine s

def unfencedLines (text : Str) : List Str := (readLines ⟨0, []⟩ (splitLines text)).out

/-! ## Lines -/

/-- A line end. -/
inductive Eol where
  | lf
  | crlf
  | cr
deriving DecidableEq, Repr

def Eol.text : Eol → Str
  | .lf => [Antiproton.lf]
  | .crlf => [Antiproton.cr, Antiproton.lf]
  | .cr => [Antiproton.cr]

section Lines

variable {a b c f t : Str} {u : UInt16} {e e' : Eol}

theorem splitLines_crlf (s : Str) : splitLines (cr :: lf :: s) = [] :: splitLines s := by
  rw [splitLines, if_pos rfl, if_pos rfl]

example : splitLines (js "a\r\nb") = [js "a", js "b"] := by decide +kernel

theorem splitLines_cr {s : Str} (h : s.head? ≠ some lf) : splitLines (cr :: s) = [] :: splitLines s := by
  cases s with
  | nil => rfl
  | cons v s =>
    have hv : v ≠ lf := fun hv => h (congrArg some hv)
    rw [splitLines, if_pos rfl, if_neg hv]

theorem splitLines_lf (s : Str) : splitLines (lf :: s) = [] :: splitLines s := by
  have hne : lf ≠ cr := by decide
  cases s with
  | nil => rfl
  | cons v s => rw [splitLines, if_neg hne, if_pos rfl]

/-- A unit that ends no line. -/
theorem splitLines_unit {line : Str} {lines : List Str} (hcr : u ≠ cr) (hlf : u ≠ lf) (h : splitLines t = line :: lines) :
    splitLines (u :: t) = (u :: line) :: lines := by
  cases t <;> rw [splitLines, if_neg hcr, if_neg hlf, h]

/-- The first line begins the text, and every other lies in it. -/
theorem splitLines_infix (s : Str) : ∃ line lines, splitLines s = line :: lines ∧ line <+: s ∧ ∀ l ∈ lines, l <:+: s := by
  have hdrop : ∀ {s w : Str}, (∃ line lines, splitLines s = line :: lines ∧ line <+: s ∧ ∀ l ∈ lines, l <:+: s) →
      ∀ l ∈ splitLines s, l <:+: w ++ s := by
    rintro s w ⟨line, lines, hlines, hfirst, hmore⟩ l hl
    rw [hlines] at hl
    have hin : l <:+: s := by
      rcases List.mem_cons.1 hl with rfl | hl
      · exact hfirst.isInfix
      · exact hmore l hl
    exact hin.trans (List.suffix_append w s).isInfix
  fun_induction splitLines s with
  | case1 => exact ⟨[], [], rfl, List.nil_prefix, fun l hl => absurd hl List.not_mem_nil⟩
  | case2 rest ih => exact ⟨[], _, rfl, List.nil_prefix, hdrop (w := [cr, lf]) ih⟩
  | case3 v rest hv ih => exact ⟨[], _, rfl, List.nil_prefix, hdrop (w := [cr]) ih⟩
  | case4 =>
    refine ⟨[], [[]], rfl, List.nil_prefix, fun l hl => ?_⟩
    rw [List.mem_singleton.1 hl]
    exact List.nil_infix
  | case5 rest hne ih => exact ⟨[], _, rfl, List.nil_prefix, hdrop (w := [lf]) ih⟩
  | case6 u rest hcr hlf line lines hlines ih =>
    obtain ⟨line', lines', heq, hfirst, hmore⟩ := ih
    obtain ⟨rfl, rfl⟩ := List.cons.inj (hlines.symm.trans heq)
    refine ⟨u :: line, lines, rfl, (List.cons_prefix_cons).2 ⟨rfl, hfirst⟩, fun l hl => ?_⟩
    exact (hmore l hl).trans (List.suffix_cons u rest).isInfix
  | case7 u rest hcr hlf hnil ih =>
    obtain ⟨line, lines, heq, -⟩ := ih
    exact absurd (hnil.symm.trans heq) (List.cons_ne_nil _ _).symm

theorem mem_splitLines {s l : Str} (h : l ∈ splitLines s) : l <:+: s := by
  obtain ⟨line, lines, hlines, hfirst, hmore⟩ := splitLines_infix s
  rw [hlines] at h
  rcases List.mem_cons.1 h with rfl | h
  · exact hfirst.isInfix
  · exact hmore l h

/-- A text goes on with a line end that is its own: nothing of it is the end of one begun before. -/
theorem splitLines_append {lines : List Str} (hc : splitLines c = [] :: lines)
    (hno : ¬(a.getLast? = some cr ∧ c.head? = some lf)) : splitLines (a ++ c) = splitLines a ++ lines := by
  have hlast : ∀ {v : UInt16} {s : Str}, ¬((v :: s).getLast? = some cr ∧ c.head? = some lf) →
      ¬(s.getLast? = some cr ∧ c.head? = some lf) := by
    rintro v s hno ⟨hs, hc⟩
    refine hno ⟨?_, hc⟩
    rw [List.getLast?_cons, hs]
    rfl
  fun_induction splitLines a with
  | case1 => exact hc
  | case2 rest ih => exact (splitLines_crlf _).trans (congrArg ([] :: ·) (ih (hlast (hlast hno))))
  | case3 v rest hv ih =>
    have hhead : (v :: rest ++ c).head? ≠ some lf := fun h => hv (Option.some.inj h)
    exact (splitLines_cr hhead).trans (congrArg ([] :: ·) (ih (hlast hno)))
  | case4 =>
    have hhead : c.head? ≠ some lf := fun h => hno ⟨rfl, h⟩
    exact (splitLines_cr hhead).trans (congrArg ([] :: ·) hc)
  | case5 rest hne ih => exact (splitLines_lf _).trans (congrArg ([] :: ·) (ih (hlast hno)))
  | case6 u rest hcr hlf line lines' hlines ih =>
    have hrest := ih (hlast hno)
    rw [hlines] at hrest
    exact splitLines_unit hcr hlf hrest
  | case7 u rest hcr hlf hnil ih =>
    obtain ⟨line, lines, heq, -⟩ := splitLines_infix rest
    exact absurd (hnil.symm.trans heq) (List.cons_ne_nil _ _).symm

/-- A line end that would be the second half of the one a text ends with. -/
def MergesBefore (a : Str) (e : Eol) : Prop := e = .lf ∧ a.getLast? = some cr

/-- A line end whose second half would be what a text begins with. -/
def MergesAfter (e : Eol) (b : Str) : Prop := e = .cr ∧ b.head? = some lf

theorem splitLines_joint (ha : ¬MergesBefore a e) (hb : ¬MergesAfter e b) :
    splitLines (a ++ e.text ++ b) = splitLines a ++ splitLines b := by
  have hcr : cr ≠ lf := by decide
  rw [List.append_assoc]
  cases e with
  | lf => exact splitLines_append (splitLines_lf b) fun h => ha ⟨rfl, h.1⟩
  | crlf => exact splitLines_append (splitLines_crlf b) fun h => hcr (Option.some.inj h.2)
  | cr => exact splitLines_append (splitLines_cr fun h => hb ⟨rfl, h⟩) fun h => hcr (Option.some.inj h.2)

theorem splitLines_end (a : Str) : splitLines (a ++ [cr]) = splitLines a ++ [[]] :=
  splitLines_append (c := [cr]) rfl fun h => absurd h.2 (by decide)

/-- What stands between the fences, from one's line end to the other's: its lines lie in the text. -/
theorem splitLines_between (hf : f.getLast? ≠ some cr) (hc : c.head? ≠ some lf) :
    ∃ inner, splitLines (f ++ e.text ++ (t ++ e'.text ++ c)) = splitLines f ++ inner ++ splitLines c ∧
      ∀ l ∈ inner, l <:+: t := by
  have hcr : cr ≠ lf := by decide
  have hafter : ∀ t : Str, ∃ inner, splitLines (t ++ e'.text ++ c) = inner ++ splitLines c ∧ ∀ l ∈ inner, l <:+: t := by
    intro t
    by_cases hmerge : MergesBefore t e'
    · obtain ⟨rfl, hlast⟩ := hmerge
      obtain ⟨t, rfl⟩ := List.getLast?_eq_some_iff.1 hlast
      refine ⟨splitLines t, ?_, fun l hl => (mem_splitLines hl).trans (List.prefix_append _ _).isInfix⟩
      have hjoint := splitLines_joint (a := t) (e := .crlf) (b := c) (fun h => nomatch h.1) (fun h => nomatch h.1)
      rw [← hjoint]
      simp [Eol.text]
    · exact ⟨splitLines t, splitLines_joint hmerge fun h => hc h.2, fun l hl => mem_splitLines hl⟩
  have hbefore : ¬MergesBefore f e := fun h => hf h.2
  by_cases hmerge : MergesAfter e (t ++ e'.text ++ c)
  · obtain ⟨rfl, hhead⟩ := hmerge
    cases t with
    | nil =>
      have he : e' = .lf := by
        cases e' with
        | lf => rfl
        | crlf => exact absurd (Option.some.inj hhead) hcr
        | cr => exact absurd (Option.some.inj hhead) hcr
      subst he
      refine ⟨[], ?_, fun l hl => absurd hl List.not_mem_nil⟩
      have hjoint := splitLines_joint (a := f) (e := .crlf) (b := c) (fun h => nomatch h.1) (fun h => nomatch h.1)
      rw [List.append_nil, ← hjoint]
      simp [Eol.text]
    | cons v t =>
      cases hhead
      obtain ⟨inner, hinner, hin⟩ := hafter t
      refine ⟨inner, ?_, fun l hl => (hin l hl).trans (List.suffix_cons _ _).isInfix⟩
      have hjoint := splitLines_joint (a := f) (e := .crlf) (b := t ++ e'.text ++ c) (fun h => nomatch h.1)
        (fun h => nomatch h.1)
      rw [List.append_assoc (splitLines f), ← hinner, ← hjoint]
      simp [Eol.text]
  · obtain ⟨inner, hinner, hin⟩ := hafter t
    exact ⟨inner, by rw [splitLines_joint hbefore hmerge, hinner, List.append_assoc], hin⟩

end Lines

/-! ## Runs -/

section Runs

variable {t line : Str} {n : Nat}

/-- The run a text begins with is the first of its runs. -/
theorem tickRuns_head (h : t.head? = some tick) : ∃ runs, tickRuns t = t.takeWhile (· == tick) :: runs := by
  induction t with
  | nil => cases h
  | cons u rest ih =>
    cases h
    rw [tickRuns, if_pos rfl, List.takeWhile_cons_of_pos (p := (· == tick)) (beq_self_eq_true tick)]
    by_cases hrest : rest.head? = some tick
    · obtain ⟨runs, hruns⟩ := ih hrest
      rw [hruns, hrest]
      exact ⟨runs, rfl⟩
    · have hstop : rest.takeWhile (· == tick) = [] := by
        cases rest with
        | nil => rfl
        | cons v rest =>
          refine List.takeWhile_cons_of_neg fun hv => hrest ?_
          rw [beq_iff_eq.1 hv]
          rfl
      rw [beq_eq_false_iff_ne.2 hrest, hstop]
      exact ⟨_, rfl⟩

theorem leading_le (t : Str) : leading t ≤ longest t := by
  by_cases h : t.head? = some tick
  · obtain ⟨runs, hruns⟩ := tickRuns_head h
    rw [longest, hruns, List.map_cons, List.foldr_cons]
    exact Nat.le_max_left _ _
  · cases t with
    | nil => exact Nat.zero_le _
    | cons u rest =>
      have hzero : leading (u :: rest) = 0 := by
        rw [leading, List.takeWhile_cons_of_neg]
        · rfl
        · exact fun hu => h (by rw [beq_iff_eq.1 hu]; rfl)
      rw [hzero]
      exact Nat.zero_le _

/-- A unit before a text starts a run of its own, or makes the first one longer. -/
theorem longest_cons (u : UInt16) (t : Str) : longest t ≤ longest (u :: t) ∧ longest (u :: t) ≤ longest t + 1 := by
  rw [longest, longest, tickRuns]
  split
  · split
    · rename_i run runs hhead hruns
      rw [hruns]
      simp only [List.map_cons, List.foldr_cons, List.length_cons]
      omega
    · simp only [List.map_cons, List.foldr_cons, List.length_cons, List.length_nil]
      omega
  · exact ⟨Nat.le_refl _, Nat.le_succ _⟩

theorem longest_le (t : Str) : longest t ≤ t.length := by
  induction t with
  | nil => exact Nat.le_refl _
  | cons u t ih =>
    have hcons := (longest_cons u t).2
    rw [List.length_cons]
    omega

/-- A run of backticks in a text is no longer than its longest. -/
theorem run_le (h : List.replicate n tick <:+: t) : n ≤ longest t := by
  induction t with
  | nil =>
    have hnil := List.infix_nil.1 h
    rw [List.replicate_eq_nil_iff] at hnil
    omega
  | cons u t ih =>
    rcases List.infix_cons_iff.1 h with ⟨w, hw⟩ | hin
    · refine Nat.le_trans ?_ (leading_le (u :: t))
      rw [← hw, leading, List.takeWhile_append_of_pos]
      · simp
      · intro v hv
        rw [List.eq_of_mem_replicate hv]
        exact beq_self_eq_true tick
    · exact Nat.le_trans (ih hin) (longest_cons u t).1

theorem longest_run (n : Nat) : longest (List.replicate n tick) = n := by
  refine Nat.le_antisymm ?_ (run_le (List.infix_refl _))
  have hlength := longest_le (List.replicate n tick)
  rwa [List.length_replicate] at hlength

/-- A line of backticks is one run. -/
theorem allTicks_iff : allTicks line = true ↔ line ≠ [] ∧ line = List.replicate line.length tick := by
  rw [allTicks, Bool.and_eq_true, bne_iff_ne]
  refine and_congr Iff.rfl ?_
  rw [List.eq_replicate_iff]
  simp

end Runs

/-! ## Fences -/

section Fence

variable {s : Reading} {t line : Str} {xs ys : List Str}

theorem fenceFor_length (t : Str) : (fenceFor t).length = max 3 (longest t + 1) := by rw [fenceFor, List.length_replicate]

theorem readLines_append (s : Reading) (xs ys : List Str) : readLines s (xs ++ ys) = readLines (readLines s xs) ys :=
  List.foldl_append

theorem readLine_inside (h : s.opened ≠ 0) :
    readLine s line = if allTicks line && s.opened < (fenceFor line).length then { s with opened := 0 } else s := if_pos h

theorem readLine_outside (h : s.opened = 0) :
    readLine s line =
      if (fenceFor []).length ≤ leading line then { s with opened := leading line } else { s with out := s.out ++ [line] } :=
  if_neg (not_not_intro h)

/-- A reading that took more before. -/
def Reading.after (s : Reading) (out : List Str) : Reading := { s with out := out ++ s.out }

theorem readLine_after (s : Reading) (out : List Str) (line : Str) :
    readLine (s.after out) line = (readLine s line).after out := by
  by_cases hopen : s.opened ≠ 0
  · have hread := @readLine_inside (s.after out) line hopen
    rw [readLine_inside hopen]
    by_cases hclose : (allTicks line && s.opened < (fenceFor line).length) = true
    · rw [if_pos hclose]
      exact hread.trans (if_pos hclose)
    · rw [if_neg hclose]
      exact hread.trans (if_neg hclose)
  · have hread := @readLine_outside (s.after out) line (not_not.1 hopen)
    rw [readLine_outside (not_not.1 hopen)]
    by_cases hrun : (fenceFor []).length ≤ leading line
    · rw [if_pos hrun]
      exact hread.trans (if_pos hrun)
    · rw [if_neg hrun, hread, if_neg hrun]
      simp only [Reading.after, List.append_assoc]

theorem readLines_after (s : Reading) (out : List Str) (lines : List Str) :
    readLines (s.after out) lines = (readLines s lines).after out := by
  induction lines generalizing s with
  | nil => rfl
  | cons line lines ih =>
    rw [readLines, List.foldl_cons, readLine_after]
    exact ih (readLine s line)

/-- No line of a text closes the fence made for it. -/
theorem inside_stays (h : line <:+: t) (hs : s.opened = (fenceFor t).length) : readLine s line = s := by
  rw [fenceFor_length] at hs
  have hopen : s.opened ≠ 0 := by omega
  rw [readLine_inside hopen]
  refine if_neg fun hclose => ?_
  rw [Bool.and_eq_true, allTicks_iff, decide_eq_true_eq, fenceFor_length] at hclose
  obtain ⟨⟨-, hline⟩, hlong⟩ := hclose
  have hrun := longest_run line.length
  rw [← hline] at hrun
  have hle : line.length ≤ longest t := by
    rw [hline] at h
    exact run_le h
  omega

theorem inside_lines (h : ∀ l ∈ xs, l <:+: t) (hs : s.opened = (fenceFor t).length) : readLines s xs = s := by
  induction xs with
  | nil => rfl
  | cons x xs ih =>
    rw [readLines, List.foldl_cons, inside_stays (h x List.mem_cons_self) hs]
    exact ih fun l hl => h l (List.mem_cons_of_mem _ hl)

theorem fence_opens (hs : s.opened = 0) : readLine s (fenceFor t) = { s with opened := (fenceFor t).length } := by
  have hleading : leading (fenceFor t) = (fenceFor t).length := by
    rw [leading, fenceFor, List.takeWhile_replicate, if_pos (beq_self_eq_true tick)]
  have hlong : (fenceFor []).length ≤ (fenceFor t).length := by
    rw [fenceFor_length, fenceFor_length]
    exact Nat.le_trans (by decide) (Nat.le_max_left _ _)
  rw [readLine_outside hs, hleading, if_pos hlong]

theorem fence_closes (hs : s.opened = (fenceFor t).length) : readLine s (fenceFor t) = { s with opened := 0 } := by
  have hlength := fenceFor_length t
  have hopen : s.opened ≠ 0 := by omega
  have hall : allTicks (fenceFor t) = true := by
    refine allTicks_iff.2 ⟨fun hnil => ?_, ?_⟩
    · rw [hnil, List.length_nil] at hlength
      omega
    · rw [fenceFor, List.length_replicate]
  have hlong : s.opened < (fenceFor (fenceFor t)).length := by
    have hrun := longest_run (fenceFor t).length
    rw [← (allTicks_iff.1 hall).2] at hrun
    rw [fenceFor_length (fenceFor t), hrun]
    omega
  rw [readLine_inside hopen, if_pos (by rw [hall, decide_eq_true hlong]; rfl)]

/-- Lines read where no fence is open: what was taken before, and what is taken of them. -/
theorem readLines_out (hs : s.opened = 0) (lines : List Str) :
    (readLines s lines).out = s.out ++ (readLines ⟨0, []⟩ lines).out := by
  have hafter : s = Reading.after ⟨0, []⟩ s.out := by
    rw [Reading.after, List.append_nil, ← hs]
  have hout := congrArg Reading.out (readLines_after ⟨0, []⟩ s.out lines)
  rwa [← hafter] at hout

/-- The lines of a fenced text, whatever they are of it, leave a reading as it was. -/
theorem fenced_skipped (hs : s.opened = 0) (h : ∀ l ∈ xs, l <:+: t) :
    readLines s (fenceFor t :: xs ++ [fenceFor t]) = s := by
  have hopened : readLines s (fenceFor t :: xs) = { s with opened := (fenceFor t).length } := by
    rw [readLines, List.foldl_cons, fence_opens hs]
    exact inside_lines h rfl
  rw [readLines_append, hopened]
  exact (fence_closes rfl).trans (by rw [← hs])

end Fence

/-! ## A fenced text in a prompt -/

section Prompt

variable {a t b : Str} {e₁ e₂ e₃ e₄ : Eol}

/-- A text fenced on lines of its own, between two others. -/
def fenced (a t b : Str) (e₁ e₂ e₃ e₄ : Eol) : Str :=
  a ++ e₁.text ++ fenceFor t ++ e₂.text ++ t ++ e₃.text ++ fenceFor t ++ e₄.text ++ b

/-- A text whose end is in no fence. -/
def EndsOutside (a : Str) : Prop := (readLines ⟨0, []⟩ (splitLines a)).opened = 0

/-- A line that is empty is taken where no fence is open, and closes none. -/
theorem readLine_nil (s : Reading) : readLine s [] = if s.opened = 0 then { s with out := s.out ++ [[]] } else s := by
  have hopens : ¬(fenceFor []).length ≤ leading [] := by decide
  by_cases hs : s.opened = 0
  · rw [readLine_outside hs, if_neg hopens, if_pos hs]
  · rw [readLine_inside hs, if_neg hs]
    exact if_neg (by simp [allTicks])

theorem fence_ends (t : Str) : (fenceFor t).getLast? ≠ some cr ∧ (fenceFor t).head? ≠ some lf := by
  have hlast : ∀ u ∈ fenceFor t, u = tick := fun u hu => List.eq_of_mem_replicate hu
  have hticks : tick ≠ cr ∧ tick ≠ lf := by decide
  exact ⟨fun h => hticks.1 (hlast cr (List.mem_of_getLast? h)).symm, fun h => hticks.2 (hlast lf (List.mem_of_head? h)).symm⟩

theorem fence_lines (t : Str) : splitLines (fenceFor t) = [fenceFor t] := by
  have hticks : tick ≠ cr ∧ tick ≠ lf := by decide
  have hrun : ∀ n, splitLines (List.replicate n tick) = [List.replicate n tick] := by
    intro n
    induction n with
    | zero => rfl
    | succ n ih => exact splitLines_unit hticks.1 hticks.2 ih
  exact hrun _

/-- The lines before a fence: those of the text, less an empty one that its line end takes over. -/
theorem lines_before {c : Str} (a : Str) (e : Eol) (hc : c.head? ≠ some lf) :
    ∃ lines taken, splitLines (a ++ e.text ++ c) = lines ++ splitLines c ∧ splitLines a = lines ++ taken ∧
      (taken = [] ∧ ¬MergesBefore a e ∨ taken = [[]] ∧ MergesBefore a e) := by
  by_cases hmerge : MergesBefore a e
  · obtain ⟨rfl, hlast⟩ := hmerge
    obtain ⟨a, rfl⟩ := List.getLast?_eq_some_iff.1 hlast
    refine ⟨splitLines a, [[]], ?_, splitLines_end a, .inr ⟨rfl, rfl, hlast⟩⟩
    have hjoint := splitLines_joint (a := a) (e := .crlf) (b := c) (fun h => nomatch h.1) (fun h => nomatch h.1)
    rw [← hjoint]
    simp [Eol.text]
  · exact ⟨splitLines a, [], splitLines_joint hmerge fun h => hc h.2, (List.append_nil _).symm, .inl ⟨rfl, hmerge⟩⟩

/-- The lines after one. -/
theorem lines_after {f : Str} (e : Eol) (b : Str) (hf : f.getLast? ≠ some cr) :
    ∃ taken lines, splitLines (f ++ e.text ++ b) = splitLines f ++ lines ∧ splitLines b = taken ++ lines ∧
      (taken = [] ∧ ¬MergesAfter e b ∨ taken = [[]] ∧ MergesAfter e b) := by
  by_cases hmerge : MergesAfter e b
  · obtain ⟨rfl, hhead⟩ := hmerge
    obtain ⟨b, rfl⟩ := List.head?_eq_some_iff.1 hhead
    refine ⟨[[]], splitLines b, ?_, splitLines_lf b, .inr ⟨rfl, rfl, hhead⟩⟩
    have hjoint := splitLines_joint (a := f) (e := .crlf) (b := b) (fun h => nomatch h.1) (fun h => nomatch h.1)
    rw [← hjoint]
    simp [Eol.text]
  · exact ⟨[], splitLines b, splitLines_joint (fun h => hf h.2) hmerge, rfl, .inl ⟨rfl, hmerge⟩⟩

/-- What is taken of a prompt with a fenced text in it. -/
theorem fenced_unread (h : EndsOutside a) :
    unfencedLines (fenced a t b e₁ e₂ e₃ e₄) = unfencedLines a ++ unfencedLines b ↔
      ¬MergesBefore a e₁ ∧ ¬MergesAfter e₄ b := by
  obtain ⟨taken, after, hclosing, hb, hafter⟩ := lines_after e₄ b (fence_ends t).1
  have hnot : ∀ rest : Str, (fenceFor t ++ rest).head? ≠ some lf := by
    intro rest
    rw [List.head?_append_of_ne_nil _ (fun hnil => by simp [fenceFor] at hnil)]
    exact (fence_ends t).2
  have hclosed : (fenceFor t ++ e₄.text ++ b).head? ≠ some lf := by
    rw [List.append_assoc]
    exact hnot _
  obtain ⟨inner, hinner, hin⟩ : ∃ inner, splitLines (fenceFor t ++ e₂.text ++ (t ++ e₃.text ++ (fenceFor t ++ e₄.text ++ b))) =
      splitLines (fenceFor t) ++ inner ++ splitLines (fenceFor t ++ e₄.text ++ b) ∧ ∀ l ∈ inner, l <:+: t :=
    splitLines_between (fence_ends t).1 hclosed
  obtain ⟨before, lost, hopening, ha, hbefore⟩ := lines_before a e₁
    (hnot (e₂.text ++ (t ++ e₃.text ++ (fenceFor t ++ e₄.text ++ b))))
  have hlines : splitLines (fenced a t b e₁ e₂ e₃ e₄) = before ++ ((fenceFor t :: inner ++ [fenceFor t]) ++ after) := by
    have htext : fenced a t b e₁ e₂ e₃ e₄ =
        a ++ e₁.text ++ (fenceFor t ++ (e₂.text ++ (t ++ e₃.text ++ (fenceFor t ++ e₄.text ++ b)))) := by
      simp only [fenced, List.append_assoc]
    rw [htext, hopening, ← List.append_assoc (fenceFor t), hinner, hclosing, fence_lines]
    simp only [List.append_assoc, List.cons_append, List.nil_append]
  -- What is read before the fences, and after them.
  have hopened : (readLines ⟨0, []⟩ before).opened = 0 := by
    rw [EndsOutside, ha, readLines_append] at h
    rcases hbefore with ⟨rfl, -⟩ | ⟨rfl, -⟩
    · exact h
    · rw [readLines, List.foldl_cons, readLine_nil] at h
      by_contra hne
      rw [if_neg hne] at h
      exact hne h
  have hread : unfencedLines (fenced a t b e₁ e₂ e₃ e₄) =
      (readLines ⟨0, []⟩ before).out ++ (readLines ⟨0, []⟩ after).out := by
    rw [unfencedLines, hlines, readLines_append, readLines_append, fenced_skipped hopened hin, readLines_out hopened]
  have hfirst : unfencedLines a = (readLines ⟨0, []⟩ before).out ++ lost := by
    rw [unfencedLines, ha, readLines_append, readLines_out hopened]
    rcases hbefore with ⟨rfl, -⟩ | ⟨rfl, -⟩ <;> rfl
  have hlast : unfencedLines b = taken ++ (readLines ⟨0, []⟩ after).out := by
    rw [unfencedLines, hb, readLines_append]
    rcases hafter with ⟨rfl, -⟩ | ⟨rfl, -⟩
    · rfl
    · exact readLines_out rfl after
  rw [hread, hfirst, hlast]
  constructor
  · intro heq
    have hlength := congrArg List.length heq
    simp only [List.length_append] at hlength
    rcases hbefore with ⟨-, hno⟩ | ⟨rfl, -⟩
    · rcases hafter with ⟨-, hno'⟩ | ⟨rfl, -⟩
      · exact ⟨hno, hno'⟩
      · simp only [List.length_singleton] at hlength
        omega
    · simp only [List.length_singleton] at hlength
      omega
  · rintro ⟨hno, hno'⟩
    rw [(hbefore.resolve_right fun h => hno h.2).1, (hafter.resolve_right fun h => hno' h.2).1, List.append_nil]
    rfl

end Prompt

end Antiproton.Fences
