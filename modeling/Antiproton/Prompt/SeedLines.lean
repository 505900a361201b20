import Antiproton.Prompt.Fences

/-!
# Antiproton.Prompt.SeedLines

The line a prompt gives each file its setup put in the workspace (`src/plugins/state.ts`, `seedLine`), and the pattern it is
recognised by (`isSeedLine`), made of what writes it.

* `rests_iff`: what a pattern leaves of a line is what stands after something it stands for.
* `isSeedLine_iff`: a line is recognised for a path exactly when it begins as one written for it.
* `seedLine_recognised`: the line written for one path is recognised for that path alone.
-/

namespace Antiproton.SeedLines

open Js

/-! ## The line -/

def SEEDED_MEMORY : Str := js "MEMORY.md"

/-- `SEED_SIZES`: what is said of a number written as digits, or of none. -/
def nowSize (n : Str) : Str := n ++ js " bytes"
def setupSize (n : Str) : Str := n ++ js " bytes at setup, kept in object storage"
def removedSize (_ : Str) : Str := js "removed"

def SEED_SIZES : List (Str → Str) := [nowSize, setupSize, removedSize]

/-- `SEED_MODES`. -/
def SEED_MODES : List Str := [js "writable", js "readonly"]

def seedLine (path size mode : Str) : Str :=
  (if path = SEEDED_MEMORY then js "## " else js "- ") ++ js "`" ++ path ++ js "` (" ++ size ++ js ", " ++ mode ++ js ")"

/-- What a path begins with, and what it goes on with. -/
def isAlnum (u : UInt16) : Bool := (0x41 ≤ u && u ≤ 0x5A) || (0x61 ≤ u && u ≤ 0x7A) || (0x30 ≤ u && u ≤ 0x39)
def isPathUnit (u : UInt16) : Bool := isAlnum u || u == unit '.' || u == unit '_' || u == unit '/' || u == unit '-'

/-- `STATE_KEY`. -/
def stateKey (path : Str) : Bool :=
  match path with
  | u :: rest => isAlnum u && rest.all isPathUnit && rest.length ≤ 127
  | [] => false

/-! ## The pattern -/

/-- A piece of a pattern: a unit, `\d+`, or one of several ways to go on. -/
inductive Part where
  | unit (u : UInt16)
  | digits
deriving DecidableEq, Repr

inductive Item where
  | part (x : Part)
  | group (ways : List (List Part))
deriving DecidableEq, Repr

/-- `\d`. -/
def isDigit (u : UInt16) : Bool := 0x30 ≤ u && u ≤ 0x39

/-- What is left after one digit or more, for each number of them. -/
def digitRests : Str → List Str
  | [] => []
  | u :: rest => if isDigit u then rest :: digitRests rest else []

def Part.rests : Part → Str → List Str
  | .unit u, v :: rest => if u = v then [rest] else []
  | .unit _, [] => []
  | .digits, l => digitRests l

/-- What is left after one thing and then the others, every way. -/
def inTurn {X : Type} (one : X → Str → List Str) : List X → Str → List Str
  | [], l => [l]
  | x :: xs, l => (one x l).flatMap (inTurn one xs)

def Item.rests : Item → Str → List Str
  | .part x, l => x.rests l
  | .group ways, l => ways.flatMap fun way => inTurn Part.rests way l

/-- What a pattern leaves of a line it matches the beginning of, every way. -/
def rests (items : List Item) (l : Str) : List Str := inTurn Item.rests items l

/-- `text.replace(old, new)` of a text that is found as it is written. -/
def replaceFirst {A : Type} [DecidableEq A] (old new : List A) : List A → List A
  | [] => if old = [] then new else []
  | x :: l => if old <+: x :: l then new ++ (x :: l).drop old.length else x :: replaceFirst old new l

/-- The placeholders. -/
def SIZE : Str := 0 :: js "size" ++ [0]
def MODE : Str := 0 :: js "mode" ++ [0]
def N : Str := 0 :: js "n" ++ [0]

/-- `escapeRe`: a text as a pattern of itself. -/
def escapeRe (text : Str) : List Part := text.map .unit

def sizes : List (List Part) := SEED_SIZES.map fun f => replaceFirst (escapeRe N) [.digits] (escapeRe (f N))

def escapedItems (text : Str) : List Item := (escapeRe text).map .part

def pattern (path : Str) : List Item :=
  replaceFirst (escapedItems MODE) [.group (SEED_MODES.map escapeRe)]
    (replaceFirst (escapedItems SIZE) [.group sizes] (escapedItems (seedLine path SIZE MODE)))

def isSeedLine (line path : Str) : Bool := !(rests (pattern path) line).isEmpty

/-! ## What a pattern stands for -/

/-- A number written as digits. -/
def Digits (n : Str) : Prop := n ≠ [] ∧ ∀ u ∈ n, isDigit u = true

def Part.Stands : Part → Str → Prop
  | .unit u, w => w = [u]
  | .digits, w => Digits w

def StandsInTurn {X : Type} (one : X → Str → Prop) : List X → Str → Prop
  | [], w => w = []
  | x :: xs, w => ∃ w₁ w₂, one x w₁ ∧ StandsInTurn one xs w₂ ∧ w = w₁ ++ w₂

def Item.Stands : Item → Str → Prop
  | .part x, w => x.Stands w
  | .group ways, w => ∃ way ∈ ways, StandsInTurn Part.Stands way w

def Stands (items : List Item) (w : Str) : Prop := StandsInTurn Item.Stands items w

section Rests

variable {r l : Str}

theorem digitRests_iff : r ∈ digitRests l ↔ ∃ w, Digits w ∧ l = w ++ r := by
  induction l generalizing r with
  | nil =>
    refine ⟨fun h => absurd h List.not_mem_nil, ?_⟩
    rintro ⟨w, hw, hl⟩
    exact absurd (List.append_eq_nil_iff.1 hl.symm).1 hw.1
  | cons u l ih =>
    rw [digitRests]
    constructor
    · intro h
      split at h
      · rename_i hu
        rcases List.mem_cons.1 h with rfl | h
        · exact ⟨[u], ⟨List.cons_ne_nil _ _, fun v hv => by rwa [List.mem_singleton.1 hv]⟩, rfl⟩
        · obtain ⟨w, hw, rfl⟩ := ih.1 h
          refine ⟨u :: w, ⟨List.cons_ne_nil _ _, fun v hv => ?_⟩, rfl⟩
          rcases List.mem_cons.1 hv with rfl | hv
          · exact hu
          · exact hw.2 v hv
      · exact absurd h List.not_mem_nil
    · rintro ⟨w, ⟨hne, hw⟩, hl⟩
      obtain ⟨v, w, rfl⟩ := List.exists_cons_of_ne_nil hne
      obtain ⟨rfl, rfl⟩ := List.cons.inj hl
      rw [if_pos (hw u List.mem_cons_self)]
      by_cases hnil : w = []
      · rw [hnil]
        exact List.mem_cons_self
      · exact List.mem_cons_of_mem _ (ih.2 ⟨w, ⟨hnil, fun v hv => hw v (List.mem_cons_of_mem _ hv)⟩, rfl⟩)

theorem Part.rests_iff (x : Part) (r l : Str) : r ∈ x.rests l ↔ ∃ w, x.Stands w ∧ l = w ++ r := by
  cases x with
  | digits => exact digitRests_iff
  | unit u =>
    constructor
    · intro h
      cases l with
      | nil => exact absurd h List.not_mem_nil
      | cons v l =>
        rw [Part.rests] at h
        split at h
        · rename_i hu
          rw [List.mem_singleton.1 h, hu]
          exact ⟨[v], rfl, rfl⟩
        · exact absurd h List.not_mem_nil
    · rintro ⟨w, rfl, rfl⟩
      rw [List.singleton_append, Part.rests, if_pos rfl]
      exact List.mem_cons_self

theorem inTurn_iff {X : Type} {one : X → Str → List Str} {st : X → Str → Prop}
    (hone : ∀ x r l, r ∈ one x l ↔ ∃ w, st x w ∧ l = w ++ r) (xs : List X) (r l : Str) :
    r ∈ inTurn one xs l ↔ ∃ w, StandsInTurn st xs w ∧ l = w ++ r := by
  induction xs generalizing l with
  | nil =>
    rw [inTurn, List.mem_singleton]
    exact ⟨fun h => ⟨[], rfl, h.symm⟩, fun ⟨w, hw, hl⟩ => by rw [hl, hw]; rfl⟩
  | cons x xs ih =>
    rw [inTurn, List.mem_flatMap]
    constructor
    · rintro ⟨m, hm, hr⟩
      obtain ⟨w₁, h₁, rfl⟩ := (hone x m l).1 hm
      obtain ⟨w₂, h₂, rfl⟩ := (ih m).1 hr
      exact ⟨w₁ ++ w₂, ⟨w₁, w₂, h₁, h₂, rfl⟩, (List.append_assoc ..).symm⟩
    · rintro ⟨w, ⟨w₁, w₂, h₁, h₂, rfl⟩, rfl⟩
      exact ⟨w₂ ++ r, (hone x _ _).2 ⟨w₁, h₁, List.append_assoc ..⟩, (ih _).2 ⟨w₂, h₂, rfl⟩⟩

theorem Item.rests_iff (x : Item) (r l : Str) : r ∈ x.rests l ↔ ∃ w, x.Stands w ∧ l = w ++ r := by
  cases x with
  | part x => exact x.rests_iff r l
  | group ways =>
    rw [Item.rests, List.mem_flatMap]
    constructor
    · rintro ⟨way, hway, hr⟩
      obtain ⟨w, hw, rfl⟩ := (inTurn_iff Part.rests_iff way r l).1 hr
      exact ⟨w, ⟨way, hway, hw⟩, rfl⟩
    · rintro ⟨w, ⟨way, hway, hw⟩, rfl⟩
      exact ⟨way, hway, (inTurn_iff Part.rests_iff way r _).2 ⟨w, hw, rfl⟩⟩

/-- What a pattern leaves of a line is what stands after something it stands for. -/
theorem rests_iff (items : List Item) (r l : Str) : r ∈ rests items l ↔ ∃ w, Stands items w ∧ l = w ++ r :=
  inTurn_iff Item.rests_iff items r l

end Rests

/-! ## The pattern of a path -/

section Pattern

variable {path w : Str} {items : List Item} {parts : List Part}

theorem replaceFirst_at {A : Type} [DecidableEq A] {o : A} {old new before after : List A} (h : o ∉ before) :
    replaceFirst (o :: old) new (before ++ (o :: old ++ after)) = before ++ (new ++ after) := by
  induction before with
  | nil =>
    have hstart : o :: old <+: o :: (old ++ after) := List.prefix_append (o :: old) after
    rw [List.nil_append, List.nil_append, List.cons_append, replaceFirst, if_pos hstart]
    have hdrop : (o :: old ++ after).drop (o :: old).length = after := List.drop_left
    exact congrArg (new ++ ·) hdrop
  | cons x before ih =>
    have hx : ¬o :: old <+: x :: (before ++ (o :: old ++ after)) := by
      intro hstart
      rw [List.cons_prefix_cons] at hstart
      rw [hstart.1] at h
      exact h List.mem_cons_self
    rw [List.cons_append, replaceFirst, if_neg hx, ih fun hmem => h (List.mem_cons_of_mem _ hmem)]
    rfl

/-- A text stands for itself. -/
theorem stands_text {X : Type} {st : X → Str → Prop} {one : UInt16 → X} (hone : ∀ u w, st (one u) w ↔ w = [u])
    (text : Str) (xs : List X) :
    StandsInTurn st (text.map one ++ xs) w ↔ ∃ v, StandsInTurn st xs v ∧ w = text ++ v := by
  induction text generalizing w with
  | nil => exact ⟨fun h => ⟨w, h, rfl⟩, fun ⟨v, hv, hw⟩ => by rwa [hw]⟩
  | cons u text ih =>
    constructor
    · rintro ⟨w₁, w₂, h₁, h₂, rfl⟩
      obtain ⟨v, hv, rfl⟩ := ih.1 h₂
      exact ⟨v, hv, by rw [(hone u w₁).1 h₁]; rfl⟩
    · rintro ⟨v, hv, rfl⟩
      exact ⟨[u], text ++ v, (hone u [u]).2 rfl, ih.2 ⟨v, hv, rfl⟩, rfl⟩

theorem stands_escaped (text : Str) (items : List Item) :
    Stands (escapedItems text ++ items) w ↔ ∃ v, Stands items v ∧ w = text ++ v := by
  rw [escapedItems, escapeRe, List.map_map]
  exact stands_text (fun u w => Iff.rfl) text items

/-- A size as it is said of a number. -/
def IsSize (w : Str) : Prop := ∃ f ∈ SEED_SIZES, ∃ n, Digits n ∧ w = f n

theorem sizes_eq :
    sizes = [.digits :: escapeRe (js " bytes"), .digits :: escapeRe (js " bytes at setup, kept in object storage"),
      escapeRe (js "removed")] := by decide

theorem stands_part (text : Str) : StandsInTurn Part.Stands (escapeRe text) w ↔ w = text := by
  have htext : StandsInTurn Part.Stands (text.map Part.unit ++ []) w ↔ ∃ v, StandsInTurn Part.Stands [] v ∧ w = text ++ v :=
    stands_text (fun u w => Iff.rfl) text []
  rw [List.append_nil] at htext
  exact htext.trans ⟨fun ⟨v, hv, hw⟩ => by rw [hw, hv, List.append_nil], fun hw => ⟨[], rfl, by rw [hw, List.append_nil]⟩⟩

theorem stands_number (text : Str) :
    StandsInTurn Part.Stands (.digits :: escapeRe text) w ↔ ∃ n, Digits n ∧ w = n ++ text := by
  constructor
  · rintro ⟨n, v, hn, hv, rfl⟩
    exact ⟨n, hn, by rw [(stands_part text).1 hv]⟩
  · rintro ⟨n, hn, rfl⟩
    exact ⟨n, text, hn, (stands_part text).2 rfl, rfl⟩

theorem stands_size : (Item.group sizes).Stands w ↔ IsSize w := by
  have hzero : Digits (js "0") := ⟨by decide, List.all_eq_true.1 (by decide)⟩
  rw [Item.Stands, sizes_eq, IsSize, SEED_SIZES]
  simp only [List.mem_cons, List.not_mem_nil, or_false, exists_eq_or_imp, exists_eq_left, stands_number, stands_part,
    nowSize, setupSize, removedSize]
  exact or_congr Iff.rfl (or_congr Iff.rfl ⟨fun h => ⟨_, hzero, h⟩, fun ⟨_, _, h⟩ => h⟩)

theorem stands_mode : (Item.group (SEED_MODES.map escapeRe)).Stands w ↔ w ∈ SEED_MODES := by
  rw [Item.Stands]
  constructor
  · rintro ⟨way, hway, hw⟩
    obtain ⟨mode, hmode, rfl⟩ := List.mem_map.1 hway
    rwa [(stands_part mode).1 hw]
  · exact fun hw => ⟨escapeRe w, List.mem_map_of_mem hw, (stands_part w).2 rfl⟩

/-- What a line says before a size. -/
def opening (path : Str) : Str := (if path = SEEDED_MEMORY then js "## " else js "- ") ++ js "`" ++ path ++ js "` ("

theorem seedLine_eq (path size mode : Str) :
    seedLine path size mode = opening path ++ (size ++ (js ", " ++ (mode ++ js ")"))) := by
  simp only [seedLine, opening, List.append_assoc]

theorem path_units (h : stateKey path = true) : ∀ u ∈ path, isPathUnit u = true := by
  cases path with
  | nil => cases h
  | cons u rest =>
    rw [stateKey, Bool.and_eq_true, Bool.and_eq_true] at h
    intro v hv
    rcases List.mem_cons.1 hv with rfl | hv
    · rw [isPathUnit, h.1.1]
      rfl
    · exact List.all_eq_true.1 h.1.2 v hv

theorem not_in_path {u : UInt16} (h : stateKey path = true) (hu : isPathUnit u = false) : u ∉ path := by
  intro hmem
  rw [path_units h u hmem] at hu
  cases hu

theorem not_escaped {text : Str} {u : UInt16} (h : u ∉ text) : Item.part (.unit u) ∉ escapedItems text := by
  intro hmem
  rw [escapedItems, escapeRe, List.map_map] at hmem
  obtain ⟨v, hv, hu⟩ := List.mem_map.1 hmem
  cases hu
  exact h hv

/-- The placeholders are replaced where the line was made with them, since a path holds none. -/
theorem pattern_eq (h : stateKey path = true) :
    pattern path = escapedItems (opening path) ++ (.group sizes ::
      (escapedItems (js ", ") ++ (.group (SEED_MODES.map escapeRe) :: escapedItems (js ")")))) := by
  have happend : ∀ s t : Str, escapedItems (s ++ t) = escapedItems s ++ escapedItems t := by
    intro s t
    rw [escapedItems, escapeRe, List.map_append, List.map_append]
    rfl
  have hopening : (0 : UInt16) ∉ opening path := by
    have hpath := not_in_path (u := 0) h (by decide)
    have hwords : (0 : UInt16) ∉ js "## " ∧ (0 : UInt16) ∉ js "- " ∧ (0 : UInt16) ∉ js "`" ∧ (0 : UInt16) ∉ js "` (" := by
      decide
    rw [opening, List.mem_append, List.mem_append, List.mem_append]
    rintro (((hword | hword) | hword) | hword)
    · split at hword
      · exact hwords.1 hword
      · exact hwords.2.1 hword
    · exact hwords.2.2.1 hword
    · exact hpath hword
    · exact hwords.2.2.2 hword
  have hsize : replaceFirst (escapedItems SIZE) [.group sizes] (escapedItems (seedLine path SIZE MODE)) =
      (escapedItems (opening path) ++ .group sizes :: escapedItems (js ", ")) ++
        (escapedItems MODE ++ escapedItems (js ")")) := by
    rw [seedLine_eq, happend, happend, happend, happend]
    refine (replaceFirst_at (not_escaped hopening)).trans ?_
    simp only [List.append_assoc, List.cons_append, List.nil_append]
  rw [pattern, hsize]
  refine (replaceFirst_at ?_).trans ?_
  · intro hmem
    have hcomma : (0 : UInt16) ∉ js ", " := by decide
    rcases List.mem_append.1 hmem with hmem | hmem
    · exact not_escaped hopening hmem
    · rcases List.mem_cons.1 hmem with hmem | hmem
      · cases hmem
      · exact not_escaped hcomma hmem
  · simp only [List.append_assoc, List.cons_append, List.nil_append]

end Pattern

/-! ## What is recognised -/

section Recognised

variable {line path p q size mode w : Str}

/-- The pattern of a path stands for the lines written for it. -/
theorem stands_line (h : stateKey path = true) :
    Stands (pattern path) w ↔ ∃ size mode, IsSize size ∧ mode ∈ SEED_MODES ∧ w = seedLine path size mode := by
  have hlast : ∀ {v : Str}, Stands (escapedItems (js ")")) v ↔ v = js ")" := by
    intro v
    have htext := stands_escaped (w := v) (js ")") []
    rw [List.append_nil] at htext
    exact htext.trans ⟨fun ⟨u, hu, hv⟩ => by rw [hv, hu, List.append_nil], fun hv => ⟨[], rfl, by rw [hv, List.append_nil]⟩⟩
  rw [pattern_eq h, stands_escaped]
  constructor
  · rintro ⟨v, ⟨size, v₁, hsize, hv₁, rfl⟩, rfl⟩
    obtain ⟨v₂, ⟨mode, v₃, hmode, hv₃, rfl⟩, rfl⟩ := (stands_escaped (js ", ") _).1 hv₁
    refine ⟨size, mode, stands_size.1 hsize, stands_mode.1 hmode, ?_⟩
    rw [seedLine_eq, hlast.1 hv₃]
  · rintro ⟨size, mode, hsize, hmode, rfl⟩
    refine ⟨_, ⟨size, js ", " ++ (mode ++ js ")"), stands_size.2 hsize, ?_, rfl⟩, seedLine_eq path size mode⟩
    exact (stands_escaped (js ", ") _).2 ⟨_, ⟨mode, js ")", stands_mode.2 hmode, hlast.2 rfl, rfl⟩, rfl⟩

/-- A line is recognised for a path exactly when it begins as one written for it. -/
theorem isSeedLine_iff (h : stateKey path = true) :
    isSeedLine line path = true ↔
      ∃ size mode rest, IsSize size ∧ mode ∈ SEED_MODES ∧ line = seedLine path size mode ++ rest := by
  rw [isSeedLine, Bool.not_eq_true', List.isEmpty_eq_false_iff_exists_mem]
  constructor
  · rintro ⟨rest, hrest⟩
    obtain ⟨w, hw, rfl⟩ := (rests_iff _ _ _).1 hrest
    obtain ⟨size, mode, hsize, hmode, rfl⟩ := (stands_line h).1 hw
    exact ⟨size, mode, rest, hsize, hmode, rfl⟩
  · rintro ⟨size, mode, rest, hsize, hmode, rfl⟩
    exact ⟨rest, (rests_iff _ _ _).2 ⟨_, (stands_line h).2 ⟨size, mode, hsize, hmode, rfl⟩, rfl⟩⟩

/-- A line names one path: it is cut at its backticks, and a path holds none. -/
theorem seedLine_path {size' mode' rest rest' : Str} (hp : stateKey p = true) (hq : stateKey q = true)
    (h : seedLine p size mode ++ rest = seedLine q size' mode' ++ rest') : p = q := by
  have hcut : ∀ path size mode rest : Str, seedLine path size mode ++ rest =
      (if path = SEEDED_MEMORY then js "## " else js "- ") ++
        Fences.tick :: (path ++ Fences.tick :: (js " (" ++ size ++ js ", " ++ mode ++ js ")" ++ rest)) := by
    intro path size mode rest
    have hone : js "`" = [Fences.tick] := by decide
    have htwo : js "`" ++ js " (" = js "` (" := by decide
    rw [seedLine, ← htwo, hone]
    simp only [List.append_assoc, List.cons_append, List.nil_append]
  rw [hcut, hcut] at h
  have htick : ∀ path : Str, Fences.tick ∉ if path = SEEDED_MEMORY then js "## " else js "- " := by
    have hwords : Fences.tick ∉ js "## " ∧ Fences.tick ∉ js "- " := by decide
    intro path
    split
    · exact hwords.1
    · exact hwords.2
  have hpath := (cut_at (htick p) (htick q) h).2
  exact (cut_at (not_in_path hp (by decide)) (not_in_path hq (by decide)) hpath).1

/-- What is written for one path is recognised for that path alone, whatever follows it. -/
theorem seedLine_recognised (hp : stateKey p = true) (hq : stateKey q = true) (hsize : IsSize size)
    (hmode : mode ∈ SEED_MODES) (rest : Str) : isSeedLine (seedLine p size mode ++ rest) q = true ↔ p = q := by
  rw [isSeedLine_iff hq]
  constructor
  · rintro ⟨size', mode', rest', -, -, hline⟩
    exact seedLine_path hp hq hline
  · rintro rfl
    exact ⟨size, mode, rest, hsize, hmode, rfl⟩

end Recognised

/-! ## What a prompt says on its own -/

open Fences

/-- Nothing inside a fence is taken from a prompt: with a text fenced in it, what is taken is what is taken of the rest, as
long as no line end beside the fences is part of another one. And a line is taken for a path's own exactly when it begins as
one. -/
theorem fences_and_seeds :
    (∀ (a t b : Str) (e₁ e₂ e₃ e₄ : Eol), EndsOutside a →
        (unfencedLines (fenced a t b e₁ e₂ e₃ e₄) = unfencedLines a ++ unfencedLines b ↔
          ¬MergesBefore a e₁ ∧ ¬MergesAfter e₄ b)) ∧
      (∀ p q size mode rest, stateKey p = true → stateKey q = true → IsSize size → mode ∈ SEED_MODES →
        (isSeedLine (seedLine p size mode ++ rest) q = true ↔ p = q)) ∧
      ∀ line path, stateKey path = true → isSeedLine line path = true →
        ∃ size mode rest, IsSize size ∧ mode ∈ SEED_MODES ∧ line = seedLine path size mode ++ rest :=
  ⟨fun _ _ _ _ _ _ _ h => fenced_unread h, fun _ _ _ _ rest hp hq hsize hmode => seedLine_recognised hp hq hsize hmode rest,
    fun _ _ h => (isSeedLine_iff h).1⟩

/-- A text that ends with a lone carriage return, before a fence on a line of its own: an empty line of it is gone. -/
theorem line_end_taken :
    ¬∀ (a t b : Str) (e₁ e₂ e₃ e₄ : Eol), EndsOutside a →
      unfencedLines (fenced a t b e₁ e₂ e₃ e₄) = unfencedLines a ++ unfencedLines b := by
  intro hall
  have hends : EndsOutside [cr] := rfl
  have heq := hall [cr] [] [] .lf .lf .lf .lf hends
  revert heq
  decide

end Antiproton.SeedLines
