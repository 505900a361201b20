import Antiproton.Core.JsonScan
import Antiproton.Document.Revise
import Antiproton.Plugins.Bridge

/-!
# Antiproton.Runtime.Redact

The secrets taken out of what an upstream answers (`redact`, `redactBody`, `src/runtime/gateway.ts`): every occurrence of
every form of every secret is marked, and each run of marked characters becomes one `REDACTED`. A JSON answer is read, its
strings redacted, and written out again; the text written is then redacted as text.

How JavaScript spells a number that a text spells is the parameter `spell`.

* `redact_cut`: `redact` replaces each run of covered characters, as long as it can be, and keeps the rest.
* `redact_clean`: no form that shares no character with the marker is left.
* `walk_made`: what `walk` makes of a value has redacted strings only.
-/

namespace Antiproton.Redact

open Js Runs

def REDACTED : Str := js "[redacted]"

/-! ## The code -/

/-- `forms.add(f)`. -/
def addForm (forms : List Str) (f : Str) : List Str := if forms.contains f then forms else forms ++ [f]

/-- Each secret as sent, and as it reads inside a JSON string. -/
def forms (secrets : List Str) : List Str :=
  secrets.foldl (fun forms s =>
    if s.length < 8 then forms else addForm (addForm forms s) (quote s).tail.dropLast) []

/-- `marked.fill(1, i, j)`. -/
def fill (i j : Nat) (marked : List Bool) : List Bool := marked.mapIdx fun k m => m || (decide (i ≤ k) && decide (k < j))

/-- Every occurrence of every form marked, one `indexOf` after another. -/
def marks (text : Str) (forms : List Str) : List Bool :=
  forms.foldl (fun marked f => (occurrences f text).foldl (fun marked i => fill i (i + f.length) marked) marked)
    (List.replicate text.length false)

/-- The text written out, given whether the character before it is marked. -/
def writeOut : Bool → Str → List Bool → Str
  | before, u :: text, m :: marked =>
    (if !m then [u] else if !before then REDACTED else []) ++ writeOut m text marked
  | _, _, _ => []

def redact (text : Str) (secrets : List Str) : Str := writeOut false text (marks text (forms secrets))

section Walk

variable (spell : Str → Str) (secrets : List Str)

mutual

/-- Every string of a value redacted, its keys too; its numbers as they will be written. -/
def walk : Json → Json
  | .str s => .str (redact s secrets)
  | .arr items => .arr (walkItems items)
  | .obj fields => .obj (ofEntries (walkFields fields))
  | .num t => .num (spell t)
  | v => v

def walkItems : List Json → List Json
  | [] => []
  | v :: vs => walk v :: walkItems vs

def walkFields : List (Str × Json) → List (Str × Json)
  | [] => []
  | (k, v) :: fs => (redact k secrets, walk v) :: walkFields fs

end

end Walk

def redactBody (spell : Str → Str) (text : Str) (contentType : Option Str) (secrets : List Str) : Str :=
  if isJsonContentType contentType then
    match parse text with
    | some parsed => redact (walk spell secrets parsed).stringify secrets
    | none => redact text secrets
  else redact text secrets

/-! ## What is to be replaced -/

/-- A secret of at least eight characters, or its JSON-escaped form. -/
def IsForm (secrets : List Str) (f : Str) : Prop := ∃ s ∈ secrets, 8 ≤ s.length ∧ (f = s ∨ f = quoteBody s)

/-- A position of an occurrence of a form. -/
def Covered (secrets : List Str) (text : Str) (k : Nat) : Prop :=
  ∃ f, IsForm secrets f ∧ ∃ pre post, text = pre ++ f ++ post ∧ pre.length ≤ k ∧ k < pre.length + f.length

theorem mem_forms {secrets : List Str} {f : Str} : f ∈ forms secrets ↔ IsForm secrets f := by
  have hadd : ∀ (fs : List Str) (g : Str), f ∈ addForm fs g ↔ f ∈ fs ∨ f = g := by
    intro fs g
    unfold addForm
    split
    · next h =>
      constructor
      · exact .inl
      · rintro (h' | rfl)
        · exact h'
        · exact List.contains_iff_mem.1 h
    · rw [List.mem_append, List.mem_singleton]
  have hbody : ∀ s : Str, (quote s).tail.dropLast = quoteBody s := by
    intro s
    rw [quote, List.cons_append, List.tail_cons, List.dropLast_concat]
  have hfold : ∀ (secrets fs : List Str), f ∈ secrets.foldl (fun forms s =>
      if s.length < 8 then forms else addForm (addForm forms s) (quote s).tail.dropLast) fs ↔
        f ∈ fs ∨ IsForm secrets f := by
    intro secrets
    induction secrets with
    | nil => simp [IsForm]
    | cons s secrets ih =>
      intro fs
      rw [List.foldl_cons, ih]
      simp only [IsForm, List.mem_cons, exists_eq_or_imp]
      split
      · next hlt => simp only [Nat.not_le.2 hlt, false_and, false_or]
      · next hge => simp only [hadd, hbody, Nat.not_lt.1 hge, true_and, or_assoc]
  rw [forms, hfold]
  simp

theorem IsForm.ne_nil {secrets : List Str} {f : Str} (h : IsForm secrets f) : f ≠ [] := by
  obtain ⟨s, -, hlen, rfl | rfl⟩ := h
  · rintro rfl
    exact absurd hlen (by decide)
  · intro h
    have hread := parseString_quoteBody s []
    rw [h, List.nil_append, parseString_close] at hread
    cases hread
    exact absurd hlen (by decide)

/-! ## The marks -/

theorem foldl_fill (k : Nat) (spans : List (Nat × Nat)) (marked : List Bool) :
    (spans.foldl (fun marked x => fill x.1 x.2 marked) marked)[k]? =
      marked[k]?.map (· || spans.any fun x => decide (x.1 ≤ k) && decide (k < x.2)) := by
  induction spans generalizing marked with
  | nil => simp
  | cons x spans ih =>
    rw [List.foldl_cons, ih, fill, List.getElem?_mapIdx, Option.map_map]
    congr 1
    funext m
    simp only [Function.comp_apply, List.any_cons, Bool.or_assoc]

theorem foldl_fill_length (spans : List (Nat × Nat)) (marked : List Bool) :
    (spans.foldl (fun marked x => fill x.1 x.2 marked) marked).length = marked.length := by
  induction spans generalizing marked with
  | nil => rfl
  | cons x spans ih => rw [List.foldl_cons, ih, fill, List.length_mapIdx]

/-- The marks as spans, one after another. -/
theorem marks_spans (text : Str) (fs : List Str) : marks text fs =
    (fs.flatMap fun f => (occurrences f text).map fun i => (i, i + f.length)).foldl
      (fun marked x => fill x.1 x.2 marked) (List.replicate text.length false) := by
  simp only [marks, List.foldl_flatMap, List.foldl_map]

theorem marks_length (text : Str) (fs : List Str) : (marks text fs).length = text.length := by
  rw [marks_spans, foldl_fill_length, List.length_replicate]

theorem marks_get (text : Str) (secrets : List Str) {k : Nat} (hk : k < text.length) :
    (marks text (forms secrets))[k]? = some true ↔ Covered secrets text k := by
  rw [marks_spans, foldl_fill, List.getElem?_replicate, if_pos hk]
  simp only [Option.map_some, Bool.false_or, Option.some.injEq, List.any_eq_true, List.mem_flatMap, List.mem_map,
    Bool.and_eq_true, decide_eq_true_eq, mem_forms, Document.mem_occurrences]
  constructor
  · rintro ⟨_, ⟨f, hf, i, ⟨pre, post, heq, rfl⟩, rfl⟩, hle, hlt⟩
    exact ⟨f, hf, pre, post, heq, hle, hlt⟩
  · rintro ⟨f, hf, pre, post, heq, hle, hlt⟩
    exact ⟨_, ⟨f, hf, pre.length, ⟨pre, post, heq, rfl⟩, rfl⟩, hle, hlt⟩

theorem writeOut_cut (text : Str) (ms : List Bool) {marked : Nat → Prop} (hlen : ms.length = text.length)
    (h : ∀ k, k < text.length → (ms[k]? = some true ↔ marked k)) :
    ∃ c : Cut marked text, c.replace REDACTED = writeOut false text ms ∧ c.resume REDACTED = writeOut true text ms := by
  induction text generalizing ms marked with
  | nil => exact cut_nil REDACTED
  | cons u text ih =>
    cases ms with
    | nil => cases hlen
    | cons m ms =>
      obtain ⟨c, hreplace, hresume⟩ := ih ms (Nat.succ.inj hlen) fun k hk =>
        (h (k + 1) (Nat.succ_lt_succ hk) : ms[k]? = some true ↔ marked (k + 1))
      have hzero := h 0 (Nat.succ_pos _)
      cases m with
      | false =>
        obtain ⟨d, hd, hd'⟩ := cut_unmarked REDACTED u (fun hm => nomatch hzero.2 hm) c
        refine ⟨d, hd.trans ?_, hd'.trans ?_⟩ <;> rw [hreplace] <;> rfl
      | true =>
        obtain ⟨d, hd, hd'⟩ := cut_marked REDACTED u (hzero.1 rfl) c
        refine ⟨d, hd.trans ?_, hd'.trans ?_⟩ <;> rw [hresume] <;> rfl

/-- `redact` replaces each run of covered characters, as long as it can be, and keeps every other character. -/
theorem redact_cut (text : Str) (secrets : List Str) :
    ∃ c : Cut (Covered secrets text) text, redact text secrets = c.replace REDACTED := by
  obtain ⟨c, hreplace, -⟩ := writeOut_cut text (marks text (forms secrets)) (marks_length ..) fun k hk =>
    marks_get text secrets hk
  exact ⟨c, hreplace.symm⟩

/-! ## What is left -/

/-- No form shares a character with the marker. -/
def MarkerFree (secrets : List Str) : Prop := ∀ f, IsForm secrets f → ∀ u ∈ REDACTED, u ∉ f

theorem covered_start {secrets : List Str} {text f pre post : Str} (hf : IsForm secrets f)
    (h : text = pre ++ f ++ post) : Covered secrets text pre.length :=
  ⟨f, hf, pre, post, h, Nat.le_refl _, Nat.lt_add_of_pos_right (List.length_pos_iff.2 hf.ne_nil)⟩

theorem covered_lt {secrets : List Str} {text : Str} {k : Nat} (h : Covered secrets text k) : k < text.length := by
  obtain ⟨f, -, pre, post, rfl, -, hlt⟩ := h
  simp only [List.length_append]
  omega

theorem REDACTED_ne_nil : REDACTED ≠ [] := by decide

/-- Nothing that `redact` writes contains a form that shares no character with the marker. -/
theorem redact_clean {secrets : List Str} (hfree : MarkerFree secrets) {f : Str} (hf : IsForm secrets f) (text : Str) :
    ¬f <:+: redact text secrets := by
  intro h
  obtain ⟨c, hc⟩ := redact_cut text secrets
  rw [hc] at h
  obtain ⟨pre, post, heq, hnot⟩ := c.infix_replace hf.ne_nil REDACTED_ne_nil (hfree f hf) h
  exact hnot (covered_start hf heq)

section Walk

variable (spell : Str → Str) (secrets : List Str)

/-- The strings and the numbers of what `walk` makes. -/
structure Made (ws ts : List Str) : Prop where
  strings : ∀ w ∈ ws, ∃ w₀, w = redact w₀ secrets
  numbers : ∀ t ∈ ts, ∃ t₀, t = spell t₀

variable {spell secrets}

theorem Made.nil : Made spell secrets [] [] := ⟨fun _ h => (nomatch h), fun _ h => (nomatch h)⟩

theorem Made.append {ws ts ws' ts' : List Str} (h : Made spell secrets ws ts) (h' : Made spell secrets ws' ts') :
    Made spell secrets (ws ++ ws') (ts ++ ts') := by
  refine ⟨fun w hw => ?_, fun t ht => ?_⟩
  · rcases List.mem_append.1 hw with hw | hw
    · exact h.strings w hw
    · exact h'.strings w hw
  · rcases List.mem_append.1 ht with ht | ht
    · exact h.numbers t ht
    · exact h'.numbers t ht

theorem mem_numbersFields {fs : List (Str × Json)} {t : Str} : t ∈ numbersFields fs ↔ ∃ f ∈ fs, t ∈ numbers f.2 := by
  induction fs with
  | nil => simp [numbersFields]
  | cons f fs ih =>
    obtain ⟨k, v⟩ := f
    simp only [numbersFields, List.mem_append, ih, List.mem_cons, exists_eq_or_imp]

mutual

theorem walk_made : ∀ v : Json, Made spell secrets (strings (walk spell secrets v)) (numbers (walk spell secrets v))
  | .null | .bool _ => .nil
  | .num t => ⟨fun _ h => (nomatch h), fun _ h => ⟨t, List.mem_singleton.1 h⟩⟩
  | .str s => ⟨fun _ h => ⟨s, List.mem_singleton.1 h⟩, fun _ h => (nomatch h)⟩
  | .arr items => walkItems_made items
  | .obj fields => by
    have hfields := walkFields_made fields
    refine ⟨fun w hw => ?_, fun t ht => ?_⟩
    · obtain ⟨f, hf, hor⟩ := mem_stringsFields.1 hw
      exact hfields.strings w (mem_stringsFields.2 ⟨f, mem_ofEntries hf, hor⟩)
    · obtain ⟨f, hf, ht⟩ := mem_numbersFields.1 ht
      exact hfields.numbers t (mem_numbersFields.2 ⟨f, mem_ofEntries hf, ht⟩)

theorem walkItems_made : ∀ vs : List Json,
    Made spell secrets (stringsItems (walkItems spell secrets vs)) (numbersItems (walkItems spell secrets vs))
  | [] => .nil
  | v :: vs => (walk_made v).append (walkItems_made vs)

theorem walkFields_made : ∀ fs : List (Str × Json),
    Made spell secrets (stringsFields (walkFields spell secrets fs)) (numbersFields (walkFields spell secrets fs))
  | [] => .nil
  | (k, v) :: fs => by
    have hkey : Made spell secrets [redact k secrets] [] :=
      ⟨fun _ h => ⟨k, List.mem_singleton.1 h⟩, fun _ h => (nomatch h)⟩
    exact (hkey.append (walk_made v)).append (walkFields_made fs)

end

end Walk

end Antiproton.Redact
