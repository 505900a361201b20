import Mathlib.Data.List.DropRight
import Antiproton.Core.Js
import Antiproton.Lib.Table

/-!
# Antiproton.Prompt.Notice

What a message tells of the parts of the system prompt that moved (`src/runtime/prompt-context.ts`, `contextNotice`), and
what a reader of the notice knows afterwards.

* `entry_part`, `entry_held`: the entry of each topic, alone.
* `told_part`, `told_held`: a notice applied to what the earlier parts said gives what the parts say now.
* `addedLines_whole`: the lines added to an uncut document, after it, are the document.
-/

namespace Antiproton.Prompt

open Js

/-- The key the held lines are owed under. -/
def HELD : Str := js "held"

/-- A part's key: `<plugin>:<key>` or `mount:<alias>` (`promptParagraphs`), so never the held lines' own. -/
abbrev PartKey := { key : Str // key ≠ HELD }

/-- Who wrote a part's text. -/
inductive By where
  | agent
  | setup
  | plugin
deriving DecidableEq, Repr

structure PromptPart where
  key : PartKey
  label : Str
  text : Str
  «by» : By
deriving DecidableEq, Repr

/-- The parts of the system prompt that can move between turns. -/
structure PromptContext where
  contributions : List Str
  parts : List PromptPart
  held : List Str
deriving DecidableEq, Repr

/-- The unit two lines of a text are joined by. -/
def newline : UInt16 := unit '\n'

def lines (text : Str) : List Str := splitOn newline text

def unlines (ls : List Str) : Str := join [newline] ls

/-! ## The lines a document grew by -/

def CUT : Str := js "…"

def trimEnd (l : List Str) : List Str := l.rdropWhile (· == [])

/-- Whether the last `i` lines of `b` are the first `i` of `n`, the first of them perhaps cut. -/
def equal (b n : List Str) (i : Nat) (partialFirst : Bool) : Bool :=
  (List.range i).all fun k =>
    let was := b.getD (b.length - i + k) []
    let is := n.getD k []
    if k == 0 && partialFirst then endsWith is was else was == is

def uncut (l : List Str) : List Str := if l.head? = some CUT then l.tail else l

def addedLines (before now : List Str) : Option (List Str) :=
  let b := trimEnd (uncut before)
  let n := trimEnd (uncut now)
  if b.length < n.length ∧ equal b n b.length false = true then some (n.drop b.length)
  else if now.head? = some CUT then
    -- From the longest overlap down to one line.
    ((List.range' 1 (min b.length (n.length - 1))).reverse.find? fun i => equal b n i true).map n.drop
  else none

/-! ## The notice -/

inductive How where
  | added
  | reads
  | empty
deriving DecidableEq, Repr

/-- One entry of a notice: a part and what is said of it, or the held lines. -/
inductive Entry where
  | part (p : PromptPart) (how : How) (text : Str)
  | held (now : List Str)
deriving DecidableEq, Repr

/-- The longest run of backticks in a text. -/
def longestRun (text : Str) : Nat :=
  (text.foldl (fun (run : Nat × Nat) u => if u = 0x60 then (run.1 + 1, max run.2 (run.1 + 1)) else (0, run.2)) (0, 0)).2

def fenceFor (text : Str) : Str := List.replicate (max 3 (longestRun text + 1)) 0x60

def fenced (text : Str) : Str := unlines [fenceFor text, text, fenceFor text]

/-- The text of a part's entry. -/
def entry (p : PromptPart) (how : How) (text : Str) : Str :=
  let whose := if p.by = .agent then js "Your " ++ p.label ++ js ", written by you" else p.label
  let body := if p.by = .plugin then text else fenced text
  match how with
  | .empty => whose ++ js (if p.by = .plugin then " — no longer applies." else " — is now empty.")
  | .added => whose ++ js " — lines added since you last saw it:\n" ++ body
  | .reads => whose ++ js " — now reads:\n" ++ body

def Entry.text : Entry → Str
  | .part p how text => entry p how text
  | .held now =>
    if now = [] then js "You are no longer holding anything."
    else js "What you are holding now:\n" ++ unlines now

/-- The key an entry is told under. -/
def Entry.key : Entry → Str
  | .part p _ _ => p.key
  | .held _ => HELD

/-- The parts by key: a later part of the same key takes the place of an earlier one. -/
def byKey (parts : List PromptPart) : List PromptPart :=
  parts.foldl (fun m p => Table.upsert (·.key == p.key) p (fun r => { p with key := r.key }) m) []

def PromptContext.get (c : PromptContext) (key : PartKey) : Option PromptPart := Table.one (·.key == key) (byKey c.parts)

def PromptContext.keys (c : PromptContext) : List PartKey := (byKey c.parts).map (·.key)

def textOf (p : Option PromptPart) : Str := (p.map (·.text)).getD []

/-- What is said of one part that was `old` and is `cur`. -/
def partEntry (old cur : Option PromptPart) (owing : Bool) : Option Entry :=
  let oldText := textOf old
  let curText := textOf cur
  if oldText = curText ∧ owing = false then none
  else
    (cur.or old).bind fun part =>
      if curText = [] then
        if oldText = [] ∧ owing = false then none else some (.part part .empty [])
      else
        match if oldText ≠ [] ∧ owing = false then addedLines (lines oldText) (lines curText) else none with
        | some added => some (.part part .added (unlines added))
        | none => some (.part part .reads curText)

/-- The keys a notice goes through: the parts there are, then those there were. -/
def keysOf (before now : PromptContext) : List PartKey :=
  now.keys ++ before.keys.filter fun k => !now.keys.contains k

def heldEntry (before now : PromptContext) (owed : List Str) : List Entry :=
  if unlines before.held ≠ unlines now.held ∨ HELD ∈ owed then [.held now.held] else []

/-- The entries from `before` to `now`, each part in `owed` told in full. -/
def entriesOf (before now : PromptContext) (owed : List Str) : List Entry :=
  ((keysOf before now).filterMap fun k => partEntry (before.get k) (now.get k) (owed.contains k.1)) ++
    heldEntry before now owed

/-- What an entry is about. -/
inductive Topic where
  | part (key : PartKey)
  | held
deriving DecidableEq, Repr

def Topic.key : Topic → Str
  | .part key => key
  | .held => HELD

def Entry.topic : Entry → Topic
  | .part p _ _ => .part p.key
  | .held _ => .held

theorem topic_key (e : Entry) : e.topic.key = e.key := by cases e <;> rfl

theorem key_injective : Function.Injective Topic.key := by
  intro s t h
  cases s with
  | held =>
    cases t with
    | held => rfl
    | part k => exact absurd h.symm k.2
  | part j =>
    cases t with
    | held => exact absurd h j.2
    | part k => exact congrArg Topic.part (Subtype.ext h)

/-! ### Each topic has its own entry -/

section Entries

variable {before now : PromptContext} {owed : List Str}

theorem unique_byKey (parts : List PromptPart) : Table.Unique (·.key) (byKey parts) := by
  unfold byKey
  have hstart : Table.Unique (fun p : PromptPart => p.key) [] := Table.unique_nil
  generalize ([] : List PromptPart) = m at hstart ⊢
  induction parts generalizing m with
  | nil => exact hstart
  | cons p rest ih =>
    exact ih _ (Table.unique_upsert hstart (fun r h => beq_iff_eq.2 h) fun _ => rfl)

theorem get_key {c : PromptContext} {k : PartKey} {p : PromptPart} (h : c.get k = some p) : p.key = k :=
  beq_iff_eq.1 (Table.one_some h :)

theorem get_none {c : PromptContext} {k : PartKey} : c.get k = none ↔ k ∉ c.keys := by
  rw [PromptContext.get, Table.one_eq_none, PromptContext.keys, List.mem_map]
  constructor
  · rintro h ⟨p, hp, rfl⟩
    simpa using h p hp
  · intro h p hp
    exact beq_false_of_ne fun heq => h ⟨p, hp, heq⟩

theorem keys_nodup (c : PromptContext) : c.keys.Nodup := unique_byKey c.parts

theorem keysOf_nodup : (keysOf before now).Nodup := by
  refine List.nodup_append.2 ⟨keys_nodup now, (keys_nodup before).filter _, ?_⟩
  rintro k hk _ hk' rfl
  have h := (List.mem_filter.1 hk').2
  simp [hk] at h

theorem mem_keysOf {k : PartKey} : k ∈ keysOf before now ↔ k ∈ now.keys ∨ k ∈ before.keys := by
  by_cases h : k ∈ now.keys <;> simp [keysOf, h]

/-- The entry of a part is about that part. -/
theorem partEntry_topic {k : PartKey} {owing : Bool} {e : Entry}
    (h : partEntry (before.get k) (now.get k) owing = some e) : e.topic = .part k := by
  have hpart : ∀ p, (now.get k).or (before.get k) = some p → p.key = k := by
    intro p hp
    rcases Option.or_eq_some_iff.1 hp with hp | ⟨-, hp⟩
    · exact get_key hp
    · exact get_key hp
  unfold partEntry at h
  simp only at h
  split at h
  · cases h
  · obtain ⟨p, hp, h⟩ := Option.bind_eq_some_iff.1 h
    have hkey := hpart p hp
    split at h
    · split at h
      · cases h
      · cases h
        exact congrArg Topic.part hkey
    · split at h <;> cases h <;> exact congrArg Topic.part hkey

theorem topics_parts (ks : List PartKey) (hks : ks.Nodup) (f : PartKey → Option Entry)
    (hf : ∀ k e, f k = some e → e.topic = .part k) :
    ((ks.filterMap f).map Entry.topic).Nodup ∧ ∀ t ∈ (ks.filterMap f).map Entry.topic, ∃ k ∈ ks, t = .part k := by
  have hmem : ∀ t ∈ (ks.filterMap f).map Entry.topic, ∃ k ∈ ks, t = .part k := by
    intro t ht
    obtain ⟨e, he, rfl⟩ := List.mem_map.1 ht
    obtain ⟨k, hk, hfk⟩ := List.mem_filterMap.1 he
    exact ⟨k, hk, hf k e hfk⟩
  refine ⟨?_, hmem⟩
  clear hmem
  induction ks with
  | nil => exact List.nodup_nil
  | cons k ks ih =>
    obtain ⟨hk, hrest⟩ := List.nodup_cons.1 hks
    cases h : f k with
    | none => simpa only [List.filterMap_cons, h] using ih hrest
    | some e =>
      rw [List.filterMap_cons, h, List.map_cons, List.nodup_cons]
      refine ⟨fun ht => ?_, ih hrest⟩
      obtain ⟨e', he', heq⟩ := List.mem_map.1 ht
      obtain ⟨j, hj, hfj⟩ := List.mem_filterMap.1 he'
      rw [hf j e' hfj, hf k e h] at heq
      cases heq
      exact hk hj

/-- Each part, and the held lines, have one entry at most. -/
theorem entriesOf_topics (before now : PromptContext) (owed : List Str) :
    ((entriesOf before now owed).map Entry.topic).Nodup := by
  obtain ⟨hnodup, hparts⟩ := topics_parts (keysOf before now) keysOf_nodup
    (fun k => partEntry (before.get k) (now.get k) (owed.contains k.1)) fun k e => partEntry_topic
  rw [entriesOf, List.map_append]
  refine List.nodup_append.2 ⟨hnodup, ?_, ?_⟩
  · unfold heldEntry
    split
    · exact List.nodup_singleton _
    · exact List.nodup_nil
  · rintro t ht _ hheld rfl
    obtain ⟨k, -, rfl⟩ := hparts t ht
    unfold heldEntry at hheld
    split at hheld
    · cases List.mem_singleton.1 hheld
    · cases hheld

end Entries

/-- The entries a notice has: one at least, and one at most for each topic. -/
structure Notice where
  entries : List Entry
  some : entries ≠ []
  distinct : (entries.map Entry.topic).Nodup
deriving DecidableEq

/-- `contextNotice`: what changed from `before` to `now`, or nothing when no entry was made. -/
def contextNotice (before now : PromptContext) (owed : List Str) : Option Notice :=
  if h : entriesOf before now owed = [] then none
  else some ⟨entriesOf before now owed, h, entriesOf_topics before now owed⟩

def Notice.keys (n : Notice) : List Str := n.entries.map Entry.key

def Notice.text (n : Notice) : Str :=
  js "Your instructions above show what was true when this conversation began. This has changed since you " ++
    js "last saw it, and where the two differ, this is current:\n\n" ++ join (js "\n\n") (n.entries.map Entry.text)

/-! ## What a reader knows -/

/-- The text of every part, empty where there is none, and of the held lines. -/
abbrev View := Topic → Str

def PromptContext.view (c : PromptContext) : View
  | .part key => textOf (c.get key)
  | .held => unlines c.held

/-- What an entry makes of the text it is about: added lines go after it, anything else takes its place. -/
def Entry.effect : Entry → Str → Str
  | .part _ .added text, had => had ++ newline :: text
  | .part _ .reads text, _ => text
  | .part _ .empty _, _ => []
  | .held now, _ => unlines now

def Entry.apply (e : Entry) (v : View) : View := fun t => if e.topic = t then e.effect (v t) else v t

/-- What is known once the entries of a notice are read, in order. -/
def Notice.apply (n : Notice) (v : View) : View := n.entries.foldl (fun v e => e.apply v) v

/-! ### What one notice does to one topic -/

def Notice.about (n : Notice) (t : Topic) : Option Entry := n.entries.find? fun e => e.topic = t

theorem apply_entries (es : List Entry) (v : View) (t : Topic) (h : (es.map Entry.topic).Nodup) :
    es.foldl (fun v e => e.apply v) v t =
      match es.find? (fun e => e.topic = t) with
      | some e => e.effect (v t)
      | none => v t := by
  induction es generalizing v with
  | nil => rfl
  | cons e es ih =>
    obtain ⟨he, hes⟩ := List.nodup_cons.1 h
    rw [List.foldl_cons, ih _ hes]
    by_cases ht : e.topic = t
    · have hnone : es.find? (fun e => e.topic = t) = none := by
        rw [List.find?_eq_none]
        intro e' he' heq
        exact he (List.mem_map.2 ⟨e', he', by rw [of_decide_eq_true heq, ht]⟩)
      rw [hnone, List.find?_cons_of_pos (by simpa using ht)]
      exact if_pos ht
    · rw [List.find?_cons_of_neg (by simpa using ht), Entry.apply, if_neg ht]

theorem apply_about (n : Notice) (v : View) (t : Topic) :
    n.apply v t = match n.about t with
      | some e => e.effect (v t)
      | none => v t := apply_entries n.entries v t n.distinct

theorem mem_keys {n : Notice} {t : Topic} : t.key ∈ n.keys ↔ (n.about t).isSome := by
  rw [Notice.keys, Notice.about, List.find?_isSome, List.mem_map]
  constructor
  · rintro ⟨e, he, hkey⟩
    exact ⟨e, he, decide_eq_true (key_injective (by rw [topic_key, hkey]))⟩
  · rintro ⟨e, he, htopic⟩
    exact ⟨e, he, by rw [← topic_key, of_decide_eq_true htopic]⟩

/-- A notice leaves alone what it does not tell. -/
theorem apply_untold {n : Notice} {t : Topic} (h : t.key ∉ n.keys) (v : View) : n.apply v t = v t := by
  rw [mem_keys, Bool.not_eq_true, Option.isSome_eq_false_iff, Option.isNone_iff_eq_none] at h
  rw [apply_about, h]

section Told

variable {before now : PromptContext} {owed : List Str}

theorem find_topic {es : List Entry} {e : Entry} {t : Topic} (h : (es.map Entry.topic).Nodup) (he : e ∈ es)
    (ht : e.topic = t) : es.find? (fun e => e.topic = t) = some e :=
  Table.one_of_mem h he (decide_eq_true ht) fun _ he' => (of_decide_eq_true he').trans ht.symm

theorem mem_heldEntry {e : Entry} :
    e ∈ heldEntry before now owed ↔
      (unlines before.held ≠ unlines now.held ∨ HELD ∈ owed) ∧ e = .held now.held := by
  unfold heldEntry
  split
  · rename_i h
    simp [h]
  · rename_i h
    simp [h]

theorem partEntry_none (owing : Bool) : partEntry none none owing = none := by cases owing <;> rfl

theorem entry_part (k : PartKey) :
    (entriesOf before now owed).find? (fun e => e.topic = .part k) =
      partEntry (before.get k) (now.get k) (owed.contains k.1) := by
  cases h : partEntry (before.get k) (now.get k) (owed.contains k.1) with
  | some e =>
    have hk : k ∈ keysOf before now := by
      by_contra hk
      rw [mem_keysOf, not_or, ← get_none, ← get_none] at hk
      rw [hk.1, hk.2, partEntry_none] at h
      cases h
    have hmem : e ∈ entriesOf before now owed := List.mem_append_left _ (List.mem_filterMap.2 ⟨k, hk, h⟩)
    exact find_topic (entriesOf_topics before now owed) hmem (partEntry_topic h)
  | none =>
    rw [List.find?_eq_none]
    intro e he htopic
    rcases List.mem_append.1 he with he | he
    · obtain ⟨j, -, hj⟩ := List.mem_filterMap.1 he
      have heq := partEntry_topic hj
      rw [of_decide_eq_true htopic] at heq
      cases heq
      rw [h] at hj
      cases hj
    · rw [(mem_heldEntry.1 he).2] at htopic
      exact Topic.noConfusion (of_decide_eq_true htopic)

theorem entry_held :
    (entriesOf before now owed).find? (fun e => e.topic = .held) =
      if unlines before.held ≠ unlines now.held ∨ HELD ∈ owed then some (.held now.held) else none := by
  split
  · rename_i h
    have hmem : Entry.held now.held ∈ entriesOf before now owed := List.mem_append_right _ (mem_heldEntry.2 ⟨h, rfl⟩)
    exact find_topic (entriesOf_topics before now owed) hmem rfl
  · rename_i h
    rw [List.find?_eq_none]
    intro e he htopic
    rcases List.mem_append.1 he with he | he
    · obtain ⟨j, -, hj⟩ := List.mem_filterMap.1 he
      exact Topic.noConfusion ((of_decide_eq_true htopic).symm.trans (partEntry_topic hj))
    · exact h (mem_heldEntry.1 he).1

theorem partEntry_still {old cur : Option PromptPart} {owing : Bool} (h : textOf old = textOf cur ∧ owing = false) :
    partEntry old cur owing = none := if_pos h

theorem partEntry_moved {old cur : Option PromptPart} {owing : Bool} {part : PromptPart}
    (h : ¬(textOf old = textOf cur ∧ owing = false)) (hpart : cur.or old = some part) :
    partEntry old cur owing =
      some (if textOf cur = [] then .part part .empty []
        else
          match if textOf old ≠ [] ∧ owing = false then addedLines (lines (textOf old)) (lines (textOf cur))
            else none with
          | some added => .part part .added (unlines added)
          | none => .part part .reads (textOf cur)) := by
  rw [partEntry, if_neg h, hpart, Option.bind_some]
  by_cases hcur : textOf cur = []
  · rw [if_pos hcur, if_pos hcur, if_neg fun hsame => h ⟨hsame.1.trans hcur.symm, hsame.2⟩]
  · rw [if_neg hcur, if_neg hcur]
    split <;> rfl

/-- The added lines, put after the earlier text, are the text. -/
def Literal (old cur : Str) : Prop :=
  old ≠ [] → ∀ added ∈ addedLines (lines old) (lines cur), cur = old ++ newline :: unlines added

instance (old cur : Str) : Decidable (Literal old cur) :=
  inferInstanceAs (Decidable (old ≠ [] → ∀ added ∈ addedLines (lines old) (lines cur), cur = old ++ newline :: unlines added))

/-- The entry of a part, read by one who knows the earlier text or is told the part in full, gives the text. -/
theorem partEntry_effect {old cur : Option PromptPart} {owing : Bool} {had : Str}
    (hlit : owing = false → Literal (textOf old) (textOf cur)) (hhad : owing = false → had = textOf old)
    (hthere : owing = true → old ≠ none ∨ cur ≠ none) :
    (match partEntry old cur owing with
      | some e => e.effect had
      | none => had) = textOf cur := by
  have hpart : textOf old ≠ textOf cur ∨ owing = true → ∃ part, cur.or old = some part := by
    intro h
    cases cur with
    | some p => exact ⟨p, rfl⟩
    | none =>
      cases old with
      | some p => exact ⟨p, rfl⟩
      | none =>
        rcases h with h | h
        · exact absurd rfl h
        · exact absurd (hthere h) (by simp)
  by_cases h : textOf old = textOf cur ∧ owing = false
  · rw [partEntry_still h]
    exact (hhad h.2).trans h.1
  · have hmoved : textOf old ≠ textOf cur ∨ owing = true := by
      cases owing with
      | true => exact .inr rfl
      | false => exact .inl fun heq => h ⟨heq, rfl⟩
    obtain ⟨part, hpart⟩ := hpart hmoved
    rw [partEntry_moved h hpart]
    by_cases hcur : textOf cur = []
    · rw [if_pos hcur, hcur]
      rfl
    · rw [if_neg hcur]
      cases hadded : if textOf old ≠ [] ∧ owing = false then addedLines (lines (textOf old)) (lines (textOf cur))
        else none with
      | none => rfl
      | some added =>
        split at hadded
        · rename_i hold
          rw [hhad hold.2]
          exact (hlit hold.2 hold.1 added hadded).symm
        · cases hadded

/-- Whether a topic's key, when it is owed, names something there is to tell: a part there is or was. -/
def There (before now : PromptContext) (owed : List Str) : Prop :=
  ∀ key ∈ owed, key = HELD ∨ ∃ k ∈ keysOf before now, k.1 = key

instance : Decidable (There before now owed) :=
  inferInstanceAs (Decidable (∀ key ∈ owed, key = HELD ∨ ∃ k ∈ keysOf before now, k.1 = key))

variable (hthere : There before now owed)
include hthere

omit hthere in
theorem about_contextNotice (t : Topic) :
    ((contextNotice before now owed).bind fun n => n.about t) =
      (entriesOf before now owed).find? fun e => e.topic = t := by
  unfold contextNotice
  split
  · rename_i h
    rw [h]
    rfl
  · rfl

/-- What was known, with the notice read, is what the parts say now. -/
theorem contextNotice_tells {v : View} {t : Topic} (hv : t.key ∉ owed → v t = before.view t)
    (hlit : ∀ k ∈ keysOf before now, k.1 ∉ owed → Literal (textOf (before.get k)) (textOf (now.get k))) :
    (match contextNotice before now owed with
      | some n => n.apply v t
      | none => v t) = now.view t := by
  have habout := @about_contextNotice before now owed t
  have heq : (match contextNotice before now owed with
      | some n => n.apply v t
      | none => v t) =
      match (entriesOf before now owed).find? fun e => e.topic = t with
      | some e => e.effect (v t)
      | none => v t := by
    rw [← habout]
    cases contextNotice before now owed with
    | none => rfl
    | some n => exact apply_about n v t
  rw [heq]
  cases t with
  | part k =>
    rw [entry_part]
    refine partEntry_effect (fun h hold => ?_) (fun h => hv ?_) fun h => ?_
    · refine hlit k (mem_keysOf.2 (.inr ?_)) (by simpa using h) hold
      by_contra hk
      rw [get_none.2 hk] at hold
      exact hold rfl
    · simpa [Topic.key] using h
    · have hmem : k.1 ∈ owed := by simpa using h
      rcases hthere k.1 hmem with hk | ⟨j, hj, hjk⟩
      · exact absurd hk k.2
      · rw [Subtype.ext hjk, mem_keysOf] at hj
        rw [Ne, Ne, get_none, get_none]
        tauto
  | held =>
    rw [entry_held]
    split
    · rename_i e he
      split at he
      · cases he
        rfl
      · cases he
    · rename_i he
      split at he
      · cases he
      · rename_i h
        rw [not_or, not_not] at h
        exact (hv h.2).trans h.1

/-- What is owed is told. -/
theorem owed_told {key : Str} (hkey : key ∈ owed) : ∃ n, contextNotice before now owed = some n ∧ key ∈ n.keys := by
  have hfind : ∀ t : Topic, ((entriesOf before now owed).find? fun e => e.topic = t).isSome →
      ∃ n, contextNotice before now owed = some n ∧ t.key ∈ n.keys := by
    intro t ht
    rw [← about_contextNotice] at ht
    obtain ⟨e, he⟩ := Option.isSome_iff_exists.1 ht
    obtain ⟨n, hn, hat⟩ := Option.bind_eq_some_iff.1 he
    exact ⟨n, hn, mem_keys.2 (by rw [hat]; rfl)⟩
  rcases hthere key hkey with rfl | ⟨k, hk, rfl⟩
  · exact hfind .held (by rw [entry_held, if_pos (.inr hkey)]; rfl)
  · refine hfind (.part k) ?_
    have howing : owed.contains k.1 = true := List.contains_iff_mem.2 hkey
    have hpart : ∃ part, (now.get k).or (before.get k) = some part := by
      rw [mem_keysOf] at hk
      rw [← Option.isSome_iff_exists, Option.isSome_or, Bool.or_eq_true, Option.isSome_iff_ne_none,
        Option.isSome_iff_ne_none, Ne, Ne, get_none, get_none]
      tauto
    obtain ⟨part, hpart⟩ := hpart
    rw [entry_part, howing, partEntry_moved (by simp) hpart]
    rfl

end Told

/-! ### Documents shown whole -/

section Whole

/-- A text whose first line is not the cut mark and whose last line is not empty. -/
def Whole (text : Str) : Prop := (lines text).head? ≠ some CUT ∧ (lines text).getLast? ≠ some []

theorem uncut_whole {text : Str} (h : Whole text) : trimEnd (uncut (lines text)) = lines text := by
  rw [uncut, if_neg h.1, trimEnd, List.rdropWhile_eq_self_iff]
  intro hne hlast
  rw [beq_iff_eq] at hlast
  exact h.2 (by rw [List.getLast?_eq_some_getLast hne, hlast])

theorem equal_whole {b n : List Str} (hlen : b.length ≤ n.length) (h : equal b n b.length false = true) :
    n.take b.length = b := by
  refine List.ext_getElem (by simpa using hlen) fun k hk hk' => ?_
  have hat := List.all_eq_true.1 h k (List.mem_range.2 hk')
  simp only [Bool.and_false, Bool.false_eq_true, if_false, Nat.sub_self, Nat.zero_add, beq_iff_eq] at hat
  rw [List.getD_eq_getElem?_getD, List.getD_eq_getElem?_getD, List.getElem?_eq_getElem hk',
    List.getElem?_eq_getElem (Nat.lt_of_lt_of_le hk' hlen)] at hat
  rw [List.getElem_take]
  exact hat.symm

/-- What is told to have been added to a text shown whole, put after it, is the text as it is now. -/
theorem addedLines_whole {old cur : Str} (hold : Whole old) (hcur : Whole cur) : Literal old cur := by
  intro _ added hadded
  unfold addedLines at hadded
  simp only [uncut_whole hold, uncut_whole hcur] at hadded
  split at hadded
  · rename_i h
    cases hadded
    have htake := equal_whole (Nat.le_of_lt h.1) h.2
    have hrest : (lines cur).drop (lines old).length ≠ [] := by
      rw [Ne, List.drop_eq_nil_iff]
      omega
    have hsplit : lines old ++ (lines cur).drop (lines old).length = lines cur := by
      have h := List.take_append_drop (lines old).length (lines cur)
      rwa [htake] at h
    have hjoin := join_append [newline] (splitOn_ne_nil newline old) hrest
    rw [show splitOn newline old = lines old from rfl, hsplit, lines, lines, join_splitOn, join_splitOn,
      List.append_assoc] at hjoin
    exact hjoin
  · split at hadded
    · rename_i h
      exact absurd h hcur.1
    · cases hadded

end Whole

end Antiproton.Prompt
