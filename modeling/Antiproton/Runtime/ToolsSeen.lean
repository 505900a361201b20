import Antiproton.Images.Resolve

/-!
# Antiproton.Runtime.ToolsSeen

Which tools a conversation's model was last offered (`src/runtime/tools-seen.ts`): the record of each conversation, the
change a message takes from it, and a change put back when its message was not written.

* `take_record`, `take_answer`: a take leaves the list it was given, and answers what that list adds to the one before.
* `line_tells`: a notice names or counts every name it is for.
-/

namespace Antiproton.ToolsSeen

open Js
open Images (toText)

/-- A row of `tools_seen`. -/
structure ToolsSeenRow where
  owner : Str
  conversation : Str
  names : Str
deriving DecidableEq

/-- How many added names the line spells out; the rest are counted. -/
def TOOLS_CHANGED_NAMES_MAX : Nat := 8

/-- A change taken for one message, and what to put back if the message is not written. -/
structure ToolsChange where
  notice : Str
  before : Option Str
  after : Str
deriving DecidableEq

def namesOf (text : Str) : List Str :=
  match parse text with
  | some (.arr items) => items.map toText
  | _ => []

def spelled (name : Str) : Str := js "`" ++ name ++ js "`"

def moreText (count : Nat) : Str := js " and " ++ js (toString count) ++ js " more"

def toolsChangedLine (added : List Str) : Str :=
  let shown := join (js ", ") ((added.take TOOLS_CHANGED_NAMES_MAX).map spelled)
  let more := if TOOLS_CHANGED_NAMES_MAX < added.length then moreText (added.length - TOOLS_CHANGED_NAMES_MAX) else []
  js "Your tools changed: you can now use " ++ shown ++ more ++
    js ". Earlier refusals that depended on missing tools no longer apply."

/-- `JSON.stringify([...new Set(current)].sort())`. -/
def listText (current : List Str) : Str :=
  (Json.arr ((current.eraseDups.insertionSort (· ≤ ·)).map .str)).stringify

/-- The names of the second list that the first has not, but for the quiet ones. -/
def addedNames (before after : Str) (quiet : Str → Bool) : List Str :=
  let was := namesOf before
  (namesOf after).filter fun n => !was.contains n && !quiet n

def isFor (owner conversation : Str) (r : ToolsSeenRow) : Bool := r.owner == owner && r.conversation == conversation

def takeToolsChange (table : List ToolsSeenRow) (owner conversation : Str) (current : List Str) (header : Str)
    (quiet : Str → Bool) : List ToolsSeenRow × Option ToolsChange :=
  let had := Table.one (isFor owner conversation) table
  let after := listText current
  let before := had.map (·.names)
  if before = some after then (table, none)
  else
    let recorded := Table.upsert (isFor owner conversation) ⟨owner, conversation, after⟩
      (fun r => { r with names := after }) table
    match before with
    | none => (recorded, none)
    | some before =>
      let added := addedNames before after quiet
      (recorded, if added ≠ [] then some ⟨header ++ toolsChangedLine added, some before, after⟩ else none)

def returnToolsChange (table : List ToolsSeenRow) (owner conversation : Str) (change : ToolsChange) : List ToolsSeenRow :=
  match Table.one (isFor owner conversation) table, change.before with
  | some had, some before =>
    if had.names ≠ change.after then table
    else Table.update (isFor owner conversation) (fun r => { r with names := before }) table
  | _, _ => table

/-! ## The lists as text -/

section Text

variable {current : List Str} {n : Str}

theorem written_names (names : List Str) : WrittenItems (names.map .str) := by
  induction names with
  | nil => trivial
  | cons n names ih => exact ⟨trivial, ih⟩

theorem namesOf_listText (current : List Str) : namesOf (listText current) = current.eraseDups.insertionSort (· ≤ ·) := by
  have hparse : parse (listText current) = some (.arr ((current.eraseDups.insertionSort (· ≤ ·)).map .str)) :=
    parse_stringify (written_names _)
  rw [namesOf, hparse]
  dsimp only
  rw [List.map_map]
  exact List.map_id _

@[simp] theorem mem_listText : n ∈ namesOf (listText current) ↔ n ∈ current := by
  rw [namesOf_listText, List.mem_insertionSort, List.mem_eraseDups]

/-- What one list adds to another. -/
theorem mem_addedNames {before : Str} {quiet : Str → Bool} :
    n ∈ addedNames before (listText current) quiet ↔ n ∈ current ∧ n ∉ namesOf before ∧ quiet n = false := by
  simp [addedNames]

end Text

/-! ## The notice -/

/-- The notice spells the name, or counts it among those it does not spell. -/
def NamesOrCounts (notice : Str) (added : List Str) (n : Str) : Prop :=
  n ∈ added.take TOOLS_CHANGED_NAMES_MAX ∧ spelled n <:+: notice ∨
    n ∈ added.drop TOOLS_CHANGED_NAMES_MAX ∧ moreText (added.drop TOOLS_CHANGED_NAMES_MAX).length <:+: notice

instance (notice : Str) (added : List Str) (n : Str) : Decidable (NamesOrCounts notice added n) :=
  inferInstanceAs (Decidable (_ ∨ _))

theorem NamesOrCounts.mem {notice : Str} {added : List Str} {n : Str} (h : NamesOrCounts notice added n) : n ∈ added := by
  rcases h with ⟨h, -⟩ | ⟨h, -⟩
  · exact List.mem_of_mem_take h
  · exact List.mem_of_mem_drop h

theorem line_tells {added : List Str} {n : Str} (header : Str) (h : n ∈ added) :
    NamesOrCounts (header ++ toolsChangedLine added) added n := by
  rw [← List.take_append_drop TOOLS_CHANGED_NAMES_MAX added, List.mem_append] at h
  unfold toolsChangedLine
  rcases h with hshown | hcounted
  · refine .inl ⟨hshown, ?_⟩
    have hin := infix_join (js ", ") (List.mem_map_of_mem (f := spelled) hshown)
    simp only [List.append_assoc]
    exact (hin.trans (List.prefix_append _ _).isInfix).trans ((List.suffix_append _ _).trans (List.suffix_append _ _)).isInfix
  · refine .inr ⟨hcounted, ?_⟩
    have hmore : TOOLS_CHANGED_NAMES_MAX < added.length := by
      by_contra hle
      rw [List.drop_eq_nil_of_le (Nat.le_of_not_lt hle)] at hcounted
      exact List.not_mem_nil hcounted
    rw [if_pos hmore, List.length_drop]
    simp only [List.append_assoc]
    exact (List.prefix_append _ _).isInfix.trans (((List.suffix_append _ _).trans (List.suffix_append _ _)).trans
      (List.suffix_append _ _)).isInfix

/-! ## The record of a conversation -/

section Record

variable {table : List ToolsSeenRow} {owner conversation header : Str} {current : List Str} {quiet : Str → Bool}
  {change : ToolsChange}

/-- What is recorded of a conversation. -/
def recordOf (table : List ToolsSeenRow) (owner conversation : Str) : Option Str :=
  (Table.one (isFor owner conversation) table).map (·.names)

/-- The notice for what a list adds to what was recorded. -/
def changeFrom (before after header : Str) (quiet : Str → Bool) : Option ToolsChange :=
  if addedNames before after quiet ≠ [] then
    some ⟨header ++ toolsChangedLine (addedNames before after quiet), some before, after⟩
  else none

theorem changeFrom_self (header : Str) (quiet : Str → Bool) :
    changeFrom (listText current) (listText current) header quiet = none := by
  refine if_neg (not_not_intro (List.eq_nil_iff_forall_not_mem.2 fun n hn => ?_))
  obtain ⟨hin, hout, -⟩ := mem_addedNames.1 hn
  exact hout (mem_listText.2 hin)

theorem isFor_iff {r : ToolsSeenRow} : isFor owner conversation r = true ↔ r.owner = owner ∧ r.conversation = conversation := by
  simp [isFor]

/-- Whose row it is, is not told by its names. -/
theorem isFor_names (owner conversation names : Str) (r : ToolsSeenRow) :
    isFor owner conversation { r with names := names } = isFor owner conversation r := rfl

/-- A row of one conversation is of no other. -/
theorem isFor_apart {o c : Str} (hapart : ¬(o = owner ∧ c = conversation)) {r : ToolsSeenRow} (h : isFor o c r = true) :
    isFor owner conversation r = false := by
  obtain ⟨rfl, rfl⟩ := isFor_iff.1 h
  exact Bool.eq_false_iff.2 fun hr => hapart (isFor_iff.1 hr)

theorem take_record : recordOf (takeToolsChange table owner conversation current header quiet).1 owner conversation =
    some (listText current) := by
  have hself : isFor owner conversation ⟨owner, conversation, listText current⟩ = true := isFor_iff.2 ⟨rfl, rfl⟩
  have hwrite : recordOf (Table.upsert (isFor owner conversation) ⟨owner, conversation, listText current⟩
      (fun r => { r with names := listText current }) table) owner conversation = some (listText current) := by
    rw [recordOf, Table.one_upsert_self hself (isFor_names owner conversation _)]
    cases Table.one (isFor owner conversation) table <;> rfl
  unfold takeToolsChange
  dsimp only
  split
  · assumption
  · split
    · exact hwrite
    · exact hwrite

theorem take_answer : (takeToolsChange table owner conversation current header quiet).2 =
    (recordOf table owner conversation).bind fun before => changeFrom before (listText current) header quiet := by
  unfold takeToolsChange
  dsimp only
  rw [← recordOf]
  split
  · rename_i hsame
    rw [hsame]
    exact (changeFrom_self header quiet).symm
  · cases recordOf table owner conversation with
    | none => rfl
    | some before => rfl

/-- A take leaves the records of the other conversations. -/
theorem take_other {o c : Str} (hapart : ¬(o = owner ∧ c = conversation)) :
    recordOf (takeToolsChange table owner conversation current header quiet).1 o c = recordOf table o c := by
  have hwrite : recordOf (Table.upsert (isFor owner conversation) ⟨owner, conversation, listText current⟩
      (fun r => { r with names := listText current }) table) o c = recordOf table o c := by
    have hnew : isFor o c ⟨owner, conversation, listText current⟩ = false :=
      Bool.eq_false_iff.2 fun h => hapart ⟨(isFor_iff.1 h).1.symm, (isFor_iff.1 h).2.symm⟩
    have hone := Table.one_upsert_other hnew (isFor_names o c (listText current)) (fun r hr => isFor_apart hapart hr) table
    exact congrArg (Option.map _) hone
  unfold takeToolsChange
  dsimp only
  split
  · rfl
  · split
    · exact hwrite
    · exact hwrite

/-- A change put back. -/
theorem return_record {before : Str} (hbefore : change.before = some before) :
    recordOf (returnToolsChange table owner conversation change) owner conversation =
      if recordOf table owner conversation = some change.after then some before else recordOf table owner conversation := by
  unfold returnToolsChange
  cases hhad : Table.one (isFor owner conversation) table with
  | none =>
    have hnone : recordOf table owner conversation = none := by rw [recordOf, hhad, Option.map_none]
    rw [hnone]
    simp
  | some had =>
    have hsome : recordOf table owner conversation = some had.names := by rw [recordOf, hhad, Option.map_some]
    rw [hbefore, hsome]
    dsimp only
    by_cases hmoved : had.names = change.after
    · rw [if_neg (not_not_intro hmoved), if_pos (congrArg some hmoved), recordOf,
        Table.one_update_self (isFor_names owner conversation before), hhad]
      rfl
    · rw [if_pos hmoved, if_neg fun h => hmoved (Option.some.inj h), hsome]

theorem return_other {o c : Str} (hapart : ¬(o = owner ∧ c = conversation)) :
    recordOf (returnToolsChange table owner conversation change) o c = recordOf table o c := by
  unfold returnToolsChange
  split
  · rename_i had before hhad hbefore
    split
    · rfl
    · have hone := Table.one_update_other (isFor_names o c before) (fun r hr => isFor_apart hapart hr) table
      exact congrArg (Option.map _) hone
  · rfl

end Record

end Antiproton.ToolsSeen
