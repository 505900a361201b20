import Mathlib.Data.List.Nodup
import Antiproton.Core.JsonText
import Antiproton.Core.JsonParse
import Antiproton.Document.Lines

/-!
# Antiproton.Runtime.ToolNames

The names a model is offered for the tools of an agent's mounts (`modelName`, `modelToolName` and
`qualifyMountedTools` in `src/runtime/pi-tools.ts`).

* `tieBreak_endsAt` — the tie-break gives the first name it tries that is not used.
* `free_in_block`  — among tags of `d` digits one is free, while fewer names are used than there are such tags.
* `offered_names` — the names are unique, legal and stable exactly where each name already carrying its alias is legal
  and not yet given, and no name is made with a tag that the next qualifying would change.
-/

namespace Antiproton.ToolNames

open Js Document

/-- What a model may be given as a tool's name: `[A-Za-z0-9_-]`. -/
def nameUnit (u : UInt16) : Bool :=
  (unit 'A' ≤ u && u ≤ unit 'Z') || (unit 'a' ≤ u && u ≤ unit 'z') || isDigit u || u == unit '_' || u == unit '-'

/-- `modelName`. -/
def modelName (name : Str) : Str := name.map fun u => if nameUnit u then u else unit '_'

/-- `MAX_NAME`. -/
def maxName : Nat := 64

/-- What stands before a tool's name: its mount's alias, and two underscores. -/
def qualifier (alias_ : Str) : Str := alias_ ++ js "__"

/-- `modelToolName`. -/
def modelToolName (alias_ tool : Str) : Str :=
  let a := modelName alias_
  let room := max 1 (maxName - a.length - 2)
  a ++ js "__" ++ (modelName tool).take room

/-- `MountedTool`: its name and address, and the rest of it. -/
structure MountedTool (T : Type) where
  name : Str
  address : Str
  rest : T
deriving DecidableEq, Repr

/-- `modelName(t.address.split(".")[0])`. -/
def aliasOf {T : Type} (t : MountedTool T) : Str := modelName ((splitOn (unit '.') t.address).headD [])

/-- The name tried after `name`, with tag `n`. -/
def tagged (name : Str) (n : Nat) : Str :=
  let tag := js (toString n)
  name.take (maxName - tag.length) ++ tag

/-- How many tags are tried: a tag is never longer than a name. -/
def tagLimit : Nat := 10 ^ 63

/-- The tie-break's loop, from tag `n`. -/
def tieBreak (used : List Str) : Nat → Nat → Str → Str
  | 0, _, name => name
  | fuel + 1, n, name => if used.contains name then tieBreak used fuel (n + 1) (tagged name n) else name

/-- The name a tool is given when the names of `used` are taken. -/
def offeredName {T : Type} (used : List Str) (t : MountedTool T) : Str :=
  if startsWith (qualifier (aliasOf t)) t.name then t.name
  else tieBreak used tagLimit 2 (modelToolName (aliasOf t) t.name)

/-- `qualifyMountedTools`, with the names already used. -/
def qualifyFrom {T : Type} (used : List Str) : List (MountedTool T) → List (MountedTool T)
  | [] => []
  | t :: ts =>
    let name := offeredName used t
    { t with name := name } :: qualifyFrom (name :: used) ts

/-- `qualifyMountedTools`. -/
def qualifyMountedTools {T : Type} (tools : List (MountedTool T)) : List (MountedTool T) := qualifyFrom [] tools

/-! ## What is promised of the names -/

/-- `^[A-Za-z0-9_-]+$`, and at most 64 characters long. -/
structure Legal (name : Str) : Prop where
  units : ∀ u ∈ name, nameUnit u = true
  nonempty : name ≠ []
  short : name.length ≤ maxName

section

variable {T : Type}

/-- A tool of a mount: its address is `alias.tool`, with an alias of at most 61 legal characters. -/
def Mounted (t : MountedTool T) : Prop :=
  ∃ alias_ tool, t.address = alias_ ++ unit '.' :: tool ∧ (∀ u ∈ alias_, nameUnit u = true) ∧ alias_.length ≤ 61

/-- The names offered are unique, legal and stable, and nothing else of the tools changes. -/
structure Offered (tools : List (MountedTool T)) : Prop where
  unique : ((qualifyMountedTools tools).map (·.name)).Nodup
  legal : ∀ t ∈ qualifyMountedTools tools, Legal t.name
  addresses : (qualifyMountedTools tools).map (·.address) = tools.map (·.address)
  rests : (qualifyMountedTools tools).map (·.rest) = tools.map (·.rest)
  stable : qualifyMountedTools (qualifyMountedTools tools) = qualifyMountedTools tools

/-- A condition on each tool, and the names used when it is reached. -/
def AtEach (P : List Str → MountedTool T → Prop) : List Str → List (MountedTool T) → Prop
  | _, [] => True
  | used, t :: ts => P used t ∧ AtEach P (offeredName used t :: used) ts

/-- The tool's name already carries its mount's alias. -/
def Own (t : MountedTool T) : Prop := startsWith (qualifier (aliasOf t)) t.name = true

/-- A name that already carries its alias is legal, and not yet given. -/
def OwnSafe (used : List Str) (t : MountedTool T) : Prop := Own t → Legal t.name ∧ t.name ∉ used

/-- The name tried after `k` tags, from tag `n`. -/
def tried : Nat → Str → Nat → Str
  | _, name, 0 => name
  | n, name, k + 1 => tried (n + 1) (tagged name n) k

/-- The tie-break ends at the name with `k` tags: it is free, and those tried before it are used. -/
def EndsAt (used : List Str) (name : Str) (k : Nat) : Prop :=
  k ≤ tagLimit ∧ tried 2 name k ∉ used ∧ ∀ j < k, tried 2 name j ∈ used

/-- A name made for a tool is made again when the tool is called by it: its tag leaves the alias whole, or the names
with shorter tags that would be tried for a tool so called are all used. -/
def Keeps (used : List Str) (t : MountedTool T) : Prop :=
  ¬ Own t → ∃ k, EndsAt used (modelToolName (aliasOf t) t.name) k ∧
    (k + 1 < 10 ^ (62 - (aliasOf t).length) ∨ ∀ j, j + 1 < 10 ^ (62 - (aliasOf t).length) →
      tried 2 (modelToolName (aliasOf t) (tried 2 (modelToolName (aliasOf t) t.name) k)) j ∈ used)

end

/-! ## Legal units -/

theorem modelName_units (name : Str) : ∀ u ∈ modelName name, nameUnit u = true := by
  intro u hu
  obtain ⟨v, -, rfl⟩ := List.mem_map.1 hu
  split
  · rename_i h
    exact h
  · decide

theorem modelName_self {name : Str} (h : ∀ u ∈ name, nameUnit u = true) : modelName name = name := by
  rw [modelName, List.map_congr_left (g := id)]
  · exact List.map_id name
  · intro u hu
    simp [h u hu]

theorem digits_units (n : Nat) : ∀ u ∈ js (toString n), nameUnit u = true := by
  intro u hu
  obtain ⟨c, rest, heq, hdigits, -⟩ := decimal_nat n
  rw [heq] at hu
  simp [nameUnit, hdigits u hu]

theorem digits_length {n d : Nat} (hd : 0 < d) : (js (toString n)).length ≤ d ↔ n < 10 ^ d := by
  rw [units_nat, List.length_map]
  exact Nat.length_toDigits_le_iff (by omega) hd

theorem qualifier_length (alias_ : Str) : (qualifier alias_).length = alias_.length + 2 := by
  rw [qualifier, List.length_append]
  rfl

/-! ## The names tried -/

/-- The name tried last, of those tried so far. -/
theorem tried_succ (n : Nat) (name : Str) (k : Nat) : tried n name (k + 1) = tagged (tried n name k) (n + k) := by
  induction k generalizing n name with
  | zero => rfl
  | succ k ih =>
    rw [tried, ih, tried]
    congr 1
    omega

/-- A name under a qualifier: legal, and no longer than a name may be. -/
structure Under (q name : Str) : Prop where
  starts : q <+: name
  units : ∀ u ∈ name, nameUnit u = true
  short : name.length ≤ maxName

theorem under_tagged {q name : Str} {n d : Nat} (h : Under q name) (hd : 0 < d) (hn : n < 10 ^ d)
    (hroom : q.length + d ≤ maxName) : Under q (tagged name n) := by
  have hdigits := (digits_length hd).2 hn
  unfold tagged
  refine ⟨?_, ?_, ?_⟩
  · exact (List.prefix_take_iff.2 ⟨h.starts, by omega⟩).trans (List.prefix_append _ _)
  · intro u hu
    rcases List.mem_append.1 hu with hu | hu
    · exact h.units u (List.mem_of_mem_take hu)
    · exact digits_units n u hu
  · rw [List.length_append, List.length_take]
    omega

theorem under_tried {q name : Str} {k d : Nat} (h : Under q name) (hd : 0 < d) (hk : k + 1 < 10 ^ d)
    (hroom : q.length + d ≤ maxName) : Under q (tried 2 name k) := by
  induction k with
  | zero => exact h
  | succ k ih =>
    rw [tried_succ]
    exact under_tagged (ih (by omega)) hd (by omega) hroom

theorem under_modelToolName {alias_ : Str} (hunits : ∀ u ∈ alias_, nameUnit u = true) (hlen : alias_.length ≤ 61)
    (tool : Str) : Under (qualifier alias_) (modelToolName alias_ tool) := by
  unfold modelToolName
  rw [modelName_self hunits]
  refine ⟨List.prefix_append _ _, ?_, ?_⟩
  · intro u hu
    rcases List.mem_append.1 hu with hu | hu
    · have hunder : ∀ v ∈ js "__", nameUnit v = true := List.all_eq_true.1 (by decide)
      rcases List.mem_append.1 hu with hu | hu
      · exact hunits u hu
      · exact hunder u hu
    · exact modelName_units tool u (List.mem_of_mem_take hu)
  · have hq := qualifier_length alias_
    rw [qualifier] at hq
    rw [List.length_append, hq, List.length_take, maxName]
    omega

theorem tried_length {q name : Str} (h : Under q name) (k : Nat) : q.length ≤ (tried 2 name k).length := by
  have hq := h.starts.length_le
  have hshort := h.short
  induction k with
  | zero => exact hq
  | succ k ih =>
    rw [tried_succ, tagged, List.length_append, List.length_take]
    omega

theorem digits_length_lt {n d : Nat} (hd : 0 < d) (hn : 10 ^ d ≤ n) : d < (js (toString n)).length := by
  have hle := digits_length (n := n) hd
  omega

/-- A tag too long leaves its name without the two underscores. -/
theorem tried_cut {alias_ name : Str} {d k : Nat} (h : Under (qualifier alias_) name) (hd : 0 < d)
    (hroom : (qualifier alias_).length + d = maxName) (hk : 10 ^ d ≤ k + 1) : ¬ qualifier alias_ <+: tried 2 name k := by
  intro hstarts
  obtain ⟨k, rfl⟩ : ∃ j, k = j + 1 := ⟨k - 1, by have := Nat.pow_le_pow_right (show 0 < 10 by omega) hd; omega⟩
  have htag := digits_length_lt (n := 2 + k) hd (by omega)
  have hlong := tried_length h k
  have hq := qualifier_length alias_
  rw [tried_succ, tagged] at hstarts
  have hcut : ((tried 2 name k).take (maxName - (js (toString (2 + k))).length)).length ≤ alias_.length + 1 := by
    rw [List.length_take]
    omega
  -- the second underscore stands where the tag now is
  have hlast : unit '_' ∈ js (toString (2 + k)) := by
    obtain ⟨rest, hrest⟩ := hstarts
    have hat : (qualifier alias_ ++ rest)[alias_.length + 1]? = some (unit '_') := by
      rw [qualifier, List.append_assoc, List.getElem?_append_right (by omega)]
      rw [show alias_.length + 1 - alias_.length = 1 by omega]
      rfl
    rw [hrest, List.getElem?_append_right hcut] at hat
    exact List.mem_of_getElem? hat
  obtain ⟨c, rest, heq, hdigits, -⟩ := decimal_nat (2 + k)
  rw [heq] at hlast
  exact absurd (hdigits _ hlast) (by decide)

/-- From a tag too long on, the names tried under one alias are the same. -/
theorem tried_meet {q name name' : Str} {d k : Nat} (h : Under q name) (h' : Under q name') (hd : 0 < d)
    (hroom : q.length + d = maxName) (hk : 10 ^ d ≤ k + 1) : tried 2 name k = tried 2 name' k := by
  have hten := Nat.pow_le_pow_right (show 0 < 10 by omega) hd
  have hbase : tried 2 name (10 ^ d - 2 + 1) = tried 2 name' (10 ^ d - 2 + 1) := by
    have htag := digits_length_lt (n := 2 + (10 ^ d - 2)) hd (by omega)
    have hcut : ∀ {x : Str}, Under q x → (tried 2 x (10 ^ d - 2)).take (maxName - (js (toString (2 + (10 ^ d - 2)))).length) =
        q.take (maxName - (js (toString (2 + (10 ^ d - 2)))).length) := by
      intro x hx
      obtain ⟨rest, hrest⟩ := (under_tried (k := 10 ^ d - 2) hx hd (by omega) (by omega)).starts
      rw [← hrest, List.take_append_of_le_length (by omega)]
    rw [tried_succ, tried_succ, tagged, tagged, hcut h, hcut h']
  obtain ⟨i, rfl⟩ : ∃ i, k = 10 ^ d - 2 + 1 + i := ⟨k - (10 ^ d - 2 + 1), by omega⟩
  clear hk
  induction i with
  | zero => exact hbase
  | succ i ih => rw [← Nat.add_assoc, tried_succ, tried_succ, ih]

/-- The tie-break gives the first name it tries that is not used. -/
theorem tieBreak_spec (used : List Str) (fuel n : Nat) (name : Str) :
    ∃ k ≤ fuel, tieBreak used fuel n name = tried n name k ∧ (∀ j < k, tried n name j ∈ used) ∧
      (k < fuel → tried n name k ∉ used) := by
  induction fuel generalizing n name with
  | zero => exact ⟨0, Nat.le_refl 0, rfl, fun j hj => absurd hj (Nat.not_lt_zero j), fun h => absurd h (Nat.lt_irrefl 0)⟩
  | succ fuel ih =>
    rw [tieBreak]
    by_cases hused : name ∈ used
    · obtain ⟨k, hk, heq, hbefore, hfree⟩ := ih (n + 1) (tagged name n)
      refine ⟨k + 1, Nat.succ_le_succ hk, ?_, ?_, fun h => hfree (Nat.lt_of_succ_lt_succ h)⟩
      · rw [if_pos (by simpa using hused)]
        exact heq
      · intro j hj
        cases j with
        | zero => exact hused
        | succ j => exact hbefore j (Nat.lt_of_succ_lt_succ hj)
    · refine ⟨0, Nat.zero_le _, ?_, fun j hj => absurd hj (Nat.not_lt_zero j), fun _ => hused⟩
      rw [if_neg (by simpa using hused)]
      rfl

/-- The tie-break gives a free name exactly where it ends at one. -/
theorem tieBreak_endsAt {used : List Str} {name x : Str} :
    (tieBreak used tagLimit 2 name = x ∧ x ∉ used) ↔ ∃ k, EndsAt used name k ∧ tried 2 name k = x := by
  obtain ⟨k, hk, heq, hbefore, -⟩ := tieBreak_spec used tagLimit 2 name
  constructor
  · rintro ⟨rfl, hfree⟩
    rw [heq] at hfree ⊢
    exact ⟨k, ⟨hk, hfree, hbefore⟩, rfl⟩
  · rintro ⟨j, ⟨hj, hfree, hused⟩, rfl⟩
    obtain ⟨k, hk, heq, hbefore, hends⟩ := tieBreak_spec used tagLimit 2 name
    have hsame : k = j := by
      rcases Nat.lt_trichotomy k j with hlt | heq | hgt
      · exact absurd (hused k hlt) (hends (by omega))
      · exact heq
      · exact absurd (hbefore j hgt) hfree
    rw [heq, hsame]
    exact ⟨rfl, hfree⟩

/-- Once one of the names to try is free, the tie-break ends at it or before. -/
theorem endsAt_of_free {used : List Str} {name : Str} {k : Nat} (hk : k < tagLimit) (hfree : tried 2 name k ∉ used) :
    ∃ j ≤ k, EndsAt used name j := by
  obtain ⟨j, hj, -, hbefore, hends⟩ := tieBreak_spec used tagLimit 2 name
  have hle : j ≤ k := by
    rcases Nat.lt_or_ge k j with hlt | hge
    · exact absurd (hbefore k hlt) hfree
    · exact hge
  exact ⟨j, hle, hj, hends (Nat.lt_of_le_of_lt hle hk), hbefore⟩

theorem toString_injective {m n : Nat} (h : toString m = toString n) : m = n := by
  rw [Nat.toString_eq_repr, Nat.toString_eq_repr, ← String.toList_inj, Nat.toList_repr, Nat.toList_repr] at h
  rw [← Nat.ofDigitChars_toDigits (b := 10) (n := m) (by omega) (by omega), h, Nat.ofDigitChars_toDigits (by omega) (by omega)]

/-- Names with different tags of one length are different. -/
theorem tried_injective {name : Str} {d j k : Nat} (hd : 2 ≤ d) (hj : 10 ^ (d - 1) ≤ j + 2) (hj' : j + 2 < 10 ^ d)
    (hk : 10 ^ (d - 1) ≤ k + 2) (hk' : k + 2 < 10 ^ d) (h : tried 2 name (j + 1) = tried 2 name (k + 1)) : j = k := by
  have hlen : ∀ n, 10 ^ (d - 1) ≤ n → n < 10 ^ d → (js (toString n)).length = d := by
    intro n hlow hhigh
    have hle := (digits_length (n := n) (show 0 < d by omega)).2 hhigh
    have hgt : ¬ (js (toString n)).length ≤ d - 1 := by
      rw [digits_length (by omega)]
      omega
    omega
  rw [tried_succ, tried_succ, tagged, tagged] at h
  have hsame : (js (toString (2 + j))).length = (js (toString (2 + k))).length := by
    rw [hlen _ (by omega) (by omega), hlen _ (by omega) (by omega)]
  have htags := js_injective (List.append_inj_right' h hsame)
  have := toString_injective htags
  omega

/-- Among the names with a tag of `d` digits one is free, while fewer are used. -/
theorem free_in_block {used : List Str} (name : Str) {d : Nat} (hd : 2 ≤ d) (hused : used.length < 9 * 10 ^ (d - 1)) :
    ∃ k, k + 1 < 10 ^ d ∧ tried 2 name k ∉ used := by
  by_contra hall
  have hin : ∀ k, k + 1 < 10 ^ d → tried 2 name k ∈ used := by
    intro k hk
    by_contra hfree
    exact hall ⟨k, hk, hfree⟩
  have hpow : 10 ^ d = 10 * 10 ^ (d - 1) := by
    conv_lhs => rw [show d = d - 1 + 1 by omega, Nat.pow_succ]
    omega
  have hten : 10 ≤ 10 ^ (d - 1) := Nat.le_self_pow (by omega) 10
  let block := (List.range (9 * 10 ^ (d - 1))).map fun i => tried 2 name (10 ^ (d - 1) - 2 + i + 1)
  have hnodup : block.Nodup := by
    refine List.Nodup.map_on ?_ List.nodup_range
    intro i hi j hj heq
    rw [List.mem_range] at hi hj
    have := tried_injective hd (by omega) (by omega) (by omega) (by omega) heq
    omega
  have hsub : block ⊆ used := by
    intro x hx
    obtain ⟨i, hi, rfl⟩ := List.mem_map.1 hx
    rw [List.mem_range] at hi
    exact hin _ (by omega)
  have hle := hnodup.length_le_of_subset hsub
  rw [List.length_map, List.length_range] at hle
  omega

/-- The loop ends: the name given is not used. -/
theorem tieBreak_ends {used : List Str} (name : Str) (hused : used.length < 9 * 10 ^ 61) :
    tieBreak used tagLimit 2 name ∉ used := by
  obtain ⟨k, hk, hfree⟩ := free_in_block (d := 62) name (by omega) hused
  obtain ⟨j, -, hends⟩ := endsAt_of_free (Nat.lt_trans (by omega) (by decide : (10 : Nat) ^ 62 < tagLimit)) hfree
  obtain ⟨heq, hj⟩ := tieBreak_endsAt.2 ⟨j, hends, rfl⟩
  rw [heq]
  exact hj

/-! ## A tool's name -/

section

variable {T : Type} {used : List Str} {t : MountedTool T} {ts : List (MountedTool T)}

theorem own_iff : Own t ↔ qualifier (aliasOf t) <+: t.name := List.isPrefixOf_iff_prefix

theorem offeredName_own (h : Own t) : offeredName used t = t.name := if_pos h

theorem aliasOf_mounted (h : Mounted t) :
    (∀ u ∈ aliasOf t, nameUnit u = true) ∧ (aliasOf t).length ≤ 61 := by
  obtain ⟨alias_, tool, haddress, hunits, hlen⟩ := h
  have hdot : unit '.' ∉ alias_ := by
    intro hmem
    exact absurd (hunits _ hmem) (by decide)
  have hsplit : aliasOf t = alias_ := by
    rw [aliasOf, haddress, splitOn_append, splitOn_single hdot]
    exact modelName_self hunits
  rw [hsplit]
  exact ⟨hunits, hlen⟩

theorem under_made (hmounted : Mounted t) (tool : Str) :
    Under (qualifier (aliasOf t)) (modelToolName (aliasOf t) tool) :=
  under_modelToolName (aliasOf_mounted hmounted).1 (aliasOf_mounted hmounted).2 tool

/-- The alias, the underscores and the longest tag that leaves them whole fill a name. -/
theorem room_eq (hmounted : Mounted t) : (qualifier (aliasOf t)).length + (62 - (aliasOf t).length) = maxName := by
  have hlen := (aliasOf_mounted hmounted).2
  rw [qualifier_length, maxName]
  omega

/-- A name made for a tool that is free, is legal; and it carries the alias exactly where its tag leaves it whole. -/
theorem offeredName_made {k : Nat} (hmounted : Mounted t) (hown : ¬ Own t)
    (hends : EndsAt used (modelToolName (aliasOf t) t.name) k) :
    offeredName used t = tried 2 (modelToolName (aliasOf t) t.name) k ∧
      (qualifier (aliasOf t) <+: offeredName used t ↔ k + 1 < 10 ^ (62 - (aliasOf t).length)) := by
  have hlen := (aliasOf_mounted hmounted).2
  have hname : offeredName used t = tried 2 (modelToolName (aliasOf t) t.name) k :=
    (if_neg hown).trans (tieBreak_endsAt.2 ⟨k, hends, rfl⟩).1
  refine ⟨hname, ?_⟩
  rw [hname]
  constructor
  · intro hstarts
    by_contra hlong
    exact tried_cut (under_made hmounted _) (by omega) (room_eq hmounted) (by omega) hstarts
  · intro hfits
    exact (under_tried (under_made hmounted _) (by omega) hfits (by rw [room_eq hmounted])).starts

theorem tried_legal (hmounted : Mounted t) {k : Nat} (hk : k ≤ tagLimit) :
    Legal (tried 2 (modelToolName (aliasOf t) t.name) k) := by
  have hunder := under_made hmounted t.name
  have hlong := tried_length hunder k
  rw [qualifier_length] at hlong
  refine ⟨?_, List.ne_nil_of_length_pos (by omega), ?_⟩
  · clear hlong hk
    induction k with
    | zero => exact hunder.units
    | succ k ih =>
      intro u hu
      rw [tried_succ, tagged] at hu
      rcases List.mem_append.1 hu with hu | hu
      · exact ih u (List.mem_of_mem_take hu)
      · exact digits_units _ u hu
  · cases k with
    | zero => exact hunder.short
    | succ k =>
      have htag : (js (toString (2 + k))).length ≤ 64 :=
        (digits_length (by omega)).2 (Nat.lt_of_le_of_lt (show 2 + k ≤ tagLimit + 1 by omega) (by decide))
      rw [tried_succ, tagged, List.length_append, List.length_take, maxName]
      omega

/-- A free name is made again for a tool called by it, exactly where the name is kept. -/
theorem offeredName_again (hmounted : Mounted t) (hown : ¬ Own t) (hfree : offeredName used t ∉ used) :
    offeredName used { t with name := offeredName used t } = offeredName used t ↔ Keeps used t := by
  obtain ⟨k, hends, -⟩ := tieBreak_endsAt.1 ⟨((if_neg hown).symm : _ = offeredName used t), hfree⟩
  obtain ⟨hname, hstarts⟩ := offeredName_made hmounted hown hends
  have hlen := (aliasOf_mounted hmounted).2
  have hsame : ∀ j, EndsAt used (modelToolName (aliasOf t) t.name) j → j = k := by
    intro j hj
    rcases Nat.lt_trichotomy j k with hlt | heq | hgt
    · exact absurd (hends.2.2 j hlt) hj.2.1
    · exact heq
    · exact absurd (hj.2.2 k hgt) hends.2.1
  by_cases hwhole : k + 1 < 10 ^ (62 - (aliasOf t).length)
  · have hcarries : Own { t with name := offeredName used t } := own_iff.2 (hstarts.2 hwhole)
    exact ⟨fun _ _ => ⟨k, hends, Or.inl hwhole⟩, fun _ => offeredName_own hcarries⟩
  · have hcarries : ¬ Own { t with name := offeredName used t } := fun h => hwhole (hstarts.1 (own_iff.1 h))
    have hagain : offeredName used { t with name := offeredName used t } =
        tieBreak used tagLimit 2 (modelToolName (aliasOf t) (offeredName used t)) := if_neg hcarries
    have hmeet := fun {j : Nat} (hj : 10 ^ (62 - (aliasOf t).length) ≤ j + 1) =>
      tried_meet (under_made hmounted t.name) (under_made hmounted (offeredName used t)) (by omega) (room_eq hmounted) hj
    rw [hagain]
    constructor
    · intro hkept _
      refine ⟨k, hends, Or.inr fun j hj => ?_⟩
      obtain ⟨i, hi, heq⟩ := tieBreak_endsAt.1 ⟨hkept, hfree⟩
      rw [← hname]
      refine hi.2.2 j ?_
      by_contra hle
      refine hcarries (own_iff.2 (?_ : qualifier (aliasOf t) <+: offeredName used t))
      rw [← heq]
      exact (under_tried (d := 62 - (aliasOf t).length) (under_made hmounted _) (by omega) (by omega)
        (by rw [room_eq hmounted])).starts
    · intro hkeeps
      obtain ⟨j, hj, hor⟩ := hkeeps hown
      rw [hsame j hj, ← hname] at hor
      have hused := hor.resolve_left hwhole
      refine (tieBreak_endsAt.2 ⟨k, ⟨hends.1, ?_, ?_⟩, ?_⟩).1
      · rw [← hmeet (by omega)]
        exact hends.2.1
      · intro j hj
        by_cases hshort : j + 1 < 10 ^ (62 - (aliasOf t).length)
        · exact hused j hshort
        · rw [← hmeet (by omega)]
          exact hends.2.2 j hj
      · rw [← hmeet (by omega)]
        exact hname.symm

/-- Few tools never make a tag grow into an alias of at most 60 characters. -/
theorem keeps_of_few (hlen : (aliasOf t).length ≤ 60) (hused : used.length < 9 * 10 ^ (61 - (aliasOf t).length)) :
    Keeps used t := by
  intro _
  obtain ⟨k, hk, hfree⟩ := free_in_block (d := 62 - (aliasOf t).length) (modelToolName (aliasOf t) t.name) (by omega) (by
    rw [show 62 - (aliasOf t).length - 1 = 61 - (aliasOf t).length by omega]
    exact hused)
  have hpow : 10 ^ (62 - (aliasOf t).length) ≤ 10 ^ 63 := Nat.pow_le_pow_right (by omega) (by omega)
  obtain ⟨j, hj, hends⟩ := endsAt_of_free (Nat.lt_of_lt_of_le (show k < 10 ^ (62 - (aliasOf t).length) by omega) hpow) hfree
  exact ⟨j, hends, Or.inl (by omega)⟩

/-! ## All the names -/

theorem AtEach.imp {P Q : List Str → MountedTool T → Prop} (h : ∀ t ∈ ts, ∀ used, P used t → Q used t)
    (hP : AtEach P used ts) : AtEach Q used ts := by
  induction ts generalizing used with
  | nil => trivial
  | cons t ts ih =>
    exact ⟨h t List.mem_cons_self used hP.1, ih (fun x hx => h x (List.mem_cons_of_mem _ hx)) hP.2⟩

theorem AtEach.and {P Q : List Str → MountedTool T → Prop} (hP : AtEach P used ts) (hQ : AtEach Q used ts) :
    AtEach (fun used t => P used t ∧ Q used t) used ts := by
  induction ts generalizing used with
  | nil => trivial
  | cons t ts ih => exact ⟨⟨hP.1, hQ.1⟩, ih hP.2 hQ.2⟩

theorem qualifyFrom_kept {A : Type} (f : MountedTool T → A) (hf : ∀ t name, f { t with name := name } = f t) :
    (qualifyFrom used ts).map f = ts.map f := by
  induction ts generalizing used with
  | nil => rfl
  | cons t ts ih => rw [qualifyFrom, List.map_cons, List.map_cons, ih, hf]

/-- The names are unique exactly when each is new as it is given. -/
theorem unique_iff : (((qualifyFrom used ts).map (·.name)).Nodup ∧ ∀ t ∈ qualifyFrom used ts, t.name ∉ used) ↔
    AtEach (fun used t => offeredName used t ∉ used) used ts := by
  induction ts generalizing used with
  | nil => simp [qualifyFrom, AtEach]
  | cons t ts ih =>
    rw [qualifyFrom, AtEach, ← ih, List.map_cons, List.nodup_cons]
    constructor
    · rintro ⟨⟨hnew, hnodup⟩, hfree⟩
      refine ⟨hfree _ List.mem_cons_self, hnodup, fun x hx hmem => ?_⟩
      rcases List.mem_cons.1 hmem with heq | hmem
      · exact hnew (List.mem_map.2 ⟨x, hx, heq⟩)
      · exact hfree x (List.mem_cons_of_mem _ hx) hmem
    · rintro ⟨hnow, hnodup, hfree⟩
      refine ⟨⟨fun hmem => ?_, hnodup⟩, fun x hx => ?_⟩
      · obtain ⟨x, hx, heq⟩ := List.mem_map.1 hmem
        exact hfree x hx (heq ▸ List.mem_cons_self)
      · rcases List.mem_cons.1 hx with rfl | hx
        · exact hnow
        · exact fun hmem => hfree x hx (List.mem_cons_of_mem _ hmem)

theorem legal_iff : (∀ t ∈ qualifyFrom used ts, Legal t.name) ↔
    AtEach (fun used t => Legal (offeredName used t)) used ts := by
  induction ts generalizing used with
  | nil => simp [qualifyFrom, AtEach]
  | cons t ts ih => rw [qualifyFrom, AtEach, ← ih, List.forall_mem_cons]

/-- The tools are qualified again to themselves exactly when each name given is given again. -/
theorem stable_iff : qualifyFrom used (qualifyFrom used ts) = qualifyFrom used ts ↔
    AtEach (fun used t => offeredName used { t with name := offeredName used t } = offeredName used t) used ts := by
  induction ts generalizing used with
  | nil => simp [qualifyFrom, AtEach]
  | cons t ts ih =>
    rw [qualifyFrom, qualifyFrom, AtEach, ← ih, List.cons.injEq]
    constructor
    · rintro ⟨hhead, htail⟩
      have hname : offeredName used { t with name := offeredName used t } = offeredName used t := congrArg (·.name) hhead
      rw [hname] at htail
      exact ⟨hname, htail⟩
    · rintro ⟨hname, htail⟩
      rw [hname]
      exact ⟨rfl, htail⟩

/-- A step of the qualifying is right exactly where a name that carries its alias may be kept, and one made is kept. -/
theorem step_iff (hmounted : Mounted t) : (offeredName used t ∉ used ∧ Legal (offeredName used t) ∧
    offeredName used { t with name := offeredName used t } = offeredName used t) ↔ OwnSafe used t ∧ Keeps used t := by
  by_cases hown : Own t
  · have hcarries : Own { t with name := offeredName used t } := by
      rw [offeredName_own hown]
      exact hown
    rw [offeredName_own hcarries, offeredName_own hown]
    exact ⟨fun ⟨hnew, hlegal, _⟩ => ⟨fun _ => ⟨hlegal, hnew⟩, fun h => absurd hown h⟩,
      fun ⟨hsafe, _⟩ => ⟨(hsafe hown).2, (hsafe hown).1, rfl⟩⟩
  · constructor
    · rintro ⟨hnew, -, hagain⟩
      exact ⟨fun h => absurd h hown, (offeredName_again hmounted hown hnew).1 hagain⟩
    · rintro ⟨-, hkeeps⟩
      obtain ⟨k, hends, -⟩ := hkeeps hown
      have hname := (offeredName_made hmounted hown hends).1
      have hnew : offeredName used t ∉ used := by
        rw [hname]
        exact hends.2.1
      refine ⟨hnew, ?_, (offeredName_again hmounted hown hnew).2 hkeeps⟩
      rw [hname]
      exact tried_legal hmounted hends.1

end

/-- The names are unique, legal and stable exactly where each name that already carries its alias is legal and not yet
given, and no name is made with a tag that the next qualifying would change. -/
theorem offered_names {T : Type} (tools : List (MountedTool T)) (hmounted : ∀ t ∈ tools, Mounted t) :
    Offered tools ↔ AtEach (fun used t => OwnSafe used t ∧ Keeps used t) [] tools := by
  constructor
  · intro h
    have hnew := unique_iff.1 ⟨h.unique, fun t _ => List.not_mem_nil⟩
    have hsteps := hnew.and ((legal_iff.1 h.legal).and (stable_iff.1 h.stable))
    exact hsteps.imp fun t ht used hstep => (step_iff (hmounted t ht)).1 hstep
  · intro h
    have hsteps := h.imp fun t ht used hsafe => (step_iff (hmounted t ht)).2 hsafe
    exact ⟨(unique_iff.2 (hsteps.imp fun _ _ _ h => h.1)).1, legal_iff.2 (hsteps.imp fun _ _ _ h => h.2.1),
      qualifyFrom_kept _ fun _ _ => rfl, qualifyFrom_kept _ fun _ _ => rfl, stable_iff.2 (hsteps.imp fun _ _ _ h => h.2.2)⟩

/-- Two tools of one mount, the second of which the remote server named with the mount's alias. -/
def qualifiedTwice : List (MountedTool Unit) :=
  [⟨js "x", js "web.x", ()⟩, ⟨js "web__x", js "web.web__x", ()⟩]

theorem qualifiedTwice_mounted : ∀ t ∈ qualifiedTwice, Mounted t := by
  have hunits : ∀ u ∈ js "web", nameUnit u = true := List.all_eq_true.1 (by decide)
  intro t ht
  rcases List.mem_cons.1 ht with rfl | ht
  · exact ⟨js "web", js "x", by decide, hunits, by decide⟩
  · rw [List.mem_singleton.1 ht]
    exact ⟨js "web", js "web__x", by decide, hunits, by decide⟩

theorem offered_names_twice : (∀ t ∈ qualifiedTwice, Mounted t) ∧
    (Offered qualifiedTwice ↔ AtEach (fun used t => OwnSafe used t ∧ Keeps used t) [] qualifiedTwice) :=
  ⟨qualifiedTwice_mounted, offered_names qualifiedTwice qualifiedTwice_mounted⟩

/-- Both are offered as `web__x`. -/
theorem two_tools_one_name : (∀ t ∈ qualifiedTwice, Mounted t) ∧ (qualifiedTwice.map (·.address)).Nodup ∧
    (qualifyMountedTools qualifiedTwice).map (·.name) = [js "web__x", js "web__x"] ∧ ¬ Offered qualifiedTwice := by
  have hnames : (qualifyMountedTools qualifiedTwice).map (·.name) = [js "web__x", js "web__x"] := by decide
  refine ⟨qualifiedTwice_mounted, by decide, hnames, ?_⟩
  intro h
  have hunique := h.unique
  rw [hnames] at hunique
  exact absurd hunique (by decide)

end Antiproton.ToolNames
