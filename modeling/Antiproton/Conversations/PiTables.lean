import Antiproton.Core.JsonParse
import Antiproton.Lib.Catalog

/-!
# Antiproton.Conversations.PiTables

The five tables of one session's transcript (`piTables`, `src/store/pi-storage.ts`), their indexes, and the schema that makes
them. The main session's are unprefixed; every other session's carry a slug of its id and a hash of the whole.

* `piTable_inj`, `ixName_inj`, `piTable_ne_ixName`: a name says whose it is and which.
* `ensure_creates`: what `ensurePiTables` leaves.
-/

namespace Antiproton.Conversations

open Js

/-- The tables of `PiTables`. -/
inductive Kind where
  | entries | usage | values | list | meta_
deriving DecidableEq

def Kind.all : List Kind := [.entries, .usage, .values, .list, .meta_]

def Kind.text : Kind → Str
  | entries => js "entries"
  | usage => js "usage"
  | values => js "values"
  | list => js "list"
  | meta_ => js "meta"

def MAIN_SESSION : Str := js "main"

/-- `[a-z0-9]` without case. -/
def isAlnum (c : UInt16) : Bool := isDigit c || (0x41 ≤ c && c ≤ 0x5A) || (0x61 ≤ c && c ≤ 0x7A)

def toLower (c : UInt16) : UInt16 := if 0x41 ≤ c && c ≤ 0x5A then c + 0x20 else c

def slug (session : Str) : Str :=
  ((session.map fun c => if isAlnum c then c else unit '_').take 40).map toLower

def hash (session : Str) : UInt32 :=
  session.foldl (fun h c => (h ^^^ c.toUInt32) * 0x01000193) 0x811c9dc5

/-- `toString(16)`. -/
def hexText (n : Nat) : Str := (Nat.toDigits 16 n).map unit

/-- What the names of one session's tables begin with. -/
def stem (session : Str) : Str :=
  if session = MAIN_SESSION then js "pi" else js "pi_s_" ++ slug session ++ js "_" ++ hexText (hash session).toNat

def piTable (session : Str) (k : Kind) : Str := stem session ++ js "_" ++ k.text

/-- The indexes of `schemaFor`. -/
inductive Ix where
  | seq | parent | boundary | usageSeq
deriving DecidableEq

def Ix.kind : Ix → Kind
  | usageSeq => .usage
  | _ => .entries

def Ix.text : Ix → Str
  | seq | usageSeq => js "seq"
  | parent => js "parent"
  | boundary => js "boundary"

def ixName (session : Str) (x : Ix) : Str := piTable session x.kind ++ js "_" ++ x.text

def schemaFor (session : Str) : List (Catalog.Stmt Str) :=
  let table k := .table (piTable session k)
  let index x := .index (ixName session x) (piTable session x.kind)
  [table .entries, index .seq, index .parent, index .boundary, table .usage, index .usageSeq, table .values, table .list,
    table .meta_]

def ensurePiTables {R : Type} (session : Str) (c : Catalog Str R) : Option (Catalog Str R) :=
  Catalog.run (schemaFor session) c

/-! ## Names -/

theorem takeWhile_stem {k : Str} (hk : unit '_' ∉ k) (x : Str) :
    (k.reverse ++ unit '_' :: x).takeWhile (· != unit '_') = k.reverse := by
  have hall : ∀ c ∈ k.reverse, (c != unit '_') = true := by
    intro c hc
    rw [bne_iff_ne]
    rintro rfl
    exact hk (List.mem_reverse.1 hc)
  rw [List.takeWhile_append_of_pos hall, List.takeWhile_cons_of_neg (by simp), List.append_nil]

/-- A text is cut at its last underscore one way. -/
theorem cut_last {x y k k' : Str} (hk : unit '_' ∉ k) (hk' : unit '_' ∉ k') (h : x ++ js "_" ++ k = y ++ js "_" ++ k') :
    x = y ∧ k = k' := by
  have hsep : js "_" = [unit '_'] := by decide
  have hrev := congrArg List.reverse h
  simp only [hsep, List.append_assoc, List.singleton_append, List.reverse_append, List.reverse_cons] at hrev
  have hlast : k.reverse = k'.reverse := by
    rw [← takeWhile_stem hk x.reverse, hrev, takeWhile_stem hk']
  obtain rfl := List.reverse_injective hlast
  have hfirst := List.append_cancel_left hrev
  exact ⟨List.reverse_injective (List.cons.inj hfirst).2, rfl⟩

theorem underscore_not_mem_text (k : Kind) : unit '_' ∉ k.text := by
  cases k <;> decide

theorem underscore_not_mem_ix (x : Ix) : unit '_' ∉ x.text := by
  cases x <;> decide

theorem Kind.text_injective : Function.Injective Kind.text := by
  intro k k' h
  cases k <;> cases k' <;> first | rfl | exact absurd h (by decide)

theorem piTable_inj {s s' : Str} {k k' : Kind} (h : piTable s k = piTable s' k') : stem s = stem s' ∧ k = k' := by
  obtain ⟨hstem, htext⟩ := cut_last (underscore_not_mem_text k) (underscore_not_mem_text k') h
  exact ⟨hstem, Kind.text_injective htext⟩

theorem ixName_inj {s s' : Str} {x x' : Ix} (h : ixName s x = ixName s' x') : stem s = stem s' ∧ x = x' := by
  obtain ⟨htable, htext⟩ := cut_last (underscore_not_mem_ix x) (underscore_not_mem_ix x') h
  obtain ⟨hstem, hkind⟩ := piTable_inj htable
  refine ⟨hstem, ?_⟩
  cases x <;> cases x' <;> first | rfl | exact absurd hkind (by decide) | exact absurd htext (by decide)

theorem piTable_ne_ixName (s s' : Str) (k : Kind) (x : Ix) : piTable s k ≠ ixName s' x := by
  intro h
  obtain ⟨-, htext⟩ := cut_last (underscore_not_mem_text k) (underscore_not_mem_ix x) h
  revert htext
  cases k <;> cases x <;> decide

/-! ## The schema -/

section Schema

variable {s : Str} {n t : Str}

theorem table_mem_schema : .table n ∈ schemaFor s ↔ ∃ k, n = piTable s k := by
  constructor
  · intro h
    simp only [schemaFor, List.mem_cons, Catalog.Stmt.table.injEq, reduceCtorEq, List.not_mem_nil, false_or, or_false] at h
    rcases h with h | h | h | h | h <;> exact ⟨_, h⟩
  · rintro ⟨k, rfl⟩
    cases k <;> simp [schemaFor]

theorem index_mem_schema : .index n t ∈ schemaFor s ↔ ∃ x, n = ixName s x ∧ t = piTable s x.kind := by
  constructor
  · intro h
    simp only [schemaFor, List.mem_cons, Catalog.Stmt.index.injEq, reduceCtorEq, List.not_mem_nil, false_or, or_false] at h
    rcases h with h | h | h | h <;> exact ⟨_, h⟩
  · rintro ⟨x, rfl, rfl⟩
    cases x <;> simp [schemaFor]

variable {R : Type} {c c' : Catalog Str R}

/-- Nothing of another sort goes by the names of a session's tables and indexes. -/
structure Room (c : Catalog Str R) (s : Str) : Prop where
  tables : ∀ k, c.index (piTable s k) = none
  indexes : ∀ x, c.table (ixName s x) = none
  own : ∀ x t, c.index (ixName s x) = some t → t = piTable s x.kind

theorem Room.fits (h : Room c s) : Catalog.Fits (schemaFor s) c where
  tables n hn := by
    obtain ⟨k, rfl⟩ := table_mem_schema.1 hn
    exact h.tables k
  indexes n t hn := by
    obtain ⟨x, rfl, rfl⟩ := index_mem_schema.1 hn
    exact ⟨h.indexes x, h.own x⟩
  apart n t hn hmem := by
    obtain ⟨x, rfl, -⟩ := index_mem_schema.1 hn
    obtain ⟨k, hk⟩ := table_mem_schema.1 hmem
    exact piTable_ne_ixName s s k x hk.symm
  single n t t' hn hn' := by
    obtain ⟨x, rfl, rfl⟩ := index_mem_schema.1 hn
    obtain ⟨x', heq, rfl⟩ := index_mem_schema.1 hn'
    rw [(ixName_inj heq).2]
  onTable := ⟨[], nofun, by simp [schemaFor, Catalog.Supported, Ix.kind]⟩

/-- What `ensurePiTables` leaves: the tables and indexes of the session, the rows that were there, and the rest alone. -/
structure Ensured (s : Str) (c c' : Catalog Str R) : Prop where
  table : ∀ k, c'.table (piTable s k) = some ((c.table (piTable s k)).getD [])
  index : ∀ x, c'.index (ixName s x) = some (piTable s x.kind)
  otherTable : ∀ n, (∀ k, n ≠ piTable s k) → c'.table n = c.table n
  otherIndex : ∀ n, (∀ x, n ≠ ixName s x) → c'.index n = c.index n

theorem ensure_creates (h : Room c s) : ∃ c', ensurePiTables s c = some c' ∧ Ensured s c c' := by
  obtain ⟨c', hrun, hmade⟩ := Catalog.run_creates h.fits
  refine ⟨c', hrun, ?_, ?_, ?_, ?_⟩
  · exact fun k => hmade.table _ (table_mem_schema.2 ⟨k, rfl⟩)
  · exact fun x => hmade.index _ _ (index_mem_schema.2 ⟨x, rfl, rfl⟩)
  · intro n hn
    refine hmade.otherTable n fun hmem => ?_
    obtain ⟨k, hk⟩ := table_mem_schema.1 hmem
    exact hn k hk
  · intro n hn
    refine hmade.otherIndex n fun t hmem => ?_
    obtain ⟨x, hx, -⟩ := index_mem_schema.1 hmem
    exact hn x hx

end Schema

end Antiproton.Conversations
