import Mathlib.Data.List.Basic
import Mathlib.Data.List.Nodup
import Mathlib.Logic.Function.Basic

/-!
# Antiproton.Lib.Catalog

A database's catalog: the tables by name, each with its rows, and the indexes by name, each with the table it is on. The
statements that create, rename and drop them share one space of names. Nothing here depends on what the rows are.

* `run_creates`: a schema, run where nothing stands in its way, makes what is missing and leaves the rest.
* `renameAll_moves`: tables renamed one after another to free names take their rows along.
* `dropAll_table`, `dropAll_index`: tables dropped one after another take their indexes along.
-/

/-- Tables with their rows, and indexes with the table each is on. -/
structure Catalog (N R : Type) where
  table : N → Option (List R)
  index : N → Option N

namespace Catalog

variable {N R : Type}

def empty : Catalog N R := ⟨fun _ => none, fun _ => none⟩

/-- One statement of a schema, with its `IF NOT EXISTS`. -/
inductive Stmt (N : Type) where
  | table (name : N)
  | index (name target : N)
deriving DecidableEq

variable [DecidableEq N]

/-- The table `name`, with these rows or gone. -/
def setTable (name : N) (rows : Option (List R)) (c : Catalog N R) : Catalog N R :=
  { c with table := Function.update c.table name rows }

/-- The index `name`, on this table. -/
def setIndex (name target : N) (c : Catalog N R) : Catalog N R :=
  { c with index := Function.update c.index name (some target) }

def createTable (name : N) (c : Catalog N R) : Option (Catalog N R) :=
  if (c.table name).isSome then some c
  else if (c.index name).isSome then none
  else some (setTable name (some []) c)

def createIndex (name target : N) (c : Catalog N R) : Option (Catalog N R) :=
  if (c.table target).isNone ∨ (c.table name).isSome then none
  else if (c.index name).isSome then some c
  else some (setIndex name target c)

def perform : Stmt N → Catalog N R → Option (Catalog N R)
  | .table name, c => createTable name c
  | .index name target, c => createIndex name target c

/-- A schema, statement by statement; `none` where one fails. -/
def run : List (Stmt N) → Catalog N R → Option (Catalog N R)
  | [], c => some c
  | s :: rest, c => (perform s c).bind (run rest)

/-- `ALTER TABLE a RENAME TO b`: the indexes on the table go along. -/
def rename (a b : N) (c : Catalog N R) : Option (Catalog N R) :=
  match c.table a with
  | none => none
  | some rows =>
    if (c.table b).isSome ∨ (c.index b).isSome then none
    else some { setTable b (some rows) (setTable a none c) with
      index := fun n => (c.index n).map fun t => if t = a then b else t }

def renameAll : List (N × N) → Catalog N R → Option (Catalog N R)
  | [], c => some c
  | (a, b) :: rest, c => (rename a b c).bind (renameAll rest)

/-- `DROP INDEX` of every index on one of the tables. -/
def dropIndexesOn (targets : List N) (c : Catalog N R) : Catalog N R :=
  { c with index := fun n => (c.index n).filter fun t => t ∉ targets }

/-- `DROP TABLE IF EXISTS`. -/
def dropTable (name : N) (c : Catalog N R) : Catalog N R :=
  dropIndexesOn [name] (setTable name none c)

def dropAll (names : List N) (c : Catalog N R) : Catalog N R := names.foldl (fun c n => dropTable n c) c

/-- A statement on the rows of one table, which fails with it and where there is none. -/
def change (name : N) (f : List R → Option (List R)) (c : Catalog N R) : Option (Catalog N R) :=
  (c.table name).bind fun rows => (f rows).map fun rows' => setTable name (some rows') c

/-! ## One name -/

section Names

variable {c : Catalog N R} {n m : N}

@[simp] theorem setTable_self (rows : Option (List R)) : (setTable n rows c).table n = rows := Function.update_self ..

theorem setTable_other (h : m ≠ n) (rows : Option (List R)) : (setTable n rows c).table m = c.table m :=
  Function.update_of_ne h ..

@[simp] theorem setTable_index (rows : Option (List R)) : (setTable n rows c).index = c.index := rfl

@[simp] theorem setIndex_self (t : N) : (setIndex n t c).index n = some t := Function.update_self ..

theorem setIndex_other (h : m ≠ n) (t : N) : (setIndex n t c).index m = c.index m := Function.update_of_ne h ..

@[simp] theorem setIndex_table (t : N) : (setIndex n t c).table = c.table := rfl

theorem setTable_same {rows : Option (List R)} (h : c.table n = rows) : setTable n rows c = c := by
  rw [setTable, ← h, Function.update_eq_self]

theorem setIndex_same {t : N} (h : c.index n = some t) : setIndex n t c = c := by
  rw [setIndex, ← h, Function.update_eq_self]

end Names

/-! ## Schemas -/

section Schema

variable {c c' : Catalog N R} {n : N}

theorem createTable_of_free (h : c.index n = none) :
    createTable n c = some (setTable n (some ((c.table n).getD [])) c) := by
  unfold createTable
  cases hn : c.table n with
  | none => simp [h]
  | some rows => simp [setTable_same hn]

theorem createIndex_of_free {t : N} (ht : (c.table t).isSome) (hn : c.table n = none)
    (hi : ∀ t', c.index n = some t' → t' = t) :
    createIndex n t c = some (setIndex n t c) := by
  obtain ⟨rows, hrows⟩ := Option.isSome_iff_exists.1 ht
  unfold createIndex
  cases hx : c.index n with
  | none => simp [hrows, hn]
  | some t' =>
    rw [hi t' hx] at hx
    simp [hrows, hn, setIndex_same hx]

/-- Every index comes after its table, which is one of those made before or made on the way. -/
def Supported : List N → List (Stmt N) → Prop
  | _, [] => True
  | made, .table n :: rest => Supported (n :: made) rest
  | made, .index _ t :: rest => t ∈ made ∧ Supported made rest

/-- What a schema needs of the catalog it is run on: its names are free, or already what they are to be. -/
structure Fits (stmts : List (Stmt N)) (c : Catalog N R) : Prop where
  tables : ∀ n, .table n ∈ stmts → c.index n = none
  indexes : ∀ n t, .index n t ∈ stmts → c.table n = none ∧ ∀ t', c.index n = some t' → t' = t
  apart : ∀ n t, .index n t ∈ stmts → .table n ∉ stmts
  single : ∀ n t t', .index n t ∈ stmts → .index n t' ∈ stmts → t = t'
  onTable : ∃ made, (∀ n ∈ made, (c.table n).isSome) ∧ Supported made stmts

/-- What a schema leaves. -/
structure Created (stmts : List (Stmt N)) (c c' : Catalog N R) : Prop where
  table : ∀ n, .table n ∈ stmts → c'.table n = some ((c.table n).getD [])
  index : ∀ n t, .index n t ∈ stmts → c'.index n = some t
  otherTable : ∀ n, .table n ∉ stmts → c'.table n = c.table n
  otherIndex : ∀ n, (∀ t, .index n t ∉ stmts) → c'.index n = c.index n

theorem Fits.step_table {rest : List (Stmt N)} (h : Fits (.table n :: rest) c) :
    Fits rest (setTable n (some ((c.table n).getD [])) c) where
  tables m hm := h.tables m (List.mem_cons_of_mem _ hm)
  indexes m t hm := by
    obtain ⟨htable, hindex⟩ := h.indexes m t (List.mem_cons_of_mem _ hm)
    have hne : m ≠ n := by
      rintro rfl
      exact h.apart m t (List.mem_cons_of_mem _ hm) List.mem_cons_self
    exact ⟨(setTable_other hne _).trans htable, hindex⟩
  apart m t hm hmem := h.apart m t (List.mem_cons_of_mem _ hm) (List.mem_cons_of_mem _ hmem)
  single m t t' hm hm' := h.single m t t' (List.mem_cons_of_mem _ hm) (List.mem_cons_of_mem _ hm')
  onTable := by
    obtain ⟨made, hmade, hsup⟩ := h.onTable
    refine ⟨n :: made, fun m hm => ?_, hsup⟩
    rcases eq_or_ne m n with rfl | hne
    · rw [setTable_self]
      rfl
    · rw [setTable_other hne]
      exact hmade m (List.mem_of_ne_of_mem hne hm)

theorem Fits.step_index {t : N} {rest : List (Stmt N)} (h : Fits (.index n t :: rest) c) :
    Fits rest (setIndex n t c) where
  tables m hm := by
    have hne : m ≠ n := by
      rintro rfl
      exact h.apart m t List.mem_cons_self (List.mem_cons_of_mem _ hm)
    rw [setIndex_other hne]
    exact h.tables m (List.mem_cons_of_mem _ hm)
  indexes m u hm := by
    obtain ⟨htable, hindex⟩ := h.indexes m u (List.mem_cons_of_mem _ hm)
    refine ⟨htable, fun t' ht' => ?_⟩
    rcases eq_or_ne m n with rfl | hne
    · rw [setIndex_self, Option.some.injEq] at ht'
      rw [← ht']
      exact h.single m t u List.mem_cons_self (List.mem_cons_of_mem _ hm)
    · rw [setIndex_other hne] at ht'
      exact hindex t' ht'
  apart m u hm hmem := h.apart m u (List.mem_cons_of_mem _ hm) (List.mem_cons_of_mem _ hmem)
  single m u u' hm hm' := h.single m u u' (List.mem_cons_of_mem _ hm) (List.mem_cons_of_mem _ hm')
  onTable := by
    obtain ⟨made, hmade, hsup⟩ := h.onTable
    exact ⟨made, hmade, hsup.2⟩

/-- A schema runs where its names are free, makes what is missing, and leaves every other name alone. -/
theorem run_creates {stmts : List (Stmt N)} (h : Fits stmts c) : ∃ c', run stmts c = some c' ∧ Created stmts c c' := by
  induction stmts generalizing c with
  | nil => exact ⟨c, rfl, ⟨nofun, nofun, fun _ _ => rfl, fun _ _ => rfl⟩⟩
  | cons s rest ih =>
    cases s with
    | table n =>
      obtain ⟨c', hrun, hmade⟩ := ih h.step_table
      refine ⟨c', by rw [run, perform, createTable_of_free (h.tables n List.mem_cons_self)]; exact hrun, ?_, ?_, ?_, ?_⟩
      · intro m hm
        by_cases hrest : .table m ∈ rest
        · rw [hmade.table m hrest]
          rcases eq_or_ne m n with rfl | hne
          · rw [setTable_self]
            rfl
          · rw [setTable_other hne]
        · rcases List.mem_cons.1 hm with heq | hmem
          · cases heq
            rw [hmade.otherTable _ hrest, setTable_self]
          · exact absurd hmem hrest
      · intro m t hm
        exact hmade.index m t (by simpa using hm)
      · intro m hm
        have hne : m ≠ n := fun heq => hm (heq ▸ List.mem_cons_self)
        rw [hmade.otherTable m fun hmem => hm (List.mem_cons_of_mem _ hmem)]
        exact setTable_other hne _
      · exact fun m hm => hmade.otherIndex m fun t hmem => hm t (List.mem_cons_of_mem _ hmem)
    | index n t =>
      obtain ⟨c', hrun, hmade⟩ := ih h.step_index
      obtain ⟨hfree, hown⟩ := h.indexes n t List.mem_cons_self
      obtain ⟨made, hmade', hsup⟩ := h.onTable
      have hthere : (c.table t).isSome := hmade' t hsup.1
      refine ⟨c', by rw [run, perform, createIndex_of_free hthere hfree hown]; exact hrun, ?_, ?_, ?_, ?_⟩
      · intro m hm
        exact hmade.table m (by simpa using hm)
      · intro m u hm
        by_cases hrest : ∃ u', .index m u' ∈ rest
        · obtain ⟨u', hu'⟩ := hrest
          rw [hmade.index m u' hu', h.single m u u' hm (List.mem_cons_of_mem _ hu')]
        · rw [not_exists] at hrest
          rcases List.mem_cons.1 hm with heq | hmem
          · cases heq
            rw [hmade.otherIndex _ hrest, setIndex_self]
          · exact absurd hmem (hrest u)
      · exact fun m hm => hmade.otherTable m fun hmem => hm (List.mem_cons_of_mem _ hmem)
      · intro m hm
        have hne : m ≠ n := fun heq => hm t (heq ▸ List.mem_cons_self)
        rw [hmade.otherIndex m fun u hmem => hm u (List.mem_cons_of_mem _ hmem)]
        exact setIndex_other hne _

end Schema

/-! ## Renaming and dropping -/

section Moves

variable {c c' : Catalog N R} {n : N}

theorem rename_of_free {a b : N} {rows : List R} (ha : c.table a = some rows) (hb : c.table b = none)
    (hib : c.index b = none) (hon : ∀ m, c.index m ≠ some a) :
    rename a b c = some (setTable b (some rows) (setTable a none c)) := by
  have hindex : (fun m => (c.index m).map fun t => if t = a then b else t) = c.index := by
    funext m
    cases hm : c.index m with
    | none => rfl
    | some t =>
      have hne : t ≠ a := fun heq => hon m (heq ▸ hm)
      rw [Option.map_some, if_neg hne]
  unfold rename
  simp only [ha, hb, hib, Option.isSome_none, Bool.false_eq_true, or_self, if_false, hindex]
  rfl

/-- Tables renamed one after another: the sources are there, the targets are free, and nothing is on the sources. -/
theorem renameAll_moves (pairs : List (N × N)) (c : Catalog N R) (hfrom : (pairs.map Prod.fst).Nodup)
    (hto : (pairs.map Prod.snd).Nodup) (hapart : ∀ n ∈ pairs.map Prod.fst, n ∉ pairs.map Prod.snd)
    (hthere : ∀ n ∈ pairs.map Prod.fst, (c.table n).isSome)
    (hfree : ∀ n ∈ pairs.map Prod.snd, c.table n = none ∧ c.index n = none)
    (hon : ∀ m, ∀ n ∈ pairs.map Prod.fst, c.index m ≠ some n) :
    ∃ c', renameAll pairs c = some c' ∧ c'.index = c.index ∧
      (∀ p ∈ pairs, c'.table p.1 = none ∧ c'.table p.2 = c.table p.1) ∧
      ∀ n, n ∉ pairs.map Prod.fst → n ∉ pairs.map Prod.snd → c'.table n = c.table n := by
  induction pairs generalizing c with
  | nil => exact ⟨c, rfl, rfl, nofun, fun _ _ _ => rfl⟩
  | cons p rest ih =>
    obtain ⟨a, b⟩ := p
    simp only [List.map_cons, List.nodup_cons] at hfrom hto
    obtain ⟨rows, hrows⟩ := Option.isSome_iff_exists.1 (hthere a List.mem_cons_self)
    obtain ⟨hb, hib⟩ := hfree b List.mem_cons_self
    have hab : a ≠ b := fun heq => hapart a List.mem_cons_self (heq ▸ List.mem_cons_self)
    have hsource : ∀ n ∈ rest.map Prod.fst, n ≠ a ∧ n ≠ b := by
      intro n hn
      refine ⟨fun heq => hfrom.1 (heq ▸ hn), fun heq => ?_⟩
      exact hapart n (List.mem_cons_of_mem _ hn) (heq ▸ List.mem_cons_self)
    have htarget : ∀ n ∈ rest.map Prod.snd, n ≠ a ∧ n ≠ b := by
      intro n hn
      refine ⟨fun heq => ?_, fun heq => hto.1 (heq ▸ hn)⟩
      exact hapart a List.mem_cons_self (List.mem_cons_of_mem _ (heq ▸ hn))
    have hkeeps : ∀ n, n ≠ a → n ≠ b → (setTable b (some rows) (setTable a none c)).table n = c.table n := by
      intro n hna hnb
      rw [setTable_other hnb, setTable_other hna]
    obtain ⟨c', hrun, hindex, hmoved, hothers⟩ := ih (setTable b (some rows) (setTable a none c)) hfrom.2 hto.2
      (fun n hn hmem => hapart n (List.mem_cons_of_mem _ hn) (List.mem_cons_of_mem _ hmem))
      (fun n hn => by rw [hkeeps n (hsource n hn).1 (hsource n hn).2]; exact hthere n (List.mem_cons_of_mem _ hn))
      (fun n hn => by
        rw [hkeeps n (htarget n hn).1 (htarget n hn).2]
        exact hfree n (List.mem_cons_of_mem _ hn))
      (fun m n hn => hon m n (List.mem_cons_of_mem _ hn))
    refine ⟨c', ?_, hindex, ?_, ?_⟩
    · rw [renameAll, rename_of_free hrows hb hib fun m => hon m a List.mem_cons_self]
      exact hrun
    · intro p hp
      rcases List.mem_cons.1 hp with rfl | hp
      · have ha : a ∉ rest.map Prod.snd := fun hmem => (htarget a hmem).1 rfl
        have hb' : b ∉ rest.map Prod.fst := fun hmem => (hsource b hmem).2 rfl
        refine ⟨?_, ?_⟩
        · rw [hothers a hfrom.1 ha, setTable_other hab, setTable_self]
        · rw [hothers b hb' hto.1, setTable_self, hrows]
      · obtain ⟨hgone, hcame⟩ := hmoved p hp
        have hp1 := hsource p.1 (List.mem_map_of_mem hp)
        exact ⟨hgone, hcame.trans (hkeeps p.1 hp1.1 hp1.2)⟩
    · intro n hn hn'
      rw [List.map_cons, List.mem_cons, not_or] at hn hn'
      rw [hothers n hn.2 hn'.2, hkeeps n hn.1 hn'.1]

theorem dropIndexesOn_index (targets : List N) (c : Catalog N R) (n : N) :
    (dropIndexesOn targets c).index n = (c.index n).filter fun t => t ∉ targets := rfl

theorem dropIndexesOn_none {targets : List N} (h : c.index n = none) : (dropIndexesOn targets c).index n = none := by
  rw [dropIndexesOn_index, h]
  rfl

/-- An index on another table stays. -/
theorem dropIndexesOn_other {targets : List N} {t : N} (h : c.index n = some t) (ht : t ∉ targets) :
    (dropIndexesOn targets c).index n = some t := by
  rw [dropIndexesOn_index, h]
  simp [Option.filter, ht]

/-- What is left is on none of the tables. -/
theorem of_dropIndexesOn {targets : List N} {t : N} (h : (dropIndexesOn targets c).index n = some t) :
    c.index n = some t ∧ t ∉ targets := by
  obtain ⟨hindex, ht⟩ := Option.filter_eq_some_iff.1 h
  exact ⟨hindex, by simpa using ht⟩

theorem dropAll_table (names : List N) (c : Catalog N R) (n : N) :
    (dropAll names c).table n = if n ∈ names then none else c.table n := by
  induction names generalizing c with
  | nil => rfl
  | cons m rest ih =>
    refine (ih (dropTable m c)).trans ?_
    rcases eq_or_ne n m with rfl | hne
    · simp [dropTable, dropIndexesOn]
    · simp only [List.mem_cons, hne, false_or, dropTable, dropIndexesOn, setTable_other hne]

theorem dropAll_index (names : List N) (c : Catalog N R) (n : N) :
    (dropAll names c).index n = (dropIndexesOn names c).index n := by
  rw [dropIndexesOn_index]
  induction names generalizing c with
  | nil =>
    cases h : c.index n with
    | none => simp [dropAll, h]
    | some t => simp [dropAll, h, Option.filter]
  | cons m rest ih =>
    refine (ih (dropTable m c)).trans ?_
    simp only [dropTable, dropIndexesOn, setTable_index, Option.filter_filter]
    cases c.index n with
    | none => rfl
    | some t => simp [Option.filter]

end Moves

end Catalog
