import Antiproton.Conversations.Names

/-!
# Antiproton.Conversations.Moves

What the statements of a fresh start and of an erase do to the tables of the sessions a main conversation may be kept
under. Each is a change of one or two sessions, beside which every other session's names hold what they held.

* `ensure_known`, `moveAside_moves`, `dropAll_known`, `change_known`: the four changes.
-/

namespace Antiproton.Conversations

open Js

variable {B : Type} {c c' : Catalog Str (Row B)} {s s' : Str}

/-- Two catalogs hold the same under the names of a session. -/
structure Agree (c c' : Catalog Str (Row B)) (s : Str) : Prop where
  table : ∀ k, c'.table (piTable s k) = c.table (piTable s k)
  ixTable : ∀ x, c'.table (ixName s x) = c.table (ixName s x)
  index : ∀ x, c'.index (ixName s x) = c.index (ixName s x)
  tableIx : ∀ k, c'.index (piTable s k) = c.index (piTable s k)

theorem Agree.trans {c'' : Catalog Str (Row B)} (h : Agree c c' s) (h' : Agree c' c'' s) : Agree c c'' s where
  table k := (h'.table k).trans (h.table k)
  ixTable x := (h'.ixTable x).trans (h.ixTable x)
  index x := (h'.index x).trans (h.index x)
  tableIx k := (h'.tableIx k).trans (h.tableIx k)

theorem Agree.room (h : Agree c c' s) (hr : Room c s) : Room c' s where
  tables k := (h.tableIx k).trans (hr.tables k)
  indexes x := (h.ixTable x).trans (hr.indexes x)
  own x t ht := hr.own x t ((h.index x).symm.trans ht)

/-- Every session a main conversation may be kept under has its names to itself. -/
def Roomy (c : Catalog Str (Row B)) : Prop := ∀ s, Known s → Room c s

theorem roomy_empty : Roomy (Catalog.empty : Catalog Str (Row B)) := fun _ _ => ⟨fun _ => rfl, fun _ => rfl, nofun⟩

theorem piTable_ne (h : Known s) (h' : Known s') (hne : s ≠ s') (k k' : Kind) : piTable s k ≠ piTable s' k' :=
  fun heq => hne (stem_injective h h' (piTable_inj heq).1)

theorem ixName_ne (h : Known s) (h' : Known s') (hne : s ≠ s') (x x' : Ix) : ixName s x ≠ ixName s' x' :=
  fun heq => hne (stem_injective h h' (ixName_inj heq).1)

theorem ensure_known (hs : Known s) (hr : Roomy c) : ∃ c', ensurePiTables s c = some c' ∧ Ensured s c c' ∧ Roomy c' ∧
    ∀ s', Known s' → s' ≠ s → Agree c c' s' := by
  obtain ⟨c', hrun, hmade⟩ := ensure_creates (hr s hs)
  have hagree : ∀ s', Known s' → s' ≠ s → Agree c c' s' := fun s' hs' hne =>
    { table := fun k => hmade.otherTable _ fun k' => piTable_ne hs' hs hne k k'
      ixTable := fun x => hmade.otherTable _ fun k => (piTable_ne_ixName s s' k x).symm
      index := fun x => hmade.otherIndex _ fun x' => ixName_ne hs' hs hne x x'
      tableIx := fun k => hmade.otherIndex _ fun x => piTable_ne_ixName s' s k x }
  refine ⟨c', hrun, hmade, fun s' hs' => ?_, hagree⟩
  by_cases hne : s' = s
  · subst hne
    have hroom := hr s' hs'
    refine ⟨fun k => ?_, fun x => ?_, fun x t ht => ?_⟩
    · rw [hmade.otherIndex _ fun x => piTable_ne_ixName s' s' k x]
      exact hroom.tables k
    · rw [hmade.otherTable _ fun k => (piTable_ne_ixName s' s' k x).symm]
      exact hroom.indexes x
    · rw [hmade.index x, Option.some.injEq] at ht
      exact ht.symm
  · exact (hagree s' hs' hne).room (hr s' hs')

/-- Dropping the indexes on some tables, where no other session's are among them. -/
theorem dropIndexes_known (ts : List Str) (hr : Roomy c) : Roomy (Catalog.dropIndexesOn ts c) ∧
    ∀ s', Known s' → (∀ k, piTable s' k ∉ ts) → Agree c (Catalog.dropIndexesOn ts c) s' := by
  constructor
  · intro s' hs'
    have hroom := hr s' hs'
    refine ⟨fun k => ?_, hroom.indexes, fun x t ht => ?_⟩
    · exact Catalog.dropIndexesOn_none (hroom.tables k)
    · exact hroom.own x t (Catalog.of_dropIndexesOn ht).1
  · intro s' hs' hts
    have hroom := hr s' hs'
    refine ⟨fun _ => rfl, fun _ => rfl, fun x => ?_, fun k => ?_⟩
    · cases hx : c.index (ixName s' x) with
      | none => exact Catalog.dropIndexesOn_none hx
      | some t => exact Catalog.dropIndexesOn_other hx (hroom.own x t hx ▸ hts x.kind)
    · rw [Catalog.dropIndexesOn_none (hroom.tables k), hroom.tables k]

theorem mem_tables (s : Str) (n : Str) : n ∈ Kind.all.map (piTable s) ↔ ∃ k, n = piTable s k := by
  constructor
  · intro h
    obtain ⟨k, -, rfl⟩ := List.mem_map.1 h
    exact ⟨k, rfl⟩
  · rintro ⟨k, rfl⟩
    refine List.mem_map_of_mem ?_
    cases k <;> decide

theorem tables_nodup (s : Str) : (Kind.all.map (piTable s)).Nodup :=
  List.Nodup.map (fun _ _ h => (piTable_inj h).2) (by decide)

theorem dropAll_known (hs : Known s) (hr : Roomy c) : Roomy (Catalog.dropAll (Kind.all.map (piTable s)) c) ∧
    (∀ k, (Catalog.dropAll (Kind.all.map (piTable s)) c).table (piTable s k) = none) ∧
    ∀ s', Known s' → s' ≠ s → Agree c (Catalog.dropAll (Kind.all.map (piTable s)) c) s' := by
  have hindex : (Catalog.dropAll (Kind.all.map (piTable s)) c).index =
      (Catalog.dropIndexesOn (Kind.all.map (piTable s)) c).index := funext fun n => Catalog.dropAll_index _ _ n
  obtain ⟨hroomy, hagree⟩ := dropIndexes_known (Kind.all.map (piTable s)) hr
  refine ⟨fun s' hs' => ⟨fun k => ?_, fun x => ?_, fun x t ht => ?_⟩, fun k => ?_, fun s' hs' hne => ?_⟩
  · rw [hindex]
    exact (hroomy s' hs').tables k
  · rw [Catalog.dropAll_table]
    split
    · rfl
    · exact (hr s' hs').indexes x
  · rw [hindex] at ht
    exact (hroomy s' hs').own x t ht
  · rw [Catalog.dropAll_table, if_pos ((mem_tables s _).2 ⟨k, rfl⟩)]
  · have hts : ∀ k, piTable s' k ∉ Kind.all.map (piTable s) := by
      intro k hk
      obtain ⟨k', heq⟩ := (mem_tables s _).1 hk
      exact piTable_ne hs' hs hne k k' heq
    have hix := hagree s' hs' hts
    refine ⟨fun k => ?_, fun x => ?_, fun x => ?_, fun k => ?_⟩
    · rw [Catalog.dropAll_table, if_neg (hts k)]
    · rw [Catalog.dropAll_table, if_neg fun hmem => ?_]
      obtain ⟨k, heq⟩ := (mem_tables s _).1 hmem
      exact piTable_ne_ixName s s' k x heq.symm
    · rw [hindex]
      exact hix.index x
    · rw [hindex]
      exact hix.tableIx k

/-- What `moveAside` leaves. -/
structure Moved (a : Str) (c c' : Catalog Str (Row B)) : Prop where
  roomy : Roomy c'
  emptied : ∀ k, c'.table (mainTable k) = some []
  mainIndex : ∀ x, c'.index (ixName MAIN_SESSION x) = some (piTable MAIN_SESSION x.kind)
  kept : ∀ k, c'.table (piTable a k) = c.table (mainTable k)
  keptIndex : ∀ x, c'.index (ixName a x) = some (piTable a x.kind)
  others : ∀ s', Known s' → s' ≠ MAIN_SESSION → s' ≠ a → Agree c c' s'

theorem moveAside_moves {a : Str} (ha : Known a) (hne : a ≠ MAIN_SESSION) (hr : Roomy c)
    (hmade : ∀ k, (c.table (mainTable k)).isSome) (hfree : ∀ k, c.table (piTable a k) = none) :
    ∃ c', moveAside a c = some c' ∧ Moved a c c' := by
  have hmain : Known MAIN_SESSION := .inl rfl
  obtain ⟨hr1, hagree1⟩ := dropIndexes_known (Kind.all.map mainTable) hr
  have hfst : (Kind.all.map fun k => (mainTable k, piTable a k)).map Prod.fst = Kind.all.map (piTable MAIN_SESSION) := by
    rw [List.map_map]
    rfl
  have hsnd : (Kind.all.map fun k => (mainTable k, piTable a k)).map Prod.snd = Kind.all.map (piTable a) := by
    rw [List.map_map]
    rfl
  -- No index is left on the tables that are renamed.
  have hoff : ∀ m, ∀ n ∈ Kind.all.map (piTable MAIN_SESSION),
      (Catalog.dropIndexesOn (Kind.all.map mainTable) c).index m ≠ some n := by
    intro m n hn h
    exact (Catalog.of_dropIndexesOn h).2 hn
  obtain ⟨c2, hrename, hindex2, hmoved, hothers⟩ := Catalog.renameAll_moves
    (Kind.all.map fun k => (mainTable k, piTable a k)) (Catalog.dropIndexesOn (Kind.all.map mainTable) c)
    (by rw [hfst]; exact tables_nodup _) (by rw [hsnd]; exact tables_nodup _)
    (by
      rw [hfst, hsnd]
      intro n hn hn'
      obtain ⟨k, rfl⟩ := (mem_tables _ _).1 hn
      obtain ⟨k', heq⟩ := (mem_tables _ _).1 hn'
      exact piTable_ne hmain ha hne.symm k k' heq)
    (by
      rw [hfst]
      intro n hn
      obtain ⟨k, rfl⟩ := (mem_tables _ _).1 hn
      exact hmade k)
    (by
      rw [hsnd]
      intro n hn
      obtain ⟨k, rfl⟩ := (mem_tables _ _).1 hn
      exact ⟨hfree k, (hr1 a ha).tables k⟩)
    (by rw [hfst]; exact hoff)
  rw [hfst, hsnd] at hothers
  have hpair : ∀ k, c2.table (mainTable k) = none ∧ c2.table (piTable a k) = c.table (mainTable k) := by
    intro k
    exact hmoved (mainTable k, piTable a k) (List.mem_map_of_mem (by cases k <;> decide))
  have hix2 : ∀ s' x, c2.table (ixName s' x) = c.table (ixName s' x) := by
    intro s' x
    refine hothers _ (fun hmem => ?_) fun hmem => ?_
    · obtain ⟨k, heq⟩ := (mem_tables _ _).1 hmem
      exact piTable_ne_ixName _ s' k x heq.symm
    · obtain ⟨k, heq⟩ := (mem_tables _ _).1 hmem
      exact piTable_ne_ixName _ s' k x heq.symm
  have hr2 : Roomy c2 := by
    intro s' hs'
    refine ⟨fun k => ?_, fun x => ?_, fun x t ht => ?_⟩
    · rw [hindex2]
      exact (hr1 s' hs').tables k
    · rw [hix2]
      exact (hr s' hs').indexes x
    · rw [hindex2] at ht
      exact (hr1 s' hs').own x t ht
  obtain ⟨c3, hrun3, hmade3, hr3, hagree3⟩ := ensure_known ha hr2
  obtain ⟨c4, hrun4, hmade4, hr4, hagree4⟩ := ensure_known hmain hr3
  have hmain3 := hagree3 _ hmain hne.symm
  have ha4 := hagree4 _ ha hne
  refine ⟨c4, by rw [moveAside, hrename, Option.bind_some, hrun3, Option.bind_some, hrun4], ?_⟩
  refine ⟨hr4, fun k => ?_, hmade4.index, fun k => ?_, fun x => ?_, fun s' hs' hsm hsa => ?_⟩
  · exact (hmade4.table k).trans (by rw [hmain3.table k, show piTable MAIN_SESSION k = mainTable k from rfl, (hpair k).1]; rfl)
  · obtain ⟨rows, hrows⟩ := Option.isSome_iff_exists.1 (hmade k)
    rw [ha4.table k, hmade3.table k, (hpair k).2, hrows]
    rfl
  · rw [ha4.index x, hmade3.index x]
  · have hmid : Agree c c2 s' := by
      have hdrop := hagree1 s' hs' fun k hk => by
        obtain ⟨k', heq⟩ := (mem_tables _ _).1 hk
        exact piTable_ne hs' hmain hsm k k' heq
      refine ⟨fun k => ?_, hix2 s', fun x => ?_, fun k => ?_⟩
      · refine hothers _ (fun hmem => ?_) fun hmem => ?_
        · obtain ⟨k', heq⟩ := (mem_tables _ _).1 hmem
          exact piTable_ne hs' hmain hsm k k' heq
        · obtain ⟨k', heq⟩ := (mem_tables _ _).1 hmem
          exact piTable_ne hs' ha hsa k k' heq
      · rw [hindex2]
        exact hdrop.index x
      · rw [hindex2]
        exact hdrop.tableIx k
    exact (hmid.trans (hagree3 s' hs' hsa)).trans (hagree4 s' hs' hsm)

/-- A statement on the rows of one table of a session. -/
theorem change_known {k : Kind} {f : List (Row B) → Option (List (Row B))} (hs : Known s) (hr : Roomy c)
    (h : c.change (piTable s k) f = some c') : Roomy c' ∧
      (∃ rows rows', c.table (piTable s k) = some rows ∧ f rows = some rows' ∧ c'.table (piTable s k) = some rows') ∧
      (∀ k', k' ≠ k → c'.table (piTable s k') = c.table (piTable s k')) ∧ c'.index = c.index ∧
      ∀ s', Known s' → s' ≠ s → Agree c c' s' := by
  obtain ⟨rows, hrows, hmap⟩ := Option.bind_eq_some_iff.1 h
  obtain ⟨rows', hf, rfl⟩ := Option.map_eq_some_iff.1 hmap
  have hix : ∀ s' x, (Catalog.setTable (piTable s k) (some rows') c).table (ixName s' x) = c.table (ixName s' x) :=
    fun s' x => Catalog.setTable_other (piTable_ne_ixName s s' k x).symm _
  refine ⟨fun s' hs' => ?_, ⟨rows, rows', hrows, hf, Catalog.setTable_self _⟩, fun k' hk => ?_, rfl, fun s' hs' hne => ?_⟩
  · exact ⟨(hr s' hs').tables, fun x => (hix s' x).trans ((hr s' hs').indexes x), (hr s' hs').own⟩
  · exact Catalog.setTable_other (fun heq => hk (piTable_inj heq).2) _
  · exact ⟨fun k' => Catalog.setTable_other (piTable_ne hs' hs hne k' k) _, hix s', fun _ => rfl, fun _ => rfl⟩

end Antiproton.Conversations
