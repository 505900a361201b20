import Antiproton.PluginDb.Tables

/-!
# Antiproton.PluginDb.Maps

What the rows stand for: one ordered map for each scope and store, and a version for each scope.

* `toMaps_perform`: every statement on the rows is the operation on its own scope's map.
* `toMaps_rename`, `toMaps_remove`: one alias's maps move, or go.
-/

namespace Antiproton.PluginDb

open PluginDbTables

structure Maps where
  stores : DbScope → String → OrderedMap DbKey Entry
  versions : DbScope → Option Int

namespace Maps

def empty : Maps := ⟨fun _ _ => OrderedMap.empty, fun _ => none⟩

def write (scope : DbScope) (store : String) (new : OrderedMap DbKey Entry) (m : Maps) : Maps :=
  { m with stores := fun s st => if s = scope ∧ st = store then new else m.stores s st }

def setVersion (scope : DbScope) (version : Int) (m : Maps) : Maps :=
  { m with versions := fun s => if s = scope then some version else m.versions s }

noncomputable def perform (scope : DbScope) (request : Request) (m : Maps) : Answer × Maps :=
  match request with
  | .get store key => (.value (((m.stores scope store).find key).map (·.value)), m)
  | .put store key value idx => (.key key, m.write scope store ((m.stores scope store).insert key ⟨value, idx⟩))
  | .delete store query => (.done, m.write scope store ((m.stores scope store).eraseIf query.takes))
  | .getAll store query n =>
    (.values ((limit n ((m.stores scope store).entries.filter fun x => query.takes x.1)).map (·.2.value)), m)
  | .getAllFromIndex store query n =>
    (.values ((limit n (((m.stores scope store).index (·.idx)).entries.filter fun x => query.takes (ofLex x.1).1)).map
      (·.2.value)), m)
  | .count store query => (.number ((m.stores scope store).entries.filter fun x => query.takes x.1).length, m)

/-- A database of the one alias and its namesake under the other both hold a key, or a version. -/
def Collides (tenantId agentId old new : String) (m : Maps) : Prop :=
  ∃ s, ofAlias tenantId agentId old s = true ∧
    ((∃ store k, ((m.stores s store).find k).isSome ∧ ((m.stores (movedTo new s) store).find k).isSome) ∨
      ((m.versions s).isSome ∧ (m.versions (movedTo new s)).isSome))

def moved (tenantId agentId old new : String) (m : Maps) : Maps where
  stores s store :=
    if ofAlias tenantId agentId old s then OrderedMap.empty
    else if ofAlias tenantId agentId new s then (m.stores s store).union (m.stores (movedTo old s) store)
    else m.stores s store
  versions s :=
    if ofAlias tenantId agentId old s then none
    else if ofAlias tenantId agentId new s then (m.versions s).or (m.versions (movedTo old s))
    else m.versions s

open Classical in
noncomputable def rename (tenantId agentId old new : String) (m : Maps) : Option Maps :=
  if m.Collides tenantId agentId old new then none else some (m.moved tenantId agentId old new)

def remove (tenantId agentId name : String) (m : Maps) : Maps where
  stores s store := if ofAlias tenantId agentId name s then OrderedMap.empty else m.stores s store
  versions s := if ofAlias tenantId agentId name s then none else m.versions s

end Maps

/-- The maps the rows stand for. -/
def toMaps (db : PluginDbTables) : Maps where
  stores scope store :=
    { find := fun k => (Table.one (fun r => r.pk == (scope, store, k)) db.rows).map (·.toEntry)
      finite := by
        refine (List.finite_toSet (db.rows.map Row.key)).subset fun k hk => ?_
        have hk : ((Table.one (fun r => r.pk == (scope, store, k)) db.rows).map Row.toEntry).isSome := hk
        rw [Option.isSome_map, Option.isSome_iff_exists] at hk
        obtain ⟨r, hr⟩ := hk
        have hpk := beq_iff_eq.1 (Table.one_some (p := fun r : Row => r.pk == (scope, store, k)) hr)
        have hkey : r.key = k := congrArg (·.2.2) hpk
        exact List.mem_map.2 ⟨r, Table.one_mem hr, hkey⟩ }
  versions scope := db.version scope

section Reads

variable {db : PluginDbTables} {scope : DbScope} {store : String}

theorem find_toMaps {k : DbKey} {e : Entry} : ((toMaps db).stores scope store).find k = some e ↔
    ∃ r ∈ db.rows, r.pk = (scope, store, k) ∧ r.toEntry = e := by
  show (Table.one (fun r => r.pk == (scope, store, k)) db.rows).map Row.toEntry = some e ↔ _
  rw [Option.map_eq_some_iff]
  constructor
  · rintro ⟨r, hr, rfl⟩
    exact ⟨r, Table.one_mem hr, beq_iff_eq.1 (Table.one_some (p := fun r : Row => r.pk == (scope, store, k)) hr), rfl⟩
  · rintro ⟨r, hr, hpk, rfl⟩
    exact ⟨r, Table.one_of_mem db.keys hr (beq_iff_eq.2 hpk) fun r' h => (beq_iff_eq.1 h).trans hpk.symm, rfl⟩

theorem inStore_iff {r : Row} : r.inStore scope store = true ↔ r.scope = scope ∧ r.store = store := by
  rw [Row.inStore, Bool.and_eq_true, beq_iff_eq, beq_iff_eq]

/-- The keys of one store's rows are its own. -/
theorem unique_key : Table.Unique Row.key (Table.select (Row.inStore scope store) db.rows) := by
  unfold Table.Unique Table.select
  refine List.pairwise_map.2 ?_
  have hpk := (List.pairwise_map.1 db.keys).filter (Row.inStore scope store)
  refine (List.Pairwise.and_mem.1 hpk).imp fun ⟨hr, hr', hne⟩ heq => hne ?_
  obtain ⟨hs, hst⟩ := inStore_iff.1 (List.mem_filter.1 hr).2
  obtain ⟨hs', hst'⟩ := inStore_iff.1 (List.mem_filter.1 hr').2
  simp only [Row.pk, hs, hst, hs', hst', heq]

/-- Rows of different keys, in order, are the entries of a map that holds just them. -/
theorem entries_rows {K V : Type} [LinearOrder K] {m : OrderedMap K V} {rows : List Row} {key : Row → K} {value : Row → V}
    (hu : Table.Unique key rows) (h : ∀ k v, m.find k = some v ↔ ∃ r ∈ rows, key r = k ∧ value r = v) :
    m.entries = (Table.orderBy key rows).map fun r => (key r, value r) := by
  refine OrderedMap.entries_eq (List.pairwise_map.2 (Table.pairwise_lt_orderBy hu)) fun k v => ?_
  rw [h, List.mem_map]
  refine exists_congr fun r => ?_
  rw [(Table.orderBy_perm key rows).mem_iff, Prod.mk.injEq]

theorem entries_toMaps : ((toMaps db).stores scope store).entries =
    (Table.orderBy Row.key (Table.select (Row.inStore scope store) db.rows)).map fun r => (r.key, r.toEntry) := by
  refine entries_rows unique_key fun k e => ?_
  rw [find_toMaps]
  refine exists_congr fun r => ?_
  rw [Table.select, List.mem_filter, inStore_iff, Row.pk]
  simp only [Prod.mk.injEq]
  tauto

/-- The rows of a store with a place in its index. -/
def indexed (scope : DbScope) (store : String) (rows : List Row) : List Row :=
  Table.select (fun r => r.idx.isSome) (Table.select (Row.inStore scope store) rows)

/-- Where a row stands in its store's index. -/
def place (r : Row) : DbKey ×ₗ DbKey := toLex (r.idx.getD (.number 0), r.key)

theorem unique_place : Table.Unique place (indexed scope store db.rows) := by
  have hkey : Table.Unique Row.key (indexed scope store db.rows) :=
    List.Nodup.sublist (List.filter_sublist.map _) unique_key
  have hmap : (indexed scope store db.rows).map Row.key = ((indexed scope store db.rows).map place).map fun x => (ofLex x).2 := by
    rw [List.map_map]
    rfl
  unfold Table.Unique at hkey
  rw [hmap] at hkey
  exact hkey.of_map _

theorem entries_index : (((toMaps db).stores scope store).index (·.idx)).entries =
    (Table.orderBy place (indexed scope store db.rows)).map fun r => (place r, r.toEntry) := by
  refine entries_rows unique_place fun x e => ?_
  show (((toMaps db).stores scope store).find (ofLex x).2).filter (fun v => v.idx == some (ofLex x).1) = some e ↔ _
  rw [Option.filter_eq_some_iff, find_toMaps, beq_iff_eq]
  constructor
  · rintro ⟨⟨r, hr, hpk, rfl⟩, hidx⟩
    simp only [Row.pk, Prod.mk.injEq] at hpk
    refine ⟨r, List.mem_filter.2 ⟨List.mem_filter.2 ⟨hr, inStore_iff.2 ⟨hpk.1, hpk.2.1⟩⟩, by rw [hidx]; rfl⟩, ?_, rfl⟩
    unfold place
    rw [hidx, hpk.2.2]
    rfl
  · rintro ⟨r, hr, rfl, rfl⟩
    obtain ⟨hstore, hsome⟩ := List.mem_filter.1 hr
    obtain ⟨hmem, hin⟩ := List.mem_filter.1 hstore
    obtain ⟨hs, hst⟩ := inStore_iff.1 hin
    obtain ⟨i, hi⟩ := Option.isSome_iff_exists.1 hsome
    refine ⟨⟨r, hmem, by rw [Row.pk, hs, hst]; rfl, rfl⟩, ?_⟩
    show r.idx = some (r.idx.getD (.number 0))
    rw [hi]
    rfl

theorem limit_map {A B : Type} (n : Option Int) (f : A → B) (l : List A) : limit n (l.map f) = (limit n l).map f := by
  cases n with
  | none => rfl
  | some n =>
    unfold limit
    dsimp only
    split
    · rfl
    · exact List.map_take.symm

theorem filter_rows {K V : Type} (key : Row → K) (value : Row → V) (p : K → Bool) (rows : List Row) :
    (rows.map fun r => (key r, value r)).filter (fun x => p x.1) =
      (rows.filter fun r => p (key r)).map fun r => (key r, value r) := by
  rw [List.filter_map]
  rfl

theorem select_inStore (query : DbQuery) : Table.select (fun r => r.inStore scope store && query.takes r.key) db.rows =
    Table.select (fun r => query.takes r.key) (Table.select (Row.inStore scope store) db.rows) := by
  unfold Table.select
  rw [List.filter_filter]
  exact List.filter_congr fun r _ => Bool.and_comm ..

theorem entries_taken (query : DbQuery) : ((toMaps db).stores scope store).entries.filter (fun x => query.takes x.1) =
    (Table.orderBy Row.key (Table.select (fun r => r.inStore scope store && query.takes r.key) db.rows)).map
      fun r => (r.key, r.toEntry) := by
  rw [entries_toMaps, filter_rows, select_inStore, Table.orderBy_select unique_key]
  rfl

theorem getAll_eq (query : DbQuery) (n : Option Int) : db.getAll scope store query n =
    (limit n (((toMaps db).stores scope store).entries.filter fun x => query.takes x.1)).map (·.2.value) := by
  rw [entries_taken, limit_map, List.map_map]
  rfl

theorem count_eq (query : DbQuery) : db.count scope store query =
    (((toMaps db).stores scope store).entries.filter fun x => query.takes x.1).length := by
  rw [entries_taken, List.length_map, (Table.orderBy_perm ..).length_eq]
  exact List.countP_eq_length_filter ..

theorem getAllFromIndex_eq (query : DbQuery) (n : Option Int) : db.getAllFromIndex scope store query n =
    (limit n ((((toMaps db).stores scope store).index (·.idx)).entries.filter fun x => query.takes (ofLex x.1).1)).map
      (·.2.value) := by
  have hrows : Table.select (fun r => r.inStore scope store && r.idx.any query.takes) db.rows =
      Table.select (fun r => query.takes (ofLex (place r)).1) (indexed scope store db.rows) := by
    unfold indexed Table.select
    rw [List.filter_filter, List.filter_filter]
    refine List.filter_congr fun r _ => ?_
    have hplace : (ofLex (place r)).1 = r.idx.getD (.number 0) := rfl
    rw [hplace]
    cases r.idx with
    | none => simp
    | some i => simp [Bool.and_comm]
  have hfilter : (((toMaps db).stores scope store).index (·.idx)).entries.filter (fun x => query.takes (ofLex x.1).1) =
      (Table.orderBy place (Table.select (fun r => query.takes (ofLex (place r)).1) (indexed scope store db.rows))).map
        fun r => (place r, r.toEntry) := by
    rw [entries_index, filter_rows place Row.toEntry (fun x => query.takes (ofLex x).1), Table.orderBy_select unique_place]
    rfl
  rw [hfilter, limit_map, List.map_map, ← hrows]
  rfl

end Reads

section Writes

variable (db : PluginDbTables) (scope : DbScope) (store : String)

theorem Maps.ext {m m' : Maps} (hs : ∀ s st, m.stores s st = m'.stores s st) (hv : ∀ s, m.versions s = m'.versions s) :
    m = m' := by
  obtain ⟨stores, versions⟩ := m
  obtain ⟨stores', versions'⟩ := m'
  have h₁ : stores = stores' := funext fun s => funext (hs s)
  have h₂ : versions = versions' := funext hv
  rw [h₁, h₂]

@[simp] theorem Maps.write_self (m : Maps) (new : OrderedMap DbKey Entry) :
    (m.write scope store new).stores scope store = new := if_pos ⟨rfl, rfl⟩

theorem Maps.write_other (m : Maps) (new : OrderedMap DbKey Entry) {s : DbScope} {st : String}
    (h : ¬(s = scope ∧ st = store)) : (m.write scope store new).stores s st = m.stores s st := if_neg h

theorem toMaps_put (key : DbKey) (value : Json) (idx : Option DbKey) : toMaps (db.put scope store key value idx) =
    (toMaps db).write scope store (((toMaps db).stores scope store).insert key ⟨value, idx⟩) := by
  refine Maps.ext (fun s st => OrderedMap.ext fun k => ?_) fun s => rfl
  have hone := Table.one_upsert Row.pk (fun r => ⟨⟨value, idx⟩, r.scope, r.store, r.key⟩) (fun _ => rfl)
    ⟨⟨value, idx⟩, scope, store, key⟩ (s, st, k) db.rows
  refine (congrArg (Option.map Row.toEntry) hone).trans ?_
  by_cases hstore : s = scope ∧ st = store
  · obtain ⟨rfl, rfl⟩ := hstore
    rw [Maps.write_self]
    by_cases hk : key = k
    · subst hk
      have hpk : Row.pk ⟨⟨value, idx⟩, s, st, key⟩ = (s, st, key) := rfl
      rw [if_pos hpk]
      refine Eq.trans ?_ (if_pos rfl).symm
      cases Table.one (fun r => r.pk == (s, st, key)) db.rows <;> rfl
    · have hne : ¬(Row.pk ⟨⟨value, idx⟩, s, st, key⟩ = (s, st, k)) := fun h => hk (congrArg (·.2.2) h)
      rw [if_neg hne]
      exact (if_neg hk).symm
  · have hne : ¬(Row.pk ⟨⟨value, idx⟩, scope, store, key⟩ = (s, st, k)) := fun h =>
      hstore ⟨(congrArg (·.1) h).symm, (congrArg (·.2.1) h).symm⟩
    rw [if_neg hne, Maps.write_other _ _ _ _ hstore]
    rfl

/-- What a lookup by key reads of the rows a condition on the keys leaves. -/
theorem one_delete (q : DbScope × String × DbKey → Bool) (k : DbScope × String × DbKey) :
    Table.one (fun r => r.pk == k) (Table.delete (fun r => q r.pk) db.rows) =
      if q k then none else Table.one (fun r => r.pk == k) db.rows := by
  have h := Table.one_filter_key Row.pk (fun k => !q k) k db.rows
  unfold Table.delete
  rw [h]
  cases q k <;> rfl

theorem toMaps_delete (query : DbQuery) : toMaps (db.delete scope store query) =
    (toMaps db).write scope store (((toMaps db).stores scope store).eraseIf query.takes) := by
  refine Maps.ext (fun s st => OrderedMap.ext fun k => ?_) fun s => rfl
  have hone := one_delete db (fun k => k.1 == scope && k.2.1 == store && query.takes k.2.2) (s, st, k)
  refine (congrArg (Option.map Row.toEntry) hone).trans ?_
  dsimp only
  by_cases hstore : s = scope ∧ st = store
  · obtain ⟨rfl, rfl⟩ := hstore
    rw [Maps.write_self, beq_self_eq_true, beq_self_eq_true, Bool.true_and, Bool.true_and]
    unfold OrderedMap.eraseIf
    dsimp only
    split
    · rfl
    · rfl
  · have hno : (s == scope && st == store) = false := by
      rw [Bool.eq_false_iff]
      intro h
      rw [Bool.and_eq_true, beq_iff_eq, beq_iff_eq] at h
      exact hstore h
    rw [Maps.write_other _ _ _ _ hstore, hno, Bool.false_and, if_neg Bool.false_ne_true]
    rfl

theorem toMaps_setVersion (version : Int) : toMaps (db.setVersion scope version) = (toMaps db).setVersion scope version := by
  refine Maps.ext (fun s st => rfl) fun s => ?_
  have hone := Table.one_upsert VersionRow.scope (fun r => ⟨r.scope, version⟩) (fun _ => rfl) ⟨scope, version⟩ s db.versions
  show (Table.one (fun r => r.scope == s) (db.setVersion scope version).versions).map VersionRow.version =
    if s = scope then some version else db.version s
  refine (congrArg (Option.map VersionRow.version) hone).trans ?_
  by_cases hs : s = scope
  · subst hs
    rw [if_pos rfl, if_pos rfl]
    cases Table.one (fun r => r.scope == s) db.versions <;> rfl
  · rw [if_neg hs, if_neg (Ne.symm hs)]
    rfl

/-- Every statement on the rows is the operation on the maps they stand for. -/
theorem toMaps_perform (request : Request) :
    (db.perform scope request).1 = ((toMaps db).perform scope request).1 ∧
    toMaps (db.perform scope request).2 = ((toMaps db).perform scope request).2 := by
  cases request with
  | get store key =>
    refine ⟨congrArg Answer.value ?_, rfl⟩
    show _ = ((Table.one (fun r => r.pk == (scope, store, key)) db.rows).map Row.toEntry).map (·.value)
    rw [Option.map_map]
    rfl
  | put store key value idx => exact ⟨rfl, toMaps_put db scope store key value idx⟩
  | delete store query => exact ⟨rfl, toMaps_delete db scope store query⟩
  | getAll store query n => exact ⟨congrArg Answer.values (getAll_eq query n), rfl⟩
  | getAllFromIndex store query n => exact ⟨congrArg Answer.values (getAllFromIndex_eq query n), rfl⟩
  | count store query => exact ⟨congrArg Answer.number (count_eq query), rfl⟩

theorem toMaps_remove (tenantId agentId name : String) :
    toMaps (db.remove tenantId agentId name) = (toMaps db).remove tenantId agentId name := by
  refine Maps.ext (fun s st => OrderedMap.ext fun k => ?_) fun s => ?_
  · have hone := one_delete db (fun k => ofAlias tenantId agentId name k.1) (s, st, k)
    show (Table.one (fun r => r.pk == (s, st, k)) (db.remove tenantId agentId name).rows).map Row.toEntry =
      OrderedMap.find (if ofAlias tenantId agentId name s then OrderedMap.empty else (toMaps db).stores s st) k
    refine (congrArg (Option.map Row.toEntry) hone).trans ?_
    dsimp only
    split
    · rfl
    · rfl
  · have h := Table.one_filter_key VersionRow.scope (fun s => !ofAlias tenantId agentId name s) s db.versions
    show (Table.one (fun r => r.scope == s) (db.remove tenantId agentId name).versions).map VersionRow.version =
      if ofAlias tenantId agentId name s then none else db.version s
    refine (congrArg (Option.map VersionRow.version) h).trans ?_
    cases ofAlias tenantId agentId name s <;> rfl

end Writes

/-! ## Renames -/

section Renames

variable {tenantId agentId old new : String}

theorem ofAlias_iff {name : String} {s : DbScope} : ofAlias tenantId agentId name s = true ↔
    s.tenantId = tenantId ∧ s.agentId = agentId ∧ s.alias_ = name := by
  rw [ofAlias, Bool.and_eq_true, Bool.and_eq_true, beq_iff_eq, beq_iff_eq, beq_iff_eq, and_assoc]

/-- A scope moved there and one moved back are the same. -/
theorem movedTo_iff {s s' : DbScope} (hs : ofAlias tenantId agentId old s = true) :
    movedTo new s = s' ↔ ofAlias tenantId agentId new s' = true ∧ s = movedTo old s' := by
  obtain ⟨rfl, rfl, rfl⟩ := ofAlias_iff.1 hs
  rw [ofAlias_iff]
  constructor
  · rintro rfl
    exact ⟨⟨rfl, rfl, rfl⟩, rfl⟩
  · rintro ⟨⟨ht, ha, rfl⟩, hs⟩
    obtain ⟨t, a, n, p⟩ := s
    obtain ⟨t', a', n', p'⟩ := s'
    simp only [movedTo, DbScope.mk.injEq] at ht ha hs ⊢
    exact ⟨ht.symm, ha.symm, trivial, hs.2.2.2⟩

section Lookups

variable {R X V : Type} [DecidableEq X] {key : R → DbScope × X} {value : R → V} {move : R → R} {t : List R}

def lookup (key : R → DbScope × X) (value : R → V) (t : List R) (k : DbScope × X) : Option V :=
  (Table.one (fun r => decide (key r = k)) t).map value

theorem lookup_eq_some (hu : Table.Unique key t) {k : DbScope × X} {v : V} :
    lookup key value t k = some v ↔ ∃ r ∈ t, key r = k ∧ value r = v := by
  unfold lookup
  rw [Option.map_eq_some_iff]
  constructor
  · rintro ⟨r, hr, rfl⟩
    exact ⟨r, Table.one_mem hr, of_decide_eq_true (Table.one_some (p := fun r => decide (key r = k)) hr), rfl⟩
  · rintro ⟨r, hr, hk, rfl⟩
    exact ⟨r, Table.one_of_mem hu hr (decide_eq_true hk) fun r' h => (of_decide_eq_true h).trans hk.symm, rfl⟩

/-- The rows of the one alias, moved. -/
def movedRows (tenantId agentId old : String) (key : R → DbScope × X) (move : R → R) (t : List R) : List R :=
  Table.update (fun r => ofAlias tenantId agentId old (key r).1) move t

variable (hne : old ≠ new) (hmove : ∀ r, key (move r) = (movedTo new (key r).1, (key r).2))
include hne hmove

omit [DecidableEq X] in
theorem key_moved {r : R} {s : DbScope} {x : X} :
    key (if ofAlias tenantId agentId old (key r).1 then move r else r) = (s, x) ↔
      ofAlias tenantId agentId old s = false ∧
        (key r = (s, x) ∨ ofAlias tenantId agentId new s = true ∧ key r = (movedTo old s, x)) := by
  have hnot {s : DbScope} (hs : ofAlias tenantId agentId new s = true) : ofAlias tenantId agentId old s = false := by
    obtain ⟨-, -, hn⟩ := ofAlias_iff.1 hs
    exact Bool.eq_false_iff.2 fun h => hne ((ofAlias_iff.1 h).2.2.symm.trans hn)
  by_cases hr : ofAlias tenantId agentId old (key r).1 = true
  · rw [if_pos hr, hmove, Prod.mk.injEq, movedTo_iff hr]
    constructor
    · rintro ⟨⟨hs, hk⟩, hx⟩
      exact ⟨hnot hs, .inr ⟨hs, Prod.ext hk hx⟩⟩
    · rintro ⟨hs, hk | ⟨hs', hk⟩⟩
      · rw [hk, hs] at hr
        cases hr
      · rw [hk]
        exact ⟨⟨hs', rfl⟩, rfl⟩
  · rw [if_neg hr]
    constructor
    · intro hk
      rw [hk] at hr
      exact ⟨Bool.eq_false_iff.2 hr, .inl hk⟩
    · rintro ⟨-, hk | ⟨hs, hk⟩⟩
      · exact hk
      · refine absurd ?_ hr
        rw [hk]
        obtain ⟨ht, ha, -⟩ := ofAlias_iff.1 hs
        exact ofAlias_iff.2 ⟨ht, ha, rfl⟩

omit [DecidableEq X] in
/-- The moved rows' keys are their own unless two of them meet. -/
theorem unique_moved (hu : Table.Unique key t) : Table.Unique key (movedRows tenantId agentId old key move t) ↔
    ¬∃ r ∈ t, ∃ r' ∈ t, ofAlias tenantId agentId old (key r).1 = true ∧ key r' = (movedTo new (key r).1, (key r).2) := by
  have hnodup : t.Nodup := hu.of_map _
  unfold Table.Unique movedRows Table.update
  rw [List.map_map, List.nodup_map_iff_inj_on hnodup]
  constructor
  · rintro hinj ⟨r, hr, r', hr', hof, hk⟩
    have hof' : ofAlias tenantId agentId new (key r').1 = true := by
      rw [hk]
      obtain ⟨ht, ha, -⟩ := ofAlias_iff.1 hof
      exact ofAlias_iff.2 ⟨ht, ha, rfl⟩
    have hnot : ¬ofAlias tenantId agentId old (key r').1 = true := fun h =>
      hne ((ofAlias_iff.1 h).2.2.symm.trans (ofAlias_iff.1 hof').2.2)
    have heq : r = r' := by
      refine hinj r hr r' hr' ?_
      simp only [Function.comp]
      rw [if_pos hof, if_neg hnot, hmove, hk]
    rw [heq] at hof
    exact hnot hof
  · intro hnone r hr r' hr' heq
    simp only [Function.comp] at heq
    by_cases hof : ofAlias tenantId agentId old (key r).1 = true
    · by_cases hof' : ofAlias tenantId agentId old (key r').1 = true
      · rw [if_pos hof, if_pos hof', hmove, hmove, Prod.mk.injEq, movedTo_iff hof] at heq
        obtain ⟨⟨-, hs⟩, hx⟩ := heq
        have hback : movedTo old (movedTo new (key r').1) = (key r').1 := ((movedTo_iff hof').1 rfl).2.symm
        exact List.inj_on_of_nodup_map hu hr hr' (Prod.ext (hs.trans hback) hx)
      · rw [if_pos hof, if_neg hof', hmove] at heq
        exact absurd ⟨r, hr, r', hr', hof, heq.symm⟩ hnone
    · by_cases hof' : ofAlias tenantId agentId old (key r').1 = true
      · rw [if_neg hof, if_pos hof', hmove] at heq
        exact absurd ⟨r', hr', r, hr, hof', heq⟩ hnone
      · rw [if_neg hof, if_neg hof'] at heq
        exact List.inj_on_of_nodup_map hu hr hr' heq

variable (value move) in
theorem lookup_moved (hvalue : ∀ r, value (move r) = value r) (hu : Table.Unique key t)
    (hu' : Table.Unique key (movedRows tenantId agentId old key move t)) (s : DbScope) (x : X) :
    lookup key value (movedRows tenantId agentId old key move t) (s, x) =
      if ofAlias tenantId agentId old s then none
      else if ofAlias tenantId agentId new s then (lookup key value t (s, x)).or (lookup key value t (movedTo old s, x))
      else lookup key value t (s, x) := by
  have hone := (unique_moved hne hmove hu).1 hu'
  refine Option.ext fun v => ?_
  have hmoved : lookup key value (movedRows tenantId agentId old key move t) (s, x) = some v ↔
      ofAlias tenantId agentId old s = false ∧ (lookup key value t (s, x) = some v ∨
        ofAlias tenantId agentId new s = true ∧ lookup key value t (movedTo old s, x) = some v) := by
    rw [lookup_eq_some hu', lookup_eq_some hu, lookup_eq_some hu]
    have hv (r : R) : value (if ofAlias tenantId agentId old (key r).1 then move r else r) = value r := by
      split
      · exact hvalue r
      · rfl
    constructor
    · rintro ⟨r', hr', hk, hval⟩
      obtain ⟨r, hr, rfl⟩ := Table.mem_update.1 hr'
      obtain ⟨hof, hk⟩ := (key_moved hne hmove).1 hk
      rw [hv] at hval
      exact ⟨hof, hk.imp (fun hk => ⟨r, hr, hk, hval⟩) fun hk => ⟨hk.1, r, hr, hk.2, hval⟩⟩
    · rintro ⟨hof, ⟨r, hr, hk, hval⟩ | ⟨hs, r, hr, hk, hval⟩⟩
      · exact ⟨_, Table.mem_update.2 ⟨r, hr, rfl⟩, (key_moved hne hmove).2 ⟨hof, .inl hk⟩, (hv r).trans hval⟩
      · exact ⟨_, Table.mem_update.2 ⟨r, hr, rfl⟩, (key_moved hne hmove).2 ⟨hof, .inr ⟨hs, hk⟩⟩, (hv r).trans hval⟩
  rw [hmoved]
  cases ofAlias tenantId agentId old s with
  | true => simp
  | false =>
    rw [if_neg Bool.false_ne_true]
    cases hnew : ofAlias tenantId agentId new s with
    | false => simp
    | true =>
      rw [if_pos rfl]
      cases hfound : lookup key value t (s, x) with
      | none => simp
      | some w =>
        have hold : lookup key value t (movedTo old s, x) = none := by
          refine Option.eq_none_iff_forall_ne_some.2 fun v' hv' => hone ?_
          obtain ⟨r', hr', hk', -⟩ := (lookup_eq_some hu).1 hfound
          obtain ⟨r, hr, hk, -⟩ := (lookup_eq_some hu).1 hv'
          obtain ⟨ht, ha, hn⟩ := ofAlias_iff.1 hnew
          refine ⟨r, hr, r', hr', ?_, ?_⟩
          · rw [hk]
            exact ofAlias_iff.2 ⟨ht, ha, rfl⟩
          · rw [hk, hk', ← hn]
            rfl
        simp [hold]

end Lookups

/-- A version's key, in the rows' form. -/
def VersionRow.pk (r : VersionRow) : DbScope × Unit := (r.scope, ())

theorem unique_version {t : List VersionRow} : Table.Unique VersionRow.pk t ↔ Table.Unique VersionRow.scope t := by
  have hmap : t.map VersionRow.pk = (t.map VersionRow.scope).map fun s => (s, ()) := by
    rw [List.map_map]
    rfl
  unfold Table.Unique
  rw [hmap]
  exact List.nodup_map_iff fun s s' h => congrArg (·.1) h

theorem version_eq (db : PluginDbTables) (s : DbScope) :
    db.version s = lookup VersionRow.pk VersionRow.version db.versions (s, ()) := by
  unfold version lookup
  refine congrArg (Option.map _) (Table.one_congr fun r _ => ?_)
  rw [Bool.eq_iff_iff, beq_iff_eq, decide_eq_true_eq, VersionRow.pk, Prod.mk.injEq]
  simp

theorem find_eq (db : PluginDbTables) (s : DbScope) (st : String) (k : DbKey) :
    ((toMaps db).stores s st).find k = lookup Row.pk Row.toEntry db.rows (s, st, k) := by
  unfold lookup
  refine congrArg (Option.map _) (Table.one_congr fun r _ => ?_)
  rw [Bool.eq_iff_iff, beq_iff_eq, decide_eq_true_eq]

theorem lookup_isSome {R X V : Type} [DecidableEq X] {key : R → DbScope × X} {value : R → V} {t : List R} {k : DbScope × X} :
    (lookup key value t k).isSome ↔ ∃ r ∈ t, key r = k := by
  unfold lookup
  rw [Option.isSome_map, Table.one_isSome, List.any_eq_true]
  simp only [decide_eq_true_eq]

def movedRow (new : String) (r : Row) : Row := { r with scope := movedTo new r.scope }

def movedVersion (new : String) (r : VersionRow) : VersionRow := { r with scope := movedTo new r.scope }

/-- The primary keys hold after the two updates just where no database meets its namesake. -/
theorem collides_iff (tenantId agentId : String) (hne : old ≠ new) (db : PluginDbTables) : (toMaps db).Collides tenantId agentId old new ↔
    ¬(Table.Unique Row.pk (movedRows tenantId agentId old Row.pk (movedRow new) db.rows) ∧
      Table.Unique VersionRow.pk (movedRows tenantId agentId old VersionRow.pk (movedVersion new) db.versions)) := by
  rw [unique_moved hne (fun _ => rfl) db.keys, unique_moved hne (fun _ => rfl) (unique_version.2 db.scopes), not_and_or,
    not_not, not_not]
  have hfind (s : DbScope) (st : String) (k : DbKey) : (((toMaps db).stores s st).find k).isSome ↔
      ∃ r ∈ db.rows, r.pk = (s, st, k) := by
    rw [find_eq]
    exact lookup_isSome
  have hversion (s : DbScope) : ((toMaps db).versions s).isSome ↔ ∃ r ∈ db.versions, r.pk = (s, ()) := by
    show (db.version s).isSome ↔ _
    rw [version_eq]
    exact lookup_isSome
  constructor
  · rintro ⟨s, hs, ⟨store, k, h₁, h₂⟩ | ⟨h₁, h₂⟩⟩
    · obtain ⟨r, hr, hpk⟩ := (hfind s store k).1 h₁
      obtain ⟨r', hr', hpk'⟩ := (hfind (movedTo new s) store k).1 h₂
      exact .inl ⟨r, hr, r', hr', by rw [hpk]; exact hs, by rw [hpk', hpk]⟩
    · obtain ⟨r, hr, hpk⟩ := (hversion s).1 h₁
      obtain ⟨r', hr', hpk'⟩ := (hversion (movedTo new s)).1 h₂
      exact .inr ⟨r, hr, r', hr', by rw [hpk]; exact hs, by rw [hpk', hpk]⟩
  · rintro (⟨r, hr, r', hr', hs, hpk⟩ | ⟨r, hr, r', hr', hs, hpk⟩)
    · exact ⟨r.scope, hs, .inl ⟨r.store, r.key, (hfind _ _ _).2 ⟨r, hr, rfl⟩, (hfind _ _ _).2 ⟨r', hr', hpk⟩⟩⟩
    · exact ⟨r.scope, hs, .inr ⟨(hversion _).2 ⟨r, hr, rfl⟩, (hversion _).2 ⟨r', hr', hpk⟩⟩⟩

theorem toMaps_rename (hne : old ≠ new) (db : PluginDbTables) :
    (db.rename tenantId agentId old new).map toMaps = (toMaps db).rename tenantId agentId old new := by
  have hcollides := collides_iff tenantId agentId hne db
  unfold PluginDbTables.rename Maps.rename
  dsimp only
  split
  · rename_i hu
    have hu : Table.Unique Row.pk (movedRows tenantId agentId old Row.pk (movedRow new) db.rows) ∧
        Table.Unique VersionRow.scope (movedRows tenantId agentId old VersionRow.pk (movedVersion new) db.versions) := hu
    rw [if_neg fun h => hcollides.1 h ⟨hu.1, unique_version.2 hu.2⟩, Option.map_some]
    refine congrArg some (Maps.ext (fun s st => OrderedMap.ext fun k => ?_) fun s => ?_)
    · have h := lookup_moved Row.toEntry (movedRow new) hne (fun _ => rfl) (fun _ => rfl) db.keys hu.1 s (st, k)
      refine (find_eq _ s st k).trans (h.trans ?_)
      rw [← find_eq, ← find_eq]
      unfold Maps.moved
      dsimp only
      split
      · rfl
      · split
        · rfl
        · rfl
    · have h := lookup_moved VersionRow.version (movedVersion new) hne (fun _ => rfl) (fun _ => rfl) (unique_version.2 db.scopes)
        (unique_version.2 hu.2) s ()
      have hback := version_eq db (movedTo old s)
      refine (version_eq _ s).trans (h.trans ?_)
      rw [← version_eq db s, ← hback]
      rfl
  · rename_i hu
    have hc : (toMaps db).Collides tenantId agentId old new :=
      hcollides.2 fun h => hu ⟨h.1, unique_version.1 h.2⟩
    rw [if_pos hc]
    rfl

end Renames

end Antiproton.PluginDb
