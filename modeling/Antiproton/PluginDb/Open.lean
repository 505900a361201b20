import Antiproton.Lib.History
import Antiproton.PluginDb.Maps

/-!
# Antiproton.PluginDb.Open

A plugin's declaration applied to the rows (`openPluginDatabase`, `src/runtime/plugin-db.ts`): the checks of each operation,
the version rule, transactions and their handles, leases. Written over what it asks of the tables, so that it runs on the rows
and on the maps they stand for alike.

* `step_maps`: a step on the rows is the step on the maps.
-/

namespace Antiproton.PluginDb

open Js

/-- What the tables are asked, by their type. -/
structure Backend (T : Type) where
  perform : DbScope → Request → T → Answer × T
  version : DbScope → T → Option Int
  setVersion : DbScope → Int → T → T
  rename : String → String → String → String → T → Option T
  remove : String → String → String → T → T

def sql : Backend PluginDbTables where
  perform := PluginDbTables.perform
  version := PluginDbTables.version
  setVersion := PluginDbTables.setVersion
  rename := PluginDbTables.rename
  remove := PluginDbTables.remove

noncomputable def ordered : Backend Maps where
  perform := Maps.perform
  version scope m := m.versions scope
  setVersion := Maps.setVersion
  rename := Maps.rename
  remove := Maps.remove

/-! ## Declarations and operations -/

/-- A key as it is passed: none, a value that is no key, or a key. -/
inductive KeyArg
  | absent
  | unfit
  | key (k : DbKey)

/-- `DbOperations`, by what is called; a value JSON does not write is none. -/
inductive Op
  | get (store : String) (key : KeyArg)
  | put (store : String) (value : Option Json) (key : KeyArg)
  | delete (store : String) (query : DbQuery)
  | getAll (store : String) (query : DbQuery) (count : Option Int)
  | getAllFromIndex (store index : String) (query : DbQuery) (count : Option Int)
  | count (store : String) (query : DbQuery)

def Op.store : Op → String
  | get store _ => store
  | put store _ _ => store
  | delete store _ => store
  | getAll store _ _ => store
  | getAllFromIndex store _ _ _ => store
  | count store _ => store

/-- A callback: what it does through its own handle or one kept from before, and how it ends. -/
inductive Callback
  | returns (thenable : Bool) (out : Json)
  | throws (message : String)
  | does (handle : Option Nat) (op : Op) (next : Except String Answer → Callback)

structure DbStoreSpec where
  keyPath : Option String
  indexes : List (String × String)

structure DbSpec where
  version : Int
  stores : List (String × DbStoreSpec)
  upgrade : Option (Int → Callback)

/-- What a database is opened with; a lease is its number and its reason. -/
structure Opened where
  scope : DbScope
  spec : Option DbSpec
  readOnly : Bool
  lease : Option (Nat × String)

structure Handle where
  db : Opened
  writes : Bool
  only : Option (List String)
  closed : Bool

def READ_ONLY : String := "read-only: a diagnosis does not change a mount's state"

def Opened.who (d : Opened) : String := "plugin " ++ d.scope.plugin

/-- Why the declaration is refused where the database is opened. -/
def Opened.refused (d : Opened) : Option String :=
  d.spec.bind fun spec =>
    if spec.version < 1 then
      some (d.who ++ " declares database version " ++ toString spec.version ++ "; it must be a positive integer")
    else (spec.stores.find? fun s => decide (1 < s.2.indexes.length)).map fun s =>
      d.who ++ " declares " ++ toString s.2.indexes.length ++ " indexes on store " ++ s.1 ++ "; this version allows one"

def Opened.storeOf (d : Opened) (name : String) : Except String DbStoreSpec :=
  match d.spec with
  | none => .error (d.who ++ " declares no database")
  | some spec =>
    match spec.stores.find? fun s => s.1 == name with
    | none => .error (d.who ++ " declares no store named " ++ name)
    | some s => .ok s.2

/-- The reason of a lease that has ended. -/
def Opened.dead (ended : List Nat) (d : Opened) : Option String :=
  d.lease.bind fun l => if l.1 ∈ ended then some l.2 else none

def Handle.storeIn (ended : List Nat) (h : Handle) (name : String) : Except String DbStoreSpec :=
  if h.closed then .error "this transaction has ended; its handle cannot be used outside its callback"
  else
    match h.db.dead ended with
    | some reason => .error reason
    | none =>
      match h.db.storeOf name with
      | .error m => .error m
      | .ok s =>
        match h.only with
        | none => .ok s
        | some names =>
          if name ∈ names then .ok s
          else .error ("store " ++ name ++ " is not in this transaction; it named " ++ String.intercalate ", " names)

section Checks

variable (number : Str → ℚ) (text : Str → String)

/-- The value as a key, where it is a string or a finite number. -/
def isKey : Option Json → Option DbKey
  | some (.num n) => some (.number (number n))
  | some (.str s) => some (.text (text s))
  | _ => none

/-- The value at a dotted path. -/
def at_ (value : Json) (path : String) : Option Json :=
  (splitOn (unit '.') (js path)).foldl (fun cur step => cur.bind (·.field? step)) (some value)

def putKey (s : DbStoreSpec) (store : String) (value : Json) (key : KeyArg) : Except String DbKey :=
  match s.keyPath with
  | some path =>
    match key with
    | .absent =>
      match isKey number text (at_ value path) with
      | none => .error ("value has no key at " ++ path)
      | some k => .ok k
    | _ => .error ("store " ++ store ++ " takes its key from " ++ path ++ "; do not pass one")
  | none =>
    match key with
    | .key k => .ok k
    | _ => .error ("store " ++ store ++ " has no keyPath; put needs a key")

/-- The indexed field of a value, by the store's one index. -/
def indexedField (s : DbStoreSpec) (value : Json) : Option DbKey :=
  s.indexes.head?.bind fun x => isKey number text (at_ value x.2)

/-- An operation checked against the declaration: what it asks of the rows, or why not. -/
def Handle.checked (ended : List Nat) (h : Handle) (op : Op) : Except String Request :=
  match h.storeIn ended op.store with
  | .error m => .error m
  | .ok s =>
    match op with
    | .get store (.key k) => .ok (.get store k)
    | .get _ _ => .error "key must be a string or a finite number"
    | .put store value key =>
      if !h.writes then .error (if h.db.readOnly then READ_ONLY else "put in a readonly transaction")
      else
        match value with
        | none => .error "value must be JSON"
        | some v =>
          match putKey number text s store v key with
          | .error m => .error m
          | .ok k => .ok (.put store k v (indexedField number text s v))
    | .delete store query =>
      if !h.writes then .error (if h.db.readOnly then READ_ONLY else "delete in a readonly transaction")
      else .ok (.delete store query)
    | .getAll store query count => .ok (.getAll store query count)
    | .getAllFromIndex store index query count =>
      if s.indexes.any fun x => x.1 == index then .ok (.getAllFromIndex store query count)
      else .error (h.db.who ++ " declares no index named " ++ index ++ " on store " ++ store)
    | .count store query => .ok (.count store query)

end Checks

/-! ## Transactions -/

section Runs

variable {T : Type} (number : Str → ℚ) (text : Str → String) (A : Backend T)

/-- A callback run on the tables, with its own handle and those kept from before. -/
def Callback.run (ended : List Nat) (handles : List Handle) (own : Handle) : Callback → T → Except String (Bool × Json) × T
  | .returns thenable out, t => (.ok (thenable, out), t)
  | .throws m, t => (.error m, t)
  | .does i op next, t =>
    let h := (i.bind fun i => handles[i]?).getD own
    match h.checked number text ended op with
    | .error m => (next (.error m)).run ended handles own t
    | .ok r => (next (.ok (A.perform h.db.scope r t).1)).run ended handles own (A.perform h.db.scope r t).2

/-- `mustBeSync`: a promise is refused inside the transaction. -/
def mustBeSync (what : String) : Except String (Bool × Json) → Except String Json
  | .error m => .error m
  | .ok (true, _) => .error (what ++
      " must be synchronous: an async callback commits at its first await, and a throw after that undoes nothing")
  | .ok (false, out) => .ok out

/-- `transactionSync`: the tables as they were where the body throws. -/
def transactionSync {X : Type} (t : T) (body : Except String X × T) : Except String X × T :=
  match body.1 with
  | .error m => (.error m, t)
  | .ok x => (.ok x, body.2)

structure World (T : Type) where
  tables : T
  databases : List (Opened × Bool)
  handles : List Handle
  ended : List Nat

variable {A}

def World.upgraded (i : Nat) (w : World T) : World T :=
  { w with databases := w.databases.modify i fun x => (x.1, true) }

variable (A)

/-- The version rule, before the first use of a database. -/
def World.ready (i : Nat) (d : Opened) (upgraded : Bool) (w : World T) : Except String Unit × World T :=
  match d.dead w.ended with
  | some reason => (.error reason, w)
  | none =>
    match d.spec with
    | none => (.ok (), w)
    | some spec =>
      if upgraded || d.readOnly then (.ok (), w)
      else if (A.version d.scope w.tables).any fun stored => decide (spec.version ≤ stored) then (.ok (), w.upgraded i)
      else
        let old := (A.version d.scope w.tables).getD 0
        let handle : Handle := ⟨d, true, none, false⟩
        let body := ((spec.upgrade.getD fun _ => .returns false .null) old).run number text A w.ended w.handles handle w.tables
        let w := { w with handles := w.handles ++ [{ handle with closed := true }] }
        match transactionSync w.tables (mustBeSync "upgrade" body.1, A.setVersion d.scope spec.version body.2) with
        | (.error m, _) => (.error (d.who ++ " database upgrade from " ++ toString old ++ " to " ++ toString spec.version ++
            " failed: " ++ m), w)
        | (.ok _, t) => (.ok (), { w with tables := t }.upgraded i)

/-- The names of a mount: never the agent-level database's. -/
def AGENT_SCOPE_ALIAS : String := ""

abbrev MountAlias := { name : String // name ≠ AGENT_SCOPE_ALIAS }

inductive Event
  | opens (d : Opened)
  | calls (i : Nat) (op : Op)
  | transacts (i : Nat) (stores : List String) (readwrite : Bool) (fn : Callback)
  /-- A handle used after its callback. -/
  | kept (i : Nat) (op : Op)
  | ends (lease : Nat)
  | renames (tenantId agentId : String) (old new : MountAlias)
  | removes (tenantId agentId : String) (name : MountAlias)

/-- An operation through a handle, alone. -/
def World.operate (h : Handle) (op : Op) (w : World T) : Except String Answer × World T :=
  match h.checked number text w.ended op with
  | .error m => (.error m, w)
  | .ok r => (.ok (A.perform h.db.scope r w.tables).1, { w with tables := (A.perform h.db.scope r w.tables).2 })

/-- The first of a transaction's stores that is not declared. -/
def Opened.undeclared (d : Opened) (stores : List String) : Option String :=
  stores.findSome? fun name =>
    match d.storeOf name with
    | .error m => some m
    | .ok _ => none

def World.transaction (d : Opened) (stores : List String) (readwrite : Bool) (fn : Callback) (w : World T) :
    Except String Answer × World T :=
  match d.undeclared stores.eraseDups with
  | some m => (.error m, w)
  | none =>
    if readwrite && d.readOnly then (.error READ_ONLY, w)
    else
      let handle : Handle := ⟨d, readwrite, some stores.eraseDups, false⟩
      let body := fn.run number text A w.ended w.handles handle w.tables
      let done := transactionSync w.tables (mustBeSync "a transaction callback" body.1, body.2)
      (done.1.map fun out => .value (some out),
        { w with
          tables := done.2
          handles := w.handles ++ [{ handle with closed := true }] })

def World.step (e : Event) (w : World T) : Except String Answer × World T :=
  match e with
  | .opens d =>
    match d.refused with
    | some m => (.error m, w)
    | none => (.ok .done, { w with databases := w.databases ++ [(d, false)] })
  | .calls i op =>
    match w.databases[i]? with
    | none => (.ok .done, w)
    | some (d, upgraded) =>
      match w.ready number text A i d upgraded with
      | (.error m, w) => (.error m, w)
      | (.ok _, w) => w.operate number text A ⟨d, !d.readOnly, none, false⟩ op
  | .transacts i stores readwrite fn =>
    match w.databases[i]? with
    | none => (.ok .done, w)
    | some (d, upgraded) =>
      match w.ready number text A i d upgraded with
      | (.error m, w) => (.error m, w)
      | (.ok _, w) => w.transaction number text A d stores readwrite fn
  | .kept i op =>
    match w.handles[i]? with
    | none => (.ok .done, w)
    | some h => w.operate number text A h op
  | .ends lease => (.ok .done, { w with ended := lease :: w.ended })
  | .renames tenantId agentId old new =>
    if old = new then (.ok .done, w)
    else
      match A.rename tenantId agentId old new w.tables with
      | none => (.error "rename was not applied", w)
      | some t => (.ok .done, { w with tables := t })
  | .removes tenantId agentId name => (.ok .done, { w with tables := A.remove tenantId agentId name w.tables })

end Runs

/-! ## The same on other tables -/

/-- What the one tables answer and become is what the other do, seen through a function. -/
structure Refines {T U : Type} (A : Backend T) (B : Backend U) (f : T → U) : Prop where
  perform : ∀ scope request t, (A.perform scope request t).1 = (B.perform scope request (f t)).1 ∧
    f (A.perform scope request t).2 = (B.perform scope request (f t)).2
  version : ∀ scope t, A.version scope t = B.version scope (f t)
  setVersion : ∀ scope version t, f (A.setVersion scope version t) = B.setVersion scope version (f t)
  rename : ∀ tenantId agentId old new t, old ≠ new →
    (A.rename tenantId agentId old new t).map f = B.rename tenantId agentId old new (f t)
  remove : ∀ tenantId agentId name t, f (A.remove tenantId agentId name t) = B.remove tenantId agentId name (f t)

theorem sql_refines : Refines sql ordered toMaps where
  perform scope request t := toMaps_perform t scope request
  version _ _ := rfl
  setVersion scope version t := toMaps_setVersion t scope version
  rename _ _ _ _ t hne := toMaps_rename hne t
  remove tenantId agentId name t := toMaps_remove t tenantId agentId name

section Refinement

variable {T U : Type} {A : Backend T} {B : Backend U} {f : T → U} (h : Refines A B f) (number : Str → ℚ) (text : Str → String)
include h

def World.map {T U : Type} (f : T → U) (w : World T) : World U := ⟨f w.tables, w.databases, w.handles, w.ended⟩

theorem run_refines (ended : List Nat) (handles : List Handle) (own : Handle) (fn : Callback) (t : T) :
    (fn.run number text A ended handles own t).1 = (fn.run number text B ended handles own (f t)).1 ∧
    f (fn.run number text A ended handles own t).2 = (fn.run number text B ended handles own (f t)).2 := by
  induction fn generalizing t with
  | returns thenable out => exact ⟨rfl, rfl⟩
  | throws m => exact ⟨rfl, rfl⟩
  | does i op next ih =>
    unfold Callback.run
    dsimp only
    cases (((i.bind fun i => handles[i]?).getD own).checked number text ended op) with
    | error m => exact ih (.error m) t
    | ok r =>
      obtain ⟨hanswer, htables⟩ := h.perform ((i.bind fun i => handles[i]?).getD own).db.scope r t
      dsimp only
      rw [← hanswer, ← htables]
      exact ih _ _

/-- The answer and the world after are the same, seen through the function. -/
def Same {X : Type} (f : T → U) (done : X × World T) (done' : X × World U) : Prop := done.1 = done'.1 ∧ done.2.map f = done'.2

theorem operate_refines (w : World T) (hd : Handle) (op : Op) :
    Same f (w.operate number text A hd op) ((w.map f).operate number text B hd op) := by
  have hended : (w.map f).ended = w.ended := rfl
  unfold World.operate
  rw [hended]
  cases hd.checked number text w.ended op with
  | error m => exact ⟨rfl, rfl⟩
  | ok r =>
    obtain ⟨hanswer, htables⟩ := h.perform hd.db.scope r w.tables
    refine ⟨congrArg Except.ok hanswer, ?_⟩
    unfold World.map
    dsimp only
    rw [htables]

theorem transaction_refines (d : Opened) (stores : List String) (readwrite : Bool) (fn : Callback) (w : World T) :
    Same f (w.transaction number text A d stores readwrite fn) ((w.map f).transaction number text B d stores readwrite fn) := by
  unfold World.transaction
  cases d.undeclared stores.eraseDups with
  | some m => exact ⟨rfl, rfl⟩
  | none =>
    dsimp only
    split
    · exact ⟨rfl, rfl⟩
    · obtain ⟨hanswer, htables⟩ := run_refines h number text w.ended w.handles
        ⟨d, readwrite, some stores.eraseDups, false⟩ fn w.tables
      unfold World.map
      dsimp only
      rw [← hanswer, ← htables]
      unfold transactionSync
      dsimp only
      cases mustBeSync "a transaction callback" (fn.run number text A w.ended w.handles
        ⟨d, readwrite, some stores.eraseDups, false⟩ w.tables).1 with
      | error m => exact ⟨rfl, rfl⟩
      | ok out => exact ⟨rfl, rfl⟩

theorem ready_refines (i : Nat) (d : Opened) (upgraded : Bool) (w : World T) :
    Same f (w.ready number text A i d upgraded) ((w.map f).ready number text B i d upgraded) := by
  have hended : (w.map f).ended = w.ended := rfl
  have htables : (w.map f).tables = f w.tables := rfl
  have hhandles : (w.map f).handles = w.handles := rfl
  unfold World.ready
  rw [hended, htables, hhandles]
  cases d.dead w.ended with
  | some reason => exact ⟨rfl, rfl⟩
  | none =>
    cases hspec : d.spec with
    | none => exact ⟨rfl, rfl⟩
    | some spec =>
      dsimp only
      rw [← h.version]
      split
      · exact ⟨rfl, rfl⟩
      · split
        · exact ⟨rfl, rfl⟩
        · obtain ⟨hanswer, hafter⟩ := run_refines h number text w.ended w.handles ⟨d, true, none, false⟩
            ((spec.upgrade.getD fun _ => .returns false .null) ((A.version d.scope w.tables).getD 0)) w.tables
          rw [← hanswer, ← hafter, ← h.setVersion]
          unfold transactionSync
          dsimp only
          cases mustBeSync "upgrade" (Callback.run number text A w.ended w.handles ⟨d, true, none, false⟩
            ((spec.upgrade.getD fun _ => .returns false .null) ((A.version d.scope w.tables).getD 0)) w.tables).1 with
          | error m => exact ⟨rfl, rfl⟩
          | ok out => exact ⟨rfl, rfl⟩

/-- A step on the one tables is the step on the other. -/
theorem step_refines (e : Event) (w : World T) :
    Same f (w.step number text A e) ((w.map f).step number text B e) := by
  have hdatabases : (w.map f).databases = w.databases := rfl
  have hhandles : (w.map f).handles = w.handles := rfl
  cases e with
  | opens d =>
    unfold World.step
    dsimp only
    cases d.refused with
    | some m => exact ⟨rfl, rfl⟩
    | none => exact ⟨rfl, rfl⟩
  | calls i op =>
    unfold World.step
    dsimp only
    rw [hdatabases]
    cases w.databases[i]? with
    | none => exact ⟨rfl, rfl⟩
    | some x =>
      obtain ⟨d, upgraded⟩ := x
      obtain ⟨hready, hworld⟩ := ready_refines h number text i d upgraded w
      dsimp only
      generalize w.ready number text A i d upgraded = done at hready hworld
      generalize (w.map f).ready number text B i d upgraded = done' at hready hworld
      obtain ⟨r, w₁⟩ := done
      obtain ⟨r', w₂⟩ := done'
      dsimp only at hready hworld
      subst hready hworld
      cases r with
      | error m => exact ⟨rfl, rfl⟩
      | ok _ => exact operate_refines h number text w₁ _ op
  | transacts i stores readwrite fn =>
    unfold World.step
    dsimp only
    rw [hdatabases]
    cases w.databases[i]? with
    | none => exact ⟨rfl, rfl⟩
    | some x =>
      obtain ⟨d, upgraded⟩ := x
      obtain ⟨hready, hworld⟩ := ready_refines h number text i d upgraded w
      dsimp only
      generalize w.ready number text A i d upgraded = done at hready hworld
      generalize (w.map f).ready number text B i d upgraded = done' at hready hworld
      obtain ⟨r, w₁⟩ := done
      obtain ⟨r', w₂⟩ := done'
      dsimp only at hready hworld
      subst hready hworld
      cases r with
      | error m => exact ⟨rfl, rfl⟩
      | ok _ => exact transaction_refines h number text d stores readwrite fn w₁
  | kept i op =>
    unfold World.step
    dsimp only
    rw [hhandles]
    cases w.handles[i]? with
    | none => exact ⟨rfl, rfl⟩
    | some hd => exact operate_refines h number text w hd op
  | ends lease => exact ⟨rfl, rfl⟩
  | renames tenantId agentId old new =>
    unfold World.step
    dsimp only
    split
    · exact ⟨rfl, rfl⟩
    · rename_i hne
      have hrename := h.rename tenantId agentId old new w.tables fun heq => hne (Subtype.ext heq)
      have htables : (w.map f).tables = f w.tables := rfl
      rw [htables, ← hrename]
      cases A.rename tenantId agentId old new w.tables with
      | none => exact ⟨rfl, rfl⟩
      | some t => exact ⟨rfl, rfl⟩
  | removes tenantId agentId name =>
    refine ⟨rfl, ?_⟩
    unfold World.step World.map
    dsimp only
    rw [h.remove]

open History in
/-- A run on the one tables is the run on the other: the answers, and where it ends. -/
theorem turns_refine (events : List Event) (w : World T) :
    (turns (World.step number text A) events w).map (·.answer) =
      (turns (World.step number text B) events (w.map f)).map (·.answer) ∧
    (final (World.step number text A) events w).map f = final (World.step number text B) events (w.map f) := by
  induction events generalizing w with
  | nil => exact ⟨rfl, rfl⟩
  | cons e rest ih =>
    obtain ⟨hanswer, hworld⟩ := step_refines h number text e w
    obtain ⟨ih₁, ih₂⟩ := ih (w.step number text A e).2
    rw [hworld] at ih₁ ih₂
    rw [turns_cons, turns_cons, List.map_cons, List.map_cons, ih₁, final_cons, final_cons]
    refine ⟨?_, ih₂⟩
    exact congrArg (· :: _) hanswer

end Refinement

end Antiproton.PluginDb
