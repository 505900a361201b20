import Antiproton.PluginDb.Open

/-!
# Antiproton.PluginDb.Lawful

What plugins' databases keep, over every sequence of openings, operations, transactions, leases, renames and removals.

* `step_elsewhere`, `step_alone`: an operation of one scope changes no other scope's maps, and reads none.
* `transaction_atomic`: a callback that throws or returns a promise changes nothing.
* `plugin_db_maps`: the runs on the rows are the runs on the maps, and these laws hold of them.
-/

namespace Antiproton.PluginDb

open Js History

/-! ## One request -/

def Request.store : Request → String
  | .get store _ => store
  | .put store _ _ _ => store
  | .delete store _ => store
  | .getAll store _ _ => store
  | .getAllFromIndex store _ _ => store
  | .count store _ => store

def Request.writes : Request → Bool
  | .put _ _ _ _ => true
  | .delete _ _ => true
  | _ => false

/-- Two states of the maps that are one in a scope. -/
structure Maps.Agree (scope : DbScope) (m m' : Maps) : Prop where
  stores : ∀ store, m.stores scope store = m'.stores scope store
  versions : m.versions scope = m'.versions scope

namespace Maps

variable {scope : DbScope} {r : Request} {m m' : Maps}

theorem Agree.refl (scope : DbScope) (m : Maps) : Agree scope m m := ⟨fun _ => rfl, rfl⟩

theorem Agree.trans {m'' : Maps} (h : Agree scope m m') (h' : Agree scope m' m'') : Agree scope m m'' :=
  ⟨fun store => (h.stores store).trans (h'.stores store), h.versions.trans h'.versions⟩

theorem perform_versions : (m.perform scope r).2.versions = m.versions := by
  cases r <;> rfl

theorem perform_stores {s : DbScope} {st : String} (h : ¬(s = scope ∧ st = r.store)) :
    (m.perform scope r).2.stores s st = m.stores s st := by
  cases r with
  | put store key value idx => exact write_other _ _ _ _ h
  | delete store query => exact write_other _ _ _ _ h
  | get store key => rfl
  | getAll store query n => rfl
  | getAllFromIndex store query n => rfl
  | count store query => rfl

theorem perform_reads (h : r.writes = false) : (m.perform scope r).2 = m := by
  cases r with
  | put store key value idx => cases h
  | delete store query => cases h
  | get store key => rfl
  | getAll store query n => rfl
  | getAllFromIndex store query n => rfl
  | count store query => rfl

/-- A request is answered from its own scope, and leaves it the same whatever the others hold. -/
theorem perform_alone (h : Agree scope m m') : (m.perform scope r).1 = (m'.perform scope r).1 ∧
    Agree scope (m.perform scope r).2 (m'.perform scope r).2 := by
  have hs := h.stores r.store
  constructor
  · cases r with
    | put store key value idx => rfl
    | delete store query => rfl
    | get store key => exact congrArg (fun o => Answer.value ((o.find key).map (·.value))) hs
    | getAll store query n =>
      exact congrArg (fun o : OrderedMap DbKey Entry =>
        Answer.values ((limit n (o.entries.filter fun x => query.takes x.1)).map (·.2.value))) hs
    | getAllFromIndex store query n =>
      exact congrArg (fun o : OrderedMap DbKey Entry => Answer.values
        ((limit n ((o.index (·.idx)).entries.filter fun x => query.takes (ofLex x.1).1)).map (·.2.value))) hs
    | count store query =>
      exact congrArg (fun o : OrderedMap DbKey Entry =>
        Answer.number (o.entries.filter fun x => query.takes x.1).length) hs
  · refine ⟨fun st => ?_, ?_⟩
    · by_cases hst : st = r.store
      · subst hst
        cases r with
        | put store key value idx =>
          have hs : m.stores scope store = m'.stores scope store := hs
          show (m.write scope store _).stores scope store = (m'.write scope store _).stores scope store
          rw [write_self, write_self, hs]
        | delete store query =>
          have hs : m.stores scope store = m'.stores scope store := hs
          show (m.write scope store _).stores scope store = (m'.write scope store _).stores scope store
          rw [write_self, write_self, hs]
        | get store key => exact hs
        | getAll store query n => exact hs
        | getAllFromIndex store query n => exact hs
        | count store query => exact hs
      · rw [perform_stores fun hn => hst hn.2, perform_stores fun hn => hst hn.2]
        exact h.stores st
    · rw [perform_versions, perform_versions]
      exact h.versions

end Maps

/-! ## One operation -/

section Checked

variable {number : Str → ℚ} {text : Str → String} {ended : List Nat} {h : Handle} {op : Op} {r : Request}

theorem storeIn_ok {name : String} {s : DbStoreSpec} (hok : h.storeIn ended name = .ok s) :
    h.closed = false ∧ h.db.dead ended = none ∧ h.db.storeOf name = .ok s ∧ ∀ names, h.only = some names → name ∈ names := by
  unfold Handle.storeIn at hok
  split at hok
  · cases hok
  · rename_i hclosed
    cases hdead : h.db.dead ended with
    | some reason =>
      rw [hdead] at hok
      cases hok
    | none =>
      rw [hdead] at hok
      dsimp only at hok
      cases hstore : h.db.storeOf name with
      | error m =>
        rw [hstore] at hok
        cases hok
      | ok s' =>
        rw [hstore] at hok
        dsimp only at hok
        refine ⟨by simpa using hclosed, rfl, ?_⟩
        cases honly : h.only with
        | none =>
          rw [honly] at hok
          cases hok
          exact ⟨rfl, fun names hn => by cases hn⟩
        | some names =>
          rw [honly] at hok
          dsimp only at hok
          split at hok
          · rename_i hin
            cases hok
            exact ⟨rfl, fun names' hn => Option.some.inj hn ▸ hin⟩
          · cases hok

/-- An operation that is let through asks of its own store, writes only where its handle may, and indexes by its declaration. -/
structure Allowed (number : Str → ℚ) (text : Str → String) (ended : List Nat) (h : Handle) (op : Op) (r : Request) : Prop where
  live : h.closed = false
  leased : h.db.dead ended = none
  store : r.store = op.store
  named : ∀ names, h.only = some names → r.store ∈ names
  writes : r.writes = true → h.writes = true
  indexed : ∀ store k v idx, r = .put store k v idx → ∃ s, h.db.storeOf store = .ok s ∧ idx = indexedField number text s v

theorem checked_ok (hok : h.checked number text ended op = .ok r) : Allowed number text ended h op r := by
  unfold Handle.checked at hok
  cases hin : h.storeIn ended op.store with
  | error m =>
    rw [hin] at hok
    cases hok
  | ok s =>
    rw [hin] at hok
    dsimp only at hok
    obtain ⟨hclosed, hdead, hstore, hnamed⟩ := storeIn_ok hin
    cases op with
    | get store key =>
      cases key with
      | absent => cases hok
      | unfit => cases hok
      | key k =>
        cases hok
        exact ⟨hclosed, hdead, rfl, hnamed, nofun, nofun⟩
    | put store value key =>
      dsimp only at hok
      split at hok
      · cases hok
      · rename_i hwrites
        cases value with
        | none => cases hok
        | some v =>
          dsimp only at hok
          cases hkey : putKey number text s store v key with
          | error m =>
            rw [hkey] at hok
            cases hok
          | ok k =>
            rw [hkey] at hok
            cases hok
            refine ⟨hclosed, hdead, rfl, hnamed, fun _ => by simpa using hwrites, fun store' k' v' idx heq => ?_⟩
            cases heq
            exact ⟨s, hstore, rfl⟩
    | delete store query =>
      dsimp only at hok
      split at hok
      · cases hok
      · rename_i hwrites
        cases hok
        exact ⟨hclosed, hdead, rfl, hnamed, fun _ => by simpa using hwrites, nofun⟩
    | getAll store query count =>
      cases hok
      exact ⟨hclosed, hdead, rfl, hnamed, nofun, nofun⟩
    | getAllFromIndex store index query count =>
      dsimp only at hok
      split at hok
      · cases hok
        exact ⟨hclosed, hdead, rfl, hnamed, nofun, nofun⟩
      · cases hok
    | count store query =>
      cases hok
      exact ⟨hclosed, hdead, rfl, hnamed, nofun, nofun⟩

theorem checked_closed (hclosed : h.closed = true) : h.checked number text ended op =
    .error "this transaction has ended; its handle cannot be used outside its callback" := by
  unfold Handle.checked Handle.storeIn
  rw [if_pos hclosed]

theorem checked_dead {reason : String} (hopen : h.closed = false) (hdead : h.db.dead ended = some reason) :
    h.checked number text ended op = .error reason := by
  unfold Handle.checked Handle.storeIn
  rw [hopen, if_neg Bool.false_ne_true, hdead]

end Checked

/-! ## One callback -/

section Runs

variable (number : Str → ℚ) (text : Str → String) (ended : List Nat) {handles : List Handle} (own : Handle)

/-- The handle a callback's operation goes through. -/
def usedHandle (handles : List Handle) (own : Handle) (i : Option Nat) : Handle := (i.bind fun i => handles[i]?).getD own

/-- Where every handle kept is closed, an operation let through is the callback's own. -/
theorem usedHandle_ok {number : Str → ℚ} {text : Str → String} {ended : List Nat} {own : Handle} (hclosed : ∀ h ∈ handles, h.closed = true) {i : Option Nat}
    {op : Op} {r : Request} (hok : (usedHandle handles own i).checked number text ended op = .ok r) :
    usedHandle handles own i = own := by
  unfold usedHandle at hok ⊢
  cases hget : i.bind fun i => handles[i]? with
  | none => rfl
  | some h =>
    rw [hget] at hok
    obtain ⟨j, -, hj⟩ := Option.bind_eq_some_iff.1 hget
    have hlive := (checked_ok hok).live
    rw [Option.getD_some, hclosed h (List.mem_of_getElem? hj)] at hlive
    cases hlive

/-- A callback's run, by what one operation of its own handle keeps. -/
theorem run_keeps {I : Maps → Prop} (hclosed : ∀ h ∈ handles, h.closed = true)
    (hkeep : ∀ op r m, Allowed number text ended own op r → I m → I (m.perform own.db.scope r).2) (fn : Callback) (m : Maps)
    (hm : I m) : I (fn.run number text ordered ended handles own m).2 := by
  induction fn generalizing m with
  | returns thenable out => exact hm
  | throws message => exact hm
  | does i op next ih =>
    unfold Callback.run
    dsimp only
    cases hc : ((i.bind fun i => handles[i]?).getD own).checked number text ended op with
    | error message => exact ih (.error message) m hm
    | ok r =>
      have hown := usedHandle_ok hclosed hc
      unfold usedHandle at hown
      rw [hown] at hc ⊢
      exact ih _ _ (hkeep op r m (checked_ok hc) hm)

/-- A callback changes its own scope's maps alone, of the stores its handle names. -/
theorem run_stores (hclosed : ∀ h ∈ handles, h.closed = true) (fn : Callback) (m : Maps) (s : DbScope) (st : String)
    (h : s ≠ own.db.scope ∨ ∃ names, own.only = some names ∧ st ∉ names) :
    (fn.run number text ordered ended handles own m).2.stores s st = m.stores s st := by
  refine run_keeps number text ended own (I := fun m' => m'.stores s st = m.stores s st) hclosed (fun op r m' hr hm' => ?_) fn m rfl
  rw [Maps.perform_stores, hm']
  rintro ⟨hs, hst⟩
  rcases h with h | ⟨names, honly, hnot⟩
  · exact h hs
  · exact hnot (hst ▸ hr.named names honly)

theorem run_versions (hclosed : ∀ h ∈ handles, h.closed = true) (fn : Callback) (m : Maps) :
    (fn.run number text ordered ended handles own m).2.versions = m.versions := by
  refine run_keeps number text ended own (I := fun m' => m'.versions = m.versions) hclosed (fun op r m' hr hm' => ?_) fn m rfl
  rw [Maps.perform_versions, hm']

theorem run_reads (hclosed : ∀ h ∈ handles, h.closed = true) (hreads : own.writes = false) (fn : Callback) (m : Maps) :
    (fn.run number text ordered ended handles own m).2 = m := by
  refine run_keeps number text ended own (I := fun m' => m' = m) hclosed (fun op r m' hr hm' => ?_) fn m rfl
  rw [Maps.perform_reads, hm']
  exact Bool.eq_false_iff.2 fun hw => by rw [hr.writes hw] at hreads; cases hreads

/-- What a callback sees and leaves of its scope does not depend on the others. -/
theorem run_alone (hclosed : ∀ h ∈ handles, h.closed = true) (fn : Callback) {m m' : Maps}
    (h : Maps.Agree own.db.scope m m') :
    (fn.run number text ordered ended handles own m).1 = (fn.run number text ordered ended handles own m').1 ∧
    Maps.Agree own.db.scope (fn.run number text ordered ended handles own m).2
      (fn.run number text ordered ended handles own m').2 := by
  induction fn generalizing m m' with
  | returns thenable out => exact ⟨rfl, h⟩
  | throws message => exact ⟨rfl, h⟩
  | does i op next ih =>
    unfold Callback.run
    dsimp only
    cases hc : ((i.bind fun i => handles[i]?).getD own).checked number text ended op with
    | error message => exact ih (.error message) h
    | ok r =>
      have hown := usedHandle_ok hclosed hc
      unfold usedHandle at hown
      rw [hown]
      obtain ⟨hanswer, hagree⟩ := Maps.perform_alone (r := r) h
      have hanswer : (ordered.perform own.db.scope r m).1 = (ordered.perform own.db.scope r m').1 := hanswer
      dsimp only
      rw [hanswer]
      exact ih _ hagree

end Runs

/-! ## The version rule -/

section Ready

variable (number : Str → ℚ) (text : Str → String)

/-- The world before a use of a database and after its version rule. -/
inductive Versioned (d : Opened) (upgraded : Bool) (w : World Maps) : Except String Unit × World Maps → Prop
  /-- No upgrade was due. -/
  | current (databases : List (Opened × Bool)) : databases.map (·.1) = w.databases.map (·.1) → (d.spec = none ∨ upgraded = true ∨ d.readOnly = true ∨
      ∃ spec stored, d.spec = some spec ∧ w.tables.versions d.scope = some stored ∧ spec.version ≤ stored) →
      Versioned d upgraded w (.ok (), { w with databases := databases })
  /-- The upgrade saw the version stored, and its changes and the new version are there. -/
  | upgraded (spec : DbSpec) (out : Json) (m : Maps) (databases : List (Opened × Bool)) (handle : Handle) :
      databases.map (·.1) = w.databases.map (·.1) → d.spec = some spec → d.readOnly = false →
      (∀ stored, w.tables.versions d.scope = some stored → stored < spec.version) →
      ((spec.upgrade.getD fun _ => .returns false .null) ((w.tables.versions d.scope).getD 0)).run number text ordered w.ended
        w.handles ⟨d, true, none, false⟩ w.tables = (.ok (false, out), m) →
      handle.closed = true →
      Versioned d upgraded w (.ok (), ⟨m.setVersion d.scope spec.version, databases, w.handles ++ [handle], w.ended⟩)
  /-- Nothing is there of it. -/
  | failed (message : String) (kept : List Handle) : (∀ h ∈ kept, h ∈ w.handles ∨ h.closed = true) →
      Versioned d upgraded w (.error message, { w with handles := kept })

theorem opened_upgraded {T : Type} (w : World T) (i : Nat) :
    (w.upgraded i).databases.map (·.1) = w.databases.map (·.1) := by
  refine List.ext_getElem? fun j => ?_
  unfold World.upgraded
  simp only [List.getElem?_map, List.getElem?_modify]
  cases w.databases[j]? with
  | none => rfl
  | some x =>
    show some (if i = j then (x.1, true) else x).1 = some x.1
    split
    · rfl
    · rfl

theorem ready_versioned (i : Nat) (d : Opened) (upgraded : Bool) (w : World Maps) :
    Versioned number text d upgraded w (w.ready number text ordered i d upgraded) := by
  unfold World.ready
  cases hdead : d.dead w.ended with
  | some reason => exact .failed reason w.handles fun h hh => .inl hh
  | none =>
    cases hspec : d.spec with
    | none => exact .current w.databases rfl (.inl hspec)
    | some spec =>
      dsimp only
      split
      · rename_i hno
        rw [Bool.or_eq_true] at hno
        exact .current w.databases rfl (.inr (hno.imp id .inl))
      · rename_i hno
        rw [Bool.or_eq_true, not_or] at hno
        have hversion : ordered.version d.scope w.tables = w.tables.versions d.scope := rfl
        rw [hversion]
        split
        · rename_i hany
          cases hstored : w.tables.versions d.scope with
          | none =>
            rw [hstored] at hany
            cases hany
          | some stored =>
            rw [hstored] at hany
            exact .current _ (opened_upgraded w i) (.inr (.inr (.inr ⟨spec, stored, hspec, hstored, of_decide_eq_true hany⟩)))
        · rename_i hany
          have hbelow : ∀ stored, w.tables.versions d.scope = some stored → stored < spec.version := by
            intro stored hstored
            rw [hstored] at hany
            have hnot : ¬spec.version ≤ stored := fun hle => hany (decide_eq_true hle)
            omega
          unfold transactionSync
          dsimp only
          cases hrun : ((spec.upgrade.getD fun _ => .returns false .null) ((w.tables.versions d.scope).getD 0)).run number text
            ordered w.ended w.handles ⟨d, true, none, false⟩ w.tables with
          | mk result m =>
            have hclosed : ∀ h ∈ w.handles ++ [(⟨d, true, none, true⟩ : Handle)], h ∈ w.handles ∨ h.closed = true := by
              intro h hh
              rcases List.mem_append.1 hh with hh | hh
              · exact .inl hh
              · rw [List.mem_singleton.1 hh]
                exact .inr rfl
            cases result with
            | error message => exact .failed _ _ hclosed
            | ok x =>
              obtain ⟨thenable, out⟩ := x
              cases thenable with
              | true => exact .failed _ _ hclosed
              | false =>
                exact .upgraded spec out m _ _ (opened_upgraded w i) hspec (Bool.eq_false_iff.2 hno.2) hbelow hrun rfl

end Ready

/-! ## One step -/

section Steps

variable (number : Str → ℚ) (text : Str → String)

/-- The scope a step acts on. -/
def Event.scope {T : Type} (w : World T) : Event → Option DbScope
  | .calls i _ => w.databases[i]?.map (·.1.scope)
  | .transacts i _ _ _ => w.databases[i]?.map (·.1.scope)
  | .kept i _ => w.handles[i]?.map (·.db.scope)
  | _ => none

/-- The scopes a step may change: the one it acts on, and those of a mount that is renamed or removed. -/
def Event.reaches {T : Type} (w : World T) (s : DbScope) : Event → Prop
  | .renames tenantId agentId old new =>
    PluginDbTables.ofAlias tenantId agentId old s = true ∨ PluginDbTables.ofAlias tenantId agentId new s = true
  | .removes tenantId agentId name => PluginDbTables.ofAlias tenantId agentId name s = true
  | e => e.scope w = some s

/-- Every handle kept is closed. -/
def World.closed {T : Type} (w : World T) : Prop := ∀ h ∈ w.handles, h.closed = true

variable {number text}

theorem Versioned.closed {d : Opened} {upgraded : Bool} {w : World Maps} {done : Except String Unit × World Maps}
    (h : Versioned number text d upgraded w done) (hw : w.closed) : done.2.closed := by
  cases h with
  | current databases _ _ => exact hw
  | upgraded spec out m databases handle _ _ _ _ _ hh =>
    intro h' hh'
    rcases List.mem_append.1 hh' with hh' | hh'
    · exact hw h' hh'
    · rw [List.mem_singleton.1 hh']
      exact hh
  | failed message kept hkept =>
    intro h' hh'
    rcases hkept h' hh' with hin | hc
    · exact hw h' hin
    · exact hc

theorem Versioned.elsewhere {d : Opened} {upgraded : Bool} {w : World Maps} {done : Except String Unit × World Maps}
    (h : Versioned number text d upgraded w done) (hw : w.closed) {s : DbScope} (hs : s ≠ d.scope) :
    Maps.Agree s done.2.tables w.tables := by
  cases h with
  | current databases _ _ => exact .refl s w.tables
  | upgraded spec out m databases handle _ _ _ _ hrun _ =>
    have hstores (st : String) := run_stores number text w.ended ⟨d, true, none, false⟩ hw
      ((spec.upgrade.getD fun _ => .returns false .null) ((w.tables.versions d.scope).getD 0)) w.tables s st
      (.inl hs)
    have hversions := run_versions number text w.ended ⟨d, true, none, false⟩ hw
      ((spec.upgrade.getD fun _ => .returns false .null) ((w.tables.versions d.scope).getD 0)) w.tables
    rw [hrun] at hversions
    refine ⟨fun st => ?_, ?_⟩
    · have := hstores st
      rwa [hrun] at this
    · have hif : (m.setVersion d.scope spec.version).versions s = m.versions s := if_neg hs
      exact hif.trans (congrFun hversions s)
  | failed message kept _ => exact .refl s w.tables

variable (number text)

/-- Two outcomes that are one in a scope, and in all but the tables. -/
structure SameIn {X : Type} (scope : DbScope) (done done' : X × World Maps) : Prop where
  answer : done.1 = done'.1
  tables : Maps.Agree scope done.2.tables done'.2.tables
  databases : done.2.databases = done'.2.databases
  handles : done.2.handles = done'.2.handles
  ended : done.2.ended = done'.2.ended

/-- Another state of the tables. -/
def World.on (w : World Maps) (m : Maps) : World Maps := { w with tables := m }

theorem SameIn.on {X : Type} {scope : DbScope} {x y : X} {w w' : World Maps} (h : SameIn scope (x, w) (y, w')) :
    ∃ m, w' = w.on m ∧ x = y ∧ Maps.Agree scope w.tables m := by
  obtain ⟨tables', databases', handles', ended'⟩ := w'
  obtain ⟨rfl, htables, rfl, rfl, rfl⟩ := h
  exact ⟨tables', rfl, rfl, htables⟩

theorem operate_alone (hd : Handle) (op : Op) (w : World Maps) {m : Maps} (h : Maps.Agree hd.db.scope w.tables m) :
    SameIn hd.db.scope (w.operate number text ordered hd op) ((w.on m).operate number text ordered hd op) := by
  have hended : (w.on m).ended = w.ended := rfl
  unfold World.operate
  rw [hended]
  cases hd.checked number text w.ended op with
  | error message => exact ⟨rfl, h, rfl, rfl, rfl⟩
  | ok r =>
    obtain ⟨hanswer, hagree⟩ := Maps.perform_alone (r := r) h
    exact ⟨congrArg Except.ok hanswer, hagree, rfl, rfl, rfl⟩

theorem transaction_alone (d : Opened) (stores : List String) (readwrite : Bool) (fn : Callback) (w : World Maps)
    (hw : w.closed) {m : Maps} (h : Maps.Agree d.scope w.tables m) :
    SameIn d.scope (w.transaction number text ordered d stores readwrite fn)
      ((w.on m).transaction number text ordered d stores readwrite fn) := by
  unfold World.transaction
  cases d.undeclared stores.eraseDups with
  | some message => exact ⟨rfl, h, rfl, rfl, rfl⟩
  | none =>
    dsimp only
    split
    · exact ⟨rfl, h, rfl, rfl, rfl⟩
    · obtain ⟨hanswer, hagree⟩ :=
        run_alone number text w.ended ⟨d, readwrite, some stores.eraseDups, false⟩ hw fn h
      unfold World.on
      dsimp only
      rw [← hanswer]
      unfold transactionSync
      dsimp only
      cases mustBeSync "a transaction callback" (fn.run number text ordered w.ended w.handles
        ⟨d, readwrite, some stores.eraseDups, false⟩ w.tables).1 with
      | error message => exact ⟨rfl, h, rfl, rfl, rfl⟩
      | ok out => exact ⟨rfl, hagree, rfl, rfl, rfl⟩

theorem ready_alone (i : Nat) (d : Opened) (upgraded : Bool) (w : World Maps) (hw : w.closed) {m : Maps}
    (h : Maps.Agree d.scope w.tables m) :
    SameIn d.scope (w.ready number text ordered i d upgraded) ((w.on m).ready number text ordered i d upgraded) := by
  have hversion : ordered.version d.scope m = ordered.version d.scope w.tables := h.versions.symm
  have hended : (w.on m).ended = w.ended := rfl
  have htables : (w.on m).tables = m := rfl
  have hhandles : (w.on m).handles = w.handles := rfl
  unfold World.ready
  rw [hended, htables, hhandles, hversion]
  cases d.dead w.ended with
  | some reason => exact ⟨rfl, h, rfl, rfl, rfl⟩
  | none =>
    cases d.spec with
    | none => exact ⟨rfl, h, rfl, rfl, rfl⟩
    | some spec =>
      dsimp only
      split
      · exact ⟨rfl, h, rfl, rfl, rfl⟩
      · split
        · exact ⟨rfl, h, rfl, rfl, rfl⟩
        · obtain ⟨hanswer, hagree⟩ := run_alone number text w.ended ⟨d, true, none, false⟩ hw
            ((spec.upgrade.getD fun _ => .returns false .null) ((ordered.version d.scope w.tables).getD 0)) h
          rw [← hanswer]
          unfold transactionSync
          dsimp only
          cases mustBeSync "upgrade" (Callback.run number text ordered w.ended w.handles ⟨d, true, none, false⟩
            ((spec.upgrade.getD fun _ => .returns false .null) ((ordered.version d.scope w.tables).getD 0)) w.tables).1 with
          | error message => exact ⟨rfl, h, rfl, rfl, rfl⟩
          | ok out =>
            refine ⟨rfl, ⟨hagree.stores, ?_⟩, rfl, rfl, rfl⟩
            have hset (m : Maps) : (m.setVersion d.scope spec.version).versions d.scope = some spec.version := if_pos rfl
            exact (hset _).trans (hset _).symm

/-- A step of one scope is the same whatever the other scopes hold. -/
theorem step_alone (e : Event) (w : World Maps) (hw : w.closed) {s : DbScope} (hs : e.scope w = some s) {m : Maps}
    (h : Maps.Agree s w.tables m) :
    SameIn s (w.step number text ordered e) ((w.on m).step number text ordered e) := by
  have hdatabases : (w.on m).databases = w.databases := rfl
  have hhandles : (w.on m).handles = w.handles := rfl
  cases e with
  | opens d => cases hs
  | ends lease => cases hs
  | renames tenantId agentId old new => cases hs
  | removes tenantId agentId name => cases hs
  | kept i op =>
    obtain ⟨hd, hget, rfl⟩ := Option.map_eq_some_iff.1 hs
    unfold World.step
    dsimp only
    rw [hhandles, hget]
    exact operate_alone number text hd op w h
  | calls i op =>
    obtain ⟨⟨d, upgraded⟩, hget, rfl⟩ := Option.map_eq_some_iff.1 hs
    have hready := ready_alone number text i d upgraded w hw h
    have hclosed := (ready_versioned number text i d upgraded w).closed hw
    unfold World.step
    dsimp only
    rw [hdatabases, hget]
    dsimp only
    generalize w.ready number text ordered i d upgraded = done at hready hclosed
    generalize (w.on m).ready number text ordered i d upgraded = done' at hready
    obtain ⟨r, w₁⟩ := done
    obtain ⟨r', w₂⟩ := done'
    obtain ⟨m', rfl, rfl, hagree⟩ := hready.on
    cases r with
    | error message => exact ⟨rfl, hagree, rfl, rfl, rfl⟩
    | ok _ => exact operate_alone number text ⟨d, !d.readOnly, none, false⟩ op w₁ hagree
  | transacts i stores readwrite fn =>
    obtain ⟨⟨d, upgraded⟩, hget, rfl⟩ := Option.map_eq_some_iff.1 hs
    have hready := ready_alone number text i d upgraded w hw h
    have hclosed := (ready_versioned number text i d upgraded w).closed hw
    unfold World.step
    dsimp only
    rw [hdatabases, hget]
    dsimp only
    generalize w.ready number text ordered i d upgraded = done at hready hclosed
    generalize (w.on m).ready number text ordered i d upgraded = done' at hready
    obtain ⟨r, w₁⟩ := done
    obtain ⟨r', w₂⟩ := done'
    obtain ⟨m', rfl, rfl, hagree⟩ := hready.on
    cases r with
    | error message => exact ⟨rfl, hagree, rfl, rfl, rfl⟩
    | ok _ => exact transaction_alone number text d stores readwrite fn w₁ hclosed hagree

/-! ## What a step keeps -/

theorem operate_elsewhere (hd : Handle) (op : Op) (w : World Maps) {s : DbScope} (hs : s ≠ hd.db.scope) :
    Maps.Agree s (w.operate number text ordered hd op).2.tables w.tables := by
  unfold World.operate
  cases hd.checked number text w.ended op with
  | error message => exact .refl s w.tables
  | ok r =>
    refine ⟨fun st => Maps.perform_stores fun h => hs h.1, ?_⟩
    exact congrFun Maps.perform_versions s

/-- What a transaction came to: nothing, or what its callback did before it returned. -/
inductive Transacted (d : Opened) (stores : List String) (readwrite : Bool) (fn : Callback) (w : World Maps) :
    Except String Answer × World Maps → Prop
  | undone (message : String) (kept : List Handle) : (∀ h ∈ kept, h ∈ w.handles ∨ h.closed = true) →
      Transacted d stores readwrite fn w (.error message, { w with handles := kept })
  | landed (out : Json) (m : Maps) (handle : Handle) : (readwrite = true → d.readOnly = false) →
      fn.run number text ordered w.ended w.handles ⟨d, readwrite, some stores.eraseDups, false⟩ w.tables =
        (.ok (false, out), m) → handle.closed = true →
      Transacted d stores readwrite fn w (.ok (.value (some out)), ⟨m, w.databases, w.handles ++ [handle], w.ended⟩)

/-- A callback that throws or returns a promise changes nothing. -/
theorem transaction_atomic (d : Opened) (stores : List String) (readwrite : Bool) (fn : Callback) (w : World Maps) :
    Transacted number text d stores readwrite fn w (w.transaction number text ordered d stores readwrite fn) := by
  unfold World.transaction
  cases d.undeclared stores.eraseDups with
  | some message => exact .undone message w.handles fun h hh => .inl hh
  | none =>
    dsimp only
    split
    · exact .undone READ_ONLY w.handles fun h hh => .inl hh
    · rename_i hread
      have hread : readwrite = true → d.readOnly = false := fun hrw => by simpa [hrw] using hread
      unfold transactionSync
      dsimp only
      cases hrun : fn.run number text ordered w.ended w.handles ⟨d, readwrite, some stores.eraseDups, false⟩ w.tables with
      | mk result m =>
        have hclosed : ∀ h ∈ w.handles ++ [(⟨d, readwrite, some stores.eraseDups, true⟩ : Handle)],
            h ∈ w.handles ∨ h.closed = true := by
          intro h hh
          rcases List.mem_append.1 hh with hh | hh
          · exact .inl hh
          · rw [List.mem_singleton.1 hh]
            exact .inr rfl
        cases result with
        | error message => exact .undone _ _ hclosed
        | ok x =>
          obtain ⟨thenable, out⟩ := x
          cases thenable with
          | true => exact .undone _ _ hclosed
          | false => exact .landed out m _ hread hrun rfl

variable {number text}

theorem Transacted.closed {d : Opened} {stores : List String} {readwrite : Bool} {fn : Callback} {w : World Maps}
    {done : Except String Answer × World Maps} (h : Transacted number text d stores readwrite fn w done) (hw : w.closed) :
    done.2.closed := by
  cases h with
  | undone message kept hkept =>
    intro h' hh'
    rcases hkept h' hh' with hin | hc
    · exact hw h' hin
    · exact hc
  | landed out m handle _ _ hh =>
    intro h' hh'
    rcases List.mem_append.1 hh' with hh' | hh'
    · exact hw h' hh'
    · rw [List.mem_singleton.1 hh']
      exact hh

/-- A transaction reaches the stores it named, of its own scope. -/
theorem Transacted.stores {d : Opened} {stores : List String} {readwrite : Bool} {fn : Callback} {w : World Maps}
    {done : Except String Answer × World Maps} (h : Transacted number text d stores readwrite fn w done) (hw : w.closed)
    {s : DbScope} {st : String} (hs : s ≠ d.scope ∨ st ∉ stores) :
    done.2.tables.stores s st = w.tables.stores s st := by
  cases h with
  | undone message kept _ => rfl
  | landed out m handle _ hrun _ =>
    have hstores := run_stores number text w.ended ⟨d, readwrite, some stores.eraseDups, false⟩ hw fn w.tables s st
      (hs.imp id fun hnot => ⟨_, rfl, fun hin => hnot (List.mem_eraseDups.1 hin)⟩)
    rwa [hrun] at hstores

theorem Transacted.versions {d : Opened} {stores : List String} {readwrite : Bool} {fn : Callback} {w : World Maps}
    {done : Except String Answer × World Maps} (h : Transacted number text d stores readwrite fn w done) (hw : w.closed) :
    done.2.tables.versions = w.tables.versions := by
  cases h with
  | undone message kept _ => rfl
  | landed out m handle _ hrun _ =>
    have hversions := run_versions number text w.ended ⟨d, readwrite, some stores.eraseDups, false⟩ hw fn w.tables
    rwa [hrun] at hversions

theorem operate_handles (hd : Handle) (op : Op) (w : World Maps) :
    (w.operate number text ordered hd op).2.handles = w.handles := by
  unfold World.operate
  split
  · rfl
  · rfl

/-- Between steps no handle is open. -/
theorem closed_step (e : Event) (w : World Maps) (hw : w.closed) : (w.step number text ordered e).2.closed := by
  cases e with
  | opens d =>
    unfold World.step
    dsimp only
    split
    · exact hw
    · exact hw
  | calls i op =>
    unfold World.step
    dsimp only
    cases w.databases[i]? with
    | none => exact hw
    | some x =>
      obtain ⟨d, upgraded⟩ := x
      have hclosed := (ready_versioned number text i d upgraded w).closed hw
      dsimp only
      generalize w.ready number text ordered i d upgraded = done at hclosed
      obtain ⟨r, w₁⟩ := done
      cases r with
      | error message => exact hclosed
      | ok _ =>
        intro h hh
        dsimp only at hh
        rw [operate_handles] at hh
        exact hclosed h hh
  | transacts i stores readwrite fn =>
    unfold World.step
    dsimp only
    cases w.databases[i]? with
    | none => exact hw
    | some x =>
      obtain ⟨d, upgraded⟩ := x
      have hclosed := (ready_versioned number text i d upgraded w).closed hw
      dsimp only
      generalize w.ready number text ordered i d upgraded = done at hclosed
      obtain ⟨r, w₁⟩ := done
      cases r with
      | error message => exact hclosed
      | ok _ => exact (transaction_atomic number text d stores readwrite fn w₁).closed hclosed
  | kept i op =>
    unfold World.step
    dsimp only
    cases w.handles[i]? with
    | none => exact hw
    | some hd =>
      intro h hh
      dsimp only at hh
      rw [operate_handles] at hh
      exact hw h hh
  | ends lease => exact hw
  | renames tenantId agentId old new =>
    unfold World.step
    dsimp only
    split
    · exact hw
    · split
      · exact hw
      · exact hw
  | removes tenantId agentId name => exact hw

/-- A step changes the scopes it reaches alone. -/
theorem step_elsewhere (e : Event) (w : World Maps) (hw : w.closed) {s : DbScope} (hs : ¬e.reaches w s) :
    Maps.Agree s (w.step number text ordered e).2.tables w.tables := by
  cases e with
  | opens d =>
    unfold World.step
    dsimp only
    split
    · exact .refl s w.tables
    · exact .refl s w.tables
  | calls i op =>
    unfold World.step
    dsimp only
    cases hget : w.databases[i]? with
    | none => exact .refl s w.tables
    | some x =>
      obtain ⟨d, upgraded⟩ := x
      have hne : s ≠ d.scope := by
        rintro rfl
        refine hs ?_
        show w.databases[i]?.map (·.1.scope) = _
        rw [hget]
        rfl
      have hready := (ready_versioned number text i d upgraded w).elsewhere hw hne
      dsimp only
      generalize w.ready number text ordered i d upgraded = done at hready
      obtain ⟨r, w₁⟩ := done
      cases r with
      | error message => exact hready
      | ok _ => exact (operate_elsewhere number text ⟨d, !d.readOnly, none, false⟩ op w₁ hne).trans hready
  | transacts i stores readwrite fn =>
    unfold World.step
    dsimp only
    cases hget : w.databases[i]? with
    | none => exact .refl s w.tables
    | some x =>
      obtain ⟨d, upgraded⟩ := x
      have hne : s ≠ d.scope := by
        rintro rfl
        refine hs ?_
        show w.databases[i]?.map (·.1.scope) = _
        rw [hget]
        rfl
      have hready := (ready_versioned number text i d upgraded w).elsewhere hw hne
      have hclosed := (ready_versioned number text i d upgraded w).closed hw
      dsimp only
      generalize w.ready number text ordered i d upgraded = done at hready hclosed
      obtain ⟨r, w₁⟩ := done
      cases r with
      | error message => exact hready
      | ok _ =>
        have hdone := transaction_atomic number text d stores readwrite fn w₁
        exact Maps.Agree.trans ⟨fun st => hdone.stores hclosed (.inl hne), congrFun (hdone.versions hclosed) s⟩ hready
  | kept i op =>
    unfold World.step
    dsimp only
    cases hget : w.handles[i]? with
    | none => exact .refl s w.tables
    | some hd =>
      refine operate_elsewhere number text hd op w ?_
      rintro rfl
      refine hs ?_
      show w.handles[i]?.map (·.db.scope) = _
      rw [hget]
      rfl
  | ends lease => exact .refl s w.tables
  | renames tenantId agentId old new =>
    have hs : ¬(PluginDbTables.ofAlias tenantId agentId old s = true ∨ PluginDbTables.ofAlias tenantId agentId new s = true) := hs
    rw [not_or] at hs
    unfold World.step
    dsimp only
    split
    · exact .refl s w.tables
    · cases hrename : ordered.rename tenantId agentId old new w.tables with
      | none => exact .refl s w.tables
      | some m =>
        have hrename : w.tables.rename tenantId agentId old new = some m := hrename
        unfold Maps.rename at hrename
        split at hrename
        · cases hrename
        · cases hrename
          exact ⟨fun st => (if_neg hs.1).trans (if_neg hs.2), (if_neg hs.1).trans (if_neg hs.2)⟩
  | removes tenantId agentId name =>
    have hs : ¬PluginDbTables.ofAlias tenantId agentId name s = true := hs
    exact ⟨fun st => if_neg hs, if_neg hs⟩

end Steps

/-! ## Every step -/

section Laws

variable (number : Str → ℚ) (text : Str → String)

/-- What a step on the maps keeps to, from a world. -/
structure Lawful (e : Event) (w : World Maps) : Prop where
  elsewhere : ∀ s, ¬e.reaches w s → Maps.Agree s (w.step number text ordered e).2.tables w.tables
  alone : ∀ s m, e.scope w = some s → Maps.Agree s w.tables m →
    SameIn s (w.step number text ordered e) ((w.on m).step number text ordered e)
  kept : ∀ i op, e = .kept i op → w.handles[i]?.isSome → w.step number text ordered e =
    (.error "this transaction has ended; its handle cannot be used outside its callback", w)
  calls : ∀ i op d upgraded, e = .calls i op → w.databases[i]? = some (d, upgraded) → ∃ done,
    Versioned number text d upgraded w done ∧ ((∃ message, done.1 = .error message ∧
      w.step number text ordered e = (.error message, done.2)) ∨ done.1 = .ok () ∧
      w.step number text ordered e = done.2.operate number text ordered ⟨d, !d.readOnly, none, false⟩ op)
  transacts : ∀ i stores readwrite fn d upgraded, e = .transacts i stores readwrite fn →
    w.databases[i]? = some (d, upgraded) → ∃ done, Versioned number text d upgraded w done ∧
      ((∃ message, done.1 = .error message ∧ w.step number text ordered e = (.error message, done.2)) ∨ done.1 = .ok () ∧
        Transacted number text d stores readwrite fn done.2 (w.step number text ordered e) ∧
        ∀ store ∉ stores, (w.step number text ordered e).2.tables.stores d.scope store = done.2.tables.stores d.scope store)
  reads : ∀ i d upgraded, ((∃ op, e = .calls i op) ∨ ∃ stores readwrite fn, e = .transacts i stores readwrite fn) →
    w.databases[i]? = some (d, upgraded) → d.readOnly = true → (w.step number text ordered e).2.tables = w.tables
  leased : ∀ i d upgraded reason, ((∃ op, e = .calls i op) ∨ ∃ stores readwrite fn, e = .transacts i stores readwrite fn) →
    w.databases[i]? = some (d, upgraded) → d.dead w.ended = some reason →
    w.step number text ordered e = (.error reason, w)

theorem ready_dead (i : Nat) {d : Opened} (upgraded : Bool) {w : World Maps} {reason : String}
    (h : d.dead w.ended = some reason) : w.ready number text ordered i d upgraded = (.error reason, w) := by
  unfold World.ready
  rw [h]

variable {number text} in
theorem Versioned.reads {d : Opened} {upgraded : Bool} {w : World Maps} {done : Except String Unit × World Maps}
    (h : Versioned number text d upgraded w done) (hread : d.readOnly = true) : done.2.tables = w.tables := by
  cases h with
  | current databases _ _ => rfl
  | upgraded spec out m databases handle _ _ hno _ _ _ =>
    rw [hread] at hno
    cases hno
  | failed message kept _ => rfl

theorem operate_reads (hd : Handle) (hreads : hd.writes = false) (op : Op) (w : World Maps) :
    (w.operate number text ordered hd op).2.tables = w.tables := by
  unfold World.operate
  cases hc : hd.checked number text w.ended op with
  | error message => rfl
  | ok r =>
    refine Maps.perform_reads (Bool.eq_false_iff.2 fun hw => ?_)
    rw [(checked_ok hc).writes hw] at hreads
    cases hreads

theorem step_lawful (e : Event) (w : World Maps) (hw : w.closed) : Lawful number text e w where
  elsewhere s hs := step_elsewhere e w hw hs
  alone s m hs h := step_alone number text e w hw hs h
  kept i op he hsome := by
    subst he
    obtain ⟨hd, hget⟩ := Option.isSome_iff_exists.1 hsome
    unfold World.step
    dsimp only
    rw [hget]
    dsimp only
    unfold World.operate
    rw [checked_closed (hw hd (List.mem_of_getElem? hget))]
  calls i op d upgraded he hget := by
    subst he
    refine ⟨_, ready_versioned number text i d upgraded w, ?_⟩
    unfold World.step
    dsimp only
    rw [hget]
    dsimp only
    generalize w.ready number text ordered i d upgraded = done
    obtain ⟨r, w₁⟩ := done
    cases r with
    | error message => exact .inl ⟨message, rfl, rfl⟩
    | ok _ => exact .inr ⟨rfl, rfl⟩
  transacts i stores readwrite fn d upgraded he hget := by
    subst he
    have hready := ready_versioned number text i d upgraded w
    have hclosed := hready.closed hw
    refine ⟨_, hready, ?_⟩
    unfold World.step
    dsimp only
    rw [hget]
    dsimp only
    generalize w.ready number text ordered i d upgraded = done at hclosed
    obtain ⟨r, w₁⟩ := done
    cases r with
    | error message => exact .inl ⟨message, rfl, rfl⟩
    | ok _ =>
      have hdone := transaction_atomic number text d stores readwrite fn w₁
      exact .inr ⟨rfl, hdone, fun store hnot => hdone.stores hclosed (.inr hnot)⟩
  reads i d upgraded he hget hread := by
    have hready := ready_versioned number text i d upgraded w
    have hclosed := hready.closed hw
    have htables := hready.reads hread
    rcases he with ⟨op, rfl⟩ | ⟨stores, readwrite, fn, rfl⟩
    · unfold World.step
      dsimp only
      rw [hget]
      dsimp only
      generalize w.ready number text ordered i d upgraded = done at htables
      obtain ⟨r, w₁⟩ := done
      cases r with
      | error message => exact htables
      | ok _ =>
        refine (operate_reads number text _ ?_ op w₁).trans htables
        rw [hread]
        rfl
    · unfold World.step
      dsimp only
      rw [hget]
      dsimp only
      generalize w.ready number text ordered i d upgraded = done at htables hclosed
      obtain ⟨r, w₁⟩ := done
      cases r with
      | error message => exact htables
      | ok _ =>
        have hdone := transaction_atomic number text d stores readwrite fn w₁
        dsimp only
        generalize w₁.transaction number text ordered d stores readwrite fn = done at hdone
        cases hdone with
        | undone message kept _ => exact htables
        | landed out m handle hwrite hrun _ =>
          have hno : readwrite = false := Bool.eq_false_iff.2 fun hrw => by rw [hwrite hrw] at hread; cases hread
          have hsame := run_reads number text w₁.ended ⟨d, readwrite, some stores.eraseDups, false⟩ hclosed hno fn w₁.tables
          rw [hrun] at hsame
          exact hsame.trans htables
  leased i d upgraded reason he hget hdead := by
    rcases he with ⟨op, rfl⟩ | ⟨stores, readwrite, fn, rfl⟩
    · unfold World.step
      dsimp only
      rw [hget]
      dsimp only
      rw [ready_dead number text i upgraded hdead]
    · unfold World.step
      dsimp only
      rw [hget]
      dsimp only
      rw [ready_dead number text i upgraded hdead]

end Laws

/-! ## The index -/

section Index

variable (number : Str → ℚ) (text : Str → String) (plugin store : String) (path : Option String)

/-- The declaration's index on the store, where it is the plugin's and declares the store. -/
def Opened.declares (d : Opened) : Prop :=
  d.scope.plugin = plugin → ∀ s, d.storeOf store = .ok s → s.indexes.head?.map (·.2) = path

/-- Every value of the plugin's store is indexed by its field at the path. -/
def Maps.Indexed (m : Maps) : Prop :=
  ∀ scope : DbScope, scope.plugin = plugin → ∀ k e, (m.stores scope store).find k = some e →
    e.idx = path.bind fun p => isKey number text (at_ e.value p)

variable {number text plugin store path} {m : Maps}

theorem indexed_perform {ended : List Nat} {h : Handle} {op : Op} {r : Request} (hd : h.db.declares plugin store path)
    (hr : Allowed number text ended h op r) (hm : m.Indexed number text plugin store path) :
    (m.perform h.db.scope r).2.Indexed number text plugin store path := by
  intro scope hplugin k e hfind
  by_cases hst : scope = h.db.scope ∧ store = r.store
  · obtain ⟨rfl, hstore⟩ := hst
    cases r with
    | put store' k' v idx =>
      have hstore : store = store' := hstore
      subst hstore
      have hfind : ((m.write h.db.scope store ((m.stores h.db.scope store).insert k' ⟨v, idx⟩)).stores h.db.scope store).find k =
        some e := hfind
      rw [Maps.write_self] at hfind
      have hfind : (if k' = k then some ⟨v, idx⟩ else (m.stores h.db.scope store).find k) = some e := hfind
      split at hfind
      · cases hfind
        obtain ⟨s, hs, rfl⟩ := hr.indexed store k' v idx rfl
        have hpath := hd hplugin s hs
        show s.indexes.head?.bind (fun x => isKey number text (at_ v x.2)) = _
        rw [← hpath]
        cases s.indexes.head? <;> rfl
      · exact hm h.db.scope hplugin k e hfind
    | delete store' query =>
      have hstore : store = store' := hstore
      subst hstore
      have hfind : ((m.write h.db.scope store ((m.stores h.db.scope store).eraseIf query.takes)).stores h.db.scope store).find k =
        some e := hfind
      rw [Maps.write_self] at hfind
      have hfind : (if query.takes k then none else (m.stores h.db.scope store).find k) = some e := hfind
      split at hfind
      · cases hfind
      · exact hm h.db.scope hplugin k e hfind
    | get store' k' => exact hm h.db.scope hplugin k e hfind
    | getAll store' query n => exact hm h.db.scope hplugin k e hfind
    | getAllFromIndex store' query n => exact hm h.db.scope hplugin k e hfind
    | count store' query => exact hm h.db.scope hplugin k e hfind
  · rw [Maps.perform_stores hst] at hfind
    exact hm scope hplugin k e hfind

/-- The handles of a step are closed, its databases declare the index, and the maps hold to it. -/
structure IndexedWorld (number : Str → ℚ) (text : Str → String) (plugin store : String) (path : Option String)
    (w : World Maps) : Prop where
  closed : w.closed
  declares : ∀ d ∈ w.databases.map (·.1), d.declares plugin store path
  indexed : w.tables.Indexed number text plugin store path

variable {w : World Maps}

theorem IndexedWorld.ready {d : Opened} {upgraded : Bool} {done : Except String Unit × World Maps}
    (h : IndexedWorld number text plugin store path w) (hd : d.declares plugin store path)
    (hready : Versioned number text d upgraded w done) : IndexedWorld number text plugin store path done.2 where
  closed := hready.closed h.closed
  declares := by
    cases hready with
    | current databases hsame _ => exact fun d hd => h.declares d (hsame ▸ hd)
    | upgraded spec out m databases handle hsame _ _ _ _ _ => exact fun d hd => h.declares d (hsame ▸ hd)
    | failed message kept _ => exact h.declares
  indexed := by
    cases hready with
    | current databases _ _ => exact h.indexed
    | upgraded spec out m databases handle _ _ _ _ hrun _ =>
      have hm := run_keeps number text w.ended ⟨d, true, none, false⟩
        (I := fun m => m.Indexed number text plugin store path) h.closed (fun op r m hr hm => indexed_perform hd hr hm)
        ((spec.upgrade.getD fun _ => .returns false .null) ((w.tables.versions d.scope).getD 0)) w.tables h.indexed
      rw [hrun] at hm
      exact hm
    | failed message kept _ => exact h.indexed

theorem IndexedWorld.operate {hd : Handle} {op : Op} (h : IndexedWorld number text plugin store path w)
    (hdecl : hd.db.declares plugin store path) :
    IndexedWorld number text plugin store path (w.operate number text ordered hd op).2 := by
  unfold World.operate
  cases hc : hd.checked number text w.ended op with
  | error message => exact h
  | ok r => exact ⟨h.closed, h.declares, indexed_perform hdecl (checked_ok hc) h.indexed⟩

theorem IndexedWorld.transaction {d : Opened} {stores : List String} {readwrite : Bool} {fn : Callback}
    (h : IndexedWorld number text plugin store path w) (hd : d.declares plugin store path) :
    IndexedWorld number text plugin store path (w.transaction number text ordered d stores readwrite fn).2 := by
  have hdone := transaction_atomic number text d stores readwrite fn w
  have hclosed := hdone.closed h.closed
  generalize w.transaction number text ordered d stores readwrite fn = done at hdone hclosed
  cases hdone with
  | undone message kept _ => exact ⟨hclosed, h.declares, h.indexed⟩
  | landed out m handle _ hrun _ =>
    have hm := run_keeps number text w.ended ⟨d, readwrite, some stores.eraseDups, false⟩
      (I := fun m => m.Indexed number text plugin store path) h.closed (fun op r m hr hm => indexed_perform hd hr hm)
      fn w.tables h.indexed
    rw [hrun] at hm
    exact ⟨hclosed, h.declares, hm⟩

theorem indexed_moved (tenantId agentId old new : String) (hm : m.Indexed number text plugin store path) :
    (m.moved tenantId agentId old new).Indexed number text plugin store path := by
  intro scope hplugin k e hfind
  have hback : (PluginDbTables.movedTo old scope).plugin = plugin := hplugin
  unfold Maps.moved at hfind
  dsimp only at hfind
  split at hfind
  · cases hfind
  · split at hfind
    · have hfind : ((m.stores scope store).find k).or ((m.stores (PluginDbTables.movedTo old scope) store).find k) = some e := hfind
      rcases Option.or_eq_some_iff.1 hfind with hfind | ⟨-, hfind⟩
      · exact hm scope hplugin k e hfind
      · exact hm _ hback k e hfind
    · exact hm scope hplugin k e hfind

theorem indexed_step (e : Event) (hopens : ∀ d, e = .opens d → d.declares plugin store path)
    (h : IndexedWorld number text plugin store path w) :
    IndexedWorld number text plugin store path (w.step number text ordered e).2 := by
  have hget {i : Nat} {d : Opened} {upgraded : Bool} (hget : w.databases[i]? = some (d, upgraded)) :
      d.declares plugin store path :=
    h.declares d (List.mem_map.2 ⟨(d, upgraded), List.mem_of_getElem? hget, rfl⟩)
  cases e with
  | opens d =>
    unfold World.step
    dsimp only
    split
    · exact h
    · refine ⟨h.closed, fun d' hd' => ?_, h.indexed⟩
      rw [List.map_append] at hd'
      rcases List.mem_append.1 hd' with hd' | hd'
      · exact h.declares d' hd'
      · rw [List.mem_singleton.1 hd']
        exact hopens d rfl
  | calls i op =>
    unfold World.step
    dsimp only
    cases hdb : w.databases[i]? with
    | none => exact h
    | some x =>
      obtain ⟨d, upgraded⟩ := x
      have hready := h.ready (hget hdb) (ready_versioned number text i d upgraded w)
      dsimp only
      generalize w.ready number text ordered i d upgraded = done at hready
      obtain ⟨r, w₁⟩ := done
      cases r with
      | error message => exact hready
      | ok _ => exact hready.operate (hget hdb)
  | transacts i stores readwrite fn =>
    unfold World.step
    dsimp only
    cases hdb : w.databases[i]? with
    | none => exact h
    | some x =>
      obtain ⟨d, upgraded⟩ := x
      have hready := h.ready (hget hdb) (ready_versioned number text i d upgraded w)
      dsimp only
      generalize w.ready number text ordered i d upgraded = done at hready
      obtain ⟨r, w₁⟩ := done
      cases r with
      | error message => exact hready
      | ok _ => exact hready.transaction (hget hdb)
  | kept i op =>
    cases hh : w.handles[i]? with
    | none =>
      unfold World.step
      dsimp only
      rw [hh]
      exact h
    | some hd =>
      rw [(step_lawful number text (.kept i op) w h.closed).kept i op rfl (by rw [hh]; rfl)]
      exact h
  | ends lease => exact ⟨h.closed, h.declares, h.indexed⟩
  | renames tenantId agentId old new =>
    unfold World.step
    dsimp only
    split
    · exact h
    · cases hrename : ordered.rename tenantId agentId old new w.tables with
      | none => exact h
      | some m =>
        have hrename : w.tables.rename tenantId agentId old new = some m := hrename
        unfold Maps.rename at hrename
        split at hrename
        · cases hrename
        · cases hrename
          exact ⟨h.closed, h.declares, indexed_moved _ _ _ _ h.indexed⟩
  | removes tenantId agentId name =>
    refine ⟨h.closed, h.declares, fun scope hplugin k e hfind => ?_⟩
    have hfind : OrderedMap.find (if PluginDbTables.ofAlias tenantId agentId name scope then OrderedMap.empty
      else w.tables.stores scope store) k = some e := hfind
    split at hfind
    · cases hfind
    · exact h.indexed scope hplugin k e hfind

end Index

/-! ## Every run -/

section Every

variable (number : Str → ℚ) (text : Str → String)

/-- The tables created, nothing opened. -/
def fresh : World PluginDbTables := ⟨⟨[], [], List.nodup_nil, List.nodup_nil⟩, [], [], []⟩

def freshMaps : World Maps := ⟨Maps.empty, [], [], []⟩

theorem map_fresh : fresh.map toMaps = freshMaps := rfl

/-- A plugin's database is an ordered map for each scope and store, and keeps to the laws of its steps. -/
theorem plugin_db_maps (events : List Event) :
    -- what the rows answer is what the maps do, and where they end up is what the maps do
    ((turns (World.step number text sql) events fresh).map (·.answer) =
        (turns (World.step number text ordered) events freshMaps).map (·.answer) ∧
      (final (World.step number text sql) events fresh).map toMaps =
        final (World.step number text ordered) events freshMaps) ∧
    -- each step keeps to its scope, its handle, its lease, its transaction and its version
    (∀ x ∈ turns (World.step number text ordered) events freshMaps, Lawful number text x.act x.before) ∧
    -- a map is read in the order of its keys, an index of its places and keys, numbers before texts
    (∀ m : OrderedMap DbKey Entry,
      (m.entries.Pairwise fun x y => x.1 < y.1) ∧ (∀ k e, (k, e) ∈ m.entries ↔ m.find k = some e) ∧
      ((m.index (·.idx)).entries.Pairwise fun x y => x.1 < y.1) ∧
      ∀ i k e, (toLex (i, k), e) ∈ (m.index (·.idx)).entries ↔ m.find k = some e ∧ e.idx = some i) ∧
    (∀ n s, DbKey.number n < DbKey.text s) ∧
    -- while every declaration of the store has the one index, a value is in it just where its field there is a key
    ∀ plugin store path, (∀ d, .opens d ∈ events → d.declares plugin store path) →
      (final (World.step number text ordered) events freshMaps).tables.Indexed number text plugin store path := by
  have hstart : freshMaps.closed := nofun
  refine ⟨turns_refine sql_refines number text events fresh, ?_, fun m => ?_, DbKey.number_lt_text, ?_⟩
  · exact forall_turns (I := World.closed) hstart (fun e w hw => closed_step e w hw) fun e w hw => step_lawful number text e w hw
  · refine ⟨OrderedMap.entries_sorted, fun k e => OrderedMap.mem_entries, OrderedMap.entries_sorted, fun i k e => ?_⟩
    rw [OrderedMap.mem_entries]
    show (m.find k).filter (fun v => v.idx == some i) = some e ↔ _
    rw [Option.filter_eq_some_iff, beq_iff_eq]
  · intro plugin store path hopens
    have hfresh : IndexedWorld number text plugin store path freshMaps :=
      ⟨hstart, fun d hd => (List.not_mem_nil hd).elim, fun scope _ k e hfind => by cases hfind⟩
    have hend : IndexedWorld number text plugin store path (final (World.step number text ordered) events freshMaps) :=
      final_permitted hfresh (fun e w hw hok => indexed_step e hok hw) fun e he d heq => hopens d (heq ▸ he)
    exact hend.indexed

section Redeclared

def ascii (s : Str) : String := String.ofList (s.map fun u => Char.ofNat u.toNat)

def declared (version : Int) (index path : String) : Opened :=
  ⟨⟨"t", "a", "m", "p"⟩, some ⟨version, [("items", ⟨none, [(index, path)]⟩)], none⟩, false, none⟩

def owned : Json := .obj [(js "owner", .str (js "bob"))]

/-- A value is put under an index of its owner, and the next version's index is of its user. -/
def redeclared : List Event :=
  [.opens (declared 1 "byOwner" "owner"), .calls 0 (.put "items" (some owned) (.key (.text "k"))),
    .opens (declared 2 "byUser" "user"), .calls 1 (.getAllFromIndex "items" "byUser" .all none)]

/-- A value without the declared field is in the index all the same, by the field it was put under. -/
theorem index_redeclared :
    (turns (World.step (fun _ => 0) ascii sql) redeclared fresh).map (·.answer) =
      [.ok .done, .ok (.key (.text "k")), .ok .done, .ok (.values [owned])] ∧
    isKey (fun _ => 0) ascii (at_ owned "user") = none := by
  decide +kernel

/-- Under the one index, the run on the rows is the run on the map, and the map holds to the index. -/
theorem plugin_db_maps_one :
    (turns (World.step (fun _ => 0) ascii sql) (redeclared.take 2) fresh).map (·.answer) =
      (turns (World.step (fun _ => 0) ascii ordered) (redeclared.take 2) freshMaps).map (·.answer) ∧
    (final (World.step (fun _ => 0) ascii ordered) (redeclared.take 2) freshMaps).tables.Indexed (fun _ => 0) ascii "p" "items"
      (some "owner") := by
  refine ⟨(plugin_db_maps (fun _ => 0) ascii (redeclared.take 2)).1.1, ?_⟩
  refine (plugin_db_maps (fun _ => 0) ascii (redeclared.take 2)).2.2.2.2 "p" "items" (some "owner") fun d hd hplugin s hs => ?_
  have hd : Event.opens d = .opens (declared 1 "byOwner" "owner") := by
    rcases List.mem_cons.1 hd with hd | hd
    · exact hd
    · cases List.mem_singleton.1 hd
  cases hd
  cases hs
  rfl

end Redeclared

end Every

end Antiproton.PluginDb
