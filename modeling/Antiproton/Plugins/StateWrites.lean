import Antiproton.Plugins.State
import Antiproton.Store.StateBytes

/-!
# Antiproton.Plugins.StateWrites

Every write of an agent's rows as its caller makes it: the plugin's `put`, the edits of a document, a deletion
and a seeded file. `Accounts` is what a write keeps of the byte accounting, whatever the rows are.

* `put_writes`: the plugin's `put` writes no row but `putEntry`.
* `exec_accounted`: a write keeps every row accounted.
* `exec_accounts`: it grows a row only within the limit, is refused for the limit only where it grows one, and
  changes no row when it is refused.
* `state_bytes_exact`: so over every sequence of writes after the store was opened.
-/

namespace Antiproton

open Js Process

/-! ## A `put` alone -/

/-- What an await of `put` answers and does; `stored` is what object storage answers. -/
def StateAwait.exec (ctx : Ctx) (stored : Except JsError String) (o : StateAwait) (db : Db) : o.Ans × Db :=
  match o with
  | getState t g k => (DurableObject.getState t g k db, db)
  | stateUsage t g => (DurableObject.stateUsage t g db, db)
  | putState t g k entry => ((), DurableObject.putState ctx t g k entry db)
  | artifactsPut .. => (stored, db)

/-- The same call under a limit on the agent's rows together. -/
def PutCall.limited (c : PutCall) (max : Nat) : PutCall := { c with cfg := { c.cfg with maxTotalBytes := max } }

/-- What a `put` that is not refused does. -/
def PutCall.write (c : PutCall) (ctx : Ctx) (stored : Except JsError String) (db : Db) : Except JsError PutReply × Db :=
  let bytes := c.value.stringify.length
  if bytes ≤ stateInlineMax then
    (.ok ⟨c.key, bytes, .inline⟩, DurableObject.putState ctx c.tenantId c.agentId c.key (putEntry c.value "") db)
  else if !c.artifacts then
    (.error (.ofMessage "no object storage is mounted, and the value is too large to inline"), db)
  else
    match stored with
    | .error e => (.error e, db)
    | .ok ref => (.ok ⟨c.key, bytes, .objectStorage (toAgentRef ref c.tenantId c.agentId)⟩,
        DurableObject.putState ctx c.tenantId c.agentId c.key (putEntry c.value ref) db)

/-- Why a `put` is refused before its total is judged. -/
def PutCall.early (c : PutCall) (db : Db) : Option JsError :=
  if c.cfg.maxValueBytes < c.value.stringify.length then
    some (valueTooLarge c.value.stringify.length c.cfg.maxValueBytes)
  else c.refused (DurableObject.getState c.tenantId c.agentId c.key db)

theorem getState_bytes (t g k : String) (db : Db) :
    ((DurableObject.getState t g k db).map (·.bytes)).getD 0 = rowBytes t g k db := by
  unfold DurableObject.getState DurableObject.getStateRow rowBytes
  cases Table.one (stateKey t g k) db.agentState <;> rfl

/-- A `put` run alone: refused early, or for the total, or written. -/
theorem put_alone (c : PutCall) (ctx : Ctx) (stored : Except JsError String) (db : Db) :
    (put c).alone (StateAwait.exec ctx stored) db =
      match c.early db with
      | some e => (.error e, db)
      | none =>
        match totalRefusal (DurableObject.stateUsage c.tenantId c.agentId db).bytes
            (rowBytes c.tenantId c.agentId c.key db) c.value.stringify.length c.cfg.maxTotalBytes
            (some c.mountAlias) with
        | some e => (.error e, db)
        | none => c.write ctx stored db := by
  unfold put PutCall.early PutCall.write
  by_cases hv : c.cfg.maxValueBytes < c.value.stringify.length
  · simp only [if_pos hv, Prog.alone]
  · simp only [if_neg hv, Prog.alone, StateAwait.exec]
    cases c.refused (DurableObject.getState c.tenantId c.agentId c.key db) with
    | some e => rfl
    | none =>
      simp only [Prog.alone, StateAwait.exec]
      rw [getState_bytes]
      cases totalRefusal (DurableObject.stateUsage c.tenantId c.agentId db).bytes
          (rowBytes c.tenantId c.agentId c.key db) c.value.stringify.length c.cfg.maxTotalBytes
          (some c.mountAlias) with
      | some e => rfl
      | none =>
        by_cases hi : c.value.stringify.length ≤ stateInlineMax
        · simp only [if_pos hi, Prog.alone, StateAwait.exec]
        · simp only [if_neg hi]
          cases c.artifacts with
          | false => rfl
          | true => cases stored <;> rfl

/-- Whatever it reads, the plugin's `put` writes no row but the call's, and `putEntry` there. -/
theorem put_writes (c : PutCall) :
    Keeps (fun _ o => ∀ t g k entry, o = StateAwait.putState t g k entry →
        (t, g, k) = (c.tenantId, c.agentId, c.key) ∧ ∃ ref, entry = putEntry c.value ref)
      (fun _ _ => True) (fun _ _ => True) (fun _ _ => True) (put c) [] := by
  unfold put
  dsimp only
  split
  · trivial
  · refine Keeps.act (fun t g k entry h => by cases h) fun cur _ => ?_
    split
    · trivial
    · refine Keeps.act (fun t g k entry h => by cases h) fun usage _ => ?_
      split
      · trivial
      · split
        · refine Keeps.act (fun t g k entry h => ?_) fun _ _ => trivial
          cases h
          exact ⟨rfl, "", rfl⟩
        · split
          · trivial
          · refine Keeps.act (fun t g k entry h => by cases h) fun stored _ => ?_
            cases stored with
            | error e => trivial
            | ok ref =>
              refine Keeps.act (fun t g k entry h => ?_) fun _ _ => trivial
              cases h
              exact ⟨rfl, ref, rfl⟩

/-! ## The writes -/

/-- A write of an agent's rows. `putState` is the write a `put` ends with, whatever was read before it. -/
inductive StateWrite where
  | put (c : PutCall) (stored : Except JsError String)
  | putState (tenantId agentId key : String) (value : Json) (ref : String)
  | append (tenantId agentId key : String) (text : Str) (maxBytes : Nat) (whenFull : WhenFull)
  | revise (tenantId agentId key : String) (old : Str) (next : Option Str) (maxBytes : Nat)
  | insert (tenantId agentId key : String) (afterLine : JsNumber) (text : Str) (maxBytes : Nat)
  | delete (tenantId agentId key : String)
  | seed (tenantId agentId path : String) (mode : SeedMode) (text : Str) (misfit : Option String)
      (spilled : Option (String × String))

/-- What became of a write. -/
inductive WriteOutcome where
  | done
  | thrown (e : JsError)
  | refused (code : SeedRefusal) (message : String)
deriving DecidableEq, Repr

namespace StateWrite

/-- The row a write is of. -/
def slot : StateWrite → String × String × String
  | put c _ => (c.tenantId, c.agentId, c.key)
  | putState t g k .. => (t, g, k)
  | append t g k .. => (t, g, k)
  | revise t g k .. => (t, g, k)
  | insert t g k .. => (t, g, k)
  | delete t g k => (t, g, k)
  | seed t g path .. => (t, g, path)

/-- Whether the total is judged: everything but a deletion, a seed, and the row a `put` has been cleared to write. -/
def judged : StateWrite → Bool
  | put .. | append .. | revise .. | insert .. => true
  | putState .. | delete .. | seed .. => false

/-- The write a seeded file is sent as. -/
def seedWrite (env : SeedEnv) (path : String) (mode : SeedMode) (text : Str) (misfit : Option String) :
    Option (String × String) → SeedWrite
  | none => inlineWrite env path mode text misfit
  | some (ref, workingRef) => spilledWrite env path mode text misfit ref workingRef

end StateWrite

/-- A method's answer as an outcome. -/
def written {A : Type} (o : AgentObject) : Except JsError (A × Db) → WriteOutcome × AgentObject
  | .ok r => (.done, { o with store := r.2 })
  | .error e => (.thrown e, o)

namespace StateWrite

/-- One write under a limit of `max` on the agent's rows together. -/
def exec (env : SeedEnv) (max : Nat) (ctx : Ctx) (w : StateWrite) (o : AgentObject) : WriteOutcome × AgentObject :=
  match w with
  | put c stored =>
    let r := (Antiproton.put (c.limited max)).alone (StateAwait.exec ctx stored) o.store
    (match r.1 with
      | .ok _ => .done
      | .error e => .thrown e, { o with store := r.2 })
  | putState t g k value ref =>
    (.done, { o with store := DurableObject.putState ctx t g k (putEntry value ref) o.store })
  | append t g k text m full => written o (DurableObject.appendState ctx t g k text m full (some max) o.store)
  | revise t g k old next m => written o (DurableObject.reviseState ctx t g k old next m (some max) o.store)
  | insert t g k after text m => written o (DurableObject.insertState ctx t g k after text m (some max) o.store)
  | delete t g k => (.done, { o with store := (DurableObject.deleteState t g k o.store).2 })
  | seed t g path mode text misfit spilled =>
    let r := writeSeedFile env t g (seedWrite env path mode text misfit spilled) ctx.now o
    (match r.1 with
      | .ok .. => .done
      | .refused code message => .refused code message, r.2)

/-- The writes of a sequence in order, each at its own time. -/
def run (env : SeedEnv) (max : Nat) (ws : List (Ctx × StateWrite)) (o : AgentObject) : AgentObject :=
  ws.foldl (fun o w => (w.2.exec env max w.1 o).2) o

end StateWrite

/-! ## A document's edit -/

/-- The text an edit of a document leaves, or why there is none; the total is judged after. -/
def StateWrite.document (db : Db) : StateWrite → Option (Except JsError Str)
  | .append t g k text m full => some do
    let before ← documentText k ((DurableObject.getStateRow t g k db).map priorDocument) "append to"
    let r ← appendLines k before text m full
    return r.1
  | .revise t g k old next m => some <|
    match DurableObject.getStateRow t g k db with
    | none => .error (.ofMessage s!"there is no `{k}` to revise")
    | some prior => do
      let doc ← documentText k (some (priorDocument prior)) "revise"
      let r ← reviseText k doc old next m
      return r.1
  | .insert t g k after text m => some do
    let before ← documentText k ((DurableObject.getStateRow t g k db).map priorDocument) "insert into"
    let r ← insertLines k before after text m
    return r.1
  | _ => none

/-- An edit once its text is decided. -/
def writeText (max : Nat) (ctx : Ctx) (slot : String × String × String) (o : AgentObject) :
    Except JsError Str → WriteOutcome × AgentObject
  | .error e => (.thrown e, o)
  | .ok kept => written o (DurableObject.writeDocument ctx slot.1 slot.2.1 slot.2.2 kept (some max) o.store)

section Exec

variable {env : SeedEnv} {max : Nat} {ctx : Ctx} {o : AgentObject} {w : StateWrite}

theorem exec_document {d : Except JsError Str} (h : w.document o.store = some d) :
    w.exec env max ctx o = writeText max ctx w.slot o d := by
  cases w with
  | append t g k text m full =>
    simp only [StateWrite.document, Option.some.injEq] at h
    subst h
    simp only [StateWrite.exec, DurableObject.appendState, StateWrite.slot]
    cases documentText k ((DurableObject.getStateRow t g k o.store).map priorDocument) "append to" with
    | error e => rfl
    | ok before =>
      simp only [bind, Except.bind]
      cases appendLines k before text m full with
      | error e => rfl
      | ok r =>
        simp only [pure, Except.pure, writeText]
        cases DurableObject.writeDocument ctx t g k r.1 (some max) o.store <;> rfl
  | revise t g k old next m =>
    simp only [StateWrite.document, Option.some.injEq] at h
    subst h
    simp only [StateWrite.exec, DurableObject.reviseState, StateWrite.slot]
    cases DurableObject.getStateRow t g k o.store with
    | none => rfl
    | some prior =>
      simp only [bind, Except.bind]
      cases documentText k (some (priorDocument prior)) "revise" with
      | error e => rfl
      | ok doc =>
        simp only
        cases reviseText k doc old next m with
        | error e => rfl
        | ok r =>
          simp only [pure, Except.pure, writeText]
          cases DurableObject.writeDocument ctx t g k r.1 (some max) o.store <;> rfl
  | insert t g k after text m =>
    simp only [StateWrite.document, Option.some.injEq] at h
    subst h
    simp only [StateWrite.exec, DurableObject.insertState, StateWrite.slot]
    cases documentText k ((DurableObject.getStateRow t g k o.store).map priorDocument) "insert into" with
    | error e => rfl
    | ok before =>
      simp only [bind, Except.bind]
      cases insertLines k before after text m with
      | error e => rfl
      | ok r =>
        simp only [pure, Except.pure, writeText]
        cases DurableObject.writeDocument ctx t g k r.1 (some max) o.store <;> rfl
  | _ => cases h

/-- An edit is written as a document's entry, within the limit unless it does not grow the row; or it is refused. -/
theorem document_cases (env : SeedEnv) (max : Nat) (ctx : Ctx) (hk : o.store.StateKeyed) (ha : o.store.Accounted) {d : Except JsError Str}
    (h : w.document o.store = some d) :
    (∃ kept, d = .ok kept ∧
      totalRefusal (storeSize w.slot.1 w.slot.2.1 o.store) (rowBytes w.slot.1 w.slot.2.1 w.slot.2.2 o.store)
        (storedBytes (.str kept)) max none = none ∧
      w.exec env max ctx o = (.done, o.withStore
        (DurableObject.putStateRow ctx w.slot.1 w.slot.2.1 w.slot.2.2 (documentEntry kept) o.store))) ∨
    ∃ e, w.exec env max ctx o = (.thrown e, o) := by
  rw [exec_document h]
  cases d with
  | error e => exact .inr ⟨e, rfl⟩
  | ok kept =>
    rw [writeText, writeDocument_eq hk ha]
    cases hr : totalRefusal (storeSize w.slot.1 w.slot.2.1 o.store)
        (rowBytes w.slot.1 w.slot.2.1 w.slot.2.2 o.store) (storedBytes (.str kept)) max none with
    | some e => exact .inr ⟨e, rfl⟩
    | none => exact .inl ⟨kept, rfl, hr, rfl⟩

/-! ## What a write keeps -/

theorem putEntry_bytes (value : Json) (ref : String) : (putEntry value ref).bytes = storedBytes value := by
  unfold putEntry
  split <;> rfl

theorem putEntry_accounted (value : Json) (ref t g k : String) (now : Int) :
    ((putEntry value ref).row t g k now).bytes = ((putEntry value ref).row t g k now).size := by
  unfold putEntry
  split
  · rfl
  · simp only [StateEntry.row, StateRow.size]
    by_cases hv : value = .null
    · rw [if_pos hv, hv]
      rfl
    · rw [if_neg hv]
      rfl

theorem seedWrite_accounted (env : SeedEnv) (path : String) (mode : SeedMode) (text : Str) (misfit : Option String)
    (spilled : Option (String × String)) (t g : String) (now : Int) :
    let working := (StateWrite.seedWrite env path mode text misfit spilled).working
    (working.row t g path now).bytes = (working.row t g path now).size := by
  cases spilled <;> rfl

theorem write_cases (ctx : Ctx) (c : PutCall) (stored : Except JsError String) (db : Db) :
    (∃ reply ref, c.write ctx stored db =
      (.ok reply, DurableObject.putStateRow ctx c.tenantId c.agentId c.key (putEntry c.value ref) db)) ∨
    ∃ e, c.write ctx stored db = (.error e, db) := by
  unfold PutCall.write
  dsimp only
  split
  · exact .inl ⟨_, "", rfl⟩
  · split
    · exact .inr ⟨_, rfl⟩
    · cases stored with
      | error e => exact .inr ⟨e, rfl⟩
      | ok ref => exact .inl ⟨_, ref, rfl⟩

/-- A `put` as a write: the row its total was judged for, or nothing. -/
theorem put_cases (env : SeedEnv) (max : Nat) (ctx : Ctx) (ha : o.store.Accounted) (c : PutCall) (stored : Except JsError String) :
    (∃ ref, c.early o.store = none ∧
      totalRefusal (storeSize c.tenantId c.agentId o.store) (rowBytes c.tenantId c.agentId c.key o.store)
        (storedBytes c.value) max (some c.mountAlias) = none ∧
      (StateWrite.put c stored).exec env max ctx o = (.done, o.withStore
        (DurableObject.putStateRow ctx c.tenantId c.agentId c.key (putEntry c.value ref) o.store))) ∨
    ∃ e, (StateWrite.put c stored).exec env max ctx o = (.thrown e, o) := by
  have hp := put_alone (c.limited max) ctx stored o.store
  rw [show (c.limited max).early = c.early from rfl,
    show (c.limited max).write = c.write from rfl] at hp
  simp only [PutCall.limited] at hp
  rw [stateUsage_eq ha] at hp
  simp only [StateWrite.exec, PutCall.limited]
  rw [hp]
  cases c.early o.store with
  | some e => exact .inr ⟨e, rfl⟩
  | none =>
    dsimp only
    cases ht : totalRefusal (storeSize c.tenantId c.agentId o.store)
        (rowBytes c.tenantId c.agentId c.key o.store) c.value.stringify.length max (some c.mountAlias) with
    | some e => exact .inr ⟨e, rfl⟩
    | none =>
      dsimp only
      rcases write_cases ctx c stored o.store with ⟨reply, ref, h⟩ | ⟨e, h⟩
      · rw [h]; exact .inl ⟨ref, rfl, ht, rfl⟩
      · rw [h]; exact .inr ⟨e, rfl⟩

/-- A seeded file leaves the rows as they are, or writes its working copy. -/
theorem writeSeedFile_rows (env : SeedEnv) (ctx : Ctx) (o : AgentObject) (t g : String) (f : SeedWrite) (now : Int) :
    (writeSeedFile env t g f now o).2.store.agentState = o.store.agentState ∨
    (writeSeedFile env t g f now o).1 = .ok true f.info ∧ (writeSeedFile env t g f now o).2.store.agentState =
      (DurableObject.putStateRow ⟨now, ctx.uuid⟩ t g f.path f.working o.store).agentState := by
  unfold writeSeedFile
  split
  · exact .inl rfl
  · rename_i hs
    split
    · left
      simp only [sealSeedFiles, hs]
    · simp only [writeUnsealed]
      split
      · exact .inl rfl
      · split
        · exact .inl rfl
        · split
          · exact .inl rfl
          · split
            · exact .inl rfl
            · exact .inr ⟨rfl, rfl⟩

theorem Db.Accounted.of_rows {db db' : Db} (h : db'.agentState = db.agentState) (ha : db.Accounted) :
    db'.Accounted := fun r hr => ha r (h ▸ hr)

theorem Db.StateKeyed.of_rows {db db' : Db} (h : db'.agentState = db.agentState) (hk : db.StateKeyed) :
    db'.StateKeyed := by unfold Db.StateKeyed; rw [h]; exact hk

/-- A write leaves the rows keyed and accounted. -/
theorem exec_accounted (env : SeedEnv) (max : Nat) (ctx : Ctx) (w : StateWrite) (hk : o.store.StateKeyed) (ha : o.store.Accounted) :
    (w.exec env max ctx o).2.store.StateKeyed ∧ (w.exec env max ctx o).2.store.Accounted := by
  have hdocument : ∀ d, w.document o.store = some d →
      (w.exec env max ctx o).2.store.StateKeyed ∧ (w.exec env max ctx o).2.store.Accounted := by
    intro d hd
    rcases document_cases env max ctx hk ha hd with ⟨kept, _, _, h⟩ | ⟨e, h⟩
    · rw [h]
      exact ⟨putStateRow_keyed hk, putStateRow_accounted ha (documentEntry_accounted ..)⟩
    · rw [h]
      exact ⟨hk, ha⟩
  cases w with
  | put c stored =>
    rcases put_cases env max ctx ha c stored with ⟨ref, _, _, h⟩ | ⟨e, h⟩
    · rw [h]
      exact ⟨putStateRow_keyed hk, putStateRow_accounted ha (putEntry_accounted ..)⟩
    · rw [h]
      exact ⟨hk, ha⟩
  | putState t g k value ref =>
    exact ⟨putStateRow_keyed hk, putStateRow_accounted ha (putEntry_accounted ..)⟩
  | append => exact hdocument _ rfl
  | revise => exact hdocument _ rfl
  | insert => exact hdocument _ rfl
  | delete t g k =>
    exact ⟨Table.unique_delete hk, fun r hr => ha r (Table.mem_delete.1 hr).1⟩
  | seed t g path mode text misfit spilled =>
    simp only [StateWrite.exec]
    rcases writeSeedFile_rows env ctx o t g
        (StateWrite.seedWrite env path mode text misfit spilled) ctx.now with h | ⟨_, h⟩
    · exact ⟨hk.of_rows h, ha.of_rows h⟩
    · have hw := seedWrite_accounted env path mode text misfit spilled t g ctx.now
      have hpath : (StateWrite.seedWrite env path mode text misfit spilled).path = path := by
        cases spilled <;> rfl
      rw [hpath] at h
      exact ⟨(putStateRow_keyed hk).of_rows h, (putStateRow_accounted ha hw).of_rows h⟩

/-- Writing a row the total was judged for stays within the limit where it grows the row. -/
theorem putStateRow_bounded {t g k : String} {entry : StateEntry} {db : Db} {mountAlias : Option String}
    (hk : db.StateKeyed) (ha : db.Accounted)
    (he : (entry.row t g k ctx.now).bytes = (entry.row t g k ctx.now).size)
    (ht : totalRefusal (storeSize t g db) (rowBytes t g k db) entry.bytes max mountAlias = none)
    (hg : rowBytes t g k db < rowBytes t g k (DurableObject.putStateRow ctx t g k entry db)) :
    storeSize t g (DurableObject.putStateRow ctx t g k entry db) ≤ max := by
  rw [putStateRow_row] at hg
  have htotal := putStateRow_total ctx hk ha he
  have hroom := (totalRefusal_eq_none.1 ht).resolve_left (by omega)
  omega

end Exec

/-- What a write keeps of the accounting, from `o`, under a limit of `max`. -/
structure StateWrite.Accounts (w : StateWrite) (env : SeedEnv) (max : Nat) (ctx : Ctx) (o : AgentObject) : Prop where
  /-- A write the total is judged for takes the sum past the limit by growing no row. -/
  bounded : w.judged = true →
    rowBytes w.slot.1 w.slot.2.1 w.slot.2.2 o.store <
      rowBytes w.slot.1 w.slot.2.1 w.slot.2.2 (w.exec env max ctx o).2.store →
    storeSize w.slot.1 w.slot.2.1 (w.exec env max ctx o).2.store ≤ max
  /-- A write that under some limit is made and does not grow its row is made under this one. -/
  shrinking : ∀ max', (w.exec env max' ctx o).1 = .done →
    rowBytes w.slot.1 w.slot.2.1 w.slot.2.2 (w.exec env max' ctx o).2.store ≤
      rowBytes w.slot.1 w.slot.2.1 w.slot.2.2 o.store →
    w.exec env max ctx o = w.exec env max' ctx o
  /-- A write that is not made leaves every row as it was. -/
  refused : (w.exec env max ctx o).1 ≠ .done → (w.exec env max ctx o).2.store.agentState = o.store.agentState

section Accounts

variable {env : SeedEnv} {max : Nat} {ctx : Ctx} {o : AgentObject} {w : StateWrite}

theorem document_accounts (hk : o.store.StateKeyed) (ha : o.store.Accounted) {d : Except JsError Str}
    (hd : w.document o.store = some d) : w.Accounts env max ctx o where
  bounded := by
    intro _ hg
    rcases document_cases env max ctx hk ha hd with ⟨kept, _, ht, h⟩ | ⟨e, h⟩
    · rw [h] at hg ⊢
      exact putStateRow_bounded hk ha (documentEntry_accounted ..) ht hg
    · rw [h] at hg
      exact absurd hg (lt_irrefl _)
  shrinking := by
    intro max' hdone hle
    rcases document_cases env max' ctx hk ha hd with ⟨kept, hkept, _, h⟩ | ⟨e, h⟩
    · rw [h] at hle ⊢
      rw [AgentObject.withStore_store, putStateRow_row] at hle
      have ht : totalRefusal (storeSize w.slot.1 w.slot.2.1 o.store) _ _ max none = none :=
        totalRefusal_eq_none.2 (.inl hle)
      rw [exec_document hd, hkept, writeText, writeDocument_eq hk ha]
      rw [show storedBytes (.str kept) = (documentEntry kept).bytes from rfl, ht]
      rfl
    · rw [h] at hdone
      cases hdone
  refused := by
    intro hdone
    rcases document_cases env max ctx hk ha hd with ⟨kept, _, _, h⟩ | ⟨e, h⟩
    · rw [h] at hdone
      exact absurd rfl hdone
    · rw [h]

theorem put_accounts (hk : o.store.StateKeyed) (ha : o.store.Accounted) (c : PutCall)
    (stored : Except JsError String) : (StateWrite.put c stored).Accounts env max ctx o where
  bounded := by
    intro _ hg
    rcases put_cases env max ctx ha c stored with ⟨ref, _, ht, h⟩ | ⟨e, h⟩
    · rw [h] at hg ⊢
      rw [← putEntry_bytes c.value ref] at ht
      exact putStateRow_bounded hk ha (putEntry_accounted ..) ht hg
    · rw [h] at hg
      exact absurd hg (lt_irrefl _)
  shrinking := by
    intro max' hdone hle
    rcases put_cases env max' ctx ha c stored with ⟨ref, hearly, ht', h⟩ | ⟨e, h⟩
    · rw [h] at hle
      dsimp only [StateWrite.slot] at hle
      rw [AgentObject.withStore_store, putStateRow_row, putEntry_bytes] at hle
      have ht : totalRefusal (storeSize c.tenantId c.agentId o.store) _ _ max (some c.mountAlias) = none :=
        totalRefusal_eq_none.2 (.inl hle)
      -- Neither limit refuses, and nothing after the refusal reads it.
      have hp := put_alone (c.limited max) ctx stored o.store
      have hp' := put_alone (c.limited max') ctx stored o.store
      have he : ∀ m, (c.limited m).early o.store = none := fun _ => hearly
      rw [he] at hp hp'
      simp only [PutCall.limited, stateUsage_eq ha] at hp hp'
      rw [show c.value.stringify.length = storedBytes c.value from rfl] at hp hp'
      rw [ht] at hp
      rw [ht'] at hp'
      simp only [StateWrite.exec, PutCall.limited, hp, hp']
      rfl
    · rw [h] at hdone
      cases hdone
  refused := by
    intro hdone
    rcases put_cases env max ctx ha c stored with ⟨ref, _, _, h⟩ | ⟨e, h⟩
    · rw [h] at hdone
      exact absurd rfl hdone
    · rw [h]

theorem exec_accounts (hk : o.store.StateKeyed) (ha : o.store.Accounted) : w.Accounts env max ctx o := by
  cases w with
  | put c stored => exact put_accounts hk ha c stored
  | append => exact document_accounts hk ha rfl
  | revise => exact document_accounts hk ha rfl
  | insert => exact document_accounts hk ha rfl
  | putState => exact ⟨nofun, fun _ _ _ => rfl, fun h => absurd rfl h⟩
  | delete => exact ⟨nofun, fun _ _ _ => rfl, fun h => absurd rfl h⟩
  | seed t g path mode text misfit spilled =>
    refine ⟨nofun, fun _ _ _ => rfl, fun hdone => ?_⟩
    simp only [StateWrite.exec] at hdone ⊢
    rcases writeSeedFile_rows env ctx o t g
        (StateWrite.seedWrite env path mode text misfit spilled) ctx.now with h | ⟨hr, _⟩
    · exact h
    · rw [hr] at hdone
      exact absurd rfl hdone

/-- Every sequence of writes leaves the rows keyed and accounted. -/
theorem run_accounted (env : SeedEnv) (max : Nat) (hk : o.store.StateKeyed) (ha : o.store.Accounted) (ws : List (Ctx × StateWrite)) :
    (StateWrite.run env max ws o).store.StateKeyed ∧ (StateWrite.run env max ws o).store.Accounted := by
  induction ws generalizing o with
  | nil => exact ⟨hk, ha⟩
  | cons w ws ih =>
    obtain ⟨hk', ha'⟩ := exec_accounted env max w.1 w.2 hk ha
    exact ih hk' ha'

end Accounts

/-- From any table as it was opened, over every sequence of writes: a row kept in its place holds the length of
its value's JSON, the sums a write is judged by are those of the rows, every next write keeps the accounting, and
opening the store again changes nothing. -/
theorem state_bytes_exact (env : SeedEnv) (max : Nat) (o : AgentObject) (hk : o.store.StateKeyed)
    (hm : o.store.marked = true → o.store.Accounted) (ws : List (Ctx × StateWrite)) :
    let o' := StateWrite.run env max ws (o.withStore (backfillStateBytes o.store).2)
    (∀ r ∈ o'.store.agentState, r.ref = none → r.bytes = storedBytes (r.value.getD .null)) ∧
    (∀ t g k, DurableObject.stateBytes t g k o'.store = (storeSize t g o'.store, rowBytes t g k o'.store) ∧
      (DurableObject.stateUsage t g o'.store).bytes = storeSize t g o'.store) ∧
    (∀ ctx w, StateWrite.Accounts w env max ctx o') ∧
    backfillStateBytes (backfillStateBytes o.store).2 = (0, (backfillStateBytes o.store).2) := by
  intro o'
  obtain ⟨hk', ha'⟩ := run_accounted env max
    (o := o.withStore (backfillStateBytes o.store).2) (backfillStateBytes_keyed hk)
    (backfillStateBytes_accounted hk hm) ws
  refine ⟨?_, ?_, ?_, backfillStateBytes_again o.store⟩
  · intro r hr href
    rw [ha' r hr, StateRow.size, href]
  · intro t g k
    exact ⟨stateBytes_eq hk' ha' t g k, stateUsage_eq ha' t g⟩
  · intro ctx w
    exact exec_accounts hk' ha'

/-- An agent whose `notes` were counted in characters before the migration. -/
def notesObject : AgentObject where
  store := { Db.empty with agentState := [⟨"acme", "a1", "notes", some (.ofString "one\ntwo"), none, 7, 0⟩] }
  piEntries := []
  mainSessions := []
  inboundPending := []
  inboundEvents := []

theorem state_bytes_exact_notes :
    backfillStateBytes notesObject.store = (1, { notesObject.store with
      agentState := [⟨"acme", "a1", "notes", some (.ofString "one\ntwo"), none, 10, 0⟩]
      counters := [⟨stateBytesMarker, 1⟩] }) ∧
    let o' := StateWrite.run lengthEnv 64 [(⟨5, fun _ => "u"⟩, .append "acme" "a1" "notes" (js "three") 100 .drop)]
      (notesObject.withStore (backfillStateBytes notesObject.store).2)
    (∀ r ∈ o'.store.agentState, r.ref = none → r.bytes = storedBytes (r.value.getD .null)) ∧
    (∀ t g k, DurableObject.stateBytes t g k o'.store = (storeSize t g o'.store, rowBytes t g k o'.store) ∧
      (DurableObject.stateUsage t g o'.store).bytes = storeSize t g o'.store) ∧
    (∀ ctx w, StateWrite.Accounts w lengthEnv 64 ctx o') ∧
    backfillStateBytes (backfillStateBytes notesObject.store).2 =
      (0, (backfillStateBytes notesObject.store).2) :=
  ⟨by decide +kernel, state_bytes_exact lengthEnv 64 notesObject (by simp [Db.StateKeyed, notesObject, Table.Unique])
    (fun h => absurd h (by decide)) _⟩

end Antiproton
