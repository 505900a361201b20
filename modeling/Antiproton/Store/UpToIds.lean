import Antiproton.Store.Adapter

/-!
# Antiproton.Store.UpToIds

Databases and answers compared up to the ids a store makes up (`events.event_id`, `waits.wait_id`) and
`outbox.dispatched_at`: `Db.erase` and `Answer.erase` blank them. No method decides anything by them.

* `exec_framed`: a call of a method that keeps no such column gives the same answer over any of them.
* `exec_through`: a call gives the same answer and the same tables, up to ids, on two databases that
  are equal up to ids, whatever ids it draws.
-/

namespace Antiproton

/-! ## What is compared -/

def RuntimeEvent.erase (e : RuntimeEvent) : RuntimeEvent := { e with eventId := "" }
def EventRow.erase (r : EventRow) : EventRow := { r with eventId := "" }
def WaitRow.erase (r : WaitRow) : WaitRow := { r with waitId := "" }
def OutboxRow.erase (r : OutboxRow) : OutboxRow := { r with dispatchedAt := none }

/-- The answer without the ids the store made up. -/
def Answer.erase : Answer → Answer
  | .appended a => .appended { a with eventId := "" }
  | .events es => .events (es.map .erase)
  | a => a

/-- The tables with a column that is not compared. -/
structure Ids where
  events : List EventRow
  waits : List WaitRow
  outbox : List OutboxRow

def Ids.erase (x : Ids) : Ids := ⟨x.events.map .erase, x.waits.map .erase, x.outbox.map .erase⟩

namespace Db

def ids (db : Db) : Ids := ⟨db.events, db.waits, db.outbox⟩

/-- The database with other rows in those tables. -/
def graft (db : Db) (x : Ids) : Db := { db with events := x.events, waits := x.waits, outbox := x.outbox }

/-- The database without generated ids and `outbox.dispatched_at`. -/
def erase (db : Db) : Db := db.graft db.ids.erase

theorem graft_ids (db : Db) : db.graft db.ids = db := rfl

theorem ids_graft (db : Db) (x : Ids) : (db.graft x).ids = x := rfl

theorem erase_graft (db : Db) (x : Ids) : (db.graft x).erase = db.graft x.erase := rfl

/-- Two databases that differ in ids alone are one database with other ids. -/
theorem exists_graft {db db' : Db} (h : db'.erase = db.erase) :
    ∃ x : Ids, db' = db.graft x ∧ x.erase = db.ids.erase := by
  refine ⟨db'.ids, ?_, congrArg ids h⟩
  have hg : (db'.erase).graft db'.ids = (db.erase).graft db'.ids := by rw [h]
  exact hg

end Db

/-- An answer and a database, as they are compared. -/
def eraseBoth (r : Answer × Db) : Answer × Db := (r.1.erase, r.2.erase)

/-! ## Calls that do not touch those tables -/

/-- A call that neither reads nor writes a table with an id column. -/
def Framed (f : Db → Answer × Db) : Prop := ∀ db x, f (db.graft x) = ((f db).1, (f db).2.graft x)

theorem Framed.erase {f : Db → Answer × Db} (hf : Framed f) {db : Db} {x : Ids}
    (hx : x.erase = db.ids.erase) : eraseBoth (f (db.graft x)) = eraseBoth (f db) := by
  have hids : (f db).2.graft db.ids = (f db).2 := by
    have h := congrArg Prod.snd (hf db db.ids)
    rw [Db.graft_ids] at h
    exact h.symm
  rw [hf db x]
  simp only [eraseBoth, Db.erase_graft, hx, Prod.mk.injEq, true_and]
  rw [← Db.erase_graft, hids]

open StorageAdapter

theorem writeDocument_framed (ctx : Ctx) (t g k : String) (kept : Str) (total : Option Nat) (db : Db)
    (x : Ids) : DurableObject.writeDocument ctx t g k kept total (db.graft x) =
      (DurableObject.writeDocument ctx t g k kept total db).map fun r => (r.1, r.2.graft x) := by
  unfold DurableObject.writeDocument
  rw [show DurableObject.stateBytes t g k (db.graft x) = DurableObject.stateBytes t g k db from rfl]
  dsimp only
  split <;> rfl

theorem pluginDbRename_framed (t g a b : String) (db : Db) (x : Ids) :
    pluginDbRename t g a b (db.graft x) = (pluginDbRename t g a b db).map (·.graft x) := by
  unfold pluginDbRename
  rw [show pluginDbTaken t g a b (db.graft x) = pluginDbTaken t g a b db from rfl,
    show pluginDbVersionTaken t g a b (db.graft x) = pluginDbVersionTaken t g a b db from rfl]
  cases pluginDbTaken t g a b db <;> cases pluginDbVersionTaken t g a b db <;> rfl

theorem renameWrites_framed (t g a b : String) (r : Option String) (db : Db) (x : Ids) :
    DurableObject.renameWrites t g a b r (db.graft x) =
      (DurableObject.renameWrites t g a b r db).map (·.graft x) := by
  have hm : DurableObject.moveMount t g a b (db.graft x) = (DurableObject.moveMount t g a b db).graft x := rfl
  unfold DurableObject.renameWrites
  rw [hm, pluginDbRename_framed]
  cases pluginDbRename t g a b (DurableObject.moveMount t g a b db) <;> cases r <;> rfl

/-- The calls of the methods that read or write events, waits or the outbox. -/
def Call.touchesIds : Call → Bool
  | .completeOperation .. | .registerWait .. | .appendEvent .. | .pendingEvents .. | .taskEvents .. | .eventsSince ..
  | .tasksWithPendingWork .. | .commitAdvance .. | .releaseIfNoWork .. | .claimOutbox .. | .markDispatched .. => true
  | _ => false

theorem exec_framed (ctx : Ctx) {c : Call} (hc : c.touchesIds = false) :
    Framed (durableObjectStore.exec ctx c) := by
  intro db x
  cases c with
  | recordOperation | getOperation | requireApproval | getApproval | listApprovals | untoldApprovals | setQuota
  | consumeQuota | usage | putState | getState | deleteState | listState | stateUsage
  | updateMountToolSnapshot | updateMountPolicy | updateMountToolVersion | updateMountConfig
  | setMountSecretRef | getMountByAlias | findMountsByPlugin | listMounts | pluginChoices => rfl
  | startOperation t o =>
    simp only [exec, durableObjectStore, DurableObject.startOperation, Db.graft, returned]
    (repeat' split) <;> simp_all
  | interrupt t k =>
    simp only [exec, durableObjectStore, DurableObject.interrupt, Db.graft]
    split <;> simp_all [attempted]
  | holdApproval a same =>
    simp only [exec, durableObjectStore, DurableObject.holdApproval, Db.graft, returned, openHolds]
    split <;> simp_all
  | decideApproval t o d who b n =>
    simp only [exec, durableObjectStore, DurableObject.decideApproval, Db.graft, returned]
    (repeat' split) <;> simp_all [appendTrace]
    (repeat' split) <;> simp_all
  | claimApprovalRun t o at_ =>
    simp only [exec, durableObjectStore, DurableObject.claimApprovalRun, Db.graft, returned]
    (repeat' split) <;> simp_all
  | finishApproval t o s m n =>
    simp only [exec, durableObjectStore, DurableObject.finishApproval, Db.graft, returned]
    (repeat' split) <;> simp_all
  | recordApprovalDelivery t o r =>
    simp only [exec, durableObjectStore, DurableObject.recordApprovalDelivery, Db.graft, returned]
    (repeat' split) <;> simp_all
  | acquireLease t k h ttl =>
    simp only [exec, durableObjectStore, DurableObject.acquireLease, DurableObject.nextCounter, Db.graft, returned]
    split <;> simp_all
  | appendState t g k text max full total =>
    simp only [exec, durableObjectStore, DurableObject.appendState, writeDocument_framed]
    rw [show DurableObject.getStateRow t g k (db.graft x) = DurableObject.getStateRow t g k db from rfl]
    cases documentText k ((DurableObject.getStateRow t g k db).map priorDocument) "append to" with
    | error e => rfl
    | ok before =>
      cases h : appendLines k before text max full with
      | error e => simp [bind, Except.bind, h, attempted]
      | ok r =>
        cases hw : DurableObject.writeDocument ctx t g k r.1 total db <;>
          simp [bind, Except.bind, h, hw, attempted, Except.map, pure, Except.pure]
  | reviseState t g k old next max total =>
    simp only [exec, durableObjectStore, DurableObject.reviseState, writeDocument_framed]
    rw [show DurableObject.getStateRow t g k (db.graft x) = DurableObject.getStateRow t g k db from rfl]
    cases DurableObject.getStateRow t g k db with
    | none => rfl
    | some prior =>
      cases hd : documentText k (some (priorDocument prior)) "revise" with
      | error e => simp [bind, Except.bind, hd, attempted]
      | ok doc =>
        cases h : reviseText k doc old next max with
        | error e => simp [bind, Except.bind, hd, h, attempted]
        | ok r =>
          cases hw : DurableObject.writeDocument ctx t g k r.1 total db <;>
            simp [bind, Except.bind, hd, h, hw, attempted, Except.map, pure, Except.pure]
  | insertState t g k after text max total =>
    simp only [exec, durableObjectStore, DurableObject.insertState, writeDocument_framed]
    rw [show DurableObject.getStateRow t g k (db.graft x) = DurableObject.getStateRow t g k db from rfl]
    cases documentText k ((DurableObject.getStateRow t g k db).map priorDocument) "insert into" with
    | error e => rfl
    | ok before =>
      cases h : insertLines k before after text max with
      | error e => simp [bind, Except.bind, h, attempted]
      | ok r =>
        cases hw : DurableObject.writeDocument ctx t g k r.1 total db <;>
          simp [bind, Except.bind, h, hw, attempted, Except.map, pure, Except.pure]
  | addMount m =>
    simp only [exec, durableObjectStore, DurableObject.addMount, Db.graft]
    (repeat' split) <;> simp_all [attempted]
  | setPluginChoice t g p ch =>
    simp only [exec, durableObjectStore, DurableObject.setPluginChoice, Db.graft]
    split <;> simp_all
  | renameMount t g a b r =>
    simp only [exec, durableObjectStore, DurableObject.renameMount, returned, renameWrites_framed]
    rw [show DurableObject.renameRefusal t g a b r (db.graft x) = DurableObject.renameRefusal t g a b r db from rfl]
    split
    · rfl
    · cases DurableObject.renameRefusal t g a b r db with
      | some e => rfl
      | none => cases DurableObject.renameWrites t g a b r db <;> rfl
  | removeMount t g a s i =>
    simp only [exec, durableObjectStore, DurableObject.removeMount, Db.graft, returned, pluginDbRemove]
    (repeat' split) <;> simp_all
  | _ => cases hc

/-! ## Calls that do -/

theorem Ids.erase_eq {x y : Ids} : x.erase = y.erase ↔
    x.events.map EventRow.erase = y.events.map .erase ∧ x.waits.map WaitRow.erase = y.waits.map .erase ∧
      x.outbox.map OutboxRow.erase = y.outbox.map .erase := by
  simp [Ids.erase]

theorem appendTrace_erase (row : TraceRow) (db : Db) :
    (appendTrace row db).erase = appendTrace row db.erase := by
  unfold appendTrace; split <;> rfl

/-- Rows equal but for ids read as events equal but for ids. -/
theorem records_erase {rows rows' : List EventRow} (h : rows'.map EventRow.erase = rows.map .erase) :
    (rows'.map eventRecord).map RuntimeEvent.erase = (rows.map eventRecord).map .erase := by
  have he : ∀ rs : List EventRow,
      (rs.map eventRecord).map RuntimeEvent.erase = (rs.map EventRow.erase).map eventRecord := by
    intro rs; simp only [List.map_map]; rfl
  rw [he, h, he]

theorem map_limitTo {R S : Type} (g : R → S) (n : Int) (rows : List R) :
    (limitTo n rows).map g = limitTo n (rows.map g) := by
  unfold limitTo; split
  · rfl
  · rw [List.map_take]

theorem limitTo_through {R : Type} {g : R → R} {n : Int} {rows rows' : List R}
    (h : rows'.map g = rows.map g) : (limitTo n rows').map g = (limitTo n rows).map g := by
  rw [map_limitTo, h, map_limitTo]

theorem addEvent_erase (row : EventRow) (db : Db) :
    (addEvent row db).erase = addEvent row.erase db.erase := by
  simp [addEvent, Db.erase, Db.graft, Db.ids, Ids.erase]

theorem eventClash_through {row row' : EventRow} (hr : row'.erase = row.erase) {db : Db} {x : Ids}
    (hx : x.erase = db.ids.erase) : eventClash row' (db.graft x) = eventClash row db := by
  obtain ⟨hev, -, -⟩ := Ids.erase_eq.1 hx
  have ht : row'.tenantId = row.tenantId := congrArg (·.tenantId) hr
  have hk : row'.dedupKey = row.dedupKey := congrArg (·.dedupKey) hr
  have hg : row'.agentId = row.agentId := congrArg (·.agentId) hr
  have hs : row'.sequence = row.sequence := congrArg (·.sequence) hr
  unfold eventClash
  rw [ht, hk, hg, hs, show (db.graft x).events = x.events from rfl,
    Table.any_through (g := EventRow.erase) hev (fun _ => rfl),
    Table.any_through (g := EventRow.erase) hev (fun _ => rfl)]
  rfl

theorem erase_of_ids {db : Db} {x : Ids} (hx : x.erase = db.ids.erase) : (db.graft x).erase = db.erase := by
  rw [Db.erase_graft, hx]; rfl

theorem insertEventRow_through {row row' : EventRow} (hr : row'.erase = row.erase) {db : Db} {x : Ids}
    (hx : x.erase = db.ids.erase) :
    (insertEventRow row' (db.graft x)).map Db.erase = (insertEventRow row db).map Db.erase := by
  unfold insertEventRow
  rw [eventClash_through hr hx]
  cases eventClash row db with
  | some e => rfl
  | none => simp only [Except.map, addEvent_erase, hr, erase_of_ids hx]

/-- An event appended, and where, but for its id. -/
def eraseAppended (r : Appended × Db) : Appended × Db := ({ r.1 with eventId := "" }, r.2.erase)

theorem duplicateEvent_through (e : NewEvent) {db : Db} {x : Ids} (hx : x.erase = db.ids.erase) :
    (duplicateEvent e (db.graft x)).map EventRow.erase = (duplicateEvent e db).map .erase := by
  unfold duplicateEvent
  cases e.dedupKey.filter (· ≠ "") with
  | none => rfl
  | some key => exact Table.one_through (Ids.erase_eq.1 hx).1 fun _ => rfl

theorem insertEvent_through (now : Int) (uuid uuid' : Nat → String) (n : Nat) (e : NewEvent) {db : Db}
    {x : Ids} (hx : x.erase = db.ids.erase) :
    (DurableObject.insertEvent ⟨now, uuid'⟩ n e (db.graft x)).map eraseAppended =
      (DurableObject.insertEvent ⟨now, uuid⟩ n e db).map eraseAppended := by
  have hdup := duplicateEvent_through e hx
  unfold DurableObject.insertEvent
  rw [show foreignTask e (db.graft x) = foreignTask e db from rfl]
  cases foreignTask e db with
  | some t => rfl
  | none =>
    cases h : duplicateEvent e db with
    | some r =>
      rw [h] at hdup
      obtain ⟨r', h', hr⟩ := Option.map_eq_some_iff.1 hdup
      have hs : r'.sequence = r.sequence := congrArg (·.sequence) hr
      simp only [h', Except.map, eraseAppended, hs, erase_of_ids hx]
    | none =>
      rw [h, Option.map_none, Option.map_eq_none_iff] at hdup
      let seq := DurableObject.nextCounter s!"seq:{e.tenantId}:{e.agentId}" db
      have hr : (e.row (uuid' n) seq.1 now).erase = (e.row (uuid n) seq.1 now).erase := rfl
      have hs : x.erase = seq.2.ids.erase := hx
      have hins : (insertEventRow (e.row (uuid' n) seq.1 now) (seq.2.graft x)).map Db.erase =
          (insertEventRow (e.row (uuid n) seq.1 now) seq.2).map Db.erase :=
        insertEventRow_through hr hs
      simp only [hdup, show DurableObject.nextCounter s!"seq:{e.tenantId}:{e.agentId}" (db.graft x) =
        (seq.1, seq.2.graft x) from rfl]
      revert hins
      cases insertEventRow (e.row (uuid' n) seq.1 now) (seq.2.graft x) <;>
        cases insertEventRow (e.row (uuid n) seq.1 now) seq.2 <;>
        simp [Except.map, eraseAppended, seq]

theorem markCompleted_through (ctx ctx' : Ctx) (hn : ctx'.now = ctx.now) (t o : String) (s : OperationStatus)
    (ref : Option String) {db : Db} {x : Ids} (hx : x.erase = db.ids.erase) :
    ∃ y : Ids, y.erase = (DurableObject.markCompleted ctx t o s ref db).ids.erase ∧
      DurableObject.markCompleted ctx' t o s ref (db.graft x) =
        (DurableObject.markCompleted ctx t o s ref db).graft y := by
  obtain ⟨hev, hw, ho⟩ := Ids.erase_eq.1 hx
  refine ⟨(DurableObject.markCompleted ctx' t o s ref (db.graft x)).ids, ?_, ?_⟩
  · refine Ids.erase_eq.2 ⟨hev, ?_, ho⟩
    exact Table.update_through hw (fun _ => rfl) fun r r' hr => congrArg (fun r => { r with resolved := true }) hr
  · simp only [DurableObject.markCompleted, hn]; rfl

theorem claimed_through {stamp stamp' : OutboxRow → OutboxRow}
    (hs : ∀ r r', OutboxRow.erase r' = r.erase → (stamp' r').erase = (stamp r).erase) (ids : List String) :
    ∀ {t t' : List OutboxRow}, t'.map OutboxRow.erase = t.map .erase →
      (ids.foldl (fun t id => Table.update (fun r : OutboxRow => r.commandId == id) stamp' t) t').map
          OutboxRow.erase =
        (ids.foldl (fun t id => Table.update (fun r : OutboxRow => r.commandId == id) stamp t) t).map .erase := by
  induction ids with
  | nil => intro t t' h; exact h
  | cons id ids ih => intro t t' h; exact ih (Table.update_through h (fun _ => rfl) hs)

theorem commanded_through (row : OutboxCommand → OutboxRow) (cs : List OutboxCommand) :
    ∀ {t t' : List OutboxRow}, t'.map OutboxRow.erase = t.map .erase →
      (cs.foldl (fun t c => Table.insertOrIgnore (fun r => r.commandId == c.commandId) (row c) t) t').map
          OutboxRow.erase =
        (cs.foldl (fun t c => Table.insertOrIgnore (fun r => r.commandId == c.commandId) (row c) t) t).map
          .erase := by
  induction cs with
  | nil => intro t t' h; exact h
  | cons c cs ih => intro t t' h; exact ih (Table.insertOrIgnore_through h fun _ => rfl)

theorem hasPendingWork_through {db : Db} {x : Ids} (hx : x.erase = db.ids.erase) (t : TaskRow) :
    DurableObject.hasPendingWork (db.graft x) t = DurableObject.hasPendingWork db t := by
  unfold DurableObject.hasPendingWork
  rw [show (db.graft x).events = x.events from rfl,
    Table.any_through (g := EventRow.erase) (Ids.erase_eq.1 hx).1 (fun _ => rfl)]
  rfl

theorem exec_draws_nothing (now : Int) (uuid uuid' : Nat → String) {c : Call} (hc : c.touchesIds = false)
    (db : Db) : durableObjectStore.exec ⟨now, uuid'⟩ c db = durableObjectStore.exec ⟨now, uuid⟩ c db := by
  cases c <;> first | rfl | cases hc

/-- A call gives the same answer and the same tables, but for ids, whatever ids are kept and drawn. -/
theorem exec_through (now : Int) (uuid uuid' : Nat → String) {db : Db} {x : Ids}
    (hx : x.erase = db.ids.erase) (c : Call) :
    eraseBoth (durableObjectStore.exec ⟨now, uuid'⟩ c (db.graft x)) =
      eraseBoth (durableObjectStore.exec ⟨now, uuid⟩ c db) := by
  cases hc : c.touchesIds with
  | false => rw [exec_draws_nothing now uuid uuid' hc]; exact (exec_framed _ hc).erase hx
  | true =>
    obtain ⟨hev, hw, ho⟩ := Ids.erase_eq.1 hx
    cases c with
    | completeOperation t o s ref res facts =>
      obtain ⟨y, hy, hm⟩ := markCompleted_through ⟨now, uuid⟩ ⟨now, uuid'⟩ rfl t o s ref hx
      have hi := fun op => insertEvent_through now uuid uuid' 0
        (completionEvent op t o s ref res facts) hy
      simp only [exec, durableObjectStore, DurableObject.completeOperation, hm]
      rw [show (db.graft x).operations = db.operations from rfl, show ((DurableObject.markCompleted
        ⟨now, uuid⟩ t o s ref db).graft y).operations = (DurableObject.markCompleted ⟨now, uuid⟩ t o s ref
        db).operations from rfl]
      cases Table.one (operationKey t o) (DurableObject.markCompleted ⟨now, uuid⟩ t o s ref db).operations with
      | none => exact Prod.ext rfl (erase_of_ids hy)
      | some op =>
        have hi := hi op
        simp only [bind, Except.bind]
        cases h' : DurableObject.insertEvent ⟨now, uuid'⟩ 0 (completionEvent op t o s ref res facts)
            ((DurableObject.markCompleted ⟨now, uuid⟩ t o s ref db).graft y) with
        | error e =>
          cases h : DurableObject.insertEvent ⟨now, uuid⟩ 0 (completionEvent op t o s ref res facts)
              (DurableObject.markCompleted ⟨now, uuid⟩ t o s ref db) with
          | error e₀ =>
            rw [h, h'] at hi
            cases hi
            exact Prod.ext rfl (erase_of_ids hx)
          | ok r => rw [h, h'] at hi; cases hi
        | ok r' =>
          cases h : DurableObject.insertEvent ⟨now, uuid⟩ 0 (completionEvent op t o s ref res facts)
              (DurableObject.markCompleted ⟨now, uuid⟩ t o s ref db) with
          | error e => rw [h, h'] at hi; cases hi
          | ok r =>
            rw [h, h'] at hi
            have hr : r'.2.erase = r.2.erase := congrArg Prod.snd (Except.ok.inj hi)
            refine Prod.ext rfl ?_
            simp only [attempted, eraseBoth, pure, Except.pure]
            split
            · rw [appendTrace_erase, appendTrace_erase, hr]
            · exact hr
    | registerWait t k g w =>
      simp only [exec, durableObjectStore, DurableObject.registerWait, returned]
      rw [show waitSatisfied t w (db.graft x) = waitSatisfied t w db from rfl]
      cases waitSatisfied t w db with
      | true => exact Prod.ext rfl (erase_of_ids hx)
      | false =>
        refine Prod.ext rfl (congrArg db.graft (Ids.erase_eq.2 ⟨hev, ?_, ho⟩))
        simp only [Bool.false_eq_true, if_false, Db.ids, List.map_append]
        exact congrArg (· ++ _) hw
    | appendEvent e =>
      have h := insertEvent_through now uuid uuid' 0 e hx
      simp only [exec, durableObjectStore, DurableObject.appendEvent]
      revert h
      cases DurableObject.insertEvent ⟨now, uuid'⟩ 0 e (db.graft x) <;>
        cases DurableObject.insertEvent ⟨now, uuid⟩ 0 e db <;>
        simp [Except.map, eraseAppended, attempted, eraseBoth, Answer.erase, erase_of_ids hx]
    | pendingEvents t k c =>
      refine Prod.ext (congrArg Answer.events ?_) (erase_of_ids hx)
      exact records_erase (Table.orderBy_through (Table.select_through hev fun _ => rfl) fun _ => rfl)
    | taskEvents t k a b =>
      refine Prod.ext (congrArg Answer.events ?_) (erase_of_ids hx)
      exact records_erase (Table.orderBy_through (Table.select_through hev fun _ => rfl) fun _ => rfl)
    | eventsSince t g a n =>
      refine Prod.ext (congrArg Answer.events ?_) (erase_of_ids hx)
      exact records_erase (limitTo_through (Table.orderBy_through (Table.select_through hev fun _ => rfl)
        fun _ => rfl))
    | tasksWithPendingWork n =>
      refine Prod.ext (congrArg Answer.tasks ?_) (erase_of_ids hx)
      have hp : DurableObject.hasPendingWork (db.graft x) = DurableObject.hasPendingWork db :=
        funext (hasPendingWork_through hx)
      simp only [durableObjectStore, DurableObject.tasksWithPendingWork, hp]
      rfl
    | commitAdvance txn =>
      simp only [exec, durableObjectStore, DurableObject.commitAdvance, returned]
      rw [show (db.graft x).tasks = db.tasks from rfl]
      cases Table.one (taskKey txn.tenantId txn.taskId) db.tasks with
      | none => exact Prod.ext rfl (erase_of_ids hx)
      | some t =>
        dsimp only
        cases DurableObject.advanceRefusal txn t with
        | some refused => exact Prod.ext rfl (erase_of_ids hx)
        | none =>
          refine Prod.ext rfl (congrArg (DurableObject.advanceWrites ⟨now, uuid⟩ txn (t.checkpointVersion + 1)
            db).graft (Ids.erase_eq.2 ⟨hev, ?_, commanded_through _ _ ho⟩))
          have hd := Table.delete_through (p := fun r : WaitRow => r.tenantId == txn.tenantId &&
            r.taskId == txn.taskId && r.resolved) hw fun _ => rfl
          dsimp only [DurableObject.advanceWrites, Db.ids, Db.graft] at hd ⊢
          rw [List.map_append, List.map_append, hd, List.map_map, List.map_map]
          rfl
    | releaseIfNoWork t k f c =>
      have hu : DurableObject.unconsumed t k c (db.graft x) = DurableObject.unconsumed t k c db :=
        Table.changes_through (g := EventRow.erase) hev fun _ => rfl
      have hr : DurableObject.resolvedWaits t k (db.graft x) = DurableObject.resolvedWaits t k db :=
        Table.changes_through (g := WaitRow.erase) hw fun _ => rfl
      simp only [exec, durableObjectStore, DurableObject.releaseIfNoWork, returned, hu, hr]
      rw [show (db.graft x).leases = db.leases from rfl]
      generalize Option.any _ _ = fenced
      cases fenced
      · by_cases h₁ : 0 < DurableObject.unconsumed t k c db
        · simp only [h₁, if_true]; exact Prod.ext rfl (erase_of_ids hx)
        · by_cases h₂ : 0 < DurableObject.resolvedWaits t k db
          · simp only [h₁, h₂, if_true, if_false]; exact Prod.ext rfl (erase_of_ids hx)
          · simp only [h₁, h₂, if_false]
            refine Prod.ext rfl ?_
            let kept := { db with leases := Table.delete (fun r : LeaseRow => r.taskId == k && r.fencingToken == f) db.leases }
            exact @erase_of_ids kept x hx
      · exact Prod.ext rfl (erase_of_ids hx)
    | claimOutbox n t =>
      have hr : (DurableObject.claimable n t (db.graft x)).map OutboxRow.erase =
          (DurableObject.claimable n t db).map .erase :=
        limitTo_through (Table.orderBy_through (Table.select_through ho fun _ => rfl) fun _ => rfl)
      have hf : ∀ (S : Type) (f : OutboxRow → S) (hf : ∀ r, f r.erase = f r),
          (DurableObject.claimable n t (db.graft x)).map f = (DurableObject.claimable n t db).map f := by
        intro S f hf
        have h := congrArg (List.map f) hr
        simpa only [List.map_map, Function.comp_def, hf] using h
      refine Prod.ext (congrArg Answer.claims (hf _ _ fun _ => rfl)) ?_
      refine congrArg db.graft (Ids.erase_eq.2 ⟨hev, hw, ?_⟩)
      dsimp only [durableObjectStore, DurableObject.claimOutbox, returned, exec, Db.ids]
      rw [hf _ _ fun _ => rfl]
      exact claimed_through (fun r r' hr => congrArg (fun r : OutboxRow => { r with state := .claimed }) hr) _ ho
    | markDispatched c =>
      refine Prod.ext rfl (congrArg db.graft (Ids.erase_eq.2 ⟨hev, hw, ?_⟩))
      refine Table.update_through ho (fun _ => rfl) fun r r' hr => ?_
      exact congrArg (fun r : OutboxRow => { r with state := .dispatched }) hr
    | _ => cases hc

end Antiproton
