import Antiproton.Store.Frames
import Antiproton.Store.UpToIds

/-!
# Antiproton.Store.OneStore

`SqliteStore` and `DurableObjectStore` side by side. The tables never part, up to ids. The answers part
in three places, where the two implementations of one method were written differently: what an event
for another agent's task is refused with (`appendEvent`, and `completeOperation` through it), and how
many tasks `tasksWithPendingWork` lists when it is not told. `Call.Agrees` is that none is met.

* `exec_tables`: a call leaves the same tables in both.
* `exec_answers`: it answers the same in both exactly when it meets none of the three.
* `runs_agree_iff`: a sequence of calls answers the same and leaves the same tables exactly when no
  call of it does.
-/

namespace Antiproton

open StorageAdapter

/-- The methods the two stores implement differently. -/
def Call.drifts : Call → Bool
  | .completeOperation .. | .appendEvent .. | .tasksWithPendingWork .. | .claimOutbox .. => true
  | _ => false

/-- Operations keep their primary key. -/
def Db.OperationsKeyed (db : Db) : Prop := Table.Unique (·.operationId) db.operations

theorem startOperation_same {ctx : Ctx} {t o : String} {db : Db} (hk : db.OperationsKeyed) :
    Sqlite.startOperation ctx t o db = DurableObject.startOperation ctx t o db := by
  let claims := fun r : OperationRow => operationKey t o r && startable r.status
  have hstart : Table.one claims db.operations =
      (Table.one (operationKey t o) db.operations).filter fun r => startable r.status := by
    cases h : Table.one claims db.operations with
    | some r =>
      have hr := Table.one_some h
      obtain ⟨hkey, hs⟩ : operationKey t o r = true ∧ startable r.status = true := by
        simpa [claims] using hr
      have hone : Table.one (operationKey t o) db.operations = some r :=
        Table.one_of_mem hk (Table.one_mem h) hkey fun r' hr' => by
          simp only [operationKey, Bool.and_eq_true, beq_iff_eq] at hr' hkey
          rw [hr'.2, hkey.2]
      rw [hone, Option.filter_some, if_pos hs]
    | none =>
      cases ho : Table.one (operationKey t o) db.operations with
      | none => rfl
      | some r =>
        have hn := Table.one_eq_none.1 h r (Table.one_mem ho)
        simp only [claims, Table.one_some ho, Bool.true_and] at hn
        simp [Option.filter_some, hn]
  have hch : decide (0 < Table.changes claims db.operations) = (Table.one claims db.operations).isSome := by
    rw [Bool.eq_iff_iff, decide_eq_true_iff, Table.changes_pos]
  unfold Sqlite.startOperation DurableObject.startOperation
  dsimp only
  rw [show decide (0 < Table.changes (fun r => operationKey t o r && startable r.status) db.operations) = _
    from hch, hstart]
  cases ho : Table.one (operationKey t o) db.operations with
  | none =>
    have hnone : Table.one claims db.operations = none := by rw [hstart, ho]; rfl
    rw [Table.update_of_forall_not hnone]
    rfl
  | some r =>
    cases hs : startable r.status with
    | true => simp [Option.filter_some, hs]
    | false =>
      have hnone : Table.one claims db.operations = none := by rw [hstart, ho]; simp [hs]
      rw [Table.update_of_forall_not hnone]
      simp [Option.filter_some, hs]

theorem quotaRow_same : Sqlite.quotaRow = DurableObject.quotaRow := by
  funext t r db
  exact List.head?_filter.symm

theorem consumeQuota_same : Sqlite.consumeQuota = DurableObject.consumeQuota := by
  funext ctx t r n db
  unfold Sqlite.consumeQuota DurableObject.consumeQuota
  rw [quotaRow_same]
  dsimp only
  generalize Option.or (Option.bind _ QuotaRow.limitValue) _ = limit
  generalize (if Option.any _ _ = true then (0 : Int) else _) = used
  cases limit with
  | none => rfl
  | some l =>
    by_cases h : l < used + n
    · simp [h, not_le.2 h]
    · simp [h, not_lt.1 h]

theorem updateMount_same {t g a : String} {f : MountRecord → MountRecord}
    (hf : ∀ m, mountKey t g a (f m) = mountKey t g a m) :
    Sqlite.updateMount t g a f = DurableObject.updateMount t g a f := by
  funext db
  unfold Sqlite.updateMount DurableObject.updateMount
  dsimp only
  rw [Table.one_update_self hf, Option.isSome_map]
  refine Prod.ext ?_ rfl
  rw [Bool.eq_iff_iff, decide_eq_true_iff, Table.changes_pos]

theorem removeMount_same : Sqlite.removeMount = DurableObject.removeMount := by
  funext t g a s i db
  unfold Sqlite.removeMount DurableObject.removeMount
  dsimp only
  cases h : Table.one (removedMount t g a i) db.mounts with
  | none =>
    have hc : Table.changes (removedMount t g a i) db.mounts = 0 := by
      by_contra hc
      have := Table.changes_pos.1 (Nat.pos_of_ne_zero hc)
      rw [h] at this
      cases this
    rw [if_pos hc, Table.delete_of_forall_not h]
    rfl
  | some m =>
    have hc : Table.changes (removedMount t g a i) db.mounts ≠ 0 :=
      Nat.pos_iff_ne_zero.1 (Table.changes_pos.2 (by rw [h]; rfl))
    rw [if_neg hc]
    rfl

/-- Every other method is the same function in both stores. -/
theorem exec_same (ctx : Ctx) {c : Call} (hc : c.drifts = false) {db : Db} (hk : db.OperationsKeyed) :
    sqliteStore.exec ctx c db = durableObjectStore.exec ctx c db := by
  cases c with
  | startOperation t o => exact congrArg (returned .bool) (startOperation_same hk)
  | consumeQuota t r n =>
    exact congrArg (returned .consumed) (congrFun (congrFun (congrFun (congrFun (congrFun consumeQuota_same
      ctx) t) r) n) db)
  | updateMountToolSnapshot t g a s =>
    simp only [exec, sqliteStore, durableObjectStore, Sqlite.updateMountToolSnapshot, DurableObject.updateMountToolSnapshot]
    rw [updateMount_same]
    exact fun _ => rfl
  | updateMountPolicy t g a p =>
    simp only [exec, sqliteStore, durableObjectStore, Sqlite.updateMountPolicy, DurableObject.updateMountPolicy]
    rw [updateMount_same]
    exact fun _ => rfl
  | updateMountToolVersion t g a v =>
    simp only [exec, sqliteStore, durableObjectStore, Sqlite.updateMountToolVersion, DurableObject.updateMountToolVersion]
    rw [updateMount_same]
    exact fun _ => rfl
  | updateMountConfig t g a p =>
    simp only [exec, sqliteStore, durableObjectStore, Sqlite.updateMountConfig, DurableObject.updateMountConfig]
    rw [updateMount_same]
    exact fun _ => rfl
  | setMountSecretRef t g a r =>
    simp only [exec, sqliteStore, durableObjectStore, Sqlite.setMountSecretRef, DurableObject.setMountSecretRef]
    rw [updateMount_same]
    exact fun _ => rfl
  | removeMount t g a s i =>
    simp only [exec, sqliteStore, durableObjectStore, removeMount_same]
  | completeOperation | appendEvent | tasksWithPendingWork | claimOutbox => cases hc
  | _ => rfl

/-! ## The methods that part -/

theorem notOwned_ne (e : NewEvent) (t : TaskRow) : Sqlite.notOwned e t ≠ DurableObject.notOwned e t := by
  intro h
  have hm := congrArg (fun e : JsError => e.message.length) h
  have howner : (toString " (owner: ").length = 9 := by decide
  simp only [Sqlite.notOwned, DurableObject.notOwned, JsError.ofMessage, String.length_append] at hm
  omega

theorem insertEvent_same {ctx : Ctx} {n : Nat} {e : NewEvent} {db : Db} (h : foreignTask e db = none) :
    Sqlite.insertEvent ctx n e db = DurableObject.insertEvent ctx n e db := by
  unfold Sqlite.insertEvent DurableObject.insertEvent
  rw [h]
  rfl

/-- An event for another agent's task is refused by both, in different words. -/
theorem insertEvent_foreign (ctx : Ctx) (n : Nat) {e : NewEvent} {db : Db} {t : TaskRow}
    (h : foreignTask e db = some t) :
    Sqlite.insertEvent ctx n e db = .error (Sqlite.notOwned e t) ∧
      DurableObject.insertEvent ctx n e db = .error (DurableObject.notOwned e t) := by
  unfold Sqlite.insertEvent DurableObject.insertEvent
  rw [h]
  exact ⟨rfl, rfl⟩

/-- A call that meets none of the differences. -/
def Call.agrees (c : Call) (db : Db) : Bool :=
  match c with
  | .appendEvent e => (foreignTask e db).isNone
  | .completeOperation t o s ref res facts =>
    (Table.one (operationKey t o) db.operations).all fun op =>
      (foreignTask (completionEvent op t o s ref res facts) db).isNone
  | .tasksWithPendingWork none =>
    (Table.select (DurableObject.hasPendingWork db) db.tasks).length ≤ 25
  | _ => true

/-- The row a completion leaves has the task and the agent it had. -/
theorem completed_row (ctx : Ctx) (t o : String) (s : OperationStatus) (ref : Option String) (db : Db) :
    Table.one (operationKey t o) (DurableObject.markCompleted ctx t o s ref db).operations =
      (Table.one (operationKey t o) db.operations).map fun r =>
        { r with status := s, resultRef := ref, updatedAt := ctx.now } := by
  refine Table.one_update_self (q := operationKey t o) ?_ db.operations
  exact fun _ => rfl

theorem completeOperation_same {ctx : Ctx} {t o : String} {s : OperationStatus} {ref : Option String}
    {res : Option Json} {facts : CompletedFacts} {db : Db}
    (h : (Call.completeOperation t o s ref res facts).agrees db = true) :
    Sqlite.completeOperation ctx t o s ref res facts db =
      DurableObject.completeOperation ctx t o s ref res facts db := by
  unfold Sqlite.completeOperation DurableObject.completeOperation
  rw [show Sqlite.markCompleted = DurableObject.markCompleted from rfl]
  dsimp only
  rw [completed_row]
  cases hop : Table.one (operationKey t o) db.operations with
  | none => rfl
  | some op =>
    have hf : foreignTask (completionEvent op t o s ref res facts) db = none := by
      simpa [Call.agrees, hop] using h
    have hf' : foreignTask (completionEvent { op with status := s, resultRef := ref, updatedAt := ctx.now } t o s
        ref res facts) (DurableObject.markCompleted ctx t o s ref db) = none := hf
    simp only [Option.map_some, insertEvent_same hf']

example : (Call.completeOperation "t" "o" .succeeded none none CompletedFacts.none).agrees Db.empty = true := by decide +kernel

/-- A completion whose event is for another agent's task is refused by both, in different words. -/
theorem completeOperation_foreign (ctx : Ctx) {t o : String} {s : OperationStatus} {ref : Option String}
    {res : Option Json} {facts : CompletedFacts} {db : Db}
    (h : (Call.completeOperation t o s ref res facts).agrees db = false) :
    ∃ e k, Sqlite.completeOperation ctx t o s ref res facts db = .error (Sqlite.notOwned e k) ∧
      DurableObject.completeOperation ctx t o s ref res facts db = .error (DurableObject.notOwned e k) := by
  unfold Sqlite.completeOperation DurableObject.completeOperation
  rw [show Sqlite.markCompleted = DurableObject.markCompleted from rfl]
  dsimp only
  rw [completed_row]
  cases hop : Table.one (operationKey t o) db.operations with
  | none => simp [Call.agrees, hop] at h
  | some op =>
    obtain ⟨k, hk⟩ : ∃ k, foreignTask (completionEvent op t o s ref res facts) db = some k := by
      cases hf : foreignTask (completionEvent op t o s ref res facts) db with
      | none => simp [Call.agrees, hop, hf] at h
      | some k => exact ⟨k, rfl⟩
    have hk' : foreignTask (completionEvent { op with status := s, resultRef := ref, updatedAt := ctx.now } t o s
        ref res facts) (DurableObject.markCompleted ctx t o s ref db) = some k := hk
    obtain ⟨hs, hd⟩ := insertEvent_foreign ctx 0 hk'
    refine ⟨completionEvent op t o s ref res facts, k, ?_, ?_⟩
    · simp only [Option.map_some, hs]; rfl
    · simp only [Option.map_some, hd]; rfl

theorem tasksWithPendingWork_same {limit : Option Int} {db : Db} :
    Sqlite.tasksWithPendingWork limit db = DurableObject.tasksWithPendingWork limit db ↔
      (Call.tasksWithPendingWork limit).agrees db = true := by
  cases limit with
  | some n => exact iff_of_true rfl rfl
  | none =>
    have hp : Sqlite.hasPendingWork = DurableObject.hasPendingWork := rfl
    simp only [Sqlite.tasksWithPendingWork, DurableObject.tasksWithPendingWork, hp, Call.agrees, limitTo,
      Option.getD_none, decide_eq_true_iff]
    generalize hw : Table.select (DurableObject.hasPendingWork db) db.tasks = rows
    constructor
    · intro h
      have hl := congrArg List.length h
      simp at hl
      omega
    · intro h
      simp [List.take_of_length_le (l := rows.map _) (i := 50) (by simp; omega),
        List.take_of_length_le (l := rows.map _) (i := 25) (by simpa using h)]

theorem claimOutbox_erase (ctx : Ctx) (n : Int) (t : Option String) (db : Db) :
    eraseBoth (sqliteStore.exec ctx (.claimOutbox n t) db) =
      eraseBoth (durableObjectStore.exec ctx (.claimOutbox n t) db) := by
  refine Prod.ext rfl (congrArg db.graft (Ids.erase_eq.2 ⟨rfl, rfl, ?_⟩))
  exact claimed_through (fun r r' hr => congrArg (fun r : OutboxRow => { r with state := .claimed }) hr) _ rfl

/-! ## One call -/

/-- On one database, with the same ids drawn, both stores leave the same tables. -/
theorem exec_tables (ctx : Ctx) (c : Call) {db : Db} (hk : db.OperationsKeyed) :
    (sqliteStore.exec ctx c db).2.erase = (durableObjectStore.exec ctx c db).2.erase := by
  cases hc : c.drifts with
  | false => rw [exec_same ctx hc hk]
  | true =>
    cases c with
    | appendEvent e =>
      simp only [exec, sqliteStore, durableObjectStore, Sqlite.appendEvent, DurableObject.appendEvent]
      cases hf : foreignTask e db with
      | none => rw [insertEvent_same hf]
      | some t => rw [(insertEvent_foreign _ _ hf).1, (insertEvent_foreign _ _ hf).2]; rfl
    | completeOperation t o s ref res facts =>
      simp only [exec, sqliteStore, durableObjectStore]
      cases hf : (Call.completeOperation t o s ref res facts).agrees db with
      | true => rw [completeOperation_same hf]
      | false =>
        obtain ⟨e, k, hs, hd⟩ := completeOperation_foreign ctx hf
        rw [hs, hd]
        rfl
    | tasksWithPendingWork n => rfl
    | claimOutbox n t => exact congrArg Prod.snd (claimOutbox_erase ctx n t db)
    | _ => cases hc

/-- They answer the same exactly when the call meets none of the differences. -/
theorem exec_answers (ctx : Ctx) (c : Call) {db : Db} (hk : db.OperationsKeyed) :
    (sqliteStore.exec ctx c db).1.erase = (durableObjectStore.exec ctx c db).1.erase ↔
      c.agrees db = true := by
  cases hc : c.drifts with
  | false =>
    rw [exec_same ctx hc hk]
    refine iff_of_true rfl ?_
    cases c <;> first | rfl | cases hc
  | true =>
    cases c with
    | appendEvent e =>
      simp only [exec, sqliteStore, durableObjectStore, Sqlite.appendEvent, DurableObject.appendEvent]
      cases hf : foreignTask e db with
      | none => rw [insertEvent_same hf]; simp [Call.agrees, hf]
      | some t =>
        rw [(insertEvent_foreign _ _ hf).1, (insertEvent_foreign _ _ hf).2]
        refine iff_of_false (fun h => ?_) (by simp [Call.agrees, hf])
        exact notOwned_ne e t (Answer.thrown.inj h)
    | completeOperation t o s ref res facts =>
      simp only [exec, sqliteStore, durableObjectStore]
      cases hf : (Call.completeOperation t o s ref res facts).agrees db with
      | true => rw [completeOperation_same hf]; simp
      | false =>
        obtain ⟨e, k, hs, hd⟩ := completeOperation_foreign ctx hf
        rw [hs, hd]
        exact iff_of_false (fun h => notOwned_ne e k (Answer.thrown.inj h)) (by simp)
    | tasksWithPendingWork n =>
      rw [← tasksWithPendingWork_same]
      exact ⟨Answer.tasks.inj, congrArg Answer.tasks⟩
    | claimOutbox n t =>
      have h := congrArg Prod.fst (claimOutbox_erase ctx n t db)
      exact iff_of_true h rfl
    | _ => cases hc

/-- The methods that write a row of `operations`. -/
def Call.writesOperations : Call → Bool
  | .recordOperation .. | .startOperation .. | .completeOperation .. => true
  | _ => false

theorem exec_operations (ctx : Ctx) {c : Call} (hc : c.writesOperations = false) (db : Db) :
    (durableObjectStore.exec ctx c db).2.operations = db.operations := by
  cases c with
  | recordOperation | startOperation | completeOperation => cases hc
  | interrupt t k =>
    simp only [exec, durableObjectStore, DurableObject.interrupt]
    split <;> rfl
  | holdApproval a same => exact DurableObject.holdApproval_operations ..
  | decideApproval t o d who b n => exact DurableObject.decideApproval_operations ..
  | claimApprovalRun t o at_ => exact DurableObject.claimApprovalRun_operations ..
  | finishApproval t o s m n => exact DurableObject.finishApproval_operations ..
  | recordApprovalDelivery t o r => exact DurableObject.recordApprovalDelivery_operations ..
  | appendEvent e =>
    simp only [exec, durableObjectStore, DurableObject.appendEvent]
    cases h : DurableObject.insertEvent ctx 0 e db with
    | error e => rfl
    | ok r => exact DurableObject.insertEvent_operations h
  | registerWait t k g w =>
    simp only [exec, durableObjectStore, DurableObject.registerWait]
    split <;> rfl
  | acquireLease t k h ttl =>
    simp only [exec, durableObjectStore, DurableObject.acquireLease]
    split <;> rfl
  | commitAdvance txn =>
    simp only [exec, durableObjectStore, DurableObject.commitAdvance]
    (repeat' split) <;> rfl
  | releaseIfNoWork t k f c =>
    simp only [exec, durableObjectStore, DurableObject.releaseIfNoWork]
    (repeat' split) <;> rfl
  | appendState t g k text max full total =>
    simp only [exec, durableObjectStore, DurableObject.appendState, bind, Except.bind]
    (repeat' split) <;> first | rfl | exact DurableObject.writeDocument_operations ‹_›
  | reviseState t g k old next max total =>
    simp only [exec, durableObjectStore, DurableObject.reviseState, bind, Except.bind]
    (repeat' split) <;> first | rfl | exact DurableObject.writeDocument_operations ‹_›
  | insertState t g k after text max total =>
    simp only [exec, durableObjectStore, DurableObject.insertState, bind, Except.bind]
    (repeat' split) <;> first | rfl | exact DurableObject.writeDocument_operations ‹_›
  | addMount m =>
    simp only [exec, durableObjectStore, DurableObject.addMount]
    (repeat' split) <;> rfl
  | setPluginChoice t g p c =>
    simp only [exec, durableObjectStore, DurableObject.setPluginChoice]
    split <;> rfl
  | renameMount t g a b r => exact DurableObject.renameMount_operations ..
  | removeMount t g a s i =>
    simp only [exec, durableObjectStore, DurableObject.removeMount]
    (repeat' split) <;> rfl
  | _ => rfl

/-- No call breaks the primary key of the operations. -/
theorem exec_keyed (ctx : Ctx) (c : Call) {db : Db} (hk : db.OperationsKeyed) :
    (durableObjectStore.exec ctx c db).2.OperationsKeyed := by
  cases hc : c.writesOperations with
  | false => rw [Db.OperationsKeyed, exec_operations ctx hc]; exact hk
  | true =>
    cases c with
    | recordOperation op =>
      refine Table.unique_insertOrIgnore hk fun r hr => ?_
      exact beq_iff_eq.2 hr
    | startOperation t o =>
      simp only [exec, durableObjectStore, DurableObject.startOperation]
      split
      · exact hk
      · split
        · exact Table.unique_update hk fun _ => rfl
        · exact hk
    | completeOperation t o s ref res facts =>
      have hm : (DurableObject.markCompleted ctx t o s ref db).OperationsKeyed :=
        Table.unique_update hk fun _ => rfl
      simp only [exec, durableObjectStore, DurableObject.completeOperation, bind, Except.bind]
      cases Table.one (operationKey t o) (DurableObject.markCompleted ctx t o s ref db).operations with
      | none => exact hm
      | some op =>
        dsimp only
        cases h : DurableObject.insertEvent ctx 0 (completionEvent op t o s ref res facts)
            (DurableObject.markCompleted ctx t o s ref db) with
        | error e => exact hk
        | ok r =>
          have hr : r.2.OperationsKeyed := by
            rw [Db.OperationsKeyed, DurableObject.insertEvent_operations h]
            exact hm
          simp only [attempted, pure, Except.pure]
          split
          · rw [Db.OperationsKeyed, appendTrace_operations]
            exact hr
          · exact hr
    | _ => cases hc

/-! ## Runs -/

/-- One call made of both stores: at the same time, each drawing its own ids. -/
structure Step where
  call : Call
  now : Int
  sqliteIds : Nat → String
  durableIds : Nat → String

def Step.onSqlite (s : Step) : Ctx × Call := (⟨s.now, s.sqliteIds⟩, s.call)
def Step.onDurable (s : Step) : Ctx × Call := (⟨s.now, s.durableIds⟩, s.call)

/-- The answers of a run and the tables it leaves, as they are compared. -/
def eraseRun (r : List Answer × Db) : List Answer × Db := (r.1.map .erase, r.2.erase)

/-- No call of a run meets one of the differences. -/
def agreeing : List Step → Db → Bool
  | [], _ => true
  | s :: rest, db => s.call.agrees db && agreeing rest (durableObjectStore.exec ⟨s.now, s.durableIds⟩ s.call db).2

theorem agrees_through {c : Call} {db : Db} {x : Ids} (hx : x.erase = db.ids.erase) :
    c.agrees (db.graft x) = c.agrees db := by
  cases c with
  | tasksWithPendingWork n =>
    have hp : DurableObject.hasPendingWork (db.graft x) = DurableObject.hasPendingWork db :=
      funext (hasPendingWork_through hx)
    cases n with
    | some n => rfl
    | none => simp only [Call.agrees, hp]; rfl
  | _ => rfl

/-- One call of both stores, on databases equal up to ids. -/
theorem step_tables (s : Step) {db db' : Db} (h : db'.erase = db.erase) (hk : db.OperationsKeyed) :
    (sqliteStore.exec ⟨s.now, s.sqliteIds⟩ s.call db').2.erase =
      (durableObjectStore.exec ⟨s.now, s.durableIds⟩ s.call db).2.erase := by
  obtain ⟨x, rfl, hx⟩ := Db.exists_graft h
  have hk' : (db.graft x).OperationsKeyed := hk
  rw [exec_tables _ _ hk']
  exact congrArg (fun r : Answer × Db => r.2) (exec_through s.now s.durableIds s.sqliteIds hx s.call)

theorem step_answers (s : Step) {db db' : Db} (h : db'.erase = db.erase) (hk : db.OperationsKeyed) :
    (sqliteStore.exec ⟨s.now, s.sqliteIds⟩ s.call db').1.erase =
      (durableObjectStore.exec ⟨s.now, s.durableIds⟩ s.call db).1.erase ↔ s.call.agrees db = true := by
  obtain ⟨x, rfl, hx⟩ := Db.exists_graft h
  have hk' : (db.graft x).OperationsKeyed := hk
  rw [← agrees_through hx, ← exec_answers ⟨s.now, s.sqliteIds⟩ s.call hk']
  rw [show (durableObjectStore.exec ⟨s.now, s.sqliteIds⟩ s.call (db.graft x)).1.erase =
    (durableObjectStore.exec ⟨s.now, s.durableIds⟩ s.call db).1.erase from
      congrArg (fun r : Answer × Db => r.1) (exec_through _ _ _ hx s.call)]

/-- The tables never part. -/
theorem runs_tables (steps : List Step) {db db' : Db} (h : db'.erase = db.erase) (hk : db.OperationsKeyed) :
    (sqliteStore.run (steps.map Step.onSqlite) db').2.erase =
      (durableObjectStore.run (steps.map Step.onDurable) db).2.erase := by
  induction steps generalizing db db' with
  | nil => exact h
  | cons s rest ih => exact ih (step_tables s h hk) (exec_keyed _ _ hk)

/-- A run answers the same in both stores, and leaves the same tables, exactly when no call of it meets
one of the differences. -/
theorem runs_agree_iff (steps : List Step) {db db' : Db} (h : db'.erase = db.erase)
    (hk : db.OperationsKeyed) :
    eraseRun (sqliteStore.run (steps.map Step.onSqlite) db') =
        eraseRun (durableObjectStore.run (steps.map Step.onDurable) db) ↔ agreeing steps db = true := by
  have ht := runs_tables steps h hk
  have ha : (sqliteStore.run (steps.map Step.onSqlite) db').1.map Answer.erase =
      (durableObjectStore.run (steps.map Step.onDurable) db).1.map Answer.erase ↔ agreeing steps db = true := by
    clear ht
    induction steps generalizing db db' with
    | nil => exact iff_of_true rfl rfl
    | cons s rest ih =>
      have ih := ih (step_tables s h hk) (exec_keyed _ _ hk)
      rw [agreeing, Bool.and_eq_true, ← step_answers s h hk, ← ih]
      simp only [List.map_cons, run, Step.onSqlite, Step.onDurable, List.cons.injEq]
  rw [← ha]
  exact ⟨fun h => congrArg Prod.fst h, fun h => Prod.ext h ht⟩

/-- A database with one task, of the agent `owner`. -/
def ownedTask : Db :=
  { Db.empty with tasks := [⟨"t", "k", "owner", .runnable, 0, 0, 0, .null, 0, 0⟩] }

/-- An event for that task, appended as another agent. -/
def foreignEvent : Step where
  call := .appendEvent ⟨"t", "other", some "k", none, "message", .null, none⟩
  now := 0
  sqliteIds := fun _ => ""
  durableIds := fun _ => ""

theorem runs_agree_iff_foreignEvent :
    eraseRun (sqliteStore.run ([foreignEvent].map Step.onSqlite) ownedTask) =
        eraseRun (durableObjectStore.run ([foreignEvent].map Step.onDurable) ownedTask) ↔
      agreeing [foreignEvent] ownedTask = true :=
  runs_agree_iff [foreignEvent] rfl Table.unique_nil

/-- The refusal names the owner in one store only. -/
theorem runs_part :
    eraseRun (sqliteStore.run ([foreignEvent].map Step.onSqlite) ownedTask) ≠
      eraseRun (durableObjectStore.run ([foreignEvent].map Step.onDurable) ownedTask) := by
  decide

end Antiproton
