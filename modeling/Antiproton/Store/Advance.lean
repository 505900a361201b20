import Antiproton.Lib.History
import Antiproton.Store.OneStore

/-!
# Antiproton.Store.Advance

Commits of a task under leases, generations and versions, over every interleaving of a store's calls. Each method is
one transaction, so an interleaving of any number of holders is a sequence of calls, and the time of each is its own.

* `exec_progress`: only a commit and an interrupt write a task; only a commit moves a cursor or adds a command.
* `commit_cases`: a commit is refused and changes nothing, or lands on the version, generation and token it found.
* `commits_fenced_iff`: versions, generations, cursors, commands and releases in every history, and exactly when
  no commit lands under a token older than one granted.
-/

namespace Antiproton

open History StorageAdapter

/-- The two stores. -/
inductive StoreKind where
  | sqlite | durableObject
deriving DecidableEq, Repr

def StoreKind.adapter : StoreKind → StorageAdapter
  | sqlite => sqliteStore
  | durableObject => durableObjectStore

/-- One call at its time. -/
def StoreKind.exec (k : StoreKind) (c : Ctx × Call) (db : Db) : Answer × Db := k.adapter.exec c.1 c.2 db

/-! ## The tables a task's progress is kept in -/

/-- The tasks, the cursors, and the ids of the commands. -/
def Db.progress (db : Db) : List TaskRow × List CursorRow × List String :=
  (db.tasks, db.cursors, db.outbox.map (·.commandId))

/-- The methods that write them. -/
def Call.advances : Call → Bool
  | .commitAdvance .. | .interrupt .. => true
  | _ => false

section Quiet

variable {ctx : Ctx} {db : Db}

theorem update_commandIds {q : OutboxRow → Bool} (f : OutboxRow → OutboxRow)
    (hf : ∀ r, (f r).commandId = r.commandId) (rows : List OutboxRow) :
    (Table.update q f rows).map (·.commandId) = rows.map (·.commandId) := by
  unfold Table.update
  rw [List.map_map]
  refine List.map_congr_left fun r _ => ?_
  simp only [Function.comp]
  split
  · exact hf r
  · rfl

theorem claim_commandIds (f : OutboxRow → OutboxRow) (hf : ∀ r, (f r).commandId = r.commandId) (ids : List String)
    (rows : List OutboxRow) :
    (ids.foldl (fun t id => Table.update (fun r : OutboxRow => r.commandId == id) f t) rows).map (·.commandId) =
      rows.map (·.commandId) := by
  induction ids generalizing rows with
  | nil => rfl
  | cons id ids ih => rw [List.foldl_cons, ih, update_commandIds f hf]

@[simp] theorem appendTrace_progress (row : TraceRow) : (appendTrace row db).progress = db.progress := by
  unfold appendTrace
  split <;> rfl

theorem insertEvent_progress {n : Nat} {e : NewEvent} {r : Appended × Db}
    (h : DurableObject.insertEvent ctx n e db = .ok r) : r.2.progress = db.progress := by
  obtain ⟨events, counters, hr⟩ := DurableObject.insertEvent_writes h
  rw [hr]
  rfl

theorem insertEvent_ok {n : Nat} {e : NewEvent} {r : Appended × Db} (h : Sqlite.insertEvent ctx n e db = .ok r) :
    DurableObject.insertEvent ctx n e db = .ok r := by
  cases hf : foreignTask e db with
  | none => rw [← insertEvent_same hf, h]
  | some t =>
    rw [(insertEvent_foreign ctx n hf).1] at h
    cases h

theorem writeDocument_progress {t g k : String} {kept : Str} {total : Option Nat} {r : Written × Db}
    (h : DurableObject.writeDocument ctx t g k kept total db = .ok r) : r.2.progress = db.progress := by
  unfold DurableObject.writeDocument at h
  dsimp only at h
  split at h
  · cases h
  · cases h
    rfl

theorem renameMount_progress (t g a b : String) (r : Option String) :
    (DurableObject.renameMount t g a b r db).2.progress = db.progress := by
  unfold DurableObject.renameMount
  split
  · rfl
  · cases DurableObject.renameRefusal t g a b r db with
    | some e => rfl
    | none =>
      unfold DurableObject.renameWrites
      cases hr : pluginDbRename t g a b (DurableObject.moveMount t g a b db) with
      | error e => rfl
      | ok db' =>
        have h : db'.progress = db.progress := by
          unfold pluginDbRename at hr
          split at hr
          · cases hr
          · split at hr
            · cases hr
            · cases hr
              rfl
        cases r <;> exact h

theorem completeOperation_progress {t o : String} {s : OperationStatus} {ref : Option String} {res : Option Json}
    {facts : CompletedFacts} {r : Unit × Db}
    (h : DurableObject.completeOperation ctx t o s ref res facts db = .ok r) : r.2.progress = db.progress := by
  unfold DurableObject.completeOperation at h
  dsimp only at h
  split at h
  · cases h
    rfl
  · rename_i op _
    cases he : DurableObject.insertEvent ctx 0 (completionEvent op t o s ref res facts)
        (DurableObject.markCompleted ctx t o s ref db) with
    | error e =>
      rw [he] at h
      cases h
    | ok a =>
      rw [he] at h
      have hw := insertEvent_progress he
      cases h
      dsimp only
      split
      · rw [appendTrace_progress, hw]
        rfl
      · exact hw

/-- Only a commit and an interrupt write a task, a cursor or a command's id. -/
theorem durableObject_progress (ctx : Ctx) {c : Call} (hc : c.advances = false) :
    (durableObjectStore.exec ctx c db).2.progress = db.progress := by
  cases c with
  | interrupt | commitAdvance => cases hc
  | completeOperation t o s ref res facts =>
    simp only [StorageAdapter.exec, durableObjectStore]
    cases h : DurableObject.completeOperation ctx t o s ref res facts db with
    | error e => rfl
    | ok r => exact completeOperation_progress h
  | appendEvent e =>
    simp only [StorageAdapter.exec, durableObjectStore, DurableObject.appendEvent]
    cases h : DurableObject.insertEvent ctx 0 e db with
    | error e => rfl
    | ok r => exact insertEvent_progress h
  | appendState t g k text max full total =>
    simp only [StorageAdapter.exec, durableObjectStore, DurableObject.appendState, bind, Except.bind]
    (repeat' split) <;> first | rfl | exact writeDocument_progress ‹_›
  | reviseState t g k old next max total =>
    simp only [StorageAdapter.exec, durableObjectStore, DurableObject.reviseState, bind, Except.bind]
    (repeat' split) <;> first | rfl | exact writeDocument_progress ‹_›
  | insertState t g k after text max total =>
    simp only [StorageAdapter.exec, durableObjectStore, DurableObject.insertState, bind, Except.bind]
    (repeat' split) <;> first | rfl | exact writeDocument_progress ‹_›
  | claimOutbox n t =>
    refine Prod.ext rfl (Prod.ext rfl ?_)
    exact claim_commandIds (fun r => { r with state := .claimed, dispatchedAt := some ctx.now }) (fun _ => rfl) _ _
  | markDispatched c =>
    refine Prod.ext rfl (Prod.ext rfl ?_)
    exact update_commandIds (fun r => { r with state := .dispatched, dispatchedAt := some ctx.now }) (fun _ => rfl) _
  | renameMount t g a b r => exact renameMount_progress t g a b r
  | acquireLease t k h ttl =>
    simp only [StorageAdapter.exec, durableObjectStore, DurableObject.acquireLease]
    split <;> rfl
  | releaseIfNoWork t k f c =>
    simp only [StorageAdapter.exec, durableObjectStore, DurableObject.releaseIfNoWork]
    (repeat' split) <;> rfl
  | registerWait t k g w =>
    simp only [StorageAdapter.exec, durableObjectStore, DurableObject.registerWait]
    split <;> rfl
  | startOperation t o =>
    simp only [StorageAdapter.exec, durableObjectStore, DurableObject.startOperation]
    (repeat' split) <;> rfl
  | holdApproval a same =>
    simp only [StorageAdapter.exec, durableObjectStore, DurableObject.holdApproval]
    split <;> rfl
  | decideApproval t o d who b n =>
    simp only [StorageAdapter.exec, durableObjectStore, DurableObject.decideApproval]
    (repeat' split) <;> first | rfl | exact appendTrace_progress _
  | claimApprovalRun t o at_ =>
    simp only [StorageAdapter.exec, durableObjectStore, DurableObject.claimApprovalRun]
    (repeat' split) <;> rfl
  | finishApproval t o s m n =>
    simp only [StorageAdapter.exec, durableObjectStore, DurableObject.finishApproval]
    (repeat' split) <;> rfl
  | recordApprovalDelivery t o r =>
    simp only [StorageAdapter.exec, durableObjectStore, DurableObject.recordApprovalDelivery]
    (repeat' split) <;> rfl
  | addMount m =>
    simp only [StorageAdapter.exec, durableObjectStore, DurableObject.addMount]
    (repeat' split) <;> rfl
  | setPluginChoice t g p c =>
    simp only [StorageAdapter.exec, durableObjectStore, DurableObject.setPluginChoice]
    split <;> rfl
  | removeMount t g a s i =>
    simp only [StorageAdapter.exec, durableObjectStore, DurableObject.removeMount]
    (repeat' split) <;> rfl
  | _ => rfl

/-- The same of the other store. -/
theorem sqlite_progress {c : Call} (hc : c.advances = false) :
    (sqliteStore.exec ctx c db).2.progress = db.progress := by
  cases c with
  | interrupt | commitAdvance => cases hc
  | completeOperation t o s ref res facts =>
    simp only [StorageAdapter.exec, sqliteStore]
    cases h : Sqlite.completeOperation ctx t o s ref res facts db with
    | error e => rfl
    | ok r =>
      cases ha : (Call.completeOperation t o s ref res facts).agrees db with
      | true => exact completeOperation_progress ((completeOperation_same ha).symm.trans h)
      | false =>
        obtain ⟨e, k, hs, _⟩ := completeOperation_foreign ctx ha
        rw [hs] at h
        cases h
  | appendEvent e =>
    simp only [StorageAdapter.exec, sqliteStore, Sqlite.appendEvent]
    cases h : Sqlite.insertEvent ctx 0 e db with
    | error e => rfl
    | ok r => exact insertEvent_progress (insertEvent_ok h)
  | claimOutbox n t =>
    refine Prod.ext rfl (Prod.ext rfl ?_)
    exact claim_commandIds (fun r => { r with state := .claimed }) (fun _ => rfl) _ _
  | consumeQuota t r n =>
    simp only [StorageAdapter.exec, sqliteStore, consumeQuota_same]
    rfl
  | removeMount t g a s i =>
    simp only [StorageAdapter.exec, sqliteStore, removeMount_same]
    exact durableObject_progress ctx (c := .removeMount t g a s i) rfl
  | startOperation => rfl
  | updateMountToolSnapshot => rfl
  | updateMountPolicy => rfl
  | updateMountToolVersion => rfl
  | updateMountConfig => rfl
  | setMountSecretRef => rfl
  | _ => exact durableObject_progress ctx hc

end Quiet

theorem exec_progress (k : StoreKind) {c : Ctx × Call} {db : Db} (hc : c.2.advances = false) :
    (k.exec c db).2.progress = db.progress := by
  cases k with
  | sqlite => exact sqlite_progress hc
  | durableObject => exact durableObject_progress c.1 hc

/-! ## What a turn does to a task -/

/-- A task's row. -/
def taskAt (tenantId taskId : String) (db : Db) : Option TaskRow := Table.one (taskKey tenantId taskId) db.tasks

/-- The version of a task's checkpoint. -/
def versionOf (tenantId taskId : String) (db : Db) : Nat :=
  ((taskAt tenantId taskId db).map (·.checkpointVersion)).getD 0

/-- How far a consumer has read a task's events. -/
def cursorAt (tenantId taskId consumer : String) (db : Db) : Nat :=
  ((Table.one (cursorKey tenantId taskId consumer) db.cursors).map (·.consumedThrough)).getD 0

abbrev StoreTurn := Turn Db (Ctx × Call) Answer

section TurnOf

variable (t k : String) (x : StoreTurn)

/-- The token of the lease a turn granted for a task. -/
def grantedToken : Option Nat :=
  match x.act.2, x.answer with
  | .acquireLease t' k' _ _, .lease (some l) => if t' = t ∧ k' = k then some l.fencingToken else none
  | _, _ => none

/-- The commit a turn tried for a task. -/
def triedCommit : Option AdvanceTxn :=
  match x.act.2 with
  | .commitAdvance txn => if txn.tenantId = t ∧ txn.taskId = k then some txn else none
  | _ => none

/-- The version a turn's commit of a task landed at. -/
def landedVersion : Option Nat :=
  match triedCommit t k x, x.answer with
  | some _, .commit (.ok v) => some v
  | _, _ => none

/-- The generation a turn's interrupt moved a task to. -/
def interruptedTo : Option Nat :=
  match x.act.2, x.answer with
  | .interrupt t' k', .nat g => if t' = t ∧ k' = k then some g else none
  | _, _ => none

/-- The ids of the commands a turn put in the outbox. -/
def enteredCommands : List String := (x.after.outbox.drop x.before.outbox.length).map (·.commandId)

/-- Whether a turn let a task's lease go. -/
def letGo (consumer : String) : Bool :=
  match x.act.2, x.answer with
  | .releaseIfNoWork t' k' _ c, .release .released => t' == t && k' == k && c == consumer
  | _, _ => false

end TurnOf

section Exec

variable {kind : StoreKind} {ctx : Ctx} {db : Db}

/-- A commit is refused and changes nothing, or lands on the version, generation and token it found. -/
theorem commit_cases (kind : StoreKind) (ctx : Ctx) (txn : AdvanceTxn) (db : Db) :
    (∃ r, (∀ v, r ≠ .ok v) ∧ kind.exec (ctx, .commitAdvance txn) db = (.commit r, db) ∧
      ∀ row, taskAt txn.tenantId txn.taskId db = some row → txn.fencingToken < row.fencingToken ∨
        txn.generation ≠ row.generation ∨ txn.expectedCheckpointVersion ≠ row.checkpointVersion) ∨
    ∃ row, taskAt txn.tenantId txn.taskId db = some row ∧ ¬txn.fencingToken < row.fencingToken ∧
      txn.generation = row.generation ∧ txn.expectedCheckpointVersion = row.checkpointVersion ∧
      kind.exec (ctx, .commitAdvance txn) db = (.commit (.ok (row.checkpointVersion + 1)),
        DurableObject.advanceWrites ctx txn (row.checkpointVersion + 1) db) := by
  have hsame : kind.exec (ctx, .commitAdvance txn) db =
      returned .commit (DurableObject.commitAdvance ctx txn db) := by cases kind <;> rfl
  rw [hsame]
  unfold DurableObject.commitAdvance taskAt
  cases htask : Table.one (taskKey txn.tenantId txn.taskId) db.tasks with
  | none => exact .inl ⟨.noTask, nofun, rfl, nofun⟩
  | some row =>
    dsimp only
    unfold DurableObject.advanceRefusal
    by_cases hf : txn.fencingToken < row.fencingToken
    · rw [if_pos hf]
      exact .inl ⟨.fenced, nofun, rfl, fun r hr => by cases hr; exact .inl hf⟩
    · rw [if_neg hf]
      by_cases hg : txn.generation ≠ row.generation
      · rw [if_pos hg]
        exact .inl ⟨.staleGeneration, nofun, rfl, fun r hr => by cases hr; exact .inr (.inl hg)⟩
      · rw [if_neg hg]
        by_cases hv : txn.expectedCheckpointVersion ≠ row.checkpointVersion
        · rw [if_pos hv]
          exact .inl ⟨.versionConflict, nofun, rfl, fun r hr => by cases hr; exact .inr (.inr hv)⟩
        · rw [if_neg hv]
          exact .inr ⟨row, rfl, hf, not_not.1 hg, not_not.1 hv, rfl⟩

/-- An interrupt of a missing task throws; one of a task moves it to its next generation. -/
theorem interrupt_cases (kind : StoreKind) (ctx : Ctx) (t k : String) (db : Db) :
    (taskAt t k db = none ∧ ∃ e, kind.exec (ctx, .interrupt t k) db = (.thrown e, db)) ∨
    ∃ row, taskAt t k db = some row ∧ kind.exec (ctx, .interrupt t k) db = (.nat (row.generation + 1),
      { db with tasks := Table.update (taskKey t k)
                  (fun r => { r with generation := r.generation + 1, status := .interrupted, updatedAt := ctx.now })
                  db.tasks }) := by
  have hsame : kind.exec (ctx, .interrupt t k) db = attempted .nat db (DurableObject.interrupt ctx t k db) := by
    cases kind <;> rfl
  rw [hsame]
  let f := fun r : TaskRow =>
    { r with generation := r.generation + 1, status := TaskStatus.interrupted, updatedAt := ctx.now }
  have hf : ∀ r, taskKey t k (f r) = taskKey t k r := fun _ => rfl
  have hone := Table.one_update_self hf db.tasks
  unfold DurableObject.interrupt taskAt
  dsimp only
  rw [show Table.one (taskKey t k) (Table.update (taskKey t k) (fun r => { r with
    generation := r.generation + 1, status := .interrupted, updatedAt := ctx.now }) db.tasks) = _ from hone]
  cases Table.one (taskKey t k) db.tasks with
  | none => exact .inl ⟨rfl, _, rfl⟩
  | some row => exact .inr ⟨row, rfl, rfl⟩

/-- What a turn does to a task: nothing, a commit landed on it, or an interrupt. -/
inductive TaskTurn (t k : String) (x : StoreTurn) : Prop where
  | still (kept : taskAt t k x.after = taskAt t k x.before) (landed : landedVersion t k x = none)
      (interrupted : interruptedTo t k x = none)
  | landed (row row' : TaskRow) (before : taskAt t k x.before = some row) (after : taskAt t k x.after = some row')
      (landed : landedVersion t k x = some (row.checkpointVersion + 1))
      (version : row'.checkpointVersion = row.checkpointVersion + 1) (generation : row'.generation = row.generation)
      (interrupted : interruptedTo t k x = none)
  | interrupted (row row' : TaskRow) (before : taskAt t k x.before = some row)
      (after : taskAt t k x.after = some row') (landed : landedVersion t k x = none)
      (version : row'.checkpointVersion = row.checkpointVersion) (generation : row'.generation = row.generation + 1)
      (interrupted : interruptedTo t k x = some (row.generation + 1))

theorem taskKey_other {t k t' k' : String} (h : ¬(t' = t ∧ k' = k)) {r : TaskRow} (hr : taskKey t k r = true) :
    taskKey t' k' r = false := by
  simp only [taskKey, Bool.and_eq_true, beq_iff_eq] at hr
  rw [Bool.eq_false_iff]
  intro hr'
  simp only [taskKey, Bool.and_eq_true, beq_iff_eq] at hr'
  exact h ⟨hr'.1.symm.trans hr.1, hr'.2.symm.trans hr.2⟩

/-- A write of one task's row leaves the others. -/
theorem taskAt_write (t k t' k' : String) {f : TaskRow → TaskRow} (hf : ∀ r, (f r).tenantId = r.tenantId ∧
    (f r).taskId = r.taskId) (db : Db) :
    Table.one (taskKey t k) (Table.update (taskKey t' k') f db.tasks) =
      if t' = t ∧ k' = k then (taskAt t k db).map f else taskAt t k db := by
  have hkey : ∀ r, taskKey t k (f r) = taskKey t k r := fun r => by simp only [taskKey, hf]
  split
  · rename_i he
    obtain ⟨rfl, rfl⟩ := he
    exact Table.one_update_self hkey _
  · rename_i he
    exact Table.one_update_other hkey (fun r hr => taskKey_other he hr) _

theorem task_turn (kind : StoreKind) (t k : String) (c : Ctx × Call) (db : Db) :
    TaskTurn t k (turn kind.exec c db) := by
  obtain ⟨ctx, c⟩ := c
  cases hc : c.advances with
  | false =>
    have htasks : (kind.exec (ctx, c) db).2.tasks = db.tasks := congrArg Prod.fst (exec_progress kind hc)
    refine .still (congrArg (Table.one (taskKey t k)) htasks) ?_ ?_
    · cases c <;> first | rfl | cases hc
    · cases c <;> first | rfl | cases hc
  | true =>
    cases c with
    | commitAdvance txn =>
      rcases commit_cases kind ctx txn db with ⟨r, hr, h, _⟩ | ⟨row, hrow, _, _, _, h⟩
      · refine .still (congrArg (taskAt t k) (congrArg Prod.snd h)) ?_ rfl
        simp only [landedVersion, triedCommit, turn, h]
        split
        · rename_i heq
          cases heq
          exact absurd rfl (hr _)
        · rfl
      · have hafter : (turn kind.exec (ctx, .commitAdvance txn) db).after =
            DurableObject.advanceWrites ctx txn (row.checkpointVersion + 1) db := congrArg Prod.snd h
        let f := fun r : TaskRow =>
          { r with status := txn.status, checkpoint := txn.checkpoint, checkpointVersion := row.checkpointVersion + 1
                   fencingToken := txn.fencingToken, stateVersion := txn.stateVersion, updatedAt := ctx.now }
        have hf : ∀ r, (f r).tenantId = r.tenantId ∧ (f r).taskId = r.taskId := fun _ => ⟨rfl, rfl⟩
        have hwrite := taskAt_write t k txn.tenantId txn.taskId hf db
        by_cases he : txn.tenantId = t ∧ txn.taskId = k
        · rw [if_pos he] at hwrite
          obtain ⟨rfl, rfl⟩ := he
          rw [hrow] at hwrite
          refine .landed row _ hrow ((congrArg (taskAt _ _) hafter).trans hwrite) ?_ rfl rfl rfl
          simp [landedVersion, triedCommit, turn, h]
        · rw [if_neg he] at hwrite
          refine .still ((congrArg (taskAt t k) hafter).trans hwrite) ?_ rfl
          simp [landedVersion, triedCommit, turn, he]
    | interrupt t' k' =>
      rcases interrupt_cases kind ctx t' k' db with ⟨_, e, h⟩ | ⟨row, hrow, h⟩
      · refine .still (congrArg (taskAt t k) (congrArg Prod.snd h)) rfl ?_
        simp [interruptedTo, turn, h]
      · have hafter := congrArg Prod.snd h
        let f := fun r : TaskRow =>
          { r with generation := r.generation + 1, status := TaskStatus.interrupted, updatedAt := ctx.now }
        have hf : ∀ r, (f r).tenantId = r.tenantId ∧ (f r).taskId = r.taskId := fun _ => ⟨rfl, rfl⟩
        have hwrite := taskAt_write t k t' k' hf db
        by_cases he : t' = t ∧ k' = k
        · rw [if_pos he] at hwrite
          obtain ⟨rfl, rfl⟩ := he
          rw [hrow] at hwrite
          refine .interrupted row _ hrow ((congrArg (taskAt _ _) hafter).trans hwrite) rfl rfl rfl ?_
          simp [interruptedTo, turn, h]
        · rw [if_neg he] at hwrite
          refine .still ((congrArg (taskAt t k) hafter).trans hwrite) rfl ?_
          simp [interruptedTo, turn, h, he]
    | _ => cases hc

/-- No call moves a cursor back. -/
theorem cursor_turn (kind : StoreKind) (t k consumer : String) (c : Ctx × Call) (db : Db) :
    cursorAt t k consumer db ≤ cursorAt t k consumer (kind.exec c db).2 := by
  obtain ⟨ctx, c⟩ := c
  cases hc : c.advances with
  | false =>
    have hcursors : (kind.exec (ctx, c) db).2.cursors = db.cursors :=
      congrArg (fun p => p.2.1) (exec_progress kind hc)
    rw [cursorAt, cursorAt, hcursors]
  | true =>
    cases c with
    | commitAdvance txn =>
      rcases commit_cases kind ctx txn db with ⟨r, _, h, _⟩ | ⟨row, _, _, _, _, h⟩
      · rw [h]
      · rw [h]
        unfold cursorAt DurableObject.advanceWrites
        dsimp only
        cases txn.consumedThrough with
        | none => exact le_refl _
        | some n =>
          let merge := fun r : CursorRow => { r with consumedThrough := max r.consumedThrough n }
          have hm : ∀ t k c r, cursorKey t k c (merge r) = cursorKey t k c r := fun _ _ _ _ => rfl
          by_cases he : txn.tenantId = t ∧ txn.taskId = k ∧ "harness" = consumer
          · obtain ⟨rfl, rfl, rfl⟩ := he
            have hrow : cursorKey txn.tenantId txn.taskId "harness" ⟨txn.tenantId, txn.taskId, "harness", n⟩ = true := by
              simp [cursorKey]
            have hself := Table.one_upsert_self hrow (hm txn.tenantId txn.taskId "harness") db.cursors
            dsimp only [merge] at hself
            rw [hself]
            cases Table.one (cursorKey txn.tenantId txn.taskId "harness") db.cursors with
            | none => exact Nat.zero_le _
            | some r => exact le_max_left _ _
          · have hrow : cursorKey t k consumer ⟨txn.tenantId, txn.taskId, "harness", n⟩ = false := by
              rw [Bool.eq_false_iff]
              intro h
              simp only [cursorKey, Bool.and_eq_true, beq_iff_eq] at h
              exact he ⟨h.1.1, h.1.2, h.2⟩
            have hapart : ∀ r, cursorKey t k consumer r = true →
                cursorKey txn.tenantId txn.taskId "harness" r = false := by
              intro r hr
              simp only [cursorKey, Bool.and_eq_true, beq_iff_eq] at hr
              rw [Bool.eq_false_iff]
              intro hr'
              simp only [cursorKey, Bool.and_eq_true, beq_iff_eq] at hr'
              exact he ⟨hr'.1.1.symm.trans hr.1.1, hr'.1.2.symm.trans hr.1.2, hr'.2.symm.trans hr.2⟩
            have hother := Table.one_upsert_other hrow (hm t k consumer) hapart db.cursors
            dsimp only [merge] at hother
            rw [hother]
    | interrupt t' k' =>
      rcases interrupt_cases kind ctx t' k' db with ⟨_, e, h⟩ | ⟨row, _, h⟩
      · rw [h]
      · rw [h]
        exact le_refl _
    | _ => cases hc

/-- The ids a table of commands gains, each new and once. -/
theorem commands_inserted {row : OutboxCommand → OutboxRow} (hrow : ∀ c, (row c).commandId = c.commandId)
    (cs : List OutboxCommand) (rows : List OutboxRow) :
    ∃ new, (cs.foldl (fun t c => Table.insertOrIgnore (fun r => r.commandId == c.commandId) (row c) t) rows) =
      rows ++ new ∧ (new.map (·.commandId)).Nodup ∧ ∀ r ∈ new, r.commandId ∉ rows.map (·.commandId) := by
  induction cs generalizing rows with
  | nil => exact ⟨[], by simp⟩
  | cons c cs ih =>
    rw [List.foldl_cons]
    unfold Table.insertOrIgnore
    split
    · exact ih rows
    · rename_i hn
      obtain ⟨new, hnew, hnodup, hfresh⟩ := ih (rows ++ [row c])
      have hc : c.commandId ∉ rows.map (·.commandId) := by
        intro hm
        obtain ⟨r, hr, he⟩ := List.mem_map.1 hm
        exact hn (List.any_eq_true.2 ⟨r, hr, beq_iff_eq.2 he⟩)
      refine ⟨row c :: new, hnew.trans (List.append_assoc ..), ?_, ?_⟩
      · rw [List.map_cons, List.nodup_cons]
        refine ⟨fun hm => ?_, hnodup⟩
        obtain ⟨r, hr, he⟩ := List.mem_map.1 hm
        refine hfresh r hr (List.mem_map.2 ⟨row c, by simp, he.symm⟩)
      · intro r hr
        rcases List.mem_cons.1 hr with rfl | hr
        · rw [hrow]
          exact hc
        · intro hm
          have := hfresh r hr
          rw [List.map_append] at this
          exact this (List.mem_append_left _ hm)

/-- A turn adds new commands to the outbox, each once, and takes none out. -/
theorem commands_turn (kind : StoreKind) (c : Ctx × Call) (db : Db) :
    (kind.exec c db).2.outbox.map (·.commandId) =
      db.outbox.map (·.commandId) ++ enteredCommands (turn kind.exec c db) ∧
    (enteredCommands (turn kind.exec c db)).Nodup ∧
    ∀ id ∈ enteredCommands (turn kind.exec c db), id ∉ db.outbox.map (·.commandId) := by
  have hkept : (kind.exec c db).2.outbox.map (·.commandId) = db.outbox.map (·.commandId) →
      enteredCommands (turn kind.exec c db) = [] := by
    intro h
    have hlen := congrArg List.length h
    simp only [List.length_map] at hlen
    simp [enteredCommands, turn, hlen]
  have hnone (h : (kind.exec c db).2.outbox.map (·.commandId) = db.outbox.map (·.commandId)) :
      (kind.exec c db).2.outbox.map (·.commandId) =
        db.outbox.map (·.commandId) ++ enteredCommands (turn kind.exec c db) ∧
      (enteredCommands (turn kind.exec c db)).Nodup ∧
      ∀ id ∈ enteredCommands (turn kind.exec c db), id ∉ db.outbox.map (·.commandId) := by
    rw [hkept h, h]
    simp
  obtain ⟨ctx, c⟩ := c
  cases hc : c.advances with
  | false => exact hnone (congrArg (fun p => p.2.2) (exec_progress kind hc))
  | true =>
    cases c with
    | commitAdvance txn =>
      rcases commit_cases kind ctx txn db with ⟨r, _, h, _⟩ | ⟨row, _, _, _, _, h⟩
      · exact hnone (by rw [h])
      · let new := fun c : OutboxCommand => (⟨c.commandId, txn.tenantId, txn.taskId, txn.generation, c.kind,
          c.payload, .pending, ctx.now, none⟩ : OutboxRow)
        have hnew : ∀ c, (new c).commandId = c.commandId := fun _ => rfl
        obtain ⟨rows, hrows, hnodup, hfresh⟩ := commands_inserted hnew txn.commands db.outbox
        have hafter : (kind.exec (ctx, .commitAdvance txn) db).2.outbox = db.outbox ++ rows := by
          rw [h]
          exact hrows
        have hentered : enteredCommands (turn kind.exec (ctx, .commitAdvance txn) db) = rows.map (·.commandId) := by
          simp [enteredCommands, turn, hafter]
        rw [hentered, hafter]
        refine ⟨List.map_append .., hnodup, fun id hid => ?_⟩
        obtain ⟨r, hr, rfl⟩ := List.mem_map.1 hid
        exact hfresh r hr
    | interrupt t k =>
      rcases interrupt_cases kind ctx t k db with ⟨_, e, h⟩ | ⟨row, _, h⟩
      · exact hnone (by rw [h])
      · exact hnone (by rw [h])
    | _ => cases hc

/-- A lease is let go only with every event consumed and every resolved wait folded in. -/
theorem release_turn (kind : StoreKind) (t k consumer : String) (c : Ctx × Call) (db : Db)
    (h : letGo t k (turn kind.exec c db) consumer = true) :
    (∀ e ∈ db.events, e.tenantId = t → e.taskId = some k → e.sequence ≤ cursorAt t k consumer db) ∧
    ∀ w ∈ db.waits, w.tenantId = t → w.taskId = k → w.resolved = false := by
  obtain ⟨ctx, c⟩ := c
  cases c with
  | releaseIfNoWork t' k' token consumer' =>
    have hsame : kind.exec (ctx, .releaseIfNoWork t' k' token consumer') db =
        returned .release (DurableObject.releaseIfNoWork t' k' token consumer' db) := by cases kind <;> rfl
    have hcursor : DurableObject.cursor t k consumer db = cursorAt t k consumer db := by
      unfold DurableObject.cursor cursorAt
      cases Table.one (cursorKey t k consumer) db.cursors <;> rfl
    simp only [letGo, turn, hsame, returned, DurableObject.releaseIfNoWork] at h
    split at h
    · rename_i _ _ _ _ _ _ hcall hanswer
      cases hcall
      simp only [Bool.and_eq_true, beq_iff_eq] at h
      obtain ⟨⟨rfl, rfl⟩, rfl⟩ := h
      split at hanswer
      · cases hanswer
      · split at hanswer
        · cases hanswer
        · rename_i hevents
          split at hanswer
          · cases hanswer
          · rename_i hwaits
            refine ⟨fun e he ht hk => ?_, fun w hw ht hk => ?_⟩
            · by_contra hlt
              refine hevents (List.countP_pos_iff.2 ⟨e, he, ?_⟩)
              simp [ht, hk, hcursor, not_le.1 hlt]
            · by_contra hr
              refine hwaits (List.countP_pos_iff.2 ⟨w, hw, ?_⟩)
              simp [ht, hk, eq_true_of_ne_false hr]
    · cases h
  | _ => cases h

end Exec

/-! ## Histories -/

/-- Whether a later commit of a task carries an older token than an earlier turn granted. -/
def outranks (t k : String) (x y : StoreTurn) : Bool :=
  (grantedToken t k x).any fun token => (triedCommit t k y).any fun txn => decide (txn.fencingToken < token)

/-- No commit of a task lands under a token older than one granted. -/
def Fenced (t k : String) (turns : List StoreTurn) : Prop :=
  turns.Pairwise fun x y => outranks t k x y = true → landedVersion t k y = none

/-- A commit its task's row turns away, whatever leases were granted. -/
def AdvanceTxn.late (txn : AdvanceTxn) (row : TaskRow) : Prop :=
  txn.fencingToken < row.fencingToken ∨ txn.generation ≠ row.generation ∨
    txn.expectedCheckpointVersion ≠ row.checkpointVersion

/-- Every commit under a token older than one granted comes too late for its task's row. -/
def CaughtUp (t k : String) (turns : List StoreTurn) : Prop :=
  turns.Pairwise fun x y => outranks t k x y = true →
    ∀ txn row, triedCommit t k y = some txn → taskAt t k y.before = some row → txn.late row

/-- What holds of one task in every history from `db`. -/
structure Advanced (t k : String) (db : Db) (turns : List StoreTurn) : Prop where
  /-- The versions commits land at are consecutive. -/
  versions : turns.filterMap (landedVersion t k) =
    List.range' (versionOf t k db + 1) (turns.filterMap (landedVersion t k)).length
  /-- No commit made for an earlier generation lands after an interrupt. -/
  generations : turns.Pairwise fun x y => ∀ g txn, interruptedTo t k x = some g → triedCommit t k y = some txn →
    txn.generation < g → landedVersion t k y = none
  /-- Cursors never move back. -/
  cursors : (∀ x ∈ turns, ∀ consumer, cursorAt t k consumer x.before ≤ cursorAt t k consumer x.after) ∧
    turns.Pairwise fun x y => ∀ consumer, cursorAt t k consumer x.after ≤ cursorAt t k consumer y.before
  /-- A command enters the outbox once. -/
  commands : (turns.flatMap enteredCommands).Nodup ∧
    ∀ id ∈ turns.flatMap enteredCommands, id ∉ db.outbox.map (·.commandId)
  /-- A lease is let go only when nothing waits for its holder. -/
  released : ∀ x ∈ turns, ∀ consumer, letGo t k x consumer = true →
    (∀ e ∈ x.before.events, e.tenantId = t → e.taskId = some k → e.sequence ≤ cursorAt t k consumer x.before) ∧
    ∀ w ∈ x.before.waits, w.tenantId = t → w.taskId = k → w.resolved = false

section History

variable {kind : StoreKind} {t k : String}

theorem version_turn (kind : StoreKind) (t k : String) (c : Ctx × Call) (db : Db) :
    landedVersion t k (turn kind.exec c db) = some (versionOf t k db + 1) ∧
      versionOf t k (kind.exec c db).2 = versionOf t k db + 1 ∨
    landedVersion t k (turn kind.exec c db) = none ∧ versionOf t k (kind.exec c db).2 = versionOf t k db := by
  have hbefore : (turn kind.exec c db).before = db := rfl
  have hafter : (turn kind.exec c db).after = (kind.exec c db).2 := rfl
  unfold versionOf
  rcases task_turn kind t k c db with
    ⟨kept, landed, _⟩ | ⟨row, row', before, after, landed, version, _, _⟩ |
      ⟨row, row', before, after, landed, version, _, _⟩
  · rw [← hafter, kept, hbefore]
    exact .inr ⟨landed, rfl⟩
  · rw [← hafter, after, ← hbefore, before]
    exact .inl ⟨landed, version⟩
  · rw [← hafter, after, ← hbefore, before]
    exact .inr ⟨landed, version⟩

/-- A task's generation is at least one it was moved to. -/
def ReachedGeneration (t k : String) (g : Nat) (db : Db) : Prop :=
  ∀ row, taskAt t k db = some row → g ≤ row.generation

theorem generation_kept (kind : StoreKind) {g : Nat} (c : Ctx × Call) {db : Db} (h : ReachedGeneration t k g db) :
    ReachedGeneration t k g (kind.exec c db).2 := by
  intro r hr
  have hafter : taskAt t k (turn kind.exec c db).after = some r := hr
  rcases task_turn kind t k c db with
    ⟨kept, _, _⟩ | ⟨row, row', before, after, _, _, generation, _⟩ | ⟨row, row', before, after, _, _, generation, _⟩
  · exact h r (kept ▸ hafter)
  · have hrow := h row before
    rw [after] at hafter
    cases hafter
    omega
  · have hrow := h row before
    rw [after] at hafter
    cases hafter
    omega

theorem interrupted_reached (kind : StoreKind) {g : Nat} {c : Ctx × Call} {db : Db}
    (h : interruptedTo t k (turn kind.exec c db) = some g) : ReachedGeneration t k g (kind.exec c db).2 := by
  intro r hr
  have hafter : taskAt t k (turn kind.exec c db).after = some r := hr
  rcases task_turn kind t k c db with
    ⟨_, _, none⟩ | ⟨_, _, _, _, _, _, _, none⟩ | ⟨row, row', before, after, _, _, generation, interrupted⟩
  · rw [none] at h
    cases h
  · rw [none] at h
    cases h
  · rw [interrupted] at h
    rw [after] at hafter
    cases h
    cases hafter
    omega

theorem triedCommit_some {x : StoreTurn} {txn : AdvanceTxn} (h : triedCommit t k x = some txn) :
    x.act.2 = .commitAdvance txn ∧ txn.tenantId = t ∧ txn.taskId = k := by
  unfold triedCommit at h
  split at h
  · rename_i txn' hcall
    split at h
    · rename_i he
      cases h
      exact ⟨hcall, he⟩
    · cases h
  · cases h

/-- A tried commit lands exactly when its task's row does not turn it away. -/
theorem landed_none_iff (kind : StoreKind) {c : Ctx × Call} {db : Db} {txn : AdvanceTxn}
    (h : triedCommit t k (turn kind.exec c db) = some txn) :
    landedVersion t k (turn kind.exec c db) = none ↔ ∀ row, taskAt t k db = some row → txn.late row := by
  obtain ⟨hcall, rfl, rfl⟩ := triedCommit_some h
  obtain ⟨ctx, c⟩ := c
  cases hcall
  have hcases := commit_cases kind ctx txn db
  simp only [landedVersion, h]
  rcases hcases with ⟨r, hr, he, hlate⟩ | ⟨row, hrow, hf, hg, hv, he⟩
  · refine iff_of_true ?_ hlate
    simp only [turn, he]
    split
    · rename_i heq
      cases heq
      exact absurd rfl (hr _)
    · rfl
  · refine iff_of_false ?_ fun hlate => ?_
    · simp [turn, he]
    · rcases hlate row hrow with h | h | h
      · exact hf h
      · exact h hg
      · exact h hv

theorem fenced_iff_caughtUp (kind : StoreKind) (t k : String) (calls : List (Ctx × Call)) (db : Db) :
    Fenced t k (turns kind.exec calls db) ↔ CaughtUp t k (turns kind.exec calls db) := by
  have hiff : ∀ x, ∀ y ∈ turns kind.exec calls db, (outranks t k x y = true → landedVersion t k y = none) ↔
      (outranks t k x y = true →
        ∀ txn row, triedCommit t k y = some txn → taskAt t k y.before = some row → txn.late row) := by
    intro x y hy
    have hturn := mem_turns hy
    refine forall_congr' fun hout => ?_
    simp only [outranks, Option.any_eq_true] at hout
    obtain ⟨token, _, txn, htxn, _⟩ := hout
    rw [hturn] at htxn ⊢
    rw [landed_none_iff kind htxn]
    refine ⟨fun hlate txn' row htxn' hrow => ?_, fun hlate row hrow => hlate txn row htxn hrow⟩
    rw [htxn] at htxn'
    cases htxn'
    exact hlate row hrow
  unfold Fenced CaughtUp
  constructor
  · exact fun h => h.imp_of_mem fun _ hy hp => (hiff _ _ hy).1 hp
  · exact fun h => h.imp_of_mem fun _ hy hp => (hiff _ _ hy).2 hp

end History

/-- In every history of either store: a task's commits land at consecutive versions, none for a generation an
interrupt ended; cursors only advance; a command enters the outbox once; a lease is let go only with nothing waiting.
And no commit lands under a token older than one granted exactly when each that carries one finds the task's row
already past it. -/
theorem commits_fenced_iff (kind : StoreKind) (calls : List (Ctx × Call)) (db : Db) (t k : String) :
    Advanced t k db (turns kind.exec calls db) ∧
    (Fenced t k (turns kind.exec calls db) ↔ CaughtUp t k (turns kind.exec calls db)) := by
  refine ⟨⟨?_, ?_, ⟨?_, ?_⟩, ?_, ?_⟩, fenced_iff_caughtUp kind t k calls db⟩
  · exact numbered_turns fun c db => version_turn kind t k c db
  · refine pairwise_turns
      (K := fun x db => ∀ g, interruptedTo t k x = some g → ReachedGeneration t k g db) ?_ ?_ ?_
    · intro c db g hg
      exact interrupted_reached kind hg
    · intro x c db hK g hg
      exact generation_kept kind c (hK g hg)
    · intro x c db hK g txn hg htxn hlt
      refine (landed_none_iff kind htxn).2 fun row hrow => .inr (.inl ?_)
      have hreached := hK g hg row hrow
      omega
  · exact forall_turns (I := fun _ => True) trivial (fun _ _ _ => trivial)
      fun c db _ consumer => cursor_turn kind t k consumer c db
  · refine pairwise_turns
      (K := fun x db => ∀ consumer, cursorAt t k consumer x.after ≤ cursorAt t k consumer db) ?_ ?_ ?_
    · exact fun c db consumer => le_refl _
    · exact fun x c db hK consumer => (hK consumer).trans (cursor_turn kind t k consumer c db)
    · exact fun x c db hK => hK
  · exact fresh_turns (fun db => db.outbox.map (·.commandId)) fun c db => commands_turn kind c db
  · exact forall_turns (I := fun _ => True) trivial (fun _ _ _ => trivial)
      fun c db _ consumer => release_turn kind t k consumer c db

/-- A task just made. -/
def leasedDb : Db :=
  { Db.empty with tasks := [⟨"acme", "t1", "a1", .runnable, 0, 0, 0, .null, 0, 0⟩] }

/-- Two holders: the first's lease runs out, the second takes the task, and the first commits. -/
def overtakenCalls : List (Ctx × Call) :=
  [(⟨0, fun _ => ""⟩, .acquireLease "acme" "t1" "first" 10), (⟨20, fun _ => ""⟩, .acquireLease "acme" "t1" "second" 10),
    (⟨21, fun _ => ""⟩, .commitAdvance ⟨"acme", "t1", 0, 1, 0, .null, 0, .runnable, none, [], []⟩)]

/-- The overtaken holder's commit lands, under token 1 after token 2 was granted. -/
theorem overtaken_commit_lands :
    (turns StoreKind.durableObject.exec overtakenCalls leasedDb).map (grantedToken "acme" "t1") =
      [some 1, some 2, none] ∧
    ¬Fenced "acme" "t1" (turns StoreKind.durableObject.exec overtakenCalls leasedDb) := by
  unfold Fenced
  decide

end Antiproton
