import Antiproton.Store.Calls

/-!
# Antiproton.Store.DurableObject

`DurableObjectStore` (`src/store/durable-object.ts`): the store production runs on. A statement whose
effect the method has to report is preceded by the `SELECT` that decides it; no count of changed rows
is read. Each method is one transaction, or statements with no await between them.
-/

namespace Antiproton
namespace DurableObject

/-- `#nextCounter`. -/
def nextCounter (name : String) (db : Db) : Nat × Db :=
  let counters := Table.insertOrIgnore (fun r => r.name == name) ⟨name, 0⟩ db.counters
  let counters := Table.update (fun r => r.name == name) (fun r => { r with value := r.value + 1 }) counters
  (((Table.one (fun r => r.name == name) counters).map (·.value)).getD 0, { db with counters := counters })

/-! ## Events and cursors -/

/-- What an event for another agent's task is refused with. -/
def notOwned (e : NewEvent) (t : TaskRow) : JsError :=
  .ofMessage s!"event agent \"{e.agentId}\" does not own task {t.taskId}"

/-- `#insertEvent`, drawing its id as the `n`-th of the call. -/
def insertEvent (ctx : Ctx) (n : Nat) (e : NewEvent) (db : Db) : Except JsError (Appended × Db) :=
  match foreignTask e db with
  | some t => .error (notOwned e t)
  | none =>
    match duplicateEvent e db with
    | some r => .ok (⟨false, r.sequence, r.eventId⟩, db)
    | none =>
      let (sequence, db) := nextCounter s!"seq:{e.tenantId}:{e.agentId}" db
      let eventId := ctx.uuid n
      (insertEventRow (e.row eventId sequence ctx.now) db).map fun db => (⟨true, sequence, eventId⟩, db)

def appendEvent (ctx : Ctx) (e : NewEvent) (db : Db) : Except JsError (Appended × Db) :=
  insertEvent ctx 0 e db

/-- `#cursor`. -/
def cursor (tenantId taskId consumer : String) (db : Db) : Nat :=
  match Table.one (cursorKey tenantId taskId consumer) db.cursors with
  | some r => r.consumedThrough
  | none => 0

def pendingEvents (tenantId taskId consumer : String) (db : Db) : List RuntimeEvent :=
  let «from» := cursor tenantId taskId consumer db
  (Table.orderBy (·.sequence) (Table.select (fun r => r.tenantId == tenantId &&
    r.taskId == some taskId && decide («from» < r.sequence)) db.events)).map eventRecord

def taskEvents (tenantId taskId : String) (after through : Nat) (db : Db) : List RuntimeEvent :=
  (Table.orderBy (·.sequence) (Table.select (fun r => r.tenantId == tenantId && r.taskId == some taskId &&
    decide (after < r.sequence) && decide (r.sequence ≤ through)) db.events)).map eventRecord

def eventsSince (tenantId agentId : String) (after : Nat) (limit : Int) (db : Db) : List RuntimeEvent :=
  (limitTo limit (Table.orderBy (·.sequence) (Table.select (fun r => r.tenantId == tenantId &&
    r.agentId == agentId && decide (after < r.sequence)) db.events))).map eventRecord

/-- Whether a task has an event past the harness's cursor that it can still consume. -/
def hasPendingWork (db : Db) (t : TaskRow) : Bool :=
  t.status ≠ .completed && t.status ≠ .failed && t.status ≠ .blocked &&
    db.events.any fun e => e.tenantId == t.tenantId && e.taskId == some t.taskId &&
      decide (cursor t.tenantId t.taskId "harness" db < e.sequence)

def tasksWithPendingWork (limit : Option Int) (db : Db) : List (String × String) :=
  limitTo (limit.getD 25) ((Table.select (hasPendingWork db) db.tasks).map fun t => (t.tenantId, t.taskId))

def acquireLease (ctx : Ctx) (tenantId taskId holder : String) (ttlMs : Int) (db : Db) :
    Option Lease × Db :=
  let t := ctx.now
  let cur := Table.one (fun r : LeaseRow => r.taskId == taskId) db.leases
  if cur.any fun r => decide (t < r.expiresAt) && r.holder != holder then (none, db)
  else
    let (token, db) := nextCounter "fencing" db
    let row : LeaseRow := ⟨taskId, tenantId, holder, token, t + ttlMs⟩
    let leases := Table.upsert (fun r : LeaseRow => r.taskId == taskId) row
      (fun r => { r with holder := holder, fencingToken := token, expiresAt := t + ttlMs }) db.leases
    (some ⟨tenantId, taskId, holder, token, t + ttlMs⟩, { db with leases := leases })

/-- Why an advance may not land, fencing first. -/
def advanceRefusal (txn : AdvanceTxn) (t : TaskRow) : Option CommitResult :=
  if txn.fencingToken < t.fencingToken then some .fenced
  else if txn.generation ≠ t.generation then some .staleGeneration
  else if txn.expectedCheckpointVersion ≠ t.checkpointVersion then some .versionConflict
  else none

/-- The writes of an advance: the task, its cursor, its waits and its commands. -/
def advanceWrites (ctx : Ctx) (txn : AdvanceTxn) (nextVersion : Nat) (db : Db) : Db :=
  let tasks := Table.update (taskKey txn.tenantId txn.taskId) (fun r =>
    { r with status := txn.status, checkpoint := txn.checkpoint, checkpointVersion := nextVersion
             fencingToken := txn.fencingToken, stateVersion := txn.stateVersion, updatedAt := ctx.now }) db.tasks
  let cursors :=
    match txn.consumedThrough with
    | some n => Table.upsert (cursorKey txn.tenantId txn.taskId "harness") ⟨txn.tenantId, txn.taskId, "harness", n⟩
        (fun r => { r with consumedThrough := max r.consumedThrough n }) db.cursors
    | none => db.cursors
  let waits := Table.delete (fun r => r.tenantId == txn.tenantId && r.taskId == txn.taskId && r.resolved) db.waits
  let waits := waits ++ txn.waits.zipIdx.map fun w =>
    ⟨ctx.uuid w.2, txn.tenantId, txn.taskId, txn.generation, w.1.kind, w.1.operationId, w.1.deadline, false⟩
  let outbox := txn.commands.foldl (fun t c => Table.insertOrIgnore (fun r => r.commandId == c.commandId)
    ⟨c.commandId, txn.tenantId, txn.taskId, txn.generation, c.kind, c.payload, .pending, ctx.now, none⟩ t) db.outbox
  { db with tasks := tasks, cursors := cursors, waits := waits, outbox := outbox }

def commitAdvance (ctx : Ctx) (txn : AdvanceTxn) (db : Db) : CommitResult × Db :=
  match Table.one (taskKey txn.tenantId txn.taskId) db.tasks with
  | none => (.noTask, db)
  | some t =>
    match advanceRefusal txn t with
    | some refused => (refused, db)
    | none =>
      let nextVersion := t.checkpointVersion + 1
      (.ok nextVersion, advanceWrites ctx txn nextVersion db)

/-- How many events of a task are past a consumer's cursor. -/
def unconsumed (tenantId taskId consumer : String) (db : Db) : Nat :=
  let «from» := cursor tenantId taskId consumer db
  Table.changes (fun r : EventRow => r.tenantId == tenantId && r.taskId == some taskId &&
    decide («from» < r.sequence)) db.events

/-- How many waits of a task are resolved and not yet folded in. -/
def resolvedWaits (tenantId taskId : String) (db : Db) : Nat :=
  Table.changes (fun r : WaitRow => r.tenantId == tenantId && r.taskId == taskId && r.resolved) db.waits

def releaseIfNoWork (tenantId taskId : String) (fencingToken : Nat) (consumer : String) (db : Db) :
    ReleaseAnswer × Db :=
  let lease := Table.one (fun r : LeaseRow => r.taskId == taskId) db.leases
  if lease.any fun r => decide (fencingToken < r.fencingToken) then (.fenced, db)
  else if 0 < unconsumed tenantId taskId consumer db then (.hasWork, db)
  else if 0 < resolvedWaits tenantId taskId db then (.hasWork, db)
  else
    let leases := Table.delete (fun r : LeaseRow => r.taskId == taskId && r.fencingToken == fencingToken) db.leases
    (.released, { db with leases := leases })

/-! ## Commands -/

/-- The commands a claim takes, oldest first. -/
def claimable (limit : Int) (tenantId : Option String) (db : Db) : List OutboxRow :=
  limitTo limit (Table.orderBy (·.createdAt) (Table.select (fun r : OutboxRow => decide (r.state = .pending) &&
    (match tenantId.filter (· ≠ "") with
      | some t => r.tenantId == t
      | none => true)) db.outbox))

def claimOutbox (ctx : Ctx) (limit : Int) (tenantId : Option String) (db : Db) : List OutboxClaim × Db :=
  let rows := claimable limit tenantId db
  -- Stamped too, so that a claim whose dispatch threw can be found by its age.
  let outbox := (rows.map (·.commandId)).foldl (fun t id => Table.update (fun r : OutboxRow => r.commandId == id)
    (fun r => { r with state := .claimed, dispatchedAt := some ctx.now }) t) db.outbox
  (rows.map fun r => ⟨r.commandId, r.taskId, r.kind, r.payload⟩, { db with outbox := outbox })

def markDispatched (ctx : Ctx) (commandId : String) (db : Db) : Db :=
  let outbox := Table.update (fun r : OutboxRow => r.commandId == commandId)
    (fun r => { r with state := .dispatched, dispatchedAt := some ctx.now }) db.outbox
  { db with outbox := outbox }

/-! ## Operations and waits -/

def recordOperation (ctx : Ctx) (op : NewOperation) (db : Db) : Db :=
  { db with operations :=
      Table.insertOrIgnore (fun r => r.operationId == op.operationId) (op.row ctx.now) db.operations }

def startOperation (ctx : Ctx) (tenantId operationId : String) (db : Db) : Bool × Db :=
  match Table.one (operationKey tenantId operationId) db.operations with
  | none => (false, db)
  | some r =>
    if startable r.status then
      let operations := Table.update (fun r => operationKey tenantId operationId r && startable r.status)
        (fun r => { r with status := .running, updatedAt := ctx.now }) db.operations
      (true, { db with operations := operations })
    else (false, db)

def getOperation (tenantId operationId : String) (db : Db) : Option OperationRecord :=
  (Table.one (operationKey tenantId operationId) db.operations).map operationRecord

/-- The completion of an operation's row and of the waits on it. -/
def markCompleted (ctx : Ctx) (tenantId operationId : String) (status : OperationStatus)
    (resultRef : Option String) (db : Db) : Db :=
  let operations := Table.update (operationKey tenantId operationId)
    (fun r => { r with status := status, resultRef := resultRef, updatedAt := ctx.now }) db.operations
  let waits := Table.update (fun r : WaitRow => r.tenantId == tenantId &&
    r.operationId == some operationId && !r.resolved) (fun r => { r with resolved := true }) db.waits
  { db with operations := operations, waits := waits }

def completeOperation (ctx : Ctx) (tenantId operationId : String) (status : OperationStatus)
    (resultRef : Option String) (result : Option Json) (facts : CompletedFacts) (db : Db) :
    Except JsError (Unit × Db) :=
  let prior := Table.one (operationKey tenantId operationId) db.operations
  let db := markCompleted ctx tenantId operationId status resultRef db
  match Table.one (operationKey tenantId operationId) db.operations with
  | none => .ok ((), db)
  | some op => do
    let (_, db) ← insertEvent ctx 0 (completionEvent op tenantId operationId status resultRef result facts) db
    return ((), if operationEnds (prior.map (·.status)) status then
      appendTrace (toolCallRow op status ctx.now facts) db else db)

def registerWait (ctx : Ctx) (tenantId taskId : String) (generation : Nat) (wait : WaitSpec) (db : Db) :
    WaitAnswer × Db :=
  if waitSatisfied tenantId wait db then (.alreadySatisfied, db)
  else
    let waits := db.waits ++
      [⟨ctx.uuid 0, tenantId, taskId, generation, wait.kind, wait.operationId, wait.deadline, false⟩]
    (.registered, { db with waits := waits })

def interrupt (ctx : Ctx) (tenantId taskId : String) (db : Db) : Except JsError (Nat × Db) :=
  let tasks := Table.update (taskKey tenantId taskId)
    (fun r => { r with generation := r.generation + 1, status := .interrupted, updatedAt := ctx.now }) db.tasks
  match Table.one (taskKey tenantId taskId) tasks with
  | some r => .ok (r.generation, { db with tasks := tasks })
  | none => .error (.ofMessage "Cannot read properties of undefined (reading 'generation')")

/-! ## Quotas -/

def quotaRow (tenantId resource : String) (db : Db) : Option QuotaRow :=
  (Table.select (quotaKey tenantId resource) db.quotas).head?

def setQuota (ctx : Ctx) (tenantId resource : String) (limit windowMs : Option Int) (db : Db) : Db :=
  let quotas := Table.upsert (quotaKey tenantId resource) ⟨tenantId, resource, limit, windowMs, 0, ctx.now⟩
    (fun r => { r with limitValue := limit, windowMs := windowMs }) db.quotas
  { db with quotas := quotas }

def consumeQuota (ctx : Ctx) (tenantId resource : String) (amount : Int) (db : Db) : Consumed × Db :=
  let own := quotaRow tenantId resource db
  let fallback := if (own.bind (·.limitValue)).isSome then none else quotaRow "*" resource db
  let limit := (own.bind (·.limitValue)).or (fallback.bind (·.limitValue))
  let windowMs := (own.bind (·.windowMs)).or (fallback.bind (·.windowMs))
  let t := ctx.now
  let used := (own.map (·.used)).getD 0
  let windowStart := (own.map (·.windowStart)).getD t
  let elapsed := windowMs.any fun w => decide (w ≤ t - windowStart)
  let used := if elapsed then 0 else used
  let windowStart := if elapsed then t else windowStart
  let allowed := limit.all fun l => decide (used + amount ≤ l)
  let used := if allowed then used + amount else used
  let quotas := Table.upsert (quotaKey tenantId resource)
    ⟨tenantId, resource, own.bind (·.limitValue), own.bind (·.windowMs), used, windowStart⟩
    (fun r => { r with used := used, windowStart := windowStart }) db.quotas
  (⟨allowed, used, limit⟩, { db with quotas := quotas })

def usage (tenantId : String) (db : Db) : List QuotaUsage :=
  (Table.select (fun r : QuotaRow => r.tenantId == tenantId) db.quotas).map fun r =>
    ⟨r.resource, r.used, r.limitValue, r.windowStart⟩

/-! ## Agent state -/

/-- `#putStateRow`. -/
def putStateRow (ctx : Ctx) (tenantId agentId key : String) (entry : StateEntry) (db : Db) : Db :=
  let agentState := Table.upsert (stateKey tenantId agentId key)
    ⟨tenantId, agentId, key, entry.value, entry.ref, entry.bytes, ctx.now⟩
    (fun r => { r with value := entry.value, ref := entry.ref, bytes := entry.bytes, updatedAt := ctx.now })
    db.agentState
  { db with agentState := agentState }

def putState (ctx : Ctx) (tenantId agentId key : String) (entry : StateEntry) (db : Db) : Db :=
  putStateRow ctx tenantId agentId key entry db

/-- `#getStateRow`. -/
def getStateRow (tenantId agentId key : String) (db : Db) : Option StateRecord :=
  (Table.one (stateKey tenantId agentId key) db.agentState).map stateRecord

def getState (tenantId agentId key : String) (db : Db) : Option StateRecord :=
  getStateRow tenantId agentId key db

/-- `#stateBytes`: the agent's rows' `bytes` summed, and the one row's. -/
def stateBytes (tenantId agentId key : String) (db : Db) : Nat × Nat :=
  let rows := Table.select (stateOf tenantId agentId) db.agentState
  ((rows.map (·.bytes)).sum, (rows.map fun r => if r.key == key then r.bytes else 0).sum)

/-- `#writeDocument`. No `maxTotalBytes` is no limit. -/
def writeDocument (ctx : Ctx) (tenantId agentId key : String) (kept : Str) (maxTotalBytes : Option Nat)
    (db : Db) : Except JsError (Written × Db) :=
  let bytes := storedBytes (.str kept)
  let refused := maxTotalBytes.bind fun max =>
    let u := stateBytes tenantId agentId key db
    totalRefusal u.1 u.2 bytes max none
  match refused with
  | some e => .error e
  | none => .ok (⟨kept.length, bytes⟩, putStateRow ctx tenantId agentId key ⟨some (.str kept), none, bytes⟩ db)

def appendState (ctx : Ctx) (tenantId agentId key : String) (text : Str) (maxBytes : Nat) (whenFull : WhenFull)
    (maxTotalBytes : Option Nat) (db : Db) : Except JsError ((Written × List Str) × Db) := do
  let before ← documentText key ((getStateRow tenantId agentId key db).map priorDocument) "append to"
  let (kept, dropped) ← appendLines key before text maxBytes whenFull
  let (w, db) ← writeDocument ctx tenantId agentId key kept maxTotalBytes db
  return ((w, dropped), db)

def reviseState (ctx : Ctx) (tenantId agentId key : String) (old : Str) (next : Option Str) (maxBytes : Nat)
    (maxTotalBytes : Option Nat) (db : Db) : Except JsError ((Written × Revised) × Db) :=
  match getStateRow tenantId agentId key db with
  | none => .error (.ofMessage s!"there is no `{key}` to revise")
  | some prior => do
    let doc ← documentText key (some (priorDocument prior)) "revise"
    let (kept, r) ← reviseText key doc old next maxBytes
    let (w, db) ← writeDocument ctx tenantId agentId key kept maxTotalBytes db
    return ((w, r), db)

def insertState (ctx : Ctx) (tenantId agentId key : String) (afterLine : JsNumber) (text : Str) (maxBytes : Nat)
    (maxTotalBytes : Option Nat) (db : Db) : Except JsError ((Written × Nat) × Db) := do
  let before ← documentText key ((getStateRow tenantId agentId key db).map priorDocument) "insert into"
  let (kept, line) ← insertLines key before afterLine text maxBytes
  let (w, db) ← writeDocument ctx tenantId agentId key kept maxTotalBytes db
  return ((w, line), db)

def deleteState (tenantId agentId key : String) (db : Db) : Bool × Db :=
  let had := (Table.one (stateKey tenantId agentId key) db.agentState).isSome
  (had, { db with agentState := Table.delete (stateKey tenantId agentId key) db.agentState })

def listState (tenantId agentId : String) (keyPrefix : String) (limit : Int) (db : Db) : List StateListing :=
  (limitTo limit (Table.orderBy (·.key) (Table.select (fun r => stateOf tenantId agentId r &&
    like (keyPrefix.toList ++ ['%']) r.key.toList) db.agentState))).map fun r =>
      ⟨r.key, r.bytes, r.ref, r.updatedAt⟩

def stateUsage (tenantId agentId : String) (db : Db) : StateUsage :=
  let rows := Table.select (stateOf tenantId agentId) db.agentState
  ⟨rows.length, (rows.map (·.bytes)).sum⟩

/-! ## Approvals -/

def requireApproval (ctx : Ctx) (a : HoldRequest) (db : Db) : Db :=
  let approvals := Table.insertOrIgnore (approvalKey a.tenantId a.operationId) (a.row ctx.now) db.approvals
  { db with approvals := approvals }

def holdApproval (ctx : Ctx) (a : HoldRequest) (same : ApprovalRecord → Bool) (db : Db) : HoldResult × Db :=
  match ((openHolds ctx.now a db).map mapApproval).find? same with
  | some existing => (.existing existing, db)
  | none =>
    let approvals := Table.insertOrIgnore (approvalKey a.tenantId a.operationId) (a.row ctx.now) db.approvals
    (.created, { db with approvals := approvals })

def getApproval (tenantId operationId : String) (db : Db) : Option ApprovalRecord :=
  (Table.one (approvalKey tenantId operationId) db.approvals).map mapApproval

def decideApproval (ctx : Ctx) (tenantId operationId : String) (decision : Decision) (approver : String)
    (decidedBy : Option DecidedBy) (notice : Option Str) (db : Db) : DecideOutcome × Db :=
  match Table.one (approvalKey tenantId operationId) db.approvals with
  | none => (.notFound, db)
  | some r =>
    let at_ := ctx.now
    match decisionProblem r decision at_ with
    | some problem => (.refused problem (mapApproval r), db)
    | none =>
      let approvals := Table.update (approvalKey tenantId operationId)
        (fun r => { decided decision approver at_ decidedBy r with notice := notice }) db.approvals
      (.ok (mapApproval (decided decision approver at_ decidedBy r)),
        appendTrace (approvalRow r decision approver at_) { db with approvals := approvals })

def listApprovals (tenantId : String) (state : Option ApprovalState) (db : Db) : List ApprovalRecord :=
  (Table.orderBy (·.createdAt) (match state with
    | some s => Table.select (fun r : ApprovalRow => r.tenantId == tenantId && decide (r.state = s)) db.approvals
    | none => Table.select (fun r : ApprovalRow => r.tenantId == tenantId) db.approvals)).map mapApproval

def claimApprovalRun (tenantId operationId : String) (at_ : Int) (db : Db) : Bool × Db :=
  match Table.one (approvalKey tenantId operationId) db.approvals with
  | none => (false, db)
  | some r =>
    if r.state ≠ .approved ∨ r.runAt.isSome then (false, db)
    else
      let approvals := Table.update (approvalKey tenantId operationId) (fun r => { r with runAt := some at_ })
        db.approvals
      (true, { db with approvals := approvals })

def finishApproval (tenantId operationId : String) (state : FinishState) (summary : String) (notice : Str)
    (db : Db) : Bool × Db :=
  match Table.one (approvalKey tenantId operationId) db.approvals with
  | none => (false, db)
  | some r =>
    if r.state ≠ .approved then (false, db)
    else
      let approvals := Table.update (approvalKey tenantId operationId)
        (fun r => { r with state := state.state, outcome := some summary, notice := some notice }) db.approvals
      (true, { db with approvals := approvals })

def recordApprovalDelivery (tenantId operationId : String) (report : ApprovalDelivery) (db : Db) :
    DeliveryOutcome × Db :=
  match Table.one (approvalKey tenantId operationId) db.approvals with
  | none => (.notFound, db)
  | some r =>
    match deliveryStep r report with
    | .late => (.late (mapApproval r), db)
    | .keep => (.ok false (mapApproval r), db)
    | .write =>
      let write := fun r : ApprovalRow =>
        { r with deliveryOutcome := some report.outcome, deliveryAt := some report.at_ }
      let approvals := Table.update (approvalKey tenantId operationId) write db.approvals
      (.ok true (mapApproval (write r)), { db with approvals := approvals })

def untoldApprovals (tenantId : String) (db : Db) : List (ApprovalRecord × Option Str) :=
  (orderByDecided (Table.select (fun r : ApprovalRow => r.tenantId == tenantId &&
    finalStates.contains r.state && r.toldAt.isNone) db.approvals)).map fun r => (mapApproval r, r.notice)

/-! ## Mounts -/

def addMount (m : MountRecord) (db : Db) : Except JsError (Unit × Db) :=
  if m.mountAlias = agentScopeAlias then
    .error (.ofMessage "a mount needs a name: the empty one is where agent-level plugin data is kept")
  else
    match Table.insert (mountKey m.tenantId m.agentId m.mountAlias) m db.mounts with
    | some mounts => .ok ((), { db with mounts := mounts })
    | none => .error (uniqueFailed "mounts.tenant_id, mounts.agent_id, mounts.alias")

/-- One column of a mount changed, and whether the mount is there. -/
def updateMount (tenantId agentId mountAlias : String) (f : MountRecord → MountRecord) (db : Db) : Bool × Db :=
  let db := { db with mounts := Table.update (mountKey tenantId agentId mountAlias) f db.mounts }
  ((Table.one (mountKey tenantId agentId mountAlias) db.mounts).isSome, db)

def updateMountToolSnapshot (tenantId agentId mountAlias : String) (snapshot : Option Json) : Db → Bool × Db :=
  updateMount tenantId agentId mountAlias fun m => { m with toolSnapshot := snapshot }

def updateMountPolicy (tenantId agentId mountAlias : String) (policy : Option MountPolicy) : Db → Bool × Db :=
  updateMount tenantId agentId mountAlias fun m => { m with policy := policy }

def updateMountToolVersion (tenantId agentId mountAlias toolVersion : String) : Db → Bool × Db :=
  updateMount tenantId agentId mountAlias fun m => { m with toolVersion := toolVersion }

def updateMountConfig (tenantId agentId mountAlias : String) (publicConfig : Json) : Db → Bool × Db :=
  updateMount tenantId agentId mountAlias fun m => { m with publicConfig := publicConfig }

def setMountSecretRef (tenantId agentId mountAlias : String) (secretRef : Option String) : Db → Bool × Db :=
  updateMount tenantId agentId mountAlias fun m => { m with secretRef := secretRef }

def getMountByAlias (tenantId agentId mountAlias : String) (db : Db) : Option MountRecord :=
  Table.one (mountKey tenantId agentId mountAlias) db.mounts

def findMountsByPlugin (tenantId agentId plugin : String) (db : Db) : List MountRecord :=
  Table.orderBy (·.mountAlias) (Table.select (fun m => mountOf tenantId agentId m && m.plugin == plugin) db.mounts)

def listMounts (tenantId agentId : String) (db : Db) : List MountRecord :=
  Table.orderBy (·.mountAlias) (Table.select (mountOf tenantId agentId) db.mounts)

def pluginChoices (tenantId agentId : String) (db : Db) : List (String × Bool) :=
  (Table.select (fun r : AgentPluginRow => r.tenantId == tenantId && r.agentId == agentId) db.agentPlugins).map
    fun r => (r.plugin, r.enabled)

def setPluginChoice (ctx : Ctx) (tenantId agentId plugin : String) (choice : PluginChoice) (db : Db) : Db :=
  let key := fun r : AgentPluginRow => r.tenantId == tenantId && r.agentId == agentId && r.plugin == plugin
  if choice = .inherit then { db with agentPlugins := Table.delete key db.agentPlugins }
  else
    let enabled := choice = .enable
    let agentPlugins := Table.upsert key ⟨tenantId, agentId, plugin, enabled, ctx.now⟩
      (fun r => { r with enabled := enabled, updatedAt := ctx.now }) db.agentPlugins
    { db with agentPlugins := agentPlugins }

/-- Why a mount may not be renamed. The secret's name is asked for only when the mount has one of its own. -/
def renameRefusal (tenantId agentId source target : String) (newRef : Option String) (db : Db) :
    Option String :=
  if isBlank target then some "a mount needs a name"
  else if (Table.one (mountKey tenantId agentId source) db.mounts).isNone then some s!"no mount named {source}"
  else if (Table.one (mountKey tenantId agentId target) db.mounts).isSome then
    some s!"this agent already has a mount named {target}"
  else if newRef.isSome && (Table.one (secretKey tenantId agentId target) db.secrets).isSome then
    some s!"a credential is already stored under the name {target}"
  else none

/-- The mount's own row, under its new alias. -/
def moveMount (tenantId agentId source target : String) (db : Db) : Db :=
  let mounts := Table.update (mountKey tenantId agentId source) (fun m => { m with mountAlias := target })
    db.mounts
  { db with mounts := mounts }

/-- The mount's own secret under its new name, and the reference to it. -/
def moveSecret (tenantId agentId source target newRef : String) (db : Db) : Db :=
  let secrets := Table.update (secretKey tenantId agentId source) (fun r => { r with name := target }) db.secrets
  let mounts := Table.update (mountKey tenantId agentId target) (fun m => { m with secretRef := some newRef })
    db.mounts
  { db with secrets := secrets, mounts := mounts }

/-- The writes of a rename: the mount, its databases and its own secret. -/
def renameWrites (tenantId agentId source target : String) (newRef : Option String) (db : Db) :
    Except JsError Db :=
  (pluginDbRename tenantId agentId source target (moveMount tenantId agentId source target db)).map fun db =>
    match newRef with
    | none => db
    | some ref => moveSecret tenantId agentId source target ref db

/-- `renameMount`: the mount, its databases and its own secret, or none of them. -/
def renameMount (tenantId agentId source target : String) (newRef : Option String) (db : Db) :
    RenameResult × Db :=
  if source = target then (.ok, db)
  else
    match renameRefusal tenantId agentId source target newRef db with
    | some error => (.refused error, db)
    | none =>
      match renameWrites tenantId agentId source target newRef db with
      | .error e => (.refused s!"rename was not applied: {e.message}", db)
      | .ok db' => (.ok, db')

def removeMount (tenantId agentId mountAlias : String) (secretName installationId : Option String) (db : Db) :
    Bool × Db :=
  if (Table.one (removedMount tenantId agentId mountAlias installationId) db.mounts).isNone then (false, db)
  else
    let db := { db with mounts := Table.delete (removedMount tenantId agentId mountAlias installationId) db.mounts }
    let db := pluginDbRemove tenantId agentId mountAlias db
    (true, match secretName with
      | some name => { db with secrets := Table.delete (secretKey tenantId agentId name) db.secrets }
      | none => db)

end DurableObject
end Antiproton
