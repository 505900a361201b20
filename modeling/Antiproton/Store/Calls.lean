import Antiproton.Runtime.ApprovalNotice
import Antiproton.Store.ApprovalsSchema
import Antiproton.Store.StateLines
import Antiproton.Trace.Seams

/-!
# Antiproton.Store.Calls

What the two stores have in common: the arguments and answers of their methods, and what the SQL
engine under both does with a statement that breaks a unique index. A method that cannot throw is a
function to an answer and a database; one that can returns no database with its error, since the
transaction it runs in is rolled back.
-/

namespace Antiproton

/-- What a call is made with besides its arguments: the time, and the random ids it draws. -/
structure Ctx where
  now : Int
  uuid : Nat → String

/-- The engine's error for a row whose key is taken. -/
def uniqueFailed (columns : String) : JsError := .ofMessage s!"UNIQUE constraint failed: {columns}"

/-- `LIMIT n`: a negative limit is none. -/
def limitTo {R : Type} (n : Int) (rows : List R) : List R :=
  if n < 0 then rows else rows.take n.toNat

/-- ASCII case folding, as `LIKE` does it. -/
def foldAscii (c : Char) : Char := if c.isUpper then c.toLower else c

/-- `s LIKE pattern`. -/
def like : List Char → List Char → Bool
  | [], s => s.isEmpty
  | '%' :: p, s => s.tails.any (like p)
  | '_' :: p, s =>
    match s with
    | [] => false
    | _ :: rest => like p rest
  | c :: p, s =>
    match s with
    | [] => false
    | d :: rest => foldAscii c == foldAscii d && like p rest

/-- What an event is appended with. -/
structure NewEvent where
  tenantId : String
  agentId : String
  taskId : Option String
  threadId : Option String
  kind : String
  payload : Json
  dedupKey : Option String
deriving DecidableEq, Repr

/-- What `appendEvent` answers. -/
structure Appended where
  inserted : Bool
  sequence : Nat
  eventId : String
deriving DecidableEq, Repr

/-- The row an event is kept as. -/
def NewEvent.row (e : NewEvent) (eventId : String) (sequence : Nat) (now : Int) : EventRow :=
  ⟨eventId, e.tenantId, e.agentId, e.taskId, e.threadId, sequence, e.kind, e.payload, e.dedupKey, now⟩

/-- The task an event is for, when another agent owns it. -/
def foreignTask (e : NewEvent) (db : Db) : Option TaskRow :=
  ((e.taskId.filter (· ≠ "")).bind fun taskId => Table.one (taskKey e.tenantId taskId) db.tasks).filter
    fun t => t.agentId ≠ e.agentId

/-- The event already kept under the same deduplication key. -/
def duplicateEvent (e : NewEvent) (db : Db) : Option EventRow :=
  (e.dedupKey.filter (· ≠ "")).bind fun key =>
    Table.one (fun r : EventRow => r.tenantId == e.tenantId && r.dedupKey == some key) db.events

/-- The unique index of `events` a new row would break. A random id is never taken. -/
def eventClash (row : EventRow) (db : Db) : Option JsError :=
  if row.dedupKey.isSome &&
      db.events.any fun r => r.tenantId == row.tenantId && r.dedupKey == row.dedupKey then
    some (uniqueFailed "events.tenant_id, events.dedup_key")
  else if db.events.any fun r =>
      r.tenantId == row.tenantId && r.agentId == row.agentId && r.sequence == row.sequence then
    some (uniqueFailed "events.tenant_id, events.agent_id, events.sequence")
  else none

def addEvent (row : EventRow) (db : Db) : Db := { db with events := db.events ++ [row] }

/-- `INSERT INTO events`. -/
def insertEventRow (row : EventRow) (db : Db) : Except JsError Db :=
  match eventClash row db with
  | some e => .error e
  | none => .ok (addEvent row db)

/-- What a row of `events` reads as. -/
def eventRecord (r : EventRow) : RuntimeEvent :=
  ⟨r.eventId, r.tenantId, r.agentId, r.taskId, r.threadId, r.sequence, r.kind, r.payload, r.dedupKey,
    r.createdAt⟩

/-- What a row of `operations` reads as. -/
def operationRecord (r : OperationRow) : OperationRecord :=
  ⟨r.operationId, r.tenantId, r.agentId, r.taskId, r.mountAlias, r.tool, r.modelName, r.toolVersion,
    r.status, r.resultRef⟩

/-- What `recordOperation` is given. -/
structure NewOperation where
  operationId : String
  tenantId : String
  agentId : String
  taskId : String
  mountAlias : String
  tool : String
  modelName : Option String
  toolVersion : String
deriving DecidableEq, Repr

/-- The row a recorded operation starts as. -/
def NewOperation.row (op : NewOperation) (now : Int) : OperationRow :=
  ⟨op.operationId, op.tenantId, op.agentId, op.taskId, op.mountAlias, op.tool, op.toolVersion, .pending,
    none, now, now, op.modelName⟩

inductive WaitAnswer where
  | registered | alreadySatisfied
deriving DecidableEq, Repr

inductive ReleaseAnswer where
  | released | hasWork | fenced
deriving DecidableEq, Repr

structure OutboxClaim where
  commandId : String
  taskId : String
  kind : String
  payload : Json
deriving DecidableEq, Repr

structure Consumed where
  allowed : Bool
  used : Int
  limit : Option Int
deriving DecidableEq, Repr

structure QuotaUsage where
  resource : String
  used : Int
  limit : Option Int
  windowStart : Int
deriving DecidableEq, Repr

/-- `StateEntry`: what `putState` writes. -/
structure StateEntry where
  value : Option Json
  ref : Option String
  bytes : Nat
deriving DecidableEq, Repr

/-- What `getState` answers. -/
structure StateRecord where
  value : Json
  ref : Option String
  bytes : Nat
  updatedAt : Int
deriving DecidableEq, Repr

def stateRecord (r : StateRow) : StateRecord := ⟨r.value.getD .null, r.ref, r.bytes, r.updatedAt⟩

/-- What a document edit answers. -/
structure Written where
  characters : Nat
  bytes : Nat
deriving DecidableEq, Repr

structure StateListing where
  key : String
  bytes : Nat
  ref : Option String
  updatedAt : Int
deriving DecidableEq, Repr

structure StateUsage where
  keys : Nat
  bytes : Nat
deriving DecidableEq, Repr

/-- `PluginChoice`. -/
inductive PluginChoice where
  | enable | disable | inherit
deriving DecidableEq, Repr

/-- `AGENT_SCOPE_ALIAS` (`src/store/plugin-db.ts`). -/
def agentScopeAlias : String := ""

/-- What `renameMount` answers. -/
inductive RenameResult where
  | ok
  | refused (error : String)
deriving DecidableEq, Repr


/-- `!s.trim()`. -/
def isBlank (s : String) : Bool := s.toList.all isSpaceChar

/-! ## What both stores decide alike -/

/-- Whether an operation in this status may be started. -/
def startable (status : OperationStatus) : Bool := status = .pending || status = .rejected

/-- The event an operation's completion appends. -/
def completionEvent (op : OperationRow) (tenantId operationId : String) (status : OperationStatus)
    (resultRef : Option String) (result : Option Json) (facts : CompletedFacts) : NewEvent :=
  ⟨tenantId, op.agentId, some op.taskId, none, "operation.completed",
    completedPayload operationId status resultRef result facts, some s!"op:{operationId}:completed"⟩

/-- The ends a wait registered too late is already satisfied by. -/
def satisfies (status : OperationStatus) : Bool :=
  status = .succeeded || status = .failed || status = .cancelled || status = .unknown

/-- Whether the operation a wait is for has already reached one of them. -/
def waitSatisfied (tenantId : String) (wait : WaitSpec) (db : Db) : Bool :=
  wait.kind = .operation &&
    ((wait.operationId.filter (· ≠ "")).bind fun id => Table.one (operationKey tenantId id) db.operations).any
      fun r => satisfies r.status

/-- The row of a document as the line rules read it. -/
def priorDocument (r : StateRecord) : Json × Option String := (r.value, r.ref)

/-- The holds an identical call may be merged into, oldest first. -/
def openHolds (now : Int) (a : HoldRequest) (db : Db) : List ApprovalRow :=
  Table.orderBy (·.createdAt) (Table.select (fun r => r.tenantId == a.tenantId && r.agentId == a.agentId &&
    r.mountAlias == a.mountAlias && r.tool == a.tool && decide (r.state = .pending) &&
    !pastDeadline r.expiresAt now) db.approvals)

/-- What a decision writes on its row. -/
def decided (decision : Decision) (approver : String) (at_ : Int) (by_ : Option DecidedBy) (r : ApprovalRow) :
    ApprovalRow :=
  { r with state := decision.state, approver := some approver, decidedAt := some at_, decidedBy := by_ }

/-- The state a finished run leaves its hold in. -/
def FinishState.state : FinishState → ApprovalState
  | .executed => .executed
  | .failed => .failed

/-- Whether a row of a plugin's database is already kept under the new alias. -/
def pluginDbTaken (tenantId agentId source target : String) (db : Db) : Bool :=
  db.pluginDb.any fun r => r.tenantId == tenantId && r.agentId == agentId && r.mountAlias == source &&
    db.pluginDb.any fun s => s.tenantId == tenantId && s.agentId == agentId && s.mountAlias == target &&
      s.plugin == r.plugin && s.store == r.store && s.key == r.key

/-- The same, of the row its version is kept in. -/
def pluginDbVersionTaken (tenantId agentId source target : String) (db : Db) : Bool :=
  db.pluginDbVersions.any fun r => r.tenantId == tenantId && r.agentId == agentId && r.mountAlias == source &&
    db.pluginDbVersions.any fun s => s.tenantId == tenantId && s.agentId == agentId &&
      s.mountAlias == target && s.plugin == r.plugin

/-- `PluginDbTables.rename`: every database filed under one alias, moved to another. -/
def pluginDbRename (tenantId agentId source target : String) (db : Db) : Except JsError Db :=
  if pluginDbTaken tenantId agentId source target db then
    .error (uniqueFailed ("plugin_db.tenant_id, plugin_db.agent_id, plugin_db.alias, plugin_db.plugin, " ++
      "plugin_db.store, plugin_db.key"))
  else if pluginDbVersionTaken tenantId agentId source target db then
    .error (uniqueFailed ("plugin_db_versions.tenant_id, plugin_db_versions.agent_id, plugin_db_versions.alias, " ++
      "plugin_db_versions.plugin"))
  else
    let pluginDb := Table.update (fun r : PluginDbRow => r.tenantId == tenantId && r.agentId == agentId &&
      r.mountAlias == source) (fun r => { r with mountAlias := target }) db.pluginDb
    let pluginDbVersions := Table.update (fun r : PluginDbVersionRow => r.tenantId == tenantId &&
      r.agentId == agentId && r.mountAlias == source) (fun r => { r with mountAlias := target }) db.pluginDbVersions
    .ok { db with pluginDb := pluginDb, pluginDbVersions := pluginDbVersions }

/-- `PluginDbTables.remove`. -/
def pluginDbRemove (tenantId agentId mountAlias : String) (db : Db) : Db :=
  let pluginDb := Table.delete (fun r : PluginDbRow => r.tenantId == tenantId && r.agentId == agentId &&
    r.mountAlias == mountAlias) db.pluginDb
  let pluginDbVersions := Table.delete (fun r : PluginDbVersionRow => r.tenantId == tenantId &&
    r.agentId == agentId && r.mountAlias == mountAlias) db.pluginDbVersions
  { db with pluginDb := pluginDb, pluginDbVersions := pluginDbVersions }

/-- The mount `removeMount` is asked for: of an alias, and of one installation when one is named. -/
def removedMount (tenantId agentId mountAlias : String) (installationId : Option String) (m : MountRecord) :
    Bool :=
  mountKey tenantId agentId mountAlias m &&
    match installationId with
    | some i => m.installationId == i
    | none => true

end Antiproton
