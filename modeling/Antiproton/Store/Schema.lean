import Antiproton.Core.Types
import Antiproton.Lib.Table

/-!
# Antiproton.Store.Schema

The tables both stores keep (`SCHEMA` in `src/store/sqlite.ts` and `src/store/durable-object.ts`,
`APPROVAL_COLUMNS`, `SEED_RECORD_SCHEMA`, `SEED_FILES_SCHEMA`), a row a structure and a table a list
of rows in `rowid` order. A JSON column holds the value, not its text. `Db` is one database.

A primary key is a predicate `…Key` on rows, the one the statements of both stores select by.
-/

namespace Antiproton

structure TaskRow where
  tenantId : String
  taskId : String
  agentId : String
  status : TaskStatus
  generation : Nat
  checkpointVersion : Nat
  fencingToken : Nat
  checkpoint : Json
  stateVersion : Nat
  updatedAt : Int
deriving DecidableEq, Repr

structure EventRow where
  eventId : String
  tenantId : String
  agentId : String
  taskId : Option String
  threadId : Option String
  sequence : Nat
  kind : String
  payload : Json
  dedupKey : Option String
  createdAt : Int
deriving DecidableEq, Repr

structure CursorRow where
  tenantId : String
  taskId : String
  consumer : String
  consumedThrough : Nat
deriving DecidableEq, Repr

structure LeaseRow where
  taskId : String
  tenantId : String
  holder : String
  fencingToken : Nat
  expiresAt : Int
deriving DecidableEq, Repr

structure CounterRow where
  name : String
  value : Nat
deriving DecidableEq, Repr

inductive OutboxState where
  | pending | claimed | dispatched | done
deriving DecidableEq, Repr

structure OutboxRow where
  commandId : String
  tenantId : String
  taskId : String
  generation : Nat
  kind : String
  payload : Json
  state : OutboxState
  createdAt : Int
  dispatchedAt : Option Int
deriving DecidableEq, Repr

structure WaitRow where
  waitId : String
  tenantId : String
  taskId : String
  generation : Nat
  kind : WaitKind
  operationId : Option String
  deadline : Option Int
  resolved : Bool
deriving DecidableEq, Repr

structure OperationRow where
  operationId : String
  tenantId : String
  agentId : String
  taskId : String
  mountAlias : String
  tool : String
  toolVersion : String
  status : OperationStatus
  resultRef : Option String
  createdAt : Int
  updatedAt : Int
  modelName : Option String
deriving DecidableEq, Repr

structure ApprovalRow where
  tenantId : String
  operationId : String
  agentId : String
  taskId : String
  mountAlias : String
  tool : String
  request : Json
  state : ApprovalState
  approver : Option String
  decidedAt : Option Int
  createdAt : Int
  expiresAt : Option Int
  decidedBy : Option DecidedBy
  notice : Option Str
  toldAt : Option Int
  runAt : Option Int
  outcome : Option String
  deliveryOutcome : Option DeliveryReport
  deliveryAt : Option Int
  handoff : Option ApprovalHandoff
deriving DecidableEq, Repr

structure QuotaRow where
  tenantId : String
  resource : String
  limitValue : Option Int
  windowMs : Option Int
  used : Int
  windowStart : Int
deriving DecidableEq, Repr

/-- A value inline, or `ref`, the object it was spilled to. An inline JSON `null` has no `value`. -/
structure StateRow where
  tenantId : String
  agentId : String
  key : String
  value : Option Json
  ref : Option String
  bytes : Nat
  updatedAt : Int
deriving DecidableEq, Repr

structure AgentPluginRow where
  tenantId : String
  agentId : String
  plugin : String
  enabled : Bool
  updatedAt : Int
deriving DecidableEq, Repr

structure SecretRow where
  tenantId : String
  agentId : String
  name : String
  ciphertext : String
deriving DecidableEq, Repr

/-- A row of a plugin's own database, under its mount's alias. -/
structure PluginDbRow where
  tenantId : String
  agentId : String
  mountAlias : String
  plugin : String
  store : String
  key : String
  value : Json
deriving DecidableEq, Repr

structure PluginDbVersionRow where
  tenantId : String
  agentId : String
  mountAlias : String
  plugin : String
  version : Nat
deriving DecidableEq, Repr

structure AgentRow where
  tenantId : String
  agentId : String
  config : Json
  createdAt : Int
deriving DecidableEq, Repr

inductive TraceVerdict where
  | ok | failed | blocked | cancelled
deriving DecidableEq, Repr

/-- A row of `trace_outbox`, before the column bounds both stores' `appendTrace` shares. Why a call
failed is kept as it was given; `failureAttrs` redacts and cuts it when the row is written out. -/
structure TraceRow where
  at_ : Int
  tenantId : String
  agentId : String
  kind : String
  spanId : String
  status : String
  verdict : TraceVerdict
  ms : Option Int
  attrs : List (String × Json)
  failure : Option ToolFailure
deriving DecidableEq, Repr

/-- `seed_reconcile`: the last pass of an agent, and whether its mounts were chosen for it. -/
structure ReconcileRow where
  tenantId : String
  agentId : String
  key : Option String
  revision : Option Nat
  chosen : Bool
  updatedAt : Int
deriving DecidableEq, Repr

/-- `SeedOutcome`. -/
inductive SeedOutcome where
  | added | present | declined | notFor | unavailable | refused
deriving DecidableEq, Repr

/-- `seed_outcomes`: what became of one catalogue entry on one agent. -/
structure OutcomeRow where
  tenantId : String
  agentId : String
  entryAlias : String
  since : Nat
  plugin : String
  outcome : SeedOutcome
  reason : Option String
  at_ : Int
deriving DecidableEq, Repr

/-- `seed_notices`: an added entry the agent is to be told of. -/
structure NoticeRow where
  tenantId : String
  agentId : String
  entryAlias : String
  since : Nat
  plugin : String
  addedAt : Int
  deliveredAt : Option Int
  voidedAt : Option Int
  voidReason : Option String
deriving DecidableEq, Repr

inductive SeedMode where
  | writable | readonly
deriving DecidableEq, Repr

inductive SealHow where
  | explicit | firstInbound | firstTurn | priorActivity
deriving DecidableEq, Repr

/-- `SeedFileMeta`: what a seeded file is, without its content. -/
structure SeedFileMeta where
  path : String
  mode : SeedMode
  bytes : Nat
  sha256 : String
deriving DecidableEq, Repr

structure SeedFileRow where
  tenantId : String
  agentId : String
  path : String
  mode : SeedMode
  bytes : Nat
  sha256 : String
  content : Option Str
  ref : Option String
  seededAt : Int
deriving DecidableEq, Repr

inductive HarnessMode where
  | default | minimal
deriving DecidableEq, Repr

/-- `ToolConfig` (`src/core/tool-config.ts`): what an agent's tools were provisioned as. -/
structure ToolConfig where
  mounts : Option (List Str)
  harness : HarnessMode
deriving DecidableEq, Repr

structure SeedSealRow where
  tenantId : String
  agentId : String
  sealedAt : Int
  how : SealHow
  manifestSha256 : String
  manifest : List SeedFileMeta
  toolConfig : Option Json
deriving DecidableEq, Repr

/-- One database: every table of the schema. -/
structure Db where
  tasks : List TaskRow
  events : List EventRow
  cursors : List CursorRow
  leases : List LeaseRow
  counters : List CounterRow
  outbox : List OutboxRow
  waits : List WaitRow
  operations : List OperationRow
  approvals : List ApprovalRow
  quotas : List QuotaRow
  agentState : List StateRow
  mounts : List MountRecord
  agentPlugins : List AgentPluginRow
  secrets : List SecretRow
  pluginDb : List PluginDbRow
  pluginDbVersions : List PluginDbVersionRow
  agents : List AgentRow
  traceOutbox : List TraceRow
  seedReconcile : List ReconcileRow
  seedOutcomes : List OutcomeRow
  seedNotices : List NoticeRow
  seedFiles : List SeedFileRow
  seedSeal : List SeedSealRow
deriving DecidableEq, Repr

/-- A database just made. -/
def Db.empty : Db :=
  ⟨[], [], [], [], [], [], [], [], [], [], [], [], [], [], [], [], [], [], [], [], [], [], []⟩

/-! ## Keys -/

def taskKey (tenantId taskId : String) (r : TaskRow) : Bool :=
  r.tenantId == tenantId && r.taskId == taskId

/-- The condition of every read and update of one operation; the primary key is `operation_id`. -/
def operationKey (tenantId operationId : String) (r : OperationRow) : Bool :=
  r.tenantId == tenantId && r.operationId == operationId

def approvalKey (tenantId operationId : String) (r : ApprovalRow) : Bool :=
  r.tenantId == tenantId && r.operationId == operationId

def cursorKey (tenantId taskId consumer : String) (r : CursorRow) : Bool :=
  r.tenantId == tenantId && r.taskId == taskId && r.consumer == consumer

def quotaKey (tenantId resource : String) (r : QuotaRow) : Bool :=
  r.tenantId == tenantId && r.resource == resource

def stateKey (tenantId agentId key : String) (r : StateRow) : Bool :=
  r.tenantId == tenantId && r.agentId == agentId && r.key == key

/-- The rows `SUM(bytes)` is taken over. -/
def stateOf (tenantId agentId : String) (r : StateRow) : Bool :=
  r.tenantId == tenantId && r.agentId == agentId

def mountOf (tenantId agentId : String) (m : MountRecord) : Bool :=
  m.tenantId == tenantId && m.agentId == agentId

def mountKey (tenantId agentId mountAlias : String) (m : MountRecord) : Bool :=
  m.tenantId == tenantId && m.agentId == agentId && m.mountAlias == mountAlias

def secretKey (tenantId agentId name : String) (r : SecretRow) : Bool :=
  r.tenantId == tenantId && r.agentId == agentId && r.name == name

def agentKey (tenantId agentId : String) (r : AgentRow) : Bool :=
  r.tenantId == tenantId && r.agentId == agentId

def seedFileOf (tenantId agentId : String) (r : SeedFileRow) : Bool :=
  r.tenantId == tenantId && r.agentId == agentId

def seedFileKey (tenantId agentId path : String) (r : SeedFileRow) : Bool :=
  r.tenantId == tenantId && r.agentId == agentId && r.path == path

def sealKey (tenantId agentId : String) (r : SeedSealRow) : Bool :=
  r.tenantId == tenantId && r.agentId == agentId

end Antiproton
