import Antiproton.Store.Schema

/-!
# Antiproton.Trace.Seams

The trace rows the stores write in the transaction of the fact they report (`src/trace/seams.ts`),
and the payload of an operation's completion event (`src/store/operation-event.ts`).
-/

namespace Antiproton

open Js

def Json.ofInt (n : Int) : Json := .num (js (toString n))

def OperationStatus.text : OperationStatus → String
  | .pending => "pending"
  | .running => "running"
  | .succeeded => "succeeded"
  | .failed => "failed"
  | .cancelled => "cancelled"
  | .unknown => "unknown"
  | .rejected => "rejected"

def Decision.text : Decision → String
  | .approved => "approved"
  | .denied => "denied"
  | .expired => "expired"

/-- `operationEnded`. -/
def operationEnded : OperationStatus → Bool
  | .succeeded | .failed | .cancelled | .unknown | .rejected => true
  | .pending | .running => false

/-- `operationVerdict`. -/
def operationVerdict : OperationStatus → TraceVerdict
  | .succeeded => .ok
  | .cancelled => .cancelled
  | .failed | .unknown => .failed
  | .rejected => .blocked
  | .pending | .running => .failed

/-- `operationEnds`: a terminal status reached from one that was not. -/
def operationEnds (prior : Option OperationStatus) (status : OperationStatus) : Bool :=
  operationEnded status &&
    match prior with
    | some p => !operationEnded p
    | none => false

/-- An optional attribute, left out when there is none. -/
def attr (name : String) (v : Option Json) : List (String × Json) :=
  match v with
  | some v => [(name, v)]
  | none => []

/-- An optional text, left out when it is absent or empty. -/
def textAttr (name : String) (s : Option String) : List (String × Json) :=
  attr name ((s.filter (· ≠ "")).map .ofString)

/-- `toolCallRow`: the row of an operation that just ended. -/
def toolCallRow (op : OperationRow) (status : OperationStatus) (endedAt : Int)
    (facts : CompletedFacts) : TraceRow where
  at_ := endedAt
  tenantId := op.tenantId
  agentId := op.agentId
  kind := "tool.call"
  spanId := op.operationId
  status := status.text
  verdict := operationVerdict status
  ms := some (max 0 (endedAt - op.createdAt))
  attrs :=
    [("tool", .ofString op.tool), ("mount", .ofString op.mountAlias)] ++ textAttr "name" op.modelName ++
    [("task", .ofString op.taskId)] ++ textAttr "callId" facts.callId ++
    attr "exitCode" (facts.exitCode.map .num) ++
    attr "runMs" (facts.startedAt.map fun t => .ofInt (max 0 (endedAt - max t op.createdAt))) ++
    (if facts.denied then [("denied", .bool true)] else [])
  failure := if status = .succeeded then none else facts.failure

/-- `approvalRow`: the row of a decision that just landed. -/
def approvalRow (r : ApprovalRow) (decision : Decision) (approver : String) (decidedAt : Int) :
    TraceRow where
  at_ := decidedAt
  tenantId := r.tenantId
  agentId := r.agentId
  kind := "approval.wait"
  spanId := r.operationId
  status := decision.text
  verdict := if decision = .approved then .ok else .blocked
  ms := some (max 0 (decidedAt - r.createdAt))
  attrs :=
    [("tool", .ofString r.tool), ("mount", .ofString r.mountAlias), ("task", .ofString r.taskId),
      ("approver", .ofString approver)]
  failure := none

def SeedOutcome.text : SeedOutcome → String
  | .added => "added"
  | .present => "present"
  | .declined => "declined"
  | .notFor => "not-for"
  | .unavailable => "unavailable"
  | .refused => "refused"

/-- `seededRow`: the row of an outcome that just changed. `notice` is given of an added entry only. -/
def seededRow (r : OutcomeRow) (notice : Option String) : TraceRow where
  at_ := r.at_
  tenantId := r.tenantId
  agentId := r.agentId
  kind := "mount.seeded"
  spanId := s!"{r.entryAlias}@{r.since}"
  status := r.outcome.text
  verdict := match r.outcome with
    | .refused => .failed
    | .declined | .unavailable => .blocked
    | .added | .present | .notFor => .ok
  ms := none
  attrs :=
    [("alias", .ofString r.entryAlias), ("plugin", .ofString r.plugin), ("since", .ofInt r.since),
      ("outcome", .ofString r.outcome.text), ("reason", (r.reason.map .ofString).getD .null)] ++
    attr "notice" (notice.map .ofString)
  failure := none

/-- `appendTrace`: a row without a span is dropped. -/
def appendTrace (row : TraceRow) (db : Db) : Db :=
  if row.spanId = "" then db else { db with traceOutbox := db.traceOutbox ++ [row] }

/-- `completedPayload`: the payload of `operation.completed`. -/
def completedPayload (operationId : String) (status : OperationStatus) (resultRef : Option String)
    (result : Option Json) (facts : CompletedFacts) : Json :=
  let fields : List (String × Json) :=
    [("operationId", .ofString operationId), ("status", .ofString status.text),
      ("resultRef", (resultRef.map .ofString).getD .null)] ++
    attr "result" result ++ attr "callId" (facts.callId.map .ofString) ++
    attr "identity" (facts.identity.map .ofString) ++
    attr "credentialRef" (facts.credentialRef.map .ofString)
  .obj (fields.map fun f => (js f.1, f.2))

/-! ## What a trace row leaves alone -/

@[simp] theorem appendTrace_operations (row : TraceRow) (db : Db) :
    (appendTrace row db).operations = db.operations := by unfold appendTrace; split <;> rfl

@[simp] theorem appendTrace_approvals (row : TraceRow) (db : Db) :
    (appendTrace row db).approvals = db.approvals := by unfold appendTrace; split <;> rfl

@[simp] theorem appendTrace_mounts (row : TraceRow) (db : Db) :
    (appendTrace row db).mounts = db.mounts := by unfold appendTrace; split <;> rfl

@[simp] theorem appendTrace_seedOutcomes (row : TraceRow) (db : Db) :
    (appendTrace row db).seedOutcomes = db.seedOutcomes := by unfold appendTrace; split <;> rfl

@[simp] theorem appendTrace_seedNotices (row : TraceRow) (db : Db) :
    (appendTrace row db).seedNotices = db.seedNotices := by unfold appendTrace; split <;> rfl

@[simp] theorem appendTrace_seedReconcile (row : TraceRow) (db : Db) :
    (appendTrace row db).seedReconcile = db.seedReconcile := by unfold appendTrace; split <;> rfl

end Antiproton
