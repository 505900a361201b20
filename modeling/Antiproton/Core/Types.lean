import Antiproton.Core.Js

/-!
# Antiproton.Core.Types

The runtime's domain types (`src/core/types.ts`): the states of tasks, operations and approvals, and
the records the stores answer with. Times are milliseconds since the epoch.
-/

namespace Antiproton

/-- `TaskStatus`. -/
inductive TaskStatus where
  | runnable | running | waiting | completed | interrupted | blocked | failed
deriving DecidableEq, Repr

/-- `OperationStatus`. `rejected` is refused before it ran. -/
inductive OperationStatus where
  | pending | running | succeeded | failed | cancelled | unknown | rejected
deriving DecidableEq, Repr

/-- `ApprovalState`. -/
inductive ApprovalState where
  | pending | approved | denied | expired | executed | failed
deriving DecidableEq, Repr

/-- What a person, or the clock, decides of a held call. -/
inductive Decision where
  | approved | denied | expired
deriving DecidableEq, Repr

/-- The state a decision leaves the row in. -/
def Decision.state : Decision → ApprovalState
  | .approved => .approved
  | .denied => .denied
  | .expired => .expired

/-- The roles Raft names a decider by. -/
inductive RaftRole where
  | agentOwner | serverOwner | serverAdmin
deriving DecidableEq, Repr

/-- `DecidedBy`: the path a decision came by. -/
inductive DecidedBy where
  | raft (raftUserId : String) (role : RaftRole)
  | console (approver : String)
  | expiry
deriving DecidableEq, Repr

inductive DeliveryReport where
  | delivered | noRecipient
deriving DecidableEq, Repr

/-- `ApprovalDelivery`: what Raft reported of a hold's card, and when. -/
structure ApprovalDelivery where
  outcome : DeliveryReport
  at_ : Int
deriving DecidableEq, Repr

/-- `ApprovalHandoff`. -/
inductive ApprovalHandoff where
  | notSent | accepted | failed
deriving DecidableEq, Repr

/-- `ApprovalRecord`: a call held back for a decision, as the stores answer with it. -/
structure ApprovalRecord where
  tenantId : String
  operationId : String
  agentId : String
  taskId : String
  mountAlias : String
  tool : String
  request : Json
  state : ApprovalState
  approver : Option String
  decidedAt : Option Int
  createdAt : Int
  expiresAt : Option Int
  decidedBy : Option DecidedBy
  outcome : Option String
  runAt : Option Int
  delivery : Option ApprovalDelivery
  handoff : Option ApprovalHandoff
deriving DecidableEq, Repr

/-- `OperationRecord`. -/
structure OperationRecord where
  operationId : String
  tenantId : String
  agentId : String
  taskId : String
  mountAlias : String
  tool : String
  modelName : Option String
  toolVersion : String
  status : OperationStatus
  resultRef : Option String
deriving DecidableEq, Repr

/-- `RuntimeEvent`. -/
structure RuntimeEvent where
  eventId : String
  tenantId : String
  agentId : String
  taskId : Option String
  threadId : Option String
  sequence : Nat
  kind : String
  payload : Json
  dedupKey : Option String
  createdAt : Int
deriving DecidableEq, Repr

/-- `PolicyDecision`. -/
inductive PolicyDecision where
  | allow | deny | approval
deriving DecidableEq, Repr

/-- `sideEffects`: what a tool declares, and what a policy's two halves are for. -/
inductive Side where
  | read | write
deriving DecidableEq, Repr

/-- `MountPolicy`: two halves, and an entry for each tool that has one of its own. -/
structure MountPolicy where
  read : Option PolicyDecision
  write : Option PolicyDecision
  tools : Option (List (String × PolicyDecision))
deriving DecidableEq, Repr

/-- `MountRecord`: the binding of an alias to an installation of a plugin. -/
structure MountRecord where
  tenantId : String
  agentId : String
  mountAlias : String
  plugin : String
  installationId : String
  connectionId : Option String
  toolVersion : String
  publicConfig : Json
  secretRef : Option String
  policy : Option MountPolicy
  toolSnapshot : Option Json
deriving DecidableEq, Repr

/-- `Lease`. -/
structure Lease where
  tenantId : String
  taskId : String
  holder : String
  fencingToken : Nat
  expiresAt : Int
deriving DecidableEq, Repr

inductive WaitKind where
  | operation | message | timer
deriving DecidableEq, Repr

/-- `WaitSpec`. -/
structure WaitSpec where
  kind : WaitKind
  operationId : Option String
  deadline : Option Int
deriving DecidableEq, Repr

/-- `OutboxCommand`. -/
structure OutboxCommand where
  commandId : String
  kind : String
  payload : Json
deriving DecidableEq, Repr

/-- `AdvanceTxn`: one advance of a task, committed whole. -/
structure AdvanceTxn where
  tenantId : String
  taskId : String
  generation : Nat
  fencingToken : Nat
  expectedCheckpointVersion : Nat
  checkpoint : Json
  stateVersion : Nat
  status : TaskStatus
  consumedThrough : Option Nat
  waits : List WaitSpec
  commands : List OutboxCommand
deriving DecidableEq, Repr

/-- `CommitResult`. -/
inductive CommitResult where
  | ok (checkpointVersion : Nat)
  | noTask
  | fenced
  | staleGeneration
  | versionConflict
deriving DecidableEq, Repr

/-- `PluginErrorFields`, as a failed step's completion records them. -/
structure ToolFailure where
  code : Option String
  httpStatus : Option Int
  message : String
deriving DecidableEq, Repr

/-- `CompletedFacts` (`src/core/store.ts`): what a completion records beyond its status. -/
structure CompletedFacts where
  callId : Option String
  identity : Option String
  credentialRef : Option String
  exitCode : Option Str
  startedAt : Option Int
  denied : Bool
  failure : Option ToolFailure
deriving DecidableEq, Repr

/-- No facts: `undefined`, or an empty object. -/
def CompletedFacts.none : CompletedFacts := ⟨.none, .none, .none, .none, .none, false, .none⟩

end Antiproton
