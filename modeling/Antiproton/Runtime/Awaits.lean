import Antiproton.Lib.Process
import Antiproton.Plugins.Types
import Antiproton.Store.DurableObject

/-!
# Antiproton.Runtime.Awaits

The gateway's awaits: what one of its methods does between two points where another may run. Each is one
call of the store, one draw of an id, or one call of a plugin's code, and `Await.exec` is what it does to
the world. What a clock, a draw, a secret or a plugin gives is an `Input` to the step.
-/

namespace Antiproton

open Js Process

/-- `CallContext`. -/
structure CallContext where
  tenantId : String
  agentId : String
  taskId : String
deriving DecidableEq, Repr

/-- What an operation id is drawn for: a call without a key, or the answer to a tool's question. -/
inductive Purpose where
  | call | resume
deriving DecidableEq, Repr

/-- Where operation ids come from: `sha256` in hexadecimal, and the random ids of one run. No draw is
made twice for different purposes, and none is a hash. -/
structure OperationIds where
  sha256 : String → String
  random : Purpose → Nat → String
  call_ne_resume : ∀ m n, random .call m ≠ random .resume n
  keyed_ne_resume : ∀ s n, String.ofList ((sha256 s).toList.take 20) ≠ random .resume n

/-- `keyedOperationId` (`src/runtime/operation-id.ts`). -/
def OperationIds.keyed (ids : OperationIds) (tenantId taskId idempotencyKey : String) : String :=
  "op_" ++ String.ofList ((ids.sha256 s!"{tenantId}|{taskId}|{idempotencyKey}").toList.take 20)

/-- The `n`-th random operation id. -/
def OperationIds.drawn (ids : OperationIds) (purpose : Purpose) (n : Nat) : String := "op_" ++ ids.random purpose n

/-- What a plugin's step is asked to do. -/
inductive StepKind where
  | invoke (args : Json)
  | request (req : BridgeRequest)
  | resume (state answer : Json)

/-- One step of a plugin, and what it is told of the call. -/
structure PluginStep where
  tenantId : String
  /-- The row the step is recorded under. -/
  operationId : String
  /-- The operation the plugin is told it serves. -/
  serves : String
  mount : MountRecord
  tool : String
  credential : Option String
  fromProgram : Bool
  kind : StepKind

inductive Await where
  | getMountByAlias (tenantId agentId mountAlias : String)
  | findMountsByPlugin (tenantId agentId plugin : String)
  | isRemoving (tenantId agentId mountAlias : String)
  | pluginChoices (tenantId agentId : String)
  | randomId (purpose : Purpose)
  | clock
  | recordTrace (rows : List TraceRow)
  | getOperation (tenantId operationId : String)
  | recordOperation (op : NewOperation)
  | startOperation (tenantId operationId : String)
  | completeOperation (tenantId operationId : String) (status : OperationStatus) (resultRef : Option String)
      (result : Option Json) (facts : CompletedFacts)
  | holdApproval (a : HoldRequest) (same : ApprovalRecord → Bool)
  | getApproval (tenantId operationId : String)
  | decideApproval (tenantId operationId : String) (decision : Decision) (approver : String)
      (decidedBy : Option DecidedBy) (notice : Option Str)
  | listApprovals (tenantId : String) (state : Option ApprovalState)
  | claimApprovalRun (tenantId operationId : String) (at_ : Int)
  | finishApproval (tenantId operationId : String) (state : FinishState) (summary : String) (notice : Str)
  | heldPlace (ctx : CallContext)
  | resolveSecret (ref tenantId agentId : String)
  | enter (step : PluginStep)
  | cancelStep (mount : MountRecord) (tool : String) (state : Json) (serves : Option String)

/-- What an await answers. -/
@[reducible] def Await.Ans : Await → Type
  | getMountByAlias .. => Option MountRecord
  | findMountsByPlugin .. => List MountRecord
  | isRemoving .. => Bool
  | pluginChoices .. => List (String × Bool)
  | randomId _ => String
  | clock => Int
  | recordTrace _ => Unit
  | getOperation .. => Option OperationRecord
  | recordOperation _ => Unit
  | startOperation .. => Bool
  | completeOperation .. => Except JsError Unit
  | holdApproval .. => HoldResult
  | getApproval .. => Option ApprovalRecord
  | decideApproval .. => DecideOutcome
  | listApprovals .. => List ApprovalRecord
  | claimApprovalRun .. => Bool
  | finishApproval .. => Bool
  | heldPlace _ => Option HeldPlace
  | resolveSecret .. => Except Thrown String
  | enter _ => StepAnswer
  | cancelStep .. => Except Thrown Unit

/-- What a gateway method runs over: the database, the mounts being removed, and how many ids were drawn. -/
structure World where
  db : Db
  removing : List String
  drawn : Nat

/-- What the environment decides of one await. -/
structure Input where
  now : Int
  uuid : Nat → String
  place : Option HeldPlace
  secret : Except Thrown String
  step : StepAnswer
  cancelled : Except Thrown Unit

/-- The key `#removing` is kept under. -/
def removingKey (tenantId agentId mountAlias : String) : String := s!"{tenantId}/{agentId}/{mountAlias}"

/-- A change of the database alone. -/
def World.store {A : Type} (w : World) (r : A × Db) : A × World := (r.1, { w with db := r.2 })

open DurableObject in
/-- What an await answers and does, on production's store. -/
def Await.exec (ids : OperationIds) (o : Await) (i : Input) (w : World) : o.Ans × World :=
  let ctx : Ctx := ⟨i.now, i.uuid⟩
  match o with
  | getMountByAlias t g a => (DurableObject.getMountByAlias t g a w.db, w)
  | findMountsByPlugin t g p => (DurableObject.findMountsByPlugin t g p w.db, w)
  | isRemoving t g a => (w.removing.contains (removingKey t g a), w)
  | pluginChoices t g => (DurableObject.pluginChoices t g w.db, w)
  | randomId purpose => (ids.drawn purpose w.drawn, { w with drawn := w.drawn + 1 })
  | clock => (i.now, w)
  | recordTrace rows => ((), { w with db := rows.foldl (fun db row => appendTrace row db) w.db })
  | getOperation t o => (DurableObject.getOperation t o w.db, w)
  | recordOperation op => ((), { w with db := DurableObject.recordOperation ctx op w.db })
  | startOperation t o => w.store (DurableObject.startOperation ctx t o w.db)
  | completeOperation t o s ref result facts =>
    match DurableObject.completeOperation ctx t o s ref result facts w.db with
    | .ok r => (.ok (), { w with db := r.2 })
    | .error e => (.error e, w)
  | holdApproval a same => w.store (DurableObject.holdApproval ctx a same w.db)
  | getApproval t o => (DurableObject.getApproval t o w.db, w)
  | decideApproval t o d who by_ notice => w.store (DurableObject.decideApproval ctx t o d who by_ notice w.db)
  | listApprovals t s => (DurableObject.listApprovals t s w.db, w)
  | claimApprovalRun t o at_ => w.store (DurableObject.claimApprovalRun t o at_ w.db)
  | finishApproval t o s summary notice => w.store (DurableObject.finishApproval t o s summary notice w.db)
  | heldPlace _ => (i.place, w)
  | resolveSecret .. => (i.secret, w)
  | enter _ => (i.step, w)
  | cancelStep .. => (i.cancelled, w)

/-- The gateway's interface to the world. -/
@[reducible] def gatewayInterface : Interface := ⟨Await, Await.Ans⟩

/-- A gateway method: it awaits, and it may throw. -/
abbrev Act (A : Type) : Type := Prog gatewayInterface Thrown A

/-- One await. -/
def await (o : Await) : Act o.Ans := .perform (F := gatewayInterface) o

end Antiproton
