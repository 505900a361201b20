import Antiproton.Store.DurableObject
import Antiproton.Store.Sqlite

/-!
# Antiproton.Store.Adapter

`StorageAdapter` (`src/core/store.ts`), as far as operations, approvals, events, cursors, waits,
commands, quotas, agent state and mounts go: one `Call` for each method, what it answers, and the two
stores as two instances. `run` makes a sequence of calls, each at its own time and with its own ids.
-/

namespace Antiproton

/-- The methods both stores implement. -/
structure StorageAdapter where
  recordOperation : Ctx → NewOperation → Db → Db
  startOperation : Ctx → String → String → Db → Bool × Db
  getOperation : String → String → Db → Option OperationRecord
  completeOperation : Ctx → String → String → OperationStatus → Option String → Option Json → CompletedFacts →
    Db → Except JsError (Unit × Db)
  registerWait : Ctx → String → String → Nat → WaitSpec → Db → WaitAnswer × Db
  interrupt : Ctx → String → String → Db → Except JsError (Nat × Db)
  requireApproval : Ctx → HoldRequest → Db → Db
  holdApproval : Ctx → HoldRequest → (ApprovalRecord → Bool) → Db → HoldResult × Db
  getApproval : String → String → Db → Option ApprovalRecord
  decideApproval : Ctx → String → String → Decision → String → Option DecidedBy → Option Str → Db →
    DecideOutcome × Db
  listApprovals : String → Option ApprovalState → Db → List ApprovalRecord
  claimApprovalRun : String → String → Int → Db → Bool × Db
  finishApproval : String → String → FinishState → String → Str → Db → Bool × Db
  recordApprovalDelivery : String → String → ApprovalDelivery → Db → DeliveryOutcome × Db
  untoldApprovals : String → Db → List (ApprovalRecord × Option Str)
  appendEvent : Ctx → NewEvent → Db → Except JsError (Appended × Db)
  pendingEvents : String → String → String → Db → List RuntimeEvent
  taskEvents : String → String → Nat → Nat → Db → List RuntimeEvent
  eventsSince : String → String → Nat → Int → Db → List RuntimeEvent
  tasksWithPendingWork : Option Int → Db → List (String × String)
  acquireLease : Ctx → String → String → String → Int → Db → Option Lease × Db
  commitAdvance : Ctx → AdvanceTxn → Db → CommitResult × Db
  releaseIfNoWork : String → String → Nat → String → Db → ReleaseAnswer × Db
  claimOutbox : Ctx → Int → Option String → Db → List OutboxClaim × Db
  markDispatched : Ctx → String → Db → Db
  setQuota : Ctx → String → String → Option Int → Option Int → Db → Db
  consumeQuota : Ctx → String → String → Int → Db → Consumed × Db
  usage : String → Db → List QuotaUsage
  putState : Ctx → String → String → String → StateEntry → Db → Db
  appendState : Ctx → String → String → String → Str → Nat → WhenFull → Option Nat → Db →
    Except JsError ((Written × List Str) × Db)
  reviseState : Ctx → String → String → String → Str → Option Str → Nat → Option Nat → Db →
    Except JsError ((Written × Revised) × Db)
  insertState : Ctx → String → String → String → JsNumber → Str → Nat → Option Nat → Db →
    Except JsError ((Written × Nat) × Db)
  getState : String → String → String → Db → Option StateRecord
  deleteState : String → String → String → Db → Bool × Db
  listState : String → String → String → Int → Db → List StateListing
  stateUsage : String → String → Db → StateUsage
  addMount : MountRecord → Db → Except JsError (Unit × Db)
  updateMountToolSnapshot : String → String → String → Option Json → Db → Bool × Db
  updateMountPolicy : String → String → String → Option MountPolicy → Db → Bool × Db
  updateMountToolVersion : String → String → String → String → Db → Bool × Db
  updateMountConfig : String → String → String → Json → Db → Bool × Db
  setMountSecretRef : String → String → String → Option String → Db → Bool × Db
  getMountByAlias : String → String → String → Db → Option MountRecord
  findMountsByPlugin : String → String → String → Db → List MountRecord
  listMounts : String → String → Db → List MountRecord
  pluginChoices : String → String → Db → List (String × Bool)
  setPluginChoice : Ctx → String → String → String → PluginChoice → Db → Db
  renameMount : String → String → String → String → Option String → Db → RenameResult × Db
  removeMount : String → String → String → Option String → Option String → Db → Bool × Db

section Instances

open Sqlite in
/-- `SqliteStore`. -/
def sqliteStore : StorageAdapter :=
  { recordOperation, startOperation, getOperation, completeOperation, registerWait, interrupt
    requireApproval, holdApproval, getApproval, decideApproval, listApprovals, claimApprovalRun
    finishApproval, recordApprovalDelivery, untoldApprovals, appendEvent, pendingEvents, taskEvents
    eventsSince, tasksWithPendingWork, acquireLease, commitAdvance, releaseIfNoWork
    claimOutbox := fun _ => claimOutbox
    markDispatched, setQuota, consumeQuota, usage, putState, appendState, reviseState, insertState
    getState, deleteState, listState, stateUsage, addMount, updateMountToolSnapshot, updateMountPolicy
    updateMountToolVersion, updateMountConfig, setMountSecretRef, getMountByAlias, findMountsByPlugin
    listMounts, pluginChoices, setPluginChoice, renameMount, removeMount }

open DurableObject in
/-- `DurableObjectStore`. -/
def durableObjectStore : StorageAdapter :=
  { recordOperation, startOperation, getOperation, completeOperation, registerWait, interrupt
    requireApproval, holdApproval, getApproval, decideApproval, listApprovals, claimApprovalRun
    finishApproval, recordApprovalDelivery, untoldApprovals, appendEvent, pendingEvents, taskEvents
    eventsSince, tasksWithPendingWork, acquireLease, commitAdvance, releaseIfNoWork, claimOutbox
    markDispatched, setQuota, consumeQuota, usage, putState, appendState, reviseState, insertState
    getState, deleteState, listState, stateUsage, addMount, updateMountToolSnapshot, updateMountPolicy
    updateMountToolVersion, updateMountConfig, setMountSecretRef, getMountByAlias, findMountsByPlugin
    listMounts, pluginChoices, setPluginChoice, renameMount, removeMount }

end Instances

/-- One call of a store's method, with its arguments. -/
inductive Call where
  | recordOperation (op : NewOperation)
  | startOperation (tenantId operationId : String)
  | getOperation (tenantId operationId : String)
  | completeOperation (tenantId operationId : String) (status : OperationStatus) (resultRef : Option String)
      (result : Option Json) (facts : CompletedFacts)
  | registerWait (tenantId taskId : String) (generation : Nat) (wait : WaitSpec)
  | interrupt (tenantId taskId : String)
  | requireApproval (a : HoldRequest)
  | holdApproval (a : HoldRequest) (same : ApprovalRecord → Bool)
  | getApproval (tenantId operationId : String)
  | decideApproval (tenantId operationId : String) (decision : Decision) (approver : String)
      (decidedBy : Option DecidedBy) (notice : Option Str)
  | listApprovals (tenantId : String) (state : Option ApprovalState)
  | claimApprovalRun (tenantId operationId : String) (at_ : Int)
  | finishApproval (tenantId operationId : String) (state : FinishState) (summary : String) (notice : Str)
  | recordApprovalDelivery (tenantId operationId : String) (report : ApprovalDelivery)
  | untoldApprovals (tenantId : String)
  | appendEvent (e : NewEvent)
  | pendingEvents (tenantId taskId consumer : String)
  | taskEvents (tenantId taskId : String) (after through : Nat)
  | eventsSince (tenantId agentId : String) (after : Nat) (limit : Int)
  | tasksWithPendingWork (limit : Option Int)
  | acquireLease (tenantId taskId holder : String) (ttlMs : Int)
  | commitAdvance (txn : AdvanceTxn)
  | releaseIfNoWork (tenantId taskId : String) (fencingToken : Nat) (consumer : String)
  | claimOutbox (limit : Int) (tenantId : Option String)
  | markDispatched (commandId : String)
  | setQuota (tenantId resource : String) (limit windowMs : Option Int)
  | consumeQuota (tenantId resource : String) (amount : Int)
  | usage (tenantId : String)
  | putState (tenantId agentId key : String) (entry : StateEntry)
  | appendState (tenantId agentId key : String) (text : Str) (maxBytes : Nat) (whenFull : WhenFull)
      (maxTotalBytes : Option Nat)
  | reviseState (tenantId agentId key : String) (old : Str) (next : Option Str) (maxBytes : Nat)
      (maxTotalBytes : Option Nat)
  | insertState (tenantId agentId key : String) (afterLine : JsNumber) (text : Str) (maxBytes : Nat)
      (maxTotalBytes : Option Nat)
  | getState (tenantId agentId key : String)
  | deleteState (tenantId agentId key : String)
  | listState (tenantId agentId keyPrefix : String) (limit : Int)
  | stateUsage (tenantId agentId : String)
  | addMount (m : MountRecord)
  | updateMountToolSnapshot (tenantId agentId mountAlias : String) (snapshot : Option Json)
  | updateMountPolicy (tenantId agentId mountAlias : String) (policy : Option MountPolicy)
  | updateMountToolVersion (tenantId agentId mountAlias toolVersion : String)
  | updateMountConfig (tenantId agentId mountAlias : String) (publicConfig : Json)
  | setMountSecretRef (tenantId agentId mountAlias : String) (secretRef : Option String)
  | getMountByAlias (tenantId agentId mountAlias : String)
  | findMountsByPlugin (tenantId agentId plugin : String)
  | listMounts (tenantId agentId : String)
  | pluginChoices (tenantId agentId : String)
  | setPluginChoice (tenantId agentId plugin : String) (choice : PluginChoice)
  | renameMount (tenantId agentId source target : String) (newRef : Option String)
  | removeMount (tenantId agentId mountAlias : String) (secretName installationId : Option String)

/-- What a call answers: the value its method returns, or what it throws. -/
inductive Answer where
  | unit
  | bool (b : Bool)
  | nat (n : Nat)
  | operation (r : Option OperationRecord)
  | wait (a : WaitAnswer)
  | hold (h : HoldResult)
  | approval (r : Option ApprovalRecord)
  | decide (d : DecideOutcome)
  | approvals (rs : List ApprovalRecord)
  | delivery (d : DeliveryOutcome)
  | untold (rs : List (ApprovalRecord × Option Str))
  | appended (a : Appended)
  | events (es : List RuntimeEvent)
  | tasks (ts : List (String × String))
  | lease (l : Option Lease)
  | commit (c : CommitResult)
  | release (r : ReleaseAnswer)
  | claims (cs : List OutboxClaim)
  | consumed (c : Consumed)
  | usage (us : List QuotaUsage)
  | appendedText (w : Written) (dropped : List Str)
  | revised (w : Written) (r : Revised)
  | inserted (w : Written) (line : Nat)
  | state (r : Option StateRecord)
  | listing (rs : List StateListing)
  | stateUsage (u : StateUsage)
  | mount (m : Option MountRecord)
  | mounts (ms : List MountRecord)
  | choices (cs : List (String × Bool))
  | rename (r : RenameResult)
  | thrown (e : JsError)
deriving DecidableEq, Repr

/-- A method that returns. -/
def returned {α : Type} (answer : α → Answer) (r : α × Db) : Answer × Db := (answer r.1, r.2)

/-- A method that may throw; its transaction is then rolled back. -/
def attempted {α : Type} (answer : α → Answer) (db : Db) : Except JsError (α × Db) → Answer × Db
  | .ok r => (answer r.1, r.2)
  | .error e => (.thrown e, db)

namespace StorageAdapter

/-- One call of a store. -/
def exec (S : StorageAdapter) (ctx : Ctx) (c : Call) (db : Db) : Answer × Db :=
  match c with
  | .recordOperation op => (.unit, S.recordOperation ctx op db)
  | .startOperation t o => returned .bool (S.startOperation ctx t o db)
  | .getOperation t o => (.operation (S.getOperation t o db), db)
  | .completeOperation t o s ref res facts =>
    attempted (fun _ => .unit) db (S.completeOperation ctx t o s ref res facts db)
  | .registerWait t k g w => returned .wait (S.registerWait ctx t k g w db)
  | .interrupt t k => attempted .nat db (S.interrupt ctx t k db)
  | .requireApproval a => (.unit, S.requireApproval ctx a db)
  | .holdApproval a same => returned .hold (S.holdApproval ctx a same db)
  | .getApproval t o => (.approval (S.getApproval t o db), db)
  | .decideApproval t o d who by_ notice => returned .decide (S.decideApproval ctx t o d who by_ notice db)
  | .listApprovals t s => (.approvals (S.listApprovals t s db), db)
  | .claimApprovalRun t o at_ => returned .bool (S.claimApprovalRun t o at_ db)
  | .finishApproval t o s summary notice => returned .bool (S.finishApproval t o s summary notice db)
  | .recordApprovalDelivery t o r => returned .delivery (S.recordApprovalDelivery t o r db)
  | .untoldApprovals t => (.untold (S.untoldApprovals t db), db)
  | .appendEvent e => attempted .appended db (S.appendEvent ctx e db)
  | .pendingEvents t k c => (.events (S.pendingEvents t k c db), db)
  | .taskEvents t k a b => (.events (S.taskEvents t k a b db), db)
  | .eventsSince t g a n => (.events (S.eventsSince t g a n db), db)
  | .tasksWithPendingWork n => (.tasks (S.tasksWithPendingWork n db), db)
  | .acquireLease t k h ttl => returned .lease (S.acquireLease ctx t k h ttl db)
  | .commitAdvance txn => returned .commit (S.commitAdvance ctx txn db)
  | .releaseIfNoWork t k f c => returned .release (S.releaseIfNoWork t k f c db)
  | .claimOutbox n t => returned .claims (S.claimOutbox ctx n t db)
  | .markDispatched c => (.unit, S.markDispatched ctx c db)
  | .setQuota t r l w => (.unit, S.setQuota ctx t r l w db)
  | .consumeQuota t r n => returned .consumed (S.consumeQuota ctx t r n db)
  | .usage t => (.usage (S.usage t db), db)
  | .putState t g k e => (.unit, S.putState ctx t g k e db)
  | .appendState t g k text max full total =>
    attempted (fun r => .appendedText r.1 r.2) db (S.appendState ctx t g k text max full total db)
  | .reviseState t g k old next max total =>
    attempted (fun r => .revised r.1 r.2) db (S.reviseState ctx t g k old next max total db)
  | .insertState t g k after text max total =>
    attempted (fun r => .inserted r.1 r.2) db (S.insertState ctx t g k after text max total db)
  | .getState t g k => (.state (S.getState t g k db), db)
  | .deleteState t g k => returned .bool (S.deleteState t g k db)
  | .listState t g p n => (.listing (S.listState t g p n db), db)
  | .stateUsage t g => (.stateUsage (S.stateUsage t g db), db)
  | .addMount m => attempted (fun _ => .unit) db (S.addMount m db)
  | .updateMountToolSnapshot t g a s => returned .bool (S.updateMountToolSnapshot t g a s db)
  | .updateMountPolicy t g a p => returned .bool (S.updateMountPolicy t g a p db)
  | .updateMountToolVersion t g a v => returned .bool (S.updateMountToolVersion t g a v db)
  | .updateMountConfig t g a c => returned .bool (S.updateMountConfig t g a c db)
  | .setMountSecretRef t g a r => returned .bool (S.setMountSecretRef t g a r db)
  | .getMountByAlias t g a => (.mount (S.getMountByAlias t g a db), db)
  | .findMountsByPlugin t g p => (.mounts (S.findMountsByPlugin t g p db), db)
  | .listMounts t g => (.mounts (S.listMounts t g db), db)
  | .pluginChoices t g => (.choices (S.pluginChoices t g db), db)
  | .setPluginChoice t g p c => (.unit, S.setPluginChoice ctx t g p c db)
  | .renameMount t g a b r => returned .rename (S.renameMount t g a b r db)
  | .removeMount t g a s i => returned .bool (S.removeMount t g a s i db)

/-- A sequence of calls, each with its time and ids: the answers in order, and the database after. -/
def run (S : StorageAdapter) : List (Ctx × Call) → Db → List Answer × Db
  | [], db => ([], db)
  | (ctx, c) :: rest, db =>
    let r := S.exec ctx c db
    let s := run S rest r.2
    (r.1 :: s.1, s.2)

end StorageAdapter
end Antiproton
