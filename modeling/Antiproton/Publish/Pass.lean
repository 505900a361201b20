import Antiproton.Publish.Index
import Antiproton.Store.DurableObject

/-!
# Antiproton.Publish.Pass

Publishing an agent's held calls (`publishApprovals`, `cf/src/approvals.ts`), each pass from one wait to the next: the
registry's record, the redacted item, the write to D1, the signing, the hint and its answer's body. Beside it, what else
changes what a pass reads: the store's writes of held calls, the registry, and the writes that land in D1.

The column `published_state` is kept beside the rows of `approvals`, and every try that ended is logged in `tries`.
-/

namespace Antiproton.Publish

open Js

def HINT_ATTEMPTS : Nat := 6

/-- 30 s, 1, 2, 4, 8 min, then every 15 min. -/
def publishBackoffMs (attempts : Nat) : Int := min (15 * 60000) (30000 * 2 ^ (attempts - 1))

/-- A row of `approval_publish`. -/
structure PublishRow where
  operationId : String
  forState : ApprovalState
  indexed : Bool
  attempts : Nat
  nextAt : Int
deriving DecidableEq

/-- The column `published_state` of a hold. -/
structure PublishedMark where
  operationId : String
  state : ApprovalState
deriving DecidableEq

/-- What a try at a hold's state came to. -/
inductive TryResult where
  /-- The registry had no such agent: marked published as it is. -/
  | unprovisioned
  /-- Raft took the hint. -/
  | accepted
  /-- The copy is written, and there is nowhere to send a hint, or nobody to. -/
  | notSent
  /-- The item could not be built, or D1 did not take it. -/
  | unwritten
  /-- The hint was begun and did not get through. -/
  | refused
deriving DecidableEq

/-- A try that ended; `live` is whether the registry's record was of an agent not deleted. -/
structure Try where
  operationId : String
  state : ApprovalState
  live : Bool
  result : TryResult
  gaveUp : Bool
deriving DecidableEq

def Try.failed (t : Try) : Bool := t.result == .unwritten || t.result == .refused

/-- The hand-off a try at the pending state records. -/
def Try.handoff (t : Try) : Option ApprovalHandoff :=
  if t.state ≠ .pending then none
  else
    match t.result with
    | .accepted => some .accepted
    | .notSent => if t.live then some .notSent else none
    | .refused => some .failed
    | _ => none

/-- The agent's object: its store, the column `published_state`, and the tries under way. -/
structure Tables where
  db : Db
  published : List PublishedMark
  progress : List PublishRow
  tries : List Try
deriving DecidableEq

/-- An unpublished hold as a pass read it. -/
structure Joined where
  row : ApprovalRow
  progress : Option PublishRow
deriving DecidableEq

/-- The row of `approval_publish` is for the state the hold is in. -/
def Joined.fresh (j : Joined) : Option PublishRow := j.progress.filter fun p => p.forState = j.row.state

def Joined.attempts (j : Joined) : Nat := (j.fresh.map (·.attempts)).getD 0

def Joined.indexed (j : Joined) : Bool := (j.fresh.map (·.indexed)).getD false

structure Agent where
  tenantId : String
  agentId : String
deriving DecidableEq

structure Answer where
  published : Nat
  failed : Nat
  nextAt : Option Int
deriving DecidableEq

section Reads

variable (who : Agent)

def Tables.publishedState (t : Tables) (op : String) : Option ApprovalState :=
  (Table.one (·.operationId == op) t.published).map (·.state)

/-- The hold's state is not the one last published. -/
def Tables.unpublished (t : Tables) (r : ApprovalRow) : Bool :=
  r.tenantId == who.tenantId && r.agentId == who.agentId && t.publishedState r.operationId != some r.state

def Tables.unpublishedRows (t : Tables) : List ApprovalRow := Table.select (t.unpublished who) t.db.approvals

def Tables.progressOf (t : Tables) (op : String) : Option PublishRow := Table.one (·.operationId == op) t.progress

/-- When a hold's state is to be tried: at once, or after the back-off of a try at this state. -/
def Tables.nextTry (t : Tables) (r : ApprovalRow) : Int :=
  (((t.progressOf r.operationId).filter fun p => p.forState = r.state).map (·.nextAt)).getD 0

/-- The page a pass reads: fifty unpublished rows, the oldest first. -/
def Tables.page (t : Tables) : List Joined :=
  ((Table.orderBy (·.createdAt) (t.unpublishedRows who)).take 50).map fun r => ⟨r, t.progressOf r.operationId⟩

def Tables.due (now : Int) (t : Tables) : List Joined :=
  (t.page who).filter fun j => ((j.fresh.map (·.nextAt)).getD 0) ≤ now

/-- When the soonest unpublished hold is to be tried, over all of them. -/
def Tables.nextAt (now : Int) (t : Tables) : Option Int :=
  (((t.unpublishedRows who).map t.nextTry).min?).map fun n => max n now

/-! ## What a try writes -/

def Tables.markPublished (j : Joined) (t : Tables) : Tables :=
  { t with
    published := Table.upsert (·.operationId == j.row.operationId) ⟨j.row.operationId, j.row.state⟩
      (fun _ => ⟨j.row.operationId, j.row.state⟩) t.published
    progress := Table.delete (·.operationId == j.row.operationId) t.progress }

/-- How the hint for the pending state went, on the row. -/
def Tables.handoff (j : Joined) (v : ApprovalHandoff) (t : Tables) : Tables :=
  if j.row.state = .pending then
    let approvals := Table.update (approvalKey who.tenantId j.row.operationId) (fun r => { r with handoff := some v }) t.db.approvals
    { t with db := { t.db with approvals } }
  else t

def Tables.log (j : Joined) (live : Bool) (result : TryResult) (gaveUp : Bool) (t : Tables) : Tables :=
  { t with tries := t.tries ++ [⟨j.row.operationId, j.row.state, live, result, gaveUp⟩] }

/-- A try that went through: to Raft, or to D1 where there is nowhere to send a hint. -/
def Tables.succeed (j : Joined) (live sent : Bool) (t : Tables) : Tables :=
  let t := if live then t.handoff who j (if sent then .accepted else .notSent) else t
  (t.markPublished j).log j live (if sent then .accepted else .notSent) false

/-- The `catch` of a try: `indexed` where the copy is in D1, `hinting` where the hint was begun. -/
def Tables.fail (j : Joined) (attempts : Nat) (now : Int) (indexed hinting : Bool) (t : Tables) : Tables :=
  let t := if hinting then t.handoff who j .failed else t
  let n := attempts + 1
  if indexed && HINT_ATTEMPTS ≤ n then (t.markPublished j).log j true (if hinting then .refused else .unwritten) true
  else
    let progress := ⟨j.row.operationId, j.row.state, indexed, n, now + publishBackoffMs n⟩
    let t := { t with progress := Table.upsert (·.operationId == j.row.operationId) progress (fun _ => progress) t.progress }
    t.log j true (if hinting then .refused else .unwritten) false

end Reads

/-! ## A pass -/

/-- A pass inside its loop. -/
structure Pass where
  now : Int
  due : List Joined
  reg : ProvisionedAgent
  rest : List Joined
  published : Nat
  failed : Nat
deriving DecidableEq

/-- How a pass ended. -/
inductive Ending where
  | nothing
  | unread
  | unprovisioned
  | through
deriving DecidableEq

/-- Where a pass is: at a wait, ended, or cut short. -/
inductive Stage where
  | asked (now : Int) (due : List Joined)
  | looked (now : Int) (due : List Joined) (reg : Option ProvisionedAgent)
  | describing (p : Pass) (j : Joined)
  | writing (p : Pass) (j : Joined) (k : Nat)
  | signing (p : Pass) (j : Joined)
  | hinting (p : Pass) (j : Joined)
  | closing (p : Pass) (j : Joined) (ok : Bool)
  | over_ (ending : Ending) (answer : Answer)
  | crashed
deriving DecidableEq

/-- A hint that was sent. -/
structure Hint where
  operationId : String
  status : ApprovalState
  reg : ProvisionedAgent
deriving DecidableEq

inductive Reply where
  | ok (item : Json)
  | failed
deriving DecidableEq

section Loop

variable (who : Agent) (hintTarget : ProvisionedAgent → Option String)

/-- A deleted agent's holds are hinted to nobody. -/
def Pass.target (p : Pass) : Option String := if p.reg.deletedAt.isSome then none else hintTarget p.reg

def Pass.live (p : Pass) : Bool := p.reg.deletedAt.isNone

/-- The loop up to its next wait. -/
def Pass.go (p : Pass) : List Joined → Nat → Tables → Tables × Stage
  | [], published, t => (t, .over_ .through ⟨published, p.failed, t.nextAt who p.now⟩)
  | j :: rest, published, t =>
    if !j.indexed then (t, .describing { p with rest, published } j)
    else
      match p.target hintTarget with
      | none => p.go rest (published + 1) (t.succeed who j p.live false)
      | some _ => (t, .signing { p with rest, published } j)

/-- The copy is in D1: the hint, or the end of the try where there is nowhere to send one. -/
def Pass.written (p : Pass) (j : Joined) (t : Tables) : Tables × Stage :=
  match p.target hintTarget with
  | none => p.go who hintTarget p.rest (p.published + 1) (t.succeed who j p.live false)
  | some _ => (t, .signing p j)

def Pass.accepted (p : Pass) (j : Joined) (t : Tables) : Tables × Stage :=
  p.go who hintTarget p.rest (p.published + 1) (t.succeed who j p.live true)

def Pass.failedTry (p : Pass) (j : Joined) (indexed hinting : Bool) (t : Tables) : Tables × Stage :=
  Pass.go who hintTarget { p with failed := p.failed + 1 } p.rest p.published (t.fail who j j.attempts p.now indexed hinting)

/-- `publishApprovals` up to its first wait. -/
def publishApprovals (now : Int) (t : Tables) : Stage :=
  if (t.unpublishedRows who).isEmpty then .over_ .nothing ⟨0, 0, none⟩
  else
    let due := t.due who now
    if due.isEmpty then .over_ .through ⟨0, 0, t.nextAt who now⟩ else .asked now due

/-- No such agent: nothing to publish to. -/
def Tables.unprovisioned (due : List Joined) (t : Tables) : Tables :=
  due.foldl (fun t j => (t.markPublished j).log j false .unprovisioned false) t

end Loop

/-! ## The agent, the registry and D1 -/

/-- A write to D1, and whether it has landed. -/
structure Write where
  row : IndexRow
  landed : Bool
deriving DecidableEq

structure World where
  tables : Tables
  registry : Option ProvisionedAgent
  copies : List IndexRow
  writes : List Write
  hints : List Hint
  passes : List Stage
deriving DecidableEq

/-- A change of the rows of `approvals`, by the store. -/
inductive Change where
  | requireApproval (a : HoldRequest)
  | holdApproval (a : HoldRequest) (same : ApprovalRecord → Bool)
  | decideApproval (tenantId operationId : String) (decision : Decision) (approver : String) (decidedBy : Option DecidedBy)
      (notice : Option Str)
  | claimApprovalRun (tenantId operationId : String) (at_ : Int)
  | finishApproval (tenantId operationId : String) (state : FinishState) (summary : String) (notice : Str)
  | recordApprovalDelivery (tenantId operationId : String) (report : ApprovalDelivery)

def Change.exec (ctx : Ctx) (db : Db) : Change → Db
  | .requireApproval a => DurableObject.requireApproval ctx a db
  | .holdApproval a same => (DurableObject.holdApproval ctx a same db).2
  | .decideApproval t o decision approver by_ notice => (DurableObject.decideApproval ctx t o decision approver by_ notice db).2
  | .claimApprovalRun t o at_ => (DurableObject.claimApprovalRun t o at_ db).2
  | .finishApproval t o state summary notice => (DurableObject.finishApproval t o state summary notice db).2
  | .recordApprovalDelivery t o report => (DurableObject.recordApprovalDelivery t o report db).2

inductive Event where
  | changed (ctx : Ctx) (c : Change)
  | provisioned (reg : ProvisionedAgent)
  | deleted (at_ : Int)
  /-- The delete's mark, a delivery report or a write under way lands in D1. -/
  | marked (at_ : Int)
  | delivered (operationId : String) (status : ApprovalState) (delivery description : Json)
  | landed (k : Nat)
  | pass (now : Int)
  /-- The registry is read for a pass. -/
  | looked (i : Nat)
  | crashed (i : Nat)
  | resume (i : Nat) (now : Int) (reply : Reply)

section Step

variable (who : Agent) (hintTarget : ProvisionedAgent → Option String)

def World.empty : World := ⟨⟨Db.empty, [], [], []⟩, none, [], [], [], []⟩

/-- The row a pass writes to D1. -/
def Pass.indexRow (p : Pass) (j : Joined) (item : Json) (now : Int) : IndexRow :=
  ⟨j.row.operationId, p.reg.raftOrigin, p.reg.raftServerId, p.reg.raftAgentId, j.row.state, item, j.row.createdAt,
    j.row.expiresAt, now, none⟩

def World.put (w : World) (i : Nat) (r : Tables × Stage) : World := { w with tables := r.1, passes := w.passes.set i r.2 }

/-- One pass from the wait it is at to its next. -/
def World.resume (w : World) (i : Nat) (now : Int) (reply : Reply) : Stage → World
  | .asked at_ due =>
    match reply with
    | .ok _ => w
    | .failed => w.put i (w.tables, .over_ .unread ⟨0, due.length, some (at_ + publishBackoffMs 1)⟩)
  | .looked at_ due reg =>
    match reply, reg with
    | .failed, _ => w.put i (w.tables, .over_ .unread ⟨0, due.length, some (at_ + publishBackoffMs 1)⟩)
    | .ok _, none => w.put i (w.tables.unprovisioned due, .over_ .unprovisioned ⟨0, 0, none⟩)
    | .ok _, some reg => w.put i (Pass.go who hintTarget ⟨at_, due, reg, [], 0, 0⟩ due 0 w.tables)
  | .describing p j =>
    match reply with
    | .failed => w.put i (p.failedTry who hintTarget j false false w.tables)
    | .ok item =>
      { w with writes := w.writes ++ [⟨p.indexRow j item now, false⟩]
               passes := w.passes.set i (.writing p j w.writes.length) }
  | .writing p j k =>
    match reply with
    | .failed => w.put i (p.failedTry who hintTarget j false false w.tables)
    | .ok _ => if (w.writes[k]?.map (·.landed)).getD false then w.put i (p.written who hintTarget j w.tables) else w
  | .signing p j =>
    match reply with
    | .failed => w.put i (p.failedTry who hintTarget j true true w.tables)
    | .ok _ =>
      { w with hints := w.hints ++ [⟨j.row.operationId, j.row.state, p.reg⟩], passes := w.passes.set i (.hinting p j) }
  | .hinting p j =>
    match reply with
    | .failed => w.put i (p.failedTry who hintTarget j true true w.tables)
    | .ok answer => { w with passes := w.passes.set i (.closing p j (answer == .bool true)) }
  | .closing p j ok =>
    if ok then w.put i (p.accepted who hintTarget j w.tables) else w.put i (p.failedTry who hintTarget j true true w.tables)
  | .over_ _ _ | .crashed => w

def World.step (e : Event) (w : World) : Option Stage × World :=
  match e with
  | .changed ctx c => (none, { w with tables := { w.tables with db := c.exec ctx w.tables.db } })
  | .provisioned reg => (none, { w with registry := w.registry.or (some { reg with deletedAt := none }) })
  | .deleted at_ => (none, { w with registry := w.registry.map fun r => { r with deletedAt := r.deletedAt.or (some at_) } })
  | .marked at_ => (none, { w with copies := markAgentDeleted at_ w.copies })
  | .delivered op status delivery description => (none, { w with copies := setDelivery op status delivery description w.copies })
  | .landed k =>
    match w.writes[k]? with
    | none => (none, w)
    | some x => (none, { w with copies := upsert w.registry x.row w.copies, writes := w.writes.set k { x with landed := true } })
  | .pass now =>
    let stage := publishApprovals who now w.tables
    (some stage, { w with passes := w.passes ++ [stage] })
  | .looked i =>
    match w.passes[i]? with
    | some (.asked at_ due) => (none, { w with passes := w.passes.set i (.looked at_ due w.registry) })
    | _ => (none, w)
  | .crashed i => (none, { w with passes := w.passes.set i .crashed })
  | .resume i now reply =>
    match w.passes[i]? with
    | none => (none, w)
    | some stage =>
      let w' := w.resume who hintTarget i now reply stage
      (if w'.passes[i]? = some stage then none else w'.passes[i]?, w')

end Step

end Antiproton.Publish
