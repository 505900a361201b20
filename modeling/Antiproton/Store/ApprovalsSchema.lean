import Antiproton.Store.Schema

/-!
# Antiproton.Store.ApprovalsSchema

What both stores share of the `approvals` table (`src/store/approvals-schema.ts`): what a row reads
as, the one rule for whether a decision may land, and what a delivery report does to a row.

* `decisionProblem_approved`: an approval lands exactly on a pending row that is not past its
  deadline, so never at or after it.
* `decisionProblem_expired`: an expiry lands exactly on a pending row that is.
-/

namespace Antiproton

/-- `DEFAULT_APPROVAL_TTL_MS`. -/
def defaultApprovalTtlMs : Int := 24 * 60 * 60 * 1000

/-- `mapApproval`. -/
def mapApproval (r : ApprovalRow) : ApprovalRecord where
  tenantId := r.tenantId
  operationId := r.operationId
  agentId := r.agentId
  taskId := r.taskId
  mountAlias := r.mountAlias
  tool := r.tool
  request := r.request
  state := r.state
  approver := r.approver
  decidedAt := r.decidedAt
  createdAt := r.createdAt
  expiresAt := r.expiresAt
  decidedBy := r.decidedBy
  outcome := r.outcome
  runAt := r.runAt
  delivery :=
    match r.deliveryOutcome, r.deliveryAt with
    | some outcome, some at_ => some ⟨outcome, at_⟩
    | _, _ => none
  handoff := r.handoff

/-- Why a decision may not land (`decisionProblem`). -/
inductive DecisionProblem where
  | alreadyDecided | expired | notDue
deriving DecidableEq, Repr

/-- Whether a hold is past its deadline. -/
def pastDeadline (expiresAt : Option Int) (now : Int) : Bool :=
  match expiresAt with
  | some deadline => deadline ≤ now
  | none => false

/-- `decisionProblem`: `none` when the decision may land. -/
def decisionProblem (r : ApprovalRow) (decision : Decision) (now : Int) : Option DecisionProblem :=
  if r.state ≠ .pending then some .alreadyDecided
  else
    let due := pastDeadline r.expiresAt now
    if decision = .expired then (if due then none else some .notDue)
    else if due then some .expired else none

theorem decisionProblem_approved {r : ApprovalRow} {now : Int} :
    decisionProblem r .approved now = none ↔
      r.state = .pending ∧ pastDeadline r.expiresAt now = false := by
  unfold decisionProblem
  by_cases hs : r.state = .pending <;> simp [hs]

theorem decisionProblem_expired {r : ApprovalRow} {now : Int} :
    decisionProblem r .expired now = none ↔
      r.state = .pending ∧ pastDeadline r.expiresAt now = true := by
  unfold decisionProblem
  by_cases hs : r.state = .pending <;> simp [hs]

/-- A decision lands on pending rows only. -/
theorem decisionProblem_pending {r : ApprovalRow} {d : Decision} {now : Int}
    (h : decisionProblem r d now = none) : r.state = .pending := by
  unfold decisionProblem at h
  by_contra hs
  simp [hs] at h

theorem pastDeadline_eq_false {expiresAt : Option Int} {now : Int} :
    pastDeadline expiresAt now = false ↔ ∀ deadline, expiresAt = some deadline → now < deadline := by
  cases expiresAt <;> simp [pastDeadline]

/-- `DecideOutcome`. -/
inductive DecideOutcome where
  | ok (record : ApprovalRecord)
  | notFound
  | refused (reason : DecisionProblem) (record : ApprovalRecord)
deriving DecidableEq, Repr

/-- `DELIVERY_SKEW_MS`. -/
def deliverySkewMs : Int := 60000

inductive DeliveryStep where
  | keep | write | late
deriving DecidableEq, Repr

/-- `deliveryStep`. -/
def deliveryStep (r : ApprovalRow) (report : ApprovalDelivery) : DeliveryStep :=
  if r.deliveryOutcome = some .delivered then .keep
  else if r.deliveryOutcome = some .noRecipient ∧ report.outcome = .noRecipient then .keep
  else
    let ended :=
      if r.state = .pending ∨ r.state = .expired then
        r.expiresAt.or (if r.state = .expired then r.decidedAt else none)
      else r.decidedAt
    match ended with
    | some at_ => if at_ + deliverySkewMs < report.at_ then .late else .write
    | none => .write

/-- `DeliveryOutcome`. -/
inductive DeliveryOutcome where
  | ok (changed : Bool) (record : ApprovalRecord)
  | notFound
  | late (record : ApprovalRecord)
deriving DecidableEq, Repr

/-- `FINAL_STATES`. -/
def finalStates : List ApprovalState := [.denied, .expired, .executed, .failed]

/-- `ORDER BY decided_at`: an undecided row comes first. -/
def orderByDecided (rows : List ApprovalRow) : List ApprovalRow :=
  Table.orderBy (fun r => r.decidedAt.isSome.toNat) (Table.orderBy (fun r => r.decidedAt.getD 0) rows)

/-- What `holdApproval` answers. -/
inductive HoldResult where
  | created
  | existing (record : ApprovalRecord)
deriving DecidableEq, Repr

/-- What `holdApproval` and `requireApproval` are given: the columns a new hold is made from. -/
structure HoldRequest where
  tenantId : String
  operationId : String
  agentId : String
  taskId : String
  mountAlias : String
  tool : String
  request : Json
  expiresAt : Option Int
deriving DecidableEq, Repr

/-- The row both stores insert for a new hold. -/
def HoldRequest.row (a : HoldRequest) (now : Int) : ApprovalRow where
  tenantId := a.tenantId
  operationId := a.operationId
  agentId := a.agentId
  taskId := a.taskId
  mountAlias := a.mountAlias
  tool := a.tool
  request := a.request
  state := .pending
  approver := none
  decidedAt := none
  createdAt := now
  expiresAt := a.expiresAt
  decidedBy := none
  notice := none
  toldAt := none
  runAt := none
  outcome := none
  deliveryOutcome := none
  deliveryAt := none
  handoff := none

end Antiproton
