import Antiproton.Runtime.Gateway

/-!
# Antiproton.Runtime.Approvals

What becomes of a held call (`applyApproval`, `runApproved`, `settleApproved`, `expireApproval` and
`expireDue` in `src/runtime/gateway.ts`), the requests that reach a gateway, and the machine of any
number of them at once.
-/

namespace Antiproton

open Js Process

/-- What a person decides. -/
inductive HumanDecision where
  | approved | denied
deriving DecidableEq, Repr

def HumanDecision.decision : HumanDecision → Decision
  | .approved => .approved
  | .denied => .denied

/-- How a run of an approved call ended: whether the call ran, its result, and why it asked when it did. -/
structure Ran where
  executed : Bool
  result : ToolResult
  asked : Option String

/-! ## The run -/

/-- The options an approved call is replayed with. -/
def approvedOpts (operationId : String) : InvokeOpts := ⟨none, true, some operationId, false, none, [], false⟩

/-- A text field of a hold's request. -/
def requestText (name : String) (request : Json) : Str :=
  match request.field? (js name) with
  | some (.str s) => s
  | _ => []

/-- The characters of a text, a lone surrogate as the replacement character. -/
def textOf : Str → List Char
  | [] => []
  | [u] => [if isHigh u || isLow u then '\uFFFD' else Char.ofNat u.toNat]
  | u :: v :: rest =>
    if isHigh u && isLow v then
      Char.ofNat (0x10000 + (u.toNat - 0xD800) * 0x400 + (v.toNat - 0xDC00)) :: textOf rest
    else (if isHigh u || isLow u then '\uFFFD' else Char.ofNat u.toNat) :: textOf (v :: rest)

/-- The tool a hold's request names. -/
def heldTool (a : ApprovalRecord) : String := String.ofList (textOf (requestText "tool" a.request))

/-- The arguments it keeps. -/
def heldArgs (a : ApprovalRecord) : Json := (a.request.field? (js "args")).getD .null

/-- Whether a call is to a tool that only counts when the model reads its result. -/
def modelOnlyCall (G : Gateway) : Except ToolError (MountRecord × String) → Option (MountRecord × String)
  | .error _ => none
  | .ok (mount, tool) =>
    match G.plugins mount.plugin with
    | none => none
    | some plugin =>
      if ((toolsOf plugin mount).find? fun t => t.name == tool).any (·.modelOnly) then some (mount, tool) else none

def completeRun (tenantId operationId : String) (status : OperationStatus) (result : ToolResult) : Act Unit :=
  complete tenantId operationId status (some result.json) CompletedFacts.none

/-- The reason a question gives, when its context is an object that names one. -/
def questionReason (i : ToolInterrupt) : Option String :=
  match i.context.bind fun c => c.field? (js "reason") with
  | some (.str s) => some (String.ofList (textOf s))
  | _ => none

/-- What an approved call that asked a question is ended with. -/
def askedResult (operationId : String) (i : ToolInterrupt) (answeredOnce : Bool) : ToolResult :=
  let reason := match questionReason i with
    | some why => s!" ({why})"
    | none => ""
  let asked :=
    if answeredOnce then
      "Approved, and the tool's first question before acting was answered for you once, as the approval already decided it; " ++
      s!"it then asked again{reason}, which could not be put to you here, so nothing was done."
    else s!"Approved, but before acting the tool asked for a decision{reason} that could not be put to you here, so nothing was done."
  .cancelled operationId (.of "asked_before_acting"
    (js (s!"{asked} Call it again if it still applies, which asks for a new approval. The question was:\n") ++ i.question))

/-- The status an approved call's own operation is left in. -/
def recordedStatus : ToolResult → OperationStatus
  | .succeeded .. => .succeeded
  | .rejected .. => .rejected
  | _ => .failed

/-- An approved call's result, once its question, if it asked one, was answered as the approval decided. -/
def answerApproved (G : Gateway) (ctx : CallContext) (operationId : String) (result : ToolResult) :
    Act (ToolResult × Bool) := do
  match result with
  | .interrupted _ i =>
    match i.ifApproved with
    | none => return (result, false)
    | some answer =>
      let resumed ← resumeInterrupt G ctx i answer none []
      match resumed with
      | .interrupted .. | .rejected .. => return (resumed, true)
      | _ => return (resumed.withOperation operationId, true)
  | _ => return (result, false)

/-- `#runApproved`: the recorded call, as it was approved. -/
def replay (G : Gateway) (tenantId operationId : String) (a : ApprovalRecord) : Act Ran := do
  let ctx : CallContext := ⟨tenantId, a.agentId, a.taskId⟩
  match modelOnlyCall G (← resolve ctx (heldTool a)) with
  | some (mount, tool) =>
    let result := ToolResult.cancelled operationId (.of "not_from_a_program"
      (js (s!"approved, but {mount.mountAlias}.{tool} was not run: its result only counts once the agent reads it, " ++
        "and an approved call runs with nobody reading it. For the agent to use it, the mount's policy has to let it " ++
        "call it without approval.")))
    completeRun tenantId operationId .cancelled result
    return ⟨false, result, none⟩
  | none =>
    let first ← invoke G ctx (heldTool a) (heldArgs a) (approvedOpts operationId)
    let (result, answeredOnce) ← answerApproved G ctx operationId first
    match result with
    | .interrupted _ i =>
      let _ ← cancelInterrupt G ctx i
      let result := askedResult operationId i answeredOnce
      completeRun tenantId operationId .cancelled result
      return ⟨false, result, questionReason i⟩
    | result =>
      completeRun tenantId operationId (recordedStatus result) result
      return ⟨true, result, none⟩

/-- What a run that threw is ended as. -/
def runFailed (operationId : String) (e : Thrown) : Ran :=
  ⟨false, .failed operationId (.of "run_failed" ((js e.message).take 300)), none⟩

/-- The run of a call whose run was claimed, and the end of its hold. -/
def runClaimed (G : Gateway) (tenantId operationId : String) : Act (Option Ran) := do
  match ← await (.getApproval tenantId operationId) with
  | none => return none
  | some a =>
    let r ← (replay G tenantId operationId a).attempt fun e => pure (runFailed operationId e)
    let out := approvalOutcome r.result r.asked
    let _ ← await (.finishApproval tenantId operationId out.1 out.2 (approvedNotice a r.result))
    return some r

/-- `runApproved`: one approved call, run and its hold ended, by the one caller that takes the run. -/
def runApproved (G : Gateway) (tenantId operationId : String) : Act (Option Ran) := do
  let now ← await .clock
  if ← await (.claimApprovalRun tenantId operationId now) then runClaimed G tenantId operationId
  else return none

/-! ## Deciding -/

/-- What a decision that did not land answers. -/
structure NotDecided where
  reason : String
  record : Option ApprovalRecord

def DecisionProblem.text : DecisionProblem → String
  | .alreadyDecided => "already_decided"
  | .expired => "expired"
  | .notDue => "not_due"

/-- `expireApproval`: a hold nobody decided in time, ended as expired. -/
def expireApproval (G : Gateway) (tenantId operationId : String) : Act (Except NotDecided ApprovalRecord) := do
  let held ← await (.getApproval tenantId operationId)
  match ← await (.decideApproval tenantId operationId .expired "expiry" (some .expiry)
      (held.map (expiredNotice G.isoTime))) with
  | .notFound => return .error ⟨"not_found", none⟩
  | .refused problem record => return .error ⟨problem.text, some record⟩
  | .ok record =>
    let result := ToolResult.rejected
      (.of "approval_expired" (js "nobody decided this held call before it expired, so it was not run"))
    completeRun tenantId operationId .rejected result
    return .ok record

/-- What `applyApproval` answers a decision that landed. -/
structure Applied where
  executed : Bool
  result : Option ToolResult
  record : ApprovalRecord

/-- The hold as it stands, read for the notice of a denial. -/
def heldFor (tenantId operationId : String) : HumanDecision → Act (Option ApprovalRecord)
  | .denied => await (.getApproval tenantId operationId)
  | .approved => pure none

/-- `applyApproval`. -/
def applyApproval (G : Gateway) (tenantId operationId : String) (decision : HumanDecision) (approver : String)
    (decidedBy : Option DecidedBy) (later : Bool) : Act (Except NotDecided Applied) := do
  let held ← heldFor tenantId operationId decision
  let notice := held.map fun h =>
    deniedNotice { h with state := .denied, approver := some approver, decidedBy := decidedBy }
  match ← await (.decideApproval tenantId operationId decision.decision approver decidedBy notice) with
  | .notFound => return .error ⟨"not_found", none⟩
  | .refused .expired record =>
    match ← expireApproval G tenantId operationId with
    | .ok expired => return .error ⟨"expired", some expired⟩
    | .error _ => return .error ⟨"expired", some record⟩
  | .refused problem record => return .error ⟨problem.text, some record⟩
  | .ok record =>
    match decision with
    | .denied =>
      complete tenantId operationId .cancelled
        (some (.ofFields [("denied", some (.bool true)), ("approver", some (.ofString approver))]))
        { CompletedFacts.none with denied := true }
      return .ok ⟨false, none, record⟩
    | .approved =>
      if later then return .ok ⟨false, none, record⟩
      else
        let ran ← runApproved G tenantId operationId
        return .ok ⟨(ran.map (·.executed)).getD false, ran.map (·.result), record⟩

/-! ## The passes -/

/-- One hold of the pass: run when it was not yet, ended when its run went stale; whether it ended. -/
def settleOne (G : Gateway) (tenantId : String) (now staleMs : Int) (a : ApprovalRecord) : Act Bool :=
  match a.runAt with
  | none => do
    let ran ← runApproved G tenantId a.operationId
    return ran.isSome
  | some runAt =>
    if now - runAt < staleMs then pure false
    else
      let summary := "the run was started but its end was not recorded; whether it landed is not known"
      await (.finishApproval tenantId a.operationId .failed summary
        (unknownOutcomeNotice { a with state := .approved }))

/-- The pass over the holds it listed, and how many it ended. -/
def settleEach (G : Gateway) (tenantId : String) (now staleMs : Int) : List ApprovalRecord → Act Nat
  | [] => pure 0
  | a :: rest => do
    let ended ← settleOne G tenantId now staleMs a
    let others ← settleEach G tenantId now staleMs rest
    return (if ended then 1 else 0) + others

/-- `settleApproved`. -/
def settleApproved (G : Gateway) (tenantId : String) (now staleMs : Int) : Act Nat := do
  settleEach G tenantId now staleMs (← await (.listApprovals tenantId (some .approved)))

/-- The sweep over the holds that are due. -/
def expireEach (G : Gateway) (tenantId : String) : List ApprovalRecord → Act (List String)
  | [] => pure []
  | a :: rest => do
    let expired ← expireApproval G tenantId a.operationId
    let others ← expireEach G tenantId rest
    return match expired with
      | .ok _ => a.operationId :: others
      | .error _ => others

/-- `expireDue`. -/
def expireDue (G : Gateway) (tenantId : String) (now : Int) : Act (List String) := do
  let pending ← await (.listApprovals tenantId (some .pending))
  expireEach G tenantId (pending.filter fun a => pastDeadline a.expiresAt now)

/-! ## Requests -/

/-- `hostCallOpts` (`cf/src/runtime.ts`): what a caller of the gateway may say of a call. It can neither
approve the call nor name its operation. -/
structure HostOpts where
  confirm : Bool
  fromProgram : Bool
  idempotencyKey : Option String
  callId : Option String
  offered : List OfferedTool
deriving DecidableEq, Repr

def HostOpts.invokeOpts (o : HostOpts) : InvokeOpts :=
  ⟨o.idempotencyKey, false, none, o.confirm, o.callId, o.offered, o.fromProgram⟩

/-- What may be asked of a gateway. -/
inductive Request where
  | invoke (ctx : CallContext) (raw : String) (args : Json) (opts : HostOpts)
  | resume (ctx : CallContext) (i : ToolInterrupt) (answer : Json) (callId : Option String)
      (offered : List OfferedTool)
  | cancel (ctx : CallContext) (i : ToolInterrupt)
  | applyApproval (tenantId operationId : String) (decision : HumanDecision) (approver : String)
      (decidedBy : Option DecidedBy) (later : Bool)
  | runApproved (tenantId operationId : String)
  | settleApproved (tenantId : String) (now staleMs : Int)
  | expireApproval (tenantId operationId : String)
  | expireDue (tenantId : String) (now : Int)

/-- A method run for its effects. -/
def discard {A : Type} (p : Act A) : Act Unit := p.bind fun _ => .done ()

def Request.prog (G : Gateway) : Request → Act Unit
  | .invoke ctx raw args opts => discard (Antiproton.invoke G ctx raw args opts.invokeOpts)
  | .resume ctx i answer callId offered => discard (resumeInterrupt G ctx i answer callId offered)
  | .cancel ctx i => discard (cancelInterrupt G ctx i)
  | .applyApproval t o d who by_ later => discard (Antiproton.applyApproval G t o d who by_ later)
  | .runApproved t o => discard (Antiproton.runApproved G t o)
  | .settleApproved t now staleMs => discard (Antiproton.settleApproved G t now staleMs)
  | .expireApproval t o => discard (Antiproton.expireApproval G t o)
  | .expireDue t now => discard (Antiproton.expireDue G t now)

/-- Any number of requests of one gateway, interleaved await by await. -/
@[reducible] def Gateway.machine (G : Gateway) : Machine where
  F := gatewayInterface
  X := Thrown
  W := World
  I := Input
  R := Request
  exec := Await.exec G.ids
  prog := Request.prog G

end Antiproton
