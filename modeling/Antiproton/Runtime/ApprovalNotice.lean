import Antiproton.Runtime.Holds

/-!
# Antiproton.Runtime.ApprovalNotice

What an agent is told of a decided call, and what its hold is left with (`src/runtime/approval-notice.ts`).

* `approvalOutcome_state`: a run's hold ends `executed` exactly when the call succeeded or went to the
  background.
-/

namespace Antiproton

open Js

/-- `NOTICE_RESULT_MAX`. -/
def noticeResultMax : Nat := 1500

/-- `deciderWords`. -/
def deciderWords (by_ : Option DecidedBy) (approver : Option String) : String :=
  match by_ with
  | some (.raft _ .agentOwner) => "your owner in Raft"
  | some (.raft _ .serverOwner) => "the Raft server's owner"
  | some (.raft _ .serverAdmin) => "a Raft server admin"
  | some (.console who) => s!"{who} on the antiproton console"
  | _ =>
    match approver with
    | some who => if who = "" then "a person" else who
    | none => "a person"

/-- `bounded`. -/
def bounded (v : Json) : Str :=
  let text := match v with
    | .str s => s
    | v => v.stringify
  if noticeResultMax < text.length then
    text.take noticeResultMax ++ js s!"… ({text.length - noticeResultMax} more characters not shown)"
  else text

/-- `head`. -/
def noticeHead (a : ApprovalRecord) (what : String) : Str :=
  js (s!"[approval {a.operationId} — {a.mountAlias}.{a.tool} — {what}; " ++
    "a notice from the harness, not a message from the user]\n")

/-- `OUTCOME_CODE`. -/
def isOutcomeCode (s : String) : Bool :=
  let cs := s.toList
  !cs.isEmpty && cs.length ≤ 64 && cs.all fun c => isWordChar c || c == '.' || c == ':' || c == '-'

/-- How a run ends its hold. -/
inductive FinishState where
  | executed | failed
deriving DecidableEq, Repr

/-- What a failed run's outcome says: the status, the error's code, and why it asked when it did. -/
def failureSummary (result : ToolResult) (asked : Option String) : String :=
  let raw := (result.error.map (·.code)).getD ""
  let code := if isOutcomeCode raw then raw else if raw ≠ "" then "error" else "no error given"
  if code = "asked_before_acting" then
    let why := match asked with
      | some w => if isOutcomeCode w then s!" ({w})" else ""
      | none => ""
    s!"{result.status}: asked_before_acting{why}; nothing was done"
  else s!"{result.status}: {code}"

/-- `approvalOutcome`. -/
def approvalOutcome (result : ToolResult) (asked : Option String) : FinishState × String :=
  match result with
  | .succeeded .. => (.executed, "succeeded; the result went to the agent")
  | .running .. => (.executed, "started in the background; its result goes to the agent when it ends")
  | _ => (.failed, failureSummary result asked)

theorem approvalOutcome_state (result : ToolResult) (asked : Option String) :
    (approvalOutcome result asked).1 = .executed ↔
      result.status = "succeeded" ∨ result.status = "running" := by
  cases result <;> simp [approvalOutcome, ToolResult.status]

/-- `approvedNotice`. -/
def approvedNotice (a : ApprovalRecord) (result : ToolResult) : Str :=
  let who := deciderWords a.decidedBy a.approver
  let error := match result.error with
    | some e => js s!"{e.code}: " ++ e.message
    | none => js "no error was given"
  match result with
  | .succeeded _ r => noticeHead a s!"approved by {who} and run: succeeded" ++ bounded r
  | .running .. =>
    noticeHead a s!"approved by {who} and started in the background" ++
      js "Its result arrives in a notice of its own when it ends."
  | .rejected .. | .cancelled .. =>
    noticeHead a s!"approved by {who}, but not run: {result.status}" ++ bounded (.str error)
  | _ => noticeHead a s!"approved by {who} and run: {result.status}" ++ bounded (.str error)

/-- `deniedNotice`. -/
def deniedNotice (a : ApprovalRecord) : Str :=
  noticeHead a s!"denied by {deciderWords a.decidedBy a.approver}" ++
    js "Nothing was run. Do not call it again unless the person asks you to."

/-- `expiredNotice`. -/
def expiredNotice (isoTime : Int → String) (a : ApprovalRecord) : Str :=
  let span := a.expiresAt.map fun deadline =>
    let ms := deadline - a.createdAt
    if 3600000 ≤ ms then s!"{roundDiv ms 3600000} hours" else s!"{max 1 (roundDiv ms 60000)} minutes"
  let within := match span with
    | some s => s!" within {s}"
    | none => ""
  let after := match span with
    | some s => s!" after {s}"
    | none => ""
  let again := "If it still matters you may call it again, which asks for a new approval."
  let what := match a.delivery.map (·.outcome) with
    | some .delivered =>
      s!"It reached an approver, but nobody decided{within}, so it expired and nothing was run. {again}"
    | some .noRecipient =>
      s!"It never reached any approver, because Raft had nobody to send it to, so it expired{after} " ++
      s!"and nothing was run. {again} That one reaches nobody either unless Raft has someone to send it to by then."
    | none =>
      s!"Nobody decided{within}, so it expired and nothing was run; whether it reached an approver is not known. {again}"
  noticeHead a "expired" ++ js s!"You made this call at {isoTime a.createdAt}. {what}"

def ApprovalState.text : ApprovalState → String
  | .pending => "pending"
  | .approved => "approved"
  | .denied => "denied"
  | .expired => "expired"
  | .executed => "executed"
  | .failed => "failed"

/-- `unknownOutcomeNotice`. -/
def unknownOutcomeNotice (a : ApprovalRecord) : Str :=
  noticeHead a s!"{a.state.text} by {deciderWords a.decidedBy a.approver}" ++
    js (if a.state = .approved then
      "It was run, but its result was not recorded; check before calling it again." else "Nothing was run.")

end Antiproton
