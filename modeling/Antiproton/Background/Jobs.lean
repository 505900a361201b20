import Antiproton.Core.Js
import Antiproton.Core.Types

/-!
# Antiproton.Background.Jobs

Tool calls that outlive a turn (`src/runtime/background-jobs.ts`): the table `background_jobs` with the functions that
read and write it, the schedule of checks, the cap, and the texts an agent is given. Every read and write names the
owner of the rows.
-/

namespace Antiproton.Background

open Js

inductive JobState where
  | running
  | done
  | failed
  | cancelled
deriving DecidableEq, Repr

structure JobOwner where
  tenantId : String
  agentId : String
deriving DecidableEq, Repr

/-- A row of `background_jobs`. -/
structure BackgroundJob where
  id : String
  owner : JobOwner
  session : String
  mount : String
  tool : String
  handle : Json
  state : JobState
  createdAt : Int
  finishedAt : Option Int
  polls : Nat
  nextPollAt : Int
  outcome : Option Str
  callId : Option String
deriving DecidableEq

/-- What a call leaves behind to be recorded. -/
structure StartedJob where
  id : String
  session : String
  mount : String
  tool : String
  handle : Json
  callId : Option String

/-- How a job ended, with the result of one that is done and the error of one that failed. -/
inductive JobOutcome where
  | done (result : Option Json)
  | failed (error : Option Str)
  | cancelled
deriving DecidableEq

structure JobEndFacts where
  callId : Option String
  exitCode : Option Str
deriving DecidableEq

def JobOutcome.state : JobOutcome → JobState
  | .done _ => .done
  | .failed _ => .failed
  | .cancelled => .cancelled

/-- The `outcome` column. -/
def JobOutcome.column (outcome : JobOutcome) : Str :=
  let result := match outcome with
    | .done result => result.getD .null
    | _ => .null
  let error := match outcome with
    | .failed (some error) => .str error
    | _ => .null
  (Json.obj [(js "result", result), (js "error", error)]).stringify

/-- The number an `exitCode` field holds; a JSON number is finite. -/
def exitCodeOf (result : Option Json) : Option Str :=
  match result.bind (Json.field? (js "exitCode")) with
  | some (.num text) => some text
  | _ => none

def jobEndFacts (job : BackgroundJob) (result : Option Json) : JobEndFacts :=
  ⟨job.callId.filter (· ≠ ""), exitCodeOf result⟩

def BACKGROUND_CAP : Nat := 3

def BACKGROUND_MAX_MS : Int := 30 * 60000

def BACKGROUND_STOP_GRACE_MS : Int := 10 * 60000

def overdueBackground (job : BackgroundJob) (now maxMs : Int) : Bool := maxMs < now - job.createdAt

/-- `Math.round(x / d)`. -/
def roundedQuotient (x d : Int) : Int := (2 * x + d) / (2 * d)

/-- `none` admits one more job; a refusal says what is running. -/
def admitBackground (running : List BackgroundJob) (cap : Nat) (now : Int) : Option Str :=
  if running.length < cap then none
  else
    let list := join (js ", ") (running.map fun j =>
      js s!"{j.id} ({j.tool}, running {roundedQuotient (now - j.createdAt) 1000}s)")
    some (js s!"{running.length} background jobs are already running, the most this agent may have at once: " ++ list ++
      js ". Wait for one to finish (its result arrives as a message) or cancel one with jobs.cancel.")

def nextPollDelay (polls : Nat) : Int := ([2000, 5000, 10000, 20000][polls]?).getD 30000

/-- The message that wakes the agent when a job ends. -/
def completionMessage (job : BackgroundJob) (outcome : JobOutcome) (now : Int) : Str :=
  let said := match outcome.state with
    | .running => "running"
    | .done => "done"
    | .failed => "failed"
    | .cancelled => "cancelled"
  let head := js s!"[background job {job.id} — {job.tool} — {said} after {roundedQuotient (now - job.createdAt) 1000}s; a notice from the harness, not a message from the user]"
  match outcome with
  | .done result => head ++ js "\n" ++ (result.getD .null).stringify
  | .failed error => head ++ js "\n" ++ error.getD (js "failed without a message")
  | .cancelled => head

section Owner

variable (o : JobOwner)

def owned (job : BackgroundJob) : Bool := job.owner == o

def isJob (id : String) (job : BackgroundJob) : Bool := job.id == id && owned o job

def isRunning (job : BackgroundJob) : Bool := owned o job && job.state == .running

/-- The insert, which the primary key refuses for an id the table has. -/
def recordBackgroundJob (job : StartedJob) (now : Int) (jobs : List BackgroundJob) : Option (List BackgroundJob) :=
  Table.insert (fun r => r.id == job.id)
    ⟨job.id, o, job.session, job.mount, job.tool, job.handle, .running, now, none, 0, now + nextPollDelay 0, none, job.callId⟩ jobs

def runningBackgroundJobs (jobs : List BackgroundJob) : List BackgroundJob :=
  Table.orderBy (·.createdAt) (Table.select (isRunning o) jobs)

def dueBackgroundJobs (now : Int) (jobs : List BackgroundJob) : List BackgroundJob :=
  Table.orderBy (·.nextPollAt) (Table.select (fun r => isRunning o r && r.nextPollAt ≤ now) jobs)

/-- A check that found the job still running counts, and sets the next one. -/
def markPolled (id : String) (now : Int) (jobs : List BackgroundJob) : List BackgroundJob :=
  match Table.one (isJob o id) jobs with
  | none => jobs
  | some row =>
    Table.update (fun r => isJob o id r && r.state == .running)
      (fun r => { r with polls := row.polls + 1, nextPollAt := now + nextPollDelay (row.polls + 1) }) jobs

/-- The row a job ends as. -/
def BackgroundJob.finish (outcome : JobOutcome) (now : Int) (job : BackgroundJob) : BackgroundJob :=
  { job with state := outcome.state, finishedAt := some now, outcome := some outcome.column }

/-- Only a running job finishes; the answer says whether this call ended it. -/
def finishBackgroundJob (id : String) (outcome : JobOutcome) (now : Int) (jobs : List BackgroundJob) :
    Bool × List BackgroundJob :=
  match Table.one (isJob o id) jobs with
  | none => (false, jobs)
  | some before =>
    if before.state = .running then
      (true, Table.update (fun r => isJob o id r && r.state == .running) (BackgroundJob.finish outcome now) jobs)
    else (false, jobs)

def nextBackgroundWake (now : Int) (jobs : List BackgroundJob) : Option Int :=
  (((Table.select (isRunning o) jobs).map (·.nextPollAt)).min?).map fun at_ => max 0 (at_ - now)

end Owner

end Antiproton.Background
