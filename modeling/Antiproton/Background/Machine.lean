import Antiproton.Background.Jobs
import Antiproton.Lib.Table

/-!
# Antiproton.Background.Machine

The runs that end background jobs, each from one wait to the next: `runBackgroundPass`, `stopSessionJobs`, the `jobs`
tool's cancel and a call that came back running (`src/runtime/background-jobs.ts`; `dispatch`, `cf/src/runtime.ts`).
What a run waits for is the plugin's stop or check, the store's record of the operation's end, or the delivery to the
conversation; a reply resumes one run, and any number are under way at once.
-/

namespace Antiproton.Background

open Js

structure Operation where
  id : String
  status : OperationStatus
  facts : Option JobEndFacts
deriving DecidableEq

/-- A message posted for the job `id`. -/
structure Delivery where
  id : String
  session : String
  text : Str
deriving DecidableEq

structure Tables where
  jobs : List BackgroundJob
  operations : List Operation
  delivered : List Delivery
deriving DecidableEq

def completeOperation (id : String) (status : OperationStatus) (facts : JobEndFacts) (t : Tables) : Tables :=
  { t with operations := Table.update (·.id == id) (fun op => { op with status, facts := some facts }) t.operations }

/-- What a run waited for. -/
inductive Reply where
  | resolved
  | threw (error : Str)
  | running
  | done (result : Option Json)
deriving DecidableEq

/-- A pass inside its loop: the jobs it found due and has not visited. -/
structure Pass where
  now : Int
  maxMs : Int
  checked : Nat
  finished : List String
  rest : List BackgroundJob
deriving DecidableEq

/-- A session's stop inside its loop. -/
structure SessionStop where
  rest : List BackgroundJob
  stopped : List String
  stillRunning : List String
deriving DecidableEq

inductive Answer where
  | passed (checked : Nat) (finished : List String) (wakeInMs : Option Int)
  | cancelled (id : String)
  | stopped (stopped stillRunning : List String)
  | started
  | refused (message : Str) (stopRequested : Bool)
  | threw (error : Str)
deriving DecidableEq

/-- A run of one of the four, at the wait it is at, or what it answered. -/
inductive Task where
  | passStopping (p : Pass) (job : BackgroundJob)
  | passPolling (p : Pass) (job : BackgroundJob)
  | passCompleting (p : Pass) (job : BackgroundJob) (outcome : JobOutcome) (status : OperationStatus) (facts : JobEndFacts)
  | passDelivering (p : Pass) (job : BackgroundJob) (outcome : JobOutcome)
  | toolStopping (job : BackgroundJob) (now : Int)
  | toolCompleting (job : BackgroundJob)
  | sessionStopping (s : SessionStop) (job : BackgroundJob)
  | sessionCompleting (s : SessionStop) (job : BackgroundJob)
  | refusing (id : String) (past : Str)
  | answered (answer : Answer)
deriving DecidableEq

section Owner

variable (o : JobOwner)

/-- The pass's loop up to its next wait. -/
def Pass.next (p : Pass) (t : Tables) : Task :=
  match p.rest with
  | [] => .answered (.passed p.checked p.finished (nextBackgroundWake o p.now t.jobs))
  | job :: rest =>
    if overdueBackground job p.now p.maxMs then .passStopping { p with rest } job else .passPolling { p with rest } job

def runBackgroundPass (now maxMs : Int) (t : Tables) : Task :=
  let due := dueBackgroundJobs o now t.jobs
  Pass.next o ⟨now, maxMs, due.length, [], due⟩ t

/-- The job seen running: counted, and the loop goes on. -/
def Pass.stillRunning (p : Pass) (job : BackgroundJob) (t : Tables) : Tables × Task :=
  let t := { t with jobs := markPolled o job.id p.now t.jobs }
  (t, p.next o t)

/-- The job ended, where this pass is the one that ends it. -/
def Pass.end_ (p : Pass) (job : BackgroundJob) (outcome : JobOutcome) (status : OperationStatus) (facts : JobEndFacts)
    (t : Tables) : Tables × Task :=
  let (ended, jobs) := finishBackgroundJob o job.id outcome p.now t.jobs
  let t := { t with jobs }
  if ended then (t, .passCompleting p job outcome status facts) else (t, p.next o t)

/-- Past the ceiling, once the stop has answered. -/
def Pass.stopAnswered (p : Pass) (job : BackgroundJob) (stopError : Option Str) (t : Tables) : Tables × Task :=
  let minutes := js s!"{roundedQuotient p.maxMs 60000}"
  let facts := jobEndFacts job none
  match stopError with
  | some error =>
    if !overdueBackground job p.now (p.maxMs + BACKGROUND_STOP_GRACE_MS) then p.stillRunning o job t
    else
      p.end_ o job (.failed (some (js "ran longer than " ++ minutes ++ js " minutes and could not be stopped (" ++ error ++
        js "); it may still be running in its container"))) .failed facts t
  | none => p.end_ o job (.failed (some (js "ran longer than " ++ minutes ++ js " minutes and was cancelled"))) .failed facts t

def Pass.polled (p : Pass) (job : BackgroundJob) (result : Option Json) (t : Tables) : Tables × Task :=
  p.end_ o job (.done result) .succeeded (jobEndFacts job result) t

/-- The session's stop up to its next wait. -/
def SessionStop.next (s : SessionStop) : Task :=
  match s.rest with
  | [] => .answered (.stopped s.stopped s.stillRunning)
  | job :: rest => .sessionStopping { s with rest } job

def stopSessionJobs (session : String) (t : Tables) : Task :=
  SessionStop.next ⟨(runningBackgroundJobs o t.jobs).filter (·.session == session), [], []⟩

def SessionStop.stopAnswered (s : SessionStop) (job : BackgroundJob) (now : Int) (t : Tables) : Tables × Task :=
  let (ended, jobs) := finishBackgroundJob o job.id .cancelled now t.jobs
  let t := { t with jobs }
  if ended then (t, .sessionCompleting s job) else (t, SessionStop.next { s with stopped := s.stopped ++ [job.id] })

/-- `jobs` with action cancel. -/
def jobsCancel (id : String) (now : Int) (t : Tables) : Task :=
  match (runningBackgroundJobs o t.jobs).find? (·.id == id) with
  | none => .answered (.threw (js "jobs: no running job " ++ quote (js id) ++ js "; jobs with action \"list\" shows the running ones"))
  | some job => .toolStopping job now

/-- A call that came back running: recorded, and asked to stop where the agent is at the cap. -/
def dispatch (job : StartedJob) (now : Int) (t : Tables) : Tables × Task :=
  let running := runningBackgroundJobs o t.jobs
  match recordBackgroundJob o job now t.jobs with
  | none => (t, .answered (.threw (js "UNIQUE constraint failed: background_jobs.id")))
  | some jobs =>
    ({ t with jobs, operations := t.operations ++ [⟨job.id, .running, none⟩] },
      match admitBackground running BACKGROUND_CAP now with
      | none => .answered .started
      | some past => .refusing job.id past)

/-- One run from the wait it is at to its next. -/
def Task.resume (now : Int) (reply : Reply) (t : Tables) : Task → Tables × Task
  | .passStopping p job =>
    match reply with
    | .threw error => p.stopAnswered o job (some error) t
    | _ => p.stopAnswered o job none t
  | .passPolling p job =>
    match reply with
    | .done result => p.polled o job result t
    | _ => p.stillRunning o job t
  | .passCompleting p job outcome status facts =>
    match reply with
    | .threw error => (t, .answered (.threw error))
    | _ => (completeOperation job.id status facts t, .passDelivering p job outcome)
  | .passDelivering p job outcome =>
    match reply with
    | .threw error => (t, .answered (.threw error))
    | _ =>
      let t := { t with delivered := t.delivered ++ [⟨job.id, job.session, completionMessage job outcome p.now⟩] }
      (t, Pass.next o { p with finished := p.finished ++ [job.id] } t)
  | .toolStopping job at_ =>
    match reply with
    | .threw error => (t, .answered (.threw (js "jobs: could not stop " ++ js job.id ++ js ": " ++ error)))
    -- whether this call ended the job is not asked
    | _ => ({ t with jobs := (finishBackgroundJob o job.id .cancelled at_ t.jobs).2 }, .toolCompleting job)
  | .toolCompleting job =>
    match reply with
    | .threw error => (t, .answered (.threw error))
    | _ => (completeOperation job.id .cancelled (jobEndFacts job none) t, .answered (.cancelled job.id))
  | .sessionStopping s job =>
    match reply with
    | .threw _ => (t, SessionStop.next { s with stillRunning := s.stillRunning ++ [job.id] })
    | _ => s.stopAnswered o job now t
  | .sessionCompleting s job =>
    match reply with
    | .threw error => (t, .answered (.threw error))
    | _ => (completeOperation job.id .cancelled (jobEndFacts job none) t, SessionStop.next { s with stopped := s.stopped ++ [job.id] })
  | .refusing id past =>
    match reply with
    | .threw error =>
      (t, .answered (.refused (past ++ js " This call was over the limit, but stopping it failed (" ++ error ++
        js "); it is still running as background job " ++ js id ++
        js ". jobs.cancel can try again; past the ceiling it is cancelled again on every check.") false))
    | _ =>
      (t, .answered (.refused (past ++ js " This call was over the limit and is being stopped as background job " ++ js id ++
        js "; it counts toward the limit until it has actually ended.") true))
  | .answered answer => (t, .answered answer)

end Owner

/-- The tables and every run begun, in the order they began. -/
structure World where
  tables : Tables
  tasks : List Task
deriving DecidableEq

def World.empty : World := ⟨⟨[], [], []⟩, []⟩

inductive Event where
  | dispatch (job : StartedJob) (now : Int)
  | pass (now maxMs : Int)
  | cancel (id : String) (now : Int)
  | stop (session : String)
  | resume (i : Nat) (now : Int) (reply : Reply)

def World.begin (w : World) (r : Tables × Task) : World := ⟨r.1, w.tasks ++ [r.2]⟩

/-- One stretch between waits, and where it leaves its run. -/
def World.step (o : JobOwner) (e : Event) (w : World) : Option Task × World :=
  match e with
  | .dispatch job now =>
    let r := dispatch o job now w.tables
    (some r.2, w.begin r)
  | .pass now maxMs =>
    let r := runBackgroundPass o now maxMs w.tables
    (some r, w.begin (w.tables, r))
  | .cancel id now =>
    let r := jobsCancel o id now w.tables
    (some r, w.begin (w.tables, r))
  | .stop session =>
    let r := stopSessionJobs o session w.tables
    (some r, w.begin (w.tables, r))
  | .resume i now reply =>
    match w.tasks[i]? with
    | none | some (.answered _) => (none, w)
    | some task =>
      let r := task.resume o now reply w.tables
      (some r.2, ⟨r.1, w.tasks.set i r.2⟩)

end Antiproton.Background
