import Antiproton.Lib.History
import Antiproton.Lib.Table
import Antiproton.Store.Schema

/-!
# Antiproton.Trace.TurnTiming

The `turn.timing` row of a conversation's turn (`src/runtime/turn-timing.ts`), the record of the turn in flight it is
made of, and the writers of that record: a message being posted (`AgentRuntime.postMessage`), the conversation's steps,
its tools, its pauses and its ends.

Times are the object's clock's, in whole milliseconds.

* `closeTurn`: the row, and the figures read from the conversation's model jobs.
* `Timing.step`: what each of these does to the record and to the trace.
-/

namespace Antiproton.TurnTiming

open Js

/-! ## The record of the turn in flight -/

/-- A row of `turn_timing`. -/
structure TurnRow where
  inboundAt : Int
  saidAt : Option Int
  startAt : Option Int
  pausedAt : Option Int
  clientWaitMs : Int
  clientPauses : Nat
  toolMs : Int
  tools : Nat
  messages : Nat

/-- A row of `pi_model_jobs`, its answer parsed where it has one that can be. -/
structure ModelJob where
  created : Int
  answered : Option Int
  answer : Option Json

/-- What a conversation's rows are written under. -/
structure Conversation where
  tenantId : String
  agentId : String
  session : String

def turnIdFor (session : String) (inboundAt : Int) : String := s!"tt_{session}@{inboundAt}"

/-- Whether the call opened the turn, and the record it leaves. -/
def turnInbound (inboundAt : Int) (stale : Bool) (row : Option TurnRow) : Bool × Option TurnRow :=
  match if stale then none else row with
  | some r => (false, some { r with messages := r.messages + 1 })
  | none => (true, some ⟨inboundAt, none, none, none, 0, 0, 0, 0, 1⟩)

def turnSaid (at_ : Int) (row : Option TurnRow) : Option TurnRow :=
  row.map fun r => { r with saidAt := r.saidAt.or (some at_) }

def turnNotSaid (opened : Bool) (row : Option TurnRow) : Option TurnRow :=
  if opened then none else row.map fun r => { r with messages := max 1 (r.messages - 1) }

def turnStepStart (at_ : Int) (row : Option TurnRow) : Option TurnRow :=
  row.map fun r => { r with startAt := r.startAt.or (some at_) }

def turnToolRan (ms : Int) (row : Option TurnRow) : Option TurnRow :=
  row.map fun r => { r with toolMs := r.toolMs + max 0 ms, tools := r.tools + 1 }

def turnPaused (at_ : Int) (row : Option TurnRow) : Option TurnRow :=
  row.map fun r => { r with pausedAt := r.pausedAt.or (some at_) }

/-- A pause is counted and over. -/
def TurnRow.resume (at_ : Int) (r : TurnRow) : TurnRow :=
  match r.pausedAt with
  | none => r
  | some p => { r with clientWaitMs := r.clientWaitMs + max 0 (at_ - p), clientPauses := r.clientPauses + 1, pausedAt := none }

def turnResumed (at_ : Int) (row : Option TurnRow) : Option TurnRow := row.map (·.resume at_)

/-! ## The row -/

def turnVerdict (status : String) : TraceVerdict :=
  if status = "completed" then .ok
  else if status = "aborted" ∨ status = "cancelled" then .cancelled
  else .failed

structure TimingAttrs where
  session : String
  inboundToStartMs : Option Int
  startToFirstJobMs : Option Int
  modelMs : Int
  betweenJobsMs : Int
  lastAnswerToReplyMs : Option Int
  toolMs : Int
  clientWaitMs : Int
  prepMs : Option Int
  modelJobs : Nat
  tools : Nat
  clientPauses : Nat
  messages : Nat
  firstCallPromptTokens : Option Str
  firstCallCachedTokens : Option Str
  inboundAt : Int
  saidAt : Option Int
  turnStartAt : Option Int
  firstJobAt : Option Int
  lastAnswerAt : Option Int
  replyAt : Int

/-- A `turn.timing` row, of the engine `pi085`. -/
structure TimingRow where
  at_ : Int
  tenantId : String
  agentId : String
  spanId : String
  status : String
  verdict : TraceVerdict
  ms : Int
  attrs : TimingAttrs

def gap : Option Int → Option Int → Option Int
  | some a, some b => some (max 0 (b - a))
  | _, _ => none

/-- The jobs the row reads: those of the conversation written between the two times, oldest first. -/
def turnJobs (jobs : List ModelJob) (inboundAt replyAt : Int) : List ModelJob :=
  Table.orderBy (·.created) (jobs.filter fun j => decide (inboundAt ≤ j.created) && decide (j.created ≤ replyAt))

def modelMs (jobs : List ModelJob) : Int := (jobs.filterMap fun j => j.answered.map fun a => max 0 (a - j.created)).sum

def betweenJobsMs : List ModelJob → Int
  | j :: k :: rest =>
    (match j.answered with
      | some a => max 0 (k.created - a)
      | none => 0) + betweenJobsMs (k :: rest)
  | _ => 0

def lastAnswerAt (jobs : List ModelJob) : Option Int := (jobs.filterMap (·.answered)).max?

/-- The prompt of the first job's answer, and what of it came from the provider's cache. -/
def firstCallTokens (jobs : List ModelJob) : Option (Str × Str) :=
  match (jobs.head?.bind (·.answer)).bind fun a => a.field? (js "usage") with
  | none => none
  | some u =>
    match u.field? (js "input") with
    | some (.num prompt) =>
      some (prompt,
        match u.field? (js "cacheRead") with
        | some (.num cached) => cached
        | _ => js "0")
    | _ => none

/-- The caller's part of the turn: a pause still open counts up to the reply. -/
def clientWait (replyAt : Int) (t : TurnRow) : Int × Nat :=
  match t.pausedAt with
  | some p => (t.clientWaitMs + max 0 (replyAt - p), t.clientPauses + 1)
  | none => (t.clientWaitMs, t.clientPauses)

def timingRow (c : Conversation) (all : List ModelJob) (replyAt : Int) (status : String) (t : TurnRow) : TimingRow :=
  let jobs := turnJobs all t.inboundAt replyAt
  let firstJobAt := jobs.head?.map (·.created)
  { at_ := replyAt, tenantId := c.tenantId, agentId := c.agentId, spanId := turnIdFor c.session t.inboundAt
    status := status, verdict := turnVerdict status, ms := max 0 (replyAt - t.inboundAt)
    attrs :=
      { session := c.session
        inboundToStartMs := gap (some t.inboundAt) t.startAt
        startToFirstJobMs := gap t.startAt firstJobAt
        modelMs := modelMs jobs
        betweenJobsMs := betweenJobsMs jobs
        lastAnswerToReplyMs := gap (lastAnswerAt jobs) (some replyAt)
        toolMs := t.toolMs
        clientWaitMs := (clientWait replyAt t).1
        prepMs := gap (some t.inboundAt) t.saidAt
        modelJobs := jobs.length
        tools := t.tools
        clientPauses := (clientWait replyAt t).2
        messages := t.messages
        firstCallPromptTokens := (firstCallTokens jobs).map (·.1)
        firstCallCachedTokens := (firstCallTokens jobs).map (·.2)
        inboundAt := t.inboundAt
        saidAt := t.saidAt
        turnStartAt := t.startAt
        firstJobAt := firstJobAt
        lastAnswerAt := lastAnswerAt jobs
        replyAt := replyAt } }

/-! ## The conversation -/

/-- Where the posting of a message stands: it has looked for an open turn, and then its write is under way. -/
inductive Posting where
  | unsent
  | reading (prior : Bool)
  | writing (opened : Bool)
  | over
deriving DecidableEq

/-- What the posting of a message finds after it has looked: whether the lane is idle, the calls of the caller's made
and waiting, and how the message is posted. -/
structure Post where
  at_ : Int
  idle : Bool
  named : Nat
  waiting : Nat
  followUp : Bool
  /-- It carries a briefing, so it is a prompt. -/
  briefed : Bool
  /-- It came through the Agents API. -/
  received : Bool

def Post.stale (p : Post) (prior : Bool) : Bool := prior && p.idle && p.named == 0

def Post.abandoned (p : Post) (prior : Bool) : Bool :=
  prior && p.idle && decide (0 < p.waiting) && !p.followUp && p.received

/-- It opens or joins a turn. -/
def Post.timed (p : Post) (prior : Bool) : Bool := !(p.followUp && !p.briefed) || (prior && !p.stale prior)

structure Timing where
  row : Option TurnRow
  jobs : List ModelJob
  posts : Nat → Posting
  trace : List TimingRow

def Timing.empty : Timing := ⟨none, [], fun _ => .unsent, []⟩

/-- What happens to a conversation; messages are told by number. -/
inductive Event where
  | read (m : Nat)
  | inbound (m : Nat) (p : Post)
  | said (m : Nat) (at_ : Int)
  | notSaid (m : Nat)
  | stepStart (at_ : Int)
  | toolRan (ms : Int)
  | paused (at_ : Int)
  | resumed (at_ : Int)
  | jobWritten (at_ : Int)
  | jobAnswered (k : Nat) (at_ : Int) (answer : Option Json)
  | ended (at_ : Int) (status : String)
  | discarded

def Event.time : Event → Option Int
  | inbound _ p => some p.at_
  | said _ at_ | stepStart at_ | paused at_ | resumed at_ | jobWritten at_ | jobAnswered _ at_ _ | ended at_ _ => some at_
  | read _ | notSaid _ | toolRan _ | discarded => none

def setPost (m : Nat) (x : Posting) (posts : Nat → Posting) : Nat → Posting := fun n => if n = m then x else posts n

/-- `closeTurn`: the row appended, and the record forgotten. -/
def closeTurn (c : Conversation) (replyAt : Int) (status : String) (t : Timing) : Timing :=
  match t.row with
  | none => t
  | some r => { t with row := none, trace := t.trace ++ [timingRow c t.jobs replyAt status r] }

/-- A message once it has looked: what it abandons is closed, and the turn it opens or joins is recorded. -/
def postInbound (c : Conversation) (m : Nat) (p : Post) (prior : Bool) (t : Timing) : Timing :=
  let t := if p.abandoned prior then closeTurn c p.at_ "abandoned" t else t
  if p.timed prior then
    let opening := turnInbound p.at_ (p.stale prior || p.abandoned prior) t.row
    { t with row := opening.2, posts := setPost m (.writing opening.1) t.posts }
  else { t with posts := setPost m .over t.posts }

/-- An answer is delivered once. -/
def answerJob (k : Nat) (at_ : Int) (answer : Option Json) (jobs : List ModelJob) : List ModelJob :=
  jobs.modify k fun j => if j.answered.isNone then { j with answered := some at_, answer := answer } else j

def Timing.step (c : Conversation) (e : Event) (t : Timing) : Timing :=
  match e with
  | .read m =>
    match t.posts m with
    | .unsent => { t with posts := setPost m (.reading t.row.isSome) t.posts }
    | _ => t
  | .inbound m p =>
    match t.posts m with
    | .reading prior => postInbound c m p prior t
    | _ => t
  | .said m at_ =>
    match t.posts m with
    | .writing _ => { t with row := turnSaid at_ t.row, posts := setPost m .over t.posts }
    | _ => t
  | .notSaid m =>
    match t.posts m with
    | .writing opened => { t with row := turnNotSaid opened t.row, posts := setPost m .over t.posts }
    | _ => t
  | .stepStart at_ => { t with row := turnStepStart at_ t.row }
  | .toolRan ms => { t with row := turnToolRan ms t.row }
  | .paused at_ => { t with row := turnPaused at_ t.row }
  | .resumed at_ => { t with row := turnResumed at_ t.row }
  | .jobWritten at_ => { t with jobs := t.jobs ++ [⟨at_, none, none⟩] }
  | .jobAnswered k at_ answer => { t with jobs := answerJob k at_ answer t.jobs }
  | .ended at_ status => closeTurn c at_ status t
  | .discarded => { t with row := none }

/-! ## The figures -/

/-- Jobs one after another from a time to another: each is written after the answer before it, and answered. -/
def Serial (replyAt : Int) : List ModelJob → Int → Prop
  | [], since => since ≤ replyAt
  | j :: rest, since => since ≤ j.created ∧ ∃ a, j.answered = some a ∧ j.created ≤ a ∧ Serial replyAt rest a

/-- The five parts of a row, added up. -/
def TimingAttrs.parts (a : TimingAttrs) : Option Int := do
  let toStart ← a.inboundToStartMs
  let toFirst ← a.startToFirstJobMs
  let toReply ← a.lastAnswerToReplyMs
  return toStart + toFirst + a.modelMs + a.betweenJobsMs + toReply

section Figures

variable {replyAt since : Int} {jobs : List ModelJob} {j : ModelJob}

theorem Serial.le (h : Serial replyAt jobs since) : since ≤ replyAt := by
  induction jobs generalizing since with
  | nil => exact h
  | cons j rest ih =>
    obtain ⟨hc, a, -, ha, hrest⟩ := h
    have := ih hrest
    omega

/-- The last answer of serial jobs, and what the jobs and the gaps between them come to. -/
theorem serial_figures (h : Serial replyAt (j :: jobs) since) :
    ∃ a, lastAnswerAt (j :: jobs) = some a ∧ j.created ≤ a ∧ a ≤ replyAt ∧
      modelMs (j :: jobs) + betweenJobsMs (j :: jobs) = a - j.created := by
  induction jobs generalizing j since with
  | nil =>
    obtain ⟨-, a, hj, ha, hrest⟩ := h
    refine ⟨a, ?_, ha, hrest, ?_⟩
    · simp [lastAnswerAt, hj]
    · simp [modelMs, betweenJobsMs, hj]
      omega
  | cons k rest ih =>
    obtain ⟨-, a, hj, ha, hrest⟩ := h
    obtain ⟨b, hlast, hb, hreply, hsum⟩ := ih hrest
    have hk : a ≤ k.created := hrest.1
    refine ⟨b, ?_, by omega, hreply, ?_⟩
    · have hmax : ((k :: rest).filterMap (·.answered)).max? = some b := hlast
      rw [lastAnswerAt, List.filterMap_cons_some hj, List.max?_cons, hmax]
      exact congrArg some (max_eq_right (by omega))
    · have hmodel : modelMs (j :: k :: rest) = max 0 (a - j.created) + modelMs (k :: rest) := by
        simp [modelMs, hj]
      rw [hmodel, betweenJobsMs, hj]
      dsimp only
      omega

end Figures

end Antiproton.TurnTiming
