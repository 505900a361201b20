import Antiproton.Trace.Outbox

/-!
# Antiproton.Trace.Forward

The forward of trace rows to a receiver (`cf/src/trace-forward.ts`): each lane stages its rows from the outbox into a
queue of its own and sends the queue, oldest first, within a pass's budget. What the receiver, the clock and the
platform do is a list of `Attempt`s, one for each request; a send whose list ends before it is done was cut off.
-/

namespace Antiproton.Trace

open Js

def FORWARD_BATCH_MAX : Nat := 500

def FORWARD_BATCH_BYTES : Nat := 256 * 1024

def FORWARD_QUEUE_MAX : Nat := 5000

def STAGE_READ_MAX : Nat := 2000

def FORWARD_REQUEST_MIN_MS : Int := 250

def FORWARD_BACKOFF_BASE_MS : Int := 60000

def FORWARD_BACKOFF_MAX_MS : Int := 60 * 60000

def DROPS_KEEP_MS : Int := 7 * 24 * 60 * 60000

/-- The agent's mounts by alias: the plugin's type and the ordinal. -/
abbrev MountsView := Map (String × Nat)

/-- A row of a lane's queue: its outbox number and its JSON text. -/
structure WireRow where
  seq : Nat
  row : Str
deriving DecidableEq

/-- One lane: which kinds, how a row becomes its fields (`none`: unsendable), and whether an answer lists rejections. -/
structure ForwardLane where
  kinds : List String
  map : TraceOutboxRow → MountsView → Option Str
  rowRejections : Bool

inductive ForwardReason where
  | too_large
  | schema
  | rejected
  | lost
  | unsendable
  | auth_or_off
  | unavailable
deriving DecidableEq, Repr

/-- Whether the rows a reason is noted of are dropped; the others are kept for a later pass. -/
def ForwardReason.drops : ForwardReason → Bool
  | .auth_or_off | .unavailable => false
  | _ => true

/-- A line of a lane's log. `seqs` are the rows it counts, of which the table keeps the number. -/
structure LogRow where
  at_ : Int
  reason : ForwardReason
  status : Option Nat
  seqs : List Nat
  detail : Option Str
deriving DecidableEq

def LogRow.rows (l : LogRow) : Nat := l.seqs.length

/-- What was sent in one request, and the status it was answered with. -/
structure Request where
  rows : List WireRow
  status : Option Nat
deriving DecidableEq

/-- A lane's tables, with every line its log was ever given and every request it made. -/
structure LaneTables where
  cursor : Nat
  queue : List WireRow
  /-- Failures in a row, and when the next request may be made. -/
  state : Option (Nat × Int)
  log : List LogRow
  noted : List LogRow
  requests : List Request
deriving DecidableEq

def LaneTables.empty : LaneTables := ⟨0, [], none, [], [], []⟩

/-- `note`. -/
def note (at_ : Int) (reason : ForwardReason) (status : Option Nat) (seqs : List Nat) (detail : Option Str)
    (t : LaneTables) : LaneTables :=
  let line : LogRow := ⟨at_, reason, status, seqs, detail⟩
  { t with
    log := (t.log.filter fun l => !decide (l.at_ < at_ - DROPS_KEEP_MS)) ++ [line]
    noted := t.noted ++ [line] }

/-! ## Staging -/

def stageRow (lane : ForwardLane) (mounts : MountsView) (r : TraceOutboxRow) (queue : List WireRow) : List WireRow :=
  match lane.map r mounts with
  | none => queue
  | some row => Table.insertOrIgnore (·.seq == r.seq) ⟨r.seq, row⟩ queue

/-- The rows of a lane's kinds that it cannot send. -/
def unsendable (lane : ForwardLane) (mounts : MountsView) (rows : List TraceOutboxRow) : List Nat :=
  (rows.filter fun r => (lane.map r mounts).isNone).map (·.seq)

/-- The oldest rows past what a queue holds at most are lost. -/
def trimQueue (now : Int) (t : LaneTables) : LaneTables :=
  if FORWARD_QUEUE_MAX < t.queue.length then
    let eldest := ((Table.orderBy (·.seq) t.queue).take (t.queue.length - FORWARD_QUEUE_MAX)).map (·.seq)
    note now .lost none eldest none { t with queue := Table.delete (fun r => eldest.contains r.seq) t.queue }
  else t

/-- `stageForward`. -/
def stageForward (lane : ForwardLane) (mounts : MountsView) (now : Int) (o : TraceOutbox) (t : LaneTables) : LaneTables :=
  let p := pendingTrace o t.cursor STAGE_READ_MAX
  let mine := p.rows.filter fun r => lane.kinds.contains r.kind
  let staged := { t with
    queue := mine.foldl (fun q r => stageRow lane mounts r q) t.queue
    cursor := if t.cursor < p.through then p.through else t.cursor }
  let unsent := unsendable lane mounts mine
  trimQueue now (if unsent = [] then staged else note now .unsendable none unsent none staged)

/-! ## Answers -/

inductive StatusAnswer where
  | accepted
  | split
  | because (reason : ForwardReason)
deriving DecidableEq, Repr

def answerOf (status : Nat) : StatusAnswer :=
  if 200 ≤ status ∧ status < 300 then .accepted
  else if status = 413 then .split
  else if status = 400 ∨ status = 422 then .because .schema
  else if status = 401 ∨ status = 403 ∨ status = 404 then .because .auth_or_off
  else if status = 408 ∨ status = 429 ∨ 500 ≤ status ∨ status < 200 then .because .unavailable
  else if 400 ≤ status then .because .rejected
  else .because .unavailable

/-- An item of `rejected` in an answer: an index where it is a whole number, and a reason where it is text. -/
structure Rejection where
  index : Option Int
  reason : Option Str
deriving DecidableEq

def rejectReasonUnit (u : UInt16) : Bool :=
  (unit 'A' ≤ u && u ≤ unit 'Z') || (unit 'a' ≤ u && u ≤ unit 'z') || (unit '0' ≤ u && u ≤ unit '9') ||
    u == unit '_' || u == unit '.' || u == unit ':' || u == unit '-'

/-- `REJECT_REASON`. -/
def isRejectReason (s : Str) : Bool := s.all rejectReasonUnit && decide (1 ≤ s.length ∧ s.length ≤ 64)

def whyRejected (r : Rejection) : Str :=
  match r.reason with
  | some reason => if isRejectReason reason then reason else js "other"
  | none => js "other"

/-- The rejections that count, each index once and inside the batch. -/
def rejectedRows (size : Nat) (list : List Rejection) : List (Nat × Str) :=
  list.foldl (fun out r =>
    match r.index with
    | none => out
    | some index =>
      if index < 0 ∨ (size : Int) ≤ index ∨ out.any (fun x => (x.1 : Int) == index) then out
      else out ++ [(index.toNat, whyRejected r)]) []

/-- `rejectionsOf`: the rows of a batch a 2xx did not take, by the receiver's reason. -/
def rejectionsOf (size : Nat) (list : List Rejection) : Map (List Nat) :=
  (rejectedRows size list).foldl (fun out x => out.set x.2 ((out.get x.2).getD [] ++ [x.1])) []

/-! ## Sending -/

inductive Reply where
  | answer (status : Nat) (rejected : List Rejection)
  /-- No answer: the error's name. -/
  | noAnswer (name : Str)
deriving DecidableEq

/-- One request: what was left of the pass's time, the answer if one came, and whether the object goes away with it. -/
structure Attempt where
  left : Int
  reply : Option Reply
  cut : Bool
deriving DecidableEq

inductive SendStep where
  | ok
  | failed
  | budget
deriving DecidableEq, Repr

/-- A send under way. `todo` is the batch to be posted and, of one that was split, the halves still to come. -/
structure Sending where
  tables : LaneTables
  todo : List (List WireRow)
  made : Nat
  sent : Nat
  dropped : Nat
  error : Option Str
deriving DecidableEq

def byteLength (text : Str) : Nat := (utf8 text).length

/-- The rows that fit one body after `bytes` of it, one always. -/
def fitting : Nat → Bool → List WireRow → List WireRow
  | _, _, [] => []
  | bytes, started, r :: rest =>
    let size := byteLength r.row + if started then 1 else 0
    if started ∧ FORWARD_BATCH_BYTES < bytes + size then [] else r :: fitting (bytes + size) true rest

/-- `nextBatch`; `11` is the length of the empty body. -/
def nextBatch (queue : List WireRow) : List WireRow :=
  fitting 11 false ((Table.orderBy (·.seq) queue).take FORWARD_BATCH_MAX)

def forget (rows : List WireRow) (t : LaneTables) : LaneTables :=
  { t with queue := rows.foldl (fun q r => Table.delete (fun x => x.seq == r.seq) q) t.queue }

/-- The lines of a 2xx answer's rejections, one for each reason. -/
def noteRejected (now : Int) (status : Nat) (rows : List WireRow) (rejections : Map (List Nat)) (t : LaneTables) : LaneTables :=
  rejections.foldl (fun t x =>
    note now .rejected (some status) (x.2.filterMap fun i => (rows[i]?).map (·.seq)) (some x.1) t) t

def refusedCount (rejections : Map (List Nat)) : Nat := (rejections.map fun x => x.2.length).sum

/-- What an answer does to the batch that got it: how the pass goes on, and what is to be posted before the next one. -/
def answered (lane : ForwardLane) (now : Int) (rows : List WireRow) (reply : Reply) (s : Sending) : SendStep × Sending :=
  match reply with
  | .noAnswer name =>
    (.failed, { s with
      error := some (js "network: " ++ name.take 40)
      tables := note now .unavailable none (rows.map (·.seq)) none s.tables })
  | .answer status rejected =>
    match answerOf status with
    | .accepted =>
      let rejections := if lane.rowRejections then rejectionsOf rows.length rejected else []
      (.ok, { s with
        tables := noteRejected now status rows rejections (forget rows s.tables)
        sent := s.sent + (rows.length - refusedCount rejections)
        dropped := s.dropped + refusedCount rejections })
    | .split =>
      if 1 < rows.length then
        let half := (rows.length + 1) / 2
        (.ok, { s with todo := rows.take half :: rows.drop half :: s.todo })
      else
        (.ok, { s with
          tables := note now .too_large (some status) (rows.map (·.seq)) none (forget rows s.tables)
          dropped := s.dropped + rows.length })
    | .because reason =>
      if reason = .auth_or_off ∨ reason = .unavailable then
        (.failed, { s with
          error := some (js (if reason = .auth_or_off then "auth_or_off: http-" else "unavailable: http-") ++ js (toString status))
          tables := note now reason (some status) (rows.map (·.seq)) none s.tables })
      else
        (.ok, { s with
          tables := note now reason (some status) (rows.map (·.seq)) none (forget rows s.tables)
          dropped := s.dropped + rows.length })

/-- The batch to be posted next: what is left of one that was split, or the queue's next. -/
def ready (s : Sending) : Sending :=
  match s.todo with
  | _ :: _ => s
  | [] =>
    match nextBatch s.tables.queue with
    | [] => s
    | batch => { s with todo := [batch] }

def Reply.statusOf : Reply → Option Nat
  | .answer status _ => some status
  | .noAnswer _ => none

def requested (rows : List WireRow) (reply : Option Reply) (s : Sending) : Sending :=
  { s with
    made := s.made + 1
    tables := { s.tables with requests := s.tables.requests ++ [⟨rows, reply.bind Reply.statusOf⟩] } }

/-- `post`, of the batch at hand. `none`: the send was cut off in it. -/
def post (lane : ForwardLane) (now : Int) (budget : Nat) (a : Attempt) (rows : List WireRow) (more : List (List WireRow))
    (s : Sending) : Option SendStep × Sending :=
  if budget ≤ s.made ∨ a.left < FORWARD_REQUEST_MIN_MS then (some .budget, s)
  else
    let s' := requested rows a.reply { s with todo := more }
    match a.reply with
    | none => (none, s')
    | some reply =>
      if a.cut then (none, s')
      else (some (answered lane now rows reply s').1, (answered lane now rows reply s').2)

/-- The loop of `sendForward`. `none`: the send was cut off. -/
def sendLoop (lane : ForwardLane) (now : Int) (budget : Nat) : List Attempt → Sending → Option SendStep × Sending
  | attempts, s =>
    match (ready s).todo with
    | [] => (some .ok, s)
    | rows :: more =>
      match attempts with
      | [] => (if budget ≤ s.made then some .budget else none, ready s)
      | a :: rest =>
        match post lane now budget a rows more (ready s) with
        | (some .ok, s') => sendLoop lane now budget rest s'
        | r => r

structure ForwardResult where
  sent : Nat
  dropped : Nat
  kept : Nat
  error : Option Str
  skipped : Bool
  stopped : Bool
deriving DecidableEq

/-- What is left of the backoff once a send is over. -/
def settle (now : Int) (step : SendStep) (t : LaneTables) : LaneTables :=
  let failures := (t.state.map (·.1)).getD 0
  if step = .failed then
    { t with state := some (failures + 1, now + min FORWARD_BACKOFF_MAX_MS (FORWARD_BACKOFF_BASE_MS * 2 ^ failures)) }
  else if failures = 0 then t
  else { t with state := none }

/-- `sendForward`, over `https`; no result where it was cut off. -/
def sendForward (lane : ForwardLane) (now : Int) (budget : Nat) (attempts : List Attempt) (t : LaneTables) :
    Option ForwardResult × LaneTables :=
  if ∃ state ∈ t.state, now < state.2 then (some ⟨0, 0, t.queue.length, none, true, false⟩, t)
  else
    match sendLoop lane now budget attempts ⟨t, [], 0, 0, 0, none⟩ with
    | (none, s) => (none, s.tables)
    | (some step, s) =>
      (some ⟨s.sent, s.dropped, s.tables.queue.length, s.error, false,
          decide (step = .budget) && decide (0 < s.tables.queue.length)⟩,
        settle now step s.tables)

end Antiproton.Trace
