import Antiproton.Lib.Process
import Antiproton.Lib.Table
import Antiproton.Usage.Outbox

/-!
# Antiproton.Usage.D1

The tenant's hourly usage in D1, and what moves it: an agent's flush of its outbox (`sendUsage`, `flushUsage`) and the
fold of whole days (`foldUsage`), from `cf/src/usage-d1.ts`. A batch is one transaction of D1. What is asked of D1 may
be applied any number of times, also later than the answer, and the answer may be lost.
-/

namespace Antiproton
namespace Usage

open Process

/-- `DAY_MS` (`cf/src/usage-windows.ts`). -/
def dayMs : Int := 86400000

/-- `KEEP_HOURLY_DAYS`. -/
def keepHourlyDays : Int := 35

/-! ## The ledger -/

/-- A row of `usage_cursor`: how far an agent's outbox has been counted. -/
structure UsageCursorRow where
  tenantId : String
  agentId : String
  lastSeq : Nat
deriving DecidableEq, Repr

/-- The usage tables of D1: `usage_cursor`, `usage_hourly` and `usage_daily`. -/
structure UsageD1 where
  cursors : List UsageCursorRow
  hourly : Ledger BucketKey ℚ
  daily : Ledger BucketKey ℚ
deriving DecidableEq

def usageCursorKey (tenantId agentId : String) (r : UsageCursorRow) : Bool :=
  r.tenantId == tenantId && r.agentId == agentId

/-- `usageCursor`: how far this agent's outbox has been counted. -/
def usageCursor (tenantId agentId : String) (d : UsageD1) : Nat :=
  ((Table.one (usageCursorKey tenantId agentId) d.cursors).map (·.lastSeq)).getD 0

/-- The batch of one `sendUsage`. -/
structure SentBatch where
  tenantId : String
  agentId : String
  expectedSeq : Nat
  rows : List OutboxRow
deriving DecidableEq

/-- The number the cursor moves to. -/
def SentBatch.through (b : SentBatch) : Nat := b.rows.foldl (fun m r => max m r.seq) b.expectedSeq

/-- The rows of the agent itself. -/
def SentBatch.own (b : SentBatch) : List OutboxRow :=
  b.rows.filter fun r => r.tenantId == b.tenantId && r.agentId == b.agentId

/-- The transaction of `sendUsage`: a row of the cursor, the hours while it holds the expected number, and the
cursor moved; whether its last statement changed one row. -/
def sendBatch (b : SentBatch) (d : UsageD1) : Bool × UsageD1 :=
  let key := usageCursorKey b.tenantId b.agentId
  let cursors := Table.insertOrIgnore key ⟨b.tenantId, b.agentId, 0⟩ d.cursors
  let guard := (Table.one key cursors).any fun r => r.lastSeq == b.expectedSeq
  let hourly := if guard then Ledger.post (toHourly b.own) d.hourly else d.hourly
  let moves := fun r => key r && r.lastSeq == b.expectedSeq
  (Table.changes moves cursors == 1,
    { d with cursors := Table.update moves (fun r => { r with lastSeq := b.through }) cursors, hourly := hourly })

/-- The day a row of `usage_hourly` belongs to, by the division of SQL, which rounds towards zero. -/
def dayOf (hour : Int) : Int := hour.tdiv dayMs * dayMs

/-- The days with hours older than `cutoff`, oldest first, at most `maxDays`. -/
def oldDays (cutoff : Int) (maxDays : Nat) (d : UsageD1) : List Int :=
  ((((d.hourly.filter fun r => decide (r.1.start < cutoff)).map fun r => dayOf r.1.start).dedup).insertionSort
    (· ≤ ·)).take maxDays

/-- Whether an hour is one of a day's. -/
def inDay (day : Int) (k : BucketKey) : Bool := decide (day ≤ k.start) && decide (k.start < day + dayMs)

/-- The batch of one folded day: its hours summed into the day, and gone. -/
def foldDay (day : Int) (d : UsageD1) : Nat × UsageD1 :=
  let moved := d.hourly.filter fun r => inDay day r.1
  let summed := Ledger.group (fun r : BucketKey × ℚ => { r.1 with start := day }) (·.2) moved
  (moved.length, { d with daily := Ledger.post summed d.daily, hourly := d.hourly.filter fun r => !inDay day r.1 })

/-! ## The object, the ledger, and what is on its way between them -/

structure UsageWorld where
  outbox : Outbox
  /-- `usage_sent`: the object's own copy of the cursor. -/
  sent : Option Nat
  d1 : UsageD1
  /-- Every batch handed to D1, which may apply it again. -/
  inFlight : List SentBatch
  /-- Every row ever appended to the outbox. Nothing reads it. -/
  appended : List OutboxRow
deriving DecidableEq

/-- D1's answer did not come back. -/
inductive Lost where
  | lost
deriving DecidableEq, Repr

/-- What becomes of one request to D1: how often it is applied now, and whether its answer comes back. -/
structure D1Fate where
  times : Nat
  answered : Bool
deriving DecidableEq, Repr

/-- One statement of the object, or one request to D1. -/
inductive UsageOp where
  | append (rows : List UsageRow)
  | readSent
  | remember (seq : Nat)
  | prune (seq : Nat)
  | pending (afterSeq limit : Nat)
  | usageCursor (tenantId agentId : String)
  | send (b : SentBatch)
  | resend (i : Nat)
  | oldDays (cutoff : Int) (maxDays : Nat)
  | foldDay (day : Int)

abbrev UsageOp.Ans : UsageOp → Type
  | append _ | remember _ | prune _ | resend _ => Unit
  | readSent => Option Nat
  | pending .. => List OutboxRow
  | usageCursor .. => Except Lost Nat
  | send _ => Except Lost Bool
  | oldDays .. => Except Lost (List Int)
  | foldDay _ => Except Lost Nat

/-- The statements a run of the metering is made of. -/
abbrev usageInterface : Interface := ⟨UsageOp, UsageOp.Ans⟩

/-- A batch applied so often: what the last application answered. -/
def applyTimes {A : Type} (apply : UsageD1 → A × UsageD1) : Nat → UsageD1 → Option A × UsageD1
  | 0, d => (none, d)
  | n + 1, d => let r := apply (applyTimes apply n d).2; (some r.1, r.2)

/-- The answer of the last application, if it comes back. -/
def answerOf {A : Type} (fate : D1Fate) (last : Option A) : Except Lost A :=
  match fate.answered, last with
  | true, some a => .ok a
  | _, _ => .error .lost

def usageExec : (o : UsageOp) → D1Fate → UsageWorld → o.Ans × UsageWorld
  | .append rows, _, w =>
    ((), { w with outbox := appendUsage rows w.outbox, appended := w.appended ++ keptRows w.outbox.nextSeq rows })
  | .readSent, _, w => (w.sent, w)
  | .remember seq, _, w => ((), { w with sent := some seq })
  | .prune seq, _, w => ((), { w with outbox := pruneUsage seq w.outbox })
  | .pending afterSeq limit, _, w => (pendingUsage afterSeq limit w.outbox, w)
  | .usageCursor t a, fate, w => (answerOf fate (some (Usage.usageCursor t a w.d1)), w)
  | .send b, fate, w =>
    let r := applyTimes (sendBatch b) fate.times w.d1
    (answerOf fate r.1, { w with d1 := r.2, inFlight := w.inFlight ++ [b] })
  | .resend i, _, w =>
    ((), match w.inFlight[i]? with
      | some b => { w with d1 := (sendBatch b w.d1).2 }
      | none => w)
  | .oldDays cutoff maxDays, fate, w => (answerOf fate (some (Usage.oldDays cutoff maxDays w.d1)), w)
  | .foldDay day, fate, w =>
    let r := applyTimes (Usage.foldDay day) fate.times w.d1
    (answerOf fate r.1, { w with d1 := r.2 })

/-! ## The runs -/

abbrev UsageProg := Prog usageInterface Lost

/-- A statement of the object. -/
def stmt (o : UsageOp) : UsageProg o.Ans := Prog.perform (F := usageInterface) o

/-- A request to D1, awaited: a lost answer is thrown. -/
def ask {A : Type} (o : UsageOp) (h : o.Ans = Except Lost A) : UsageProg A :=
  .act o fun r => Prog.ofExcept (h ▸ r)

/-- `sendUsage`. -/
def sendUsage (tenantId agentId : String) (expectedSeq : Nat) (rows : List OutboxRow) : UsageProg Bool :=
  if rows.isEmpty then pure true else ask (.send ⟨tenantId, agentId, expectedSeq, rows⟩) rfl

/-- What `flushUsage` answers. -/
structure Flushed where
  rows : Nat
  counted : Bool
deriving DecidableEq, Repr

/-- How far D1 has counted once a send is answered: to the last row sent, or wherever its cursor is. -/
def cursorAfter (tenantId agentId : String) (last : OutboxRow) (counted : Bool) : UsageProg Nat :=
  if counted then pure last.seq else ask (.usageCursor tenantId agentId) rfl

/-- `flushUsage` from the rows it found past `expected`. -/
def flushRows (tenantId agentId : String) (expected : Nat) (rows : List OutboxRow) : UsageProg Flushed :=
  match rows.getLast? with
  | none => pure ⟨0, true⟩
  | some last => do
    let counted ← sendUsage tenantId agentId expected rows
    let expected ← cursorAfter tenantId agentId last counted
    stmt (.remember expected)
    stmt (.prune expected)
    return ⟨rows.length, counted⟩

/-- `flushUsage`: send what this object's outbox holds past what D1 has, then forget it. -/
def flushUsage (tenantId agentId : String) (limit : Nat) : UsageProg Flushed := do
  let known ← stmt .readSent
  match known with
  | some expected =>
    let rows ← stmt (.pending expected limit)
    flushRows tenantId agentId expected rows
  | none =>
    let expected ← ask (.usageCursor tenantId agentId) rfl
    stmt (.remember expected)
    stmt (.prune expected)
    let rows ← stmt (.pending expected limit)
    flushRows tenantId agentId expected rows

/-- The loop of `foldUsage` over its days: how many hours it moved. -/
def foldDays : List Int → UsageProg Nat
  | [] => pure 0
  | day :: rest => do
    let moved ← ask (.foldDay day) rfl
    let hours ← foldDays rest
    return moved + hours

/-- `foldUsage`: move whole days out of the hours and into the days, oldest first. -/
def foldUsage (now keepDays : Int) (maxDays : Nat) : UsageProg (List Int × Nat) := do
  let days ← ask (.oldDays (now / dayMs * dayMs - keepDays * dayMs) maxDays) rfl
  let hours ← foldDays days
  return (days, hours)

/-- What may be begun: an append, a flush, a fold, a batch applied again, and another agent's send. -/
inductive UsageRequest where
  | append (rows : List UsageRow)
  | flush (limit : Nat)
  | fold (now keepDays : Int) (maxDays : Nat)
  | resend (i : Nat)
  | other (b : SentBatch)

def usageProg (tenantId agentId : String) : UsageRequest → UsageProg Unit
  | .append rows => stmt (.append rows)
  | .flush limit => do
    let _ ← flushUsage tenantId agentId limit
    return ()
  | .fold now keepDays maxDays => do
    let _ ← foldUsage now keepDays maxDays
    return ()
  | .resend i => stmt (.resend i)
  | .other b => do
    if b.tenantId = tenantId ∧ b.agentId = agentId then return ()
    let _ ← ask (.send b) rfl
    return ()

/-- The metering of one agent's object, beside the others that share its ledger. -/
def usageMachine (tenantId agentId : String) : Machine where
  F := usageInterface
  X := Lost
  W := UsageWorld
  I := D1Fate
  R := UsageRequest
  exec := usageExec
  prog := usageProg tenantId agentId

/-- Before anything was appended or counted. -/
def UsageWorld.fresh : UsageWorld := ⟨⟨[], 1⟩, none, ⟨[], [], []⟩, [], []⟩

end Usage
end Antiproton
