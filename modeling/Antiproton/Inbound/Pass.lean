import Antiproton.Lib.History
import Antiproton.Inbound.Queue

/-!
# Antiproton.Inbound.Pass

One object's pushes: calls that answer the service, and the pass that hands the queue to the agent
(`deliverPendingInbound`, `cf/src/runtime.ts`), each event one stretch between two waits. A crash ends the pass where it
stands and leaves the tables.
-/

namespace Antiproton.Inbound

open Js

def MOUNT_REMOVED_REASON : Str := js "the mount that received it was removed"

/-- An accepted push, and the final records written of it. A push its plugin acts on has no number. -/
structure Push where
  seq : Option Nat
  hookId : String
  key : Option DedupeKey
  at_ : Int
  ends : List InboundEvent
deriving DecidableEq

/-- Where the pass is: between rows, in `postMessage` before its write, or in the engine's write. -/
inductive Phase where
  | idle
  | looping
  | claimed (row : PendingInbound)
  | saying (row : PendingInbound) (written : Bool)
deriving DecidableEq

/-- The object, the rows the engine took, and every push it accepted. -/
structure World where
  tables : Tables
  clock : Int
  phase : Phase
  engine : List Nat
  pushes : List Push
deriving DecidableEq

def World.empty : World := ⟨⟨[], [], 1⟩, 0, .idle, [], []⟩

/-- What the pass finds of the row at the head: whether its mount is being removed, the installation its alias names,
whether the agent's pushes are its plugin's to act on, and why its conversation takes no post. -/
structure HeadView where
  age : Nat
  removing : Bool
  mount : Option String
  driver : Bool
  stuck : Option Str
deriving DecidableEq

inductive Event where
  | tick (ms : Nat)
  /-- `receiveHook` from its last wait on. -/
  | received (c : Received)
  /-- A push refused before that, by an outcome that accepts nothing. -/
  | refused (hookId alias_ : String) (age : Nat) (outcome : InboundOutcome) (reason : Str)
  | passStart (held : Bool) (lifted : Option Int)
  | next (v : HeadView)
  | say
  | write
  | returned
  | threw (error : Str)
  | crash
deriving DecidableEq

/-- A push leaves the queue. -/
def settle (row : PendingInbound) (outcome : InboundOutcome) (reason : Option Str) (w : World) : World :=
  { w with
    tables := settleInbound row outcome reason w.tables
    pushes := w.pushes.map fun p =>
      if p.seq = some row.seq then { p with ends := p.ends ++ [finalRecord row outcome reason] } else p }

def expiredReason (row : PendingInbound) : Str :=
  js "queued for more than " ++ js (toString (INBOUND_MAX_AGE_MS / 60000)) ++ js " minutes without being posted" ++
    match row.lastError with
    | some error => if error = [] then [] else js ": " ++ error
    | none => []

/-- The pass's first step: the pushes too old to be read are given up. -/
def expire (w : World) : World :=
  (expiredPendingInbound w.clock w.tables).foldl (fun w seq =>
    match pendingInboundRow seq w.tables with
    | none => w
    | some row => settle row .failed (some (expiredReason row)) w) w

def postingReason : Str :=
  js "the pass handing it to the agent ended mid-way, so it may or may not have arrived; not posted again, so it cannot arrive twice"

/-- One turn of the pass's loop, up to the post. -/
def nextHead (v : HeadView) (w : World) : World :=
  match nextPendingInbound w.tables with
  | none => { w with phase := .idle }
  | some head =>
    if head.posting then settle head .failed (some postingReason) w
    else if v.removing then { w with phase := .idle }
    else if head.installationId ≠ none ∧ v.mount ≠ head.installationId then
      settle head .ignored (some MOUNT_REMOVED_REASON) w
    else if v.driver then settle head .delivered none w
    else
      match v.stuck with
      | some reason => settle head .failed (some reason) w
      | none =>
        if w.clock - v.age < head.nextAt then { w with phase := .idle }
        else
          let r := claimPendingInbound head w.clock w.tables
          { w with tables := r.2, phase := .claimed r.1 }

/-- The post threw, so it wrote nothing. -/
def postThrew (row : PendingInbound) (error : Str) (w : World) : World :=
  if INBOUND_POST_ATTEMPTS ≤ row.attempts then
    { settle row .failed (some (js "accepted, then not posted after " ++ js (toString row.attempts) ++ js " attempts: " ++
        error.take 300)) w with phase := .looping }
  else { w with tables := requeueInbound row.seq (error.take 300) w.tables, phase := .idle }

/-- What the world keeps of an accepted push. -/
def pushOf (c : Received) (now : Int) (t : Tables) : Push :=
  match c.wakes with
  | some alias_ => ⟨none, c.hookId, c.key.map .named, now, [wakeRecord c now alias_]⟩
  | none => ⟨some t.nextSeq, c.hookId, some (c.rowKey t), now, []⟩

def receive (c : Received) (w : World) : HookAnswer × World :=
  let now := w.clock - c.age
  let r := receiveHook c now (w.phase != .idle) w.tables
  (r.1, { w with
    tables := r.2
    pushes := if r.1.accepted then w.pushes ++ [pushOf c now w.tables] else w.pushes })

/-- One event, and what a call answered. -/
def World.step : Event → World → Option HookAnswer × World
  | .tick ms, w => (none, { w with clock := w.clock + ms })
  | .received c, w => (some (receive c w).1, (receive c w).2)
  | .refused hookId alias_ age outcome reason, w =>
    if [.too_large, .failed, .ignored, .rejected, .malformed].contains outcome then
      (some ⟨some outcome, none, false⟩,
        { w with tables := recordInbound (recordOf hookId alias_ outcome (some reason) none (w.clock - age)) w.tables })
    else (none, w)
  | .passStart held lifted, w =>
    if w.phase = .idle ∧ !held then
      let fresh := lifted.any fun at_ => decide (w.clock - at_ < INBOUND_MAX_AGE_MS)
      (none, { (if fresh then w else expire w) with phase := .looping })
    else (none, w)
  | .next v, w => (none, if w.phase = .looping then nextHead v w else w)
  | .say, w =>
    match w.phase with
    | .claimed row => (none, { w with tables := markPostingInbound row.seq w.tables, phase := .saying row false })
    | _ => (none, w)
  | .write, w =>
    match w.phase with
    | .saying row false => (none, { w with engine := w.engine ++ [row.seq], phase := .saying row true })
    | _ => (none, w)
  | .returned, w =>
    match w.phase with
    | .saying row _ => (none, { settle row .delivered none w with phase := .looping })
    | _ => (none, w)
  | .threw error, w =>
    match w.phase with
    | .claimed row => (none, postThrew row error w)
    | .saying row false => (none, postThrew row error w)
    | _ => (none, w)
  | .crash, w => (none, { w with phase := .idle })

def World.run (events : List Event) : World := History.final World.step events World.empty

abbrev InboundTurn := History.Turn World Event (Option HookAnswer)

end Antiproton.Inbound
