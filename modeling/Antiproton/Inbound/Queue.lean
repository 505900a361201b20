import Antiproton.Core.Js

/-!
# Antiproton.Inbound.Queue

The two tables of pushed events (`src/runtime/inbound.ts`): `inbound_pending`, the accepted pushes not yet handed over,
and `inbound_events`, what became of every push; and `receiveHook` from its last wait on (`cf/src/runtime.ts`), which
answers a push and claims its key in one step.
-/

namespace Antiproton.Inbound

open Js

def INBOUND_PER_MINUTE : Nat := 30

def INBOUND_DEDUPE_MS : Int := 24 * 60 * 60000

def INBOUND_KEEP_MS : Int := 7 * 24 * 60 * 60000

def INBOUND_RETRY_MS : List Int := [30000, 2 * 60000, 5 * 60000, 10 * 60000]

def INBOUND_POST_ATTEMPTS : Nat := INBOUND_RETRY_MS.length + 1

def INBOUND_MAX_AGE_MS : Int := 30 * 60000

def INBOUND_QUEUE_MAX : Nat := 30

def INBOUND_QUEUE_RETRY_AFTER_S : Int := 3

def INBOUND_QUEUE_RETRY_AFTER_MAX_S : Int := 600

inductive InboundOutcome where
  | accepted
  | delivered
  | ignored
  | rejected
  | malformed
  | duplicate
  | rate_limited
  | too_large
  | failed
deriving DecidableEq, Repr

/-- A key a plugin named, or one made for a push without one: `local:` and a number no other push has. -/
inductive DedupeKey where
  | named (key : Str)
  | own (n : Nat)
deriving DecidableEq

structure InboundEvent where
  hookId : String
  receivedAt : Int
  alias_ : String
  outcome : InboundOutcome
  reason : Option Str
  dedupeKey : Option DedupeKey
deriving DecidableEq

structure PendingInbound where
  seq : Nat
  hookId : String
  alias_ : String
  dedupeKey : DedupeKey
  message : Str
  receivedAt : Int
  /-- In state `posting`; else `queued`. -/
  posting : Bool
  attempts : Nat
  nextAt : Int
  lastError : Option Str
  installationId : Option String
deriving DecidableEq

/-- The tables, and the number `AUTOINCREMENT` gives the next row. -/
structure Tables where
  pending : List PendingInbound
  events : List InboundEvent
  nextSeq : Nat
deriving DecidableEq

/-! ## The tables -/

/-- The final records that hold a key and count against the rate. -/
def InboundEvent.taken (e : InboundEvent) : Bool :=
  e.outcome == .delivered || (e.outcome == .failed && e.dedupeKey.isSome)

def seenBefore (hookId : String) (key : Str) (now : Int) (t : Tables) : Bool :=
  (t.events.any fun e => e.hookId == hookId && e.dedupeKey == some (.named key) && e.taken &&
      decide (now - INBOUND_DEDUPE_MS < e.receivedAt)) ||
    t.pending.any fun r => r.hookId == hookId && r.dedupeKey == .named key

/-- The arrivals the rate counts. -/
def counted (hookId : String) (now : Int) (t : Tables) : List Int :=
  (t.events.filter fun e => e.hookId == hookId && e.taken && decide (now - 60000 < e.receivedAt)).map (·.receivedAt) ++
    (t.pending.filter fun r => r.hookId == hookId && decide (now - 60000 < r.receivedAt)).map (·.receivedAt)

def underRate (hookId : String) (now : Int) (t : Tables) : Bool :=
  decide ((counted hookId now t).length < INBOUND_PER_MINUTE)

/-- `Math.ceil(ms / 1000)`. -/
def ceilSeconds (ms : Int) : Int := -(-ms / 1000)

def rateRetryAfterS (hookId : String) (now : Int) (t : Tables) : Option Int :=
  let times := Table.orderBy id (counted hookId now t)
  if times.length < INBOUND_PER_MINUTE then none
  else some (ceilSeconds ((times[times.length - INBOUND_PER_MINUTE]?).getD 0 + 60000 - now))

def queueFull (hookId : String) (t : Tables) : Bool :=
  decide (INBOUND_QUEUE_MAX ≤ Table.changes (·.hookId == hookId) t.pending)

/-- `nextPendingInbound`: the oldest push not yet settled. -/
def nextPendingInbound (t : Tables) : Option PendingInbound := (Table.orderBy (·.seq) t.pending).head?

def queueRetryAfterS (head : Option PendingInbound) (now : Int) (passRunning : Bool) : Int :=
  match head with
  | none => INBOUND_QUEUE_RETRY_AFTER_S
  | some head =>
    if passRunning ∨ head.posting then INBOUND_QUEUE_RETRY_AFTER_S
    else min INBOUND_QUEUE_RETRY_AFTER_MAX_S (max INBOUND_QUEUE_RETRY_AFTER_S
      (ceilSeconds (min head.nextAt (head.receivedAt + INBOUND_MAX_AGE_MS) - now)))

/-- A record, its reason cut. -/
def recordOf (hookId alias_ : String) (outcome : InboundOutcome) (reason : Option Str) (dedupeKey : Option DedupeKey)
    (now : Int) : InboundEvent :=
  let said := match reason with
    | none => none
    | some text => if text.take 500 = [] then none else some (text.take 500)
  ⟨hookId, now, alias_, outcome, said, dedupeKey⟩

/-- `recordInbound`: the rows past their time go, and this one is written. -/
def recordInbound (e : InboundEvent) (t : Tables) : Tables :=
  { t with events := Table.delete (fun r => decide (r.receivedAt < e.receivedAt - INBOUND_KEEP_MS)) t.events ++ [e] }

/-- A push whose mount is there, from `receiveHook`'s last wait on. `age` is how long ago it arrived. -/
structure Received where
  hookId : String
  alias_ : String
  age : Nat
  key : Option Str
  /-- Its text is for the model; else its plugin acts on it. -/
  deliver : Bool
  message : Str
  /-- The plugin the agent's profile hands every push to. -/
  driver : Option String
  installationId : String
deriving DecidableEq

/-- The key a push is queued under. -/
def Received.rowKey (c : Received) (t : Tables) : DedupeKey :=
  match c.key with
  | some key => .named key
  | none => .own t.nextSeq

/-- `acceptInbound`; `none` where a row of the key is there and the statement throws. -/
def acceptInbound (c : Received) (now : Int) (t : Tables) : Option Tables :=
  (Table.insert (fun r => r.hookId == c.hookId && r.dedupeKey == c.rowKey t)
    ⟨t.nextSeq, c.hookId, c.alias_, c.rowKey t, c.message, now, false, 0, 0, none, some c.installationId⟩ t.pending).map
      fun pending => { t with pending := pending, nextSeq := t.nextSeq + 1 }

/-- What the service is answered; `none` where the call throws. -/
structure HookAnswer where
  outcome : Option InboundOutcome
  retryAfterS : Option Int
  /-- Accepted: queued, or its plugin asked to act on it. -/
  accepted : Bool
deriving DecidableEq

def done (c : Received) (now : Int) (outcome : InboundOutcome) (reason : Option Str) (t : Tables) : Tables :=
  recordInbound (recordOf c.hookId c.alias_ outcome reason (c.key.map .named) now) t

/-- The plugin that acts on the push in the model's place. -/
def Received.wakes (c : Received) : Option String :=
  match c.driver with
  | some driver => some driver
  | none => if c.deliver then none else some c.alias_

/-- What is recorded of a push its plugin acts on. -/
def wakeRecord (c : Received) (now : Int) (alias_ : String) : InboundEvent :=
  recordOf c.hookId c.alias_ .delivered (some (js "a wake for the " ++ js alias_ ++ js " plugin")) (c.key.map .named) now

/-- `receiveHook` from its last wait on. An empty key is taken for none where it is looked up. -/
def receiveHook (c : Received) (now : Int) (passRunning : Bool) (t : Tables) : HookAnswer × Tables :=
  if c.key.any (fun key => key != [] && seenBefore c.hookId key now t) then
    (⟨some .duplicate, none, false⟩, done c now .duplicate none t)
  else if !underRate c.hookId now t then
    (⟨some .rate_limited, some ((rateRetryAfterS c.hookId now t).getD INBOUND_QUEUE_RETRY_AFTER_S), false⟩,
      done c now .rate_limited (some (js "more than " ++ js (toString INBOUND_PER_MINUTE) ++ js " a minute")) t)
  else if queueFull c.hookId t then
    (⟨some .rate_limited, some (queueRetryAfterS (nextPendingInbound t) now passRunning), false⟩,
      done c now .rate_limited (some (js (toString INBOUND_QUEUE_MAX) ++ js " pushes from this hook are already waiting to be posted")) t)
  else
    match c.wakes with
    | some alias_ => (⟨some .delivered, none, true⟩, recordInbound (wakeRecord c now alias_) t)
    | none =>
      match acceptInbound c now t with
      | none => (⟨none, none, false⟩, t)
      | some t' => (⟨some .delivered, none, true⟩, t')

/-! ## The pass's writes -/

/-- The numbers of the pushes too old to be read, oldest first. -/
def expiredPendingInbound (now : Int) (t : Tables) : List Nat :=
  ((Table.orderBy (·.seq) t.pending).filter fun r => decide (r.receivedAt ≤ now - INBOUND_MAX_AGE_MS)).map (·.seq)

def pendingInboundRow (seq : Nat) (t : Tables) : Option PendingInbound := Table.one (·.seq == seq) t.pending

def claimPendingInbound (row : PendingInbound) (now : Int) (t : Tables) : PendingInbound × Tables :=
  let nextAt := now + (INBOUND_RETRY_MS[min row.attempts (INBOUND_RETRY_MS.length - 1)]?).getD 0
  ({ row with attempts := row.attempts + 1, nextAt := nextAt },
    { t with
      pending := Table.update (·.seq == row.seq) (fun r => { r with attempts := r.attempts + 1, nextAt := nextAt }) t.pending })

def markPostingInbound (seq : Nat) (t : Tables) : Tables :=
  { t with pending := Table.update (·.seq == seq) (fun r => { r with posting := true }) t.pending }

def requeueInbound (seq : Nat) (error : Str) (t : Tables) : Tables :=
  { t with
    pending := Table.update (·.seq == seq) (fun r => { r with posting := false, lastError := some (error.take 500) })
      t.pending }

def finalRecord (row : PendingInbound) (outcome : InboundOutcome) (reason : Option Str) : InboundEvent :=
  recordOf row.hookId row.alias_ outcome reason (some row.dedupeKey) row.receivedAt

/-- `settleInbound`: the queued row gone and its final record written, in one transaction. -/
def settleInbound (row : PendingInbound) (outcome : InboundOutcome) (reason : Option Str) (t : Tables) : Tables :=
  recordInbound (finalRecord row outcome reason)
    { t with pending := Table.delete (·.seq == row.seq) t.pending }

end Antiproton.Inbound
