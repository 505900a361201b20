import Antiproton.Core.Js

/-!
# Antiproton.Overflow.Backstop

The context-overflow backstop of the main conversation (`src/runtime/overflow-backstop.ts`): one row, which every
operation reads and writes whole, with the count of overflows in a row, the conversation a rebuild started, the mark
that stops the backstop, and the briefing a rebuilt transcript is still owed.
-/

namespace Antiproton.Overflow

open Js

def MAX_CONSECUTIVE_OVERFLOWS : Nat := 3

def NEEDS_RESET_TTL_MS : Int := 24 * 60 * 60000

/-- How many of the main transcript's latest messages are read. -/
def BRIEFING_SCAN : Nat := 500

/-! ## The transcript -/

/-- Why a request did not fit, as `overflowKind` reads a failed answer. -/
inductive OverflowKind where
  | history
  | output_budget
deriving DecidableEq, Repr

inductive StopReason where
  | stop
  | length
  | toolUse
  | aborted
  | error (kind : Option OverflowKind)
deriving DecidableEq, Repr

/-- A message of the transcript: a model answer, or anything else. -/
inductive Entry where
  | assistant (stopReason : StopReason)
  | other
deriving DecidableEq, Repr

def Entry.answeredOk : Entry → Bool
  | .assistant .stop | .assistant .toolUse | .assistant .length => true
  | _ => false

/-- A model answer that is no failure: what a run that ended well ends with. -/
def Entry.endsWell : Entry → Bool
  | .assistant (.error _) => false
  | .assistant _ => true
  | .other => false

/-- The latest messages, oldest first. -/
def mainMessages (transcript : List Entry) : List Entry := transcript.drop (transcript.length - BRIEFING_SCAN)

def hasAnswer (entries : List Entry) : Bool := entries.any (·.answeredOk)

def mainTip (transcript : List Entry) : Option Entry := transcript.getLast?

/-! ## The row -/

/-- A briefing: its text, which rebuild wrote it, and for which conversation. The row keeps the text. -/
structure Briefing where
  text : Str
  rebuild : Nat
  conversation : Nat
deriving DecidableEq

inductive StopCause where
  | rebuilt_request_overflowed
  | consecutive_overflows
deriving DecidableEq, Repr

structure NeedsReset where
  at_ : Int
  reason : StopCause
  binding : Option String
deriving DecidableEq

structure BackstopState where
  /-- Overflows since the last run that ended well. -/
  consecutive : Nat
  /-- The conversation the last rebuild started, until a run of it ends well. -/
  awaiting : Option Nat
  rebuilds : Nat
  lastRebuildAt : Option Int
  needsReset : Option NeedsReset
  pending : Option Briefing
deriving DecidableEq

/-- `overflow_backstop`: its row, if there is one. -/
abbrev Backstop := Option BackstopState

def readBackstop (b : Backstop) : BackstopState := b.getD ⟨0, none, 0, none, none, none⟩

/-- What a mark is judged against. -/
structure Judge where
  binding : String
  now : Int
deriving DecidableEq

inductive ClearReason where
  | operator
  | fresh_context
  | binding_changed
  | expired
deriving DecidableEq, Repr

/-- Why a mark no longer holds. -/
def liftedBy (judge : Judge) (mark : NeedsReset) : Option ClearReason :=
  if mark.binding.any fun b => b != judge.binding then some .binding_changed
  else if NEEDS_RESET_TTL_MS ≤ judge.now - mark.at_ then some .expired
  else none

/-- `needsReset`: the mark, and the row with it lifted where it no longer holds. -/
def needsReset (judge : Judge) (b : Backstop) : Option NeedsReset × Backstop :=
  let s := readBackstop b
  match s.needsReset with
  | none => (none, b)
  | some mark =>
    match liftedBy judge mark with
    | none => (some mark, b)
    | some _ => (none, some { s with consecutive := 0, awaiting := none, needsReset := none })

def noteRunEndedWell (b : Backstop) : Backstop :=
  let s := readBackstop b
  if s.consecutive = 0 ∧ s.awaiting = none then b else some { s with consecutive := 0, awaiting := none }

def clearBackstop (_ : Backstop) : Backstop := none

inductive OverflowVerdict where
  | skip
  | rebuild (consecutive : Nat)
  | stop (consecutive : Nat) (reason : StopCause)
deriving DecidableEq, Repr

/-- Why an overflow stops the backstop, its own counted. -/
def stopCause (s : BackstopState) (conversation : Nat) (answered : Bool) : Option StopCause :=
  if s.awaiting = some conversation ∧ answered = false then some .rebuilt_request_overflowed
  else if MAX_CONSECUTIVE_OVERFLOWS ≤ s.consecutive + 1 then some .consecutive_overflows
  else none

def judgeOverflow (conversation : Nat) (answered : Bool) (binding : String) (now : Int) (b : Backstop) :
    OverflowVerdict × Backstop :=
  let s := readBackstop b
  match s.needsReset with
  | some _ => (.skip, b)
  | none =>
    match stopCause s conversation answered with
    | some reason =>
      (.stop (s.consecutive + 1) reason,
        some { s with consecutive := s.consecutive + 1, needsReset := some ⟨now, reason, some binding⟩ })
    | none => (.rebuild (s.consecutive + 1), some { s with consecutive := s.consecutive + 1 })

def noteRebuilt (conversation : Nat) (briefing : Briefing) (now : Int) (b : Backstop) : Backstop :=
  let s := readBackstop b
  some { s with awaiting := some conversation, rebuilds := s.rebuilds + 1, lastRebuildAt := some now, pending := some briefing }

def takePendingBriefing (b : Backstop) : Option Briefing × Backstop :=
  let s := readBackstop b
  match s.pending with
  | none => (none, b)
  | some briefing => (some briefing, some { s with pending := none })

def returnPendingBriefing (briefing : Briefing) (b : Backstop) : Backstop :=
  some { readBackstop b with pending := some briefing }

/-! ## Posts -/

inductive PostMode where
  | prompt
  | steer
  | followUp
deriving DecidableEq, Repr

/-- What a post brings: the notices at its head, its own text, and whether it is for the briefing alone. -/
structure Post where
  lines : List Str
  text : Str
  mode : PostMode
  pendingOnly : Bool
deriving DecidableEq

/-- What a post says: the briefing it carries ahead of its own text. -/
def Post.body (p : Post) : Option Briefing → Str
  | none => p.text
  | some brief => if p.text = [] then brief.text else brief.text ++ js "\n\n---\n\n" ++ p.text

/-- The message written, the notices at its head. -/
def Post.said (p : Post) (brief : Option Briefing) : Str :=
  if p.lines = [] then p.body brief else join (js "\n") p.lines ++ js "\n\n" ++ p.body brief

/-- How a post that carries a briefing is said: a follow-up starts no run on an idle lane. -/
def Post.modeWith (p : Post) (brief : Option Briefing) : PostMode :=
  if brief.isSome ∧ p.mode = .followUp then .prompt else p.mode

end Antiproton.Overflow
