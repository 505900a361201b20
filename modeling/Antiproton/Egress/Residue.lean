import Antiproton.Core.Js
import Antiproton.Lib.Table

/-!
# Antiproton.Egress.Residue

The egress residue (`cf/src/egress-residue.ts`): project-scope registrations found by the withdrawals of an agent's boxes,
kept in a table (`d1EgressResidue`) that may fail at any statement, and laid over the boxes of every later withdrawal
(`withResidue`). `toISOString` is a parameter.

* `Statement.run`: what a statement does to the rows of `egress_residue`.
* `D1.exec`, `D1.execAll`: statements sent to a store that fails as it likes, with the history of those that took effect.
* `withResidue`: the boxes as they are answered.
-/

namespace Antiproton.Egress

open Js

inductive UncleanCode where
  | not_withdrawn
  | listing_failed
  | project_listing_failed
  | residue_store_failed
  | project_residue
  | stranded
  | no_credential
  | deletion_unconfirmed
  | foreign_residue
deriving DecidableEq

inductive UncleanAction where
  | retry_delete
  | needs_operator_cleanup
  | await_provider_reclaim
deriving DecidableEq

/-- `ACTION_OF`. -/
def actionOf : UncleanCode → UncleanAction
  | .not_withdrawn | .listing_failed | .project_listing_failed | .residue_store_failed => .retry_delete
  | .project_residue | .deletion_unconfirmed | .foreign_residue => .needs_operator_cleanup
  | .stranded | .no_credential => .await_provider_reclaim

/-- `MESSAGE_OF`. -/
def messageOf : UncleanAction → Option Str
  | .retry_delete => none
  | .needs_operator_cleanup =>
    some (js "retrying the delete cannot clear this; it needs an operator (botiverse/antiproton#1128, planned)")
  | .await_provider_reclaim =>
    some (js <| "Restore a run9 key to the mount and delete again to clear it; otherwise it lasts until the provider " ++
      "reclaims the box, which requires that nothing uses the box any more. OAuth App tokens don't expire on their own.")

/-- `RESIDUE_REASON`. -/
def residueReason : Str :=
  js <| "a project-scope registration carrying this box's placeholder: run9 injects it into the boxes its label matches, " ++
    "and antiproton never removes project-scope secrets (the run9 project is shared with production), so a person must"

inductive ProjectState where
  | complete
  | failed
  | no_credential
  | none
deriving DecidableEq

structure Finding where
  boxId : Str
  secretId : Str
  name : Str
deriving DecidableEq

/-- A mount's project-scope listing, as its withdrawal answers it. -/
structure Project where
  alias_ : Str
  state : ProjectState
  ids : List Str
  findings : List Finding

/-! ## The table -/

/-- `egress_residue`. -/
structure ResidueRow where
  tenantId : Str
  agentId : Str
  alias_ : Str
  boxId : Str
  secretId : Str
  title : Str
  reasonCode : Str
  firstSeen : Int
  lastSeen : Int
  resolvedAt : Option Int
  resolvedBy : Option Str
  resolvedRef : Option Str
  reopenedCount : Nat
  lastOverturnedRef : Option Str
deriving DecidableEq

/-- `PRIMARY KEY (tenant_id, agent_id, secret_id)`. -/
def ResidueRow.key (r : ResidueRow) : Str × Str × Str := (r.tenantId, r.agentId, r.secretId)

inductive Statement where
  | record (tenantId agentId alias_ : Str) (f : Finding) (at_ : Int) (ref : Str)
  | resolveAbsent (tenantId agentId alias_ : Str) (ids : List Str) (at_ : Int) (ref : Str)
  | dropResolved (before : Int)

/-- The row a finding is inserted as. -/
def recorded (tenantId agentId alias_ : Str) (f : Finding) (at_ : Int) : ResidueRow :=
  ⟨tenantId, agentId, alias_, f.boxId, f.secretId, f.name.take 120, js "project_residue", at_, at_, none, none, none, 0, none⟩

/-- `ON CONFLICT … DO UPDATE SET`. -/
def ResidueRow.seenAgain (excluded : ResidueRow) (ref : Str) (r : ResidueRow) : ResidueRow :=
  { r with
    lastSeen := excluded.lastSeen
    alias_ := excluded.alias_
    boxId := excluded.boxId
    title := excluded.title
    reasonCode := excluded.reasonCode
    reopenedCount := r.reopenedCount + if r.resolvedAt.isNone then 0 else 1
    lastOverturnedRef := if r.resolvedAt.isNone then r.lastOverturnedRef else some (ref.take 120)
    resolvedAt := none
    resolvedBy := none
    resolvedRef := none }

def ResidueRow.resolve (at_ : Int) (ref : Str) (r : ResidueRow) : ResidueRow :=
  { r with resolvedAt := some at_, resolvedBy := some (js "listing_absent"), resolvedRef := some (ref.take 120) }

/-- The open rows of a mount that a listing no longer has. -/
def isAbsent (tenantId agentId alias_ : Str) (ids : List Str) (r : ResidueRow) : Bool :=
  r.tenantId == tenantId && r.agentId == agentId && r.alias_ == alias_ && r.resolvedAt.isNone && !ids.contains r.secretId

def isStale (before : Int) (r : ResidueRow) : Bool := r.resolvedAt.any fun at_ => decide (at_ < before)

def Statement.run : Statement → List ResidueRow → List ResidueRow
  | record tenantId agentId alias_ f at_ ref, rows =>
    let excluded := recorded tenantId agentId alias_ f at_
    Table.upsert (fun r => r.key == excluded.key) excluded (excluded.seenAgain ref) rows
  | resolveAbsent tenantId agentId alias_ ids at_ ref, rows =>
    Table.update (isAbsent tenantId agentId alias_ ids) (ResidueRow.resolve at_ ref) rows
  | dropResolved before, rows => Table.delete (isStale before) rows

def isOpen (tenantId agentId : Str) (r : ResidueRow) : Bool :=
  r.tenantId == tenantId && r.agentId == agentId && r.resolvedAt.isNone

/-- The open rows of an agent, `ORDER BY first_seen, secret_id`. -/
def openRows (tenantId agentId : Str) (rows : List ResidueRow) : List ResidueRow :=
  Table.orderBy (·.firstSeen) (Table.orderBy (fun r => utf8 r.secretId) (Table.select (isOpen tenantId agentId) rows))

/-! ## A store that may fail -/

/-- What becomes of a statement: it works, it is lost, or it takes effect and its answer is lost. -/
inductive Outcome where
  | works
  | lost
  | unheard
deriving DecidableEq

/-- A statement that took effect, with the rows before and after it. -/
structure Moment where
  statement : Statement
  before : List ResidueRow
  after : List ResidueRow

/-- The database: its rows, what becomes of the statements to come (all after them work), and the history of the rows. -/
structure D1 where
  rows : List ResidueRow
  outcomes : List Outcome
  history : List Moment

def D1.empty (outcomes : List Outcome) : D1 := ⟨[], outcomes, []⟩

/-- The statement takes effect. -/
def D1.apply (db : D1) (s : Statement) : D1 :=
  { db with rows := s.run db.rows, history := db.history ++ [⟨s, db.rows, s.run db.rows⟩] }

/-- A statement sent: whether its answer came, and the database after it. -/
def D1.exec (db : D1) (s : Statement) : Bool × D1 :=
  match db.outcomes with
  | [] => (true, db.apply s)
  | .works :: rest => (true, { db with outcomes := rest }.apply s)
  | .lost :: rest => (false, { db with outcomes := rest })
  | .unheard :: rest => (false, { db with outcomes := rest }.apply s)

/-- Statements sent one after another, up to the first that throws. -/
def D1.execAll (db : D1) : List Statement → Bool × D1
  | [] => (true, db)
  | s :: statements =>
    match db.exec s with
    | (true, db) => db.execAll statements
    | (false, db) => (false, db)

/-- `store.open`. -/
def D1.readOpen (db : D1) (tenantId agentId : Str) : Option (List ResidueRow) × D1 :=
  match db.outcomes with
  | [] => (some (openRows tenantId agentId db.rows), db)
  | .works :: rest => (some (openRows tenantId agentId db.rows), { db with outcomes := rest })
  | _ :: rest => (none, { db with outcomes := rest })

/-! ## The boxes -/

/-- An entry of `projectResidue`. -/
structure Residue where
  secretId : Str
  title : Str
  reasonCode : Str
  reason : Str
  firstSeen : Str
deriving DecidableEq

inductive Via where
  | withdrawn
  | deleted
deriving DecidableEq

/-- One box after an agent's delete or the egress hook, as answered. -/
structure BoxEnd where
  alias_ : Str
  id : Str
  clean : Bool
  via : Option Via
  why : Option Str
  review : Option Str
  code : Option UncleanCode
  action : Option UncleanAction
  message : Option Str
  projectResidue : Option (List Residue)
deriving DecidableEq

/-- An unclean box's code as its action and message. -/
def unclean (e : BoxEnd) (code : UncleanCode) : BoxEnd :=
  { e with
    clean := false
    code := some code
    action := some (actionOf code)
    message := (messageOf (actionOf code)).or e.message }

inductive Doing where
  | delete
  | withdrawal

def Doing.text : Doing → Str
  | delete => js "delete"
  | withdrawal => js "withdrawal"

/-- A call of `withResidue`: the agent, its boxes as the withdrawal left them, and the listings of its mounts. -/
structure Withdrawal where
  tenantId : Str
  agentId : Str
  boxes : List BoxEnd
  projects : List Project
  at_ : Int
  ref : Str
  doing : Doing
  distinct : (boxes.map (·.id)).Nodup

namespace Withdrawal

/-- What one mount's listing has the store do. -/
def statementsOf (w : Withdrawal) (p : Project) : List Statement :=
  p.findings.map (fun f => .record w.tenantId w.agentId p.alias_ f w.at_ w.ref) ++
    if p.state = .complete then [.resolveAbsent w.tenantId w.agentId p.alias_ p.ids w.at_ w.ref] else []

def statements (w : Withdrawal) : List Statement := w.projects.flatMap w.statementsOf

/-- This call's own findings, with the mount each was found through. -/
def fresh (w : Withdrawal) : List (Str × Finding) := w.projects.flatMap fun p => p.findings.map fun f => (p.alias_, f)

/-- The `try`: the listings kept and the open rows read, or none of the rows. -/
def observe (w : Withdrawal) (db : D1) : Option (List ResidueRow) × D1 :=
  match db.execAll w.statements with
  | (true, db) => db.readOpen w.tenantId w.agentId
  | (false, db) => (none, db)

section Answer

variable (toISOString : Int → Str) (w : Withdrawal) (rows : List ResidueRow)

def ofRow (r : ResidueRow) : Residue := ⟨r.secretId, r.title, r.reasonCode, residueReason, toISOString r.firstSeen⟩

def ofFinding (f : Finding) : Residue :=
  ⟨f.secretId, f.name, js "project_residue", residueReason, toISOString w.at_⟩

def residueOf (boxId : Str) : List Residue :=
  let seen : Map Residue := (rows.filter (·.boxId == boxId)).foldl (fun seen r => seen.set r.secretId (ofRow toISOString r)) []
  let seen := (w.fresh.filter (·.2.boxId == boxId)).foldl (fun seen f =>
    if (seen.get f.2.secretId).isNone then seen.set f.2.secretId (w.ofFinding toISOString f.2) else seen) seen
  seen.map (·.2)

/-- Why no box is clean when the store failed, with the ids found now. -/
def storeFailed (ids : List Str) : Str :=
  js "The " ++ w.doing.text ++
    js " completed, but residue records could not be saved or read, so whether residue exists is unknown." ++
    if ids = [] then [] else js " Record these secret_ids: " ++ join (js ", ") ids ++ js "."

/-- A held box, with `open` as it was read. -/
def heldEnd (open_ : Option (List ResidueRow)) (b : BoxEnd) : BoxEnd :=
  let residue := w.residueOf toISOString (open_.getD []) b.id
  let end_ := if residue = [] then b else { b with projectResidue := some residue }
  match open_ with
  | none => unclean { end_ with why := some (w.storeFailed (residue.map (·.secretId))) } .residue_store_failed
  | some _ => if residue = [] then b else if b.clean then unclean end_ .project_residue else end_

/-- The mount's listing, when this call has one. -/
def stateOf (alias_ : Str) : Option ProjectState := (w.projects.find? (·.alias_ == alias_)).map (·.state)

/-- A box no longer held. -/
def goneEnd (boxId : Str) : BoxEnd :=
  let alias_ := (((rows.find? (·.boxId == boxId)).map (·.alias_)).or
    ((w.fresh.find? (·.2.boxId == boxId)).map (·.1))).getD []
  let residue := w.residueOf toISOString rows boxId
  let made (why : Str) : BoxEnd := ⟨alias_, boxId, false, none, some why, none, none, none, none, some residue⟩
  match w.stateOf alias_ with
  | some .failed =>
    unclean (made (js "the project-scope listing failed, so this box's residue could not be checked")) .project_listing_failed
  | some .no_credential => unclean (made (js "no credential to list project-scope registrations with")) .no_credential
  | _ =>
    unclean (made (js "the box is gone; project-scope registration(s) carrying its placeholder are still there")) .project_residue

/-- The boxes no longer held that an open row or a finding names. -/
def gone : List Str :=
  (rows.map (·.boxId) ++ w.fresh.map (·.2.boxId)).eraseDups.filter fun boxId => !(w.boxes.map (·.id)).contains boxId

structure Answer where
  things : List BoxEnd
  residueUnknown : Bool

def answer (open_ : Option (List ResidueRow)) : Answer :=
  let rows := open_.getD []
  ⟨w.boxes.map (w.heldEnd toISOString open_) ++ (w.gone rows).map (w.goneEnd toISOString rows), open_.isNone⟩

/-- `withResidue`. -/
def withResidue (db : D1) : Answer × D1 :=
  let (open_, db) := w.observe db
  (w.answer toISOString open_, db)

end Answer

end Withdrawal

/-! ## A sequence of calls -/

inductive Call where
  | withdraw (w : Withdrawal)
  | dropResolved (before : Int)

def D1.call (db : D1) : Call → D1
  | .withdraw w => (w.observe db).2
  | .dropResolved before => (db.exec (.dropResolved before)).2

def D1.calls (db : D1) (calls : List Call) : D1 := calls.foldl D1.call db

end Antiproton.Egress
