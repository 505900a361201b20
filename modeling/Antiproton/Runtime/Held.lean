import Antiproton.Runtime.Consent
import Antiproton.Store.Sqlite

/-!
# Antiproton.Runtime.Held

What `holdApproval` answers against what it leaves. Its insert is ignored where the operation has a hold
already, whatever became of that one, and the answer is `created` all the same.

* `hold_as_said_iff`: the answer is true of the store exactly when an identical call is held, or the operation
  has no hold, or the one it has is this very one, still pending.
* `expired_hold_answered_created`: a keyed write whose hold expired is answered as held when called again.
-/

namespace Antiproton

open Js Process

/-- What an answer of `holdApproval` says of the store it leaves. -/
def HeldAsSaid (now : Int) (a : HoldRequest) (same : ApprovalRecord → Bool) (r : HoldResult × Db) : Prop :=
  match r.1 with
  | .created => ∃ row, Table.one (approvalKey a.tenantId a.operationId) r.2.approvals = some row ∧
      row.state = .pending ∧ row.request = a.request ∧ row.expiresAt = a.expiresAt
  | .existing held => (∃ row ∈ r.2.approvals, mapApproval row = held) ∧ held.state = .pending ∧
      pastDeadline held.expiresAt now = false ∧ same held = true

/-- Whether a row is the pending hold a request asks for. -/
def HoldRequest.isRow (a : HoldRequest) (row : ApprovalRow) : Bool :=
  row.state = .pending && row.request = a.request && row.expiresAt = a.expiresAt

/-- Whether a call can be held: an identical one is, or its operation has no hold but the one it asks for. -/
def holdFits (now : Int) (a : HoldRequest) (same : ApprovalRecord → Bool) (db : Db) : Bool :=
  (((openHolds now a db).map mapApproval).find? same).isSome ||
    (Table.one (approvalKey a.tenantId a.operationId) db.approvals).all a.isRow

section Hold

variable {now : Int} {a : HoldRequest} {same : ApprovalRecord → Bool} {db : Db}

theorem mem_openHolds {row : ApprovalRow} (h : row ∈ openHolds now a db) :
    row ∈ db.approvals ∧ row.state = .pending ∧ pastDeadline row.expiresAt now = false := by
  have h := (List.mem_insertionSort _).1 h
  obtain ⟨hm, hp⟩ := List.mem_filter.1 h
  simp only [Bool.and_eq_true, decide_eq_true_eq, Bool.not_eq_true'] at hp
  exact ⟨hm, hp.1.2, hp.2⟩

/-- A hold that was found is open. -/
theorem existing_as_said {held : ApprovalRecord}
    (h : ((openHolds now a db).map mapApproval).find? same = some held) :
    HeldAsSaid now a same (.existing held, db) := by
  obtain ⟨row, hrow, rfl⟩ := List.mem_map.1 (List.mem_of_find?_eq_some h)
  obtain ⟨hm, hs, hd⟩ := mem_openHolds hrow
  exact ⟨⟨row, hm, rfl⟩, hs, hd, List.find?_some h⟩

/-- A hold answered as made was, where the operation had none or the same. -/
theorem created_as_said_iff {approvals : List ApprovalRow}
    (h : approvals = Table.insertOrIgnore (approvalKey a.tenantId a.operationId) (a.row now) db.approvals) :
    HeldAsSaid now a same (.created, { db with approvals := approvals }) ↔
      (Table.one (approvalKey a.tenantId a.operationId) db.approvals).all a.isRow = true := by
  have hkey : approvalKey a.tenantId a.operationId (a.row now) = true := by simp [approvalKey, HoldRequest.row]
  have hone := Table.one_insertOrIgnore_self hkey db.approvals
  subst h
  simp only [HeldAsSaid, hone]
  cases Table.one (approvalKey a.tenantId a.operationId) db.approvals with
  | none => exact iff_of_true ⟨_, rfl, rfl, rfl, rfl⟩ rfl
  | some row =>
    simp only [Option.getD_some, Option.some.injEq, exists_eq_left', Option.all_some, HoldRequest.isRow,
      Bool.and_eq_true, decide_eq_true_eq, and_assoc]

theorem hold_as_said_of (ctx : Ctx) :
    HeldAsSaid ctx.now a same (DurableObject.holdApproval ctx a same db) ↔ holdFits ctx.now a same db = true := by
  unfold DurableObject.holdApproval holdFits
  cases h : ((openHolds ctx.now a db).map mapApproval).find? same with
  | some held => exact iff_of_true (existing_as_said h) rfl
  | none => exact (created_as_said_iff rfl).trans (by simp)

end Hold

/-- In every state and for every call, either store's answer is true of what it leaves exactly when the call
can be held. -/
theorem hold_as_said_iff (ctx : Ctx) (a : HoldRequest) (same : ApprovalRecord → Bool) (db : Db) :
    (HeldAsSaid ctx.now a same (DurableObject.holdApproval ctx a same db) ↔ holdFits ctx.now a same db = true) ∧
      (HeldAsSaid ctx.now a same (Sqlite.holdApproval ctx a same db) ↔ holdFits ctx.now a same db = true) :=
  ⟨hold_as_said_of ctx, hold_as_said_of ctx⟩

/-- A write held until its deadline, expired, and called again under its key. -/
def repeatedWrite : List (Move filesGateway.machine) :=
  .start (keyedCall "write") :: awaits 0 9 5 ++ .start (.expireApproval "t" keyedId) :: awaits 1 5 2000 ++
    .start (keyedCall "write") :: awaits 2 8 2001

/-- The second call's hold is answered as made, and the operation's hold is the expired one. -/
theorem expired_hold_answered_created :
    let s := Sys.run ⟨filesWorld .approval, []⟩ repeatedWrite
    (s.procs[2]?).any (fun p => p.hist.any fun e => match e with
      | ⟨.holdApproval a _, answer⟩ => a.tenantId == "t" && a.operationId == keyedId && answer == HoldResult.created
      | _ => false) = true ∧
    (holdOf "t" keyedId s.world).map (·.state) = some .expired := by
  decide +kernel

end Antiproton
