import Antiproton.Core.Js
import Antiproton.Core.Types
import Antiproton.Lib.Table

/-!
# Antiproton.Publish.Index

The provider-wide copy of one agent's held calls (`d1ApprovalIndex`, `cf/src/approvals.ts`): the D1 table
`provider_approvals`, which Raft reconciles its cards against.

* `upsert_status`: a write leaves a copy's status where it was, or further along.
-/

namespace Antiproton.Publish

open Js

/-- The agent's record in the registry; `deletedAt` is when it was deleted. -/
structure ProvisionedAgent where
  raftOrigin : String
  raftServerId : String
  raftAgentId : String
  deletedAt : Option Int
deriving DecidableEq

/-- A row of `provider_approvals`, without the tenant and the agent, which are one agent's. -/
structure IndexRow where
  operationId : String
  raftOrigin : String
  raftServerId : String
  raftAgentId : String
  status : ApprovalState
  item : Json
  createdAt : Int
  expiresAt : Option Int
  updatedAt : Int
  agentDeletedAt : Option Int
deriving DecidableEq

/-- How far along a state is. -/
def STATE_RANK : ApprovalState → Nat
  | .pending => 0
  | .approved => 1
  | _ => 2

def jsonRemove (key : Str) : Json → Json
  | .obj fields => .obj (fields.filter fun f => f.1 != key)
  | v => v

/-- `json_set` of a field: where it is, or after the others. -/
def jsonSet (key : Str) (value : Json) : Json → Json
  | .obj fields =>
    if fields.any fun f => f.1 == key then .obj (fields.map fun f => if f.1 == key then (key, value) else f)
    else .obj (fields ++ [(key, value)])
  | v => v

/-- An item without `AUDIT_DROPS`: the arguments' summary and a bridged request's body. -/
def dropAudit (item : Json) : Json :=
  match jsonRemove (js "args") item with
  | .obj fields => .obj (fields.map fun f => if f.1 == js "route" then (f.1, jsonRemove (js "body") f.2) else f)
  | v => v

/-- The columns a later state's write replaces. -/
def IndexRow.overwrite (r : IndexRow) (deletedAt : Option Int) (item : Json) (c : IndexRow) : IndexRow :=
  { c with
    status := r.status
    expiresAt := r.expiresAt
    updatedAt := r.updatedAt
    agentDeletedAt := c.agentDeletedAt.or deletedAt
    item := item }

/-- The write of a hold's state; whether the agent is deleted is read where it lands. -/
def upsert (registry : Option ProvisionedAgent) (r : IndexRow) (copies : List IndexRow) : List IndexRow :=
  let at_ := registry.bind (·.deletedAt)
  let item := if at_.isSome then dropAudit r.item else r.item
  match Table.one (·.operationId == r.operationId) copies with
  | none => copies ++ [{ r with item, agentDeletedAt := at_ }]
  | some _ =>
    Table.update (fun c => c.operationId == r.operationId && decide (STATE_RANK c.status < STATE_RANK r.status))
      (r.overwrite at_ item) copies

def markAgentDeleted (at_ : Int) (copies : List IndexRow) : List IndexRow :=
  copies.map fun c => { c with agentDeletedAt := c.agentDeletedAt.or (some at_), item := dropAudit c.item }

/-- A delivery report onto the copy's item; the description only where the copy is at the item's state. -/
def setDelivery (operationId : String) (status : ApprovalState) (delivery description : Json) (copies : List IndexRow) :
    List IndexRow :=
  copies.map fun c => { c with
    item :=
      if c.operationId ≠ operationId then c.item
      else if c.status = status then jsonSet (js "description") description (jsonSet (js "delivery") delivery c.item)
      else jsonSet (js "delivery") delivery c.item }

/-- The copy's status. -/
def statusOf (operationId : String) (copies : List IndexRow) : Option ApprovalState :=
  (Table.one (·.operationId == operationId) copies).map (·.status)

/-- A status leaves a copy where it is, or takes it further. -/
def Onward (s s' : ApprovalState) : Prop := s' = s ∨ STATE_RANK s < STATE_RANK s'

theorem Onward.refl (s : ApprovalState) : Onward s s := .inl rfl

theorem Onward.rank {s s' : ApprovalState} (h : Onward s s') : STATE_RANK s ≤ STATE_RANK s' := by
  rcases h with rfl | h
  · exact Nat.le_refl _
  · exact Nat.le_of_lt h

theorem Onward.trans {s s' s'' : ApprovalState} (h : Onward s s') (h' : Onward s' s'') : Onward s s'' := by
  rcases h with rfl | h
  · exact h'
  · exact .inr (Nat.lt_of_lt_of_le h h'.rank)

/-- An end has nothing further along. -/
theorem Onward.final {s s' : ApprovalState} (h : Onward s s') (hs : STATE_RANK s = 2) : s' = s := by
  rcases h with h | h
  · exact h
  · rw [hs] at h
    cases s' <;> simp [STATE_RANK] at h

section Copies

variable {op : String} {copies : List IndexRow} {s : ApprovalState}

/-- A change of the copies' other columns keeps their statuses. -/
theorem statusOf_map {f : IndexRow → IndexRow} (hop : ∀ c, (f c).operationId = c.operationId)
    (hstatus : ∀ c, (f c).status = c.status) : statusOf op (copies.map f) = statusOf op copies := by
  unfold statusOf
  rw [Table.map_one (p := fun c => c.operationId == op) fun c => by rw [hop c], Option.map_map]
  exact congrArg (Option.map · _) (funext hstatus)

@[simp] theorem statusOf_markAgentDeleted (at_ : Int) : statusOf op (markAgentDeleted at_ copies) = statusOf op copies :=
  statusOf_map (fun _ => rfl) fun _ => rfl

@[simp] theorem statusOf_setDelivery (op' : String) (status : ApprovalState) (delivery description : Json) :
    statusOf op (setDelivery op' status delivery description copies) = statusOf op copies :=
  statusOf_map (fun _ => rfl) fun _ => rfl

/-- A write lands: the hold's copy is at the state written, unless it was already as far. -/
theorem upsert_status (registry : Option ProvisionedAgent) (r : IndexRow) :
    statusOf op (upsert registry r copies) =
      if r.operationId = op then
        match statusOf op copies with
        | none => some r.status
        | some s => some (if STATE_RANK s < STATE_RANK r.status then r.status else s)
      else statusOf op copies := by
  unfold upsert
  dsimp only
  by_cases hop : r.operationId = op
  · rw [if_pos hop, hop]
    unfold statusOf
    cases hone : Table.one (·.operationId == op) copies with
    | none =>
      dsimp only
      rw [Table.one_append, hone]
      simp [Table.one]
    | some c =>
      dsimp only
      rw [Table.one_update_key (f := r.overwrite _ _) fun _ => rfl, hone]
      have hkey : (c.operationId == op) = true := Table.one_some (p := fun c : IndexRow => c.operationId == op) hone
      simp only [Option.map_some, hkey, Bool.true_and, decide_eq_true_eq]
      split <;> rfl
  · rw [if_neg hop]
    unfold statusOf
    cases Table.one (·.operationId == r.operationId) copies with
    | none =>
      dsimp only
      rw [Table.one_append]
      simp [Table.one, hop]
    | some c =>
      dsimp only
      rw [Table.one_update_other (f := r.overwrite _ _) (fun _ => rfl) fun c hc => ?_]
      have hc : c.operationId = op := beq_iff_eq.1 hc
      simp [hc, Ne.symm hop]

end Copies

end Antiproton.Publish
