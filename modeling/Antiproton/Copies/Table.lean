import Antiproton.Publish.Index

/-!
# Antiproton.Copies.Table

The provider-wide copy of every agent's held calls (`d1ApprovalIndex`, `cf/src/approvals.ts`) beside the registry its
statements read: `provider_approvals` and `provisioned_agents`. One agent's rows are what `Antiproton.Publish.Index`
says of them.

* `copiesOf_upsert`, `copiesOf_setDelivery`, `copiesOf_markAgentDeleted`: a statement acts on one agent's rows as there.
-/

namespace Antiproton.Copies

open Js Publish

/-- The ids are generated, of ASCII characters. -/
def Ascii (s : String) : Prop := ∀ u ∈ js s, u < 128

instance (s : String) : Decidable (Ascii s) := List.decidableBAll (fun u => u < 128) (js s)

structure Row extends IndexRow where
  tenantId : String
  agentId : String
  ids : Ascii tenantId ∧ Ascii agentId ∧ Ascii operationId
deriving DecidableEq

/-- A row of `provisioned_agents`, as the copy reads it. -/
structure Registered where
  tenantId : String
  agentId : String
  deleted : Bool
  deletedAt : Option Int
  updatedAt : Int
deriving DecidableEq

def Row.of (tenantId agentId : String) (r : Row) : Bool := r.tenantId == tenantId && r.agentId == agentId

/-- The rows of one primary key. -/
def Row.at_ (k r : Row) : Bool := r.of k.tenantId k.agentId && r.operationId == k.operationId

def deletedRow (tenantId agentId : String) (agents : List Registered) : Option Registered :=
  Table.one (fun p => p.tenantId == tenantId && p.agentId == agentId && p.deleted) agents

/-- `DELETED_AT`: when the agent was deleted, by the registry. -/
def deletedAt (agents : List Registered) (tenantId agentId : String) : Option Int :=
  (deletedRow tenantId agentId agents).map fun p => p.deletedAt.getD p.updatedAt

section Statements

variable (agents : List Registered)

/-- The row as it is written for a deleted agent: marked, without the arguments' text. -/
def Row.written (r : Row) : Row :=
  { r with
    item := if (deletedAt agents r.tenantId r.agentId).isSome then dropAudit r.item else r.item
    agentDeletedAt := deletedAt agents r.tenantId r.agentId }

/-- The columns a later state's write replaces. -/
def Row.replaced (r c : Row) : Row :=
  { c with
    toIndexRow := r.toIndexRow.overwrite (deletedAt agents r.tenantId r.agentId) (r.written agents).item c.toIndexRow
    ids := c.ids }

def upsert (r : Row) (rows : List Row) : List Row :=
  match Table.one r.at_ rows with
  | none => rows ++ [r.written agents]
  | some _ => Table.update (fun c => r.at_ c && decide (STATE_RANK c.status < STATE_RANK r.status)) (r.replaced agents) rows

def Row.marked (at_ : Option Int) (r : Row) : Row :=
  { r with agentDeletedAt := r.agentDeletedAt.or at_, item := dropAudit r.item }

def markAgentDeleted (tenantId agentId : String) (at_ : Int) (rows : List Row) : List Row :=
  Table.update (Row.of tenantId agentId) (Row.marked (some at_)) rows

def Row.delivered (status : ApprovalState) (delivery description : Json) (r : Row) : Row :=
  { r with
    item :=
      if r.status = status then jsonSet (js "description") description (jsonSet (js "delivery") delivery r.item)
      else jsonSet (js "delivery") delivery r.item }

def setDelivery (tenantId agentId operationId : String) (status : ApprovalState) (delivery description : Json)
    (rows : List Row) : List Row :=
  Table.update (fun r => r.of tenantId agentId && r.operationId == operationId) (Row.delivered status delivery description) rows

/-- `denied`, `expired`, `executed` or `failed`. -/
def ended (s : ApprovalState) : Bool := STATE_RANK s == 2

/-- The prune's mark, of the holds of an agent the registry says is deleted whose delete did not mark them. -/
def pruneMark (rows : List Row) : List Row :=
  Table.update (fun r => r.agentDeletedAt.isNone && (deletedAt agents r.tenantId r.agentId).isSome)
    (fun r => r.marked (deletedAt agents r.tenantId r.agentId)) rows

/-- The rows a prune leaves: its three statements in one transaction. -/
def prune (endedBefore deletedBefore : Int) (rows : List Row) : List Row :=
  Table.delete (fun r => r.agentDeletedAt.any fun at_ => decide (at_ < deletedBefore))
    (Table.delete (fun r => r.agentDeletedAt.isNone && ended r.status && decide (r.updatedAt < endedBefore))
      (pruneMark agents rows))

end Statements

/-! ## One agent's rows -/

/-- One agent's rows, without its ids. -/
def copiesOf (tenantId agentId : String) (rows : List Row) : List IndexRow :=
  (Table.select (Row.of tenantId agentId) rows).map (·.toIndexRow)

section One

variable {agents : List Registered} {rows : List Row} {t a : String}

theorem of_iff {r : Row} : r.of t a = true ↔ r.tenantId = t ∧ r.agentId = a := by
  rw [Row.of, Bool.and_eq_true, beq_iff_eq, beq_iff_eq]

theorem at_iff {k r : Row} : k.at_ r = true ↔ r.tenantId = k.tenantId ∧ r.agentId = k.agentId ∧ r.operationId = k.operationId := by
  rw [Row.at_, Bool.and_eq_true, of_iff, beq_iff_eq, and_assoc]

/-- An update of rows that keeps their agent, seen in one agent's rows. -/
theorem copiesOf_update {p : Row → Bool} {f : Row → Row} {g : IndexRow → IndexRow} (hof : ∀ r, (f r).of t a = r.of t a)
    (hfg : ∀ r ∈ rows, r.of t a = true → (if p r then f r else r).toIndexRow = g r.toIndexRow) :
    copiesOf t a (Table.update p f rows) = (copiesOf t a rows).map g := by
  unfold copiesOf Table.select Table.update
  induction rows with
  | nil => rfl
  | cons r rows ih =>
    have hsame : (if p r then f r else r).of t a = r.of t a := by split <;> simp [hof]
    rw [List.map_cons, List.filter_cons, List.filter_cons, hsame]
    have ih := ih fun x hx => hfg x (List.mem_cons_of_mem _ hx)
    split
    · rename_i hr
      rw [List.map_cons, List.map_cons, List.map_cons, ih, hfg r List.mem_cons_self hr]
    · exact ih

theorem copiesOf_markAgentDeleted (at_ : Int) :
    copiesOf t a (markAgentDeleted t a at_ rows) = Publish.markAgentDeleted at_ (copiesOf t a rows) := by
  refine copiesOf_update (fun r => rfl) fun r _ hr => ?_
  rw [if_pos hr]
  rfl

theorem copiesOf_setDelivery (op : String) (status : ApprovalState) (delivery description : Json) :
    copiesOf t a (setDelivery t a op status delivery description rows) =
      Publish.setDelivery op status delivery description (copiesOf t a rows) := by
  refine copiesOf_update (fun r => rfl) fun r _ hr => ?_
  rw [hr, Bool.true_and]
  by_cases hop : r.operationId = op
  · simp [hop, Row.delivered]
  · simp [hop]

theorem one_copiesOf (k : Row) (hk : k.of t a = true) :
    Table.one (·.operationId == k.operationId) (copiesOf t a rows) = (Table.one k.at_ rows).map (·.toIndexRow) := by
  obtain ⟨rfl, rfl⟩ := of_iff.1 hk
  unfold copiesOf Table.select
  rw [Table.map_one (p := fun r : Row => r.operationId == k.operationId) fun r => rfl]
  refine congrArg (Option.map _) ?_
  unfold Table.one
  rw [List.find?_filter]
  refine congrArg (fun p => List.find? p rows) (funext fun r => ?_)
  rw [Row.at_]
  simp only [Bool.decide_and, Bool.decide_eq_true]

/-- The registry's record of one agent, as its own copies read it. -/
def registryOf (agents : List Registered) (r : Row) : Option ProvisionedAgent :=
  (deletedAt agents r.tenantId r.agentId).map fun at_ => ⟨r.raftOrigin, r.raftServerId, r.raftAgentId, some at_⟩

theorem copiesOf_upsert (r : Row) (hr : r.of t a = true) :
    copiesOf t a (upsert agents r rows) = Publish.upsert (registryOf agents r) r.toIndexRow (copiesOf t a rows) := by
  have hat : (registryOf agents r).bind (·.deletedAt) = deletedAt agents r.tenantId r.agentId := by
    unfold registryOf
    cases deletedAt agents r.tenantId r.agentId <;> rfl
  unfold upsert Publish.upsert
  dsimp only
  rw [one_copiesOf r hr, hat]
  cases Table.one r.at_ rows with
  | none =>
    have hof : (r.written agents).of t a = true := hr
    unfold copiesOf Table.select
    rw [List.filter_append, List.filter_cons_of_pos hof, List.map_append]
    rfl
  | some c =>
    dsimp only [Option.map_some]
    obtain ⟨rfl, rfl⟩ := of_iff.1 hr
    refine copiesOf_update (fun x => rfl) fun x _ hx => ?_
    have hat : r.at_ x = (x.operationId == r.operationId) := by rw [Row.at_, hx, Bool.true_and]
    rw [hat]
    split <;> rfl

end One

/-! ## The arguments' text -/

/-- The item holds neither the arguments' summary nor a bridged request's body. -/
def Clean (item : Json) : Prop :=
  item.field? (js "args") = none ∧ ∀ route, item.field? (js "route") = some route → route.field? (js "body") = none

theorem field_jsonRemove_self (key : Str) (v : Json) : (jsonRemove key v).field? key = none := by
  cases v with
  | obj fields =>
    have h : (fields.filter fun f => f.1 != key).find? (fun f => f.1 == key) = none := by
      rw [List.find?_eq_none]
      intro f hf
      simpa using (List.mem_filter.1 hf).2
    rw [jsonRemove, Json.field?, h]
    rfl
  | _ => rfl

theorem clean_dropAudit (item : Json) : Clean (dropAudit item) := by
  unfold dropAudit
  have hargs := field_jsonRemove_self (js "args") item
  cases hrem : jsonRemove (js "args") item with
  | obj fields =>
    rw [hrem] at hargs
    have hnone : fields.find? (fun f => f.1 == js "args") = none := Option.map_eq_none_iff.1 hargs
    refine ⟨?_, fun route hroute => ?_⟩
    · dsimp only [Json.field?]
      rw [List.find?_map, Option.map_map, Option.map_eq_none_iff, ← hnone]
      refine congrArg (fun p => List.find? p fields) (funext fun f => ?_)
      dsimp only [Function.comp]
      split <;> rfl
    · dsimp only [Json.field?] at hroute
      rw [List.find?_map, Option.map_map] at hroute
      obtain ⟨f, hf, rfl⟩ := Option.map_eq_some_iff.1 hroute
      have hkey := List.find?_some hf
      dsimp only [Function.comp] at hkey ⊢
      split at hkey
      · rename_i hr
        rw [if_pos hr]
        exact field_jsonRemove_self _ _
      · rename_i hr
        exact absurd hkey hr
  | _ => exact ⟨rfl, fun route h => by cases h⟩

/-- A field of another name is found where it was. -/
theorem find_replaced {key name : Str} (hne : (key == name) = false) {value : Json} (fields : List (Str × Json)) :
    (fields.map fun f => if f.1 == key then (key, value) else f).find? (fun f => f.1 == name) =
      fields.find? fun f => f.1 == name := by
  induction fields with
  | nil => rfl
  | cons f fields ih =>
    rw [List.map_cons]
    by_cases hf : (f.1 == key) = true
    · have hname : (f.1 == name) = false := beq_iff_eq.1 hf ▸ hne
      rw [if_pos hf, List.find?_cons_of_neg (by simp [hne]), List.find?_cons_of_neg (by simp [hname]), ih]
    · rw [if_neg hf, List.find?_cons, List.find?_cons, ih]

theorem field_jsonSet {key name : Str} (hne : (key == name) = false) (value v : Json) :
    (jsonSet key value v).field? name = v.field? name := by
  cases v with
  | obj fields =>
    rw [jsonSet]
    split
    · dsimp only [Json.field?]
      rw [find_replaced hne]
    · dsimp only [Json.field?]
      rw [List.find?_append, List.find?_cons_of_neg (by simp [hne]), List.find?_nil, Option.or_none]
  | _ => rfl

theorem clean_delivered {item : Json} (h : Clean item) (delivery : Json) : Clean (jsonSet (js "delivery") delivery item) := by
  rw [Clean, field_jsonSet (by decide), field_jsonSet (by decide)]
  exact h

theorem clean_described {item : Json} (h : Clean item) (description : Json) :
    Clean (jsonSet (js "description") description item) := by
  rw [Clean, field_jsonSet (by decide), field_jsonSet (by decide)]
  exact h

end Antiproton.Copies
