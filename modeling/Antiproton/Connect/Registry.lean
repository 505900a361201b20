import Antiproton.Core.Js
import Antiproton.Lib.Table
import Mathlib.Data.String.Basic

/-!
# Antiproton.Connect.Registry

One tenant's agents, its connectors and the bindings between them (`cf/src/control-plane.ts`), and what an agent's object
does when a copy of a credential is taken back from it (`cf/src/runtime.ts`). A deployment without its sealing key holds
no credential, so the key is taken as there.

* `detachConnectionIfFrom_left`, `clearConnection_left`: what an answer says the mount holds.
* `detachConnectionIfFrom_other`: a credential that is not the connector's stays.
-/

namespace Antiproton.Connect

open Js

def CONNECTION_PROVIDERS : List String := ["github"]

/-- The actor of an event nobody is named for. -/
def SYSTEM_ACTOR : Str := js "antiproton"

/-- A credential on a mount: the token, and the connector that renews it, when its renewal record names one. -/
structure Credential where
  token : Str
  connectorId : Option String
deriving DecidableEq

/-- An agent's object: whether it holds the agent (its storage was not wiped), and each mount's own credential. -/
structure AgentObject where
  agent : Bool
  mount : String → Option Credential

structure Connector where
  id : String
  provider : String
  raftOrigin : Option String
  creatorRaftUserId : String
  token : Str
deriving DecidableEq

structure ProvisionedConnection where
  raftAgentId : String
  provider : String
  connectorId : Option String
deriving DecidableEq

structure ProvisionedAgent where
  raftAgentId : String
  agentId : String
  raftOrigin : String
  deleted : Bool
deriving DecidableEq

inductive ActingRole where
  | creator
  | admin
  | system
deriving DecidableEq

structure Acting where
  actingRaftUserId : Str
  actingRole : ActingRole
deriving DecidableEq

/-- The JSON of an event's `reason`; a field it does not carry is `none`. -/
structure Reason where
  via : Option String := none
  provider : Option String := none
  outcome : Option String := none
  bindingKept : Option Bool := none
  heldAnother : Option Bool := none
  bound : Option Bool := none
  actorNamed : Option Bool := none
  mountCleared : Option Bool := none
  error : Option Str := none
deriving DecidableEq

structure ConnectorEvent where
  connectorId : Option String
  raftAgentId : Option String
  provider : Option String
  action : String
  acting : Acting
  at_ : Int
  reason : Option Reason
deriving DecidableEq

/-! ## What an agent's object answers -/

/-- What a removal meets at the object: something the key made is still held, and the call itself failing, with
whether the object had done its work. -/
structure Weather where
  held : Option Str
  lost : Option (Bool × Str)

inductive DetachAnswer where
  | ok (removed other : Bool)
  | no (error : Str) (gone : Bool)
deriving DecidableEq

inductive ClearAnswer where
  | ok (cleared : Bool)
  | no (error : Str) (gone : Bool)
deriving DecidableEq

def WIPED : Str := js "the agent's object holds no such agent: its storage was wiped"

/-- The connector's own credential: what renews it names the connector, or it is the connector's token. -/
def Connector.owns (k : Connector) (c : Credential) : Bool := c.connectorId == some k.id || c.token == k.token

def AgentObject.set (o : AgentObject) (plugin : String) (c : Option Credential) : AgentObject :=
  { o with mount := fun p => if p = plugin then c else o.mount p }

section Calls

variable (plugin : String) (held : Option Str) (o : AgentObject)

/-- `removeCredentialOrWhy`: the key goes only once nothing it made is still held. -/
def removeCredentialOrWhy : Option Str × AgentObject :=
  match held with
  | some why => (some why, o)
  | none => (none, o.set plugin none)

def clearConnection : ClearAnswer × AgentObject :=
  if o.agent then
    match o.mount plugin with
    | none => (.ok false, o)
    | some _ =>
      match removeCredentialOrWhy plugin held o with
      | (none, o') => (.ok true, o')
      | (some why, o') => (.no why false, o')
  else (.no WIPED true, o)

def detachConnectionIfFrom (k : Connector) : DetachAnswer × AgentObject :=
  if o.agent then
    match o.mount plugin with
    | none => (.ok false false, o)
    | some c =>
      if k.owns c then
        match removeCredentialOrWhy plugin held o with
        | (none, o') => (.ok true false, o')
        | (some why, o') => (.no why false, o')
      else (.ok false true, o)
  else (.no WIPED true, o)

end Calls

/-- One call to an object, and the object as it was left. A call that fails may have been carried out. -/
def reach {A : Type} (w : Weather) (call : Option Str → AgentObject → A × AgentObject) (o : AgentObject) :
    Except Str A × AgentObject :=
  match w.lost with
  | none => (.ok (call w.held o).1, (call w.held o).2)
  | some (true, why) => (.error why, (call w.held o).2)
  | some (false, why) => (.error why, o)

/-- `detachIfFrom`: the connector's own credential off the mount. -/
def detach (k : Connector) (w : Weather) (o : AgentObject) : Except Str DetachAnswer × AgentObject :=
  reach w (fun held o => detachConnectionIfFrom k.provider held o k) o

/-- Whatever credential of the agent's is on the mount. -/
def clear (plugin : String) (w : Weather) (o : AgentObject) : Except Str ClearAnswer × AgentObject :=
  reach w (clearConnection plugin) o

/-! ## What an answer says of the mount -/

section Answers

variable {plugin : String} {held : Option Str} {o : AgentObject} {k : Connector}

@[simp] theorem AgentObject.set_mount_self (o : AgentObject) (plugin : String) (c : Option Credential) :
    (o.set plugin c).mount plugin = c := if_pos rfl

@[simp] theorem AgentObject.set_agent (o : AgentObject) (plugin : String) (c : Option Credential) :
    (o.set plugin c).agent = o.agent := rfl

/-- The object holds no such agent, or its mount nothing that the connector owns. -/
def AgentObject.Empty (o : AgentObject) (plugin : String) (k : Connector) : Prop :=
  o.agent = false ∨ ∀ c, o.mount plugin = some c → k.owns c = false

/-- The object holds no such agent, or its mount nothing of the agent's own. -/
def AgentObject.Bare (o : AgentObject) (plugin : String) : Prop := o.agent = false ∨ o.mount plugin = none

theorem AgentObject.Bare.empty (h : o.Bare plugin) : o.Empty plugin k := by
  rcases h with h | h
  · exact .inl h
  · right
    intro c hc
    rw [h] at hc
    cases hc

theorem clearConnection_left (plugin : String) (held : Option Str) (o : AgentObject) :
    (∃ cleared, (clearConnection plugin held o).1 = .ok cleared ∧ (clearConnection plugin held o).2.mount plugin = none) ∨
    (∃ error, (clearConnection plugin held o).1 = .no error true ∧ (clearConnection plugin held o).2.agent = false) ∨
    (∃ error, (clearConnection plugin held o).1 = .no error false ∧ held = some error) := by
  simp only [clearConnection]
  cases ha : o.agent with
  | false =>
    rw [if_neg Bool.false_ne_true]
    exact .inr (.inl ⟨_, rfl, ha⟩)
  | true =>
    rw [if_pos rfl]
    cases hm : o.mount plugin with
    | none => exact .inl ⟨_, rfl, hm⟩
    | some c =>
      cases held with
      | none => exact .inl ⟨_, rfl, by simp [removeCredentialOrWhy]⟩
      | some why => exact .inr (.inr ⟨_, rfl, rfl⟩)

theorem detachConnectionIfFrom_left (plugin : String) (held : Option Str) (o : AgentObject) (k : Connector) :
    (∃ removed other, (detachConnectionIfFrom plugin held o k).1 = .ok removed other ∧
      ∀ c, (detachConnectionIfFrom plugin held o k).2.mount plugin = some c → k.owns c = false) ∨
    (∃ error, (detachConnectionIfFrom plugin held o k).1 = .no error true ∧
      (detachConnectionIfFrom plugin held o k).2.agent = false) ∨
    (∃ error, (detachConnectionIfFrom plugin held o k).1 = .no error false ∧ held = some error) := by
  simp only [detachConnectionIfFrom]
  cases ha : o.agent with
  | false =>
    rw [if_neg Bool.false_ne_true]
    exact .inr (.inl ⟨_, rfl, ha⟩)
  | true =>
    rw [if_pos rfl]
    cases hm : o.mount plugin with
    | none => exact .inl ⟨_, _, rfl, by simp [hm]⟩
    | some c =>
      simp only
      cases hc : k.owns c with
      | false =>
        rw [if_neg Bool.false_ne_true]
        refine .inl ⟨_, _, rfl, fun d hd => ?_⟩
        rw [hm] at hd
        cases hd
        exact hc
      | true =>
        rw [if_pos rfl]
        cases held with
        | none => exact .inl ⟨_, _, rfl, by simp [removeCredentialOrWhy]⟩
        | some why => exact .inr (.inr ⟨_, rfl, rfl⟩)

/-- A credential that is not the connector's stays where it is. -/
theorem detachConnectionIfFrom_other {c : Credential} (hm : o.mount plugin = some c) (hc : k.owns c = false) :
    (detachConnectionIfFrom plugin held o k).2 = o := by
  simp only [detachConnectionIfFrom, hm, hc]
  cases o.agent <;> rfl

variable {w : Weather}

theorem reach_ok {A : Type} {call : Option Str → AgentObject → A × AgentObject} {a : A} (h : (reach w call o).1 = .ok a) :
    (call w.held o).1 = a ∧ (reach w call o).2 = (call w.held o).2 := by
  obtain ⟨held, lost⟩ := w
  cases lost with
  | none =>
    cases h
    exact ⟨rfl, rfl⟩
  | some l =>
    obtain ⟨landed, why⟩ := l
    cases landed <;> cases h

/-- A call leaves the object as it was, or as the call leaves it. -/
theorem reach_left {A : Type} (w : Weather) (call : Option Str → AgentObject → A × AgentObject) (o : AgentObject) :
    (reach w call o).2 = o ∨ (reach w call o).2 = (call w.held o).2 := by
  obtain ⟨held, lost⟩ := w
  cases lost with
  | none => exact .inr rfl
  | some l =>
    obtain ⟨landed, why⟩ := l
    cases landed with
    | false => exact .inl rfl
    | true => exact .inr rfl

theorem detach_ok {a : DetachAnswer} (h : (detach k w o).1 = .ok a) :
    (∃ error, a = .no error false ∧ w.held = some error) ∨ (∀ error, a ≠ .no error false) ∧ (detach k w o).2.Empty k.provider k := by
  obtain ⟨ha, hleft⟩ := reach_ok h
  rw [detach, hleft, ← ha]
  rcases detachConnectionIfFrom_left k.provider w.held o k with
    ⟨removed, other, h1, h2⟩ | ⟨error, h1, h2⟩ | ⟨error, h1, h2⟩
  · exact .inr ⟨by simp [h1], .inr h2⟩
  · exact .inr ⟨by simp [h1], .inl h2⟩
  · exact .inl ⟨error, h1, h2⟩

theorem clear_ok {a : ClearAnswer} (plugin : String) (h : (clear plugin w o).1 = .ok a) :
    (∃ error, a = .no error false ∧ w.held = some error) ∨ (∀ error, a ≠ .no error false) ∧ (clear plugin w o).2.Bare plugin := by
  obtain ⟨ha, hleft⟩ := reach_ok h
  rw [clear, hleft, ← ha]
  rcases clearConnection_left plugin w.held o with ⟨cleared, h1, h2⟩ | ⟨error, h1, h2⟩ | ⟨error, h1, h2⟩
  · exact .inr ⟨by simp [h1], .inr h2⟩
  · exact .inr ⟨by simp [h1], .inl h2⟩
  · exact .inl ⟨error, h1, h2⟩

theorem detach_other {c : Credential} (hm : o.mount k.provider = some c) (hc : k.owns c = false) : (detach k w o).2 = o := by
  rcases reach_left w (fun held o => detachConnectionIfFrom k.provider held o k) o with h | h
  · exact h
  · exact h.trans (detachConnectionIfFrom_other hm hc)

end Answers

/-! ## The tables -/

/-- One tenant's rows, and its agents' objects. -/
structure World where
  agents : List ProvisionedAgent
  connections : List ProvisionedConnection
  connectors : List Connector
  events : List ConnectorEvent
  objects : String → AgentObject

namespace World

variable (w : World)

def agent (raftAgentId : String) : Option ProvisionedAgent := Table.one (·.raftAgentId == raftAgentId) w.agents

def connector (id : String) : Option Connector := Table.one (·.id == id) w.connectors

def connection (raftAgentId provider : String) : Option ProvisionedConnection :=
  Table.one (fun c => c.raftAgentId == raftAgentId && c.provider == provider) w.connections

/-- The agents whose connection came from this connector. -/
def boundTo (connectorId : String) : List String :=
  (Table.orderBy (·.raftAgentId) (Table.select (·.connectorId == some connectorId) w.connections)).map (·.raftAgentId)

def unbind (raftAgentId provider : String) : World :=
  { w with connections := Table.delete (fun c => c.raftAgentId == raftAgentId && c.provider == provider) w.connections }

def record (e : ConnectorEvent) : World := { w with events := w.events ++ [e] }

def removeConnector (id : String) : World := { w with connectors := Table.delete (·.id == id) w.connectors }

def setObject (agentId : String) (o : AgentObject) : World :=
  { w with objects := fun a => if a = agentId then o else w.objects a }

/-- `put`: written only for a live agent; what was bound before is replaced. -/
def bind (c : ProvisionedConnection) : World :=
  let sameKey (d : ProvisionedConnection) := d.raftAgentId == c.raftAgentId && d.provider == c.provider
  if w.agents.any (fun a => a.raftAgentId == c.raftAgentId && !a.deleted) then
    { w with connections := Table.upsert sameKey c (fun d => { d with connectorId := c.connectorId }) w.connections }
  else w

end World

theorem World.connector_id {w : World} {id : String} {k : Connector} (h : w.connector id = some k) : k.id = id := by
  unfold World.connector at h
  have hid := Table.one_some h
  exact eq_of_beq hid

/-! ## What the tables keep -/

/-- A bound agent has its row, and a binding's connector is there, of the binding's provider. -/
structure World.Registered (w : World) : Prop where
  keys : Table.Unique (fun c : ProvisionedConnection => (c.raftAgentId, c.provider)) w.connections
  rows : ∀ c ∈ w.connections, (w.agent c.raftAgentId).isSome
  whole : ∀ c ∈ w.connections, ∀ id, c.connectorId = some id → ∃ k, w.connector id = some k ∧ k.provider = c.provider

namespace World.Registered

variable {w w' : World}

theorem shrink (h : w.Registered) {q : ProvisionedConnection → Bool} (hc : w'.connections = w.connections.filter q)
    (ha : ∀ id, (w.agent id).isSome → (w'.agent id).isSome)
    (hk : ∀ c ∈ w'.connections, ∀ id, c.connectorId = some id → w'.connector id = w.connector id) : w'.Registered where
  keys := by
    rw [hc]
    exact List.Nodup.sublist (List.filter_sublist.map _) h.keys
  rows := by
    intro c hmem
    rw [hc] at hmem
    exact ha _ (h.rows c (List.mem_of_mem_filter hmem))
  whole := by
    intro c hmem id hid
    rw [hk c hmem id hid]
    rw [hc] at hmem
    exact h.whole c (List.mem_of_mem_filter hmem) id hid

theorem mem_boundTo {id raftAgentId : String} :
    raftAgentId ∈ w.boundTo id ↔ ∃ c ∈ w.connections, c.connectorId = some id ∧ c.raftAgentId = raftAgentId := by
  simp [World.boundTo, Table.select, Table.orderBy, and_assoc]

/-- An agent is bound to a connector once: its bindings to it are of one provider. -/
theorem boundTo_nodup (h : w.Registered) (id : String) : (w.boundTo id).Nodup := by
  have hsub : (Table.select (·.connectorId == some id) w.connections).Pairwise fun c d => c.raftAgentId ≠ d.raftAgentId := by
    have hkeys := (List.pairwise_map.1 h.keys).sublist (List.filter_sublist (p := (·.connectorId == some id)))
    refine List.Pairwise.imp_of_mem (fun hc hd hne heq => ?_) hkeys
    obtain ⟨hcmem, hcid⟩ := List.mem_filter.1 hc
    obtain ⟨hdmem, hdid⟩ := List.mem_filter.1 hd
    obtain ⟨k, hk, hkc⟩ := h.whole _ hcmem id (eq_of_beq hcid)
    obtain ⟨k', hk', hkd⟩ := h.whole _ hdmem id (eq_of_beq hdid)
    rw [hk] at hk'
    cases hk'
    exact hne (Prod.ext heq (hkc.symm.trans hkd))
  have hperm := (Table.orderBy_perm (·.raftAgentId) (Table.select (·.connectorId == some id) w.connections)).map (·.raftAgentId)
  exact hperm.nodup_iff.2 (List.pairwise_map.2 hsub)

end World.Registered

/-- A write that fails: whether it was carried out, and what it threw. -/
abbrev Throws := Option (Bool × Str)

/-- One write to the tables, done unless it failed before it was carried out. -/
def attempt (t : Throws) (f : World → World) (w : World) : World :=
  match t with
  | none => f w
  | some (true, _) => f w
  | some (false, _) => w

/-- What a thrown error is told as. -/
def asText (max : Nat) (e : Str) : Str := e.take max

end Antiproton.Connect
