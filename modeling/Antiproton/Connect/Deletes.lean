import Antiproton.Connect.Loop

/-!
# Antiproton.Connect.Deletes

The two other ways a binding goes (`cf/src/provision/handlers.ts`): a single connection's removal
(`DELETE …/connections/:provider`) and an agent's delete. Both clear the mount first, whatever credential is on it, and
then take the binding out.

* `clearEnd_bare`: what a clear that need not be repeated says of the mount.
* `deleteConnection_removal`: a single removal keeps the binding, or takes it out of an agent whose mount is clear.
* `unbindAll_spec`: what an agent's delete leaves is what its entries say.
-/

namespace Antiproton.Connect

open Js

/-- What the clear of one mount gave: why not, whether the object holds no such agent, and whether a key went. -/
structure ClearEnd where
  error : Option Str
  gone : Bool
  took : Bool

def clearEnd (plugin : String) (w : Weather) (found : AgentObject) : ClearEnd × Visit :=
  let r := clear plugin w found
  match r.1 with
  | .ok (.ok cleared) => (⟨none, false, cleared⟩, ⟨found, r.2, true⟩)
  | .ok (.no error gone) => (⟨some error, gone, false⟩, ⟨found, r.2, true⟩)
  | .error e => (⟨some (NO_ANSWER ++ asText 160 e), false, false⟩, ⟨found, r.2, false⟩)

/-- The copy may still be there, and a repeated call can finish it. -/
def ClearEnd.keep (e : ClearEnd) : Bool := e.error.isSome && !e.gone

section Clear

variable {plugin : String} {w : Weather} {found : AgentObject}

theorem clearEnd_bare (plugin : String) (w : Weather) (found : AgentObject) (h : (clearEnd plugin w found).1.keep = false) :
    (clearEnd plugin w found).2.answered = true ∧ (clearEnd plugin w found).2.left.Bare plugin := by
  simp only [clearEnd] at h ⊢
  cases hr : (clear plugin w found).1 with
  | error e => simp [hr, ClearEnd.keep] at h
  | ok answer =>
    simp only [hr] at h ⊢
    rcases clear_ok _ hr with ⟨error, rfl, -⟩ | ⟨-, hbare⟩
    · simp [ClearEnd.keep] at h
    · cases answer <;> exact ⟨rfl, hbare⟩

/-- Only an answer says that the object holds no such agent. -/
theorem clearEnd_gone (plugin : String) (w : Weather) (found : AgentObject) (h : (clearEnd plugin w found).1.gone = true) :
    (clearEnd plugin w found).1.error.isSome = true ∧ (clearEnd plugin w found).2.left.agent = false := by
  simp only [clearEnd] at h ⊢
  cases hr : (clear plugin w found).1 with
  | error e => simp [hr] at h
  | ok answer =>
    simp only [hr] at h ⊢
    cases answer with
    | ok cleared => cases h
    | no error gone =>
      refine ⟨rfl, ?_⟩
      obtain ⟨ha, hleft⟩ := reach_ok hr
      show (clear plugin w found).2.agent = false
      rw [clear, hleft]
      have hgone : gone = true := h
      subst hgone
      unfold clearConnection at ha ⊢
      cases hagent : found.agent with
      | false => simpa using hagent
      | true =>
        simp only [hagent, if_pos] at ha
        split at ha
        · cases ha
        · split at ha <;> cases ha

theorem clearEnd_answers (plugin : String) (found : AgentObject) (h : w = ⟨none, none⟩) : (clearEnd plugin w found).1.keep = false := by
  subst h
  simp only [clearEnd]
  cases hr : (clear plugin ⟨none, none⟩ found).1 with
  | error e => cases hr
  | ok answer =>
    rcases clear_ok _ hr with ⟨_, -, hheld⟩ | ⟨hno, -⟩
    · cases hheld
    · cases answer with
      | ok cleared => rfl
      | no error gone =>
        cases gone with
        | false => exact absurd rfl (hno error)
        | true => rfl

end Clear

/-! ## A single connection -/

/-- The agent the path names, as a token of `raftOrigin` may see it. -/
def World.agentAt (w : World) (raftOrigin : String) (byRaft : Bool) (id : String) : Option ProvisionedAgent :=
  (if byRaft then w.agent id else Table.one (·.agentId == id) w.agents).filter (·.raftOrigin == raftOrigin)

def noAgent (byRaft : Bool) (id : String) : Fail :=
  ⟨404, "not_found", js "no provisioned agent " ++ (if byRaft then js "made from Raft agent " else []) ++ js id⟩

structure ConnectionCall where
  byRaft : Bool
  named : String
  raftOrigin : String
  provider : String
  /-- Who asked, as the body was read; none without a body. -/
  acting : Option (Except Fail Acting)
  before : AgentObject → AgentObject
  clear : Weather
  at_ : Int

structure ConnectionReport where
  response : Response
  visits : List Visit := []

/-- Who asked, when the body named them. -/
def ConnectionCall.actor (c : ConnectionCall) : Option Acting :=
  match c.acting with
  | some (.ok acting) => some acting
  | _ => none

def systemActing : Acting := ⟨SYSTEM_ACTOR, .system⟩

/-- The event of a single removal. -/
def connectionEvent (c : ConnectionCall) (row : ProvisionedAgent) (got : Option ProvisionedConnection) (outcome : String)
    (keep : Bool) (error : Option Str) : ConnectorEvent where
  connectorId := got.bind (·.connectorId)
  raftAgentId := some row.raftAgentId
  provider := some c.provider
  action := "unbind"
  acting := c.actor.getD systemActing
  at_ := c.at_
  reason := some {
    outcome := some outcome
    bindingKept := some keep
    bound := some got.isSome
    actorNamed := some c.actor.isSome
    error := error }

/-- The call once its agent is found. -/
def removeConnection (c : ConnectionCall) (row : ProvisionedAgent) (w : World) : ConnectionReport × World :=
  let got := w.connection row.raftAgentId c.provider
  let r := clearEnd c.provider c.clear (c.before (w.objects row.agentId))
  -- With no binding, an object that holds no such agent has nothing on the mount either.
  let error := if r.1.gone ∧ got = none then none else r.1.error
  let gone := r.1.gone && got.isSome
  let outcome := if error = none then (if r.1.took then "cleared" else "none") else "not_cleared"
  let keep := error.isSome && !gone
  let w := w.setObject row.agentId r.2.left
  let w := if keep then w else w.unbind row.raftAgentId c.provider
  let w := w.record (connectionEvent c row got outcome keep error)
  let response :=
    if keep then
      let why := js " (" ++ error.getD [] ++ js ")"
      let message :=
        if got.isSome then js "the agent's mount still holds the connection's credential" ++ why ++
          js "; the connection was kept, DELETE it again"
        else js "the agent's mount still holds a credential" ++ why ++
          js ", with no connection left to keep; DELETE it again"
      .kept { code := "mount_not_cleared", message := message, agents := [row.raftAgentId] }
        (if got.isSome then "kept" else "none") "not_cleared" "retry_delete"
    else if gone then .revoke "removed" "not_cleared" "revoke_on_github" REVOKE_ON_GITHUB
    else .noContent
  (⟨response, [r.2]⟩, w)

def deleteConnection (c : ConnectionCall) (w : World) : ConnectionReport × World :=
  if c.provider ∉ CONNECTION_PROVIDERS then
    ({ response := .fail ⟨404, "unknown_provider", js "no provider " ++ js c.provider ++ js "; this deployment connects " ++
        join (js ", ") (CONNECTION_PROVIDERS.map js)⟩ }, w)
  else
    match (w.agentAt c.raftOrigin c.byRaft c.named).filter (!·.deleted) with
    | none => ({ response := .fail (noAgent c.byRaft c.named) }, w)
    | some row => removeConnection c row w

/-- The three ends of a single removal. -/
inductive Removal (c : ConnectionCall) (row : ProvisionedAgent) (w w' : World) : ConnectionReport → Prop
  | cleared (v : Visit) (outcome : String) (hv : v.answered = true) (hleft : v.left.Bare c.provider)
      (hout : outcome = "cleared" ∨ outcome = "none")
      (hgone : w'.connections = (w.unbind row.raftAgentId c.provider).connections)
      (hevent : w'.events = w.events ++ [connectionEvent c row (w.connection row.raftAgentId c.provider) outcome false none]) :
      Removal c row w w' ⟨.noContent, [v]⟩
  | gone (v : Visit) (error : Option Str) (hv : v.answered = true) (hleft : v.left.agent = false)
      (hgone : w'.connections = (w.unbind row.raftAgentId c.provider).connections)
      (hevent : w'.events =
        w.events ++ [connectionEvent c row (w.connection row.raftAgentId c.provider) "not_cleared" false error]) :
      Removal c row w w' ⟨.revoke "removed" "not_cleared" "revoke_on_github" REVOKE_ON_GITHUB, [v]⟩
  | kept (v : Visit) (error : Option Str) (n : NotCleared) (binding : String)
      (hn : n.outcome = "not_cleared" ∧ n.retry = true ∧ n.agents = [row.raftAgentId])
      (hkept : w'.connections = w.connections)
      (hevent : w'.events =
        w.events ++ [connectionEvent c row (w.connection row.raftAgentId c.provider) "not_cleared" true error]) :
      Removal c row w w' ⟨.kept n binding "not_cleared" "retry_delete", [v]⟩

theorem Removal.connections {c : ConnectionCall} {row : ProvisionedAgent} {w w' : World} {r : ConnectionReport}
    (h : Removal c row w w' r) : ∃ q, w'.connections = w.connections.filter q := by
  cases h with
  | cleared v outcome hv hleft hout hgone hevent => exact ⟨_, hgone⟩
  | gone v error hv hleft hgone hevent => exact ⟨_, hgone⟩
  | kept v error n binding hn hkept hevent => exact ⟨fun _ => true, hkept.trans (List.filter_eq_self.2 fun _ _ => rfl).symm⟩

section Single

variable {c : ConnectionCall} {w : World} {row : ProvisionedAgent}

/-- The call's agent, of a call that is not refused before anything is done. -/
def ConnectionCall.agent (c : ConnectionCall) (w : World) : Option ProvisionedAgent :=
  if c.provider ∈ CONNECTION_PROVIDERS then (w.agentAt c.raftOrigin c.byRaft c.named).filter (!·.deleted) else none

theorem deleteConnection_refused (h : c.agent w = none) :
    ∃ f, deleteConnection c w = ({ response := .fail f }, w) := by
  unfold ConnectionCall.agent at h
  unfold deleteConnection
  split
  · exact ⟨_, rfl⟩
  · rename_i hp
    rw [if_pos (not_not.1 hp)] at h
    rw [h]
    exact ⟨_, rfl⟩

theorem removeConnection_removal (c : ConnectionCall) (row : ProvisionedAgent) (w : World) :
    Removal c row w (removeConnection c row w).2 (removeConnection c row w).1 := by
  unfold removeConnection
  have hbare := clearEnd_bare c.provider c.clear (c.before (w.objects row.agentId))
  have hwiped := clearEnd_gone c.provider c.clear (c.before (w.objects row.agentId))
  generalize clearEnd c.provider c.clear (c.before (w.objects row.agentId)) = r at hbare hwiped
  obtain ⟨⟨error, gone, took⟩, v⟩ := r
  cases error with
  | none =>
    obtain ⟨hv, hleft⟩ := hbare rfl
    have hgone : gone = false := by
      cases gone with
      | false => rfl
      | true => cases (hwiped rfl).1
    subst hgone
    simp only [Bool.false_eq_true, false_and, if_false, if_true, Option.isSome_none, Bool.false_and]
    refine .cleared v (if took then "cleared" else "none") hv hleft ?_ ?_ ?_
    · cases took with
      | true => exact .inl rfl
      | false => exact .inr rfl
    · rfl
    · rfl
  | some error =>
    cases gone with
    | false =>
      simp only [Bool.false_eq_true, false_and, if_false, if_true, Option.isSome_some, Bool.false_and, Bool.not_false,
        Bool.and_true, reduceCtorEq]
      refine .kept v (some error) _ _ ⟨?_, ?_, ?_⟩ ?_ ?_ <;> rfl
    | true =>
      obtain ⟨hv, hleft⟩ := hbare rfl
      cases hgot : w.connection row.raftAgentId c.provider with
      | none =>
        simp only [true_and, if_true, Option.isSome_none, Bool.and_false, Bool.false_and, Bool.false_eq_true, if_false]
        refine .cleared v (if took then "cleared" else "none") hv (.inl (hwiped rfl).2) ?_ ?_ ?_
        · cases took with
          | true => exact .inl rfl
          | false => exact .inr rfl
        · rfl
        · rw [hgot]
          rfl
      | some bound =>
        simp only [reduceCtorEq, and_false, if_false, Option.isSome_some, Bool.and_true, Bool.not_true, Bool.and_false,
          Bool.false_eq_true, if_true]
        refine .gone v (some error) hv (hwiped rfl).2 ?_ ?_
        · rfl
        · rw [hgot]
          rfl

theorem removeConnection_answers (h : c.clear = ⟨none, none⟩) {n : NotCleared} {binding mount action : String} :
    (removeConnection c row w).1.response ≠ .kept n binding mount action := by
  have hkeep := clearEnd_answers c.provider (c.before (w.objects row.agentId)) h
  unfold removeConnection
  generalize clearEnd c.provider c.clear (c.before (w.objects row.agentId)) = r at hkeep
  obtain ⟨⟨error, gone, took⟩, v⟩ := r
  cases error with
  | none => cases gone <;> cases hgot : w.connection row.raftAgentId c.provider <;> simp
  | some error =>
    have hgone : gone = true := by simpa [ClearEnd.keep] using hkeep
    subst hgone
    cases hgot : w.connection row.raftAgentId c.provider <;> simp

theorem removeConnection_tables (c : ConnectionCall) (row : ProvisionedAgent) (w : World) :
    (removeConnection c row w).2.agents = w.agents ∧ (removeConnection c row w).2.connectors = w.connectors := by
  constructor
  · simp only [removeConnection, World.record, apply_ite World.agents, World.setObject, World.unbind, ite_self]
  · simp only [removeConnection, World.record, apply_ite World.connectors, World.setObject, World.unbind, ite_self]

theorem deleteConnection_removal (h : c.agent w = some row) : deleteConnection c w = removeConnection c row w := by
  unfold ConnectionCall.agent at h
  unfold deleteConnection
  split at h
  · rename_i hp
    rw [if_neg (not_not.2 hp), h]
  · cases h

end Single

/-! ## An agent's delete -/

inductive Binding where
  | removed
  | kept
  | none
deriving DecidableEq

inductive Action where
  | retry_delete
  | revoke_on_github
deriving DecidableEq

structure ConnectionEnd where
  provider : String
  connectorId : Option String
  binding : Binding
  mountCleared : Bool
  action : Option Action
  message : Option Str
  error : Option Str
deriving DecidableEq

/-- What one provider's turn meets: the clear, and the tables' reads and writes failing. -/
structure ProviderLuck where
  before : AgentObject → AgentObject
  clear : Weather
  get : Option Str
  record : Throws
  remove : Throws

def ClearEnd.action (e : ClearEnd) : Option Action :=
  if e.error = none then none else if e.gone then some .revoke_on_github else some .retry_delete

def Action.message : Action → Str
  | .revoke_on_github => REVOKE_ON_GITHUB
  | .retry_delete => js "the mount still holds a copy; DELETE this agent again to clear it"

/-- What one provider's turn finds and decides. -/
structure Unbinding where
  provider : String
  visit : Visit
  clear : ClearEnd
  /-- The binding as it was read, when it could be. -/
  bound : Option ProvisionedConnection
  /-- Whether it was taken out of the table. -/
  unbound : Bool
  ended : Option ConnectionEnd
  recorded : List ConnectorEvent

/-- A provider the agent was never connected to, with nothing on its mount, is not worth an entry. -/
def entry (p : String) (e : ClearEnd) (connectorId : Option String) (binding : Binding) (thrown : Option Str) :
    Option ConnectionEnd :=
  let error := e.error.or (thrown.map (asText 200))
  if binding ≠ .none ∨ e.took ∨ error ≠ none then
    some ⟨p, connectorId, binding, e.error.isNone, e.action, e.action.map Action.message, error⟩
  else none

def agentEvent (raftAgentId p : String) (connectorId : Option String) (e : ClearEnd) (at_ : Int) : ConnectorEvent where
  connectorId := connectorId
  raftAgentId := some raftAgentId
  provider := none
  action := "deleted_agent_unbound"
  acting := systemActing
  at_ := at_
  reason := some { provider := some p, mountCleared := some e.error.isNone, error := e.error }

/-- Whether a write that may have thrown was carried out. -/
def Throws.landed (t : Throws) : Bool := t.all (·.1)

/-- What became of the binding, and what was thrown meanwhile. -/
structure Unbound where
  bound : Option ProvisionedConnection
  binding : Binding
  thrown : Option Str
  unbound : Bool
  recorded : List ConnectorEvent

/-- The binding's part of one provider's turn, once the mount was cleared or was not. -/
def unbindBinding (row : ProvisionedAgent) (at_ : Int) (luck : ProviderLuck) (p : String) (e : ClearEnd)
    (held : Option ProvisionedConnection) : Unbound :=
  match luck.get with
  | some why => ⟨none, .none, some why, false, []⟩
  | none =>
    match held with
    | none => ⟨none, .none, none, false, []⟩
    | some bound =>
      if e.action = some .retry_delete then ⟨some bound, .kept, none, false, []⟩
      else
        -- Whether the mount copy went is recorded first, of a connection with a connector.
        let event := agentEvent row.raftAgentId p bound.connectorId e at_
        let recorded := if bound.connectorId.isSome ∧ luck.record.landed then [event] else []
        match (if bound.connectorId.isSome then luck.record else none) with
        | some (_, why) => ⟨some bound, .kept, some why, false, recorded⟩
        | none =>
          match luck.remove with
          | some (landed, why) => ⟨some bound, .kept, some why, landed, recorded⟩
          | none => ⟨some bound, .removed, none, true, recorded⟩

def unbindingOf (row : ProvisionedAgent) (at_ : Int) (luck : ProviderLuck) (p : String) (w : World) : Unbinding :=
  let r := clearEnd p luck.clear (luck.before (w.objects row.agentId))
  let d := unbindBinding row at_ luck p r.1 (w.connection row.raftAgentId p)
  ⟨p, r.2, r.1, d.bound, d.unbound, entry p r.1 (d.bound.bind (·.connectorId)) d.binding d.thrown, d.recorded⟩

def unbindOne (row : ProvisionedAgent) (at_ : Int) (luck : ProviderLuck) (p : String) (s : World × List Unbinding) :
    World × List Unbinding :=
  let u := unbindingOf row at_ luck p s.1
  let w := s.1.setObject row.agentId u.visit.left
  let w := { w with events := w.events ++ u.recorded }
  (if u.unbound then w.unbind row.raftAgentId p else w, s.2 ++ [u])

def unbindAll (row : ProvisionedAgent) (at_ : Int) (luck : String → ProviderLuck) (ps : List String)
    (s : World × List Unbinding) : World × List Unbinding :=
  ps.foldl (fun s p => unbindOne row at_ (luck p) p s) s

structure AgentCall where
  byRaft : Bool
  named : String
  raftOrigin : String
  luck : String → ProviderLuck
  at_ : Int

/-- The answer's part about the connections: 404, or 200 with what became of each. -/
inductive AgentResponse where
  | fail (f : Fail)
  | deleted (connections : List ConnectionEnd) (connectionsClean retry : Bool)
deriving DecidableEq

structure AgentReport where
  response : AgentResponse
  unbindings : List Unbinding := []

def World.markDeleted (w : World) (raftAgentId : String) : World :=
  { w with agents := Table.update (·.raftAgentId == raftAgentId) (fun a => { a with deleted := true }) w.agents }

def deleteAgent (c : AgentCall) (w : World) : AgentReport × World :=
  match w.agentAt c.raftOrigin c.byRaft c.named with
  | none => ({ response := .fail (noAgent c.byRaft c.named) }, w)
  | some row =>
    let s := unbindAll row c.at_ c.luck CONNECTION_PROVIDERS (w.markDeleted row.raftAgentId, [])
    let ends := s.2.filterMap (·.ended)
    let clean := ends.all fun e => e.mountCleared && e.error.isNone
    let retry := ends.any (·.action == some .retry_delete)
    (⟨.deleted ends clean retry, s.2⟩, s.1)

section Agent

variable {row : ProvisionedAgent} {at_ : Int}

/-- The tables answer the turn's read and its writes. -/
structure ProviderLuck.Reads (luck : ProviderLuck) : Prop where
  get : luck.get = none
  record : luck.record = none
  remove : luck.remove = none

/-- What one provider's turn gives, of the binding the table holds. -/
structure Unbinding.Sound (row : ProvisionedAgent) (at_ : Int) (luck : ProviderLuck) (held : Option ProvisionedConnection)
    (u : Unbinding) : Prop where
  seen : u.unbound = true → u.visit.answered = true ∧ u.visit.left.Bare u.provider
  retry : u.clear.keep = true →
    u.unbound = false ∧ u.recorded = [] ∧ ∃ e, u.ended = some e ∧ e.action = some .retry_delete ∧ e.binding ≠ .removed
  removed : luck.Reads → u.clear.keep = false → ∀ b, held = some b →
    u.unbound = true ∧
    u.recorded = (if b.connectorId.isSome then [agentEvent row.raftAgentId u.provider b.connectorId u.clear at_] else []) ∧
    ∃ e, u.ended = some e ∧ e.binding = .removed ∧ e.connectorId = b.connectorId ∧ e.action ≠ some .retry_delete
  asked : ∀ {e}, u.ended = some e → e.action = some .retry_delete → u.clear.keep = true
  finished : luck.clear = ⟨none, none⟩ → u.clear.keep = false

theorem action_retry {e : ClearEnd} : e.action = some .retry_delete ↔ e.keep = true := by
  obtain ⟨error, gone, took⟩ := e
  cases error <;> cases gone <;> simp [ClearEnd.action, ClearEnd.keep]

theorem entry_action {p : String} {e : ClearEnd} {connectorId : Option String} {binding : Binding} {thrown : Option Str}
    {x : ConnectionEnd} (h : entry p e connectorId binding thrown = some x) : x.action = e.action := by
  simp only [entry] at h
  split at h
  · cases h
    rfl
  · cases h

theorem entry_error {p : String} {e : ClearEnd} {connectorId : Option String} {binding : Binding} {thrown : Option Str}
    (h : e.error.isSome = true) :
    ∃ x, entry p e connectorId binding thrown = some x ∧ x.action = e.action ∧ x.binding = binding := by
  obtain ⟨error, herror⟩ := Option.isSome_iff_exists.1 h
  refine ⟨_, if_pos ?_, rfl, rfl⟩
  exact .inr (.inr (by simp [herror]))

theorem entry_bound {p : String} {e : ClearEnd} (connectorId : Option String) (binding : Binding) (h : binding ≠ .none) :
    ∃ x, entry p e connectorId binding none = some x ∧ x.action = e.action ∧ x.binding = binding ∧
      x.connectorId = connectorId :=
  ⟨_, if_pos (.inl h), rfl, rfl, rfl⟩

section Binding

variable {luck : ProviderLuck} {p : String} {e : ClearEnd} {held : Option ProvisionedConnection}

theorem unbindBinding_keep (h : e.keep = true) :
    (unbindBinding row at_ luck p e held).unbound = false ∧ (unbindBinding row at_ luck p e held).recorded = [] ∧
      (unbindBinding row at_ luck p e held).binding ≠ .removed := by
  unfold unbindBinding
  cases luck.get with
  | some why => simp
  | none =>
    cases held with
    | none => simp
    | some b =>
      simp only [if_pos (action_retry.2 h)]
      simp

theorem unbindBinding_reads (hl : luck.Reads) (h : e.keep = false) {b : ProvisionedConnection} :
    unbindBinding row at_ luck p e (some b) = ⟨some b, .removed, none, true,
      if b.connectorId.isSome then [agentEvent row.raftAgentId p b.connectorId e at_] else []⟩ := by
  have hretry : e.action ≠ some .retry_delete := by
    rw [Ne, action_retry, h]
    exact Bool.false_ne_true
  simp only [unbindBinding, hl.get, hl.record, hl.remove, if_neg hretry, ite_self, Throws.landed, Option.all_none, and_true]

end Binding

theorem unbindingOf_sound (luck : ProviderLuck) (p : String) (w : World) :
    (unbindingOf row at_ luck p w).Sound row at_ luck (w.connection row.raftAgentId p) where
  seen := by
    intro h
    refine clearEnd_bare _ _ _ ?_
    by_contra hkeep
    have hkept : (unbindingOf row at_ luck p w).unbound = false :=
      (unbindBinding_keep (Bool.eq_true_of_not_eq_false hkeep)).1
    rw [hkept] at h
    cases h
  retry := by
    intro h
    obtain ⟨h1, h2, h3⟩ := unbindBinding_keep h
    have herror : (unbindingOf row at_ luck p w).clear.error.isSome = true := (Bool.and_eq_true_iff.1 h).1
    obtain ⟨x, hx, haction, hbinding⟩ := entry_error herror
    exact ⟨h1, h2, x, hx, haction.trans (action_retry.2 h), fun hr => h3 (hbinding.symm.trans hr)⟩
  removed := by
    intro hl h b hb
    have hd : unbindBinding row at_ luck p (unbindingOf row at_ luck p w).clear (w.connection row.raftAgentId p) =
        ⟨some b, .removed, none, true, if b.connectorId.isSome then
          [agentEvent row.raftAgentId p b.connectorId (unbindingOf row at_ luck p w).clear at_] else []⟩ := by
      rw [hb]
      exact unbindBinding_reads hl h
    have hended : (unbindingOf row at_ luck p w).ended =
        entry p (unbindingOf row at_ luck p w).clear b.connectorId .removed none :=
      congrArg (fun d : Unbound => entry p _ (d.bound.bind (·.connectorId)) d.binding d.thrown) hd
    obtain ⟨x, hx, haction, hbinding, hconnector⟩ :=
      entry_bound (p := p) (e := (unbindingOf row at_ luck p w).clear) b.connectorId .removed (by simp)
    refine ⟨congrArg (·.unbound) hd, congrArg (·.recorded) hd, x, hended.trans hx, hbinding, hconnector, ?_⟩
    rw [haction, Ne, action_retry, h]
    exact Bool.false_ne_true
  asked := by
    intro e he haction
    exact action_retry.1 ((entry_action he).symm.trans haction)
  finished := clearEnd_answers _ _

/-- A binding that an agent's unbinding leaves. -/
def leftOf (raftAgentId : String) (us : List Unbinding) (c : ProvisionedConnection) : Bool :=
  !us.any fun u => u.unbound && (c.raftAgentId == raftAgentId && c.provider == u.provider)

/-- From one state of the loop over the providers to a later one, by the turns between them. -/
structure Unbindings (row : ProvisionedAgent) (at_ : Int) (luck : String → ProviderLuck) (ps : List String)
    (s s' : World × List Unbinding) (new : List Unbinding) : Prop where
  list : s'.2 = s.2 ++ new
  providers : new.map (·.provider) = ps
  sound : ∀ u ∈ new, u.Sound row at_ (luck u.provider) (s.1.connection row.raftAgentId u.provider)
  agents : s'.1.agents = s.1.agents
  connectors : s'.1.connectors = s.1.connectors
  connections : s'.1.connections = s.1.connections.filter (leftOf row.raftAgentId new)
  events : s'.1.events = s.1.events ++ new.flatMap (·.recorded)

theorem unbindOne_spec (row : ProvisionedAgent) (at_ : Int) (luck : String → ProviderLuck) (p : String)
    (s : World × List Unbinding) :
    Unbindings row at_ luck [p] s (unbindOne row at_ (luck p) p s) [unbindingOf row at_ (luck p) p s.1] where
  list := rfl
  providers := rfl
  sound := by
    intro u hu
    rw [List.mem_singleton.1 hu]
    exact unbindingOf_sound ..
  agents := by
    simp only [unbindOne]
    split <;> rfl
  connectors := by
    simp only [unbindOne]
    split <;> rfl
  connections := by
    simp only [unbindOne]
    split
    · rename_i hgone
      refine List.filter_congr fun c _ => ?_
      have hp : (unbindingOf row at_ (luck p) p s.1).provider = p := rfl
      simp [leftOf, hgone, hp]
    · rename_i hleft
      refine (List.filter_eq_self.2 fun c _ => ?_).symm
      simp [leftOf, hleft]
  events := by
    simp only [unbindOne, List.flatMap_singleton]
    split <;> rfl

/-- Another provider's turn leaves a provider's binding alone. -/
theorem Unbindings.connection {luck : String → ProviderLuck} {ps : List String} {s s' : World × List Unbinding}
    {new : List Unbinding} (h : Unbindings row at_ luck ps s s' new) {p : String} (hp : p ∉ ps) :
    s'.1.connection row.raftAgentId p = s.1.connection row.raftAgentId p := by
  unfold World.connection Table.one
  rw [h.connections, List.find?_filter]
  refine Table.one_congr fun c _ => ?_
  cases hkey : (c.raftAgentId == row.raftAgentId && c.provider == p) with
  | false => simp
  | true =>
    have hleft : leftOf row.raftAgentId new c = true := by
      rw [leftOf, Bool.not_eq_true', List.any_eq_false]
      intro u hu
      have hu : u.provider ∈ ps := by
        rw [← h.providers]
        exact List.mem_map_of_mem hu
      have hne : c.provider ≠ u.provider := by
        intro heq
        rw [← heq, eq_of_beq (Bool.and_eq_true_iff.1 hkey).2] at hu
        exact hp hu
      simp [hne]
    simp [hleft]

theorem unbindAll_spec (row : ProvisionedAgent) (at_ : Int) (luck : String → ProviderLuck) {ps : List String} (hps : ps.Nodup)
    (s : World × List Unbinding) : ∃ new, Unbindings row at_ luck ps s (unbindAll row at_ luck ps s) new := by
  induction ps generalizing s with
  | nil => exact ⟨[], (List.append_nil _).symm, rfl, by simp, rfl, rfl, (List.filter_eq_self.2 fun _ _ => rfl).symm,
      (List.append_nil _).symm⟩
  | cons p ps ih =>
    obtain ⟨hp, hps⟩ := List.nodup_cons.1 hps
    have hone := unbindOne_spec row at_ luck p s
    obtain ⟨new, hnew⟩ := ih hps (unbindOne row at_ (luck p) p s)
    refine ⟨unbindingOf row at_ (luck p) p s.1 :: new, ?_⟩
    exact {
      list := hnew.list.trans (by rw [hone.list, List.append_assoc]; rfl)
      providers := congrArg (p :: ·) hnew.providers
      sound := by
        intro u hu
        rcases List.mem_cons.1 hu with rfl | hu
        · exact hone.sound _ List.mem_cons_self
        · have hne : u.provider ∉ [p] := by
            intro hmem
            rw [← List.mem_singleton.1 hmem, ← hnew.providers] at hp
            exact hp (List.mem_map_of_mem hu)
          rw [← hone.connection hne]
          exact hnew.sound u hu
      agents := hnew.agents.trans hone.agents
      connectors := hnew.connectors.trans hone.connectors
      connections := by
        refine hnew.connections.trans ?_
        rw [hone.connections, List.filter_filter]
        refine List.filter_congr fun c _ => ?_
        simp only [leftOf, List.any_cons, List.any_nil, Bool.or_false, Bool.not_or, Bool.and_comm]
      events := by
        refine hnew.events.trans ?_
        simp [hone.events] }

end Agent

end Antiproton.Connect
