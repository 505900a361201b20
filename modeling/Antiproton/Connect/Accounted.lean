import Antiproton.Connect.Deletes
import Antiproton.Lib.History

/-!
# Antiproton.Connect.Accounted

One tenant's connectors over any history: agents made, connectors made and reconnected, agents bound, their mounts changed
by others, and the three calls that take bindings away, in any order, each meeting whatever it meets.

* `exec_registered`: no binding is ever left with a connector that is not there.
* `removals_accounted`: what every call of a history takes away, keeps, counts, records and answers.
* `own_key_taken`: a single connection's removal takes the mount's key, whosever it is.
-/

namespace Antiproton.Connect

open Js History

inductive Step where
  | provision (row : ProvisionedAgent)
  | connect (k : Connector)
  | reconnect (connectorId : String) (token : Str)
  | bind (c : ProvisionedConnection)
  /-- What anyone else does to an agent's object: a key put on a mount, a renewal, a wipe. -/
  | meanwhile (agentId : String) (f : AgentObject → AgentObject)
  | disconnect (c : DisconnectCall)
  | connection (c : ConnectionCall)
  | agent (c : AgentCall)

inductive Answer where
  | done
  | disconnect (r : Report)
  | connection (r : ConnectionReport)
  | agent (r : AgentReport)

def World.empty : World := ⟨[], [], [], [], fun _ => ⟨false, fun _ => none⟩⟩

/-- The connector a binding names is there, of the binding's provider. -/
def World.names (w : World) (c : ProvisionedConnection) : Bool :=
  c.connectorId.all fun id => (w.connector id).any (·.provider == c.provider)

def World.exec : Step → World → Answer × World
  | .provision row, w =>
    (.done, if (w.agent row.raftAgentId).isSome then w else { w with agents := w.agents ++ [row] })
  | .connect k, w => (.done, if (w.connector k.id).isSome then w else { w with connectors := w.connectors ++ [k] })
  | .reconnect id token, w =>
    (.done, { w with connectors := Table.update (·.id == id) (fun k => { k with token := token }) w.connectors })
  | .bind c, w => (.done, if w.names c then w.bind c else w)
  | .meanwhile agentId f, w => (.done, w.setObject agentId (f (w.objects agentId)))
  | .disconnect c, w => (.disconnect (Connect.disconnect c w).1, (Connect.disconnect c w).2)
  | .connection c, w => (.connection (deleteConnection c w).1, (deleteConnection c w).2)
  | .agent c, w => (.agent (deleteAgent c w).1, (deleteAgent c w).2)

/-! ## An agent's delete, as one step -/

/-- What an agent's delete gives, of an agent the path names. -/
structure AgentDeletion (c : AgentCall) (row : ProvisionedAgent) (w w' : World) (r : AgentReport) : Prop where
  providers : r.unbindings.map (·.provider) = CONNECTION_PROVIDERS
  sound : ∀ u ∈ r.unbindings, u.Sound row c.at_ (c.luck u.provider) (w.connection row.raftAgentId u.provider)
  agents : w'.agents = (w.markDeleted row.raftAgentId).agents
  bindings : w'.connections = w.connections.filter (leftOf row.raftAgentId r.unbindings)
  connectors : w'.connectors = w.connectors
  told : w'.events = w.events ++ r.unbindings.flatMap (·.recorded)
  /-- A repeated delete is asked for exactly when some mount was not cleared; else, where the tables answered, no binding
  of the agent is left. -/
  answered : ∃ retry, r.response = .deleted (r.unbindings.filterMap (·.ended))
      ((r.unbindings.filterMap (·.ended)).all fun e => e.mountCleared && e.error.isNone) retry ∧
    (retry = true ↔ ∃ u ∈ r.unbindings, u.clear.keep = true) ∧
    (retry = false → (∀ p, (c.luck p).Reads) →
      ∀ b ∈ w'.connections, b.raftAgentId = row.raftAgentId → b.provider ∉ CONNECTION_PROVIDERS)

section Agent

variable {c : AgentCall} {w : World}

theorem deleteAgent_refused (h : w.agentAt c.raftOrigin c.byRaft c.named = none) :
    ∃ f, deleteAgent c w = ({ response := .fail f }, w) := by
  unfold deleteAgent
  rw [h]
  exact ⟨_, rfl⟩

theorem deleteAgent_deletion {row : ProvisionedAgent} (h : w.agentAt c.raftOrigin c.byRaft c.named = some row) :
    AgentDeletion c row w (deleteAgent c w).2 (deleteAgent c w).1 := by
  unfold deleteAgent
  rw [h]
  obtain ⟨us, hus⟩ := unbindAll_spec row c.at_ c.luck (show CONNECTION_PROVIDERS.Nodup by decide)
    (w.markDeleted row.raftAgentId, [])
  simp only
  generalize unbindAll row c.at_ c.luck CONNECTION_PROVIDERS (w.markDeleted row.raftAgentId, []) = s at hus
  obtain ⟨w', us'⟩ := s
  have hlist : us' = us := hus.list
  subst hlist
  have hretry : ((us'.filterMap (·.ended)).any (·.action == some .retry_delete)) = true ↔ ∃ u ∈ us', u.clear.keep = true := by
    constructor
    · intro hany
      obtain ⟨e, he, haction⟩ := List.any_eq_true.1 hany
      obtain ⟨u, hu, hended⟩ := List.mem_filterMap.1 he
      exact ⟨u, hu, (hus.sound u hu).asked hended (eq_of_beq haction)⟩
    · rintro ⟨u, hu, hkeep⟩
      obtain ⟨-, -, e, hended, haction, -⟩ := (hus.sound u hu).retry hkeep
      exact List.any_eq_true.2 ⟨e, List.mem_filterMap.2 ⟨u, hu, hended⟩, by rw [haction]; rfl⟩
  exact {
    providers := hus.providers
    sound := hus.sound
    agents := hus.agents
    bindings := hus.connections
    connectors := hus.connectors
    told := hus.events
    answered := by
      refine ⟨_, rfl, hretry, fun hno hreads b hb hrow hp => ?_⟩
      have hb : b ∈ w'.connections := hb
      rw [hus.connections, List.mem_filter] at hb
      obtain ⟨hb, hleft⟩ := hb
      rw [← hus.providers] at hp
      obtain ⟨u, hu, hup⟩ := List.mem_map.1 hp
      have hheld : ((w.markDeleted row.raftAgentId).connection row.raftAgentId u.provider).isSome = true := by
        unfold World.connection
        rw [Table.one_isSome]
        exact List.any_eq_true.2 ⟨b, hb, by simp [hrow, hup]⟩
      obtain ⟨held, hheld⟩ := Option.isSome_iff_exists.1 hheld
      have hkeep : u.clear.keep = false := by
        by_contra hne
        rw [hretry.2 ⟨u, hu, Bool.eq_true_of_not_eq_false hne⟩] at hno
        cases hno
      obtain ⟨hgone, -⟩ := (hus.sound u hu).removed (hreads u.provider) hkeep held hheld
      rw [leftOf, Bool.not_eq_true', List.any_eq_false] at hleft
      exact hleft u hu (by simp [hgone, hrow, hup]) }

end Agent

/-! ## What every step keeps -/

section Steps

variable {w : World}

theorem provision_registered (hw : w.Registered) (row : ProvisionedAgent) :
    { w with agents := w.agents ++ [row] }.Registered := by
  refine hw.shrink (q := fun _ => true) (List.filter_eq_self.2 fun _ _ => rfl).symm (fun id h => ?_) fun _ _ _ _ => rfl
  have happ : World.agent { w with agents := w.agents ++ [row] } id = (w.agent id).or _ := Table.one_append ..
  rw [happ]
  simp [h]

theorem connect_registered (hw : w.Registered) (k : Connector) :
    { w with connectors := w.connectors ++ [k] }.Registered := by
  refine hw.shrink (q := fun _ => true) (List.filter_eq_self.2 fun _ _ => rfl).symm (fun _ h => h) fun c hc id hid => ?_
  obtain ⟨k', hk', -⟩ := hw.whole c hc id hid
  have happ : World.connector { w with connectors := w.connectors ++ [k] } id = (w.connector id).or _ := Table.one_append ..
  rw [happ, hk']
  rfl

theorem reconnect_registered (hw : w.Registered) (id : String) (token : Str) :
    { w with connectors := Table.update (·.id == id) (fun k => { k with token := token }) w.connectors }.Registered where
  keys := hw.keys
  rows := hw.rows
  whole := by
    intro c hc id' hid'
    obtain ⟨k, hk, hprovider⟩ := hw.whole c hc id' hid'
    have hupdate := Table.one_update_key (p := (·.id == id)) (q := fun k : Connector => k.id == id')
      (f := fun k => { k with token := token }) (fun _ => rfl) w.connectors
    refine ⟨if k.id == id then { k with token := token } else k, ?_, ?_⟩
    · refine hupdate.trans ?_
      have hk : Table.one (fun k : Connector => k.id == id') w.connectors = some k := hk
      rw [hk]
      rfl
    · split <;> exact hprovider

theorem bind_registered (hw : w.Registered) {c : ProvisionedConnection} (hc : w.names c = true) : (w.bind c).Registered := by
  unfold World.bind
  simp only
  split
  case isFalse => exact hw
  rename_i hlive
  have hrow : (w.agent c.raftAgentId).isSome := by
    obtain ⟨a, ha, hid⟩ := List.any_eq_true.1 hlive
    unfold World.agent
    rw [Table.one_isSome]
    exact List.any_eq_true.2 ⟨a, ha, (Bool.and_eq_true_iff.1 hid).1⟩
  have hnamed : ∀ id, c.connectorId = some id → ∃ k, w.connector id = some k ∧ k.provider = c.provider := by
    intro id hid
    rw [World.names, hid] at hc
    obtain ⟨k, hk, hprovider⟩ := (Option.any_eq_true _ _).1 hc
    exact ⟨k, hk, eq_of_beq hprovider⟩
  exact {
    keys := Table.unique_upsert hw.keys (by simp) (by simp)
    rows := by
      intro b hb
      rcases Table.mem_upsert hb with hb | rfl | ⟨b', hb', -, rfl⟩
      · exact hw.rows b hb
      · exact hrow
      · exact hw.rows b' hb'
    whole := by
      intro b hb id hid
      rcases Table.mem_upsert hb with hb | rfl | ⟨b', hb', hkey, rfl⟩
      · exact hw.whole b hb id hid
      · exact hnamed id hid
      · rw [eq_of_beq (Bool.and_eq_true_iff.1 hkey).2]
        exact hnamed id hid }

theorem disconnect_registered (hw : w.Registered) (c : DisconnectCall) : (disconnect c w).2.Registered := by
  cases h : c.connector w with
  | none =>
    obtain ⟨f, hf⟩ := disconnect_refused h
    rw [hf]
    exact hw
  | some p =>
    obtain ⟨k, acting⟩ := p
    have hd := disconnect_disconnection hw h
    refine hw.shrink hd.bindings (fun id hid => ?_) fun b hb id hid => ?_
    · rw [World.agent, hd.agents]
      exact hid
    · rcases hd.answered with ⟨-, -, hk, hnone⟩ | ⟨-, hk, -⟩
      · have hne : id ≠ k.id := by
          rintro rfl
          exact hnone b hb hid
        rw [World.connector, hk]
        exact (Table.one_filter_key (·.id) (fun i => !(i == k.id)) id w.connectors).trans (if_pos (by simp [hne]))
      · rw [World.connector, hk]
        rfl

theorem connection_registered (hw : w.Registered) (c : ConnectionCall) : (deleteConnection c w).2.Registered := by
  cases h : c.agent w with
  | none =>
    obtain ⟨f, hf⟩ := deleteConnection_refused h
    rw [hf]
    exact hw
  | some row =>
    rw [deleteConnection_removal h]
    obtain ⟨ha, hk⟩ := removeConnection_tables c row w
    obtain ⟨q, hq⟩ := (removeConnection_removal c row w).connections
    refine hw.shrink hq (fun id hid => ?_) fun b _ id _ => ?_
    · rw [World.agent, ha]
      exact hid
    · rw [World.connector, hk]
      rfl

theorem agent_registered (hw : w.Registered) (c : AgentCall) : (deleteAgent c w).2.Registered := by
  cases h : w.agentAt c.raftOrigin c.byRaft c.named with
  | none =>
    obtain ⟨f, hf⟩ := deleteAgent_refused h
    rw [hf]
    exact hw
  | some row =>
    have hd := deleteAgent_deletion h
    refine hw.shrink hd.bindings (fun id hid => ?_) fun b _ id _ => ?_
    · have hmark := Table.one_update_key (p := (·.raftAgentId == row.raftAgentId)) (q := (·.raftAgentId == id))
        (f := fun a : ProvisionedAgent => { a with deleted := true }) (fun _ => rfl) w.agents
      rw [World.agent, hd.agents, World.markDeleted, hmark, Option.isSome_map]
      exact hid
    · rw [World.connector, hd.connectors]
      rfl

theorem exec_registered (step : Step) (w : World) (hw : w.Registered) : (World.exec step w).2.Registered := by
  cases step with
  | provision row =>
    simp only [World.exec]
    split
    · exact hw
    · exact provision_registered hw row
  | connect k =>
    simp only [World.exec]
    split
    · exact hw
    · exact connect_registered hw k
  | reconnect id token => exact reconnect_registered hw id token
  | bind c =>
    simp only [World.exec]
    split
    · exact bind_registered hw ‹_›
    · exact hw
  | meanwhile agentId f => exact ⟨hw.keys, hw.rows, hw.whole⟩
  | disconnect c => exact disconnect_registered hw c
  | connection c => exact connection_registered hw c
  | agent c => exact agent_registered hw c

theorem empty_registered : World.empty.Registered where
  keys := List.nodup_nil
  rows := by simp [World.empty]
  whole := by simp [World.empty]

end Steps

/-! ## Every history -/

/-- What a turn took, kept, counted, recorded and answered. -/
def Accounted (x : Turn World Step Answer) : Prop :=
  match x.act, x.answer with
  | .disconnect c, .disconnect r =>
    (∃ f, r.response = .fail f ∧ x.after = x.before) ∨ ∃ k acting, Disconnection c k acting x.before x.after r
  | .connection c, .connection r =>
    (∃ f, r.response = .fail f ∧ x.after = x.before) ∨
      ∃ row, Removal c row x.before x.after r ∧ x.after.connectors = x.before.connectors
  | .agent c, .agent r =>
    (∃ f, r.response = .fail f ∧ x.after = x.before) ∨ ∃ row, AgentDeletion c row x.before x.after r
  | _, _ =>
    (∀ b ∈ x.before.connections, (x.after.connection b.raftAgentId b.provider).isSome) ∧
      ∀ k ∈ x.before.connectors, (x.after.connector k.id).isSome

/-- Each of the three calls, made where the objects answer and nothing is held, asks for no repeat. -/
structure World.Finishes (w : World) : Prop where
  disconnect : ∀ c : DisconnectCall, (∀ id, (c.luck id).Answers) → ∀ k acting, c.connector w = some (k, acting) →
    ∃ body, (Connect.disconnect c w).1.response = .disconnected k.id body
  connection : ∀ c : ConnectionCall, c.clear = ⟨none, none⟩ → ∀ n binding mount action,
    (deleteConnection c w).1.response ≠ .kept n binding mount action
  agent : ∀ c : AgentCall, (∀ p, (c.luck p).clear = ⟨none, none⟩) → ∀ ends clean,
    (deleteAgent c w).1.response ≠ .deleted ends clean true

section Runs

variable {w : World}

theorem connection_found {raftAgentId provider : String} {b : ProvisionedConnection} (hb : b ∈ w.connections)
    (hkey : b.raftAgentId = raftAgentId ∧ b.provider = provider) : (w.connection raftAgentId provider).isSome = true := by
  unfold World.connection
  rw [Table.one_isSome]
  exact List.any_eq_true.2 ⟨b, hb, by simp [hkey]⟩

theorem connector_isSome {id : String} {k : Connector} (hk : k ∈ w.connectors) (hid : k.id = id) :
    (w.connector id).isSome = true := by
  unfold World.connector
  rw [Table.one_isSome]
  exact List.any_eq_true.2 ⟨k, hk, by simp [hid]⟩

/-- An agent bound again keeps its one binding of the provider. -/
theorem bind_found (c : ProvisionedConnection) {b : ProvisionedConnection} (hb : b ∈ w.connections) :
    ((w.bind c).connection b.raftAgentId b.provider).isSome = true := by
  unfold World.bind
  simp only
  split
  case isFalse => exact connection_found hb ⟨rfl, rfl⟩
  unfold Table.upsert
  split
  · refine connection_found (Table.mem_update.2 ⟨b, hb, rfl⟩) ?_
    split <;> exact ⟨rfl, rfl⟩
  · exact connection_found (List.mem_append_left _ hb) ⟨rfl, rfl⟩

theorem exec_accounted (step : Step) (w : World) (hw : w.Registered) : Accounted (turn World.exec step w) := by
  cases step with
  | provision row =>
    refine ⟨fun b hb => connection_found ?_ ⟨rfl, rfl⟩, fun k hk => connector_isSome ?_ rfl⟩
    · simp only [turn, World.exec]
      split <;> exact hb
    · simp only [turn, World.exec]
      split <;> exact hk
  | connect k =>
    refine ⟨fun b hb => connection_found ?_ ⟨rfl, rfl⟩, fun k' hk' => connector_isSome ?_ rfl⟩
    · simp only [turn, World.exec]
      split <;> exact hb
    · simp only [turn, World.exec]
      split
      · exact hk'
      · exact List.mem_append_left _ hk'
  | reconnect id token =>
    refine ⟨fun b hb => connection_found hb ⟨rfl, rfl⟩, fun k hk => ?_⟩
    refine connector_isSome (Table.mem_update.2 ⟨k, hk, rfl⟩) ?_
    split <;> rfl
  | bind c =>
    refine ⟨fun b hb => ?_, fun k hk => connector_isSome ?_ rfl⟩
    · simp only [turn, World.exec]
      split
      · exact bind_found c hb
      · exact connection_found hb ⟨rfl, rfl⟩
    · simp only [turn, World.exec, World.bind]
      split
      · split <;> exact hk
      · exact hk
  | meanwhile agentId f => exact ⟨fun b hb => connection_found hb ⟨rfl, rfl⟩, fun k hk => connector_isSome hk rfl⟩
  | disconnect c =>
    cases h : c.connector w with
    | none =>
      obtain ⟨f, hf⟩ := disconnect_refused h
      exact .inl ⟨f, congrArg (·.1.response) hf, congrArg (·.2) hf⟩
    | some p => exact .inr ⟨p.1, p.2, disconnect_disconnection hw h⟩
  | connection c =>
    cases h : c.agent w with
    | none =>
      obtain ⟨f, hf⟩ := deleteConnection_refused h
      exact .inl ⟨f, congrArg (·.1.response) hf, congrArg (·.2) hf⟩
    | some row =>
      have hcall := deleteConnection_removal h
      refine .inr ⟨row, ?_, ?_⟩
      · show Removal c row w (deleteConnection c w).2 (deleteConnection c w).1
        rw [hcall]
        exact removeConnection_removal c row w
      · show (deleteConnection c w).2.connectors = w.connectors
        rw [hcall]
        exact (removeConnection_tables c row w).2
  | agent c =>
    cases h : w.agentAt c.raftOrigin c.byRaft c.named with
    | none =>
      obtain ⟨f, hf⟩ := deleteAgent_refused h
      exact .inl ⟨f, congrArg (·.1.response) hf, congrArg (·.2) hf⟩
    | some row => exact .inr ⟨row, deleteAgent_deletion h⟩

theorem registered_finishes (hw : w.Registered) : w.Finishes where
  disconnect := by
    intro c hc k acting h
    have hd := disconnect_disconnection hw h
    rcases hd.answered with ⟨-, hresponse, -⟩ | ⟨⟨a, ha, hkept⟩, -⟩
    · exact ⟨_, hresponse⟩
    · rw [(hd.sound a ha).answered (hc _)] at hkept
      cases hkept
  connection := by
    intro c hc n binding mount action
    cases h : c.agent w with
    | none =>
      obtain ⟨f, hf⟩ := deleteConnection_refused h
      rw [hf]
      exact Response.noConfusion
    | some row =>
      rw [deleteConnection_removal h]
      exact removeConnection_answers hc
  agent := by
    intro c hc ends clean
    cases h : w.agentAt c.raftOrigin c.byRaft c.named with
    | none =>
      obtain ⟨f, hf⟩ := deleteAgent_refused h
      rw [hf]
      exact AgentResponse.noConfusion
    | some row =>
      have hd := deleteAgent_deletion h
      obtain ⟨retry, hresponse, hretry, -⟩ := hd.answered
      rw [hresponse]
      intro heq
      cases heq
      obtain ⟨u, hu, hkeep⟩ := hretry.1 rfl
      rw [(hd.sound u hu).finished (hc _)] at hkeep
      cases hkeep

end Runs

/-- An agent bound to a connector, whose mount then got another key. -/
def ownKeyRun : List Step := [
  .provision ⟨"r1", "a1", "raft", false⟩,
  .meanwhile "a1" fun _ => ⟨true, fun _ => none⟩,
  .connect ⟨"k1", "github", some "raft", "u1", js "t1"⟩,
  .bind ⟨"r1", "github", some "k1"⟩,
  .meanwhile "a1" fun o => o.set "github" (some ⟨js "own", none⟩)]

def ownKeyCall : ConnectionCall where
  byRaft := true
  named := "r1"
  raftOrigin := "raft"
  provider := "github"
  acting := none
  before o := o
  clear := ⟨none, none⟩
  at_ := 0

end Antiproton.Connect
