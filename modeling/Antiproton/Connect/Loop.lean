import Antiproton.Connect.Disconnect

/-!
# Antiproton.Connect.Loop

What a disconnect's loop leaves behind, from the accounts of the agents it went through.

* `tally_at`: each list of the tally holds the agents whose account is of its place, in order.
* `disconnectLoop_spec`: the bindings, the events and the tally are what the accounts say.
* `disconnect_accounts`: a call's answer, and whether the connector is left, by the same accounts.
-/

namespace Antiproton.Connect

open Js

/-- Where an agent is counted. -/
inductive Place where
  | detached
  | kept
  | failed
  | revoke
  | elsewhere
  | elsewhereFailed
  | elsewhereRevoke
deriving DecidableEq

def Account.place (a : Account) : Place :=
  if a.bindingKept then (if a.ours then .failed else .elsewhereFailed)
  else if a.end_.outcome = .gone then (if a.ours then .revoke else .elsewhereRevoke)
  else if a.end_.outcome = .other then .kept
  else if a.ours then .detached
  else .elsewhere

/-- The agents of one list. -/
def Tally.at_ (t : Tally) : Place → List String
  | .detached => t.detached
  | .kept => t.kept
  | .failed => t.failed.map (·.raftAgentId)
  | .revoke => t.revoke
  | .elsewhere => t.elsewhere
  | .elsewhereFailed => t.elsewhereFailed.map (·.1)
  | .elsewhereRevoke => t.elsewhereRevoke

theorem Account.failed_iff (a : Account) : (a.place = .failed ∨ a.place = .elsewhereFailed) ↔ a.bindingKept = true := by
  unfold Account.place
  cases a.bindingKept with
  | true => cases a.ours <;> simp
  | false =>
    simp only [Bool.false_eq_true, if_false, iff_false]
    split
    · cases a.ours <;> simp
    split
    · simp
    cases a.ours <;> simp

theorem push_at (t : Tally) (a : Account) (p : Place) :
    (t.push a).at_ p = if a.place = p then t.at_ p ++ [a.raftAgentId] else t.at_ p := by
  unfold Tally.push Account.place
  cases a.bindingKept with
  | true => cases a.ours <;> cases p <;> simp [Tally.at_]
  | false =>
    simp only [Bool.false_eq_true, if_false]
    by_cases hgone : a.end_.outcome = .gone
    · cases a.ours <;> cases p <;> simp [Tally.at_, hgone]
    by_cases hother : a.end_.outcome = .other
    · cases p <;> simp [Tally.at_, hother]
    · cases a.ours <;> cases p <;> simp [Tally.at_, hgone, hother]

theorem tally_at (accounts : List Account) (t : Tally) (p : Place) :
    (accounts.foldl Tally.push t).at_ p = t.at_ p ++ (accounts.filter (·.place = p)).map (·.raftAgentId) := by
  induction accounts generalizing t with
  | nil => simp
  | cons a rest ih =>
    rw [List.foldl_cons, ih, push_at, List.filter_cons]
    by_cases h : a.place = p <;> simp [h]

theorem push_failed {t : Tally} {a : Account} (h : ∀ f ∈ t.failed, f.action = "retry_delete") :
    ∀ f ∈ (t.push a).failed, f.action = "retry_delete" := by
  intro f hf
  unfold Tally.push at hf
  split at hf
  · split at hf
    · rcases List.mem_append.1 hf with hf | hf
      · exact h f hf
      · rw [List.mem_singleton.1 hf]
    · exact h f hf
  split at hf
  · split at hf <;> exact h f hf
  split at hf
  · exact h f hf
  · split at hf <;> exact h f hf

theorem tally_failed (accounts : List Account) {t : Tally} (h : ∀ f ∈ t.failed, f.action = "retry_delete") :
    ∀ f ∈ (accounts.foldl Tally.push t).failed, f.action = "retry_delete" := by
  induction accounts generalizing t with
  | nil => exact h
  | cons a rest ih => exact ih (push_failed h)

@[simp] theorem empty_at (p : Place) : ({} : Tally).at_ p = [] := by cases p <;> rfl

theorem tally_ne_nil (accounts : List Account) (p : Place) :
    (accounts.foldl Tally.push {}).at_ p ≠ [] ↔ ∃ a ∈ accounts, a.place = p := by
  rw [tally_at, empty_at, List.nil_append, Ne, List.map_eq_nil_iff, List.filter_eq_nil_iff]
  simp

/-- Some agent's binding was kept exactly when one of the two lists of failures has one. -/
theorem tally_kept (accounts : List Account) :
    ((accounts.foldl Tally.push {}).failed ≠ [] ∨ (accounts.foldl Tally.push {}).elsewhereFailed ≠ []) ↔
      ∃ a ∈ accounts, a.bindingKept = true := by
  have hfailed : (accounts.foldl Tally.push {}).failed ≠ [] ↔ ∃ a ∈ accounts, a.place = .failed := by
    rw [← tally_ne_nil]
    exact List.map_eq_nil_iff.not.symm
  have helsewhere : (accounts.foldl Tally.push {}).elsewhereFailed ≠ [] ↔ ∃ a ∈ accounts, a.place = .elsewhereFailed := by
    rw [← tally_ne_nil]
    exact List.map_eq_nil_iff.not.symm
  rw [hfailed, helsewhere, ← exists_or]
  refine exists_congr fun a => ?_
  rw [← and_or_left, a.failed_iff]

/-- Agents of different ids are each in one list. -/
theorem counted_once {accounts : List Account} {t : Tally} (hids : (accounts.map (·.raftAgentId)).Nodup)
    (h : ∀ p, t.at_ p = (accounts.filter (·.place = p)).map (·.raftAgentId)) :
    ∀ id ∈ accounts.map (·.raftAgentId), ∃! p, id ∈ t.at_ p := by
  intro id hid
  obtain ⟨a, ha, rfl⟩ := List.mem_map.1 hid
  refine ⟨a.place, ?_, fun p hp => ?_⟩
  · show a.raftAgentId ∈ t.at_ a.place
    rw [h]
    exact List.mem_map_of_mem (List.mem_filter.2 ⟨ha, decide_eq_true rfl⟩)
  · have hp : a.raftAgentId ∈ t.at_ p := hp
    rw [h] at hp
    obtain ⟨b, hb, heq⟩ := List.mem_map.1 hp
    obtain ⟨hb, hplace⟩ := List.mem_filter.1 hb
    rw [← List.inj_on_of_nodup_map hids hb ha heq]
    exact (of_decide_eq_true hplace).symm

/-! ## The loop -/

section Loop

variable {k : Connector} {who : String} {acting : Acting} {luck : String → Luck}

/-- A binding that the agents' turns leave. -/
def leftBy (provider : String) (accounts : List Account) (c : ProvisionedConnection) : Bool :=
  !accounts.any fun a => a.unbound && (c.raftAgentId == a.raftAgentId && c.provider == provider)

/-- From one state of the loop to a later one, by the accounts between them. -/
structure Accounts (k : Connector) (who : String) (acting : Acting) (luck : String → Luck) (ids : List String) (s s' : Loop)
    (new : List Account) : Prop where
  accounts : s'.accounts = s.accounts ++ new
  ids : new.map (·.raftAgentId) = ids
  sound : ∀ a ∈ new, a.Sound k who (luck a.raftAgentId) (s.world.agent a.raftAgentId)
  tally : s'.tally = new.foldl Tally.push s.tally
  agents : s'.world.agents = s.world.agents
  connectors : s'.world.connectors = s.world.connectors
  connections : s'.world.connections = s.world.connections.filter (leftBy k.provider new)
  events : s'.world.events = s.world.events ++ new.map (unbindEvent k acting)

@[simp] theorem visited_agents (w : World) (id : String) (visits : List Visit) : (w.visited id visits).agents = w.agents := by
  unfold World.visited
  split <;> rfl

@[simp] theorem visited_connectors (w : World) (id : String) (visits : List Visit) :
    (w.visited id visits).connectors = w.connectors := by
  unfold World.visited
  split <;> rfl

@[simp] theorem visited_connections (w : World) (id : String) (visits : List Visit) :
    (w.visited id visits).connections = w.connections := by
  unfold World.visited
  split <;> rfl

@[simp] theorem visited_events (w : World) (id : String) (visits : List Visit) : (w.visited id visits).events = w.events := by
  unfold World.visited
  split <;> rfl

theorem visitAgent_spec {id : String} {s : Loop} (h : (s.world.agent id).isSome) :
    ∃ a, Accounts k who acting luck [id] s (visitAgent k who acting (luck id) id s) [a] := by
  obtain ⟨row, hrow⟩ := Option.isSome_iff_exists.1 h
  refine ⟨accountOf k who (luck id) id (s.world.agent id) s.world.objects, ?_⟩
  exact {
    accounts := rfl
    ids := by rw [List.map_singleton, accountOf_raftAgentId]
    sound := by
      intro a ha
      rw [List.mem_singleton.1 ha, accountOf_raftAgentId, hrow]
      exact accountOf_sound ..
    tally := rfl
    agents := by
      simp only [visitAgent, World.record]
      split <;> simp [World.unbind]
    connectors := by
      simp only [visitAgent, World.record]
      split <;> simp [World.unbind]
    connections := by
      simp only [visitAgent, World.record]
      split
      · rename_i hgone
        simp only [World.unbind, visited_connections, Table.delete]
        refine List.filter_congr fun c _ => ?_
        simp [leftBy, hgone, accountOf_raftAgentId]
      · rename_i hleft
        rw [visited_connections, List.filter_eq_self.2]
        intro c _
        simp [leftBy, hleft]
    events := by
      simp only [visitAgent, World.record, List.map_singleton]
      split <;> simp [World.unbind] }

theorem leftBy_append (provider : String) (accounts rest : List Account) (c : ProvisionedConnection) :
    leftBy provider (accounts ++ rest) c = (leftBy provider rest c && leftBy provider accounts c) := by
  rw [leftBy, List.any_append, Bool.not_or, Bool.and_comm]
  rfl

theorem Accounts.refl (s : Loop) : Accounts k who acting luck [] s s [] where
  accounts := (List.append_nil _).symm
  ids := rfl
  sound := by simp
  tally := rfl
  agents := rfl
  connectors := rfl
  connections := (List.filter_eq_self.2 fun _ _ => rfl).symm
  events := (List.append_nil _).symm

theorem Accounts.trans {ids ids' : List String} {s s' s'' : Loop} {new new' : List Account}
    (h : Accounts k who acting luck ids s s' new) (h' : Accounts k who acting luck ids' s' s'' new') :
    Accounts k who acting luck (ids ++ ids') s s'' (new ++ new') where
  accounts := by rw [h'.accounts, h.accounts, List.append_assoc]
  ids := by rw [List.map_append, h.ids, h'.ids]
  sound := by
    intro a ha
    rcases List.mem_append.1 ha with ha | ha
    · exact h.sound a ha
    · have hagent : s'.world.agent a.raftAgentId = s.world.agent a.raftAgentId := congrArg (Table.one _) h.agents
      rw [← hagent]
      exact h'.sound a ha
  tally := by rw [h'.tally, h.tally, List.foldl_append]
  agents := h'.agents.trans h.agents
  connectors := h'.connectors.trans h.connectors
  connections := by
    rw [h'.connections, h.connections, List.filter_filter]
    exact List.filter_congr fun c _ => (leftBy_append ..).symm
  events := by rw [h'.events, h.events, List.map_append, List.append_assoc]

theorem disconnectLoop_spec (k : Connector) (who : String) (acting : Acting) (luck : String → Luck) {ids : List String}
    (s : Loop) (h : ∀ id ∈ ids, (s.world.agent id).isSome) :
    ∃ new, Accounts k who acting luck ids s (disconnectLoop k who acting luck ids s) new := by
  induction ids generalizing s with
  | nil => exact ⟨[], .refl s⟩
  | cons id ids ih =>
    obtain ⟨a, ha⟩ := visitAgent_spec (h id List.mem_cons_self)
    obtain ⟨new, hnew⟩ := ih (visitAgent k who acting (luck id) id s) (fun id' hid' => by
      rw [World.agent, ha.agents]
      exact h id' (List.mem_cons_of_mem _ hid'))
    exact ⟨[a] ++ new, ha.trans hnew⟩

end Loop

/-! ## A call -/

/-- The connector of a call that is not refused before anything is done, and who asked. -/
def DisconnectCall.connector (c : DisconnectCall) (w : World) : Option (Connector × Acting) :=
  match c.acting with
  | .error _ => none
  | .ok acting => (w.ownConnector c.connectorId c.raftOrigin).bind fun k =>
      if (creatorRefused k acting).isSome then none else some (k, acting)

/-- What a call that is not refused gives, whatever its agents' turns meet. -/
structure Disconnection (c : DisconnectCall) (k : Connector) (acting : Acting) (w w' : World) (r : Report) : Prop where
  /-- One account of each bound agent, and one place for it in the tally. -/
  visited : r.accounts.map (·.raftAgentId) = w.boundTo k.id
  bound : (w.boundTo k.id).Nodup
  sound : ∀ a ∈ r.accounts, a.Sound k c.raftOrigin (c.luck a.raftAgentId) (w.agent a.raftAgentId)
  counted : ∀ p, r.tally.at_ p = (r.accounts.filter (·.place = p)).map (·.raftAgentId)
  once : ∀ id ∈ w.boundTo k.id, ∃! p, id ∈ r.tally.at_ p
  /-- One `unbind` event of each. -/
  told : ∃ more, w'.events = w.events ++ r.accounts.map (unbindEvent k acting) ++ more ∧ ∀ e ∈ more, e.action = "disconnect"
  agents : w'.agents = w.agents
  bindings : w'.connections = w.connections.filter (leftBy k.provider r.accounts)
  /-- Success: no agent's binding was kept, and the connector is gone. Else both stay, and the answer says what to do. -/
  answered :
    (∀ a ∈ r.accounts, a.bindingKept = false) ∧ r.response = .disconnected k.id r.tally.body ∧
      w'.connectors = (w.removeConnector k.id).connectors ∧ (∀ b ∈ w'.connections, b.connectorId ≠ some k.id) ∨
    (∃ a ∈ r.accounts, a.bindingKept = true) ∧ w'.connectors = w.connectors ∧
      ∃ n, r.response = .partially n r.tally.failed r.tally.body ∧ n.outcome = "not_cleared" ∧ n.retry = true ∧
        n.agents = r.tally.at_ .failed ∧ ∀ f ∈ r.tally.failed, f.action = "retry_delete"

section Call

variable {c : DisconnectCall} {w : World}

theorem disconnect_refused (h : c.connector w = none) : ∃ f, disconnect c w = ({ response := .fail f }, w) := by
  unfold DisconnectCall.connector at h
  unfold disconnect
  cases hact : c.acting with
  | error f => exact ⟨f, rfl⟩
  | ok acting =>
    simp only [hact] at h ⊢
    cases hk : w.ownConnector c.connectorId c.raftOrigin with
    | none => exact ⟨_, rfl⟩
    | some k =>
      simp only [hk, Option.bind_some] at h ⊢
      cases hf : creatorRefused k acting with
      | some f => exact ⟨f, rfl⟩
      | none => simp [hf] at h

theorem disconnect_loop {k : Connector} {acting : Acting} (h : c.connector w = some (k, acting)) :
    let s := disconnectLoop k c.raftOrigin acting c.luck (w.boundTo k.id) ⟨w, {}, []⟩
    (disconnect c w).1.tally = s.tally ∧ (disconnect c w).1.accounts = s.accounts ∧
    (if s.tally.failed ≠ [] ∨ s.tally.elsewhereFailed ≠ [] then
      (disconnect c w).2 = s.world ∧ ∃ n, (disconnect c w).1.response = .partially n s.tally.failed s.tally.body ∧
        n.outcome = "not_cleared" ∧ n.retry = true ∧ n.agents = s.tally.at_ .failed
    else
      (disconnect c w).1.response = .disconnected k.id s.tally.body ∧
        (disconnect c w).2 = (s.world.removeConnector k.id).record ⟨some k.id, none, none, "disconnect", acting, c.at_, none⟩) := by
  unfold DisconnectCall.connector at h
  unfold disconnect
  cases hact : c.acting with
  | error f => simp [hact] at h
  | ok acting' =>
    simp only [hact] at h ⊢
    cases hk : w.ownConnector c.connectorId c.raftOrigin with
    | none => simp [hk] at h
    | some k' =>
      simp only [hk, Option.bind_some] at h ⊢
      cases hf : creatorRefused k' acting' with
      | some f => simp [hf] at h
      | none =>
        simp only [hf, Option.isSome_none, Bool.false_eq_true, if_false] at h ⊢
        cases h
        split
        · exact ⟨rfl, rfl, rfl, _, rfl, rfl, rfl, rfl⟩
        · exact ⟨rfl, rfl, rfl, rfl⟩

theorem connector_found {k : Connector} {acting : Acting} (h : c.connector w = some (k, acting)) : w.connector k.id = some k := by
  unfold DisconnectCall.connector at h
  split at h
  · cases h
  · obtain ⟨k', hk', h⟩ := Option.bind_eq_some_iff.1 h
    split at h
    · cases h
    · cases h
      have hfound := (Option.filter_eq_some_iff.1 hk').1
      rwa [World.connector_id hfound]

theorem disconnect_disconnection (hw : w.Registered) {k : Connector} {acting : Acting} (h : c.connector w = some (k, acting)) :
    Disconnection c k acting w (disconnect c w).2 (disconnect c w).1 := by
  obtain ⟨htally, haccounts, hanswer⟩ := disconnect_loop h
  have hrows : ∀ id ∈ w.boundTo k.id, (w.agent id).isSome := by
    intro id hid
    obtain ⟨b, hb, -, rfl⟩ := World.Registered.mem_boundTo.1 hid
    exact hw.rows b hb
  obtain ⟨new, hnew⟩ := disconnectLoop_spec k c.raftOrigin acting c.luck ⟨w, {}, []⟩ hrows
  generalize disconnectLoop k c.raftOrigin acting c.luck (w.boundTo k.id) ⟨w, {}, []⟩ = s at *
  have hsame := htally
  have htally : (disconnect c w).1.tally = new.foldl Tally.push {} := htally.trans hnew.tally
  have haccounts : (disconnect c w).1.accounts = new := haccounts.trans hnew.accounts
  have hcounted : ∀ p, (disconnect c w).1.tally.at_ p =
      ((disconnect c w).1.accounts.filter (·.place = p)).map (·.raftAgentId) := by
    intro p
    rw [htally, haccounts, tally_at, empty_at, List.nil_append]
  have honce : ∀ id ∈ w.boundTo k.id, ∃! p, id ∈ (disconnect c w).1.tally.at_ p := by
    rw [← hnew.ids, ← haccounts]
    refine counted_once ?_ hcounted
    rw [haccounts, hnew.ids]
    exact hw.boundTo_nodup k.id
  have hkept := tally_kept new
  rw [← htally] at hkept
  by_cases hfailed : s.tally.failed ≠ [] ∨ s.tally.elsewhereFailed ≠ []
  · rw [if_pos hfailed] at hanswer
    obtain ⟨hw', n, hresponse, houtcome, hretry, hagents⟩ := hanswer
    exact {
      visited := by rw [haccounts, hnew.ids]
      bound := hw.boundTo_nodup k.id
      sound := by
        rw [haccounts]
        exact hnew.sound
      counted := hcounted
      once := honce
      told := by
        rw [hw', haccounts]
        exact ⟨[], by rw [hnew.events, List.append_nil], by simp⟩
      agents := by rw [hw', hnew.agents]
      bindings := by rw [hw', haccounts, hnew.connections]
      answered := by
        refine .inr ⟨?_, by rw [hw', hnew.connectors], n, ?_, houtcome, hretry, hagents.trans (congrArg (·.at_ .failed) hsame.symm), ?_⟩
        · rw [haccounts]
          exact hkept.1 (hsame ▸ hfailed)
        · rw [hresponse, hsame]
        · rw [htally]
          exact tally_failed new (by simp) }
  · rw [if_neg hfailed] at hanswer
    obtain ⟨hresponse, hw'⟩ := hanswer
    have hgone : ∀ a ∈ new, a.bindingKept = false := by
      intro a ha
      by_contra hne
      exact hfailed (hsame ▸ hkept.2 ⟨a, ha, Bool.eq_true_of_not_eq_false hne⟩)
    exact {
      visited := by rw [haccounts, hnew.ids]
      bound := hw.boundTo_nodup k.id
      sound := by
        rw [haccounts]
        exact hnew.sound
      counted := hcounted
      once := honce
      told := by
        rw [hw', haccounts]
        refine ⟨[⟨some k.id, none, none, "disconnect", acting, c.at_, none⟩], ?_, by simp⟩
        show s.world.events ++ _ = _
        rw [hnew.events]
      agents := by
        rw [hw']
        exact hnew.agents
      bindings := by
        rw [hw', haccounts]
        exact hnew.connections
      answered := by
        refine .inl ⟨by rwa [haccounts], by rw [hresponse, hsame], ?_, ?_⟩
        · rw [hw']
          exact congrArg (Table.delete _) hnew.connectors
        · rw [hw']
          intro b hb hbk
          have hb : b ∈ s.world.connections := hb
          rw [hnew.connections, List.mem_filter] at hb
          obtain ⟨hb, hleft⟩ := hb
          have hid : b.raftAgentId ∈ w.boundTo k.id := World.Registered.mem_boundTo.2 ⟨b, hb, hbk, rfl⟩
          rw [← hnew.ids] at hid
          obtain ⟨a, ha, hab⟩ := List.mem_map.1 hid
          obtain ⟨k', hk', hprovider⟩ := hw.whole b hb k.id hbk
          rw [connector_found h] at hk'
          cases hk'
          rw [leftBy, Bool.not_eq_true', List.any_eq_false] at hleft
          exact hleft a ha (by simp [(hnew.sound a ha).gone (hgone a ha), hab, hprovider]) }

end Call

end Antiproton.Connect
