import Antiproton.Agents.ModelPick

/-!
# Antiproton.Agents.ReadBack

An agent read from the agents API and sent back as it was answered.

* `parse_answered`: what an update reads from the object answered.
* `create_metadata`: what a create makes of accepted metadata.
* `locked_echo`, `pick_runs`: what is accepted as a model, and what runs after it.
* `read_back`: sending back changes nothing, unless the metadata has a key `ok`.
-/

namespace Antiproton
namespace Agents
namespace Settings

open Js

/-! ## Metadata and tools -/

/-- Settings as they are accepted. -/
structure StoredAgent.Valid (a : StoredAgent) : Prop where
  keys : a.metadata.length ≤ 16
  entries : ∀ f ∈ a.metadata, f.1.length ≤ 64 ∧ f.2.length ≤ 512
  tools : ∀ t ∈ a.tools, isToolName t.name = true

section Parts

variable {metadata : List (Str × Str)} {entries : Fields} {tools : List FunctionTool} {i : Nat} {t : FunctionTool}

theorem metadataEntries_map (h : ∀ f ∈ metadata, f.1.length ≤ 64 ∧ f.2.length ≤ 512) :
    metadataEntries (metadata.map fun f => (f.1, .str f.2)) = .fields metadata := by
  induction metadata with
  | nil => rfl
  | cons f rest ih =>
    obtain ⟨k, v⟩ := f
    obtain ⟨hk, hv⟩ := h (k, v) List.mem_cons_self
    have hrest := ih fun f hf => h f (List.mem_cons_of_mem _ hf)
    dsimp only at hk hv
    rw [List.map_cons, metadataEntries]
    dsimp only
    rw [if_neg (by omega), hrest]

theorem metadataOf_json (hlength : metadata.length ≤ 16) (h : ∀ f ∈ metadata, f.1.length ≤ 64 ∧ f.2.length ≤ 512) :
    metadataOf (some (metadataJson metadata)) = .fields metadata := by
  rw [metadataJson, metadataOf, List.length_map, if_neg (by omega), metadataEntries_map h]

/-- What is accepted is given back as it was sent. -/
theorem metadataEntries_json (h : metadataEntries entries = .fields metadata) : metadataJson metadata = .obj entries := by
  induction entries generalizing metadata with
  | nil =>
    cases h
    rfl
  | cons f rest ih =>
    obtain ⟨k, v⟩ := f
    unfold metadataEntries at h
    cases v with
    | str val =>
      dsimp only at h
      split at h
      · cases h
      · cases hrest : metadataEntries rest with
        | fields fields =>
          rw [hrest] at h
          cases h
          have hjson := ih hrest
          rw [metadataJson, Json.obj.injEq] at hjson ⊢
          rw [List.map_cons, hjson]
        | refused refusal =>
          rw [hrest] at h
          cases h
    | _ => cases h

theorem metadataOf_obj (h : metadataOf (some (.obj entries)) = .fields metadata) : metadataJson metadata = .obj entries := by
  unfold metadataOf at h
  dsimp only at h
  split at h
  · cases h
  · exact metadataEntries_json h

theorem toolOf_json (h : isToolName t.name = true) : toolOf i t.json = .ok t := by
  obtain ⟨name, description, parameters⟩ := t
  dsimp only at h
  simp [FunctionTool.json, toolOf, get, field_js, h]

theorem toolEntries_json (h : ∀ t ∈ tools, isToolName t.name = true) : toolEntries i (tools.map (·.json)) = .ok tools := by
  induction tools generalizing i with
  | nil => rfl
  | cons t rest ih =>
    have hrest := ih (i := i + 1) fun t ht => h t (List.mem_cons_of_mem _ ht)
    rw [List.map_cons, toolEntries, toolOf_json (h t List.mem_cons_self)]
    dsimp only
    rw [hrest]
    rfl

end Parts

/-! ## The object answered -/

section Answered

variable {a : StoredAgent} {id : Str} {now : Int} {b : Fields}

theorem textRefused_optional {f : String} {s : Option Str} (h : get b f = some (optional s)) : textRefused b f = none := by
  unfold textRefused
  rw [h]
  cases s with
  | _ => rfl

theorem pick_optional {f : String} {s before : Option Str} (h : get b f = some (optional s)) : pick b f before = s := by
  unfold pick
  rw [h]
  cases s with
  | _ => rfl

/-- The settings answered are those that mean "off" or "default". -/
theorem settings_answered (id : Str) (a : StoredAgent) : settingsRefused (openAIFields id a) .update = none := by
  have hname : textRefused (openAIFields id a) "name" = none := textRefused_optional (s := a.name) rfl
  have hinstructions : textRefused (openAIFields id a) "instructions" = none := textRefused_optional (s := a.instructions) rfl
  have hmodel : modelRefused (openAIFields id a) .update = none := rfl
  have hagents : multiAgentRefused (openAIFields id a) = none := rfl
  have hreasoning : reasoningRefused (openAIFields id a) = none := rfl
  have htier : tierRefused (openAIFields id a) = none := rfl
  have houtput : outputRefused (openAIFields id a) = none := rfl
  rw [settingsRefused, hname, hinstructions, hmodel, hagents, hreasoning, htier, houtput]
  rfl

/-- An update with the object answered reads the agent again, the model as it was answered. -/
theorem parse_answered (h : a.Valid) (id model : Str) (now : Int) :
    parseAgentParams (toOpenAIAgent id { a with model := model }) .update (some a) now =
      if hasOk a.metadata then .metadata a.metadata else .value { a with model := model, updatedAt := now } := by
  have hmetadata : metadataFor (openAIFields id { a with model := model }) (some a) = .fields a.metadata :=
    metadataOf_json h.keys h.entries
  have htools : toolsFor (openAIFields id { a with model := model }) (some a) = .ok a.tools := toolEntries_json h.tools
  have hname : pick (openAIFields id { a with model := model }) "name" a.name = a.name := pick_optional (s := a.name) rfl
  have hinstructions : pick (openAIFields id { a with model := model }) "instructions" a.instructions = a.instructions :=
    pick_optional (s := a.instructions) rfl
  have hmodel : pick (openAIFields id { a with model := model }) "model" (some a.model) = some model :=
    pick_optional (s := some model) rfl
  rw [toOpenAIAgent, parseAgentParams]
  dsimp only [Option.map_some, Option.bind_some, Option.getD_some]
  rw [settings_answered, hmetadata, htools, hname, hinstructions, hmodel]
  rfl

/-! ## A create -/

theorem get_append (b entries : Fields) (name : String) (h : name ≠ "metadata") :
    get (b ++ [(js "metadata", .obj entries)]) name = get b name := by
  rw [get, field_append, field_js, if_neg (Ne.symm h), field_nil, Option.or_none]
  rfl

theorem settings_append (entries : Fields) (mode : Mode) :
    settingsRefused (b ++ [(js "metadata", .obj entries)]) mode = settingsRefused b mode := by
  have hget := get_append b entries
  unfold settingsRefused modelRefused textRefused multiAgentRefused reasoningRefused tierRefused outputRefused
  simp only [hget "model" (by decide), hget "name" (by decide), hget "instructions" (by decide), hget "multi_agent" (by decide),
    hget "reasoning" (by decide), hget "service_tier" (by decide), hget "text" (by decide)]

/-- A create takes accepted metadata as it is sent, unless it has a key `ok`. -/
theorem create_metadata {entries : Fields} {metadata : List (Str × Str)} (hnone : get b "metadata" = none)
    (h : metadataOf (some (.obj entries)) = .fields metadata) (hagent : parseAgentParams (.obj b) .create none now = .value a) :
    parseAgentParams (.obj (b ++ [(js "metadata", .obj entries)])) .create none now =
      if hasOk metadata then .metadata metadata else .value { a with metadata := metadata } := by
  have hget := get_append b entries
  have hmetadata : metadataFor (b ++ [(js "metadata", .obj entries)]) none = .fields metadata := by
    have hlast : get (b ++ [(js "metadata", .obj entries)]) "metadata" = some (.obj entries) := by
      rw [get] at hnone
      rw [get, field_append, hnone, field_js, if_pos rfl]
      rfl
    rw [metadataFor, hlast, h]
  have htools : toolsFor (b ++ [(js "metadata", .obj entries)]) none = toolsFor b none := by
    rw [toolsFor, hget "tools" (by decide)]
    rfl
  have hpick : ∀ name before, name ≠ "metadata" → pick (b ++ [(js "metadata", .obj entries)]) name before = pick b name before := by
    intro name before hname
    unfold pick
    rw [hget name hname]
  unfold parseAgentParams at hagent ⊢
  dsimp only at hagent ⊢
  rw [settings_append, hmetadata, htools, hpick "model" _ (by decide), hpick "name" _ (by decide),
    hpick "instructions" _ (by decide)]
  split at hagent
  · cases hagent
  · rename_i hsettings
    dsimp only
    have hempty : metadataFor b none = .fields [] := by
      rw [metadataFor, hnone]
      rfl
    rw [hempty] at hagent
    dsimp only at hagent
    rw [if_neg (show ¬ hasOk [] = true from nofun)] at hagent
    split
    · rfl
    · split at hagent
      · cases hagent
      · cases hagent
        rfl

end Answered

/-! ## Models -/

section Models

variable {layers : ModelLayers} {um : UserModels} {defaultModel requested param : Str} {previous : Option Str} {plan : Plan}
  {choiceId : Str}

/-- The name answered, sent back, writes nothing. -/
theorem plan_echo (layers : ModelLayers) (um : UserModels) (defaultModel param : Str) (previous : Option Str) :
    planModel layers um defaultModel (effectiveModel layers um defaultModel) param previous =
      .ok ⟨previous.getD (js "default"), .nothing⟩ := if_pos rfl

/-- Under an administrator's agent or tenant row nothing but an echo is accepted. -/
theorem locked_echo (hlocked : (layers.agent.or layers.tenant).isSome = true)
    (h : planModel layers um defaultModel requested param previous = .ok plan) :
    (requested = effectiveModel layers um defaultModel ∨ isLegacyEcho um requested previous = true) ∧
      plan = ⟨previous.getD (js "default"), .nothing⟩ := by
  unfold planModel at h
  dsimp only at h
  split at h
  · rename_i hecho
    exact ⟨.inl hecho, (Except.ok.inj h).symm⟩
  split at h
  · rename_i hecho
    exact ⟨.inr hecho, (Except.ok.inj h).symm⟩
  · have hnow : (resolveModel layers um defaultModel).locked = true := by
      obtain ⟨admin, hadmin⟩ := Option.isSome_iff_exists.1 hlocked
      rw [resolveModel, hadmin]
    rw [if_pos hnow] at h
    cases h

/-- An option is the one of its id. -/
theorem find_id {o : UserModel} (h : o ∈ um.offered) : um.offered.find? (·.id == o.id) = some o := by
  obtain ⟨offered, distinct⟩ := um
  dsimp only at h ⊢
  induction offered with
  | nil => cases h
  | cons p rest ih =>
    rw [List.map_cons, List.nodup_cons] at distinct
    rcases List.mem_cons.1 h with rfl | h
    · exact List.find?_cons_of_pos (beq_self_eq_true _)
    · have hne : p.id ≠ o.id := fun heq => distinct.1 (heq ▸ List.mem_map_of_mem h)
      rw [List.find?_cons_of_neg (by rwa [beq_iff_eq]), ih distinct.2 h]

/-- After a pick is accepted the agent runs on the option accepted. -/
theorem pick_runs (h : planModel layers um defaultModel requested param previous = .ok plan) (hput : plan.write = .put choiceId) :
    ∃ o ∈ um.offered, o.id = choiceId ∧ (o.id = requested ∨ pathOf o.provider o.model = requested) ∧
      (resolveModel (plan.write.apply layers) um defaultModel).choice = ⟨o.provider, o.model⟩ ∧
      effectiveModel (plan.write.apply layers) um defaultModel = modelName ⟨o.provider, o.model⟩ um := by
  unfold planModel at h
  dsimp only at h
  split at h
  · cases h
    cases hput
  split at h
  · cases h
    cases hput
  split at h
  · cases h
  rename_i hlocked
  split at h
  · cases h
    cases hput
  split at h
  · rename_i o hoffered
    cases h
    cases hput
    have hmem := List.mem_of_find?_eq_some hoffered
    have hname := List.find?_some hoffered
    rw [Bool.or_eq_true, beq_iff_eq, beq_iff_eq] at hname
    have hrow : layers.agent.or layers.tenant = none := by
      cases hrow : layers.agent.or layers.tenant with
      | none => rfl
      | some admin =>
        rw [resolveModel, hrow] at hlocked
        exact absurd rfl hlocked
    have hchoice : (resolveModel ((Write.put o.id).apply layers) um defaultModel).choice = ⟨o.provider, o.model⟩ := by
      rw [resolveModel, Write.apply]
      dsimp only [Option.bind_some]
      rw [hrow, find_id hmem]
    exact ⟨o, hmem, rfl, hname, hchoice, by rw [effectiveModel, hchoice]⟩
  · cases h

end Models

/-- Sending back the object answered changes nothing, unless the metadata has a key `ok`; a create takes accepted metadata as
it is, unless it has that key; under an administrator's row nothing but an echo is accepted; and an accepted pick runs. -/
theorem read_back (layers : ModelLayers) (um : UserModels) (defaultModel : Str) :
    (∀ (a : StoredAgent) (id : Str) (now : Int), a.Valid →
      ((parseAgentParams (toOpenAIAgent id (shown layers um defaultModel a)) .update (some a) now =
          .value { shown layers um defaultModel a with updatedAt := now } ∧
        updateAgent layers um defaultModel (toOpenAIAgent id (shown layers um defaultModel a)) a now =
          some ({ a with updatedAt := now }, .nothing)) ↔ hasOk a.metadata = false) ∧
      ∀ param, planModel layers um defaultModel (effectiveModel layers um defaultModel) param (some a.model) =
        .ok ⟨a.model, .nothing⟩) ∧
    (∀ (b entries : Fields) (metadata : List (Str × Str)) (a : StoredAgent) (now : Int), get b "metadata" = none →
      metadataOf (some (.obj entries)) = .fields metadata → parseAgentParams (.obj b) .create none now = .value a →
      ((∃ next, parseAgentParams (.obj (b ++ [(js "metadata", .obj entries)])) .create none now = .value next ∧
        ∀ id, (toOpenAIAgent id next).field? (js "metadata") = some (.obj entries)) ↔ hasOk metadata = false)) ∧
    (∀ requested param previous plan, (layers.agent.or layers.tenant).isSome = true →
      planModel layers um defaultModel requested param previous = .ok plan →
      (requested = effectiveModel layers um defaultModel ∨ isLegacyEcho um requested previous = true) ∧
        plan = ⟨previous.getD (js "default"), .nothing⟩) ∧
    ∀ requested param previous plan choiceId, planModel layers um defaultModel requested param previous = .ok plan →
      plan.write = .put choiceId →
      ∃ o ∈ um.offered, o.id = choiceId ∧ (o.id = requested ∨ pathOf o.provider o.model = requested) ∧
        (resolveModel (plan.write.apply layers) um defaultModel).choice = ⟨o.provider, o.model⟩ ∧
        effectiveModel (plan.write.apply layers) um defaultModel = modelName ⟨o.provider, o.model⟩ um := by
  refine ⟨fun a id now hvalid => ⟨?_, fun param => plan_echo _ _ _ _ _⟩, ?_, fun _ _ _ _ => locked_echo, fun _ _ _ _ _ => pick_runs⟩
  · have hparse := parse_answered hvalid id (effectiveModel layers um defaultModel) now
    cases hok : hasOk a.metadata with
    | true =>
      rw [hok, if_pos rfl] at hparse
      refine iff_of_false (fun h => ?_) nofun
      rw [shown, hparse] at h
      cases h.1
    | false =>
      rw [hok, if_neg Bool.false_ne_true] at hparse
      refine iff_of_true ⟨hparse, ?_⟩ rfl
      have hfield : (toOpenAIAgent id (shown layers um defaultModel a)).field? (js "model") =
          some (.str (effectiveModel layers um defaultModel)) := rfl
      rw [updateAgent, hfield, shown, hparse]
      dsimp only
      rw [plan_echo]
      rfl
  · intro b entries metadata a now hnone hmetadata hagent
    rw [create_metadata hnone hmetadata hagent]
    cases hok : hasOk metadata with
    | true =>
      refine iff_of_false ?_ nofun
      rintro ⟨next, hnext, -⟩
      cases hnext
    | false =>
      refine iff_of_true ⟨_, rfl, fun id => ?_⟩ rfl
      have hfield : (toOpenAIAgent id { a with metadata := metadata }).field? (js "metadata") = some (metadataJson metadata) := rfl
      rw [hfield, metadataOf_obj hmetadata]

/-- An agent whose metadata has a key `ok`. -/
def marked : StoredAgent := ⟨none, none, js "default", [(js "ok", js "yes")], [], 0, 0⟩

/-- No option and no row. -/
theorem marked_refused : marked.Valid ∧ ∃ fields, parseAgentParams
    (toOpenAIAgent (js "agent_1") (shown ⟨none, none, none, none⟩ ⟨[], List.nodup_nil⟩ (js "deepseek-chat") marked)) .update
      (some marked) 1 = .metadata fields := by
  have hvalid : marked.Valid := by
    refine ⟨by decide, ?_, nofun⟩
    intro f hf
    rw [List.mem_singleton.1 hf]
    decide
  refine ⟨hvalid, [(js "ok", js "yes")], ?_⟩
  rw [shown, parse_answered hvalid]
  rfl

end Settings
end Agents
end Antiproton
