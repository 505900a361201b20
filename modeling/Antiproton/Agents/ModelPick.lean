import Antiproton.Agents.Settings

/-!
# Antiproton.Agents.ModelPick

The `model` of an agent of the agents API (`cf/src/agents-api/model.ts`, `cf/src/model-request.ts`): what the agent's next
turn runs on, and what a name sent for it writes.

* `resolveModel`: the model, from every scope that may decide it.
* `planModel`: what accepting a name writes, or why it is refused.
* `updateAgent`: an update of an agent (`cf/src/agents-api/handlers.ts`).
-/

namespace Antiproton
namespace Agents
namespace Settings

open Js

/-! ## Options -/

structure UserModel where
  id : Str
  label : Str
  provider : Str
  model : Str
deriving DecidableEq

/-- The options a deployment offers: no id is declared twice (`parseUserModels`). -/
structure UserModels where
  offered : List UserModel
  distinct : (offered.map (·.id)).Nodup

structure ModelChoice where
  provider : Str
  model : Str
deriving DecidableEq

def optionFor (um : UserModels) (choice : ModelChoice) : Option UserModel :=
  um.offered.find? fun o => o.provider == choice.provider && o.model == choice.model

/-! ## What runs -/

def DEFAULT_PROVIDER : Str := js "deepseek"

structure Chosen where
  provider : Option Str
  model : Str

/-- `ModelLayers`. -/
structure ModelLayers where
  agent : Option Chosen
  tenant : Option Chosen
  deployment : Option Chosen
  owner : Option Str

inductive ModelSource where
  | admin
  | owner
  | default

structure Resolved where
  choice : ModelChoice
  source : ModelSource
  locked : Bool
  selected : Option UserModel

def choiceOf (chosen : Option Chosen) (defaultModel : Str) : ModelChoice :=
  ⟨(chosen.bind (·.provider)).getD DEFAULT_PROVIDER, (chosen.map (·.model)).getD defaultModel⟩

def resolveModel (layers : ModelLayers) (userModels : UserModels) (defaultModel : Str) : Resolved :=
  let selected := layers.owner.bind fun owner => userModels.offered.find? (·.id == owner)
  match layers.agent.or layers.tenant with
  | some admin => ⟨choiceOf (some admin) defaultModel, .admin, true, selected⟩
  | none =>
    match selected with
    | some o => ⟨⟨o.provider, o.model⟩, .owner, false, selected⟩
    | none =>
      match layers.deployment with
      | some deployment => ⟨choiceOf (some deployment) defaultModel, .admin, false, selected⟩
      | none => ⟨choiceOf none defaultModel, .default, false, selected⟩

/-! ## The name -/

/-- `<provider>/<model>`. -/
def pathOf (provider model : Str) : Str := provider ++ js "/" ++ model

def modelName (choice : ModelChoice) (um : UserModels) : Str :=
  match optionFor um choice with
  | some o => o.id
  | none => pathOf choice.provider choice.model

def effectiveModel (layers : ModelLayers) (um : UserModels) (defaultModel : Str) : Str :=
  modelName (resolveModel layers um defaultModel).choice um

def offeredBy (um : UserModels) (name : Str) : Option UserModel :=
  um.offered.find? fun o => o.id == name || pathOf o.provider o.model == name

/-- What `apply` does to the owner's pick. -/
inductive Write where
  | nothing
  | remove
  | put (choiceId : Str)
deriving DecidableEq

def Write.apply : Write → ModelLayers → ModelLayers
  | nothing, layers => layers
  | remove, layers => { layers with owner := none }
  | put choiceId, layers => { layers with owner := some choiceId }

structure Plan where
  stored : Str
  write : Write
deriving DecidableEq

/-- A record from before `model` was the owner's pick, sent back. -/
def isLegacyEcho (um : UserModels) (requested : Str) (previous : Option Str) : Bool :=
  match previous with
  | some p => requested == p && p != js "default" && (offeredBy um p).isNone
  | none => false

def planModel (layers : ModelLayers) (um : UserModels) (defaultModel requested param : Str) (previous : Option Str) :
    Except Refusal Plan :=
  let now := resolveModel layers um defaultModel
  let unchanged := Except.ok ⟨previous.getD (js "default"), .nothing⟩
  if requested = modelName now.choice um then unchanged
  else if isLegacyEcho um requested previous then unchanged
  else if now.locked then
    .error ⟨409, js "An administrator has set this agent's model to " ++ quote (modelName now.choice um) ++
      js ", so the model cannot be changed; send that name, or leave model out", param, "model_locked"⟩
  else if requested = js "default" then .ok ⟨js "default", .remove⟩
  else
    match offeredBy um requested with
    | some option => .ok ⟨option.id, .put option.id⟩
    | none =>
      .error ⟨400, js "The model " ++ quote (requested.take 100) ++ js " is not offered by this deployment; choose one of " ++
        join (js ", ") ((js "default" :: um.offered.map (·.id)).map quote), param, "model_not_found"⟩

/-! ## An update -/

/-- `shown`: the agent as the API answers it. -/
def shown (layers : ModelLayers) (um : UserModels) (defaultModel : Str) (a : StoredAgent) : StoredAgent :=
  { a with model := effectiveModel layers um defaultModel }

/-- What an update keeps and what it writes of the owner's pick; none where no agent was parsed. -/
def updateAgent (layers : ModelLayers) (um : UserModels) (defaultModel : Str) (body : Json) (a : StoredAgent) (now : Int) :
    Option (StoredAgent × Write) :=
  match parseAgentParams body .update (some a) now with
  | .value next =>
    if (body.field? (js "model")).isSome then
      match planModel layers um defaultModel next.model (js "model") (some a.model) with
      | .ok plan => some ({ next with model := plan.stored }, plan.write)
      | .error _ => none
    else some (next, .nothing)
  | _ => none

end Settings
end Agents
end Antiproton
