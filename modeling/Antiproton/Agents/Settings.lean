import Antiproton.Core.JsonParse

/-!
# Antiproton.Agents.Settings

An agent of the agents API: what is kept for it, the object it is answered as, and the body of a create or an update
(`cf/src/agents-api/shapes.ts`).

* `parseAgentParams`: a body, checked field by field.
* `toOpenAIAgent`: the object answered.
-/

namespace Antiproton
namespace Agents
namespace Settings

open Js

abbrev Fields := List (Str × Json)

/-- A field of an object, by the name a program writes. -/
def get (fields : Fields) (name : String) : Option Json := (Json.obj fields).field? (js name)

/-- A refusal that names the parameter. -/
structure Refusal where
  status : Nat
  message : Str
  param : Str
  code : String
deriving DecidableEq

def invalid (param message : Str) : Refusal := ⟨400, message, param, "invalid_value"⟩

def unsupported (param what : Str) : Refusal :=
  ⟨400, param ++ js ": " ++ what ++ js " is not supported by this deployment", param, "unsupported_parameter"⟩

/-! ## Kept -/

structure FunctionTool where
  name : Str
  description : Str
  parameters : Fields

structure StoredAgent where
  name : Option Str
  instructions : Option Str
  model : Str
  metadata : List (Str × Str)
  tools : List FunctionTool
  createdAt : Int
  updatedAt : Int

/-! ## Read -/

/-- `undefined` and `null` alike. -/
def isAbsent : Option Json → Bool
  | none | some .null => true
  | _ => false

/-- The text of `JSON.stringify`, where `undefined` has none. -/
def stringified : Option Json → Str
  | none => js "undefined"
  | some v => v.stringify

/-- What `metadataOf` gives: the metadata, or a refusal. -/
inductive Metadata where
  | fields (fields : List (Str × Str))
  | refused (refusal : Refusal)

/-- The loop over the metadata's entries. -/
def metadataEntries : Fields → Metadata
  | [] => .fields []
  | (k, v) :: rest =>
    match v with
    | .str val =>
      if 64 < k.length ∨ 512 < val.length then
        .refused (invalid (js "metadata." ++ k) (js "metadata keys are at most 64 characters and values at most 512"))
      else
        match metadataEntries rest with
        | .fields fields => .fields ((k, val) :: fields)
        | .refused refusal => .refused refusal
    | _ => .refused (invalid (js "metadata." ++ k) (js "metadata values must be strings"))

def metadataOf : Option Json → Metadata
  | none | some .null => .fields []
  | some (.obj entries) =>
    if 16 < entries.length then .refused (invalid (js "metadata") (js "metadata may have at most 16 keys"))
    else metadataEntries entries
  | _ => .refused (invalid (js "metadata") (js "metadata must be an object of strings"))

/-- A letter, a digit, `_` or `-`. -/
def isNameUnit (u : UInt16) : Bool :=
  (0x41 ≤ u && u ≤ 0x5A) || (0x61 ≤ u && u ≤ 0x7A) || isDigit u || u == unit '_' || u == unit '-'

def isToolName (name : Str) : Bool := 1 ≤ name.length && name.length ≤ 64 && name.all isNameUnit

/-- `tools[i]`, and a field of it. -/
def toolAt (i : Nat) (field : String) : Str := js "tools[" ++ js (toString i) ++ js "]" ++ js field

def toolOf (i : Nat) : Json → Except Refusal FunctionTool
  | .obj t =>
    if get t "type" ≠ some (.ofString "function") then
      .error (unsupported (toolAt i ".type") (js "the tool type " ++ stringified (get t "type")))
    else
      match get t "name" with
      | some (.str name) =>
        if ¬ isToolName name then
          .error (invalid (toolAt i ".name") (js "a function tool needs a name of letters, digits, _ or -"))
        else if get t "defer_loading" = some (.bool true) then
          .error (unsupported (toolAt i ".defer_loading") (js "deferred tool loading"))
        else
          match get t "description" with
          | some (.str description) =>
            match get t "parameters" with
            | some (.obj parameters) => .ok ⟨name, description, parameters⟩
            | _ => .error (invalid (toolAt i ".parameters") (js "a function tool needs parameters: a JSON Schema object"))
          | _ => .error (invalid (toolAt i ".description") (js "a function tool needs a description string"))
      | _ => .error (invalid (toolAt i ".name") (js "a function tool needs a name of letters, digits, _ or -"))
  | _ => .error (invalid (toolAt i "") (js "each tool must be an object"))

/-- The loop over the tools, from index `i` on. -/
def toolEntries (i : Nat) : List Json → Except Refusal (List FunctionTool)
  | [] => .ok []
  | t :: rest =>
    match toolOf i t with
    | .error refusal => .error refusal
    | .ok tool => (toolEntries (i + 1) rest).map (tool :: ·)

def toolsOf : Option Json → Except Refusal (List FunctionTool)
  | none | some .null => .ok []
  | some (.arr tools) => toolEntries 0 tools
  | _ => .error (invalid (js "tools") (js "tools must be an array"))

inductive Mode where
  | create
  | update
deriving DecidableEq

def isText : Option Json → Bool
  | some (.str _) => true
  | _ => false

def modelRefused (b : Fields) (mode : Mode) : Option Refusal :=
  if mode = .create ∧ (¬ isText (get b "model") ∨ get b "model" = some (.str [])) then
    some (invalid (js "model") (js "model is required"))
  else if get b "model" ≠ none ∧ ¬ isText (get b "model") then some (invalid (js "model") (js "model must be a string"))
  else none

/-- `name` and `instructions`. -/
def textRefused (b : Fields) (f : String) : Option Refusal :=
  if ¬ isAbsent (get b f) ∧ ¬ isText (get b f) then some (invalid (js f) (js f ++ js " must be a string or null")) else none

def multiAgentRefused (b : Fields) : Option Refusal :=
  let refusal := some (unsupported (js "multi_agent") (js "running subagents"))
  match get b "multi_agent" with
  | none | some .null => none
  | some (.obj ma) => if get ma "enabled" = some (.bool false) then none else refusal
  | _ => refusal

def reasoningRefused (b : Fields) : Option Refusal :=
  let refusal := some (unsupported (js "reasoning") (js "choosing reasoning effort or summaries"))
  match get b "reasoning" with
  | none | some .null => none
  | some (.obj r) => if isAbsent (get r "effort") ∧ isAbsent (get r "summary") then none else refusal
  | _ => refusal

def tierRefused (b : Fields) : Option Refusal :=
  let tier := get b "service_tier"
  if ¬ isAbsent tier ∧ tier ≠ some (.ofString "auto") ∧ tier ≠ some (.ofString "default") then
    some (unsupported (js "service_tier") (js "the service tier " ++ stringified tier))
  else none

def formatRefused (t : Fields) : Bool :=
  match get t "format" with
  | none | some .null => false
  | some (.obj fmt) => get fmt "type" ≠ some (.ofString "text")
  | _ => true

def outputRefused (b : Fields) : Option Refusal :=
  let refusal := some (unsupported (js "text.format") (js "structured output formats"))
  match get b "text" with
  | none | some .null => none
  | some (.obj t) =>
    if formatRefused t then refusal
    else if ¬ isAbsent (get t "verbosity") ∧ get t "verbosity" ≠ some (.ofString "medium") then
      some (unsupported (js "text.verbosity") (js "verbosity other than medium"))
    else none
  | _ => refusal

/-- The checks before the metadata's, in their order. -/
def settingsRefused (b : Fields) (mode : Mode) : Option Refusal :=
  (modelRefused b mode).or <| (textRefused b "name").or <| (textRefused b "instructions").or <|
    (multiAgentRefused b).or <| (reasoningRefused b).or <| (tierRefused b).or (outputRefused b)

/-- What `parseAgentParams` gives: an agent, a refusal, or the metadata itself, taken for a refusal by its key `ok`. -/
inductive Parsed where
  | value (agent : StoredAgent)
  | refused (refusal : Refusal)
  | metadata (fields : List (Str × Str))

/-- `b[k]` where it is given, and else the value before. -/
def pick (b : Fields) (k : String) (prior : Option Str) : Option Str :=
  match get b k with
  | none => prior
  | some (.str s) => some s
  | some _ => none

/-- `"ok" in metadata`. -/
def hasOk (fields : List (Str × Str)) : Bool := fields.any (·.1 == js "ok")

/-- The metadata of a body: what is kept, where it gives none. -/
def metadataFor (b : Fields) : Option StoredAgent → Metadata
  | none => metadataOf (get b "metadata")
  | some prior => if get b "metadata" = none then .fields prior.metadata else metadataOf (get b "metadata")

def toolsFor (b : Fields) : Option StoredAgent → Except Refusal (List FunctionTool)
  | none => toolsOf (get b "tools")
  | some prior => if get b "tools" = none then .ok prior.tools else toolsOf (get b "tools")

/-- An update has an agent before it, whose model is kept where the body gives none. -/
def parseAgentParams (body : Json) (mode : Mode) (prior : Option StoredAgent) (now : Int) : Parsed :=
  match body with
  | .obj b =>
    match settingsRefused b mode with
    | some refusal => .refused refusal
    | none =>
      match metadataFor b prior with
      | .refused refusal => .refused refusal
      | .fields metadata =>
        if hasOk metadata then .metadata metadata
        else
          match toolsFor b prior with
          | .error refusal => .refused refusal
          | .ok tools =>
            .value {
              model := (pick b "model" (prior.map (·.model))).getD []
              name := pick b "name" (prior.bind (·.name))
              instructions := pick b "instructions" (prior.bind (·.instructions))
              metadata := metadata
              tools := tools
              createdAt := (prior.map (·.createdAt)).getD now
              updatedAt := now }
  | _ => .refused (invalid (js "body") (js "the request body must be a JSON object"))

/-! ## Answered -/

def optional : Option Str → Json
  | none => .null
  | some s => .str s

/-- `seconds`. -/
def seconds (ms : Int) : Json := .num (decimal (ms / 1000))

def FunctionTool.json (t : FunctionTool) : Json :=
  .obj [(js "defer_loading", .bool false), (js "description", .str t.description), (js "name", .str t.name),
    (js "parameters", .obj t.parameters), (js "type", .ofString "function")]

def agentSettings (id : Str) (a : StoredAgent) : Fields :=
  [(js "id", .str id), (js "instructions", optional a.instructions), (js "model", .str a.model),
    (js "multi_agent", .obj [(js "enabled", .bool false), (js "max_concurrent_subagents", .null)]),
    (js "name", optional a.name), (js "reasoning", .obj [(js "effort", .null), (js "summary", .null)]),
    (js "service_tier", .ofString "auto"),
    (js "text", .obj [(js "format", .obj [(js "type", .ofString "text")]), (js "verbosity", .ofString "medium")]),
    (js "tools", .arr (a.tools.map (·.json)))]

def metadataJson (fields : List (Str × Str)) : Json := .obj (fields.map fun f => (f.1, .str f.2))

def openAIFields (id : Str) (a : StoredAgent) : Fields :=
  agentSettings id a ++ [(js "created_at", seconds a.createdAt), (js "metadata", metadataJson a.metadata),
    (js "object", .ofString "agent"), (js "updated_at", seconds a.updatedAt)]

def toOpenAIAgent (id : Str) (a : StoredAgent) : Json := .obj (openAIFields id a)

end Settings
end Agents
end Antiproton
