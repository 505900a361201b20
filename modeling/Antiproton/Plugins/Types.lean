import Antiproton.Plugins.Bridge

/-!
# Antiproton.Plugins.Types

What the gateway reads of a plugin (`Plugin` in `src/plugins/types.ts`), and what a step of one may do:
answer, ask the model first, go on in the background, or throw.
-/

namespace Antiproton

open Js

/-- `ToolSchema`, as far as the gateway reads it. -/
structure ToolSchema where
  name : String
  sideEffects : Side
  modelOnly : Bool
deriving DecidableEq, Repr

/-- `Interrupting`: a plugin that can take an answer, and whether it can take a question back. -/
structure Interrupting where
  cancel : Bool
deriving DecidableEq, Repr

/-- `Plugin`. -/
structure Plugin where
  id : String
  version : String
  tools : List ToolSchema
  mountTools : MountRecord → Option (List ToolSchema)
  defaultPolicy : Option MountPolicy
  policyKey : CallHook
  refuse : CallHook
  classify : CallHook
  bridge : Option BridgeDecl
  interrupts : Option Interrupting

/-- `toolsOf`. -/
def toolsOf (p : Plugin) (mount : MountRecord) : List ToolSchema := (p.mountTools mount).getD p.tools

/-- `pluginEnabled`. -/
def pluginEnabled (seeded : Bool) (choice : Option Bool) : Bool := choice.getD seeded

/-- `BRIDGE_SCHEMA`. -/
def bridgeSchema : ToolSchema := ⟨bridgeTool, .write, false⟩

/-- The bridge a tool name reaches on a plugin. -/
def bridgeOf (p : Plugin) (tool : String) : Option BridgeDecl := if tool = bridgeTool then p.bridge else none

theorem bridgeOf_isSome {p : Plugin} {tool : String} (h : (bridgeOf p tool).isSome) : tool = bridgeTool := by
  unfold bridgeOf at h
  split at h
  · assumption
  · cases h

/-- `Released`: the end of a lease, as the plugin reported it. -/
structure Released where
  id : String
  startedAt : Int
  endedAt : Int
  freed : Bool
  error : Option String
deriving DecidableEq, Repr

/-- `Interrupt`: a question a tool asks before it acts. -/
structure Interrupt where
  question : Str
  context : Option Json
  answer : Json
  state : Json
  ifApproved : Option Json
deriving DecidableEq, Repr

/-- An error as the gateway reads it: a plugin's, with its fields, or any other. -/
structure Thrown where
  message : String
  code : Option String
  httpStatus : Option Int
  retryable : Bool
  identity : Option String
  credentialRef : Option String
  modelOnlyText : Option Str
  released : List Released
deriving DecidableEq, Repr

/-- An error that says only its message. -/
def Thrown.of (message : String) : Thrown := ⟨message, none, none, false, none, none, none, []⟩

/-- What a plugin's step does. A lease it reports the end of is read out of its result. -/
inductive StepAnswer where
  | returned (lease : Option Released) (result : Json)
  | asked (i : Interrupt)
  | backgrounded (handle : Json) (note : Option String)
  | threw (e : Thrown)
deriving DecidableEq, Repr

end Antiproton
