import Antiproton.Core.Types

/-!
# Antiproton.Core.Tools

What a tool call is named by and what it answers (`src/core/tools.ts`): one result for a call that was
refused before it ran, held, run, or asked a question first.
-/

namespace Antiproton

open Js

/-- `ToolError`. -/
structure ToolError where
  code : String
  message : Str
  candidates : List String
  authorizationUrl : Option String
  identity : Option String
  credentialRef : Option String
deriving DecidableEq, Repr

/-- An error of a code and a message alone. -/
def ToolError.of (code : String) (message : Str) : ToolError := ⟨code, message, [], none, none, none⟩

/-- What a tool left running in the background. -/
structure Background where
  mountAlias : String
  tool : String
  handle : Json
  note : Option String
deriving DecidableEq, Repr

/-- `ToolInterrupt`: a tool's question to the model. -/
structure ToolInterrupt where
  mountAlias : String
  tool : String
  question : Str
  context : Option Json
  answer : Json
  state : Json
  operationId : Option String
  ifApproved : Option Json
deriving DecidableEq, Repr

/-- `ToolResult`. -/
inductive ToolResult where
  | succeeded (operationId : String) (result : Json)
  | pending (operationId : String) (decider : Option String) (expires : Option Int) (url : Option String)
      (error : ToolError)
  | running (operationId : String) (background : Background)
  | failed (operationId : String) (error : ToolError)
  | cancelled (operationId : String) (error : ToolError)
  | unknown (operationId : String) (error : ToolError)
  | rejected (error : ToolError)
  | interrupted (operationId : String) (interrupt : ToolInterrupt)
deriving DecidableEq, Repr

namespace ToolResult

/-- The result's `status`. -/
def status : ToolResult → String
  | succeeded .. => "succeeded"
  | pending .. => "pending"
  | running .. => "running"
  | failed .. => "failed"
  | cancelled .. => "cancelled"
  | unknown .. => "unknown"
  | rejected .. => "rejected"
  | interrupted .. => "interrupted"

/-- The result's `error`, where it has one. -/
def error : ToolResult → Option ToolError
  | pending _ _ _ _ e | failed _ e | cancelled _ e | unknown _ e | rejected e => some e
  | _ => none

/-- `{ ...result, operationId }`, of a result that has one. -/
def withOperation (id : String) : ToolResult → ToolResult
  | succeeded _ r => succeeded id r
  | pending _ d x u e => pending id d x u e
  | running _ b => running id b
  | failed _ e => failed id e
  | cancelled _ e => cancelled id e
  | unknown _ e => unknown id e
  | interrupted _ i => interrupted id i
  | rejected e => rejected e

end ToolResult

/-- A JSON object of the fields that are there. -/
def Json.ofFields (fields : List (String × Option Json)) : Json :=
  .obj (fields.filterMap fun f => f.2.map fun v => (js f.1, v))

def ToolError.json (e : ToolError) : Json :=
  .ofFields [("code", some (.ofString e.code)), ("message", some (.str e.message)),
    ("candidates", if e.candidates.isEmpty then none else some (.arr (e.candidates.map .ofString))),
    ("authorizationUrl", e.authorizationUrl.map .ofString), ("identity", e.identity.map .ofString),
    ("credentialRef", e.credentialRef.map .ofString)]

/-- A result as an operation's record keeps it. -/
def ToolResult.json (r : ToolResult) : Json :=
  let status := some (Json.ofString r.status)
  match r with
  | .succeeded id result => .ofFields [("status", status), ("operationId", some (.ofString id)), ("result", some result)]
  | .pending id decider expires url error =>
    .ofFields [("status", status), ("operationId", some (.ofString id)),
      ("decider", some ((decider.map .ofString).getD .null)),
      ("expires", some ((expires.map fun n => .num (js (toString n))).getD .null)),
      ("url", some ((url.map .ofString).getD .null)), ("error", some error.json)]
  | .running id b =>
    .ofFields [("status", status), ("operationId", some (.ofString id)),
      ("background", some (.ofFields [("alias", some (.ofString b.mountAlias)), ("tool", some (.ofString b.tool)),
        ("handle", some b.handle), ("note", b.note.map .ofString)]))]
  | .failed id error | .cancelled id error | .unknown id error =>
    .ofFields [("status", status), ("operationId", some (.ofString id)), ("error", some error.json)]
  | .rejected error => .ofFields [("status", status), ("error", some error.json)]
  | .interrupted id i =>
    .ofFields [("status", status), ("operationId", some (.ofString id)),
      ("interrupt", some (.ofFields [("alias", some (.ofString i.mountAlias)), ("tool", some (.ofString i.tool)),
        ("question", some (.str i.question)), ("context", i.context), ("answer", some i.answer),
        ("state", some i.state), ("operationId", i.operationId.map .ofString), ("ifApproved", i.ifApproved)]))]

/-! ## Tool names -/

def isWordChar (c : Char) : Bool := c.isAlpha || c.isDigit || c == '_'

def isSpaceChar (c : Char) : Bool := (unitsOf c).all isSpace

/-- A text split at every `.`. -/
def segments : List Char → List (List Char)
  | [] => [[]]
  | c :: rest =>
    if c = '.' then [] :: segments rest
    else
      match segments rest with
      | [] => [[c]]
      | s :: ss => (c :: s) :: ss

/-- `parseToolRef`: the head of a dotted name, and the tool after it. -/
def parseToolRef (raw : String) : Option (String × String) :=
  let trimmed := ((raw.toList.dropWhile isSpaceChar).reverse.dropWhile isSpaceChar).reverse
  match segments trimmed with
  | head :: tool :: rest =>
    if (head :: tool :: rest).all fun s => !s.isEmpty && s.all isWordChar then
      some (String.ofList head, String.ofList (['.'].intercalate (tool :: rest)))
    else none
  | _ => none

end Antiproton
