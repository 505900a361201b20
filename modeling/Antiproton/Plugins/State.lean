import Antiproton.Lib.Process
import Antiproton.Store.Refs
import Antiproton.Store.SeedFiles

/-!
# Antiproton.Plugins.State

The `put` of the state plugin (`src/plugins/state.ts`): what it reads of the store, what it refuses, and the one
row it writes. `putEntry` is that row, and `put_writes` that a `put` writes no other.
-/

namespace Antiproton

open Js Process

/-- `StateSettings`: the limits an agent's documents are held to. -/
structure StateSettings where
  maxTotalBytes : Nat
  maxValueBytes : Nat
  maxDocumentBytes : Nat
  memoryMaxCharacters : Nat
deriving DecidableEq, Repr

/-- `DEFAULTS`. -/
def StateSettings.default : StateSettings := ⟨64 * 1024 * 1024, 4 * 1024 * 1024, 64 * 1024, 8000⟩

/-- A document of `WORKING_SET`. -/
structure WorkingDoc where
  key : String
  budget : Nat
  tail : Bool
  whenFull : WhenFull

/-- `WORKING_SET`. -/
def workingSet : List WorkingDoc :=
  [⟨"todo", 2000, false, .refuse⟩, ⟨"memory", 8000, false, .refuse⟩, ⟨"journal", 3000, true, .drop⟩]

/-- `SEEDED_MEMORY`. -/
def seededMemory : String := "MEMORY.md"

/-- `SEEDED_MEMORY_BUDGET`. -/
def seededMemoryBudget : Nat := 4000

def workingDoc (key : String) : Option WorkingDoc := workingSet.find? (·.key == key)

/-- `whenFullOf`: what a write to a full document does. -/
def whenFullOf (key : String) (seed : Option SeedMode) : WhenFull :=
  match workingDoc key with
  | some doc => if doc.whenFull = .refuse then .refuse else .drop
  | none => if seed.isSome && key == seededMemory then .refuse else .drop

/-- `capOf`: the cap on `key`, in characters. -/
def capOf (key : String) (cfg : StateSettings) : Nat :=
  if key = "memory" then min cfg.maxDocumentBytes cfg.memoryMaxCharacters else cfg.maxDocumentBytes

/-- `budgetOf`. -/
def budgetOf (doc : WorkingDoc) (cfg : StateSettings) : Nat :=
  if doc.key = "memory" then cfg.memoryMaxCharacters else doc.budget

/-- `MOVE_DETAILS`. -/
def moveDetails : String :=
  ". To keep what you know, move details rather than deleting them: `put` them into a document of their " ++
  "own, such as `notes/<topic>`, which is not shown to you automatically, so `get` reads it when you need it; keep " ++
  "only the key points in `memory`, and say there where the details are"

/-- What a refusal says of how much of the document the prompt shows. -/
def shownSentence (key : String) (seed : Option SeedMode) (cfg : StateSettings) (size : Nat) : String :=
  match workingDoc key with
  | some doc =>
    let budget := budgetOf doc cfg
    if budget < size then
      if doc.tail then
        s!". The prompt shows only the last {budget} characters of `{key}`; `get` reads all of it"
      else s!". The prompt shows only the first and last part of `{key}` past {budget} characters, " ++
        "saying how much is left out between them; `get` reads all of it"
    else ""
  | none =>
    if seed.isSome && key == seededMemory && decide (seededMemoryBudget < size) then
      s!". The prompt shows only the first {seededMemoryBudget} characters of `{key}`, " ++
        "saying where it is cut; `get` reads all of it"
    else ""

/-- `withShown`: an error that measured the document, with what the prompt shows of it. -/
def withShown (e : JsError) (key : String) (seed : Option SeedMode) (cfg : StateSettings) : JsError :=
  match e.size with
  | none => e
  | some size =>
    { e with message := e.message ++ shownSentence key seed cfg size ++ if key = "memory" then moveDetails else "" }

/-- What `putRefusal` is told of the value: a text, with its cap and the document's length now (`none` where it is
kept in object storage), or that it is not text. -/
inductive PutValue where
  | text (text : Str) (max : Nat) (current : Option Nat) (lines : List Str)
  | notText
deriving DecidableEq, Repr

/-- `putRefusal`: why a `put` to a document that refuses when full may not be written. `encoded` is the length of
the value's JSON where it would be moved to object storage. -/
def putRefusal (key : String) (value : PutValue) (editable : Bool) (encoded : Option Nat) : Option JsError :=
  let code := s!"{key}_full"
  let spilt : Option JsError := encoded.map fun encoded =>
    let shrink := if editable then
        s!" To shrink the `{key}` kept now where it is, delete or shorten text in it with `revise`, or drop it with `forget`."
      else ""
    let why := match value with
      | .notText =>
        s!"a value this large is kept in object storage (its JSON encodes to {encoded}; the limit here is " ++
        s!"{stateInlineMax}), where `{key}` could not be rewritten in place, so nothing was written. Put a smaller value."
      | .text .. =>
        s!"a `put` is kept where it can still be appended to and revised only up to {stateInlineMax} of its JSON " ++
        s!"encoding, and this one encodes to {encoded}, so nothing was written. That is the encoded length, not the character count " ++
        "`remember` uses: newlines, quotes, backslashes and other control characters count extra. A `put` of text fits " ++
        "only if it encodes to that or less: fewer of those characters, or less text."
    { message := s!"{code}: {why}" ++ (if value = .notText then "" else shrink)
      code := some code, size := none, modelOnlyText := none }
  match value with
  | .text text max (some current) lines =>
    if max < text.length ∧ current < text.length then
      if max < current then some (documentOverCap key current max lines)
      else some { message :=
          s!"{code}: `{key}` holds at most {max} characters, and this put is {text.length}, so nothing was written. " ++
          "Put a shorter document: keep the lines that are still true"
                  code := some code, size := some current, modelOnlyText := none }
    else spilt
  | _ => spilt

/-! ## The program -/

/-- The plugin's awaits in a `put`. -/
inductive StateAwait where
  | getState (tenantId agentId key : String)
  | stateUsage (tenantId agentId : String)
  | putState (tenantId agentId key : String) (entry : StateEntry)
  | artifactsPut (key : String) (body : Str)

@[reducible] def StateAwait.Ans : StateAwait → Type
  | getState .. => Option StateRecord
  | stateUsage .. => StateUsage
  | putState .. => Unit
  | artifactsPut .. => Except JsError String

@[reducible] def stateInterface : Interface := ⟨StateAwait, StateAwait.Ans⟩

/-- Where a value was kept. -/
inductive Stored where
  | inline
  | objectStorage (ref : Option String)
deriving DecidableEq, Repr

/-- What `put` answers. -/
structure PutReply where
  key : String
  bytes : Nat
  stored : Stored
deriving DecidableEq, Repr

/-- The row a `put` of `value` writes, `ref` being where its JSON was put if it is moved to object storage. -/
def putEntry (value : Json) (ref : String) : StateEntry :=
  if stateInlineMax < storedBytes value then ⟨none, some ref, storedBytes value⟩
  else ⟨if value = .null then none else some value, none, storedBytes value⟩

/-- What the document is now, as `putRefusal` measures it. -/
def documentNow (cur : Option StateRecord) : Option Nat :=
  match cur with
  | none => some 0
  | some cur =>
    if cur.ref.any (· ≠ "") then none
    else match cur.value with
      | .str s => some s.length
      | _ => some 0

/-- The text of a document `revise` can still change in place. -/
def editableText (cur : Option StateRecord) : Option Str :=
  cur.bind fun cur =>
    if cur.ref.any (· ≠ "") then none
    else match cur.value with
      | .str s => some s
      | _ => none

/-- The refusal of a `put` to a document that refuses when full. -/
def putRefused (cfg : StateSettings) (key : String) (seed : Option SeedMode) (value : Json)
    (cur : Option StateRecord) : Option JsError :=
  if whenFullOf key seed = .refuse then
    let encoded := if stateInlineMax < storedBytes value then some (storedBytes value) else none
    let text := editableText cur
    let given := match value with
      | .str s => .text s (capOf key cfg) (documentNow cur) ((text.map (splitOn lf)).getD [])
      | _ => .notText
    (putRefusal key given text.isSome encoded).map fun e => withShown e key seed cfg
  else none

/-- A value over the cap on any one. -/
def valueTooLarge (bytes max : Nat) : JsError :=
  ⟨s!"value_too_large: value is {bytes} bytes; the limit is {max}", some "value_too_large", none, none⟩

/-- A `put` call: whose, on which mount, of what, and how the key was seeded. -/
structure PutCall where
  cfg : StateSettings
  tenantId : String
  agentId : String
  mountAlias : String
  key : String
  seed : Option SeedMode
  value : Json
  /-- Whether object storage is mounted. -/
  artifacts : Bool

/-- What is judged before the total: the document's own limits, and that the key is a name. -/
def PutCall.refused (c : PutCall) (cur : Option StateRecord) : Option JsError :=
  match putRefused c.cfg c.key c.seed c.value cur with
  | some e => some e
  | none =>
    if (pathSegments c.key).any moves then
      some (.ofMessage s!"a key names a value, not a path: `{c.key}` moves through it")
    else none

/-- The `put` of `invoke`, past the checks every tool shares. -/
def put (c : PutCall) : Prog stateInterface JsError PutReply :=
  let body := c.value.stringify
  if c.cfg.maxValueBytes < body.length then .fail (valueTooLarge body.length c.cfg.maxValueBytes)
  else .act (.getState c.tenantId c.agentId c.key) fun cur =>
    match c.refused cur with
    | some e => .fail e
    | none => .act (.stateUsage c.tenantId c.agentId) fun usage =>
      let prior := (cur.map (·.bytes)).getD 0
      match totalRefusal usage.bytes prior body.length c.cfg.maxTotalBytes (some c.mountAlias) with
      | some e => .fail e
      | none =>
        if body.length ≤ stateInlineMax then
          .act (.putState c.tenantId c.agentId c.key (putEntry c.value "")) fun _ =>
            .done ⟨c.key, body.length, .inline⟩
        else if !c.artifacts then
          .fail (.ofMessage "no object storage is mounted, and the value is too large to inline")
        else .act (.artifactsPut s!"t/{c.tenantId}/{c.agentId}/state/{c.key}.json" body) fun
          | .error e => .fail e
          | .ok ref => .act (.putState c.tenantId c.agentId c.key (putEntry c.value ref)) fun _ =>
            .done ⟨c.key, body.length, .objectStorage (toAgentRef ref c.tenantId c.agentId)⟩

end Antiproton
