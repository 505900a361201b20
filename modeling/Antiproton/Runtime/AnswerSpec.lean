import Antiproton.Core.JsonParse

/-!
# Antiproton.Runtime.AnswerSpec

What answer a waiting thing expects, and whether an answer fits (`src/runtime/run-js-resume.ts`).

The walk over an answer reads properties by name, and so meets what every object inherits as well: the values it is about
are JSON's, the functions of `Object.prototype`, and `Object.prototype` itself.

* `answerSpecOf`: the specification, or why it cannot be used.
* `answerProblem`: why an answer does not fit.
-/

namespace Antiproton.AnswerCheck

open Js

abbrev Fields := List (Str × Json)

/-- A field of an object, by the name a program writes. -/
def get (fields : Fields) (name : String) : Option Json := (Json.obj fields).field? (js name)

theorem sizeOf_get {fields : Fields} {name : String} {v : Json} (h : get fields name = some v) : sizeOf v < sizeOf fields := by
  obtain ⟨⟨k, w⟩, hfind, rfl⟩ := Option.map_eq_some_iff.1 h
  have hmem := List.sizeOf_lt_of_mem (List.mem_of_find?_eq_some hfind)
  rw [Prod.mk.sizeOf_spec] at hmem
  dsimp only
  omega

theorem sizeOf_object {fields sub : Fields} {name : String} (h : get fields name = some (.obj sub)) :
    sizeOf sub < sizeOf fields := by
  have hlt := sizeOf_get h
  rw [Json.obj.sizeOf_spec] at hlt
  omega

/-! ## Specifications -/

inductive Kind where
  | yes_no
  | text
deriving DecidableEq

inductive AnswerSpec where
  | choices (choices : List Str)
  | kind (kind : Kind)
  | schema (schema : Fields)

def SCHEMA_TYPES : List String := ["string", "number", "integer", "boolean", "object", "array", "null"]

/-- `Array.isArray(v) ? v : [v]`. -/
def listOf : Json → List Json
  | .arr items => items
  | v => [v]

def isText : Json → Bool
  | .str _ => true
  | _ => false

def typeProblem (schema : Fields) (at_ : Str) : Option Str :=
  match get schema "type" with
  | none => none
  | some t =>
    if listOf t = [] ∨ ¬ (listOf t).all (fun x => SCHEMA_TYPES.any fun name => x == .ofString name) then
      some (at_ ++ js ".type must be one of " ++ join (js ", ") (SCHEMA_TYPES.map js) ++ js ", or a list of them")
    else none

def enumProblem (schema : Fields) (at_ : Str) : Option Str :=
  match get schema "enum" with
  | none | some (.arr _) => none
  | some _ => some (at_ ++ js ".enum must be a list")

def requiredProblem (schema : Fields) (at_ : Str) : Option Str :=
  let bad := some (at_ ++ js ".required must be a list of property names")
  match get schema "required" with
  | none => none
  | some (.arr names) => if names.all isText then none else bad
  | some _ => bad

mutual

def schemaProblem (schema : Fields) (at_ : Str) : Option Str :=
  (typeProblem schema at_).or <| (enumProblem schema at_).or <| (requiredProblem schema at_).or <|
    (match _h : get schema "properties" with
      | none => none
      | some (.obj properties) => propertiesProblem properties at_
      | some _ => some (at_ ++ js ".properties must be an object")).or
    (match _h : get schema "items" with
      | none => none
      | some (.obj items) => schemaProblem items (at_ ++ js ".items")
      | some _ => some (at_ ++ js ".items must be a schema object"))
termination_by sizeOf schema
decreasing_by
  · exact sizeOf_object _h
  · exact sizeOf_object _h

/-- The loop over `properties`. -/
def propertiesProblem (properties : Fields) (at_ : Str) : Option Str :=
  match properties with
  | [] => none
  | (k, .obj sub) :: rest =>
    (schemaProblem sub (at_ ++ js ".properties." ++ k)).or (propertiesProblem rest at_)
  | (k, _) :: _ => some (at_ ++ js ".properties." ++ k ++ js " must be a schema object")
termination_by sizeOf properties

end

def answerSpecOf (raw : Option Json) : Except Str AnswerSpec :=
  let shapes := js ("expected \x7b choices: [strings] \x7d, \x7b kind: \"yes_no\" \x7d, \x7b kind: \"text\" \x7d or " ++
    "\x7b schema: \x7b...\x7d \x7d")
  match raw with
  | some (.obj fields) =>
    if fields.length ≠ 1 then
      .error (js "pause()'s third argument has " ++ js (toString fields.length) ++ js " fields: " ++ shapes)
    else
      match get fields "choices" with
      | some c =>
        let bad := Except.error (js "pause()'s answer.choices must be a non-empty list of strings")
        match c with
        | .arr items =>
          if items = [] ∨ ¬ items.all isText then bad
          else .ok (.choices (items.filterMap fun x => match x with | .str s => some s | _ => none))
        | _ => bad
      | none =>
        match get fields "kind" with
        | some k =>
          if k = .ofString "yes_no" then .ok (.kind .yes_no)
          else if k = .ofString "text" then .ok (.kind .text)
          else .error (js "pause()'s answer.kind must be \"yes_no\" or \"text\", not " ++ k.stringify)
        | none =>
          match get fields "schema" with
          | some (.obj schema) =>
            match schemaProblem schema (js "schema") with
            | some bad => .error (js "pause()'s answer." ++ bad)
            | none => .ok (.schema schema)
          | some _ => .error (js "pause()'s answer.schema must be a JSON schema object")
          | none => .error (js "pause()'s third argument: " ++ shapes)
  | _ => .error (js "pause()'s third argument: " ++ shapes)

/-! ## Values -/

/-- What the walk meets: the answer's own values, and those an object inherits. -/
inductive Value where
  | json (v : Json)
  | function
  | objectPrototype
deriving DecidableEq

/-- The functions of `Object.prototype`. -/
def OBJECT_FUNCTIONS : List String :=
  ["constructor", "__defineGetter__", "__defineSetter__", "hasOwnProperty", "__lookupGetter__", "__lookupSetter__",
    "isPrototypeOf", "propertyIsEnumerable", "toString", "valueOf", "toLocaleString"]

/-- What an object inherits under a name. -/
def inherited (k : Str) : Option Value :=
  if k = js "__proto__" then some .objectPrototype
  else if OBJECT_FUNCTIONS.any (fun name => k == js name) then some .function
  else none

namespace Value

def isObject : Value → Bool
  | json (.obj _) | objectPrototype => true
  | _ => false

/-- `Object.hasOwn(v, k)`, of a value of the answer. -/
def hasOwn (k : Str) : Value → Bool
  | json v => (v.field? k).isSome
  | _ => false

/-- `v[k]` of an object, where `k in v`. -/
def prop? (k : Str) : Value → Option Value
  | json (.obj fields) =>
    match (Json.obj fields).field? k with
    | some x => some (json x)
    | none => inherited k
  | objectPrototype =>
    if k = js "__proto__" then some (json .null)
    else if OBJECT_FUNCTIONS.any (fun name => k == js name) then some function
    else none
  | _ => none

def items : Value → List Json
  | json (.arr items) => items
  | _ => []

def typeOf : Value → String
  | json .null => "null"
  | json (.arr _) => "array"
  | json (.bool _) => "boolean"
  | json (.num _) => "number"
  | json (.str _) => "string"
  | json (.obj _) | objectPrototype => "object"
  | function => "function"

/-- `JSON.stringify(v)`: nothing of `Object.prototype` is enumerated, and a function has no text. -/
def stringify : Value → Option Str
  | json v => some v.stringify
  | function => none
  | objectPrototype => some (js "\x7b\x7d")

end Value

/-! ## Whole numbers -/

/-- The digits of a number's text, its sign left out, and the power of ten they are of. -/
def digitsOf (text : Str) : Nat × Int :=
  let text := if text.head? = some (unit '-') then text.tail else text
  let int := text.takeWhile isDigit
  let rest := text.dropWhile isDigit
  let frac := if rest.head? = some (unit '.') then rest.tail.takeWhile isDigit else []
  let rest := if rest.head? = some (unit '.') then rest.tail.dropWhile isDigit else rest
  let power : Int :=
    match rest with
    | [] => 0
    | _ :: rest =>
      if rest.head? = some (unit '-') then -(numberOf rest.tail : Int)
      else if rest.head? = some (unit '+') then numberOf rest.tail
      else numberOf rest
  (numberOf (int ++ frac), power - frac.length)

/-- `Number.isInteger`, of a number by its text. -/
def isInteger (text : Str) : Bool :=
  decide (0 ≤ (digitsOf text).2) || (digitsOf text).1 % 10 ^ (-(digitsOf text).2).toNat == 0

/-! ## Checking -/

/-- What a check comes to: nothing against the value, why it does not fit, or an error thrown on the way. -/
inductive Outcome where
  | fits
  | problem (text : Str)
  | throws
deriving DecidableEq

/-- The first that is not `null`. -/
def Outcome.next : Outcome → Outcome → Outcome
  | fits, b => b
  | a, _ => a

/-- `undefined` has no length to cut at: the text of a function is not shown but throws. -/
def shown : Option Value → Option Str
  | none => some (js "nothing")
  | some v => v.stringify.map fun s => if 80 < s.length then s.take 80 ++ js "…" else s

def refusal (text : Str) (v : Option Value) : Outcome :=
  match shown v with
  | some s => .problem (text ++ js "; got " ++ s)
  | none => .throws

/-- The names of a `type`, which are texts once the schema is accepted. -/
def typeNames (t : Json) : List Str := (listOf t).filterMap fun x => match x with | .str s => some s | _ => none

def typeFits (schema : Fields) (v : Value) : Bool :=
  match get schema "type" with
  | none => true
  | some t => (typeNames t).any fun want => want == js v.typeOf ||
      want == js "integer" && match v with | .json (.num text) => isInteger text | _ => false

def typeMismatch (schema : Fields) (v : Value) (at_ : Str) : Outcome :=
  if typeFits schema v then .fits
  else refusal (at_ ++ js " must be " ++ join (js " or ") ((get schema "type").elim [] typeNames)) (some v)

def enumOf (schema : Fields) : Option (List Json) :=
  match get schema "enum" with
  | some (.arr items) => some items
  | _ => none

def enumFits (schema : Fields) (v : Value) : Bool := (enumOf schema).all fun es => es.any fun e => some e.stringify == v.stringify

def enumMismatch (schema : Fields) (v : Value) (at_ : Str) : Outcome :=
  if enumFits schema v then .fits
  else refusal (at_ ++ js " must be one of " ++ join (js ", ") (((enumOf schema).getD []).map Json.stringify)) (some v)

def requiredOf (schema : Fields) : List Str :=
  match get schema "required" with
  | some (.arr names) => names.filterMap fun x => match x with | .str s => some s | _ => none
  | _ => []

def requiredMismatch (schema : Fields) (v : Value) (at_ : Str) : Outcome :=
  if v.isObject then
    match (requiredOf schema).find? fun k => (v.prop? k).isNone with
    | some k => .problem (at_ ++ js "." ++ k ++ js " is required")
    | none => .fits
  else .fits

mutual

def schemaMismatch (schema : Fields) (v : Value) (at_ : Str) : Outcome :=
  (typeMismatch schema v at_).next <| (enumMismatch schema v at_).next <| (requiredMismatch schema v at_).next <|
    (match _h : get schema "properties" with
      | some (.obj properties) => if v.isObject then propertiesMismatch properties v at_ else .fits
      | _ => .fits).next
    (match _h : get schema "items" with
      | some (.obj items) => itemsMismatch items v.items 0 at_
      | _ => .fits)
termination_by (sizeOf schema, 0)
decreasing_by
  · exact Prod.Lex.left _ _ (sizeOf_object _h)
  · exact Prod.Lex.left _ _ (sizeOf_object _h)

/-- The loop over `properties`. -/
def propertiesMismatch (properties : Fields) (v : Value) (at_ : Str) : Outcome :=
  match properties with
  | [] => .fits
  | (k, .obj sub) :: rest =>
    (match v.prop? k with
      | some x => schemaMismatch sub x (at_ ++ js "." ++ k)
      | none => .fits).next (propertiesMismatch rest v at_)
  | _ :: rest => propertiesMismatch rest v at_
termination_by (sizeOf properties, 0)

/-- The loop over the items of an array. -/
def itemsMismatch (items : Fields) (vs : List Json) (i : Nat) (at_ : Str) : Outcome :=
  match vs with
  | [] => .fits
  | v :: rest =>
    (schemaMismatch items (.json v) (at_ ++ js "[" ++ js (toString i) ++ js "]")).next (itemsMismatch items rest (i + 1) at_)
termination_by (sizeOf items, vs.length)

end

def answerProblem (spec : AnswerSpec) (answer : Option Json) : Outcome :=
  match spec with
  | .choices choices =>
    match answer with
    | some (.str s) =>
      if s ∈ choices then .fits
      else refusal (js "the answer must be exactly one of " ++ join (js ", ") (choices.map quote)) (answer.map .json)
    | _ => refusal (js "the answer must be exactly one of " ++ join (js ", ") (choices.map quote)) (answer.map .json)
  | .kind .yes_no =>
    match answer with
    | some (.bool _) => .fits
    | _ => refusal (js "the answer must be true or false") (answer.map .json)
  | .kind .text =>
    match answer with
    | some (.str _) => .fits
    | _ => refusal (js "the answer must be a string") (answer.map .json)
  | .schema schema => schemaMismatch schema (.json (answer.getD .null)) (js "answer")

end Antiproton.AnswerCheck
