import Antiproton.Core.Tools

/-!
# Antiproton.Runtime.Holds

What a held call is merged by (`heldKey`, `canonicalJson`) and what the model reads of it (`heldMessage`),
in `src/runtime/gateway.ts`.
-/

namespace Antiproton

open Js

/-- The number a key is an array index of: such keys are enumerated first, in number order. -/
def arrayIndex (k : Str) : Option Nat :=
  let digits := k.all fun u => unit '0' ≤ u && u ≤ unit '9'
  if k.isEmpty || !digits || (1 < k.length && k.head? = some (unit '0')) then none
  else
    let n := k.foldl (fun n u => 10 * n + (u - unit '0').toNat) 0
    if n < 4294967295 then some n else none

/-- The order the keys of a sorted object are enumerated in. -/
def enumeratesBefore (k l : Str) : Prop :=
  match arrayIndex k, arrayIndex l with
  | some i, some j => i ≤ j
  | some _, none => True
  | none, some _ => False
  | none, none => k ≤ l

instance : DecidableRel enumeratesBefore := fun k l => by
  unfold enumeratesBefore
  cases arrayIndex k <;> cases arrayIndex l <;> infer_instance

namespace Json

mutual

def sorted : Json → Json
  | arr items => arr (sortedItems items)
  | obj fields => obj ((sortedFields fields).insertionSort fun a b => enumeratesBefore a.1 b.1)
  | v => v

def sortedItems : List Json → List Json
  | [] => []
  | v :: vs => sorted v :: sortedItems vs

def sortedFields : List (Str × Json) → List (Str × Json)
  | [] => []
  | (k, v) :: fs => (k, sorted v) :: sortedFields fs

end

/-- `canonicalJson`: the text of the value, the keys of its objects sorted at every depth. -/
def canonicalText (v : Json) : Str := (sorted v).stringify

end Json

/-- `heldKey`. -/
def heldKey (agentId mountAlias tool : String) (request : Json) : Str :=
  (Json.arr [.ofString agentId, .ofString mountAlias, .ofString tool,
    (request.field? (js "args")).getD .null, (request.field? (js "route")).getD .null]).canonicalText

/-- `HeldPlace`: who decides a held call, and where. -/
inductive HeldPlace where
  | page (decider url : Option String)
  | nobody (why : String)
  | raft
deriving DecidableEq, Repr

def HeldPlace.decider : HeldPlace → Option String
  | page decider _ => decider
  | _ => none

def HeldPlace.url : HeldPlace → Option String
  | page _ url => url
  | _ => none

/-- `Math.round`, of a quotient of a non-negative number. -/
def roundDiv (n d : Int) : Int := (2 * n + d) / (2 * d)

/-- `ttlWords`. -/
def ttlWords (ms : Int) : String :=
  let counted := fun (n : Int) (noun : String) => s!"{n} {noun}" ++ if n = 1 then "" else "s"
  if 3600000 ≤ ms then counted (roundDiv ms 3600000) "hour" else counted (max 1 (roundDiv ms 60000)) "minute"

/-- What the words of a hold are about. -/
structure HeldCall where
  tool : String
  expiresAt : Option Int
  ttlMs : Option Int

def nonEmpty (s : Option String) : Option String := s.filter (· ≠ "")

/-- `heldMessage`. -/
def heldMessage (isoTime : Int → String) (operationId : String) (place : HeldPlace) (merged : Bool)
    (call : HeldCall) : String :=
  let opening :=
    if merged then
      s!"An identical call is already waiting for approval (operation {operationId}); this call was not added as a second one."
    else s!"This call is held for approval (operation {operationId})."
  let again := "Calling this tool again with the same arguments while it waits returns this same pending approval; " ++
    "it does not create another."
  let expiry := match call.expiresAt with
    | none => "It does not expire: it waits until someone decides."
    | some deadline =>
      let after := match call.ttlMs with
        | some ms => if ms = 0 then "" else s!" ({ttlWords ms} after it was held)"
        | none => ""
      s!"If nobody decides by {isoTime deadline}{after}, it expires and is not run."
  let told := "You will be woken with the outcome in a notice: executed (with its result), failed, denied, expired, or policy_denied " ++
    "(approved, but the mount's policy now refuses it); your turn does not wait for it."
  let ids := s!"giving the operation id ({operationId}) and the tool ({call.tool})"
  let twice := if merged then " If you need it done twice, call again after that one is decided." else ""
  match place with
  | .raft =>
    s!"{opening}{twice} An approval card for it goes to your owner in Raft (or a server admin if your owner has left), " ++
    s!"and they approve or deny it there; if approved, it runs on its own exactly as written. {expiry} {told} " ++
    s!"If you tell your owner about it, give the operation id ({operationId}) and the tool ({call.tool}). " ++
    s!"Do not retry it. {again}"
  | .nobody why =>
    s!"{opening} Nobody you can reach can approve it on the antiproton console today: {why}. " ++
    "The operator can still approve it by its operation id; if it is approved, it runs on its own exactly as written. " ++
    s!"{expiry} {told} Antiproton notifies nobody of it. " ++
    s!"Tell your owner once that this action is blocked, {ids}, then plan as if it will not run. " ++
    "Retrying will not make it happen sooner: calling again with the same arguments returns this same pending approval."
  | .page decider url =>
    let page := match nonEmpty url with
      | some u => s!"the antiproton console at {u}"
      | none => "this agent's approvals panel on the antiproton console"
    let who := match nonEmpty decider with
      | some d => s!"{d} decides it on {page}."
      | none => s!"No decider is known: it is decided on {page}, by a person signed in there with access to this agent."
    let person := decider.getD "a person"
    let sent := if (nonEmpty url).isSome then "that link" else "a message"
    s!"{opening}{twice} {who} {expiry} If approved, it runs on its own exactly as written. {told} " ++
    s!"Antiproton notifies nobody of it: if it matters, send {person} {sent} once, {ids}. " ++ again

end Antiproton
