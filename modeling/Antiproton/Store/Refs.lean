import Antiproton.Core.Types

/-!
# Antiproton.Store.Refs

The form of an artifact reference a model or a person is shown (`src/store/refs.ts`).
-/

namespace Antiproton

/-- `AGENT_REF`. -/
def agentRef : String := "artifact://"

def scopeOf (tenantId agentId : String) : String := s!"t/{tenantId}/{agentId}/"

/-- `path.split("/")`. -/
def pathSegments (path : String) : List (List Char) := path.toList.splitOn '/'

/-- Whether a segment is `.` or `..`, which moves through a path. -/
def moves (segment : List Char) : Bool := segment == ['.'] || segment == ['.', '.']

/-- A path without an empty segment and without one that moves. -/
def plainPath (path : String) : Bool := path ≠ "" && (pathSegments path).all fun s => !s.isEmpty && !moves s

/-- `refOrKey.replace(RAW, "")`: what follows `r2://<bucket>/`. -/
def dropRaw (ref : String) : List Char :=
  let whole := ref.toList
  if "r2://".toList.isPrefixOf whole then
    let rest := whole.drop 5
    let bucket := rest.takeWhile (· ≠ '/')
    match bucket, rest.drop bucket.length with
    | _ :: _, '/' :: key => key
    | _, _ => whole
  else whole

/-- `toAgentRef`: `none` when the key is not under that agent's scope. -/
def toAgentRef (refOrKey tenantId agentId : String) : Option String :=
  let key := dropRaw refOrKey
  let scope := (scopeOf tenantId agentId).toList
  if scope.isPrefixOf key then
    let path := String.ofList (key.drop scope.length)
    if plainPath path then some (agentRef ++ path) else none
  else none

end Antiproton
