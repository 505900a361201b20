import Antiproton.Core.Tools
import Antiproton.Plugins.Policy

/-!
# Antiproton.Plugins.Bridge

A bridged request (`BridgeDecl` and `classifyRoute` in `src/plugins/types.ts`; `bridgeArgs`,
`bridgePath`, `routePath` and `routeCard` in `src/runtime/gateway.ts`): the request a program's SDK
makes, read from its call's arguments and decided on its route. A route's pattern and its body
predicate are the plugin's, and so are `normalize` and `describe`.

* `bridgeReading`: what a call of the bridge tool is decided under, or why it is refused.
-/

namespace Antiproton

open Js

/-- `BRIDGE_TOOL`. -/
def bridgeTool : String := "request"

/-- `BRIDGE_PATH_MAX`. -/
def bridgePathMax : Nat := 2048

/-- `BRIDGE_BODY_MAX_UTF8`. -/
def bridgeBodyMaxUtf8 : Nat := 1024 * 1024

/-- `CARD_BODY_BYTES`. -/
def cardBodyBytes : Nat := 2048

/-- `BRIDGE_METHODS`. -/
def bridgeMethods : List Str := ["GET", "HEAD", "POST", "PUT", "PATCH", "DELETE"].map js

/-- `BRIDGE_REQUEST_HEADERS`. -/
def bridgeRequestHeaders : List Str := ["content-type", "accept"].map js

/-- `BridgeRequest`. -/
structure BridgeRequest where
  method : Str
  path : Str
  body : Option Str
  headers : List (Str × Str)
deriving DecidableEq, Repr

/-- A field of a string record, by its exact name. -/
def header (name : String) (headers : List (Str × Str)) : Option Str :=
  (headers.find? fun h => h.1 == js name).map (·.2)

/-- Whether a request reads. -/
def reads (method : Str) : Bool := method == js "GET" || method == js "HEAD"

/-! ## Reading the arguments -/

def badPath (raw : Str) (why : String) : Str :=
  js s!"a bridged request's path {why}, got " ++ (quote raw).take 80

/-- Whether a unit may stand in no path: a backslash, white space or a control character. -/
def neverInPath (u : UInt16) : Bool := u == unit '\\' || isSpace u || u < 0x20 || u == 0x7F

/-- Whether a unit may stand in the part the route table sees. -/
def routable (u : UInt16) : Bool := 0x21 ≤ u && u ≤ 0x7E && u != unit ';'

/-- `bridgePath`. -/
def bridgePath (raw : Str) : Except Str Str :=
  if bridgePathMax < raw.length then .error (badPath raw s!"is at most {bridgePathMax} characters")
  else if !startsWith (js "/") raw || startsWith (js "//") raw then
    .error (badPath raw "starts with one / and names no host")
  else if raw.any neverInPath then
    .error (badPath raw "carries no backslash, whitespace or control character")
  else
    let noFragment := raw.takeWhile (· != unit '#')
    let pathPart := noFragment.takeWhile (· != unit '?')
    if !pathPart.all routable then .error (badPath raw "carries no ; and nothing outside printable ASCII")
    -- An escape decodes to another text, and a % that begins none is not decoded at all.
    else if pathPart.contains (unit '%') then .error (badPath raw "carries no percent-escapes")
    else
      let segments := splitOn (unit '/') (pathPart.drop 1)
      if segments.any (fun x => x == js "." || x == js "..") || segments.dropLast.any (·.isEmpty) then
        .error (badPath raw "has no empty, . or .. segments")
      else .ok noFragment

def isLetter (u : UInt16) : Bool :=
  (unit 'A' ≤ u && u ≤ unit 'Z') || (unit 'a' ≤ u && u ≤ unit 'z')

/-- `toUpperCase`, of ASCII text. -/
def upperAscii (s : Str) : Str := s.map fun u => if unit 'a' ≤ u && u ≤ unit 'z' then u - 0x20 else u

/-- `toLowerCase`, of ASCII text. -/
def lowerAscii (s : Str) : Str := s.map fun u => if unit 'A' ≤ u && u ≤ unit 'Z' then u + 0x20 else u

/-- The bytes of a text as UTF-8, a lone surrogate as the replacement character. -/
def utf8Length : Str → Nat
  | [] => 0
  | [u] => if u < 0x80 then 1 else if u < 0x800 then 2 else 3
  | u :: v :: rest =>
    if isHigh u && isLow v then 4 + utf8Length rest
    else (if u < 0x80 then 1 else if u < 0x800 then 2 else 3) + utf8Length (v :: rest)

/-- `o[k] = v` of a string record. -/
def setHeader (k v : Str) (headers : List (Str × Str)) : List (Str × Str) :=
  if headers.any (·.1 == k) then headers.map fun h => if h.1 == k then (k, v) else h else headers ++ [(k, v)]

/-- Whether a header's value is one line of printable ASCII. -/
def printable (v : Str) : Bool := v.all fun u => u == 9 || (0x20 ≤ u && u ≤ 0x7E)

/-- The headers a bridged request may keep, from the ones it carries. -/
def keptHeaders : List (Str × Json) → List (Str × Str) → Except Str (List (Str × Str))
  | [], kept => .ok kept
  | (k, v) :: rest, kept =>
    let name := lowerAscii k
    match v with
    | .str v =>
      if !bridgeRequestHeaders.contains name then keptHeaders rest kept
      else if !printable v then .error (js "a bridged request's " ++ name ++ js " header is printable ASCII")
      else keptHeaders rest (setHeader name v kept)
    | _ => keptHeaders rest kept

/-- `bridgeArgs`. -/
def bridgeArgs (args : Json) : Except Str BridgeRequest :=
  match args.field? (js "method") with
  | some (.str m) =>
    if m.isEmpty || !m.all isLetter then .error (js "a bridged request needs its method as a word")
    else
      match args.field? (js "path") with
      | some (.str rawPath) => do
        let path ← bridgePath rawPath
        let body ←
          match (args.field? (js "body")).getD .null with
          | .null => .ok none
          | .str b =>
            let bytes := if bridgeBodyMaxUtf8 < b.length * 3 then utf8Length b else 0
            if bridgeBodyMaxUtf8 < bytes then
              .error (js s!"a bridged request's body is at most {bridgeBodyMaxUtf8} bytes as UTF-8, got {bytes}")
            else .ok (some b)
          | _ => .error (js "a bridged request's body is the text as sent")
        let method := upperAscii m
        if !bridgeMethods.contains method then
          .error (js "a bridged request's method is one of GET, HEAD, POST, PUT, PATCH, DELETE, got " ++
            (quote m).take 20)
        else
          let headers ←
            match args.field? (js "headers") with
            | some (.obj fields) => keptHeaders fields []
            | _ => .ok []
          -- A read carries no body.
          .ok ⟨method, path, if reads method then none else body, headers⟩
      | _ => .error (js "a bridged request needs a path that starts with /")
  | _ => .error (js "a bridged request needs its method as a word")

/-- `routePath`: what the route table matches. -/
def routePath (path : Str) : Str :=
  let p := path.takeWhile fun u => u != unit '?' && u != unit '#'
  if 1 < p.length then (p.reverse.dropWhile (· == unit '/')).reverse else p

/-! ## The route table -/

/-- What a row of the table decides: a policy key, or a refusal and what it says when it could not judge. -/
inductive RouteRule where
  | key (name : String)
  | refuse (message : Str) (unsure : Option Str)

/-- `RouteEntry`. `path` is the row's pattern, tested case-insensitively. A `body` predicate is asked of the
body as a JSON object and as sent, and answers nothing where it throws. -/
structure RouteEntry where
  methods : List Str
  path : Str → Bool
  withQuery : Bool
  body : Option (Option Json → Option Str → Option Bool)
  rule : RouteRule

/-- What `describe` names of a request. -/
structure Described where
  repo : Option Str
  pr : Option Json

/-- `BridgeDecl`, as `checkBridge` admits it. -/
structure BridgeDecl where
  routes : List RouteEntry
  unlistedWriteKey : String
  normalize : Option (Str → Except Str Str)
  describe : Option (Str → Option Described)
  unlisted_ne_empty : unlistedWriteKey ≠ ""
  unlisted_ne_bridgeTool : unlistedWriteKey ≠ bridgeTool

/-- `UNJUDGED_BODY`. -/
def unjudgedBody : Str :=
  js ("the body of this request could not be read as a JSON object, so this route refuses it; " ++
    "send it as a JSON object with content-type: application/json")

/-- `RouteClass`. -/
inductive RouteClass where
  | listed (key : String)
  | refused (message : Str)
  | unlistedRead
  | unlistedWrite (key : String)
deriving DecidableEq, Repr

/-- `trim`. -/
def trim (s : Str) : Str := ((s.dropWhile isSpace).reverse.dropWhile isSpace).reverse

/-- `isJsonContentType`: `application/json` or `application/…+json`, with any parameters. -/
def isJsonContentType (contentType : Option Str) : Bool :=
  match contentType with
  | none => false
  | some c =>
    let c := lowerAscii (trim c)
    startsWith (js "application/") c &&
      let rest := c.drop 12
      let subtype := rest.takeWhile fun u => !isSpace u && u != unit ';' && u != unit '/'
      let after := (rest.drop subtype.length).dropWhile isSpace
      (subtype == js "json" || (endsWith (js "+json") subtype && 5 < subtype.length)) &&
        (after.isEmpty || after.head? = some (unit ';'))

/-- A body as a row's predicate is asked of it: none, an object, or something else. -/
inductive ParsedBody where
  | absent
  | object (v : Json)
  | unreadable

/-- The body read as JSON. -/
def parsedBody (parse : Str → Option Json) : Option Str → ParsedBody
  | none => .absent
  | some b =>
    match parse b with
    | some (.obj fields) => .object (.obj fields)
    | _ => .unreadable

/-- What a row with a body check does with a body it cannot judge. -/
def RouteRule.unsure (rule : RouteRule) (held : RouteClass) : RouteClass :=
  match rule with
  | .refuse _ unsure => .refused (unsure.getD unjudgedBody)
  | .key _ => held

def RouteRule.decides : RouteRule → RouteClass
  | .refuse message _ => .refused message
  | .key k => .listed k

/-- Whether a row's method, pattern and query condition meet a request. -/
def RouteEntry.meets (row : RouteEntry) (method path : Str) (hasQuery : Bool) : Bool :=
  row.methods.any (fun m => upperAscii m == method) && row.path path && (!row.withQuery || hasQuery)

/-- What one row says of a request: nothing, where it does not apply. -/
def RouteEntry.rules (row : RouteEntry) (held : RouteClass) (method path : Str) (body : Option Str)
    (parsed : ParsedBody) (json hasQuery : Bool) : Option RouteClass :=
  if !row.meets method path hasQuery then none
  else
    match row.body with
    | none => some row.rule.decides
    | some check =>
      if !json then some (row.rule.unsure held)
      else
        let asked :=
          match parsed with
          | .unreadable => none
          | .absent => check none body
          | .object v => check (some v) body
        match asked with
        | none => some (row.rule.unsure held)
        | some true => some row.rule.decides
        | some false => none

/-- `classifyRoute`: the first row that says something decides. -/
def classifyRoute (parse : Str → Option Json) (decl : BridgeDecl) (method path : Str) (body : Option Str)
    (contentType : Option Str) (hasQuery : Bool) : RouteClass :=
  let m := upperAscii method
  let held := RouteClass.unlistedWrite decl.unlistedWriteKey
  let json := isJsonContentType contentType
  let parsed := parsedBody parse body
  match decl.routes.findSome? fun row => row.rules held m path body parsed json hasQuery with
  | some c => c
  | none => if reads m then .unlistedRead else held

/-! ## A bridged call -/

/-- `routeCard`: what the approval card shows of a held request. -/
def routeCard (decl : BridgeDecl) (req : BridgeRequest) : Json :=
  let named := (decl.describe.bind fun d => d req.path).getD ⟨none, none⟩
  let write := !reads req.method
  let body := if write then req.body else none
  let contentType := (header "content-type" req.headers).filter fun c => write && !c.isEmpty
  let optional : List (String × Option Json) :=
    [("contentType", contentType.map .str), ("repo", named.repo.map .str), ("pr", named.pr),
      ("body", body.map fun b => .str (b.take cardBodyBytes)),
      ("bodyTruncated", (body.filter fun b => cardBodyBytes < b.length).map fun _ => .bool true),
      ("bodySize", (body.filter fun b => cardBodyBytes < b.length).map fun b => .num (js (toString b.length)))]
  .obj ([(js "method", .str req.method), (js "path", .str req.path)] ++
    optional.filterMap fun f => f.2.map fun v => (js f.1, v))

/-- A request as it is kept in a hold, and replayed from. -/
def BridgeRequest.json (req : BridgeRequest) : Json :=
  .obj [(js "method", .str req.method), (js "path", .str req.path), (js "body", (req.body.map .str).getD .null),
    (js "headers", .obj (req.headers.map fun h => (h.1, .str h.2)))]

/-- A call's policy key and side, what a hold of it keeps, and the request when it is a bridged one. -/
structure CallReading where
  key : PolicyKey
  side : Side
  kept : Json
  route : Option BridgeRequest

/-- A bridged call, read and classified on its route (`#invoke`). -/
def bridgeReading (parse : Str → Option Json) (bridge : BridgeDecl) (args : Json) :
    Except ToolError CallReading :=
  match bridgeArgs args with
  | .error message => .error (.of "bad_request" message)
  | .ok parsed =>
    match (bridge.normalize.map fun normalize => normalize parsed.path).getD (.ok parsed.path) with
    | .error message => .error (.of "bad_request" (message.take 300))
    | .ok path =>
      let route := { parsed with path := path }
      let side := if reads route.method then Side.read else .write
      match classifyRoute parse bridge route.method (routePath route.path) route.body
          (header "content-type" route.headers) (route.path.contains (unit '?')) with
      | .refused message => .error (.of "route_refused" message)
      | .unlistedRead => .ok ⟨.none, side, parsed.json, some route⟩
      | .listed key => .ok ⟨.named key, side, parsed.json, some route⟩
      | .unlistedWrite key => .ok ⟨.named key, side, parsed.json, some route⟩

end Antiproton
