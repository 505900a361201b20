import Antiproton.Runtime.Awaits
import Antiproton.Runtime.Verdict

/-!
# Antiproton.Runtime.Gateway

`ToolGateway` (`src/runtime/gateway.ts`): a call from its name to its recorded end, what holds it for a
person, and what becomes of a hold. The queue an exclusive plugin's calls wait in (`#onMount`) only
orders them, so a call is modelled as it runs when its turn has come.
-/

namespace Antiproton

open Js Process

/-- A gateway, as it is built. -/
structure Gateway where
  plugins : String → Option Plugin
  seeded : String → Bool
  approvalTtlMs : Int
  ids : OperationIds
  parseJson : Str → Option Json
  answerSpecOf : Json → Except String Json
  answerProblem : Json → Json → Option String
  refusedToolName : String → Option String
  isoTime : Int → String

/-- An offered tool's address, and the name the model was offered it by. -/
structure OfferedTool where
  address : String
  name : String
deriving DecidableEq, Repr

/-- `InvokeOpts`. -/
structure InvokeOpts where
  idempotencyKey : Option String
  approved : Bool
  operationId : Option String
  confirm : Bool
  callId : Option String
  offered : List OfferedTool
  fromProgram : Bool
deriving DecidableEq, Repr

/-- `offeredName`. -/
def offeredName (offered : List OfferedTool) (mountAlias tool : String) : Option String :=
  (offered.find? fun t => t.address == s!"{mountAlias}.{tool}").map (·.name)

/-- An option that is there and not empty. -/
def InvokeOpts.key (opts : InvokeOpts) : Option String := nonEmpty opts.idempotencyKey

/-- What every completion of a call records, whichever way it ends. -/
def callFacts (callId : Option String) : CompletedFacts := { CompletedFacts.none with callId := callId }

/-- `alreadyAttempted`. -/
def alreadyAttempted (operationId : String) (status : Option OperationStatus) : ToolResult :=
  let began := match status with
    | some .running | some .succeeded | some .failed | some .unknown => true
    | _ => false
  let said := match status with
    | none => "no record"
    | some s => s!"status {s.text}"
  .unknown operationId (.of "already_attempted" (js (s!"this call was already attempted under this key ({said}); " ++
    if began then "it ran and may have landed, so it is not repeated"
    else "whether it began cannot be told from the record, so it is not repeated")))

/-- A thrown store error, as a `catch` reads it. -/
def JsError.thrown (e : JsError) : Thrown := { Thrown.of e.message with code := e.code, modelOnlyText := e.modelOnlyText }

/-- `completeOperation`, which may throw. -/
def complete (tenantId operationId : String) (status : OperationStatus) (result : Option Json)
    (facts : CompletedFacts) : Act Unit := do
  let r ← await (.completeOperation tenantId operationId status none result facts)
  match r with
  | .ok () => pure ()
  | .error e => .fail e.thrown

/-! ## Resolving a name -/

/-- `resolve`: `alias.tool` exactly, `plugin.tool` only where it is unambiguous. -/
def resolve (ctx : CallContext) (raw : String) : Act (Except ToolError (MountRecord × String)) := do
  match parseToolRef raw with
  | none => return .error (.of "bad_tool_name" (js s!"not a tool name: {raw}"))
  | some (head, tool) =>
    match ← await (.getMountByAlias ctx.tenantId ctx.agentId head) with
    | some mount => return .ok (mount, tool)
    | none =>
      match ← await (.findMountsByPlugin ctx.tenantId ctx.agentId head) with
      | [mount] => return .ok (mount, tool)
      | [] =>
        let error := ToolError.of "not_mounted" (js s!"no mount named \"{head}\" for this agent")
        let url := s!"https://harness.local/agents/{ctx.agentId}/mounts/new?plugin={head}"
        return .error { error with authorizationUrl := some url }
      | mounts =>
        let error := ToolError.of "ambiguous_mount"
          (js s!"\"{head}\" is mounted {mounts.length} times; address one alias explicitly")
        return .error { error with candidates := mounts.map fun m => s!"{m.mountAlias}.{tool}" }

/-- `toolRefusedRow`, as the gateway writes it. Every code the gateway refuses with is written as it is. -/
def toolRefusedRow (G : Gateway) (ctx : CallContext) (raw : String) (opts : InvokeOpts) (at_ : Int)
    (code : String) : TraceRow where
  at_ := at_
  tenantId := ctx.tenantId
  agentId := ctx.agentId
  kind := "tool.refused"
  spanId := (nonEmpty opts.callId).getD s!"refused_{at_}"
  status := code
  verdict := .blocked
  ms := none
  attrs :=
    textAttr "tool" (G.refusedToolName raw) ++
    [("code", .ofString code), ("by", .ofString "gateway"),
      ("from", .ofString (if opts.fromProgram then "program" else "model"))] ++
    textAttr "callId" opts.callId ++ textAttr "task" (some ctx.taskId)
  failure := none

/-- `#refused`: a call refused before its operation was recorded. -/
def refused (G : Gateway) (ctx : CallContext) (raw : String) (opts : InvokeOpts) (error : ToolError) :
    Act ToolResult := do
  let now ← await .clock
  await (.recordTrace [toolRefusedRow G ctx raw opts now error.code])
  return .rejected error

/-! ## One step of a tool -/

/-- A mount's credential, when it names one. -/
def credentialOf (mount : MountRecord) : Act (Option String) := do
  match nonEmpty mount.secretRef with
  | none => return none
  | some ref =>
    match ← await (.resolveSecret ref mount.tenantId mount.agentId) with
    | .ok secret => return some secret
    | .error e => .fail e

/-- `leaseRow`. -/
def leaseRow (ctx : CallContext) (mountAlias : String) (fact : Released) : TraceRow where
  at_ := fact.endedAt
  tenantId := ctx.tenantId
  agentId := ctx.agentId
  kind := "container.lease"
  spanId := fact.id
  status := if fact.freed then "freed" else "error"
  verdict := if fact.freed then .ok else .failed
  ms := some (fact.endedAt - fact.startedAt)
  attrs := [("mount", .ofString mountAlias)] ++ textAttr "error" fact.error
  failure := none

/-- `#lease`, once for each fact. -/
def leases (ctx : CallContext) (mountAlias : String) : List Released → Act Unit
  | [] => pure ()
  | fact :: rest => do
    await (.recordTrace [leaseRow ctx mountAlias fact])
    leases ctx mountAlias rest

/-- The exit status a command's result carries. -/
def exitCode (result : Json) : Option Str :=
  match result.field? (js "exitCode") with
  | some (.num n) => some n
  | _ => none

/-- What a step of a tool runs with. -/
structure Running where
  ctx : CallContext
  mount : MountRecord
  plugin : Plugin
  tool : String
  operationId : String
  callId : Option String
  kind : StepKind
  fromProgram : Bool
  serves : String

/-- The facts of a step that began. -/
def Running.facts (r : Running) (started : Int) : CompletedFacts :=
  { callFacts r.callId with startedAt := some started }

def Running.step (r : Running) (credential : Option String) : PluginStep where
  tenantId := r.ctx.tenantId
  operationId := r.operationId
  serves := r.serves
  mount := r.mount
  tool := r.tool
  credential := credential
  fromProgram := r.fromProgram
  kind := r.kind

/-- A question a step asked, taken to the model or refused. -/
def answerQuestion (G : Gateway) (r : Running) (started : Int) (i : Interrupt) : Act ToolResult := do
  let spec := G.answerSpecOf i.answer
  let why := match r.plugin.interrupts, spec with
    | none, _ => some s!"{r.plugin.id} returned a question but cannot take an answer (it has no interrupts.resume)"
    | some _, .error e => some s!"{r.plugin.id} asked a question whose answer spec is unusable: {e}"
    | some _, .ok _ => none
  match why, spec with
  | some why, _ =>
    if r.plugin.interrupts.any (·.cancel) then
      -- Whether the plugin took its question back changes nothing here.
      let _ ← await (.cancelStep r.mount r.tool i.state (some r.serves))
    complete r.ctx.tenantId r.operationId .failed none
      { r.facts started with failure := some ⟨none, none, why⟩ }
    return .failed r.operationId (.of "tool_error" (js why))
  | none, .error e => .fail (.of e)
  | none, .ok spec =>
    complete r.ctx.tenantId r.operationId .succeeded none (r.facts started)
    return .interrupted r.operationId
      { mountAlias := r.mount.mountAlias, tool := r.tool, question := i.question, context := i.context
        answer := spec, state := i.state, operationId := some r.serves
        ifApproved := i.ifApproved.filter fun answer => (G.answerProblem spec answer).isNone }

/-- What becomes of a step that came back. -/
def recordStep (G : Gateway) (r : Running) (started : Int) : StepAnswer → Act ToolResult
  | .threw e => .fail e
  | .asked i => answerQuestion G r started i
  | .backgrounded handle note => do
    complete r.ctx.tenantId r.operationId .running none (r.facts started)
    return .running r.operationId ⟨r.mount.mountAlias, r.tool, handle, note⟩
  | .returned lease result => do
    leases r.ctx r.mount.mountAlias lease.toList
    complete r.ctx.tenantId r.operationId .succeeded none
      { r.facts started with exitCode := exitCode result }
    return .succeeded r.operationId result

/-- What becomes of a step that threw, or whose end could not be recorded. -/
def recordFailure (r : Running) (started : Int) (e : Thrown) : Act ToolResult := do
  leases r.ctx r.mount.mountAlias e.released
  let facts :=
    { r.facts started with
      failure := some ⟨e.code, e.httpStatus, e.message⟩, identity := e.identity, credentialRef := e.credentialRef }
  complete r.ctx.tenantId r.operationId (if e.retryable then .unknown else .failed) none facts
  let said := match e.modelOnlyText.filter (!·.isEmpty) with
    | some text => js "\n\n" ++ text
    | none => []
  let error := ToolError.of "tool_error" (js e.message ++ said)
  let error := { error with identity := e.identity, credentialRef := e.credentialRef }
  return if e.retryable then .unknown r.operationId error else .failed r.operationId error

/-- `#run`: one step, from the attempt's start to its recorded end. -/
def runStep (G : Gateway) (r : Running) : Act ToolResult := do
  let credential ← credentialOf r.mount
  let started ← await .clock
  let attempted : Act ToolResult := do
    if ← await (.startOperation r.ctx.tenantId r.operationId) then
      recordStep G r started (← await (.enter (r.step credential)))
    else
      let prior ← await (.getOperation r.ctx.tenantId r.operationId)
      return alreadyAttempted r.operationId (prior.map (·.status))
  attempted.attempt (recordFailure r started)

/-! ## A call -/

/-- A call that got past the door: its mount, its plugin, its schema, and the bridge when it is one's. -/
structure Admitted where
  mount : MountRecord
  plugin : Plugin
  tool : String
  schema : ToolSchema

def Admitted.bridge (a : Admitted) : Option BridgeDecl := bridgeOf a.plugin a.tool

/-- Why a tool of a mount may not be called at all (`#invoke`, before any operation exists). -/
def door (plugin : Plugin) (mount : MountRecord) (tool : String) (opts : InvokeOpts) :
    Except ToolError Admitted :=
  let bridged := (bridgeOf plugin tool).isSome
  let schema := if bridged then some bridgeSchema else (toolsOf plugin mount).find? fun t => t.name == tool
  let mountAlias := mount.mountAlias
  if bridged && !opts.fromProgram && !opts.approved then
    .error (.of "program_only" (js (s!"{mountAlias}.{bridgeTool} is the mount's SDK transport: " ++
      s!"call it from run_js through `await import(\"sdk:{mountAlias}\")`")))
  else
    match schema with
    | none => .error (.of "unknown_tool"
        (js s!"the `{mountAlias}` mount has no tool named \"{tool}\"; call one of the tools it does offer"))
    | some schema =>
      if schema.modelOnly && opts.fromProgram then
        .error (.of "not_from_a_program" (js (s!"{mountAlias}.{tool} is yours to call, not a program's: " ++
          "its result only counts once you have read it")))
      else .ok ⟨mount, plugin, tool, schema⟩

def switchedOffMessage (mountAlias : String) : Str :=
  js s!"the `{mountAlias}` mount is switched off for this agent; someone has to turn it back on"

def pluginUnavailableMessage (mountAlias plugin : String) : Str :=
  js (s!"the `{mountAlias}` mount uses the plugin \"{plugin}\", which is not installed here; " ++
    "none of its tools can be called until an operator fixes the mount")

/-- A mount's plugin, or why it may not be reached: not installed, switched off, or not the version pinned. -/
def reach (G : Gateway) (ctx : CallContext) (mount : MountRecord) : Act (Except ToolError Plugin) := do
  match G.plugins mount.plugin with
  | none => return .error (.of "plugin_unavailable" (pluginUnavailableMessage mount.mountAlias mount.plugin))
  | some plugin =>
    let choices ← await (.pluginChoices ctx.tenantId ctx.agentId)
    let choice := (choices.find? fun c => c.1 == mount.plugin).map (·.2)
    if !pluginEnabled (G.seeded mount.plugin) choice then
      return .error (.of "plugin_disabled" (switchedOffMessage mount.mountAlias))
    else if plugin.version ≠ mount.toolVersion then
      return .error (.of "version_mismatch" (js s!"mount pins {mount.toolVersion}, registry has {plugin.version}"))
    else return .ok plugin

/-- A call's policy key and side, or why it is refused before any verdict. -/
def Admitted.reading (G : Gateway) (a : Admitted) (args : Json) : Except ToolError CallReading :=
  match a.bridge with
  | some bridge => bridgeReading G.parseJson bridge args
  | none =>
    match refusalOf a.plugin.refuse a.tool args with
    | some why => .error (.of "route_refused" (js why))
    | none =>
      .ok ⟨policyKeyOf a.plugin.policyKey a.tool args,
        callSideEffects a.plugin.classify a.tool args a.schema.sideEffects, args, none⟩

/-- What a call's verdict is computed from. -/
def Admitted.callPolicy (a : Admitted) (c : CallReading) : CallPolicy where
  policy := a.mount.policy
  defaultPolicy := a.plugin.defaultPolicy
  bridge := a.bridge
  tool := a.tool
  key := c.key
  side := c.side
  bridged := bridgeOf_isSome

/-- A call that has an operation. -/
structure Recorded where
  ctx : CallContext
  raw : String
  opts : InvokeOpts
  call : Admitted
  operationId : String

def Recorded.complete (r : Recorded) (status : OperationStatus) (result : Option Json) : Act Unit :=
  Antiproton.complete r.ctx.tenantId r.operationId status result (callFacts r.opts.callId)

/-- A call refused once its operation was recorded: ended as a refusal ends, and answered as one. -/
def Recorded.refuse (r : Recorded) (error : ToolError) : Act ToolResult := do
  r.complete .rejected none
  return .rejected error

/-- What a hold keeps of a call. -/
def Recorded.request (r : Recorded) (c : CallReading) : Json :=
  .ofFields [("tool", some (.ofString r.raw)), ("args", some c.kept),
    ("heldBy", some (.ofString (if r.opts.confirm then "agent" else "policy"))),
    ("policyKey", match c.key with
      | .named key => if key = r.call.tool then none else some (.ofString key)
      | _ => none),
    ("route", match r.call.bridge, c.route with
      | some bridge, some route => some (routeCard bridge route)
      | _, _ => none)]

/-- What `holdApproval` is given for a call. -/
def Recorded.hold (r : Recorded) (c : CallReading) (deadline : Option Int) : HoldRequest where
  tenantId := r.ctx.tenantId
  operationId := r.operationId
  agentId := r.ctx.agentId
  taskId := r.ctx.taskId
  mountAlias := r.call.mount.mountAlias
  tool := r.call.tool
  request := r.request c
  expiresAt := deadline

/-- Whether a hold is of the same call. -/
def Recorded.same (r : Recorded) (c : CallReading) (a : ApprovalRecord) : Bool :=
  heldKey a.agentId a.mountAlias a.tool a.request ==
    heldKey r.ctx.agentId r.call.mount.mountAlias r.call.tool (r.request c)

/-- What a held call is answered. -/
def heldResult (G : Gateway) (operationId address : String) (place : HeldPlace) (expiresAt : Option Int)
    (merged : Option ApprovalRecord) : ToolResult :=
  let ttlMs := expiresAt.map fun deadline =>
    match merged with
    | some pending => deadline - pending.createdAt
    | none => G.approvalTtlMs
  let message := heldMessage G.isoTime operationId place merged.isSome ⟨address, expiresAt, ttlMs⟩
  .pending operationId place.decider expiresAt place.url (.of "awaiting_approval" (js message))

/-- A call its policy or its caller holds for a person: held, or merged into the hold of the same call. -/
def Recorded.holdCall (G : Gateway) (r : Recorded) (c : CallReading) : Act ToolResult := do
  let now ← await .clock
  let deadline := if 0 < G.approvalTtlMs then some (now + G.approvalTtlMs) else none
  let address := s!"{r.call.mount.mountAlias}.{r.call.tool}"
  match ← await (.holdApproval (r.hold c deadline) (r.same c)) with
  | .created =>
    let place ← await (.heldPlace r.ctx)
    return heldResult G r.operationId address (place.getD (.page none none)) deadline none
  | .existing pending =>
    r.complete .cancelled (some (.ofFields [("mergedInto", some (.ofString pending.operationId))]))
    let place ← await (.heldPlace { r.ctx with taskId := pending.taskId })
    return heldResult G pending.operationId address (place.getD (.page none none)) pending.expiresAt (some pending)

/-- Why a held model-only call is refused instead. -/
def modelOnlyMessage (confirm : Bool) (mountAlias tool : String) : Str :=
  js (if confirm then
    s!"{mountAlias}.{tool} cannot be held for approval: its result only counts once you read it in your own call, " ++
    "and an approved call runs without you. Call it without confirm."
  else
    s!"the `{mountAlias}` mount's approval policy holds {tool}, but it can only run in your own call, where you read " ++
    "its result; an approved call runs without you. Ask the operator to let you call it without approval.")

/-- A call its verdict lets through. -/
def Recorded.run (G : Gateway) (r : Recorded) (args : Json) (c : CallReading) : Act ToolResult :=
  runStep G { ctx := r.ctx, mount := r.call.mount, plugin := r.call.plugin, tool := r.call.tool
              operationId := r.operationId, callId := r.opts.callId
              kind := match c.route with
                | some route => .request route
                | none => .invoke args
              fromProgram := r.opts.fromProgram, serves := r.operationId }

/-- A recorded call, from its verdict on. -/
def Recorded.settle (G : Gateway) (r : Recorded) (args : Json) : Act ToolResult :=
  match r.call.reading G args with
  | .error error => r.refuse error
  | .ok c =>
    let mountAlias := r.call.mount.mountAlias
    match (r.call.callPolicy c).verdict r.opts.confirm r.opts.approved with
    | .of .deny =>
      r.refuse (.of "policy_denied" (js s!"this call is denied by the `{mountAlias}` mount's policy"))
    | .of .approval =>
      if r.call.schema.modelOnly then
        r.refuse (.of "not_from_a_program" (modelOnlyMessage r.opts.confirm mountAlias r.call.tool))
      else r.holdCall G c
    | _ => r.run G args c

/-- The operation a call is an attempt of: one named for it, its key's, or a new one. -/
def operationIdOf (G : Gateway) (ctx : CallContext) (opts : InvokeOpts) : Act String :=
  match opts.operationId, opts.key with
  | some id, _ => pure id
  | none, some key => pure (G.ids.keyed ctx.tenantId ctx.taskId key)
  | none, none => await (.randomId .call)

/-- Whether an earlier attempt under the same key began, or may have: a write is then not repeated. -/
def alreadyBegun (schema : ToolSchema) (prior : Option OperationRecord) : Bool :=
  prior.any fun prior => schema.sideEffects = .write && prior.status ≠ .rejected

/-- The operation a call is recorded as. -/
def Admitted.operation (a : Admitted) (ctx : CallContext) (opts : InvokeOpts) (operationId : String) :
    NewOperation where
  operationId := operationId
  tenantId := ctx.tenantId
  agentId := ctx.agentId
  taskId := ctx.taskId
  mountAlias := a.mount.mountAlias
  tool := s!"{a.mount.plugin}.{a.tool}"
  modelName := offeredName opts.offered a.mount.mountAlias a.tool
  toolVersion := a.mount.toolVersion

/-- The earlier attempt under a call's key, when it has one. -/
def priorOf (ctx : CallContext) (opts : InvokeOpts) (operationId : String) : Act (Option OperationRecord) :=
  match opts.key with
  | some _ => await (.getOperation ctx.tenantId operationId)
  | none => pure none

/-- An admitted call under its operation: the guard on its key, and what follows. -/
def invokeUnder (G : Gateway) (ctx : CallContext) (raw : String) (args : Json) (opts : InvokeOpts)
    (a : Admitted) (operationId : String) : Act ToolResult := do
  let prior ← priorOf ctx opts operationId
  if alreadyBegun a.schema prior then return alreadyAttempted operationId (prior.map (·.status))
  await (.recordOperation (a.operation ctx opts operationId))
  Recorded.settle G ⟨ctx, raw, opts, a, operationId⟩ args

/-- An admitted call, from its operation on. -/
def invokeAdmitted (G : Gateway) (ctx : CallContext) (raw : String) (args : Json) (opts : InvokeOpts)
    (a : Admitted) : Act ToolResult := do
  let operationId ← operationIdOf G ctx opts
  invokeUnder G ctx raw args opts a operationId

/-- `#invoke`. -/
def invokeTurn (G : Gateway) (ctx : CallContext) (raw : String) (args : Json) (opts : InvokeOpts) :
    Act ToolResult := do
  match ← resolve ctx raw with
  | .error error => refused G ctx raw opts error
  | .ok (mount, tool) =>
    if ← await (.isRemoving ctx.tenantId ctx.agentId mount.mountAlias) then
      refused G ctx raw opts (.of "not_mounted" (js s!"the `{mount.mountAlias}` mount is being removed"))
    else
      match ← reach G ctx mount with
      | .error error => refused G ctx raw opts error
      | .ok plugin =>
        match door plugin mount tool opts with
        | .error error => refused G ctx raw opts error
        | .ok a => invokeAdmitted G ctx raw args opts a

/-- `invoke`: the name is resolved once to pick the call's queue, and again when its turn has come. -/
def invoke (G : Gateway) (ctx : CallContext) (raw : String) (args : Json) (opts : InvokeOpts) :
    Act ToolResult := do
  match ← resolve ctx raw with
  | .error error => refused G ctx raw opts error
  | .ok _ => invokeTurn G ctx raw args opts

/-! ## The answer to a question -/

/-- `resumeInterrupt`: the answer to a question a tool asked, as an operation of its own. -/
def resumeInterrupt (G : Gateway) (ctx : CallContext) (i : ToolInterrupt) (answer : Json)
    (callId : Option String) (offered : List OfferedTool) : Act ToolResult := do
  match ← await (.getMountByAlias ctx.tenantId ctx.agentId i.mountAlias) with
  | none =>
    return .rejected (.of "not_mounted" (js s!"the `{i.mountAlias}` mount no longer exists, so the tool cannot go on"))
  | some mount =>
    match ← reach G ctx mount with
    | .error error => return .rejected error
    | .ok plugin =>
      if plugin.interrupts.isNone then
        return .rejected (.of "not_resumable" (js s!"{plugin.id} cannot take an answer"))
      else if ← await (.isRemoving ctx.tenantId ctx.agentId mount.mountAlias) then
        return .rejected (.of "not_mounted"
          (js s!"the `{mount.mountAlias}` mount is being removed, so the tool cannot go on"))
      else
        let operationId ← await (.randomId .resume)
        await (.recordOperation
          { operationId := operationId, tenantId := ctx.tenantId, agentId := ctx.agentId, taskId := ctx.taskId
            mountAlias := mount.mountAlias, tool := s!"{mount.plugin}.{i.tool}"
            modelName := offeredName offered mount.mountAlias i.tool, toolVersion := mount.toolVersion })
        runStep G { ctx := ctx, mount := mount, plugin := plugin, tool := i.tool, operationId := operationId
                    callId := callId, kind := .resume i.state answer, fromProgram := false
                    serves := i.operationId.getD operationId }

/-- `cancelInterrupt`: a question nobody will answer, and what failed in taking it back. -/
def cancelInterrupt (G : Gateway) (ctx : CallContext) (i : ToolInterrupt) : Act (Option Str) :=
  let taken : Act (Option Str) := do
    match ← await (.getMountByAlias ctx.tenantId ctx.agentId i.mountAlias) with
    | none => return none
    | some mount =>
      match (G.plugins mount.plugin).bind (·.interrupts) with
      | none => return none
      | some interrupts =>
        if !interrupts.cancel then return none
        else
          let _ ← credentialOf mount
          match ← await (.cancelStep mount i.tool i.state i.operationId) with
          | .ok () => return none
          | .error e => .fail e
  taken.attempt fun e => pure (some ((js e.message).take 300))

end Antiproton
