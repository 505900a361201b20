import Antiproton.Store.SeedSeal

/-!
# Antiproton.Import.Workspace

A migrating agent's workspace, brought over once (`src/store/workspace-import.ts`): the import and its record, the mark
a first turn leaves, and the hold an agent waits under. A transaction is the list of its statements: one that throws
leaves what was there before the first.
-/

namespace Antiproton.Import

open Js

structure ImportedFile where
  path : String
  bytes : Nat
  sha256 : String
deriving DecidableEq

/-- Whether the import carried instructions, and whether they have reached the agent. -/
inductive Instructions where
  | none
  | pending
  | applied
deriving DecidableEq

structure ImportRecord where
  migrationId : String
  importedAt : Int
  fileCount : Nat
  bytes : Nat
  files : List ImportedFile
  instructions : Instructions
deriving DecidableEq

/-- A row of `workspace_import`, its manifest as it reads back. -/
structure WorkspaceImportRow where
  tenantId : String
  agentId : String
  migrationId : String
  digest : String
  importedAt : Int
  manifest : List ImportedFile
  instructions : Instructions
deriving DecidableEq

inductive LiftedBy where
  | «import»
  | valve
deriving DecidableEq

structure ImportHold where
  since : Int
  liftedAt : Option Int
  how : Option LiftedBy
deriving DecidableEq

/-- A row of `import_hold`. -/
structure HoldRow where
  tenantId : String
  agentId : String
  hold : ImportHold
deriving DecidableEq

/-- A row of `agent_started`. -/
structure StartedRow where
  tenantId : String
  agentId : String
  at_ : Int
deriving DecidableEq

/-- A row of `import_excerpt`: what the prompt shows of a file kept in object storage. -/
structure ExcerptRow where
  tenantId : String
  agentId : String
  path : String
  ref : String
  excerpt : Str
  chars : Nat
deriving DecidableEq

/-- A row of `model_prewarm`, as an import queues it. -/
structure PrewarmRow where
  tenantId : String
  agentId : String
  migrationId : String
  queuedAt : Int
deriving DecidableEq

/-- An agent's object with the tables of its import. -/
structure Obj where
  agent : AgentObject
  imports : List WorkspaceImportRow
  holds : List HoldRow
  started : List StartedRow
  excerpts : List ExcerptRow
  prewarms : List PrewarmRow
  /-- The trace rows of holds ended. -/
  traced : List ImportHold
deriving DecidableEq

def Obj.new (agent : AgentObject) : Obj := ⟨agent, [], [], [], [], [], []⟩

/-- `IMPORT_HOLD_MAX_MS`. -/
def importHoldMaxMs : Int := 24 * 60 * 60000

/-! ## The digest -/

/-- Paths are unique, so their order means nothing. -/
def sortFiles (files : List ImportedFile) : List ImportedFile := Table.orderBy (fun f => js f.path) files

def ImportedFile.json (f : ImportedFile) : Json := .obj [(js "path", .ofString f.path), (js "sha256", .ofString f.sha256)]

def digestJson (migrationId : String) (instructions : Option Str) (files : List ImportedFile) : Json :=
  .obj [(js "migrationId", .ofString migrationId), (js "instructions", (instructions.map Json.str).getD .null),
    (js "files", .arr ((sortFiles files).map (·.json)))]

/-- `importDigest`: what a retry must repeat to be the same import. -/
def importDigest (env : SeedEnv) (migrationId : String) (instructions : Option Str) (files : List ImportedFile) : String :=
  env.sha256Hex (digestJson migrationId instructions files).canonJson

/-! ## Reads -/

section Tables

variable (tenantId agentId : String)

def importOf (r : WorkspaceImportRow) : Bool := r.tenantId == tenantId && r.agentId == agentId

def holdOf (r : HoldRow) : Bool := r.tenantId == tenantId && r.agentId == agentId

def startedOf (r : StartedRow) : Bool := r.tenantId == tenantId && r.agentId == agentId

def WorkspaceImportRow.record (r : WorkspaceImportRow) : ImportRecord :=
  ⟨r.migrationId, r.importedAt, r.manifest.length, (r.manifest.map (·.bytes)).sum, r.manifest, r.instructions⟩

/-- `readImport`: the agent's import and its digest. -/
def readImport (o : Obj) : Option (ImportRecord × String) :=
  (Table.one (importOf tenantId agentId) o.imports).map fun r => (r.record, r.digest)

/-- `agentStarted`: why the agent has started. -/
def agentStarted (o : Obj) : Option String :=
  if o.started.any (startedOf tenantId agentId) then some "it has started a turn"
  else if o.agent.piEntries.any (·.type == "message") then some "its main conversation has messages"
  else if o.agent.mainSessions.any (·.endedAt.isSome) then some "it has had a fresh context"
  else if (readSeal tenantId agentId o.agent.store).any (·.how == .firstTurn) then some "it has started a turn"
  else if o.agent.inboundEvents.any (·.outcome == "delivered") then some "a push was posted to it"
  else none

def readHold (o : Obj) : Option ImportHold := (Table.one (holdOf tenantId agentId) o.holds).map (·.hold)

def seededPaths (o : Obj) : List String :=
  (Table.select (seedFileOf tenantId agentId) o.agent.store.seedFiles).map (·.path)

/-! ## The start and the hold -/

/-- `markStarted`: the first turn's time is kept. -/
def markStarted (now : Int) (o : Obj) : Obj :=
  { o with started := Table.insertOrIgnore (startedOf tenantId agentId) ⟨tenantId, agentId, now⟩ o.started }

/-- `placeHold`: once for an agent, never for one imported or started. Whether it placed one, and its statements. -/
def placeHold (now : Int) (o : Obj) : Bool × List (Obj → Obj) :=
  if (readImport tenantId agentId o).isSome || (agentStarted tenantId agentId o).isSome ||
      (readHold tenantId agentId o).isSome then (false, [])
  else (true, [id, fun o => { o with holds := o.holds ++ [⟨tenantId, agentId, ⟨now, none, none⟩⟩] }])

def liftRow (how : LiftedBy) (now : Int) (r : HoldRow) : HoldRow :=
  { r with hold := { r.hold with liftedAt := some now, how := some how } }

/-- `liftHold`: what it lifts, and the statement. -/
def liftHold (how : LiftedBy) (now : Int) (o : Obj) : Option ImportHold × List (Obj → Obj) :=
  match readHold tenantId agentId o with
  | none => (none, [])
  | some h =>
    if h.liftedAt.isSome then (none, [])
    else
      (some ⟨h.since, some now, some how⟩, [fun o =>
        { o with
          holds := Table.update (fun r => holdOf tenantId agentId r && r.hold.liftedAt.isNone) (liftRow how now) o.holds }])

/-- `holdEnded`: its trace row. -/
def holdEnded (lifted : Option ImportHold) : List (Obj → Obj) :=
  match lifted with
  | none => []
  | some h => [fun o => { o with traced := o.traced ++ [h] }]

/-- `queuePrewarm`: the table, and a row where there is none. -/
def queuePrewarm (migrationId : String) (now : Int) (o : Obj) : List (Obj → Obj) :=
  if o.prewarms.any (fun r => r.tenantId == tenantId && r.agentId == agentId) then [id]
  else [id, fun o => { o with prewarms := o.prewarms ++ [⟨tenantId, agentId, migrationId, now⟩] }]

/-- A transaction: its statements, or, where one throws, nothing. -/
def transact {R : Type} (statements : R × List (Obj → Obj)) (throwsAt : Option Nat) (o : Obj) : Option R × Obj :=
  match throwsAt.filter (· < statements.2.length) with
  | some _ => (none, o)
  | none => (some statements.1, statements.2.foldl (fun o statement => statement o) o)

/-- `importHeldUntil`: when the hold ends, if one is in place; one past its time is lifted here. -/
def importHeldUntil (now : Int) (throwsAt : Option Nat) (o : Obj) : Option (Option Int) × Obj :=
  match readHold tenantId agentId o with
  | none => (some none, o)
  | some h =>
    if h.liftedAt.isSome then (some none, o)
    else if now < h.since + importHoldMaxMs then (some (some (h.since + importHoldMaxMs)), o)
    else
      let lift := liftHold tenantId agentId .valve now o
      transact (none, lift.2 ++ holdEnded lift.1) throwsAt o

/-! ## The import -/

/-- One file's row, decided before the transaction. -/
structure ImportRow where
  path : String
  value : Option Json
  ref : Option String
  bytes : Nat
  excerpt : Option (Str × Nat)
deriving DecidableEq

structure ImportRequest where
  migrationId : String
  digest : String
  files : List ImportedFile
  rows : List ImportRow
  instructions : Bool
deriving DecidableEq

inductive CommitCode where
  | already_imported
  | agent_active
  | reserved
deriving DecidableEq

inductive CommitResult where
  | ok (created : Bool) (record : ImportRecord) (lifted : Option ImportHold)
  | refused (code : CommitCode) (message : String)
deriving DecidableEq

/-- `importDecided`: what is answered without writing. -/
def importDecided (env : SeedEnv) (digest : String) (paths : List String) (o : Obj) : Option CommitResult :=
  match readImport tenantId agentId o with
  | some (record, had) =>
    if had = digest then some (.ok false record none)
    else some (.refused .already_imported
      (s!"this agent's workspace was imported already (migrationId {record.migrationId}, {env.isoTime record.importedAt}); " ++
        "an import happens once"))
  | none =>
    match agentStarted tenantId agentId o with
    | some started => some (.refused .agent_active
        s!"the agent has already run ({started}); an import never overwrites a live agent's workspace")
    | none =>
      match paths.find? (seededPaths tenantId agentId o).contains with
      | some clash => some (.refused .reserved
          s!"{clash} is a file the evaluation setup seeded; import under another path")
      | none => none

def stateRow (now : Int) (r : ImportRow) : StateRow := ⟨tenantId, agentId, r.path, r.value, r.ref, r.bytes, now⟩

/-- The statement that writes a file's row. -/
def putRow (now : Int) (r : ImportRow) (rows : List StateRow) : List StateRow :=
  Table.upsert (stateKey tenantId agentId r.path) (stateRow tenantId agentId now r)
    (fun old => { old with value := r.value, ref := r.ref, bytes := r.bytes, updatedAt := now }) rows

/-- `INSERT OR REPLACE INTO import_excerpt`. -/
def putExcerpt (path ref : String) (shown : Str × Nat) (rows : List ExcerptRow) : List ExcerptRow :=
  Table.delete (fun e => e.tenantId == tenantId && e.agentId == agentId && e.path == path) rows ++
    [⟨tenantId, agentId, path, ref, shown.1, shown.2⟩]

def putState (now : Int) (r : ImportRow) (o : Obj) : Obj :=
  { o with
    agent := o.agent.withStore
      { o.agent.store with agentState := putRow tenantId agentId now r o.agent.store.agentState } }

/-- The statements of one file. -/
def fileStatements (now : Int) (r : ImportRow) : List (Obj → Obj) :=
  putState tenantId agentId now r ::
    match r.ref.filter (· ≠ ""), r.excerpt with
    | some ref, some shown => [id, fun o => { o with excerpts := putExcerpt tenantId agentId r.path ref shown o.excerpts }]
    | _, _ => []

def importRow (imp : ImportRequest) (now : Int) : WorkspaceImportRow :=
  ⟨tenantId, agentId, imp.migrationId, imp.digest, now, sortFiles imp.files, if imp.instructions then .pending else .none⟩

/-- `commitImport`: what it answers, and the statements that write it. -/
def commitImport (env : SeedEnv) (imp : ImportRequest) (now : Int) (o : Obj) : CommitResult × List (Obj → Obj) :=
  match importDecided tenantId agentId env imp.digest (imp.rows.map (·.path)) o with
  | some decided => (decided, [])
  | none =>
    let lift := if imp.instructions then (none, []) else liftHold tenantId agentId .import now o
    (.ok true (importRow tenantId agentId imp now).record lift.1,
      [id] ++ imp.rows.flatMap (fileStatements tenantId agentId now) ++
        [fun o => { o with imports := o.imports ++ [importRow tenantId agentId imp now] }] ++ lift.2)

/-- The transaction of `importWorkspace`. -/
def importWorkspace (env : SeedEnv) (imp : ImportRequest) (now : Int) (throwsAt : Option Nat) (o : Obj) :
    Option CommitResult × Obj :=
  let c := commitImport tenantId agentId env imp now o
  let ended := match c.1 with
    | .ok _ _ lifted => holdEnded lifted
    | .refused _ _ => []
  let prewarm := match c.1 with
    | .ok true record _ => if record.instructions = .none then queuePrewarm tenantId agentId record.migrationId now o else []
    | _ => []
  transact (c.1, c.2 ++ ended ++ prewarm) throwsAt o

def applyRow (r : WorkspaceImportRow) : WorkspaceImportRow := { r with instructions := .applied }

/-- The statement of `markInstructionsApplied`. -/
def markApplied (migrationId : String) (o : Obj) : Obj :=
  { o with
    imports := Table.update (fun r => importOf tenantId agentId r && r.migrationId == migrationId && r.instructions == .pending)
      applyRow o.imports }

/-- The transaction of `importInstructionsApplied`. -/
def importInstructionsApplied (migrationId : String) (now : Int) (throwsAt : Option Nat) (o : Obj) :
    Option (Option ImportHold) × Obj :=
  let marked := markApplied tenantId agentId migrationId o
  let done := (readImport tenantId agentId marked).any fun r => r.1.migrationId == migrationId && r.1.instructions == .applied
  let lift := if done then liftHold tenantId agentId .import now o else (none, [])
  let prewarm := if done then queuePrewarm tenantId agentId migrationId now o else []
  transact (lift.1, [markApplied tenantId agentId migrationId] ++ lift.2 ++ holdEnded lift.1 ++ prewarm) throwsAt o

end Tables

end Antiproton.Import
