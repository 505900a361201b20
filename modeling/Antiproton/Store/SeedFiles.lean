import Antiproton.Store.DurableObject

/-!
# Antiproton.Store.SeedFiles

Workspace files given to an agent before it first runs, and the seal that ends that window
(`src/store/seed-files.ts`). Two copies of each file are written together: its snapshot, a row of
`seed_files`, and the working copy, a row of `agent_state` at the file's path.
-/

namespace Antiproton

open Js

/-- `SEED_AGENT_MAX_BYTES`: all of an agent's seeded files together. -/
def seedAgentMaxBytes : Nat := 2 * 1024 * 1024

/-- `STATE_INLINE_MAX` (`src/plugins/state-key.ts`): a value whose JSON is longer is kept in object storage. -/
def stateInlineMax : Nat := 32 * 1024

/-- What the module is given by the platform: `sha256` in hexadecimal, and `toISOString`. -/
structure SeedEnv where
  sha256 : List UInt8 → String
  isoTime : Int → String

/-- `sha256Hex` of a string. -/
def SeedEnv.sha256Hex (env : SeedEnv) (s : Str) : String := env.sha256 (utf8 s)

/-- A platform whose hash is the length of what it hashes. -/
def lengthEnv : SeedEnv := ⟨fun bytes => toString bytes.length, fun _ => "epoch"⟩

/-! ## What the agent has done

The tables of the engine and of inbound pushes, as far as `priorActivity` reads them; a table never made
has no rows. -/

/-- A row of `pi_entries`: an entry of the main transcript. -/
structure PiEntryRow where
  type : String
deriving DecidableEq, Repr

/-- A row of `main_sessions`: a main conversation, and when a fresh context ended it. -/
structure MainSessionRow where
  endedAt : Option Int
deriving DecidableEq, Repr

/-- A row of `inbound_events`: what became of a push. -/
structure InboundEventRow where
  outcome : String
deriving DecidableEq, Repr

/-- A row of `inbound_pending`: a push accepted and not yet posted. -/
structure InboundPendingRow where
  hookId : String
deriving DecidableEq, Repr

/-- An agent's object: its store, and the tables the engine and the hooks keep beside it. -/
structure AgentObject where
  store : Db
  piEntries : List PiEntryRow
  mainSessions : List MainSessionRow
  inboundPending : List InboundPendingRow
  inboundEvents : List InboundEventRow
deriving DecidableEq, Repr

def AgentObject.withStore (o : AgentObject) (db : Db) : AgentObject := { o with store := db }

@[simp] theorem AgentObject.withStore_store (o : AgentObject) (db : Db) : (o.withStore db).store = db := rfl

/-- `priorActivity`: why this agent has already run. -/
def priorActivity (o : AgentObject) : Option String :=
  if o.piEntries.any (·.type == "message") then some "its main conversation has messages"
  else if o.mainSessions.any (·.endedAt.isSome) then some "it has had a fresh context"
  else if !o.inboundPending.isEmpty || o.inboundEvents.any (·.outcome == "delivered") then
    some "a push was accepted for it"
  else none

/-! ## Tool configuration -/

/-- `canonicalToolConfig` (`src/core/tool-config.ts`): the mount list sorted by code unit. -/
def canonicalToolConfig (t : ToolConfig) : ToolConfig :=
  ⟨t.mounts.map fun mounts => mounts.insertionSort (· ≤ ·), t.harness⟩

/-- A list of strings, if every item is one. -/
def strings : List Json → Option (List Str)
  | [] => some []
  | .str s :: rest => (strings rest).map (s :: ·)
  | _ :: _ => none

/-- `HarnessMode`, by its text. -/
def harnessOf : Json → Option HarnessMode
  | .str s => if s = js "default" then some .default else if s = js "minimal" then some .minimal else none
  | _ => none

def HarnessMode.text : HarnessMode → String
  | .default => "default"
  | .minimal => "minimal"

/-- The mount list of a configuration: `null`, or a list of strings. -/
def mountListOf : Option Json → Option (Option (List Str))
  | some .null => some none
  | some (.arr items) => (strings items).map some
  | _ => none

/-- `toolConfigOf`: `none` when there is none, or one this build cannot read. -/
def toolConfigOf (config : Json) : Option ToolConfig :=
  match config.field? (js "toolConfig") with
  | some (.obj fields) =>
    match mountListOf ((Json.obj fields).field? (js "mounts")),
      ((Json.obj fields).field? (js "harness")).bind harnessOf with
    | some mounts, some harness => some (canonicalToolConfig ⟨mounts, harness⟩)
    | _, _ => none
  | _ => none

/-- A `ToolConfig` as JSON. -/
def ToolConfig.json (t : ToolConfig) : Json :=
  .obj [(js "mounts", match t.mounts with
      | none => .null
      | some mounts => .arr (mounts.map .str)),
    (js "harness", .ofString t.harness.text)]

/-- `readToolConfig`: the agent record's, read where the record lives. -/
def readToolConfig (tenantId agentId : String) (db : Db) : Option ToolConfig :=
  (Table.one (agentKey tenantId agentId) db.agents).bind fun r => toolConfigOf r.config

/-! ## The manifest and the seal -/

def SeedMode.text : SeedMode → String
  | .writable => "writable"
  | .readonly => "readonly"

def SealHow.text : SealHow → String
  | .explicit => "explicit"
  | .firstInbound => "first-inbound"
  | .firstTurn => "first-turn"
  | .priorActivity => "prior-activity"

/-- A row of the manifest as JSON. -/
def SeedFileMeta.json (f : SeedFileMeta) : Json :=
  .obj [(js "path", .ofString f.path), (js "mode", .ofString f.mode.text),
    (js "bytes", .num (js (toString f.bytes))), (js "sha256", .ofString f.sha256)]

/-- `meta`. -/
def SeedFileRow.info (r : SeedFileRow) : SeedFileMeta := ⟨r.path, r.mode, r.bytes, r.sha256⟩

/-- `listSeedFiles`: every seeded file of the agent, without content, sorted by path. -/
def listSeedFiles (tenantId agentId : String) (db : Db) : List SeedFileMeta :=
  (Table.orderBy (·.path) (Table.select (seedFileOf tenantId agentId) db.seedFiles)).map (·.info)

/-- `manifestSha256`: of the manifest's canonical JSON, the tool configuration beside it if there is one. -/
def manifestSha256 (env : SeedEnv) (manifest : List SeedFileMeta) (toolConfig : Option ToolConfig) : String :=
  let files := Json.arr (manifest.map (·.json))
  env.sha256Hex (match toolConfig with
    | none => files.canonJson
    | some t => (Json.obj [(js "manifest", files), (js "toolConfig", t.json)]).canonJson)

/-- `SeedSeal`. -/
structure SeedSeal where
  sealedAt : Int
  how : SealHow
  manifestSha256 : String
  manifest : List SeedFileMeta
  toolConfig : Option ToolConfig
deriving DecidableEq, Repr

/-- The seal a row holds. -/
def SeedSealRow.read (r : SeedSealRow) : SeedSeal :=
  ⟨r.sealedAt, r.how, r.manifestSha256, r.manifest,
    r.toolConfig.bind fun t => toolConfigOf (.obj [(js "toolConfig", t)])⟩

/-- `readSeal`. -/
def readSeal (tenantId agentId : String) (db : Db) : Option SeedSeal :=
  (Table.one (sealKey tenantId agentId) db.seedSeal).map (·.read)

/-- `sealSeedFiles`: the first call writes the row with the manifest as it stands, every later one finds it.
Whether this call sealed, and the database after. -/
def sealSeedFiles (env : SeedEnv) (tenantId agentId : String) (how : SealHow) (now : Int) (db : Db) :
    (SeedSeal × Bool) × Db :=
  match readSeal tenantId agentId db with
  | some had => ((had, false), db)
  | none =>
    let manifest := listSeedFiles tenantId agentId db
    let toolConfig := readToolConfig tenantId agentId db
    let hash := manifestSha256 env manifest toolConfig
    let row : SeedSealRow := ⟨tenantId, agentId, now, how, hash, manifest, toolConfig.map (·.json)⟩
    ((⟨now, how, hash, manifest, toolConfig⟩, true), { db with seedSeal := db.seedSeal ++ [row] })

/-! ## Writing a file -/

/-- `seedInline`: whether a text kept as a state value stays in its row. -/
def seedInline (text : Str) : Bool := storedBytes (.str text) ≤ stateInlineMax

/-- `SeedWrite`: one file to seed, its two copies already decided. -/
structure SeedWrite where
  path : String
  mode : SeedMode
  bytes : Nat
  sha256 : String
  content : Option Str
  ref : Option String
  working : StateEntry
  misfit : Option String

/-- Why a write was refused. -/
inductive SeedRefusal where
  | sealed | agentCap | documentCap | spill
deriving DecidableEq, Repr

/-- `SeedStoreResult`. -/
inductive SeedStoreResult where
  | ok (changed : Bool) (file : SeedFileMeta)
  | refused (code : SeedRefusal) (message : String)
deriving DecidableEq, Repr

def SeedWrite.info (w : SeedWrite) : SeedFileMeta := ⟨w.path, w.mode, w.bytes, w.sha256⟩

/-- Whether a copy of the file is too large for its row. -/
def SeedWrite.oversized (w : SeedWrite) : Bool :=
  w.content.any (fun c => !seedInline c) || w.working.value.any fun v => stateInlineMax < v.stringify.length

/-- Both copies of a file. -/
def SeedWrite.copies (w : SeedWrite) (tenantId agentId : String) (now : Int) (db : Db) : Db :=
  let seedFiles := Table.upsert (seedFileKey tenantId agentId w.path)
    ⟨tenantId, agentId, w.path, w.mode, w.bytes, w.sha256, w.content, w.ref, now⟩
    (fun r => { r with mode := w.mode, bytes := w.bytes, sha256 := w.sha256, content := w.content, ref := w.ref
                       seededAt := now }) db.seedFiles
  let agentState := Table.upsert (stateKey tenantId agentId w.path)
    ⟨tenantId, agentId, w.path, w.working.value, w.working.ref, w.working.bytes, now⟩
    (fun r => { r with value := w.working.value, ref := w.working.ref, bytes := w.working.bytes, updatedAt := now })
    db.agentState
  { db with seedFiles := seedFiles, agentState := agentState }

/-- The bytes of the agent's other files. -/
def otherSeedBytes (tenantId agentId path : String) (db : Db) : Nat :=
  ((Table.select (fun r => seedFileOf tenantId agentId r && !(r.path == path)) db.seedFiles).map (·.bytes)).sum

/-- Whether the file already holds these bytes under this mode. -/
def seedRepeat (tenantId agentId : String) (w : SeedWrite) (db : Db) : Bool :=
  (Table.one (seedFileKey tenantId agentId w.path) db.seedFiles).any fun r =>
    decide (r.mode = w.mode) && r.sha256 == w.sha256

/-- A write of a file past the seal: what it answers, and the database after. -/
def writeUnsealed (tenantId agentId : String) (w : SeedWrite) (now : Int) (db : Db) : SeedStoreResult × Db :=
  if seedRepeat tenantId agentId w db then (.ok false w.info, db)
  else
    match w.misfit.filter (· ≠ "") with
    | some message => (.refused .documentCap message, db)
    | none =>
      if w.oversized then
        (.refused .spill s!"{w.path} is too large to keep in its row and is no longer a repeat; spill it", db)
      else
        let others := otherSeedBytes tenantId agentId w.path db
        if seedAgentMaxBytes < others + w.bytes then
          (.refused .agentCap (s!"an agent's seeded files are at most {seedAgentMaxBytes} bytes together; " ++
            s!"the others hold {others} and this is {w.bytes}"), db)
        else (.ok true w.info, w.copies tenantId agentId now db)

/-- The refusal of a sealed workspace. -/
def sealedRefusal (env : SeedEnv) (s : SeedSeal) : SeedStoreResult :=
  .refused .sealed (s!"the workspace was sealed ({s.how.text}) at {env.isoTime s.sealedAt}; " ++
    "seeded files can no longer change")

/-- `writeSeedFile`. An agent that has already run is sealed here, and refused. -/
def writeSeedFile (env : SeedEnv) (tenantId agentId : String) (w : SeedWrite) (now : Int) (o : AgentObject) :
    SeedStoreResult × AgentObject :=
  match readSeal tenantId agentId o.store with
  | some s => (sealedRefusal env s, o)
  | none =>
    if (priorActivity o).isSome then
      let r := sealSeedFiles env tenantId agentId .priorActivity now o.store
      (sealedRefusal env r.1.1, { o with store := r.2 })
    else
      let r := writeUnsealed tenantId agentId w now o.store
      (r.1, { o with store := r.2 })

/-! ## The two writes a file is sent as

`seedWrite` of `cf/src/runtime.ts`: with its text inline, or with both copies in object storage under names
made from its hash. -/

/-- The inline write of a text. -/
def inlineWrite (env : SeedEnv) (path : String) (mode : SeedMode) (text : Str) (misfit : Option String) : SeedWrite :=
  { path, mode, bytes := (utf8 text).length, sha256 := env.sha256Hex text, content := some text, ref := none
    working := ⟨some (.str text), none, storedBytes (.str text)⟩, misfit }

/-- The write of a text whose copies are the objects `ref` and `workingRef`. -/
def spilledWrite (env : SeedEnv) (path : String) (mode : SeedMode) (text : Str) (misfit : Option String)
    (ref workingRef : String) : SeedWrite :=
  { path, mode, bytes := (utf8 text).length, sha256 := env.sha256Hex text, content := none, ref := some ref
    working := ⟨none, some workingRef, storedBytes (.str text)⟩, misfit }

end Antiproton
