import Antiproton.Store.DurableObject

/-!
# Antiproton.Store.SeedRecord

Each agent's record of the deployment catalogue (`src/store/seed-record.ts`): the pass that brings an agent up to
it, and the notices of what a pass added.
-/

namespace Antiproton

/-- A catalogue entry on one agent. -/
structure SeedSlot where
  tenantId : String
  agentId : String
  entryAlias : String
  since : Nat
deriving DecidableEq, Repr

def OutcomeRow.slot (r : OutcomeRow) : SeedSlot := ⟨r.tenantId, r.agentId, r.entryAlias, r.since⟩

def NoticeRow.slot (r : NoticeRow) : SeedSlot := ⟨r.tenantId, r.agentId, r.entryAlias, r.since⟩

def outcomeKey (s : SeedSlot) (r : OutcomeRow) : Bool := r.slot == s

def noticeKey (s : SeedSlot) (r : NoticeRow) : Bool := r.slot == s

def reconcileKey (tenantId agentId : String) (r : ReconcileRow) : Bool :=
  r.tenantId == tenantId && r.agentId == agentId

/-! ## The plan -/

/-- Why the runtime withholds an entry. -/
inductive Withheld where
  | declined | notFor | unavailable | refused
deriving DecidableEq, Repr

def Withheld.outcome : Withheld → SeedOutcome
  | .declined => .declined
  | .notFor => .notFor
  | .unavailable => .unavailable
  | .refused => .refused

/-- The runtime's judgement of an entry. -/
inductive SeedJudgement where
  | withheld (why : Withheld) (reason : String)
  | mount (m : MountRecord)
deriving DecidableEq, Repr

/-- `SeedPlan`: an entry of the catalogue, and what the runtime makes of it; the mount it would add is the entry's own
(`reconcileSeeds` of `cf/src/runtime.ts`). -/
structure SeedPlan where
  entryAlias : String
  plugin : String
  since : Nat
  judgement : SeedJudgement
  own : ∀ m, judgement = .mount m → m.mountAlias = entryAlias ∧ m.plugin = plugin

def SeedPlan.slot (p : SeedPlan) (tenantId agentId : String) : SeedSlot := ⟨tenantId, agentId, p.entryAlias, p.since⟩

/-! ## A pass -/

/-- A pass under way: the database so far, the agent's mounts by alias and plugin, and the rows to report. -/
structure SeedPass where
  db : Db
  mounts : List (String × String)
  changed : List OutcomeRow
  added : List OutcomeRow
  noticed : List OutcomeRow

/-- Whether an entry is settled: the agent has had it. -/
def settled (before : Option OutcomeRow) : Bool :=
  before.any fun r => decide (r.outcome = .added ∨ r.outcome = .present)

/-- What becomes of an entry, and the mount to add. -/
def judge (mounts : List (String × String)) (p : SeedPlan) : SeedOutcome × Option String × Option MountRecord :=
  let have_ := mounts.find? (·.1 == p.entryAlias)
  if have_.any (·.2 == p.plugin) then (.present, none, none)
  else
    match mounts.find? (·.2 == p.plugin) with
    | some elsewhere => (.present, some s!"already mounted as {elsewhere.1}", none)
    | none =>
      match p.judgement with
      | .withheld why reason => (why.outcome, some reason, none)
      | .mount m =>
        match have_ with
        | some have_ =>
          (.refused, some s!"{p.entryAlias} is a {have_.2} mount, not the {p.plugin} seed", none)
        | none => (.added, none, some m)

/-- `INSERT INTO mounts`, in the pass's transaction. -/
def insertSeedMount (tenantId agentId : String) (m : MountRecord) (db : Db) : Except JsError Db :=
  let row := { m with tenantId := tenantId, agentId := agentId }
  match Table.insert (mountKey tenantId agentId m.mountAlias) row db.mounts with
  | some mounts => .ok { db with mounts := mounts }
  | none => .error (uniqueFailed "mounts.tenant_id, mounts.agent_id, mounts.alias")

def recordOutcome (row : OutcomeRow) (db : Db) : Db :=
  let seedOutcomes := Table.upsert (outcomeKey row.slot) row
    (fun r => { r with plugin := row.plugin, outcome := row.outcome, reason := row.reason, at_ := row.at_ })
    db.seedOutcomes
  { db with seedOutcomes := seedOutcomes }

def recordNotice (row : OutcomeRow) (db : Db) : Db :=
  let seedNotices := Table.upsert (noticeKey row.slot)
    ⟨row.tenantId, row.agentId, row.entryAlias, row.since, row.plugin, row.at_, none, none, none⟩
    (fun r => { r with plugin := row.plugin, addedAt := row.at_, deliveredAt := none }) db.seedNotices
  { db with seedNotices := seedNotices }

/-- What a pass writes of an outcome that changed: the outcome, the notice of an added entry unless the agent is
being given its first tools, and the trace row. -/
def SeedPass.record (s : SeedPass) (row : OutcomeRow) (creating : Bool) : SeedPass :=
  let added := decide (row.outcome = .added)
  let notice := added && !creating
  let db := recordOutcome row s.db
  let db := if notice then recordNotice row db else db
  let db := appendTrace (seededRow row (if added then some (if notice then "pending" else "first tools") else none)) db
  ⟨db, s.mounts, s.changed ++ [row], if added then s.added ++ [row] else s.added,
    if notice then s.noticed ++ [row] else s.noticed⟩

/-- One entry of a pass. -/
def seedEntry (tenantId agentId : String) (now : Int) (creating : Bool) (prior : List OutcomeRow) (s : SeedPass)
    (p : SeedPlan) : Except JsError SeedPass :=
  let before := Table.one (outcomeKey (p.slot tenantId agentId)) prior
  if settled before then .ok s
  else do
    let (outcome, reason, mount) := judge s.mounts p
    let s ← match mount with
      | none => .ok s
      | some m => (insertSeedMount tenantId agentId m s.db).map fun db =>
        { s with db := db, mounts := s.mounts ++ [(m.mountAlias, m.plugin)] }
    if before.any fun r => decide (r.outcome = outcome) && r.reason == reason then return s
    else
      return s.record ⟨tenantId, agentId, p.entryAlias, p.since, p.plugin, outcome, reason, now⟩ creating

/-- Why a pass did not run. -/
inductive SeedSkip where
  | unchanged | chosen
deriving DecidableEq, Repr

/-- `SeedPassResult`. -/
inductive SeedPassResult where
  | skipped (why : SeedSkip)
  | ran (changed added noticed : List OutcomeRow)
deriving DecidableEq, Repr

/-- Whether a pass gives the agent its first tools: none has run on it, and it has no mount. -/
def creating (tenantId agentId : String) (db : Db) : Bool :=
  (Table.one (reconcileKey tenantId agentId) db.seedReconcile).isNone && !db.mounts.any (mountOf tenantId agentId)

/-- The key of a pass, written last. -/
def recordPass (tenantId agentId key : String) (revision : Nat) (now : Int) (db : Db) : Db :=
  let seedReconcile := Table.upsert (reconcileKey tenantId agentId)
    ⟨tenantId, agentId, some key, some revision, false, now⟩
    (fun r => { r with key := some key, revision := some revision, updatedAt := now }) db.seedReconcile
  { db with seedReconcile := seedReconcile }

/-- The agent's mounts, by alias and plugin. -/
def heldMounts (tenantId agentId : String) (db : Db) : List (String × String) :=
  (Table.select (mountOf tenantId agentId) db.mounts).map fun m => (m.mountAlias, m.plugin)

/-- The entries of a pass, in the order of the plan. -/
def seedEntries (tenantId agentId : String) (now : Int) (plan : List SeedPlan) (db : Db) : Except JsError SeedPass :=
  plan.foldlM (seedEntry tenantId agentId now (creating tenantId agentId db) db.seedOutcomes)
    ⟨db, heldMounts tenantId agentId db, [], [], []⟩

/-- `applySeedPass`. -/
def applySeedPass (tenantId agentId key : String) (revision : Nat) (plan : List SeedPlan) (now : Int) (db : Db) :
    Except JsError (SeedPassResult × Db) :=
  let state := Table.one (reconcileKey tenantId agentId) db.seedReconcile
  if state.any (·.chosen) then .ok (.skipped .chosen, db)
  else if state.any (·.key == some key) then .ok (.skipped .unchanged, db)
  else do
    let s ← seedEntries tenantId agentId now plan db
    return (.ran s.changed s.added s.noticed, recordPass tenantId agentId key revision now s.db)

/-- `markSeedsChosen`. -/
def markSeedsChosen (tenantId agentId : String) (now : Int) (db : Db) : Db :=
  let seedReconcile := Table.upsert (reconcileKey tenantId agentId) ⟨tenantId, agentId, none, none, true, now⟩
    (fun r => { r with chosen := true, updatedAt := now }) db.seedReconcile
  { db with seedReconcile := seedReconcile }

/-! ## Notices -/

/-- Whether a notice is still to be told. -/
def NoticeRow.pending (n : NoticeRow) : Bool := n.deliveredAt.isNone && n.voidedAt.isNone

/-- `pendingSeedNotices`: oldest entry first. -/
def pendingSeedNotices (tenantId agentId : String) (db : Db) : List NoticeRow :=
  Table.orderBy (fun n => n.since) (Table.orderBy (·.entryAlias) (Table.select
    (fun n => n.tenantId == tenantId && n.agentId == agentId && n.pending) db.seedNotices))

/-- The pending row of a notice. -/
def pendingAt (s : SeedSlot) (n : NoticeRow) : Bool := noticeKey s n && n.pending

/-- `takeSeedNotices`: the pending notices named by `which`, stamped delivered. -/
def takeSeedNotices (tenantId agentId : String) (which : List (String × Nat)) (now : Int) (db : Db) :
    List NoticeRow × Db :=
  let taken := (pendingSeedNotices tenantId agentId db).filter fun n => which.contains (n.entryAlias, n.since)
  let seedNotices := taken.foldl (fun t n => Table.update (pendingAt ⟨tenantId, agentId, n.entryAlias, n.since⟩)
    (fun r => { r with deliveredAt := some now }) t) db.seedNotices
  (taken.map fun n => { n with deliveredAt := some now }, { db with seedNotices := seedNotices })

/-- A notice given up, and why. -/
structure VoidedNotice where
  entryAlias : String
  since : Nat
  reason : String
deriving DecidableEq, Repr

/-- `voidSeedNotices`. -/
def voidSeedNotices (tenantId agentId : String) (rows : List VoidedNotice) (now : Int) (db : Db) : Db :=
  let seedNotices := rows.foldl (fun t v => Table.update (pendingAt ⟨tenantId, agentId, v.entryAlias, v.since⟩)
    (fun r => { r with voidedAt := some now, voidReason := some v.reason }) t) db.seedNotices
  { db with seedNotices := seedNotices }

/-- `returnSeedNotices`: taken notices back to pending. -/
def returnSeedNotices (tenantId agentId : String) (rows : List NoticeRow) (db : Db) : Db :=
  let seedNotices := rows.foldl (fun t n => Table.update
    (fun r => noticeKey ⟨tenantId, agentId, n.entryAlias, n.since⟩ r && n.deliveredAt.isSome &&
      r.deliveredAt == n.deliveredAt)
    (fun r => { r with deliveredAt := none }) t) db.seedNotices
  { db with seedNotices := seedNotices }

end Antiproton
