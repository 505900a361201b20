import Antiproton.Conversations.PiTables
import Antiproton.Lib.History
import Antiproton.Lib.Table
import Antiproton.Overflow.Backstop

/-!
# Antiproton.Conversations.FreshMain

The main conversation of an agent and its fresh starts (`cf/src/fresh-context.ts`). Its transcript is the main session's
tables; a fresh start renames them to an archived session's and makes them again, and an erase drops what it renamed.

A `Page` is what one conversation is owed, kept beside the database by what was asked and answered and by nothing the
database holds: the entries and usage appended while it was the current one, in order, and the jobs filed.
-/

namespace Antiproton.Conversations

open Js

/-! ## The database -/

/-- A row of one of the five tables: its text key, its number (`seq`, or the one a meta row holds), and the rest. -/
structure Row (B : Type) where
  key : Str × Str
  seq : Nat
  body : Option B

/-- Why a main conversation's transcript began. -/
inductive MainCause where
  | fresh_context | rebuild
deriving DecidableEq

/-- A row of `main_sessions`. One written before the cause was has none. -/
structure MainRow where
  generation : Nat
  sessionId : Str
  archivedAs : Option Str
  startedAt : Option Int
  endedAt : Option Int
  cause : Option MainCause
deriving DecidableEq

/-- A row of `pi_model_jobs`, as far as a conversation is concerned. -/
structure JobRow where
  id : Str
  session : Str
deriving DecidableEq

/-- The tables of an agent that a fresh start reads and writes; those not made yet are `none`. -/
structure Db (B : Type) where
  catalog : Catalog Str (Row B)
  mains : Option (List MainRow)
  jobs : Option (List JobRow)
  sessions : Option (List Str)
  backstop : Overflow.Backstop

variable {B : Type}

/-! ## Which conversation is which -/

/-- The id of an agent's first main conversation. -/
def FIRST_MAIN_ID : Str := MAIN_SESSION

def archivedName (id : Str) : Str := js "archived:" ++ id

/-- `ORDER BY generation DESC LIMIT 1` of the rows that have not ended. -/
def currentMainId (db : Db B) : Str :=
  match (Table.orderBy (·.generation) (Table.select (·.endedAt.isNone) (db.mains.getD []))).getLast? with
  | some r => r.sessionId
  | none => FIRST_MAIN_ID

structure MainSession where
  sessionId : Str
  generation : Nat
  current : Bool
  startedAt : Option Int
  endedAt : Option Int
  cause : Option MainCause
deriving DecidableEq

def MainRow.session (r : MainRow) : MainSession :=
  ⟨r.sessionId, r.generation, r.endedAt.isNone, r.startedAt, r.endedAt, r.cause⟩

/-- Every main conversation the agent has had, oldest first. -/
def mainSessions (db : Db B) : List MainSession :=
  let got := (Table.orderBy (·.generation) (db.mains.getD [])).map MainRow.session
  if got = [] then [⟨FIRST_MAIN_ID, 0, true, none, none, none⟩] else got

/-- The loop of `logicalMain`: back from `i` through the transcripts that began as a rebuild. -/
def chainStart (all : List MainSession) : Nat → Nat
  | 0 => 0
  | i + 1 => if (all[i + 1]?).any (·.cause == some .rebuild) then chainStart all i else i + 1

structure LogicalMain where
  conversation : Str
  transcripts : List Str
  rebuilds : Nat
deriving DecidableEq

def logicalOf (all : List MainSession) : LogicalMain :=
  let chain := (all.drop (chainStart all (all.length - 1))).map (·.sessionId)
  ⟨chain.headD [], chain, chain.length - 1⟩

def logicalMain (db : Db B) : LogicalMain := logicalOf (mainSessions db)

/-- The session whose tables hold the conversation `id`. -/
def physicalSession (db : Db B) (id : Str) : Option Str :=
  if id = currentMainId db then some MAIN_SESSION
  else (Table.one (fun r => r.sessionId == id && r.archivedAs.isSome) (db.mains.getD [])).bind (·.archivedAs)

/-- `readEntries`: a session's entries by `seq`, none when its table was never made. -/
def readEntries (db : Db B) (session : Str) : List (Row B) :=
  Table.orderBy (·.seq) ((db.catalog.table (piTable session .entries)).getD [])

/-- `scanUsage` without bounds: a session's usage rows by `seq`. -/
def scanUsage (db : Db B) (session : Str) : List (Row B) :=
  Table.orderBy (·.seq) ((db.catalog.table (piTable session .usage)).getD [])

/-! ## Commits to the main transcript -/

/-- A write of a commit; without a body it deletes. -/
inductive Write (B : Type) where
  | entry (id : Str) (body : B)
  | usage (id : Str) (body : B)
  | value (ns key : Str) (body : Option B)
  | list (ns key : Str) (body : Option B)

def Write.kind : Write B → Kind
  | entry .. => .entries
  | usage .. => .usage
  | value .. => .values
  | list .. => .list

/-- What a write does to the rows of its table, under the table's own constraints. -/
def Write.put (seq : Nat) : Write B → List (Row B) → Option (List (Row B))
  | .entry id body, rows | .usage id body, rows =>
    Table.insert (fun r => r.key == ([], id) || r.seq == seq) ⟨([], id), seq, some body⟩ rows
  | .value ns key (some body), rows =>
    some (Table.upsert (·.key == (ns, key)) ⟨(ns, key), seq, some body⟩ (fun r => { r with seq, body := some body }) rows)
  | .list ns key (some body), rows =>
    Table.insert (fun r => r.key == (ns, key) && r.seq == seq) ⟨(ns, key), seq, some body⟩ rows
  | .value ns key none, rows | .list ns key none, rows => some (Table.delete (·.key == (ns, key)) rows)

def mainTable (k : Kind) : Str := piTable MAIN_SESSION k

def NEXT_SEQ : Str × Str := ([], js "next_seq")

/-- `#meta("next_seq", 1)`. -/
def nextSeq (c : Catalog Str (Row B)) : Nat :=
  ((c.table (mainTable .meta_)).bind (Table.one (·.key == NEXT_SEQ))).elim 1 (·.seq)

def setNextSeq (n : Nat) (rows : List (Row B)) : Option (List (Row B)) :=
  some (Table.upsert (·.key == NEXT_SEQ) ⟨NEXT_SEQ, n, none⟩ (fun r => { r with seq := n }) rows)

/-- The writes of a commit, numbered from `seq` on. -/
def putAll (seq : Nat) : List (Write B) → Catalog Str (Row B) → Option (Catalog Str (Row B))
  | [], c => some c
  | w :: rest, c => (c.change (mainTable w.kind) (w.put seq)).bind (putAll (seq + 1) rest)

/-- `#commitNow`, in its transaction. The two totals it keeps in the meta table are left out. -/
def commitNow (writes : List (Write B)) (c : Catalog Str (Row B)) : Option (Catalog Str (Row B)) :=
  (putAll (nextSeq c) writes c).bind fun c' =>
    if writes = [] then some c' else c'.change (mainTable .meta_) (setNextSeq (nextSeq c + writes.length))

/-! ## Fresh starts -/

/-- The largest number of which every smaller one has a successor of its own. -/
def MAX_EXACT : Nat := 2 ^ 53

/-- `n + 1` of a number no larger than that. -/
def addOne (n : Nat) : Nat := if n < MAX_EXACT then n + 1 else n

/-- The current tables become the archived session's, indexes made again under its names, and the main ones are made anew. -/
def moveAside (archive : Str) (c : Catalog Str (Row B)) : Option (Catalog Str (Row B)) :=
  (Catalog.renameAll (Kind.all.map fun k => (mainTable k, piTable archive k))
    (Catalog.dropIndexesOn (Kind.all.map mainTable) c)).bind fun c =>
      (ensurePiTables archive c).bind (ensurePiTables MAIN_SESSION)

/-- `COALESCE(MAX(generation), 0)`. -/
def lastGeneration (rows : List MainRow) : Nat := (rows.map (·.generation)).foldl max 0

/-- The rows of `main_sessions` after one conversation ended and another began; `none` where a key is taken. -/
def recordMain (old new : Str) (generation : Nat) (now : Int) (cause : MainCause) (rows : List MainRow) :
    Option (List MainRow) :=
  let rows := Table.insertOrIgnore (fun r => r.generation == 0 || r.sessionId == FIRST_MAIN_ID)
    ⟨0, FIRST_MAIN_ID, none, none, none, none⟩ rows
  let rows := Table.update (·.sessionId == old)
    (fun r => { r with endedAt := some now, archivedAs := some (archivedName old) }) rows
  Table.insert (fun r => r.generation == generation || r.sessionId == new)
    ⟨generation, new, none, some now, none, some cause⟩ rows

/-- `freshMain`: the old id and the new one; `none` where a statement throws, and the transaction with it. -/
def freshMain (db : Db B) (now : Int) (cause : MainCause) : Option ((Str × Str) × Db B) :=
  let rows := db.mains.getD []
  let backstop := if cause = .fresh_context then Overflow.clearBackstop db.backstop else db.backstop
  let old := currentMainId db
  let generation := addOne (lastGeneration rows)
  let new := FIRST_MAIN_ID ++ js "." ++ js (toString generation)
  (ensurePiTables MAIN_SESSION db.catalog).bind fun c =>
    (moveAside (archivedName old) c).bind fun catalog =>
      (recordMain old new generation now cause rows).map fun mains =>
        ((old, new), { db with catalog, mains := some mains, backstop })

/-- `eraseMain`: `some none` where it finds nothing to erase. -/
def eraseMain (db : Db B) (now : Int) : Option (Option (Str × Str) × Db B) :=
  let entries := (db.catalog.table (mainTable .entries)).any fun rows => !rows.isEmpty
  let jobs := db.jobs.any fun rows => rows.any (·.session == MAIN_SESSION)
  if !entries && !jobs then some (none, db)
  else (freshMain db now .fresh_context).map fun (out, db) =>
    let archive := archivedName out.1
    (some out, { db with
      catalog := Catalog.dropAll (Kind.all.map (piTable archive)) db.catalog
      mains := db.mains.map (Table.update (·.sessionId == out.1) fun r => { r with archivedAs := none })
      sessions := db.sessions.map (Table.delete (· == archive))
      jobs := db.jobs.map (Table.delete (·.session == MAIN_SESSION)) })

/-- `ensureAgentTables` and `#startJob` for the main session. -/
def startJob (id : Str) (db : Db B) : Option (Db B) :=
  (ensurePiTables MAIN_SESSION db.catalog).bind fun catalog =>
    (Table.insert (·.id == id) ⟨id, MAIN_SESSION⟩ (db.jobs.getD [])).map fun jobs =>
      { db with
        catalog
        jobs := some jobs
        sessions := some (Table.insertOrIgnore (· == MAIN_SESSION) MAIN_SESSION (db.sessions.getD [])) }

/-! ## What each conversation is owed -/

/-- One conversation: its row's data, what was appended while it was current, and the jobs filed. -/
structure Page (B : Type) where
  generation : Nat
  id : Str
  cause : Option MainCause
  startedAt : Option Int
  endedAt : Option Int
  erased : Bool
  entries : List (Str × B)
  usage : List (Str × B)
  jobs : List Str

/-- The conversations so far, oldest first, and the current one. -/
structure Book (B : Type) where
  past : List (Page B)
  current : Page B

def Book.pages (b : Book B) : List (Page B) := b.past ++ [b.current]

def firstPage : Page B := ⟨0, FIRST_MAIN_ID, none, none, none, false, [], [], []⟩

def Write.entry? : Write B → Option (Str × B)
  | .entry id body => some (id, body)
  | _ => none

def Write.usage? : Write B → Option (Str × B)
  | .usage id body => some (id, body)
  | _ => none

def Page.append (writes : List (Write B)) (p : Page B) : Page B :=
  { p with entries := p.entries ++ writes.filterMap Write.entry?, usage := p.usage ++ writes.filterMap Write.usage? }

/-- The page of a conversation that ended, kept or erased. -/
def Page.close (erase : Bool) (now : Int) (p : Page B) : Page B := { p with endedAt := some now, erased := erase }

/-- The current conversation ends, kept or erased, and `new` begins. -/
def Book.turn (erase : Bool) (new : Str) (now : Int) (cause : MainCause) (b : Book B) : Book B where
  past := b.past ++ [b.current.close erase now]
  current := ⟨b.past.length + 1, new, some cause, some now, none, false, [], [], []⟩

structure World (B : Type) where
  db : Db B
  book : Book B

def World.new : World B := ⟨⟨Catalog.empty, none, none, none, none⟩, ⟨[], firstPage⟩⟩

inductive Event (B : Type) where
  /-- Opens the main transcript and commits to it. -/
  | commit (writes : List (Write B))
  | job (id : Str)
  | startFreshMain (now : Int) (cause : MainCause)
  | eraseMain (now : Int)

inductive Answer where
  | done
  | threw
  /-- `eraseMain` found nothing to erase. -/
  | nothing
  | moved (oldSessionId newSessionId : Str)
deriving DecidableEq

def step : Event B → World B → Answer × World B
  | .commit writes, w =>
    match ensurePiTables MAIN_SESSION w.db.catalog with
    | none => (.threw, w)
    | some c =>
      match commitNow writes c with
      | none => (.threw, { w with db := { w.db with catalog := c } })
      | some c' => (.done, ⟨{ w.db with catalog := c' }, { w.book with current := w.book.current.append writes }⟩)
  | .job id, w =>
    match startJob id w.db with
    | none => (.threw, w)
    | some db => (.done, ⟨db, { w.book with current := { w.book.current with jobs := w.book.current.jobs ++ [id] } }⟩)
  | .startFreshMain now cause, w =>
    match freshMain w.db now cause with
    | none => (.threw, w)
    | some (out, db) => (.moved out.1 out.2, ⟨db, w.book.turn false out.2 now cause⟩)
  | .eraseMain now, w =>
    match eraseMain w.db now with
    | none => (.threw, w)
    | some (none, db) => (.nothing, { w with db })
    | some (some out, db) => (.moved out.1 out.2, ⟨db, w.book.turn true out.2 now .fresh_context⟩)

end Antiproton.Conversations
