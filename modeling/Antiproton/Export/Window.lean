import Antiproton.Core.JsonParse
import Antiproton.Lib.Table
import Antiproton.Trace.Outbox

/-!
# Antiproton.Export.Window

One page of an agent's trace export (`readTraceWindow`, `cf/src/eval-read.ts`): the object's own rows first, then the
bucket's batches, merged by seq up to where everything has been looked at. The source it reads from is a parameter, with a
state of its own, so that other steps may come between two of its reads.

* `traceKeyRange_key`: the range in a batch's key is the one it was made with.
-/

namespace Antiproton.Export

open Js Trace

/-- The most rows read from the object, and batches from the bucket, in one request. -/
def TRACE_LOCAL_SCAN : Nat := 5000

def TRACE_OBJECTS_SCAN : Nat := 20

def TRACE_LIST_PAGES : Nat := 20

def UPLOAD_SLACK_MS : Int := 60 * 60000

/-- An agent's own rows, of its own tenant. -/
structure Owner where
  tenantId : String
  agentId : String
deriving DecidableEq

def Owner.owns (w : Owner) (r : TraceOutboxRow) : Bool := r.tenantId == w.tenantId && r.agentId == w.agentId

/-- The object's own trace rows after `afterSeq`, oldest first, at most `limit`. -/
def localTrace (w : Owner) (o : TraceOutbox) (afterSeq limit : Nat) : List TraceOutboxRow :=
  (pendingTrace o afterSeq limit).rows.filter w.owns

/-! ## A batch's key -/

def tracePrefix (w : Owner) : Str := js "trace/" ++ js w.tenantId ++ js "/" ++ js w.agentId ++ js "/"

/-- The seq range `traceKey` put in a key under `prefix`, or none for a key it did not make. -/
def traceKeyRange (under key : Str) : Option (Nat × Nat) :=
  if startsWith under key then
    let name := key.drop under.length
    let fromDigits := name.takeWhile isDigit
    match name.dropWhile isDigit with
    | [] => none
    | dash :: rest =>
      let toDigits := rest.takeWhile isDigit
      if dash = unit '-' ∧ rest.dropWhile isDigit = js ".ndjson" ∧ fromDigits ≠ [] ∧ toDigits ≠ [] then
        some (numberOf fromDigits, numberOf toDigits)
      else none
  else none

/-- The digits of a number, with something after them that is none. -/
theorem digits_split (n : Nat) {u : UInt16} (rest : Str) (hu : isDigit u = false) :
    (js (toString n) ++ u :: rest).takeWhile isDigit = js (toString n) ∧
      (js (toString n) ++ u :: rest).dropWhile isDigit = u :: rest := by
  obtain ⟨c, ds, heq, hd, -⟩ := decimal_nat n
  rw [heq, List.takeWhile_append_of_pos hd, List.dropWhile_append_of_pos hd, List.takeWhile_cons, List.dropWhile_cons, hu]
  exact ⟨List.append_nil _, rfl⟩

/-- The range in a batch's key is the one it was made with. -/
theorem traceKeyRange_key (w : Owner) (fromSeq toSeq : Nat) :
    traceKeyRange (tracePrefix w) (traceKey w.tenantId w.agentId fromSeq toSeq) = some (fromSeq, toSeq) := by
  have hkey : traceKey w.tenantId w.agentId fromSeq toSeq =
      tracePrefix w ++ (js (toString fromSeq) ++ unit '-' :: (js (toString toSeq) ++ js ".ndjson")) := by
    simp only [traceKey, tracePrefix, List.append_assoc]
    rfl
  have hdot : js ".ndjson" = unit '.' :: js "ndjson" := rfl
  obtain ⟨hfrom, hrest⟩ := digits_split fromSeq (js (toString toSeq) ++ js ".ndjson") (show isDigit (unit '-') = false by decide)
  obtain ⟨hto, hend⟩ := digits_split toSeq (js "ndjson") (show isDigit (unit '.') = false by decide)
  have hne : ∀ n : Nat, js (toString n) ≠ [] := by
    intro n
    obtain ⟨c, ds, heq, -⟩ := decimal_nat n
    rw [heq]
    exact List.cons_ne_nil _ _
  unfold traceKeyRange
  rw [hkey, startsWith, if_pos (List.isPrefixOf_iff_prefix.2 (List.prefix_append _ _)), List.drop_left]
  simp only [hfrom, hrest]
  rw [hdot, hto, hend, if_pos ⟨trivial, rfl, hne _, hne _⟩, numberOf_nat, numberOf_nat]

/-! ## What a page reads -/

/-- One page of a listing: keys with when each was uploaded, and where to go on. -/
structure Listed (C : Type) where
  objects : List (Str × Int)
  truncated : Bool
  cursor : Option C

/-- The three reads of a page, over a state `S`; the listing's cursor is opaque. -/
structure TraceSource (S C : Type) where
  /-- None when the object holds no such agent. -/
  localRows : Nat → Nat → S → Option (List TraceOutboxRow) × S
  list : Str → Option C → S → Listed C × S
  /-- The batch's rows, or none when it has gone. -/
  get : Str → S → Option (List TraceOutboxRow) × S

/-- What one request asks; the route refuses a limit of none. -/
structure TraceQuery where
  start : Int
  stop : Int
  afterSeq : Nat
  limit : Nat
  limit_pos : 0 < limit

def TraceQuery.inside (q : TraceQuery) (r : TraceOutboxRow) : Bool := q.start ≤ r.at_ && r.at_ < q.stop

inductive TraceWindow where
  | ok (rows : List TraceOutboxRow) (nextCursor : Option Nat) (scannedLocal scannedObjects : Nat)
  | fail (status : Nat) (message : Str)
deriving DecidableEq

structure Batch where
  key : Str
  fromSeq : Nat
  toSeq : Nat
  uploaded : Int
deriving DecidableEq

/-- What the batches read so far gave: the rows by seq, and how far they reach. -/
structure Scan where
  bySeq : List TraceOutboxRow
  objects : Nat
  inWindow : Nat
  /-- The highest seq a batch read so far covers. -/
  readThrough : Nat

def hasSeq (rows : List TraceOutboxRow) (seq : Nat) : Bool := rows.any (·.seq == seq)

section Page

variable {S C : Type} (src : TraceSource S C) (w : Owner) (q : TraceQuery)

/-- The whole listing, or none past `TRACE_LIST_PAGES` pages of it. -/
def listBatches (under : Str) : Nat → Option C → List Batch → S → Option (List Batch) × S
  | 0, _, _, s => (none, s)
  | pages + 1, cursor, batches, s =>
    let listed := (src.list under cursor s).1
    let found := listed.objects.filterMap fun o => (traceKeyRange under o.1).map fun range => ⟨o.1, range.1, range.2, o.2⟩
    if listed.truncated then listBatches under pages listed.cursor (batches ++ found) (src.list under cursor s).2
    else (some (batches ++ found), (src.list under cursor s).2)

/-- The batches that may hold a row of the page, in the order of their ranges. -/
def dueBatches (batches : List Batch) : List Batch :=
  Table.orderBy (·.fromSeq)
    (batches.filter fun b => decide (q.afterSeq < b.toSeq) && !decide (b.uploaded < q.start - UPLOAD_SLACK_MS))

def readLine (scan : Scan) (row : TraceOutboxRow) : Scan :=
  if w.owns row ∧ q.afterSeq < row.seq then
    { scan with
      inWindow := if !hasSeq scan.bySeq row.seq && q.inside row then scan.inWindow + 1 else scan.inWindow
      bySeq := Table.upsert (·.seq == row.seq) row (fun _ => row) scan.bySeq }
  else scan

/-- Past a frontier nothing has been looked at; none where all has. -/
def minFrontier (frontier : Option Nat) (n : Nat) : Nat := frontier.elim n (min · n)

/-- The scan once a batch was read. -/
def readBatch (b : Batch) (body : Option (List TraceOutboxRow)) (scan : Scan) : Scan :=
  (body.getD []).foldl (readLine w q)
    { scan with objects := scan.objects + 1, readThrough := max scan.readThrough b.toSeq }

def readBatches : List Batch → Scan → Option Nat → S → (Scan × Option Nat) × S
  | [], scan, frontier, s => ((scan, frontier), s)
  | b :: rest, scan, frontier, s =>
    if scan.objects = TRACE_OBJECTS_SCAN ∨ q.limit ≤ scan.inWindow then
      ((scan, some (minFrontier frontier (max (b.fromSeq - 1) scan.readThrough))), s)
    else readBatches rest (readBatch w q b (src.get b.key s).1 scan) frontier (src.get b.key s).2

/-- The page of what was read: the rows up to the frontier, and where the next page goes on. -/
def pageOf (bySeq : List TraceOutboxRow) (frontier : Option Nat) : List TraceOutboxRow × Option Nat :=
  let ordered := Table.orderBy (·.seq) (bySeq.filter fun r => frontier.all fun f => decide (r.seq ≤ f))
  let rows := (ordered.filter q.inside).take q.limit
  (rows, if rows.length = q.limit then rows.getLast?.map (·.seq) else frontier)

/-- The rows of the object, beside those the batches gave. -/
def addLocal (bySeq rows : List TraceOutboxRow) : List TraceOutboxRow :=
  rows.foldl (fun bySeq r => if hasSeq bySeq r.seq then bySeq else bySeq ++ [r]) bySeq

/-- Where a scan of the object that came to its bound ended. -/
def localFrontier (rows : List TraceOutboxRow) : Option Nat :=
  if rows.length = TRACE_LOCAL_SCAN then rows.getLast?.map (·.seq) else none

def readTraceWindow (s : S) : TraceWindow × S :=
  match src.localRows q.afterSeq TRACE_LOCAL_SCAN s with
  | (none, s) => (.fail 404 (js "no agent " ++ js w.agentId), s)
  | (some rows, s) =>
    match listBatches src (tracePrefix w) TRACE_LIST_PAGES none [] s with
    | (none, s) =>
      (.fail 502 (js s!"more than {TRACE_LIST_PAGES} pages of trace batches for " ++ js w.agentId), s)
    | (some batches, s) =>
      let r := readBatches src w q (dueBatches q batches) ⟨[], 0, 0, q.afterSeq⟩ (localFrontier rows) s
      let page := pageOf q (addLocal r.1.1.bySeq rows) r.1.2
      (.ok page.1 page.2 rows.length r.1.1.objects, r.2)

end Page

end Antiproton.Export
