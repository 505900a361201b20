import Antiproton.Core.Js

/-!
# Antiproton.Trace.Outbox

`trace_outbox` and its two readers (`src/trace/outbox.ts`, `cf/src/trace-r2.ts`): the rows past a cursor, oldest first,
and the export, which puts them in a bucket, moves its own cursor and prunes what every reader has taken.

* `pending_all`: a read gives every row of the vocabulary up to the last it examined.
* `flushEnd_kept`: the export deletes no row past the hold.
-/

namespace Antiproton.Trace

open Js

/-- `TRACE_KINDS`. -/
def TRACE_KINDS : List String :=
  ["model.call", "tool.call", "approval.wait", "container.lease", "inbound", "mount.seeded", "harness.open", "turn.stop",
    "js.run", "tool.refused", "model.attempt", "rebuild.decision", "rebuild.outcome", "rebuild.behaviour",
    "session.needs_reset", "turn.timing", "turn.end_unrecorded", "import.hold", "model.prewarm", "agent.ready",
    "mount.settings", "subagent.start", "subagent.turn", "subagent.model_changed", "github.refresh",
    "github.refresh_skipped", "raft.held", "raft.held_answer", "raft.state_failed", "raft.state_save_failed",
    "raft.mcp_call", "raft.assistant_wake", "raft.assistant_notify", "raft.assistant_rules", "raft.assistant_chat_told",
    "raft.assistant_send_as_owner", "raft.turn_ended", "raft.assistant_check", "raft.session_unsealable",
    "appworld.sibling_unset", "raftbench.run_done", "raft.assistant_reminder", "raft.assistant_owner",
    "stamp.agent_login", "state.dropped", "raft.assistant_decision", "memory.shadow_due", "memory.shadow",
    "memory.observe", "memory.shadow_redact", "memory.shadow_clear", "raft.assistant_owner_actions", "sandbox.box_owner"]

/-- `TRACE_VERDICTS`. -/
def TRACE_VERDICTS : List String := ["ok", "failed", "blocked", "cancelled"]

/-- A row as it is stored; `attrs` is `none` where the stored text is no JSON object. -/
structure TraceOutboxRow where
  seq : Nat
  at_ : Int
  tenantId : String
  agentId : String
  kind : String
  spanId : String
  parentId : Option String
  status : String
  verdict : String
  ms : Option Int
  attrs : Option Json
deriving DecidableEq

/-- The table, and the number `AUTOINCREMENT` gives the next row. -/
structure TraceOutbox where
  rows : List TraceOutboxRow
  nextSeq : Nat
deriving DecidableEq

/-- Whether the row is of the contract's vocabulary. -/
def TraceOutboxRow.readable (r : TraceOutboxRow) : Bool := TRACE_KINDS.contains r.kind && TRACE_VERDICTS.contains r.verdict

def appendTraceRow (r : TraceOutboxRow) (o : TraceOutbox) : TraceOutbox :=
  ⟨o.rows ++ [{ r with seq := o.nextSeq }], o.nextSeq + 1⟩

def DROPPED_KIND_MAX : Nat := 60

def DROPPED_KINDS_MAX : Nat := 10

structure PendingTrace where
  rows : List TraceOutboxRow
  dropped : Nat
  droppedKinds : Map Nat
  firstDroppedSeq : Option Nat
  through : Nat
deriving DecidableEq

def droppedKey (known : Map Nat) (r : TraceOutboxRow) : Str :=
  let named := (if TRACE_KINDS.contains r.kind then js "verdict:" ++ js r.kind ++ js ":" ++ js r.verdict
    else js "kind:" ++ js r.kind).take DROPPED_KIND_MAX
  if (known.get named).isSome || known.length < DROPPED_KINDS_MAX then named else js "…"

def countDropped (known : Map Nat) (r : TraceOutboxRow) : Map Nat :=
  let key := droppedKey known r
  known.set key ((known.get key).getD 0 + 1)

/-- `pendingTrace`: the rows after `afterSeq`, oldest first, at most `limit` of them read. -/
def pendingTrace (o : TraceOutbox) (afterSeq limit : Nat) : PendingTrace :=
  let read := (o.rows.filter fun r => decide (afterSeq < r.seq)).take limit
  let dropped := read.filter fun r => !r.readable
  { rows := read.filter (·.readable)
    dropped := dropped.length
    droppedKinds := dropped.foldl countDropped []
    firstDroppedSeq := dropped.head?.map (·.seq)
    through := read.foldl (fun t r => max t r.seq) afterSeq }

/-- `pruneTrace`. -/
def pruneTrace (throughSeq : Nat) (o : TraceOutbox) : TraceOutbox :=
  { o with rows := Table.delete (fun r => decide (r.seq ≤ throughSeq)) o.rows }

/-! ## The export -/

def TRACE_DROPS_KEEP_MS : Int := 7 * 24 * 60 * 60000

/-- A line of `trace_drops`. -/
structure TraceDrop where
  at_ : Int
  dropped : Nat
  kinds : Map Nat
  firstSeq : Option Nat
deriving DecidableEq

/-- The tables the export writes. -/
structure ExportTables where
  outbox : TraceOutbox
  sent : Nat
  drops : List TraceDrop
deriving DecidableEq

def traceKey (tenantId agentId : String) (fromSeq toSeq : Nat) : Str :=
  js "trace/" ++ js tenantId ++ js "/" ++ js agentId ++ js "/" ++ js (toString fromSeq) ++ js "-" ++ js (toString toSeq) ++
    js ".ndjson"

/-- `flushTrace` up to its put: what it read, and the line it leaves of refused rows. -/
def flushStart (limit : Nat) (now : Int) (t : ExportTables) : PendingTrace × ExportTables :=
  let p := pendingTrace t.outbox t.sent limit
  (p, if 0 < p.dropped then
      { t with drops := (t.drops.filter fun d => !decide (d.at_ < now - TRACE_DROPS_KEEP_MS)) ++
        [⟨now, p.dropped, p.droppedKinds, p.firstDroppedSeq⟩] }
    else t)

/-- How far every reader has taken the outbox. -/
def prunable (exported : Nat) : Option Nat → Nat
  | none => exported
  | some hold => min exported hold

/-- `flushTrace` once its put has landed, or at once with nothing to put: the cursor moves, and what every reader has
taken is forgotten. A put that throws moves nothing. -/
def flushEnd (p : PendingTrace) (holdThrough : Option Nat) (t : ExportTables) : ExportTables :=
  let through := prunable (max t.sent p.through) holdThrough
  { t with
    sent := if t.sent < p.through then p.through else t.sent
    outbox := if 0 < through ∧ t.outbox.rows.any (fun r => decide (r.seq ≤ through)) then pruneTrace through t.outbox
      else t.outbox }

/-! ## What a read gives -/

section Pending

variable {o : TraceOutbox} {afterSeq limit : Nat}

/-- The rows are in the order of their numbers, and below the next one. -/
structure TraceOutbox.InOrder (o : TraceOutbox) : Prop where
  rows : o.rows.Pairwise fun r r' => r.seq < r'.seq
  below : ∀ r ∈ o.rows, r.seq < o.nextSeq

theorem through_le (rows : List TraceOutboxRow) (e : Nat) :
    e ≤ rows.foldl (fun t r => max t r.seq) e ∧
      (rows.foldl (fun t r => max t r.seq) e = e ∨ ∃ r ∈ rows, rows.foldl (fun t r => max t r.seq) e = r.seq) := by
  induction rows generalizing e with
  | nil => exact ⟨Nat.le_refl _, .inl rfl⟩
  | cons r rows ih =>
    obtain ⟨hle, hat⟩ := ih (max e r.seq)
    rw [List.foldl_cons]
    refine ⟨by omega, ?_⟩
    rcases hat with hat | ⟨r', hr', hat⟩
    · rcases Nat.le_total e r.seq with h | h
      · exact .inr ⟨r, List.mem_cons_self, by rw [hat]; omega⟩
      · exact .inl (by rw [hat]; omega)
    · exact .inr ⟨r', List.mem_cons_of_mem _ hr', hat⟩

/-- Every row of the vocabulary past the cursor and up to the last examined is read. -/
theorem pending_all (ho : o.InOrder) {r : TraceOutboxRow} (hr : r ∈ o.rows) (hafter : afterSeq < r.seq)
    (hthrough : r.seq ≤ (pendingTrace o afterSeq limit).through) (hreadable : r.readable = true) :
    r ∈ (pendingTrace o afterSeq limit).rows := by
  let past := o.rows.filter fun r => decide (afterSeq < r.seq)
  have hpast : r ∈ past := List.mem_filter.2 ⟨hr, decide_eq_true hafter⟩
  have hsorted : past.Pairwise fun r r' => r.seq < r'.seq := ho.rows.filter _
  have hread : r ∈ past.take limit := by
    rcases (through_le (past.take limit) afterSeq).2 with h | ⟨last, hlast, h⟩
    · have hthrough' : r.seq ≤ (past.take limit).foldl (fun t r => max t r.seq) afterSeq := hthrough
      omega
    · have hthrough' : r.seq ≤ (past.take limit).foldl (fun t r => max t r.seq) afterSeq := hthrough
      rw [← List.take_append_drop limit past] at hpast hsorted
      rcases List.mem_append.1 hpast with hmem | hmem
      · exact hmem
      · have hlt := (List.pairwise_append.1 hsorted).2.2 last hlast r hmem
        omega
  exact List.mem_filter.2 ⟨hread, hreadable⟩

theorem pending_mem {r : TraceOutboxRow} (h : r ∈ (pendingTrace o afterSeq limit).rows) :
    r ∈ o.rows ∧ afterSeq < r.seq ∧ r.seq ≤ (pendingTrace o afterSeq limit).through := by
  have hread := List.mem_of_mem_filter h
  obtain ⟨hr, hafter⟩ := List.mem_filter.1 (List.mem_of_mem_take hread)
  refine ⟨hr, of_decide_eq_true hafter, ?_⟩
  have hmax : ∀ (rows : List TraceOutboxRow) (e : Nat), r ∈ rows → r.seq ≤ rows.foldl (fun t r => max t r.seq) e := by
    intro rows
    induction rows with
    | nil => exact fun _ hm => nomatch hm
    | cons r' rows ih =>
      intro e hm
      rw [List.foldl_cons]
      rcases List.mem_cons.1 hm with rfl | hm
      · have hle := (through_le rows (max e r.seq)).1
        omega
      · exact ih _ hm
  exact hmax _ _ hread

theorem pending_sorted (ho : o.InOrder) : (pendingTrace o afterSeq limit).rows.Pairwise fun r r' => r.seq < r'.seq :=
  ((ho.rows.filter _).sublist (List.take_sublist _ _)).filter _

theorem pending_through (ho : o.InOrder) (h : afterSeq < o.nextSeq) :
    (pendingTrace o afterSeq limit).through < o.nextSeq := by
  have hat := (through_le ((o.rows.filter fun r => decide (afterSeq < r.seq)).take limit) afterSeq).2
  rcases hat with hat | ⟨r, hr, hat⟩
  · exact lt_of_eq_of_lt hat h
  · exact lt_of_eq_of_lt hat (ho.below r (List.mem_filter.1 (List.mem_of_mem_take hr)).1)

end Pending

section Export

variable {t : ExportTables} {p : PendingTrace} {holdThrough : Option Nat}

theorem flushStart_outbox (limit : Nat) (now : Int) (t : ExportTables) : (flushStart limit now t).2.outbox = t.outbox := by
  unfold flushStart
  dsimp only
  split <;> rfl

theorem flushEnd_outbox (p : PendingTrace) (holdThrough : Option Nat) (t : ExportTables) :
    (flushEnd p holdThrough t).outbox = t.outbox ∨
      ∃ n, (∀ hold ∈ holdThrough, n ≤ hold) ∧ (flushEnd p holdThrough t).outbox = pruneTrace n t.outbox := by
  by_cases h : 0 < prunable (max t.sent p.through) holdThrough ∧
      t.outbox.rows.any (fun r => decide (r.seq ≤ prunable (max t.sent p.through) holdThrough))
  · refine .inr ⟨prunable (max t.sent p.through) holdThrough, fun hold hh => ?_, if_pos h⟩
    cases hh
    exact Nat.min_le_right _ _
  · exact .inl (if_neg h)

theorem flushEnd_kept {hold : Nat} {r : TraceOutboxRow} (hr : r ∈ t.outbox.rows) (h : hold < r.seq) :
    r ∈ (flushEnd p (some hold) t).outbox.rows := by
  rcases flushEnd_outbox p (some hold) t with heq | ⟨n, hn, heq⟩ <;> rw [heq]
  · exact hr
  · have hle := hn hold rfl
    exact Table.mem_delete.2 ⟨hr, decide_eq_false (by omega)⟩

/-- The export deletes no row past its own cursor. -/
theorem flushEnd_past {r : TraceOutboxRow} (hr : r ∈ t.outbox.rows) (h : max t.sent p.through < r.seq) :
    r ∈ (flushEnd p holdThrough t).outbox.rows := by
  have hle : prunable (max t.sent p.through) holdThrough ≤ max t.sent p.through := by
    cases holdThrough with
    | none => exact Nat.le_refl _
    | some hold => exact Nat.min_le_left _ _
  unfold flushEnd
  dsimp only
  split
  · exact Table.mem_delete.2 ⟨hr, decide_eq_false (by omega)⟩
  · exact hr

theorem flushEnd_mem {r : TraceOutboxRow} (h : r ∈ (flushEnd p holdThrough t).outbox.rows) : r ∈ t.outbox.rows := by
  rcases flushEnd_outbox p holdThrough t with heq | ⟨n, -, heq⟩ <;> rw [heq] at h
  · exact h
  · exact (Table.mem_delete.1 h).1

theorem flushEnd_nextSeq : (flushEnd p holdThrough t).outbox.nextSeq = t.outbox.nextSeq := by
  rcases flushEnd_outbox p holdThrough t with heq | ⟨n, -, heq⟩ <;> rw [heq]
  rfl

theorem flushEnd_inOrder (h : t.outbox.InOrder) : (flushEnd p holdThrough t).outbox.InOrder := by
  refine ⟨?_, fun r hr => ?_⟩
  · rcases flushEnd_outbox p holdThrough t with heq | ⟨n, -, heq⟩ <;> rw [heq]
    · exact h.rows
    · exact h.rows.filter _
  · rw [flushEnd_nextSeq]
    exact h.below r (flushEnd_mem hr)

end Export

end Antiproton.Trace
