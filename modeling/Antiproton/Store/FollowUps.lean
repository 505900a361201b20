import Mathlib.Data.List.Perm.Basic
import Mathlib.Data.Prod.Lex
import Antiproton.Lib.History
import Antiproton.Store.Advance

/-!
# Antiproton.Store.FollowUps

The follow-ups of a task (`queueFollowUp` and `flushFollowUps`, `src/store/durable-object.ts` and `src/store/sqlite.ts`):
rows queued while the task is busy, which a flush appends to the event log one await at a time and then deletes by task.

* `appendEvent_row`: an event with no key to be known by is appended under the next number of its agent.
* `followed_up_once`: where nothing is queued, flushed or cut off inside a flush of the same task, every queued text is one
  event, in the order of the queue.
-/

namespace Antiproton.FollowUps

open Js History

/-- Whose follow-ups: the columns every statement selects by. -/
structure TaskRef where
  tenantId : String
  agentId : String
  taskId : String
deriving DecidableEq

structure FollowUpRow where
  rowid : Nat
  task : TaskRef
  text : Str
  createdAt : Int
deriving DecidableEq

/-- A flush that waits for an append: what it read, and what of it is still to be appended. -/
structure Flush where
  task : TaskRef
  read : List FollowUpRow
  left : List FollowUpRow
deriving DecidableEq

/-- The store's tables, the flushes that wait, and every row ever queued. -/
structure World where
  db : Db
  followUps : List FollowUpRow
  flushes : List Flush
  queued : List FollowUpRow

def World.start (db : Db) : World := ⟨db, [], [], []⟩

inductive Event where
  | queueFollowUp (ctx : Ctx) (task : TaskRef) (text : Str)
  | flushFollowUps (ctx : Ctx) (task : TaskRef)
  /-- The append a flush waits for has come back. -/
  | resume (ctx : Ctx) (n : Nat)
  | crash (n : Nat)

/-- The row the engine numbers next. -/
def nextRowid (rows : List FollowUpRow) : Nat := rows.foldl (fun n r => max n r.rowid) 0 + 1

/-- `SELECT … ORDER BY created_at ASC, rowid ASC`. -/
def waiting (task : TaskRef) (rows : List FollowUpRow) : List FollowUpRow :=
  Table.orderBy (fun r => toLex (r.createdAt, r.rowid)) (Table.select (fun r => r.task == task) rows)

/-- The event a follow-up becomes. -/
def eventOf (r : FollowUpRow) : NewEvent :=
  ⟨r.task.tenantId, r.task.agentId, some r.task.taskId, none, "message",
    .obj [(js "text", .str r.text), (js "followUp", .bool true)], none⟩

section Steps

variable (S : StorageAdapter)

/-- A flush goes on to its next row, or to its delete. -/
def goOn (ctx : Ctx) (f : Flush) (others : List Flush) (s : World) : Option (TaskRef × Nat) × World :=
  match f.left with
  | [] =>
    (some (f.task, f.read.length),
      { s with followUps := Table.delete (fun r => r.task == f.task) s.followUps, flushes := others })
  | r :: rest =>
    match S.appendEvent ctx (eventOf r) s.db with
    | .error _ => (none, { s with flushes := others })
    | .ok a => (none, { s with db := a.2, flushes := others ++ [{ f with left := rest }] })

/-- What one step answers is the task whose flush returned, and how many rows it says it moved. -/
def World.step (e : Event) (s : World) : Option (TaskRef × Nat) × World :=
  match e with
  | .queueFollowUp ctx task text =>
    let row : FollowUpRow := ⟨nextRowid s.followUps, task, text, ctx.now⟩
    (none, { s with followUps := s.followUps ++ [row], queued := s.queued ++ [row] })
  | .flushFollowUps ctx task =>
    match waiting task s.followUps with
    | [] => (some (task, 0), s)
    | r :: rest => goOn S ctx ⟨task, r :: rest, r :: rest⟩ s.flushes s
  | .resume ctx n =>
    match s.flushes[n]? with
    | none => (none, s)
    | some f => goOn S ctx f (s.flushes.eraseIdx n) s
  | .crash n => (none, { s with flushes := s.flushes.eraseIdx n })

end Steps

/-! ## What is delivered -/

def isFor (task : TaskRef) (e : EventRow) : Bool :=
  e.tenantId == task.tenantId && e.agentId == task.agentId && e.taskId == some task.taskId

/-- What a task's messages among some events say. -/
def delivered (task : TaskRef) (events : List EventRow) : List Json := (events.filter (isFor task)).map (·.payload)

def queuedFor (task : TaskRef) (rows : List FollowUpRow) : List Json :=
  (rows.filter fun r => r.task == task).map fun r => (eventOf r).payload

/-- What is still to be appended for a task: what its flush has left, or else what is in the table. -/
def pending (task : TaskRef) (s : World) : List FollowUpRow :=
  match s.flushes.find? (·.task == task) with
  | some f => f.left
  | none => s.followUps.filter fun r => r.task == task

def payloads (rows : List FollowUpRow) : List Json := rows.map fun r => (eventOf r).payload

/-- What a step must not do: queue a text, or begin a flush, while a flush of the same task waits; queue a text at an earlier
time than one that still waits; and cut a flush off, by a crash or by an append that throws, once it has appended. -/
def Orderly (S : StorageAdapter) (s : World) : Event → Prop
  | .queueFollowUp ctx task _ =>
    (∀ f ∈ s.flushes, f.task ≠ task) ∧ ∀ r ∈ s.followUps, r.task = task → r.createdAt ≤ ctx.now
  | .flushFollowUps _ task => ∀ f ∈ s.flushes, f.task ≠ task
  | .resume ctx n => ∀ f, s.flushes[n]? = some f → ∀ r ∈ f.left.head?, (S.appendEvent ctx (eventOf r) s.db).isOk = true
  | .crash n => s.flushes[n]? = none

/-- The two stores. -/
inductive Backend where
  | sqlite
  | durableObject

def Backend.store : Backend → StorageAdapter
  | .sqlite => sqliteStore
  | .durableObject => durableObjectStore

/-- The number the counter of an agent's events stands at. -/
def counterOf (name : String) (db : Db) : Nat := ((Table.one (fun r : CounterRow => r.name == name) db.counters).map (·.value)).getD 0

section Append

variable {db : Db}

theorem nextCounter_value (name : String) (db : Db) :
    (DurableObject.nextCounter name db).1 = counterOf name (DurableObject.nextCounter name db).2 ∧
      counterOf name (DurableObject.nextCounter name db).2 = counterOf name db + 1 ∧
      ∀ other, counterOf other db ≤ counterOf other (DurableObject.nextCounter name db).2 := by
  let bump (r : CounterRow) : CounterRow := { r with value := r.value + 1 }
  let kept := Table.insertOrIgnore (fun r : CounterRow => r.name == name) ⟨name, 0⟩ db.counters
  have hone : ∀ other, Table.one (fun r : CounterRow => r.name == other) (DurableObject.nextCounter name db).2.counters =
      (Table.one (fun r : CounterRow => r.name == other) kept).map fun r => if r.name == name then bump r else r :=
    fun other => Table.one_update_key (p := fun r => r.name == name) (f := bump) (fun _ => rfl) kept
  have hself : Table.one (fun r : CounterRow => r.name == name) kept =
      some ((Table.one (fun r : CounterRow => r.name == name) db.counters).getD ⟨name, 0⟩) :=
    @Table.one_insertOrIgnore_self _ (fun r : CounterRow => r.name == name) ⟨name, 0⟩ (beq_self_eq_true name) db.counters
  refine ⟨rfl, ?_, fun other => ?_⟩
  · unfold counterOf
    rw [hone, hself]
    cases h : Table.one (fun r : CounterRow => r.name == name) db.counters with
    | none => simp [bump]
    | some r =>
      have hname : (r.name == name) = true := Table.one_some (p := fun r : CounterRow => r.name == name) h
      simp [bump, eq_of_beq hname]
  · unfold counterOf
    rw [hone]
    cases h : Table.one (fun r : CounterRow => r.name == other) db.counters with
    | none => exact Nat.zero_le _
    | some r =>
      have hkept : Table.one (fun r : CounterRow => r.name == other) kept = some r := by
        rw [Table.one_insertOrIgnore, h]
        split <;> rfl
      rw [hkept]
      simp only [Option.map_some, Option.getD_some]
      split
      · exact Nat.le_succ _
      · exact Nat.le_refl _

/-- What an append that is not refused leaves. -/
theorem insertEvent_row {ctx : Ctx} {n : Nat} {e : NewEvent} {r : Appended × Db} (he : e.dedupKey = none)
    (h : DurableObject.insertEvent ctx n e db = .ok r) :
    ∃ row : EventRow, r.2.events = db.events ++ [row] ∧ (row.tenantId = e.tenantId ∧ row.agentId = e.agentId ∧
      row.taskId = e.taskId ∧ row.kind = e.kind ∧ row.payload = e.payload) ∧
      row.sequence = counterOf s!"seq:{e.tenantId}:{e.agentId}" r.2 ∧
      counterOf s!"seq:{e.tenantId}:{e.agentId}" r.2 = counterOf s!"seq:{e.tenantId}:{e.agentId}" db + 1 ∧
      ∀ other, counterOf other db ≤ counterOf other r.2 := by
  unfold DurableObject.insertEvent at h
  cases hforeign : foreignTask e db with
  | some t => rw [hforeign] at h; cases h
  | none =>
    have hdup : duplicateEvent e db = none := by rw [duplicateEvent, he]; rfl
    rw [hforeign, hdup] at h
    dsimp only at h
    obtain ⟨hseq, hnext, hother⟩ := nextCounter_value s!"seq:{e.tenantId}:{e.agentId}" db
    unfold insertEventRow at h
    split at h
    · cases h
    · cases h
      exact ⟨_, rfl, ⟨rfl, rfl, rfl, rfl, rfl⟩, hseq, hnext, hother⟩

end Append

/-! ## What every orderly step keeps -/

def seqName (e : EventRow) : String := s!"seq:{e.tenantId}:{e.agentId}"

/-- The events a run appended: numbered upward for each agent, up to where its counter stands. -/
structure Numbered (db : Db) (events : List EventRow) : Prop where
  upward : events.Pairwise fun e e' => e.tenantId = e'.tenantId → e.agentId = e'.agentId → e.sequence < e'.sequence
  below : ∀ e ∈ events, e.sequence ≤ counterOf (seqName e) db
  kind : ∀ e ∈ events, e.kind = "message"

structure Kept (db₀ : Db) (s : World) : Prop where
  order : s.followUps.Pairwise fun r r' => r.rowid < r'.rowid ∧ (r.task = r'.task → r.createdAt ≤ r'.createdAt)
  single : s.flushes.Pairwise fun f f' => f.task ≠ f'.task
  reads : ∀ f ∈ s.flushes, f.read = s.followUps.filter (fun r => r.task == f.task) ∧ ∃ done, f.read = done ++ f.left
  moved : ∃ new, s.db.events = db₀.events ++ new ∧ Numbered s.db new ∧
    ∀ task, delivered task new ++ payloads (pending task s) = queuedFor task s.queued

section Keep

variable {db₀ : Db} {s : World} {S : StorageAdapter}

theorem lt_nextRowid {rows : List FollowUpRow} : ∀ r ∈ rows, r.rowid < nextRowid rows := by
  have hmax : ∀ (rows : List FollowUpRow) (n : Nat), n ≤ rows.foldl (fun n r => max n r.rowid) n ∧
      ∀ r ∈ rows, r.rowid ≤ rows.foldl (fun n r => max n r.rowid) n := by
    intro rows
    induction rows with
    | nil => exact fun n => ⟨Nat.le_refl n, fun r hr => absurd hr List.not_mem_nil⟩
    | cons x rows ih =>
      intro n
      obtain ⟨hle, hall⟩ := ih (max n x.rowid)
      rw [List.foldl_cons]
      refine ⟨by omega, fun r hr => ?_⟩
      rcases List.mem_cons.1 hr with rfl | hr
      · omega
      · exact hall r hr
  exact fun r hr => Nat.lt_succ_of_le ((hmax rows 0).2 r hr)

/-- Rows queued at no earlier time than the ones before are read as they were queued. -/
theorem Kept.waiting (h : Kept db₀ s) (task : TaskRef) :
    waiting task s.followUps = s.followUps.filter fun r => r.task == task := by
  refine List.Pairwise.insertionSort_eq ?_
  have hfilter := h.order.filter fun r => r.task == task
  refine hfilter.imp_of_mem fun {r r'} hr hr' hlt => ?_
  have htask := (eq_of_beq (List.mem_filter.1 hr).2).trans (eq_of_beq (List.mem_filter.1 hr').2).symm
  rw [Prod.Lex.toLex_le_toLex]
  rcases Int.lt_or_eq_of_le (hlt.2 htask) with hbefore | hsame
  · exact .inl hbefore
  · exact .inr ⟨hsame, Nat.le_of_lt hlt.1⟩

theorem pending_flush {f : Flush} (h : s.flushes.Pairwise fun f f' => f.task ≠ f'.task) (hf : f ∈ s.flushes) :
    pending f.task s = f.left := by
  unfold pending
  cases hfind : s.flushes.find? (·.task == f.task) with
  | none => exact absurd (beq_self_eq_true f.task) (List.find?_eq_none.1 hfind f hf)
  | some g =>
    have htask : g.task = f.task := eq_of_beq (List.find?_some hfind :)
    have hnodup : (s.flushes.map (·.task)).Nodup := List.pairwise_map.2 h
    rw [List.inj_on_of_nodup_map hnodup (List.mem_of_find?_eq_some hfind) hf htask]

theorem pending_table {task : TaskRef} (h : ∀ f ∈ s.flushes, f.task ≠ task) :
    pending task s = s.followUps.filter fun r => r.task == task := by
  unfold pending
  rw [List.find?_eq_none.2 fun f hf => by simpa using h f hf]

/-- The flushes that wait may be told in any order. -/
theorem Kept.perm {flushes : List Flush} (h : Kept db₀ s) (hperm : s.flushes.Perm flushes) :
    Kept db₀ { s with flushes := flushes } := by
  have hsingle : flushes.Pairwise fun f f' => f.task ≠ f'.task :=
    (hperm.pairwise_iff fun hne => Ne.symm hne).1 h.single
  obtain ⟨new, hevents, hnumbered, hmoved⟩ := h.moved
  refine ⟨h.order, hsingle, fun f hf => h.reads f (hperm.mem_iff.2 hf), new, hevents, hnumbered, fun task => ?_⟩
  rw [← hmoved task]
  by_cases htask : ∃ f ∈ flushes, f.task = task
  · obtain ⟨f, hf, rfl⟩ := htask
    rw [pending_flush h.single (hperm.mem_iff.2 hf),
      pending_flush (s := { s with flushes := flushes }) hsingle hf]
  · have hnone : ∀ f ∈ flushes, f.task ≠ task := fun f hf heq => htask ⟨f, hf, heq⟩
    rw [pending_table fun f hf => hnone f (hperm.mem_iff.1 hf), pending_table (s := { s with flushes := flushes }) hnone]

/-- A flush that begins has all of what waits still to append. -/
theorem Kept.begun {f : Flush} (h : Kept db₀ s) (hnone : ∀ g ∈ s.flushes, g.task ≠ f.task)
    (hread : f.read = FollowUps.waiting f.task s.followUps) (hleft : f.left = f.read) :
    Kept db₀ { s with flushes := s.flushes ++ [f] } := by
  have hsingle : (s.flushes ++ [f]).Pairwise fun f f' => f.task ≠ f'.task := by
    refine List.pairwise_append.2 ⟨h.single, List.pairwise_singleton .., fun g hg g' hg' => ?_⟩
    rw [List.mem_singleton.1 hg']
    exact hnone g hg
  have hpending : ∀ t, pending t { s with flushes := s.flushes ++ [f] } = pending t s := by
    intro t
    by_cases htask : ∃ g ∈ s.flushes, g.task = t
    · obtain ⟨g, hg, rfl⟩ := htask
      rw [pending_flush h.single hg, pending_flush (s := { s with flushes := s.flushes ++ [f] }) hsingle
        (List.mem_append_left _ hg)]
    · have hother : ∀ g ∈ s.flushes, g.task ≠ t := fun g hg heq => htask ⟨g, hg, heq⟩
      rw [pending_table hother]
      by_cases hsame : f.task = t
      · subst hsame
        rw [pending_flush (s := { s with flushes := s.flushes ++ [f] }) hsingle (List.mem_append_right _ List.mem_cons_self),
          hleft, hread, h.waiting]
      · rw [pending_table (s := { s with flushes := s.flushes ++ [f] })]
        intro g hg
        rcases List.mem_append.1 hg with hg | hg
        · exact hother g hg
        · rw [List.mem_singleton.1 hg]
          exact hsame
  obtain ⟨new, hevents, hnumbered, hmoved⟩ := h.moved
  refine ⟨h.order, hsingle, fun g hg => ?_, new, hevents, hnumbered, fun t => ?_⟩
  · rcases List.mem_append.1 hg with hg | hg
    · exact h.reads g hg
    · rw [List.mem_singleton.1 hg]
      exact ⟨hread.trans (h.waiting f.task), [], hleft.symm⟩
  · rw [hpending, hmoved]

theorem appendEvent_row {b : Backend} {ctx : Ctx} {r : FollowUpRow} {db : Db} {a : Appended × Db}
    (h : b.store.appendEvent ctx (eventOf r) db = .ok a) :
    ∃ row : EventRow, a.2.events = db.events ++ [row] ∧ (row.tenantId = r.task.tenantId ∧ row.agentId = r.task.agentId ∧
      row.taskId = some r.task.taskId ∧ row.kind = "message" ∧ row.payload = (eventOf r).payload) ∧
      row.sequence = counterOf (seqName row) a.2 ∧ counterOf (seqName row) a.2 = counterOf (seqName row) db + 1 ∧
      ∀ other, counterOf other db ≤ counterOf other a.2 := by
  have hinsert : DurableObject.insertEvent ctx 0 (eventOf r) db = .ok a := by
    cases b with
    | sqlite => exact insertEvent_ok h
    | durableObject => exact h
  obtain ⟨row, hevents, ⟨htenant, hagent, htask, hkind, hpayload⟩, hseq, hnext, hother⟩ := insertEvent_row rfl hinsert
  have hname : seqName row = s!"seq:{(eventOf r).tenantId}:{(eventOf r).agentId}" := by
    unfold seqName
    rw [htenant, hagent]
  refine ⟨row, hevents, ⟨htenant, hagent, htask, hkind, hpayload⟩, ?_, ?_, hother⟩
  · rw [hname]
    exact hseq
  · rw [hname]
    exact hnext

theorem delivered_append (task : TaskRef) (events : List EventRow) (row : EventRow) :
    delivered task (events ++ [row]) = delivered task events ++ if isFor task row then [row.payload] else [] := by
  unfold delivered
  rw [List.filter_append, List.map_append, List.filter_singleton]
  cases isFor task row <;> rfl

theorem Numbered.append {db db' : Db} {events : List EventRow} {row : EventRow} (h : Numbered db events)
    (hseq : row.sequence = counterOf (seqName row) db') (hnext : counterOf (seqName row) db' = counterOf (seqName row) db + 1)
    (hother : ∀ other, counterOf other db ≤ counterOf other db') (hkind : row.kind = "message") :
    Numbered db' (events ++ [row]) := by
  refine ⟨List.pairwise_append.2 ⟨h.upward, List.pairwise_singleton .., ?_⟩, ?_, ?_⟩
  · intro e he e' he' htenant hagent
    rw [List.mem_singleton.1 he'] at htenant hagent ⊢
    have hname : seqName e = seqName row := by
      unfold seqName
      rw [htenant, hagent]
    have hbelow := h.below e he
    rw [hname] at hbelow
    omega
  · intro e he
    rcases List.mem_append.1 he with he | he
    · exact Nat.le_trans (h.below e he) (hother _)
    · rw [List.mem_singleton.1 he, hseq]
  · intro e he
    rcases List.mem_append.1 he with he | he
    · exact h.kind e he
    · rw [List.mem_singleton.1 he, hkind]

/-- A flush that goes on without an error keeps everything in its place. -/
theorem goOn_kept {b : Backend} {ctx : Ctx} {f : Flush} {others : List Flush}
    (h : Kept db₀ { s with flushes := others ++ [f] })
    (hok : ∀ r ∈ f.left.head?, (b.store.appendEvent ctx (eventOf r) s.db).isOk = true) :
    Kept db₀ (goOn b.store ctx f others s).2 := by
  obtain ⟨new, hevents, hnumbered, hmoved⟩ := h.moved
  have hf : f ∈ others ++ [f] := List.mem_append_right _ List.mem_cons_self
  have hothers : ∀ g ∈ others, g.task ≠ f.task :=
    fun g hg => (List.pairwise_append.1 h.single).2.2 g hg f List.mem_cons_self
  have hpending : pending f.task { s with flushes := others ++ [f] } = f.left :=
    pending_flush (s := { s with flushes := others ++ [f] }) h.single hf
  unfold goOn
  cases hleft : f.left with
  | nil =>
    -- the flush has appended all it read, and deletes the rows of its task
    have hsingle : others.Pairwise fun g g' => g.task ≠ g'.task := (List.pairwise_append.1 h.single).1
    have hkeep : ∀ t, t ≠ f.task → (Table.delete (fun r => r.task == f.task) s.followUps).filter (fun r => r.task == t) =
        s.followUps.filter fun r => r.task == t := by
      intro t ht
      unfold Table.delete
      rw [List.filter_filter]
      refine List.filter_congr fun r _ => ?_
      by_cases hr : r.task = t
      · simp [hr, ht]
      · simp [hr]
    refine ⟨h.order.filter _, hsingle, fun g hg => ?_, new, hevents, hnumbered, fun t => ?_⟩
    · obtain ⟨hread, hdone⟩ := h.reads g (List.mem_append_left _ hg)
      exact ⟨hread.trans (hkeep g.task (hothers g hg)).symm, hdone⟩
    · rw [← hmoved t]
      by_cases htask : t = f.task
      · subst htask
        have hgone : (Table.delete (fun r => r.task == f.task) s.followUps).filter (fun r => r.task == f.task) = [] := by
          refine List.filter_eq_nil_iff.2 fun r hr => ?_
          rw [(Table.mem_delete.1 hr).2]
          exact Bool.false_ne_true
        rw [hpending, hleft, pending_table (s := { s with followUps := _, flushes := others }) hothers, hgone]
      · congr 2
        by_cases hflush : ∃ g ∈ others, g.task = t
        · obtain ⟨g, hg, rfl⟩ := hflush
          rw [pending_flush (s := { s with followUps := _, flushes := others }) hsingle hg,
            pending_flush (s := { s with flushes := others ++ [f] }) h.single (List.mem_append_left _ hg)]
        · have hnone : ∀ g ∈ others, g.task ≠ t := fun g hg heq => hflush ⟨g, hg, heq⟩
          have hnone' : ∀ g ∈ others ++ [f], g.task ≠ t := by
            intro g hg
            rcases List.mem_append.1 hg with hg | hg
            · exact hnone g hg
            · rw [List.mem_singleton.1 hg]
              exact Ne.symm htask
          rw [pending_table (s := { s with followUps := _, flushes := others }) hnone,
            pending_table (s := { s with flushes := others ++ [f] }) hnone', hkeep t htask]
  | cons r rest =>
    have hr : r ∈ f.left.head? := by
      rw [hleft]
      rfl
    have hok := hok r hr
    dsimp only
    cases happend : b.store.appendEvent ctx (eventOf r) s.db with
    | error e =>
      rw [happend] at hok
      cases hok
    | ok a =>
      obtain ⟨row, hrow, ⟨htenant, hagent, htask, hkind, hpayload⟩, hseq, hnext, hother⟩ := appendEvent_row happend
      obtain ⟨hread, done, hdone⟩ := h.reads f hf
      have hrtask : r.task = f.task := by
        have hmem : r ∈ f.read := by
          rw [hdone, hleft]
          exact List.mem_append_right _ List.mem_cons_self
        rw [hread] at hmem
        exact eq_of_beq (List.mem_filter.1 hmem).2
      have hfor : ∀ t, isFor t row = decide (t = f.task) := by
        intro t
        unfold isFor
        rw [htenant, hagent, htask, hrtask]
        rw [Bool.eq_iff_iff, Bool.and_eq_true, Bool.and_eq_true, beq_iff_eq, beq_iff_eq, beq_iff_eq, decide_eq_true_iff]
        constructor
        · rintro ⟨⟨htenant, hagent⟩, htask⟩
          cases t
          cases htenant
          cases hagent
          cases htask
          rfl
        · rintro rfl
          exact ⟨⟨rfl, rfl⟩, rfl⟩
      have hsingle : (others ++ [({ f with left := rest } : Flush)]).Pairwise fun g g' => g.task ≠ g'.task := by
        refine List.pairwise_append.2 ⟨(List.pairwise_append.1 h.single).1, List.pairwise_singleton .., fun g hg g' hg' => ?_⟩
        rw [List.mem_singleton.1 hg']
        exact hothers g hg
      have hevents' : a.2.events = db₀.events ++ (new ++ [row]) := by
        rw [hrow, ← List.append_assoc]
        exact congrArg (· ++ [row]) hevents
      refine ⟨h.order, hsingle, fun g hg => ?_, new ++ [row], hevents', hnumbered.append hseq hnext hother hkind, fun t => ?_⟩
      · rcases List.mem_append.1 hg with hg | hg
        · exact h.reads g (List.mem_append_left _ hg)
        · rw [List.mem_singleton.1 hg]
          refine ⟨hread, done ++ [r], ?_⟩
          rw [hdone, hleft, List.append_assoc, List.singleton_append]
      · rw [← hmoved t, delivered_append, hfor]
        by_cases htask : t = f.task
        · subst htask
          have hlater : pending f.task { s with db := a.2, flushes := others ++ [{ f with left := rest }] } = rest :=
            pending_flush (f := { f with left := rest }) hsingle (List.mem_append_right _ List.mem_cons_self)
          rw [hpending, hleft, hlater, hpayload, decide_eq_true rfl, if_pos rfl, List.append_assoc]
          rfl
        · rw [decide_eq_false htask, if_neg Bool.false_ne_true, List.append_nil]
          congr 2
          by_cases hflush : ∃ g ∈ others, g.task = t
          · obtain ⟨g, hg, rfl⟩ := hflush
            rw [pending_flush (s := { s with db := a.2, flushes := _ }) hsingle (List.mem_append_left _ hg),
              pending_flush (s := { s with flushes := others ++ [f] }) h.single (List.mem_append_left _ hg)]
          · have hnone : ∀ (g : Flush) (left : List FollowUpRow), g ∈ others ++ [({ f with left := left } : Flush)] → g.task ≠ t := by
              intro g left hg
              rcases List.mem_append.1 hg with hg | hg
              · exact fun heq => hflush ⟨g, hg, heq⟩
              · rw [List.mem_singleton.1 hg]
                exact Ne.symm htask
            rw [pending_table (s := { s with db := a.2, flushes := _ }) fun g => hnone g rest,
              pending_table (s := { s with flushes := others ++ [f] }) fun g => hnone g f.left]

theorem step_kept (b : Backend) (e : Event) (s : World) (h : Kept db₀ s) (hok : Orderly b.store s e) :
    Kept db₀ (s.step b.store e).2 := by
  cases e with
  | queueFollowUp ctx task text =>
    obtain ⟨hnone, htime⟩ := hok
    obtain ⟨new, hevents, hnumbered, hmoved⟩ := h.moved
    let row : FollowUpRow := ⟨nextRowid s.followUps, task, text, ctx.now⟩
    let after : World := { s with followUps := s.followUps ++ [row], queued := s.queued ++ [row] }
    have hfilter : ∀ (t : TaskRef) (rows : List FollowUpRow), (rows ++ [row]).filter (fun r => r.task == t) =
        rows.filter (fun r => r.task == t) ++ if task = t then [row] else [] := by
      intro t rows
      rw [List.filter_append, List.filter_singleton]
      by_cases ht : task = t
      · simp [row, ht]
      · have hne : (row.task == t) = false := beq_false_of_ne ht
        rw [hne, if_neg ht, cond_false]
    refine ⟨?_, h.single, fun f hf => ?_, new, hevents, hnumbered, fun t => ?_⟩
    · refine List.pairwise_append.2 ⟨h.order, List.pairwise_singleton .., fun r hr r' hr' => ?_⟩
      rw [List.mem_singleton.1 hr']
      exact ⟨lt_nextRowid r hr, fun heq => htime r hr heq⟩
    · obtain ⟨hread, hdone⟩ := h.reads f hf
      refine ⟨?_, hdone⟩
      change f.read = (s.followUps ++ [row]).filter _
      rw [hfilter, if_neg fun heq => hnone f hf heq.symm, List.append_nil]
      exact hread
    · change _ = ((s.queued ++ [row]).filter _).map _
      have hpending : pending t after =
          pending t s ++ if task = t then [row] else [] := by
        by_cases htask : task = t
        · subst htask
          rw [pending_table hnone, pending_table (s := after) hnone, hfilter]
        · by_cases hflush : ∃ f ∈ s.flushes, f.task = t
          · obtain ⟨f, hf, rfl⟩ := hflush
            rw [pending_flush h.single hf, pending_flush (s := after) h.single hf,
              if_neg htask, List.append_nil]
          · have hother : ∀ f ∈ s.flushes, f.task ≠ t := fun f hf heq => hflush ⟨f, hf, heq⟩
            rw [pending_table hother, pending_table (s := after) hother, hfilter]
      change _ ++ payloads (pending t after) = _
      rw [hpending, hfilter, List.map_append, payloads, List.map_append, ← List.append_assoc]
      exact congrArg (· ++ _) (hmoved t)
  | flushFollowUps ctx task =>
    have hok : ∀ f ∈ s.flushes, f.task ≠ task := hok
    cases hwait : waiting task s.followUps with
    | nil => simpa only [World.step, hwait] using h
    | cons r rest =>
      simp only [World.step, hwait]
      have hbegun : Kept db₀ { s with flushes := s.flushes ++ [⟨task, r :: rest, r :: rest⟩] } :=
        h.begun hok hwait.symm rfl
      by_cases happend : (b.store.appendEvent ctx (eventOf r) s.db).isOk = true
      · exact goOn_kept hbegun fun r' hr' => by
          cases hr'
          exact happend
      · -- the first append is refused: the flush ends, and nothing has moved
        unfold goOn
        dsimp only
        cases hres : b.store.appendEvent ctx (eventOf r) s.db with
        | error e => exact h
        | ok a => exact absurd (by rw [hres]; rfl) happend
  | resume ctx n =>
    cases hf : s.flushes[n]? with
    | none => simpa only [World.step, hf] using h
    | some f =>
      simp only [World.step, hf]
      have hperm : s.flushes.Perm (s.flushes.eraseIdx n ++ [f]) := by
        obtain ⟨hn, rfl⟩ := List.getElem?_eq_some_iff.1 hf
        exact ((List.getElem_cons_eraseIdx_perm hn).symm).trans (List.perm_append_singleton _ _).symm
      exact goOn_kept (h.perm hperm) (hok f hf)
  | crash n =>
    have hok : s.flushes[n]? = none := hok
    have hsame : s.flushes.eraseIdx n = s.flushes := List.eraseIdx_of_length_le (List.getElem?_eq_none_iff.1 hok)
    simp only [World.step, hsame]
    exact h

/-- A flush that returns leaves nothing of its task to append. -/
theorem goOn_answer {ctx : Ctx} {f : Flush} {others : List Flush} {task : TaskRef} {n : Nat}
    (hothers : ∀ g ∈ others, g.task ≠ f.task) (h : (goOn S ctx f others s).1 = some (task, n)) :
    pending task (goOn S ctx f others s).2 = [] := by
  unfold goOn at h ⊢
  cases hleft : f.left with
  | nil =>
    rw [hleft] at h
    cases h
    dsimp only
    rw [pending_table (s := { s with followUps := _, flushes := others }) hothers]
    refine List.filter_eq_nil_iff.2 fun r hr => ?_
    rw [(Table.mem_delete.1 hr).2]
    exact Bool.false_ne_true
  | cons r rest =>
    rw [hleft] at h
    dsimp only at h
    cases hres : S.appendEvent ctx (eventOf r) s.db with
    | error e => rw [hres] at h; cases h
    | ok a => rw [hres] at h; cases h

theorem step_answer (b : Backend) (e : Event) (s : World) (h : Kept db₀ s) (hok : Orderly b.store s e) {task : TaskRef}
    {n : Nat} (hanswer : (s.step b.store e).1 = some (task, n)) : pending task (s.step b.store e).2 = [] := by
  cases e with
  | queueFollowUp ctx t text => cases hanswer
  | flushFollowUps ctx t =>
    have hok : ∀ f ∈ s.flushes, f.task ≠ t := hok
    cases hwait : waiting t s.followUps with
    | nil =>
      simp only [World.step, hwait] at hanswer ⊢
      cases hanswer
      rw [pending_table hok, ← h.waiting, hwait]
    | cons r rest =>
      simp only [World.step, hwait] at hanswer ⊢
      exact goOn_answer hok hanswer
  | resume ctx m =>
    cases hf : s.flushes[m]? with
    | none =>
      simp only [World.step, hf] at hanswer
      cases hanswer
    | some f =>
      simp only [World.step, hf] at hanswer ⊢
      refine goOn_answer (fun g hg => ?_) hanswer
      obtain ⟨hm, rfl⟩ := List.getElem?_eq_some_iff.1 hf
      have hpairs := (List.getElem_cons_eraseIdx_perm hm).pairwise_iff (R := fun f f' : Flush => f.task ≠ f'.task)
        fun hne => Ne.symm hne
      exact Ne.symm ((List.pairwise_cons.1 (hpairs.2 h.single)).1 g hg)
  | crash m => cases hanswer

end Keep

/-! ## The claim of the queue -/

/-- Every queued text is one message event, in the order of the queue, or is still in the table and to be appended. -/
structure OnceInOrder (db₀ : Db) (s : World) : Prop where
  moved : ∃ new, s.db.events = db₀.events ++ new ∧ Numbered s.db new ∧
    ∀ task, delivered task new ++ payloads (pending task s) = queuedFor task s.queued
  safe : ∀ task, ∀ r ∈ pending task s, r ∈ s.followUps

theorem Kept.once {db₀ : Db} {s : World} (h : Kept db₀ s) : OnceInOrder db₀ s := by
  refine ⟨h.moved, fun task r hr => ?_⟩
  by_cases hflush : ∃ f ∈ s.flushes, f.task = task
  · obtain ⟨f, hf, rfl⟩ := hflush
    rw [pending_flush h.single hf] at hr
    obtain ⟨hread, done, hdone⟩ := h.reads f hf
    have hmem : r ∈ f.read := by
      rw [hdone]
      exact List.mem_append_right _ hr
    rw [hread] at hmem
    exact (List.mem_filter.1 hmem).1
  · rw [pending_table fun f hf heq => hflush ⟨f, hf, heq⟩] at hr
    exact (List.mem_filter.1 hr).1

theorem kept_start (db : Db) : Kept db (.start db) := by
  refine ⟨.nil, .nil, fun f hf => absurd hf List.not_mem_nil, [], (List.append_nil _).symm, ⟨.nil, ?_, ?_⟩, fun _ => rfl⟩
  · exact fun e he => absurd he List.not_mem_nil
  · exact fun e he => absurd he List.not_mem_nil

/-- On either store and from any database: in an orderly run every queued text is one message event, in order, and a flush
that returns has left nothing behind. -/
theorem followed_up_once (b : Backend) (db : Db) {events : List Event}
    (hok : ∀ x ∈ turns (World.step b.store) events (.start db), Orderly b.store x.before x.act) :
    OnceInOrder db (final (World.step b.store) events (.start db)) ∧
      ∀ x ∈ turns (World.step b.store) events (.start db), ∀ task n, x.answer = some (task, n) →
        pending task x.after = [] := by
  refine ⟨(final_guarded (kept_start db) (fun e s => step_kept b e s) hok).once, ?_⟩
  exact forall_turns_where (kept_start db) (fun e s => step_kept b e s)
    (fun e s h hok task n hanswer => step_answer b e s h hok hanswer) hok

instance (S : StorageAdapter) (s : World) (e : Event) : Decidable (Orderly S s e) :=
  match e with
  | .queueFollowUp _ _ _ => inferInstanceAs (Decidable (_ ∧ _))
  | .flushFollowUps _ _ => List.decidableBAll _ _
  | .crash _ => inferInstanceAs (Decidable (_ = none))
  | .resume ctx n =>
    match h : s.flushes[n]? with
    | none => isTrue fun _ hf => nomatch h.symm.trans hf
    | some f => decidable_of_iff (∀ r ∈ f.left.head?, (S.appendEvent ctx (eventOf r) s.db).isOk = true)
        ⟨fun hall _ hg => Option.some.inj (h.symm.trans hg) ▸ hall, fun hall => hall f h⟩

def aTask : TaskRef := ⟨"t", "a", "k"⟩

def atTime (now : Int) : Ctx := ⟨now, fun _ => "e"⟩

/-- Two texts flushed, and a third queued after. -/
def anOrderlyRun : List Event :=
  [.queueFollowUp (atTime 1) aTask (js "one"), .queueFollowUp (atTime 2) aTask (js "two"), .flushFollowUps (atTime 3) aTask,
    .resume (atTime 4) 0, .resume (atTime 5) 0, .queueFollowUp (atTime 6) aTask (js "three")]

theorem followed_up_once_two : OnceInOrder Db.empty (final (World.step durableObjectStore) anOrderlyRun (.start .empty)) :=
  (followed_up_once .durableObject .empty (by decide)).1

/-- A text is queued while a flush waits for its append. -/
def anArrival : World := final (World.step durableObjectStore) [.queueFollowUp (atTime 1) aTask (js "one"),
  .flushFollowUps (atTime 2) aTask, .queueFollowUp (atTime 3) aTask (js "two"), .resume (atTime 4) 0] (.start .empty)

/-- A flush is cut off before its delete, and another one runs to its end. -/
def aCrash : World := final (World.step durableObjectStore) [.queueFollowUp (atTime 1) aTask (js "one"),
  .flushFollowUps (atTime 2) aTask, .crash 0, .flushFollowUps (atTime 3) aTask, .resume (atTime 4) 0] (.start .empty)

/-- The text that arrived is deleted with the rows the flush read, and the row of the flush that was cut off is appended
twice. -/
theorem arrival_lost_and_crash_doubled :
    (delivered aTask anArrival.db.events = payloads [⟨1, aTask, js "one", 1⟩] ∧ anArrival.followUps = [] ∧
      queuedFor aTask anArrival.queued = payloads [⟨1, aTask, js "one", 1⟩, ⟨2, aTask, js "two", 3⟩]) ∧
    delivered aTask aCrash.db.events = payloads [⟨1, aTask, js "one", 1⟩, ⟨1, aTask, js "one", 1⟩] ∧
      queuedFor aTask aCrash.queued = payloads [⟨1, aTask, js "one", 1⟩] := by
  decide

end Antiproton.FollowUps
