import Antiproton.Export.Scan
import Antiproton.Lib.History

/-!
# Antiproton.Export.Bucket

Where an agent's trace rows are: the object's outbox, and the batches its flushes put in the bucket
(`flushTrace`, `cf/src/trace-r2.ts`). One flush runs at a time; it may be cut off after it read, and what it put may land
at any later time, so batches may overlap.

* `step_kept`: a row the outbox can read is in the outbox, or in a batch, at every step; and a batch has every such row of
  the range its key says.
-/

namespace Antiproton.Export

open Js Trace History

/-- One object of the bucket. -/
structure Stored where
  key : Str
  uploaded : Int
  rows : List TraceOutboxRow
deriving DecidableEq

/-- What a flush read, and whether its put has landed. -/
structure Flush where
  pending : PendingTrace
  landed : Bool
deriving DecidableEq

/-- The object's tables and the bucket, every flush that has read, and the one that is running; the rows ever appended are
kept in `log`. -/
structure World where
  tables : ExportTables
  bucket : List Stored
  flushes : List Flush
  current : Option Nat
  log : List TraceOutboxRow
deriving DecidableEq

def World.empty : World := ⟨⟨⟨[], 1⟩, 0, []⟩, [], [], none, []⟩

inductive Event where
  | append (r : TraceOutboxRow)
  /-- A flush begins, and reads. -/
  | flush (limit : Nat) (now : Int)
  /-- What a flush put is in the bucket, at the bucket's time. -/
  | land (n : Nat) (now : Int)
  /-- The running flush moves its cursor and prunes. -/
  | finish (holdThrough : Option Nat)
  | cut
deriving DecidableEq

/-- Where the rows of a batch go. -/
def batchKey (w : Owner) (rows : List TraceOutboxRow) : Option Str :=
  match rows.head?, rows.getLast? with
  | some first, some last => some (traceKey w.tenantId w.agentId first.seq last.seq)
  | _, _ => none

/-- `sink.put`. -/
def putObject (o : Stored) (bucket : List Stored) : List Stored := Table.upsert (·.key == o.key) o (fun _ => o) bucket

def World.step (w : Owner) (e : Event) (s : World) : Unit × World :=
  match e with
  | .append r =>
    ((), { s with
      tables := { s.tables with outbox := appendTraceRow r s.tables.outbox }
      log := s.log ++ [{ r with seq := s.tables.outbox.nextSeq }] })
  | .flush limit now =>
    ((), { s with
      tables := (flushStart limit now s.tables).2
      flushes := s.flushes ++ [⟨(flushStart limit now s.tables).1, false⟩]
      current := some s.flushes.length })
  | .land n now =>
    match s.flushes[n]? with
    | none => ((), s)
    | some f =>
      match batchKey w f.pending.rows with
      | none => ((), s)
      | some key =>
        ((), { s with
          bucket := putObject ⟨key, now, f.pending.rows⟩ s.bucket
          flushes := s.flushes.set n { f with landed := true } })
  | .finish holdThrough =>
    match s.current.bind (s.flushes[·]?) with
    | none => ((), s)
    | some f =>
      if f.landed ∨ f.pending.rows = [] then
        ((), { s with tables := flushEnd f.pending holdThrough s.tables, current := none })
      else ((), s)
  | .cut => ((), { s with current := none })

/-- The bucket's clock, when a batch lands, is not more than the slack behind the object's. -/
def Event.timely (s : World) : Event → Prop
  | .land n now => ∀ f, s.flushes[n]? = some f → ∀ r ∈ f.pending.rows, r.at_ ≤ now + UPLOAD_SLACK_MS
  | _ => True

/-! ## What every step keeps -/

/-- Rows of the log the outbox can read, in order, without a gap between the first and the last. -/
structure Taken (log rows : List TraceOutboxRow) : Prop where
  real : ∀ r ∈ rows, r ∈ log ∧ r.readable = true
  sorted : rows.Pairwise fun r r' => r.seq < r'.seq
  whole : ∀ a ∈ rows, ∀ b ∈ rows, ∀ r ∈ log, r.readable = true → a.seq ≤ r.seq → r.seq ≤ b.seq → r ∈ rows

/-- An object of the bucket is a batch: its key is its range, and its rows ended before it was uploaded. -/
structure Stored.IsBatch (w : Owner) (log : List TraceOutboxRow) (o : Stored) : Prop where
  key : batchKey w o.rows = some o.key
  taken : Taken log o.rows
  ended : ∀ r ∈ o.rows, r.at_ ≤ o.uploaded + UPLOAD_SLACK_MS

/-- Some object of the bucket has the row. -/
def Exported (s : World) (r : TraceOutboxRow) : Prop := ∃ o ∈ s.bucket, r ∈ o.rows

structure Kept (w : Owner) (s : World) : Prop where
  order : s.log.Pairwise fun r r' => r.seq < r'.seq
  numbered : ∀ r ∈ s.log, 0 < r.seq ∧ r.seq < s.tables.outbox.nextSeq
  outbox : s.tables.outbox.InOrder
  rows : ∀ r ∈ s.tables.outbox.rows, r ∈ s.log
  unsent : ∀ r ∈ s.log, s.tables.sent < r.seq → r ∈ s.tables.outbox.rows
  sent : s.tables.sent < s.tables.outbox.nextSeq
  exported : ∀ r ∈ s.log, r.readable = true → r.seq ≤ s.tables.sent → Exported s r
  taken : ∀ f ∈ s.flushes, Taken s.log f.pending.rows
  landed : ∀ f ∈ s.flushes, f.landed = true → ∀ r ∈ f.pending.rows, Exported s r
  /-- The running flush has every row from the cursor up to where it read. -/
  current : ∀ f, s.current.bind (s.flushes[·]?) = some f → f.pending.through < s.tables.outbox.nextSeq ∧
    ∀ r ∈ s.log, r.readable = true → s.tables.sent < r.seq → r.seq ≤ f.pending.through → r ∈ f.pending.rows
  batches : ∀ o ∈ s.bucket, o.IsBatch w s.log
  keys : Table.Unique Stored.key s.bucket

section Batches

variable {w : Owner} {log rows : List TraceOutboxRow}

theorem Taken.append (h : Taken log rows) {r : TraceOutboxRow} (hr : ∀ x ∈ log, x.seq < r.seq) :
    Taken (log ++ [r]) rows := by
  refine ⟨fun x hx => ⟨List.mem_append_left _ (h.real x hx).1, (h.real x hx).2⟩, h.sorted, ?_⟩
  intro a ha b hb x hx hread hle hle'
  rcases List.mem_append.1 hx with hx | hx
  · exact h.whole a ha b hb x hx hread hle hle'
  · rw [List.mem_singleton.1 hx] at hle'
    have hlt := hr b (h.real b hb).1
    omega

/-- The key of a batch says the seqs of its first and last rows. -/
theorem batchKey_some {key : Str} (h : batchKey w rows = some key) : ∃ first ∈ rows, ∃ last ∈ rows,
    rows.head? = some first ∧ rows.getLast? = some last ∧ key = traceKey w.tenantId w.agentId first.seq last.seq := by
  unfold batchKey at h
  split at h
  · next first last hfirst hlast =>
    cases h
    exact ⟨first, List.mem_of_head? hfirst, last, List.mem_of_getLast? hlast, hfirst, hlast, rfl⟩
  · cases h

theorem traceKey_inj {a b c d : Nat} (h : traceKey w.tenantId w.agentId a b = traceKey w.tenantId w.agentId c d) :
    a = c ∧ b = d := by
  have hrange := traceKeyRange_key w a b
  rw [h, traceKeyRange_key] at hrange
  cases hrange
  exact ⟨rfl, rfl⟩

theorem Taken.between (h : Taken log rows) {first last : TraceOutboxRow} (hfirst : rows.head? = some first)
    (hlast : rows.getLast? = some last) {r : TraceOutboxRow} (hr : r ∈ rows) : first.seq ≤ r.seq ∧ r.seq ≤ last.seq := by
  constructor
  · obtain ⟨rest, rfl⟩ := List.head?_eq_some_iff.1 hfirst
    rcases List.mem_cons.1 hr with rfl | hr
    · exact Nat.le_refl _
    · exact Nat.le_of_lt ((List.pairwise_cons.1 h.sorted).1 r hr)
  · obtain ⟨init, rfl⟩ := List.getLast?_eq_some_iff.1 hlast
    rcases List.mem_append.1 hr with hr | hr
    · exact Nat.le_of_lt ((List.pairwise_append.1 h.sorted).2.2 r hr last List.mem_cons_self)
    · rw [List.mem_singleton.1 hr]

/-- Two batches of one key have the same rows. -/
theorem Taken.same {rows' : List TraceOutboxRow} (h : Taken log rows) (h' : Taken log rows') {key : Str}
    (hkey : batchKey w rows = some key) (hkey' : batchKey w rows' = some key) {r : TraceOutboxRow} (hr : r ∈ rows) :
    r ∈ rows' := by
  obtain ⟨first, -, last, -, hfirst, hlast, rfl⟩ := batchKey_some hkey
  obtain ⟨first', hf', last', hl', -, -, heq⟩ := batchKey_some hkey'
  obtain ⟨hff, hll⟩ := traceKey_inj heq
  obtain ⟨hle, hle'⟩ := h.between hfirst hlast hr
  obtain ⟨hreal, hread⟩ := h.real r hr
  exact h'.whole first' hf' last' hl' r hreal hread (by omega) (by omega)

end Batches

section Put

variable {bucket : List Stored} {o x : Stored}

theorem mem_put : x ∈ putObject o bucket → x = o ∨ x ∈ bucket := by
  intro h
  rcases Table.mem_upsert h with h | h | ⟨-, -, -, h⟩
  · exact .inr h
  · exact .inl h
  · exact .inl h.symm

theorem put_self (o : Stored) (bucket : List Stored) : o ∈ putObject o bucket := by
  unfold putObject Table.upsert
  split
  · next h =>
    obtain ⟨y, hy, hkey⟩ := List.any_eq_true.1 h
    exact Table.mem_update.2 ⟨y, hy, if_pos hkey⟩
  · exact List.mem_append_right _ List.mem_cons_self

theorem put_other (hx : x ∈ bucket) (hne : x.key ≠ o.key) : x ∈ putObject o bucket := by
  unfold putObject Table.upsert
  split
  · exact Table.mem_update.2 ⟨x, hx, if_neg fun h => hne (eq_of_beq h)⟩
  · exact List.mem_append_left _ hx

end Put

section Steps

variable {w : Owner} {s : World}

theorem kept_empty (w : Owner) : Kept w World.empty := by
  refine ⟨.nil, ?_, ⟨.nil, ?_⟩, ?_, ?_, Nat.one_pos, ?_, ?_, ?_, ?_, ?_, List.nodup_nil⟩
  · exact fun _ h => absurd h List.not_mem_nil
  · exact fun _ h => absurd h List.not_mem_nil
  · exact fun _ h => absurd h List.not_mem_nil
  · exact fun _ h => absurd h List.not_mem_nil
  · exact fun _ h => absurd h List.not_mem_nil
  · exact fun _ h => absurd h List.not_mem_nil
  · exact fun _ h => absurd h List.not_mem_nil
  · exact fun _ h => (nomatch h)
  · exact fun _ h => absurd h List.not_mem_nil

theorem append_kept (h : Kept w s) (r : TraceOutboxRow) : Kept w (s.step w (.append r)).2 := by
  have hlast : ∀ x ∈ s.log, x.seq < ({ r with seq := s.tables.outbox.nextSeq } : TraceOutboxRow).seq :=
    fun x hx => (h.numbered x hx).2
  have hnew : ∀ x ∈ s.log ++ [{ r with seq := s.tables.outbox.nextSeq }], x ∈ s.log ∨ x.seq = s.tables.outbox.nextSeq := by
    intro x hx
    rcases List.mem_append.1 hx with hx | hx
    · exact .inl hx
    · rw [List.mem_singleton.1 hx]
      exact .inr rfl
  refine ⟨?_, ?_, ⟨?_, ?_⟩, ?_, ?_, ?_, ?_, ?_, ?_, ?_, ?_, h.keys⟩
  · exact List.pairwise_append.2 ⟨h.order, List.pairwise_singleton .., fun a ha b hb => by
      rw [List.mem_singleton.1 hb]
      exact hlast a ha⟩
  · intro x hx
    have hsent := h.sent
    have hnext : ((s.step w (.append r)).2.tables.outbox).nextSeq = s.tables.outbox.nextSeq + 1 := rfl
    rw [hnext]
    rcases hnew x hx with hx | hx
    · have := h.numbered x hx
      omega
    · omega
  · exact List.pairwise_append.2 ⟨h.outbox.rows, List.pairwise_singleton .., fun a ha b hb => by
      rw [List.mem_singleton.1 hb]
      exact h.outbox.below a ha⟩
  · intro x hx
    have hnext : ((s.step w (.append r)).2.tables.outbox).nextSeq = s.tables.outbox.nextSeq + 1 := rfl
    rw [hnext]
    rcases List.mem_append.1 hx with hx | hx
    · have := h.outbox.below x hx
      omega
    · rw [List.mem_singleton.1 hx]
      exact Nat.lt_succ_self _
  · intro x hx
    rcases List.mem_append.1 hx with hx | hx
    · exact List.mem_append_left _ (h.rows x hx)
    · exact List.mem_append_right _ hx
  · intro x hx hlt
    rcases List.mem_append.1 hx with hx | hx
    · exact List.mem_append_left _ (h.unsent x hx hlt)
    · exact List.mem_append_right _ hx
  · exact Nat.lt_succ_of_lt h.sent
  · intro x hx hread hle
    rcases hnew x hx with hx | hx
    · exact h.exported x hx hread hle
    · have hsent : x.seq ≤ s.tables.sent := hle
      have := h.sent
      omega
  · exact fun f hf => (h.taken f hf).append hlast
  · exact fun f hf hl => h.landed f hf hl
  · intro f hf
    obtain ⟨hthrough, hall⟩ := h.current f hf
    refine ⟨Nat.lt_succ_of_lt hthrough, ?_⟩
    intro x hx hread hlt hle
    rcases hnew x hx with hx | hx
    · exact hall x hx hread hlt hle
    · omega
  · exact fun o ho => ⟨(h.batches o ho).key, (h.batches o ho).taken.append hlast, (h.batches o ho).ended⟩

/-- What a flush reads. -/
theorem Kept.reads (h : Kept w s) (limit : Nat) :
    Taken s.log (pendingTrace s.tables.outbox s.tables.sent limit).rows ∧
      ∀ r ∈ s.log, r.readable = true → s.tables.sent < r.seq →
        r.seq ≤ (pendingTrace s.tables.outbox s.tables.sent limit).through →
          r ∈ (pendingTrace s.tables.outbox s.tables.sent limit).rows := by
  have hall : ∀ r ∈ s.log, r.readable = true → s.tables.sent < r.seq →
      r.seq ≤ (pendingTrace s.tables.outbox s.tables.sent limit).through →
        r ∈ (pendingTrace s.tables.outbox s.tables.sent limit).rows :=
    fun r hr hread hlt hle => pending_all h.outbox (h.unsent r hr hlt) hlt hle hread
  refine ⟨⟨?_, pending_sorted h.outbox, ?_⟩, hall⟩
  · intro r hr
    exact ⟨h.rows r (pending_mem hr).1, (List.mem_filter.1 hr).2⟩
  · intro a ha b hb r hr hread hle hle'
    have hafter := (pending_mem ha).2.1
    have hthrough := (pending_mem hb).2.2
    exact hall r hr hread (by omega) (by omega)

theorem flush_kept (h : Kept w s) (limit : Nat) (now : Int) : Kept w (s.step w (.flush limit now)).2 := by
  have hsent : (flushStart limit now s.tables).2.sent = s.tables.sent := by
    unfold flushStart
    dsimp only
    split <;> rfl
  have hout := flushStart_outbox limit now s.tables
  have hread : (flushStart limit now s.tables).1 = pendingTrace s.tables.outbox s.tables.sent limit := rfl
  obtain ⟨htaken, hall⟩ := h.reads limit
  have hflushes : ∀ f ∈ s.flushes ++ [⟨(flushStart limit now s.tables).1, false⟩],
      f ∈ s.flushes ∨ f = ⟨pendingTrace s.tables.outbox s.tables.sent limit, false⟩ := by
    intro f hf
    rcases List.mem_append.1 hf with hf | hf
    · exact .inl hf
    · exact .inr (List.mem_singleton.1 hf)
  unfold World.step
  refine ⟨h.order, ?_, ?_, ?_, ?_, ?_, ?_, ?_, ?_, ?_, h.batches, h.keys⟩
  · dsimp only
    rw [hout]
    exact h.numbered
  · dsimp only
    rw [hout]
    exact h.outbox
  · dsimp only
    rw [hout]
    exact h.rows
  · dsimp only
    rw [hout, hsent]
    exact h.unsent
  · dsimp only
    rw [hout, hsent]
    exact h.sent
  · dsimp only
    rw [hsent]
    exact h.exported
  · intro f hf
    rcases hflushes f hf with hf | rfl
    · exact h.taken f hf
    · exact htaken
  · intro f hf hl
    rcases hflushes f hf with hf | rfl
    · exact h.landed f hf hl
    · cases hl
  · intro f hf
    dsimp only at hf ⊢
    rw [Option.bind_some, List.getElem?_append_right (Nat.le_refl _), Nat.sub_self] at hf
    cases hf
    rw [hout, hsent]
    exact ⟨pending_through h.outbox h.sent, hall⟩

theorem exported_put {o : Stored} (h : Kept w s) (ho : o.IsBatch w s.log) {r : TraceOutboxRow} (hr : Exported s r) :
    ∃ x ∈ putObject o s.bucket, r ∈ x.rows := by
  obtain ⟨x, hx, hrx⟩ := hr
  by_cases hkey : x.key = o.key
  · refine ⟨o, put_self o s.bucket, ?_⟩
    have hbatch := h.batches x hx
    exact hbatch.taken.same ho.taken (hkey ▸ hbatch.key) ho.key hrx
  · exact ⟨x, put_other hx hkey, hrx⟩

theorem land_kept (h : Kept w s) (n : Nat) (now : Int) (hok : (Event.land n now).timely s) :
    Kept w (s.step w (.land n now)).2 := by
  cases hf : s.flushes[n]? with
  | none => simpa only [World.step, hf] using h
  | some f =>
    cases hkey : batchKey w f.pending.rows with
    | none => simpa only [World.step, hf, hkey] using h
    | some key =>
      simp only [World.step, hf, hkey]
      have hmem := List.mem_of_getElem? hf
      have hbatch : (⟨key, now, f.pending.rows⟩ : Stored).IsBatch w s.log := ⟨hkey, h.taken f hmem, hok f hf⟩
      have hset : ∀ g ∈ s.flushes.set n { f with landed := true }, g ∈ s.flushes ∨ g = { f with landed := true } :=
        fun g hg => List.mem_or_eq_of_mem_set hg
      refine ⟨h.order, h.numbered, h.outbox, h.rows, h.unsent, h.sent, ?_, ?_, ?_, ?_, ?_, ?_⟩
      · exact fun r hr hread hle => exported_put h hbatch (h.exported r hr hread hle)
      · intro g hg
        rcases hset g hg with hg | rfl
        · exact h.taken g hg
        · exact h.taken f hmem
      · intro g hg hl r hr
        rcases hset g hg with hg | rfl
        · exact exported_put h hbatch (h.landed g hg hl r hr)
        · exact ⟨_, put_self _ _, hr⟩
      · intro g hg
        obtain ⟨m, hm, hg⟩ := Option.bind_eq_some_iff.1 hg
        have hcur : ∀ g', s.flushes[m]? = some g' → _ := fun g' hg' => h.current g' (by rw [hm]; exact hg')
        dsimp only at hg
        rw [List.getElem?_set] at hg
        split at hg
        · next heq =>
          subst heq
          rw [if_pos (List.getElem?_eq_some_iff.1 hf).1] at hg
          cases hg
          exact hcur f hf
        · exact hcur g hg
      · intro o ho
        rcases mem_put ho with rfl | ho
        · exact hbatch
        · exact h.batches o ho
      · exact Table.unique_upsert_where h.keys (by simp) fun x hx => (eq_of_beq hx).symm

theorem finish_kept (h : Kept w s) (holdThrough : Option Nat) : Kept w (s.step w (.finish holdThrough)).2 := by
  cases hf : s.current.bind (s.flushes[·]?) with
  | none => simpa only [World.step, hf] using h
  | some f =>
    simp only [World.step, hf]
    split
    · next hdone =>
      obtain ⟨hthrough, hall⟩ := h.current f hf
      obtain ⟨m, -, hm⟩ := Option.bind_eq_some_iff.1 hf
      have hmem : f ∈ s.flushes := List.mem_of_getElem? hm
      have hnext := @flushEnd_nextSeq s.tables f.pending holdThrough
      have hsent : (flushEnd f.pending holdThrough s.tables).sent = max s.tables.sent f.pending.through := by
        unfold flushEnd
        dsimp only
        split <;> omega
      have hexported : ∀ r ∈ s.log, r.readable = true → r.seq ≤ max s.tables.sent f.pending.through → Exported s r := by
        intro r hr hread hle
        rcases Nat.lt_or_ge s.tables.sent r.seq with hlt | hge
        · have hin := hall r hr hread hlt (by omega)
          rcases hdone with hl | hnil
          · exact h.landed f hmem hl r hin
          · rw [hnil] at hin
            cases hin
        · exact h.exported r hr hread hge
      refine ⟨h.order, ?_, flushEnd_inOrder h.outbox, ?_, ?_, ?_, ?_, h.taken, h.landed, ?_, h.batches, h.keys⟩
      · dsimp only
        rw [hnext]
        exact h.numbered
      · exact fun r hr => h.rows r (flushEnd_mem hr)
      · intro r hr hlt
        dsimp only at hlt ⊢
        rw [hsent] at hlt
        have hin := h.unsent r hr (by omega)
        exact flushEnd_past hin hlt
      · dsimp only
        rw [hsent, hnext]
        have := h.sent
        omega
      · dsimp only
        rw [hsent]
        exact hexported
      · exact fun _ hg => (nomatch hg)
    · exact h

theorem step_kept (e : Event) (s : World) (h : Kept w s) (hok : e.timely s) : Kept w (s.step w e).2 := by
  cases e with
  | append r => exact append_kept h r
  | flush limit now => exact flush_kept h limit now
  | land n now => exact land_kept h n now hok
  | finish holdThrough => exact finish_kept h holdThrough
  | cut =>
    exact ⟨h.order, h.numbered, h.outbox, h.rows, h.unsent, h.sent, h.exported, h.taken, h.landed,
      fun _ hf => (nomatch hf), h.batches, h.keys⟩

end Steps

end Antiproton.Export
