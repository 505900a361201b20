import Antiproton.Lib.History
import Antiproton.Trace.Forward

/-!
# Antiproton.Trace.Forwarded

Every row of a lane's kinds is queued, was in a batch the receiver answered 2xx, or is counted once.

* `LaneSound`: what holds of a lane's tables at every moment. `stage_sound`, `answered_sound`: staging and every answer
  keep it.
* `loop_sound`: a send keeps it wherever it is cut off, and accounts for every row that was queued.
* `forwarded`: over every history of an object, its passes and its export.
-/

namespace Antiproton.Trace

open Js

/-! ## A lane's tables -/

/-- Every row the log was given as dropped, by its number. -/
def counted (t : LaneTables) : List Nat := (t.noted.filter (·.reason.drops)).flatMap (·.seqs)

def seqsOf (rows : List WireRow) : List Nat := rows.map (·.seq)

def Request.accepted (q : Request) : Bool := q.status.any fun s => answerOf s == .accepted

def Delivered (t : LaneTables) (seq : Nat) : Prop := ∃ q ∈ t.requests, q.accepted = true ∧ seq ∈ seqsOf q.rows

/-- The numbers of the rows that were sent, as often as they were. -/
def sentSeqs (requests : List Request) : List Nat := requests.flatMap fun q => seqsOf q.rows

/-- Whether a row is sent again, or past every row sent before. -/
def InTurn (before : List Request) (seq : Nat) : Prop := seq ∈ sentSeqs before ∨ ∀ s ∈ sentSeqs before, s < seq

/-- Rows are first sent in the order of their numbers. -/
def FirstInOrder (requests : List Request) : Prop :=
  ∀ x ∈ History.splits requests, x.2.1.rows.Pairwise (fun r r' => r.seq < r'.seq) ∧
    ∀ r ∈ x.2.1.rows, InTurn x.1 r.seq

/-- What holds of a lane, beside every row the outbox ever had. -/
structure LaneSound (lane : ForwardLane) (ever : List TraceOutboxRow) (t : LaneTables) : Prop where
  sorted : t.queue.Pairwise fun r r' => r.seq < r'.seq
  staged : ∀ q ∈ t.queue, q.seq ≤ t.cursor
  past : ∀ x ∈ counted t, x ≤ t.cursor
  once : (counted t).Nodup
  apart : ∀ x ∈ counted t, x ∉ seqsOf t.queue
  kept : ∀ r ∈ ever, r.readable = true → lane.kinds.contains r.kind = true → r.seq ≤ t.cursor →
    r.seq ∈ seqsOf t.queue ∨ Delivered t r.seq ∨ r.seq ∈ counted t
  sent : ∀ x ∈ sentSeqs t.requests, x ≤ t.cursor
  turn : ∀ q ∈ t.queue, InTurn t.requests q.seq
  inOrder : FirstInOrder t.requests

theorem lane_empty (lane : ForwardLane) {ever : List TraceOutboxRow} (h : ∀ r ∈ ever, 0 < r.seq) :
    LaneSound lane ever LaneTables.empty where
  sorted := .nil
  staged _ hq := nomatch hq
  past _ hx := nomatch hx
  once := .nil
  apart _ hx := nomatch hx
  kept r hr _ _ hle := absurd (h r hr) (by simp only [LaneTables.empty] at hle; omega)
  sent _ hx := nomatch hx
  turn _ hq := nomatch hq
  inOrder _ hx := nomatch hx

section Counted

variable {t : LaneTables}

theorem counted_note (now : Int) (reason : ForwardReason) (status : Option Nat) (seqs : List Nat) (detail : Option Str) :
    counted (note now reason status seqs detail t) = counted t ++ if reason.drops then seqs else [] := by
  unfold counted note
  rw [List.filter_append, List.flatMap_append]
  cases h : reason.drops <;> simp [h]

@[simp] theorem note_queue (now : Int) (reason : ForwardReason) (status : Option Nat) (seqs : List Nat)
    (detail : Option Str) : (note now reason status seqs detail t).queue = t.queue := rfl

@[simp] theorem note_cursor (now : Int) (reason : ForwardReason) (status : Option Nat) (seqs : List Nat)
    (detail : Option Str) : (note now reason status seqs detail t).cursor = t.cursor := rfl

@[simp] theorem note_requests (now : Int) (reason : ForwardReason) (status : Option Nat) (seqs : List Nat)
    (detail : Option Str) : (note now reason status seqs detail t).requests = t.requests := rfl

theorem seqs_nodup {rows : List WireRow} (h : rows.Pairwise fun r r' => r.seq < r'.seq) : (seqsOf rows).Nodup :=
  (List.pairwise_map.2 h).imp Nat.ne_of_lt

theorem orderBy_sorted {rows : List WireRow} (h : rows.Pairwise fun r r' => r.seq < r'.seq) :
    Table.orderBy (·.seq) rows = rows :=
  List.Pairwise.insertionSort_eq (h.imp Nat.le_of_lt)

/-- Rows taken out of the queue and counted, once each. -/
theorem sound_drop {lane : ForwardLane} {ever : List TraceOutboxRow} (h : LaneSound lane ever t) {rows rest : List WireRow}
    (hq : t.queue = rows ++ rest) {t' : LaneTables} (hqueue : t'.queue = rest) (hcursor : t'.cursor = t.cursor)
    (hrequests : t'.requests = t.requests) {seqs : List Nat} (hcounted : counted t' = counted t ++ seqs)
    (hnodup : seqs.Nodup) (hseqs : ∀ x ∈ seqs, x ∈ seqsOf rows)
    (hout : ∀ x ∈ seqsOf rows, Delivered t x ∨ x ∈ seqs) : LaneSound lane ever t' := by
  have hsorted := h.sorted
  rw [hq] at hsorted
  have hdisjoint : ∀ x ∈ seqsOf rows, x ∉ seqsOf rest := by
    intro x hx hx'
    obtain ⟨r, hr, rfl⟩ := List.mem_map.1 hx
    obtain ⟨r', hr', heq⟩ := List.mem_map.1 hx'
    have hlt := (List.pairwise_append.1 hsorted).2.2 r hr r' hr'
    omega
  have hrows : ∀ x ∈ seqsOf rows, x ∈ seqsOf t.queue := by
    intro x hx
    rw [hq, seqsOf, List.map_append]
    exact List.mem_append_left _ hx
  have hrest : ∀ x ∈ seqsOf rest, x ∈ seqsOf t.queue := by
    intro x hx
    rw [hq, seqsOf, List.map_append]
    exact List.mem_append_right _ hx
  have hmem : ∀ q ∈ rest, q ∈ t.queue := fun q hm => by rw [hq]; exact List.mem_append_right _ hm
  have hdelivered : ∀ x, Delivered t x → Delivered t' x := by
    rintro x ⟨q, hm, hx⟩
    exact ⟨q, by rw [hrequests]; exact hm, hx⟩
  refine ⟨?_, ?_, ?_, ?_, ?_, ?_, ?_, ?_, ?_⟩
  · rw [hqueue]
    exact (List.pairwise_append.1 hsorted).2.1
  · rw [hqueue, hcursor]
    exact fun q hm => h.staged q (hmem q hm)
  · rw [hcounted, hcursor]
    intro x hx
    rcases List.mem_append.1 hx with hx | hx
    · exact h.past x hx
    · obtain ⟨q, hqm, rfl⟩ := List.mem_map.1 (hrows x (hseqs x hx))
      exact h.staged q hqm
  · rw [hcounted]
    refine List.nodup_append.2 ⟨h.once, hnodup, ?_⟩
    rintro x hx _ hx' rfl
    exact h.apart x hx (hrows x (hseqs x hx'))
  · rw [hcounted, hqueue]
    intro x hx hx'
    rcases List.mem_append.1 hx with hx | hx
    · exact h.apart x hx (hrest x hx')
    · exact hdisjoint x (hseqs x hx) hx'
  · rw [hqueue, hcounted, hcursor]
    intro r hr hread hkind hle
    rcases h.kept r hr hread hkind hle with hin | hin | hin
    · rw [hq, seqsOf, List.map_append] at hin
      rcases List.mem_append.1 hin with hin | hin
      · rcases hout _ hin with hd | hs
        · exact .inr (.inl (hdelivered _ hd))
        · exact .inr (.inr (List.mem_append_right _ hs))
      · exact .inl hin
    · exact .inr (.inl (hdelivered _ hin))
    · exact .inr (.inr (List.mem_append_left _ hin))
  · rw [hrequests, hcursor]
    exact h.sent
  · rw [hqueue, hrequests]
    exact fun q hm => h.turn q (hmem q hm)
  · rw [hrequests]
    exact h.inOrder

end Counted

/-! ## Staging -/

section Staging

variable {lane : ForwardLane} {ever : List TraceOutboxRow} {t : LaneTables}

/-- The rows a stage queues. -/
def wired (lane : ForwardLane) (mounts : MountsView) (rows : List TraceOutboxRow) : List WireRow :=
  rows.filterMap fun r => (lane.map r mounts).map (WireRow.mk r.seq)

theorem wired_mem {mounts : MountsView} {rows : List TraceOutboxRow} {q : WireRow} (h : q ∈ wired lane mounts rows) :
    ∃ r ∈ rows, q.seq = r.seq ∧ (lane.map r mounts).isSome = true := by
  obtain ⟨r, hr, hq⟩ := List.mem_filterMap.1 h
  obtain ⟨row, hrow, rfl⟩ := Option.map_eq_some_iff.1 hq
  exact ⟨r, hr, rfl, by rw [hrow]; rfl⟩

theorem wired_sorted {mounts : MountsView} {rows : List TraceOutboxRow} (h : rows.Pairwise fun r r' => r.seq < r'.seq) :
    (wired lane mounts rows).Pairwise fun r r' => r.seq < r'.seq := by
  refine List.pairwise_filterMap.2 (h.imp ?_)
  intro r r' hlt q hq q' hq'
  obtain ⟨_, _, rfl⟩ := Option.map_eq_some_iff.1 hq
  obtain ⟨_, _, rfl⟩ := Option.map_eq_some_iff.1 hq'
  exact hlt

/-- Rows past every queued one are queued behind them. -/
theorem staged_queue (mounts : MountsView) {rows : List TraceOutboxRow} (h : rows.Pairwise fun r r' => r.seq < r'.seq)
    {queue : List WireRow} (hq : ∀ q ∈ queue, ∀ r ∈ rows, q.seq < r.seq) :
    rows.foldl (fun q r => stageRow lane mounts r q) queue = queue ++ wired lane mounts rows := by
  induction rows generalizing queue with
  | nil => exact (List.append_nil _).symm
  | cons r rows ih =>
    have hrest := (List.pairwise_cons.1 h).2
    have hfirst := (List.pairwise_cons.1 h).1
    have hnew : queue.any (fun q => q.seq == r.seq) = false := by
      rw [List.any_eq_false]
      intro q hm
      have hlt := hq q hm r List.mem_cons_self
      simp only [beq_iff_eq]
      omega
    rw [List.foldl_cons]
    cases hmap : lane.map r mounts with
    | none =>
      rw [show stageRow lane mounts r queue = queue by simp only [stageRow, hmap],
        ih hrest fun q hm r' hr' => hq q hm r' (List.mem_cons_of_mem _ hr')]
      simp only [wired, List.filterMap_cons, hmap, Option.map_none]
    | some row =>
      have hstage : stageRow lane mounts r queue = queue ++ [⟨r.seq, row⟩] := by
        simp only [stageRow, hmap, Table.insertOrIgnore, hnew, Bool.false_eq_true, if_false]
      rw [hstage, ih hrest]
      · simp only [wired, List.filterMap_cons, hmap, Option.map_some, List.append_assoc, List.cons_append, List.nil_append]
      · intro q hm r' hr'
        rcases List.mem_append.1 hm with hm | hm
        · exact hq q hm r' (List.mem_cons_of_mem _ hr')
        · rw [List.mem_singleton.1 hm]
          exact hfirst r' hr'

/-- New rows behind the queue, and others counted at once, as the cursor moves past them. -/
theorem sound_add (h : LaneSound lane ever t) {t' : LaneTables} {new : List WireRow} {gone : List Nat}
    (hqueue : t'.queue = t.queue ++ new) (hcursor : t.cursor ≤ t'.cursor) (hrequests : t'.requests = t.requests)
    (hcounted : counted t' = counted t ++ gone) (hsorted : new.Pairwise fun r r' => r.seq < r'.seq) (hnodup : gone.Nodup)
    (hnew : ∀ q ∈ new, t.cursor < q.seq ∧ q.seq ≤ t'.cursor) (hgone : ∀ x ∈ gone, t.cursor < x ∧ x ≤ t'.cursor)
    (hapart : ∀ x ∈ gone, x ∉ seqsOf new)
    (hkept : ∀ r ∈ ever, r.readable = true → lane.kinds.contains r.kind = true → t.cursor < r.seq →
      r.seq ≤ t'.cursor → r.seq ∈ seqsOf new ∨ r.seq ∈ gone) : LaneSound lane ever t' := by
  have hseqs : seqsOf t'.queue = seqsOf t.queue ++ seqsOf new := by rw [hqueue]; exact List.map_append
  have hold : ∀ x ∈ seqsOf t.queue, x ≤ t.cursor := fun x hx => by
    obtain ⟨q, hq, rfl⟩ := List.mem_map.1 hx
    exact h.staged q hq
  have hlater : ∀ x ∈ seqsOf new, t.cursor < x := fun x hx => by
    obtain ⟨q, hq, rfl⟩ := List.mem_map.1 hx
    exact (hnew q hq).1
  refine ⟨?_, ?_, ?_, ?_, ?_, ?_, ?_, ?_, ?_⟩
  · rw [hqueue]
    refine List.pairwise_append.2 ⟨h.sorted, hsorted, fun q hq q' hq' => ?_⟩
    have hle := h.staged q hq
    have hlt := (hnew q' hq').1
    omega
  · rw [hqueue]
    intro q hq
    rcases List.mem_append.1 hq with hq | hq
    · exact (h.staged q hq).trans hcursor
    · exact (hnew q hq).2
  · rw [hcounted]
    intro x hx
    rcases List.mem_append.1 hx with hx | hx
    · exact (h.past x hx).trans hcursor
    · exact (hgone x hx).2
  · rw [hcounted]
    refine List.nodup_append.2 ⟨h.once, hnodup, ?_⟩
    rintro x hx _ hx' rfl
    have hle := h.past x hx
    have hlt := (hgone x hx').1
    omega
  · rw [hcounted, hseqs]
    intro x hx hx'
    rcases List.mem_append.1 hx with hx | hx <;> rcases List.mem_append.1 hx' with hx' | hx'
    · exact h.apart x hx hx'
    · have hle := h.past x hx
      have hlt := hlater x hx'
      omega
    · have hle := hold x hx'
      have hlt := (hgone x hx).1
      omega
    · exact hapart x hx hx'
  · rw [hcounted, hseqs]
    intro r hr hread hkind hle
    by_cases hin : r.seq ≤ t.cursor
    · rcases h.kept r hr hread hkind hin with hat | ⟨q, hq, hat⟩ | hat
      · exact .inl (List.mem_append_left _ hat)
      · exact .inr (.inl ⟨q, by rw [hrequests]; exact hq, hat⟩)
      · exact .inr (.inr (List.mem_append_left _ hat))
    · rcases hkept r hr hread hkind (by omega) hle with hat | hat
      · exact .inl (List.mem_append_right _ hat)
      · exact .inr (.inr (List.mem_append_right _ hat))
  · rw [hrequests]
    exact fun x hx => (h.sent x hx).trans hcursor
  · rw [hqueue, hrequests]
    intro q hq
    rcases List.mem_append.1 hq with hq | hq
    · exact h.turn q hq
    · refine .inr fun s hs => ?_
      have hle := h.sent s hs
      have hlt := (hnew q hq).1
      omega
  · rw [hrequests]
    exact h.inOrder

/-- The first rows of a queue, taken out by their numbers. -/
theorem delete_front {queue rows rest : List WireRow} (h : queue.Pairwise fun r r' => r.seq < r'.seq)
    (hq : queue = rows ++ rest) : Table.delete (fun r => (seqsOf rows).contains r.seq) queue = rest := by
  subst hq
  unfold Table.delete
  rw [List.filter_append, List.filter_eq_nil_iff.2, List.filter_eq_self.2, List.nil_append]
  · intro r hr
    simp only [Bool.not_eq_true', List.contains_eq_mem, decide_eq_false_iff_not]
    intro hin
    obtain ⟨r', hr', heq⟩ := List.mem_map.1 hin
    have hlt := (List.pairwise_append.1 h).2.2 r' hr' r hr
    omega
  · intro r hr
    have hin : r.seq ∈ seqsOf rows := List.mem_map.2 ⟨r, hr, rfl⟩
    simp [hin]

theorem trim_sound (now : Int) (h : LaneSound lane ever t) : LaneSound lane ever (trimQueue now t) := by
  unfold trimQueue
  by_cases hover : FORWARD_QUEUE_MAX < t.queue.length
  · rw [if_pos hover, orderBy_sorted h.sorted]
    generalize t.queue.length - FORWARD_QUEUE_MAX = n
    have hsplit : t.queue = t.queue.take n ++ t.queue.drop n := (List.take_append_drop n t.queue).symm
    exact sound_drop h hsplit (delete_front h.sorted hsplit) rfl rfl (counted_note now .lost none _ none)
      (seqs_nodup (h.sorted.sublist (List.take_sublist _ _))) (fun _ hx => hx) fun _ hx => .inr hx
  · rwa [if_neg hover]

/-- A stage keeps the lane, where the outbox still holds what lies past the lane's cursor. -/
theorem stage_sound {o : TraceOutbox} (h : LaneSound lane ever t) (ho : o.InOrder)
    (hpast : ∀ r ∈ ever, t.cursor < r.seq → r ∈ o.rows) (mounts : MountsView) (now : Int) :
    LaneSound lane ever (stageForward lane mounts now o t) := by
  let p := pendingTrace o t.cursor STAGE_READ_MAX
  let mine := p.rows.filter fun r => lane.kinds.contains r.kind
  have hmem : ∀ r ∈ mine, t.cursor < r.seq ∧ r.seq ≤ p.through := fun r hr =>
    (pending_mem (List.mem_of_mem_filter hr)).2
  have hsorted : mine.Pairwise fun r r' => r.seq < r'.seq := (pending_sorted ho).filter _
  have hcursor : (if t.cursor < p.through then p.through else t.cursor) = p.through := by
    have hle : t.cursor ≤ p.through := (through_le _ t.cursor).1
    split <;> omega
  have hunsent : (unsendable lane mounts mine).Nodup :=
    (List.pairwise_map.2 (hsorted.filter _)).imp Nat.ne_of_lt
  have hstaged : ∀ t' : LaneTables, t'.queue = mine.foldl (fun q r => stageRow lane mounts r q) t.queue →
      t'.cursor = (if t.cursor < p.through then p.through else t.cursor) → t'.requests = t.requests →
      counted t' = counted t ++ unsendable lane mounts mine → LaneSound lane ever t' := by
    intro t' hqueue hcur hrequests hcounted
    rw [hcursor] at hcur
    rw [staged_queue mounts hsorted fun q hq r hr => (h.staged q hq).trans_lt (hmem r hr).1] at hqueue
    refine sound_add h hqueue (by rw [hcur]; exact (through_le _ t.cursor).1) hrequests hcounted (wired_sorted hsorted)
      hunsent (fun q hq => ?_) (fun x hx => ?_) (fun x hx hx' => ?_) fun r hr hread hkind hlt hle => ?_
    · obtain ⟨r, hr, heq, -⟩ := wired_mem hq
      rw [heq, hcur]
      exact hmem r hr
    · obtain ⟨r, hr, rfl⟩ := List.mem_map.1 hx
      rw [hcur]
      exact hmem r (List.mem_of_mem_filter hr)
    · obtain ⟨r, hr, rfl⟩ := List.mem_map.1 hx
      obtain ⟨q, hq, heq⟩ := List.mem_map.1 hx'
      obtain ⟨r', hr', heq', hsome⟩ := wired_mem hq
      obtain ⟨hr, hnone⟩ := List.mem_filter.1 hr
      have hsame : r' = r := List.inj_on_of_nodup_map ((List.pairwise_map.2 hsorted).imp Nat.ne_of_lt) hr' hr
        (heq'.symm.trans heq)
      subst hsame
      rw [Option.isNone_iff_eq_none.1 hnone] at hsome
      exact Bool.false_ne_true hsome
    · rw [hcur] at hle
      have hin : r ∈ mine := List.mem_filter.2 ⟨pending_all ho (hpast r hr hlt) hlt hle hread, hkind⟩
      cases hmap : lane.map r mounts with
      | none => exact .inr (List.mem_map.2 ⟨r, List.mem_filter.2 ⟨hin, by rw [hmap]; rfl⟩, rfl⟩)
      | some row =>
        refine .inl (List.mem_map.2 ⟨⟨r.seq, row⟩, List.mem_filterMap.2 ⟨r, hin, ?_⟩, rfl⟩)
        rw [hmap]
        rfl
  have hstage : stageForward lane mounts now o t =
      trimQueue now (if unsendable lane mounts mine = [] then _ else _) := rfl
  rw [hstage]
  refine trim_sound now ?_
  by_cases hnone : unsendable lane mounts mine = []
  · rw [if_pos hnone]
    exact hstaged _ rfl rfl rfl (by rw [hnone, List.append_nil]; rfl)
  · rw [if_neg hnone]
    exact hstaged _ rfl rfl rfl (counted_note now .unsendable none _ none)

end Staging

/-! ## One request -/

section Sending

variable {lane : ForwardLane} {ever : List TraceOutboxRow} {t : LaneTables}

/-- The rows at the front of the queue are sent. -/
theorem sound_request (h : LaneSound lane ever t) {rows rest : List WireRow} (hq : t.queue = rows ++ rest)
    (status : Option Nat) : LaneSound lane ever { t with requests := t.requests ++ [⟨rows, status⟩] } := by
  have hsorted := h.sorted
  rw [hq] at hsorted
  have hrows : ∀ r ∈ rows, r ∈ t.queue := fun r hr => by rw [hq]; exact List.mem_append_left _ hr
  have hsent : sentSeqs (t.requests ++ [⟨rows, status⟩]) = sentSeqs t.requests ++ seqsOf rows := by simp [sentSeqs]
  refine { h with kept := ?_, sent := ?_, turn := ?_, inOrder := ?_ }
  · intro r hr hread hkind hle
    rcases h.kept r hr hread hkind hle with hin | ⟨q, hqm, hin⟩ | hin
    · exact .inl hin
    · exact .inr (.inl ⟨q, List.mem_append_left _ hqm, hin⟩)
    · exact .inr (.inr hin)
  · intro x hx
    rw [hsent] at hx
    rcases List.mem_append.1 hx with hx | hx
    · exact h.sent x hx
    · obtain ⟨r, hr, rfl⟩ := List.mem_map.1 hx
      exact h.staged r (hrows r hr)
  · intro q hqm
    rcases h.turn q hqm with hin | hall
    · exact .inl (by rw [hsent]; exact List.mem_append_left _ hin)
    · have hside : q ∈ rows ++ rest := by rw [← hq]; exact hqm
      rcases List.mem_append.1 hside with hr | hr
      · exact .inl (by rw [hsent]; exact List.mem_append_right _ (List.mem_map.2 ⟨q, hr, rfl⟩))
      · refine .inr fun s hs => ?_
        rw [hsent] at hs
        rcases List.mem_append.1 hs with hs | hs
        · exact hall s hs
        · obtain ⟨r, hrm, rfl⟩ := List.mem_map.1 hs
          exact (List.pairwise_append.1 hsorted).2.2 r hrm q hr
  · intro x hx
    rw [History.splits_concat] at hx
    rcases List.mem_append.1 hx with hx | hx
    · obtain ⟨y, hy, rfl⟩ := List.mem_map.1 hx
      exact h.inOrder y hy
    · rw [List.mem_singleton.1 hx]
      exact ⟨(List.pairwise_append.1 hsorted).1, fun r hr => h.turn r (hrows r hr)⟩

theorem forget_queue (rows : List WireRow) (t : LaneTables) :
    (forget rows t).queue = Table.delete (fun r => (seqsOf rows).contains r.seq) t.queue := by
  have hfold : ∀ queue : List WireRow, rows.foldl (fun q r => Table.delete (fun x => x.seq == r.seq) q) queue =
      Table.delete (fun r => (seqsOf rows).contains r.seq) queue := by
    induction rows with
    | nil => exact fun queue => (List.filter_eq_self.2 fun _ _ => rfl).symm
    | cons r rows ih =>
      intro queue
      rw [List.foldl_cons, ih]
      unfold Table.delete
      rw [List.filter_filter]
      refine List.filter_congr fun x _ => ?_
      simp only [seqsOf, List.map_cons, List.contains_cons, Bool.not_or, Bool.and_comm]
  exact hfold t.queue

/-- The rejections of an answer count each row of the batch at most once. -/
theorem rejectedRows_once (size : Nat) (list : List Rejection) :
    ((rejectedRows size list).map (·.1)).Nodup ∧ ∀ i ∈ (rejectedRows size list).map (·.1), i < size := by
  unfold rejectedRows
  refine List.foldlRecOn (motive := fun out : List (Nat × Str) => (out.map (·.1)).Nodup ∧ ∀ i ∈ out.map (·.1), i < size)
    list _ (b := []) ⟨.nil, fun _ hi => absurd hi List.not_mem_nil⟩ fun out hout r _ => ?_
  obtain ⟨hn, hlt⟩ := hout
  split
  · exact ⟨hn, hlt⟩
  · rename_i index hindex
    by_cases hskip : index < 0 ∨ (size : Int) ≤ index ∨ out.any (fun x => (x.1 : Int) == index) = true
    · rw [if_pos hskip]
      exact ⟨hn, hlt⟩
    · rw [if_neg hskip]
      obtain ⟨hpos, hinside, hnew⟩ : ¬ index < 0 ∧ ¬ (size : Int) ≤ index ∧
          ¬ out.any (fun x => (x.1 : Int) == index) = true := by tauto
      refine ⟨?_, ?_⟩
      · rw [List.map_append]
        refine List.nodup_append.2 ⟨hn, List.nodup_singleton _, ?_⟩
        rintro i hi _ hj rfl
        obtain ⟨x, hx, rfl⟩ := List.mem_map.1 hi
        have hat : x.1 = index.toNat := List.mem_singleton.1 hj
        exact hnew (List.any_eq_true.2 ⟨x, hx, by simp only [beq_iff_eq]; omega⟩)
      · intro i hi
        rw [List.map_append] at hi
        rcases List.mem_append.1 hi with hi | hi
        · exact hlt i hi
        · have hat : i = index.toNat := List.mem_singleton.1 hi
          omega

theorem push_count {m : Map (List Nat)} (h : Table.Unique (·.1) m) (key : Str) (i x : Nat) :
    (((m.set key ((m.get key).getD [] ++ [i])).map fun e => e.2.count x)).sum =
      (m.map fun e => e.2.count x).sum + [i].count x := by
  have hsum : ((m.set key ((m.get key).getD [] ++ [i])).map fun e => e.2.count x).sum +
      ((Table.one (·.1 == key) m).map fun e => e.2.count x).getD 0 =
        (m.map fun e => e.2.count x).sum + ((m.get key).getD [] ++ [i]).count x :=
    Table.sum_upsert h (fun r r' hr hr' => (beq_iff_eq.1 hr).trans (beq_iff_eq.1 hr').symm) fun _ _ => rfl
  have hold : ((Table.one (·.1 == key) m).map fun e => e.2.count x).getD 0 = ((m.get key).getD []).count x := by
    unfold Map.get
    cases Table.one (·.1 == key) m <;> rfl
  rw [hold, List.count_append] at hsum
  omega

theorem unique_set {V : Type} {m : Map V} (h : Table.Unique (·.1) m) (key : Str) (value : V) :
    Table.Unique (·.1) (m.set key value) :=
  Table.unique_upsert h (fun _ hr => beq_iff_eq.2 hr) fun _ => rfl

theorem rejections_perm (size : Nat) (list : List Rejection) :
    ((rejectionsOf size list).flatMap (·.2)).Perm ((rejectedRows size list).map (·.1)) := by
  have hfold : ∀ (rows : List (Nat × Str)) (m : Map (List Nat)) (x : Nat), Table.Unique (·.1) m →
      ((rows.foldl (fun out x => out.set x.2 ((out.get x.2).getD [] ++ [x.1])) m).map fun e => e.2.count x).sum =
        (m.map fun e => e.2.count x).sum + (rows.map (·.1)).count x := by
    intro rows
    induction rows with
    | nil => exact fun m x _ => (Nat.add_zero _).symm
    | cons r rows ih =>
      intro m x hm
      have hcons : (r.1 :: rows.map (·.1)).count x = [r.1].count x + (rows.map (·.1)).count x := by
        rw [← List.count_append]
        rfl
      rw [List.foldl_cons, ih _ x (unique_set hm _ _), push_count hm, List.map_cons, hcons, Nat.add_assoc]
  refine List.perm_iff_count.2 fun x => ?_
  rw [List.count_flatMap]
  exact (hfold (rejectedRows size list) [] x Table.unique_nil).trans (Nat.zero_add _)

theorem rejections_once (size : Nat) (list : List Rejection) :
    ((rejectionsOf size list).flatMap (·.2)).Nodup ∧ ∀ i ∈ (rejectionsOf size list).flatMap (·.2), i < size := by
  have hperm := rejections_perm size list
  obtain ⟨hnodup, hlt⟩ := rejectedRows_once size list
  exact ⟨hperm.nodup_iff.2 hnodup, fun i hi => hlt i (hperm.mem_iff.1 hi)⟩

/-- What a send owes of the tables it began with, wherever it stands. -/
structure Accounted (lane : ForwardLane) (ever : List TraceOutboxRow) (began : LaneTables) (s : Sending) : Prop where
  sound : LaneSound lane ever s.tables
  whole : s.sent + s.dropped + s.tables.queue.length = began.queue.length
  cursor : s.tables.cursor = began.cursor
  asked : ∃ new, s.tables.requests = began.requests ++ new ∧ new.length = s.made

/-- A send under way, with the batch `held` out of its queue's front. -/
structure Going (lane : ForwardLane) (ever : List TraceOutboxRow) (began : LaneTables) (held : List WireRow)
    (s : Sending) : Prop extends Accounted lane ever began s where
  front : ∃ rest, s.tables.queue = held ++ (s.todo.flatten ++ rest)
  parts : ∀ rows ∈ s.todo, rows ≠ []

theorem fitting_prefix (bytes : Nat) (started : Bool) (rows : List WireRow) :
    ∃ rest, rows = fitting bytes started rows ++ rest := by
  induction rows generalizing bytes started with
  | nil => exact ⟨[], rfl⟩
  | cons r rows ih =>
    let size := byteLength r.row + if started = true then 1 else 0
    by_cases hfull : started = true ∧ FORWARD_BATCH_BYTES < bytes + size
    · exact ⟨r :: rows, by rw [fitting, if_pos hfull]; rfl⟩
    · obtain ⟨rest, hrest⟩ := ih (bytes + size) true
      refine ⟨rest, ?_⟩
      rw [fitting, if_neg hfull, List.cons_append, ← hrest]

/-- The next batch is the front of the queue, and empty only where the queue is. -/
theorem nextBatch_front {queue : List WireRow} (h : queue.Pairwise fun r r' => r.seq < r'.seq) :
    (∃ rest, queue = nextBatch queue ++ rest) ∧ (nextBatch queue = [] → queue = []) := by
  unfold nextBatch
  rw [orderBy_sorted h]
  refine ⟨?_, fun hnil => ?_⟩
  · obtain ⟨rest, hrest⟩ := fitting_prefix 11 false (queue.take FORWARD_BATCH_MAX)
    refine ⟨rest ++ queue.drop FORWARD_BATCH_MAX, ?_⟩
    rw [← List.append_assoc, ← hrest, List.take_append_drop]
  · cases queue with
    | nil => rfl
    | cons r rows => simp [fitting, FORWARD_BATCH_MAX] at hnil

variable {began : LaneTables} {s : Sending} {rows : List WireRow} {more : List (List WireRow)}

theorem ready_tables (s : Sending) : (ready s).tables = s.tables ∧ (ready s).made = s.made := by
  unfold ready
  split
  · exact ⟨rfl, rfl⟩
  · split <;> exact ⟨rfl, rfl⟩

theorem ready_going (h : Going lane ever began [] s) : Going lane ever began [] (ready s) := by
  unfold ready
  split
  · exact h
  · split
    · exact h
    · rename_i batch hne
      obtain ⟨rest, hrest⟩ := (nextBatch_front h.sound.sorted).1
      refine { h with front := ⟨rest, ?_⟩, parts := ?_ }
      · simpa using hrest
      · intro rows hrows
        rw [List.mem_singleton.1 hrows]
        exact hne

/-- Nothing is left to be posted only where nothing is queued. -/
theorem ready_done (h : Going lane ever began [] s) (hdone : (ready s).todo = []) : s.tables.queue = [] := by
  unfold ready at hdone
  split at hdone
  · rename_i heq
    rw [heq] at hdone
    cases hdone
  · split at hdone
    · rename_i hnil
      exact (nextBatch_front h.sound.sorted).2 hnil
    · cases hdone

/-- The batch goes out. -/
theorem requested_going (h : Going lane ever began [] s) (htodo : s.todo = rows :: more) (reply : Option Reply) :
    Going lane ever began rows (requested rows reply { s with todo := more }) := by
  obtain ⟨rest, hrest⟩ := h.front
  rw [htodo, List.flatten_cons, List.nil_append, List.append_assoc] at hrest
  obtain ⟨new, hnew, hmade⟩ := h.asked
  refine ⟨⟨sound_request h.sound hrest _, h.whole, h.cursor, new ++ [⟨rows, reply.bind Reply.statusOf⟩], ?_, ?_⟩, ⟨rest, hrest⟩, ?_⟩
  · exact (congrArg (· ++ [_]) hnew).trans (List.append_assoc ..)
  · rw [List.length_append, hmade]
    rfl
  · exact fun q hq => h.parts q (by rw [htodo]; exact List.mem_cons_of_mem _ hq)

theorem counted_noteRejected (now : Int) (status : Nat) (rows : List WireRow) (rejections : Map (List Nat)) (t : LaneTables) :
    counted (noteRejected now status rows rejections t) =
        counted t ++ (rejections.flatMap (·.2)).filterMap (fun i => (seqsOf rows)[i]?) ∧
      (noteRejected now status rows rejections t).queue = t.queue ∧
      (noteRejected now status rows rejections t).cursor = t.cursor ∧
      (noteRejected now status rows rejections t).requests = t.requests := by
  induction rejections generalizing t with
  | nil => exact ⟨(List.append_nil _).symm, rfl, rfl, rfl⟩
  | cons x rejections ih =>
    obtain ⟨hcounted, hqueue, hcursor, hrequests⟩ :=
      ih (note now .rejected (some status) (x.2.filterMap fun i => (rows[i]?).map (·.seq)) (some x.1) t)
    refine ⟨hcounted.trans ?_, hqueue, hcursor, hrequests⟩
    rw [counted_note, List.flatMap_cons, List.filterMap_append, List.append_assoc]
    simp only [ForwardReason.drops, if_true, seqsOf, List.getElem?_map]

/-- The numbers at distinct places of a batch are distinct. -/
theorem places_nodup {rows : List WireRow} (h : (seqsOf rows).Nodup) {places : List Nat} (hp : places.Nodup)
    (hin : ∀ i ∈ places, i < rows.length) : (places.filterMap fun i => (seqsOf rows)[i]?).Nodup := by
  have hlength : (seqsOf rows).length = rows.length := List.length_map _
  induction places with
  | nil => exact .nil
  | cons i places ih =>
    obtain ⟨hi, hrest⟩ := List.nodup_cons.1 hp
    have hlt : i < (seqsOf rows).length := hlength ▸ hin i List.mem_cons_self
    rw [List.filterMap_cons, List.getElem?_eq_getElem hlt]
    refine List.nodup_cons.2 ⟨fun hmem => ?_, ih hrest fun j hj => hin j (List.mem_cons_of_mem _ hj)⟩
    obtain ⟨j, hj, heq⟩ := List.mem_filterMap.1 hmem
    have hij : i = j := (List.getElem?_inj hlt h).1 (by rw [heq, List.getElem?_eq_getElem hlt])
    exact hi (hij ▸ hj)

/-- An answer that took the batch, or dropped it. -/
theorem sound_taken (h : LaneSound lane ever t) {rows rest : List WireRow} (hq : t.queue = rows ++ rest) {t' : LaneTables}
    (hqueue : t'.queue = (forget rows t).queue) (hcursor : t'.cursor = t.cursor) (hrequests : t'.requests = t.requests)
    {seqs : List Nat} (hcounted : counted t' = counted t ++ seqs) (hnodup : seqs.Nodup)
    (hseqs : ∀ x ∈ seqs, x ∈ seqsOf rows) (hout : ∀ x ∈ seqsOf rows, Delivered t x ∨ x ∈ seqs) :
    t'.queue = rest ∧ LaneSound lane ever t' := by
  have hrest : t'.queue = rest := by rw [hqueue, forget_queue, delete_front h.sorted hq]
  exact ⟨hrest, sound_drop h hq hrest hcursor hrequests hcounted hnodup hseqs hout⟩

/-- What a request did: it took rows off the queue, or split its batch in two. -/
def Progress (rows : List WireRow) (more : List (List WireRow)) (before after : Sending) : Prop :=
  after.tables.queue.length < before.tables.queue.length ∨
    ∃ first second, first ≠ [] ∧ second ≠ [] ∧ rows = first ++ second ∧ after.todo = first :: second :: more

/-- A send goes on past an answer only with progress made, and stops otherwise; either way nothing is unaccounted. -/
structure Answered (lane : ForwardLane) (ever : List TraceOutboxRow) (began : LaneTables) (rows : List WireRow)
    (s : Sending) (step : SendStep) (s' : Sending) : Prop extends Accounted lane ever began s' where
  made : s'.made = s.made
  goes : step = .ok → Going lane ever began [] s' ∧ Progress rows s.todo s s'

theorem answered_taken (h : Going lane ever began rows s) (hne : rows ≠ []) {s' : Sending}
    (hqueue : s'.tables.queue = (forget rows s.tables).queue) (hcursor : s'.tables.cursor = s.tables.cursor)
    (hrequests : s'.tables.requests = s.tables.requests) (hmade : s'.made = s.made) (htodo : s'.todo = s.todo)
    (hsum : s'.sent + s'.dropped = s.sent + s.dropped + rows.length) {seqs : List Nat}
    (hcounted : counted s'.tables = counted s.tables ++ seqs) (hnodup : seqs.Nodup) (hseqs : ∀ x ∈ seqs, x ∈ seqsOf rows)
    (hout : ∀ x ∈ seqsOf rows, Delivered s.tables x ∨ x ∈ seqs) : Answered lane ever began rows s .ok s' := by
  obtain ⟨rest, hrest⟩ := h.front
  obtain ⟨hleft, hsound⟩ := sound_taken h.sound hrest hqueue hcursor hrequests hcounted hnodup hseqs hout
  have hlength : s.tables.queue.length = rows.length + s'.tables.queue.length := by
    rw [hrest, hleft, List.length_append]
  have hpos : 0 < rows.length := List.length_pos_iff.2 hne
  have hwhole := h.whole
  have haccounted : Accounted lane ever began s' := by
    refine ⟨hsound, by omega, hcursor.trans h.cursor, ?_⟩
    rw [hrequests, hmade]
    exact h.asked
  refine ⟨haccounted, hmade, fun _ => ⟨⟨haccounted, ⟨rest, ?_⟩, ?_⟩, .inl (by omega)⟩⟩
  · rw [htodo, List.nil_append]
    exact hleft
  · rw [htodo]
    exact h.parts

/-- An answer that keeps the batch ends the send. -/
theorem answered_kept (h : Going lane ever began rows s) (now : Int) {reason : ForwardReason} (hkept : reason.drops = false)
    (status : Option Nat) (error : Str) :
    Answered lane ever began rows s .failed
      { s with error := some error, tables := note now reason status (seqsOf rows) none s.tables } := by
  have hcounted : counted (note now reason status (seqsOf rows) none s.tables) = counted s.tables := by
    rw [counted_note, hkept]
    exact List.append_nil _
  have hs := h.sound
  refine ⟨⟨⟨hs.sorted, hs.staged, ?_, ?_, ?_, ?_, hs.sent, hs.turn, hs.inOrder⟩, h.whole, h.cursor, h.asked⟩, rfl, nofun⟩ <;>
    simp only [hcounted]
  · exact hs.past
  · exact hs.once
  · exact hs.apart
  · exact hs.kept

/-- A batch given up and counted. -/
theorem answered_dropped (h : Going lane ever began rows s) (hne : rows ≠ []) (now : Int) {reason : ForwardReason}
    (hdrops : reason.drops = true) (status : Option Nat) :
    Answered lane ever began rows s .ok
      { s with
        tables := note now reason status (rows.map (·.seq)) none (forget rows s.tables)
        dropped := s.dropped + rows.length } := by
  obtain ⟨rest, hrest⟩ := h.front
  have hsorted := h.sound.sorted
  rw [hrest] at hsorted
  refine answered_taken h hne rfl rfl rfl rfl rfl (by dsimp only; omega) ?_
    (seqs_nodup (List.pairwise_append.1 hsorted).1) (fun _ hx => hx) fun _ hx => .inr hx
  rw [counted_note, hdrops]
  rfl

/-- Every answer to a batch leaves nothing unaccounted. -/
theorem answered_going (h : Going lane ever began rows s) (hne : rows ≠ []) (now : Int) (reply : Reply)
    (hsent : ∀ status rejected, reply = .answer status rejected → answerOf status = .accepted →
      ∀ x ∈ seqsOf rows, Delivered s.tables x) :
    Answered lane ever began rows s (answered lane now rows reply s).1 (answered lane now rows reply s).2 := by
  cases reply with
  | noAnswer name => exact answered_kept h now rfl none _
  | answer status rejected =>
    unfold answered
    dsimp only
    cases hanswer : answerOf status with
    | accepted =>
      dsimp only
      obtain ⟨rest, hrest⟩ := h.front
      have hsorted := h.sound.sorted
      rw [hrest] at hsorted
      have hnodup : (seqsOf rows).Nodup := seqs_nodup (List.pairwise_append.1 hsorted).1
      have hplaces : ((if lane.rowRejections = true then rejectionsOf rows.length rejected else []).flatMap (·.2)).Nodup ∧
          ∀ i ∈ (if lane.rowRejections = true then rejectionsOf rows.length rejected else []).flatMap (·.2),
            i < rows.length := by
        cases lane.rowRejections with
        | true => exact rejections_once rows.length rejected
        | false => exact ⟨.nil, fun _ hi => nomatch hi⟩
      generalize (if lane.rowRejections = true then rejectionsOf rows.length rejected else []) = rejections at *
      obtain ⟨honce, hin⟩ := hplaces
      obtain ⟨hcounted, hqueue, hcursor, hrequests⟩ := counted_noteRejected now status rows rejections (forget rows s.tables)
      have hfew : refusedCount rejections ≤ rows.length := by
        have hsub := (List.subperm_of_subset honce (fun i hi => List.mem_range.2 (hin i hi))).length_le
        rw [List.length_range, List.length_flatMap] at hsub
        exact hsub
      refine answered_taken h hne hqueue hcursor hrequests rfl rfl (by dsimp only; omega) hcounted
        (places_nodup hnodup honce hin) (fun x hx => ?_) fun x hx => .inl (hsent status rejected rfl hanswer x hx)
      obtain ⟨i, -, hi⟩ := List.mem_filterMap.1 hx
      exact List.mem_of_getElem? hi
    | split =>
      dsimp only
      by_cases hmany : 1 < rows.length
      · rw [if_pos hmany]
        have hsplit := List.take_append_drop ((rows.length + 1) / 2) rows
        have hfirst : rows.take ((rows.length + 1) / 2) ≠ [] := by
          rw [← List.length_pos_iff, List.length_take]
          omega
        have hsecond : rows.drop ((rows.length + 1) / 2) ≠ [] := by
          rw [← List.length_pos_iff, List.length_drop]
          omega
        obtain ⟨rest, hrest⟩ := h.front
        refine ⟨⟨h.sound, h.whole, h.cursor, h.asked⟩, rfl, fun _ => ⟨⟨⟨h.sound, h.whole, h.cursor, h.asked⟩, ⟨rest, ?_⟩, ?_⟩,
          .inr ⟨_, _, hfirst, hsecond, hsplit.symm, rfl⟩⟩⟩
        · dsimp only
          rw [hrest, List.flatten_cons, List.flatten_cons, List.nil_append, ← List.append_assoc (List.take _ _), hsplit,
            List.append_assoc]
        · intro part hpart
          rcases List.mem_cons.1 hpart with rfl | hpart
          · exact hfirst
          · rcases List.mem_cons.1 hpart with rfl | hpart
            · exact hsecond
            · exact h.parts part hpart
      · rw [if_neg hmany]
        exact answered_dropped h hne now rfl _
    | because reason =>
      dsimp only
      by_cases hkept : reason = .auth_or_off ∨ reason = .unavailable
      · rw [if_pos hkept]
        exact answered_kept h now (by rcases hkept with rfl | rfl <;> rfl) _ _
      · rw [if_neg hkept]
        exact answered_dropped h hne now (by cases reason <;> simp_all [ForwardReason.drops]) _

/-- One request leaves nothing unaccounted, and is within the budget. -/
theorem post_going (h : Going lane ever began [] s) (htodo : s.todo = rows :: more) {budget : Nat} (hmade : s.made ≤ budget)
    (now : Int) (a : Attempt) :
    Accounted lane ever began (post lane now budget a rows more s).2 ∧
      (post lane now budget a rows more s).2.made ≤ budget ∧
      ((post lane now budget a rows more s).1 = some .ok →
        Going lane ever began [] (post lane now budget a rows more s).2 ∧
          Progress rows more s (post lane now budget a rows more s).2) := by
  have hne : rows ≠ [] := h.parts rows (by rw [htodo]; exact List.mem_cons_self)
  have hgoing := requested_going h htodo a.reply
  unfold post
  by_cases hspent : budget ≤ s.made ∨ a.left < FORWARD_REQUEST_MIN_MS
  · rw [if_pos hspent]
    exact ⟨h.toAccounted, hmade, nofun⟩
  · rw [if_neg hspent]
    have hwithin : (requested rows a.reply { s with todo := more }).made ≤ budget := by
      have heq : (requested rows a.reply { s with todo := more }).made = s.made + 1 := rfl
      omega
    cases hreply : a.reply with
    | none =>
      rw [hreply] at hgoing hwithin
      exact ⟨hgoing.toAccounted, hwithin, nofun⟩
    | some reply =>
      rw [hreply] at hgoing hwithin
      dsimp only
      cases a.cut with
      | true => exact ⟨hgoing.toAccounted, hwithin, nofun⟩
      | false =>
        have hanswered := answered_going hgoing hne now reply fun status rejected heq haccepted x hx => by
          subst heq
          refine ⟨_, List.mem_append_right _ (List.mem_singleton.2 rfl), ?_, hx⟩
          simp [Request.accepted, Reply.statusOf, haccepted]
        refine ⟨hanswered.toAccounted, hanswered.made ▸ hwithin, fun hok => ?_⟩
        exact hanswered.goes (Option.some.inj hok)

/-- Where a send has come, from where it began, by requests it went on past. -/
inductive Under (lane : ForwardLane) (now : Int) (budget : Nat) : Sending → Sending → Prop
  | start (s : Sending) : Under lane now budget s s
  | next {s s' s'' : Sending} {a : Attempt} {rows : List WireRow} {more : List (List WireRow)}
      (h : Under lane now budget s s') (htodo : (ready s').todo = rows :: more)
      (hpost : post lane now budget a rows more (ready s') = (some .ok, s'')) : Under lane now budget s s''

theorem under_going {now : Int} {budget : Nat} {s' : Sending} (h : Under lane now budget s s')
    (hs : Going lane ever began [] s) (hmade : s.made ≤ budget) : Going lane ever began [] s' ∧ s'.made ≤ budget := by
  induction h with
  | start => exact ⟨hs, hmade⟩
  | next h htodo hpost ih =>
    obtain ⟨hgoing, hwithin⟩ := ih
    have hposted := post_going (ready_going hgoing) htodo ((ready_tables _).2 ▸ hwithin) now
    rename_i a _ _
    obtain ⟨-, hless, hok⟩ := hposted a
    rw [hpost] at hless hok
    exact ⟨(hok rfl).1, hless⟩

/-- A send leaves nothing unaccounted wherever it ends or is cut off. -/
theorem loop_sound (now : Int) (budget : Nat) (attempts : List Attempt) {s : Sending} (h : Going lane ever began [] s)
    (hmade : s.made ≤ budget) :
    Accounted lane ever began (sendLoop lane now budget attempts s).2 ∧
      (sendLoop lane now budget attempts s).2.made ≤ budget := by
  induction attempts generalizing s with
  | nil =>
    rw [sendLoop]
    split
    · exact ⟨h.toAccounted, hmade⟩
    · exact ⟨(ready_going h).toAccounted, (ready_tables s).2 ▸ hmade⟩
  | cons a attempts ih =>
    rw [sendLoop]
    split
    · exact ⟨h.toAccounted, hmade⟩
    · rename_i rows more htodo
      dsimp only
      obtain ⟨haccounted, hless, hok⟩ := post_going (ready_going h) htodo ((ready_tables s).2 ▸ hmade) now a
      split
      · rename_i s' hpost
        rw [hpost] at hless hok
        exact ih (hok rfl).1 hless
      · exact ⟨haccounted, hless⟩

theorem begin_going (h : LaneSound lane ever t) : Going lane ever t [] ⟨t, [], 0, 0, 0, none⟩ :=
  ⟨⟨h, by simp, rfl, [], (List.append_nil _).symm, rfl⟩, ⟨t.queue, rfl⟩, fun _ hm => nomatch hm⟩

theorem settle_sound (h : LaneSound lane ever t) (now : Int) (step : SendStep) : LaneSound lane ever (settle now step t) := by
  unfold settle
  dsimp only
  split
  · exact ⟨h.sorted, h.staged, h.past, h.once, h.apart, h.kept, h.sent, h.turn, h.inOrder⟩
  · split
    · exact h
    · exact ⟨h.sorted, h.staged, h.past, h.once, h.apart, h.kept, h.sent, h.turn, h.inOrder⟩

theorem settle_same (now : Int) (step : SendStep) (t : LaneTables) :
    (settle now step t).queue = t.queue ∧ (settle now step t).cursor = t.cursor ∧
      (settle now step t).requests = t.requests := by
  unfold settle
  dsimp only
  split
  · exact ⟨rfl, rfl, rfl⟩
  · split <;> exact ⟨rfl, rfl, rfl⟩

/-- What a send did to the tables it began with, and what it said of it if it was not cut off. -/
structure SentFrom (lane : ForwardLane) (ever : List TraceOutboxRow) (budget : Nat) (t : LaneTables)
    (r : Option ForwardResult × LaneTables) : Prop where
  sound : LaneSound lane ever r.2
  cursor : r.2.cursor = t.cursor
  whole : ∀ result ∈ r.1, result.sent + result.dropped + result.kept = t.queue.length ∧ result.kept = r.2.queue.length
  asked : ∃ new, r.2.requests = t.requests ++ new ∧ new.length ≤ budget

theorem send_sound (h : LaneSound lane ever t) (now : Int) (budget : Nat) (attempts : List Attempt) :
    SentFrom lane ever budget t (sendForward lane now budget attempts t) := by
  unfold sendForward
  split
  · refine ⟨h, rfl, ?_, [], (List.append_nil _).symm, Nat.zero_le _⟩
    rintro _ ⟨⟩
    exact ⟨by simp, rfl⟩
  · obtain ⟨haccounted, hless⟩ := loop_sound now budget attempts (begin_going h) (Nat.zero_le budget)
    obtain ⟨new, hnew, hmade⟩ := haccounted.asked
    split
    · rename_i s hloop
      rw [hloop] at haccounted hless hmade hnew
      exact ⟨haccounted.sound, haccounted.cursor, nofun, new, hnew, hmade ▸ hless⟩
    · rename_i step s hloop
      rw [hloop] at haccounted hless hmade hnew
      obtain ⟨hqueue, hcursor, hrequests⟩ := settle_same now step s.tables
      refine ⟨settle_sound haccounted.sound now step, hcursor.trans haccounted.cursor, ?_, new, hrequests.trans hnew,
        hmade ▸ hless⟩
      rintro _ ⟨⟩
      exact ⟨haccounted.whole, congrArg List.length hqueue.symm⟩

end Sending

end Antiproton.Trace
