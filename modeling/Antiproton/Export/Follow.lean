import Antiproton.Export.Pages
import Antiproton.Export.Transcript

/-!
# Antiproton.Export.Follow

An export read to its end: each page asked for with the cursor of the one before, rows being appended and batches put and
pruned between any two reads.

* `walk_gives`: what a page gives, every page of the walk gives.
* `export_once`: a walk to the end gives every row of the window that was there when it began, once, in order.
-/

namespace Antiproton.Export

open Js Trace History

/-- One page of a walk, and the world its read of the object found. -/
structure Visit where
  found : World
  query : TraceQuery
  rows : List TraceOutboxRow
  next : Option Nat

inductive WalkEnd where
  | whole
  | failed
  | unfinished
deriving DecidableEq

def TraceQuery.past (q : TraceQuery) (afterSeq : Nat) : TraceQuery := { q with afterSeq }

/-- The pages of a window, at most so many, each past the cursor of the one before. -/
def walk (w : Owner) (size : Nat) : Nat → TraceQuery → Run → List Visit × WalkEnd
  | 0, _, _ => ([], .unfinished)
  | fuel + 1, q, s =>
    match readTraceWindow (source w size) w q s with
    | (.fail _ _, _) => ([], .failed)
    | (.ok rows none _ _, _) => ([⟨(advance w s).1, q, rows, none⟩], .whole)
    | (.ok rows (some c) _ _, s') =>
      let rest := walk w size fuel (q.past c) s'
      (⟨(advance w s).1, q, rows, some c⟩ :: rest.1, rest.2)

section Walk

variable {w : Owner} {q : TraceQuery} {fin : World} {size : Nat}

/-- The steps of a walk: it fails, it ends with a page, or it goes on past one. -/
theorem walk_cases (fuel : Nat) (q : TraceQuery) (s : Run) :
    walk w size (fuel + 1) q s = ([], .failed) ∨
      (∃ rows n m s', readTraceWindow (source w size) w q s = (.ok rows none n m, s') ∧
        walk w size (fuel + 1) q s = ([⟨(advance w s).1, q, rows, none⟩], .whole)) ∨
      ∃ rows c n m s', readTraceWindow (source w size) w q s = (.ok rows (some c) n m, s') ∧
        walk w size (fuel + 1) q s =
          (⟨(advance w s).1, q, rows, some c⟩ :: (walk w size fuel (q.past c) s').1, (walk w size fuel (q.past c) s').2) := by
  rw [walk]
  rcases readTraceWindow (source w size) w q s with ⟨⟨rows, next, n, m⟩ | ⟨status, message⟩, s'⟩
  · cases next with
    | none => exact .inr (.inl ⟨rows, n, m, s', rfl, rfl⟩)
    | some c => exact .inr (.inr ⟨rows, c, n, m, s', rfl, rfl⟩)
  · exact .inl rfl

theorem wanted_past (q : TraceQuery) (c : Nat) (r : TraceOutboxRow) : wanted w (q.past c) r = wanted w q r := rfl

/-- What a page gives, every page of the walk gives. -/
theorem walk_gives (hsize : 0 < size) (fuel : Nat) {s : Run} (hs : Going w fin s) :
    ∀ v ∈ (walk w size fuel q s).1, PageGives w v.query fin v.found v.rows v.next ∧
      (∀ r, wanted w v.query r = wanted w q r) ∧ q.afterSeq ≤ v.query.afterSeq := by
  induction fuel generalizing q s with
  | zero => exact fun v hv => absurd hv List.not_mem_nil
  | succ fuel ih =>
    rcases walk_cases fuel q s with h | ⟨rows, n, m, s', hread, h⟩ | ⟨rows, c, n, m, s', hread, h⟩
    · rw [h]
      exact fun v hv => absurd hv List.not_mem_nil
    · rw [h]
      intro v hv
      rw [List.mem_singleton.1 hv]
      exact ⟨(page_gives hsize hs hread).1, fun _ => rfl, Nat.le_refl _⟩
    · rw [h]
      obtain ⟨hpage, hgo, -, -⟩ := page_gives hsize hs hread
      intro v hv
      rcases List.mem_cons.1 hv with rfl | hv
      · exact ⟨hpage, fun _ => rfl, Nat.le_refl _⟩
      · obtain ⟨hgives, hwant, hle⟩ := ih hgo v hv
        exact ⟨hgives, hwant, Nat.le_trans (Nat.le_of_lt (hpage.onward c rfl).1) hle⟩

theorem walk_sorted (hsize : 0 < size) (fuel : Nat) {s : Run} (hs : Going w fin s) :
    ((walk w size fuel q s).1.flatMap (·.rows)).Pairwise fun r r' => r.seq < r'.seq := by
  induction fuel generalizing q s with
  | zero => exact .nil
  | succ fuel ih =>
    rcases walk_cases fuel q s with h | ⟨rows, n, m, s', hread, h⟩ | ⟨rows, c, n, m, s', hread, h⟩
    · rw [h]
      exact .nil
    · rw [h, List.flatMap_singleton]
      exact (page_gives hsize hs hread).1.sorted
    · obtain ⟨hpage, hgo, -, -⟩ := page_gives hsize hs hread
      rw [h, List.flatMap_cons]
      refine List.pairwise_append.2 ⟨hpage.sorted, ih hgo, fun r hr r' hr' => ?_⟩
      obtain ⟨v, hv, hrv⟩ := List.mem_flatMap.1 hr'
      obtain ⟨hgives, -, hle⟩ := walk_gives hsize fuel hgo v hv
      have hupTo := hpage.upTo c rfl r hr
      have hafter := (hgives.real r' hrv).2.2
      have hle : c ≤ v.query.afterSeq := hle
      omega

/-- A walk with more pages to come than there are seqs ahead of it does not run out of them. -/
theorem walk_ends (hsize : 0 < size) {fuel : Nat} {s : Run} (hs : Going w fin s)
    (hfuel : fin.tables.outbox.nextSeq < q.afterSeq + fuel) (hstart : q.afterSeq < fin.tables.outbox.nextSeq) :
    (walk w size fuel q s).2 ≠ .unfinished := by
  induction fuel generalizing q s with
  | zero => omega
  | succ fuel ih =>
    rcases walk_cases fuel q s with h | ⟨rows, n, m, s', hread, h⟩ | ⟨rows, c, n, m, s', hread, h⟩
    · rw [h]
      exact fun heq => nomatch heq
    · rw [h]
      exact fun heq => nomatch heq
    · obtain ⟨hpage, hgo, -, -⟩ := page_gives hsize hs hread
      obtain ⟨hafter, hlt⟩ := hpage.onward c rfl
      rw [h]
      refine ih hgo ?_ hlt
      have hpast : (q.past c).afterSeq = c := rfl
      omega

/-- A walk to the end visits every row past its start that was there when it began. -/
theorem walk_finds (hsize : 0 < size) (fuel : Nat) {s : Run} (hs : Going w fin s)
    (hscan : ∀ v ∈ (walk w size fuel q s).1, ScanWhole w v.query v.found) (hend : (walk w size fuel q s).2 = .whole)
    {r : TraceOutboxRow} (hr : r ∈ (advance w s).1.log) (hwant : wanted w q r = true) (hafter : q.afterSeq < r.seq) :
    r ∈ (walk w size fuel q s).1.flatMap (·.rows) := by
  induction fuel generalizing q s with
  | zero => cases hend
  | succ fuel ih =>
    rcases walk_cases fuel q s with h | ⟨rows, n, m, s', hread, h⟩ | ⟨rows, c, n, m, s', hread, h⟩
    · rw [h] at hend
      cases hend
    · rw [h] at hscan ⊢
      rw [List.flatMap_singleton]
      exact (page_gives hsize hs hread).1.all (hscan _ List.mem_cons_self) r hr hwant hafter fun c hc => nomatch hc
    · obtain ⟨hpage, hgo, -, hgrow⟩ := page_gives hsize hs hread
      rw [h] at hscan hend ⊢
      rw [List.flatMap_cons]
      rcases Nat.lt_or_ge c r.seq with hlater | hnow
      · refine List.mem_append_right _ (ih hgo (fun v hv => hscan v (List.mem_cons_of_mem _ hv)) hend ?_ hwant hlater)
        exact hgo.advance.2.log r (hgrow.log r hr)
      · refine List.mem_append_left _ (hpage.all (hscan _ List.mem_cons_self) r hr hwant hafter fun c' hc' => ?_)
        cases hc'
        exact hnow

end Walk

/-! ## The export -/

/-- The rows a walk gives: in the order of their seqs and each once, of the window and really there, the cursors ever
larger; the walk ends, and when it does nothing readable of the window is left. -/
structure ExportOnce (w : Owner) (q : TraceQuery) (began fin : World) (visits : List Visit) (ended : WalkEnd) : Prop where
  once : (visits.flatMap (·.rows)).Pairwise fun r r' => r.seq < r'.seq
  real : ∀ r ∈ visits.flatMap (·.rows), r ∈ fin.log ∧ wanted w q r = true
  onward : ∀ v ∈ visits, ∀ c, v.next = some c → v.query.afterSeq < c
  ends : ended ≠ .unfinished
  last : ∀ v ∈ visits, v.next = none → ∀ r ∈ v.found.log, wanted w q r = true → v.query.afterSeq < r.seq → r ∈ v.rows
  all : ended = .whole → ∀ r ∈ began.log, wanted w q r = true → r ∈ visits.flatMap (·.rows)

/-- The world at the end of a plan that starts from nothing. -/
def World.ofPlan (w : Owner) (plan : List (List Event)) : World := final (World.step w) plan.flatten .empty

/-- Every batch of a plan lands no more than the slack before its rows ended. -/
def Timely (w : Owner) (plan : List (List Event)) : Prop :=
  ∀ x ∈ turns (World.step w) plan.flatten World.empty, x.act.timely x.before

theorem export_once {w : Owner} {size : Nat} (hsize : 0 < size) (q : TraceQuery) {plan : List (List Event)}
    (htimely : Timely w plan) {fuel : Nat} (hfuel : (World.ofPlan w plan).tables.outbox.nextSeq < fuel)
    (hscan : ∀ v ∈ (walk w size fuel (q.past 0) (.empty, plan)).1, ScanWhole w v.query v.found) :
    ExportOnce w q (advance w (.empty, plan)).1 (World.ofPlan w plan) (walk w size fuel (q.past 0) (.empty, plan)).1
      (walk w size fuel (q.past 0) (.empty, plan)).2 := by
  have hgo : Going w (World.ofPlan w plan) (.empty, plan) := ⟨kept_empty w, rfl, htimely⟩
  have hgives := walk_gives (q := q.past 0) hsize fuel hgo
  refine ⟨walk_sorted hsize fuel hgo, ?_, ?_, ?_, ?_, ?_⟩
  · intro r hr
    obtain ⟨v, hv, hrv⟩ := List.mem_flatMap.1 hr
    obtain ⟨hpage, hwant, -⟩ := hgives v hv
    exact ⟨(hpage.real r hrv).1, (hwant r).symm.trans (hpage.real r hrv).2.1⟩
  · exact fun v hv c hc => ((hgives v hv).1.onward c hc).1
  · have hpos := hgo.kept_fin.sent
    refine walk_ends hsize hgo ?_ ?_
    · exact (Nat.zero_add fuel).symm ▸ hfuel
    · exact Nat.lt_of_le_of_lt (Nat.zero_le _) hpos
  · intro v hv hnext r hr hwant hafter
    obtain ⟨hpage, hsame, -⟩ := hgives v hv
    exact hpage.all (hscan v hv) r hr ((hsame r).trans hwant) hafter fun c hc => nomatch hnext.symm.trans hc
  · intro hend r hr hwant
    exact walk_finds hsize fuel hgo hscan hend hr hwant (hgo.advance.1.kept.numbered r hr).1

instance (s : World) (e : Event) : Decidable (e.timely s) :=
  match e with
  | .land n now =>
    match h : s.flushes[n]? with
    | none => isTrue fun _ hf => nomatch h.symm.trans hf
    | some f => decidable_of_iff (∀ r ∈ f.pending.rows, r.at_ ≤ now + UPLOAD_SLACK_MS)
        ⟨fun hall _ hg => Option.some.inj (h.symm.trans hg) ▸ hall, fun hall => hall f h⟩
  | .append _ | .flush _ _ | .finish _ | .cut => isTrue trivial

instance (w : Owner) (plan : List (List Event)) : Decidable (Timely w plan) := List.decidableBAll _ _

instance (w : Owner) (q : TraceQuery) (s : World) : Decidable (ScanWhole w q s) :=
  inferInstanceAs (Decidable ((∃ r ∈ unscanned s q.afterSeq, wanted w q r = true) → ∀ r ∈ scanned s q.afterSeq, _))

/-- A row of an agent's, and a window that ends it. -/
def anOwner : Owner := ⟨"t", "a"⟩

def aRow (kind : String) (at_ : Int) : TraceOutboxRow := ⟨0, at_, "t", "a", kind, "s", none, "", "ok", none, none⟩

def aWindow : TraceQuery := ⟨5, 20, 0, 1, Nat.one_pos⟩

/-- Two rows flushed while the export goes on, and one still in the object. -/
def aPlan : List (List Event) :=
  [[.append (aRow "tool.call" 6), .append (aRow "tool.call" 7), .flush 10 8], [.land 0 9, .finish none, .append (aRow "inbound" 10)]]

def aTranscript : TranscriptQuery := ⟨js "t", js "a", none, 1, Nat.one_pos, 0⟩

def aReading : Reading :=
  ⟨⟨some (js "t", js "a"), [], [], [], fun _ => [.null, .bool true], .null⟩, id, fun e => (e, 0)⟩

/-- The rows as they are numbered when they are appended. -/
def numbered : List TraceOutboxRow → Nat → List TraceOutboxRow
  | [], _ => []
  | r :: rs, n => { r with seq := n } :: numbered rs (n + 1)

theorem final_appends (w : Owner) (rs : List TraceOutboxRow) (s : World) :
    final (World.step w) (rs.map .append) s = { s with
      tables := { s.tables with
        outbox := ⟨s.tables.outbox.rows ++ numbered rs s.tables.outbox.nextSeq, s.tables.outbox.nextSeq + rs.length⟩ }
      log := s.log ++ numbered rs s.tables.outbox.nextSeq } := by
  induction rs generalizing s with
  | nil =>
    rw [List.map_nil, final_nil, numbered, List.append_nil, List.append_nil]
    rfl
  | cons r rs ih =>
    rw [List.map_cons, final_cons, ih]
    simp only [World.step, appendTraceRow, numbered, List.append_assoc, List.singleton_append, List.length_cons]
    rw [Nat.add_right_comm, Nat.add_assoc]

theorem mem_numbered {rs : List TraceOutboxRow} {n : Nat} {x : TraceOutboxRow} (h : x ∈ numbered rs n) :
    n ≤ x.seq ∧ ∃ r ∈ rs, x = { r with seq := x.seq } := by
  induction rs generalizing n with
  | nil => cases h
  | cons r rs ih =>
    rcases List.mem_cons.1 h with rfl | h
    · exact ⟨Nat.le_refl _, r, List.mem_cons_self, rfl⟩
    · obtain ⟨hle, r', hr', hx⟩ := ih h
      exact ⟨by omega, r', List.mem_cons_of_mem _ hr', hx⟩

theorem numbered_append (rs rs' : List TraceOutboxRow) (n : Nat) :
    numbered (rs ++ rs') n = numbered rs n ++ numbered rs' (n + rs.length) := by
  induction rs generalizing n with
  | nil => rfl
  | cons r rs ih =>
    rw [List.cons_append, numbered, ih, numbered, List.cons_append, List.length_cons, Nat.add_right_comm, Nat.add_assoc]

theorem length_numbered (rs : List TraceOutboxRow) (n : Nat) : (numbered rs n).length = rs.length := by
  induction rs generalizing n with
  | nil => rfl
  | cons r rs ih => rw [numbered, List.length_cons, ih, List.length_cons]

/-- An object to which some rows were appended, and nothing else was done. -/
def World.appended (rs : List TraceOutboxRow) : World :=
  ⟨⟨⟨numbered rs 1, 1 + rs.length⟩, 0, []⟩, [], [], none, numbered rs 1⟩

theorem advance_appended (w : Owner) (rs : List TraceOutboxRow) :
    advance w (.empty, [rs.map .append]) = (.appended rs, []) := by
  rw [advance]
  dsimp only
  rw [final_appends]
  rfl

theorem pageOf_nothing {q : TraceQuery} {bySeq : List TraceOutboxRow} (h : ∀ r ∈ bySeq, q.inside r = false) :
    pageOf q bySeq none = ([], none) := by
  have hnone : (Table.orderBy (·.seq) (bySeq.filter fun r => (none : Option Nat).all fun f => decide (r.seq ≤ f))).filter
      q.inside = [] := by
    refine List.filter_eq_nil_iff.2 fun r hr => ?_
    rw [h r (List.mem_filter.1 (mem_orderBy.1 hr)).1]
    exact Bool.false_ne_true
  unfold pageOf
  dsimp only
  rw [hnone, List.take_nil, List.length_nil, if_neg (Nat.ne_of_lt q.limit_pos)]

/-- With an empty bucket, a page of a scan that says it came to the end and read no row of the window. -/
theorem read_nothing {w : Owner} {q : TraceQuery} {size : Nat} {s s' : Run} {rows : List TraceOutboxRow}
    (hlocal : (source w size).localRows q.afterSeq TRACE_LOCAL_SCAN s = (some rows, s'))
    (hlist : listBatches (source w size) (tracePrefix w) TRACE_LIST_PAGES none [] s' = (some [], s'))
    (hfrontier : localFrontier rows = none) (hrows : ∀ r ∈ rows, q.inside r = false) :
    readTraceWindow (source w size) w q s = (.ok [] none rows.length 0, s') := by
  have hpage : pageOf q (addLocal [] rows) none = ([], none) := by
    have hempty : Table.Unique (fun r : TraceOutboxRow => r.seq) [] := List.nodup_nil
    obtain ⟨-, hmem, -, -⟩ := addLocal_spec rows hempty
    exact pageOf_nothing fun r hr => hrows r ((hmem r hr).resolve_left List.not_mem_nil)
  have hdue : dueBatches q [] = [] := rfl
  unfold readTraceWindow
  rw [hlocal]
  dsimp only
  rw [hlist]
  dsimp only
  rw [hdue, hfrontier, readBatches, hpage]

/-- A row the outbox cannot read, the rest of what one scan reads, and a row past it. -/
def damagedRows : List TraceOutboxRow := aRow "tool.cal" 0 :: List.replicate 4999 (aRow "tool.call" 0)

def damagedPlan : List (List Event) := [(damagedRows ++ [aRow "tool.call" 10]).map .append]

def damagedWorld : World := .appended (damagedRows ++ [aRow "tool.call" 10])

theorem length_damagedRows : damagedRows.length = TRACE_LOCAL_SCAN := by
  rw [damagedRows, List.length_cons, List.length_replicate]
  rfl

theorem scanned_damaged : scanned damagedWorld 0 = numbered damagedRows 1 := by
  have hpast : (damagedWorld.tables.outbox.rows.filter fun r => decide (0 < r.seq)) = damagedWorld.tables.outbox.rows :=
    List.filter_eq_self.2 fun r hr => decide_eq_true (mem_numbered hr).1
  have hrows : damagedWorld.tables.outbox.rows = numbered (damagedRows ++ [aRow "tool.call" 10]) 1 := rfl
  rw [scanned, hpast, hrows, numbered_append, ← length_damagedRows, ← length_numbered damagedRows 1, List.take_left]

/-- The scan came to its bound, and its answer does not say so. -/
theorem localFrontier_damaged :
    localFrontier (localTrace anOwner damagedWorld.tables.outbox 0 TRACE_LOCAL_SCAN) = none := by
  rw [localTrace_scanned, scanned_damaged, damagedRows, numbered, List.filter_cons_of_neg (by decide)]
  refine if_neg fun hlen => ?_
  have hle := List.length_filter_le anOwner.owns ((numbered (List.replicate 4999 (aRow "tool.call" 0)) 2).filter (·.readable))
  have hle' := List.length_filter_le (·.readable) (numbered (List.replicate 4999 (aRow "tool.call" 0)) 2)
  rw [length_numbered, List.length_replicate] at hle'
  rw [hlen] at hle
  exact absurd (Nat.le_trans hle hle') (by decide)

/-- No row of the scan is of the window. -/
theorem localTrace_damaged {r : TraceOutboxRow}
    (hr : r ∈ localTrace anOwner damagedWorld.tables.outbox 0 TRACE_LOCAL_SCAN) : aWindow.inside r = false := by
  have hscan := (mem_localTrace.1 hr).1
  rw [scanned_damaged] at hscan
  obtain ⟨-, x, hx, heq⟩ := mem_numbered hscan
  have hat : x.at_ = 0 := by
    rcases List.mem_cons.1 hx with rfl | hx
    · rfl
    · rw [List.eq_of_mem_replicate hx]
      rfl
  rw [heq, TraceQuery.inside]
  dsimp only
  rw [hat]
  rfl

end Antiproton.Export
