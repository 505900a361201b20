import Antiproton.Export.Listing

/-!
# Antiproton.Export.Pages

What one page of an export gives, the object and the bucket changing between its reads.

* `page_gives`: a page's rows are real ones of the window, in order; and where the scan of the object passed over nothing,
  every row that was there when the object was read is on the page or past its cursor.
-/

namespace Antiproton.Export

open Js Trace History

/-- The rows of the object a page scans, whether or not they can be read. -/
def scanned (s : World) (afterSeq : Nat) : List TraceOutboxRow :=
  (s.tables.outbox.rows.filter fun r => decide (afterSeq < r.seq)).take TRACE_LOCAL_SCAN

/-- The rows of the object a page's scan did not come to. -/
def unscanned (s : World) (afterSeq : Nat) : List TraceOutboxRow :=
  (s.tables.outbox.rows.filter fun r => decide (afterSeq < r.seq)).drop TRACE_LOCAL_SCAN

def wanted (w : Owner) (q : TraceQuery) (r : TraceOutboxRow) : Bool := r.readable && w.owns r && q.inside r

/-- A scan that leaves a row of the window behind dropped none of those it came to. -/
def ScanWhole (w : Owner) (q : TraceQuery) (s : World) : Prop :=
  (∃ r ∈ unscanned s q.afterSeq, wanted w q r = true) →
    ∀ r ∈ scanned s q.afterSeq, r.readable = true ∧ w.owns r = true

section Scanned

variable {w : Owner} {q : TraceQuery} {s : World}

theorem localTrace_scanned (w : Owner) (s : World) (afterSeq : Nat) :
    localTrace w s.tables.outbox afterSeq TRACE_LOCAL_SCAN =
      ((scanned s afterSeq).filter (·.readable)).filter w.owns := rfl

theorem mem_localTrace {r : TraceOutboxRow} {afterSeq : Nat} :
    r ∈ localTrace w s.tables.outbox afterSeq TRACE_LOCAL_SCAN ↔
      r ∈ scanned s afterSeq ∧ r.readable = true ∧ w.owns r = true := by
  rw [localTrace_scanned, List.mem_filter, List.mem_filter, and_assoc]

theorem mem_past {r : TraceOutboxRow} {afterSeq : Nat} (hr : r ∈ s.tables.outbox.rows) (h : afterSeq < r.seq) :
    r ∈ scanned s afterSeq ∨ r ∈ unscanned s afterSeq := by
  have hpast : r ∈ s.tables.outbox.rows.filter fun r => decide (afterSeq < r.seq) :=
    List.mem_filter.2 ⟨hr, decide_eq_true h⟩
  rw [← List.take_append_drop TRACE_LOCAL_SCAN (s.tables.outbox.rows.filter _)] at hpast
  exact List.mem_append.1 hpast

theorem mem_scanned {r : TraceOutboxRow} {afterSeq : Nat} (h : r ∈ scanned s afterSeq) :
    r ∈ s.tables.outbox.rows ∧ afterSeq < r.seq := by
  obtain ⟨hr, hafter⟩ := List.mem_filter.1 (List.mem_of_mem_take h)
  exact ⟨hr, of_decide_eq_true hafter⟩

/-- Where the scan of the object stops, it stops at a row it read. -/
theorem localFrontier_some {rows : List TraceOutboxRow} {f : Nat} (h : localFrontier rows = some f) :
    ∃ r ∈ rows, r.seq = f := by
  unfold localFrontier at h
  split at h
  · obtain ⟨r, hr, hseq⟩ := Option.map_eq_some_iff.1 h
    exact ⟨r, List.mem_of_getLast? hr, hseq⟩
  · cases h

/-- A whole scan that left a row of the window behind stops before it. -/
theorem frontier_before (hs : Kept w s) (hscan : ScanWhole w q s) {r : TraceOutboxRow} (hr : r ∈ unscanned s q.afterSeq)
    (hwanted : wanted w q r = true) :
    ∃ f, localFrontier (localTrace w s.tables.outbox q.afterSeq TRACE_LOCAL_SCAN) = some f ∧ f < r.seq := by
  have hall := hscan ⟨r, hr, hwanted⟩
  have hrows : localTrace w s.tables.outbox q.afterSeq TRACE_LOCAL_SCAN = scanned s q.afterSeq := by
    rw [localTrace_scanned, List.filter_eq_self.2 fun x hx => (hall x hx).1, List.filter_eq_self.2 fun x hx => (hall x hx).2]
  have hpast : (s.tables.outbox.rows.filter fun r => decide (q.afterSeq < r.seq)).Pairwise fun r r' => r.seq < r'.seq :=
    hs.outbox.rows.filter _
  rw [← List.take_append_drop TRACE_LOCAL_SCAN (s.tables.outbox.rows.filter _)] at hpast
  have hlen : (scanned s q.afterSeq).length = TRACE_LOCAL_SCAN := by
    have hpos := List.length_pos_of_mem hr
    unfold unscanned at hpos
    rw [List.length_drop] at hpos
    unfold scanned
    rw [List.length_take]
    omega
  rcases List.eq_nil_or_concat' (scanned s q.afterSeq) with hnil | ⟨init, last, hlast⟩
  · rw [hnil] at hlen
    cases hlen
  · refine ⟨last.seq, ?_, ?_⟩
    · rw [hrows, localFrontier, if_pos hlen, hlast, List.getLast?_concat]
      rfl
    · have hmem : last ∈ scanned s q.afterSeq := by
        rw [hlast]
        exact List.mem_append_right _ List.mem_cons_self
      exact (List.pairwise_append.1 hpast).2.2 last hmem r hr

end Scanned

/-! ## The batches a page reads -/

section Batches

variable {w : Owner} {q : TraceQuery} {fin s : World} {size : Nat}

theorem mem_dueBatches {batches : List Batch} {b : Batch} :
    b ∈ dueBatches q batches ↔ b ∈ batches ∧ q.afterSeq < b.toSeq ∧ q.start - UPLOAD_SLACK_MS ≤ b.uploaded := by
  unfold dueBatches
  rw [(Table.orderBy_perm _ _).mem_iff, List.mem_filter, Bool.and_eq_true, decide_eq_true_eq, Bool.not_eq_true',
    decide_eq_false_iff_not, Int.not_lt]

theorem Kept.one (h : Kept w s) {r r' : TraceOutboxRow} (hr : r ∈ s.log) (hr' : r' ∈ s.log) (hseq : r.seq = r'.seq) :
    r = r' := by
  have hnodup : (s.log.map (·.seq)).Nodup := List.pairwise_map.2 (h.order.imp Nat.ne_of_lt)
  exact List.inj_on_of_nodup_map hnodup hr hr' hseq

/-- The range a listing answered of a batch is that of its rows. -/
theorem Stored.IsBatch.span {log : List TraceOutboxRow} {o : Stored} (h : o.IsBatch w log) {b : Batch}
    (hkey : o.key = b.key) (hrange : traceKeyRange (tracePrefix w) b.key = some (b.fromSeq, b.toSeq)) :
    ∃ first ∈ o.rows, ∃ last ∈ o.rows, first.seq = b.fromSeq ∧ last.seq = b.toSeq ∧ ∀ r ∈ o.rows, b.spans r := by
  obtain ⟨first, hf, last, hl, hfirst, hlast, heq⟩ := batchKey_some h.key
  rw [← hkey, heq] at hrange
  have hends := (traceKeyRange_key w first.seq last.seq).symm.trans hrange
  rw [Option.some.injEq, Prod.mk.injEq] at hends
  refine ⟨first, hf, last, hl, hends.1, hends.2, fun r hr => ?_⟩
  obtain ⟨hle, hle'⟩ := h.taken.between hfirst hlast hr
  exact ⟨hends.1 ▸ hle, hends.2 ▸ hle'⟩

/-- A batch found holds its rows when it is read, later than it was found. -/
theorem found_whole {log : List TraceOutboxRow} {E : TraceOutboxRow → Prop} (hE : ∀ r, E r → r ∈ log ∧ r.readable = true)
    {b : Batch} (hs : Kept w s) (hlog : ∀ r ∈ log, r ∈ s.log) (h : FoundBatch w log s b) :
    Whole (source w size) (fun t : Run => Going w fin t ∧ Grows s t.1) (fun r => r ∈ fin.log ∧ r.readable = true) E b := by
  obtain ⟨o, ho, hkey⟩ := h.there
  constructor
  · obtain ⟨first, hfirst, last, -, hfrom, -, hspan⟩ := (hs.batches o ho).span hkey h.range
    have hpos := (hs.numbered first ((hs.batches o ho).taken.real first hfirst).1).1
    have hle := (hspan first hfirst).2
    omega
  · rintro t ⟨hgo, hgrow⟩
    obtain ⟨hgo', hgrow'⟩ := hgo.advance
    have hgrow' := hgrow.trans hgrow'
    refine ⟨⟨hgo', hgrow'⟩, ?_⟩
    obtain ⟨o', ho', hkey'⟩ := hgrow'.bucket o ho
    have hbody : ((source w size).get b.key t).1 = ((advance w t).1.bucket.find? (·.key == b.key)).map (·.rows) := rfl
    cases hfind : (advance w t).1.bucket.find? (·.key == b.key) with
    | none => exact absurd (hkey'.trans hkey) (by simpa using List.find?_eq_none.1 hfind o' ho')
    | some x =>
      rw [hfind] at hbody
      have hx := hgo'.kept.batches x (List.mem_of_find?_eq_some hfind)
      have hxkey : x.key = b.key := eq_of_beq (List.find?_some hfind :)
      obtain ⟨first, hfirst, last, hlast, hfrom, hto, -⟩ := hx.span hxkey h.range
      refine ⟨x.rows, hbody, ?_, ?_⟩
      · exact fun r hr => ⟨hgo'.grows.log r (hx.taken.real r hr).1, (hx.taken.real r hr).2⟩
      · intro r hr hle hle'
        obtain ⟨hin, hread⟩ := hE r hr
        exact hx.taken.whole first hfirst last hlast r (hgrow'.log r (hlog r hin)) hread (hfrom ▸ hle) (hto ▸ hle')

/-- The batch that has a row of the window is one the page is to read. -/
theorem found_due {log : List TraceOutboxRow} {batches : List Batch} (hs : Kept w s) {t : World}
    (hfound : ∀ b ∈ batches, FoundBatch w log t b) (hall : ∀ o ∈ s.bucket, ∃ b ∈ batches, b.key = o.key)
    {r : TraceOutboxRow} (hr : r ∈ log) (hread : r.readable = true) (hin : q.inside r = true) (hafter : q.afterSeq < r.seq)
    (hexported : Exported s r) : ∃ b ∈ dueBatches q batches, b.spans r := by
  obtain ⟨o, ho, hro⟩ := hexported
  obtain ⟨b, hb, hkey⟩ := hall o ho
  obtain ⟨-, -, -, -, -, -, hspan⟩ := (hs.batches o ho).span hkey.symm (hfound b hb).range
  have hspan := hspan r hro
  have hended := (hfound b hb).ended r hr hread hspan
  have hstart : q.start ≤ r.at_ := by
    unfold TraceQuery.inside at hin
    exact of_decide_eq_true (Bool.and_eq_true_iff.1 hin).1
  refine ⟨b, mem_dueBatches.2 ⟨hb, ?_, ?_⟩, hspan⟩
  · exact Nat.lt_of_lt_of_le hafter hspan.2
  · omega

end Batches

/-! ## The page -/

/-- What a page gives of the rows that were there when the object was read. -/
structure PageGives (w : Owner) (q : TraceQuery) (fin s : World) (rows : List TraceOutboxRow) (next : Option Nat) : Prop where
  sorted : rows.Pairwise fun r r' => r.seq < r'.seq
  real : ∀ r ∈ rows, r ∈ fin.log ∧ wanted w q r = true ∧ q.afterSeq < r.seq
  upTo : ∀ c, next = some c → ∀ r ∈ rows, r.seq ≤ c
  onward : ∀ c, next = some c → q.afterSeq < c ∧ c < fin.tables.outbox.nextSeq
  all : ScanWhole w q s → ∀ r ∈ s.log, wanted w q r = true → q.afterSeq < r.seq → (∀ c, next = some c → r.seq ≤ c) → r ∈ rows

section Page

variable {w : Owner} {q : TraceQuery} {fin s : World} {size : Nat}

theorem wanted_iff {r : TraceOutboxRow} :
    wanted w q r = true ↔ (r.readable = true ∧ w.owns r = true) ∧ q.inside r = true := by
  rw [wanted, Bool.and_eq_true, Bool.and_eq_true]

/-- The page of a scan of the batches that began where the object's own rows end. -/
theorem pageOf_gives (hs : Kept w s) (hfin : Kept w fin) (hgrow : ∀ r ∈ s.log, r ∈ fin.log) {due : List Batch}
    {bySeq : List TraceOutboxRow} {frontier : Option Nat}
    (hends : ∀ b ∈ due, ∃ r ∈ fin.log, b.toSeq = r.seq)
    (hdue : ∀ r ∈ s.log, wanted w q r = true → q.afterSeq < r.seq → Exported s r → ∃ b ∈ due, b.spans r)
    (h : ScanOf w q (fun r => r ∈ fin.log ∧ r.readable = true) (fun r => (r ∈ s.log ∧ r.readable = true) ∧ w.owns r = true)
      due (localFrontier (localTrace w s.tables.outbox q.afterSeq TRACE_LOCAL_SCAN)) bySeq frontier) :
    PageGives w q fin s
      (pageOf q (addLocal bySeq (localTrace w s.tables.outbox q.afterSeq TRACE_LOCAL_SCAN)) frontier).1
      (pageOf q (addLocal bySeq (localTrace w s.tables.outbox q.afterSeq TRACE_LOCAL_SCAN)) frontier).2 := by
  let rows := localTrace w s.tables.outbox q.afterSeq TRACE_LOCAL_SCAN
  have hlocal : ∀ r ∈ rows, (r ∈ fin.log ∧ r.readable = true) ∧ w.owns r = true ∧ q.afterSeq < r.seq := by
    intro r hr
    obtain ⟨hscan, hread, hown⟩ := mem_localTrace.1 hr
    obtain ⟨hout, hafter⟩ := mem_scanned hscan
    exact ⟨⟨hgrow r (hs.rows r hout), hread⟩, hown, hafter⟩
  obtain ⟨hunique, hfrom, hkept, hadded⟩ := addLocal_spec rows h.rows.unique
  have hreal : ∀ r ∈ addLocal bySeq rows, (r ∈ fin.log ∧ r.readable = true) ∧ w.owns r = true ∧ q.afterSeq < r.seq := by
    intro r hr
    rcases hfrom r hr with hr | hr
    · exact h.rows.real r hr
    · exact hlocal r hr
  have hpage := @pageOf_spec q (addLocal bySeq rows) frontier hunique
  refine ⟨hpage.sorted, ?_, hpage.upTo, ?_, ?_⟩
  · intro r hr
    obtain ⟨hmem, hin⟩ := hpage.mem r hr
    obtain ⟨⟨hlog, hread⟩, hown, hafter⟩ := hreal r hmem
    exact ⟨hlog, wanted_iff.2 ⟨⟨hread, hown⟩, hin⟩, hafter⟩
  · -- a cursor is the seq of a row: one of the page, the last of the object's, or the end of a batch
    have hrow : ∀ r : TraceOutboxRow, r ∈ fin.log → q.afterSeq < r.seq →
        q.afterSeq < r.seq ∧ r.seq < fin.tables.outbox.nextSeq := fun r hr hafter => ⟨hafter, (hfin.numbered r hr).2⟩
    have hfront : ∀ f, localFrontier rows = some f → q.afterSeq < f ∧ f < fin.tables.outbox.nextSeq := by
      intro f hf
      obtain ⟨r, hr, rfl⟩ := localFrontier_some hf
      obtain ⟨⟨hlog, -⟩, -, hafter⟩ := hlocal r hr
      exact hrow r hlog hafter
    intro c hc
    rcases hpage.cursor c hc with hf | ⟨r, hr, rfl⟩
    · rcases h.frontier with heq | ⟨f, heq, -, hfrom | ⟨hafter, b, hb, hle⟩⟩
      · exact hfront c (heq.symm.trans hf)
      · rw [hf] at heq
        cases heq
        exact hfront c hfrom
      · rw [hf] at heq
        cases heq
        obtain ⟨r, hr, hseq⟩ := hends b hb
        have hlt := (hfin.numbered r hr).2
        omega
    · obtain ⟨hmem, -⟩ := hpage.mem r hr
      obtain ⟨⟨hlog, -⟩, -, hafter⟩ := hreal r hmem
      exact hrow r hlog hafter
  · intro hscan r hr hwant hafter hle
    obtain ⟨⟨hread, hown⟩, hin⟩ := wanted_iff.1 hwant
    have hfrontier : ∀ f, frontier = some f → r.seq ≤ f := by
      intro f hf
      obtain ⟨c, hc, hcf⟩ := hpage.within f hf
      exact Nat.le_trans (hle c hc) hcf
    refine hpage.all r ?_ hin hle
    rcases Nat.lt_or_ge s.tables.sent r.seq with hunsent | hsent
    · rcases mem_past (hs.unsent r hr hunsent) hafter with hscanned | hleft
      · obtain ⟨r', hr', hseq⟩ := hadded r (mem_localTrace.2 ⟨hscanned, hread, hown⟩)
        exact hfin.one (hreal r' hr').1.1 (hgrow r hr) hseq ▸ hr'
      · -- the scan of the object stopped before the row, and the page no later
        obtain ⟨f, hf, hlt⟩ := frontier_before hs hscan hleft hwant
        rcases h.frontier with heq | ⟨f', heq, hbefore, -⟩
        · have hle := hfrontier f (heq.trans hf)
          omega
        · have hle := hfrontier f' heq
          have hle' := hbefore f hf
          omega
    · exact hkept r (h.found r ⟨⟨hr, hread⟩, hown⟩ hafter hfrontier
        (hdue r hr hwant hafter (hs.exported r hr hread hsent)))

/-- What one page gives, whatever goes on between its reads. -/
theorem page_gives (hsize : 0 < size) {t t' : Run} (hgo : Going w fin t) {rows : List TraceOutboxRow}
    {next : Option Nat} {n m : Nat} (h : readTraceWindow (source w size) w q t = (.ok rows next n m, t')) :
    PageGives w q fin (advance w t).1 rows next ∧ Going w fin t' ∧ Grows t.1 (advance w t).1 ∧
      Grows (advance w t).1 t'.1 := by
  obtain ⟨hgo1, hgrow1⟩ := hgo.advance
  have hlocal : (source w size).localRows q.afterSeq TRACE_LOCAL_SCAN t =
      (some (localTrace w (advance w t).1.tables.outbox q.afterSeq TRACE_LOCAL_SCAN), advance w t) := rfl
  unfold readTraceWindow at h
  rw [hlocal] at h
  dsimp only at h
  cases hlist : listBatches (source w size) (tracePrefix w) TRACE_LIST_PAGES none [] (advance w t) with
  | mk found t2 =>
    rw [hlist] at h
    cases found with
    | none => cases h
    | some batches =>
      obtain ⟨hgo2, hgrow2, -, honly, hall⟩ := listBatches_found hsize hgo1 (fun r hr => hr) hlist
      have hfound : ∀ b ∈ batches, FoundBatch w (advance w t).1.log t2.1 b :=
        fun b hb => (honly b hb).resolve_left List.not_mem_nil
      have hall : ∀ o ∈ (advance w t).1.bucket, ∃ b ∈ batches, b.key = o.key :=
        fun o ho => hall o ho fun k hk => nomatch hk
      have hsorted : (([] : List Batch) ++ dueBatches q batches).Pairwise fun b b' => b.fromSeq ≤ b'.fromSeq := Table.pairwise_orderBy _ _
      have hT : ∀ r r', (r ∈ fin.log ∧ r.readable = true) → (r' ∈ fin.log ∧ r'.readable = true) → r.seq = r'.seq → r = r' :=
        fun r r' hr hr' => hgo.kept_fin.one hr.1 hr'.1
      obtain ⟨hscan, hend, hgrow3⟩ := readBatches_spec (E := fun r => (r ∈ (advance w t).1.log ∧ r.readable = true) ∧ w.owns r = true)
        hT (fun r hr => hr.2) ⟨hgo2, Grows.refl t2.1⟩ hsorted
        (fun b hb => ⟨(mem_dueBatches.1 hb).2.1,
          found_whole (fun r hr => hr.1) hgo2.kept hgrow2.log (hfound b (mem_dueBatches.1 hb).1)⟩) scanned_nil
      cases h
      refine ⟨pageOf_gives hgo1.kept hgo.kept_fin hgo1.grows.log ?_ ?_ hscan, hend, hgrow1, hgrow2.trans hgrow3⟩
      · intro b hb
        have hb := hfound b (mem_dueBatches.1 hb).1
        obtain ⟨o, ho, hkey⟩ := hb.there
        obtain ⟨-, -, last, hlast, -, hto, -⟩ := (hgo2.kept.batches o ho).span hkey hb.range
        exact ⟨last, hgo2.grows.log last ((hgo2.kept.batches o ho).taken.real last hlast).1, hto.symm⟩
      · intro r hr hwant hafter hexported
        obtain ⟨⟨hread, -⟩, hin⟩ := wanted_iff.1 hwant
        exact found_due hgo1.kept hfound hall hr hread hin hafter hexported

end Page

end Antiproton.Export
