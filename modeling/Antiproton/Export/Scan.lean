import Antiproton.Export.Window

/-!
# Antiproton.Export.Scan

What a page gives, of a source whose batches are whole: a batch holds every row that counts in the range of its key.

* `readBatches_spec`: whatever stops the scan of the batches, every row that counts up to the frontier was looked at.
* `pageOf_spec`: a page holds the rows of the window up to its cursor, in order.
-/

namespace Antiproton.Export

open Js Trace

/-! ## The page of what was read -/

section Page

variable {q : TraceQuery} {bySeq : List TraceOutboxRow} {frontier : Option Nat}

theorem orderBy_sorted {rows : List TraceOutboxRow} (h : Table.Unique (·.seq) rows) (p : TraceOutboxRow → Bool) :
    (Table.orderBy (·.seq) (rows.filter p)).Pairwise fun r r' => r.seq < r'.seq :=
  Table.pairwise_lt_orderBy (List.Nodup.sublist (List.filter_sublist.map _) h)

theorem mem_orderBy {rows : List TraceOutboxRow} {r : TraceOutboxRow} : r ∈ Table.orderBy (·.seq) rows ↔ r ∈ rows :=
  (Table.orderBy_perm _ _).mem_iff

/-- What a page is of the rows by seq, and of the frontier. -/
structure PageOf (q : TraceQuery) (bySeq : List TraceOutboxRow) (frontier : Option Nat) (rows : List TraceOutboxRow)
    (next : Option Nat) : Prop where
  sorted : rows.Pairwise fun r r' => r.seq < r'.seq
  mem : ∀ r ∈ rows, r ∈ bySeq ∧ q.inside r = true
  upTo : ∀ c, next = some c → ∀ r ∈ rows, r.seq ≤ c
  cursor : ∀ c, next = some c → frontier = some c ∨ ∃ r ∈ rows, r.seq = c
  within : ∀ f, frontier = some f → ∃ c, next = some c ∧ c ≤ f
  all : ∀ r ∈ bySeq, q.inside r = true → (∀ c, next = some c → r.seq ≤ c) → r ∈ rows

theorem pageOf_spec (h : Table.Unique (·.seq) bySeq) :
    PageOf q bySeq frontier (pageOf q bySeq frontier).1 (pageOf q bySeq frontier).2 := by
  let upTo (r : TraceOutboxRow) : Bool := frontier.all fun f => decide (r.seq ≤ f)
  let window := (Table.orderBy (·.seq) (bySeq.filter upTo)).filter q.inside
  have hsorted : window.Pairwise fun r r' => r.seq < r'.seq := (orderBy_sorted h upTo).filter _
  have hmem : ∀ r, r ∈ window ↔ (r ∈ bySeq ∧ upTo r = true) ∧ q.inside r = true := by
    intro r
    rw [List.mem_filter, mem_orderBy, List.mem_filter]
  have hrows : (pageOf q bySeq frontier).1 = window.take q.limit := rfl
  have hnext : (pageOf q bySeq frontier).2 =
      if (window.take q.limit).length = q.limit then (window.take q.limit).getLast?.map (·.seq) else frontier := rfl
  rw [hrows, hnext]
  have hsub : ∀ r ∈ window.take q.limit, r ∈ bySeq ∧ q.inside r = true := fun r hr =>
    have hr := (hmem r).1 (List.mem_of_mem_take hr)
    ⟨hr.1.1, hr.2⟩
  by_cases hfull : (window.take q.limit).length = q.limit
  · rw [if_pos hfull]
    -- the page is full: the next one goes on past its last row
    rcases List.eq_nil_or_concat' (window.take q.limit) with hnil | ⟨init, last, hlast⟩
    · rw [hnil] at hfull
      exact absurd hfull (Nat.ne_of_lt q.limit_pos)
    have hcursor : (window.take q.limit).getLast?.map (·.seq) = some last.seq := by rw [hlast, List.getLast?_concat]; rfl
    have hmemLast : last ∈ window.take q.limit := by rw [hlast]; exact List.mem_append_right _ List.mem_cons_self
    rw [hcursor]
    have hpage := hsorted.sublist (List.take_sublist q.limit window)
    have hlastUpTo : ∀ f, frontier = some f → last.seq ≤ f := by
      intro f hf
      have hupTo := ((hmem last).1 (List.mem_of_mem_take hmemLast)).1.2
      simp only [upTo, hf] at hupTo
      exact of_decide_eq_true hupTo
    refine ⟨hpage, hsub, ?_, ?_, fun f hf => ⟨last.seq, rfl, hlastUpTo f hf⟩, ?_⟩
    · intro c hc r hr
      cases hc
      rw [hlast] at hr hpage
      rcases List.mem_append.1 hr with hr | hr
      · exact Nat.le_of_lt ((List.pairwise_append.1 hpage).2.2 r hr last List.mem_cons_self)
      · rw [List.mem_singleton.1 hr]
    · intro c hc
      cases hc
      exact .inr ⟨last, hmemLast, rfl⟩
    · intro r hr hin hle
      have hle := hle last.seq rfl
      have hupTo : upTo r = true := by
        simp only [upTo]
        cases hf : frontier with
        | none => rfl
        | some f => exact decide_eq_true (Nat.le_trans hle (hlastUpTo f hf))
      have hwindow : r ∈ window := (hmem r).2 ⟨⟨hr, hupTo⟩, hin⟩
      rw [← List.take_append_drop q.limit window] at hwindow hsorted
      rcases List.mem_append.1 hwindow with hr | hr
      · exact hr
      · have hlt := (List.pairwise_append.1 hsorted).2.2 last hmemLast r hr
        omega
  · rw [if_neg hfull]
    have hall : window.take q.limit = window := by
      refine List.take_of_length_le ?_
      rw [List.length_take] at hfull
      omega
    rw [hall]
    refine ⟨hsorted, hall ▸ hsub, ?_, fun c hc => .inl hc, fun f hf => ⟨f, hf, Nat.le_refl f⟩, ?_⟩
    · intro c hc r hr
      have hupTo := ((hmem r).1 hr).1.2
      simp only [upTo, hc] at hupTo
      exact of_decide_eq_true hupTo
    · intro r hr hin hle
      refine (hmem r).2 ⟨⟨hr, ?_⟩, hin⟩
      simp only [upTo]
      cases hf : frontier with
      | none => rfl
      | some f => exact decide_eq_true (hle f hf)

theorem hasSeq_iff {rows : List TraceOutboxRow} {seq : Nat} : hasSeq rows seq = true ↔ ∃ r ∈ rows, r.seq = seq := by
  simp [hasSeq]

/-- The rows by seq, with the object's own added. -/
theorem addLocal_spec (rows : List TraceOutboxRow) (h : Table.Unique (·.seq) bySeq) :
    Table.Unique (·.seq) (addLocal bySeq rows) ∧ (∀ r ∈ addLocal bySeq rows, r ∈ bySeq ∨ r ∈ rows) ∧
      (∀ r ∈ bySeq, r ∈ addLocal bySeq rows) ∧ ∀ r ∈ rows, ∃ r' ∈ addLocal bySeq rows, r'.seq = r.seq := by
  induction rows generalizing bySeq with
  | nil => exact ⟨h, fun r hr => .inl hr, fun r hr => hr, by simp⟩
  | cons r rows ih =>
    have hcons : addLocal bySeq (r :: rows) = addLocal (if hasSeq bySeq r.seq then bySeq else bySeq ++ [r]) rows := rfl
    rw [hcons]
    cases hhas : hasSeq bySeq r.seq with
    | true =>
      rw [if_pos rfl]
      obtain ⟨hunique, hmem, hkept, hrows⟩ := ih h
      refine ⟨hunique, fun x hx => ?_, hkept, fun x hx => ?_⟩
      · exact (hmem x hx).imp id (List.mem_cons_of_mem _)
      · rcases List.mem_cons.1 hx with rfl | hx
        · obtain ⟨r', hr', hseq⟩ := hasSeq_iff.1 hhas
          exact ⟨r', hkept r' hr', hseq⟩
        · exact hrows x hx
    | false =>
      rw [if_neg Bool.false_ne_true]
      have hnew : Table.Unique (·.seq) (bySeq ++ [r]) := by
        rw [Table.Unique, List.map_append, List.map_singleton]
        refine List.nodup_append.2 ⟨h, List.nodup_singleton _, ?_⟩
        intro n hn m hm heq
        obtain ⟨x, hx, rfl⟩ := List.mem_map.1 hn
        rw [List.mem_singleton.1 hm] at heq
        rw [hasSeq_iff.2 ⟨x, hx, heq⟩] at hhas
        cases hhas
      obtain ⟨hunique, hmem, hkept, hrows⟩ := ih hnew
      refine ⟨hunique, fun x hx => ?_, fun x hx => hkept x (List.mem_append_left _ hx), fun x hx => ?_⟩
      · rcases hmem x hx with hx | hx
        · rcases List.mem_append.1 hx with hx | hx
          · exact .inl hx
          · rw [List.mem_singleton.1 hx]
            exact .inr List.mem_cons_self
        · exact .inr (List.mem_cons_of_mem _ hx)
      · rcases List.mem_cons.1 hx with rfl | hx
        · exact ⟨x, hkept x (List.mem_append_right _ List.mem_cons_self), rfl⟩
        · exact hrows x hx

end Page

/-! ## The scan of the batches -/

section Scan

variable {w : Owner} {q : TraceQuery} {T E : TraceOutboxRow → Prop}

/-- The rows read so far: real ones of the owner's past the cursor, one a seq. -/
structure Rows (w : Owner) (q : TraceQuery) (T : TraceOutboxRow → Prop) (bySeq : List TraceOutboxRow) : Prop where
  real : ∀ r ∈ bySeq, T r ∧ w.owns r = true ∧ q.afterSeq < r.seq
  unique : Table.Unique (·.seq) bySeq

theorem readLine_spec (hT : ∀ r r', T r → T r' → r.seq = r'.seq → r = r') {scan : Scan} (h : Rows w q T scan.bySeq)
    {row : TraceOutboxRow} (hrow : T row) :
    Rows w q T (readLine w q scan row).bySeq ∧ (∀ r ∈ scan.bySeq, r ∈ (readLine w q scan row).bySeq) ∧
      (w.owns row = true → q.afterSeq < row.seq → row ∈ (readLine w q scan row).bySeq) ∧
      (readLine w q scan row).objects = scan.objects ∧ (readLine w q scan row).readThrough = scan.readThrough := by
  unfold readLine
  split
  case isFalse hno => exact ⟨h, fun r hr => hr, fun ho ha => absurd ⟨ho, ha⟩ hno, rfl, rfl⟩
  rename_i hyes
  have hmem : ∀ r, r ∈ Table.upsert (·.seq == row.seq) row (fun _ => row) scan.bySeq ↔ r ∈ scan.bySeq ∨ r = row := by
    intro r
    constructor
    · intro hr
      rcases Table.mem_upsert hr with hr | hr | ⟨-, -, -, hr⟩
      · exact .inl hr
      · exact .inr hr
      · exact .inr hr.symm
    · intro hr
      unfold Table.upsert
      split
      · rename_i hany
        refine Table.mem_update.2 ?_
        rcases hr with hr | rfl
        · refine ⟨r, hr, ?_⟩
          split
          · rename_i hseq
            exact (hT r row (h.real r hr).1 hrow (eq_of_beq hseq)).symm
          · rfl
        · obtain ⟨x, hx, hseq⟩ := List.any_eq_true.1 hany
          exact ⟨x, hx, if_pos hseq⟩
      · rcases hr with hr | rfl
        · exact List.mem_append_left _ hr
        · exact List.mem_append_right _ List.mem_cons_self
  refine ⟨⟨fun r hr => ?_, ?_⟩, fun r hr => (hmem r).2 (.inl hr), fun _ _ => (hmem row).2 (.inr rfl), rfl, rfl⟩
  · rcases (hmem r).1 hr with hr | rfl
    · exact h.real r hr
    · exact ⟨hrow, hyes⟩
  · exact Table.unique_upsert_where h.unique (by simp) fun r' hseq => (eq_of_beq hseq).symm

theorem readLines_spec {rows : List TraceOutboxRow} (scan : Scan) (hT : ∀ r r', T r → T r' → r.seq = r'.seq → r = r')
    (h : Rows w q T scan.bySeq) (hrows : ∀ r ∈ rows, T r) :
    Rows w q T (rows.foldl (readLine w q) scan).bySeq ∧
      (∀ r ∈ scan.bySeq, r ∈ (rows.foldl (readLine w q) scan).bySeq) ∧
      (∀ r ∈ rows, w.owns r = true → q.afterSeq < r.seq → r ∈ (rows.foldl (readLine w q) scan).bySeq) ∧
      (rows.foldl (readLine w q) scan).objects = scan.objects ∧
      (rows.foldl (readLine w q) scan).readThrough = scan.readThrough := by
  induction rows generalizing scan with
  | nil => exact ⟨h, fun r hr => hr, by simp, rfl, rfl⟩
  | cons row rows ih =>
    obtain ⟨h1, hkept, hrow, hobjects, hthrough⟩ := readLine_spec hT h (hrows row List.mem_cons_self)
    obtain ⟨h2, hkept', hrows', hobjects', hthrough'⟩ := ih _ h1 fun r hr => hrows r (List.mem_cons_of_mem _ hr)
    rw [List.foldl_cons]
    refine ⟨h2, fun r hr => hkept' r (hkept r hr), fun r hr ho ha => ?_, hobjects'.trans hobjects, hthrough'.trans hthrough⟩
    rcases List.mem_cons.1 hr with rfl | hr
    · exact hkept' r (hrow ho ha)
    · exact hrows' r hr ho ha

/-- A source of whole batches: each has its rows, all real, and every one that counts in its range. -/
structure Whole {S C : Type} (src : TraceSource S C) (I : S → Prop) (T E : TraceOutboxRow → Prop) (b : Batch) : Prop where
  range : 0 < b.fromSeq ∧ b.fromSeq ≤ b.toSeq
  gives : ∀ s, I s → I (src.get b.key s).2 ∧ ∃ body, (src.get b.key s).1 = some body ∧ (∀ r ∈ body, T r) ∧
    ∀ r, E r → b.fromSeq ≤ r.seq → r.seq ≤ b.toSeq → r ∈ body

/-- A batch whose range a row lies in. -/
def Batch.spans (b : Batch) (r : TraceOutboxRow) : Prop := b.fromSeq ≤ r.seq ∧ r.seq ≤ b.toSeq

/-- The scan after some batches. -/
structure Scanned (w : Owner) (q : TraceQuery) (T E : TraceOutboxRow → Prop) (done : List Batch) (scan : Scan) : Prop where
  rows : Rows w q T scan.bySeq
  found : ∀ r, E r → q.afterSeq < r.seq → (∃ b ∈ done, b.spans r) → r ∈ scan.bySeq
  through : scan.readThrough = q.afterSeq ∨ ∃ b ∈ done, b.toSeq = scan.readThrough
  past : ∀ b ∈ done, q.afterSeq < b.toSeq
  started : done = [] → scan.objects = 0 ∧ scan.inWindow = 0
  reach : done ≠ [] → q.afterSeq < scan.readThrough

theorem scanned_nil : Scanned w q T E [] ⟨[], 0, 0, q.afterSeq⟩ where
  rows := ⟨by simp, List.nodup_nil⟩
  found := by simp
  through := .inl rfl
  past := by simp
  started _ := ⟨rfl, rfl⟩
  reach h := absurd rfl h

variable {S C : Type} {src : TraceSource S C} {I : S → Prop}

theorem readBatch_scanned (hT : ∀ r r', T r → T r' → r.seq = r'.seq → r = r') (hE : ∀ r, E r → w.owns r = true)
    {done : List Batch} {scan : Scan} (h : Scanned w q T E done scan) {b : Batch} (hb : q.afterSeq < b.toSeq)
    {body : List TraceOutboxRow} (hreal : ∀ r ∈ body, T r)
    (hwhole : ∀ r, E r → b.fromSeq ≤ r.seq → r.seq ≤ b.toSeq → r ∈ body) :
    Scanned w q T E (done ++ [b]) (readBatch w q b (some body) scan) := by
  obtain ⟨hrows, hkept, hnew, -, hthrough⟩ := readLines_spec
    { scan with objects := scan.objects + 1, readThrough := max scan.readThrough b.toSeq } hT h.rows hreal
  have hthrough : (readBatch w q b (some body) scan).readThrough = max scan.readThrough b.toSeq := hthrough
  refine ⟨hrows, ?_, ?_, ?_, by simp, ?_⟩
  · rintro r hr hafter ⟨c, hc, hspan⟩
    rcases List.mem_append.1 hc with hc | hc
    · exact hkept r (h.found r hr hafter ⟨c, hc, hspan⟩)
    · rw [List.mem_singleton.1 hc] at hspan
      exact hnew r (hwhole r hr hspan.1 hspan.2) (hE r hr) hafter
  · rw [hthrough]
    rcases Nat.le_total scan.readThrough b.toSeq with hle | hle
    · rw [Nat.max_eq_right hle]
      exact .inr ⟨b, List.mem_append_right _ List.mem_cons_self, rfl⟩
    · rw [Nat.max_eq_left hle]
      exact h.through.imp id fun ⟨c, hc, heq⟩ => ⟨c, List.mem_append_left _ hc, heq⟩
  · intro c hc
    rcases List.mem_append.1 hc with hc | hc
    · exact h.past c hc
    · rw [List.mem_singleton.1 hc]
      exact hb
  · intro _
    rw [hthrough]
    omega

/-- What the scan of the batches gives, whatever stops it. -/
structure ScanOf (w : Owner) (q : TraceQuery) (T E : TraceOutboxRow → Prop) (all : List Batch) (frontier : Option Nat)
    (bySeq : List TraceOutboxRow) (frontier' : Option Nat) : Prop where
  rows : Rows w q T bySeq
  found : ∀ r, E r → q.afterSeq < r.seq → (∀ f, frontier' = some f → r.seq ≤ f) → (∃ b ∈ all, b.spans r) → r ∈ bySeq
  /-- The frontier is where it was, or a batch's, below. -/
  frontier : frontier' = frontier ∨ ∃ f, frontier' = some f ∧ (∀ g, frontier = some g → f ≤ g) ∧
    (frontier = some f ∨ q.afterSeq < f ∧ ∃ b ∈ all, f ≤ b.toSeq)

theorem readBatches_spec (hT : ∀ r r', T r → T r' → r.seq = r'.seq → r = r') (hE : ∀ r, E r → w.owns r = true)
    {due done : List Batch} {scan : Scan} {frontier : Option Nat} {s : S} (hI : I s)
    (hsorted : (done ++ due).Pairwise fun b b' => b.fromSeq ≤ b'.fromSeq)
    (hdue : ∀ b ∈ due, q.afterSeq < b.toSeq ∧ Whole src I T E b) (h : Scanned w q T E done scan) :
    ScanOf w q T E (done ++ due) frontier (readBatches src w q due scan frontier s).1.1.bySeq
      (readBatches src w q due scan frontier s).1.2 ∧ I (readBatches src w q due scan frontier s).2 := by
  induction due generalizing done scan s with
  | nil =>
    refine ⟨⟨h.rows, fun r hr hafter _ hb => ?_, .inl rfl⟩, hI⟩
    rw [List.append_nil] at hb
    exact h.found r hr hafter hb
  | cons b rest ih =>
    obtain ⟨hb, hwhole⟩ := hdue b List.mem_cons_self
    unfold readBatches
    split
    case isFalse hgo =>
      obtain ⟨hI', body, hbody, hreal, hin⟩ := hwhole.gives s hI
      have hnext := readBatch_scanned hT hE h hb hreal hin
      rw [← hbody] at hnext
      have hsplit : done ++ b :: rest = (done ++ [b]) ++ rest := by rw [List.append_assoc, List.singleton_append]
      rw [hsplit] at hsorted ⊢
      exact ih hI' hsorted (fun c hc => hdue c (List.mem_cons_of_mem _ hc)) hnext
    rename_i hstop
    have hstarted : done ≠ [] := by
      intro hnil
      obtain ⟨h1, h2⟩ := h.started hnil
      rcases hstop with hstop | hstop
      · rw [h1] at hstop
        cases hstop
      · rw [h2] at hstop
        exact absurd hstop (Nat.not_le.2 q.limit_pos)
    have hreach := h.reach hstarted
    refine ⟨⟨h.rows, ?_, .inr ⟨_, rfl, ?_, ?_⟩⟩, hI⟩
    · rintro r hr hafter hle ⟨c, hc, hspan⟩
      have hle : r.seq ≤ max (b.fromSeq - 1) scan.readThrough := by
        have hle := hle _ rfl
        unfold minFrontier at hle
        cases frontier with
        | none => exact hle
        | some f => exact Nat.le_trans hle (Nat.min_le_right _ _)
      rcases List.mem_append.1 hc with hc | hc
      · exact h.found r hr hafter ⟨c, hc, hspan⟩
      · -- a batch still unread that spans the row begins at the next one or past it, so what was read reaches the row
        have hfrom : b.fromSeq ≤ c.fromSeq := by
          rcases List.mem_cons.1 hc with rfl | hc
          · exact Nat.le_refl _
          · exact (List.pairwise_cons.1 (List.pairwise_append.1 hsorted).2.1).1 c hc
        have hpos := hwhole.range.1
        have hthrough : r.seq ≤ scan.readThrough := by
          have hspan := hspan.1
          omega
        rcases h.through with heq | ⟨d, hd, heq⟩
        · omega
        · have hdb := (List.pairwise_append.1 hsorted).2.2 d hd b List.mem_cons_self
          refine h.found r hr hafter ⟨d, hd, ?_, by omega⟩
          have hspan := hspan.1
          omega
    · intro g hg
      subst hg
      exact Nat.min_le_left _ _
    · have hat : q.afterSeq < max (b.fromSeq - 1) scan.readThrough ∧
          ∃ d ∈ done ++ b :: rest, max (b.fromSeq - 1) scan.readThrough ≤ d.toSeq := by
        refine ⟨by omega, ?_⟩
        rcases Nat.le_total (b.fromSeq - 1) scan.readThrough with hle | hle
        · rcases h.through with heq | ⟨d, hd, heq⟩
          · omega
          · exact ⟨d, List.mem_append_left _ hd, by omega⟩
        · refine ⟨b, List.mem_append_right _ List.mem_cons_self, ?_⟩
          have hrange := hwhole.range.2
          omega
      cases frontier with
      | none => exact .inr hat
      | some g =>
        rcases Nat.le_total g (max (b.fromSeq - 1) scan.readThrough) with hle | hle
        · exact .inl (congrArg some (Nat.min_eq_left hle).symm)
        · have hmin : minFrontier (some g) (max (b.fromSeq - 1) scan.readThrough) = max (b.fromSeq - 1) scan.readThrough :=
            Nat.min_eq_right hle
          rw [hmin]
          exact .inr hat

end Scan

end Antiproton.Export
