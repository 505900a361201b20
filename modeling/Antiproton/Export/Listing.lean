import Mathlib.Data.List.Lex
import Antiproton.Export.Bucket
import Antiproton.Lib.Keyset

/-!
# Antiproton.Export.Listing

An export's reads of the object and the bucket, rows being appended and flushes going on between any two of them. The
bucket lists its keys in order, so many at a time, each page from past the last key of the one before.

* `listBatches_found`: a listing answers every batch that was there when it began, and only batches.
-/

namespace Antiproton.Export

open Js Trace History

/-- The world, and what happens before each of the reads to come. -/
abbrev Run := World × List (List Event)

/-- What happens before the next read. -/
def advance (w : Owner) (s : Run) : Run :=
  match s.2 with
  | [] => s
  | events :: rest => (final (World.step w) events s.1, rest)

/-- The bucket's order. -/
def keyOf (o : Stored) : List Nat := o.key.map UInt16.toNat

def listAt (size : Nat) (under : Str) (cursor : Option (List Nat)) (bucket : List Stored) : Listed (List Nat) :=
  let page := Keyset.page keyOf size cursor (Table.orderBy keyOf (bucket.filter fun o => startsWith under o.key))
  ⟨page.1.map fun o => (o.key, o.uploaded), page.2.isSome, page.2⟩

/-- The object and the bucket, as an export reads them. -/
def source (w : Owner) (size : Nat) : TraceSource Run (List Nat) where
  localRows afterSeq limit s :=
    (some (localTrace w (advance w s).1.tables.outbox afterSeq limit), advance w s)
  list under cursor s := (listAt size under cursor (advance w s).1.bucket, advance w s)
  get key s := (((advance w s).1.bucket.find? (·.key == key)).map (·.rows), advance w s)

/-! ## What goes on between two reads -/

/-- Rows and batches stay, whatever happens. -/
structure Grows (s s' : World) : Prop where
  log : ∀ r ∈ s.log, r ∈ s'.log
  bucket : ∀ o ∈ s.bucket, ∃ o' ∈ s'.bucket, o'.key = o.key

/-- A run that ends in `fin`, its batches landing in time. -/
structure Going (w : Owner) (fin : World) (s : Run) : Prop where
  kept : Kept w s.1
  ends : final (World.step w) s.2.flatten s.1 = fin
  timely : ∀ x ∈ turns (World.step w) s.2.flatten s.1, x.act.timely x.before

section Between

variable {w : Owner} {fin : World}

theorem Grows.refl (s : World) : Grows s s := ⟨fun _ hr => hr, fun o ho => ⟨o, ho, rfl⟩⟩

theorem Grows.trans {s s' s'' : World} (h : Grows s s') (h' : Grows s' s'') : Grows s s'' := by
  refine ⟨fun r hr => h'.log r (h.log r hr), fun o ho => ?_⟩
  obtain ⟨o', ho', hkey⟩ := h.bucket o ho
  obtain ⟨o'', ho'', hkey'⟩ := h'.bucket o' ho'
  exact ⟨o'', ho'', hkey'.trans hkey⟩

theorem step_grows (e : Event) (s : World) : Grows s (s.step w e).2 := by
  cases e with
  | append r => exact ⟨fun r hr => List.mem_append_left _ hr, fun o ho => ⟨o, ho, rfl⟩⟩
  | flush limit now => exact ⟨fun r hr => hr, fun o ho => ⟨o, ho, rfl⟩⟩
  | land n now =>
    cases hf : s.flushes[n]? with
    | none => simpa only [World.step, hf] using Grows.refl s
    | some f =>
      cases hkey : batchKey w f.pending.rows with
      | none => simpa only [World.step, hf, hkey] using Grows.refl s
      | some key =>
        simp only [World.step, hf, hkey]
        refine ⟨fun r hr => hr, fun o ho => ?_⟩
        by_cases hsame : o.key = key
        · exact ⟨_, put_self _ _, hsame.symm⟩
        · exact ⟨o, put_other ho hsame, rfl⟩
  | finish holdThrough =>
    cases hf : s.current.bind (s.flushes[·]?) with
    | none => simpa only [World.step, hf] using Grows.refl s
    | some f =>
      simp only [World.step, hf]
      split <;> exact ⟨fun r hr => hr, fun o ho => ⟨o, ho, rfl⟩⟩
  | cut => exact ⟨fun r hr => hr, fun o ho => ⟨o, ho, rfl⟩⟩

theorem final_grows (events : List Event) (s : World) : Grows s (final (World.step w) events s) := by
  induction events generalizing s with
  | nil => exact .refl s
  | cons e events ih => exact (step_grows e s).trans (ih _)

theorem final_kept {events : List Event} {s : World} (h : Kept w s)
    (hok : ∀ x ∈ turns (World.step w) events s, x.act.timely x.before) : Kept w (final (World.step w) events s) :=
  have hstep : ∀ e s, Kept w s → Event.timely s e → Kept w (s.step w e).2 := fun e s h hok => step_kept e s h hok
  final_guarded h hstep hok

theorem Going.advance {s : Run} (h : Going w fin s) : Going w fin (advance w s) ∧ Grows s.1 (Export.advance w s).1 := by
  obtain ⟨world, plan⟩ := s
  cases plan with
  | nil => exact ⟨h, .refl world⟩
  | cons events rest =>
    have hends := h.ends
    have htimely := h.timely
    rw [List.flatten_cons] at hends htimely
    rw [final_append] at hends
    rw [turns_append] at htimely
    refine ⟨⟨final_kept h.kept fun x hx => htimely x (List.mem_append_left _ hx), hends, ?_⟩, final_grows events world⟩
    exact fun x hx => htimely x (List.mem_append_right _ hx)

theorem Going.grows {s : Run} (h : Going w fin s) : Grows s.1 fin := h.ends ▸ final_grows _ _

theorem Going.kept_fin {s : Run} (h : Going w fin s) : Kept w fin := h.ends ▸ final_kept h.kept h.timely

end Between

/-! ## The listing -/

/-- A batch a listing answered: its range is its key's, it is there, and of some rows those it spans ended in time. -/
structure FoundBatch (w : Owner) (log : List TraceOutboxRow) (s : World) (b : Batch) : Prop where
  range : traceKeyRange (tracePrefix w) b.key = some (b.fromSeq, b.toSeq)
  there : ∃ o ∈ s.bucket, o.key = b.key
  ended : ∀ r ∈ log, r.readable = true → b.spans r → r.at_ ≤ b.uploaded + UPLOAD_SLACK_MS

section Listing

variable {w : Owner} {fin : World} {size : Nat} {log : List TraceOutboxRow}

theorem FoundBatch.grows {s s' : World} {b : Batch} (h : FoundBatch w log s b) (hs : Grows s s') : FoundBatch w log s' b := by
  obtain ⟨o, ho, hkey⟩ := h.there
  obtain ⟨o', ho', hkey'⟩ := hs.bucket o ho
  exact ⟨h.range, ⟨o', ho', hkey'.trans hkey⟩, h.ended⟩

/-- The range in the key of an object of the bucket. -/
theorem Stored.IsBatch.range {o : Stored} (h : o.IsBatch w log) : ∃ first ∈ o.rows, ∃ last ∈ o.rows,
    traceKeyRange (tracePrefix w) o.key = some (first.seq, last.seq) ∧ first.seq ≤ last.seq := by
  obtain ⟨first, hf, last, hl, hfirst, hlast, hkey⟩ := batchKey_some h.key
  refine ⟨first, hf, last, hl, ?_, (h.taken.between hfirst hlast hl).1⟩
  rw [hkey]
  exact traceKeyRange_key w first.seq last.seq

theorem keyOf_injective {o o' : Stored} (h : keyOf o = keyOf o') : o.key = o'.key :=
  List.map_injective_iff.2 (fun _ _ => UInt16.toNat_inj.1) h

theorem ascending_bucket {s : World} (h : Kept w s) (under : Str) :
    Keyset.Ascending keyOf (Table.orderBy keyOf (s.bucket.filter fun o => startsWith under o.key)) := by
  refine Table.pairwise_lt_orderBy (List.Nodup.sublist (List.filter_sublist.map _) ?_)
  have hkeys : s.bucket.map keyOf = (s.bucket.map Stored.key).map fun k => k.map UInt16.toNat := by
    rw [List.map_map]
    rfl
  rw [hkeys]
  exact h.keys.map (List.map_injective_iff.2 fun _ _ => UInt16.toNat_inj.1)

theorem startsWith_batch {s : World} (h : Kept w s) {o : Stored} (ho : o ∈ s.bucket) :
    startsWith (tracePrefix w) o.key = true := by
  obtain ⟨first, -, last, -, hrange, -⟩ := (h.batches o ho).range
  unfold traceKeyRange at hrange
  split at hrange
  · assumption
  · cases hrange

/-- The batches of one page of the listing. -/
def foundOn (under : Str) (listed : Listed (List Nat)) : List Batch :=
  listed.objects.filterMap fun o => (traceKeyRange under o.1).map fun range => ⟨o.1, range.1, range.2, o.2⟩

theorem mem_foundOn {s : World} (h : Kept w s) (hlog : ∀ r ∈ log, r ∈ s.log) {cursor : Option (List Nat)} {b : Batch}
    (hb : b ∈ foundOn (tracePrefix w) (listAt size (tracePrefix w) cursor s.bucket)) : FoundBatch w log s b := by
  obtain ⟨x, hx, hxb⟩ := List.mem_filterMap.1 hb
  obtain ⟨o, ho, rfl⟩ := List.mem_map.1 hx
  obtain ⟨range, hrange, rfl⟩ := Option.map_eq_some_iff.1 hxb
  have hmem : o ∈ s.bucket := by
    have hpast : o ∈ Keyset.past keyOf cursor (Table.orderBy keyOf (s.bucket.filter fun o => startsWith (tracePrefix w) o.key)) := by
      unfold Keyset.page at ho
      dsimp only at ho
      split at ho
      · exact List.mem_of_mem_take (List.mem_of_mem_take ho)
      · exact List.mem_of_mem_take ho
    exact (List.mem_filter.1 ((Table.orderBy_perm _ _).mem_iff.1 (Keyset.mem_past.1 hpast).1)).1
  have hbatch := h.batches o hmem
  obtain ⟨first, hf, last, hl, hkey, -⟩ := hbatch.range
  rw [hkey] at hrange
  cases hrange
  refine ⟨hkey, ⟨o, hmem, rfl⟩, ?_⟩
  intro r hr hread hspan
  exact hbatch.ended r (hbatch.taken.whole first hf last hl r (hlog r hr) hread hspan.1 hspan.2)

/-- A key past the cursor is on the page, or past where the page ends. -/
theorem foundOn_finds {s : World} (h : Kept w s) (hsize : 0 < size) {cursor : Option (List Nat)} {o : Stored}
    (ho : o ∈ s.bucket) (hpast : ∀ k, cursor = some k → k < keyOf o) :
    (∃ b ∈ foundOn (tracePrefix w) (listAt size (tracePrefix w) cursor s.bucket), b.key = o.key) ∨
      ∃ k, (listAt size (tracePrefix w) cursor s.bucket).cursor = some k ∧ k < keyOf o := by
  have hmem : o ∈ Table.orderBy keyOf (s.bucket.filter fun o => startsWith (tracePrefix w) o.key) :=
    (Table.orderBy_perm _ _).mem_iff.2 (List.mem_filter.2 ⟨ho, startsWith_batch h ho⟩)
  rcases Keyset.page_finds (ascending_bucket h _) hsize (Keyset.mem_past.2 ⟨hmem, hpast⟩) with hin | hlater
  · left
    obtain ⟨first, -, last, -, hkey, -⟩ := (h.batches o ho).range
    refine ⟨⟨o.key, first.seq, last.seq, o.uploaded⟩, ?_, rfl⟩
    exact List.mem_filterMap.2 ⟨(o.key, o.uploaded), List.mem_map.2 ⟨o, hin, rfl⟩, by rw [hkey]; rfl⟩
  · exact .inr hlater

/-- A listing answers every batch that was there when it began, and only batches. -/
theorem listBatches_found (hsize : 0 < size) {pages : Nat} {cursor : Option (List Nat)} {before found : List Batch}
    {s s' : Run} (hs : Going w fin s) (hlog : ∀ r ∈ log, r ∈ s.1.log)
    (h : listBatches (source w size) (tracePrefix w) pages cursor before s = (some found, s')) :
    Going w fin s' ∧ Grows s.1 s'.1 ∧ (∀ b ∈ before, b ∈ found) ∧ (∀ b ∈ found, b ∈ before ∨ FoundBatch w log s'.1 b) ∧
      ∀ o ∈ s.1.bucket, (∀ k, cursor = some k → k < keyOf o) → ∃ b ∈ found, b.key = o.key := by
  induction pages generalizing cursor before s with
  | zero => cases h
  | succ pages ih =>
    obtain ⟨hgo, hgrow⟩ := hs.advance
    have hlog' : ∀ r ∈ log, r ∈ (advance w s).1.log := fun r hr => hgrow.log r (hlog r hr)
    have hpage : ∀ o ∈ s.1.bucket, (∀ k, cursor = some k → k < keyOf o) →
        (∃ b ∈ foundOn (tracePrefix w) (listAt size (tracePrefix w) cursor (advance w s).1.bucket), b.key = o.key) ∨
          ∃ k, (listAt size (tracePrefix w) cursor (advance w s).1.bucket).cursor = some k ∧ k < keyOf o := by
      intro o ho hpast
      obtain ⟨o', ho', hkey⟩ := hgrow.bucket o ho
      have hsame : keyOf o' = keyOf o := congrArg (List.map UInt16.toNat) hkey
      rw [← hsame, ← hkey]
      exact foundOn_finds hgo.kept hsize ho' fun k hk => hsame ▸ hpast k hk
    change (if (listAt size (tracePrefix w) cursor (advance w s).1.bucket).truncated then
        listBatches (source w size) (tracePrefix w) pages (listAt size (tracePrefix w) cursor (advance w s).1.bucket).cursor
          (before ++ foundOn (tracePrefix w) (listAt size (tracePrefix w) cursor (advance w s).1.bucket)) (advance w s)
      else (some (before ++ foundOn (tracePrefix w) (listAt size (tracePrefix w) cursor (advance w s).1.bucket)),
        advance w s)) = _ at h
    split at h
    · obtain ⟨hgo', hgrow', hkept, honly, hall⟩ := ih hgo hlog' h
      refine ⟨hgo', hgrow.trans hgrow', fun b hb => hkept b (List.mem_append_left _ hb), ?_, ?_⟩
      · intro b hb
        rcases honly b hb with hb | hb
        · rcases List.mem_append.1 hb with hb | hb
          · exact .inl hb
          · exact .inr ((mem_foundOn hgo.kept hlog' hb).grows hgrow')
        · exact .inr hb
      · intro o ho hpast
        rcases hpage o ho hpast with ⟨b, hb, hkey⟩ | ⟨k, hk, hlt⟩
        · exact ⟨b, hkept b (List.mem_append_right _ hb), hkey⟩
        · obtain ⟨o', ho', hkey⟩ := hgrow.bucket o ho
          have hsame : keyOf o' = keyOf o := congrArg (List.map UInt16.toNat) hkey
          obtain ⟨b, hb, hbkey⟩ := hall o' ho' fun k' hk' => by
            rw [hk] at hk'
            cases hk'
            rw [hsame]
            exact hlt
          exact ⟨b, hb, hbkey.trans hkey⟩
    · next hend =>
      cases h
      refine ⟨hgo, hgrow, fun b hb => List.mem_append_left _ hb, ?_, ?_⟩
      · intro b hb
        rcases List.mem_append.1 hb with hb | hb
        · exact .inl hb
        · exact .inr (mem_foundOn hgo.kept hlog' hb)
      · intro o ho hpast
        rcases hpage o ho hpast with ⟨b, hb, hkey⟩ | ⟨k, hk, -⟩
        · exact ⟨b, List.mem_append_right _ hb, hkey⟩
        · refine absurd ?_ hend
          have hcursor : (listAt size (tracePrefix w) cursor (advance w s).1.bucket).truncated =
              (listAt size (tracePrefix w) cursor (advance w s).1.bucket).cursor.isSome := rfl
          rw [hcursor, hk]
          rfl

end Listing

end Antiproton.Export
