import Antiproton.Lib.Rely
import Antiproton.Usage.D1

/-!
# Antiproton.Usage.Metered

Every metered unit reaches the ledger once. `Metered` is what holds of an object and the ledger whatever flushes, folds
and repeated batches are under way, and `meters` what each of their statements may do to the others.

* `pending_sound`: the rows a flush reads are all of those between the cursor and the last, or it has lost the race.
* `sendBatch_metered`, `foldDay_metered`: a batch counts its rows with its cursor, or nothing; a fold moves.
* `flush_safe`, `fold_safe`: the runs keep to it at every await.
* `metered_once`: what has been counted, what may be forgotten, and how many flushes leave nothing unsent.
-/

namespace Antiproton
namespace Usage

open Process

/-! ## Rows in the order of their numbers -/

section Sorted

variable {rows : List OutboxRow} {e : Nat}

theorem le_through (b : SentBatch) : b.expectedSeq ≤ b.through ∧ ∀ r ∈ b.rows, r.seq ≤ b.through := by
  unfold SentBatch.through
  generalize b.expectedSeq = e
  induction b.rows generalizing e with
  | nil => simp
  | cons r rows ih =>
    obtain ⟨hle, hall⟩ := ih (max e r.seq)
    rw [List.foldl_cons]
    refine ⟨by omega, fun r' hr' => ?_⟩
    rcases List.mem_cons.1 hr' with rfl | hr'
    · omega
    · exact hall r' hr'

theorem through_attained (b : SentBatch) : b.through = b.expectedSeq ∨ ∃ r ∈ b.rows, r.seq = b.through := by
  unfold SentBatch.through
  generalize b.expectedSeq = e
  induction b.rows generalizing e with
  | nil => simp
  | cons r rows ih =>
    rw [List.foldl_cons]
    rcases ih (max e r.seq) with h | ⟨r', hr', h⟩
    · rcases le_total e r.seq with hle | hle
      · rw [max_eq_right hle] at h
        exact .inr ⟨r, by simp, by rw [max_eq_right hle, h]⟩
      · rw [max_eq_left hle] at h ⊢
        exact .inl h
    · exact .inr ⟨r', by simp [hr'], h⟩

/-- The first of the rows past a number are those up to the last of them, and the rest are those past it. -/
theorem take_eq_filter (hs : rows.Pairwise fun r r' => r.seq < r'.seq) (limit : Nat) (b : SentBatch)
    (hb : b.rows = (rows.filter fun r => decide (b.expectedSeq < r.seq)).take limit) (hne : b.rows ≠ []) :
    b.rows = (rows.filter fun r => decide (b.expectedSeq < r.seq) && decide (r.seq ≤ b.through)) ∧
    (rows.filter fun r => decide (b.expectedSeq < r.seq)).drop limit =
      rows.filter fun r => decide (b.through < r.seq) := by
  let past := rows.filter fun r => decide (b.expectedSeq < r.seq)
  have hsorted : past.Pairwise fun r r' => r.seq < r'.seq := hs.filter _
  have hsplit : past = b.rows ++ past.drop limit := by rw [hb]; exact (List.take_append_drop ..).symm
  have hlast : ∃ r ∈ b.rows, r.seq = b.through := by
    rcases through_attained b with h | h
    · obtain ⟨r, hr⟩ := List.exists_mem_of_ne_nil _ hne
      have hpast : r ∈ past := by rw [hsplit]; exact List.mem_append_left _ hr
      have hgt := (List.mem_filter.1 hpast).2
      have hle := (le_through b).2 r hr
      simp only [decide_eq_true_eq] at hgt
      omega
    · exact h
  obtain ⟨last, hmem, hseq⟩ := hlast
  have hkept : ∀ r ∈ b.rows, r.seq ≤ b.through := (le_through b).2
  have hdropped : ∀ r ∈ past.drop limit, b.through < r.seq := by
    intro r hr
    rw [hsplit] at hsorted
    have hlt := (List.pairwise_append.1 hsorted).2.2 last hmem r hr
    omega
  have htake : (past.filter fun r => decide (r.seq ≤ b.through)) = b.rows := by
    rw [hsplit, List.filter_append, List.filter_eq_self.2 fun r hr => by simpa using hkept r hr,
      List.filter_eq_nil_iff.2 fun r hr => by simpa using hdropped r hr, List.append_nil]
  have hdrop : (past.filter fun r => decide (b.through < r.seq)) = past.drop limit := by
    conv_lhs => rw [hsplit]
    rw [List.filter_append, List.filter_eq_nil_iff.2 fun r hr => by simpa using hkept r hr,
      List.filter_eq_self.2 fun r hr => by simpa using hdropped r hr, List.nil_append]
  refine ⟨?_, ?_⟩
  · rw [← htake, List.filter_filter]
    exact List.filter_congr fun r _ => Bool.and_comm ..
  · rw [← hdrop, List.filter_filter]
    refine List.filter_congr fun r _ => ?_
    have hle := (le_through b).1
    rw [Bool.eq_iff_iff]
    simp only [Bool.and_eq_true, decide_eq_true_eq]
    omega

end Sorted

/-! ## One batch -/

/-- The primary key of `usage_cursor`. -/
def UsageCursorRow.slot (r : UsageCursorRow) : String × String := (r.tenantId, r.agentId)

theorem usageCursorKey_slot {t a : String} {r : UsageCursorRow} :
    usageCursorKey t a r = true ↔ r.slot = (t, a) := by
  simp [usageCursorKey, UsageCursorRow.slot]

/-- The cursors keep their primary key. -/
def UsageD1.Keyed (d : UsageD1) : Prop := Table.Unique UsageCursorRow.slot d.cursors

/-- One kind of unit of an agent, whatever its hour. -/
def ofUnit (t a resource : String) (key : Str) (unit : String) (k : BucketKey) : Bool :=
  k.tenantId == t && k.agentId == a && k.resource == resource && k.key == key && k.unit == unit

/-- What the ledger holds under a kind of unit, hours and days together. -/
def billed (p : BucketKey → Bool) (d : UsageD1) : ℚ := Ledger.total p d.hourly + Ledger.total p d.daily

section Batch

variable {t a : String} {b : SentBatch} {d : UsageD1}

/-- The cursors once the batch's agent has a row. -/
def opened (b : SentBatch) (d : UsageD1) : List UsageCursorRow :=
  Table.insertOrIgnore (usageCursorKey b.tenantId b.agentId) ⟨b.tenantId, b.agentId, 0⟩ d.cursors

/-- The rows the last statement moves: the agent's, if it still holds the expected number. -/
def SentBatch.moves (b : SentBatch) (r : UsageCursorRow) : Bool :=
  usageCursorKey b.tenantId b.agentId r && r.lastSeq == b.expectedSeq

def SentBatch.move (b : SentBatch) (r : UsageCursorRow) : UsageCursorRow := { r with lastSeq := b.through }

theorem sendBatch_cursors : (sendBatch b d).2.cursors = Table.update b.moves b.move (opened b d) := rfl

theorem move_key (x : String × String) (r : UsageCursorRow) :
    usageCursorKey x.1 x.2 (b.move r) = usageCursorKey x.1 x.2 r := rfl

theorem opened_keyed (hk : d.Keyed) : Table.Unique UsageCursorRow.slot (opened b d) :=
  Table.unique_insertOrIgnore hk fun _ hr => usageCursorKey_slot.2 hr

theorem opened_one : ∃ r, Table.one (usageCursorKey b.tenantId b.agentId) (opened b d) = some r ∧
    r.lastSeq = usageCursor b.tenantId b.agentId d := by
  have hrow : usageCursorKey b.tenantId b.agentId ⟨b.tenantId, b.agentId, 0⟩ = true := by simp [usageCursorKey]
  refine ⟨_, Table.one_insertOrIgnore_self hrow d.cursors, ?_⟩
  unfold usageCursor
  cases Table.one (usageCursorKey b.tenantId b.agentId) d.cursors <;> rfl

theorem sendBatch_keyed (hk : d.Keyed) : (sendBatch b d).2.Keyed :=
  Table.unique_update (opened_keyed hk) fun _ => rfl

/-- The last statement changes one row exactly while the cursor holds the expected number. -/
theorem opened_moves (hk : d.Keyed) :
    (Table.changes b.moves (opened b d) == 1) = decide (usageCursor b.tenantId b.agentId d = b.expectedSeq) := by
  obtain ⟨row, hrow, hseq⟩ := opened_one (b := b) (d := d)
  have hsame : ∀ r r', usageCursorKey b.tenantId b.agentId r = true → usageCursorKey b.tenantId b.agentId r' = true →
      r.slot = r'.slot := fun r r' h h' => (usageCursorKey_slot.1 h).trans (usageCursorKey_slot.1 h').symm
  have hselect := Table.select_of_key (opened_keyed hk) hsame hrow
  have hcount : Table.changes b.moves (opened b d) = ([row].filter fun r => r.lastSeq == b.expectedSeq).length := by
    rw [← hselect, Table.select, List.filter_filter, Table.changes, List.countP_eq_length_filter]
    refine congrArg List.length (List.filter_congr fun r _ => ?_)
    rw [SentBatch.moves, Bool.and_comm]
  rw [hcount, ← hseq]
  by_cases h : row.lastSeq = b.expectedSeq <;> simp [h]

/-- A batch that finds the number it expects moves the cursor and counts its rows. -/
theorem sendBatch_counts (hk : d.Keyed) (h : usageCursor b.tenantId b.agentId d = b.expectedSeq) :
    (sendBatch b d).1 = true ∧ usageCursor b.tenantId b.agentId (sendBatch b d).2 = b.through ∧
    (sendBatch b d).2.hourly = Ledger.post (toHourly b.own) d.hourly ∧ (sendBatch b d).2.daily = d.daily := by
  obtain ⟨row, hrow, hseq⟩ := opened_one (b := b) (d := d)
  refine ⟨(opened_moves hk).trans (decide_eq_true h), ?_, ?_, rfl⟩
  · rw [usageCursor, sendBatch_cursors, Table.one_update_key (move_key (b.tenantId, b.agentId)), hrow]
    simp [SentBatch.moves, SentBatch.move, Table.one_some hrow, hseq, h]
  · simp only [sendBatch]
    rw [show Table.insertOrIgnore _ _ d.cursors = opened b d from rfl, hrow]
    simp [hseq, h]

/-- One that does not changes nothing but the agent's missing row. -/
theorem sendBatch_late (hk : d.Keyed) (h : usageCursor b.tenantId b.agentId d ≠ b.expectedSeq) :
    (sendBatch b d).1 = false ∧
    usageCursor b.tenantId b.agentId (sendBatch b d).2 = usageCursor b.tenantId b.agentId d ∧
    (sendBatch b d).2.hourly = d.hourly ∧ (sendBatch b d).2.daily = d.daily := by
  obtain ⟨row, hrow, hseq⟩ := opened_one (b := b) (d := d)
  refine ⟨(opened_moves hk).trans (decide_eq_false h), ?_, ?_, rfl⟩
  · rw [usageCursor, sendBatch_cursors, Table.one_update_key (move_key (b.tenantId, b.agentId)), hrow]
    simp [SentBatch.moves, hseq, h]
  · simp only [sendBatch]
    rw [show Table.insertOrIgnore _ _ d.cursors = opened b d from rfl, hrow]
    simp [hseq, h]

/-- Another agent's batch leaves the cursor. -/
theorem sendBatch_other (h : ¬(b.tenantId = t ∧ b.agentId = a)) :
    usageCursor t a (sendBatch b d).2 = usageCursor t a d := by
  have hapart : ∀ r, usageCursorKey t a r = true → b.moves r = false := by
    intro r hr
    rw [Bool.eq_false_iff]
    intro hr'
    have he := (usageCursorKey_slot.1 (Bool.and_eq_true_iff.1 hr').1).symm.trans (usageCursorKey_slot.1 hr)
    simp only [Prod.mk.injEq] at he
    exact h he
  have hrow : usageCursorKey t a ⟨b.tenantId, b.agentId, 0⟩ = false := by
    rw [Bool.eq_false_iff]
    intro hr
    have he := usageCursorKey_slot.1 hr
    simp only [UsageCursorRow.slot, Prod.mk.injEq] at he
    exact h he
  rw [usageCursor, sendBatch_cursors, Table.one_update_other (move_key (t, a)) hapart, opened,
    Table.one_insertOrIgnore, hrow, if_neg Bool.false_ne_true, Option.or_none, ite_self]
  rfl

/-- What a batch of rows counts under a kind of unit. -/
def counts (p : BucketKey → Bool) (rows : List OutboxRow) : ℚ := ((rows.filter fun r => p r.bucket).map (·.quantity)).sum

theorem counts_cons (p : BucketKey → Bool) (r : OutboxRow) (rows : List OutboxRow) :
    counts p (r :: rows) = (if p r.bucket then r.quantity else 0) + counts p rows := by
  unfold counts
  rw [List.filter_cons]
  split
  · rw [List.map_cons, List.sum_cons]
  · rw [zero_add]

/-- The rows up to a number are those up to an earlier one and those between. -/
theorem counts_upto (p : BucketKey → Bool) {e m : Nat} (h : e ≤ m) (rows : List OutboxRow) :
    counts p (rows.filter fun r => decide (r.seq ≤ m)) = counts p (rows.filter fun r => decide (r.seq ≤ e)) +
      counts p (rows.filter fun r => decide (e < r.seq) && decide (r.seq ≤ m)) := by
  induction rows with
  | nil => simp [counts]
  | cons r rows ih =>
    by_cases he : r.seq ≤ e
    · have hm : r.seq ≤ m := he.trans h
      simp only [List.filter_cons, he, hm, not_lt.2 he, decide_true, decide_false, Bool.false_and, if_true,
        Bool.false_eq_true, if_false, counts_cons, ih, add_assoc]
    · by_cases hm : r.seq ≤ m
      · simp only [List.filter_cons, he, hm, not_le.1 he, decide_true, decide_false, Bool.true_and, if_true,
          Bool.false_eq_true, if_false, counts_cons, ih]
        rw [add_left_comm]
      · simp only [List.filter_cons, he, hm, decide_false, Bool.and_false, Bool.false_eq_true, if_false, ih]

theorem billed_post (p : BucketKey → Bool) {d d' : UsageD1} {rows : List OutboxRow}
    (hh : d'.hourly = Ledger.post (toHourly rows) d.hourly) (hd : d'.daily = d.daily) :
    billed p d' = billed p d + counts p rows := by
  unfold billed counts
  rw [hh, hd, Ledger.total_post, toHourly, Ledger.total_group]
  exact add_right_comm ..

theorem counts_own (resource : String) (key : Str) (unit : String) (b : SentBatch) :
    counts (ofUnit b.tenantId b.agentId resource key unit) b.own =
      counts (ofUnit b.tenantId b.agentId resource key unit) b.rows := by
  unfold counts SentBatch.own
  rw [List.filter_filter]
  refine congrArg (fun l => (l.map OutboxRow.quantity).sum) (List.filter_congr fun r _ => ?_)
  simp only [ofUnit, OutboxRow.bucket]
  by_cases h : r.tenantId = b.tenantId <;> by_cases h' : r.agentId = b.agentId <;> simp [h, h']

theorem counts_other (resource : String) (key : Str) (unit : String) (h : ¬(b.tenantId = t ∧ b.agentId = a)) :
    counts (ofUnit t a resource key unit) b.own = 0 := by
  unfold counts SentBatch.own
  rw [List.filter_filter, List.filter_eq_nil_iff.2]
  · rfl
  · intro r _
    simp only [ofUnit, OutboxRow.bucket, Bool.and_eq_true, beq_iff_eq]
    rintro ⟨⟨⟨⟨⟨ht, ha⟩, _⟩, _⟩, _⟩, ht', ha'⟩
    exact h ⟨ht'.symm.trans ht, ha'.symm.trans ha⟩

theorem foldDay_billed (t a resource : String) (key : Str) (unit : String) (day : Int) (d : UsageD1) :
    billed (ofUnit t a resource key unit) (foldDay day d).2 = billed (ofUnit t a resource key unit) d := by
  let f := fun k : BucketKey => { k with start := day }
  have hf : ∀ k, inDay day k = true → ofUnit t a resource key unit (f k) = ofUnit t a resource key unit k :=
    fun _ _ => rfl
  exact Ledger.total_move (inDay day) hf d.hourly d.daily

end Batch

/-! ## The invariant -/

/-- How far D1 has counted the object's outbox. -/
def UsageWorld.cursor (t a : String) (w : UsageWorld) : Nat := usageCursor t a w.d1

/-- The rows not yet counted. -/
def UsageWorld.unsent (t a : String) (w : UsageWorld) : List OutboxRow :=
  w.appended.filter fun r => decide (w.cursor t a < r.seq)

/-- The rows counted. -/
def UsageWorld.sentRows (t a : String) (w : UsageWorld) : List OutboxRow :=
  w.appended.filter fun r => decide (r.seq ≤ w.cursor t a)

/-- A batch that may reach D1: it holds every row from the number it expects to its last, or comes too late. -/
structure Sound (t a : String) (b : SentBatch) (w : UsageWorld) : Prop where
  moves : b.expectedSeq < b.through
  below : b.through < w.outbox.nextSeq
  rows : b.expectedSeq < w.cursor t a ∨
    b.rows = w.appended.filter fun r => decide (b.expectedSeq < r.seq) && decide (r.seq ≤ b.through)

/-- What holds of an object and of its ledger in every interleaving. -/
structure Metered (t a : String) (w : UsageWorld) : Prop where
  numbered : w.appended.map (·.seq) = List.range' 1 w.appended.length
  next : w.outbox.nextSeq = w.appended.length + 1
  outbox : ∃ m ≤ w.cursor t a, w.outbox.rows = w.appended.filter fun r => decide (m < r.seq)
  sent : ∀ n, w.sent = some n → n ≤ w.cursor t a
  below : w.cursor t a < w.outbox.nextSeq
  keyed : w.d1.Keyed
  counted : ∀ resource key unit, billed (ofUnit t a resource key unit) w.d1 =
    counts (ofUnit t a resource key unit) (w.sentRows t a)
  flight : ∀ b ∈ w.inFlight, b.tenantId = t → b.agentId = a → Sound t a b w

/-- What a run may rely on: the cursor and the outbox only move on. -/
structure Onward (t a : String) (w w' : UsageWorld) : Prop where
  cursor : w.cursor t a ≤ w'.cursor t a
  next : w.outbox.nextSeq ≤ w'.outbox.nextSeq
  appended : ∃ more, w'.appended = w.appended ++ more ∧ ∀ r ∈ more, w.outbox.nextSeq ≤ r.seq

section Inv

variable {t a : String} {w w' : UsageWorld} {b : SentBatch}

theorem Onward.refl (w : UsageWorld) : Onward t a w w := ⟨le_refl _, le_refl _, [], by simp⟩

theorem Onward.trans {w'' : UsageWorld} (h : Onward t a w w') (h' : Onward t a w' w'') : Onward t a w w'' := by
  obtain ⟨more, happ, hmore⟩ := h.appended
  obtain ⟨more', happ', hmore'⟩ := h'.appended
  refine ⟨h.cursor.trans h'.cursor, h.next.trans h'.next, more ++ more', by rw [happ', happ, List.append_assoc], ?_⟩
  intro r hr
  rcases List.mem_append.1 hr with hr | hr
  · exact hmore r hr
  · exact h.next.trans (hmore' r hr)

/-- Nothing a batch was read from is added to later. -/
theorem Sound.onward (h : Sound t a b w) (ho : Onward t a w w') : Sound t a b w' := by
  obtain ⟨more, happ, hmore⟩ := ho.appended
  refine ⟨h.moves, h.below.trans_le ho.next, ?_⟩
  rcases h.rows with hlate | hrows
  · exact .inl (hlate.trans_le ho.cursor)
  · right
    have hnone : (more.filter fun r => decide (b.expectedSeq < r.seq) && decide (r.seq ≤ b.through)) = [] := by
      refine List.filter_eq_nil_iff.2 fun r hr => ?_
      have hle := hmore r hr
      have hlt := h.below
      simp only [Bool.and_eq_true, decide_eq_true_eq, not_and]
      omega
    rw [happ, List.filter_append, hnone, List.append_nil]
    exact hrows

theorem Metered.sorted (h : Metered t a w) : w.appended.Pairwise fun r r' => r.seq < r'.seq := by
  have hrange := List.pairwise_lt_range' (s := 1) (n := w.appended.length)
  rw [← h.numbered] at hrange
  exact List.pairwise_map.1 hrange

theorem Metered.seq_lt (h : Metered t a w) {r : OutboxRow} (hr : r ∈ w.appended) : r.seq < w.outbox.nextSeq := by
  have hm : r.seq ∈ w.appended.map (·.seq) := List.mem_map_of_mem hr
  rw [h.numbered, List.mem_range'_1] at hm
  rw [h.next]
  omega

/-- A change of the ledger that is a step of its cursor and its sums. -/
theorem Metered.onLedger (h : Metered t a w) {d : UsageD1} (hk : d.Keyed)
    (hc : w.cursor t a ≤ usageCursor t a d) (hb : usageCursor t a d < w.outbox.nextSeq)
    (hcounted : ∀ resource key unit, billed (ofUnit t a resource key unit) d =
      counts (ofUnit t a resource key unit) (w.appended.filter fun r => decide (r.seq ≤ usageCursor t a d))) :
    Metered t a { w with d1 := d } ∧ Onward t a w { w with d1 := d } := by
  have honward : Onward t a w { w with d1 := d } := ⟨hc, le_refl _, [], by simp⟩
  obtain ⟨m, hm, hrows⟩ := h.outbox
  refine ⟨⟨h.numbered, h.next, ⟨m, hm.trans hc, hrows⟩, fun n hn => (h.sent n hn).trans hc, hb, hk, hcounted, ?_⟩,
    honward⟩
  exact fun b hb ht ha => (h.flight b hb ht ha).onward honward

/-- A batch counts its rows with its cursor, or nothing. -/
theorem sendBatch_metered (h : Metered t a w) (hb : b.tenantId = t → b.agentId = a → Sound t a b w) :
    Metered t a { w with d1 := (sendBatch b w.d1).2 } ∧ Onward t a w { w with d1 := (sendBatch b w.d1).2 } := by
  by_cases hown : b.tenantId = t ∧ b.agentId = a
  · obtain ⟨rfl, rfl⟩ := hown
    have hsound := hb rfl rfl
    by_cases he : usageCursor b.tenantId b.agentId w.d1 = b.expectedSeq
    · obtain ⟨_, hcursor, hhourly, hdaily⟩ := sendBatch_counts h.keyed he
      have hrows := hsound.rows.resolve_left (by unfold UsageWorld.cursor; omega)
      refine h.onLedger (sendBatch_keyed h.keyed) ?_ (hcursor ▸ hsound.below) fun resource key unit => ?_
      · have := hsound.moves
        rw [hcursor, UsageWorld.cursor, he]
        omega
      · -- The rows up to the new cursor are those up to the old one and the batch's.
        rw [billed_post _ hhourly hdaily, counts_own, h.counted, hcursor]
        rw [counts_upto _ hsound.moves.le, ← hrows, UsageWorld.sentRows, UsageWorld.cursor, he]
    · obtain ⟨_, hcursor, hhourly, hdaily⟩ := sendBatch_late h.keyed he
      refine h.onLedger (sendBatch_keyed h.keyed) hcursor.ge (hcursor ▸ h.below) fun resource key unit => ?_
      rw [billed, hhourly, hdaily, hcursor]
      exact h.counted resource key unit
  · have hcursor := sendBatch_other hown (d := w.d1)
    refine h.onLedger (sendBatch_keyed h.keyed) hcursor.ge (hcursor ▸ h.below) fun resource key unit => ?_
    rw [hcursor, ← UsageWorld.cursor, ← UsageWorld.sentRows, ← h.counted]
    by_cases he : usageCursor b.tenantId b.agentId w.d1 = b.expectedSeq
    · obtain ⟨_, _, hhourly, hdaily⟩ := sendBatch_counts h.keyed he
      rw [billed_post _ hhourly hdaily, counts_other resource key unit hown, add_zero]
    · obtain ⟨_, _, hhourly, hdaily⟩ := sendBatch_late h.keyed he
      rw [billed, hhourly, hdaily]
      rfl

/-- A fold moves quantities and changes no sum. -/
theorem foldDay_metered (h : Metered t a w) (day : Int) :
    Metered t a { w with d1 := (foldDay day w.d1).2 } ∧ Onward t a w { w with d1 := (foldDay day w.d1).2 } := by
  refine h.onLedger h.keyed (le_refl _) h.below fun resource key unit => ?_
  rw [foldDay_billed]
  exact h.counted resource key unit

end Inv

/-! ## What each statement may do -/

/-- When a statement may be taken: nothing is forgotten, remembered or sent ahead of what D1 has. -/
def MayDo (t a : String) : UsageOp → UsageWorld → Prop
  | .remember seq, w => seq ≤ w.cursor t a
  | .prune seq, w => seq ≤ w.cursor t a
  | .send b, w => b.tenantId = t → b.agentId = a → Sound t a b w
  | _, _ => True

section Statements

variable {t a : String} {w : UsageWorld}

/-- New rows have numbers past every one given. -/
theorem append_metered (h : Metered t a w) (rows : List UsageRow) (fate : D1Fate) :
    Metered t a (usageExec (.append rows) fate w).2 ∧ Onward t a w (usageExec (.append rows) fate w).2 := by
  have hseqs := keptRows_seq w.outbox.nextSeq rows
  have hnew : ∀ r ∈ keptRows w.outbox.nextSeq rows, w.outbox.nextSeq ≤ r.seq := by
    intro r hr
    have hm : r.seq ∈ (keptRows w.outbox.nextSeq rows).map (·.seq) := List.mem_map_of_mem hr
    rw [hseqs, List.mem_range'_1] at hm
    exact hm.1
  have honward : Onward t a w (usageExec (.append rows) fate w).2 :=
    ⟨le_refl _, Nat.le_add_right .., _, rfl, hnew⟩
  obtain ⟨m, hm, hrows⟩ := h.outbox
  have hbelow := h.below
  refine ⟨⟨?_, ?_, ⟨m, hm, ?_⟩, h.sent, hbelow.trans_le honward.next, h.keyed, ?_, ?_⟩, honward⟩
  · show (w.appended ++ keptRows w.outbox.nextSeq rows).map (·.seq) =
      List.range' 1 (w.appended ++ keptRows w.outbox.nextSeq rows).length
    rw [List.map_append, h.numbered, hseqs, h.next, List.length_append, Nat.add_comm w.appended.length 1,
      List.range'_append_1]
  · show w.outbox.nextSeq + (keptRows w.outbox.nextSeq rows).length =
      (w.appended ++ keptRows w.outbox.nextSeq rows).length + 1
    rw [List.length_append]
    have := h.next
    omega
  · have hself : ((keptRows w.outbox.nextSeq rows).filter fun r => decide (m < r.seq)) =
        keptRows w.outbox.nextSeq rows := by
      refine List.filter_eq_self.2 fun r hr => ?_
      have := hnew r hr
      simp only [decide_eq_true_eq]
      omega
    show w.outbox.rows ++ _ = (w.appended ++ _).filter _
    rw [List.filter_append, hrows, hself]
  · intro resource key unit
    have hnone : ((keptRows w.outbox.nextSeq rows).filter fun r => decide (r.seq ≤ w.cursor t a)) = [] := by
      refine List.filter_eq_nil_iff.2 fun r hr => ?_
      have := hnew r hr
      simp only [decide_eq_true_eq]
      omega
    have hsent : (usageExec (.append rows) fate w).2.sentRows t a = w.sentRows t a := by
      show (w.appended ++ _).filter (fun r => decide (r.seq ≤ w.cursor t a)) = _
      rw [List.filter_append, hnone, List.append_nil]
      rfl
    rw [hsent]
    exact h.counted resource key unit
  · exact fun b hb ht ha => (h.flight b hb ht ha).onward honward

/-- A statement of the object that touches neither the rows appended nor the ledger. -/
theorem Metered.onObject (h : Metered t a w) (outbox : Outbox) {sent : Option Nat}
    (hnext : outbox.nextSeq = w.outbox.nextSeq)
    (hrows : ∃ m ≤ w.cursor t a, outbox.rows = w.appended.filter fun r => decide (m < r.seq))
    (hsent : ∀ n, sent = some n → n ≤ w.cursor t a) :
    Metered t a { w with outbox := outbox, sent := sent } ∧ Onward t a w { w with outbox := outbox, sent := sent } := by
  have honward : Onward t a w { w with outbox := outbox, sent := sent } := ⟨le_refl _, hnext.ge, [], by simp⟩
  exact ⟨⟨h.numbered, hnext.trans h.next, hrows, hsent, h.below.trans_le hnext.ge, h.keyed, h.counted,
    fun b hb ht ha => (h.flight b hb ht ha).onward honward⟩, honward⟩

theorem prune_metered (h : Metered t a w) {seq : Nat} (hle : seq ≤ w.cursor t a) :
    ∃ m ≤ w.cursor t a, (pruneUsage seq w.outbox).rows = w.appended.filter fun r => decide (m < r.seq) := by
  obtain ⟨m, hm, hrows⟩ := h.outbox
  refine ⟨max m seq, max_le hm hle, ?_⟩
  unfold pruneUsage
  dsimp only
  rw [hrows, List.filter_filter]
  refine List.filter_congr fun r _ => ?_
  rw [Bool.eq_iff_iff]
  simp only [Bool.and_eq_true, Bool.not_eq_true', decide_eq_false_iff_not, decide_eq_true_eq]
  omega

/-- A request applied any number of times keeps what each application does. -/
theorem applyTimes_metered {A : Type} (apply : UsageD1 → A × UsageD1) (h : Metered t a w)
    (hone : ∀ d, Metered t a { w with d1 := d } → Onward t a w { w with d1 := d } →
      Metered t a { w with d1 := (apply d).2 } ∧ Onward t a { w with d1 := d } { w with d1 := (apply d).2 }) (n : Nat) :
    Metered t a { w with d1 := (applyTimes apply n w.d1).2 } ∧
      Onward t a w { w with d1 := (applyTimes apply n w.d1).2 } := by
  induction n with
  | zero => exact ⟨h, .refl w⟩
  | succ n ih =>
    obtain ⟨hm, ho⟩ := ih
    obtain ⟨hm', ho'⟩ := hone _ hm ho
    exact ⟨hm', ho.trans ho'⟩

end Statements

/-- What each statement of a run keeps, and does to the others. -/
theorem exec_metered {t a : String} (o : UsageOp) (fate : D1Fate) (w : UsageWorld) (h : Metered t a w)
    (hmay : MayDo t a o w) : Metered t a (usageExec o fate w).2 ∧ Onward t a w (usageExec o fate w).2 := by
  cases o with
  | append rows => exact append_metered h rows fate
  | readSent => exact ⟨h, .refl w⟩
  | remember seq => exact h.onObject w.outbox rfl h.outbox fun n hn => by cases hn; exact hmay
  | prune seq => exact h.onObject (pruneUsage seq w.outbox) rfl (prune_metered h hmay) h.sent
  | pending => exact ⟨h, .refl w⟩
  | usageCursor => exact ⟨h, .refl w⟩
  | oldDays => exact ⟨h, .refl w⟩
  | send b =>
    have hmany := applyTimes_metered (sendBatch b) h
      (fun d hd ho => sendBatch_metered hd fun ht ha => (hmay ht ha).onward ho) fate.times
    obtain ⟨hm, ho⟩ := hmany
    refine ⟨⟨hm.numbered, hm.next, hm.outbox, hm.sent, hm.below, hm.keyed, hm.counted, ?_⟩, ⟨ho.cursor, ho.next,
      ho.appended⟩⟩
    intro b' hb' ht ha
    have hsound : Sound t a b' { w with d1 := (applyTimes (sendBatch b) fate.times w.d1).2 } := by
      rcases List.mem_append.1 hb' with hb' | hb'
      · exact hm.flight b' hb' ht ha
      · rw [List.mem_singleton] at hb'
        subst hb'
        exact (hmay ht ha).onward ho
    exact ⟨hsound.moves, hsound.below, hsound.rows⟩
  | resend i =>
    simp only [usageExec]
    cases hb : w.inFlight[i]? with
    | none => exact ⟨h, .refl w⟩
    | some b => exact sendBatch_metered h (h.flight b (List.mem_of_getElem? hb))
  | foldDay day => exact applyTimes_metered (foldDay day) h (fun d hd _ => foldDay_metered hd day) fate.times

/-- The discipline of the metering of one object. -/
def meters (t a : String) : Discipline (usageMachine t a) where
  Inv := Metered t a
  rely := Onward t a
  may := MayDo t a
  refl := .refl
  trans := .trans
  acts := exec_metered

/-! ## The runs keep to it -/

section Runs

variable {t a : String} {w : UsageWorld}

/-- The rows a flush reads past a number are all there are up to their last, or the number is behind. -/
theorem pending_sound (h : Metered t a w) {n limit : Nat} (hn : n ≤ w.cursor t a) {last : OutboxRow}
    (hlast : (pendingUsage n limit w.outbox).getLast? = some last) :
    Sound t a ⟨t, a, n, pendingUsage n limit w.outbox⟩ w := by
  have hmem : ∀ r ∈ pendingUsage n limit w.outbox, n < r.seq ∧ r ∈ w.appended := by
    intro r hr
    obtain ⟨m, _, hrows⟩ := h.outbox
    have hr' := List.mem_filter.1 (List.mem_of_mem_take hr)
    rw [hrows] at hr'
    exact ⟨by simpa using hr'.2, (List.mem_filter.1 hr'.1).1⟩
  have hlast' := List.mem_of_getLast? hlast
  have hthrough := le_through ⟨t, a, n, pendingUsage n limit w.outbox⟩
  refine ⟨(hmem last hlast').1.trans_le (hthrough.2 last hlast'), ?_, ?_⟩
  · rcases through_attained ⟨t, a, n, pendingUsage n limit w.outbox⟩ with he | ⟨r, hr, he⟩
    · rw [he]
      exact hn.trans_lt h.below
    · rw [← he]
      exact h.seq_lt (hmem r hr).2
  · by_cases hlt : n < w.cursor t a
    · exact .inl hlt
    · right
      obtain ⟨m, hm, hrows⟩ := h.outbox
      have hpast : (w.outbox.rows.filter fun r => decide (n < r.seq)) =
          w.appended.filter fun r => decide (n < r.seq) := by
        rw [hrows, List.filter_filter]
        refine List.filter_congr fun r _ => ?_
        rw [Bool.eq_iff_iff]
        simp only [Bool.and_eq_true, decide_eq_true_eq]
        omega
      refine (take_eq_filter h.sorted limit ⟨t, a, n, pendingUsage n limit w.outbox⟩ ?_ (List.ne_nil_of_mem hlast')).1
      show pendingUsage n limit w.outbox = _
      rw [pendingUsage, hpast]

theorem answerOf_ok {A : Type} {fate : D1Fate} {last : Option A} {x : A} (h : answerOf fate last = .ok x) :
    last = some x := by
  unfold answerOf at h
  split at h
  · cases h
    rfl
  · cases h

/-- An answer of a batch that says it counted: the cursor has passed its rows. -/
theorem send_answered (h : Metered t a w) {b : SentBatch} (ht : b.tenantId = t) (ha : b.agentId = a)
    (hs : Sound t a b w) {fate : D1Fate} (hans : (usageExec (.send b) fate w).1 = .ok true) :
    b.through ≤ (usageExec (.send b) fate w).2.cursor t a := by
  have hlast := answerOf_ok hans
  show b.through ≤ usageCursor t a (applyTimes (sendBatch b) fate.times w.d1).2
  cases hn : fate.times with
  | zero =>
    rw [hn] at hlast
    cases hlast
  | succ n =>
    rw [hn] at hlast
    have hkeyed := (applyTimes_metered (sendBatch b) h
      (fun d hd ho => sendBatch_metered hd fun _ _ => hs.onward ho) n).1.keyed
    have hanswer : (sendBatch b (applyTimes (sendBatch b) n w.d1).2).1 = true := Option.some.inj hlast
    subst ht ha
    by_cases he : usageCursor b.tenantId b.agentId (applyTimes (sendBatch b) n w.d1).2 = b.expectedSeq
    · exact (sendBatch_counts hkeyed he).2.1.ge
    · rw [(sendBatch_late hkeyed he).1] at hanswer
      cases hanswer

theorem cursor_safe : Safe (meters t a) (fun n w => n ≤ w.cursor t a) (ask (.usageCursor t a) rfl) w := by
  refine Safe.perform_ok (D := meters t a) fun w' _ _ => ⟨trivial, fun fate n w'' hn ho _ => ?_⟩
  have hread := Option.some.inj (answerOf_ok hn)
  rw [← hread]
  exact ho.cursor

theorem remember_safe {n : Nat} (hn : n ≤ w.cursor t a) :
    Safe (meters t a) (fun _ w => n ≤ w.cursor t a) (stmt (.remember n)) w :=
  Safe.perform (D := meters t a) fun _ hr _ => ⟨hn.trans hr.cursor, fun _ _ hr' _ =>
    (hn.trans hr.cursor).trans hr'.cursor⟩

theorem prune_safe {n : Nat} (hn : n ≤ w.cursor t a) :
    Safe (meters t a) (fun _ w => n ≤ w.cursor t a) (stmt (.prune n)) w :=
  Safe.perform (D := meters t a) fun _ hr _ => ⟨hn.trans hr.cursor, fun _ _ hr' _ =>
    (hn.trans hr.cursor).trans hr'.cursor⟩

/-- Rows read past a number already counted are a batch that may be sent. -/
theorem pending_safe {n : Nat} (hn : n ≤ w.cursor t a) (limit : Nat) :
    Safe (meters t a) (fun rows w => ∀ last, rows.getLast? = some last → Sound t a ⟨t, a, n, rows⟩ w)
      (stmt (.pending n limit)) w :=
  Safe.perform (D := meters t a) fun _ hr hI => ⟨trivial, fun _ _ hr' _ _ hlast =>
    (pending_sound hI (hn.trans hr.cursor) hlast).onward hr'⟩

theorem send_safe {n : Nat} {rows : List OutboxRow} (hs : Sound t a ⟨t, a, n, rows⟩ w) {last : OutboxRow}
    (hlast : last ∈ rows) :
    Safe (meters t a) (fun counted w => counted = true → last.seq ≤ w.cursor t a) (sendUsage t a n rows) w := by
  unfold sendUsage
  rw [if_neg (by simpa using List.ne_nil_of_mem hlast)]
  refine Safe.perform_ok (D := meters t a) fun w' hr hI => ⟨fun _ _ => hs.onward hr, ?_⟩
  intro fate counted w'' hans ho _ hcounted
  subst hcounted
  have hthrough := send_answered hI rfl rfl (hs.onward hr) hans
  exact (((le_through ⟨t, a, n, rows⟩).2 last hlast).trans hthrough).trans ho.cursor

theorem flushRows_safe {n : Nat} {rows : List OutboxRow} (hI : Metered t a w)
    (hs : ∀ last, rows.getLast? = some last → Sound t a ⟨t, a, n, rows⟩ w) :
    Safe (meters t a) (fun _ _ => True) (flushRows t a n rows) w := by
  unfold flushRows
  cases hlast : rows.getLast? with
  | none => exact Safe.pure fun _ _ _ => trivial
  | some last =>
    refine Safe.bind (D := meters t a) (send_safe (hs last hlast) (List.mem_of_getLast? hlast)) hI ?_
    intro counted w' hI' hcounted
    refine Safe.bind (D := meters t a) (Q := fun n w => n ≤ w.cursor t a) ?_ hI' ?_
    · cases counted with
      | true => exact Safe.pure fun w'' hr _ => (hcounted rfl).trans hr.cursor
      | false => exact cursor_safe
    · intro n w'' hI'' hn
      refine Safe.bind (D := meters t a) (remember_safe hn) hI'' fun _ w₃ hI₃ hn₃ => ?_
      refine Safe.bind (D := meters t a) (prune_safe hn₃) hI₃ fun _ _ _ _ => ?_
      exact Safe.pure fun _ _ _ => trivial

theorem flush_safe (limit : Nat) (hI : Metered t a w) :
    Safe (meters t a) (fun _ _ => True) (flushUsage t a limit) w := by
  unfold flushUsage
  refine Safe.bind (D := meters t a) (Q := fun known w => ∀ n, known = some n → n ≤ w.cursor t a) ?_ hI ?_
  · refine Safe.perform (D := meters t a) fun w' _ hI' => ⟨trivial, fun _ w'' hr _ n hn => ?_⟩
    exact (hI'.sent n hn).trans hr.cursor
  · intro known w' hI' hknown
    cases known with
    | some n =>
      refine Safe.bind (D := meters t a) (pending_safe (hknown n rfl) limit) hI' fun rows w'' hI'' hs => ?_
      exact flushRows_safe hI'' hs
    | none =>
      refine Safe.bind (D := meters t a) cursor_safe hI' fun n w₂ hI₂ hn₂ => ?_
      refine Safe.bind (D := meters t a) (remember_safe hn₂) hI₂ fun _ w₃ hI₃ hn₃ => ?_
      refine Safe.bind (D := meters t a) (prune_safe hn₃) hI₃ fun _ w₄ hI₄ hn₄ => ?_
      refine Safe.bind (D := meters t a) (pending_safe hn₄ limit) hI₄ fun rows w₅ hI₅ hs => ?_
      exact flushRows_safe hI₅ hs

theorem foldDays_safe (days : List Int) (hI : Metered t a w) :
    Safe (meters t a) (fun _ _ => True) (foldDays days) w := by
  induction days generalizing w with
  | nil => exact Safe.pure fun _ _ _ => trivial
  | cons day rest ih =>
    unfold foldDays
    refine Safe.bind (D := meters t a) (Q := fun _ _ => True) ?_ hI fun _ w' hI' _ => ?_
    · exact Safe.perform_ok (D := meters t a) fun _ _ _ => ⟨trivial, fun _ _ _ _ _ _ => trivial⟩
    · refine Safe.bind (D := meters t a) (ih hI') hI' fun _ _ _ _ => ?_
      exact Safe.pure fun _ _ _ => trivial

theorem fold_safe (now keepDays : Int) (maxDays : Nat) (hI : Metered t a w) :
    Safe (meters t a) (fun _ _ => True) (foldUsage now keepDays maxDays) w := by
  unfold foldUsage
  refine Safe.bind (D := meters t a) (Q := fun _ _ => True) ?_ hI fun days w' hI' _ => ?_
  · exact Safe.perform_ok (D := meters t a) fun _ _ _ => ⟨trivial, fun _ _ _ _ _ _ => trivial⟩
  · refine Safe.bind (D := meters t a) (foldDays_safe days hI') hI' fun _ _ _ _ => ?_
    exact Safe.pure fun _ _ _ => trivial

/-- Whatever is begun keeps to what it may do. -/
theorem usage_safe (r : UsageRequest) (hI : Metered t a w) :
    Safe (meters t a) (fun _ _ => True) (usageProg t a r) w := by
  cases r with
  | append rows =>
    exact Safe.perform (D := meters t a) fun _ _ _ => ⟨trivial, fun _ _ _ _ => trivial⟩
  | flush limit =>
    exact Safe.bind (D := meters t a) (flush_safe limit hI) hI fun _ _ _ _ => Safe.pure fun _ _ _ => trivial
  | fold now keepDays maxDays =>
    exact Safe.bind (D := meters t a) (fold_safe now keepDays maxDays hI) hI fun _ _ _ _ =>
      Safe.pure fun _ _ _ => trivial
  | resend i =>
    exact Safe.perform (D := meters t a) fun _ _ _ => ⟨trivial, fun _ _ _ _ => trivial⟩
  | other b =>
    unfold usageProg
    dsimp only
    split
    · exact Safe.pure fun _ _ _ => trivial
    · rename_i hother
      refine Safe.bind (D := meters t a) (Q := fun _ _ => True) ?_ hI fun _ _ _ _ => Safe.pure fun _ _ _ => trivial
      exact Safe.perform_ok (D := meters t a) fun _ _ _ =>
        ⟨fun ht ha => absurd ⟨ht, ha⟩ hother, fun _ _ _ _ _ _ => trivial⟩

theorem fresh_metered : Metered t a .fresh where
  numbered := rfl
  next := rfl
  outbox := ⟨0, le_refl _, rfl⟩
  sent := nofun
  below := Nat.zero_lt_one
  keyed := Table.unique_nil
  counted := fun _ _ _ => by simp [billed, counts, UsageWorld.sentRows, UsageWorld.fresh, Ledger.total]
  flight := nofun

end Runs

/-- Every world a run comes to is metered. -/
theorem play_metered (t a : String) (turns : List (Turn (usageMachine t a))) :
    Metered t a (play UsageWorld.fresh turns).world :=
  safe_play (D := meters t a) (fun r _ hI => usage_safe r hI) fresh_metered turns

/-! ## Flushes one after another -/

/-- D1 applies a request once and its answer comes back. -/
def answered : D1Fate := ⟨1, true⟩

/-- The `limit` of a flush unless its caller names another. -/
def flushLimit : Nat := 500

/-- One flush that completes, with nothing beside it. -/
def flushAlone (t a : String) (w : UsageWorld) : UsageWorld :=
  ((flushUsage t a flushLimit).alone (fun o => usageExec o answered) w).2

/-- So many of them. -/
def flushes (t a : String) : Nat → UsageWorld → UsageWorld
  | 0, w => w
  | n + 1, w => flushes t a n (flushAlone t a w)

/-- The object's copy of the cursor is missing, or is D1's. -/
def UsageWorld.synced (t a : String) (w : UsageWorld) : Bool := w.sent.all fun n => n == w.cursor t a

section Alone

variable {t a : String} {w : UsageWorld}

/-- The world after a send that is answered, and what the object then forgets. -/
def afterSend (b : SentBatch) (seq : Nat) (w : UsageWorld) : UsageWorld :=
  { w with d1 := (sendBatch b w.d1).2, inFlight := w.inFlight ++ [b], sent := some seq
           outbox := pruneUsage seq w.outbox }

theorem sendUsage_alone {n : Nat} {rows : List OutboxRow} (hne : rows ≠ []) :
    (sendUsage t a n rows).alone (fun o => usageExec o answered) w =
      (.ok (sendBatch ⟨t, a, n, rows⟩ w.d1).1,
        { w with d1 := (sendBatch ⟨t, a, n, rows⟩ w.d1).2, inFlight := w.inFlight ++ [⟨t, a, n, rows⟩] }) := by
  unfold sendUsage
  rw [if_neg (by simpa using hne)]
  rfl

theorem cursorAfter_alone (last : OutboxRow) (counted : Bool) :
    (cursorAfter t a last counted).alone (fun o => usageExec o answered) w =
      (.ok (if counted then last.seq else usageCursor t a w.d1), w) := by
  cases counted <;> rfl

theorem flushRows_alone {n : Nat} {rows : List OutboxRow} {last : OutboxRow} (hlast : rows.getLast? = some last) :
    ((flushRows t a n rows).alone (fun o => usageExec o answered) w).2 = afterSend ⟨t, a, n, rows⟩
      (if (sendBatch ⟨t, a, n, rows⟩ w.d1).1 then last.seq
        else usageCursor t a (sendBatch ⟨t, a, n, rows⟩ w.d1).2) w := by
  have hne : rows ≠ [] := by
    rintro rfl
    cases hlast
  unfold flushRows
  rw [hlast]
  dsimp only
  rw [Prog.alone_bind, sendUsage_alone hne]
  dsimp only
  rw [Prog.alone_bind, cursorAfter_alone]
  rfl

theorem through_last {b : SentBatch} (hs : b.rows.Pairwise fun r r' => r.seq < r'.seq)
    (hgt : ∀ r ∈ b.rows, b.expectedSeq < r.seq) {last : OutboxRow} (hlast : b.rows.getLast? = some last) :
    b.through = last.seq := by
  have hmem := List.mem_of_getLast? hlast
  have hle := (le_through b).2 last hmem
  rcases through_attained b with he | ⟨r, hr, he⟩
  · have := hgt last hmem
    omega
  · obtain ⟨init, hinit⟩ := List.getLast?_eq_some_iff.1 hlast
    rw [hinit] at hs hr
    rcases List.mem_append.1 hr with hr | hr
    · have := (List.pairwise_append.1 hs).2.2 r hr last (by simp)
      omega
    · rw [List.mem_singleton] at hr
      rw [← he, hr]

/-- The rows read past D1's own number are the first of the unsent. -/
theorem pending_unsent (h : Metered t a w) :
    pendingUsage (w.cursor t a) flushLimit w.outbox = (w.unsent t a).take flushLimit := by
  obtain ⟨m, hm, hrows⟩ := h.outbox
  rw [pendingUsage, hrows, List.filter_filter]
  refine congrArg (List.take flushLimit) (List.filter_congr fun r _ => ?_)
  rw [Bool.eq_iff_iff]
  simp only [Bool.and_eq_true, decide_eq_true_eq]
  omega

/-- A flush from D1's own number sends the first of the unsent rows, and leaves the object's copy D1's. -/
theorem flushRows_counts (h : Metered t a w) (hsent : w.sent = some (w.cursor t a)) :
    ((flushRows t a (w.cursor t a) (pendingUsage (w.cursor t a) flushLimit w.outbox)).alone
      (fun o => usageExec o answered) w).2.unsent t a = (w.unsent t a).drop flushLimit ∧
    ((flushRows t a (w.cursor t a) (pendingUsage (w.cursor t a) flushLimit w.outbox)).alone
      (fun o => usageExec o answered) w).2.synced t a = true := by
  have hpending := pending_unsent h
  generalize pendingUsage (w.cursor t a) flushLimit w.outbox = rows at hpending ⊢
  cases hlast : rows.getLast? with
  | none =>
    rw [List.getLast?_eq_none_iff] at hlast
    subst hlast
    have hnil : w.unsent t a = [] := (List.take_eq_nil_iff.1 hpending.symm).resolve_left (by decide)
    refine ⟨?_, ?_⟩
    · show w.unsent t a = _
      rw [hnil, List.drop_nil]
    · show w.synced t a = true
      rw [UsageWorld.synced, hsent]
      simp
  | some last =>
    let b : SentBatch := ⟨t, a, w.cursor t a, rows⟩
    have hne : rows ≠ [] := by
      rintro rfl
      cases hlast
    have hsorted : b.rows.Pairwise fun r r' => r.seq < r'.seq := by
      show rows.Pairwise _
      rw [hpending]
      exact (h.sorted.filter _).take
    have hgt : ∀ r ∈ b.rows, b.expectedSeq < r.seq := by
      intro r hr
      have hr' : r ∈ (w.unsent t a).take flushLimit := hpending ▸ hr
      exact of_decide_eq_true (List.mem_filter.1 (List.mem_of_mem_take hr')).2
    have hthrough := through_last hsorted hgt hlast
    obtain ⟨hcounted, hcursor, _, _⟩ := sendBatch_counts (b := b) h.keyed rfl
    obtain ⟨_, hrest⟩ := take_eq_filter h.sorted flushLimit b hpending hne
    have hafter : (afterSend b last.seq w).cursor t a = b.through := hcursor
    rw [flushRows_alone hlast, if_pos hcounted]
    refine ⟨?_, ?_⟩
    · show (w.appended.filter fun r => decide ((afterSend b last.seq w).cursor t a < r.seq)) = _
      rw [hafter]
      exact hrest.symm
    · show ((some last.seq).all fun n => n == (afterSend b last.seq w).cursor t a) = true
      rw [hafter, hthrough]
      simp

/-- A flush that has its copy of the cursor sends from there. -/
theorem flushAlone_known {n : Nat} (hsent : w.sent = some n) :
    flushAlone t a w = ((flushRows t a n (pendingUsage n flushLimit w.outbox)).alone (fun o => usageExec o answered) w).2 := by
  have hread : (stmt .readSent).alone (fun o => usageExec o answered) w = (.ok (some n), w) := by
    rw [← hsent]
    rfl
  unfold flushAlone flushUsage
  rw [Prog.alone_bind, hread]
  rfl

/-- A flush without one reads the cursor first. -/
theorem flushAlone_unknown {w₁ : UsageWorld} (hsent : w.sent = none)
    (hw : w₁ = { w with sent := some (w.cursor t a), outbox := pruneUsage (w.cursor t a) w.outbox }) :
    flushAlone t a w = ((flushRows t a (w₁.cursor t a) (pendingUsage (w₁.cursor t a) flushLimit w₁.outbox)).alone
      (fun o => usageExec o answered) w₁).2 := by
  have hread : (stmt .readSent).alone (fun o => usageExec o answered) w = (.ok none, w) := by
    rw [← hsent]
    rfl
  subst hw
  unfold flushAlone flushUsage
  rw [Prog.alone_bind, hread]
  rfl

/-- What one completed flush does: it sends the first of the unsent rows, or mends the object's copy of the cursor. -/
theorem flushAlone_cases (h : Metered t a w) :
    Metered t a (flushAlone t a w) ∧
    (w.synced t a = true → (flushAlone t a w).unsent t a = (w.unsent t a).drop flushLimit ∧
      (flushAlone t a w).synced t a = true) ∧
    (w.synced t a = false → flushAlone t a w = w ∧ w.unsent t a = [] ∨
      (flushAlone t a w).unsent t a = w.unsent t a ∧ (flushAlone t a w).synced t a = true) := by
  refine ⟨Safe.alone (D := meters t a) answered h (flush_safe flushLimit h), fun hs => ?_, fun hs => ?_⟩
  · cases hsent : w.sent with
    | some n =>
      have hn : n = w.cursor t a := by simpa [UsageWorld.synced, hsent] using hs
      subst hn
      rw [flushAlone_known hsent]
      exact flushRows_counts h hsent
    | none =>
      let w₁ : UsageWorld := { w with sent := some (w.cursor t a), outbox := pruneUsage (w.cursor t a) w.outbox }
      have hpruned := prune_metered h (le_refl (w.cursor t a))
      have hcopy : ∀ n, some (w.cursor t a) = some n → n ≤ w.cursor t a := fun n hn => by
        cases hn
        exact le_refl _
      have h₁ : Metered t a w₁ :=
        (h.onObject (pruneUsage (w.cursor t a) w.outbox) rfl hpruned hcopy).1
      rw [flushAlone_unknown hsent rfl]
      exact flushRows_counts h₁ rfl
  · cases hsent : w.sent with
    | none => simp [UsageWorld.synced, hsent] at hs
    | some n =>
      have hn : n ≠ w.cursor t a := by simpa [UsageWorld.synced, hsent] using hs
      have hlt : n < w.cursor t a := lt_of_le_of_ne (h.sent n hsent) hn
      rw [flushAlone_known hsent]
      cases hlast : (pendingUsage n flushLimit w.outbox).getLast? with
      | none =>
        rw [List.getLast?_eq_none_iff] at hlast
        refine .inl ⟨by rw [hlast]; rfl, ?_⟩
        have hnil := (List.take_eq_nil_iff.1 hlast).resolve_left (by decide)
        obtain ⟨m, hm, hrows⟩ := h.outbox
        refine List.filter_eq_nil_iff.2 fun r hr hgt => ?_
        have hgt' := of_decide_eq_true hgt
        have hkept : r ∈ w.outbox.rows := by
          rw [hrows]
          exact List.mem_filter.2 ⟨hr, by simp only [decide_eq_true_eq]; omega⟩
        have := List.filter_eq_nil_iff.1 hnil r hkept
        simp only [decide_eq_true_eq] at this
        omega
      | some last =>
        right
        let b : SentBatch := ⟨t, a, n, pendingUsage n flushLimit w.outbox⟩
        obtain ⟨hlate, hcursor, _, _⟩ := sendBatch_late (b := b) h.keyed (Ne.symm hn)
        have hafter : ∀ e, (afterSend b e w).cursor t a = w.cursor t a := fun _ => hcursor
        rw [flushRows_alone hlast, if_neg (by rw [hlate]; exact Bool.false_ne_true)]
        refine ⟨?_, ?_⟩
        · show (w.appended.filter fun r => decide ((afterSend b _ w).cursor t a < r.seq)) = _
          rw [hafter]
          rfl
        · show ((some (usageCursor t a (sendBatch b w.d1).2)).all fun e => e == (afterSend b _ w).cursor t a) = true
          simp [UsageWorld.cursor, afterSend]

theorem flushes_synced (h : Metered t a w) (hs : w.synced t a = true) {k : Nat}
    (hk : (w.unsent t a).length ≤ flushLimit * k) : (flushes t a k w).unsent t a = [] := by
  induction k generalizing w with
  | zero => exact List.eq_nil_of_length_eq_zero (Nat.le_zero.1 hk)
  | succ k ih =>
    obtain ⟨h', hsynced, _⟩ := flushAlone_cases h
    obtain ⟨hunsent, hs'⟩ := hsynced hs
    refine ih h' hs' ?_
    rw [hunsent, List.length_drop]
    have : flushLimit * (k + 1) = flushLimit * k + flushLimit := Nat.mul_succ ..
    omega

/-- One flush for every 500 unsent rows sends them, and one more first where the object's copy is behind. -/
theorem flushes_send (h : Metered t a w) {k : Nat} (hk : (w.unsent t a).length ≤ flushLimit * k) :
    (flushes t a (if w.synced t a then k else k + 1) w).unsent t a = [] := by
  cases hs : w.synced t a with
  | true => exact flushes_synced h hs hk
  | false =>
    obtain ⟨h', _, hmend⟩ := flushAlone_cases h
    rcases hmend hs with ⟨hsame, hnil⟩ | ⟨hunsent, hs'⟩
    · have hstay : ∀ n, flushes t a n w = w := by
        intro n
        induction n with
        | zero => rfl
        | succ n ih =>
          show flushes t a n (flushAlone t a w) = w
          rw [hsame, ih]
      rw [hstay]
      exact hnil
    · exact flushes_synced h' hs' (hunsent ▸ hk)

end Alone

/-- In every interleaving of appends, flushes, folds and repeated batches: the ledger holds, of each kind of unit, what
the rows up to D1's cursor say; every row past it is still in the outbox; and once nothing else runs, one flush for
every 500 unsent rows, and one more where the object's copy of the cursor is behind D1's, leaves none unsent. -/
theorem metered_once (t a : String) (turns : List (Turn (usageMachine t a))) :
    let w := (play UsageWorld.fresh turns).world
    (∀ resource key unit, billed (ofUnit t a resource key unit) w.d1 =
      counts (ofUnit t a resource key unit) (w.sentRows t a)) ∧
    (∀ r ∈ w.unsent t a, r ∈ w.outbox.rows) ∧
    ∀ k, (w.unsent t a).length ≤ flushLimit * k →
      (flushes t a (if w.synced t a then k else k + 1) w).unsent t a = [] := by
  intro w
  have h : Metered t a w := play_metered t a turns
  refine ⟨h.counted, fun r hr => ?_, fun k hk => flushes_send h hk⟩
  obtain ⟨m, hm, hrows⟩ := h.outbox
  obtain ⟨hmem, hgt⟩ := List.mem_filter.1 hr
  rw [hrows]
  refine List.mem_filter.2 ⟨hmem, ?_⟩
  simp only [decide_eq_true_eq] at hgt ⊢
  omega

/-- One call of a tool. -/
def oneCall (at_ : ℚ) : UsageRow := ⟨at_, "acme", "a1", "tool.call", Js.js "web.search", some 1, "calls"⟩

/-- A row sent whose answer is lost, and another appended after. -/
def lostTurns : List (Turn (usageMachine "acme" "a1")) :=
  [.start (.append [oneCall 1]), .step 0 answered, .start (.flush flushLimit), .step 1 answered, .step 1 answered,
    .step 1 answered, .step 1 answered, .step 1 answered, .step 1 ⟨1, false⟩, .start (.append [oneCall 2]),
    .step 2 answered]

/-- The flush that completes for the one unsent row only mends the object's copy of the cursor. -/
theorem lost_answer_costs_a_flush :
    let w := (play UsageWorld.fresh lostTurns).world
    (w.unsent "acme" "a1").length ≤ flushLimit * 1 ∧ (flushes "acme" "a1" 1 w).unsent "acme" "a1" ≠ [] := by
  decide

end Usage
end Antiproton
