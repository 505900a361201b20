import Antiproton.Store.DurableObject

/-!
# Antiproton.Store.StateBytes

The bytes of an agent's rows: what each holds, what the total is, and what a write of one row does to both.
`StateRow.size` is what a row should hold, the length of its value's JSON where the value is in the row.

* `stateBytes_eq`: over accounted rows the two sums a write is judged by are the rows' sizes and the row's own.
* `putStateRow_total`: a row written moves the total by its bytes less those it replaces.
* `writeDocument_ok`, `writeDocument_error`: an edit is written exactly when it does not grow the row past the limit.
* `backfillStateBytes_accounted`: the migration accounts for every row, from any table.
-/

namespace Antiproton

/-- What a row's `bytes` says of a value kept in the row; one kept elsewhere is only known by it. -/
def StateRow.size (r : StateRow) : Nat :=
  match r.ref with
  | none => storedBytes (r.value.getD .null)
  | some _ => r.bytes

/-- The primary key of `agent_state`. -/
def StateRow.slot (r : StateRow) : String × String × String := (r.tenantId, r.agentId, r.key)

def Db.StateKeyed (db : Db) : Prop := Table.Unique StateRow.slot db.agentState

/-- Every row kept in its place holds the length of its value's JSON. -/
def Db.Accounted (db : Db) : Prop := ∀ r ∈ db.agentState, r.bytes = r.size

/-- The sizes of an agent's rows together. -/
def storeSize (tenantId agentId : String) (db : Db) : Nat :=
  ((Table.select (stateOf tenantId agentId) db.agentState).map (·.size)).sum

/-- The bytes of one row, `0` where there is none. -/
def rowBytes (tenantId agentId key : String) (db : Db) : Nat :=
  ((Table.one (stateKey tenantId agentId key) db.agentState).map (·.bytes)).getD 0

theorem stateKey_slot (t g k : String) (r : StateRow) : stateKey t g k r = true ↔ r.slot = (t, g, k) := by
  simp [stateKey, StateRow.slot, and_assoc]

theorem stateKey_same {t g k : String} {r r' : StateRow} (h : stateKey t g k r = true)
    (h' : stateKey t g k r' = true) : r.slot = r'.slot := by
  rw [(stateKey_slot t g k r).1 h, (stateKey_slot t g k r').1 h']

/-! ## The sums a write is judged by -/

theorem storeSize_eq {db : Db} (h : db.Accounted) (t g : String) :
    ((Table.select (stateOf t g) db.agentState).map (·.bytes)).sum = storeSize t g db := by
  unfold storeSize
  congr 1
  exact List.map_congr_left fun r hr => h r (List.mem_filter.1 hr).1

theorem stateBytes_own {db : Db} (hk : db.StateKeyed) (t g k : String) :
    (DurableObject.stateBytes t g k db).2 = rowBytes t g k db := by
  unfold DurableObject.stateBytes rowBytes
  dsimp only
  rw [← Table.sum_of_key hk (fun r r' => stateKey_same) (·.bytes), Table.sum_select]
  congr 1
  refine List.map_congr_left fun r _ => ?_
  cases h : stateOf t g r with
  | true => simp only [stateOf] at h; simp [stateKey, h]
  | false => simp only [stateOf] at h; simp [stateKey, h]

theorem stateBytes_eq {db : Db} (hk : db.StateKeyed) (ha : db.Accounted) (t g k : String) :
    DurableObject.stateBytes t g k db = (storeSize t g db, rowBytes t g k db) := by
  rw [← stateBytes_own hk, ← storeSize_eq ha]
  rfl

theorem stateUsage_eq {db : Db} (ha : db.Accounted) (t g : String) :
    (DurableObject.stateUsage t g db).bytes = storeSize t g db := storeSize_eq ha t g

/-- The sum of an agent's rows as one over the whole table. -/
theorem total_eq (t g : String) (rows : List StateRow) :
    ((Table.select (stateOf t g) rows).map (·.bytes)).sum =
      (rows.map fun r => if stateOf t g r then r.bytes else 0).sum := Table.sum_select _ _ _

/-! ## One row written -/

section Put

variable {ctx : Ctx} {t g k : String} {entry : StateEntry} {db : Db}

/-- The row an entry becomes. -/
def StateEntry.row (entry : StateEntry) (t g k : String) (now : Int) : StateRow :=
  ⟨t, g, k, entry.value, entry.ref, entry.bytes, now⟩

theorem StateEntry.row_key (entry : StateEntry) (t g k : String) (now : Int) :
    stateKey t g k (entry.row t g k now) = true := by simp [stateKey, StateEntry.row]

theorem putStateRow_keyed (hk : db.StateKeyed) : (DurableObject.putStateRow ctx t g k entry db).StateKeyed :=
  Table.unique_upsert hk (fun r h => (stateKey_slot t g k r).2 h) fun _ => rfl

theorem putStateRow_accounted (ha : db.Accounted) (he : (entry.row t g k ctx.now).bytes = (entry.row t g k ctx.now).size) :
    (DurableObject.putStateRow ctx t g k entry db).Accounted := by
  intro r hr
  rcases Table.mem_upsert hr with h | h | ⟨r', _, _, h⟩
  · exact ha r h
  · rw [h]; exact he
  · rw [← h]; exact he

theorem putStateRow_row : rowBytes t g k (DurableObject.putStateRow ctx t g k entry db) = entry.bytes := by
  let merge := fun r : StateRow =>
    { r with value := entry.value, ref := entry.ref, bytes := entry.bytes, updatedAt := ctx.now }
  have hm : ∀ r, stateKey t g k (merge r) = stateKey t g k r := fun _ => rfl
  have h : Table.one (stateKey t g k) (DurableObject.putStateRow ctx t g k entry db).agentState =
      some (((Table.one (stateKey t g k) db.agentState).map merge).getD (entry.row t g k ctx.now)) :=
    Table.one_upsert_self (StateEntry.row_key entry t g k ctx.now) hm db.agentState
  rw [rowBytes, h]
  cases Table.one (stateKey t g k) db.agentState <;> rfl

/-- A row written moves the total by its bytes less those it replaces. -/
theorem putStateRow_total (ctx : Ctx) (hk : db.StateKeyed) (ha : db.Accounted)
    (he : (entry.row t g k ctx.now).bytes = (entry.row t g k ctx.now).size) :
    storeSize t g (DurableObject.putStateRow ctx t g k entry db) + rowBytes t g k db =
      storeSize t g db + entry.bytes := by
  let w := fun r : StateRow => if stateOf t g r then r.bytes else 0
  have hof : ∀ r, stateKey t g k r = true → stateOf t g r = true := by
    intro r h
    simp only [stateKey, Bool.and_eq_true] at h
    simp only [stateOf, Bool.and_eq_true]
    exact h.1
  let merge := fun r : StateRow =>
    { r with value := entry.value, ref := entry.ref, bytes := entry.bytes, updatedAt := ctx.now }
  have hmerge : ∀ r, stateKey t g k r = true → w (merge r) = w (entry.row t g k ctx.now) := by
    intro r h
    have h' := hof r h
    simp only [stateOf, Bool.and_eq_true, beq_iff_eq] at h'
    simp [w, merge, stateOf, h', StateEntry.row]
  have hsum := Table.sum_upsert hk (fun r r' => stateKey_same (t := t) (g := g) (k := k)) hmerge
  have hrow : ((Table.one (stateKey t g k) db.agentState).map w).getD 0 = rowBytes t g k db := by
    unfold rowBytes
    cases h : Table.one (stateKey t g k) db.agentState with
    | none => rfl
    | some r => simp [w, hof r (Table.one_some h)]
  have hnew : w (entry.row t g k ctx.now) = entry.bytes := by simp [w, stateOf, StateEntry.row]
  rw [hrow, hnew] at hsum
  rw [← storeSize_eq (putStateRow_accounted ha he), ← storeSize_eq ha, total_eq, total_eq]
  exact hsum

end Put

/-! ## A document edited -/

section Document

variable {ctx : Ctx} {t g k : String} {kept : Str} {max : Nat} {db : Db}

/-- The entry of a document's new text. -/
def documentEntry (kept : Str) : StateEntry := ⟨some (.str kept), none, storedBytes (.str kept)⟩

theorem documentEntry_accounted (kept : Str) (t g k : String) (now : Int) :
    ((documentEntry kept).row t g k now).bytes = ((documentEntry kept).row t g k now).size := rfl

theorem totalRefusal_eq_none {total own next max : Nat} {mountAlias : Option String} :
    totalRefusal total own next max mountAlias = none ↔ next ≤ own ∨ total - own + next ≤ max := by
  unfold totalRefusal
  by_cases h : own < next ∧ max < total - own + next
  · rw [if_pos h]
    exact iff_of_false (by simp) (by omega)
  · rw [if_neg h]
    exact iff_of_true rfl (by omega)

theorem writeDocument_eq (hk : db.StateKeyed) (ha : db.Accounted) :
    DurableObject.writeDocument ctx t g k kept (some max) db =
      match totalRefusal (storeSize t g db) (rowBytes t g k db) (storedBytes (.str kept)) max none with
      | some e => .error e
      | none => .ok (⟨kept.length, storedBytes (.str kept)⟩,
          DurableObject.putStateRow ctx t g k (documentEntry kept) db) := by
  unfold DurableObject.writeDocument
  simp only [Option.bind_some, stateBytes_eq hk ha]
  rfl

end Document

/-! ## The migration -/

/-- `STATE_BYTES_MARKER`. -/
def stateBytesMarker : String := "agent_state_bytes_encoded"

/-- Whether a store's rows have had their `bytes` made `storedBytes`. -/
def Db.marked (db : Db) : Bool := db.counters.any (·.name == stateBytesMarker)

/-- One row of the migration, over the rows so far and how many it changed. -/
def backfillRow (s : Nat × List StateRow) (r : StateRow) : Nat × List StateRow :=
  let bytes := storedBytes (r.value.getD .null)
  if r.bytes = bytes then s
  else (s.1 + 1, Table.update (stateKey r.tenantId r.agentId r.key) (fun x => { x with bytes := bytes }) s.2)

/-- `backfillStateBytes`: how many rows it changed, and the database after. -/
def backfillStateBytes (db : Db) : Nat × Db :=
  if db.marked then (0, db)
  else
    let s := (Table.select (fun r => r.ref.isNone) db.agentState).foldl backfillRow (0, db.agentState)
    (s.1, { db with agentState := s.2, counters := db.counters ++ [⟨stateBytesMarker, 1⟩] })

/-- Midway: the rows not yet come to are as they were, and every other row is accounted. -/
structure Backfilling (pending rows : List StateRow) : Prop where
  keyed : Table.Unique StateRow.slot rows
  distinct : Table.Unique StateRow.slot pending
  there : ∀ r ∈ pending, r ∈ rows
  inline : ∀ r ∈ pending, r.ref = none
  accounted : ∀ r ∈ rows, r.bytes = r.size ∨ r ∈ pending

theorem backfillRow_step {r : StateRow} {pending rows : List StateRow} {n : Nat}
    (h : Backfilling (r :: pending) rows) : Backfilling pending (backfillRow (n, rows) r).2 := by
  obtain ⟨hr, hdistinct⟩ := List.nodup_cons.1 h.distinct
  have hother : ∀ p ∈ pending, p.slot ≠ r.slot := fun p hp he => hr (he ▸ List.mem_map_of_mem hp)
  have hsize : r.size = storedBytes (r.value.getD .null) := by
    rw [StateRow.size, h.inline r (by simp)]
  unfold backfillRow
  dsimp only
  split
  · rename_i hb
    refine ⟨h.keyed, hdistinct, fun p hp => h.there p (by simp [hp]), fun p hp => h.inline p (by simp [hp]), ?_⟩
    intro x hx
    rcases h.accounted x hx with ha | hm
    · exact .inl ha
    · rcases List.mem_cons.1 hm with rfl | hm
      · exact .inl (hb.trans hsize.symm)
      · exact .inr hm
  · refine ⟨Table.unique_update h.keyed fun _ => rfl, hdistinct, ?_, fun p hp => h.inline p (by simp [hp]), ?_⟩
    · intro p hp
      refine Table.mem_update.2 ⟨p, h.there p (by simp [hp]), if_neg fun hc => ?_⟩
      exact hother p hp ((stateKey_slot ..).1 hc)
    · intro x hx
      obtain ⟨x', hx', he⟩ := Table.mem_update.1 hx
      by_cases hc : stateKey r.tenantId r.agentId r.key x' = true
      · have hsame : x' = r := List.inj_on_of_nodup_map h.keyed hx' (h.there r (by simp)) ((stateKey_slot ..).1 hc)
        rw [if_pos hc, hsame] at he
        left
        rw [← he]
        simp only [StateRow.size, h.inline r (by simp)]
      · rw [if_neg hc] at he
        subst he
        rcases h.accounted _ hx' with ha | hm
        · exact .inl ha
        · rcases List.mem_cons.1 hm with he | hm
          · exact absurd ((stateKey_slot ..).2 (by rw [he]; rfl)) hc
          · exact .inr hm

theorem backfillRow_run {pending : List StateRow} {s : Nat × List StateRow} (h : Backfilling pending s.2) :
    Backfilling [] (pending.foldl backfillRow s).2 := by
  induction pending generalizing s with
  | nil => exact h
  | cons r pending ih => exact ih (backfillRow_step h)

theorem backfilling_start {db : Db} (hk : db.StateKeyed) :
    Backfilling (Table.select (fun r => r.ref.isNone) db.agentState) db.agentState where
  keyed := hk
  distinct := hk.sublist (List.filter_sublist.map _)
  there := fun r hr => (List.mem_filter.1 hr).1
  inline := fun r hr => Option.isNone_iff_eq_none.1 (List.mem_filter.1 hr).2
  accounted := by
    intro r hr
    cases href : r.ref with
    | none => exact .inr (List.mem_filter.2 ⟨hr, by simp [href]⟩)
    | some ref => exact .inl (by rw [StateRow.size, href])

theorem backfillStateBytes_marked (db : Db) : (backfillStateBytes db).2.marked = true := by
  unfold backfillStateBytes
  split
  · assumption
  · simp [Db.marked]

theorem backfillStateBytes_again (db : Db) :
    backfillStateBytes (backfillStateBytes db).2 = (0, (backfillStateBytes db).2) := by
  conv_lhs => rw [backfillStateBytes, if_pos (backfillStateBytes_marked db)]

theorem backfillStateBytes_keyed {db : Db} (hk : db.StateKeyed) : (backfillStateBytes db).2.StateKeyed := by
  unfold backfillStateBytes
  split
  · exact hk
  · exact (backfillRow_run (s := (0, db.agentState)) (backfilling_start hk)).keyed

/-- The migration accounts for every row of a store it has not been run on. -/
theorem backfillStateBytes_accounted {db : Db} (hk : db.StateKeyed) (hm : db.marked = true → db.Accounted) :
    (backfillStateBytes db).2.Accounted := by
  unfold backfillStateBytes
  split
  · rename_i h; exact hm h
  · intro r hr
    have h := backfillRow_run (s := (0, db.agentState)) (backfilling_start hk)
    exact (h.accounted r hr).resolve_right (List.not_mem_nil)

end Antiproton
