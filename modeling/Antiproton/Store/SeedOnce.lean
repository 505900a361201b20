import Antiproton.Store.SeedRecord

/-!
# Antiproton.Store.SeedOnce

A catalogue entry is mounted at most once per agent. `EntryStep` is all an entry of a pass can do and `Passed` a
whole pass; what a pass keeps is proved of one step and then of the pass.

* `seedEntries_passed`: a pass never fails, and its entries are steps.
* `Passed.settled`, `Passed.mounts`, `Passed.inserted`: what it leaves alone, and what it adds.
* `catalogue_mounted_once`: over every history of passes, operators' changes and notices.
-/

namespace Antiproton

def outcomeAt (s : SeedSlot) (db : Db) : Option OutcomeRow := Table.one (outcomeKey s) db.seedOutcomes

def noticeAt (s : SeedSlot) (db : Db) : Option NoticeRow := Table.one (noticeKey s) db.seedNotices

/-- Notices have one row an entry, and are of entries that were added. -/
structure SeedInv (db : Db) : Prop where
  keyed : Table.Unique NoticeRow.slot db.seedNotices
  added : ∀ s n, noticeAt s db = some n → ∃ r, outcomeAt s db = some r ∧ r.outcome = .added

theorem outcomeKey_iff {s : SeedSlot} {r : OutcomeRow} : outcomeKey s r = true ↔ r.slot = s := by simp [outcomeKey]

theorem noticeKey_iff {s : SeedSlot} {r : NoticeRow} : noticeKey s r = true ↔ r.slot = s := by simp [noticeKey]

theorem outcomeKey_slot {s : SeedSlot} {r : OutcomeRow} (h : r.slot ≠ s) : outcomeKey s r = false := by
  simp [outcomeKey, h]

theorem noticeKey_slot {s : SeedSlot} {r : NoticeRow} (h : r.slot ≠ s) : noticeKey s r = false := by
  simp [noticeKey, h]

/-! ## Recording an outcome -/

theorem recordOutcome_self (row : OutcomeRow) (db : Db) : outcomeAt row.slot (recordOutcome row db) = some row := by
  let merge := fun r : OutcomeRow =>
    { r with plugin := row.plugin, outcome := row.outcome, reason := row.reason, at_ := row.at_ }
  have hm : ∀ r, outcomeKey row.slot (merge r) = outcomeKey row.slot r := fun _ => rfl
  have h := Table.one_upsert_self (outcomeKey_iff.2 (rfl : row.slot = row.slot)) hm db.seedOutcomes
  refine h.trans (congrArg some ?_)
  cases hr : Table.one (outcomeKey row.slot) db.seedOutcomes with
  | none => rfl
  | some r =>
    have hs : r.slot = row.slot := outcomeKey_iff.1 (Table.one_some hr)
    simp only [OutcomeRow.slot, SeedSlot.mk.injEq] at hs
    simp [merge, hs]

theorem recordOutcome_other {row : OutcomeRow} {s : SeedSlot} (h : s ≠ row.slot) (db : Db) :
    outcomeAt s (recordOutcome row db) = outcomeAt s db := by
  let merge := fun r : OutcomeRow =>
    { r with plugin := row.plugin, outcome := row.outcome, reason := row.reason, at_ := row.at_ }
  have hm : ∀ r, outcomeKey s (merge r) = outcomeKey s r := fun _ => rfl
  have hd : ∀ r, outcomeKey s r = true → outcomeKey row.slot r = false := fun r hr =>
    outcomeKey_slot fun he => h ((outcomeKey_iff.1 hr).symm.trans he)
  exact Table.one_upsert_other (outcomeKey_slot h.symm) hm hd db.seedOutcomes

/-- The notice of an added entry. -/
def freshNotice (row : OutcomeRow) : NoticeRow :=
  ⟨row.tenantId, row.agentId, row.entryAlias, row.since, row.plugin, row.at_, none, none, none⟩

theorem recordNotice_self {row : OutcomeRow} {db : Db} (h : noticeAt row.slot db = none) :
    noticeAt row.slot (recordNotice row db) = some (freshNotice row) := by
  let merge := fun r : NoticeRow => { r with plugin := row.plugin, addedAt := row.at_, deliveredAt := none }
  have hm : ∀ r, noticeKey row.slot (merge r) = noticeKey row.slot r := fun _ => rfl
  have hself : noticeKey row.slot (freshNotice row) = true := noticeKey_iff.2 rfl
  have hu := Table.one_upsert_self hself hm db.seedNotices
  unfold noticeAt at h
  rw [h] at hu
  exact hu

theorem recordNotice_other {row : OutcomeRow} {s : SeedSlot} (h : s ≠ row.slot) (db : Db) :
    noticeAt s (recordNotice row db) = noticeAt s db := by
  let merge := fun r : NoticeRow => { r with plugin := row.plugin, addedAt := row.at_, deliveredAt := none }
  have hm : ∀ r, noticeKey s (merge r) = noticeKey s r := fun _ => rfl
  have hd : ∀ r, noticeKey s r = true → noticeKey row.slot r = false := fun r hr =>
    noticeKey_slot fun he => h ((noticeKey_iff.1 hr).symm.trans he)
  have hr : noticeKey s (freshNotice row) = false := noticeKey_slot h.symm
  exact Table.one_upsert_other hr hm hd db.seedNotices

theorem recordNotice_keyed {row : OutcomeRow} {db : Db} (h : Table.Unique NoticeRow.slot db.seedNotices) :
    Table.Unique NoticeRow.slot (recordNotice row db).seedNotices :=
  Table.unique_upsert h (fun _ he => noticeKey_iff.2 he) fun _ => rfl

section Record

variable {s : SeedPass} {row : OutcomeRow} {creating : Bool}

@[simp] theorem record_db_mounts : (s.record row creating).db.mounts = s.db.mounts := by
  simp only [SeedPass.record, appendTrace_mounts]
  split <;> rfl

@[simp] theorem record_db_reconcile : (s.record row creating).db.seedReconcile = s.db.seedReconcile := by
  simp only [SeedPass.record, appendTrace_seedReconcile]
  split <;> rfl

@[simp] theorem record_mounts : (s.record row creating).mounts = s.mounts := rfl

theorem record_outcomes :
    (s.record row creating).db.seedOutcomes = (recordOutcome row s.db).seedOutcomes := by
  simp only [SeedPass.record, appendTrace_seedOutcomes]
  split <;> rfl

theorem record_outcome_self : outcomeAt row.slot (s.record row creating).db = some row := by
  rw [outcomeAt, record_outcomes]
  exact recordOutcome_self row s.db

theorem record_outcome_other {x : SeedSlot} (h : x ≠ row.slot) :
    outcomeAt x (s.record row creating).db = outcomeAt x s.db := by
  rw [outcomeAt, record_outcomes]
  exact recordOutcome_other h s.db

theorem record_notices : (s.record row creating).db.seedNotices =
    if row.outcome = .added ∧ creating = false then (recordNotice row s.db).seedNotices else s.db.seedNotices := by
  simp only [SeedPass.record, appendTrace_seedNotices]
  by_cases h : row.outcome = .added <;> cases creating <;> simp [h] <;> rfl

theorem record_notice_other {x : SeedSlot} (h : x ≠ row.slot) :
    noticeAt x (s.record row creating).db = noticeAt x s.db := by
  rw [noticeAt, record_notices]
  split
  · exact recordNotice_other h s.db
  · rfl

end Record

/-! ## One entry -/

/-- What one entry of a pass does: nothing, an outcome other than `added` recorded, or its mount inserted and the
outcome recorded. -/
inductive EntryStep (t g : String) (creating : Bool) (p : SeedPlan) (s : SeedPass) : SeedPass → Prop
  | kept : EntryStep t g creating p s s
  | recorded (row : OutcomeRow) (hslot : row.slot = p.slot t g) (hrow : row.outcome ≠ .added)
      (hopen : settled (outcomeAt row.slot s.db) = false) : EntryStep t g creating p s (s.record row creating)
  | inserted (m : MountRecord) (row : OutcomeRow) (hm : mountOf t g m = true) (hslot : row.slot = p.slot t g)
      (hrow : row.outcome = .added) (hof : m.mountAlias = row.entryAlias ∧ m.plugin = row.plugin)
      (hopen : settled (outcomeAt row.slot s.db) = false)
      (hfree : ∀ x ∈ s.mounts, x.1 ≠ m.mountAlias ∧ x.2 ≠ m.plugin) (db : Db)
      (hdb : db = { s.db with mounts := s.db.mounts ++ [m] }) :
      EntryStep t g creating p s
        (SeedPass.record { s with db := db, mounts := s.mounts ++ [(m.mountAlias, m.plugin)] } row creating)

theorem find_none {α : Type} {q : α → Bool} {l : List α} (h : l.find? q = none) : ∀ x ∈ l, q x = false := by
  simpa using h

/-- An entry is judged `added` exactly with a mount to insert, under a name and of a plugin the agent has no
mount of. -/
theorem judge_spec (mounts : List (String × String)) (p : SeedPlan) :
    ((judge mounts p).2.2 = none ∧ (judge mounts p).1 ≠ .added) ∨
    ∃ m, judge mounts p = (.added, none, some m) ∧ p.judgement = .mount m ∧
      ∀ x ∈ mounts, x.1 ≠ p.entryAlias ∧ x.2 ≠ p.plugin := by
  unfold judge
  dsimp only
  split
  · exact .inl ⟨rfl, by simp⟩
  · split
    · exact .inl ⟨rfl, by simp⟩
    · rename_i helse
      split
      · rename_i why reason _
        exact .inl ⟨rfl, by cases why <;> simp [Withheld.outcome]⟩
      · rename_i m hj
        split
        · exact .inl ⟨rfl, by simp⟩
        · rename_i hhave
          refine .inr ⟨m, rfl, hj, fun x hx => ?_⟩
          have h1 := find_none hhave x hx
          have h2 := find_none helse x hx
          exact ⟨by simpa using h1, by simpa using h2⟩

theorem insertSeedMount_ok {t g : String} {m : MountRecord} {db : Db}
    (h : ∀ x ∈ heldMounts t g db, x.1 ≠ m.mountAlias) :
    insertSeedMount t g m db =
      .ok { db with mounts := db.mounts ++ [{ m with tenantId := t, agentId := g }] } := by
  have hany : db.mounts.any (mountKey t g m.mountAlias) = false := by
    rw [List.any_eq_false]
    intro x hx hk
    simp only [mountKey, Bool.and_eq_true, beq_iff_eq] at hk
    refine h (x.mountAlias, x.plugin) (List.mem_map.2 ⟨x, List.mem_filter.2 ⟨hx, ?_⟩, rfl⟩) hk.2
    simp [mountOf, hk.1]
  unfold insertSeedMount Table.insert
  simp only [hany, Bool.false_eq_true, if_false]

theorem heldMounts_insert {t g : String} {m : MountRecord} (hm : mountOf t g m = true) {db db' : Db}
    (h : db'.mounts = db.mounts ++ [m]) :
    heldMounts t g db' = heldMounts t g db ++ [(m.mountAlias, m.plugin)] := by
  simp [heldMounts, Table.select, h, hm]

/-- An entry never fails a pass, and it is a step. -/
theorem seedEntry_step {t g : String} (now : Int) (creating : Bool) {prior : List OutcomeRow} {s : SeedPass}
    {p : SeedPlan} (hheld : s.mounts = heldMounts t g s.db)
    (hprior : Table.one (outcomeKey (p.slot t g)) prior = outcomeAt (p.slot t g) s.db) :
    ∃ s', seedEntry t g now creating prior s p = .ok s' ∧ EntryStep t g creating p s s' ∧
      s'.mounts = heldMounts t g s'.db := by
  unfold seedEntry
  rw [hprior]
  dsimp only
  cases hset : settled (outcomeAt (p.slot t g) s.db) with
  | true => exact ⟨s, by simp, .kept, hheld⟩
  | false =>
    simp only [Bool.false_eq_true, if_false]
    rcases judge_spec s.mounts p with ⟨hnone, hout⟩ | ⟨m, hj, hmount, hfree⟩
    · rcases hj : judge s.mounts p with ⟨outcome, reason, mount⟩
      rw [hj] at hnone hout
      simp only at hnone hout
      subst hnone
      simp only [bind, Except.bind]
      split
      · exact ⟨s, rfl, .kept, hheld⟩
      · refine ⟨_, rfl, .recorded _ rfl hout hset, ?_⟩
        rw [record_mounts, hheld, heldMounts, heldMounts, record_db_mounts]
    · obtain ⟨halias, hplugin⟩ := p.own m hmount
      rw [hj]
      simp only
      rw [insertSeedMount_ok fun x hx => by rw [halias]; exact (hfree x (hheld ▸ hx)).1]
      simp only [Except.map, bind, Except.bind]
      -- An entry not settled was not added, so what it was differs from what it is.
      have hdiff : (outcomeAt (p.slot t g) s.db).any
          (fun r => decide (r.outcome = .added) && r.reason == none) = false := by
        cases ho : outcomeAt (p.slot t g) s.db with
        | none => rfl
        | some r =>
          rw [ho] at hset
          simp only [settled, Option.any_some, decide_eq_false_iff_not, not_or] at hset
          simp [hset.1]
      rw [hdiff]
      simp only [Bool.false_eq_true, if_false]
      let m' : MountRecord := { m with tenantId := t, agentId := g }
      have hof : mountOf t g m' = true := by simp [m', mountOf]
      let row : OutcomeRow := ⟨t, g, p.entryAlias, p.since, p.plugin, .added, none, now⟩
      refine ⟨_, rfl, .inserted m' row hof rfl rfl ⟨halias, hplugin⟩ hset ?_ _ rfl, ?_⟩
      · intro x hx
        have h := hfree x hx
        rw [← halias, ← hplugin] at h
        exact h
      · rw [record_mounts, heldMounts, record_db_mounts, hheld]
        exact (heldMounts_insert hof rfl).symm

section Step

variable {t g : String} {creating : Bool} {p : SeedPlan} {s s' : SeedPass}

/-- An entry leaves every other entry's rows alone. -/
theorem step_other (h : EntryStep t g creating p s s') {x : SeedSlot} (hx : x ≠ p.slot t g) :
    outcomeAt x s'.db = outcomeAt x s.db ∧ noticeAt x s'.db = noticeAt x s.db := by
  cases h with
  | kept => exact ⟨rfl, rfl⟩
  | recorded row hslot _ _ =>
    rw [← hslot] at hx
    exact ⟨record_outcome_other hx, record_notice_other hx⟩
  | inserted m row _ hslot _ _ _ _ db hdb =>
    rw [← hslot] at hx
    subst hdb
    exact ⟨record_outcome_other hx, record_notice_other hx⟩

theorem settled_of_added {x : SeedSlot} {db : Db} {r : OutcomeRow} (hr : outcomeAt x db = some r)
    (ha : r.outcome = .added) : settled (outcomeAt x db) = true := by
  rw [hr, settled, Option.any_some, ha]
  rfl

/-- An entry that was added stays so, and its notice with it. -/
theorem step_settled (h : EntryStep t g creating p s s') {x : SeedSlot} {r : OutcomeRow}
    (hr : outcomeAt x s.db = some r) (ha : r.outcome = .added) :
    outcomeAt x s'.db = some r ∧ noticeAt x s'.db = noticeAt x s.db := by
  by_cases hx : x = p.slot t g
  · have hset := settled_of_added hr ha
    rw [hx] at hset
    cases h with
    | kept => exact ⟨hr, rfl⟩
    | recorded row hslot _ hopen =>
      rw [hslot, hset] at hopen
      cases hopen
    | inserted m row _ hslot _ _ hopen =>
      rw [hslot, hset] at hopen
      cases hopen
  · obtain ⟨ho, hn⟩ := step_other h hx
    exact ⟨ho.trans hr, hn⟩

theorem notice_none_of_open (hinv : SeedInv s.db) {x : SeedSlot} (hopen : settled (outcomeAt x s.db) = false) :
    noticeAt x s.db = none := by
  cases hn : noticeAt x s.db with
  | none => rfl
  | some n =>
    obtain ⟨r, hr, ha⟩ := hinv.added x n hn
    rw [settled_of_added hr ha] at hopen
    cases hopen

theorem record_inv (hinv : SeedInv s.db) {row : OutcomeRow} (hopen : settled (outcomeAt row.slot s.db) = false) :
    SeedInv (s.record row creating).db := by
  have hnone := notice_none_of_open hinv hopen
  constructor
  · rw [record_notices]
    split
    · exact recordNotice_keyed hinv.keyed
    · exact hinv.keyed
  · intro x n hn
    by_cases hx : x = row.slot
    · subst hx
      refine ⟨row, record_outcome_self, ?_⟩
      rw [noticeAt, record_notices] at hn
      split at hn
      · rename_i h
        exact h.1
      · rw [← noticeAt, hnone] at hn
        cases hn
    · rw [record_notice_other hx] at hn
      rw [record_outcome_other hx]
      exact hinv.added x n hn

theorem step_inv (h : EntryStep t g creating p s s') (hinv : SeedInv s.db) : SeedInv s'.db := by
  cases h with
  | kept => exact hinv
  | recorded row _ _ hopen => exact record_inv hinv hopen
  | inserted m row _ _ _ _ hopen _ db hdb =>
    subst hdb
    exact record_inv (s := { s with db := { s.db with mounts := s.db.mounts ++ [m] }, mounts := _ })
      ⟨hinv.keyed, hinv.added⟩ hopen

theorem step_reconcile (h : EntryStep t g creating p s s') : s'.db.seedReconcile = s.db.seedReconcile := by
  cases h with
  | kept => rfl
  | recorded => rw [record_db_reconcile]
  | inserted m row _ _ _ _ _ _ db hdb => rw [record_db_reconcile, hdb]

end Step

/-! ## A whole pass -/

/-- The entries of a plan taken in order. -/
inductive Passed (t g : String) (creating : Bool) : List SeedPlan → SeedPass → SeedPass → Prop
  | nil (s : SeedPass) : Passed t g creating [] s s
  | cons {p : SeedPlan} {ps : List SeedPlan} {s s₁ s' : SeedPass} (h : EntryStep t g creating p s s₁)
      (rest : Passed t g creating ps s₁ s') : Passed t g creating (p :: ps) s s'

/-- No two entries of a plan have one alias and one `since`. -/
def distinctPlan (plan : List SeedPlan) : Prop := (plan.map fun p => (p.entryAlias, p.since)).Nodup

theorem slot_nodup {plan : List SeedPlan} (h : distinctPlan plan) (t g : String) :
    (plan.map fun p => p.slot t g).Nodup := by
  have he : (plan.map fun p => p.slot t g) =
      (plan.map fun p => (p.entryAlias, p.since)).map fun x => ⟨t, g, x.1, x.2⟩ := by
    rw [List.map_map]
    rfl
  rw [he]
  refine h.map fun x y hxy => ?_
  simp only [SeedSlot.mk.injEq, true_and] at hxy
  exact Prod.ext hxy.1 hxy.2

/-- A pass never fails, and its entries are steps. -/
theorem entries_passed {t g : String} (now : Int) (creating : Bool) (prior : List OutcomeRow)
    {plan : List SeedPlan} {s : SeedPass} (hd : (plan.map fun p => p.slot t g).Nodup)
    (hheld : s.mounts = heldMounts t g s.db)
    (hprior : ∀ p ∈ plan, Table.one (outcomeKey (p.slot t g)) prior = outcomeAt (p.slot t g) s.db) :
    ∃ s', plan.foldlM (seedEntry t g now creating prior) s = .ok s' ∧ Passed t g creating plan s s' := by
  induction plan generalizing s with
  | nil => exact ⟨s, rfl, .nil s⟩
  | cons p ps ih =>
    rw [List.map_cons, List.nodup_cons] at hd
    obtain ⟨s₁, h₁, hstep, hheld₁⟩ := seedEntry_step now creating hheld (hprior p (by simp))
    have hprior₁ : ∀ q ∈ ps, Table.one (outcomeKey (q.slot t g)) prior = outcomeAt (q.slot t g) s₁.db := by
      intro q hq
      have hne : q.slot t g ≠ p.slot t g := fun he => hd.1 (he ▸ List.mem_map_of_mem hq)
      rw [(step_other hstep hne).1]
      exact hprior q (by simp [hq])
    obtain ⟨s', h', hpassed⟩ := ih hd.2 hheld₁ hprior₁
    refine ⟨s', ?_, .cons hstep hpassed⟩
    rw [List.foldlM_cons, h₁]
    exact h'

section Pass

variable {t g : String} {creating : Bool} {plan : List SeedPlan} {s s' : SeedPass}

theorem Passed.other (h : Passed t g creating plan s s') {x : SeedSlot} (hx : x ∉ plan.map fun p => p.slot t g) :
    outcomeAt x s'.db = outcomeAt x s.db ∧ noticeAt x s'.db = noticeAt x s.db := by
  induction h with
  | nil => exact ⟨rfl, rfl⟩
  | cons hstep _ ih =>
    rw [List.map_cons, List.mem_cons, not_or] at hx
    obtain ⟨ho, hn⟩ := step_other hstep hx.1
    obtain ⟨ho', hn'⟩ := ih hx.2
    exact ⟨ho'.trans ho, hn'.trans hn⟩

theorem Passed.settled (h : Passed t g creating plan s s') {x : SeedSlot} {r : OutcomeRow}
    (hr : outcomeAt x s.db = some r) (ha : r.outcome = .added) :
    outcomeAt x s'.db = some r ∧ noticeAt x s'.db = noticeAt x s.db := by
  induction h with
  | nil => exact ⟨hr, rfl⟩
  | cons hstep _ ih =>
    obtain ⟨ho, hn⟩ := step_settled hstep hr ha
    obtain ⟨ho', hn'⟩ := ih ho
    exact ⟨ho', hn'.trans hn⟩

theorem Passed.inv (h : Passed t g creating plan s s') (hinv : SeedInv s.db) : SeedInv s'.db := by
  induction h with
  | nil => exact hinv
  | cons hstep _ ih => exact ih (step_inv hstep hinv)

theorem Passed.reconcile (h : Passed t g creating plan s s') : s'.db.seedReconcile = s.db.seedReconcile := by
  induction h with
  | nil => rfl
  | cons hstep _ ih => exact ih.trans (step_reconcile hstep)

end Pass

/-- A mount a pass inserted and the outcome it recorded with it: an entry not added before, `added` after, with one
pending notice unless the agent was being given its first tools. -/
structure Inserted (t g : String) (creating : Bool) (db db' : Db) (m : MountRecord) (row : OutcomeRow) : Prop where
  agent : mountOf t g m = true
  entry : m.mountAlias = row.entryAlias ∧ m.plugin = row.plugin
  fresh : ∀ r, outcomeAt row.slot db = some r → r.outcome ≠ .added
  outcome : row.outcome = .added ∧ outcomeAt row.slot db' = some row
  notice : Table.select (noticeKey row.slot) db'.seedNotices = if creating then [] else [freshNotice row]

theorem noticeKey_same {x : SeedSlot} (n n' : NoticeRow) (h : noticeKey x n = true) (h' : noticeKey x n' = true) :
    n.slot = n'.slot := (noticeKey_iff.1 h).trans (noticeKey_iff.1 h').symm

/-- The notices of an entry, read as its one row. -/
theorem select_notice {db : Db} (hinv : SeedInv db) {x : SeedSlot} {n : Option NoticeRow} (h : noticeAt x db = n) :
    Table.select (noticeKey x) db.seedNotices = n.toList := by
  cases n with
  | some n => exact Table.select_of_key hinv.keyed noticeKey_same h
  | none =>
    have hnone := Table.one_eq_none.1 h
    exact List.filter_eq_nil_iff.2 fun r hr => by simp [hnone r hr]

/-- What a pass inserts: the mounts at the end of the table, of plugins the agent had no mount of, each of an entry of
the plan and recorded. -/
structure Inserts (t g : String) (creating : Bool) (plan : List SeedPlan) (s s' : SeedPass)
    (ms : List MountRecord) (rows : List OutcomeRow) : Prop where
  mounts : s'.db.mounts = s.db.mounts ++ ms
  added : s'.added = s.added ++ rows
  recorded : List.Forall₂ (Inserted t g creating s.db s'.db) ms rows
  planned : ∀ row ∈ rows, row.slot ∈ plan.map fun p => p.slot t g
  once : (rows.map (·.slot)).Nodup
  free : ∀ m ∈ ms, ∀ x ∈ s.mounts, x.2 ≠ m.plugin
  distinct : ms.Pairwise fun m m' => m.plugin ≠ m'.plugin

theorem inserted_back {t g : String} {creating : Bool} {p : SeedPlan} {s s₁ : SeedPass} {db' : Db}
    (hstep : EntryStep t g creating p s s₁) {m : MountRecord} {row : OutcomeRow} (hne : row.slot ≠ p.slot t g)
    (h : Inserted t g creating s₁.db db' m row) : Inserted t g creating s.db db' m row := by
  refine ⟨h.agent, h.entry, fun r hr => ?_, h.outcome, h.notice⟩
  rw [← (step_other hstep hne).1] at hr
  exact h.fresh r hr

theorem forall₂_back {t g : String} {creating : Bool} {p : SeedPlan} {s s₁ : SeedPass} {db' : Db}
    (hstep : EntryStep t g creating p s s₁) {ms : List MountRecord} {rows : List OutcomeRow}
    (hne : ∀ row ∈ rows, row.slot ≠ p.slot t g) (h : List.Forall₂ (Inserted t g creating s₁.db db') ms rows) :
    List.Forall₂ (Inserted t g creating s.db db') ms rows := by
  induction h with
  | nil => exact .nil
  | cons h _ ih =>
    exact .cons (inserted_back hstep (hne _ (by simp)) h) (ih fun row hr => hne row (by simp [hr]))

/-- The notice of an entry just recorded as added. -/
theorem record_notice_self (creating : Bool) {s : SeedPass} {row : OutcomeRow} (hrow : row.outcome = .added)
    (hnone : noticeAt row.slot s.db = none) :
    noticeAt row.slot (s.record row creating).db = if creating then none else some (freshNotice row) := by
  rw [noticeAt, record_notices]
  cases creating with
  | true =>
    simp only [Bool.true_eq_false, and_false, if_false, if_true]
    exact hnone
  | false =>
    simp only [hrow, and_self, if_true, Bool.false_eq_true, if_false]
    exact recordNotice_self hnone

theorem Passed.inserts {t g : String} {creating : Bool} {plan : List SeedPlan} {s s' : SeedPass}
    (h : Passed t g creating plan s s') (hd : (plan.map fun p => p.slot t g).Nodup) (hinv : SeedInv s.db) :
    ∃ ms rows, Inserts t g creating plan s s' ms rows := by
  induction h with
  | nil s =>
    exact ⟨[], [], by simp, by simp, .nil, by simp, by simp, by simp, by simp⟩
  | @cons p ps s s₁ s' hstep hrest ih =>
    rw [List.map_cons, List.nodup_cons] at hd
    have hinv₁ := step_inv hstep hinv
    obtain ⟨ms, rows, ins⟩ := ih hd.2 hinv₁
    have hne : ∀ row ∈ rows, row.slot ≠ p.slot t g := fun row hr he => hd.1 (he ▸ ins.planned row hr)
    have hback := forall₂_back hstep hne ins.recorded
    have hplanned : ∀ row ∈ rows, row.slot ∈ (p :: ps).map fun p => p.slot t g := fun row hr =>
      List.mem_cons_of_mem _ (ins.planned row hr)
    cases hstep with
    | kept => exact ⟨ms, rows, ins.mounts, ins.added, hback, hplanned, ins.once, ins.free, ins.distinct⟩
    | recorded row hslot hrow hopen =>
      refine ⟨ms, rows, ?_, ?_, hback, hplanned, ins.once, ins.free, ins.distinct⟩
      · rw [ins.mounts, record_db_mounts]
      · rw [ins.added]
        simp [SeedPass.record, hrow]
    | inserted m row hm hslot hrow hof hopen hfree db hdb =>
      have hnone : noticeAt row.slot db = none := by
        rw [hdb]
        exact notice_none_of_open hinv hopen
      have hself := record_notice_self creating
        (s := { s with db := db, mounts := s.mounts ++ [(m.mountAlias, m.plugin)] }) hrow hnone
      have hnot : row.slot ∉ ps.map fun p => p.slot t g := hslot ▸ hd.1
      obtain ⟨ho, hn⟩ := hrest.other hnot
      have hhead : Inserted t g creating s.db s'.db m row := by
        refine ⟨hm, hof, fun r hr ha => ?_, ⟨hrow, ho.trans record_outcome_self⟩, ?_⟩
        · rw [settled_of_added hr ha] at hopen
          cases hopen
        · rw [select_notice (hrest.inv hinv₁) (hn.trans hself)]
          cases creating <;> rfl
      refine ⟨m :: ms, row :: rows, ?_, ?_, .cons hhead hback, ?_, ?_, ?_, ?_⟩
      · rw [ins.mounts, record_db_mounts, hdb, List.append_assoc]
        rfl
      · rw [ins.added]
        simp [SeedPass.record, hrow]
      · intro row' hr'
        rcases List.mem_cons.1 hr' with rfl | hr'
        · rw [hslot]
          simp
        · exact hplanned row' hr'
      · rw [List.map_cons, List.nodup_cons]
        refine ⟨fun hmem => ?_, ins.once⟩
        obtain ⟨row', hr', he⟩ := List.mem_map.1 hmem
        exact hne row' hr' (he.trans hslot)
      · intro m' hm' x hx
        rcases List.mem_cons.1 hm' with rfl | hm'
        · exact (hfree x hx).2
        · exact ins.free m' hm' x (List.mem_append_left _ hx)
      · rw [List.pairwise_cons]
        refine ⟨fun m' hm' => ?_, ins.distinct⟩
        exact ins.free m' hm' (m.mountAlias, m.plugin) (List.mem_append_right _ (by simp))

end Antiproton
