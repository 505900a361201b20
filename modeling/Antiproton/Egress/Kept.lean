import Antiproton.Egress.Residue
import Mathlib.Data.List.Infix

/-!
# Antiproton.Egress.Kept

Egress residue is never forgotten while it may still exist, whatever the store fails at.

* `kept_run`: what one statement does to the rows.
* `Traced`: the history is the whole story of the rows, and only statements that a call issues are in it.
* `traced`: so it is after every sequence of calls.
-/

namespace Antiproton.Egress

open Js

/-! ## One statement -/

/-- The statements that calls send. -/
def Issued (calls : List Call) : Statement → Prop
  | .dropResolved before => Call.dropResolved before ∈ calls
  | s => ∃ w, Call.withdraw w ∈ calls ∧ s ∈ w.statements

/-- Rows are resolved by the complete listings of the calls. -/
theorem issued_complete {calls : List Call} {tenantId agentId alias_ ref : Str} {ids : List Str} {at_ : Int}
    (h : Issued calls (.resolveAbsent tenantId agentId alias_ ids at_ ref)) :
    ∃ w, Call.withdraw w ∈ calls ∧ w.tenantId = tenantId ∧ w.agentId = agentId ∧ w.at_ = at_ ∧ w.ref = ref ∧
      ∃ p ∈ w.projects, p.alias_ = alias_ ∧ p.state = .complete ∧ p.ids = ids := by
  obtain ⟨w, hw, hs⟩ := h
  obtain ⟨p, hp, hsp⟩ := List.mem_flatMap.1 hs
  rcases List.mem_append.1 hsp with h | h
  · obtain ⟨f, -, hf⟩ := List.mem_map.1 h
    cases hf
  · split at h
    · rename_i hcomplete
      cases List.mem_singleton.1 h
      exact ⟨w, hw, rfl, rfl, rfl, rfl, p, hp, rfl, hcomplete, rfl⟩
    · cases h

section Statements

variable {rows : List ResidueRow} {r : ResidueRow} {calls : List Call}

theorem unique_run (h : Table.Unique ResidueRow.key rows) (s : Statement) : Table.Unique ResidueRow.key (s.run rows) := by
  cases s with
  | record tenantId agentId alias_ f at_ ref =>
    refine Table.unique_upsert h (fun r' hr' => ?_) fun r' => rfl
    rw [hr', beq_self_eq_true]
  | resolveAbsent tenantId agentId alias_ ids at_ ref => exact Table.unique_update h fun _ => rfl
  | dropResolved before => exact Table.unique_delete h

theorem isStale_open (before : Int) (h : r.resolvedAt = none) : isStale before r = false := by
  rw [isStale, h]
  rfl

/-- The row of a key, in a table. -/
def rowOf (key : Str × Str × Str) (rows : List ResidueRow) : Option ResidueRow := Table.one (fun r => r.key == key) rows

theorem rowOf_eq (h : Table.Unique ResidueRow.key rows) (hr : r ∈ rows) : rowOf r.key rows = some r :=
  Table.one_of_mem h hr (beq_self_eq_true _) fun _ hkey => beq_iff_eq.1 hkey

/-- What one statement that took effect did, of those that the calls send. -/
structure Kept (calls : List Call) (m : Moment) : Prop where
  /-- A row becomes resolved only by a complete listing of the mount it is filed under, and not in it. -/
  resolved : ∀ r ∈ m.before, r.resolvedAt = none → ∀ r' ∈ m.after, r'.key = r.key → r'.resolvedAt ≠ none →
    ∃ w, Call.withdraw w ∈ calls ∧ w.tenantId = r.tenantId ∧ w.agentId = r.agentId ∧
      ∃ p ∈ w.projects, p.alias_ = r.alias_ ∧ p.state = .complete ∧ r.secretId ∉ p.ids ∧
        m.statement = .resolveAbsent w.tenantId w.agentId p.alias_ p.ids w.at_ w.ref
  /-- An open row is never removed. -/
  stays : ∀ r ∈ m.before, r.resolvedAt = none → ∃ r' ∈ m.after, r'.key = r.key
  dropped : ∀ before, m.statement = .dropResolved before → ∀ r ∈ m.before, r.resolvedAt = none → r ∈ m.after
  /-- A secret recorded is open under the box and the mount it was found on. -/
  recorded : ∀ tenantId agentId alias_ f at_ ref, m.statement = .record tenantId agentId alias_ f at_ ref →
    ∃ r', rowOf (tenantId, agentId, f.secretId) m.after = some r' ∧ r'.resolvedAt = none ∧ r'.boxId = f.boxId ∧
      r'.alias_ = alias_ ∧
      match rowOf (tenantId, agentId, f.secretId) m.before with
      | none => r'.firstSeen = at_ ∧ r'.reopenedCount = 0
      | some r => r'.firstSeen = r.firstSeen ∧ r'.reopenedCount = r.reopenedCount + if r.resolvedAt = none then 0 else 1

theorem resolved_run (h : Table.Unique ResidueRow.key rows) {s : Statement} {r' : ResidueRow} (hr : r ∈ rows)
    (hopen : r.resolvedAt = none) (hr' : r' ∈ s.run rows) (hkey : r'.key = r.key) (hresolved : r'.resolvedAt ≠ none) :
    ∃ ids at_ ref, s = .resolveAbsent r.tenantId r.agentId r.alias_ ids at_ ref ∧ r.secretId ∉ ids := by
  have hsame : ∀ r₀ ∈ rows, r₀.key = r.key → r₀ = r := fun r₀ hr₀ hkey₀ => List.inj_on_of_nodup_map h hr₀ hr hkey₀
  cases s with
  | record tenantId agentId alias_ f at_ ref =>
    rcases Table.mem_upsert hr' with hold | rfl | ⟨r₀, -, -, rfl⟩
    · rw [hsame r' hold hkey] at hresolved
      exact absurd hopen hresolved
    · exact absurd rfl hresolved
    · exact absurd rfl hresolved
  | resolveAbsent tenantId agentId alias_ ids at_ ref =>
    obtain ⟨r₀, hr₀, rfl⟩ := Table.mem_update.1 hr'
    have hr₀r : r₀ = r := by
      refine hsame r₀ hr₀ (Eq.trans ?_ hkey)
      split <;> rfl
    subst hr₀r
    split at hresolved
    · rename_i habsent
      simp only [isAbsent, Bool.and_eq_true, beq_iff_eq, Bool.not_eq_true', List.contains_eq_mem,
        decide_eq_false_iff_not] at habsent
      obtain ⟨⟨⟨⟨rfl, rfl⟩, rfl⟩, -⟩, hids⟩ := habsent
      exact ⟨ids, at_, ref, rfl, hids⟩
    · exact absurd hopen hresolved
  | dropResolved before =>
    rw [hsame r' (Table.mem_delete.1 hr').1 hkey] at hresolved
    exact absurd hopen hresolved

theorem stays_run {s : Statement} (hr : r ∈ rows) (hopen : r.resolvedAt = none) : ∃ r' ∈ s.run rows, r'.key = r.key := by
  cases s with
  | record tenantId agentId alias_ f at_ ref =>
    change ∃ r' ∈ Table.upsert _ _ _ rows, _
    unfold Table.upsert
    split
    · refine ⟨_, Table.mem_update.2 ⟨r, hr, rfl⟩, ?_⟩
      split <;> rfl
    · exact ⟨r, List.mem_append_left _ hr, rfl⟩
  | resolveAbsent tenantId agentId alias_ ids at_ ref =>
    refine ⟨_, Table.mem_update.2 ⟨r, hr, rfl⟩, ?_⟩
    split <;> rfl
  | dropResolved before => exact ⟨r, Table.mem_delete.2 ⟨hr, isStale_open before hopen⟩, rfl⟩

theorem kept_run (h : Table.Unique ResidueRow.key rows) {s : Statement} (hs : Issued calls s) :
    Kept calls ⟨s, rows, s.run rows⟩ := by
  refine ⟨fun r hr hopen r' hr' hkey hresolved => ?_, fun r hr hopen => stays_run hr hopen, ?_, ?_⟩
  · obtain ⟨ids, at_, ref, rfl, hids⟩ := resolved_run h hr hopen hr' hkey hresolved
    obtain ⟨w, hw, htenant, hagent, rfl, rfl, p, hp, halias, hcomplete, rfl⟩ := issued_complete hs
    exact ⟨w, hw, htenant, hagent, p, hp, halias, hcomplete, hids, by rw [htenant, hagent, halias]⟩
  · rintro before rfl r hr hopen
    exact Table.mem_delete.2 ⟨hr, isStale_open before hopen⟩
  · rintro tenantId agentId alias_ f at_ ref rfl
    have hone := Table.one_upsert ResidueRow.key ((recorded tenantId agentId alias_ f at_).seenAgain ref) (fun _ => rfl)
      (recorded tenantId agentId alias_ f at_) (tenantId, agentId, f.secretId) rows
    have hkey : (recorded tenantId agentId alias_ f at_).key = (tenantId, agentId, f.secretId) := rfl
    rw [if_pos hkey] at hone
    refine ⟨_, hone, ?_⟩
    change _ ∧ _ ∧ _ ∧ match rowOf (tenantId, agentId, f.secretId) rows with | none => _ | some r => _
    unfold rowOf
    cases Table.one (fun r => r.key == (tenantId, agentId, f.secretId)) rows with
    | none => exact ⟨rfl, rfl, rfl, rfl, rfl⟩
    | some r =>
      refine ⟨rfl, rfl, rfl, rfl, ?_⟩
      change r.reopenedCount + _ = _
      cases r.resolvedAt <;> rfl

end Statements

/-! ## The history -/

/-- The moments lead from some rows to others, and nothing else happened to them. -/
def Follows : List ResidueRow → List Moment → List ResidueRow → Prop
  | rows, [], rows' => rows = rows'
  | rows, m :: moments, rows' => m.before = rows ∧ m.after = m.statement.run rows ∧ Follows m.after moments rows'

structure Traced (issued : Statement → Prop) (db : D1) : Prop where
  follows : Follows [] db.history db.rows
  issued : ∀ m ∈ db.history, issued m.statement

section History

variable {rows rows' : List ResidueRow} {moments : List Moment} {issued issued' : Statement → Prop} {db : D1}
  {s : Statement} {statements : List Statement} {calls : List Call} {w : Withdrawal}

theorem Follows.snoc (h : Follows rows moments rows') (s : Statement) :
    Follows rows (moments ++ [⟨s, rows', s.run rows'⟩]) (s.run rows') := by
  induction moments generalizing rows with
  | nil =>
    cases h
    exact ⟨rfl, rfl, rfl⟩
  | cons m moments ih => exact ⟨h.1, h.2.1, ih h.2.2⟩

theorem Follows.unique (h : Follows rows moments rows') (hu : Table.Unique ResidueRow.key rows) :
    Table.Unique ResidueRow.key rows' := by
  induction moments generalizing rows with
  | nil =>
    cases h
    exact hu
  | cons m moments ih =>
    obtain ⟨-, hafter, hrest⟩ := h
    exact ih hrest (hafter ▸ unique_run hu m.statement)

theorem Follows.kept (h : Follows rows moments rows') (hu : Table.Unique ResidueRow.key rows)
    (hissued : ∀ m ∈ moments, Issued calls m.statement) : ∀ m ∈ moments, Kept calls m := by
  induction moments generalizing rows with
  | nil => exact fun m hm => nomatch hm
  | cons m moments ih =>
    obtain ⟨rfl, hafter, hrest⟩ := h
    have hnext : Table.Unique ResidueRow.key m.after := hafter ▸ unique_run hu m.statement
    intro m' hm'
    rcases List.mem_cons.1 hm' with rfl | hm'
    · have hkept := kept_run hu (hissued m' List.mem_cons_self)
      rwa [← hafter] at hkept
    · exact ih hrest hnext (fun m hm => hissued m (List.mem_cons_of_mem _ hm)) m' hm'

theorem Traced.mono (h : Traced issued db) (himp : ∀ s, issued s → issued' s) : Traced issued' db :=
  ⟨h.follows, fun m hm => himp _ (h.issued m hm)⟩

theorem Traced.apply (h : Traced issued db) (hs : issued s) : Traced issued (db.apply s) := by
  refine ⟨h.follows.snoc s, fun m hm => ?_⟩
  rcases List.mem_append.1 hm with hm | hm
  · exact h.issued m hm
  · rw [List.mem_singleton.1 hm]
    exact hs

theorem Traced.exec (h : Traced issued db) (hs : issued s) : Traced issued (db.exec s).2 := by
  unfold D1.exec
  split
  · exact h.apply hs
  · exact Traced.apply ⟨h.follows, h.issued⟩ hs
  · exact ⟨h.follows, h.issued⟩
  · exact Traced.apply ⟨h.follows, h.issued⟩ hs

theorem Traced.execAll (h : Traced issued db) (hs : ∀ s ∈ statements, issued s) : Traced issued (db.execAll statements).2 := by
  induction statements generalizing db with
  | nil => exact h
  | cons s statements ih =>
    have hnext := h.exec (hs s List.mem_cons_self)
    unfold D1.execAll
    split
    · rename_i db' hdb
      rw [hdb] at hnext
      exact ih hnext fun s' hs' => hs s' (List.mem_cons_of_mem _ hs')
    · rename_i db' hdb
      rwa [hdb] at hnext

theorem Traced.readOpen (h : Traced issued db) (tenantId agentId : Str) :
    Traced issued (db.readOpen tenantId agentId).2 := by
  unfold D1.readOpen
  split <;> exact ⟨h.follows, h.issued⟩

theorem Traced.observe (h : Traced issued db) (hs : ∀ s ∈ w.statements, issued s) : Traced issued (w.observe db).2 := by
  have hall := h.execAll hs
  unfold Withdrawal.observe
  split
  · rename_i db' hdb
    rw [hdb] at hall
    exact hall.readOpen _ _
  · rename_i db' hdb
    rwa [hdb] at hall

/-- A withdrawal sends its own listings' statements, and no drop. -/
theorem statements_issued (hw : Call.withdraw w ∈ calls) (hs : s ∈ w.statements) : Issued calls s := by
  obtain ⟨p, -, hsp⟩ := List.mem_flatMap.1 hs
  cases s with
  | record => exact ⟨w, hw, hs⟩
  | resolveAbsent => exact ⟨w, hw, hs⟩
  | dropResolved before =>
    rcases List.mem_append.1 hsp with h | h
    · obtain ⟨f, -, hf⟩ := List.mem_map.1 h
      cases hf
    · split at h
      · cases List.mem_singleton.1 h
      · cases h

theorem Traced.run (h : Traced (Issued calls) db) (todo : List Call) (hsub : ∀ c ∈ todo, c ∈ calls) :
    Traced (Issued calls) (db.calls todo) := by
  induction todo generalizing db with
  | nil => exact h
  | cons c todo ih =>
    refine ih ?_ fun c' hc' => hsub c' (List.mem_cons_of_mem _ hc')
    have hc := hsub c List.mem_cons_self
    cases c with
    | withdraw w => exact h.observe fun s hs => statements_issued hc hs
    | dropResolved before => exact h.exec hc

theorem traced (outcomes : List Outcome) (calls : List Call) : Traced (Issued calls) ((D1.empty outcomes).calls calls) := by
  have hempty : Traced (Issued calls) (D1.empty outcomes) := ⟨rfl, fun m hm => nomatch hm⟩
  exact hempty.run calls fun _ hc => hc

end History

end Antiproton.Egress
