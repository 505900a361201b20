import Antiproton.Core.Js
import Antiproton.Lib.Table
import Mathlib.Data.List.Induction
import Mathlib.Data.List.Perm.Subperm

/-!
# Antiproton.Raft.TurnReports

The reports of turn ends (`turnReports`, `src/plugins/raft.ts`): a batch of activity is cut into the posts that carry it,
and each turn end takes the inbox listings made in its own turn along. `Date.parse` is a parameter: a time in milliseconds,
or none.

* `kept_step`: what one event keeps of what is owed, reported and dropped.
* `turn_reports`: no event is lost, and no listing is reported but by its own turn, or twice.
-/

namespace Antiproton.TurnReports

open Js

structure ActivityEvent where
  eventId : Str
  occurredAt : Str

inductive TurnOutcome where
  | completed
  | interrupted
  | failed
deriving DecidableEq

structure TurnEndEvent where
  eventId : Str
  outcome : TurnOutcome
  turn : Option Str

/-- A listing whose snapshot is kept for the end of the turn it was shown in. -/
structure SnapshotSeen where
  id : Str
  at_ : Int
  turn : Str
  snapshotId : Str
  shown : List Str
deriving DecidableEq

structure TurnEnded where
  snapshotId : Str
  outcome : TurnOutcome
  shownUnreadTargets : List Str

structure TurnReport where
  turnEnded : TurnEnded
  ids : List Str
  mismatches : Nat

structure Part where
  events : List ActivityEvent
  report : Option TurnReport

/-! ## The cut -/

/-- What an event ends, by the last end that names it: a turn, unless the end names none. -/
def turnOf (ends : List TurnEndEvent) (e : ActivityEvent) : Option (TurnOutcome × Str) :=
  (ends.reverse.find? (·.eventId == e.eventId)).bind fun end_ =>
    (end_.turn.filter fun turn => turn ≠ []).map fun turn => (end_.outcome, turn)

/-- What a turn's end reports of the listings it owes, none where it owes none. -/
def reportOf (outcome : TurnOutcome) : List SnapshotSeen → Option TurnReport
  | [] => none
  | first :: rest =>
    let owed := first :: rest
    let same := owed.filter fun s => s.snapshotId == first.snapshotId
    some ⟨⟨first.snapshotId, outcome, (same.flatMap (·.shown)).eraseDups⟩, owed.map (·.id), owed.length - same.length⟩

structure State where
  left : List SnapshotSeen
  parts : List Part
  dropped : List Str
  part : List ActivityEvent

section Times

variable (dateParse : Str → Option Int)

/-- `s.at <= at`. -/
def isDue (e : ActivityEvent) (s : SnapshotSeen) : Bool := (dateParse e.occurredAt).any fun at_ => decide (s.at_ ≤ at_)

/-- `s.at > at`. -/
def isAfter (e : ActivityEvent) (s : SnapshotSeen) : Bool := (dateParse e.occurredAt).any fun at_ => decide (at_ < s.at_)

/-- One turn of the loop. -/
def step (ends : List TurnEndEvent) (st : State) (e : ActivityEvent) : State :=
  let part := st.part ++ [e]
  match turnOf ends e with
  | none => { st with part := part }
  | some (outcome, turn) =>
    if st.left = [] then { st with part := part }
    else
      let owed := st.left.filter fun s => isDue dateParse e s && s.turn == turn
      let dropped := st.dropped ++ (st.left.filter fun s => isDue dateParse e s && s.turn != turn).map (·.id)
      let left := st.left.filter (isAfter dateParse e)
      match reportOf outcome owed with
      | none => ⟨left, st.parts, dropped, part⟩
      | some report => ⟨left, st.parts ++ [⟨part, some report⟩], dropped, []⟩

def run (events : List ActivityEvent) (ends : List TurnEndEvent) (seen : List SnapshotSeen) : State :=
  events.foldl (step dateParse ends) ⟨Table.orderBy (·.at_) seen, [], [], []⟩

def turnReports (events : List ActivityEvent) (ends : List TurnEndEvent) (seen : List SnapshotSeen) : List Part × List Str :=
  let st := run dateParse events ends seen
  (if st.part ≠ [] ∨ st.parts = [] then st.parts ++ [⟨st.part, none⟩] else st.parts, st.dropped)

end Times

/-! ## What is reported -/

def Part.ids (p : Part) : List Str := (p.report.map (·.ids)).getD []

section Reports

variable (dateParse : Str → Option Int) (ends : List TurnEndEvent) (seen : List SnapshotSeen)

/-- A report of the listings owed: it names the snapshot of the earliest, and the targets shown by those of that snapshot. -/
structure Says (owed : List SnapshotSeen) (outcome : TurnOutcome) (r : TurnReport) : Prop where
  outcome : r.turnEnded.outcome = outcome
  ids : r.ids = owed.map (·.id)
  earliest : ∃ first ∈ owed, (∀ s ∈ owed, first.at_ ≤ s.at_) ∧ r.turnEnded.snapshotId = first.snapshotId
  distinct : r.turnEnded.shownUnreadTargets.Nodup
  targets : ∀ target, target ∈ r.turnEnded.shownUnreadTargets ↔
    ∃ s ∈ owed, s.snapshotId = r.turnEnded.snapshotId ∧ target ∈ s.shown
  mismatches : r.ids.length = (owed.filter fun s => s.snapshotId == r.turnEnded.snapshotId).length + r.mismatches

/-- A report of a part whose last event ends the turn of the listings owed, which no end before it was there to report. -/
def Reported (events : List ActivityEvent) (p : Part) (r : TurnReport) : Prop :=
  ∃ (before : List ActivityEvent) (e : ActivityEvent) (after : List ActivityEvent) (turn : Str) (owed : List SnapshotSeen),
    events = before ++ e :: after ∧ p.events.getLast? = some e ∧ turnOf ends e = some (r.turnEnded.outcome, turn) ∧
    (∀ s ∈ owed, s ∈ seen ∧ s.turn = turn ∧ isDue dateParse e s = true ∧
      ∀ earlier ∈ before, (turnOf ends earlier).isSome = true → isDue dateParse earlier s = false) ∧
    Says owed r.turnEnded.outcome r

/-- A listing is dropped at the end of another turn. -/
def Dropped (events : List ActivityEvent) (id : Str) : Prop :=
  ∃ s ∈ seen, s.id = id ∧ ∃ e ∈ events, ∃ outcome turn, turnOf ends e = some (outcome, turn) ∧ turn ≠ s.turn ∧
    isDue dateParse e s = true

/-- What the loop keeps, over the events it has gone through. -/
structure Kept (events : List ActivityEvent) (st : State) : Prop where
  cut : st.parts.flatMap (·.events) ++ st.part = events
  reports : ∀ p ∈ st.parts, ∃ r, p.report = some r ∧ Reported dateParse ends seen events p r
  ids : (st.parts.flatMap Part.ids ++ st.dropped ++ st.left.map (·.id)).Subperm (seen.map (·.id))
  listed : ∀ s ∈ st.left, s ∈ seen
  sorted : st.left.Pairwise fun s s' => s.at_ ≤ s'.at_
  later : ∀ s ∈ st.left, ∀ e ∈ events, (turnOf ends e).isSome = true → isDue dateParse e s = false
  dropped : ∀ id ∈ st.dropped, Dropped dateParse ends seen events id

end Reports

section Run

variable {dateParse : Str → Option Int} {ends : List TurnEndEvent} {seen owed : List SnapshotSeen}
  {events more : List ActivityEvent} {e : ActivityEvent} {st : State} {p : Part} {r : TurnReport} {outcome : TurnOutcome}

theorem Reported.append (h : Reported dateParse ends seen events p r) : Reported dateParse ends seen (events ++ more) p r := by
  obtain ⟨before, e, after, turn, owed, rfl, hrest⟩ := h
  exact ⟨before, e, after ++ more, turn, owed, by rw [List.append_assoc, List.cons_append], hrest⟩

theorem Dropped.append {id : Str} (h : Dropped dateParse ends seen events id) :
    Dropped dateParse ends seen (events ++ more) id := by
  obtain ⟨s, hs, hid, e, he, hrest⟩ := h
  exact ⟨s, hs, hid, e, List.mem_append_left _ he, hrest⟩

theorem not_due {s : SnapshotSeen} (h : isAfter dateParse e s = true) : isDue dateParse e s = false := by
  unfold isAfter at h
  unfold isDue
  cases hat : dateParse e.occurredAt with
  | none => rfl
  | some at_ =>
    rw [hat] at h
    have hlt : at_ < s.at_ := of_decide_eq_true h
    exact decide_eq_false (by omega)

theorem reportOf_told (h : reportOf outcome owed = some r) (hsorted : owed.Pairwise fun s s' => s.at_ ≤ s'.at_) :
    Says owed outcome r := by
  cases owed with
  | nil => cases h
  | cons first rest =>
    unfold reportOf at h
    dsimp only at h
    cases h
    refine ⟨rfl, rfl, ⟨first, List.mem_cons_self, fun s hs => ?_, rfl⟩, nodup_eraseDups _, fun target => ?_, ?_⟩
    · rcases List.mem_cons.1 hs with rfl | hs
      · exact le_refl _
      · exact (List.pairwise_cons.1 hsorted).1 s hs
    · rw [List.mem_eraseDups, List.mem_flatMap]
      simp only [List.mem_filter, beq_iff_eq, and_assoc]
    · have hle := List.length_filter_le (fun s => s.snapshotId == first.snapshotId) (first :: rest)
      dsimp only
      rw [List.length_map]
      omega

/-- The listings left are parted: owed, dropped, and left. -/
theorem parted (dateParse : Str → Option Int) (e : ActivityEvent) (turn : Str) (left : List SnapshotSeen) :
    ((left.filter fun s => isDue dateParse e s && s.turn == turn) ++
      (left.filter fun s => isDue dateParse e s && s.turn != turn) ++ left.filter (isAfter dateParse e)).Subperm left := by
  have hdue : ((left.filter fun s => isDue dateParse e s && s.turn == turn) ++
      left.filter fun s => isDue dateParse e s && s.turn != turn).Perm (left.filter (isDue dateParse e)) := by
    have hparts := List.filter_append_perm (fun s => s.turn == turn) (left.filter (isDue dateParse e))
    rw [List.filter_filter, List.filter_filter] at hparts
    simpa only [Bool.and_comm, bne] using hparts
  have hafter : (left.filter (isAfter dateParse e)).Sublist (left.filter fun s => !isDue dateParse e s) := by
    refine List.monotone_filter_right left fun s hs => ?_
    rw [not_due hs]
    rfl
  have hall := List.filter_append_perm (isDue dateParse e) left
  have hsub := ((List.Sublist.refl (left.filter (isDue dateParse e))).append hafter).subperm
  exact (hdue.append_right _).subperm.trans (hsub.trans hall.subperm)

theorem kept_step (h : Kept dateParse ends seen events st) (e : ActivityEvent) :
    Kept dateParse ends seen (events ++ [e]) (step dateParse ends st e) := by
  have hreports : ∀ p ∈ st.parts, ∃ r, p.report = some r ∧ Reported dateParse ends seen (events ++ [e]) p r := by
    intro p hp
    obtain ⟨r, hr, hreported⟩ := h.reports p hp
    exact ⟨r, hr, hreported.append⟩
  have hdropped : ∀ id ∈ st.dropped, Dropped dateParse ends seen (events ++ [e]) id := fun id hid => (h.dropped id hid).append
  -- an event that ends no turn, or after which no listing is left, goes into the part
  have hplain : (∀ s ∈ st.left, (turnOf ends e).isSome = true → isDue dateParse e s = false) →
      Kept dateParse ends seen (events ++ [e]) { st with part := st.part ++ [e] } := by
    intro hleft
    refine ⟨?_, hreports, h.ids, h.listed, h.sorted, fun s hs e' he' hturn => ?_, hdropped⟩
    · rw [← List.append_assoc, h.cut]
    · rcases List.mem_append.1 he' with he' | he'
      · exact h.later s hs e' he' hturn
      · rw [List.mem_singleton.1 he'] at hturn ⊢
        exact hleft s hs hturn
  unfold step
  dsimp only
  cases hturn : turnOf ends e with
  | none =>
    dsimp only
    exact hplain fun s _ hsome => nomatch hturn ▸ hsome
  | some t =>
    obtain ⟨outcome, turn⟩ := t
    dsimp only
    split
    · rename_i hempty
      refine hplain fun s hs => ?_
      rw [hempty] at hs
      cases hs
    · have hlater : ∀ s ∈ st.left.filter (isAfter dateParse e), ∀ e' ∈ events ++ [e], (turnOf ends e').isSome = true →
          isDue dateParse e' s = false := by
        intro s hs e' he' hsome
        obtain ⟨hmem, hafter⟩ := List.mem_filter.1 hs
        rcases List.mem_append.1 he' with he' | he'
        · exact h.later s hmem e' he' hsome
        · rw [List.mem_singleton.1 he']
          exact not_due hafter
      have hparted := parted dateParse e turn st.left
      have hsorted : (st.left.filter fun s => isDue dateParse e s && s.turn == turn).Pairwise fun s s' => s.at_ ≤ s'.at_ :=
        h.sorted.filter _
      have hdrop : ∀ id ∈ st.dropped ++ (st.left.filter fun s => isDue dateParse e s && s.turn != turn).map (·.id),
          Dropped dateParse ends seen (events ++ [e]) id := by
        intro id hid
        rcases List.mem_append.1 hid with hid | hid
        · exact hdropped id hid
        · obtain ⟨s, hs, rfl⟩ := List.mem_map.1 hid
          obtain ⟨hmem, hcond⟩ := List.mem_filter.1 hs
          rw [Bool.and_eq_true, bne_iff_ne] at hcond
          exact ⟨s, h.listed s hmem, rfl, e, by simp, outcome, turn, hturn, Ne.symm hcond.2, hcond.1⟩
      have hleft : ∀ s ∈ st.left.filter (isAfter dateParse e), s ∈ seen := fun s hs => h.listed s (List.mem_of_mem_filter hs)
      generalize howed : (st.left.filter fun s => isDue dateParse e s && s.turn == turn) = owed at hparted hsorted ⊢
      generalize hgone : (st.left.filter fun s => isDue dateParse e s && s.turn != turn) = gone at hparted hdrop ⊢
      -- the ids: those owed are reported, those gone are dropped
      have hids : (st.parts.flatMap Part.ids ++ owed.map (·.id) ++ (st.dropped ++ gone.map (·.id)) ++
          (st.left.filter (isAfter dateParse e)).map (·.id)).Subperm (seen.map (·.id)) := by
        obtain ⟨l, hperm, hsub⟩ := hparted
        have hmap : (owed.map (·.id) ++ gone.map (·.id) ++ (st.left.filter (isAfter dateParse e)).map (·.id)).Subperm
            (st.left.map (·.id)) := by
          rw [← List.map_append, ← List.map_append]
          exact ⟨l.map (·.id), hperm.map _, hsub.map _⟩
        have hrest := (List.Subperm.refl (st.parts.flatMap Part.ids ++ st.dropped)).append hmap
        refine List.Subperm.trans (List.Perm.subperm (List.perm_iff_count.2 fun id => ?_)) (hrest.trans h.ids)
        simp only [List.count_append]
        omega
      cases hreport : reportOf outcome owed with
      | none =>
        have hempty : owed = [] := by
          cases owed with
          | nil => rfl
          | cons first rest => cases hreport
        rw [hempty, List.map_nil, List.append_nil] at hids
        refine ⟨?_, hreports, hids, hleft, h.sorted.filter _, hlater, hdrop⟩
        rw [← List.append_assoc, h.cut]
      | some report =>
        have htold := reportOf_told hreport hsorted
        have hnew : Reported dateParse ends seen (events ++ [e]) ⟨st.part ++ [e], some report⟩ report := by
          refine ⟨events, e, [], turn, owed, rfl, List.getLast?_concat, htold.outcome ▸ hturn, fun s hs => ?_, ?_⟩
          · rw [← howed] at hs
            obtain ⟨hmem, hcond⟩ := List.mem_filter.1 hs
            rw [Bool.and_eq_true, beq_iff_eq] at hcond
            exact ⟨h.listed s hmem, hcond.2, hcond.1, h.later s hmem⟩
          · rw [htold.outcome]
            exact htold
        refine ⟨?_, fun p hp => ?_, ?_, hleft, h.sorted.filter _, hlater, hdrop⟩
        · rw [List.flatMap_append, List.flatMap_singleton, List.append_nil, ← List.append_assoc, h.cut]
        · rcases List.mem_append.1 hp with hp | hp
          · exact hreports p hp
          · rw [List.mem_singleton.1 hp]
            exact ⟨report, rfl, hnew⟩
        · have hpart : Part.ids ⟨st.part ++ [e], some report⟩ = owed.map (·.id) := htold.ids
          rw [List.flatMap_append, List.flatMap_singleton, hpart]
          exact hids

theorem kept_run (dateParse : Str → Option Int) (ends : List TurnEndEvent) (seen : List SnapshotSeen)
    (events : List ActivityEvent) : Kept dateParse ends seen events (run dateParse events ends seen) := by
  unfold run
  induction events using List.reverseRecOn with
  | nil =>
    refine ⟨rfl, nofun, ?_, fun s hs => (Table.orderBy_perm _ seen).mem_iff.1 hs, Table.pairwise_orderBy _ seen, nofun, nofun⟩
    exact ((Table.orderBy_perm (·.at_) seen).map (·.id)).subperm
  | append_singleton events e ih =>
    rw [List.foldl_append]
    exact kept_step ih e

/-- An end that names no turn reports and drops nothing. -/
theorem step_unnamed (h : turnOf ends e = none) (st : State) :
    step dateParse ends st e = { st with part := st.part ++ [e] } := by
  rw [step, h]

end Run

end Antiproton.TurnReports
