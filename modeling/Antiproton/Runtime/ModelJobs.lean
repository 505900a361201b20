import Mathlib.Order.Bounds.Basic
import Mathlib.Order.MinMax
import Mathlib.Data.List.Perm.Subperm
import Antiproton.Core.Js
import Antiproton.Lib.History
import Antiproton.Lib.Table

/-!
# Antiproton.Runtime.ModelJobs

The model jobs that are out (`PdHost`, `src/runtime/durable-agent.ts`): the sweep that sends again what nobody carries, and
the instant a parked object comes back for it. A sweep sends twenty at most.

* `sweep_table`: a sweep marks the rows it sent, and nothing else.
* `nextAt_least`: a job that is not due is looked for at the first instant it is.
* `agreed_iff`: the wake and the sweep agree when no more than twenty jobs are due.
* `resent_when_due`: a job nobody takes is tried at the very instant it falls due.
-/

namespace Antiproton.ModelJobs

open Js History

/-! ## The jobs -/

inductive JobState where
  | consumed | cancelled
deriving DecidableEq

structure ModelJob where
  id : Str
  conversationId : Option Int
  request : Str
  answer : Option Str
  createdAt : Int
  dispatchedAt : Option Int
  answeredAt : Option Int
  state : Option JobState
  takenAt : Option Int
  takenBy : Option Str
deriving DecidableEq

/-- A host; its redelivery interval is positive. -/
structure Host where
  bound : Bool
  redeliveryMs : Int
  takeHoldMs : Int
  positive : 0 < redeliveryMs

def REDELIVERY_MS : Int := 120000

def MODEL_CALL_DEADLINE_MS : Int := 10 * 60000

def TAKE_HOLD_MS : Int := MODEL_CALL_DEADLINE_MS + 60000

/-- `answer IS NULL AND state IS NULL`. -/
def outstanding (j : ModelJob) : Bool := j.answer.isNone && j.state.isNone

section Sweep

variable (host : Host)

/-- Nobody is carrying it: never dispatched, or an interval ago, and not under a live take. -/
def due (now : Int) (j : ModelJob) : Bool :=
  outstanding j && j.dispatchedAt.all (· ≤ now - host.redeliveryMs) && j.takenAt.all (· ≤ now - host.takeHoldMs)

def dueJobs (now : Int) (table : List ModelJob) : List ModelJob := Table.select (due host now) table

def SWEEP_LIMIT : Nat := 20

/-- The jobs a sweep tries. -/
def sweepIds (now : Int) (table : List ModelJob) : List Str :=
  if !host.bound then [] else ((Table.orderBy (·.createdAt) (dueJobs host now table)).take SWEEP_LIMIT).map (·.id)

/-- `#dispatch`, whose send came through or not. -/
def dispatch (sent : Bool) (now : Int) (id : Str) (table : List ModelJob) : Bool × List ModelJob :=
  if sent then (true, Table.update (·.id == id) (fun j => { j with dispatchedAt := some now }) table) else (false, table)

def dispatchAll (sends : Str → Bool) (now : Int) : List Str → List ModelJob → Nat × List ModelJob
  | [], table => (0, table)
  | id :: ids, table =>
    let r := dispatch (sends id) now id table
    let rest := dispatchAll sends now ids r.2
    (r.1.toNat + rest.1, rest.2)

def sweep (sends : Str → Bool) (now : Int) (table : List ModelJob) : Nat × List ModelJob :=
  dispatchAll sends now (sweepIds host now table) table

/-- When the sweep must run again for one job. -/
def nextAt (now : Int) (j : ModelJob) : Int :=
  let sentAt := j.dispatchedAt.elim now (· + host.redeliveryMs)
  let freeAt := j.takenAt.elim sentAt fun takenAt => max sentAt (takenAt + host.takeHoldMs)
  if now < freeAt then freeAt else now + host.redeliveryMs

def earliest (due : Option Int) (next : Int) : Option Int := some (due.elim next (min · next))

def redeliveryDue (now : Int) (table : List ModelJob) : Option Int :=
  if !host.bound then none else ((Table.select outstanding table).map (nextAt host now)).foldl earliest none

end Sweep

/-! ## The least of some instants -/

theorem foldl_earliest (l : List Int) (due : Option Int) :
    (l.foldl earliest due = none ↔ due = none ∧ l = []) ∧
      ∀ t, l.foldl earliest due = some t ↔ IsLeast {x | x ∈ due.toList ++ l} t := by
  induction l generalizing due with
  | nil =>
    refine ⟨(and_iff_left rfl).symm, fun t => ?_⟩
    rw [List.foldl_nil, List.append_nil]
    cases due with
    | none => exact ⟨nofun, fun h => absurd h.1 List.not_mem_nil⟩
    | some d =>
      constructor
      · rintro ⟨⟩
        exact ⟨List.mem_singleton.2 rfl, fun x hx => (List.mem_singleton.1 hx).ge⟩
      · exact fun h => congrArg some (List.mem_singleton.1 h.1).symm
  | cons x l ih =>
    rw [List.foldl_cons]
    refine ⟨⟨(fun h => nomatch ((ih _).1.1 h).1), (fun h => nomatch h.2)⟩, fun t => (ih _).2 t |>.trans ?_⟩
    cases due with
    | none => exact Iff.rfl
    | some d =>
      change IsLeast {y | y ∈ min d x :: l} t ↔ IsLeast {y | y ∈ d :: x :: l} t
      simp only [IsLeast, lowerBounds, Set.mem_ofPred_eq, List.mem_cons, forall_eq_or_imp, le_min_iff, and_assoc]
      refine and_congr_left fun hle => ?_
      constructor
      · rintro (rfl | hmem)
        · rcases min_choice d x with hmin | hmin
          · exact .inl hmin
          · exact .inr (.inl hmin)
        · exact .inr (.inr hmem)
      · rintro (rfl | rfl | hmem)
        · exact .inl (min_eq_left hle.2.1).symm
        · exact .inl (min_eq_right hle.1).symm
        · exact .inr hmem

/-! ## One sweep -/

section Sweep

variable {host : Host}

theorem due_iff {now : Int} {j : ModelJob} : due host now j = true ↔ outstanding j = true ∧
    (∀ d ∈ j.dispatchedAt, d + host.redeliveryMs ≤ now) ∧ ∀ k ∈ j.takenAt, k + host.takeHoldMs ≤ now := by
  have hsub : ∀ a b : Int, a ≤ now - b ↔ a + b ≤ now := fun a b => by omega
  unfold due
  simp only [Bool.and_eq_true, Option.all_eq_true, decide_eq_true_eq, and_assoc, hsub, Option.mem_def]

theorem due_later {now later : Int} {j : ModelJob} (h : due host now j = true) (hle : now ≤ later) : due host later j = true := by
  obtain ⟨hopen, hsent, hfree⟩ := due_iff.1 h
  exact due_iff.2 ⟨hopen, fun d hd => (hsent d hd).trans hle, fun k hk => (hfree k hk).trans hle⟩

/-- A job that is not due is looked for at the first instant it is; one that is due, an interval from now. -/
theorem nextAt_least {now : Int} {j : ModelJob} (hopen : outstanding j = true) :
    (due host now j = true → nextAt host now j = now + host.redeliveryMs) ∧
      (due host now j = false → IsLeast {t | now < t ∧ due host t j = true} (nextAt host now j)) := by
  have hdue : ∀ t, due host t j = true ↔
      (∀ d ∈ j.dispatchedAt, d + host.redeliveryMs ≤ t) ∧ ∀ k ∈ j.takenAt, k + host.takeHoldMs ≤ t :=
    fun t => due_iff.trans (and_iff_right hopen)
  have hfree : ∀ t, now ≤ t → (due host t j = true ↔ (j.takenAt.elim (j.dispatchedAt.elim now (· + host.redeliveryMs)) fun k =>
      max (j.dispatchedAt.elim now (· + host.redeliveryMs)) (k + host.takeHoldMs)) ≤ t) := by
    intro t hle
    rw [hdue]
    cases j.dispatchedAt <;> cases j.takenAt <;> simp [hle]
  unfold nextAt
  dsimp only
  constructor
  · intro h
    rw [if_neg (not_lt_of_ge ((hfree now le_rfl).1 h))]
  · intro h
    have hlt := lt_of_not_ge fun hle => Bool.eq_false_iff.1 h ((hfree now le_rfl).2 hle)
    rw [if_pos hlt]
    exact ⟨⟨hlt, (hfree _ hlt.le).2 le_rfl⟩, fun t ht => (hfree t ht.1.le).1 ht.2⟩

/-- A row after a sweep that tried some jobs. -/
def swept (sends : Str → Bool) (now : Int) (ids : List Str) (j : ModelJob) : ModelJob :=
  if j.id ∈ ids ∧ sends j.id = true then { j with dispatchedAt := some now } else j

theorem swept_id (sends : Str → Bool) (now : Int) (ids : List Str) (j : ModelJob) : (swept sends now ids j).id = j.id := by
  unfold swept
  split <;> rfl

/-- A sweep marks the rows it sent, and nothing else. -/
theorem dispatchAll_table (sends : Str → Bool) (now : Int) (ids : List Str) (table : List ModelJob) :
    (dispatchAll sends now ids table).2 = table.map (swept sends now ids) := by
  induction ids generalizing table with
  | nil =>
    have hsame : swept sends now [] = id := funext fun j => if_neg fun h => List.not_mem_nil h.1
    rw [hsame, List.map_id]
    rfl
  | cons id ids ih =>
    rw [dispatchAll]
    dsimp only
    rw [ih]
    unfold dispatch
    split
    · next hsent =>
      dsimp only
      rw [Table.update, List.map_map]
      refine List.map_congr_left fun j _ => ?_
      by_cases hid : j.id = id
      · subst hid
        rw [Function.comp_apply, if_pos (beq_self_eq_true j.id), swept, swept,
          if_pos (c := j.id ∈ j.id :: ids ∧ sends j.id = true) ⟨List.mem_cons_self, hsent⟩]
        exact ite_self _
      · rw [Function.comp_apply, if_neg (fun h => hid (eq_of_beq h)), swept, swept]
        simp only [List.mem_cons, hid, false_or]
    · next hsent =>
      refine List.map_congr_left fun j _ => ?_
      by_cases hid : j.id = id
      · subst hid
        rw [swept, swept, if_neg fun h => hsent h.2, if_neg fun h => hsent h.2]
      · rw [swept, swept]
        simp only [List.mem_cons, hid, false_or]

theorem sweep_table (sends : Str → Bool) (now : Int) (table : List ModelJob) :
    (sweep host sends now table).2 = table.map (swept sends now (sweepIds host now table)) := dispatchAll_table ..

theorem mem_dueJobs {now : Int} {table : List ModelJob} {j : ModelJob} :
    j ∈ dueJobs host now table ↔ j ∈ table ∧ due host now j = true := List.mem_filter

theorem mem_sweepIds {now : Int} {table : List ModelJob} {id : Str} (h : id ∈ sweepIds host now table) :
    ∃ j ∈ dueJobs host now table, j.id = id := by
  unfold sweepIds at h
  split at h
  · cases h
  · obtain ⟨j, hj, heq⟩ := List.mem_map.1 h
    exact ⟨j, (Table.orderBy_perm _ _).mem_iff.1 (List.mem_of_mem_take hj), heq⟩

/-- With no more than the limit due, a sweep tries every job that is due. -/
theorem tried_of_room {now : Int} {table : List ModelJob} (hbound : host.bound = true)
    (hroom : (dueJobs host now table).length ≤ SWEEP_LIMIT) {j : ModelJob} (hj : j ∈ dueJobs host now table) :
    j.id ∈ sweepIds host now table := by
  have hperm := Table.orderBy_perm (fun j : ModelJob => j.createdAt) (dueJobs host now table)
  rw [sweepIds, hbound, Bool.not_true, if_neg Bool.false_ne_true, List.take_of_length_le (by rw [hperm.length_eq]; exact hroom)]
  exact List.mem_map_of_mem (hperm.mem_iff.2 hj)

/-- Where a sweep tries every job that is due, no more than the limit are. -/
theorem room_of_tried {now : Int} {table : List ModelJob} (hunique : Table.Unique (·.id) table)
    (h : ∀ j ∈ dueJobs host now table, j.id ∈ sweepIds host now table) : (dueJobs host now table).length ≤ SWEEP_LIMIT := by
  have hnodup : ((dueJobs host now table).map (·.id)).Nodup := hunique.sublist (List.filter_sublist.map _)
  have hsub : (dueJobs host now table).map (·.id) ⊆ sweepIds host now table := by
    intro id hid
    obtain ⟨j, hj, rfl⟩ := List.mem_map.1 hid
    exact h j hj
  have hle := (hnodup.subperm hsub).length_le
  have hlimit : (sweepIds host now table).length ≤ SWEEP_LIMIT := by
    unfold sweepIds
    split
    · exact Nat.zero_le _
    · rw [List.length_map]
      exact List.length_take_le ..
  rw [List.length_map] at hle
  exact hle.trans hlimit

theorem redeliveryDue_iff {now : Int} {table : List ModelJob} (hbound : host.bound = true) :
    (redeliveryDue host now table = none ↔ ∀ j ∈ table, outstanding j = false) ∧
      ∀ t, redeliveryDue host now table = some t ↔ IsLeast {x | ∃ j ∈ table, outstanding j = true ∧ nextAt host now j = x} t := by
  have hfold := foldl_earliest ((Table.select outstanding table).map (nextAt host now)) none
  rw [redeliveryDue, hbound, Bool.not_true, if_neg Bool.false_ne_true]
  constructor
  · rw [hfold.1, List.map_eq_nil_iff, Table.select, List.filter_eq_nil_iff]
    simp only [true_and, Bool.not_eq_true]
  · intro t
    have hset : {x | x ∈ (none : Option Int).toList ++ (Table.select outstanding table).map (nextAt host now)} =
        {x | ∃ j ∈ table, outstanding j = true ∧ nextAt host now j = x} := by
      ext x
      simp only [Option.toList_none, List.nil_append, Set.mem_ofPred_eq, List.mem_map, Table.select, List.mem_filter, and_assoc]
    rw [hfold.2, hset]

end Sweep

/-! ## The wake and the sweep -/

section Agreed

variable (host : Host) (now : Int) (sends : Str → Bool) (table : List ModelJob)

/-- When a job that is out after a sweep is looked for: an interval from now if the sweep tried it and failed, else at the
first later instant at which it is due. -/
def LooksAt (j : ModelJob) (t : Int) : Prop :=
  if j.id ∈ sweepIds host now table ∧ sends j.id = false then t = now + host.redeliveryMs
  else IsLeast {x | now < x ∧ due host x j = true} t

/-- The wake right after a sweep, told by what the sweep would select. -/
structure Agreed : Prop where
  wake : ∀ t, redeliveryDue host now (sweep host sends now table).2 = some t ↔
    IsLeast {x | ∃ j ∈ (sweep host sends now table).2, outstanding j = true ∧ LooksAt host now sends table j x} t
  quiet : redeliveryDue host now (sweep host sends now table).2 = none ↔
    ∀ j ∈ (sweep host sends now table).2, outstanding j = false
  tried : ∀ j ∈ table, due host now j = true → j.id ∈ sweepIds host now table

variable {host now sends table}

theorem outstanding_swept (ids : List Str) (j : ModelJob) : outstanding (swept sends now ids j) = outstanding j := by
  unfold swept
  split <;> rfl

/-- After a sweep that tried every job due, what is due is what it tried and failed to send. -/
theorem due_swept (htried : ∀ j ∈ table, due host now j = true → j.id ∈ sweepIds host now table)
    (hunique : Table.Unique (·.id) table) {j : ModelJob} (hj : j ∈ (sweep host sends now table).2) :
    due host now j = true ↔ j.id ∈ sweepIds host now table ∧ sends j.id = false := by
  rw [sweep_table] at hj
  obtain ⟨j, hrow, rfl⟩ := List.mem_map.1 hj
  rw [swept_id]
  unfold swept
  split
  · next h =>
    refine iff_of_false (fun hdue => ?_) fun hfail => Bool.false_ne_true (hfail.2.symm.trans h.2)
    have hsent := (due_iff.1 hdue).2.1 now rfl
    have := host.positive
    omega
  · next h =>
    constructor
    · intro hdue
      have hid := htried j hrow hdue
      exact ⟨hid, Bool.eq_false_iff.2 fun hsent => h ⟨hid, hsent⟩⟩
    · rintro ⟨hid, -⟩
      obtain ⟨j', hj', heq⟩ := mem_sweepIds hid
      obtain ⟨hmem, hdue⟩ := mem_dueJobs.1 hj'
      have hsame : j' = j := List.inj_on_of_nodup_map hunique hmem hrow heq
      exact hsame ▸ hdue

/-- The wake and the sweep agree when no more than twenty jobs are due, and only then. -/
theorem agreed_iff (hbound : host.bound = true) (hunique : Table.Unique (·.id) table) :
    Agreed host now sends table ↔ (dueJobs host now table).length ≤ SWEEP_LIMIT := by
  constructor
  · intro h
    refine room_of_tried hunique fun j hj => ?_
    obtain ⟨hmem, hdue⟩ := mem_dueJobs.1 hj
    exact h.tried j hmem hdue
  · intro hroom
    have htried : ∀ j ∈ table, due host now j = true → j.id ∈ sweepIds host now table :=
      fun j hj hdue => tried_of_room hbound hroom (mem_dueJobs.2 ⟨hj, hdue⟩)
    have hlooks : ∀ j ∈ (sweep host sends now table).2, outstanding j = true → ∀ x,
        LooksAt host now sends table j x ↔ nextAt host now j = x := by
      intro j hj hopen x
      have hdue := due_swept htried hunique hj
      obtain ⟨hlate, hleast⟩ := @nextAt_least host now j hopen
      unfold LooksAt
      split
      · next hfail =>
        rw [hlate (hdue.2 hfail)]
        exact eq_comm
      · next hfail =>
        have hleast := hleast (Bool.eq_false_iff.2 fun h => hfail (hdue.1 h))
        exact ⟨fun h => hleast.unique h, fun h => h ▸ hleast⟩
    refine ⟨fun t => ?_, (redeliveryDue_iff hbound).1, htried⟩
    rw [(redeliveryDue_iff hbound).2]
    have hset : {x | ∃ j ∈ (sweep host sends now table).2, outstanding j = true ∧ nextAt host now j = x} =
        {x | ∃ j ∈ (sweep host sends now table).2, outstanding j = true ∧ LooksAt host now sends table j x} := by
      ext x
      constructor
      · rintro ⟨j, hj, hopen, heq⟩
        exact ⟨j, hj, hopen, (hlooks j hj hopen x).2 heq⟩
      · rintro ⟨j, hj, hopen, hlook⟩
        exact ⟨j, hj, hopen, (hlooks j hj hopen x).1 hlook⟩
    rw [hset]

/-- A sweep at the instant a job is looked for selects it. -/
theorem selected_then (hbound : host.bound = true) (h : Agreed host now sends table) (hunique : Table.Unique (·.id) table)
    {t : Int} (hroom : (dueJobs host t (sweep host sends now table).2).length ≤ SWEEP_LIMIT) :
    ∀ j ∈ (sweep host sends now table).2, outstanding j = true → LooksAt host now sends table j t →
      j.id ∈ sweepIds host t (sweep host sends now table).2 := by
  intro j hj hopen hlook
  refine tried_of_room hbound hroom (mem_dueJobs.2 ⟨hj, ?_⟩)
  unfold LooksAt at hlook
  split at hlook
  · next hfail =>
    have hdue := (due_swept h.tried hunique hj).2 hfail
    have := host.positive
    exact due_later hdue (by omega)
  · exact hlook.1.2

end Agreed

/-! ## Runs -/

section Jobs

variable (host : Host)

/-- A job recorded by a commit, marked as dispatched already. -/
def bookJob (id : Str) (conversationId : Option Int) (request : Str) (now : Int) (table : List ModelJob) : List ModelJob :=
  Table.insertOrIgnore (·.id == id) ⟨id, conversationId, request, none, now, some now, none, none, none, none⟩ table

def free (id : Str) (now : Int) (j : ModelJob) : Bool :=
  j.id == id && outstanding j && j.takenAt.all (· ≤ now - host.takeHoldMs)

/-- The request, for the one taker that holds the job now. -/
def takeJob (id taker : Str) (now : Int) (table : List ModelJob) : Option Str × List ModelJob :=
  ((Table.one (free host id now) table).map (·.request),
    Table.update (free host id now) (fun j => { j with takenAt := some now, takenBy := some taker }) table)

def releaseJob (id taker : Str) (table : List ModelJob) : Bool × List ModelJob :=
  let held (j : ModelJob) : Bool := j.id == id && j.takenBy == some taker
  (table.any held, Table.update held (fun j => { j with takenAt := none, takenBy := none }) table)

def deliver (id answer : Str) (now : Int) (table : List ModelJob) : Bool × List ModelJob :=
  let unanswered (j : ModelJob) : Bool := j.id == id && j.answer.isNone
  (table.any unanswered, Table.update unanswered (fun j => { j with answer := some answer, answeredAt := some now }) table)

def settleJob (state : JobState) (id : Str) (table : List ModelJob) : List ModelJob :=
  Table.update (fun j => j.id == id && j.state.isNone) (fun j => { j with state := some state }) table

inductive Event where
  | sweep (now : Int) (sends : Str → Bool)
  | book (id : Str) (conversationId : Option Int) (request : Str) (now : Int)
  | dispatched (id : Str) (now : Int)
  | take (id taker : Str) (now : Int)
  | release (id taker : Str)
  | deliver (id answer : Str) (now : Int)
  | settle (state : JobState) (id : Str)

inductive Answer where
  | sent (count : Nat)
  | request (request : Option Str)
  | verdict (accepted : Bool)
  | done

/-- The table, when the last sweep ran, and the wake its step parked for. -/
structure World where
  table : List ModelJob
  last : Int
  wake : Option Int

def exec : Event → World → Answer × World
  | .sweep now sends, w =>
    let r := sweep host sends now w.table
    (.sent r.1, ⟨r.2, now, redeliveryDue host now r.2⟩)
  | .book id conversationId request now, w => (.done, { w with table := bookJob id conversationId request now w.table })
  | .dispatched id now, w => (.done, { w with table := (dispatch true now id w.table).2 })
  | .take id taker now, w =>
    let r := takeJob host id taker now w.table
    (.request r.1, { w with table := r.2 })
  | .release id taker, w =>
    let r := releaseJob id taker w.table
    (.verdict r.1, { w with table := r.2 })
  | .deliver id answer now, w =>
    let r := deliver id answer now w.table
    (.verdict r.1, { w with table := r.2 })
  | .settle state id, w => (.done, { w with table := settleJob state id w.table })

/-- A sweep runs no earlier than the one before, and no later than the wake it parked for. -/
def InOrder (w : World) : Event → Prop
  | .sweep now _ => w.last ≤ now ∧ ∀ wake ∈ w.wake, now ≤ wake
  | _ => True

/-- No more than the limit are due at a sweep. -/
def Room (w : World) : Event → Prop
  | .sweep now _ => (dueJobs host now w.table).length ≤ SWEEP_LIMIT
  | _ => True

/-- A sweep before an instant. -/
def SweepsBefore (instant : Int) : Event → Prop
  | .sweep now _ => now < instant
  | _ => True

end Jobs

section Runs

variable {host : Host}

/-- A job that falls due at an instant the object wakes for. -/
structure Waiting (host : Host) (j : ModelJob) (instant since : Int) (w : World) : Prop where
  row : j ∈ w.table
  since : since ≤ w.last
  awaited : w.last < instant
  wake : ∃ wake ∈ w.wake, wake ≤ instant

theorem swept_waiting {j : ModelJob} {instant since now : Int} {sends : Str → Bool} {w : World} (hbound : host.bound = true)
    (hopen : outstanding j = true) (hleast : IsLeast {t | since < t ∧ due host t j = true} instant) (hsince : since ≤ now)
    (hdue : due host since j = false) (hlt : now < instant) (hrow : j ∈ (exec host (.sweep now sends) w).2.table) :
    Waiting host j instant since (exec host (.sweep now sends) w).2 := by
  refine ⟨hrow, hsince, hlt, ?_⟩
  have hnow : due host now j = false := by
    refine Bool.eq_false_iff.2 fun h => ?_
    rcases hsince.lt_or_eq with hlater | rfl
    · exact absurd (hleast.2 ⟨hlater, h⟩) (not_le_of_gt hlt)
    · exact Bool.false_ne_true (hdue.symm.trans h)
  have hnext := (nextAt_least hopen).2 hnow
  have hat : nextAt host now j ≤ instant := hnext.2 ⟨hlt, hleast.1.2⟩
  cases hwake : redeliveryDue host now (sweep host sends now w.table).2 with
  | none =>
    have hnone := ((redeliveryDue_iff hbound).1.1 hwake) j hrow
    exact absurd hopen (Bool.eq_false_iff.1 hnone)
  | some t =>
    have hmin := ((redeliveryDue_iff hbound).2 t).1 hwake
    exact ⟨t, hwake, (hmin.2 ⟨j, hrow, hopen, rfl⟩).trans hat⟩

theorem step_waiting {j : ModelJob} {instant since : Int} {e : Event} {w : World} (hbound : host.bound = true)
    (hopen : outstanding j = true) (hleast : IsLeast {t | since < t ∧ due host t j = true} instant)
    (hdue : due host since j = false) (h : Waiting host j instant since w) (hok : InOrder w e) (hbefore : SweepsBefore instant e)
    (hrow : j ∈ (exec host e w).2.table) : Waiting host j instant since (exec host e w).2 := by
  cases e with
  | sweep now sends => exact swept_waiting hbound hopen hleast (h.since.trans hok.1) hdue hbefore hrow
  | book | dispatched | take | release | deliver | settle => exact ⟨hrow, h.since, h.awaited, h.wake⟩

/-- A job nobody takes is tried at the very instant it falls due, and is marked there when the send comes through. -/
theorem resent_when_due {table : List ModelJob} {last now instant then_ : Int} {wake : Option Int} {sends sends' : Str → Bool}
    {more : List Event} {j : ModelJob} {w : World} (hbound : host.bound = true)
    (hw : w = (exec host (.sweep now sends) ⟨table, last, wake⟩).2) (hrow : j ∈ w.table) (hopen : outstanding j = true)
    (hdue : due host now j = false) (hleast : IsLeast {t | now < t ∧ due host t j = true} instant)
    (hmore : ∀ x ∈ turns (exec host) more w, InOrder x.before x.act ∧ SweepsBefore instant x.act ∧ j ∈ x.after.table)
    (hlast : InOrder (final (exec host) more w) (.sweep then_ sends')) (hthen : instant ≤ then_)
    (hroom : Room host (final (exec host) more w) (.sweep then_ sends')) :
    then_ = instant ∧ j.id ∈ sweepIds host then_ (final (exec host) more w).table ∧
      (sends' j.id = true → { j with dispatchedAt := some then_ } ∈
        (exec host (.sweep then_ sends') (final (exec host) more w)).2.table) := by
  have hstart : Waiting host j instant now w := by
    subst hw
    exact swept_waiting hbound hopen hleast le_rfl hdue hleast.1.1 hrow
  have hend : Waiting host j instant now (final (exec host) more w) := by
    clear hlast hroom
    clear hw hrow
    induction more generalizing w with
    | nil => exact hstart
    | cons e more ih =>
      obtain ⟨hok, hbefore, hrow⟩ := hmore _ List.mem_cons_self
      exact ih (fun x hx => hmore x (List.mem_cons_of_mem _ hx))
        (step_waiting hbound hopen hleast hdue hstart hok hbefore hrow)
  obtain ⟨k, hk, hle⟩ := hend.wake
  have hnow : then_ = instant := le_antisymm ((hlast.2 k hk).trans hle) hthen
  have htried : j.id ∈ sweepIds host then_ (final (exec host) more w).table :=
    tried_of_room hbound hroom (mem_dueJobs.2 ⟨hend.row, hnow ▸ hleast.1.2⟩)
  refine ⟨hnow, htried, fun hsent => ?_⟩
  change _ ∈ (sweep host sends' then_ (final (exec host) more w).table).2
  rw [sweep_table]
  refine List.mem_map.2 ⟨j, hend.row, ?_⟩
  rw [swept, if_pos ⟨htried, hsent⟩]

end Runs

/-! ## The parked wake -/

/-- What the wake and the sweep keep to, sweep by sweep and over any run in which no more than twenty jobs are due. -/
structure WakeLaws (host : Host) : Prop where
  agreed : ∀ now sends table, Table.Unique (·.id) table →
    (Agreed host now sends table ↔ (dueJobs host now table).length ≤ SWEEP_LIMIT)
  selected : ∀ now sends table, Table.Unique (·.id) table → (dueJobs host now table).length ≤ SWEEP_LIMIT → ∀ t,
    (dueJobs host t (sweep host sends now table).2).length ≤ SWEEP_LIMIT → ∀ j ∈ (sweep host sends now table).2,
    outstanding j = true → LooksAt host now sends table j t → j.id ∈ sweepIds host t (sweep host sends now table).2
  resent : ∀ table last wake now sends more instant then_ sends' j w,
    w = (exec host (.sweep now sends) ⟨table, last, wake⟩).2 → j ∈ w.table → outstanding j = true → due host now j = false →
    IsLeast {t | now < t ∧ due host t j = true} instant →
    (∀ x ∈ turns (exec host) more w, InOrder x.before x.act ∧ SweepsBefore instant x.act ∧ j ∈ x.after.table) →
    InOrder (final (exec host) more w) (.sweep then_ sends') → instant ≤ then_ →
    Room host (final (exec host) more w) (.sweep then_ sends') →
    then_ = instant ∧ j.id ∈ sweepIds host then_ (final (exec host) more w).table ∧
      (sends' j.id = true → { j with dispatchedAt := some then_ } ∈
        (exec host (.sweep then_ sends') (final (exec host) more w)).2.table)

theorem wake_agrees (host : Host) (hbound : host.bound = true) : WakeLaws host := by
  refine ⟨fun now sends table hunique => agreed_iff hbound hunique, fun now sends table hunique hroom t hthen => ?_, ?_⟩
  · exact selected_then hbound ((agreed_iff hbound hunique).2 hroom) hunique hthen
  · intro table last wake now sends more instant then_ sends' j w hw hrow hopen hdue hleast hmore hlast hthen hroom
    exact resent_when_due hbound hw hrow hopen hdue hleast hmore hlast hthen hroom

def aHost : Host := ⟨true, REDELIVERY_MS, TAKE_HOLD_MS, by decide⟩

/-- The `n`-th of some jobs dispatched at the start. -/
def aJob (n : Nat) : ModelJob := ⟨List.replicate n (unit 'j'), none, [], none, n, some 0, none, none, none, none⟩

theorem wake_agrees_one :
    (dueJobs aHost 120000 [aJob 0]).length ≤ SWEEP_LIMIT ∧ Agreed aHost 120000 (fun _ => true) [aJob 0] := by
  have hroom : (dueJobs aHost 120000 [aJob 0]).length ≤ SWEEP_LIMIT := by decide
  exact ⟨hroom, ((wake_agrees aHost rfl).agreed 120000 (fun _ => true) [aJob 0] (List.nodup_singleton _)).2 hroom⟩

def twentyOne : List ModelJob := (List.range 21).map aJob

/-- Two sweeps an interval apart, each at its wake and with every send coming through. -/
def twoSweeps : List Event := [.sweep 120000 fun _ => true, .sweep 240000 fun _ => true]

/-- The youngest of twenty-one jobs is passed over when it falls due, and again an interval later. -/
theorem twenty_first_starved :
    ¬Agreed aHost 120000 (fun _ => true) twentyOne ∧ due aHost 120000 (aJob 20) = true ∧
      (final (exec aHost) (twoSweeps.take 1) ⟨twentyOne, 0, none⟩).wake = some 240000 ∧
      aJob 20 ∈ (final (exec aHost) twoSweeps ⟨twentyOne, 0, none⟩).table := by
  refine ⟨fun h => ?_, by decide, by decide, by decide⟩
  have htried := h.tried (aJob 20) (by decide) (by decide)
  revert htried
  decide

end Antiproton.ModelJobs
