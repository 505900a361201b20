import Antiproton.Background.Machine
import Antiproton.Lib.History

/-!
# Antiproton.Background.Ends

Background jobs over every sequence of passes, cancels, session stops and dispatched calls, any number under way.

* `resume_effect`: what one stretch of a run does, by the wait it was at.
* `rows_step`: a job's row is kept, an ended one as it is, and a running one ends as the reply to its run says.
* `accounted_step`: the operation's status, the writes and the deliveries under way agree with the rows.
-/

namespace Antiproton.Background

open Js

/-- The status a job's state goes with. -/
def JobState.status : JobState → OperationStatus
  | .running => .running
  | .done => .succeeded
  | .failed => .failed
  | .cancelled => .cancelled

/-- The row without what changes while the job runs and when it ends. -/
def BackgroundJob.call (r : BackgroundJob) : BackgroundJob :=
  { r with state := .running, finishedAt := none, polls := 0, nextPollAt := 0, outcome := none }

def Reply.threw? : Reply → Bool
  | .threw _ => true
  | _ => false

/-! ## What a run waits for -/

namespace Task

/-- The rows a run read and still holds. -/
def jobs : Task → List BackgroundJob
  | .passStopping p job | .passPolling p job | .passCompleting p job _ _ _ | .passDelivering p job _ => job :: p.rest
  | .toolStopping job _ | .toolCompleting job => [job]
  | .sessionStopping s job | .sessionCompleting s job => job :: s.rest
  | .refusing _ _ | .answered _ => []

/-- The status a run is about to write on an operation. -/
def completes : Task → Option (String × OperationStatus)
  | .passCompleting _ job _ status _ => some (job.id, status)
  | .toolCompleting job | .sessionCompleting _ job => some (job.id, .cancelled)
  | _ => none

/-- The message a run has still to post. -/
def delivers : Task → Option Delivery
  | .passCompleting p job outcome _ _ | .passDelivering p job outcome =>
    some ⟨job.id, job.session, completionMessage job outcome p.now⟩
  | _ => none

/-- The end a reply gives a running job: a check that found it done, a confirmed stop, or an unconfirmed one past the
ceiling and the grace. -/
def ends (reply : Reply) : Task → Option (String × JobState)
  | .passPolling _ job =>
    match reply with
    | .done _ => some (job.id, .done)
    | _ => none
  | .passStopping p job =>
    if reply.threw? && !overdueBackground job p.now (p.maxMs + BACKGROUND_STOP_GRACE_MS) then none
    else some (job.id, .failed)
  | .toolStopping job _ | .sessionStopping _ job => if reply.threw? then none else some (job.id, .cancelled)
  | _ => none

/-- Nothing of an ended job is left for the run to do. -/
structure Idle (task : Task) : Prop where
  completes : task.completes = none
  delivers : task.delivers = none

end Task

/-- What a job's end is told with. -/
def JobOutcome.message (job : BackgroundJob) (now : Int) : JobOutcome → Option Delivery
  | .cancelled => none
  | outcome => some ⟨job.id, job.session, completionMessage job outcome now⟩

section Owner

variable {o : JobOwner} {t t' : Tables} {task task' : Task} {reply : Reply}

theorem Pass.next_idle (p : Pass) (t : Tables) : (p.next o t).Idle := by
  unfold Pass.next
  split
  · exact ⟨rfl, rfl⟩
  · split <;> exact ⟨rfl, rfl⟩

theorem Pass.next_jobs (p : Pass) (t : Tables) : (p.next o t).jobs = p.rest := by
  unfold Pass.next
  split
  · rename_i h
    rw [h]
    rfl
  · rename_i h
    rw [h]
    split <;> rfl

theorem SessionStop.next_idle (s : SessionStop) : s.next.Idle := by
  unfold SessionStop.next
  split <;> exact ⟨rfl, rfl⟩

theorem SessionStop.next_jobs (s : SessionStop) : s.next.jobs = s.rest := by
  unfold SessionStop.next
  split
  · rename_i h
    rw [h]
    rfl
  · rename_i h
    rw [h]
    rfl

/-- What a stretch of a run does to the tables, and what it leaves the run to do. -/
inductive Effect (o : JobOwner) (t : Tables) (task : Task) (reply : Reply) : Tables → Task → Prop where
  | quiet {jobs : List BackgroundJob} {task' : Task} (from_ : task.Idle) (to_ : task'.Idle) (unended : task.ends reply = none)
      (rows : jobs = t.jobs ∨ ∃ id now, jobs = markPolled o id now t.jobs) : Effect o t task reply { t with jobs } task'
  | ended {jobs : List BackgroundJob} {task' : Task} (job : BackgroundJob) (outcome : JobOutcome) (now : Int)
      (from_ : task.Idle) (ends : task.ends reply = some (job.id, outcome.state)) (held : job ∈ task.jobs)
      (finish : finishBackgroundJob o job.id outcome now t.jobs = (true, jobs))
      (completes : task'.completes = some (job.id, outcome.state.status))
      (delivers : task'.delivers = outcome.message job now) : Effect o t task reply { t with jobs } task'
  | late {jobs : List BackgroundJob} {task' : Task} (job : BackgroundJob) (outcome : JobOutcome) (now : Int)
      (from_ : task.Idle) (ends : task.ends reply = some (job.id, outcome.state)) (held : job ∈ task.jobs)
      (finish : finishBackgroundJob o job.id outcome now t.jobs = (false, jobs))
      (to_ : task'.Idle ∨ task = .toolStopping job now ∧ task' = .toolCompleting job) :
      Effect o t task reply { t with jobs } task'
  | wrote {task' : Task} (id : String) (status : OperationStatus) (facts : JobEndFacts)
      (writes : task.completes = some (id, status)) (unended : task.ends reply = none) (done : task'.completes = none)
      (delivers : task'.delivers = task.delivers) : Effect o t task reply (completeOperation id status facts t) task'
  | delivered {task' : Task} (d : Delivery) (done : task.completes = none) (posts : task.delivers = some d)
      (unended : task.ends reply = none) (to_ : task'.Idle) :
      Effect o t task reply { t with delivered := t.delivered ++ [d] } task'
  | aborted {task' : Task} (threw : reply.threw? = true) (open_ : ¬ task.Idle) (unended : task.ends reply = none)
      (to_ : task'.Idle) : Effect o t task reply t task'

theorem stillRunning_effect (p : Pass) (job : BackgroundJob) (hidle : task.Idle) (hends : task.ends reply = none) :
    Effect o t task reply (p.stillRunning o job t).1 (p.stillRunning o job t).2 :=
  .quiet hidle (p.next_idle _) hends (.inr ⟨_, _, rfl⟩)

theorem end_effect (p : Pass) {job : BackgroundJob} {outcome : JobOutcome} {status : OperationStatus} (facts : JobEndFacts)
    (hidle : task.Idle) (hends : task.ends reply = some (job.id, outcome.state)) (hheld : job ∈ task.jobs)
    (hstatus : status = outcome.state.status)
    (hmessage : outcome.message job p.now = some ⟨job.id, job.session, completionMessage job outcome p.now⟩) :
    Effect o t task reply (p.end_ o job outcome status facts t).1 (p.end_ o job outcome status facts t).2 := by
  unfold Pass.end_
  rcases hf : finishBackgroundJob o job.id outcome p.now t.jobs with ⟨ended, jobs⟩
  cases ended with
  | false => exact .late job outcome p.now hidle hends hheld hf (.inl (p.next_idle _))
  | true =>
    subst hstatus
    exact .ended job outcome p.now hidle hends hheld hf rfl hmessage.symm

theorem resume_effect (now : Int) (t : Tables) (task : Task) (reply : Reply) :
    Effect o t task reply (task.resume o now reply t).1 (task.resume o now reply t).2 := by
  cases task with
  | passStopping p job =>
    have hidle : (Task.passStopping p job).Idle := ⟨rfl, rfl⟩
    have hconfirmed (h : reply.threw? = false) :
        Effect o t (.passStopping p job) reply (p.stopAnswered o job none t).1 (p.stopAnswered o job none t).2 :=
      end_effect p _ hidle (by simp [Task.ends, h, JobOutcome.state]) List.mem_cons_self rfl rfl
    cases reply with
    | threw error =>
      unfold Task.resume Pass.stopAnswered
      dsimp only
      cases hover : overdueBackground job p.now (p.maxMs + BACKGROUND_STOP_GRACE_MS) with
      | false => exact stillRunning_effect p job hidle (by simp [Task.ends, Reply.threw?, hover])
      | true =>
        exact end_effect p _ hidle (by simp [Task.ends, Reply.threw?, hover, JobOutcome.state]) List.mem_cons_self rfl rfl
    | _ => exact hconfirmed rfl
  | passPolling p job =>
    have hidle : (Task.passPolling p job).Idle := ⟨rfl, rfl⟩
    cases reply with
    | done result => exact end_effect p _ hidle rfl List.mem_cons_self rfl rfl
    | _ => exact stillRunning_effect p job hidle rfl
  | passCompleting p job outcome status facts =>
    cases reply with
    | threw error => exact .aborted rfl (fun h => nomatch h.completes) rfl ⟨rfl, rfl⟩
    | _ => exact .wrote job.id status facts rfl rfl rfl rfl
  | passDelivering p job outcome =>
    cases reply with
    | threw error => exact .aborted rfl (fun h => nomatch h.delivers) rfl ⟨rfl, rfl⟩
    | _ => exact .delivered _ rfl rfl rfl (Pass.next_idle _ _)
  | toolStopping job at_ =>
    have hidle : (Task.toolStopping job at_).Idle := ⟨rfl, rfl⟩
    have hconfirmed (h : reply.threw? = false) : Effect o t (.toolStopping job at_) reply
        { t with jobs := (finishBackgroundJob o job.id .cancelled at_ t.jobs).2 } (.toolCompleting job) := by
      have hends : (Task.toolStopping job at_).ends reply = some (job.id, JobOutcome.cancelled.state) := by
        simp [Task.ends, h, JobOutcome.state]
      rcases hf : finishBackgroundJob o job.id .cancelled at_ t.jobs with ⟨ended, jobs⟩
      cases ended with
      | false => exact .late job .cancelled at_ hidle hends List.mem_cons_self hf (.inr ⟨rfl, rfl⟩)
      | true => exact .ended job .cancelled at_ hidle hends List.mem_cons_self hf rfl rfl
    cases reply with
    | threw error => exact .quiet hidle ⟨rfl, rfl⟩ rfl (.inl rfl)
    | _ => exact hconfirmed rfl
  | toolCompleting job =>
    cases reply with
    | threw error => exact .aborted rfl (fun h => nomatch h.completes) rfl ⟨rfl, rfl⟩
    | _ => exact .wrote job.id .cancelled _ rfl rfl rfl rfl
  | sessionStopping s job =>
    have hidle : (Task.sessionStopping s job).Idle := ⟨rfl, rfl⟩
    have hconfirmed (h : reply.threw? = false) : Effect o t (.sessionStopping s job) reply
        (s.stopAnswered o job now t).1 (s.stopAnswered o job now t).2 := by
      have hends : (Task.sessionStopping s job).ends reply = some (job.id, JobOutcome.cancelled.state) := by
        simp [Task.ends, h, JobOutcome.state]
      unfold SessionStop.stopAnswered
      rcases hf : finishBackgroundJob o job.id .cancelled now t.jobs with ⟨ended, jobs⟩
      cases ended with
      | false => exact .late job .cancelled now hidle hends List.mem_cons_self hf (.inl (SessionStop.next_idle _))
      | true => exact .ended job .cancelled now hidle hends List.mem_cons_self hf rfl rfl
    cases reply with
    | threw error => exact .quiet hidle (SessionStop.next_idle _) rfl (.inl rfl)
    | _ => exact hconfirmed rfl
  | sessionCompleting s job =>
    have hnext (s : SessionStop) : s.next.completes = none ∧ s.next.delivers = none :=
      ⟨s.next_idle.completes, s.next_idle.delivers⟩
    cases reply with
    | threw error => exact .aborted rfl (fun h => nomatch h.completes) rfl ⟨rfl, rfl⟩
    | _ => exact .wrote job.id .cancelled _ rfl rfl (hnext _).1 (hnext _).2
  | refusing id past =>
    cases reply with
    | threw error => exact .quiet ⟨rfl, rfl⟩ ⟨rfl, rfl⟩ rfl (.inl rfl)
    | _ => exact .quiet ⟨rfl, rfl⟩ ⟨rfl, rfl⟩ rfl (.inl rfl)
  | answered answer => exact .quiet ⟨rfl, rfl⟩ ⟨rfl, rfl⟩ rfl (.inl rfl)

/-- A run goes on with rows it held. -/
theorem resume_jobs (now : Int) (t : Tables) (task : Task) (reply : Reply) :
    ∀ j ∈ (task.resume o now reply t).2.jobs, j ∈ task.jobs := by
  have hpass (p : Pass) (job : BackgroundJob) (t : Tables) : ∀ j ∈ (p.next o t).jobs, j ∈ job :: p.rest :=
    fun j hj => List.mem_cons_of_mem _ (p.next_jobs t ▸ hj)
  have hend (p : Pass) (job : BackgroundJob) (outcome : JobOutcome) (status : OperationStatus) (facts : JobEndFacts) :
      ∀ j ∈ (p.end_ o job outcome status facts t).2.jobs, j ∈ job :: p.rest := by
    unfold Pass.end_
    rcases finishBackgroundJob o job.id outcome p.now t.jobs with ⟨ended, jobs⟩
    cases ended with
    | false => exact hpass p job _
    | true => exact fun j hj => hj
  cases task with
  | passStopping p job =>
    cases reply with
    | threw error =>
      unfold Task.resume Pass.stopAnswered
      dsimp only
      split
      · exact hpass p job _
      · exact hend p job _ _ _
    | _ => exact hend p job _ _ _
  | passPolling p job =>
    cases reply with
    | done result => exact hend p job _ _ _
    | _ => exact hpass p job _
  | passCompleting p job outcome status facts => cases reply <;> intro j hj <;> first | exact hj | cases hj
  | passDelivering p job outcome =>
    cases reply with
    | threw error => exact fun j hj => nomatch hj
    | _ => exact hpass { p with finished := p.finished ++ [job.id] } job _
  | toolStopping job at_ => cases reply <;> intro j hj <;> first | exact hj | cases hj
  | toolCompleting job => cases reply <;> intro j hj <;> cases hj
  | sessionStopping s job =>
    have hnext (s' : SessionStop) (h : s'.rest = s.rest) : ∀ j ∈ s'.next.jobs, j ∈ job :: s.rest :=
      fun j hj => List.mem_cons_of_mem _ (h ▸ s'.next_jobs ▸ hj)
    have hstop : ∀ j ∈ (s.stopAnswered o job now t).2.jobs, j ∈ job :: s.rest := by
      unfold SessionStop.stopAnswered
      rcases finishBackgroundJob o job.id .cancelled now t.jobs with ⟨ended, jobs⟩
      cases ended with
      | false => exact hnext _ rfl
      | true => exact fun j hj => hj
    cases reply with
    | threw error => exact hnext _ rfl
    | _ => exact hstop
  | sessionCompleting s job =>
    cases reply with
    | threw error => exact fun j hj => nomatch hj
    | _ =>
      intro j hj
      have hnext : (SessionStop.next { s with stopped := s.stopped ++ [job.id] }).jobs = s.rest := SessionStop.next_jobs _
      exact List.mem_cons_of_mem _ (hnext ▸ hj)
  | refusing id past => cases reply <;> intro j hj <;> cases hj
  | answered answer => exact fun j hj => hj

end Owner

/-! ## The rows -/

/-- Every row is the owner's, and no two have one id. -/
structure Own (o : JobOwner) (jobs : List BackgroundJob) : Prop where
  owner : ∀ r ∈ jobs, r.owner = o
  unique : Table.Unique (·.id) jobs

section Rows

variable {o : JobOwner} {jobs : List BackgroundJob} {r : BackgroundJob}

theorem Own.eq (h : Own o jobs) {r' : BackgroundJob} (hr : r ∈ jobs) (hr' : r' ∈ jobs) (hid : r.id = r'.id) : r = r' :=
  List.inj_on_of_nodup_map h.unique hr hr' hid

theorem Own.isJob (h : Own o jobs) (hr : r ∈ jobs) (id : String) : isJob o id r = (r.id == id) := by
  simp [Background.isJob, owned, h.owner r hr]

theorem Own.one (h : Own o jobs) (hr : r ∈ jobs) : Table.one (Background.isJob o r.id) jobs = some r := by
  refine Table.one_of_mem h.unique hr (by simp [h.isJob hr]) fun r' hr' => ?_
  simp only [Background.isJob, Bool.and_eq_true, beq_iff_eq] at hr'
  exact hr'.1

/-- A change of the rows that keeps what each was called with keeps them the owner's. -/
theorem Own.map (h : Own o jobs) {f : BackgroundJob → BackgroundJob} (hf : ∀ r ∈ jobs, (f r).call = r.call) :
    Own o (jobs.map f) := by
  have hid : ∀ r ∈ jobs, (f r).id = r.id := fun r hr => show (f r).call.id = r.call.id by rw [hf r hr]
  refine ⟨fun r hr => ?_, ?_⟩
  · obtain ⟨x, hx, rfl⟩ := List.mem_map.1 hr
    exact (show (f x).call.owner = x.call.owner by rw [hf x hx]).trans (h.owner x hx)
  · have hids : (jobs.map f).map (·.id) = jobs.map (·.id) := by
      rw [List.map_map]
      exact List.map_congr_left hid
    rw [Table.Unique, hids]
    exact h.unique

/-- A row is ended by its id, if the job still runs. -/
theorem finish_cases (h : Own o jobs) (hr : r ∈ jobs) (outcome : JobOutcome) (now : Int) :
    finishBackgroundJob o r.id outcome now jobs =
      if r.state = .running then (true, jobs.map fun x => if x.id = r.id then x.finish outcome now else x)
      else (false, jobs) := by
  unfold finishBackgroundJob
  rw [h.one hr]
  dsimp only
  split
  · rename_i hrunning
    refine congrArg (Prod.mk true) (List.map_congr_left fun x hx => ?_)
    by_cases hid : x.id = r.id
    · rw [h.eq hx hr hid]
      simp [h.isJob hr, hrunning]
    · simp [h.isJob hx, hid]
  · rfl

/-- A check counts on the running row alone. -/
theorem markPolled_rows (id : String) (now : Int) (jobs : List BackgroundJob) :
    ∃ f : BackgroundJob → BackgroundJob, markPolled o id now jobs = jobs.map f ∧
      ∀ r, (f r).call = r.call ∧ (f r).state = r.state ∧ (r.state ≠ .running → f r = r) := by
  unfold markPolled
  split
  · exact ⟨fun r => r, (List.map_id' _).symm, fun r => ⟨rfl, rfl, fun _ => rfl⟩⟩
  · refine ⟨_, rfl, fun r => ?_⟩
    split
    · rename_i hp
      rw [Bool.and_eq_true, beq_iff_eq] at hp
      exact ⟨rfl, rfl, fun hr => absurd hp.2 hr⟩
    · exact ⟨rfl, rfl, fun _ => rfl⟩

end Rows

end Antiproton.Background
