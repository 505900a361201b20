import Antiproton.Background.Ends
import Antiproton.Lib.History

/-!
# Antiproton.Background.Once

The record of a background job over whole histories.

* `rows_step`: a job's row is kept, an ended one as it is, and a running one ends as the reply to its run says.
* `accounted_step`: where no record and no delivery fails, and no cancel is confirmed for a job that ended otherwise, the
  operations, the writes and the messages under way agree with the rows.
* `ended_once`: the job's record over every such history.
-/

namespace Antiproton.Background

open Js

section Steps

variable {o : JobOwner} {w : World} {e : Event}

/-- The end the reply of a step gives a job that still runs. -/
def World.ending (e : Event) (w : World) : Option (String × JobState) :=
  match e with
  | .resume i _ reply => w.tasks[i]?.bind (·.ends reply)
  | _ => none

/-- What a step does. -/
inductive Step (o : JobOwner) (e : Event) (w : World) : World → Prop where
  | nothing (unended : w.ending e = none) : Step o e w w
  | began (task : Task) (idle : task.Idle) (read : ∀ j ∈ task.jobs, j ∈ w.tables.jobs) (unended : w.ending e = none) :
      Step o e w ⟨w.tables, w.tasks ++ [task]⟩
  | recorded (row : BackgroundJob) (task : Task) (owner : row.owner = o) (running : row.state = .running)
      (fresh : ∀ r ∈ w.tables.jobs, r.id ≠ row.id) (idle : task.Idle) (read : task.jobs = [])
      (unended : w.ending e = none) :
      Step o e w ⟨{ w.tables with jobs := w.tables.jobs ++ [row],
                                  operations := w.tables.operations ++ [⟨row.id, .running, none⟩] }, w.tasks ++ [task]⟩
  | resumed (i : Nat) (now : Int) (reply : Reply) (task task' : Task) (t' : Tables) (act : e = .resume i now reply)
      (at_ : w.tasks[i]? = some task) (effect : Effect o w.tables task reply t' task')
      (read : ∀ j ∈ task'.jobs, j ∈ task.jobs) (ending : w.ending e = task.ends reply) :
      Step o e w ⟨t', w.tasks.set i task'⟩

theorem mem_due {now : Int} {jobs : List BackgroundJob} {j : BackgroundJob} (h : j ∈ dueBackgroundJobs o now jobs) : j ∈ jobs :=
  (List.mem_filter.1 ((Table.orderBy_perm _ _).mem_iff.1 h)).1

theorem mem_running {jobs : List BackgroundJob} {j : BackgroundJob} (h : j ∈ runningBackgroundJobs o jobs) : j ∈ jobs :=
  (List.mem_filter.1 ((Table.orderBy_perm _ _).mem_iff.1 h)).1

theorem jobsCancel_idle (id : String) (now : Int) (t : Tables) :
    (jobsCancel o id now t).Idle ∧ ∀ j ∈ (jobsCancel o id now t).jobs, j ∈ t.jobs := by
  unfold jobsCancel
  cases hf : (runningBackgroundJobs o t.jobs).find? (·.id == id) with
  | none => exact ⟨⟨rfl, rfl⟩, fun j hj => nomatch hj⟩
  | some job =>
    refine ⟨⟨rfl, rfl⟩, fun j hj => ?_⟩
    rw [List.mem_singleton.1 hj]
    exact mem_running (List.mem_of_find?_eq_some hf)

theorem dispatch_cases (job : StartedJob) (now : Int) (t : Tables) :
    (dispatch o job now t).1 = t ∧ (dispatch o job now t).2.Idle ∧ (dispatch o job now t).2.jobs = [] ∨
    (dispatch o job now t).2.Idle ∧ (dispatch o job now t).2.jobs = [] ∧
      ∃ row : BackgroundJob, row.owner = o ∧ row.state = .running ∧ (∀ r ∈ t.jobs, r.id ≠ row.id) ∧
        (dispatch o job now t).1 =
          { t with jobs := t.jobs ++ [row], operations := t.operations ++ [⟨row.id, .running, none⟩] } := by
  unfold dispatch recordBackgroundJob Table.insert
  dsimp only
  split
  · exact .inl ⟨rfl, ⟨rfl, rfl⟩, rfl⟩
  · rename_i hr
    split at hr
    · cases hr
    · rename_i hclash
      cases hr
      refine .inr ⟨?_, ?_, _, rfl, rfl, fun r hr hid => hclash (List.any_eq_true.2 ⟨r, hr, beq_iff_eq.2 hid⟩), rfl⟩
      · split <;> exact ⟨rfl, rfl⟩
      · split <;> rfl

theorem resume_step {i : Nat} {now : Int} {reply : Reply} {task : Task} (h : w.tasks[i]? = some task)
    (hopen : ∀ answer, task ≠ .answered answer) :
    w.step o (.resume i now reply) =
      (some (task.resume o now reply w.tables).2,
        ⟨(task.resume o now reply w.tables).1, w.tasks.set i (task.resume o now reply w.tables).2⟩) := by
  unfold World.step
  dsimp only
  rw [h]
  cases task with
  | answered answer => exact absurd rfl (hopen answer)
  | _ => rfl

theorem step_spec (o : JobOwner) (e : Event) (w : World) : Step o e w (w.step o e).2 := by
  cases e with
  | dispatch job now =>
    show Step o (.dispatch job now) w ⟨(dispatch o job now w.tables).1, w.tasks ++ [(dispatch o job now w.tables).2]⟩
    rcases dispatch_cases (o := o) job now w.tables with ⟨hsame, hidle, hread⟩ | ⟨hidle, hread, row, howner, hrun, hfresh, hrow⟩
    · rw [hsame]
      exact .began _ hidle (fun j hj => by rw [hread] at hj; cases hj) rfl
    · rw [hrow]
      exact .recorded row _ howner hrun hfresh hidle hread rfl
  | pass now maxMs =>
    show Step o (.pass now maxMs) w ⟨w.tables, w.tasks ++ [runBackgroundPass o now maxMs w.tables]⟩
    refine .began _ (Pass.next_idle _ _) (fun j hj => ?_) rfl
    unfold runBackgroundPass at hj
    rw [Pass.next_jobs] at hj
    exact mem_due hj
  | cancel id now =>
    obtain ⟨hidle, hread⟩ := jobsCancel_idle (o := o) id now w.tables
    exact .began _ hidle hread rfl
  | stop session =>
    show Step o (.stop session) w ⟨w.tables, w.tasks ++ [stopSessionJobs o session w.tables]⟩
    refine .began _ (SessionStop.next_idle _) (fun j hj => ?_) rfl
    unfold stopSessionJobs at hj
    rw [SessionStop.next_jobs] at hj
    exact mem_running (List.mem_filter.1 hj).1
  | resume i now reply =>
    cases hat : w.tasks[i]? with
    | none =>
      have hsame : (w.step o (.resume i now reply)).2 = w := by simp [World.step, hat]
      rw [hsame]
      exact .nothing (by simp [World.ending, hat])
    | some task =>
      have hending : w.ending (.resume i now reply) = task.ends reply := by simp [World.ending, hat]
      by_cases hdone : ∃ answer, task = .answered answer
      · obtain ⟨answer, rfl⟩ := hdone
        have hsame : (w.step o (.resume i now reply)).2 = w := by simp [World.step, hat]
        rw [hsame]
        exact .nothing hending
      · rw [resume_step hat (fun answer h => hdone ⟨answer, h⟩)]
        exact .resumed i now reply task _ _ rfl hat (resume_effect now w.tables task reply)
          (resume_jobs now w.tables task reply) hending

/-! ## The rows -/

/-- The state a running row of an id is in after a step. -/
def endState (ending : Option (String × JobState)) (id : String) : JobState :=
  match ending with
  | some (ended, state) => if ended = id then state else .running
  | none => .running

/-- The rows are the owner's, and every row a run holds was read from them. -/
structure Tracked (o : JobOwner) (w : World) : Prop where
  own : Own o w.tables.jobs
  held : ∀ task ∈ w.tasks, ∀ j ∈ task.jobs, ∃ r ∈ w.tables.jobs, r.call = j.call

theorem id_of_call {r j : BackgroundJob} (h : r.call = j.call) : r.id = j.id :=
  show r.call.id = j.call.id by rw [h]

/-- An effect leaves each row, an ended one as it is, and ends the running one its reply ends. -/
theorem effect_rows {t t' : Tables} {task task' : Task} {reply : Reply} (h : Effect o t task reply t' task') (hown : Own o t.jobs)
    (hheld : ∀ j ∈ task.jobs, ∃ r ∈ t.jobs, r.call = j.call) :
    ∃ f : BackgroundJob → BackgroundJob, t'.jobs = t.jobs.map f ∧ ∀ r ∈ t.jobs, (f r).call = r.call ∧
      (r.state ≠ .running → f r = r) ∧ (r.state = .running → (f r).state = endState (task.ends reply) r.id) := by
  have hstill (hends : task.ends reply = none) : ∃ f : BackgroundJob → BackgroundJob, t.jobs = t.jobs.map f ∧ ∀ r ∈ t.jobs,
      (f r).call = r.call ∧ (r.state ≠ .running → f r = r) ∧
      (r.state = .running → (f r).state = endState (task.ends reply) r.id) :=
    ⟨fun r => r, (List.map_id' _).symm, fun r _ => ⟨rfl, fun _ => rfl, fun hr => by rw [hends]; exact hr⟩⟩
  cases h with
  | quiet hfrom hto hends hrows =>
    rcases hrows with rfl | ⟨id, now, rfl⟩
    · exact hstill hends
    · obtain ⟨f, hf, hrow⟩ := markPolled_rows (o := o) id now t.jobs
      refine ⟨f, hf, fun r _ => ⟨(hrow r).1, (hrow r).2.2, fun hr => ?_⟩⟩
      rw [hends, (hrow r).2.1]
      exact hr
  | ended job outcome now hfrom hends hj hfinish =>
    obtain ⟨r₀, hr₀, hcall⟩ := hheld job hj
    rw [← id_of_call hcall, finish_cases hown hr₀] at hfinish
    split at hfinish
    · cases hfinish
      refine ⟨_, rfl, fun r hr => ?_⟩
      rw [hends, ← id_of_call hcall]
      by_cases hid : r.id = r₀.id
      · rename_i hrunning
        rw [if_pos hid]
        refine ⟨rfl, fun hne => absurd (hown.eq hr hr₀ hid ▸ hrunning) hne, fun _ => ?_⟩
        exact (if_pos hid.symm).symm
      · rw [if_neg hid]
        exact ⟨rfl, fun _ => rfl, fun hr => hr.trans (if_neg (Ne.symm hid)).symm⟩
    · cases hfinish
  | late job outcome now hfrom hends hj hfinish =>
    obtain ⟨r₀, hr₀, hcall⟩ := hheld job hj
    rw [← id_of_call hcall, finish_cases hown hr₀] at hfinish
    split at hfinish
    · cases hfinish
    · rename_i hended
      cases hfinish
      refine ⟨fun r => r, (List.map_id' _).symm, fun r hr => ⟨rfl, fun _ => rfl, fun hrunning => ?_⟩⟩
      rw [hends, ← id_of_call hcall]
      by_cases hid : r.id = r₀.id
      · exact absurd (hown.eq hr hr₀ hid ▸ hrunning) hended
      · exact hrunning.trans (if_neg (Ne.symm hid)).symm
  | wrote id status facts hwrites hends => exact hstill hends
  | delivered d hdone hposts hends => exact hstill hends
  | aborted hthrew hopen hends => exact hstill hends

/-- A step leaves each row, an ended one as it is, and ends the running one its reply ends. -/
theorem rows_step (h : Tracked o w) {r : BackgroundJob} (hr : r ∈ w.tables.jobs) :
    ∃ r' ∈ (w.step o e).2.tables.jobs, r'.call = r.call ∧ (r.state ≠ .running → r' = r) ∧
      (r.state = .running → r'.state = endState (w.ending e) r.id) := by
  have hspec := step_spec o e w
  generalize (w.step o e).2 = w' at hspec ⊢
  cases hspec with
  | nothing hends => exact ⟨r, hr, rfl, fun _ => rfl, fun h => by rw [hends]; exact h⟩
  | began task hidle hread hends => exact ⟨r, hr, rfl, fun _ => rfl, fun h => by rw [hends]; exact h⟩
  | recorded row task howner hrun hfresh hidle hread hends =>
    exact ⟨r, List.mem_append_left _ hr, rfl, fun _ => rfl, fun h => by rw [hends]; exact h⟩
  | resumed i now reply task task' t' hact hat heffect hread hending =>
    obtain ⟨f, hf, hrow⟩ := effect_rows heffect h.own (h.held task (List.mem_of_getElem? hat))
    rw [hending]
    exact ⟨f r, hf ▸ List.mem_map_of_mem hr, hrow r hr⟩

theorem tracked_step (e : Event) (w : World) (h : Tracked o w) : Tracked o (w.step o e).2 := by
  have hspec := step_spec o e w
  generalize (w.step o e).2 = w' at hspec ⊢
  cases hspec with
  | nothing hends => exact h
  | began task hidle hread hends =>
    refine ⟨h.own, fun x hx j hj => ?_⟩
    rcases List.mem_append.1 hx with hx | hx
    · exact h.held x hx j hj
    · rw [List.mem_singleton.1 hx] at hj
      exact ⟨j, hread j hj, rfl⟩
  | recorded row task howner hrun hfresh hidle hread hends =>
    refine ⟨⟨fun r hr => ?_, ?_⟩, fun x hx j hj => ?_⟩
    · rcases List.mem_append.1 hr with hr | hr
      · exact h.own.owner r hr
      · rw [List.mem_singleton.1 hr]
        exact howner
    · show ((w.tables.jobs ++ [row]).map (·.id)).Nodup
      rw [List.map_append, List.map_singleton]
      refine List.nodup_append.2 ⟨h.own.unique, List.nodup_singleton _, ?_⟩
      rintro id hid _ hid' rfl
      obtain ⟨r, hr, heq⟩ := List.mem_map.1 hid
      exact hfresh r hr (heq.trans (List.mem_singleton.1 hid'))
    · rcases List.mem_append.1 hx with hx | hx
      · obtain ⟨r, hr, hcall⟩ := h.held x hx j hj
        exact ⟨r, List.mem_append_left _ hr, hcall⟩
      · rw [List.mem_singleton.1 hx, hread] at hj
        cases hj
  | resumed i now reply task task' t' hact hat heffect hread hending =>
    obtain ⟨f, hf, hrow⟩ := effect_rows heffect h.own (h.held task (List.mem_of_getElem? hat))
    have hkept {j : BackgroundJob} (hj : ∃ r ∈ w.tables.jobs, r.call = j.call) : ∃ r ∈ t'.jobs, r.call = j.call := by
      obtain ⟨r, hr, hcall⟩ := hj
      exact ⟨f r, hf ▸ List.mem_map_of_mem hr, (hrow r hr).1.trans hcall⟩
    refine ⟨hf ▸ h.own.map fun r hr => (hrow r hr).1, fun x hx j hj => ?_⟩
    rcases List.mem_or_eq_of_mem_set hx with hx | rfl
    · exact hkept (h.held x hx j hj)
    · exact hkept (h.held task (List.mem_of_getElem? hat) j (hread j hj))

/-! ## The operations and the messages -/

/-- Every message posted or still to be posted. -/
def World.messages (w : World) : List Delivery := w.tables.delivered ++ w.tasks.filterMap (·.delivers)

/-- The message tells this row's end. -/
def BackgroundJob.Told (r : BackgroundJob) (d : Delivery) : Prop :=
  ∃ outcome at_, r.state = outcome.state ∧ r.outcome = some outcome.column ∧ r.finishedAt = some at_ ∧
    d = ⟨r.id, r.session, completionMessage r outcome at_⟩

def BackgroundJob.tellable (r : BackgroundJob) : Bool := r.state == .done || r.state == .failed

/-- The operations have a row each, with its status or a write of it under way, and each end that is told is told once. -/
structure Accounted (o : JobOwner) (w : World) : Prop extends Tracked o w where
  known : ∀ op ∈ w.tables.operations, ∃ r ∈ w.tables.jobs, r.id = op.id
  status : ∀ r ∈ w.tables.jobs, ∃ op, Table.one (·.id == r.id) w.tables.operations = some op ∧
    (op.status = r.state.status ∨ ∃ task ∈ w.tasks, task.completes = some (r.id, r.state.status))
  writes : ∀ task ∈ w.tasks, ∀ id status, task.completes = some (id, status) →
    ∃ r ∈ w.tables.jobs, r.id = id ∧ r.state ≠ .running ∧ status = r.state.status
  told : ∀ d ∈ w.messages, ∃ r ∈ w.tables.jobs, r.Told d
  once : ∀ r ∈ w.tables.jobs, w.messages.countP (·.id == r.id) = if r.tellable then 1 else 0

theorem Told.ended {r : BackgroundJob} {d : Delivery} (h : r.Told d) : r.state ≠ .running := by
  obtain ⟨outcome, at_, hstate, -⟩ := h
  rw [hstate]
  cases outcome <;> exact fun h => nomatch h

/-- The messages of the runs, around one that goes on. -/
theorem messages_set {p : Delivery → Bool} {t' : Tables} {i : Nat} {task task' : Task} (h : w.tasks[i]? = some task) :
    (World.messages ⟨t', w.tasks.set i task'⟩).countP p + w.tables.delivered.countP p + task.delivers.toList.countP p =
      w.messages.countP p + t'.delivered.countP p + task'.delivers.toList.countP p := by
  obtain ⟨hold, hnew⟩ := History.set_split h task'
  have hcount (x : Task) : ((w.tasks.take i ++ x :: w.tasks.drop (i + 1)).filterMap (·.delivers)).countP p =
      ((w.tasks.take i).filterMap (·.delivers)).countP p + x.delivers.toList.countP p +
        ((w.tasks.drop (i + 1)).filterMap (·.delivers)).countP p := by
    rw [List.filterMap_append, List.countP_append, List.filterMap_cons, Nat.add_assoc]
    cases hx : x.delivers with
    | none => simp
    | some d =>
      simp only [Option.toList_some, List.countP_cons, List.countP_nil]
      omega
  have hbefore := hcount task
  rw [← hold] at hbefore
  unfold World.messages
  dsimp only
  rw [hnew, List.countP_append, List.countP_append, hcount, hbefore]
  omega

/-- A run with nothing of an ended job adds what it goes on to tell. -/
theorem messages_idle {p : Delivery → Bool} {t' : Tables} {i : Nat} {task task' : Task} (h : w.tasks[i]? = some task)
    (hidle : task.Idle) (hdel : t'.delivered = w.tables.delivered) :
    (World.messages ⟨t', w.tasks.set i task'⟩).countP p = w.messages.countP p + task'.delivers.toList.countP p := by
  have hcount : (World.messages ⟨t', w.tasks.set i task'⟩).countP p + _ + _ = _ := messages_set h
  rw [hidle.delivers, hdel, Option.toList_none, List.countP_nil] at hcount
  omega

theorem mem_messages_set {t' : Tables} {i : Nat} {task' : Task} {d : Delivery}
    (hd : d ∈ World.messages ⟨t', w.tasks.set i task'⟩) (hto : ∀ d ∈ t'.delivered, d ∈ w.messages) :
    d ∈ w.messages ∨ task'.delivers = some d := by
  rcases List.mem_append.1 hd with hd | hd
  · exact .inl (hto d hd)
  · obtain ⟨x, hx, hxd⟩ := List.mem_filterMap.1 hd
    rcases List.mem_or_eq_of_mem_set hx with hx | rfl
    · exact .inl (List.mem_append_right _ (List.mem_filterMap.2 ⟨x, hx, hxd⟩))
    · exact .inr hxd

/-- A run that is not the one going on is where it was. -/
theorem mem_set_other {i : Nat} {task task' x : Task} (hat : w.tasks[i]? = some task) (hx : x ∈ w.tasks) (hne : x ≠ task) :
    x ∈ w.tasks.set i task' := by
  obtain ⟨j, hj⟩ := List.mem_iff_getElem?.1 hx
  have hij : i ≠ j := by
    rintro rfl
    rw [hat] at hj
    exact hne (Option.some.inj hj).symm
  exact List.mem_iff_getElem?.2 ⟨j, by rw [List.getElem?_set_ne hij]; exact hj⟩

/-- No write and no delivery fails, and a confirmed cancel finds its job running or cancelled. -/
def Task.orderly (t : Tables) (reply : Reply) : Task → Bool
  | .toolStopping job _ => reply.threw? || t.jobs.all fun r => r.id != job.id || !r.tellable
  | .passCompleting _ _ _ _ _ | .passDelivering _ _ _ | .toolCompleting _ | .sessionCompleting _ _ => !reply.threw?
  | _ => true

def Orderly (w : World) (e : Event) : Bool :=
  match e with
  | .resume i _ reply => w.tasks[i]?.all (·.orderly w.tables reply)
  | _ => true

/-- Rows that are as they were but for the running ones still running, and a run with nothing to write or tell. -/
theorem accounted_still {f : BackgroundJob → BackgroundJob} {t' : Tables} {i : Nat} {task task' : Task} (h : Accounted o w)
    (hat : w.tasks[i]? = some task) (hidle : task.Idle) (hidle' : task'.Idle) (hjobs : t'.jobs = w.tables.jobs.map f)
    (hf : ∀ r ∈ w.tables.jobs, (f r).call = r.call ∧ (f r).state = r.state ∧ (r.state ≠ .running → f r = r))
    (hops : t'.operations = w.tables.operations) (hdel : t'.delivered = w.tables.delivered)
    (htracked : Tracked o ⟨t', w.tasks.set i task'⟩) : Accounted o ⟨t', w.tasks.set i task'⟩ := by
  have hid : ∀ r ∈ w.tables.jobs, (f r).id = r.id := fun r hr => id_of_call (hf r hr).1
  refine { htracked with known := fun op hop => ?_, status := fun r hr => ?_, writes := fun x hx id status hw => ?_,
                         told := fun d hd => ?_, once := fun r hr => ?_ }
  · obtain ⟨r, hr, heq⟩ := h.known op (hops ▸ hop)
    exact ⟨f r, hjobs ▸ List.mem_map_of_mem hr, (hid r hr).trans heq⟩
  · obtain ⟨r, hold, rfl⟩ := List.mem_map.1 (hjobs ▸ hr)
    obtain ⟨op, hone, hstatus⟩ := h.status r hold
    show ∃ op, Table.one (·.id == (f r).id) t'.operations = some op ∧ _
    rw [hid r hold, hops, (hf r hold).2.1]
    refine ⟨op, hone, hstatus.imp_right fun ⟨x, hx, hw⟩ => ⟨x, mem_set_other hat hx ?_, hw⟩⟩
    rintro rfl
    rw [hidle.completes] at hw
    cases hw
  · rcases List.mem_or_eq_of_mem_set hx with hx | rfl
    · obtain ⟨r, hr, heq, hne, hst⟩ := h.writes x hx id status hw
      refine ⟨f r, hjobs ▸ List.mem_map_of_mem hr, (hid r hr).trans heq, ?_⟩
      rw [(hf r hr).2.1]
      exact ⟨hne, hst⟩
    · rw [hidle'.completes] at hw
      cases hw
  · rcases mem_messages_set hd (fun d hd => List.mem_append_left _ (hdel ▸ hd)) with hd | hd
    · obtain ⟨r, hr, htold⟩ := h.told d hd
      exact ⟨f r, hjobs ▸ List.mem_map_of_mem hr, by rw [(hf r hr).2.2 (Told.ended htold)]; exact htold⟩
    · rw [hidle'.delivers] at hd
      cases hd
  · obtain ⟨r, hold, rfl⟩ := List.mem_map.1 (hjobs ▸ hr)
    have htell : (f r).tellable = r.tellable := by rw [BackgroundJob.tellable, (hf r hold).2.1, BackgroundJob.tellable]
    rw [hid r hold, htell, ← h.once r hold, messages_idle hat hidle hdel, hidle'.delivers, Option.toList_none, List.countP_nil,
      Nat.add_zero]

theorem message_call {r j : BackgroundJob} {outcome : JobOutcome} {now : Int} (h : r.call = j.call) :
    outcome.message r now = outcome.message j now := by
  have hcall (r : BackgroundJob) : outcome.message r now = outcome.message r.call now := by cases outcome <;> rfl
  rw [hcall r, h, ← hcall j]

/-- The run that ends a job has its status to write, and its message where the end is told. -/
theorem accounted_ended {jobs : List BackgroundJob} {i : Nat} {task task' : Task} {job : BackgroundJob} {outcome : JobOutcome}
    {now : Int} (h : Accounted o w) (hat : w.tasks[i]? = some task) (hidle : task.Idle) (hheld : job ∈ task.jobs)
    (hfinish : finishBackgroundJob o job.id outcome now w.tables.jobs = (true, jobs))
    (hwrites : task'.completes = some (job.id, outcome.state.status)) (htells : task'.delivers = outcome.message job now)
    (htracked : Tracked o ⟨{ w.tables with jobs }, w.tasks.set i task'⟩) :
    Accounted o ⟨{ w.tables with jobs }, w.tasks.set i task'⟩ := by
  obtain ⟨r₀, hr₀, hcall⟩ := h.held task (List.mem_of_getElem? hat) job hheld
  have hjob : r₀.id = job.id := id_of_call hcall
  rw [← hjob, finish_cases h.own hr₀] at hfinish
  split at hfinish
  swap
  · cases hfinish
  rename_i hrunning
  cases hfinish
  have hmem {r : BackgroundJob} (hr : r ∈ w.tables.jobs) : (if r.id = r₀.id then r.finish outcome now else r) ∈
      w.tables.jobs.map fun x => if x.id = r₀.id then x.finish outcome now else x := List.mem_map_of_mem hr
  have hend : r₀.finish outcome now ∈ w.tables.jobs.map fun x => if x.id = r₀.id then x.finish outcome now else x := by
    have hr := hmem hr₀
    rwa [if_pos rfl] at hr
  have hkept {r : BackgroundJob} (hr : r ∈ w.tables.jobs) (hne : r.state ≠ .running) :
      r ∈ w.tables.jobs.map fun x => if x.id = r₀.id then x.finish outcome now else x := by
    have hr' := hmem hr
    rwa [if_neg fun hid => hne (h.own.eq hr hr₀ hid ▸ hrunning)] at hr'
  have hstate : (r₀.finish outcome now).state ≠ .running := by
    cases outcome <;> exact fun h => nomatch h
  refine { htracked with known := fun op hop => ?_, status := fun r hr => ?_, writes := fun x hx id status hw => ?_,
                         told := fun d hd => ?_, once := fun r hr => ?_ }
  · obtain ⟨r, hr, heq⟩ := h.known op hop
    refine ⟨_, hmem hr, ?_⟩
    rw [← heq]
    split <;> rfl
  · obtain ⟨r, hold, rfl⟩ := List.mem_map.1 hr
    obtain ⟨op, hone, hstatus⟩ := h.status r hold
    by_cases hid : r.id = r₀.id
    · rw [if_pos hid]
      refine ⟨op, hone, .inr ⟨task', List.mem_set (List.getElem?_eq_some_iff.1 hat).1 _, ?_⟩⟩
      rw [hwrites, ← hjob, ← hid]
      rfl
    · rw [if_neg hid]
      refine ⟨op, hone, hstatus.imp_right fun ⟨x, hx, hw⟩ => ⟨x, mem_set_other hat hx ?_, hw⟩⟩
      rintro rfl
      rw [hidle.completes] at hw
      cases hw
  · rcases List.mem_or_eq_of_mem_set hx with hx | rfl
    · obtain ⟨r, hr, heq, hne, hst⟩ := h.writes x hx id status hw
      exact ⟨r, hkept hr hne, heq, hne, hst⟩
    · rw [hwrites] at hw
      cases hw
      exact ⟨_, hend, hjob, hstate, rfl⟩
  · rcases mem_messages_set hd (fun d hd => List.mem_append_left _ hd) with hd | hd
    · obtain ⟨r, hr, htold⟩ := h.told d hd
      exact ⟨r, hkept hr (Told.ended htold), htold⟩
    · rw [htells, ← message_call hcall] at hd
      refine ⟨_, hend, outcome, now, rfl, rfl, rfl, ?_⟩
      cases outcome <;> cases hd <;> rfl
  · obtain ⟨r, hold, rfl⟩ := List.mem_map.1 hr
    have honce := h.once r hold
    by_cases hid : r.id = r₀.id
    · rw [if_pos hid]
      refine (messages_idle hat hidle rfl).trans ?_
      have hrun : r.tellable = false := by
        rw [h.own.eq hold hr₀ hid]
        simp [BackgroundJob.tellable, hrunning]
      rw [hrun, if_neg Bool.false_ne_true] at honce
      rw [show (r.finish outcome now).id = r.id from rfl, honce, htells, ← message_call hcall, Nat.zero_add]
      cases outcome <;> simp [JobOutcome.message, BackgroundJob.tellable, BackgroundJob.finish, JobOutcome.state, hid]
    · rw [if_neg hid, ← honce]
      refine (messages_idle hat hidle rfl).trans ?_
      rw [htells, ← message_call hcall]
      cases outcome <;> simp [JobOutcome.message, Ne.symm hid]

/-- The tool's cancel of a job cancelled before writes what the row says. -/
theorem accounted_late {i : Nat} {task task' : Task} {id : String} (h : Accounted o w) (hat : w.tasks[i]? = some task)
    (hidle : task.Idle) (hwrites : task'.completes = some (id, .cancelled)) (htells : task'.delivers = none)
    (hrow : ∃ r ∈ w.tables.jobs, r.id = id ∧ r.state = .cancelled) (htracked : Tracked o ⟨w.tables, w.tasks.set i task'⟩) :
    Accounted o ⟨w.tables, w.tasks.set i task'⟩ := by
  refine { htracked with known := h.known, status := fun r hr => ?_, writes := fun x hx id status hw => ?_,
                         told := fun d hd => ?_, once := fun r hr => ?_ }
  · obtain ⟨op, hone, hstatus⟩ := h.status r hr
    refine ⟨op, hone, hstatus.imp_right fun ⟨x, hx, hw⟩ => ⟨x, mem_set_other hat hx ?_, hw⟩⟩
    rintro rfl
    rw [hidle.completes] at hw
    cases hw
  · rcases List.mem_or_eq_of_mem_set hx with hx | rfl
    · exact h.writes x hx id status hw
    · rw [hwrites] at hw
      cases hw
      obtain ⟨r, hr, hid, hstate⟩ := hrow
      rw [← hid]
      exact ⟨r, hr, rfl, by rw [hstate]; decide, by rw [hstate]; rfl⟩
  · rcases mem_messages_set hd (fun d hd => List.mem_append_left _ hd) with hd | hd
    · exact h.told d hd
    · rw [htells] at hd
      cases hd
  · rw [← h.once r hr, messages_idle hat hidle rfl, htells, Option.toList_none, List.countP_nil, Nat.add_zero]

/-- A status written is the one its row has. -/
theorem accounted_wrote {i : Nat} {task task' : Task} {id : String} {status : OperationStatus} {facts : JobEndFacts}
    (h : Accounted o w) (hat : w.tasks[i]? = some task) (hwrites : task.completes = some (id, status))
    (hdone : task'.completes = none) (htells : task'.delivers = task.delivers)
    (htracked : Tracked o ⟨completeOperation id status facts w.tables, w.tasks.set i task'⟩) :
    Accounted o ⟨completeOperation id status facts w.tables, w.tasks.set i task'⟩ := by
  obtain ⟨r₀, hr₀, hid₀, -, hstatus₀⟩ := h.writes task (List.mem_of_getElem? hat) id status hwrites
  refine { htracked with known := fun op hop => ?_, status := fun r hr => ?_, writes := fun x hx id' status' hw => ?_,
                         told := fun d hd => ?_, once := fun r hr => ?_ }
  · obtain ⟨op', hop', rfl⟩ := List.mem_map.1 hop
    obtain ⟨r, hr, heq⟩ := h.known op' hop'
    refine ⟨r, hr, heq.trans ?_⟩
    split <;> rfl
  · obtain ⟨op, hone, hstatus⟩ := h.status r hr
    have hop : op.id = r.id := beq_iff_eq.1 (Table.one_some (p := fun op : Operation => op.id == r.id) hone)
    have hwritten : Table.one (·.id == r.id) (completeOperation id status facts w.tables).operations =
        some (if op.id == id then { op with status, facts := some facts } else op) := by
      show Table.one _ (Table.update _ _ _) = _
      rw [Table.one_update_key (f := fun op : Operation => { op with status, facts := some facts }) fun _ => rfl, hone]
      rfl
    refine ⟨_, hwritten, ?_⟩
    by_cases hid : r.id = id
    · left
      rw [if_pos (beq_iff_eq.2 (hop.trans hid)), hstatus₀, h.own.eq hr hr₀ (hid.trans hid₀.symm)]
    · rw [if_neg fun heq => hid (hop.symm.trans (beq_iff_eq.1 heq))]
      refine hstatus.imp_right fun ⟨x, hx, hw⟩ => ⟨x, mem_set_other hat hx ?_, hw⟩
      rintro rfl
      rw [hwrites] at hw
      exact hid (congrArg Prod.fst (Option.some.inj hw)).symm
  · rcases List.mem_or_eq_of_mem_set hx with hx | rfl
    · exact h.writes x hx id' status' hw
    · rw [hdone] at hw
      cases hw
  · rcases mem_messages_set hd (fun d hd => List.mem_append_left _ hd) with hd | hd
    · exact h.told d hd
    · rw [htells] at hd
      exact h.told d (List.mem_append_right _ (List.mem_filterMap.2 ⟨task, List.mem_of_getElem? hat, hd⟩))
  · have hcount : (World.messages ⟨completeOperation id status facts w.tables, w.tasks.set i task'⟩).countP (·.id == r.id) +
        w.tables.delivered.countP (·.id == r.id) + _ = _ + w.tables.delivered.countP (·.id == r.id) + _ := messages_set hat
    rw [htells] at hcount
    rw [← h.once r hr]
    omega

/-- A message that is posted was to be posted. -/
theorem accounted_delivered {i : Nat} {task task' : Task} {d : Delivery} (h : Accounted o w) (hat : w.tasks[i]? = some task)
    (hdone : task.completes = none) (hposts : task.delivers = some d) (hidle : task'.Idle)
    (htracked : Tracked o ⟨{ w.tables with delivered := w.tables.delivered ++ [d] }, w.tasks.set i task'⟩) :
    Accounted o ⟨{ w.tables with delivered := w.tables.delivered ++ [d] }, w.tasks.set i task'⟩ := by
  have hd₀ : d ∈ w.messages := List.mem_append_right _ (List.mem_filterMap.2 ⟨task, List.mem_of_getElem? hat, hposts⟩)
  refine { htracked with known := h.known, status := fun r hr => ?_, writes := fun x hx id status hw => ?_,
                         told := fun e hd => ?_, once := fun r hr => ?_ }
  · obtain ⟨op, hone, hstatus⟩ := h.status r hr
    refine ⟨op, hone, hstatus.imp_right fun ⟨x, hx, hw⟩ => ⟨x, mem_set_other hat hx ?_, hw⟩⟩
    rintro rfl
    rw [hdone] at hw
    cases hw
  · rcases List.mem_or_eq_of_mem_set hx with hx | rfl
    · exact h.writes x hx id status hw
    · rw [hidle.completes] at hw
      cases hw
  · have hto : ∀ e ∈ w.tables.delivered ++ [d], e ∈ w.messages := by
      intro e he
      rcases List.mem_append.1 he with he | he
      · exact List.mem_append_left _ he
      · rw [List.mem_singleton.1 he]
        exact hd₀
    rcases mem_messages_set hd hto with hd | hd
    · exact h.told e hd
    · rw [hidle.delivers] at hd
      cases hd
  · have hcount : (World.messages ⟨{ w.tables with delivered := w.tables.delivered ++ [d] }, w.tasks.set i task'⟩).countP
        (·.id == r.id) + _ + _ = _ + (w.tables.delivered ++ [d]).countP (·.id == r.id) + _ := messages_set hat
    rw [hposts, hidle.delivers, List.countP_append, Option.toList_some, Option.toList_none, List.countP_nil] at hcount
    rw [← h.once r hr]
    omega

theorem accounted_began {task : Task} (h : Accounted o w) (hidle : task.Idle)
    (htracked : Tracked o ⟨w.tables, w.tasks ++ [task]⟩) : Accounted o ⟨w.tables, w.tasks ++ [task]⟩ := by
  have hmessages : World.messages ⟨w.tables, w.tasks ++ [task]⟩ = w.messages := by
    simp [World.messages, hidle.delivers]
  refine { htracked with known := h.known, status := fun r hr => ?_, writes := fun x hx id status hw => ?_,
                         told := fun d hd => h.told d (hmessages ▸ hd), once := fun r hr => hmessages ▸ h.once r hr }
  · obtain ⟨op, hone, hstatus⟩ := h.status r hr
    exact ⟨op, hone, hstatus.imp_right fun ⟨x, hx, hw⟩ => ⟨x, List.mem_append_left _ hx, hw⟩⟩
  · rcases List.mem_append.1 hx with hx | hx
    · exact h.writes x hx id status hw
    · rw [List.mem_singleton.1 hx, hidle.completes] at hw
      cases hw

theorem accounted_recorded {row : BackgroundJob} (h : Accounted o w) (hrun : row.state = .running)
    (hfresh : ∀ r ∈ w.tables.jobs, r.id ≠ row.id)
    (htracked : Tracked o ⟨{ w.tables with jobs := w.tables.jobs ++ [row],
                                           operations := w.tables.operations ++ [⟨row.id, .running, none⟩] }, w.tasks⟩) :
    Accounted o ⟨{ w.tables with jobs := w.tables.jobs ++ [row],
                                 operations := w.tables.operations ++ [⟨row.id, .running, none⟩] }, w.tasks⟩ := by
  refine { htracked with known := fun op hop => ?_, status := fun r hr => ?_, writes := fun x hx id status hw => ?_,
                         told := fun d hd => ?_, once := fun r hr => ?_ }
  · rcases List.mem_append.1 hop with hop | hop
    · obtain ⟨r, hr, heq⟩ := h.known op hop
      exact ⟨r, List.mem_append_left _ hr, heq⟩
    · rw [List.mem_singleton.1 hop]
      exact ⟨row, List.mem_append_right _ (List.mem_singleton_self _), rfl⟩
  · show ∃ op, Table.one _ (w.tables.operations ++ _) = some op ∧ _
    rw [Table.one_append]
    rcases List.mem_append.1 hr with hr | hr
    · obtain ⟨op, hone, hstatus⟩ := h.status r hr
      exact ⟨op, by rw [hone]; rfl, hstatus⟩
    · rw [List.mem_singleton.1 hr]
      have hnone : Table.one (·.id == row.id) w.tables.operations = none := by
        refine Table.one_eq_none.2 fun op hop => beq_false_of_ne fun heq => ?_
        obtain ⟨r, hr, hid⟩ := h.known op hop
        exact hfresh r hr (hid.trans heq)
      refine ⟨⟨row.id, .running, none⟩, ?_, .inl (by rw [hrun]; rfl)⟩
      rw [hnone]
      simp [Table.one]
  · obtain ⟨r, hr, hrest⟩ := h.writes x hx id status hw
    exact ⟨r, List.mem_append_left _ hr, hrest⟩
  · obtain ⟨r, hr, htold⟩ := h.told d hd
    exact ⟨r, List.mem_append_left _ hr, htold⟩
  · rcases List.mem_append.1 hr with hr | hr
    · exact h.once r hr
    · rw [List.mem_singleton.1 hr, BackgroundJob.tellable, hrun]
      refine List.countP_eq_zero.2 fun d hd => ?_
      obtain ⟨r, hr, outcome, at_, -, -, -, rfl⟩ := h.told d hd
      simpa using hfresh r hr

theorem accounted_step (e : Event) (w : World) (h : Accounted o w) (hok : Orderly w e = true) :
    Accounted o (w.step o e).2 := by
  have htracked := tracked_step e w h.toTracked
  have hspec := step_spec o e w
  generalize (w.step o e).2 = w' at hspec htracked ⊢
  cases hspec with
  | nothing hends => exact h
  | began task hidle hread hends => exact accounted_began h hidle htracked
  | recorded row task howner hrun hfresh hidle hread hends =>
    refine accounted_began (accounted_recorded h hrun hfresh ?_) hidle htracked
    exact ⟨htracked.own, fun x hx => htracked.held x (List.mem_append_left _ hx)⟩
  | resumed i now reply task task' t' hact hat heffect hread hending =>
    subst hact
    have hok : task.orderly w.tables reply = true := by
      simpa only [Orderly, hat, Option.all_some] using hok
    have hsame : w.tables.jobs = w.tables.jobs.map fun r => r := (List.map_id' _).symm
    cases heffect with
    | quiet hfrom hto hends hrows =>
      rcases hrows with rfl | ⟨id, at_, rfl⟩
      · exact accounted_still h hat hfrom hto hsame (fun _ _ => ⟨rfl, rfl, fun _ => rfl⟩) rfl rfl htracked
      · obtain ⟨f, hf, hrow⟩ := markPolled_rows (o := o) id at_ w.tables.jobs
        exact accounted_still h hat hfrom hto hf (fun r _ => hrow r) rfl rfl htracked
    | ended job outcome at_ hfrom hends hheld hfinish hwrites htells =>
      exact accounted_ended h hat hfrom hheld hfinish hwrites htells htracked
    | late job outcome at_ hfrom hends hheld hfinish hto =>
      obtain ⟨r₀, hr₀, hcall⟩ := h.held task (List.mem_of_getElem? hat) job hheld
      have hid := id_of_call hcall
      rw [← hid, finish_cases h.own hr₀] at hfinish
      split at hfinish
      · cases hfinish
      rename_i hended
      cases hfinish
      rcases hto with hto | ⟨rfl, rfl⟩
      · exact accounted_still h hat hfrom hto hsame (fun _ _ => ⟨rfl, rfl, fun _ => rfl⟩) rfl rfl htracked
      · refine accounted_late h hat hfrom rfl rfl ⟨r₀, hr₀, hid, ?_⟩ htracked
        have hconfirmed : reply.threw? = false := by
          cases hthrew : reply.threw? with
          | false => rfl
          | true => simp [Task.ends, hthrew] at hends
        simp only [Task.orderly, hconfirmed, Bool.false_or, List.all_eq_true, Bool.or_eq_true, bne_iff_ne, ne_eq,
          Bool.not_eq_true'] at hok
        have hrow := (hok r₀ hr₀).resolve_left fun hne => hne hid
        simp only [BackgroundJob.tellable, Bool.or_eq_false_iff, beq_eq_false_iff_ne] at hrow
        cases hstate : r₀.state with
        | running => exact absurd hstate hended
        | done => exact absurd hstate hrow.1
        | failed => exact absurd hstate hrow.2
        | cancelled => rfl
    | wrote id status facts hwrites hends hdone htells => exact accounted_wrote h hat hwrites hdone htells htracked
    | delivered d hdone hposts hends hto => exact accounted_delivered h hat hdone hposts hto htracked
    | aborted hthrew hopen hends hto =>
      refine absurd ?_ hopen
      cases task with
      | passCompleting | passDelivering | toolCompleting | sessionCompleting =>
        simp [Task.orderly, hthrew] at hok
      | _ => exact ⟨rfl, rfl⟩

theorem accounted_empty : Accounted o World.empty where
  own := ⟨fun _ hr => (List.not_mem_nil hr).elim, Table.unique_nil⟩
  held := fun _ htask => nomatch htask
  known := fun _ hop => nomatch hop
  status := fun _ hr => nomatch hr
  writes := fun _ htask => nomatch htask
  told := fun _ hd => nomatch hd
  once := fun _ hr => nomatch hr

/-! ## The next wake -/

theorem wake_isSome (now : Int) {jobs : List BackgroundJob} (hown : ∀ r ∈ jobs, r.owner = o) :
    (nextBackgroundWake o now jobs).isSome = true ↔ ∃ r ∈ jobs, r.state = .running := by
  have hselect (r : BackgroundJob) : r ∈ Table.select (isRunning o) jobs ↔ r ∈ jobs ∧ r.state = .running := by
    rw [Table.select, List.mem_filter]
    refine and_congr_right fun hr => ?_
    simp [isRunning, owned, hown r hr]
  unfold nextBackgroundWake
  rw [Option.isSome_map]
  cases hs : Table.select (isRunning o) jobs with
  | nil =>
    rw [hs] at hselect
    refine ⟨fun h => by simp at h, ?_⟩
    rintro ⟨r, hr⟩
    exact absurd ((hselect r).2 hr) List.not_mem_nil
  | cons r rest =>
    rw [hs] at hselect
    exact ⟨fun _ => ⟨r, (hselect r).1 List.mem_cons_self⟩, fun _ => by simp⟩

theorem Pass.next_passed {p : Pass} {t : Tables} {checked : Nat} {finished : List String} {wake : Option Int}
    (h : p.next o t = .answered (.passed checked finished wake)) : wake = nextBackgroundWake o p.now t.jobs := by
  unfold Pass.next at h
  split at h
  · cases h
    rfl
  · split at h <;> cases h

theorem resume_passed {now : Int} {t : Tables} {task : Task} {reply : Reply} {checked : Nat} {finished : List String}
    {wake : Option Int} (hopen : ∀ answer, task ≠ .answered answer)
    (h : (task.resume o now reply t).2 = .answered (.passed checked finished wake)) :
    ∃ at_, wake = nextBackgroundWake o at_ (task.resume o now reply t).1.jobs := by
  have hend {p : Pass} {job : BackgroundJob} {outcome : JobOutcome} {status : OperationStatus} {facts : JobEndFacts}
      (h : (p.end_ o job outcome status facts t).2 = .answered (.passed checked finished wake)) :
      ∃ at_, wake = nextBackgroundWake o at_ (p.end_ o job outcome status facts t).1.jobs := by
    unfold Pass.end_ at h ⊢
    generalize finishBackgroundJob o job.id outcome p.now t.jobs = ends at h ⊢
    obtain ⟨ended, jobs⟩ := ends
    cases ended with
    | false => exact ⟨_, Pass.next_passed h⟩
    | true => cases h
  cases task with
  | passStopping p job =>
    cases reply with
    | threw error =>
      unfold Task.resume Pass.stopAnswered at h ⊢
      dsimp only at h ⊢
      split at h
      · rename_i hin
        rw [if_pos hin]
        exact ⟨_, Pass.next_passed h⟩
      · rename_i hpast
        rw [if_neg hpast]
        exact hend h
    | _ => exact hend h
  | passPolling p job =>
    cases reply with
    | done result => exact hend h
    | _ => exact ⟨_, Pass.next_passed h⟩
  | passCompleting p job outcome status facts => cases reply <;> cases h
  | passDelivering p job outcome =>
    cases reply with
    | threw error => cases h
    | _ => exact ⟨_, Pass.next_passed h⟩
  | toolStopping job at_ => cases reply <;> cases h
  | toolCompleting job => cases reply <;> cases h
  | sessionStopping s job =>
    have hnext (s : SessionStop) : s.next ≠ .answered (.passed checked finished wake) := by
      unfold SessionStop.next
      split <;> exact fun h => nomatch h
    cases reply with
    | threw error => exact absurd h (hnext _)
    | _ =>
      have h : (s.stopAnswered o job now t).2 = _ := h
      unfold SessionStop.stopAnswered at h
      generalize finishBackgroundJob o job.id .cancelled now t.jobs = ends at h
      obtain ⟨ended, jobs⟩ := ends
      cases ended with
      | false => exact absurd h (hnext _)
      | true => cases h
  | sessionCompleting s job =>
    have hnext (s : SessionStop) : s.next ≠ .answered (.passed checked finished wake) := by
      unfold SessionStop.next
      split <;> exact fun h => nomatch h
    cases reply with
    | threw error => cases h
    | _ => exact absurd h (hnext _)
  | refusing id past => cases reply <;> cases h
  | answered answer => exact absurd rfl (hopen answer)

/-- A pass that returns read its wake from the rows it leaves. -/
theorem step_passed {checked : Nat} {finished : List String} {wake : Option Int}
    (h : (w.step o e).1 = some (.answered (.passed checked finished wake))) :
    ∃ at_, wake = nextBackgroundWake o at_ (w.step o e).2.tables.jobs := by
  cases e with
  | dispatch job now =>
    have h : (dispatch o job now w.tables).2 = .answered (.passed checked finished wake) := Option.some.inj h
    unfold dispatch at h
    dsimp only at h
    split at h
    · cases h
    · split at h <;> cases h
  | pass now maxMs => exact ⟨_, Pass.next_passed (Option.some.inj h)⟩
  | cancel id now =>
    have h : jobsCancel o id now w.tables = .answered (.passed checked finished wake) := Option.some.inj h
    unfold jobsCancel at h
    split at h <;> cases h
  | stop session =>
    have h : stopSessionJobs o session w.tables = .answered (.passed checked finished wake) := Option.some.inj h
    unfold stopSessionJobs SessionStop.next at h
    split at h <;> cases h
  | resume i now reply =>
    cases hat : w.tasks[i]? with
    | none => simp [World.step, hat] at h
    | some task =>
      by_cases hdone : ∃ answer, task = .answered answer
      · obtain ⟨answer, rfl⟩ := hdone
        simp [World.step, hat] at h
      · have hopen := fun answer heq => hdone ⟨answer, heq⟩
        rw [resume_step hat hopen] at h ⊢
        exact resume_passed hopen (Option.some.inj h)

end Steps

/-! ## The record over whole histories -/

def World.run (o : JobOwner) (events : List Event) : World := History.final (World.step o) events World.empty

/-- No run is at a wait. -/
def World.settled (w : World) : Bool :=
  w.tasks.all fun
    | .answered _ => true
    | _ => false

/-- Once nothing is under way, each job's operation has the status of the job's end, and the end of one that is done or
failed was told once. -/
def World.Recorded (w : World) : Prop :=
  w.settled = true → ∀ r ∈ w.tables.jobs,
    (Table.one (·.id == r.id) w.tables.operations).map (·.status) = some r.state.status ∧
      w.tables.delivered.countP (·.id == r.id) = if r.tellable then 1 else 0

instance (w : World) : Decidable w.Recorded :=
  inferInstanceAs (Decidable (w.settled = true → ∀ r ∈ w.tables.jobs,
    (Table.one (·.id == r.id) w.tables.operations).map (·.status) = some r.state.status ∧
      w.tables.delivered.countP (·.id == r.id) = if r.tellable then 1 else 0))

theorem settled_idle {w : World} (h : w.settled = true) : ∀ task ∈ w.tasks, task.Idle := by
  intro task htask
  have hanswered := List.all_eq_true.1 h task htask
  cases task with
  | answered answer => exact ⟨rfl, rfl⟩
  | _ => cases hanswered

theorem Accounted.recorded {o : JobOwner} {w : World} (h : Accounted o w) : w.Recorded := by
  intro hsettled r hr
  have hidle := settled_idle hsettled
  obtain ⟨op, hone, hstatus⟩ := h.status r hr
  constructor
  · rw [hone]
    rcases hstatus with hstatus | ⟨task, htask, hw⟩
    · exact congrArg some hstatus
    · rw [(hidle task htask).completes] at hw
      cases hw
  · have hnone : w.tasks.filterMap (·.delivers) = [] :=
      List.filterMap_eq_nil_iff.2 fun task htask => (hidle task htask).delivers
    have honce := h.once r hr
    rwa [World.messages, hnone, List.append_nil] at honce

/-- A stop that was not confirmed ends a job only past the ceiling and the grace. -/
theorem unconfirmed_step {o : JobOwner} {w : World} {i : Nat} {now : Int} {error : Str} (h : Tracked o w) {r : BackgroundJob}
    (hr : r ∈ w.tables.jobs) (hrun : r.state = .running) :
    (∃ r' ∈ (w.step o (.resume i now (.threw error))).2.tables.jobs, r'.call = r.call ∧ r'.state = .running) ∨
      ∃ p job, w.tasks[i]? = some (.passStopping p job) ∧ job.id = r.id ∧
        p.maxMs + BACKGROUND_STOP_GRACE_MS < p.now - r.createdAt := by
  obtain ⟨r', hr', hcall, -, hstate⟩ := rows_step (e := .resume i now (.threw error)) h hr
  have hstate := hstate hrun
  cases hat : w.tasks[i]? with
  | none => exact .inl ⟨r', hr', hcall, by rw [hstate]; simp [World.ending, hat, endState]⟩
  | some task =>
    have hending : w.ending (.resume i now (.threw error)) = task.ends (.threw error) := by simp [World.ending, hat]
    rw [hending] at hstate
    cases task with
    | passStopping p job =>
      by_cases hid : job.id = r.id
      · by_cases hover : overdueBackground job p.now (p.maxMs + BACKGROUND_STOP_GRACE_MS) = true
        · obtain ⟨x, hx, hxcall⟩ := h.held _ (List.mem_of_getElem? hat) job List.mem_cons_self
          have hsame : r = x := h.own.eq hr hx (hid.symm.trans (id_of_call hxcall).symm)
          have hcreated : r.createdAt = job.createdAt := by
            rw [hsame]
            exact show x.call.createdAt = job.call.createdAt by rw [hxcall]
          refine .inr ⟨p, job, rfl, hid, ?_⟩
          rw [hcreated]
          exact of_decide_eq_true hover
        · exact .inl ⟨r', hr', hcall, by rw [hstate]; simp [Task.ends, Reply.threw?, hover, endState]⟩
      · refine .inl ⟨r', hr', hcall, ?_⟩
        rw [hstate]
        simp only [Task.ends]
        split
        · rfl
        · exact if_neg hid
    | _ => exact .inl ⟨r', hr', hcall, by rw [hstate]; rfl⟩

/-- A pass finds the job done while the far end is asked to stop it, and the cancel writes over the status recorded. -/
def lateCancel : List Event :=
  [.dispatch ⟨"op1", "main", "sandbox", "sandbox__shell", .null, none⟩ 0, .cancel "op1" 1000, .pass 2000 BACKGROUND_MAX_MS,
    .resume 2 2000 (.done none), .resume 2 2000 .resolved, .resume 2 2000 .resolved, .resume 1 2000 .resolved,
    .resume 1 2000 .resolved]

/-- A pass whose delivery fails: the job is done, and nobody is told. -/
def lostDelivery : List Event :=
  [.dispatch ⟨"op1", "main", "sandbox", "sandbox__shell", .null, none⟩ 0, .pass 2000 BACKGROUND_MAX_MS,
    .resume 1 2000 (.done none), .resume 1 2000 .resolved, .resume 1 2000 (.threw [])]

theorem not_recorded : ¬ (World.run ⟨"t", "a"⟩ lateCancel).Recorded ∧ ¬ (World.run ⟨"t", "a"⟩ lostDelivery).Recorded := by
  decide

/-- Each job ends once: its row is kept, ended by the reply that ends it and never changed after, the status of its
operation agrees with it, and the end of one that is done or failed is told once. -/
theorem ended_once (o : JobOwner) {events : List Event}
    (h : ∀ x ∈ History.turns (World.step o) events World.empty, Orderly x.before x.act = true) :
    Table.Unique (·.id) (World.run o events).tables.jobs ∧
    (History.turns (World.step o) events World.empty).Pairwise (fun x y =>
      ∀ r ∈ x.after.tables.jobs, r.state ≠ .running → r ∈ y.after.tables.jobs) ∧
    (∀ x ∈ History.turns (World.step o) events World.empty, ∀ r ∈ x.before.tables.jobs, r.state = .running →
      ∃ r' ∈ x.after.tables.jobs, r'.call = r.call ∧ r'.state = endState (x.before.ending x.act) r.id) ∧
    (∀ x ∈ History.turns (World.step o) events World.empty, ∀ i now error, x.act = .resume i now (.threw error) →
      ∀ r ∈ x.before.tables.jobs, r.state = .running →
        (∃ r' ∈ x.after.tables.jobs, r'.call = r.call ∧ r'.state = .running) ∨
          ∃ p job, x.before.tasks[i]? = some (.passStopping p job) ∧ job.id = r.id ∧
            p.maxMs + BACKGROUND_STOP_GRACE_MS < p.now - r.createdAt) ∧
    (∀ r ∈ (World.run o events).tables.jobs, ∃ op,
      Table.one (·.id == r.id) (World.run o events).tables.operations = some op ∧
        (op.status = r.state.status ∨ ∃ task ∈ (World.run o events).tasks, task.completes = some (r.id, r.state.status))) ∧
    (∀ r ∈ (World.run o events).tables.jobs, (World.run o events).tables.delivered.countP (·.id == r.id) +
      ((World.run o events).tasks.filterMap (·.delivers)).countP (·.id == r.id) = if r.tellable then 1 else 0) ∧
    (∀ d ∈ (World.run o events).tables.delivered, ∃ r ∈ (World.run o events).tables.jobs, r.Told d) ∧
    (World.run o events).Recorded ∧
    (∀ x ∈ History.turns (World.step o) events World.empty, ∀ checked finished wake,
      x.answer = some (.answered (.passed checked finished wake)) →
        (wake.isSome = true ↔ ∃ r ∈ x.after.tables.jobs, r.state = .running)) := by
  have hrun : Accounted o (World.run o events) := History.final_guarded accounted_empty accounted_step h
  have hfirst : Tracked o World.empty := accounted_empty.toTracked
  have htracked : ∀ x ∈ History.turns (World.step o) events World.empty, Tracked o x.before :=
    History.forall_turns hfirst tracked_step fun e w hw => hw
  refine ⟨hrun.own.unique, ?_, ?_, ?_, hrun.status, ?_, ?_, hrun.recorded, ?_⟩
  · have hpairs : (History.turns (World.step o) events World.empty).Pairwise fun x y => Tracked o x.before →
        ∀ r ∈ x.after.tables.jobs, r.state ≠ .running → r ∈ y.after.tables.jobs := by
      refine History.pairwise_turns (K := fun x s => Tracked o x.before → Tracked o s ∧
        ∀ r ∈ x.after.tables.jobs, r.state ≠ .running → r ∈ s.tables.jobs) ?_ ?_ ?_
      · intro e w hw
        exact ⟨tracked_step e w hw, fun r hr _ => hr⟩
      · intro x e w hK hx
        refine ⟨tracked_step e w (hK hx).1, fun r hr hended => ?_⟩
        obtain ⟨r', hr', -, hsame, -⟩ := rows_step (e := e) (hK hx).1 ((hK hx).2 r hr hended)
        exact hsame hended ▸ hr'
      · intro x e w hK hx r hr hended
        obtain ⟨r', hr', -, hsame, -⟩ := rows_step (e := e) (hK hx).1 ((hK hx).2 r hr hended)
        exact hsame hended ▸ hr'
    exact hpairs.imp_of_mem fun hx _ hP => hP (htracked _ hx)
  · refine History.forall_turns hfirst tracked_step fun e w hw r hr hrunning => ?_
    obtain ⟨r', hr', hcall, -, hstate⟩ := rows_step (e := e) hw hr
    exact ⟨r', hr', hcall, hstate hrunning⟩
  · refine History.forall_turns hfirst tracked_step fun e w hw i now error hact r hr hrunning => ?_
    have hact : e = .resume i now (.threw error) := hact
    subst hact
    exact unconfirmed_step hw hr hrunning
  · intro r hr
    have honce := hrun.once r hr
    rwa [World.messages, List.countP_append] at honce
  · exact fun d hd => hrun.told d (List.mem_append_left _ hd)
  · refine History.forall_turns hfirst tracked_step fun e w hw checked finished wake hanswer => ?_
    obtain ⟨at_, hwake⟩ := step_passed hanswer
    rw [hwake]
    exact wake_isSome at_ (tracked_step e w hw).own.owner

/-- A job a pass finds done and tells of, and a cancel that comes too late to find it. -/
def toldOnce : List Event :=
  [.dispatch ⟨"op1", "main", "sandbox", "sandbox__shell", .null, none⟩ 0, .pass 2000 BACKGROUND_MAX_MS,
    .resume 1 2000 (.done none), .resume 1 2000 .resolved, .resume 1 2000 .resolved, .cancel "op1" 3000]

theorem ended_once_told : (World.run ⟨"t", "a"⟩ toldOnce).settled = true ∧ (World.run ⟨"t", "a"⟩ toldOnce).Recorded :=
  ⟨by decide, (ended_once ⟨"t", "a"⟩ (by decide)).2.2.2.2.2.2.2.1⟩

end Antiproton.Background
