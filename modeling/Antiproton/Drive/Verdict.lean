import Antiproton.Core.Js
import Mathlib.Data.Rat.Defs
import Mathlib.Order.Basic
import Mathlib.Order.MinMax
import Mathlib.Algebra.Order.Ring.Rat

/-!
# Antiproton.Drive.Verdict

When the harness may be closed and woken again by an alarm (`parkVerdict`, `src/runtime/durable-drive.ts`). A verdict
is read from a snapshot: the tasks and submissions the scheduler reports, the documents of their conversations, and
the calls that wait on someone outside the object. Times are exact numbers.

* `readTask_cases`: each task is waiting, outside, or asleep, or the verdict is `wait`.
* `parkVerdict_still`: any other verdict means that nothing runs.
* `parkVerdict_park`, `parkVerdict_external`, `parkVerdict_idle`: what each of them names and leaves.
-/

namespace Antiproton
namespace Drive

open Js

/-! ## The snapshot -/

/-- A slot of a run's tool calls. -/
structure ToolSlot where
  callId : Str
  status : String
deriving DecidableEq, Repr

/-- `LiveState`, of what the verdict reads: whether a response is streaming, the tool slots, and whether a run holds
the conversation. -/
structure LiveState where
  streaming : Bool
  tools : List ToolSlot
  run : Bool
deriving DecidableEq, Repr

/-- `ConversationDocs`: `pi.live`, and how many items `pi.inbox` has. -/
structure ConversationDocs where
  live : Option LiveState
  inbox : Option Nat
deriving DecidableEq, Repr

/-- A task's record: its checkpoint is there while its status is `running`. -/
structure TaskRecord where
  id : String
  kind : String
  conversationId : String
  abortRequested : Bool
  input : Json
  status : String
  checkpoint : Option Json

/-- What the scheduler says of a task. -/
structure TaskState where
  kind : String
  sleepingUntil : Option ℚ

structure TaskInspection where
  record : TaskRecord
  state : TaskState

structure Submission where
  id : String
  conversationId : String
  status : String
deriving DecidableEq, Repr

/-- `HarnessInspection`. -/
structure Inspection where
  tasks : List TaskInspection
  submissions : List Submission

/-- Call ids, by conversation, whose tool waits on someone outside. -/
abbrev ExternalWaits := List (String × List Str)

/-- `DriveSnapshot`. -/
structure DriveSnapshot where
  now : ℚ
  inspection : Inspection
  docs : List (String × ConversationDocs)
  externalWaits : ExternalWaits

/-- `docs.get(id)`. -/
def DriveSnapshot.docsOf (s : DriveSnapshot) (id : String) : Option ConversationDocs :=
  (s.docs.find? fun d => d.1 == id).map (·.2)

/-- `external`: a call of a conversation that waits on someone outside. -/
def DriveSnapshot.external (s : DriveSnapshot) (id : String) (callId : Option Json) : Bool :=
  match callId with
  | some (.str c) => (s.externalWaits.find? fun w => w.1 == id).any fun w => w.2.contains c
  | _ => false

/-! ## The verdict -/

structure Sleeper where
  taskId : String
  phase : Option Str
  until_ : ℚ
deriving DecidableEq

structure ExternalWait where
  taskId : String
  conversationId : String
  callId : Option Json

/-- The reasons of `wait`, each with what its text names. -/
inductive WaitReason where
  /-- `conversation … is streaming a response` -/
  | streaming (conversation : String)
  /-- `conversation … has tool call … …` -/
  | busySlot (conversation : String) (slot : ToolSlot)
  /-- `conversation … has queued input and no run` -/
  | queuedInput (conversation : String)
  /-- `submission … belongs to a conversation not read` -/
  | submissionUnread (submission : String)
  /-- `submission … is queued with no run` -/
  | submissionQueued (submission : String)
  /-- `submissions are unsettled with no live task` -/
  | unsettled
  /-- `task … (…) belongs to a conversation not read` -/
  | taskUnread (task kind : String)
  /-- `task … (…) is marked for abort` -/
  | abortRequested (task kind : String)
  /-- `task … (…) is …` -/
  | taskState (task kind state : String)
  /-- `task … (…) is working (…)` -/
  | working (task kind : String) (phase : Option Str)
  /-- `task … (…) is due: sleeping until …, now …` -/
  | due (task kind : String) (until_ now : ℚ)
  /-- `every live task waits on another and none sleeps` -/
  | allWaiting
  /-- `the state moved under every read` -/
  | moved
deriving DecidableEq

inductive ParkVerdict where
  | idle
  | park (until_ : ℚ) (sleepers : List Sleeper) (external : List ExternalWait)
  | external (external : List ExternalWait)
  | wait (reason : WaitReason)

def ParkVerdict.isWait : ParkVerdict → Bool
  | wait _ => true
  | _ => false

/-- `ToolTask.definition.name`. -/
def toolTask : String := "pi.tool"

/-- A slot that is neither done nor a running external wait. -/
def busy (s : DriveSnapshot) (id : String) (slot : ToolSlot) : Bool :=
  slot.status != "done" && !(slot.status == "running" && s.external id (some (.str slot.callId)))

/-- What a conversation's documents say against closing. -/
def docsReason (s : DriveSnapshot) (d : String × ConversationDocs) : Option WaitReason :=
  if d.2.live.any (·.streaming) then some (.streaming d.1)
  else match (d.2.live.map (·.tools)).bind fun slots => slots.find? (busy s d.1) with
    | some slot => some (.busySlot d.1 slot)
    | none => if 0 < d.2.inbox.getD 0 && !d.2.live.any (·.run) then some (.queuedInput d.1) else none

/-- What a submission says against closing. -/
def submissionReason (s : DriveSnapshot) (x : Submission) : Option WaitReason :=
  match s.docsOf x.conversationId with
  | none => some (.submissionUnread x.id)
  | some d => if x.status == "queued" && !d.live.any (·.run) then some (.submissionQueued x.id) else none

/-- What a task is doing. -/
inductive Reading where
  | waiting
  | outside (w : ExternalWait)
  | asleep (x : Sleeper)

/-- The checkpoint of a running task. -/
def TaskInspection.checkpoint (t : TaskInspection) : Option Json :=
  if t.record.status == "running" then t.record.checkpoint else none

/-- The phase of a checkpoint, where it is a text. -/
def phaseOf (checkpoint : Option Json) : Option Str :=
  match checkpoint.bind (Json.field? (js "phase")) with
  | some (.str p) => some p
  | _ => none

/-- A task that waits on other tasks. -/
def TaskInspection.waits (t : TaskInspection) : Bool := t.state.kind == "waiting" && t.record.status == "waiting"

/-- A tool task executing a call that waits on someone outside. -/
def TaskInspection.executesOutside (s : DriveSnapshot) (t : TaskInspection) : Bool :=
  t.record.kind == toolTask && t.state.kind == "running" && t.record.status == "running" &&
    phaseOf t.checkpoint == some (js "execute") &&
    s.external t.record.conversationId (t.record.input.field? (js "callId"))

/-- One pass of the loop over the tasks. -/
def readTask (s : DriveSnapshot) (margin : ℚ) (t : TaskInspection) : Except WaitReason Reading :=
  let r := t.record
  if (s.docsOf r.conversationId).isNone then .error (.taskUnread r.id r.kind)
  else if r.abortRequested then .error (.abortRequested r.id r.kind)
  else if t.waits then .ok .waiting
  else if t.executesOutside s then .ok (.outside ⟨r.id, r.conversationId, r.input.field? (js "callId")⟩)
  else if t.state.kind != "running" || r.status != "running" then .error (.taskState r.id r.kind t.state.kind)
  else match t.state.sleepingUntil with
    | none => .error (.working r.id r.kind (phaseOf t.checkpoint))
    | some until_ =>
      if until_ - s.now < margin then .error (.due r.id r.kind until_ s.now)
      else .ok (.asleep ⟨r.id, phaseOf t.checkpoint, until_⟩)

/-- The loop over the tasks. -/
def readTasks (s : DriveSnapshot) (margin : ℚ) : List TaskInspection → Except WaitReason (List Reading)
  | [] => .ok []
  | t :: rest =>
    match readTask s margin t with
    | .error e => .error e
    | .ok x =>
      match readTasks s margin rest with
      | .error e => .error e
      | .ok xs => .ok (x :: xs)

def Reading.sleeper? : Reading → Option Sleeper
  | asleep x => some x
  | _ => none

def Reading.outside? : Reading → Option ExternalWait
  | outside w => some w
  | _ => none

/-- `parkVerdict`. -/
def parkVerdict (s : DriveSnapshot) (minParkMs : ℚ) : ParkVerdict :=
  match s.docs.findSome? (docsReason s) with
  | some reason => .wait reason
  | none =>
    match s.inspection.submissions.findSome? (submissionReason s) with
    | some reason => .wait reason
    | none =>
      if s.inspection.tasks.isEmpty then
        if s.inspection.submissions.isEmpty then .idle else .wait .unsettled
      else
        match readTasks s (max 1 minParkMs) s.inspection.tasks with
        | .error reason => .wait reason
        | .ok readings =>
          let external := readings.filterMap Reading.outside?
          match readings.filterMap Reading.sleeper? with
          | [] => if external.isEmpty then .wait .allWaiting else .external external
          | x :: rest => .park ((rest.map (·.until_)).foldl min x.until_) (x :: rest) external

/-! ## What a verdict says -/

/-- A task asleep: inside a sleep, neither waiting on other tasks nor executing a call that waits outside. -/
def Asleep (s : DriveSnapshot) (t : TaskInspection) (until_ : ℚ) : Prop :=
  t.waits = false ∧ t.executesOutside s = false ∧ t.state.kind = "running" ∧ t.record.status = "running" ∧
    t.state.sleepingUntil = some until_

/-- A conversation nothing of which is at work. -/
structure Quiet (s : DriveSnapshot) (id : String) (d : ConversationDocs) : Prop where
  still : ∀ live ∈ d.live, live.streaming = false
  slots : ∀ live ∈ d.live, ∀ slot ∈ live.tools,
    slot.status = "done" ∨ slot.status = "running" ∧ s.external id (some (.str slot.callId)) = true
  queue : 0 < d.inbox.getD 0 → ∃ live ∈ d.live, live.run = true

/-- A snapshot in which nothing runs and nothing is about to. -/
structure Still (s : DriveSnapshot) (minParkMs : ℚ) : Prop where
  docs : ∀ d ∈ s.docs, Quiet s d.1 d.2
  submissions : ∀ x ∈ s.inspection.submissions, (s.docsOf x.conversationId).isSome
  read : ∀ t ∈ s.inspection.tasks, (s.docsOf t.record.conversationId).isSome
  tasks : ∀ t ∈ s.inspection.tasks, t.record.abortRequested = false ∧
    (t.waits = true ∨ t.executesOutside s = true ∨
      ∃ until_, Asleep s t until_ ∧ max 1 minParkMs ≤ until_ - s.now)

section Verdict

variable {s : DriveSnapshot} {minParkMs margin : ℚ}

theorem quiet_of_docsReason {d : String × ConversationDocs} (h : docsReason s d = none) : Quiet s d.1 d.2 := by
  unfold docsReason at h
  split at h
  · cases h
  rename_i hstill
  split at h
  · cases h
  rename_i hslots
  split at h
  · cases h
  rename_i hqueue
  refine ⟨fun live hl => ?_, fun live hl slot hslot => ?_, fun hpos => ?_⟩
  · by_contra hs
    exact hstill (by rw [hl]; simpa using hs)
  · rw [hl, Option.map_some, Option.bind_some, List.find?_eq_none] at hslots
    have hfree := hslots slot hslot
    simp only [busy, Bool.and_eq_true, bne_iff_ne, ne_eq, Bool.not_eq_true', Bool.not_eq_true, not_and,
      Bool.not_eq_false, beq_iff_eq] at hfree
    by_cases hdone : slot.status = "done"
    · exact .inl hdone
    · exact .inr (by simpa using hfree hdone)
  · have hrun : d.2.live.any (·.run) = true := by
      by_contra hnone
      exact hqueue (Bool.and_eq_true_iff.2 ⟨decide_eq_true hpos, by simpa using hnone⟩)
    exact (Option.any_eq_true _ _).1 hrun

theorem read_of_submissionReason {x : Submission} (h : submissionReason s x = none) :
    (s.docsOf x.conversationId).isSome := by
  unfold submissionReason at h
  split at h
  · cases h
  · rename_i d hd
    rw [hd]
    rfl

/-- A task that is read is of a conversation that was, not marked for abort, and of one of three kinds. -/
theorem readTask_cases {t : TaskInspection} {x : Reading} (h : readTask s margin t = .ok x) :
    (s.docsOf t.record.conversationId).isSome ∧ t.record.abortRequested = false ∧
      (x = .waiting ∧ t.waits = true ∨
        (∃ w, x = .outside w ∧ t.waits = false ∧ t.executesOutside s = true) ∨
        ∃ y : Sleeper, x = .asleep y ∧ Asleep s t y.until_ ∧ margin ≤ y.until_ - s.now) := by
  unfold readTask at h
  dsimp only at h
  split at h
  · cases h
  rename_i hread
  split at h
  · cases h
  rename_i habort
  refine ⟨by simpa [Option.isNone_iff_eq_none, Option.isSome_iff_ne_none] using hread, by simpa using habort, ?_⟩
  split at h
  · rename_i hwaits
    cases h
    exact .inl ⟨rfl, hwaits⟩
  rename_i hwaits
  split at h
  · rename_i hout
    cases h
    exact .inr (.inl ⟨_, rfl, by simpa using hwaits, hout⟩)
  rename_i hout
  split at h
  · cases h
  rename_i hrunning
  split at h
  · cases h
  rename_i until_ huntil
  split at h
  · cases h
  rename_i hdue
  cases h
  simp only [Bool.or_eq_true, bne_iff_ne, ne_eq, not_or, not_not] at hrunning
  exact .inr (.inr ⟨_, rfl, ⟨by simpa using hwaits, by simpa using hout, hrunning.1, hrunning.2, huntil⟩, not_lt.1 hdue⟩)

theorem readTasks_forall {tasks : List TaskInspection} {readings : List Reading}
    (h : readTasks s margin tasks = .ok readings) :
    List.Forall₂ (fun t x => readTask s margin t = .ok x) tasks readings := by
  induction tasks generalizing readings with
  | nil => cases h; exact .nil
  | cons t rest ih =>
    unfold readTasks at h
    split at h
    · cases h
    rename_i x hx
    split at h
    · cases h
    rename_i xs hxs
    cases h
    exact .cons hx (ih hxs)

/-- Every task is one of the readings, and every reading one of the tasks. -/
theorem readTasks_mem {tasks : List TaskInspection} {readings : List Reading}
    (h : readTasks s margin tasks = .ok readings) :
    (∀ t ∈ tasks, ∃ x ∈ readings, readTask s margin t = .ok x) ∧
      ∀ x ∈ readings, ∃ t ∈ tasks, readTask s margin t = .ok x := by
  have hall := readTasks_forall h
  clear h
  induction hall with
  | nil => exact ⟨by simp, by simp⟩
  | cons hx _ ih =>
    refine ⟨fun t ht => ?_, fun x hxs => ?_⟩
    · rcases List.mem_cons.1 ht with rfl | ht
      · exact ⟨_, List.mem_cons_self, hx⟩
      · obtain ⟨y, hy, hread⟩ := ih.1 t ht
        exact ⟨y, List.mem_cons_of_mem _ hy, hread⟩
    · rcases List.mem_cons.1 hxs with rfl | hxs
      · exact ⟨_, List.mem_cons_self, hx⟩
      · obtain ⟨t, ht, hread⟩ := ih.2 x hxs
        exact ⟨t, List.mem_cons_of_mem _ ht, hread⟩

/-- The sleepers of the readings are the tasks asleep. -/
theorem sleepers_iff {tasks : List TaskInspection} {readings : List Reading}
    (h : readTasks s margin tasks = .ok readings) (until_ : ℚ) :
    (∃ y ∈ readings.filterMap Reading.sleeper?, y.until_ = until_) ↔ ∃ t ∈ tasks, Asleep s t until_ := by
  obtain ⟨hto, hof⟩ := readTasks_mem h
  constructor
  · rintro ⟨y, hy, rfl⟩
    obtain ⟨x, hx, hxy⟩ := List.mem_filterMap.1 hy
    obtain ⟨t, ht, hread⟩ := hof x hx
    rcases (readTask_cases hread).2.2 with ⟨rfl, -⟩ | ⟨w, rfl, -⟩ | ⟨y', rfl, hasleep, -⟩
    · cases hxy
    · cases hxy
    · cases hxy
      exact ⟨t, ht, hasleep⟩
  · rintro ⟨t, ht, hasleep⟩
    obtain ⟨x, hx, hread⟩ := hto t ht
    rcases (readTask_cases hread).2.2 with ⟨-, hwaits⟩ | ⟨w, -, -, hout⟩ | ⟨y, rfl, hasleep', -⟩
    · rw [hasleep.1] at hwaits
      cases hwaits
    · rw [hasleep.2.1] at hout
      cases hout
    · refine ⟨y, List.mem_filterMap.2 ⟨_, hx, rfl⟩, ?_⟩
      exact Option.some.inj (hasleep'.2.2.2.2.symm.trans hasleep.2.2.2.2)

/-- Where the verdict is not `wait`: nothing is against closing, and either there are no tasks or each of them was
read. -/
theorem parkVerdict_cases (h : (parkVerdict s minParkMs).isWait = false) :
    s.docs.findSome? (docsReason s) = none ∧ s.inspection.submissions.findSome? (submissionReason s) = none ∧
      (s.inspection.tasks = [] ∧ s.inspection.submissions = [] ∧ parkVerdict s minParkMs = .idle ∨
        ∃ readings, s.inspection.tasks ≠ [] ∧ readTasks s (max 1 minParkMs) s.inspection.tasks = .ok readings ∧
          (readings.filterMap Reading.sleeper? = [] ∧
              parkVerdict s minParkMs = .external (readings.filterMap Reading.outside?) ∨
            ∃ x rest, readings.filterMap Reading.sleeper? = x :: rest ∧
              parkVerdict s minParkMs = .park ((rest.map (·.until_)).foldl min x.until_) (x :: rest)
                (readings.filterMap Reading.outside?))) := by
  unfold parkVerdict at h ⊢
  cases hdocs : s.docs.findSome? (docsReason s) with
  | some reason => rw [hdocs] at h; cases h
  | none =>
    cases hsubs : s.inspection.submissions.findSome? (submissionReason s) with
    | some reason => rw [hdocs, hsubs] at h; cases h
    | none =>
      refine ⟨rfl, rfl, ?_⟩
      rw [hdocs, hsubs] at h
      dsimp only at h ⊢
      split at h
      · rename_i htasks
        split at h
        · rename_i hsubmissions
          refine .inl ⟨List.isEmpty_iff.1 htasks, List.isEmpty_iff.1 hsubmissions, ?_⟩
          rw [if_pos htasks, if_pos hsubmissions]
        · cases h
      · rename_i htasks
        cases hread : readTasks s (max 1 minParkMs) s.inspection.tasks with
        | error reason => rw [hread] at h; cases h
        | ok readings =>
          refine .inr ⟨readings, fun hnil => htasks (List.isEmpty_iff.2 hnil), rfl, ?_⟩
          rw [hread] at h
          dsimp only at h ⊢
          rw [if_neg htasks]
          cases hsleepers : readings.filterMap Reading.sleeper? with
          | nil =>
            rw [hsleepers] at h
            dsimp only at h ⊢
            refine .inl ⟨rfl, ?_⟩
            split at h
            · cases h
            · rename_i hext
              rw [if_neg hext]
          | cons x rest => exact .inr ⟨x, rest, rfl, rfl⟩

/-- A verdict other than `wait` means that nothing runs and nothing is about to. -/
theorem parkVerdict_still (h : (parkVerdict s minParkMs).isWait = false) : Still s minParkMs := by
  obtain ⟨hdocs, hsubs, hcases⟩ := parkVerdict_cases h
  rw [List.findSome?_eq_none_iff] at hdocs hsubs
  have htasks : ∀ t ∈ s.inspection.tasks, ∃ x, readTask s (max 1 minParkMs) t = .ok x := by
    intro t ht
    rcases hcases with ⟨hnil, -⟩ | ⟨readings, -, hread, -⟩
    · rw [hnil] at ht
      cases ht
    · obtain ⟨x, -, hx⟩ := (readTasks_mem hread).1 t ht
      exact ⟨x, hx⟩
  refine ⟨fun d hd => quiet_of_docsReason (hdocs d hd), fun x hx => read_of_submissionReason (hsubs x hx),
    fun t ht => ?_, fun t ht => ?_⟩
  · obtain ⟨x, hx⟩ := htasks t ht
    exact (readTask_cases hx).1
  · obtain ⟨x, hx⟩ := htasks t ht
    obtain ⟨-, habort, hkind⟩ := readTask_cases hx
    refine ⟨habort, ?_⟩
    rcases hkind with ⟨-, hwaits⟩ | ⟨w, -, -, hout⟩ | ⟨y, -, hasleep, hdue⟩
    · exact .inl hwaits
    · exact .inr (.inl hout)
    · exact .inr (.inr ⟨y.until_, hasleep, hdue⟩)

theorem foldl_min_le (l : List ℚ) (m : ℚ) : l.foldl min m ≤ m ∧ ∀ x ∈ l, l.foldl min m ≤ x := by
  induction l generalizing m with
  | nil => exact ⟨le_refl m, by simp⟩
  | cons x l ih =>
    obtain ⟨hm, hl⟩ := ih (min m x)
    refine ⟨hm.trans (min_le_left m x), fun y hy => ?_⟩
    rcases List.mem_cons.1 hy with rfl | hy
    · exact hm.trans (min_le_right m y)
    · exact hl y hy

theorem foldl_min_mem (l : List ℚ) (m : ℚ) : l.foldl min m = m ∨ l.foldl min m ∈ l := by
  induction l generalizing m with
  | nil => exact .inl rfl
  | cons x l ih =>
    rcases ih (min m x) with h | h
    · rcases min_choice m x with hm | hm
      · exact .inl (h.trans hm)
      · exact .inr (List.mem_cons.2 (.inl (h.trans hm)))
    · exact .inr (List.mem_cons_of_mem _ h)

/-- `park` names the earliest wake of the tasks asleep. -/
theorem parkVerdict_park {until_ : ℚ} {sleepers : List Sleeper} {external : List ExternalWait}
    (h : parkVerdict s minParkMs = .park until_ sleepers external) :
    (∃ t ∈ s.inspection.tasks, Asleep s t until_) ∧
      ∀ t ∈ s.inspection.tasks, ∀ u, Asleep s t u → until_ ≤ u := by
  have hopen : (parkVerdict s minParkMs).isWait = false := by
    rw [h]
    rfl
  obtain ⟨-, -, hcases⟩ := parkVerdict_cases hopen
  rcases hcases with ⟨-, -, hidle⟩ | ⟨readings, -, hread, ⟨-, hext⟩ | ⟨x, rest, hsleepers, hpark⟩⟩
  · rw [h] at hidle
    cases hidle
  · rw [h] at hext
    cases hext
  rw [h] at hpark
  cases hpark
  refine ⟨(sleepers_iff hread _).1 ?_, fun t ht u hu => ?_⟩
  · rw [hsleepers]
    rcases foldl_min_mem (rest.map (·.until_)) x.until_ with hm | hm
    · exact ⟨x, List.mem_cons_self, hm.symm⟩
    · obtain ⟨y, hy, hyu⟩ := List.mem_map.1 hm
      exact ⟨y, List.mem_cons_of_mem _ hy, hyu⟩
  · obtain ⟨y, hy, rfl⟩ := (sleepers_iff hread u).2 ⟨t, ht, hu⟩
    rw [hsleepers] at hy
    obtain ⟨hfirst, hrest⟩ := foldl_min_le (rest.map (·.until_)) x.until_
    rcases List.mem_cons.1 hy with rfl | hy
    · exact hfirst
    · exact hrest _ (List.mem_map_of_mem hy)

/-- `external` leaves no task asleep. -/
theorem parkVerdict_external {external : List ExternalWait} (h : parkVerdict s minParkMs = .external external) :
    ∀ t ∈ s.inspection.tasks, ∀ u, ¬Asleep s t u := by
  have hopen : (parkVerdict s minParkMs).isWait = false := by
    rw [h]
    rfl
  obtain ⟨-, -, hcases⟩ := parkVerdict_cases hopen
  rcases hcases with ⟨-, -, hidle⟩ | ⟨readings, -, hread, ⟨hnone, -⟩ | ⟨x, rest, -, hpark⟩⟩
  · rw [h] at hidle
    cases hidle
  · intro t ht u hu
    obtain ⟨y, hy, -⟩ := (sleepers_iff hread u).2 ⟨t, ht, hu⟩
    rw [hnone] at hy
    cases hy
  · rw [h] at hpark
    cases hpark

/-- `idle` leaves no task and no submission. -/
theorem parkVerdict_idle (h : parkVerdict s minParkMs = .idle) :
    s.inspection.tasks = [] ∧ s.inspection.submissions = [] := by
  have hopen : (parkVerdict s minParkMs).isWait = false := by
    rw [h]
    rfl
  obtain ⟨-, -, hcases⟩ := parkVerdict_cases hopen
  rcases hcases with ⟨htasks, hsubs, -⟩ | ⟨readings, -, -, ⟨-, hext⟩ | ⟨x, rest, -, hpark⟩⟩
  · exact ⟨htasks, hsubs⟩
  · rw [h] at hext
    cases hext
  · rw [h] at hpark
    cases hpark

end Verdict

end Drive
end Antiproton
