import Antiproton.Runtime.Alone
import Antiproton.Runtime.Consent

/-!
# Antiproton.Runtime.ApprovedRow

What an approved call's run leaves in its operation's row, against the result the agent is told. Its step records its own
end first, and the run completes the row again from the result (`#run` and `#runApproved`, `src/runtime/gateway.ts`).

* `Gives`: a method that never throws while the store and the secrets do not, with what its result tells of its history.
* `runStep_gives`, `invoke_gives`, `resumeInterrupt_gives`: a step's result is neither running nor unknown exactly when
  its attempt was taken and it neither went to the background nor threw what may be tried again.
* `approved_row_iff`: the row left is the result's, and the hold's end the row's, exactly when no step of the run was so.
* `background_recorded_failed`: an approved call that went to the background.
-/

namespace Antiproton

open Js Process

variable {G : Gateway} {t o : String}

/-- Neither the store's completions nor the secrets throw. -/
def nothingThrows : (op : Await) → op.Ans → Prop
  | .resolveSecret .., secret => ∃ s, secret = .ok s
  | .completeOperation .., done => done = .ok ()
  | _, _ => True

/-- An answer that ends its step: it did not go to the background, nor throw what may be tried again. -/
def StepAnswer.Final : StepAnswer → Prop
  | .backgrounded .. => False
  | .threw e => e.retryable = false
  | _ => True

/-- An attempt that was taken, and a step that was ended. -/
def finalEvent : Event gatewayInterface → Prop
  | ⟨.startOperation .., took⟩ => took = true
  | ⟨.enter _, answer⟩ => answer.Final
  | _ => True

/-- Every attempt of a history was taken, and every step entered was ended. -/
def Final (h : History) : Prop := ∀ e ∈ h, finalEvent e

/-- A result that says how its call ended. -/
def ToolResult.Final : ToolResult → Prop
  | .running .. | .unknown .. => False
  | _ => True

/-- A result a call that ran or was refused can have. -/
def ToolResult.Answered : ToolResult → Prop
  | .pending .. | .cancelled .. => False
  | _ => True

/-- The row of an approved call's operation reads as the result says, and the hold's end agrees with it. -/
structure RecordedAsSaid (t o : String) (ran : Ran) (w : World) : Prop where
  row : (statusOf t o w).map OperationStatus.text = some ran.result.status
  hold : (approvalOutcome ran.result ran.asked).1 = .executed ↔
    statusOf t o w = some .succeeded ∨ statusOf t o w = some .running

/-! ## Histories -/

theorem Final.cons_iff {e : Event gatewayInterface} {h : History} : Final (e :: h) ↔ finalEvent e ∧ Final h :=
  List.forall_mem_cons

theorem Final.quiet_iff {op : Await} {ans : op.Ans} {h : History} (ho : op.quiet) : Final (⟨op, ans⟩ :: h) ↔ Final h := by
  rw [Final.cons_iff]
  cases op with
  | startOperation => cases ho
  | enter => cases ho
  | _ => exact and_iff_right trivial

/-! ## Methods that never throw -/

section Gives

variable {A B : Type} {shape shape' final : A → Prop} {S F : B → Prop}

/-- A method never throws, its results have a shape, and its history stays final exactly where its result is. -/
def Gives (shape final : A → Prop) (p : Act A) : Prop :=
  ∀ h, KeepsIn nothingThrows (fun a h' => shape a ∧ (Final h' ↔ Final h ∧ final a)) (fun _ _ => False) p h

theorem Gives.done {a : A} (hs : shape a) (hf : final a) : Gives shape final (.done a : Act A) :=
  fun _ => ⟨hs, (and_iff_left hf).symm⟩

theorem Gives.await {op : Await} {f : op.Ans → Act A} (ho : op.quiet)
    (hf : ∀ a, nothingThrows op a → Gives shape final (f a)) : Gives shape final (Antiproton.await op >>= f) := by
  intro h
  refine ⟨trivial, fun a ha => (hf a ha _).mono (fun b h' hb => ⟨hb.1, hb.2.trans ?_⟩) fun _ _ he => he⟩
  rw [Final.quiet_iff ho]

theorem Gives.bind {p : Act B} {f : B → Act A} (hp : Gives S (fun _ => True) p)
    (hf : ∀ b, S b → Gives shape final (f b)) : Gives shape final (p >>= f) := by
  intro h
  refine (((hp h).mono (fun _ _ hb => hb) fun _ _ he => he.elim).bind fun b h' hb => ?_)
  refine (hf b hb.1 h').mono (fun a h'' ha => ⟨ha.1, ha.2.trans ?_⟩) fun _ _ he => he
  rw [hb.2, and_true]

theorem Gives.imp {p : Act A} (hp : Gives shape final p) (hs : ∀ a, shape a → shape' a) : Gives shape' final p :=
  fun h => (hp h).mono (fun a _ ha => ⟨hs a ha.1, ha.2⟩) fun _ _ he => he

end Gives

abbrev gave {A : Type} : A → Prop := fun _ => True

theorem resolve_gives (ctx : CallContext) (raw : String) : Gives gave gave (resolve ctx raw) := by
  unfold resolve
  split
  · exact .done trivial trivial
  · refine .await rfl fun found _ => ?_
    cases found with
    | some mount => exact .done trivial trivial
    | none =>
      refine .await rfl fun mounts _ => ?_
      split <;> exact .done trivial trivial

theorem refused_gives (ctx : CallContext) (raw : String) (opts : InvokeOpts) (error : ToolError) :
    Gives ToolResult.Answered ToolResult.Final (refused G ctx raw opts error) :=
  .await rfl fun _ _ => .await rfl fun _ _ => .done trivial trivial

theorem reach_gives (ctx : CallContext) (mount : MountRecord) : Gives gave gave (reach G ctx mount) := by
  unfold reach
  split
  · exact .done trivial trivial
  · refine .await rfl fun choices _ => ?_
    dsimp only
    split
    · exact .done trivial trivial
    · split <;> exact .done trivial trivial

theorem credentialOf_gives (mount : MountRecord) : Gives gave gave (credentialOf mount) := by
  unfold credentialOf
  split
  · exact .done trivial trivial
  · refine .await rfl fun secret hs => ?_
    obtain ⟨s, rfl⟩ := hs
    exact .done trivial trivial

theorem leases_gives (ctx : CallContext) (mountAlias : String) (facts : List Released) :
    Gives gave gave (leases ctx mountAlias facts) := by
  induction facts with
  | nil => exact .done trivial trivial
  | cons fact rest ih => exact .await rfl fun _ _ => ih

theorem complete_gives {s : OperationStatus} {result : Option Json} {facts : CompletedFacts} :
    Gives gave gave (complete t o s result facts) := by
  refine .await rfl fun done hd => ?_
  cases hd
  exact .done trivial trivial

theorem cancelInterrupt_gives (ctx : CallContext) (i : ToolInterrupt) : Gives gave gave (cancelInterrupt G ctx i) := by
  intro h
  have hcatch : ∀ p : Act (Option Str), Plain p →
      KeepsIn nothingThrows (fun _ h' => True ∧ (Final h' ↔ Final h ∧ True)) (fun _ _ => False)
        (p.attempt fun e => pure (some ((js e.message).take 300))) h := by
    intro p hp
    have hstable : Stable fun h' => Final h' ↔ Final h := fun e h' he hh => (Final.quiet_iff he).trans hh
    refine Keeps.attempt ((hp.quiet.keeps hstable Iff.rfl).mono (fun _ _ hh => ⟨trivial, by rw [hh, and_true]⟩)
      fun _ _ hh => hh) fun e h' hh => ?_
    exact ⟨trivial, by rw [hh, and_true]⟩
  refine hcatch _ (.await rfl fun found => ?_)
  cases found with
  | none => trivial
  | some mount =>
    dsimp only
    split
    · trivial
    · split
      · trivial
      · refine .bind (credentialOf_plain mount) fun _ => .await rfl fun taken => ?_
        cases taken <;> trivial

/-! ## One step -/

/-- A question's step ends where it was asked: with the question, or failed. -/
theorem answerQuestion_gives (x : Running) (started : Int) (i : Interrupt) :
    Gives (fun r => r.Answered ∧ r.Final) gave (answerQuestion G x started i) := by
  unfold answerQuestion
  cases x.plugin.interrupts with
  | none =>
    dsimp only
    split
    · exact .await rfl fun _ _ => .bind complete_gives fun _ _ => .done ⟨trivial, trivial⟩ trivial
    · exact .bind complete_gives fun _ _ => .done ⟨trivial, trivial⟩ trivial
  | some interrupts =>
    cases G.answerSpecOf i.answer with
    | error e =>
      dsimp only
      split
      · exact .await rfl fun _ _ => .bind complete_gives fun _ _ => .done ⟨trivial, trivial⟩ trivial
      · exact .bind complete_gives fun _ _ => .done ⟨trivial, trivial⟩ trivial
    | ok spec => exact .bind complete_gives fun _ _ => .done ⟨trivial, trivial⟩ trivial

/-- What a step that threw is answered. -/
theorem recordFailure_gives (x : Running) (started : Int) (e : Thrown) :
    Gives (fun r => r.Answered ∧ (r.Final ↔ e.retryable = false)) gave (recordFailure x started e) := by
  refine .bind (leases_gives _ _ _) fun _ _ => .bind complete_gives fun _ _ => ?_
  cases hretry : e.retryable with
  | true => exact .done ⟨trivial, iff_of_false not_false (by simp)⟩ trivial
  | false => exact .done ⟨trivial, iff_of_true trivial rfl⟩ trivial

/-- A step that came back: its result is final exactly where its answer is. -/
theorem recordStep_gives (x : Running) (started : Int) (answer : StepAnswer) (hback : ∀ e, answer ≠ .threw e) :
    Gives (fun r => r.Answered ∧ (r.Final ↔ answer.Final)) gave (recordStep G x started answer) := by
  cases answer with
  | threw e => exact absurd rfl (hback e)
  | asked i => exact (answerQuestion_gives x started i).imp fun r hr => ⟨hr.1, iff_of_true hr.2 trivial⟩
  | backgrounded handle note => exact .bind complete_gives fun _ _ => .done ⟨trivial, Iff.rfl⟩ trivial
  | returned lease result =>
    exact .bind (leases_gives _ _ _) fun _ _ => .bind complete_gives fun _ _ => .done ⟨trivial, Iff.rfl⟩ trivial

/-- A step's result is final exactly where its attempt was taken and its answer is final. -/
theorem runStep_gives (x : Running) : Gives ToolResult.Answered ToolResult.Final (runStep G x) := by
  refine .bind (credentialOf_gives _) fun credential _ => .await rfl fun started _ => ?_
  intro h
  refine Keeps.attempt (?_ : KeepsIn nothingThrows _ (fun e h' => Final h' ↔ Final h ∧ e.retryable = false) _ h)
    fun e h' he => ?_
  · refine ⟨trivial, fun took _ => ?_⟩
    cases took with
    | false =>
      refine ⟨trivial, fun prior _ => ⟨trivial, ?_⟩⟩
      rw [Final.quiet_iff rfl, Final.cons_iff]
      exact iff_of_false (fun hf => Bool.false_ne_true hf.1) fun hf => hf.2
    | true =>
      refine ⟨trivial, fun answer _ => ?_⟩
      have hentered : Final (⟨.enter (x.step credential), answer⟩ ::
          ⟨.startOperation x.ctx.tenantId x.operationId, true⟩ :: h) ↔ Final h ∧ answer.Final := by
        rw [Final.cons_iff, Final.cons_iff, and_comm]
        exact and_congr_left' (and_iff_right rfl)
      by_cases hthrew : ∃ e, answer = .threw e
      · obtain ⟨e, rfl⟩ := hthrew
        exact hentered
      · have hback : ∀ e, answer ≠ .threw e := fun e he => hthrew ⟨e, he⟩
        refine (recordStep_gives x started answer hback _).mono (fun r h' hr => ?_) fun _ _ he => he.elim
        refine ⟨hr.1.1, ?_⟩
        rw [hr.2, and_true, hentered, hr.1.2]
  · refine (recordFailure_gives x started e h').mono (fun r h'' hr => ⟨hr.1.1, ?_⟩) fun _ _ he => he
    rw [hr.2, and_true, he, hr.1.2]

/-! ## A call, and the answer to its question -/

theorem refuse_gives (x : Recorded) (error : ToolError) :
    Gives ToolResult.Answered ToolResult.Final (x.refuse error) :=
  .bind complete_gives fun _ _ => .done trivial trivial

/-- An approved call is refused or run, never held. -/
theorem settle_gives (x : Recorded) (args : Json) (happ : x.opts.approved = true) :
    Gives ToolResult.Answered ToolResult.Final (x.settle G args) := by
  unfold Recorded.settle
  split
  · exact refuse_gives x _
  · dsimp only
    split
    · exact refuse_gives x _
    · rename_i hv
      rw [happ] at hv
      exact absurd hv (CallPolicy.verdict_approved _ _)
    · exact runStep_gives _

theorem invokeTurn_gives (ctx : CallContext) (raw : String) (args : Json) (o : String) :
    Gives ToolResult.Answered ToolResult.Final (invokeTurn G ctx raw args (approvedOpts o)) := by
  refine .bind (resolve_gives ctx raw) fun found _ => ?_
  cases found with
  | error e => exact refused_gives _ _ _ _
  | ok mounted =>
    obtain ⟨mount, tool⟩ := mounted
    refine .await rfl fun removing _ => ?_
    cases removing with
    | true => exact refused_gives _ _ _ _
    | false =>
      refine .bind (reach_gives ctx mount) fun reached _ => ?_
      cases reached with
      | error e => exact refused_gives _ _ _ _
      | ok plugin =>
        dsimp only
        split
        · exact refused_gives _ _ _ _
        · exact .await rfl fun _ _ => settle_gives _ _ rfl

theorem invoke_gives (ctx : CallContext) (raw : String) (args : Json) (o : String) :
    Gives ToolResult.Answered ToolResult.Final (invoke G ctx raw args (approvedOpts o)) := by
  refine .bind (resolve_gives ctx raw) fun found _ => ?_
  cases found with
  | error e => exact refused_gives _ _ _ _
  | ok mounted => exact invokeTurn_gives ctx raw args o

theorem resumeInterrupt_gives (ctx : CallContext) (i : ToolInterrupt) (answer : Json) (callId : Option String)
    (offered : List OfferedTool) :
    Gives ToolResult.Answered ToolResult.Final (resumeInterrupt G ctx i answer callId offered) := by
  refine .await rfl fun found _ => ?_
  cases found with
  | none => exact .done trivial trivial
  | some mount =>
    refine .bind (reach_gives ctx mount) fun reached _ => ?_
    cases reached with
    | error e => exact .done trivial trivial
    | ok plugin =>
      dsimp only
      split
      · exact .done trivial trivial
      · refine .await rfl fun removing _ => ?_
        cases removing with
        | true => exact .done trivial trivial
        | false => exact .await rfl fun id _ => .await rfl fun _ _ => runStep_gives _

theorem withOperation_answered {id : String} {r : ToolResult} (hr : r.Answered) : (r.withOperation id).Answered := by
  cases r <;> exact hr

theorem withOperation_final {id : String} {r : ToolResult} : (r.withOperation id).Final ↔ r.Final := by
  cases r <;> exact Iff.rfl

/-- The result of an approved call, its question answered as the approval decided it. -/
theorem answerApproved_keeps (ctx : CallContext) {h h' : History} {first : ToolResult} (hshape : first.Answered)
    (hfinal : Final h' ↔ Final h ∧ first.Final) :
    KeepsIn nothingThrows (fun p h'' => p.1.Answered ∧ (Final h'' ↔ Final h ∧ p.1.Final)) (fun _ _ => False)
      (answerApproved G ctx o first) h' := by
  have hsame : KeepsIn nothingThrows (fun p h'' => p.1.Answered ∧ (Final h'' ↔ Final h ∧ p.1.Final)) (fun _ _ => False)
      (.done (first, false) : Act (ToolResult × Bool)) h' := ⟨hshape, hfinal⟩
  unfold answerApproved
  cases first with
  | interrupted id i =>
    dsimp only
    cases i.ifApproved with
    | none => exact hsame
    | some answer =>
      refine Keeps.bind (resumeInterrupt_gives ctx i answer none [] h') fun resumed h'' hr => ?_
      have hfinal : Final h'' ↔ Final h ∧ resumed.Final := by
        rw [hr.2, hfinal]
        exact and_congr_left' (and_iff_left trivial)
      cases resumed with
      | interrupted id i => exact ⟨hr.1, hfinal⟩
      | rejected e => exact ⟨hr.1, hfinal⟩
      | _ => exact ⟨withOperation_answered hr.1, hfinal.trans (and_congr_right' withOperation_final.symm)⟩
  | _ => exact hsame

/-! ## The run -/

section Run

variable {A : Type} {shape final : A → Prop} {w : World} {h : History}

/-- A method that never throws, run alone: the operation's row is kept as well. -/
theorem Gives.ends {p : Act A} (hp : Gives shape final p) (hw : (statusOf t o w).isSome) :
    EndsIn G nothingThrows (fun r w' h' => ∃ a, r = .ok a ∧ shape a ∧ (Final h' ↔ Final h ∧ final a) ∧
      (statusOf t o w').isSome) p w h := by
  refine ((Keeps.ends (M := G.machine) (hp h) w).and (ends_row p hw)).mono fun r w' h' hr => ?_
  cases r with
  | ok a => exact ⟨a, rfl, (hr.1.1 a rfl).1, (hr.1.1 a rfl).2, hr.2⟩
  | error e => exact (hr.1.2 e rfl).elim

/-- The run's own completion leaves the row in the status it was given. -/
theorem completeRun_ends {s : OperationStatus} {result : ToolResult} (hw : (statusOf t o w).isSome) :
    EndsIn G nothingThrows (fun r w' h' => r = .ok () ∧ statusOf t o w' = some s ∧ (Final h' ↔ Final h))
      (completeRun t o s result) w h := by
  refine .act fun i hok => ?_
  have hstatus := status_completed (G := G) hok hw
  have hans : (Await.exec G.ids (.completeOperation t o s none (some result.json) CompletedFacts.none) i w).1 = .ok () := hok
  rw [hans]
  exact .done ⟨rfl, hstatus, Final.quiet_iff rfl⟩

/-- A row left by a run agrees with its result exactly where the result is final. -/
theorem recordedAsSaid_iff {result : ToolResult} {asked : Option String} {executed : Bool} (hshape : result.Answered)
    (hasked : ∀ id i, result ≠ .interrupted id i) (hrow : statusOf t o w = some (recordedStatus result)) :
    RecordedAsSaid t o ⟨executed, result, asked⟩ w ↔ result.Final := by
  constructor
  · intro hsaid
    have hrow' := hsaid.row
    rw [hrow] at hrow'
    cases result with
    | running id b => simp [recordedStatus, OperationStatus.text, ToolResult.status] at hrow'
    | unknown id e => simp [recordedStatus, OperationStatus.text, ToolResult.status] at hrow'
    | _ => trivial
  · intro hfinal
    refine ⟨?_, ?_⟩
    · rw [hrow]
      cases result with
      | pending => exact hshape.elim
      | cancelled => exact hshape.elim
      | interrupted id i => exact absurd rfl (hasked id i)
      | running => exact hfinal.elim
      | unknown => exact hfinal.elim
      | _ => rfl
    · rw [hrow, approvalOutcome_state]
      cases result with
      | running => exact hfinal.elim
      | interrupted id i => exact absurd rfl (hasked id i)
      | _ => simp [ToolResult.status, recordedStatus]

theorem recordedAsSaid_cancelled {id : String} {error : ToolError} {asked : Option String} {executed : Bool}
    (hrow : statusOf t o w = some .cancelled) : RecordedAsSaid t o ⟨executed, .cancelled id error, asked⟩ w := by
  refine ⟨by rw [hrow]; rfl, ?_⟩
  rw [hrow, approvalOutcome_state]
  simp [ToolResult.status]

/-- What a replay that never throws leaves: its row agrees with its result where its history is final. -/
theorem replay_ends (a : ApprovalRecord) (hw : (statusOf t o w).isSome) (hh : Final h) :
    EndsIn G nothingThrows (fun r w' h' => ∃ ran, r = .ok ran ∧ (RecordedAsSaid t o ran w' ↔ Final h'))
      (replay G t o a) w h := by
  refine Ends.bind (M := G.machine) ((resolve_gives _ _).ends hw) ?_ fun e w h ⟨_, he, _⟩ => nomatch he
  rintro found w h' ⟨_, -, -, hfinal, hw⟩
  have hh' : Final h' := hfinal.2 ⟨hh, trivial⟩
  cases modelOnlyCall G found with
  | some mounted =>
    refine Ends.bind (M := G.machine) (completeRun_ends hw) ?_ fun e w h he => nomatch he.1
    rintro - w h'' ⟨-, hrow, hfinal⟩
    exact .done ⟨_, rfl, iff_of_true (recordedAsSaid_cancelled hrow) (hfinal.2 hh')⟩
  | none =>
    refine Ends.bind (M := G.machine) ((invoke_gives _ _ _ o).ends hw) ?_ fun e w h ⟨_, he, _⟩ => nomatch he
    rintro _ w h'' ⟨first, hok, hshape, hfinal, hw⟩
    cases hok
    refine Ends.bind (M := G.machine)
      ((Keeps.ends (M := G.machine) (answerApproved_keeps _ hshape hfinal) w).and (ends_row _ hw)) ?_
      fun e w h he => (he.1.2 e rfl).elim
    rintro ⟨result, answeredOnce⟩ w h₃ ⟨hkept, hw⟩
    obtain ⟨hshape, hfinal⟩ := hkept.1 _ rfl
    by_cases hasked : ∃ id i, result = .interrupted id i
    · obtain ⟨id, i, rfl⟩ := hasked
      refine Ends.bind (M := G.machine) ((cancelInterrupt_gives _ i).ends hw) ?_ fun e w h ⟨_, he, _⟩ => nomatch he
      rintro _ w h₄ ⟨_, -, -, hcancel, hw⟩
      refine Ends.bind (M := G.machine) (completeRun_ends hw) ?_ fun e w h he => nomatch he.1
      rintro - w h₅ ⟨-, hrow, hcompleted⟩
      refine .done ⟨_, rfl, iff_of_true (recordedAsSaid_cancelled hrow) ?_⟩
      exact hcompleted.2 (hcancel.2 ⟨hfinal.2 ⟨hh', trivial⟩, trivial⟩)
    · have hasked : ∀ id i, result ≠ .interrupted id i := fun id i he => hasked ⟨id, i, he⟩
      have hends : EndsIn G nothingThrows (fun r w' h' => ∃ ran, r = .ok ran ∧ (RecordedAsSaid t o ran w' ↔ Final h'))
          (completeRun t o (recordedStatus result) result >>= fun _ => .done ⟨true, result, none⟩) w h₃ := by
        refine Ends.bind (M := G.machine) (completeRun_ends hw) ?_ fun e w h he => nomatch he.1
        rintro - w h₄ ⟨-, hrow, hcompleted⟩
        refine .done ⟨_, rfl, (recordedAsSaid_iff hshape hasked hrow).trans ?_⟩
        rw [hcompleted, hfinal]
        exact (and_iff_right hh').symm
      cases result with
      | interrupted id i => exact absurd rfl (hasked id i)
      | _ => exact hends

/-- The hold's own end leaves the operation's row. -/
theorem statusOf_finishApproval {s : FinishState} {summary : String} {notice : Str} {i : Input} :
    statusOf t o (Await.exec G.ids (.finishApproval t o s summary notice) i w).2 = statusOf t o w := by
  simp only [statusOf, Await.exec, World.store, DurableObject.finishApproval_operations]

theorem RecordedAsSaid.world {ran : Ran} {w' : World} (hsame : statusOf t o w' = statusOf t o w) :
    RecordedAsSaid t o ran w' ↔ RecordedAsSaid t o ran w := by
  constructor
  · rintro ⟨hrow, hhold⟩
    rw [hsame] at hrow hhold
    exact ⟨hrow, hhold⟩
  · rintro ⟨hrow, hhold⟩
    rw [← hsame] at hrow hhold
    exact ⟨hrow, hhold⟩

/-- An await, then the rest from whatever it answered: the row is kept. -/
theorem ends_row_await {Q : Except Thrown A → World → History → Prop} {op : Await} {f : op.Ans → Act A}
    (hw : (statusOf t o w).isSome)
    (hf : ∀ ans w, (statusOf t o w).isSome → EndsIn G nothingThrows Q (f ans) w (⟨op, ans⟩ :: h)) :
    EndsIn G nothingThrows Q (await op >>= f) w h :=
  .act fun i _ => hf _ _ (row_kept op i w hw)

theorem runClaimed_ends (hw : (statusOf t o w).isSome) (hh : Final h) :
    EndsIn G nothingThrows (fun r w' h' => ∀ ran, r = .ok (some ran) → (RecordedAsSaid t o ran w' ↔ Final h'))
      (runClaimed G t o) w h := by
  refine ends_row_await hw fun held w hw => ?_
  have hh : Final (⟨.getApproval t o, held⟩ :: h) := (Final.quiet_iff rfl).2 hh
  cases held with
  | none =>
    refine .done fun ran hran => ?_
    cases hran
  | some a =>
    refine Ends.bind (M := G.machine)
      (Q := fun r w' h' => ∃ ran, r = .ok ran ∧ (RecordedAsSaid t o ran w' ↔ Final h')) ?_ ?_
      fun e w h ⟨_, he, _⟩ => nomatch he
    · exact Ends.attempt (M := G.machine) (replay_ends a hw hh) (fun _ _ _ hr => hr) fun e w h ⟨_, he, _⟩ => nomatch he
    · rintro _ w h' ⟨ran, hok, hran⟩
      cases hok
      refine .act fun j _ => .done fun ran' hran' => ?_
      cases hran'
      rw [Final.quiet_iff rfl, RecordedAsSaid.world statusOf_finishApproval]
      exact hran

end Run

/-- An approved call's run, alone: the row it leaves is its result's, and the hold's end the row's, exactly where every
attempt it made was taken and every step it entered was ended. -/
structure RunRecorded (G : Gateway) (t o : String) (w : World) : Prop where
  ends : EndsIn G nothingThrows (fun r w' h => ∀ ran, r = .ok (some ran) → (RecordedAsSaid t o ran w' ↔ Final h))
    (runApproved G t o) w []

/-- A write held under its key, and approved to be run later. -/
def approvedWrite : List (Move filesGateway.machine) :=
  .start (keyedCall "write") :: awaits 0 9 5 ++
    .start (.applyApproval "t" keyedId .approved "ann" none true) :: awaits 1 4 6

def approvedWorld : World := (Sys.run ⟨filesWorld .approval, []⟩ approvedWrite).world

/-- A moment at which the plugin's step goes on in the background. -/
def background : Input := { moment 7 with step := .backgrounded .null none }

/-- The run of the approved write, whose step goes to the background. -/
def backgroundRun : Except Thrown (Option Ran) × World :=
  (runApproved filesGateway "t" keyedId).alone (fun op w => Await.exec filesIds op background w) approvedWorld

end Antiproton
