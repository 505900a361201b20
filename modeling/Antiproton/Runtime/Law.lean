import Antiproton.Runtime.Approvals

/-!
# Antiproton.Runtime.Law

What every gateway method does on its own, whatever runs beside it (`keeps_law`):

* it enters a plugin's step only after a start of its own that took the attempt, and for a call with a key
  only under the key's operation;
* outside a call, it starts an operation only for a claim of its own, unless the operation is the answer
  to a question, and ends one as more than refused only after a claim or a denial of its own;
* it holds no operation drawn for an answer, and completes none as `pending`.
-/

namespace Antiproton

open Js Process

abbrev History := List (Event gatewayInterface)

variable {G : Gateway}

/-! ## What a history says of one operation -/

section Counts

variable (t o : String)

/-- The share of one event: a start of the operation. -/
def startsOf (e : Event gatewayInterface) : Nat :=
  match e with
  | ⟨.startOperation t' o', _⟩ => if t' = t ∧ o' = o then 1 else 0
  | _ => 0

/-- A start that took the attempt. -/
def takesOf (e : Event gatewayInterface) : Nat :=
  match e with
  | ⟨.startOperation t' o', took⟩ => if t' = t ∧ o' = o ∧ took = true then 1 else 0
  | _ => 0

/-- A step of a plugin entered under the operation. -/
def entersOf (e : Event gatewayInterface) : Nat :=
  match e with
  | ⟨.enter step, _⟩ => if step.tenantId = t ∧ step.operationId = o then 1 else 0
  | _ => 0

/-- A claim of the operation's run. -/
def claimsOf (e : Event gatewayInterface) : Nat :=
  match e with
  | ⟨.claimApprovalRun t' o' _, took⟩ => if t' = t ∧ o' = o ∧ took = true then 1 else 0
  | _ => 0

/-- A claim of the operation's run, or a decision that ended its hold. -/
def endsHold (e : Event gatewayInterface) : Prop :=
  match e with
  | ⟨.claimApprovalRun t' o' _, took⟩ => t' = t ∧ o' = o ∧ took = true
  | ⟨.decideApproval t' o' d _ _ _, out⟩ =>
    t' = t ∧ o' = o ∧ d ≠ .approved ∧ ∃ record, out = DecideOutcome.ok record
  | _ => False

end Counts

/-- An id drawn for the answer to a question. -/
def Gateway.Resume (G : Gateway) (o : String) : Prop := ∃ n, o = G.ids.drawn .resume n

/-- Whether a request is a call: its operation needs no approval to be started. -/
def Request.isCall : Request → Bool
  | .invoke .. => true
  | _ => false

/-- The operation of a call with a key. -/
def Request.keyed (G : Gateway) : Request → Option (String × String)
  | .invoke ctx _ _ opts => opts.invokeOpts.key.map fun key => (ctx.tenantId, G.ids.keyed ctx.tenantId ctx.taskId key)
  | _ => none

/-- The hold of the operation was ended in this history. -/
def Ended (t o : String) (h : History) : Prop := ∃ e ∈ h, endsHold t o e

/-- The law of a request's program. -/
def law (G : Gateway) (r : Request) : Law gatewayInterface := fun h o =>
  match o with
  | .enter step =>
    tally (entersOf step.tenantId step.operationId) h < tally (takesOf step.tenantId step.operationId) h ∧
      ∀ k, r.keyed G = some k → k = (step.tenantId, step.operationId)
  | .startOperation t o =>
    r.isCall ∨ G.Resume o ∨ tally (startsOf t o) h < tally (claimsOf t o) h
  | .completeOperation t o s _ _ _ => s ≠ .pending ∧ (startable s ∨ r.isCall ∨ G.Resume o ∨ Ended t o h)
  | .holdApproval a _ => ¬ G.Resume a.operationId
  | _ => True

/-- The answers an await can give: an id drawn is one of its purpose. -/
def Gateway.possible (G : Gateway) : (o : Await) → o.Ans → Prop
  | .randomId purpose, id => ∃ n, id = G.ids.drawn purpose n
  | _, _ => True

theorem exec_possible (o : Await) (i : Input) (w : World) : G.possible o (Await.exec G.ids o i w).1 := by
  cases o with
  | randomId purpose => exact ⟨w.drawn, rfl⟩
  | _ => trivial

/-! ## What a history keeps

`Sound` holds between a method's steps, `Ready` while it may start an operation, and `Spent` while it may
end one. -/

section Keep

variable {r : Request} {t o : String} {h : History}

/-- No step entered without an attempt, and, outside a call, no start without a claim. -/
structure Sound (G : Gateway) (r : Request) (h : History) : Prop where
  entered : ∀ t o, tally (entersOf t o) h ≤ tally (takesOf t o) h
  started : ∀ t o, r.isCall ∨ G.Resume o ∨ tally (startsOf t o) h ≤ tally (claimsOf t o) h

structure Ready (G : Gateway) (r : Request) (t o : String) (h : History) : Prop where
  sound : Sound G r h
  own : ∀ k, r.keyed G = some k → k = (t, o)
  may : r.isCall ∨ G.Resume o ∨ tally (startsOf t o) h < tally (claimsOf t o) h

def Spent (G : Gateway) (r : Request) (t o : String) (h : History) : Prop :=
  Sound G r h ∧ (r.isCall ∨ G.Resume o ∨ Ended t o h)

theorem own_of_unkeyed (hr : r.keyed G = none) (k : String × String) (hk : r.keyed G = some k) : k = (t, o) := by
  rw [hr] at hk
  cases hk

theorem sound_nil : Sound G r [] := ⟨fun _ _ => Nat.le_refl 0, fun _ _ => .inr (.inr (Nat.le_refl 0))⟩

theorem endsHold_of_claim {e : Event gatewayInterface} (he : 0 < claimsOf t o e) : endsHold t o e := by
  obtain ⟨op, ans⟩ := e
  cases op with
  | claimApprovalRun t' o' at_ =>
    simp only [claimsOf] at he
    split at he
    · assumption
    · exact absurd he (Nat.lt_irrefl 0)
  | _ => exact absurd he (Nat.lt_irrefl 0)

/-- More claims than starts: one of the claims ended the hold. -/
theorem Ready.spent (hr : Ready G r t o h) : Spent G r t o h := by
  obtain ⟨hs, -, hc | hc | hc⟩ := hr
  · exact ⟨hs, .inl hc⟩
  · exact ⟨hs, .inr (.inl hc)⟩
  · obtain ⟨e, hm, he⟩ := exists_of_tally_pos (Nat.lt_of_le_of_lt (Nat.zero_le _) hc)
    exact ⟨hs, .inr (.inr ⟨e, hm, endsHold_of_claim he⟩)⟩

/-- An await that neither starts an operation nor enters a step. -/
def Await.quiet : Await → Bool
  | .startOperation .. | .enter .. => false
  | _ => true

/-- A quiet await that writes no operation and no hold: every history may take it. -/
def Await.plain : Await → Bool
  | .startOperation .. | .enter .. | .completeOperation .. | .holdApproval .. => false
  | _ => true

theorem Await.quiet_of_plain {o : Await} (ho : o.plain) : o.quiet := by cases o <;> first | rfl | exact ho

theorem law_plain {o : Await} (ho : o.plain) : law G r h o := by cases o <;> trivial

/-- What no quiet await takes away. -/
def Stable (I : History → Prop) : Prop := ∀ e h, e.op.quiet → I h → I (e :: h)

theorem quiet_counts {e : Event gatewayInterface} (he : e.op.quiet) :
    startsOf t o e = 0 ∧ takesOf t o e = 0 ∧ entersOf t o e = 0 := by
  obtain ⟨op, ans⟩ := e
  cases op with
  | startOperation => cases he
  | enter => cases he
  | _ => exact ⟨rfl, rfl, rfl⟩

theorem sound_stable : Stable (Sound G r) := by
  intro e h he hs
  refine ⟨fun t o => ?_, fun t o => ?_⟩
  · obtain ⟨-, h1, h2⟩ := quiet_counts (t := t) (o := o) he
    simp only [tally_cons, h1, h2, Nat.zero_add]
    exact hs.entered t o
  · obtain ⟨h1, -, -⟩ := quiet_counts (t := t) (o := o) he
    refine (hs.started t o).imp_right fun hr => hr.imp_right fun hle => ?_
    simp only [tally_cons, h1, Nat.zero_add]
    omega

theorem ready_stable : Stable (Ready G r t o) := by
  intro e h he hr
  refine ⟨sound_stable e h he hr.sound, hr.own, hr.may.imp_right fun hc => hc.imp_right fun hlt => ?_⟩
  obtain ⟨h1, -, -⟩ := quiet_counts (t := t) (o := o) he
  simp only [tally_cons, h1, Nat.zero_add]
  omega

theorem Ended.cons (e : Event gatewayInterface) (he : Ended t o h) : Ended t o (e :: h) :=
  he.imp fun _ hx => ⟨List.mem_cons_of_mem _ hx.1, hx.2⟩

theorem spent_stable : Stable (Spent G r t o) := fun e h he hs =>
  ⟨sound_stable e h he hs.1, hs.2.imp_right fun hc => hc.imp_right (Ended.cons e)⟩

end Keep

/-! ## Triples of methods -/

section Rules

variable {A B : Type} {r : Request} {I M P Q : History → Prop}

/-- From `P`, a method of the request keeps the law, and it ends in `Q`. -/
abbrev Obeys (G : Gateway) (r : Request) (P : History → Prop) (p : Act A) (Q : History → Prop) : Prop :=
  Triple (law G r) G.possible P p Q

/-- A method that starts, ends and holds no operation. -/
def Plain : Act A → Prop
  | .done _ | .fail _ => True
  | .act o next => o.plain ∧ ∀ a, Plain (next a)

theorem Plain.await {o : Await} {f : o.Ans → Act A} (ho : o.plain) (hf : ∀ a, Plain (f a)) :
    Plain (Antiproton.await o >>= f) := ⟨ho, hf⟩

theorem Plain.bind {p : Act A} {f : A → Act B} (hp : Plain p) (hf : ∀ a, Plain (f a)) : Plain (p >>= f) := by
  induction p with
  | done a => exact hf a
  | fail e => trivial
  | act o next ih => exact ⟨hp.1, fun a => ih a (hp.2 a)⟩

theorem Plain.attempt {p : Act A} {handler : Thrown → Act A} (hp : Plain p) (hh : ∀ e, Plain (handler e)) :
    Plain (p.attempt handler) := by
  induction p with
  | done a => trivial
  | fail e => exact hh e
  | act o next ih => exact ⟨hp.1, fun a => ih a (hp.2 a)⟩

/-- A plain method keeps what quiet awaits keep. -/
theorem Plain.obeys {p : Act A} (hp : Plain p) (hI : Stable I) : Obeys G r I p I := by
  induction p with
  | done a => exact Triple.done fun _ h => h
  | fail e => exact Triple.fail fun _ h => h
  | act o next ih =>
    exact Triple.act (fun _ _ => law_plain hp.1)
      (fun a h hh _ => hI ⟨o, a⟩ h (Await.quiet_of_plain hp.1) hh) fun a _ => ih a (hp.2 a)

/-- A plain await, then the rest from what it answered. -/
theorem obeys_await {o : Await} {f : o.Ans → Act A} (hI : Stable I) (ho : o.plain)
    (hf : ∀ a, G.possible o a → Obeys G r I (f a) Q) : Obeys G r I (await o >>= f) Q :=
  Triple.act (fun _ _ => law_plain ho) (fun a h hh _ => hI ⟨o, a⟩ h (Await.quiet_of_plain ho) hh) hf

/-- A plain method, then the rest. -/
theorem Plain.then {p : Act A} {f : A → Act B} (hp : Plain p) (hI : Stable I) (hQ : ∀ h, I h → Q h)
    (hf : ∀ a, Obeys G r I (f a) Q) : Obeys G r I (p >>= f) Q :=
  Triple.bind (hp.obeys hI) hQ hf

end Rules

/-! ## The plain methods -/

theorem resolve_plain (ctx : CallContext) (raw : String) : Plain (resolve ctx raw) := by
  unfold resolve
  split
  · trivial
  · refine .await rfl fun found => ?_
    cases found with
    | some mount => trivial
    | none =>
      refine .await rfl fun mounts => ?_
      split <;> trivial

theorem refused_plain (ctx : CallContext) (raw : String) (opts : InvokeOpts) (error : ToolError) :
    Plain (refused G ctx raw opts error) :=
  .await rfl fun _ => .await rfl fun _ => trivial

theorem credentialOf_plain (mount : MountRecord) : Plain (credentialOf mount) := by
  unfold credentialOf
  split
  · trivial
  · refine .await rfl fun secret => ?_
    cases secret <;> trivial

theorem leases_plain (ctx : CallContext) (mountAlias : String) (facts : List Released) :
    Plain (leases ctx mountAlias facts) := by
  induction facts with
  | nil => trivial
  | cons fact rest ih => exact .await rfl fun _ => ih

theorem reach_plain (ctx : CallContext) (mount : MountRecord) : Plain (reach G ctx mount) := by
  unfold reach
  split
  · trivial
  · refine .await rfl fun choices => ?_
    dsimp only
    split
    · trivial
    · split <;> trivial

theorem priorOf_plain (ctx : CallContext) (opts : InvokeOpts) (o : String) : Plain (priorOf ctx opts o) := by
  unfold priorOf
  split
  · exact .await rfl fun _ => trivial
  · trivial

theorem heldFor_plain {t o : String} (d : HumanDecision) : Plain (heldFor t o d) := by
  cases d with
  | denied => exact .await rfl fun _ => trivial
  | approved => trivial

theorem cancelInterrupt_plain (ctx : CallContext) (i : ToolInterrupt) : Plain (cancelInterrupt G ctx i) := by
  refine .attempt (.await rfl fun found => ?_) fun _ => trivial
  cases found with
  | none => trivial
  | some mount =>
    dsimp only
    split
    · trivial
    · split
      · trivial
      · refine .bind (credentialOf_plain mount) fun _ => .await rfl fun taken => ?_
        cases taken <;> trivial

/-! ## One step -/

section Step

variable {r : Request} {I : History → Prop} {t o : String}

theorem complete_obeys {s : OperationStatus} {result : Option Json} {facts : CompletedFacts} (hI : Stable I)
    (hs : s ≠ .pending) (hend : ∀ h, I h → startable s ∨ r.isCall ∨ G.Resume o ∨ Ended t o h) :
    Obeys G r I (complete t o s result facts) I := by
  refine Triple.act (fun h hh => ⟨hs, hend h hh⟩) (fun a h hh _ => hI ⟨_, a⟩ h rfl hh) fun a _ => ?_
  cases a with
  | ok _ => exact Triple.done fun _ hh => hh
  | error e => exact Triple.fail fun _ hh => hh

theorem complete_spent {s : OperationStatus} {result : Option Json} {facts : CompletedFacts}
    (hs : s ≠ .pending) : Obeys G r (Spent G r t o) (complete t o s result facts) (Spent G r t o) :=
  complete_obeys spent_stable hs fun _ hh => .inr hh.2

/-- An operation ended, then the rest. -/
theorem complete_then {A : Type} {s : OperationStatus} {result : Option Json} {facts : CompletedFacts}
    {f : Unit → Act A} (hs : s ≠ .pending) (hf : ∀ u, Obeys G r (Spent G r t o) (f u) (Spent G r t o)) :
    Obeys G r (Spent G r t o) (complete t o s result facts >>= f) (Spent G r t o) :=
  Triple.bind (complete_spent hs) (fun _ hh => hh) hf

theorem answerQuestion_obeys (x : Running) (started : Int) (i : Interrupt) :
    Obeys G r (Spent G r x.ctx.tenantId x.operationId) (answerQuestion G x started i)
      (Spent G r x.ctx.tenantId x.operationId) := by
  unfold answerQuestion
  dsimp only
  split
  · -- the question is not taken: the plugin may take it back, and the step has failed
    split
    · refine obeys_await spent_stable rfl fun _ _ => ?_
      exact complete_then (by decide) fun _ => Triple.done fun _ hh => hh
    · exact complete_then (by decide) fun _ => Triple.done fun _ hh => hh
  · exact Triple.fail fun _ hh => hh
  · exact complete_then (by decide) fun _ => Triple.done fun _ hh => hh

theorem recordStep_obeys (x : Running) (started : Int) (answer : StepAnswer) :
    Obeys G r (Spent G r x.ctx.tenantId x.operationId) (recordStep G x started answer)
      (Spent G r x.ctx.tenantId x.operationId) := by
  cases answer with
  | threw e => exact Triple.fail fun _ hh => hh
  | asked i => exact answerQuestion_obeys x started i
  | backgrounded handle note =>
    exact complete_then (by decide) fun _ => Triple.done fun _ hh => hh
  | returned lease result =>
    refine Plain.then (leases_plain _ _ _) spent_stable (fun _ hh => hh) fun _ => ?_
    exact complete_then (by decide) fun _ => Triple.done fun _ hh => hh

theorem recordFailure_obeys (x : Running) (started : Int) (e : Thrown) :
    Obeys G r (Spent G r x.ctx.tenantId x.operationId) (recordFailure x started e)
      (Spent G r x.ctx.tenantId x.operationId) := by
  refine Plain.then (leases_plain _ _ _) spent_stable (fun _ hh => hh) fun _ => ?_
  refine complete_then ?_ fun _ => Triple.done fun _ hh => hh
  split <;> decide

/-- A start that was allowed leaves as many starts as claims, and one attempt more when it took it. -/
theorem Ready.start {h : History} (hr : Ready G r t o h) (took : Bool) :
    Spent G r t o (⟨.startOperation t o, took⟩ :: h) := by
  have hs : Sound G r (⟨.startOperation t o, took⟩ :: h) := by
    refine ⟨fun t' o' => ?_, fun t' o' => ?_⟩
    · have he := hr.sound.entered t' o'
      simp only [tally_cons, entersOf, Nat.zero_add]
      omega
    · by_cases hk : t = t' ∧ o = o'
      · obtain ⟨rfl, rfl⟩ := hk
        refine hr.may.imp_right fun hc => hc.imp_right fun hlt => ?_
        simp only [tally_cons, startsOf, claimsOf, and_self, if_true, Nat.zero_add]
        omega
      · simpa only [tally_cons, startsOf, claimsOf, if_neg hk, Nat.zero_add] using hr.sound.started t' o'
  exact ⟨hs, hr.spent.2.imp_right fun hc => hc.imp_right (Ended.cons _)⟩

/-- A step entered after a start of its own that took the attempt. -/
theorem Spent.enter {h : History} {step : PluginStep} {a : StepAnswer} (hs : Spent G r t o h)
    (htake : tally (entersOf step.tenantId step.operationId) h < tally (takesOf step.tenantId step.operationId) h) :
    Spent G r t o (⟨.enter step, a⟩ :: h) := by
  refine ⟨⟨fun t' o' => ?_, fun t' o' => ?_⟩, hs.2.imp_right fun hc => hc.imp_right (Ended.cons _)⟩
  · by_cases hk : step.tenantId = t' ∧ step.operationId = o'
    · obtain ⟨rfl, rfl⟩ := hk
      simp only [tally_cons, entersOf, takesOf, and_self, if_true, Nat.zero_add]
      omega
    · simpa only [tally_cons, entersOf, takesOf, if_neg hk, Nat.zero_add] using hs.1.entered t' o'
  · simpa only [tally_cons, startsOf, claimsOf, Nat.zero_add] using hs.1.started t' o'

theorem runStep_obeys {x : Running} (ht : x.ctx.tenantId = t) (ho : x.operationId = o) :
    Obeys G r (Ready G r t o) (runStep G x) (Spent G r t o) := by
  subst ht ho
  refine Plain.then (credentialOf_plain _) ready_stable (fun _ hh => hh.spent) fun credential => ?_
  refine obeys_await ready_stable rfl fun started _ => ?_
  refine Triple.attempt ?_ fun e => recordFailure_obeys x started e
  refine ⟨fun h hr => ⟨hr.may, fun took _ => ?_⟩⟩
  cases took with
  | false => exact ⟨trivial, fun prior _ => spent_stable ⟨_, prior⟩ _ rfl (hr.start false)⟩
  | true =>
    have hlt : tally (entersOf x.ctx.tenantId x.operationId) (⟨.startOperation x.ctx.tenantId x.operationId, true⟩ :: h) <
        tally (takesOf x.ctx.tenantId x.operationId) (⟨.startOperation x.ctx.tenantId x.operationId, true⟩ :: h) := by
      have he := hr.sound.entered x.ctx.tenantId x.operationId
      simp only [tally_cons, entersOf, takesOf, and_self, if_true, Nat.zero_add]
      omega
    exact ⟨⟨hlt, hr.own⟩, fun answer _ => (recordStep_obeys x started answer).keeps _ ((hr.start true).enter hlt)⟩

end Step

/-! ## A call -/

section Call

variable {r : Request} {t o : String}

theorem ready_spent (h : History) (hh : Ready G r t o h) : Spent G r t o h := hh.spent

/-- A method that may end an operation, from where it may also start it. -/
theorem obeys_of_spent {A : Type} {p : Act A} (hp : Obeys G r (Spent G r t o) p (Spent G r t o)) :
    Obeys G r (Ready G r t o) p (Spent G r t o) :=
  Triple.mono hp ready_spent fun _ hh => hh

theorem refuse_obeys (x : Recorded) (error : ToolError) :
    Obeys G r (Spent G r x.ctx.tenantId x.operationId) (x.refuse error) (Spent G r x.ctx.tenantId x.operationId) :=
  complete_then (s := .rejected) (by decide) fun _ => Triple.done fun _ hh => hh

theorem holdCall_obeys (x : Recorded) (c : CallReading) (hx : ¬ G.Resume x.operationId) :
    Obeys G r (Spent G r x.ctx.tenantId x.operationId) (x.holdCall G c) (Spent G r x.ctx.tenantId x.operationId) := by
  refine obeys_await spent_stable rfl fun now _ => ?_
  refine Triple.act (fun _ _ => hx) (fun a h hh _ => spent_stable ⟨_, a⟩ h rfl hh) fun held _ => ?_
  cases held with
  | created => exact obeys_await spent_stable rfl fun _ _ => Triple.done fun _ hh => hh
  | existing pending =>
    refine complete_then (s := .cancelled) (by decide) fun _ => ?_
    exact obeys_await spent_stable rfl fun _ _ => Triple.done fun _ hh => hh

theorem run_obeys (x : Recorded) (args : Json) (c : CallReading) :
    Obeys G r (Ready G r x.ctx.tenantId x.operationId) (x.run G args c) (Spent G r x.ctx.tenantId x.operationId) := by
  unfold Recorded.run
  exact runStep_obeys rfl rfl

/-- An approved call is never held. -/
theorem CallPolicy.verdict_approved (c : CallPolicy) (confirm : Bool) : c.verdict confirm true ≠ .of .approval := by
  simp only [verdict, if_true]
  split <;> decide

theorem settle_obeys (x : Recorded) (args : Json) (hx : x.opts.approved ∨ ¬ G.Resume x.operationId) :
    Obeys G r (Ready G r x.ctx.tenantId x.operationId) (x.settle G args) (Spent G r x.ctx.tenantId x.operationId) := by
  unfold Recorded.settle
  split
  · exact obeys_of_spent (refuse_obeys x _)
  · dsimp only
    split
    · exact obeys_of_spent (refuse_obeys x _)
    · rename_i hv
      have hres : ¬ G.Resume x.operationId := hx.resolve_left fun ha => by
        rw [ha] at hv
        exact CallPolicy.verdict_approved _ _ hv
      split
      · exact obeys_of_spent (refuse_obeys x _)
      · exact obeys_of_spent (holdCall_obeys x _ hres)
    · exact run_obeys x args _

/-- A call made by a request for the operation `o`: its own call, under the key's operation where it has a
key, or an approved one. -/
structure OwnCall (G : Gateway) (r : Request) (ctx : CallContext) (o : String) (opts : InvokeOpts) : Prop where
  isCall : r.isCall
  unnamed : opts.operationId = none
  keyed : ∀ key, opts.key = some key → o = G.ids.keyed ctx.tenantId ctx.taskId key
  unkeyed : opts.key = none → r.keyed G = none

def Entitled (G : Gateway) (r : Request) (ctx : CallContext) (o : String) (opts : InvokeOpts) : Prop :=
  OwnCall G r ctx o opts ∨ (opts.approved ∧ opts.operationId = some o)

/-- An operation id made for a call is no answer's. -/
theorem not_resume_keyed (t task key : String) : ¬ G.Resume (G.ids.keyed t task key) := by
  rintro ⟨n, hn⟩
  have hn := congrArg String.toList hn
  simp only [OperationIds.keyed, OperationIds.drawn, String.toList_append, List.append_cancel_left_eq,
    String.toList_inj] at hn
  exact G.ids.keyed_ne_resume _ n hn

theorem not_resume_call (n : Nat) : ¬ G.Resume (G.ids.drawn .call n) := by
  rintro ⟨m, hm⟩
  have hm := congrArg String.toList hm
  simp only [OperationIds.drawn, String.toList_append, List.append_cancel_left_eq, String.toList_inj] at hm
  exact G.ids.call_ne_resume n m hm

theorem invokeUnder_obeys (ctx : CallContext) (raw : String) (args : Json) {opts : InvokeOpts} (a : Admitted)
    (ho : opts.approved ∨ ¬ G.Resume o) :
    Obeys G r (Ready G r ctx.tenantId o) (invokeUnder G ctx raw args opts a o) (Spent G r ctx.tenantId o) := by
  refine Plain.then (priorOf_plain ctx opts o) ready_stable ready_spent fun prior => ?_
  split
  · exact Triple.done ready_spent
  · exact obeys_await ready_stable rfl fun _ _ => settle_obeys ⟨ctx, raw, opts, a, o⟩ args ho

theorem invokeAdmitted_obeys (ctx : CallContext) (raw : String) (args : Json) {opts : InvokeOpts} (a : Admitted)
    (ho : Entitled G r ctx o opts) :
    Obeys G r (Ready G r ctx.tenantId o) (invokeAdmitted G ctx raw args opts a) (Spent G r ctx.tenantId o) := by
  unfold invokeAdmitted operationIdOf
  rcases ho with hown | ⟨happ, hsome⟩
  · rw [hown.unnamed]
    cases hkey : opts.key with
    | some key =>
      have hid := hown.keyed key hkey
      subst hid
      exact invokeUnder_obeys ctx raw args a (.inr (not_resume_keyed _ _ _))
    | none =>
      -- whatever id it draws, the request's own call may start and end it
      refine obeys_await ready_stable rfl fun id hid => ?_
      obtain ⟨n, rfl⟩ := hid
      refine Triple.mono (invokeUnder_obeys ctx raw args a (.inr (not_resume_call n))) (fun _ hh => ?_)
        fun _ hh => ⟨hh.1, .inl hown.isCall⟩
      exact ⟨hh.sound, own_of_unkeyed (hown.unkeyed hkey), .inl hown.isCall⟩
  · rw [hsome]
    exact invokeUnder_obeys ctx raw args a (.inl happ)

theorem invoke_obeys (ctx : CallContext) (raw : String) (args : Json) {opts : InvokeOpts}
    (ho : Entitled G r ctx o opts) :
    Obeys G r (Ready G r ctx.tenantId o) (invoke G ctx raw args opts) (Spent G r ctx.tenantId o) := by
  have hrefused : ∀ error,
      Obeys G r (Ready G r ctx.tenantId o) (refused G ctx raw opts error) (Spent G r ctx.tenantId o) :=
    fun error => Triple.mono ((refused_plain ctx raw opts error).obeys ready_stable) (fun _ hh => hh) ready_spent
  refine Plain.then (resolve_plain ctx raw) ready_stable ready_spent fun found => ?_
  cases found with
  | error error => exact hrefused error
  | ok _ =>
    refine Plain.then (resolve_plain ctx raw) ready_stable ready_spent fun again => ?_
    cases again with
    | error error => exact hrefused error
    | ok found =>
      obtain ⟨mount, tool⟩ := found
      refine obeys_await ready_stable rfl fun removing _ => ?_
      split
      · exact hrefused _
      · refine Plain.then (reach_plain ctx mount) ready_stable ready_spent fun reached => ?_
        cases reached with
        | error error => exact hrefused error
        | ok plugin =>
          dsimp only
          split
          · exact hrefused _
          · exact invokeAdmitted_obeys ctx raw args _ ho

/-- The answer to a question runs under an id of its own. -/
theorem resumeInterrupt_obeys (hr : r.keyed G = none) (ctx : CallContext) (i : ToolInterrupt) (answer : Json) (callId : Option String)
    (offered : List OfferedTool) :
    Obeys G r (Sound G r) (resumeInterrupt G ctx i answer callId offered) (Sound G r) := by
  refine obeys_await sound_stable rfl fun found _ => ?_
  cases found with
  | none => exact Triple.done fun _ hh => hh
  | some mount =>
    refine Plain.then (reach_plain ctx mount) sound_stable (fun _ hh => hh) fun reached => ?_
    cases reached with
    | error error => exact Triple.done fun _ hh => hh
    | ok plugin =>
      dsimp only
      split
      · exact Triple.done fun _ hh => hh
      · refine obeys_await sound_stable rfl fun removing _ => ?_
        split
        · exact Triple.done fun _ hh => hh
        · refine obeys_await sound_stable rfl fun id hid => ?_
          refine obeys_await sound_stable rfl fun _ _ => ?_
          exact Triple.mono (runStep_obeys rfl rfl) (fun _ hh => ⟨hh, own_of_unkeyed hr, .inr (.inl hid)⟩) fun _ hh => hh.1

end Call

/-! ## Holds -/

section Holds

variable {r : Request} {t o : String}

theorem ended_of_denial {d : Decision} {approver : String} {decidedBy : Option DecidedBy} {notice : Option Str}
    (hd : d ≠ .approved) (record : ApprovalRecord) (h : History) :
    Ended t o (⟨.decideApproval t o d approver decidedBy notice, DecideOutcome.ok record⟩ :: h) :=
  ⟨⟨.decideApproval t o d approver decidedBy notice, DecideOutcome.ok record⟩, List.mem_cons_self,
    rfl, rfl, hd, record, rfl⟩

theorem expireApproval_obeys : Obeys G r (Sound G r) (expireApproval G t o) (Sound G r) := by
  refine obeys_await sound_stable rfl fun held _ => ?_
  refine obeys_await sound_stable rfl fun out _ => ?_
  cases out with
  | notFound => exact Triple.done fun _ hh => hh
  | refused problem record => exact Triple.done fun _ hh => hh
  | ok record =>
    exact Triple.bind (complete_obeys sound_stable (by decide) fun _ _ => .inl rfl) (fun _ hh => hh)
      fun _ => Triple.done fun _ hh => hh

theorem expireEach_obeys (rows : List ApprovalRecord) :
    Obeys G r (Sound G r) (expireEach G t rows) (Sound G r) := by
  induction rows with
  | nil => exact Triple.done fun _ hh => hh
  | cons a rest ih =>
    refine Triple.bind expireApproval_obeys (fun _ hh => hh) fun expired => ?_
    refine Triple.bind ih (fun _ hh => hh) fun others => ?_
    exact Triple.done fun _ hh => hh

variable (hr : r.keyed G = none)
include hr

/-- A claim that took the run entitles the method to one start. -/
theorem ready_of_claim {h : History} {at_ : Int} (hs : Sound G r h) :
    Ready G r t o (⟨.claimApprovalRun t o at_, true⟩ :: h) := by
  refine ⟨sound_stable _ h rfl hs, own_of_unkeyed hr, ?_⟩
  have hle := hs.started t o
  simp only [tally_cons, startsOf, claimsOf, and_self, if_true, Nat.zero_add]
  refine hle.imp_right fun hr => hr.imp_right fun hle => ?_
  omega

theorem answerApproved_obeys (ctx : CallContext) (operationId : String) (result : ToolResult) :
    Obeys G r (Spent G r t o) (answerApproved G ctx operationId result) (Spent G r t o) := by
  unfold answerApproved
  split
  · split
    · exact Triple.done fun _ hh => hh
    · refine Triple.bind (M := Spent G r t o) ?_ (fun _ hh => hh) fun resumed => ?_
      · exact Triple.frame (fun e _ hj => hj.imp_right fun hc => hc.imp_right (Ended.cons e))
          (resumeInterrupt_obeys hr ctx _ _ none [])
      · split <;> exact Triple.done fun _ hh => hh
  · exact Triple.done fun _ hh => hh

theorem replay_obeys (a : ApprovalRecord) :
    Obeys G r (Ready G r t o) (replay G t o a) (Spent G r t o) := by
  unfold replay
  refine Plain.then (resolve_plain _ _) ready_stable ready_spent fun found => ?_
  split
  · exact obeys_of_spent (complete_then (s := .cancelled) (by decide) fun _ => Triple.done fun _ hh => hh)
  · refine Triple.bind (invoke_obeys ⟨t, a.agentId, a.taskId⟩ _ _ (.inr ⟨rfl, rfl⟩)) (fun _ hh => hh) fun first => ?_
    refine Triple.bind (answerApproved_obeys hr _ o first) (fun _ hh => hh) fun answered => ?_
    obtain ⟨result, answeredOnce⟩ := answered
    have hend : ∀ result : ToolResult, Obeys G r (Spent G r t o)
        (completeRun t o (recordedStatus result) result >>= fun _ => pure (⟨true, result, none⟩ : Ran))
        (Spent G r t o) := fun result =>
      complete_then (by unfold recordedStatus; split <;> decide) fun _ => Triple.done fun _ hh => hh
    cases result with
    | interrupted id i =>
      refine Plain.then (cancelInterrupt_plain _ i) spent_stable (fun _ hh => hh) fun _ => ?_
      exact complete_then (s := .cancelled) (by decide) fun _ => Triple.done fun _ hh => hh
    | _ => exact hend _

theorem runClaimed_obeys : Obeys G r (Ready G r t o) (runClaimed G t o) (Sound G r) := by
  refine obeys_await ready_stable rfl fun held _ => ?_
  cases held with
  | none => exact Triple.done fun _ hh => hh.sound
  | some a =>
    refine Triple.bind (M := Spent G r t o) ?_ (fun _ hh => hh.1) fun ran => ?_
    · exact Triple.attempt (replay_obeys hr a) fun e => Triple.done fun _ hh => hh
    · refine Triple.mono (Q := Spent G r t o) ?_ (fun _ hh => hh) fun _ hh => hh.1
      exact obeys_await spent_stable rfl fun _ _ => Triple.done fun _ hh => hh

theorem runApproved_obeys : Obeys G r (Sound G r) (runApproved G t o) (Sound G r) := by
  refine obeys_await sound_stable rfl fun now _ => ?_
  refine ⟨fun h hs => ⟨trivial, fun took _ => ?_⟩⟩
  cases took with
  | false => exact sound_stable ⟨.claimApprovalRun t o now, false⟩ h rfl hs
  | true => exact (runClaimed_obeys hr).keeps _ (ready_of_claim hr hs)

theorem applyApproval_obeys (d : HumanDecision) (approver : String) (decidedBy : Option DecidedBy) (later : Bool) :
    Obeys G r (Sound G r) (applyApproval G t o d approver decidedBy later) (Sound G r) := by
  refine Plain.then (heldFor_plain d) sound_stable (fun _ hh => hh) fun held => ?_
  refine ⟨fun h hs => ⟨trivial, fun out _ => ?_⟩⟩
  have hs := sound_stable ⟨.decideApproval t o d.decision approver decidedBy _, out⟩ h rfl hs
  cases out with
  | notFound => exact hs
  | refused problem record =>
    cases problem with
    | expired =>
      refine (Triple.bind expireApproval_obeys (fun _ hh => hh) fun expired => ?_ : Obeys G r (Sound G r) _ _).keeps _ hs
      cases expired <;> exact Triple.done fun _ hh => hh
    | alreadyDecided => exact hs
    | notDue => exact hs
  | ok record =>
    cases d with
    | denied =>
      -- the denial ended the hold, so its operation may be ended
      have hspent : Spent G r t o _ := ⟨hs, .inr (.inr (ended_of_denial (by decide) record h))⟩
      exact (Triple.mono (complete_then (s := .cancelled) (by decide) fun _ => Triple.done fun _ hh => hh)
        (fun _ hh => hh) fun _ hh => hh.1 : Obeys G r (Spent G r t o) _ (Sound G r)).keeps _ hspent
    | approved =>
      cases later with
      | true => exact hs
      | false =>
        exact (Triple.bind (runApproved_obeys hr) (fun _ hh => hh) fun _ => Triple.done fun _ hh => hh :
          Obeys G r (Sound G r) _ _).keeps _ hs

theorem settleOne_obeys (now staleMs : Int) (a : ApprovalRecord) :
    Obeys G r (Sound G r) (settleOne G t now staleMs a) (Sound G r) := by
  unfold settleOne
  split
  · exact Triple.bind (runApproved_obeys hr) (fun _ hh => hh) fun _ => Triple.done fun _ hh => hh
  · split
    · exact Triple.done fun _ hh => hh
    · exact obeys_await sound_stable rfl fun _ _ => Triple.done fun _ hh => hh

theorem settleEach_obeys (now staleMs : Int) (rows : List ApprovalRecord) :
    Obeys G r (Sound G r) (settleEach G t now staleMs rows) (Sound G r) := by
  induction rows with
  | nil => exact Triple.done fun _ hh => hh
  | cons a rest ih =>
    refine Triple.bind (settleOne_obeys hr now staleMs a) (fun _ hh => hh) fun ended => ?_
    refine Triple.bind ih (fun _ hh => hh) fun others => ?_
    exact Triple.done fun _ hh => hh

end Holds

/-! ## Every request -/

/-- Whatever runs beside it and whatever it is answered, a request's program keeps its law. -/
theorem keeps_law (r : Request) :
    Keeps (law G r) G.possible (fun _ _ => True) (fun _ _ => True) (Request.prog G r) [] := by
  have hdone : ∀ {A : Type} {p : Act A} {P Q : History → Prop}, P [] → Obeys G r P p Q →
      Keeps (law G r) G.possible (fun _ _ => True) (fun _ _ => True) (discard p) [] := by
    intro A p P Q hP hp
    have hall : Obeys G r P (p >>= fun _ => pure ()) fun _ => True :=
      Triple.bind (Triple.mono hp (fun _ hh => hh) fun _ _ => trivial) (fun _ hh => hh) fun _ =>
        Triple.done fun _ hh => hh
    exact hall.keeps [] hP
  cases r with
  | invoke ctx raw args opts =>
    have hown : ∃ o, (∀ k, (Request.invoke ctx raw args opts).keyed G = some k → k = (ctx.tenantId, o)) ∧
        OwnCall G (.invoke ctx raw args opts) ctx o opts.invokeOpts := by
      cases hkey : opts.invokeOpts.key with
      | none =>
        have hnone : (Request.invoke ctx raw args opts).keyed G = none := by simp [Request.keyed, hkey]
        refine ⟨"", own_of_unkeyed hnone, rfl, rfl, fun key hk => ?_, fun _ => hnone⟩
        rw [hkey] at hk
        cases hk
      | some key =>
        refine ⟨G.ids.keyed ctx.tenantId ctx.taskId key, fun k hk => ?_, rfl, rfl, fun key' hk => ?_, fun hk => ?_⟩
        · simp only [Request.keyed, hkey, Option.map_some, Option.some.injEq] at hk
          exact hk.symm
        · rw [hkey] at hk
          cases hk
          rfl
        · rw [hkey] at hk
          cases hk
    obtain ⟨o, hkeyed, hown⟩ := hown
    exact hdone (P := Ready G _ ctx.tenantId o) ⟨sound_nil, hkeyed, .inl rfl⟩ (invoke_obeys ctx raw args (.inl hown))
  | resume ctx i answer callId offered => exact hdone sound_nil (resumeInterrupt_obeys rfl ctx i answer callId offered)
  | cancel ctx i => exact hdone (P := Sound G (.cancel ctx i)) sound_nil ((cancelInterrupt_plain ctx i).obeys sound_stable)
  | applyApproval t o d approver decidedBy later => exact hdone sound_nil (applyApproval_obeys rfl d approver decidedBy later)
  | runApproved t o => exact hdone sound_nil (runApproved_obeys rfl)
  | settleApproved t now staleMs =>
    exact hdone sound_nil (obeys_await sound_stable rfl fun rows _ => settleEach_obeys rfl now staleMs rows)
  | expireApproval t o => exact hdone sound_nil expireApproval_obeys
  | expireDue t now =>
    exact hdone sound_nil (obeys_await sound_stable rfl fun rows _ => expireEach_obeys _)

end Antiproton
