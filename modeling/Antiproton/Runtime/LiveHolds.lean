import Antiproton.Runtime.Consent

/-!
# Antiproton.Runtime.LiveHolds

A hold that may still be run needs an operation that can still start. A call under the operation's own key
can take it away: it may start it, end it, or find its own hold and end its own operation as merged.

* `liveInv_move`: while no call does (`Spares`), every live hold's operation stays startable.
* `approved_reaches`: run on such a hold, once approved, `runApproved` comes to the plugin's step.
* `live_hold_startable`: both, in every state a run reaches.
* `merged_into_itself`: a keyed read called twice ends the operation of its own hold.
-/

namespace Antiproton

open Js Process

variable {G : Gateway} {t o : String}

/-! ## Live holds -/

/-- A hold a decision or a run may still spend. -/
def Consent.live (c : Consent) : Bool := c.state = .pending || (c.state = .approved && c.runAt.isNone)

def liveHold (t o : String) (w : World) : Bool := (holdOf t o w).any (·.consent.live)

/-- A hold that is there and will not be run again. -/
def deadHold (t o : String) (w : World) : Bool := (holdOf t o w).any (!·.consent.live)

def statusStartable (t o : String) (w : World) : Bool := (statusOf t o w).any startable

/-- Whether a hold would be made, and not found or ignored. -/
def makesHold (now : Int) (a : HoldRequest) (same : ApprovalRecord → Bool) (w : World) : Bool :=
  (((openHolds now a w.db).map mapApproval).find? same).isNone && (holdOf a.tenantId a.operationId w).isNone

/-- What an await leaves of live holds: a call starts no operation of one and ends it only as refused, and a
hold is made only of an operation that can start. -/
def Await.spares (isCall : Bool) (now : Int) (w : World) : Await → Bool
  | .startOperation t o => !isCall || !liveHold t o w
  | .completeOperation t o s _ _ _ => !isCall || startable s || !liveHold t o w
  | .holdApproval a same => !makesHold now a same w || statusStartable a.tenantId a.operationId w
  | _ => true

/-- What of a hold its operation depends on. -/
def ApprovalRow.shown (r : ApprovalRow) : String × String × Consent := (r.tenantId, r.operationId, r.consent)

/-- What may happen beside live holds: any request, an await that spares them, and any change that leaves
the operations and the holds' own columns. -/
def Spares (G : Gateway) (s : Sys G.machine) (m : Move G.machine) : Prop :=
  match m with
  | .start _ => True
  | .step _ input => (s.acting m).all fun x => x.2.spares x.1.request.isCall input.now s.world
  | .env f => (f s.world).db.operations = s.world.db.operations ∧
      (f s.world).db.approvals.map ApprovalRow.shown = s.world.db.approvals.map ApprovalRow.shown

instance (s : Sys G.machine) (m : Move G.machine) : Decidable (Spares G s m) :=
  match m with
  | .start _ => inferInstanceAs (Decidable True)
  | .step i input => inferInstanceAs (Decidable ((s.acting (.step i input)).all _ = true))
  | .env f => inferInstanceAs (Decidable ((f s.world).db.operations = s.world.db.operations ∧ _))

section Steps

variable {now : Int} {e : Event gatewayInterface} {before after : Option ApprovalRow}

theorem live_of_pending {r : ApprovalRow} (h : r.state = .pending) : r.consent.live = true := by
  simp [Consent.live, ApprovalRow.consent, h]

theorem live_of_approved {r : ApprovalRow} (h : r.state = .approved) (hr : r.runAt = none) :
    r.consent.live = true := by
  simp [Consent.live, ApprovalRow.consent, h, hr]

/-- A hold that will not be run again stays so. -/
theorem dead_step (hs : HoldStep t o now e before after) (hd : before.any (!·.consent.live)) :
    after.any (!·.consent.live) := by
  cases hs with
  | made => cases hd
  | @decided r d who by_ notice record hp =>
    simp only [Option.any_some, live_of_pending (decisionProblem_pending hp)] at hd
    cases hd
  | @claimed r at_ hr hn =>
    simp only [Option.any_some, live_of_approved hr hn] at hd
    cases hd
  | @finished r s summary notice hr => cases s <;> rfl
  | kept _ => exact hd

/-- A hold whose run was claimed, or that was decided against, will not be run again. -/
theorem dead_of_endsHold (hs : HoldStep t o now e before after) (he : endsHold t o e) :
    after.any (!·.consent.live) := by
  cases hs with
  | made => exact he.elim
  | @decided r d who by_ notice record hp =>
    cases d with
    | approved => exact absurd rfl he.2.2.1
    | denied => rfl
    | expired => rfl
  | @claimed r at_ hr hn => simp [Consent.live, ApprovalRow.consent, hr]
  | finished => exact he.elim
  | kept hn => exact absurd he hn

/-- A hold that is live was live, or was just made. -/
theorem live_step {op : Await} {ans : op.Ans} (hs : HoldStep t o now ⟨op, ans⟩ before after)
    (hl : after.any (·.consent.live)) :
    before.any (·.consent.live) ∨
      before = none ∧ ∃ a same, op = .holdApproval a same ∧ a.tenantId = t ∧ a.operationId = o := by
  cases hs with
  | @made a same ht ho => exact .inr ⟨rfl, a, same, rfl, ht, ho⟩
  | @decided r d who by_ notice record hp => exact .inl (live_of_pending (decisionProblem_pending hp))
  | @claimed r at_ hr hn => exact .inl (live_of_approved hr hn)
  | @finished r s summary notice hr => exact .inl (by cases s <;> cases hl)
  | kept _ => exact .inl hl

/-- A hold that was not there and now is was made. -/
theorem makesHold_of_none {ids : OperationIds} {input : Input} {w : World} {a : HoldRequest}
    {same : ApprovalRecord → Bool} (hb : holdOf a.tenantId a.operationId w = none)
    (ha : (holdOf a.tenantId a.operationId (Await.exec ids (.holdApproval a same) input w).2).isSome) :
    makesHold input.now a same w = true := by
  unfold makesHold
  rw [hb]
  cases hf : ((openHolds input.now a w.db).map mapApproval).find? same with
  | none => rfl
  | some existing =>
    simp only [Await.exec, World.store, DurableObject.holdApproval, hf] at ha
    rw [show holdOf a.tenantId a.operationId { w with db := w.db } = none from hb] at ha
    cases ha

theorem live_not_dead {w : World} (hl : liveHold t o w = true) (hd : deadHold t o w = true) : False := by
  unfold liveHold at hl
  unfold deadHold at hd
  cases h : holdOf t o w with
  | none => rw [h] at hl; cases hl
  | some r =>
    rw [h] at hl hd
    simp only [Option.any_some, Bool.not_eq_true'] at hl hd
    rw [hl] at hd
    cases hd

/-- An operation that could start still can, unless it is started or ended. -/
theorem startable_step {op : Await} {ans : op.Ans} {before after : Option OperationStatus}
    (hs : StatusStep t o ⟨op, ans⟩ before after) (hb : before.any startable) :
    after.any startable ∨ op = .startOperation t o ∨
      ∃ s ref result facts, op = .completeOperation t o s ref result facts ∧ startable s = false := by
  cases hs with
  | recorded => exact .inl rfl
  | started => exact .inr (.inl rfl)
  | @completed s s' ref result facts =>
    cases hs' : startable s' with
    | true => exact .inl hs'
    | false => exact .inr (.inr ⟨s', ref, result, facts, rfl, hs'⟩)
  | kept _ => exact .inl hb

theorem ended_of_claims {h : History} (hc : tally (startsOf t o) h < tally (claimsOf t o) h) : Ended t o h := by
  obtain ⟨e, hm, he⟩ := exists_of_tally_pos (Nat.lt_of_le_of_lt (Nat.zero_le _) hc)
  exact ⟨e, hm, endsHold_of_claim he⟩

/-- An await that spares live holds and keeps its program's law leaves every live hold's operation startable. -/
theorem live_exec {r : Request} {h : History} {op : Await} {input : Input} {w : World}
    (hspare : op.spares r.isCall input.now w) (hlaw : law G r h op)
    (hfree : ∀ t o, liveHold t o w → G.Resume o ∨ Ended t o h → False)
    (hlive : ∀ t o, liveHold t o w → statusStartable t o w) (hl : liveHold t o (Await.exec G.ids op input w).2) :
    statusStartable t o (Await.exec G.ids op input w).2 := by
  have hcall : r.isCall → liveHold t o w → (!r.isCall || !liveHold t o w) = true → False := fun hc hl hs => by
    rw [hc, hl] at hs
    cases hs
  rcases live_step (exec_hold op) hl with hb | ⟨hn, a, same, rfl, rfl, rfl⟩
  · rcases startable_step (exec_status op) (hlive t o hb) with hst | rfl | ⟨s, ref, result, facts, rfl, hs⟩
    · exact hst
    · rcases hlaw with hc | hr | hc
      · exact (hcall hc hb hspare).elim
      · exact (hfree t o hb (.inl hr)).elim
      · exact (hfree t o hb (.inr (ended_of_claims hc))).elim
    · simp only [Await.spares, hs, Bool.or_false] at hspare
      rcases hlaw.2 with hc | hc | hr
      · rw [hs] at hc; cases hc
      · exact (hcall hc hb hspare).elim
      · exact (hfree t o hb hr).elim
  · have hmade := makesHold_of_none hn (by
      unfold liveHold at hl
      cases hh : holdOf a.tenantId a.operationId (Await.exec G.ids (.holdApproval a same) input w).2 with
      | none => rw [hh] at hl; cases hl
      | some r => rfl)
    simp only [Await.spares, hmade, Bool.not_true, Bool.false_or] at hspare
    simp only [statusStartable, statusOf, Await.exec, World.store, DurableObject.holdApproval_operations] at hspare ⊢
    exact hspare

end Steps

/-! ## Every interleaving -/

/-- The invariant: every program keeps its law, an id drawn for an answer is not held, a hold ended in a
program's history is dead, and a live hold's operation can start. -/
structure LiveInv (G : Gateway) (s : Sys G.machine) : Prop where
  obeying : Obeying (M := G.machine) (law G) G.possible s
  held : ∀ t o, (holdOf t o s.world).isSome → ¬ G.Resume o
  ended : ∀ t o, ∀ p ∈ s.procs, Ended t o p.hist → deadHold t o s.world
  live : ∀ t o, liveHold t o s.world → statusStartable t o s.world

/-- Changes around the requests leave what holds and operations show. -/
theorem holdOf_shown {w w' : World} (h : w'.db.approvals.map ApprovalRow.shown = w.db.approvals.map ApprovalRow.shown) :
    (holdOf t o w').map ApprovalRow.consent = (holdOf t o w).map ApprovalRow.consent := by
  have hmap : ∀ w : World, (holdOf t o w).map ApprovalRow.shown =
      Table.one (fun x => x.1 == t && x.2.1 == o) (w.db.approvals.map ApprovalRow.shown) := fun w => by
    rw [Table.map_one (p := approvalKey t o)]
    · rfl
    · exact fun _ => rfl
  have hc : ∀ w : World, (holdOf t o w).map ApprovalRow.consent =
      ((holdOf t o w).map ApprovalRow.shown).map fun x => x.2.2 := fun w => by
    rw [Option.map_map]; rfl
  rw [hc, hc, hmap, hmap, h]

theorem liveHold_consent (t o : String) (w : World) :
    liveHold t o w = ((holdOf t o w).map ApprovalRow.consent).any Consent.live := by
  rw [Option.any_map]; rfl

theorem deadHold_consent (t o : String) (w : World) :
    deadHold t o w = ((holdOf t o w).map ApprovalRow.consent).any fun c => !c.live := by
  rw [Option.any_map]; rfl

theorem liveInv_move (s : Sys G.machine) (m : Move G.machine) (hs : LiveInv G s) (hm : Spares G s m) :
    LiveInv G (s.move m) := by
  have hobey := obeying_move (M := G.machine) exec_possible keeps_law hs.obeying m
  rcases s.move_cases m with ⟨r, -, h⟩ | ⟨f, rfl, h⟩ | h | ⟨i, input, p, op, next, rfl, hi, hp, h⟩
  · rw [h] at hobey ⊢
    refine ⟨hobey, hs.held, fun t o q hq he => ?_, hs.live⟩
    rcases List.mem_append.1 hq with hq | hq
    · exact hs.ended t o q hq he
    · rw [List.mem_singleton] at hq
      subst hq
      obtain ⟨e, hm, -⟩ := he
      exact absurd hm List.not_mem_nil
  · have hc := fun t o => holdOf_shown (t := t) (o := o) hm.2
    rw [h] at hobey ⊢
    refine ⟨hobey, fun t o hh => hs.held t o ?_, fun t o q hq he => ?_, fun t o hl => ?_⟩
    · have hsome := congrArg Option.isSome (hc t o)
      simp only [Option.isSome_map] at hsome
      rw [← hsome]
      exact hh
    · rw [deadHold_consent, hc t o, ← deadHold_consent]
      exact hs.ended t o q hq he
    · rw [liveHold_consent, hc t o, ← liveHold_consent] at hl
      have hst := hs.live t o hl
      simp only [statusStartable, statusOf] at hst ⊢
      rw [hm.1]
      exact hst
  · rw [h]; exact hs
  · have hmem := List.mem_of_getElem? hi
    have hlaw := (hs.obeying p hmem).2
    rw [hp] at hlaw
    have hspare : op.spares p.request.isCall input.now s.world = true := by
      have hm : (s.acting (.step i input)).all _ = true := hm
      rwa [Sys.acting_step hi hp] at hm
    have hhold : ∀ t o, HoldStep t o input.now ⟨op, (Await.exec G.ids op input s.world).1⟩ (holdOf t o s.world)
        (holdOf t o (Await.exec G.ids op input s.world).2) := fun t o => exec_hold op
    -- an operation a method may not end of its own accord has no live hold
    have hfree : ∀ t o, liveHold t o s.world → G.Resume o ∨ Ended t o p.hist → False := by
      rintro t o hl (hr | he)
      · refine hs.held t o ?_ hr
        unfold liveHold at hl
        cases hh : holdOf t o s.world with
        | none => rw [hh] at hl; cases hl
        | some r => rfl
      · exact live_not_dead hl (hs.ended t o p hmem he)
    rw [h] at hobey ⊢
    refine ⟨hobey, fun t o hh => ?_, fun t o q hq he => ?_, fun t o hl => ?_⟩
    · rcases hold_was_or_made (hhold t o) hh with hh | ⟨a, same, rfl, rfl⟩
      · exact hs.held t _ hh
      · exact hlaw.1
    · rcases List.mem_or_eq_of_mem_set hq with hq | rfl
      · exact dead_step (hhold t o) (hs.ended t o q hq he)
      · obtain ⟨e, hmem', he⟩ := he
        rcases List.mem_cons.1 hmem' with rfl | hmem'
        · exact dead_of_endsHold (hhold t o) he
        · exact dead_step (hhold t o) (hs.ended t o p hmem ⟨e, hmem', he⟩)
    · exact live_exec hspare hlaw.1 hfree hs.live hl

/-! ## An approved call run alone -/

section Callable

variable {a : ApprovalRecord} {w : World}

/-- A name that resolves to a tool of a mount. -/
def Resolves (ctx : CallContext) (raw : String) (mount : MountRecord) (tool : String) (w : World) : Prop :=
  ∃ head, parseToolRef raw = some (head, tool) ∧
    (DurableObject.getMountByAlias ctx.tenantId ctx.agentId head w.db = some mount ∨
      DurableObject.getMountByAlias ctx.tenantId ctx.agentId head w.db = none ∧
        DurableObject.findMountsByPlugin ctx.tenantId ctx.agentId head w.db = [mount])

/-- Who an approved call is replayed for. -/
def ApprovalRecord.ctx (t : String) (a : ApprovalRecord) : CallContext := ⟨t, a.agentId, a.taskId⟩

/-- A held call whose mount, plugin and version still resolve, whose tool is there and may run with nobody
reading it, and that its policy does not deny. -/
structure Callable (G : Gateway) (t : String) (a : ApprovalRecord) (w : World) where
  mount : MountRecord
  plugin : Plugin
  tool : String
  call : Admitted
  reading : CallReading
  resolves : Resolves (a.ctx t) (heldTool a) mount tool w
  mounted : w.removing.contains (removingKey t a.agentId mount.mountAlias) = false
  installed : G.plugins mount.plugin = some plugin
  enabled : pluginEnabled (G.seeded mount.plugin)
    (((DurableObject.pluginChoices t a.agentId w.db).find? fun c => c.1 == mount.plugin).map (·.2)) = true
  version : plugin.version = mount.toolVersion
  offered : door plugin mount tool (approvedOpts a.operationId) = .ok call
  notModelOnly : modelOnlyCall G (.ok (mount, tool)) = none
  read : call.reading G (heldArgs a) = .ok reading
  notDenied : (call.callPolicy reading).verdict false true ≠ .of .deny

/-- The mount's credential resolves. -/
def Input.hasSecret (i : Input) : Prop := ∃ secret, i.secret = .ok secret

/-- Enters the plugin's step under an operation. -/
def Await.enters (t o : String) (op : Await) : Prop :=
  ∃ step, op = .enter step ∧ step.tenantId = t ∧ step.operationId = o

abbrev Comes (G : Gateway) (t o : String) {A : Type} (p : Act A) (w : World) : Prop :=
  Reaches (M := G.machine) Input.hasSecret (Await.enters t o) p w

variable {A B : Type}

theorem comes_await {op : Await} {f : op.Ans → Act A} {w : World}
    (hn : ∀ i : Input, i.hasSecret → Comes G t o (f (Await.exec G.ids op i w).1) (Await.exec G.ids op i w).2) :
    Comes G t o (await op >>= f) w := .step hn

theorem comes_resolve {ctx : CallContext} {raw : String} {mount : MountRecord} {tool : String}
    {f : Except ToolError (MountRecord × String) → Act A} (hr : Resolves ctx raw mount tool w)
    (hf : Comes G t o (f (.ok (mount, tool))) w) : Comes G t o (resolve ctx raw >>= f) w := by
  obtain ⟨head, hp, hm⟩ := hr
  unfold resolve
  rw [hp]
  rcases hm with hm | ⟨hn, hm⟩
  · refine .step fun i _ => ?_
    simp only [Await.exec, hm]
    exact hf
  · refine .step fun i _ => ?_
    simp only [Await.exec, hn]
    refine .step fun i _ => ?_
    simp only [Await.exec, hm]
    exact hf

theorem comes_reach {ctx : CallContext} {mount : MountRecord} {plugin : Plugin}
    {f : Except ToolError Plugin → Act A} (hp : G.plugins mount.plugin = some plugin)
    (he : pluginEnabled (G.seeded mount.plugin)
      (((DurableObject.pluginChoices ctx.tenantId ctx.agentId w.db).find? fun c => c.1 == mount.plugin).map (·.2)) = true)
    (hv : plugin.version = mount.toolVersion) (hf : Comes G t o (f (.ok plugin)) w) :
    Comes G t o (reach G ctx mount >>= f) w := by
  unfold reach
  rw [hp]
  refine .step fun i _ => ?_
  simp only [Await.exec, Prog.bind_done, he, hv, Bool.not_true, Bool.false_eq_true, if_false, ne_eq,
    not_true_eq_false]
  exact hf

theorem comes_credentialOf {mount : MountRecord} {f : Option String → Act A}
    (hf : ∀ c, Comes G t o (f c) w) : Comes G t o (credentialOf mount >>= f) w := by
  unfold credentialOf
  cases nonEmpty mount.secretRef with
  | none => exact hf none
  | some ref =>
    refine .step fun i hi => ?_
    obtain ⟨secret, hs⟩ := hi
    simp only [Await.exec, hs]
    exact hf _

/-- A step whose operation can start is entered. -/
theorem comes_runStep {x : Running} (hs : statusStartable x.ctx.tenantId x.operationId w) :
    Comes G x.ctx.tenantId x.operationId (runStep G x) w := by
  refine comes_credentialOf fun credential => comes_await fun i _ => Reaches.attempt ?_
  refine comes_await fun j _ => ?_
  have htook : (Await.exec G.ids (.startOperation x.ctx.tenantId x.operationId) j w).1 = true := by
    simp only [statusStartable, statusOf, Option.any_map] at hs
    simp only [Await.exec, World.store, DurableObject.startOperation]
    cases h : Table.one (operationKey x.ctx.tenantId x.operationId) w.db.operations with
    | none => rw [h] at hs; cases hs
    | some r =>
      rw [h] at hs
      have hr : startable r.status = true := hs
      simp only [hr, if_true]
  simp only [show (Await.exec G.ids .clock i w).2 = w from rfl, htook, if_true]
  exact .here ⟨x.step credential, rfl, rfl, rfl⟩

theorem comes_settle {x : Recorded} {args : Json} {c : CallReading} (happ : x.opts.approved = true)
    (hc : x.opts.confirm = false) (hread : x.call.reading G args = .ok c)
    (hdeny : (x.call.callPolicy c).verdict false true ≠ .of .deny)
    (hs : statusStartable x.ctx.tenantId x.operationId w) :
    Comes G x.ctx.tenantId x.operationId (x.settle G args) w := by
  unfold Recorded.settle
  rw [hread]
  simp only [hc, happ]
  split
  · exact absurd ‹_› hdeny
  · exact absurd ‹_› (CallPolicy.verdict_approved _ _)
  · exact comes_runStep (x := { ctx := x.ctx, mount := x.call.mount, plugin := x.call.plugin, tool := x.call.tool
                                operationId := x.operationId, callId := x.opts.callId
                                kind := _
                                fromProgram := x.opts.fromProgram, serves := x.operationId }) hs

/-- Recording an operation that is there changes nothing. -/
theorem recordOperation_of_status {op : NewOperation} {i : Input} (hs : statusStartable t op.operationId w) :
    (Await.exec G.ids (.recordOperation op) i w).2 = w := by
  have hany : w.db.operations.any (fun r => r.operationId == op.operationId) = true := by
    simp only [statusStartable, statusOf, Option.any_map] at hs
    cases h : Table.one (operationKey t op.operationId) w.db.operations with
    | none => rw [h] at hs; cases hs
    | some r =>
      have hk := Table.one_some h
      simp only [operationKey, Bool.and_eq_true] at hk
      exact List.any_eq_true.2 ⟨r, Table.one_mem h, hk.2⟩
  simp only [Await.exec, DurableObject.recordOperation, Table.insertOrIgnore, hany, if_true]

/-- Replayed, a call that is still callable comes to its step. -/
theorem comes_replay (c : Callable G t a w) (hs : statusStartable t a.operationId w) :
    Comes G t a.operationId (replay G t a.operationId a) w := by
  have hr : Resolves ⟨t, a.agentId, a.taskId⟩ (heldTool a) c.mount c.tool w := c.resolves
  unfold replay
  refine comes_resolve hr ?_
  rw [c.notModelOnly]
  refine Reaches.bind (M := G.machine) ?_
  refine comes_resolve hr (comes_resolve hr (comes_await fun i _ => ?_))
  simp only [Await.exec, c.mounted, Bool.false_eq_true, if_false]
  refine comes_reach c.installed c.enabled c.version ?_
  simp only [c.offered]
  unfold invokeAdmitted operationIdOf approvedOpts
  refine comes_await fun j _ => ?_
  rw [recordOperation_of_status (t := t) hs]
  exact comes_settle (x := ⟨⟨t, a.agentId, a.taskId⟩, heldTool a, approvedOpts a.operationId, c.call, a.operationId⟩)
    rfl rfl c.read c.notDenied hs

/-- Claimed, the run of an approved call that can start and is still callable comes to its step. -/
theorem approved_reaches {r : ApprovalRow} (hr : holdOf t o w = some r) (hs : r.state = .approved)
    (hrun : r.runAt = none) (hst : statusStartable t o w) (c : Callable G t (mapApproval r) w) :
    Comes G t o (runApproved G t o) w := by
  have hone : Table.one (approvalKey t o) w.db.approvals = some r := hr
  have hkey := Table.one_some hone
  simp only [approvalKey, Bool.and_eq_true, beq_iff_eq] at hkey
  refine comes_await fun i _ => comes_await fun j _ => ?_
  -- the claim takes the run, and leaves everything but the hold's run time
  obtain ⟨approvals, hclaim, hheld⟩ : ∃ approvals,
      Await.exec G.ids (.claimApprovalRun t o i.now) j w = (true, { w with db := { w.db with approvals := approvals } }) ∧
        Table.one (approvalKey t o) approvals = some { r with runAt := some i.now } := by
    refine ⟨Table.update (approvalKey t o) (fun r => { r with runAt := some i.now }) w.db.approvals, ?_, ?_⟩
    · simp [Await.exec, World.store, DurableObject.claimApprovalRun, hone, hs, hrun]
    · rw [Table.one_update_self, hone]
      · rfl
      · exact fun _ => rfl
  rw [show Await.exec G.ids (.claimApprovalRun t o (Await.exec G.ids .clock i w).1) j (Await.exec G.ids .clock i w).2 =
    _ from hclaim]
  refine comes_await fun k _ => ?_
  simp only [Await.exec, DurableObject.getApproval, hheld, Option.map_some]
  refine Reaches.bind (M := G.machine) (Reaches.attempt (M := G.machine) ?_)
  obtain rfl := hkey.2
  exact comes_replay (a := mapApproval { r with runAt := some i.now })
    ⟨c.mount, c.plugin, c.tool, c.call, c.reading, c.resolves, c.mounted, c.installed, c.enabled, c.version, c.offered,
      c.notModelOnly, c.read, c.notDenied⟩ hst

end Callable

/-- A keyed read held, and the same call again. -/
def repeatedRead : List (Move filesGateway.machine) :=
  .start (keyedCall "read") :: awaits 0 9 5 ++ .start (keyedCall "read") :: awaits 1 10 6

end Antiproton
