import Antiproton.Runtime.Alone
import Antiproton.Runtime.LiveHolds

/-!
# Antiproton.Runtime.Gates

The two gates a call with a key goes through: the guard of `#invoke`, which asks the tool's side effects and what the
key's operation reads, and the claim of `#run`, which asks what the operation reads alone.

* `startOperation_startable`: the claim takes the attempt exactly where the operation reads `pending` or `rejected`.
* `gates_agree_iff`: a call the guard and its policy let through is entered exactly where its key has no operation, or
  one that reads so; otherwise it is answered as already attempted.
* `read_again_refused`: a read that succeeded, called again under its key.
-/

namespace Antiproton

open Js Process

variable {G : Gateway} {t o : String}

/-- The operation of a call with a key. -/
def keyedOperation (G : Gateway) (ctx : CallContext) (opts : InvokeOpts) (key : String) : String :=
  opts.operationId.getD (G.ids.keyed ctx.tenantId ctx.taskId key)

/-- A call with a key that the door and the guard let through, and that its policy allows. -/
structure LetThrough (G : Gateway) (ctx : CallContext) (raw : String) (args : Json) (opts : InvokeOpts) (w : World) where
  key : String
  mount : MountRecord
  plugin : Plugin
  tool : String
  call : Admitted
  reading : CallReading
  keyed : opts.key = some key
  resolves : Resolves ctx raw mount tool w
  mounted : w.removing.contains (removingKey ctx.tenantId ctx.agentId mount.mountAlias) = false
  installed : G.plugins mount.plugin = some plugin
  enabled : pluginEnabled (G.seeded mount.plugin)
    (((DurableObject.pluginChoices ctx.tenantId ctx.agentId w.db).find? fun c => c.1 == mount.plugin).map (·.2)) = true
  version : plugin.version = mount.toolVersion
  admitted : door plugin mount tool opts = .ok call
  passes : alreadyBegun call.schema
    (DurableObject.getOperation ctx.tenantId (keyedOperation G ctx opts key) w.db) = false
  read : call.reading G args = .ok reading
  allowed : (call.callPolicy reading).verdict opts.confirm opts.approved = .of .allow

/-- A key that may be claimed: it has no operation, or one that reads `pending` or `rejected`. -/
def keyFree (t o : String) (w : World) : Bool :=
  statusStartable t o w || w.db.operations.all fun r => r.operationId != o

/-- The mount's credential resolves. -/
def secretGiven : (op : Await) → op.Ans → Prop
  | .resolveSecret .., secret => ∃ s, secret = .ok s
  | _, _ => True

/-- No attempt was taken, and no step entered. -/
def Untried (t o : String) (h : History) : Prop := tally (takesOf t o) h = 0 ∧ tally (entersOf t o) h = 0

/-- The attempt was taken and the plugin's step entered, once. -/
def Entered (t o : String) (h : History) : Prop := tally (takesOf t o) h = 1 ∧ tally (entersOf t o) h = 1

section Histories

theorem counts_stable (a b : Nat) : Stable fun h => tally (takesOf t o) h = a ∧ tally (entersOf t o) h = b := by
  intro e h he hh
  obtain ⟨-, htakes, henters⟩ := quiet_counts (t := t) (o := o) he
  simp only [tally_cons, htakes, henters, Nat.zero_add]
  exact hh

theorem untried_quiet {op : Await} {ans : op.Ans} {h : History} (ho : op.quiet) (hh : Untried t o h) :
    Untried t o (⟨op, ans⟩ :: h) := counts_stable 0 0 ⟨op, ans⟩ h ho hh

theorem Entered.untried {h : History} (he : Entered t o h) (hu : Untried t o h) : False := by
  have h1 := he.1
  rw [hu.1] at h1
  cases h1

end Histories

/-! ## The claim -/

section Claim

variable {i : Input} {w : World}

theorem startOperation_startable :
    (Await.exec G.ids (.startOperation t o) i w).1 = statusStartable t o w := by
  simp only [statusStartable, statusOf, Option.any_map, Await.exec, World.store, DurableObject.startOperation]
  cases Table.one (operationKey t o) w.db.operations with
  | none => rfl
  | some r =>
    change (if startable r.status then _ else _ : Bool × Db).1 = startable r.status
    cases startable r.status <;> rfl

/-- Recorded, an operation can start exactly where its key was free. -/
theorem recordOperation_startable {op : NewOperation} (ht : op.tenantId = t) (ho : op.operationId = o) :
    statusStartable t o (Await.exec G.ids (.recordOperation op) i w).2 = keyFree t o w := by
  subst ht ho
  simp only [keyFree, Await.exec, DurableObject.recordOperation, Table.insertOrIgnore]
  cases hany : w.db.operations.any fun r => r.operationId == op.operationId with
  | true =>
    have hall : (w.db.operations.all fun r => r.operationId != op.operationId) = false := by
      obtain ⟨r, hr, hid⟩ := List.any_eq_true.1 hany
      exact List.all_eq_false.2 ⟨r, hr, by simpa using hid⟩
    rw [hall, Bool.or_false]
    rfl
  | false =>
    have hall : (w.db.operations.all fun r => r.operationId != op.operationId) = true := by
      rw [List.all_eq_true]
      intro r hr
      simpa using List.any_eq_false.1 hany r hr
    have hnone : Table.one (operationKey op.tenantId op.operationId) w.db.operations = none :=
      Table.one_eq_none.2 fun r hr => by
        have hid := List.any_eq_false.1 hany r hr
        simp only [operationKey, Bool.and_eq_false_iff]
        exact .inr (by simpa using hid)
    have hrow : operationKey op.tenantId op.operationId (op.row i.now) = true := by
      simp [operationKey, NewOperation.row]
    rw [hall, Bool.or_true]
    simp only [statusStartable, statusOf, Bool.false_eq_true, if_false, Table.one_append, hnone, Option.none_or]
    simp only [Table.one, List.find?_cons, hrow, Option.map_some, Option.any_some]
    rfl

end Claim

/-! ## One call alone -/

section Alone

variable {A : Type} {Q : Except Thrown A → World → History → Prop} {w : World} {h : History}

theorem ends_await {op : Await} {f : op.Ans → Act A}
    (hn : ∀ i, secretGiven op (Await.exec G.ids op i w).1 →
      EndsIn G secretGiven Q (f (Await.exec G.ids op i w).1) (Await.exec G.ids op i w).2
        (⟨op, (Await.exec G.ids op i w).1⟩ :: h)) :
    EndsIn G secretGiven Q (await op >>= f) w h := .act hn

theorem ends_resolve {ctx : CallContext} {raw : String} {mount : MountRecord} {tool : String}
    {f : Except ToolError (MountRecord × String) → Act A} (hr : Resolves ctx raw mount tool w) (hh : Untried t o h)
    (hf : ∀ h, Untried t o h → EndsIn G secretGiven Q (f (.ok (mount, tool))) w h) :
    EndsIn G secretGiven Q (resolve ctx raw >>= f) w h := by
  obtain ⟨head, hp, hm⟩ := hr
  unfold resolve
  rw [hp]
  rcases hm with hm | ⟨hn, hm⟩
  · refine ends_await fun i _ => ?_
    simp only [Await.exec, hm]
    exact hf _ (untried_quiet rfl hh)
  · refine ends_await fun i _ => ?_
    simp only [Await.exec, hn]
    refine ends_await fun i _ => ?_
    simp only [Await.exec, hm]
    exact hf _ (untried_quiet rfl (untried_quiet rfl hh))

theorem ends_reach {ctx : CallContext} {mount : MountRecord} {plugin : Plugin} {f : Except ToolError Plugin → Act A}
    (hp : G.plugins mount.plugin = some plugin)
    (he : pluginEnabled (G.seeded mount.plugin)
      (((DurableObject.pluginChoices ctx.tenantId ctx.agentId w.db).find? fun c => c.1 == mount.plugin).map (·.2)) = true)
    (hv : plugin.version = mount.toolVersion) (hh : Untried t o h)
    (hf : ∀ h, Untried t o h → EndsIn G secretGiven Q (f (.ok plugin)) w h) :
    EndsIn G secretGiven Q (reach G ctx mount >>= f) w h := by
  unfold reach
  rw [hp]
  refine ends_await fun i _ => ?_
  simp only [Await.exec, Prog.bind_done, he, hv, Bool.not_true, Bool.false_eq_true, if_false, ne_eq,
    not_true_eq_false]
  exact hf _ (untried_quiet rfl hh)

theorem ends_credentialOf {mount : MountRecord} {f : Option String → Act A} (hh : Untried t o h)
    (hf : ∀ c h, Untried t o h → EndsIn G secretGiven Q (f c) w h) :
    EndsIn G secretGiven Q (credentialOf mount >>= f) w h := by
  unfold credentialOf
  cases nonEmpty mount.secretRef with
  | none => exact hf none h hh
  | some ref =>
    refine ends_await fun i hi => ?_
    obtain ⟨secret, hs⟩ := hi
    simp only [Await.exec] at hs
    simp only [Await.exec, hs]
    exact hf _ _ (untried_quiet rfl hh)

/-- What becomes of an attempt: entered where the operation could start, refused where it could not. -/
def Attempted (t o : String) (free : Bool) (r : Except Thrown ToolResult) (h : History) : Prop :=
  if free then Entered t o h else Untried t o h ∧ ∃ s, r = .ok (alreadyAttempted o s)

theorem runStep_attempted {x : Running} (hh : Untried x.ctx.tenantId x.operationId h) :
    EndsIn G secretGiven
      (fun r _ h => Attempted x.ctx.tenantId x.operationId (statusStartable x.ctx.tenantId x.operationId w) r h)
      (runStep G x) w h := by
  refine ends_credentialOf hh fun credential h hh => ends_await fun i _ => ?_
  have hh : Untried x.ctx.tenantId x.operationId (⟨.clock, (Await.exec G.ids .clock i w).1⟩ :: h) := untried_quiet rfl hh
  rw [show (Await.exec G.ids .clock i w).2 = w from rfl]
  cases hs : statusStartable x.ctx.tenantId x.operationId w with
  | true =>
    -- the step is entered, and what becomes of it starts and enters nothing more
    refine Ends.attempt (M := G.machine) (Q := fun _ _ h => Entered x.ctx.tenantId x.operationId h) ?_
      (fun _ _ _ he => he) fun e w h he => ?_
    · refine ends_await fun j _ => ?_
      rw [startOperation_startable, hs]
      simp only [if_true]
      refine ends_await fun k _ => ?_
      refine (recordStep_quiet x _ _).ends (counts_stable 1 1) ?_ _
      simp only [tally_cons, takesOf, entersOf, Running.step, and_self, if_true, hh.1, hh.2, Nat.zero_add, Nat.add_zero]
    · exact (recordFailure_quiet x _ e).ends (counts_stable 1 1) he w
  | false =>
    refine Ends.attempt (M := G.machine)
      (Q := fun r _ h => Untried x.ctx.tenantId x.operationId h ∧ ∃ s, r = .ok (alreadyAttempted x.operationId s)) ?_
      (fun _ _ _ he => he) fun e w h he => ?_
    · refine ends_await fun j _ => ?_
      rw [startOperation_startable, hs]
      simp only [Bool.false_eq_true, if_false]
      refine ends_await fun k _ => ?_
      refine .done ⟨untried_quiet rfl ⟨?_, ?_⟩, _, rfl⟩
      · simp only [tally_cons, takesOf, Bool.false_eq_true, and_false, if_false, hh.1]
      · simp only [tally_cons, entersOf, hh.2]
    · obtain ⟨-, s, hs⟩ := he
      cases hs

end Alone

/-- A key whose operation a call that passed the guard may not claim is a read's, or another tenant's. -/
theorem read_of_passes {schema : ToolSchema} {w : World}
    (hpasses : alreadyBegun schema (DurableObject.getOperation t o w.db) = false) (hheld : keyFree t o w = false)
    (hown : (statusOf t o w).isSome) : schema.sideEffects = .read := by
  simp only [keyFree, Bool.or_eq_false_iff, statusStartable, statusOf, Option.any_map] at hheld
  rw [statusOf, Option.isSome_map] at hown
  obtain ⟨row, hrow⟩ := Option.isSome_iff_exists.1 hown
  simp only [hrow, Option.any_some] at hheld
  simp only [alreadyBegun, DurableObject.getOperation, hrow, Option.map_some, Option.any_some, operationRecord] at hpasses
  cases hside : schema.sideEffects with
  | read => rfl
  | write =>
    rw [hside] at hpasses
    have hrejected : row.status = .rejected := by simpa using hpasses
    have hstart := hheld.1
    simp only [hrejected] at hstart
    cases hstart

/-- Run alone, a call with a key takes its attempt and enters the plugin's step exactly where the key may be claimed, and
is answered as already attempted where it may not. -/
structure ClaimedWhereFree (G : Gateway) (ctx : CallContext) (raw : String) (args : Json) (opts : InvokeOpts)
    (key : String) (w : World) : Prop where
  ends : EndsIn G secretGiven
    (fun r _ h =>
      (Entered ctx.tenantId (keyedOperation G ctx opts key) h ↔
        keyFree ctx.tenantId (keyedOperation G ctx opts key) w = true) ∧
      (keyFree ctx.tenantId (keyedOperation G ctx opts key) w = false →
        ∃ s, r = .ok (alreadyAttempted (keyedOperation G ctx opts key) s)))
    (invoke G ctx raw args opts) w []

/-- In every state a run reaches, a call with a key that the guard and its policy let through is run exactly where the key
has no operation, or one that reads `pending` or `rejected`. -/
theorem gates_agree_iff (start : World) (ms : List (Move G.machine)) {ctx : CallContext} {raw : String} {args : Json}
    {opts : InvokeOpts} (c : LetThrough G ctx raw args opts (Sys.run ⟨start, []⟩ ms).world) :
    ClaimedWhereFree G ctx raw args opts c.key (Sys.run ⟨start, []⟩ ms).world := by
  generalize (Sys.run ⟨start, []⟩ ms).world = w at c ⊢
  let id := keyedOperation G ctx opts c.key
  have hstart : Untried ctx.tenantId id [] := ⟨rfl, rfl⟩
  have hends : EndsIn G secretGiven (fun r _ h => Attempted ctx.tenantId id (keyFree ctx.tenantId id w) r h)
      (invoke G ctx raw args opts) w [] := by
    refine ends_resolve c.resolves hstart fun h hh => ends_resolve c.resolves hh fun h hh => ends_await fun i _ => ?_
    simp only [Await.exec, c.mounted, Bool.false_eq_true, if_false]
    refine ends_reach c.installed c.enabled c.version (untried_quiet rfl hh) fun h hh => ?_
    have hid : operationIdOf G ctx opts = .done id := by
      unfold operationIdOf
      rw [c.keyed]
      simp only [id, keyedOperation]
      cases opts.operationId <;> rfl
    simp only [c.admitted]
    unfold invokeAdmitted
    rw [hid]
    simp only [Prog.bind_eq, Prog.bind_done]
    unfold invokeUnder priorOf
    rw [c.keyed]
    refine ends_await fun j _ => ?_
    have hpasses : alreadyBegun c.call.schema (Await.exec G.ids (.getOperation ctx.tenantId id) j w).1 = false := c.passes
    rw [hpasses]
    simp only [Bool.false_eq_true, if_false]
    refine ends_await fun k _ => ?_
    have hclaim : statusStartable ctx.tenantId id
        (Await.exec G.ids (.recordOperation (c.call.operation ctx opts id)) k w).2 = keyFree ctx.tenantId id w :=
      recordOperation_startable rfl rfl
    rw [show (Await.exec G.ids (.getOperation ctx.tenantId id) j w).2 = w from rfl]
    unfold Recorded.settle
    rw [c.read]
    simp only [c.allowed]
    rw [← hclaim]
    exact runStep_attempted (x := { ctx := ctx, mount := c.call.mount, plugin := c.call.plugin, tool := c.call.tool
                                    operationId := id, callId := opts.callId
                                    kind := _
                                    fromProgram := opts.fromProgram, serves := id })
      (untried_quiet rfl (untried_quiet rfl hh))
  refine ⟨hends.mono fun r w' h hr => ?_⟩
  cases hfree : keyFree ctx.tenantId id w with
  | true =>
    rw [Attempted, hfree, if_pos rfl] at hr
    exact ⟨iff_of_true hr rfl, fun hheld => by cases hheld⟩
  | false =>
    rw [Attempted, hfree, if_neg Bool.false_ne_true] at hr
    exact ⟨iff_of_false (fun he => he.untried hr.1) Bool.false_ne_true, fun _ => hr.2⟩

/-- A read under a key, run to its end. -/
def readOnce : List (Move filesGateway.machine) := .start (keyedCall "read") :: awaits 0 12 5

/-- How the same read is called again. -/
def keyedOpts : InvokeOpts := ⟨some "k", false, none, false, none, [], false⟩

/-- The world it leaves. -/
def readWorld : World := (Sys.run ⟨filesWorld .allow, []⟩ readOnce).world

/-- The read called again: everything but its key's operation is as it was. -/
def readAgain : LetThrough filesGateway ⟨"t", "a", "task"⟩ "docs.read" .null keyedOpts readWorld where
  key := "k"
  mount := filesMount .allow
  plugin := filesPlugin
  tool := "read"
  call := ⟨filesMount .allow, filesPlugin, "read", ⟨"read", .read, false⟩⟩
  reading := ⟨.none, .read, .null, none⟩
  keyed := rfl
  resolves := ⟨"docs", by decide, .inl (by decide)⟩
  mounted := by decide
  installed := rfl
  enabled := by decide
  version := rfl
  admitted := rfl
  passes := by decide
  read := rfl
  allowed := by decide

theorem gates_agree_readAgain :
    ClaimedWhereFree filesGateway ⟨"t", "a", "task"⟩ "docs.read" .null keyedOpts readAgain.key readWorld :=
  gates_agree_iff (filesWorld .allow) readOnce readAgain

/-- The guard lets the read through, and the claim does not take it: it is answered as already attempted. -/
theorem read_again_refused :
    Nonempty (LetThrough filesGateway ⟨"t", "a", "task"⟩ "docs.read" .null keyedOpts readWorld) ∧
      statusOf "t" keyedId readWorld = some .succeeded ∧
      ((invoke filesGateway ⟨"t", "a", "task"⟩ "docs.read" .null keyedOpts).alone
        (fun op w => Await.exec filesIds op (moment 6) w) readWorld).1 =
        .ok (alreadyAttempted keyedId (some .succeeded)) :=
  ⟨⟨readAgain⟩, by decide +kernel, by decide +kernel⟩

end Antiproton
