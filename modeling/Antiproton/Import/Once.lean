import Antiproton.Lib.History
import Antiproton.Store.StateBytes
import Antiproton.Import.Digest

/-!
# Antiproton.Import.Once

A workspace import happens once, whole, and before the first turn, whatever the create's replays, the attempts, the
turns and the pushes do between.

* `importWorkspace_cases`: an attempt is answered without writing, throws and leaves nothing, or writes all of it.
* `import_step`, `hold_step`: what an event does to the import and to the hold.
* `import_once`: over every history of an agent's object.
-/

namespace Antiproton.Import

open Js

inductive Event where
  /-- A create of an agent made to wait, or its replay. -/
  | create (now : Int) (throwsAt : Option Nat)
  /-- An attempt's first look, which decides nothing. -/
  | ask (imp : ImportRequest)
  | commit (imp : ImportRequest) (now : Int) (throwsAt : Option Nat)
  | applied (migrationId : String) (now : Int) (throwsAt : Option Nat)
  /-- A message by any route, up to the mark of its turn. -/
  | post (now : Int) (throwsAt : Option Nat) (marks : Bool)
  /-- A pass over the queued pushes, up to its first post. -/
  | pass (now : Int) (throwsAt : Option Nat)
  /-- Seed writes, seals, pushes accepted and delivered, and what turns write. -/
  | object (now : Int) (op : ObjectOp)

inductive Answer where
  | placed (placed : Option Bool)
  | decided (r : Option CommitResult)
  | committed (r : Option CommitResult)
  | lifted (h : Option (Option ImportHold))
  | posted (started : Bool)
  | held (until_ : Option (Option Int))
  | wrote (r : Option SeedStoreResult)

/-- `postMessage`, up to the mark of the turn it starts. -/
def post (t g : String) (now : Int) (throwsAt : Option Nat) (marks : Bool) (o : Obj) : Bool × Obj :=
  match importHeldUntil t g now throwsAt o with
  | (some none, o) => if marks then (true, markStarted t g now o) else (false, o)
  | (_, o) => (false, o)

def step (env : SeedEnv) (t g : String) : Event → Obj → Answer × Obj
  | .create now throwsAt, o =>
    let r := transact (placeHold t g now o) throwsAt o
    (.placed r.1, r.2)
  | .ask imp, o => (.decided (importDecided t g env imp.digest (imp.rows.map (·.path)) o), o)
  | .commit imp now throwsAt, o =>
    let r := importWorkspace t g env imp now throwsAt o
    (.committed r.1, r.2)
  | .applied migrationId now throwsAt, o =>
    let r := importInstructionsApplied t g migrationId now throwsAt o
    (.lifted r.1, r.2)
  | .post now throwsAt marks, o =>
    let r := post t g now throwsAt marks o
    (.posted r.1, r.2)
  | .pass now throwsAt, o =>
    let r := importHeldUntil t g now throwsAt o
    (.held r.1, r.2)
  | .object now op, o =>
    let r := op.exec env now o.agent
    (.wrote r.1, { o with agent := r.2 })

abbrev Turn := History.Turn Obj Event Answer

/-! ## Transactions -/

section Transactions

variable {env : SeedEnv} {t g : String} {o : Obj}

/-- One statement after another. -/
def runAll (statements : List (Obj → Obj)) (o : Obj) : Obj := statements.foldl (fun o statement => statement o) o

theorem runAll_append (s s' : List (Obj → Obj)) (o : Obj) : runAll (s ++ s') o = runAll s' (runAll s o) :=
  List.foldl_append ..

theorem transact_cases {R : Type} (s : R × List (Obj → Obj)) (throwsAt : Option Nat) (o : Obj) :
    transact s throwsAt o = (none, o) ∧ s.2 ≠ [] ∨ transact s throwsAt o = (some s.1, runAll s.2 o) := by
  unfold transact
  cases hf : throwsAt.filter (· < s.2.length) with
  | some k =>
    left
    refine ⟨rfl, fun hnil => ?_⟩
    have hlt := (Option.filter_eq_some_iff.1 hf).2
    rw [hnil] at hlt
    exact absurd (of_decide_eq_true hlt) (Nat.not_lt_zero k)
  | none => exact .inr rfl

/-- What reads of the import, the start and the hold see. -/
structure Same (o o' : Obj) : Prop where
  agent : o'.agent = o.agent
  imports : o'.imports = o.imports
  holds : o'.holds = o.holds
  started : o'.started = o.started

theorem Same.refl (o : Obj) : Same o o := ⟨rfl, rfl, rfl, rfl⟩

theorem Same.trans {a b c : Obj} (h : Same a b) (h' : Same b c) : Same a c :=
  ⟨h'.agent.trans h.agent, h'.imports.trans h.imports, h'.holds.trans h.holds, h'.started.trans h.started⟩

theorem ended_same (lifted : Option ImportHold) (o : Obj) : Same o (runAll (holdEnded lifted) o) := by
  cases lifted <;> exact ⟨rfl, rfl, rfl, rfl⟩

theorem prewarm_same (migrationId : String) (now : Int) (o o' : Obj) : Same o' (runAll (queuePrewarm t g migrationId now o) o') := by
  unfold queuePrewarm
  split <;> exact ⟨rfl, rfl, rfl, rfl⟩

/-- The agent waits for its import. -/
def InPlace (t g : String) (o : Obj) : Prop := ∃ h, readHold t g o = some h ∧ h.liftedAt = none

/-- A hold lifted. -/
def liftHolds (t g : String) (how : LiftedBy) (now : Int) (holds : List HoldRow) : List HoldRow :=
  Table.update (fun r => holdOf t g r && r.hold.liftedAt.isNone) (liftRow how now) holds

theorem liftHold_cases (t g : String) (how : LiftedBy) (now : Int) (o : Obj) :
    (liftHold t g how now o = (none, []) ∧ ∀ h, readHold t g o = some h → h.liftedAt.isSome = true) ∨
    ∃ h, readHold t g o = some h ∧ h.liftedAt = none ∧ (liftHold t g how now o).1 = some ⟨h.since, some now, some how⟩ ∧
      ∀ o' : Obj, runAll (liftHold t g how now o).2 o' = { o' with holds := liftHolds t g how now o'.holds } := by
  unfold liftHold
  cases hh : readHold t g o with
  | none => exact .inl ⟨rfl, fun h heq => nomatch heq⟩
  | some h =>
    cases hl : h.liftedAt with
    | none =>
      right
      refine ⟨h, rfl, hl, ?_, fun o' => ?_⟩
      · simp [hl]
      · simp [hl, runAll, liftHolds]
    | some at_ =>
      left
      refine ⟨by simp [hl], fun h' heq => ?_⟩
      cases heq
      rw [hl]
      rfl

theorem readHold_lifted {h : ImportHold} {how : LiftedBy} {now : Int} {o' : Obj} (hh : readHold t g o = some h)
    (hl : h.liftedAt = none) (ho : o'.holds = liftHolds t g how now o.holds) :
    readHold t g o' = some ⟨h.since, some now, some how⟩ := by
  unfold readHold at hh ⊢
  rw [ho, liftHolds, Table.one_update_key (f := liftRow how now) (q := holdOf t g) fun _ => rfl]
  obtain ⟨r, hr, rfl⟩ := Option.map_eq_some_iff.1 hh
  have hkey := Table.one_some hr
  rw [hr]
  simp [hkey, hl, liftRow]

/-- The agent's rows with an import's files written. -/
def putRows (t g : String) (now : Int) (rows : List ImportRow) (state : List StateRow) : List StateRow :=
  rows.foldl (fun state r => putRow t g now r state) state

theorem runAll_files (now : Int) (rows : List ImportRow) (o : Obj) :
    ∃ excerpts, runAll (rows.flatMap (fileStatements t g now)) o =
      { o with
        agent := o.agent.withStore { o.agent.store with agentState := putRows t g now rows o.agent.store.agentState }
        excerpts := excerpts } := by
  induction rows generalizing o with
  | nil => exact ⟨o.excerpts, rfl⟩
  | cons r rows ih =>
    rw [List.flatMap_cons, runAll_append]
    have hone : ∃ excerpts, runAll (fileStatements t g now r) o = { putState t g now r o with excerpts := excerpts } := by
      unfold fileStatements
      split
      · exact ⟨_, rfl⟩
      · exact ⟨o.excerpts, rfl⟩
    obtain ⟨excerpts, hone⟩ := hone
    rw [hone]
    obtain ⟨excerpts', hrest⟩ := ih { putState t g now r o with excerpts := excerpts }
    exact ⟨excerpts', hrest⟩

/-- What an import that commits leaves: its files' rows, its row, and, without instructions, the hold lifted. -/
structure Landed (t g : String) (imp : ImportRequest) (now : Int) (o o' : Obj) : Prop where
  agent : o'.agent = o.agent.withStore { o.agent.store with agentState := putRows t g now imp.rows o.agent.store.agentState }
  imports : o'.imports = o.imports ++ [importRow t g imp now]
  started : o'.started = o.started
  holds : o'.holds = o.holds ∨ imp.instructions = false ∧ InPlace t g o ∧
    o'.holds = liftHolds t g .import now o.holds

/-- What is answered without writing is a record found or a refusal. -/
theorem importDecided_found {env : SeedEnv} {digest : String} {paths : List String} {r : CommitResult}
    (h : importDecided t g env digest paths o = some r) :
    (∃ record, readImport t g o = some (record, digest) ∧ r = .ok false record none) ∨ ∃ code message, r = .refused code message := by
  unfold importDecided at h
  split at h
  · rename_i record had hread
    split at h
    · rename_i heq
      left
      exact ⟨record, heq ▸ hread, (Option.some.inj h).symm⟩
    · exact .inr ⟨_, _, (Option.some.inj h).symm⟩
  · split at h
    · exact .inr ⟨_, _, (Option.some.inj h).symm⟩
    · split at h
      · exact .inr ⟨_, _, (Option.some.inj h).symm⟩
      · cases h

theorem importWorkspace_cases (env : SeedEnv) (imp : ImportRequest) (now : Int) (throwsAt : Option Nat) (o : Obj) :
    (∃ r, importDecided t g env imp.digest (imp.rows.map (·.path)) o = some r ∧
      importWorkspace t g env imp now throwsAt o = (some r, o)) ∨
    importDecided t g env imp.digest (imp.rows.map (·.path)) o = none ∧
      (importWorkspace t g env imp now throwsAt o = (none, o) ∨
        ∃ lifted, (importWorkspace t g env imp now throwsAt o).1 = some (.ok true (importRow t g imp now).record lifted) ∧
          Landed t g imp now o (importWorkspace t g env imp now throwsAt o).2) := by
  have hidle : ∀ r : CommitResult, transact (r, []) throwsAt o = (some r, o) := by
    intro r
    rcases transact_cases (r, []) throwsAt o with ⟨-, hne⟩ | h
    · exact absurd rfl hne
    · exact h
  unfold importWorkspace commitImport
  cases hd : importDecided t g env imp.digest (imp.rows.map (·.path)) o with
  | some r =>
    left
    refine ⟨r, rfl, ?_⟩
    rcases importDecided_found hd with ⟨record, -, rfl⟩ | ⟨code, message, rfl⟩ <;> exact hidle _
  | none =>
    right
    refine ⟨rfl, ?_⟩
    dsimp only
    generalize hprewarm : (if (importRow t g imp now).record.instructions = .none then
      queuePrewarm t g (importRow t g imp now).record.migrationId now o else []) = prewarm
    generalize hlift : (if imp.instructions then (none, []) else liftHold t g .import now o) = lift
    have hquiet : ∀ o', Same o' (runAll prewarm (runAll (holdEnded lift.1) o')) := by
      intro o'
      refine (ended_same lift.1 o').trans ?_
      rw [← hprewarm]
      split
      · exact prewarm_same _ now o _
      · exact Same.refl _
    refine (transact_cases _ throwsAt o).imp And.left fun hran => ?_
    rw [hran]
    refine ⟨lift.1, rfl, ?_⟩
    dsimp only
    obtain ⟨excerpts, hfiles⟩ := runAll_files (t := t) (g := g) now imp.rows o
    have hwritten : runAll ([id] ++ imp.rows.flatMap (fileStatements t g now) ++
        [fun o => { o with imports := o.imports ++ [importRow t g imp now] }]) o =
      { o with
        agent := o.agent.withStore { o.agent.store with agentState := putRows t g now imp.rows o.agent.store.agentState }
        imports := o.imports ++ [importRow t g imp now]
        excerpts := excerpts } := by
      rw [runAll_append, runAll_append, show runAll [id] o = o from rfl, hfiles]
      rfl
    rw [runAll_append, runAll_append, runAll_append, hwritten]
    have hheld : ∀ o' : Obj, (runAll lift.2 o').agent = o'.agent ∧ (runAll lift.2 o').imports = o'.imports ∧
        (runAll lift.2 o').started = o'.started ∧ ((runAll lift.2 o').holds = o'.holds ∨ imp.instructions = false ∧
          InPlace t g o ∧ (runAll lift.2 o').holds = liftHolds t g .import now o'.holds) := by
      intro o'
      rw [← hlift]
      cases hi : imp.instructions with
      | true => exact ⟨rfl, rfl, rfl, .inl rfl⟩
      | false =>
        rw [if_neg Bool.false_ne_true]
        rcases liftHold_cases t g .import now o with ⟨hnone, -⟩ | ⟨h, hh, hl, -, hrun⟩
        · rw [hnone]
          exact ⟨rfl, rfl, rfl, .inl rfl⟩
        · rw [hrun]
          exact ⟨rfl, rfl, rfl, .inr ⟨rfl, ⟨h, hh, hl⟩, rfl⟩⟩
    have hsame := hquiet (runAll lift.2
      { o with
        agent := o.agent.withStore { o.agent.store with agentState := putRows t g now imp.rows o.agent.store.agentState }
        imports := o.imports ++ [importRow t g imp now]
        excerpts := excerpts })
    obtain ⟨hagent, himports, hstarted, hholds⟩ := hheld
      { o with
        agent := o.agent.withStore { o.agent.store with agentState := putRows t g now imp.rows o.agent.store.agentState }
        imports := o.imports ++ [importRow t g imp now]
        excerpts := excerpts }
    refine ⟨hsame.agent.trans hagent, hsame.imports.trans himports, hsame.started.trans hstarted, ?_⟩
    rw [hsame.holds]
    exact hholds

/-- What the report that an import's instructions were applied leaves. -/
structure Marked (t g migrationId : String) (now : Int) (o o' : Obj) : Prop where
  agent : o'.agent = o.agent
  imports : o'.imports = (markApplied t g migrationId o).imports
  started : o'.started = o.started
  holds : o'.holds = o.holds ∨ (∃ r, readImport t g (markApplied t g migrationId o) = some r ∧ r.1.instructions = .applied) ∧
    InPlace t g o ∧ o'.holds = liftHolds t g .import now o.holds

theorem importInstructionsApplied_cases (migrationId : String) (now : Int) (throwsAt : Option Nat) (o : Obj) :
    (importInstructionsApplied t g migrationId now throwsAt o).2 = o ∨
      Marked t g migrationId now o (importInstructionsApplied t g migrationId now throwsAt o).2 := by
  unfold importInstructionsApplied
  dsimp only
  generalize hdone : (readImport t g (markApplied t g migrationId o)).any
    (fun r => r.1.migrationId == migrationId && r.1.instructions == .applied) = done
  generalize hprewarm : (if done then queuePrewarm t g migrationId now o else []) = prewarm
  generalize hlift : (if done then liftHold t g .import now o else (none, [])) = lift
  refine (transact_cases _ throwsAt o).imp (fun h => by rw [h.1]) fun hran => ?_
  rw [hran]
  dsimp only
  rw [runAll_append, runAll_append, runAll_append]
  have hmark : runAll [markApplied t g migrationId] o = markApplied t g migrationId o := rfl
  rw [hmark]
  have hquiet : ∀ o', Same o' (runAll prewarm (runAll (holdEnded lift.1) o')) := by
    intro o'
    refine (ended_same lift.1 o').trans ?_
    rw [← hprewarm]
    split
    · exact prewarm_same _ now o _
    · exact Same.refl _
  have hsame := hquiet (runAll lift.2 (markApplied t g migrationId o))
  cases hd : done with
  | false =>
    rw [hd, if_neg Bool.false_ne_true] at hlift
    rw [← hlift] at hsame ⊢
    exact ⟨hsame.agent, hsame.imports, hsame.started, .inl hsame.holds⟩
  | true =>
    rw [hd, if_pos rfl] at hlift
    rcases liftHold_cases t g .import now o with ⟨hnone, -⟩ | ⟨h, hh, hl, -, hrun⟩
    · rw [hnone] at hlift
      rw [← hlift] at hsame ⊢
      exact ⟨hsame.agent, hsame.imports, hsame.started, .inl hsame.holds⟩
    · rw [← hlift, hrun] at hsame ⊢
      refine ⟨hsame.agent, hsame.imports, hsame.started, .inr ⟨?_, ⟨h, hh, hl⟩, hsame.holds⟩⟩
      rw [hd] at hdone
      cases hread : readImport t g (markApplied t g migrationId o) with
      | none =>
        rw [hread] at hdone
        cases hdone
      | some r =>
        rw [hread] at hdone
        exact ⟨r, rfl, beq_iff_eq.1 (Bool.and_eq_true_iff.1 hdone).2⟩

/-- What asking for the hold leaves: all as it was, or a hold past its time lifted. -/
inductive Asked (t g : String) (now : Int) (o : Obj) : Option (Option Int) → Obj → Prop where
  | free (h : ∀ h, readHold t g o = some h → h.liftedAt.isSome = true) : Asked t g now o (some none) o
  | held (at_ : Int) : Asked t g now o (some (some at_)) o
  | threw : Asked t g now o none o
  | lifted (o' : Obj) (h : ImportHold) (hh : readHold t g o = some h) (hl : h.liftedAt = none)
      (hpast : h.since + importHoldMaxMs ≤ now) (hagent : o'.agent = o.agent) (himports : o'.imports = o.imports)
      (hstarted : o'.started = o.started) (hholds : o'.holds = liftHolds t g .valve now o.holds) :
      Asked t g now o (some none) o'

theorem importHeldUntil_cases (t g : String) (now : Int) (throwsAt : Option Nat) (o : Obj) :
    Asked t g now o (importHeldUntil t g now throwsAt o).1 (importHeldUntil t g now throwsAt o).2 := by
  unfold importHeldUntil
  cases hh : readHold t g o with
  | none => exact .free fun h heq => by rw [hh] at heq; cases heq
  | some h =>
    dsimp only
    cases hl : h.liftedAt with
    | some at_ =>
      rw [if_pos (show (some at_).isSome = true from rfl)]
      refine .free fun h' heq => ?_
      rw [hh] at heq
      cases heq
      rw [hl]
      rfl
    | none =>
      rw [if_neg (by simp)]
      split
      · exact .held _
      · rename_i hpast
        rcases transact_cases ((none : Option Int), (liftHold t g .valve now o).2 ++ holdEnded (liftHold t g .valve now o).1)
          throwsAt o with ⟨hthrew, -⟩ | hran
        · rw [hthrew]
          exact .threw
        · rw [hran]
          rcases liftHold_cases t g .valve now o with ⟨-, hnot⟩ | ⟨h', hh', hl', -, hrun⟩
          · have hsome := hnot h hh
            rw [hl] at hsome
            cases hsome
          · dsimp only
            rw [runAll_append, hrun]
            have hsame := ended_same (liftHold t g .valve now o).1 { o with holds := liftHolds t g .valve now o.holds }
            exact .lifted _ h hh hl (not_lt.1 hpast) hsame.agent hsame.imports hsame.started hsame.holds

theorem readImport_marked (migrationId : String) (o : Obj) : readImport t g (markApplied t g migrationId o) =
    (readImport t g o).map fun r =>
      if r.1.migrationId = migrationId ∧ r.1.instructions = .pending then ({ r.1 with instructions := .applied }, r.2) else r := by
  unfold readImport markApplied
  dsimp only
  rw [Table.one_update_key (f := applyRow) (q := importOf t g) fun _ => rfl]
  cases hrow : Table.one (importOf t g) o.imports with
  | none => rfl
  | some r =>
    have hkey := Table.one_some hrow
    have hrecord : r.record.migrationId = r.migrationId ∧ r.record.instructions = r.instructions := ⟨rfl, rfl⟩
    simp only [Option.map_some, hkey, true_and, Bool.and_eq_true, beq_iff_eq, hrecord.1, hrecord.2]
    by_cases hp : r.migrationId = migrationId ∧ r.instructions = .pending
    · rw [if_pos hp, if_pos hp]
      rfl
    · rw [if_neg hp, if_neg hp]

theorem readImport_landed {imp : ImportRequest} {now : Int} {o' : Obj} (hnone : readImport t g o = none)
    (h : Landed t g imp now o o') : readImport t g o' = some ((importRow t g imp now).record, imp.digest) := by
  unfold readImport at hnone ⊢
  rw [h.imports, Table.one_append, Option.map_eq_none_iff.1 hnone, Option.none_or]
  simp [Table.one, importOf, importRow]

theorem readImport_congr {o' : Obj} (h : o'.imports = o.imports) : readImport t g o' = readImport t g o := by
  unfold readImport
  rw [h]

theorem readHold_congr {o' : Obj} (h : o'.holds = o.holds) : readHold t g o' = readHold t g o := by
  unfold readHold
  rw [h]

section Hold

variable {now : Int} {a : Option (Option Int)} {o' : Obj}

theorem Asked.readImport_eq (h : Asked t g now o a o') : readImport t g o' = readImport t g o := by
  cases h with
  | free => rfl
  | held => rfl
  | threw => rfl
  | lifted _ h hh hl hpast hagent himports => exact readImport_congr himports

theorem Asked.readHold_eq (h : Asked t g now o a o') : readHold t g o' = readHold t g o ∨
    ∃ h, readHold t g o = some h ∧ h.liftedAt = none ∧ readHold t g o' = some ⟨h.since, some now, some .valve⟩ ∧
      h.since + importHoldMaxMs ≤ now := by
  cases h with
  | free => exact .inl rfl
  | held => exact .inl rfl
  | threw => exact .inl rfl
  | lifted _ h hh hl hpast hagent himports hstarted hholds =>
    exact .inr ⟨h, hh, hl, readHold_lifted hh hl hholds, hpast⟩

theorem Asked.started_eq (h : Asked t g now o a o') : o'.started = o.started := by
  cases h with
  | free => rfl
  | held => rfl
  | threw => rfl
  | lifted _ h hh hl hpast hagent himports hstarted hholds => exact hstarted

theorem Asked.not_inPlace (h : Asked t g now o a o') (ha : a = some none) : ¬ InPlace t g o' := by
  rintro ⟨h', hh', hl'⟩
  cases h with
  | free hfree =>
    have hsome := hfree h' hh'
    rw [hl'] at hsome
    cases hsome
  | held => cases ha
  | threw => cases ha
  | lifted _ h hh hl hpast hagent himports hstarted hholds =>
    rw [readHold_lifted hh hl hholds] at hh'
    cases hh'
    cases hl'

/-- A message starts no turn, or asks for the hold, finds none, and marks the turn. -/
theorem post_cases (t g : String) (now : Int) (throwsAt : Option Nat) (marks : Bool) (o : Obj) :
    ∃ a o', Asked t g now o a o' ∧ (post t g now throwsAt marks o = (false, o') ∨
      a = some none ∧ post t g now throwsAt marks o = (true, markStarted t g now o')) := by
  have hasked := importHeldUntil_cases t g now throwsAt o
  unfold post
  rcases hr : importHeldUntil t g now throwsAt o with ⟨a, o'⟩
  rw [hr] at hasked
  refine ⟨a, o', hasked, ?_⟩
  rcases a with _ | _ | until_
  · exact .inl rfl
  · cases marks with
    | false => exact .inl rfl
    | true => exact .inr ⟨rfl, rfl⟩
  · exact .inl rfl

end Hold

end Transactions

/-! ## What an event does -/

section Steps

variable {env : SeedEnv} {t g : String} {o : Obj}

/-- Made an import. -/
def created (x : Answer) (record : ImportRecord) : Prop := ∃ lifted, x = .committed (some (.ok true record lifted))

/-- What an event does to the import: nothing, makes it, or marks its instructions applied. -/
theorem import_step (env : SeedEnv) (t g : String) (e : Event) (o : Obj) :
    (readImport t g (step env t g e o).2 = readImport t g o ∧ ∀ record, ¬ created (step env t g e o).1 record) ∨
    (∃ imp now throwsAt, e = .commit imp now throwsAt ∧
      importDecided t g env imp.digest (imp.rows.map (·.path)) o = none ∧
      created (step env t g e o).1 (importRow t g imp now).record ∧ Landed t g imp now o (step env t g e o).2) ∨
    (∃ r now throwsAt, e = .applied r.1.migrationId now throwsAt ∧ readImport t g o = some r ∧
      r.1.instructions = .pending ∧
      readImport t g (step env t g e o).2 = some ({ r.1 with instructions := .applied }, r.2) ∧
      ∀ record, ¬ created (step env t g e o).1 record) := by
  have hquiet : ∀ {a : Answer}, (∀ r, a ≠ .committed r) → ∀ record, ¬ created a record := by
    rintro a ha record ⟨lifted, heq⟩
    exact ha _ heq
  cases e with
  | create now throwsAt =>
    refine .inl ⟨?_, hquiet fun _ => nofun⟩
    dsimp only [step]
    rcases transact_cases (placeHold t g now o) throwsAt o with ⟨hthrew, -⟩ | hran
    · rw [hthrew]
    · rw [hran]
      unfold placeHold
      split <;> rfl
  | ask imp => exact .inl ⟨rfl, hquiet fun _ => nofun⟩
  | commit imp now throwsAt =>
    rcases importWorkspace_cases env imp now throwsAt o with ⟨r, hr, hdone⟩ | ⟨hnone, hdone | ⟨lifted, hans, hland⟩⟩
    · left
      dsimp only [step]
      rw [hdone]
      refine ⟨rfl, ?_⟩
      rintro record ⟨lifted, heq⟩
      have hsame : r = .ok true record lifted := Option.some.inj (Answer.committed.inj heq)
      rcases importDecided_found hr with ⟨record', -, rfl⟩ | ⟨code, message, rfl⟩ <;> cases hsame
    · left
      dsimp only [step]
      rw [hdone]
      refine ⟨rfl, ?_⟩
      rintro record ⟨lifted, heq⟩
      cases heq
    · exact .inr (.inl ⟨imp, now, throwsAt, rfl, hnone, ⟨lifted, congrArg Answer.committed hans⟩, hland⟩)
  | applied migrationId now throwsAt =>
    dsimp only [step]
    rcases importInstructionsApplied_cases (t := t) (g := g) migrationId now throwsAt o with hsame | hmarked
    · rw [hsame]
      exact .inl ⟨rfl, hquiet fun _ => nofun⟩
    · have hread := readImport_marked (t := t) (g := g) migrationId o
      have hafter := (readImport_congr (t := t) (g := g) hmarked.imports).trans hread
      cases hr : readImport t g o with
      | none =>
        rw [hr] at hafter
        exact .inl ⟨hafter, hquiet fun _ => nofun⟩
      | some r =>
        rw [hr, Option.map_some] at hafter
        by_cases hp : r.1.migrationId = migrationId ∧ r.1.instructions = .pending
        · rw [if_pos hp] at hafter
          obtain ⟨rfl, hpending⟩ := hp
          exact .inr (.inr ⟨r, now, throwsAt, rfl, rfl, hpending, hafter, hquiet fun _ => nofun⟩)
        · rw [if_neg hp] at hafter
          exact .inl ⟨hafter, hquiet fun _ => nofun⟩
  | post now throwsAt marks =>
    refine .inl ⟨?_, hquiet fun _ => nofun⟩
    dsimp only [step]
    obtain ⟨a, o', hasked, hpost | ⟨-, hpost⟩⟩ := post_cases t g now throwsAt marks o
    · rw [hpost]
      exact hasked.readImport_eq
    · rw [hpost]
      exact hasked.readImport_eq
  | pass now throwsAt => exact .inl ⟨(importHeldUntil_cases t g now throwsAt o).readImport_eq, hquiet fun _ => nofun⟩
  | object now op => exact .inl ⟨rfl, hquiet fun _ => nofun⟩

/-- What an event does to the hold: nothing, places it, or lifts it. -/
theorem hold_step (env : SeedEnv) (t g : String) (e : Event) (o : Obj) :
    (readHold t g (step env t g e o).2 = readHold t g o ∧ (step env t g e o).1 ≠ .placed (some true)) ∨
    (∃ now throwsAt, e = .create now throwsAt ∧ (step env t g e o).1 = .placed (some true) ∧ readImport t g o = none ∧
      agentStarted t g o = none ∧ readHold t g o = none ∧ readHold t g (step env t g e o).2 = some ⟨now, none, none⟩) ∨
    (∃ h how now, readHold t g o = some h ∧ h.liftedAt = none ∧
      readHold t g (step env t g e o).2 = some ⟨h.since, some now, some how⟩ ∧
      (step env t g e o).1 ≠ .placed (some true) ∧
      match how with
      | .import => ∃ r, readImport t g (step env t g e o).2 = some r ∧ r.1.instructions ≠ .pending
      | .valve => h.since + importHoldMaxMs ≤ now) := by
  cases e with
  | create now throwsAt =>
    dsimp only [step]
    rcases transact_cases (placeHold t g now o) throwsAt o with ⟨hthrew, -⟩ | hran
    · rw [hthrew]
      exact .inl ⟨rfl, fun h => by cases h⟩
    · rw [hran]
      unfold placeHold
      split
      · exact .inl ⟨rfl, fun h => by cases h⟩
      · rename_i hnot
        simp only [Bool.or_eq_true, not_or, Bool.not_eq_true, Option.isSome_eq_false_iff, Option.isNone_iff_eq_none] at hnot
        obtain ⟨⟨himport, hstarted⟩, hhold⟩ := hnot
        refine .inr (.inl ⟨now, throwsAt, rfl, rfl, himport, hstarted, hhold, ?_⟩)
        unfold readHold at hhold ⊢
        simp only [runAll, List.foldl_cons, List.foldl_nil, id]
        rw [Table.one_append, Option.map_eq_none_iff.1 hhold, Option.none_or]
        simp [Table.one, holdOf]
  | ask imp => exact .inl ⟨rfl, fun h => by cases h⟩
  | commit imp now throwsAt =>
    dsimp only [step]
    rcases importWorkspace_cases env imp now throwsAt o with ⟨r, hr, hdone⟩ | ⟨hnone, hdone | ⟨lifted, hans, hland⟩⟩
    · rw [hdone]
      exact .inl ⟨rfl, fun h => by cases h⟩
    · rw [hdone]
      exact .inl ⟨rfl, fun h => by cases h⟩
    · rcases hland.holds with hsame | ⟨hinstructions, ⟨h, hh, hl⟩, hholds⟩
      · exact .inl ⟨readHold_congr hsame, fun h => by cases h⟩
      · have hread : readImport t g o = none := by
          unfold importDecided at hnone
          split at hnone
          · split at hnone <;> cases hnone
          · assumption
        refine .inr (.inr ⟨h, .import, now, hh, hl, readHold_lifted hh hl hholds, (fun h => by cases h), _, readImport_landed hread hland, ?_⟩)
        simp [importRow, WorkspaceImportRow.record, hinstructions]
  | applied migrationId now throwsAt =>
    dsimp only [step]
    rcases importInstructionsApplied_cases (t := t) (g := g) migrationId now throwsAt o with hsame | hmarked
    · rw [hsame]
      exact .inl ⟨rfl, fun h => by cases h⟩
    · rcases hmarked.holds with hsame | ⟨⟨r, hr, happlied⟩, ⟨h, hh, hl⟩, hholds⟩
      · exact .inl ⟨readHold_congr hsame, fun h => by cases h⟩
      · refine .inr (.inr ⟨h, .import, now, hh, hl, readHold_lifted hh hl hholds, (fun h => by cases h), r, ?_, ?_⟩)
        · exact (readImport_congr hmarked.imports).trans hr
        · rw [happlied]
          exact fun h => by cases h
  | post now throwsAt marks =>
    dsimp only [step]
    obtain ⟨a, o', hasked, hpost⟩ := post_cases t g now throwsAt marks o
    have hsame : readHold t g (post t g now throwsAt marks o).2 = readHold t g o' := by
      rcases hpost with hpost | ⟨-, hpost⟩
      · rw [hpost]
      · rw [hpost]
        rfl
    rw [hsame]
    rcases hasked.readHold_eq with hkept | ⟨h, hh, hl, hlifted, hpast⟩
    · exact .inl ⟨hkept, fun h => by cases h⟩
    · exact .inr (.inr ⟨h, .valve, now, hh, hl, hlifted, (fun h => by cases h), hpast⟩)
  | pass now throwsAt =>
    rcases (importHeldUntil_cases t g now throwsAt o).readHold_eq with hkept | ⟨h, hh, hl, hlifted, hpast⟩
    · exact .inl ⟨hkept, fun h => by cases h⟩
    · exact .inr (.inr ⟨h, .valve, now, hh, hl, hlifted, (fun h => by cases h), hpast⟩)
  | object now op => exact .inl ⟨rfl, fun h => by cases h⟩

/-- The mark a first turn leaves. -/
def Started (t g : String) (o : Obj) : Prop := o.started.any (startedOf t g) = true

theorem agentStarted_of (h : Started t g o) : (agentStarted t g o).isSome = true := by
  have hmark : o.started.any (startedOf t g) = true := h
  unfold agentStarted
  rw [if_pos hmark]
  rfl

theorem started_mark (t g : String) (now : Int) (o : Obj) : Started t g (markStarted t g now o) := by
  unfold Started markStarted
  rw [← Table.one_isSome, Table.one_insertOrIgnore_self (by simp [startedOf])]
  rfl

/-- A turn that starts finds no hold in place, and leaves its mark, which stays. -/
theorem start_step (env : SeedEnv) (t g : String) (e : Event) (o : Obj) :
    (Started t g o → Started t g (step env t g e o).2) ∧
      ((step env t g e o).1 = .posted true → Started t g (step env t g e o).2 ∧ ¬ InPlace t g (step env t g e o).2) := by
  have hkeep : ∀ {o' : Obj}, o'.started = o.started → Started t g o → Started t g o' := by
    intro o' heq h
    unfold Started
    rw [heq]
    exact h
  cases e with
  | create now throwsAt =>
    refine ⟨hkeep ?_, nofun⟩
    dsimp only [step]
    rcases transact_cases (placeHold t g now o) throwsAt o with ⟨hthrew, -⟩ | hran
    · rw [hthrew]
    · rw [hran]
      unfold placeHold
      split <;> rfl
  | ask imp => exact ⟨id, nofun⟩
  | commit imp now throwsAt =>
    refine ⟨hkeep ?_, nofun⟩
    dsimp only [step]
    rcases importWorkspace_cases env imp now throwsAt o with ⟨r, hr, hdone⟩ | ⟨hnone, hdone | ⟨lifted, hans, hland⟩⟩
    · rw [hdone]
    · rw [hdone]
    · exact hland.started
  | applied migrationId now throwsAt =>
    refine ⟨hkeep ?_, nofun⟩
    dsimp only [step]
    rcases importInstructionsApplied_cases (t := t) (g := g) migrationId now throwsAt o with hsame | hmarked
    · rw [hsame]
    · exact hmarked.started
  | post now throwsAt marks =>
    dsimp only [step]
    obtain ⟨a, o', hasked, hpost | ⟨ha, hpost⟩⟩ := post_cases t g now throwsAt marks o
    · rw [hpost]
      exact ⟨hkeep hasked.started_eq, nofun⟩
    · rw [hpost]
      exact ⟨fun _ => started_mark t g now o', fun _ => ⟨started_mark t g now o', hasked.not_inPlace ha⟩⟩
  | pass now throwsAt => exact ⟨hkeep (importHeldUntil_cases t g now throwsAt o).started_eq, nofun⟩
  | object now op => exact ⟨id, nofun⟩

/-! ## The files' rows -/

theorem stateKey_eq (t g path : String) : stateKey t g path = fun r => r.slot == (t, g, path) := by
  funext r
  rw [Bool.eq_iff_iff, stateKey_slot, beq_iff_eq]

theorem one_putRow (now : Int) (r : ImportRow) (state : List StateRow) (x : String × String × String) :
    Table.one (fun s => s.slot == x) (putRow t g now r state) =
      if (t, g, r.path) = x then
        some (((Table.one (fun s => s.slot == x) state).map fun old =>
          { old with value := r.value, ref := r.ref, bytes := r.bytes, updatedAt := now }).getD (stateRow t g now r))
      else Table.one (fun s => s.slot == x) state := by
  unfold putRow
  rw [stateKey_eq]
  exact Table.one_upsert StateRow.slot (fun old => { old with value := r.value, ref := r.ref, bytes := r.bytes, updatedAt := now })
    (fun _ => rfl) (stateRow t g now r) x state

theorem putRows_other {now : Int} {rows : List ImportRow} {state : List StateRow} {x : String × String × String}
    (h : ∀ r ∈ rows, (t, g, r.path) ≠ x) :
    Table.one (fun s => s.slot == x) (putRows t g now rows state) = Table.one (fun s => s.slot == x) state := by
  induction rows generalizing state with
  | nil => rfl
  | cons r rows ih =>
    refine (ih fun r' hr' => h r' (List.mem_cons_of_mem _ hr')).trans ?_
    rw [one_putRow, if_neg (h r List.mem_cons_self)]

/-- Each file's row is what the import carried of it. -/
theorem putRows_file {now : Int} {rows : List ImportRow} {state : List StateRow} (hunique : (rows.map (·.path)).Nodup)
    {r : ImportRow} (hr : r ∈ rows) : ∃ s, Table.one (stateKey t g r.path) (putRows t g now rows state) = some s ∧
      s.value = r.value ∧ s.ref = r.ref ∧ s.bytes = r.bytes ∧ s.updatedAt = now := by
  rw [stateKey_eq]
  induction rows generalizing state with
  | nil => cases hr
  | cons x rows ih =>
    rw [List.map_cons, List.nodup_cons] at hunique
    rcases List.mem_cons.1 hr with rfl | hr
    · have hother : Table.one (fun s => s.slot == (t, g, r.path)) (putRows t g now rows (putRow t g now r state)) = _ :=
        putRows_other fun r' hr' heq => hunique.1 (List.mem_map.2 ⟨r', hr', congrArg (fun x => x.2.2) heq⟩)
      refine ⟨_, hother.trans ((one_putRow now r state _).trans (if_pos rfl)), ?_⟩
      cases Table.one (fun s => s.slot == (t, g, r.path)) state <;> exact ⟨rfl, rfl, rfl, rfl⟩
    · exact ih hunique.2 hr

end Steps

/-! ## Every history -/

section Histories

variable {env : SeedEnv} {t g : String}

/-- An event that asks for an import, or tries to make it. -/
def Tries (imp : ImportRequest) (e : Event) : Prop := e = .ask imp ∨ ∃ now throwsAt, e = .commit imp now throwsAt

/-- What an attempt was answered. -/
def answered (a : Answer) (r : CommitResult) : Prop := a = .decided (some r) ∨ a = .committed (some r)

/-- The record a made import is found under: its instructions may have been applied since. -/
def Recorded (record : ImportRecord) (digest : String) (t g : String) (o : Obj) : Prop :=
  ∃ i, readImport t g o = some ({ record with instructions := i }, digest) ∧
    (i = record.instructions ∨ record.instructions = .pending ∧ i = .applied)

theorem recorded_step {record : ImportRecord} {digest : String} {e : Event} {o : Obj} (h : Recorded record digest t g o) :
    Recorded record digest t g (step env t g e o).2 ∧ ∀ record', ¬ created (step env t g e o).1 record' := by
  obtain ⟨i, hread, hi⟩ := h
  rcases import_step env t g e o with ⟨hsame, hnot⟩ | ⟨imp, now, throwsAt, rfl, hnone, -⟩ |
    ⟨r, now, throwsAt, rfl, hr, hpending, hafter, hnot⟩
  · exact ⟨⟨i, hsame.trans hread, hi⟩, hnot⟩
  · unfold importDecided at hnone
    rw [hread] at hnone
    dsimp only at hnone
    split at hnone <;> cases hnone
  · rw [hread] at hr
    cases hr
    refine ⟨⟨.applied, hafter, .inr ⟨?_, rfl⟩⟩, hnot⟩
    rcases hi with rfl | ⟨hp, -⟩
    · exact hpending
    · exact hp

/-- An attempt after the import is answered its record, or refused, and writes nothing. -/
theorem tries_recorded {record : ImportRecord} {digest : String} {o : Obj} (h : Recorded record digest t g o)
    {imp : ImportRequest} {e : Event} (he : Tries imp e) :
    (step env t g e o).2 = o ∧
      (imp.digest = digest → ∃ i, (i = record.instructions ∨ record.instructions = .pending ∧ i = .applied) ∧
        answered (step env t g e o).1 (.ok false { record with instructions := i } none)) ∧
      (imp.digest ≠ digest → ∃ message, answered (step env t g e o).1 (.refused .already_imported message)) := by
  obtain ⟨i, hread, hi⟩ := h
  have hdecided : ∃ r, importDecided t g env imp.digest (imp.rows.map (·.path)) o = some r ∧
      (imp.digest = digest → r = .ok false { record with instructions := i } none) ∧
      (imp.digest ≠ digest → ∃ message, r = .refused .already_imported message) := by
    unfold importDecided
    rw [hread]
    dsimp only
    by_cases heq : digest = imp.digest
    · rw [if_pos heq]
      exact ⟨_, rfl, fun _ => rfl, fun hne => absurd heq.symm hne⟩
    · rw [if_neg heq]
      exact ⟨_, rfl, fun hd => absurd hd.symm heq, fun _ => ⟨_, rfl⟩⟩
  obtain ⟨r, hr, hsame, hother⟩ := hdecided
  have hanswer : (step env t g e o).2 = o ∧ answered (step env t g e o).1 r := by
    rcases he with rfl | ⟨now, throwsAt, rfl⟩
    · exact ⟨rfl, .inl (congrArg Answer.decided hr)⟩
    · dsimp only [step]
      rcases importWorkspace_cases env imp now throwsAt o with ⟨r', hr', hdone⟩ | ⟨hnone, -⟩
      · rw [hr] at hr'
        cases hr'
        rw [hdone]
        exact ⟨rfl, .inr rfl⟩
      · rw [hr] at hnone
        cases hnone
  refine ⟨hanswer.1, fun hd => ⟨i, hi, hsame hd ▸ hanswer.2⟩, fun hd => ?_⟩
  obtain ⟨message, rfl⟩ := hother hd
  exact ⟨message, hanswer.2⟩

/-- What an attempt that is answered as made found, and left. -/
structure Whole (t g : String) (imp : ImportRequest) (now : Int) (record : ImportRecord) (o o' : Obj) : Prop where
  fresh : readImport t g o = none
  unstarted : agentStarted t g o = none
  unseeded : ∀ r ∈ imp.rows, r.path ∉ seededPaths t g o
  landed : Landed t g imp now o o'
  kept : readImport t g o' = some (record, imp.digest)
  manifest : record.files = sortFiles imp.files ∧ record.migrationId = imp.migrationId
  files : (imp.rows.map (·.path)).Nodup → ∀ r ∈ imp.rows, ∃ s, Table.one (stateKey t g r.path) o'.agent.store.agentState = some s ∧
    s.value = r.value ∧ s.ref = r.ref ∧ s.bytes = r.bytes ∧ s.updatedAt = now
  others : ∀ t' g' key, (∀ r ∈ imp.rows, (t, g, r.path) ≠ (t', g', key)) →
    Table.one (stateKey t' g' key) o'.agent.store.agentState = Table.one (stateKey t' g' key) o.agent.store.agentState

theorem importDecided_none {imp : ImportRequest} {o : Obj}
    (h : importDecided t g env imp.digest (imp.rows.map (·.path)) o = none) :
    readImport t g o = none ∧ agentStarted t g o = none ∧ ∀ r ∈ imp.rows, r.path ∉ seededPaths t g o := by
  unfold importDecided at h
  split at h
  · split at h <;> cases h
  · rename_i hread
    split at h
    · cases h
    · rename_i hstarted
      split at h
      · cases h
      · rename_i hclash
        refine ⟨hread, hstarted, fun r hr hin => ?_⟩
        have hno := List.find?_eq_none.1 hclash r.path (List.mem_map.2 ⟨r, hr, rfl⟩)
        exact hno (List.contains_iff_mem.2 hin)

theorem whole_of {imp : ImportRequest} {now : Int} {o o' : Obj}
    (hdecided : importDecided t g env imp.digest (imp.rows.map (·.path)) o = none) (h : Landed t g imp now o o') :
    Whole t g imp now (importRow t g imp now).record o o' := by
  obtain ⟨hread, hstarted, hseeded⟩ := importDecided_none hdecided
  have hrows : o'.agent.store.agentState = putRows t g now imp.rows o.agent.store.agentState := by rw [h.agent]; rfl
  refine ⟨hread, hstarted, hseeded, h, readImport_landed hread h, ⟨rfl, rfl⟩, fun hunique r hr => ?_, fun t' g' key hkey => ?_⟩
  · rw [hrows]
    exact putRows_file hunique hr
  · rw [hrows, stateKey_eq]
    exact putRows_other hkey

/-- An event that lifts the hold. -/
def Lifts (t g : String) (x : Turn) : Prop := InPlace t g x.before ∧ ¬ InPlace t g x.after

theorem not_inPlace_step {e : Event} {o : Obj} (h : ∃ h, readHold t g o = some h ∧ h.liftedAt.isSome = true) :
    (∃ h, readHold t g (step env t g e o).2 = some h ∧ h.liftedAt.isSome = true) ∧ (step env t g e o).1 ≠ .placed (some true) := by
  obtain ⟨h, hh, hl⟩ := h
  rcases hold_step env t g e o with ⟨hsame, hnot⟩ | ⟨now, throwsAt, -, -, -, -, hnone, -⟩ | ⟨h', how, now, hh', hl', -⟩
  · exact ⟨⟨h, hsame.trans hh, hl⟩, hnot⟩
  · rw [hh] at hnone
    cases hnone
  · rw [hh] at hh'
    cases hh'
    rw [hl'] at hl
    cases hl

theorem held_step {e : Event} {o : Obj} (h : (readHold t g o).isSome = true) :
    (readHold t g (step env t g e o).2).isSome = true ∧ (step env t g e o).1 ≠ .placed (some true) := by
  rcases hold_step env t g e o with ⟨hsame, hnot⟩ | ⟨now, throwsAt, -, -, -, -, hnone, -⟩ | ⟨h', how, now, -, -, hafter, hnot, -⟩
  · exact ⟨by rw [hsame]; exact h, hnot⟩
  · rw [hnone] at h
    cases h
  · exact ⟨by rw [hafter]; rfl, hnot⟩

/-- A turn marked keeps an import from being made and a hold from being placed. -/
theorem started_blocks {e : Event} {o : Obj} (h : Started t g o) :
    (∀ record, ¬ created (step env t g e o).1 record) ∧ (step env t g e o).1 ≠ .placed (some true) := by
  have hstarted := agentStarted_of h
  constructor
  · rcases import_step env t g e o with ⟨-, hnot⟩ | ⟨imp, now, throwsAt, rfl, hnone, -⟩ | ⟨r, now, throwsAt, -, -, -, -, hnot⟩
    · exact hnot
    · rw [(importDecided_none hnone).2.1] at hstarted
      cases hstarted
    · exact hnot
  · rcases hold_step env t g e o with ⟨-, hnot⟩ | ⟨now, throwsAt, -, -, -, hnone, -⟩ | ⟨h', how, now, -, -, -, hnot, -⟩
    · exact hnot
    · rw [hnone] at hstarted
      cases hstarted
    · exact hnot

theorem recorded_unplaced {record : ImportRecord} {digest : String} {e : Event} {o : Obj} (h : Recorded record digest t g o) :
    (step env t g e o).1 ≠ .placed (some true) := by
  obtain ⟨i, hread, -⟩ := h
  rcases hold_step env t g e o with ⟨-, hnot⟩ | ⟨now, throwsAt, -, -, hnone, -⟩ | ⟨h', how, now, -, -, -, hnot, -⟩
  · exact hnot
  · rw [hread] at hnone
    cases hnone
  · exact hnot

/-- What holds of an event after one that made an import. -/
def AfterImport (x y : Turn) : Prop :=
  ∀ imp now throwsAt record, x.act = .commit imp now throwsAt → created x.answer record →
    (∀ record', ¬ created y.answer record') ∧ y.answer ≠ .placed (some true) ∧
      ∀ imp', Tries imp' y.act → y.after = y.before ∧
        (imp'.digest = imp.digest → ∃ i, (i = record.instructions ∨ record.instructions = .pending ∧ i = .applied) ∧
          answered y.answer (.ok false { record with instructions := i } none)) ∧
        (imp'.digest ≠ imp.digest → ∃ message, answered y.answer (.refused .already_imported message))

theorem afterImport_turns (env : SeedEnv) (t g : String) (events : List Event) (o : Obj) :
    (History.turns (step env t g) events o).Pairwise AfterImport := by
  refine History.pairwise_turns (K := fun x s => ∀ imp now throwsAt record, x.act = .commit imp now throwsAt →
    created x.answer record → Recorded record imp.digest t g s) ?_ ?_ ?_
  · intro e o imp now throwsAt record hact hcreated
    have hact : e = .commit imp now throwsAt := hact
    subst hact
    rcases import_step env t g (.commit imp now throwsAt) o with ⟨-, hnot⟩ |
      ⟨imp', now', throwsAt', heq, hnone, ⟨lifted, hans⟩, hland⟩ | ⟨r, now', throwsAt', heq, -⟩
    · exact absurd hcreated (hnot record)
    · cases heq
      obtain ⟨lifted', hans'⟩ := hcreated
      have hboth := hans.symm.trans hans'
      cases hboth
      exact ⟨_, (whole_of hnone hland).kept, .inl rfl⟩
    · cases heq
  · intro x e o hK imp now throwsAt record hact hcreated
    exact (recorded_step (hK imp now throwsAt record hact hcreated)).1
  · intro x e o hK imp now throwsAt record hact hcreated
    have hrecorded := hK imp now throwsAt record hact hcreated
    exact ⟨(recorded_step hrecorded).2, recorded_unplaced hrecorded, fun imp' he => tries_recorded hrecorded he⟩

/-- How a hold was lifted. -/
def LiftedRightly (t g : String) (x : Turn) : Prop :=
  ∃ since now how, readHold t g x.after = some ⟨since, some now, some how⟩ ∧
    match how with
    | .import => ∃ r, readImport t g x.after = some r ∧ r.1.instructions ≠ .pending
    | .valve => since + importHoldMaxMs ≤ now

theorem lifts_rightly (e : Event) (o : Obj) (h : Lifts t g (History.turn (step env t g) e o)) :
    LiftedRightly t g (History.turn (step env t g) e o) := by
  obtain ⟨⟨h', hh, hl⟩, hnot⟩ := h
  rcases hold_step env t g e o with ⟨hsame, -⟩ | ⟨now, throwsAt, -, -, -, -, hnone, -⟩ | ⟨h', how, now, -, -, hafter, -, hhow⟩
  · exact absurd ⟨h', hsame.trans hh, hl⟩ hnot
  · have hread : readHold t g o = some h' := hh
    rw [hread] at hnone
    cases hnone
  · exact ⟨h'.since, now, how, hafter, hhow⟩

/-- Over every history of an agent's object: an import is made once and whole, before any turn and over no seeded path;
after it an attempt is answered its record or refused; a hold is placed once, keeps turns from starting, and is lifted
once, by the import only with its instructions applied; and the digest is of the id, the instructions and the files. -/
theorem import_once (env : SeedEnv) (t g : String) (o₀ : Obj) (events : List Event) :
    (∀ x ∈ History.turns (step env t g) events o₀, ∀ imp now throwsAt, x.act = .commit imp now throwsAt →
      x.after = x.before ∨ ∃ record, created x.answer record ∧ Whole t g imp now record x.before x.after) ∧
    (History.turns (step env t g) events o₀).Pairwise AfterImport ∧
    (History.turns (step env t g) events o₀).Pairwise (fun x y => x.answer = .posted true →
      (∀ record, ¬ created y.answer record) ∧ y.answer ≠ .placed (some true)) ∧
    (∀ x ∈ History.turns (step env t g) events o₀, x.answer = .posted true → ¬ InPlace t g x.after) ∧
    (∀ x ∈ History.turns (step env t g) events o₀, x.answer = .placed (some true) →
      readImport t g x.before = none ∧ agentStarted t g x.before = none ∧ readHold t g x.before = none) ∧
    (History.turns (step env t g) events o₀).Pairwise (fun x y => x.answer = .placed (some true) →
      y.answer ≠ .placed (some true)) ∧
    (History.turns (step env t g) events o₀).Pairwise (fun x y => Lifts t g x →
      ¬ InPlace t g y.after ∧ y.answer ≠ .placed (some true)) ∧
    (∀ x ∈ History.turns (step env t g) events o₀, Lifts t g x → LiftedRightly t g x) ∧
    (∀ x ∈ History.turns (step env t g) events o₀, ∀ r r', readImport t g x.before = some r → r.1.instructions = .pending →
      readImport t g x.after = some r' → r'.1.instructions = .applied →
        ∃ now throwsAt, x.act = .applied r.1.migrationId now throwsAt) ∧
    ∀ m m' i i' files files', (files.map ImportedFile.path).Nodup → (files'.map ImportedFile.path).Nodup →
      (env.sha256 (utf8 (digestJson m i files).canonJson) = env.sha256 (utf8 (digestJson m' i' files').canonJson) →
        utf8 (digestJson m i files).canonJson = utf8 (digestJson m' i' files').canonJson) →
      (importDigest env m i files = importDigest env m' i' files' ↔
        m = m' ∧ i = i' ∧ ∀ p, p ∈ files.map ImportedFile.pair ↔ p ∈ files'.map ImportedFile.pair) := by
  have hevery : ∀ {P : Turn → Prop}, (∀ e o, P (History.turn (step env t g) e o)) →
      ∀ x ∈ History.turns (step env t g) events o₀, P x := fun hP =>
    History.forall_turns (I := fun _ => True) trivial (fun _ _ _ => trivial) fun e o _ => hP e o
  refine ⟨hevery ?_, afterImport_turns env t g events o₀, ?_, hevery ?_, hevery ?_, ?_, ?_, hevery lifts_rightly, hevery ?_,
    fun _ _ _ _ _ _ hunique hunique' hhash => digest_iff env hunique hunique' hhash⟩
  · rintro e o imp now throwsAt hact
    have hact : e = .commit imp now throwsAt := hact
    subst hact
    rcases importWorkspace_cases env imp now throwsAt o with ⟨r, hr, hdone⟩ | ⟨hnone, hdone | ⟨lifted, hans, hland⟩⟩
    · exact .inl (congrArg Prod.snd hdone)
    · exact .inl (congrArg Prod.snd hdone)
    · exact .inr ⟨_, ⟨lifted, congrArg Answer.committed hans⟩, whole_of hnone hland⟩
  · refine History.pairwise_turns (K := fun x s => x.answer = .posted true → Started t g s) ?_ ?_ ?_
    · exact fun e o hstart => ((start_step env t g e o).2 hstart).1
    · exact fun x e o hK hstart => (start_step env t g e o).1 (hK hstart)
    · exact fun x e o hK hstart => started_blocks (hK hstart)
  · exact fun e o hstart => ((start_step env t g e o).2 hstart).2
  · intro e o hplaced
    rcases hold_step env t g e o with ⟨-, hnot⟩ | ⟨now, throwsAt, -, -, hread, hstarted, hhold, -⟩ |
      ⟨h', how, now, -, -, -, hnot, -⟩
    · exact absurd hplaced hnot
    · exact ⟨hread, hstarted, hhold⟩
    · exact absurd hplaced hnot
  · refine History.pairwise_turns (K := fun x s => x.answer = .placed (some true) → (readHold t g s).isSome = true) ?_ ?_ ?_
    · intro e o hplaced
      rcases hold_step env t g e o with ⟨-, hnot⟩ | ⟨now, throwsAt, -, -, -, -, -, hafter⟩ | ⟨h', how, now, -, -, -, hnot, -⟩
      · exact absurd hplaced hnot
      · rw [hafter]
        rfl
      · exact absurd hplaced hnot
    · exact fun x e o hK hplaced => (held_step (hK hplaced)).1
    · exact fun x e o hK hplaced => (held_step (hK hplaced)).2
  · refine History.pairwise_turns (K := fun x s => Lifts t g x → ∃ h, readHold t g s = some h ∧ h.liftedAt.isSome = true) ?_ ?_ ?_
    · intro e o hlifts
      obtain ⟨since, now, how, hafter, -⟩ := lifts_rightly e o hlifts
      exact ⟨_, hafter, rfl⟩
    · exact fun x e o hK hlifts => (not_inPlace_step (hK hlifts)).1
    · intro x e o hK hlifts
      obtain ⟨⟨h, hh, hl⟩, hnot⟩ := not_inPlace_step (hK hlifts)
      refine ⟨?_, hnot⟩
      rintro ⟨h', hh', hl'⟩
      have hsame := hh.symm.trans hh'
      cases hsame
      rw [hl'] at hl
      cases hl
  · intro e o r r' hr hpending hr' happlied
    have hbefore : readImport t g o = some r := hr
    have hafter : readImport t g (step env t g e o).2 = some r' := hr'
    rcases import_step env t g e o with ⟨hsame, -⟩ | ⟨imp, now, throwsAt, -, hnone, -⟩ | ⟨r'', now, throwsAt, heq, hread, -⟩
    · rw [hsame, hbefore] at hafter
      cases hafter
      rw [hpending] at happlied
      cases happlied
    · rw [(importDecided_none hnone).1] at hbefore
      cases hbefore
    · rw [hbefore] at hread
      cases hread
      exact ⟨now, throwsAt, heq⟩

end Histories

end Antiproton.Import
