import Antiproton.Runtime.Rows

/-!
# Antiproton.Runtime.Alone

A gateway method run alone, from any world to its end, with the history of what it did.

* `Quiet.keeps`: a method that starts and enters nothing keeps what no quiet await takes away.
* `ends_row`: an operation's row is never lost.
* `status_completed`: a completion that did not throw leaves the status it was given.
-/

namespace Antiproton

open Js Process

variable {G : Gateway} {t o : String} {A B : Type}

/-- Run alone from a world, after a history, a method ends in `Q`, whatever its awaits answer within `can`. -/
abbrev EndsIn (G : Gateway) (can : (op : Await) → op.Ans → Prop)
    (Q : Except Thrown A → World → History → Prop) (p : Act A) (w : World) (h : History) : Prop :=
  Ends (M := G.machine) can Q p w h

/-- Whatever its awaits answer within `can`, a method keeps `Q` for its results and `E` for its errors. -/
abbrev KeepsIn (can : (op : Await) → op.Ans → Prop) (Q : A → History → Prop) (E : Thrown → History → Prop)
    (p : Act A) (h : History) : Prop :=
  Keeps (F := gatewayInterface) (fun _ _ => True) can Q E p h

/-! ## Methods that start and enter nothing -/

def Quiet : Act A → Prop
  | .done _ | .fail _ => True
  | .act o next => o.quiet ∧ ∀ a, Quiet (next a)

theorem Plain.quiet {p : Act A} (hp : Plain p) : Quiet p := by
  induction p with
  | done a => trivial
  | fail e => trivial
  | act o next ih => exact ⟨Await.quiet_of_plain hp.1, fun a => ih a (hp.2 a)⟩

theorem Quiet.await {op : Await} {f : op.Ans → Act A} (ho : op.quiet) (hf : ∀ a, Quiet (f a)) :
    Quiet (Antiproton.await op >>= f) := ⟨ho, hf⟩

theorem Quiet.bind {p : Act A} {f : A → Act B} (hp : Quiet p) (hf : ∀ a, Quiet (f a)) : Quiet (p >>= f) := by
  induction p with
  | done a => exact hf a
  | fail e => trivial
  | act o next ih => exact ⟨hp.1, fun a => ih a (hp.2 a)⟩

theorem complete_quiet {s : OperationStatus} {result : Option Json} {facts : CompletedFacts} :
    Quiet (complete t o s result facts) := by
  refine .await rfl fun done => ?_
  cases done <;> trivial

theorem answerQuestion_quiet (x : Running) (started : Int) (i : Interrupt) : Quiet (answerQuestion G x started i) := by
  unfold answerQuestion
  dsimp only
  split
  · split
    · exact .await rfl fun _ => .bind complete_quiet fun _ => trivial
    · exact .bind complete_quiet fun _ => trivial
  · trivial
  · exact .bind complete_quiet fun _ => trivial

theorem recordStep_quiet (x : Running) (started : Int) (answer : StepAnswer) : Quiet (recordStep G x started answer) := by
  cases answer with
  | threw e => trivial
  | asked i => exact answerQuestion_quiet x started i
  | backgrounded handle note => exact .bind complete_quiet fun _ => trivial
  | returned lease result => exact .bind (leases_plain _ _ _).quiet fun _ => .bind complete_quiet fun _ => trivial

theorem recordFailure_quiet (x : Running) (started : Int) (e : Thrown) : Quiet (recordFailure x started e) :=
  .bind (leases_plain _ _ _).quiet fun _ => .bind complete_quiet fun _ => trivial

/-- A quiet method keeps what no quiet await takes away, whether it ends or throws. -/
theorem Quiet.keeps {can : (op : Await) → op.Ans → Prop} {I : History → Prop} {p : Act A} (hp : Quiet p)
    (hI : Stable I) {h : History} (hh : I h) : KeepsIn can (fun _ => I) (fun _ => I) p h := by
  induction p generalizing h with
  | done a => exact hh
  | fail e => exact hh
  | act o next ih => exact ⟨trivial, fun a _ => ih a (hp.2 a) (hI ⟨o, a⟩ h hp.1 hh)⟩

theorem Quiet.ends {can : (op : Await) → op.Ans → Prop} {I : History → Prop} {p : Act A} (hp : Quiet p)
    (hI : Stable I) {h : History} (hh : I h) (w : World) : EndsIn G can (fun _ _ => I) p w h := by
  refine (Keeps.ends (M := G.machine) (hp.keeps hI hh) w).mono fun r w h hr => ?_
  cases r with
  | ok a => exact hr.1 a rfl
  | error e => exact hr.2 e rfl

/-! ## The operation's row -/

/-- An await never removes an operation's row. -/
theorem row_kept (op : Await) (i : Input) (w : World) (hw : (statusOf t o w).isSome) :
    (statusOf t o (Await.exec G.ids op i w).2).isSome := by
  have hstep : StatusStep t o _ (statusOf t o w) (statusOf t o (Await.exec G.ids op i w).2) := exec_status op
  generalize Await.exec G.ids op i w = done at hstep ⊢
  obtain ⟨ans, after⟩ := done
  generalize statusOf t o w = was at hstep hw
  generalize statusOf t o after = status at hstep ⊢
  cases hstep with
  | recorded => rfl
  | started => rfl
  | completed => rfl
  | kept => exact hw

theorem ends_row {can : (op : Await) → op.Ans → Prop} (p : Act A) {w : World} {h : History}
    (hw : (statusOf t o w).isSome) : EndsIn G can (fun _ w _ => (statusOf t o w).isSome) p w h :=
  Ends.world (M := G.machine) row_kept p hw

/-- A completion that did not throw leaves the operation in its status. -/
theorem status_completed {s : OperationStatus} {ref : Option String} {result : Option Json} {facts : CompletedFacts}
    {i : Input} {w : World} (hok : (Await.exec G.ids (.completeOperation t o s ref result facts) i w).1 = .ok ())
    (hw : (statusOf t o w).isSome) :
    statusOf t o (Await.exec G.ids (.completeOperation t o s ref result facts) i w).2 = some s := by
  cases hx : DurableObject.completeOperation ⟨i.now, i.uuid⟩ t o s ref result facts w.db with
  | error e =>
    simp only [Await.exec, hx] at hok
    cases hok
  | ok r =>
    have ha := (DurableObject.completeOperation_writes hx).1
    simp only [Await.exec, hx, statusOf, ha, DurableObject.markCompleted]
    rw [Table.one_update_self ?_]
    swap
    · exact fun _ => rfl
    rw [statusOf, Option.isSome_map] at hw
    obtain ⟨row, hrow⟩ := Option.isSome_iff_exists.1 hw
    rw [hrow]
    rfl

end Antiproton
