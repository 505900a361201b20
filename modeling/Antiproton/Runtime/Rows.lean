import Antiproton.Runtime.Law
import Antiproton.Store.Frames

/-!
# Antiproton.Runtime.Rows

What an await can do to the rows of one operation, said once for each table.

* `exec_hold`: the hold of an operation is made, decided, claimed or finished, each by the await of that
  name under that operation, or it stays as it is.
* `exec_status`: the operation is recorded, started or completed, or its status stays as it is.
-/

namespace Antiproton

open Js Process

section Rows

variable {ids : OperationIds} {t o : String} {i : Input} {w : World}

/-- The hold of an operation. -/
def holdOf (t o : String) (w : World) : Option ApprovalRow := Table.one (approvalKey t o) w.db.approvals

/-- The status of an operation. -/
def statusOf (t o : String) (w : World) : Option OperationStatus :=
  (Table.one (operationKey t o) w.db.operations).map (·.status)

/-- What an await with its answer does to the hold of an operation. -/
inductive HoldStep (t o : String) (now : Int) :
    Event gatewayInterface → Option ApprovalRow → Option ApprovalRow → Prop
  | made {a : HoldRequest} {same : ApprovalRecord → Bool} (ht : a.tenantId = t) (ho : a.operationId = o) :
      HoldStep t o now ⟨.holdApproval a same, HoldResult.created⟩ none (some (a.row now))
  | decided {r : ApprovalRow} {d : Decision} {who : String} {by_ : Option DecidedBy} {notice : Option Str}
      {record : ApprovalRecord} (hd : decisionProblem r d now = none) :
      HoldStep t o now ⟨.decideApproval t o d who by_ notice, DecideOutcome.ok record⟩ (some r)
        (some { decided d who now by_ r with notice := notice })
  | claimed {r : ApprovalRow} {at_ : Int} (hs : r.state = .approved) (hr : r.runAt = none) :
      HoldStep t o now ⟨.claimApprovalRun t o at_, true⟩ (some r) (some { r with runAt := some at_ })
  | finished {r : ApprovalRow} {s : FinishState} {summary : String} {notice : Str} (hs : r.state = .approved) :
      HoldStep t o now ⟨.finishApproval t o s summary notice, true⟩ (some r)
        (some { r with state := s.state, outcome := some summary, notice := some notice })
  | kept {e : Event gatewayInterface} {r : Option ApprovalRow} (he : ¬ endsHold t o e) : HoldStep t o now e r r

theorem holdOf_traced (rows : List TraceRow) (w : World) :
    holdOf t o { w with db := rows.foldl (fun db row => appendTrace row db) w.db } = holdOf t o w := by
  have h : ∀ db : Db, (rows.foldl (fun db row => appendTrace row db) db).approvals = db.approvals := by
    induction rows with
    | nil => exact fun _ => rfl
    | cons row rows ih => exact fun db => by rw [List.foldl_cons, ih, appendTrace_approvals]
  simp only [holdOf, h]

/-- A write of the rows of another hold leaves this one as it is. -/
theorem one_update_hold {t' o' : String} {f : ApprovalRow → ApprovalRow} {table : List ApprovalRow}
    (hf : ∀ r, approvalKey t o (f r) = approvalKey t o r) (hne : ¬ (t' = t ∧ o' = o)) :
    Table.one (approvalKey t o) (Table.update (approvalKey t' o') f table) = Table.one (approvalKey t o) table := by
  refine Table.one_update_other hf (fun r hr => ?_) table
  simp only [approvalKey, Bool.and_eq_true, beq_iff_eq] at hr
  simp only [approvalKey, hr.1, hr.2, Bool.and_eq_false_iff, beq_eq_false_iff_ne, ne_eq]
  by_contra hc
  exact hne ⟨by by_contra h; exact hc (.inl fun h' => h h'.symm), by by_contra h; exact hc (.inr fun h' => h h'.symm)⟩

theorem exec_holdApproval (a : HoldRequest) (same : ApprovalRecord → Bool) :
    HoldStep t o i.now ⟨.holdApproval a same, (Await.exec ids (.holdApproval a same) i w).1⟩ (holdOf t o w)
      (holdOf t o (Await.exec ids (.holdApproval a same) i w).2) := by
  simp only [Await.exec, World.store, holdOf, DurableObject.holdApproval]
  cases ((openHolds i.now a w.db).map mapApproval).find? same with
  | some existing => exact .kept not_false
  | none =>
    dsimp only
    rw [Table.one_insertOrIgnore]
    cases hc : w.db.approvals.any (approvalKey a.tenantId a.operationId) with
    | true => exact .kept not_false
    | false =>
      by_cases hk : a.tenantId = t ∧ a.operationId = o
      · obtain ⟨rfl, rfl⟩ := hk
        have hn := Table.any_eq_false.1 hc
        have hrow : approvalKey a.tenantId a.operationId (a.row i.now) = true := by
          simp [approvalKey, HoldRequest.row]
        simp only [hn, hrow, Option.none_or, if_true, Bool.false_eq_true, if_false]
        exact .made rfl rfl
      · have hrow : approvalKey t o (a.row i.now) = false := by
          simpa [approvalKey, HoldRequest.row, imp_iff_not_or, not_and_or] using hk
        simp only [hrow, Bool.false_eq_true, if_false, Option.or_none]
        exact .kept not_false

/-- A hold is found under its own operation only. -/
example : holdOf "t" "o2" ⟨{ Db.empty with approvals := [HoldRequest.row ⟨"t", "o1", "a", "k", "m", "write", .null, none⟩ 5] }, [], 0⟩ =
    none := by decide +kernel

theorem exec_decideApproval (t' o' : String) (d : Decision) (who : String) (by_ : Option DecidedBy)
    (notice : Option Str) :
    HoldStep t o i.now ⟨.decideApproval t' o' d who by_ notice, (Await.exec ids (.decideApproval t' o' d who by_ notice) i w).1⟩
      (holdOf t o w) (holdOf t o (Await.exec ids (.decideApproval t' o' d who by_ notice) i w).2) := by
  simp only [Await.exec, World.store, holdOf, DurableObject.decideApproval]
  cases h : Table.one (approvalKey t' o') w.db.approvals with
  | none => exact .kept fun hk => by obtain ⟨-, -, -, _, hr⟩ := hk; cases hr
  | some r =>
    dsimp only
    cases hd : decisionProblem r d i.now with
    | some problem => exact .kept fun hk => by obtain ⟨-, -, -, _, hr⟩ := hk; cases hr
    | none =>
      dsimp only
      rw [appendTrace_approvals]
      by_cases hk : t' = t ∧ o' = o
      · obtain ⟨rfl, rfl⟩ := hk
        dsimp only
        rw [Table.one_update_self ?_, h]
        · exact .decided hd
        · exact fun _ => rfl
      · dsimp only
        rw [one_update_hold ?_ hk]
        · exact .kept fun h => hk ⟨h.1, h.2.1⟩
        · exact fun _ => rfl

theorem exec_claimApprovalRun (t' o' : String) (at_ : Int) :
    HoldStep t o i.now ⟨.claimApprovalRun t' o' at_, (Await.exec ids (.claimApprovalRun t' o' at_) i w).1⟩
      (holdOf t o w) (holdOf t o (Await.exec ids (.claimApprovalRun t' o' at_) i w).2) := by
  simp only [Await.exec, World.store, holdOf, DurableObject.claimApprovalRun]
  cases h : Table.one (approvalKey t' o') w.db.approvals with
  | none => exact .kept fun hk => Bool.false_ne_true hk.2.2
  | some r =>
    dsimp only
    split
    · exact .kept fun hk => Bool.false_ne_true hk.2.2
    · rename_i hr
      simp only [ne_eq, not_or, Decidable.not_not, Bool.not_eq_true, Option.isSome_eq_false_iff, Option.isNone_iff_eq_none] at hr
      by_cases hk : t' = t ∧ o' = o
      · obtain ⟨rfl, rfl⟩ := hk
        dsimp only
        rw [Table.one_update_self ?_, h]
        · exact .claimed hr.1 hr.2
        · exact fun _ => rfl
      · dsimp only
        rw [one_update_hold ?_ hk]
        · exact .kept fun h => hk ⟨h.1, h.2.1⟩
        · exact fun _ => rfl

theorem exec_finishApproval (t' o' : String) (s : FinishState) (summary : String) (notice : Str) :
    HoldStep t o i.now ⟨.finishApproval t' o' s summary notice, (Await.exec ids (.finishApproval t' o' s summary notice) i w).1⟩
      (holdOf t o w) (holdOf t o (Await.exec ids (.finishApproval t' o' s summary notice) i w).2) := by
  simp only [Await.exec, World.store, holdOf, DurableObject.finishApproval]
  cases h : Table.one (approvalKey t' o') w.db.approvals with
  | none => exact .kept not_false
  | some r =>
    dsimp only
    split
    · exact .kept not_false
    · rename_i hr
      by_cases hk : t' = t ∧ o' = o
      · obtain ⟨rfl, rfl⟩ := hk
        dsimp only
        rw [Table.one_update_self ?_, h]
        · exact .finished (Decidable.not_not.1 hr)
        · exact fun _ => rfl
      · dsimp only
        rw [one_update_hold ?_ hk]
        · exact .kept not_false
        · exact fun _ => rfl

/-- What an await does to the hold of an operation. -/
theorem exec_hold (op : Await) :
    HoldStep t o i.now ⟨op, (Await.exec ids op i w).1⟩ (holdOf t o w) (holdOf t o (Await.exec ids op i w).2) := by
  cases op with
  | recordTrace rows =>
    simp only [Await.exec, holdOf_traced]
    exact .kept not_false
  | completeOperation t' o' s ref result facts =>
    cases h : DurableObject.completeOperation ⟨i.now, i.uuid⟩ t' o' s ref result facts w.db with
    | error e =>
      simp only [Await.exec, h]
      exact .kept not_false
    | ok r =>
      have ha := (DurableObject.completeOperation_writes h).2
      simp only [Await.exec, h, holdOf, ha]
      exact .kept not_false
  | holdApproval a same => exact exec_holdApproval a same
  | decideApproval t' o' d who by_ notice => exact exec_decideApproval t' o' d who by_ notice
  | claimApprovalRun t' o' at_ => exact exec_claimApprovalRun t' o' at_
  | finishApproval t' o' s summary notice => exact exec_finishApproval t' o' s summary notice
  | startOperation t' o' =>
    simp only [Await.exec, World.store, holdOf, DurableObject.startOperation_approvals]
    exact .kept not_false
  | _ => exact .kept not_false

/-! ## The operation -/

/-- What an await with its answer does to the status of an operation. -/
inductive StatusStep (t o : String) :
    Event gatewayInterface → Option OperationStatus → Option OperationStatus → Prop
  | recorded {op : NewOperation} (ht : op.tenantId = t) (ho : op.operationId = o) :
      StatusStep t o ⟨.recordOperation op, ()⟩ none (some .pending)
  | started {s : OperationStatus} (hs : startable s) :
      StatusStep t o ⟨.startOperation t o, true⟩ (some s) (some .running)
  | completed {s s' : OperationStatus} {ref : Option String} {result : Option Json} {facts : CompletedFacts} :
      StatusStep t o ⟨.completeOperation t o s' ref result facts, .ok ()⟩ (some s) (some s')
  | kept {e : Event gatewayInterface} {s : Option OperationStatus} (he : takesOf t o e = 0) : StatusStep t o e s s

theorem statusOf_traced (rows : List TraceRow) (w : World) :
    statusOf t o { w with db := rows.foldl (fun db row => appendTrace row db) w.db } = statusOf t o w := by
  have h : ∀ db : Db, (rows.foldl (fun db row => appendTrace row db) db).operations = db.operations := by
    induction rows with
    | nil => exact fun _ => rfl
    | cons row rows ih => exact fun db => by rw [List.foldl_cons, ih, appendTrace_operations]
  simp only [statusOf, h]

theorem one_update_operation (t' o' : String) {p : OperationRow → Bool} {f : OperationRow → OperationRow}
    {table : List OperationRow} (hp : ∀ r, p r = true → operationKey t' o' r = true)
    (hf : ∀ r, operationKey t o (f r) = operationKey t o r) (hne : ¬ (t' = t ∧ o' = o)) :
    Table.one (operationKey t o) (Table.update p f table) = Table.one (operationKey t o) table := by
  refine Table.one_update_other hf (fun r hr => ?_) table
  cases hpr : p r with
  | false => rfl
  | true =>
    have h := hp r hpr
    simp only [operationKey, Bool.and_eq_true, beq_iff_eq] at hr h
    exact absurd ⟨h.1.symm.trans hr.1, h.2.symm.trans hr.2⟩ hne

theorem exec_recordOperation (op : NewOperation) :
    StatusStep t o ⟨.recordOperation op, ()⟩ (statusOf t o w)
      (statusOf t o (Await.exec ids (.recordOperation op) i w).2) := by
  simp only [Await.exec, statusOf, DurableObject.recordOperation, Table.one_insertOrIgnore]
  cases hc : w.db.operations.any fun r => r.operationId == op.operationId with
  | true => exact .kept rfl
  | false =>
    by_cases hk : op.tenantId = t ∧ op.operationId = o
    · obtain ⟨rfl, rfl⟩ := hk
      have hn : Table.one (operationKey op.tenantId op.operationId) w.db.operations = none :=
        Table.one_eq_none.2 fun r hr => by
          have h := List.any_eq_false.1 hc r hr
          simp only [operationKey, Bool.and_eq_false_iff]
          exact .inr (by simpa using h)
      have hrow : operationKey op.tenantId op.operationId (op.row i.now) = true := by
        simp [operationKey, NewOperation.row]
      simp only [hn, hrow, Option.none_or, if_true, Bool.false_eq_true, if_false]
      exact .recorded rfl rfl
    · have hrow : operationKey t o (op.row i.now) = false := by
        simpa [operationKey, NewOperation.row, imp_iff_not_or, not_and_or] using hk
      simp only [hrow, Bool.false_eq_true, if_false, Option.or_none]
      exact .kept rfl

theorem exec_startOperation (t' o' : String) :
    StatusStep t o ⟨.startOperation t' o', (Await.exec ids (.startOperation t' o') i w).1⟩ (statusOf t o w)
      (statusOf t o (Await.exec ids (.startOperation t' o') i w).2) := by
  simp only [Await.exec, World.store, statusOf, DurableObject.startOperation]
  cases h : Table.one (operationKey t' o') w.db.operations with
  | none => exact .kept (by simp [takesOf])
  | some r =>
    dsimp only
    split
    · rename_i hs
      by_cases hk : t' = t ∧ o' = o
      · obtain ⟨rfl, rfl⟩ := hk
        dsimp only
        rw [Table.one_update_key ?_, h]
        · simp only [Option.map_some, Table.one_some h, hs, Bool.and_self, if_true]
          exact .started hs
        · exact fun _ => rfl
      · dsimp only
        rw [one_update_operation t' o' ?_ ?_ hk]
        · exact .kept (by simp only [takesOf]; exact if_neg fun h => hk ⟨h.1, h.2.1⟩)
        · exact fun r hr => (Bool.and_eq_true_iff.1 hr).1
        · exact fun _ => rfl
    · exact .kept (by simp [takesOf])

theorem exec_completeOperation (t' o' : String) (s : OperationStatus) (ref : Option String) (result : Option Json)
    (facts : CompletedFacts) :
    StatusStep t o ⟨.completeOperation t' o' s ref result facts,
        (Await.exec ids (.completeOperation t' o' s ref result facts) i w).1⟩ (statusOf t o w)
      (statusOf t o (Await.exec ids (.completeOperation t' o' s ref result facts) i w).2) := by
  cases hw : DurableObject.completeOperation ⟨i.now, i.uuid⟩ t' o' s ref result facts w.db with
  | error e =>
    simp only [Await.exec, hw]
    exact .kept rfl
  | ok r =>
    have ha := (DurableObject.completeOperation_writes hw).1
    simp only [Await.exec, hw, statusOf, ha, DurableObject.markCompleted]
    by_cases hk : t' = t ∧ o' = o
    · obtain ⟨rfl, rfl⟩ := hk
      rw [Table.one_update_self ?_]
      · cases Table.one (operationKey t' o') w.db.operations with
        | none => exact .kept rfl
        | some row => exact .completed
      · exact fun _ => rfl
    · rw [one_update_operation t' o' ?_ ?_ hk]
      · exact .kept rfl
      · exact fun _ hr => hr
      · exact fun _ => rfl

/-- What an await does to the status of an operation. -/
theorem exec_status (op : Await) :
    StatusStep t o ⟨op, (Await.exec ids op i w).1⟩ (statusOf t o w) (statusOf t o (Await.exec ids op i w).2) := by
  cases op with
  | recordTrace rows =>
    simp only [Await.exec, statusOf_traced]
    exact .kept rfl
  | recordOperation op => exact exec_recordOperation op
  | startOperation t' o' => exact exec_startOperation t' o'
  | completeOperation t' o' s ref result facts => exact exec_completeOperation t' o' s ref result facts
  | holdApproval a same =>
    simp only [Await.exec, World.store, statusOf, DurableObject.holdApproval_operations]
    exact .kept rfl
  | decideApproval t' o' d who by_ notice =>
    simp only [Await.exec, World.store, statusOf, DurableObject.decideApproval_operations]
    exact .kept rfl
  | claimApprovalRun t' o' at_ =>
    simp only [Await.exec, World.store, statusOf, DurableObject.claimApprovalRun_operations]
    exact .kept rfl
  | finishApproval t' o' s summary notice =>
    simp only [Await.exec, World.store, statusOf, DurableObject.finishApproval_operations]
    exact .kept rfl
  | _ => exact .kept rfl

end Rows

end Antiproton
