import Antiproton.Store.DurableObject

/-!
# Antiproton.Store.Frames

The tables a method of `DurableObjectStore` leaves alone: `operations` outside the methods of an
operation, `approvals` outside those of a hold.
-/

namespace Antiproton
namespace DurableObject

section Writes

variable (ctx : Ctx) (db : Db)

@[simp] theorem holdApproval_operations (a : HoldRequest) (same : ApprovalRecord → Bool) :
    (holdApproval ctx a same db).2.operations = db.operations := by
  unfold holdApproval; split <;> rfl

@[simp] theorem decideApproval_operations (t o : String) (d : Decision) (who : String) (by_ : Option DecidedBy)
    (notice : Option Str) : (decideApproval ctx t o d who by_ notice db).2.operations = db.operations := by
  unfold decideApproval
  split
  · rfl
  · dsimp only; split
    · rfl
    · rw [appendTrace_operations]

@[simp] theorem claimApprovalRun_operations (t o : String) (at_ : Int) :
    (claimApprovalRun t o at_ db).2.operations = db.operations := by
  unfold claimApprovalRun; split
  · rfl
  · split <;> rfl

@[simp] theorem finishApproval_operations (t o : String) (s : FinishState) (summary : String) (notice : Str) :
    (finishApproval t o s summary notice db).2.operations = db.operations := by
  unfold finishApproval; split
  · rfl
  · split <;> rfl

theorem recordApprovalDelivery_operations (t o : String) (report : ApprovalDelivery) :
    (recordApprovalDelivery t o report db).2.operations = db.operations := by
  unfold recordApprovalDelivery; split
  · rfl
  · split <;> rfl

@[simp] theorem startOperation_approvals (t o : String) :
    (startOperation ctx t o db).2.approvals = db.approvals := by
  unfold startOperation; split
  · rfl
  · split <;> rfl

/-- An event writes its own row and its sequence's counter. -/
theorem insertEvent_writes {n : Nat} {e : NewEvent} {r : Appended × Db} {ctx : Ctx} {db : Db}
    (h : insertEvent ctx n e db = .ok r) :
    ∃ events counters, r.2 = { db with events := events, counters := counters } := by
  unfold insertEvent at h
  cases hf : foreignTask e db with
  | some t => rw [hf] at h; cases h
  | none =>
    rw [hf] at h
    cases hd : duplicateEvent e db with
    | some d => rw [hd] at h; cases h; exact ⟨db.events, db.counters, rfl⟩
    | none =>
      rw [hd] at h
      simp only [insertEventRow] at h
      cases hc : eventClash (e.row (ctx.uuid n) (nextCounter s!"seq:{e.tenantId}:{e.agentId}" db).1 ctx.now)
          (nextCounter s!"seq:{e.tenantId}:{e.agentId}" db).2 with
      | some c => rw [hc] at h; cases h
      | none => rw [hc] at h; cases h; exact ⟨_, _, rfl⟩

theorem insertEvent_operations {n : Nat} {e : NewEvent} {r : Appended × Db} {ctx : Ctx} {db : Db}
    (h : insertEvent ctx n e db = .ok r) : r.2.operations = db.operations := by
  obtain ⟨events, counters, hr⟩ := insertEvent_writes h
  rw [hr]

theorem insertEvent_approvals {n : Nat} {e : NewEvent} {r : Appended × Db} {ctx : Ctx} {db : Db}
    (h : insertEvent ctx n e db = .ok r) : r.2.approvals = db.approvals := by
  obtain ⟨events, counters, hr⟩ := insertEvent_writes h
  rw [hr]

/-- A completion writes the operation's status, or nothing, and no hold. -/
theorem completeOperation_writes {t o : String} {s : OperationStatus} {ref : Option String} {result : Option Json}
    {facts : CompletedFacts} {r : Unit × Db} {ctx : Ctx} {db : Db}
    (h : completeOperation ctx t o s ref result facts db = .ok r) :
    r.2.operations = (markCompleted ctx t o s ref db).operations ∧ r.2.approvals = db.approvals := by
  unfold completeOperation at h
  dsimp only at h
  split at h
  · cases h; exact ⟨rfl, rfl⟩
  · rename_i op _
    cases he : insertEvent ctx 0 (completionEvent op t o s ref result facts) (markCompleted ctx t o s ref db) with
    | error e => rw [he] at h; cases h
    | ok a =>
      rw [he] at h
      have h1 := insertEvent_operations he
      have h2 := insertEvent_approvals he
      cases h
      dsimp only
      split
      · exact ⟨by rw [appendTrace_operations, h1], by rw [appendTrace_approvals, h2]; rfl⟩
      · exact ⟨h1, h2⟩

theorem writeDocument_operations {t g k : String} {kept : Str} {total : Option Nat} {r : Written × Db}
    {ctx : Ctx} {db : Db} (h : writeDocument ctx t g k kept total db = .ok r) :
    r.2.operations = db.operations := by
  unfold writeDocument at h
  dsimp only at h
  split at h
  · cases h
  · cases h; rfl

theorem pluginDbRename_operations {t g a b : String} {db db' : Db} (h : pluginDbRename t g a b db = .ok db') :
    db'.operations = db.operations := by
  unfold pluginDbRename at h
  split at h
  · cases h
  · split at h
    · cases h
    · cases h; rfl

theorem renameMount_operations (t g a b : String) (r : Option String) :
    (renameMount t g a b r db).2.operations = db.operations := by
  unfold renameMount
  split
  · rfl
  · cases renameRefusal t g a b r db with
    | some e => rfl
    | none =>
      unfold renameWrites
      cases hr : pluginDbRename t g a b (moveMount t g a b db) with
      | error e => rfl
      | ok db' =>
        have h := pluginDbRename_operations hr
        cases r <;> exact h

end Writes

end DurableObject
end Antiproton
