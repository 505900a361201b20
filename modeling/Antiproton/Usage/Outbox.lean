import Antiproton.Core.Js
import Antiproton.Lib.Ledger
import Mathlib.Algebra.Order.Floor.Defs
import Mathlib.Algebra.Order.Floor.Ring
import Mathlib.Data.Rat.Floor

/-!
# Antiproton.Usage.Outbox

Usage as it happens, in the outbox of each agent's object, on its way to the tenant's hourly table
(`src/usage/outbox.ts`). Numbers are exact: a quantity is a rational, or `none` where the language has `NaN` or an
infinity, and a sum of the ledger is the sum.
-/

namespace Antiproton
namespace Usage

/-- `USAGE_KEY_MAX`. -/
def usageKeyMax : Nat := 200

/-- `HOUR_MS`. -/
def hourMs : Int := 3600000

/-- `UsageRow`. -/
structure UsageRow where
  at_ : ℚ
  tenantId : String
  agentId : String
  resource : String
  key : Str
  quantity : Option ℚ
  unit : String
deriving DecidableEq

/-- `OutboxRow`: a row of `usage_outbox`. -/
structure OutboxRow where
  seq : Nat
  at_ : Int
  tenantId : String
  agentId : String
  resource : String
  key : Str
  quantity : ℚ
  unit : String
deriving DecidableEq

/-- `usage_outbox`: the rows, and the number the next one takes. -/
structure Outbox where
  rows : List OutboxRow
  nextSeq : Nat
deriving DecidableEq

/-- The row kept of a usage row; a quantity of zero, or one that is no finite number, is dropped. -/
def UsageRow.kept (r : UsageRow) (seq : Nat) : Option OutboxRow :=
  match r.quantity with
  | none => none
  | some q =>
    if q = 0 then none
    else some ⟨seq, ⌊r.at_⌋, r.tenantId, r.agentId, r.resource, r.key.take usageKeyMax, q, r.unit⟩

/-- The rows `appendUsage` inserts, numbered from `seq`. -/
def keptRows : Nat → List UsageRow → List OutboxRow
  | _, [] => []
  | seq, r :: rest =>
    match r.kept seq with
    | some row => row :: keptRows (seq + 1) rest
    | none => keptRows seq rest

/-- `appendUsage`. -/
def appendUsage (rows : List UsageRow) (o : Outbox) : Outbox :=
  let kept := keptRows o.nextSeq rows
  ⟨o.rows ++ kept, o.nextSeq + kept.length⟩

/-- `pendingUsage`: the rows after `afterSeq`, oldest first, at most `limit`. -/
def pendingUsage (afterSeq limit : Nat) (o : Outbox) : List OutboxRow :=
  (o.rows.filter fun r => decide (afterSeq < r.seq)).take limit

/-- `pruneUsage`: forget rows D1 already has. -/
def pruneUsage (throughSeq : Nat) (o : Outbox) : Outbox :=
  { o with rows := o.rows.filter fun r => !decide (r.seq ≤ throughSeq) }

/-- The key of a row of the ledger: whose, when its hour or its day starts, and what. -/
structure BucketKey where
  tenantId : String
  agentId : String
  start : Int
  resource : String
  key : Str
  unit : String
deriving DecidableEq

/-- The start of the hour a time falls in. -/
def hourOf (t : Int) : Int := t / hourMs * hourMs

def OutboxRow.bucket (r : OutboxRow) : BucketKey :=
  ⟨r.tenantId, r.agentId, hourOf r.at_, r.resource, r.key, r.unit⟩

/-- `toHourly`: the rows summed by hour. -/
def toHourly (rows : List OutboxRow) : Ledger BucketKey ℚ := Ledger.group (·.bucket) (·.quantity) rows

/-- The key a row of usage is counted under. -/
def UsageRow.bucket (r : UsageRow) : BucketKey :=
  ⟨r.tenantId, r.agentId, hourOf ⌊r.at_⌋, r.resource, r.key.take usageKeyMax, r.unit⟩

/-- What an outbox holds under the keys that meet `p`. -/
def Outbox.amount (p : BucketKey → Bool) (o : Outbox) : ℚ := Ledger.total p (toHourly o.rows)

/-! ## What the rows amount to -/

/-- A row is dropped where it counts for nothing, and kept under its own key and number else. -/
theorem kept_cases (r : UsageRow) (seq : Nat) :
    (r.kept seq = none ∧ r.quantity.getD 0 = 0) ∨
    ∃ row, r.kept seq = some row ∧ row.seq = seq ∧ row.bucket = r.bucket ∧ row.quantity = r.quantity.getD 0 := by
  unfold UsageRow.kept
  cases hq : r.quantity with
  | none => exact .inl ⟨rfl, rfl⟩
  | some q =>
    by_cases hzero : q = 0
    · exact .inl ⟨if_pos hzero, hzero⟩
    · exact .inr ⟨_, if_neg hzero, rfl, rfl, rfl⟩

theorem total_keptRows (p : BucketKey → Bool) (seq : Nat) (rows : List UsageRow) :
    Ledger.total p (toHourly (keptRows seq rows)) =
      (rows.map fun r => if p r.bucket then r.quantity.getD 0 else 0).sum := by
  unfold toHourly
  rw [Ledger.total_group]
  induction rows generalizing seq with
  | nil => rfl
  | cons r rest ih =>
    rw [List.map_cons, List.sum_cons]
    unfold keptRows
    rcases kept_cases r seq with ⟨hnone, hzero⟩ | ⟨row, hsome, -, hbucket, hquantity⟩
    · rw [hnone, hzero, ite_self, zero_add]
      exact ih seq
    · rw [hsome]
      dsimp only
      rw [List.filter_cons, hbucket]
      split
      · rw [List.map_cons, List.sum_cons, hquantity, ih]
      · rw [zero_add, ih]

theorem mem_keptRows {seq : Nat} {rows : List UsageRow} {row : OutboxRow} (h : row ∈ keptRows seq rows) :
    ∃ r ∈ rows, row.bucket = r.bucket ∧ row.quantity = r.quantity.getD 0 := by
  induction rows generalizing seq with
  | nil => cases h
  | cons r rest ih =>
    unfold keptRows at h
    rcases kept_cases r seq with ⟨hnone, -⟩ | ⟨row', hsome, -, hbucket, hquantity⟩
    · rw [hnone] at h
      obtain ⟨r', hr', hrest⟩ := ih h
      exact ⟨r', by simp [hr'], hrest⟩
    · rw [hsome] at h
      rcases List.mem_cons.1 h with rfl | h
      · exact ⟨r, by simp, hbucket, hquantity⟩
      · obtain ⟨r', hr', hrest⟩ := ih h
        exact ⟨r', by simp [hr'], hrest⟩

/-- A batch appended is added to every amount its rows count in. -/
theorem amount_appendUsage (p : BucketKey → Bool) (rows : List UsageRow) (o : Outbox) :
    (appendUsage rows o).amount p =
      o.amount p + (rows.map fun r => if p r.bucket then r.quantity.getD 0 else 0).sum := by
  rw [← total_keptRows p o.nextSeq]
  simp only [Outbox.amount, appendUsage, toHourly, Ledger.total_group, List.filter_append, List.map_append,
    List.sum_append]

/-! ## The numbers of the rows -/

theorem keptRows_seq (seq : Nat) (rows : List UsageRow) :
    ((keptRows seq rows).map (·.seq)) = List.range' seq (keptRows seq rows).length := by
  induction rows generalizing seq with
  | nil => rfl
  | cons r rest ih =>
    unfold keptRows
    rcases kept_cases r seq with ⟨hnone, -⟩ | ⟨row, hsome, hseq, -, -⟩
    · rw [hnone]
      exact ih seq
    · rw [hsome]
      dsimp only
      rw [List.map_cons, List.length_cons, List.range'_succ, hseq, ih]

end Usage
end Antiproton
