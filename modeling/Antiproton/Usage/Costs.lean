import Antiproton.Core.JsonText
import Antiproton.Usage.D1
import Antiproton.Usage.Hours
import Mathlib.Data.List.Lex

/-!
# Antiproton.Usage.Costs

What the ledger costs (`cf/src/usage-d1.ts`): the price of a row, the costs of every tenant as the operator reads them
(`readUsageCosts`), of one tenant as the tenant does (`readTenantCosts`), and the cost of cached tokens moved between
the rows of a reading (`foldCacheReadCost`). A cost is a rational, and `tidy` rounds it as the code does.

* `dayFromYear_le`, `lt_dayFromYear`: the year of a day is the one it falls in.
* `periodStart_day`: a time is in the period its day starts in.
* `tidy_sum`: a sum of tidy costs is tidy.
-/

namespace Antiproton
namespace Usage

open Js

/-! ## Prices -/

/-- `UsagePrice`: a row of `usage_prices`. -/
structure UsagePrice where
  resource : String
  key : Str
  unit : String
  creditsPerUnit : ℚ
  effectiveFrom : Int
deriving DecidableEq

/-- `OWN_KEY_PREFIX`: the mark of a key the tenant's own credential pays for. -/
def ownKey : Str := js "own:"

/-- The newest price of a key in effect at the start of a bucket. -/
def newest (prices : List UsagePrice) (bucket : Int) (resource : String) (unit : String) (key : Str) :
    Option UsagePrice :=
  ((prices.filter fun p =>
    p.resource == resource && p.key == key && p.unit == unit && decide (p.effectiveFrom ≤ bucket)).insertionSort
      fun a b => b.effectiveFrom ≤ a.effectiveFrom).head?

/-- `priceFor`: the price that applied to a row at the start of its bucket. -/
def priceFor (prices : List UsagePrice) (bucket : Int) (resource : String) (key : Str) (unit : String) : Option ℚ :=
  if ownKey.isPrefixOf key then some 0
  else ((newest prices bucket resource unit key).or (newest prices bucket resource unit (js "*"))).map
    (·.creditsPerUnit)

/-! ## Days and months -/

/-- Number of days before the first of January of a year. -/
def dayFromYear (y : Int) : Int := 365 * (y - 1970) + (y - 1969) / 4 - (y - 1901) / 100 + (y - 1601) / 400

/-- The year of a day: the mean length of a year is at most one year off. -/
def yearOfDay (day : Int) : Int :=
  let guess := day * 400 / 146097 + 1970
  if day < dayFromYear guess then guess - 1 else if dayFromYear (guess + 1) ≤ day then guess + 1 else guess

/-- The days of a year before each of its months. -/
def monthDays (y : Int) : List Int :=
  let feb := dayFromYear (y + 1) - dayFromYear y - 365
  [0, 31, 59 + feb, 90 + feb, 120 + feb, 151 + feb, 181 + feb, 212 + feb, 243 + feb, 273 + feb, 304 + feb, 334 + feb]

/-- The month of a day, from 0. -/
def monthOfDay (day : Int) : Nat :=
  ((monthDays (yearOfDay day)).filter fun d => decide (dayFromYear (yearOfDay day) + d ≤ day)).length - 1

/-- `Date.UTC(y, m, 1)`, where a year from 0 to 99 is one of the 1900s. -/
def dateUTC (y : Int) (m : Nat) : Int :=
  let year := if 0 ≤ y ∧ y ≤ 99 then 1900 + y else y
  (dayFromYear year + (monthDays year).getD m 0) * dayMs

/-- What costs are summed over. -/
inductive CostBucket where
  | day
  | month
deriving DecidableEq, Repr

/-- The number of the UTC day of a time. -/
def dayNumber (t : Int) : Int := t / dayMs

/-- The start of the UTC day of a time. -/
def dayStart (t : Int) : Int := dayNumber t * dayMs

/-- `periodStart`: the start of the UTC day or month a time falls in. -/
def periodStart (t : Int) : CostBucket → Int
  | .day => dayStart t
  | .month => dateUTC (yearOfDay (dayNumber t)) (monthOfDay (dayNumber t))

theorem dayFromYear_le (day : Int) : dayFromYear (yearOfDay day) ≤ day := by
  unfold yearOfDay
  dsimp only
  split
  · unfold dayFromYear at *
    omega
  · split
    · assumption
    · omega

theorem lt_dayFromYear (day : Int) : day < dayFromYear (yearOfDay day + 1) := by
  unfold yearOfDay
  dsimp only
  split
  · rename_i h
    rw [sub_add_cancel]
    exact h
  · split
    · unfold dayFromYear at *
      omega
    · omega

theorem dayNumber_dayStart (t : Int) : dayNumber (dayStart t) = dayNumber t :=
  Int.mul_ediv_cancel _ (by decide)

theorem dayStart_dayStart (t : Int) : dayStart (dayStart t) = dayStart t := by
  rw [dayStart, dayNumber_dayStart, dayStart]

/-- A time is in the period its day starts in. -/
theorem periodStart_day (t : Int) (bucket : CostBucket) : periodStart (dayStart t) bucket = periodStart t bucket := by
  cases bucket with
  | day => exact dayStart_dayStart t
  | month => simp only [periodStart, dayNumber_dayStart]

theorem dayStart_eq_iff {day t : Int} (hd : dayMs ∣ day) : dayStart t = day ↔ day ≤ t ∧ t < day + dayMs := by
  obtain ⟨n, rfl⟩ := hd
  simp only [dayStart, dayNumber, dayMs]
  omega

/-! ## The costs of rows -/

/-- A row of the ledger: `start` is its `at`. -/
abbrev LedgerRow := BucketKey × ℚ

/-- The price of a row, each at its own `at`. -/
def priceOf (prices : List UsagePrice) (k : BucketKey) : Option ℚ := priceFor prices k.start k.resource k.key k.unit

/-- What a row costs; one nobody priced adds nothing. -/
def rowCost (prices : List UsagePrice) (r : LedgerRow) : ℚ :=
  match priceOf prices r.1 with
  | none => 0
  | some p => p * r.2

/-- `tidy`: no more than ten decimals. -/
def tidy (n : ℚ) : ℚ := mathRound (n * 10 ^ 10) / 10 ^ 10

/-- The order of JavaScript's strings. -/
def unitOrder (s : Str) : List Nat := s.map UInt16.toNat

/-- The order of SQL's text. -/
def textOrder (s : String) : List Nat := s.toList.map Char.toNat

structure ResourceCost where
  resource : String
  cost : ℚ
  unpriced : List Str
deriving DecidableEq

structure PeriodCosts where
  start : Int
  total : ℚ
  resources : List ResourceCost
deriving DecidableEq

structure Costs where
  total : ℚ
  periods : List PeriodCosts
deriving DecidableEq

/-- A resource's part of the rows of one period. -/
def resourceCost (prices : List UsagePrice) (rows : List LedgerRow) (resource : String) : ResourceCost :=
  let own := rows.filter fun r => r.1.resource == resource
  let unpriced := (own.filter fun r => (priceOf prices r.1).isNone).map fun r => r.1.key ++ js " " ++ js r.1.unit
  ⟨resource, tidy (own.map (rowCost prices)).sum, Table.distinct unitOrder unpriced⟩

/-- The rows of one period, by resource. -/
def periodCosts (prices : List UsagePrice) (bucket : CostBucket) (rows : List LedgerRow) (start : Int) : PeriodCosts :=
  let own := rows.filter fun r => periodStart r.1.start bucket == start
  let resources := (Table.distinct (fun s => unitOrder (js s)) (own.map (·.1.resource))).map (resourceCost prices own)
  ⟨start, tidy (resources.map (·.cost)).sum, resources⟩

/-- `costsByPeriod`. -/
def costsByPeriod (prices : List UsagePrice) (bucket : CostBucket) (rows : List LedgerRow) : Costs :=
  let periods := (Table.distinct (fun s : Int => s) (rows.map fun r => periodStart r.1.start bucket)).map
    (periodCosts prices bucket rows)
  ⟨tidy (periods.map (·.total)).sum, periods⟩

theorem rowCost_eq (prices : List UsagePrice) (r : LedgerRow) : rowCost prices r = (priceOf prices r.1).getD 0 * r.2 := by
  unfold rowCost
  cases priceOf prices r.1 with
  | none => rw [Option.getD_none, zero_mul]
  | some p => rfl

/-! ## Tidy costs -/

/-- A cost of at most ten decimals. -/
def Tidy (n : ℚ) : Prop := ∃ m : Int, n = m / 10 ^ 10

theorem tidy_tidy (n : ℚ) : Tidy (tidy n) := ⟨_, rfl⟩

theorem Tidy.eq {n : ℚ} (h : Tidy n) : tidy n = n := by
  obtain ⟨m, rfl⟩ := h
  unfold tidy
  rw [div_mul_cancel₀ _ (by norm_num), mathRound_int]

theorem Tidy.sum {l : List ℚ} (h : ∀ n ∈ l, Tidy n) : Tidy l.sum := by
  induction l with
  | nil => exact ⟨0, by norm_num⟩
  | cons n l ih =>
    obtain ⟨m, hm⟩ := h n List.mem_cons_self
    obtain ⟨m', hm'⟩ := ih fun k hk => h k (List.mem_cons_of_mem _ hk)
    refine ⟨m + m', ?_⟩
    rw [List.sum_cons, hm, hm', Int.cast_add, add_div]

/-- A sum of tidy costs is tidy. -/
theorem tidy_sum {R : Type} {f : R → ℚ} {l : List R} (h : ∀ r ∈ l, Tidy (f r)) : tidy (l.map f).sum = (l.map f).sum :=
  Tidy.eq (Tidy.sum (by simpa using h))

/-- A whole number more is a whole number more once tidy. -/
theorem tidy_add_int (n : ℚ) (m : Int) : tidy (n + m) = tidy n + m := by
  have hround : mathRound ((n + m) * 10 ^ 10) = mathRound (n * 10 ^ 10) + m * 10 ^ 10 := by
    unfold mathRound
    rw [← Int.floor_add_intCast]
    push_cast
    ring_nf
  unfold tidy
  rw [hround]
  push_cast
  ring

/-- The costs of the periods sum to the total, and those of a period's resources to the period's. -/
def Costs.Sums (c : Costs) : Prop :=
  c.total = (c.periods.map (·.total)).sum ∧ ∀ p ∈ c.periods, p.total = (p.resources.map (·.cost)).sum

theorem sums_costsByPeriod (prices : List UsagePrice) (bucket : CostBucket) (rows : List LedgerRow) :
    (costsByPeriod prices bucket rows).Sums := by
  refine ⟨tidy_sum fun p hp => ?_, fun p hp => ?_⟩
  · obtain ⟨start, -, rfl⟩ := List.mem_map.1 hp
    exact tidy_tidy _
  · obtain ⟨start, -, rfl⟩ := List.mem_map.1 hp
    refine tidy_sum fun c hc => ?_
    obtain ⟨resource, -, rfl⟩ := List.mem_map.1 hc
    exact tidy_tidy _

/-! ## The two readings -/

/-- A row of `provisioned_agents`, one for a tenant and an agent. -/
structure ProvisionedAgent where
  tenantId : String
  agentId : String
  raftAgentId : String
  budget : Option String
deriving DecidableEq, Repr

/-- `COALESCE(p.budget = 'onboarding', 0)` of the row joined to a row of the ledger. -/
def onboarding (provisioned : List ProvisionedAgent) (k : BucketKey) : Bool :=
  (Table.one (fun p => p.tenantId == k.tenantId && p.agentId == k.agentId) provisioned).any fun p =>
    p.budget == some "onboarding"

/-- The rows of both tables with `from <= at < to`. -/
def inWindow (since until_ : Int) (k : BucketKey) : Bool := decide (since ≤ k.start) && decide (k.start < until_)

def windowRows (since until_ : Int) (d : UsageD1) : List LedgerRow :=
  (d.hourly ++ d.daily).filter fun r => inWindow since until_ r.1

structure TenantCosts where
  tenantId : String
  costs : Costs
  onboarding : Option Costs
deriving DecidableEq

/-- What a row is grouped under where its agent is not. -/
def BucketKey.unnamed (k : BucketKey) : BucketKey := { k with agentId := "" }

/-- The `SELECT` of `readUsageCosts`: agents summed together, but for the onboarding budget. -/
def operatorRows (provisioned : List ProvisionedAgent) (since until_ : Int) (d : UsageD1) :
    Ledger (BucketKey × Bool) ℚ :=
  Ledger.group (fun r : LedgerRow => (r.1.unnamed, onboarding provisioned r.1)) (·.2)
    (windowRows since until_ d)

/-- The operator's rows of one tenant: all of them, or those of the onboarding budget. -/
def tenantRows (rows : Ledger (BucketKey × Bool) ℚ) (tenantId : String) (onlyOnboarding : Bool) : List LedgerRow :=
  (rows.filter fun r => r.1.1.tenantId == tenantId && (!onlyOnboarding || r.1.2)).map fun r => (r.1.1, r.2)

/-- `readUsageCosts`: every tenant's cost over a window, by period and resource, the operator's view. -/
def readUsageCosts (prices : List UsagePrice) (provisioned : List ProvisionedAgent) (since until_ : Int)
    (bucket : CostBucket) (d : UsageD1) : List TenantCosts :=
  let rows := operatorRows provisioned since until_ d
  (Table.distinct textOrder (rows.map (·.1.1.tenantId))).map fun tenantId =>
    let spent := tenantRows rows tenantId true
    ⟨tenantId, costsByPeriod prices bucket (tenantRows rows tenantId false),
      if spent.isEmpty then none else some (costsByPeriod prices bucket spent)⟩

structure AgentTotal where
  agentId : String
  total : ℚ
deriving DecidableEq

structure DayTotal where
  start : Int
  total : ℚ
deriving DecidableEq

structure AgentDays where
  raftAgentId : String
  budget : Option String
  days : List DayTotal
deriving DecidableEq

structure OwnCosts where
  costs : Costs
  agents : List AgentTotal
  agentDays : Option (List AgentDays)
deriving DecidableEq

/-- `UNACCEPTED_TOKENS` (`src/usage/outbox.ts`). -/
def unacceptedTokens : String := "model.tokens.unaccepted"

/-- The `SELECT` of `readTenantCosts`. -/
def ownRows (tenantId : String) (since until_ : Int) (d : UsageD1) : Ledger BucketKey ℚ :=
  Ledger.group (fun r : LedgerRow => r.1) (·.2)
    ((windowRows since until_ d).filter fun r => r.1.tenantId == tenantId && r.1.resource != unacceptedTokens)

/-- What the rows of an agent cost. -/
def agentTotal (prices : List UsagePrice) (rows : List LedgerRow) (agentId : String) : AgentTotal :=
  ⟨agentId, tidy ((rows.filter fun r => r.1.agentId == agentId).map (rowCost prices)).sum⟩

/-- What the rows of an agent cost by day. -/
def dayTotals (prices : List UsagePrice) (rows : List LedgerRow) (agentId : String) : List DayTotal :=
  let own := rows.filter fun r => r.1.agentId == agentId
  (Table.distinct (fun s : Int => s) (own.map fun r => dayStart r.1.start)).map fun start =>
    ⟨start, tidy ((own.filter fun r => dayStart r.1.start == start).map (rowCost prices)).sum⟩

/-- The agents of a reading, the dearest first. -/
def agentOrder (a b : AgentTotal) : Bool :=
  decide (b.total < a.total) ||
    (decide (a.total = b.total) && decide (unitOrder (js a.agentId) ≤ unitOrder (js b.agentId)))

/-- The agents the rows are of. -/
def agentsIn (rows : List LedgerRow) : List String :=
  Table.distinct (fun s => unitOrder (js s)) (rows.map (·.1.agentId))

/-- A provisioned agent's costs by day; its budget is the onboarding one or none. -/
def agentDaysOf (prices : List UsagePrice) (provisioned : List ProvisionedAgent) (tenantId : String)
    (rows : List LedgerRow) (agentId : String) : Option AgentDays :=
  (Table.one (fun p => p.tenantId == tenantId && p.agentId == agentId) provisioned).map fun p =>
    ⟨p.raftAgentId, if p.budget = some "onboarding" then p.budget else none, dayTotals prices rows agentId⟩

/-- `readTenantCosts`: one tenant's cost over a window, by period and resource and by agent, the tenant's view. -/
def readTenantCosts (prices : List UsagePrice) (provisioned : List ProvisionedAgent) (tenantId : String)
    (since until_ : Int) (bucket : CostBucket) (byAgent : Bool) (d : UsageD1) : OwnCosts :=
  let rows := ownRows tenantId since until_ d
  { costs := costsByPeriod prices bucket rows
    agents := ((agentsIn rows).map (agentTotal prices rows)).insertionSort fun a b => agentOrder a b
    agentDays :=
      if byAgent then
        some (Table.orderBy (fun a => unitOrder (js a.raftAgentId))
          ((agentsIn rows).filterMap (agentDaysOf prices provisioned tenantId rows)))
      else none }

/-! ## Cached tokens -/

/-- `UsageReadRow`, of what its cost is moved by. -/
structure UsageReadRow where
  bucket : Int
  group : Str
  resource : String
  key : Str
  quantity : ℚ
  unit : String
  /-- None where the row has no cost, or a cost of `null`. -/
  cost : Option ℚ
deriving DecidableEq

def inputKind : Str := js ":input"

def cacheReadKind : Str := js ":cache_read"

/-- `at`: where a row with another key would be. -/
def UsageReadRow.place (r : UsageReadRow) (key : Str) : Str :=
  js (toString r.bucket) ++ [0] ++ r.group ++ [0] ++ js r.resource ++ [0] ++ key ++ [0] ++ js r.unit

/-- `inputs.get`: the last input row at a place. -/
def inputAt (rows : List UsageReadRow) (place : Str) : Option Nat :=
  ((List.range rows.length).filter fun i => (rows[i]?).any fun r =>
    r.resource == "model.tokens" && inputKind.isSuffixOf r.key && r.place r.key == place).getLast?

/-- The key of the input row of a row of cached tokens. -/
def inputKeyOf (key : Str) : Str := key.take (key.length - cacheReadKind.length) ++ inputKind

/-- One pass of the loop of `foldCacheReadCost`: a row of cached tokens with a cost takes its share at the rate of its
input row, which gives it. -/
def foldCacheRead (prices : List UsagePrice) (inputs : Str → Option Nat) (rows : List UsageReadRow) (i : Nat) :
    Option (List UsageReadRow) := do
  let r ← rows[i]?
  if r.resource != "model.tokens" || !cacheReadKind.isSuffixOf r.key then none
  let cost ← r.cost
  let j ← inputs (r.place (inputKeyOf r.key))
  let input ← rows[j]?
  let given ← input.cost
  let rate ← priceFor prices input.bucket input.resource input.key input.unit
  let share := rate * r.quantity
  return (rows.set i { r with cost := some (cost + share) }).set j { input with cost := some (given - share) }

/-- `foldCacheReadCost`: the rows after, which the code writes in place. -/
def foldCacheReadCost (prices : List UsagePrice) (rows : List UsageReadRow) : List UsageReadRow :=
  (List.range rows.length).foldl (fun now i => (foldCacheRead prices (inputAt rows) now i).getD now) rows

/-- The sum of the costs of rows. -/
def costSum (rows : List UsageReadRow) : ℚ := (rows.map fun r => r.cost.getD 0).sum

/-! ### The sum is kept -/

/-- A row but for its cost. -/
def UsageReadRow.bare (r : UsageReadRow) : UsageReadRow := { r with cost := none }

theorem costSum_set {rows : List UsageReadRow} {i : Nat} {r : UsageReadRow} (hr : rows[i]? = some r)
    (r' : UsageReadRow) : costSum (rows.set i r') = costSum rows + (r'.cost.getD 0 - r.cost.getD 0) := by
  induction rows generalizing i with
  | nil => cases hr
  | cons x rows ih =>
    cases i with
    | zero =>
      cases hr
      simp only [List.set_cons_zero, costSum, List.map_cons, List.sum_cons]
      ring
    | succ i =>
      have hrest := ih (i := i) hr
      simp only [costSum] at hrest
      simp only [List.set_cons_succ, costSum, List.map_cons, List.sum_cons, hrest]
      ring

theorem bare_set {rows : List UsageReadRow} {i : Nat} {r r' : UsageReadRow} (hr : rows[i]? = some r)
    (hb : r'.bare = r.bare) : (rows.set i r').map UsageReadRow.bare = rows.map UsageReadRow.bare := by
  obtain ⟨hi, rfl⟩ := List.getElem?_eq_some_iff.1 hr
  have hi' : i < (rows.map UsageReadRow.bare).length := by rwa [List.length_map]
  have hself : rows[i].bare = (rows.map UsageReadRow.bare)[i] := (List.getElem_map _).symm
  rw [List.map_set, hb, hself, List.set_getElem_self]

theorem kinds_differ {key : Str} (hread : cacheReadKind.isSuffixOf key = true) : inputKind.isSuffixOf key = false := by
  refine Bool.eq_false_iff.2 fun hinput => ?_
  rcases List.suffix_or_suffix_of_suffix (List.isSuffixOf_iff_suffix.1 hread) (List.isSuffixOf_iff_suffix.1 hinput) with
    h | h
  · exact absurd h (by decide)
  · exact absurd h (by decide)

theorem inputAt_kind {rows : List UsageReadRow} {place : Str} {j : Nat} (h : inputAt rows place = some j) :
    ∃ r, rows[j]? = some r ∧ inputKind.isSuffixOf r.key = true := by
  have hmem := (List.mem_filter.1 (List.mem_of_getLast? h)).2
  obtain ⟨r, hr, hp⟩ := (Option.any_eq_true _ _).1 hmem
  simp only [Bool.and_eq_true] at hp
  exact ⟨r, hr, hp.1.2⟩

/-- One row of cached tokens: what it takes is what its input row gives. -/
theorem foldCacheRead_sum {prices : List UsagePrice} {rows now next : List UsageReadRow} {i : Nat}
    (hnow : now.map UsageReadRow.bare = rows.map UsageReadRow.bare)
    (h : foldCacheRead prices (inputAt rows) now i = some next) :
    next.map UsageReadRow.bare = rows.map UsageReadRow.bare ∧ costSum next = costSum now := by
  simp only [foldCacheRead, Option.bind_eq_bind, Option.bind_eq_some_iff] at h
  obtain ⟨r, hr, h⟩ := h
  split at h
  · simp at h
  rename_i hkind
  simp only [Bool.or_eq_true, not_or, Bool.not_eq_true', Bool.not_eq_false] at hkind
  simp only [pure, Option.bind_eq_some_iff, Option.some.injEq] at h
  obtain ⟨cost, hcost, j, hj, input, hinput, given, hgiven, rate, -, rfl⟩ := h
  obtain ⟨first, hfirst, hfirstKind⟩ := inputAt_kind hj
  have hsame : input.bare = first.bare := by
    have hat : (now.map UsageReadRow.bare)[j]? = (rows.map UsageReadRow.bare)[j]? := by rw [hnow]
    rw [List.getElem?_map, List.getElem?_map, hinput, hfirst] at hat
    exact Option.some.inj hat
  have hkeys : input.bare.key = first.bare.key := by rw [hsame]
  -- the two rows are of different kinds, so the second write is not over the first
  have hij : i ≠ j := by
    rintro rfl
    rw [hr] at hinput
    cases hinput
    change r.key = first.key at hkeys
    rw [hkeys] at hkind
    rw [kinds_differ hkind.2] at hfirstKind
    cases hfirstKind
  have hstill : (now.set i { r with cost := some (cost + rate * r.quantity) })[j]? = some input := by
    rw [List.getElem?_set_ne hij, hinput]
  refine ⟨?_, ?_⟩
  · rw [bare_set hstill (by rfl), bare_set hr (by rfl), hnow]
  · rw [costSum_set hstill, costSum_set hr, hcost, hgiven]
    simp only [Option.getD_some]
    ring

/-- `foldCacheReadCost` leaves the sum of the costs as it was, whatever the rows. -/
theorem foldCacheReadCost_sum (prices : List UsagePrice) (rows : List UsageReadRow) :
    costSum (foldCacheReadCost prices rows) = costSum rows := by
  unfold foldCacheReadCost
  generalize List.range rows.length = indices
  suffices h : ∀ now : List UsageReadRow, now.map UsageReadRow.bare = rows.map UsageReadRow.bare →
      costSum (indices.foldl (fun now i => (foldCacheRead prices (inputAt rows) now i).getD now) now) = costSum now from
    h rows rfl
  induction indices with
  | nil => exact fun _ _ => rfl
  | cons i indices ih =>
    intro now hnow
    rw [List.foldl_cons]
    cases hnext : foldCacheRead prices (inputAt rows) now i with
    | none => exact ih now hnow
    | some next =>
      obtain ⟨hbare, hsum⟩ := foldCacheRead_sum hnow hnext
      rw [Option.getD_some, ih next hbare, hsum]

end Usage
end Antiproton
