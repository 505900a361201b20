import Antiproton.Usage.Costs

/-!
# Antiproton.Usage.Bills

What a reading of the costs depends on. A cost is filed under a heading: tenant, agent, resource and day. Rows that
are alike under every heading cost the same in every reading, whatever hours and keys they are kept under.

* `Alike.readUsageCosts`, `Alike.readTenantCosts`: the two readings of alike rows charge the same.
* `find_readUsageCosts`: a cost of the operator's reading is what is filed under it.
* `views_agree`: the operator's and the tenant's reading agree on every resource that both have.
-/

namespace Antiproton
namespace Usage

open Js

/-! ## What is charged -/

/-- A cost without the list of what nobody priced. -/
def ResourceCost.bill (r : ResourceCost) : ResourceCost := { r with unpriced := [] }

def PeriodCosts.bill (p : PeriodCosts) : PeriodCosts := { p with resources := p.resources.map ResourceCost.bill }

def Costs.bill (c : Costs) : Costs := { c with periods := c.periods.map PeriodCosts.bill }

def TenantCosts.bill (t : TenantCosts) : TenantCosts :=
  { t with costs := t.costs.bill, onboarding := t.onboarding.map Costs.bill }

def OwnCosts.bill (o : OwnCosts) : OwnCosts := { o with costs := o.costs.bill }

/-- A resource of a period. -/
def Costs.find (c : Costs) (start : Int) (resource : String) : Option ResourceCost :=
  (Table.one (fun p => p.start == start) c.periods).bind fun p =>
    Table.one (fun r => r.resource == resource) p.resources

/-- A resource of a period of a tenant, in the operator's reading. -/
def findTenant (l : List TenantCosts) (tenantId : String) (start : Int) (resource : String) : Option ResourceCost :=
  (Table.one (fun t => t.tenantId == tenantId) l).bind fun t => t.costs.find start resource

/-! ## Headings -/

/-- What a cost is filed under. -/
structure Heading where
  tenantId : String
  agentId : String
  resource : String
  day : Int
deriving DecidableEq

def heading (k : BucketKey) : Heading := ⟨k.tenantId, k.agentId, k.resource, dayStart k.start⟩

/-- The price of a row where only its cost matters. -/
def charged (prices : List UsagePrice) (k : BucketKey) : ℚ := (priceOf prices k).getD 0

/-- What the rows under some headings cost. -/
def filed (prices : List UsagePrice) (p : Heading → Bool) (rows : List LedgerRow) : ℚ :=
  Ledger.weigh (fun k => if p (heading k) then charged prices k else 0) rows

/-- Whether there are rows under some headings. -/
def anyFiled (p : Heading → Bool) (rows : List LedgerRow) : Prop := ∃ r ∈ rows, p (heading r.1) = true

instance (p : Heading → Bool) (rows : List LedgerRow) : Decidable (anyFiled p rows) :=
  inferInstanceAs (Decidable (∃ r ∈ rows, p (heading r.1) = true))

/-- The headings of a resource in a period. -/
def headingIn (bucket : CostBucket) (start : Int) (resource : String) (h : Heading) : Bool :=
  h.resource == resource && periodStart h.day bucket == start

theorem filed_eq (prices : List UsagePrice) (p : Heading → Bool) (rows : List LedgerRow) :
    ((rows.filter fun r => p (heading r.1)).map (rowCost prices)).sum = filed prices p rows := by
  have hcost : rowCost prices = fun r => charged prices r.1 * r.2 := funext (rowCost_eq prices)
  rw [hcost]
  exact Ledger.weigh_filter (charged prices) (fun k => p (heading k)) rows

theorem periodStart_heading (k : BucketKey) (bucket : CostBucket) :
    periodStart (heading k).day bucket = periodStart k.start bucket := periodStart_day k.start bucket

/-- The cost of a resource in a period is what is filed under it. -/
theorem cost_resourceCost (prices : List UsagePrice) (bucket : CostBucket) (rows : List LedgerRow) (start : Int)
    (resource : String) :
    (resourceCost prices (rows.filter fun r => periodStart r.1.start bucket == start) resource).cost =
      tidy (filed prices (headingIn bucket start resource) rows) := by
  rw [← filed_eq]
  simp only [resourceCost, List.filter_filter, headingIn, heading, periodStart_day]

theorem mem_starts {bucket : CostBucket} {rows : List LedgerRow} {start : Int} :
    start ∈ rows.map (fun r => periodStart r.1.start bucket) ↔
      anyFiled (fun h => periodStart h.day bucket == start) rows := by
  simp only [List.mem_map, anyFiled, periodStart_heading, beq_iff_eq]

theorem mem_resources {bucket : CostBucket} {rows : List LedgerRow} {start : Int} {resource : String} :
    resource ∈ (rows.filter fun r => periodStart r.1.start bucket == start).map (·.1.resource) ↔
      anyFiled (headingIn bucket start resource) rows := by
  simp only [List.mem_map, List.mem_filter, anyFiled, headingIn, periodStart_heading, Bool.and_eq_true, beq_iff_eq]
  constructor
  · rintro ⟨r, ⟨hr, hs⟩, hres⟩
    exact ⟨r, hr, hres, hs⟩
  · rintro ⟨r, hr, hres, hs⟩
    exact ⟨r, ⟨hr, hs⟩, hres⟩

/-- A resource of a period, in the rows. -/
theorem find_costsByPeriod (prices : List UsagePrice) (bucket : CostBucket) (rows : List LedgerRow) (start : Int)
    (resource : String) :
    (costsByPeriod prices bucket rows).find start resource =
      if anyFiled (headingIn bucket start resource) rows then
        some (resourceCost prices (rows.filter fun r => periodStart r.1.start bucket == start) resource)
      else none := by
  simp only [Costs.find, costsByPeriod]
  rw [Table.one_made PeriodCosts.start fun _ => rfl]
  simp only [Table.mem_distinct, mem_starts]
  split
  · rw [Option.bind_some, periodCosts, Table.one_made ResourceCost.resource fun _ => rfl]
    simp only [Table.mem_distinct, mem_resources]
  · rename_i hnone
    rw [Option.bind_none, if_neg]
    rintro ⟨r, hr, hp⟩
    exact hnone ⟨r, hr, (Bool.and_eq_true_iff.1 hp).2⟩

/-! ## Alike rows -/

/-- Rows that cost the same under any headings, and are under the same ones. -/
def Alike (prices : List UsagePrice) (rows rows' : List LedgerRow) : Prop :=
  ∀ p : Heading → Bool, filed prices p rows = filed prices p rows' ∧ (anyFiled p rows ↔ anyFiled p rows')

section Readings

variable {prices : List UsagePrice} {rows rows' : List LedgerRow}

theorem Alike.distinct {A K : Type} [LinearOrder K] [DecidableEq A] (h : Alike prices rows rows') {key : A → K}
    (hkey : Function.Injective key) (f : Heading → A) :
    Table.distinct key (rows.map fun r => f (heading r.1)) = Table.distinct key (rows'.map fun r => f (heading r.1)) := by
  refine Table.distinct_congr hkey fun a => ?_
  have ha := (h fun x => decide (f x = a)).2
  simp only [anyFiled, decide_eq_true_eq] at ha
  simpa only [List.mem_map] using ha

theorem units_injective : Function.Injective unitOrder := List.map_injective_iff.2 fun _ _ => UInt16.toNat.inj

theorem strings_injective : Function.Injective fun s : String => unitOrder (js s) := units_injective.comp js_injective

theorem Alike.resourceCost (h : Alike prices rows rows') (bucket : CostBucket) (start : Int) (resource : String) :
    (Usage.resourceCost prices (rows.filter fun r => periodStart r.1.start bucket == start) resource).bill =
      (Usage.resourceCost prices (rows'.filter fun r => periodStart r.1.start bucket == start) resource).bill := by
  have hcost := cost_resourceCost prices bucket rows start resource
  rw [(h (headingIn bucket start resource)).1, ← cost_resourceCost] at hcost
  simp only [ResourceCost.bill, hcost]
  rfl

theorem Alike.periodCosts (h : Alike prices rows rows') (bucket : CostBucket) (start : Int) :
    (periodCosts prices bucket rows start).bill = (periodCosts prices bucket rows' start).bill := by
  have hsame : Table.distinct (fun s => unitOrder (js s))
        ((rows.filter fun r => periodStart r.1.start bucket == start).map (·.1.resource)) =
      Table.distinct (fun s => unitOrder (js s))
        ((rows'.filter fun r => periodStart r.1.start bucket == start).map (·.1.resource)) := by
    refine Table.distinct_congr strings_injective fun resource => ?_
    rw [mem_resources, mem_resources]
    exact (h (headingIn bucket start resource)).2
  have hbill : ResourceCost.bill ∘ Usage.resourceCost prices (rows.filter fun r => periodStart r.1.start bucket == start) =
      ResourceCost.bill ∘ Usage.resourceCost prices (rows'.filter fun r => periodStart r.1.start bucket == start) :=
    funext fun resource => h.resourceCost bucket start resource
  have hcost : ResourceCost.cost ∘ Usage.resourceCost prices (rows.filter fun r => periodStart r.1.start bucket == start) =
      ResourceCost.cost ∘ Usage.resourceCost prices (rows'.filter fun r => periodStart r.1.start bucket == start) :=
    funext fun resource => by
      have hb := congrArg ResourceCost.cost (h.resourceCost bucket start resource)
      exact hb
  simp only [Usage.periodCosts, PeriodCosts.bill, List.map_map, hsame, hbill, hcost]

/-- Alike rows are charged the same in every period. -/
theorem Alike.costsByPeriod (h : Alike prices rows rows') (bucket : CostBucket) :
    (costsByPeriod prices bucket rows).bill = (costsByPeriod prices bucket rows').bill := by
  have hstarts : Table.distinct (fun s : Int => s) (rows.map fun r => periodStart r.1.start bucket) =
      Table.distinct (fun s : Int => s) (rows'.map fun r => periodStart r.1.start bucket) := by
    refine Table.distinct_congr (fun _ _ hs => hs) fun start => ?_
    rw [mem_starts, mem_starts]
    exact (h fun x => periodStart x.day bucket == start).2
  have hbill : PeriodCosts.bill ∘ Usage.periodCosts prices bucket rows =
      PeriodCosts.bill ∘ Usage.periodCosts prices bucket rows' := funext fun start => h.periodCosts bucket start
  have htotal : PeriodCosts.total ∘ Usage.periodCosts prices bucket rows =
      PeriodCosts.total ∘ Usage.periodCosts prices bucket rows' :=
    funext fun start => by
      have hb := congrArg PeriodCosts.total (h.periodCosts bucket start)
      exact hb
  simp only [Usage.costsByPeriod, Costs.bill, List.map_map, hstarts, hbill, htotal]

/-- The agents of alike rows, and what each cost. -/
theorem Alike.agents (h : Alike prices rows rows') :
    agentsIn rows = agentsIn rows' ∧ (∀ agentId, agentTotal prices rows agentId = agentTotal prices rows' agentId) ∧
      ∀ agentId, dayTotals prices rows agentId = dayTotals prices rows' agentId := by
  refine ⟨h.distinct strings_injective Heading.agentId, fun agentId => ?_, fun agentId => ?_⟩
  · have hsum := (h fun x => x.agentId == agentId).1
    rw [← filed_eq, ← filed_eq] at hsum
    exact congrArg (fun n => AgentTotal.mk agentId (tidy n)) hsum
  · have hdays : Table.distinct (fun s : Int => s)
          ((rows.filter fun r => r.1.agentId == agentId).map fun r => dayStart r.1.start) =
        Table.distinct (fun s : Int => s)
          ((rows'.filter fun r => r.1.agentId == agentId).map fun r => dayStart r.1.start) := by
      refine Table.distinct_congr (fun _ _ hs => hs) fun start => ?_
      have hany := (h fun x => x.agentId == agentId && x.day == start).2
      simp only [anyFiled, Bool.and_eq_true, beq_iff_eq, ← and_assoc] at hany
      simp only [List.mem_map, List.mem_filter, beq_iff_eq]
      exact hany
    simp only [dayTotals, hdays, List.filter_filter]
    refine List.map_congr_left fun start _ => ?_
    have hsum := (h fun x => x.day == start && x.agentId == agentId).1
    rw [← filed_eq, ← filed_eq] at hsum
    exact congrArg (fun n => DayTotal.mk start (tidy n)) hsum

end Readings

/-! ## The rows of a reading -/

section Selected

variable (prices : List UsagePrice) (provisioned : List ProvisionedAgent) (since until_ : Int) (d : UsageD1)

/-- The headings of the operator's rows of a tenant: no agents, and all of them or those of the onboarding budget. -/
def ofTenant (tenantId : String) (onlyOnboarding : Bool) (p : Heading → Bool) (h : Heading) : Bool :=
  h.tenantId == tenantId && (!onlyOnboarding || onboarding provisioned ⟨h.tenantId, h.agentId, 0, "", [], ""⟩) &&
    p { h with agentId := "" }

/-- The headings of a tenant's own rows. -/
def ofOwner (tenantId : String) (p : Heading → Bool) (h : Heading) : Bool :=
  h.tenantId == tenantId && h.resource != unacceptedTokens && p h

theorem filed_tenantRows (tenantId : String) (onlyOnboarding : Bool) (p : Heading → Bool) :
    filed prices p (tenantRows (operatorRows provisioned since until_ d) tenantId onlyOnboarding) =
      filed prices (ofTenant provisioned tenantId onlyOnboarding p) (windowRows since until_ d) := by
  unfold filed tenantRows operatorRows
  rw [Ledger.weigh_rename _ Prod.fst, Ledger.weigh_filter _ fun k : BucketKey × Bool => k.1.tenantId == tenantId &&
    (!onlyOnboarding || k.2), Ledger.weigh_regroup _ fun k => (k.unnamed, onboarding provisioned k)]
  refine Ledger.weigh_congr fun k _ => ?_
  simp only [ofTenant, Bool.and_eq_true, ite_and]
  rfl

theorem exists_tenantRows (tenantId : String) (onlyOnboarding : Bool) (P : BucketKey → Prop) :
    (∃ r ∈ tenantRows (operatorRows provisioned since until_ d) tenantId onlyOnboarding, P r.1) ↔
      ∃ r ∈ windowRows since until_ d,
        (r.1.tenantId == tenantId && (!onlyOnboarding || onboarding provisioned r.1)) = true ∧ P r.1.unnamed := by
  have hkeys := fun k => Ledger.mem_keys_group (k := k)
    (fun r : LedgerRow => (r.1.unnamed, onboarding provisioned r.1)) (·.2) (windowRows since until_ d)
  constructor
  · rintro ⟨r, hr, hp⟩
    obtain ⟨g, hg, rfl⟩ := List.mem_map.1 hr
    obtain ⟨hg, hof⟩ := List.mem_filter.1 hg
    obtain ⟨r, hr, hkey⟩ := (hkeys g.1).1 (List.mem_map_of_mem hg)
    rw [← hkey] at hof hp
    exact ⟨r, hr, hof, hp⟩
  · rintro ⟨r, hr, hof, hp⟩
    obtain ⟨g, hg, hkey⟩ := List.mem_map.1 ((hkeys _).2 ⟨r, hr, rfl⟩)
    refine ⟨(g.1.1, g.2), List.mem_map.2 ⟨g, List.mem_filter.2 ⟨hg, ?_⟩, rfl⟩, ?_⟩
    · rw [hkey]
      exact hof
    · rw [hkey]
      exact hp

theorem anyFiled_tenantRows (tenantId : String) (onlyOnboarding : Bool) (p : Heading → Bool) :
    anyFiled p (tenantRows (operatorRows provisioned since until_ d) tenantId onlyOnboarding) ↔
      anyFiled (ofTenant provisioned tenantId onlyOnboarding p) (windowRows since until_ d) := by
  unfold anyFiled
  rw [exists_tenantRows _ _ _ _ _ _ fun k => p (heading k) = true]
  simp only [ofTenant, Bool.and_eq_true_iff (y := p _)]
  rfl

theorem filed_ownRows (tenantId : String) (p : Heading → Bool) :
    filed prices p (ownRows tenantId since until_ d) =
      filed prices (ofOwner tenantId p) (windowRows since until_ d) := by
  unfold filed ownRows
  rw [Ledger.weigh_regroup _ fun k => k, Ledger.weigh_filter _ fun k : BucketKey =>
    k.tenantId == tenantId && k.resource != unacceptedTokens]
  refine Ledger.weigh_congr fun k _ => ?_
  simp only [ofOwner, Bool.and_eq_true, ite_and]
  rfl

theorem exists_ownRows (tenantId : String) (P : BucketKey → Prop) :
    (∃ r ∈ ownRows tenantId since until_ d, P r.1) ↔
      ∃ r ∈ windowRows since until_ d,
        (r.1.tenantId == tenantId && r.1.resource != unacceptedTokens) = true ∧ P r.1 := by
  have hkeys := fun k => Ledger.mem_keys_group (k := k) (fun r : LedgerRow => r.1) (·.2)
    ((windowRows since until_ d).filter fun r => r.1.tenantId == tenantId && r.1.resource != unacceptedTokens)
  constructor
  · rintro ⟨r, hr, hp⟩
    obtain ⟨r', hr', hkey⟩ := (hkeys r.1).1 (List.mem_map_of_mem hr)
    obtain ⟨hr', hof⟩ := List.mem_filter.1 hr'
    rw [← hkey] at hp
    exact ⟨r', hr', hof, hp⟩
  · rintro ⟨r, hr, hof, hp⟩
    obtain ⟨g, hg, hkey⟩ := List.mem_map.1 ((hkeys _).2 ⟨r, List.mem_filter.2 ⟨hr, hof⟩, rfl⟩)
    refine ⟨g, hg, ?_⟩
    rw [hkey]
    exact hp

theorem anyFiled_ownRows (tenantId : String) (p : Heading → Bool) :
    anyFiled p (ownRows tenantId since until_ d) ↔
      anyFiled (ofOwner tenantId p) (windowRows since until_ d) := by
  unfold anyFiled
  rw [exists_ownRows _ _ _ _ fun k => p (heading k) = true]
  simp only [ofOwner, Bool.and_eq_true_iff (y := p _)]
  rfl

end Selected

section Alike

variable {prices : List UsagePrice} {provisioned : List ProvisionedAgent} {since until_ : Int} {d d' : UsageD1}

theorem Alike.tenantRows (h : Alike prices (windowRows since until_ d) (windowRows since until_ d'))
    (provisioned : List ProvisionedAgent) (tenantId : String) (onlyOnboarding : Bool) :
    Alike prices (tenantRows (operatorRows provisioned since until_ d) tenantId onlyOnboarding)
      (tenantRows (operatorRows provisioned since until_ d') tenantId onlyOnboarding) := by
  intro p
  rw [filed_tenantRows, filed_tenantRows, anyFiled_tenantRows, anyFiled_tenantRows]
  exact h _

theorem Alike.ownRows (h : Alike prices (windowRows since until_ d) (windowRows since until_ d'))
    (tenantId : String) : Alike prices (ownRows tenantId since until_ d) (ownRows tenantId since until_ d') := by
  intro p
  rw [filed_ownRows, filed_ownRows, anyFiled_ownRows, anyFiled_ownRows]
  exact h _

theorem mem_tenants {tenantId : String} :
    tenantId ∈ (operatorRows provisioned since until_ d).map (·.1.1.tenantId) ↔
      anyFiled (fun h => h.tenantId == tenantId) (windowRows since until_ d) := by
  have hkeys := fun k => Ledger.mem_keys_group (k := k)
    (fun r : LedgerRow => (r.1.unnamed, onboarding provisioned r.1)) (·.2) (windowRows since until_ d)
  simp only [anyFiled, beq_iff_eq]
  constructor
  · intro h
    obtain ⟨g, hg, rfl⟩ := List.mem_map.1 h
    obtain ⟨r, hr, hkey⟩ := (hkeys g.1).1 (List.mem_map_of_mem hg)
    exact ⟨r, hr, congrArg (fun k : BucketKey × Bool => k.1.tenantId) hkey⟩
  · rintro ⟨r, hr, rfl⟩
    obtain ⟨g, hg, hkey⟩ := List.mem_map.1 ((hkeys _).2 ⟨r, hr, rfl⟩)
    exact List.mem_map.2 ⟨g, hg, congrArg (fun k : BucketKey × Bool => k.1.tenantId) hkey⟩

theorem isEmpty_iff_anyFiled {rows : List LedgerRow} : rows.isEmpty = true ↔ ¬anyFiled (fun _ => true) rows := by
  rw [List.isEmpty_iff, List.eq_nil_iff_forall_not_mem]
  simp [anyFiled]

theorem textOrder_injective : Function.Injective textOrder := by
  intro s t h
  exact String.toList_inj.1 (List.map_injective_iff.2 (fun _ _ => Char.toNat_inj.1) h)

/-- The operator is charged the same for alike rows. -/
theorem Alike.readUsageCosts (h : Alike prices (windowRows since until_ d) (windowRows since until_ d'))
    (provisioned : List ProvisionedAgent) (bucket : CostBucket) :
    (readUsageCosts prices provisioned since until_ bucket d).map TenantCosts.bill =
      (readUsageCosts prices provisioned since until_ bucket d').map TenantCosts.bill := by
  have htenants : Table.distinct textOrder ((operatorRows provisioned since until_ d).map (·.1.1.tenantId)) =
      Table.distinct textOrder ((operatorRows provisioned since until_ d').map (·.1.1.tenantId)) := by
    refine Table.distinct_congr textOrder_injective fun tenantId => ?_
    rw [mem_tenants, mem_tenants]
    exact (h fun x => x.tenantId == tenantId).2
  simp only [Usage.readUsageCosts, List.map_map, htenants]
  refine List.map_congr_left fun tenantId _ => ?_
  have hall := (h.tenantRows provisioned tenantId false).costsByPeriod bucket
  have honly := h.tenantRows provisioned tenantId true
  have hempty := not_congr (honly fun _ => true).2
  rw [← isEmpty_iff_anyFiled, ← isEmpty_iff_anyFiled] at hempty
  simp only [Function.comp_apply, TenantCosts.bill, hall, hempty]
  split
  · rfl
  · rw [Option.map_some, Option.map_some, honly.costsByPeriod bucket]

/-- A tenant is charged the same for alike rows, in all and for each agent. -/
theorem Alike.readTenantCosts (h : Alike prices (windowRows since until_ d) (windowRows since until_ d'))
    (provisioned : List ProvisionedAgent) (tenantId : String) (bucket : CostBucket) (byAgent : Bool) :
    (readTenantCosts prices provisioned tenantId since until_ bucket byAgent d).bill =
      (readTenantCosts prices provisioned tenantId since until_ bucket byAgent d').bill := by
  have hown := h.ownRows tenantId
  obtain ⟨hagents, htotals, hdays⟩ := hown.agents
  have htotal := funext htotals
  have hof : agentDaysOf prices provisioned tenantId (Usage.ownRows tenantId since until_ d) =
      agentDaysOf prices provisioned tenantId (Usage.ownRows tenantId since until_ d') := by
    funext agentId
    simp only [agentDaysOf, hdays]
  simp only [Usage.readTenantCosts, OwnCosts.bill, hown.costsByPeriod bucket, hagents, htotal, hof]

end Alike

/-! ## One cost of the two readings -/

/-- A label of a row of a resource in a period that nobody priced. -/
def UnpricedAs (prices : List UsagePrice) (bucket : CostBucket) (start : Int) (resource : String) (label : Str)
    (k : BucketKey) : Prop :=
  periodStart k.start bucket = start ∧ k.resource = resource ∧ priceOf prices k = none ∧
    k.key ++ js " " ++ js k.unit = label

/-- The labels `resourceCost` lists, before they are put in order. -/
def unpricedLabels (prices : List UsagePrice) (bucket : CostBucket) (start : Int) (resource : String)
    (rows : List LedgerRow) : List Str :=
  (((rows.filter fun r => periodStart r.1.start bucket == start).filter fun r => r.1.resource == resource).filter
    fun r => (priceOf prices r.1).isNone).map fun r => r.1.key ++ js " " ++ js r.1.unit

theorem mem_unpricedLabels {prices : List UsagePrice} {bucket : CostBucket} {start : Int} {resource : String}
    {rows : List LedgerRow} {label : Str} :
    label ∈ unpricedLabels prices bucket start resource rows ↔
      ∃ r ∈ rows, UnpricedAs prices bucket start resource label r.1 := by
  simp only [unpricedLabels, UnpricedAs, List.mem_map, List.mem_filter, beq_iff_eq, Option.isNone_iff_eq_none, and_assoc]

theorem resourceCost_eq (prices : List UsagePrice) (bucket : CostBucket) (start : Int) (resource : String)
    (rows : List LedgerRow) :
    resourceCost prices (rows.filter fun r => periodStart r.1.start bucket == start) resource =
      ⟨resource, (resourceCost prices (rows.filter fun r => periodStart r.1.start bucket == start) resource).cost,
        Table.distinct unitOrder (unpricedLabels prices bucket start resource rows)⟩ := rfl

/-- A bill has the costs of its reading. -/
theorem cost_bill (l : List TenantCosts) (tenantId : String) (start : Int) (resource : String) :
    (findTenant (l.map TenantCosts.bill) tenantId start resource).map (·.cost) =
      (findTenant l tenantId start resource).map (·.cost) := by
  simp only [findTenant, Table.one, List.find?_map]
  rw [Option.bind_map, Option.map_bind, Option.map_bind]
  congr 1
  funext t
  simp only [Function.comp_apply, TenantCosts.bill, Costs.find, Costs.bill, Table.one, List.find?_map]
  rw [Option.bind_map, Option.map_bind, Option.map_bind]
  congr 1
  funext p
  simp only [Function.comp_apply, PeriodCosts.bill, List.find?_map, Option.map_map]
  rfl

section Found

variable (prices : List UsagePrice) (provisioned : List ProvisionedAgent) (tenantId : String) (since until_ : Int)
  (bucket : CostBucket) (start : Int) (resource : String) (d : UsageD1)

/-- A cost of the operator's reading. -/
theorem find_readUsageCosts :
    findTenant (readUsageCosts prices provisioned since until_ bucket d) tenantId start resource =
      (costsByPeriod prices bucket (tenantRows (operatorRows provisioned since until_ d) tenantId false)).find
        start resource := by
  unfold findTenant readUsageCosts
  rw [Table.one_made TenantCosts.tenantId fun _ => rfl]
  simp only [Table.mem_distinct, mem_tenants]
  split
  · rfl
  · rename_i hnone
    rw [find_costsByPeriod, if_neg, Option.bind_none]
    rw [anyFiled_tenantRows]
    rintro ⟨r, hr, hp⟩
    simp only [ofTenant, Bool.and_eq_true] at hp
    exact hnone ⟨r, hr, hp.1.1⟩

/-- Whether the operator's reading has it, and what it is. -/
theorem cost_readUsageCosts :
    (findTenant (readUsageCosts prices provisioned since until_ bucket d) tenantId start resource).map (·.cost) =
      if anyFiled (ofTenant provisioned tenantId false (headingIn bucket start resource)) (windowRows since until_ d) then
        some (tidy (filed prices (ofTenant provisioned tenantId false (headingIn bucket start resource))
          (windowRows since until_ d)))
      else none := by
  rw [find_readUsageCosts, find_costsByPeriod, ← filed_tenantRows, ← cost_resourceCost]
  simp only [anyFiled_tenantRows]
  split
  · rfl
  · rfl

/-- The two readings agree on every resource that both have. -/
theorem views_agree (byAgent : Bool) (hshared : resource ≠ unacceptedTokens) :
    findTenant (readUsageCosts prices provisioned since until_ bucket d) tenantId start resource =
      (readTenantCosts prices provisioned tenantId since until_ bucket byAgent d).costs.find start resource := by
  have hsame : ofTenant provisioned tenantId false (headingIn bucket start resource) =
      ofOwner tenantId (headingIn bucket start resource) := by
    funext h
    by_cases hres : h.resource = resource
    · simp [ofTenant, ofOwner, headingIn, hres, bne_iff_ne.2 hshared]
    · simp [ofTenant, ofOwner, headingIn, beq_false_of_ne hres]
  rw [find_readUsageCosts, readTenantCosts, find_costsByPeriod, find_costsByPeriod]
  simp only [anyFiled_tenantRows, anyFiled_ownRows, hsame]
  split
  · have hcost := cost_resourceCost prices bucket (tenantRows (operatorRows provisioned since until_ d) tenantId false)
      start resource
    rw [filed_tenantRows, hsame, ← filed_ownRows, ← cost_resourceCost] at hcost
    have hlabels : ∀ x, x ∈ unpricedLabels prices bucket start resource
          (tenantRows (operatorRows provisioned since until_ d) tenantId false) ↔
        x ∈ unpricedLabels prices bucket start resource (ownRows tenantId since until_ d) := by
      intro x
      rw [mem_unpricedLabels, mem_unpricedLabels, exists_tenantRows, exists_ownRows]
      refine exists_congr fun r => and_congr_right fun _ => ?_
      constructor
      · rintro ⟨hof, hx⟩
        have hres : r.1.resource = resource := hx.2.1
        exact ⟨by simpa [hres, bne_iff_ne.2 hshared] using hof, hx⟩
      · rintro ⟨hof, hx⟩
        exact ⟨by simpa using (Bool.and_eq_true_iff.1 hof).1, hx⟩
    rw [Option.some.injEq, resourceCost_eq, Table.distinct_congr units_injective hlabels, hcost]
    rfl
  · rfl

end Found

end Usage
end Antiproton
